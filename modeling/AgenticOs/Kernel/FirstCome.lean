import AgenticOs.Kernel.Fairness
import AgenticOs.Lib.Fifo

/-!
# Processes of equal priority are served in the order of their arrival

The scheduler dispatches the ready process of the highest dynamic priority. When all processes have one base
priority, the dynamic priorities fall along the ready queue: who waits longer has aged more, and who arrives
has the base priority. So the first process of the queue is the one dispatched, and the queue is in the order
of arrival.

* **Invariant** (`Level`): one base priority, and dynamic priorities that fall along the queue. Then the first
  process of the queue is the best one (`Level.findBestReady`), and aging keeps the order
  (`Level.ageReadyQueue`).
* **One operation** (`Level.step`): an admitted operation is a step of the queue in the sense of
  `Lib/Fifo.lean`. `Admits` excludes what would link a process twice or change a base priority.
* **Main result** (`first_come_first_served`): in every run of admitted operations, a process that is
  dispatched from the queue came into it before all that are still there (`queuedAt`).
-/

namespace AgenticOs

open Function Lib

namespace Scheduler

variable {ι : Type*} [DecidableEq ι] {s : Scheduler ι} {level : Nat} {gone : Set ι} {q r : ι} {t : List ι}

/-- All processes have one base priority and can be resumed; the dynamic priorities fall along the queue
to the base priority, which those outside it have. The processes in `gone` are no longer of interest. -/
structure Level (level : Nat) (gone : Set ι) (s : Scheduler ι) : Prop where
  pos : 0 < level
  base : ∀ q, (s.procs q).basePriority = level
  resumable : ∀ q, s.dispatchable q = true
  nodup : s.readyQueue.Nodup
  falling : s.readyQueue.Pairwise fun a b => (s.procs b).dynamicPriority ≤ (s.procs a).dynamicPriority
  raised : ∀ q ∈ s.readyQueue, level ≤ (s.procs q).dynamicPriority
  fresh : ∀ q, q ∉ s.readyQueue → q ∉ gone → (s.procs q).dynamicPriority = level

/-! ### The parts of an operation -/

/-- A change of what does not matter here. -/
theorem Level.setProc (h : s.Level level gone) {f : Process → Process}
    (hbase : (f (s.procs q)).basePriority = (s.procs q).basePriority)
    (hdynamic : (f (s.procs q)).dynamicPriority = (s.procs q).dynamicPriority)
    (hresumable : (f (s.procs q)).interruptFrame && (f (s.procs q)).esp != 0) :
    (s.setProc q f).Level level gone := by
  have hdynamic' : ∀ r, ((s.setProc q f).procs r).dynamicPriority = (s.procs r).dynamicPriority := by
    intro r
    by_cases hr : r = q
    · rw [hr, setProc_self, hdynamic]
    · rw [setProc_of_ne hr]
  refine ⟨h.pos, fun r => ?_, fun r => ?_, h.nodup, ?_, fun r hr => ?_, fun r hr hgone => ?_⟩
  · by_cases hr : r = q
    · rw [hr, setProc_self, hbase]
      exact h.base q
    · rw [setProc_of_ne hr]
      exact h.base r
  · unfold dispatchable
    by_cases hr : r = q
    · rw [hr, setProc_self]
      exact hresumable
    · rw [setProc_of_ne hr]
      exact h.resumable r
  · simp only [hdynamic']
    exact h.falling
  · rw [hdynamic']
    exact h.raised r hr
  · rw [hdynamic']
    exact h.fresh r hr hgone

/-- A process that is not in the queue joins it with the base priority. -/
theorem Level.enqueue (h : s.Level level gone) (hout : q ∉ s.readyQueue) (hgone : q ∉ gone) :
    (s.enqueue q).Level level gone ∧ (s.enqueue q).readyQueue = s.readyQueue ++ [q] := by
  have hfresh := h.fresh q hout hgone
  have heq : s.enqueue q = { s with readyQueue := s.readyQueue ++ [q] } := by
    unfold Scheduler.enqueue
    rw [if_neg (by rw [hfresh]; exact Nat.ne_of_gt h.pos)]
  rw [heq]
  refine ⟨⟨h.pos, h.base, h.resumable, ?_, ?_, fun r hr => ?_, fun r hr => ?_⟩, rfl⟩
  · exact List.nodup_append.mpr ⟨h.nodup, List.nodup_singleton q, fun a ha b hb => by
      rw [List.mem_singleton.mp hb]
      exact fun heq => hout (heq ▸ ha)⟩
  · refine List.pairwise_append.mpr ⟨h.falling, List.pairwise_singleton .., fun a ha b hb => ?_⟩
    rw [List.mem_singleton.mp hb, hfresh]
    exact h.raised a ha
  · rcases List.mem_append.mp hr with hr | hr
    · exact h.raised r hr
    · rw [List.mem_singleton.mp hr]
      exact hfresh.ge
  · exact h.fresh r fun hin => hr (List.mem_append_left _ hin)

/-- A process that leaves the queue is gone. -/
theorem Level.erase (h : s.Level level gone) (q : ι) :
    Level level (insert q gone) { s with readyQueue := s.readyQueue.erase q } := by
  refine ⟨h.pos, h.base, h.resumable, h.nodup.erase q, h.falling.sublist List.erase_sublist,
    fun r hr => h.raised r (List.mem_of_mem_erase hr), fun r hr hgone => ?_⟩
  rw [Set.mem_insert_iff, not_or] at hgone
  exact h.fresh r (fun hin => hr ((List.mem_erase_of_ne hgone.1).mpr hin)) hgone.2

omit [DecidableEq ι] in
/-- The first process of the queue is the best one. -/
theorem Level.findBestReady (h : s.Level level gone) (hq : s.readyQueue = q :: t) :
    s.findBestReady = some q := by
  have hfalling := h.falling
  rw [hq] at hfalling
  have hscan : ∀ l : List ι, (∀ r ∈ l, (s.procs r).dynamicPriority ≤ (s.procs q).dynamicPriority) →
      l.foldl s.better (some q) = some q := by
    intro l hl
    induction l with
    | nil => rfl
    | cons a l ih =>
      rw [List.foldl_cons]
      have hkeep : s.better (some q) a = some q := if_neg (Nat.not_lt.mpr (hl a (List.mem_cons_self ..)))
      rw [hkeep]
      exact ih fun r hr => hl r (List.mem_cons_of_mem _ hr)
  unfold Scheduler.findBestReady
  rw [hq, List.foldl_cons]
  exact hscan t fun r hr => List.rel_of_pairwise_cons hfalling hr

/-- The dynamic priority after aging. -/
def aged (n : Nat) : Nat := if n < processMaxPriority then n + 1 else n

/-- Later, a task has aged as much or more. -/
theorem aged_mono {m n : Nat} (h : m ≤ n) : aged m ≤ aged n := by
  unfold aged
  split <;> split <;> omega

/-- A task has waited no longer than it has aged. -/
theorem le_aged (n : Nat) : n ≤ aged n := by
  unfold aged
  split <;> omega

/-- Aging a process changes its dynamic priority only. -/
theorem age_procs : (s.age q).procs = update s.procs q
    { s.procs q with dynamicPriority := aged (s.procs q).dynamicPriority } := by
  unfold age aged
  split
  · rfl
  · exact (update_eq_self q s.procs).symm

/-- Aging comes to each queued process once. -/
theorem foldl_age_procs {l : List ι} (hl : l.Nodup) (r : ι) :
    (l.foldl age s).procs r = if r ∈ l then
      { s.procs r with dynamicPriority := aged (s.procs r).dynamicPriority } else s.procs r := by
  induction l generalizing s with
  | nil => rfl
  | cons a l ih =>
    obtain ⟨ha, hl⟩ := List.nodup_cons.mp hl
    rw [List.foldl_cons, ih hl, age_procs]
    by_cases hr : r = a
    · subst hr
      simp [ha]
    · simp [hr]

/-- **`age_ready_queue`** -/
theorem Level.ageReadyQueue (h : s.Level level gone) :
    s.ageReadyQueue.Level level gone ∧ s.ageReadyQueue.readyQueue = s.readyQueue := by
  have hqueue : s.ageReadyQueue.readyQueue = s.readyQueue := foldl_age_readyQueue _
  have hprocs := @foldl_age_procs _ _ s _ h.nodup
  refine ⟨⟨h.pos, fun r => ?_, fun r => ?_, hqueue ▸ h.nodup, ?_, fun r hr => ?_, fun r hr hgone => ?_⟩, hqueue⟩
  · unfold Scheduler.ageReadyQueue
    rw [hprocs]
    split
    · exact h.base r
    · exact h.base r
  · unfold Scheduler.ageReadyQueue dispatchable
    rw [hprocs]
    split
    · exact h.resumable r
    · exact h.resumable r
  · rw [hqueue]
    refine h.falling.imp_of_mem fun ha hb hle => ?_
    unfold Scheduler.ageReadyQueue
    rw [hprocs, hprocs, if_pos ha, if_pos hb]
    exact aged_mono hle
  · rw [hqueue] at hr
    unfold Scheduler.ageReadyQueue
    rw [hprocs, if_pos hr]
    exact (h.raised r hr).trans (le_aged _)
  · rw [hqueue] at hr
    unfold Scheduler.ageReadyQueue
    rw [hprocs, if_neg hr]
    exact h.fresh r hr hgone

/-- The dispatched process falls back to the base priority. -/
theorem Level.dispatch (h : s.Level level (insert q gone)) (hout : q ∉ s.readyQueue) :
    (s.dispatch q).Level level gone := by
  have hprocs : ∀ r, (s.dispatch q).procs r = if r = q then
      { s.procs q with
        dynamicPriority := (s.procs q).basePriority
        state := .running
        runCount := ((s.procs q).runCount + 1) % wordSize } else s.procs r := fun r => update_apply ..
  have hother : ∀ r ∈ s.readyQueue, (s.dispatch q).procs r = s.procs r := fun r hr =>
    dispatch_of_ne fun heq => hout (heq ▸ hr)
  refine ⟨h.pos, fun r => ?_, fun r => ?_, h.nodup, ?_, fun r hr => ?_, fun r hr hgone => ?_⟩
  · rw [hprocs]
    split
    · exact h.base q
    · exact h.base r
  · unfold dispatchable
    rw [hprocs]
    split
    · exact h.resumable q
    · exact h.resumable r
  · refine h.falling.imp_of_mem fun ha hb hle => ?_
    rw [hother _ ha, hother _ hb]
    exact hle
  · rw [hother r hr]
    exact h.raised r hr
  · rw [hprocs]
    split
    · exact h.base q
    · rename_i hne
      refine h.fresh r hr fun hin => ?_
      exact hgone ((Set.mem_insert_iff.mp hin).resolve_left hne)

/-! ### One operation -/

/-- The processes stay level, and the queue takes a step that serves the dispatched process. -/
def Turn (level : Nat) (gone : Set ι) (s s' : Scheduler ι) : Prop :=
  s'.Level level gone ∧
    QueueStep s.readyQueue (if s'.scheduleCount = s.scheduleCount then none else s'.current) s'.readyQueue

variable {s' s'' : Scheduler ι}

/-- Nobody comes and nobody goes. -/
theorem Turn.quiet (h : s'.Level level gone) (hcount : s'.scheduleCount = s.scheduleCount)
    (hqueue : s'.readyQueue = s.readyQueue) : Turn level gone s s' := by
  refine ⟨h, ?_⟩
  rw [if_pos hcount, hqueue]
  exact .same

/-- A turn after a change of what does not matter here. -/
theorem Turn.after (h : Turn level gone s' s'') (hcount : s'.scheduleCount = s.scheduleCount)
    (hqueue : s'.readyQueue = s.readyQueue) : Turn level gone s s'' := by
  obtain ⟨hlevel, hstep⟩ := h
  rw [hcount, hqueue] at hstep
  exact ⟨hlevel, hstep⟩

/-- A task that comes goes to the back. -/
theorem Turn.enqueue (h : s'.Level level gone) (hcount : s'.scheduleCount = s.scheduleCount)
    (hqueue : s'.readyQueue = s.readyQueue) (hout : q ∉ s'.readyQueue) (hgone : q ∉ gone) :
    Turn level gone s (s'.enqueue q) := by
  obtain ⟨hlevel, hnew⟩ := h.enqueue hout hgone
  refine ⟨hlevel, ?_⟩
  rw [enqueue_scheduleCount, if_pos hcount, hnew, hqueue]
  exact .joined (hqueue ▸ hout)

/-- The first process of the queue is dispatched; others may have joined. -/
theorem Turn.dispatch (h : s'.Level level (insert q gone)) (hcount : s'.scheduleCount = s.scheduleCount)
    (hout : q ∉ s'.readyQueue) (hstep : QueueStep s.readyQueue (some q) s'.readyQueue) :
    Turn level gone s (s'.ageReadyQueue.dispatch q) := by
  obtain ⟨haged, hqueue⟩ := h.ageReadyQueue
  refine ⟨haged.dispatch (hqueue ▸ hout), ?_⟩
  rw [dispatch_scheduleCount, ageReadyQueue_scheduleCount, hcount, if_neg (count_succ_ne _),
    dispatch_readyQueue, hqueue]
  exact hstep

/-- The running process can go into the queue. -/
def Requeues (gone : Set ι) (s : Scheduler ι) : Prop :=
  ∀ c, s.current = some c → (s.procs c).state = .running → c ∉ s.readyQueue ∧ c ∉ gone

/-- The best process of a queue is taken out of it. -/
theorem Level.dequeueBest (h : s.Level level gone) (hq : s.readyQueue = q :: t) :
    s.dequeueBest = (some q, { s with readyQueue := t }) ∧
      Level level (insert q gone) { s with readyQueue := t } := by
  have herase : s.readyQueue.erase q = t := by
    rw [hq, List.erase_cons_head]
  have hlevel := h.erase q
  rw [herase] at hlevel
  refine ⟨?_, hlevel⟩
  unfold Scheduler.dequeueBest
  rw [h.findBestReady hq]
  dsimp only
  rw [herase]

/-- No task is picked from an empty queue. -/
theorem dequeueBest_nil (hq : s.readyQueue = []) : s.dequeueBest = (none, s) := by
  unfold dequeueBest findBestReady
  rw [hq]
  rfl

/-- The running process joins the queue, if there is one. -/
theorem Level.requeueCurrent (h : s.Level level gone) (hrequeues : s.Requeues gone) :
    s.requeueCurrent.Level level gone ∧ (s.requeueCurrent.readyQueue = s.readyQueue ∨
      ∃ c, s.current = some c ∧ (s.procs c).state = .running ∧
        s.requeueCurrent.readyQueue = s.readyQueue ++ [c]) := by
  unfold Scheduler.requeueCurrent
  rcases hcurrent : s.current with _ | c
  · exact ⟨h, .inl rfl⟩
  dsimp only
  split
  · rename_i hrunning
    obtain ⟨hout, hgone⟩ := hrequeues c hcurrent hrunning
    have hready : (s.setProc c fun p => { p with state := .ready }).Level level gone :=
      h.setProc rfl rfl (h.resumable c)
    obtain ⟨hjoined, hqueue⟩ := hready.enqueue hout hgone
    exact ⟨hjoined, .inr ⟨c, rfl, hrunning, hqueue⟩⟩
  · exact ⟨h, .inl rfl⟩

/-- **`scheduler_schedule_locked`** -/
theorem Level.schedulerScheduleLocked (h : s.Level level gone) (hrequeues : s.Requeues gone) :
    Turn level gone s s.schedulerScheduleLocked := by
  unfold Scheduler.schedulerScheduleLocked
  rcases hq : s.readyQueue with _ | ⟨q, t⟩
  · rw [dequeueBest_nil hq]
    exact .quiet h rfl rfl
  obtain ⟨hbest, hlevel⟩ := h.dequeueBest hq
  have hout : q ∉ t := (List.nodup_cons.mp (hq ▸ h.nodup)).1
  have hapart (c : ι) (hc : s.current = some c) (hrunning : (s.procs c).state = .running) :
      c ≠ q ∧ c ∉ t ∧ c ∉ gone := by
    obtain ⟨hcout, hcgone⟩ := hrequeues c hc hrunning
    rw [hq, List.mem_cons, not_or] at hcout
    exact ⟨hcout.1, hcout.2, hcgone⟩
  have hrequeues' : Requeues (insert q gone) { s with readyQueue := t } := by
    intro c hc hrunning
    obtain ⟨hne, hct, hcgone⟩ := hapart c hc hrunning
    exact ⟨hct, by simp [hne, hcgone]⟩
  obtain ⟨hjoined, hqueue⟩ := hlevel.requeueCurrent hrequeues'
  rw [hbest]
  dsimp only
  rcases hqueue with hqueue | ⟨c, hc, hrunning, hqueue⟩
  · refine .dispatch hjoined requeueCurrent_scheduleCount ?_ ?_
    · rw [hqueue]
      exact hout
    · rw [hqueue]
      exact .next hq
  · obtain ⟨hne, hct, -⟩ := hapart c hc hrunning
    refine .dispatch hjoined requeueCurrent_scheduleCount ?_ ?_
    · rw [hqueue]
      simp [hout, hne.symm]
    · rw [hqueue]
      exact .rotated hq (by rw [hq]; simp [hne, hct])

/-- **`scheduler_preempt`** to a task that was found -/
theorem Level.preemptTo (h : s.Level level gone) (hrequeues : s.Requeues gone) (esp : Word) :
    Turn level gone s (s.preemptTo esp).2 := by
  unfold Scheduler.preemptTo
  rcases s.findBestReady with _ | next
  · exact .quiet h rfl rfl
  dsimp only
  split
  · exact .quiet h rfl rfl
  have hturn := h.schedulerScheduleLocked hrequeues
  rcases s.schedulerScheduleLocked.current with _ | c
  · exact hturn
  dsimp only
  split
  · exact hturn
  · exact hturn

/-- **`scheduler_preempt`** -/
theorem Level.schedulerPreempt (h : s.Level level gone) (hrequeues : s.Requeues gone) {esp : Word}
    (hesp : esp ≠ 0) : Turn level gone s (s.schedulerPreempt esp).2 := by
  unfold Scheduler.schedulerPreempt
  split
  · exact .quiet h rfl rfl
  rcases hcurrent : s.current with _ | c
  · exact h.preemptTo hrequeues esp
  dsimp only
  split
  · exact .quiet h rfl rfl
  have hframe := h.resumable c
  unfold dispatchable at hframe
  have hsaved : (s.setProc c fun p => { p with esp := esp }).Level level gone :=
    h.setProc rfl rfl (by simp_all)
  refine (hsaved.preemptTo (fun d hd hrunning => ?_) esp).after rfl rfl
  obtain rfl : c = d := Option.some.inj (hcurrent.symm.trans hd)
  rw [setProc_self] at hrunning
  exact hrequeues c hcurrent hrunning

/-- Nobody is found, so nobody leaves the queue. -/
theorem Level.stopWithoutNext (h : s.Level level gone) (stopped : ι) (esp : Word) (resume : Bool) :
    Turn level gone s (s.stopWithoutNext stopped esp resume).2 := by
  unfold Scheduler.stopWithoutNext
  split
  · have hresumed : (s.setProc stopped fun p => { p with state := .running }).Level level gone :=
      h.setProc rfl rfl (h.resumable stopped)
    exact .quiet hresumed rfl rfl
  · exact .quiet h rfl rfl

/-- **`scheduler_stop_current_locked`** -/
theorem Level.schedulerStopCurrentLocked (h : s.Level level gone) (esp : Word) (state : ProcessState)
    (resume : Bool) : Turn level gone s (s.schedulerStopCurrentLocked esp state resume).2 := by
  unfold Scheduler.schedulerStopCurrentLocked
  rcases s.current with _ | stopped
  · exact .quiet h rfl rfl
  dsimp only
  split
  · exact .quiet h rfl rfl
  rename_i hesp
  have hstopped : (s.setProc stopped fun p =>
      { p with esp := esp, interruptFrame := true, state := state }).Level level gone :=
    h.setProc rfl rfl (by simpa using hesp)
  have hcount : (s.setProc stopped fun p =>
      { p with esp := esp, interruptFrame := true, state := state }).scheduleCount = s.scheduleCount := rfl
  have hqueue : (s.setProc stopped fun p =>
      { p with esp := esp, interruptFrame := true, state := state }).readyQueue = s.readyQueue := rfl
  generalize s.setProc stopped _ = s₁ at hstopped hcount hqueue ⊢
  refine Turn.after ?_ hcount hqueue
  rcases hq : s₁.readyQueue with _ | ⟨q, t⟩
  · rw [dequeueBest_nil hq]
    exact hstopped.stopWithoutNext stopped esp resume
  obtain ⟨hbest, hlevel⟩ := hstopped.dequeueBest hq
  have hnodup := hstopped.nodup
  rw [hq] at hnodup
  rw [hbest]
  dsimp only
  rw [if_neg (by rw [hlevel.resumable q]; exact nofun)]
  exact .dispatch hlevel rfl (List.nodup_cons.mp hnodup).1 (.next hq)

/-! ### Runs -/

/-- The operation brings no process into the queue that is in it or has been removed by an exit, saves no
zero stack pointer and changes no base priority. -/
def Admits (gone : Set ι) (s : Scheduler ι) : SchedulerOp ι → Prop
  | .add proc => proc ∉ s.readyQueue ∧ proc ∉ gone
  | .wake proc => (s.procs proc).state = .blocked → proc ∉ s.readyQueue ∧ proc ∉ gone
  | .schedule => s.Requeues gone
  | .preempt interruptedEsp => interruptedEsp ≠ 0 ∧ s.Requeues gone
  | .setPriority _ _ => False
  | _ => True

/-- The processes that exits have removed, after an operation. -/
def removedBy (gone : Set ι) (op : SchedulerOp ι) : Set ι := gone ∪ {q | op = .remove q}

/-- Every operation of a run is admitted. -/
def AdmitsAll (gone : Set ι) (s : Scheduler ι) : List (SchedulerOp ι) → Prop
  | [] => True
  | op :: ops => s.Admits gone op ∧ (s.step op).AdmitsAll (removedBy gone op) ops

/-- For each process the number of the operation that last brought it into the queue; the first one has
number `n`. -/
def queuedAt (s : Scheduler ι) (n : Nat) (times : ι → Nat) : List (SchedulerOp ι) → ι → Nat
  | [] => times
  | op :: ops => (s.step op).queuedAt (n + 1) (arrivals n s.readyQueue (s.step op).readyQueue times) ops

omit [DecidableEq ι] in
/-- More tasks may be gone. -/
theorem Level.mono {gone' : Set ι} (h : s.Level level gone) (hle : gone ⊆ gone') : s.Level level gone' :=
  { h with fresh := fun q hq hgone => h.fresh q hq fun hin => hgone (hle hin) }

/-- An admitted operation is a step of the queue. -/
theorem Level.step (h : s.Level level gone) {op : SchedulerOp ι} (hadmits : s.Admits gone op) :
    (s.step op).Level level (removedBy gone op) ∧
      QueueStep s.readyQueue (s.dispatched op) (s.step op).readyQueue := by
  have hturn (hturn : Turn level gone s (s.step op)) : (s.step op).Level level (removedBy gone op) ∧
      QueueStep s.readyQueue (s.dispatched op) (s.step op).readyQueue :=
    ⟨hturn.1.mono Set.subset_union_left, hturn.2⟩
  cases op with
  | add proc => exact hturn (.enqueue h rfl rfl hadmits.1 hadmits.2)
  | schedule => exact hturn (h.schedulerScheduleLocked hadmits)
  | preempt interruptedEsp => exact hturn (h.schedulerPreempt hadmits.2 hadmits.1)
  | blockCurrent interruptedEsp => exact hturn (h.schedulerStopCurrentLocked _ _ _)
  | exitCurrent interruptedEsp => exact hturn (h.schedulerStopCurrentLocked _ _ _)
  | wake proc =>
    refine hturn ?_
    unfold Scheduler.step schedulerWake
    dsimp only
    split
    · obtain ⟨hout, hgone⟩ := hadmits ‹_›
      have hready : (s.setProc proc fun p => { p with state := .ready }).Level level gone :=
        h.setProc rfl rfl (h.resumable proc)
      exact .enqueue hready rfl rfl hout hgone
    · exact .quiet h rfl rfl
  | remove proc =>
    have hdispatched : s.dispatched (.remove proc) = none := if_pos rfl
    refine ⟨(h.erase proc).mono fun q hq => ?_, hdispatched ▸ .left proc⟩
    rcases Set.mem_insert_iff.mp hq with rfl | hq
    · exact .inr rfl
    · exact .inl hq
  | setPriority proc priority => exact hadmits.elim

/-- The processes stay level and the queue in the order of arrival. -/
theorem Level.run {ops : List (SchedulerOp ι)} {n : Nat} {times : ι → Nat} (h : s.Level level gone)
    (horder : InOrder n times s.readyQueue) (op : SchedulerOp ι) (hadmits : s.AdmitsAll gone (ops ++ [op])) :
    ∃ n' gone', (s.run ops).Level level gone' ∧ (s.run ops).Admits gone' op ∧
      InOrder n' (s.queuedAt n times ops) (s.run ops).readyQueue := by
  induction ops generalizing s n times gone with
  | nil => exact ⟨n, gone, h, hadmits.1, horder⟩
  | cons first ops ih =>
    obtain ⟨hlevel, hstep⟩ := h.step hadmits.1
    exact ih hlevel (horder.step hstep) hadmits.2

/-- **Processes of equal priority are served first come, first served.** All processes have base priority
`p` and dynamic priority `p` and can be resumed, and none is queued yet. Then every dispatch of an admitted
run takes the process that came into the ready queue before all others in it. -/
theorem first_come_first_served {s : Scheduler ι} {p : Nat} (hp : 1 ≤ p) (hempty : s.readyQueue = [])
    (htasks : ∀ q, (s.procs q).priority = p ∧ (s.procs q).dynamicPriority = p ∧
      (s.procs q).interruptFrame = true ∧ (s.procs q).esp ≠ 0)
    {before : List (SchedulerOp ι)} {op : SchedulerOp ι} (hadmits : s.AdmitsAll ∅ (before ++ [op])) {q : ι}
    (hdispatched : (s.run before).dispatched op = some q) :
    q ∈ (s.run before).readyQueue ∧ ∀ r ∈ (s.run before).readyQueue, r ≠ q →
      s.queuedAt 0 (fun _ => 0) before q < s.queuedAt 0 (fun _ => 0) before r := by
  have hlevel : s.Level p ∅ := by
    refine ⟨hp, fun q => ?_, fun q => ?_, ?_, ?_, ?_, fun q _ _ => (htasks q).2.1⟩
    · unfold Process.basePriority
      rw [(htasks q).1, if_pos (Nat.ne_of_gt hp)]
    · unfold dispatchable
      rw [(htasks q).2.2.1]
      simpa using (htasks q).2.2.2
    · simp [hempty]
    · simp [hempty]
    · simp [hempty]
  have horder : InOrder 0 (fun _ => 0) s.readyQueue := by
    rw [hempty]
    exact ⟨List.Pairwise.nil, nofun⟩
  obtain ⟨n, gone, hrun, hop, hinOrder⟩ := hlevel.run horder op hadmits
  have hstep := (hrun.step hop).2
  rw [hdispatched] at hstep
  exact hinOrder.served_first hstep

/-- Two tasks join while a third one runs. -/
theorem threeTasks_admits :
    threeTasks.AdmitsAll ∅ [.add 0, .schedule, .add 1, .add 2, .schedule] := by
  refine ⟨⟨by decide, by simp⟩, ?_, ⟨by decide, by simp [removedBy]⟩, ⟨by decide, by simp [removedBy]⟩, ?_, trivial⟩
  · have hidle : ∀ c, (threeTasks.run [.add 0]).current ≠ some c := by decide
    exact fun c hc => absurd hc (hidle c)
  · have hout : ∀ c, (threeTasks.run [.add 0, .schedule, .add 1, .add 2]).current = some c →
        c ∉ (threeTasks.run [.add 0, .schedule, .add 1, .add 2]).readyQueue := by decide
    exact fun c hc _ => ⟨hout c hc, by simp [removedBy]⟩

/-- The second task came before the third. -/
theorem first_come_first_served_three :
    1 ∈ (threeTasks.run [.add 0, .schedule, .add 1, .add 2]).readyQueue ∧
      ∀ r ∈ (threeTasks.run [.add 0, .schedule, .add 1, .add 2]).readyQueue, r ≠ 1 →
        threeTasks.queuedAt 0 (fun _ => 0) [.add 0, .schedule, .add 1, .add 2] 1 <
          threeTasks.queuedAt 0 (fun _ => 0) [.add 0, .schedule, .add 1, .add 2] r :=
  @first_come_first_served _ _ threeTasks 1 (by decide) rfl (by decide) [.add 0, .schedule, .add 1, .add 2]
    .schedule threeTasks_admits 1 (by decide)

end Scheduler

end AgenticOs
