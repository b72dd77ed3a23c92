import AgenticOs.Kernel.Scheduler
import Mathlib.Data.List.MinMax

/-!
# No ready process starves

A process waits in the ready queue with a priority and a place. Every dispatch of another process either
raises its priority, or, once it has the highest one, takes away a process ahead of it, since the scan for the
best process prefers the earlier of two equals and arrivals join at the tail. So `PROCESS_MAX_PRIORITY` less
its priority, plus the number of processes ahead of it, bounds the dispatches that can still pass it over
(`rank`).

* **The scan** (`findBestReady_first`): it finds the first process of the highest priority.
* **Parts of an operation** (`Passed.enqueue`, `Passed.dequeue`, `Passed.next`): each keeps the process
  waiting and uses up the rank by the dispatches that it makes.
* **One operation** (`step_moves`): an operation that spares a waiting process dispatches it, or somebody
  else, or nobody. `step_enters` says with which priority a process comes into the queue.
* **Main result** (`ready_never_starves`): in every run of operations that spare the process, no more than
  fifteen others and those ahead of it when it entered the queue are dispatched while it waits.
-/

namespace AgenticOs

open Function Lib

/-- The operations of the scheduler on processes it is given. -/
inductive SchedulerOp (ι : Type*)
  | add (proc : ι)
  | schedule
  | preempt (interruptedEsp : Word)
  | blockCurrent (interruptedEsp : Word)
  | exitCurrent (interruptedEsp : Word)
  | wake (proc : ι)
  | remove (proc : ι)
  | setPriority (proc : ι) (priority : Nat)

namespace Scheduler

variable {ι : Type*} [DecidableEq ι] {s : Scheduler ι} {p q : ι}

/-! ### What the operations leave alone -/

/-- A change of a process leaves the queue alone. -/
@[simp] theorem setProc_readyQueue (f : Process → Process) :
    (s.setProc q f).readyQueue = s.readyQueue := rfl

/-- And the count of dispatches. -/
@[simp] theorem setProc_current (f : Process → Process) : (s.setProc q f).current = s.current := rfl
@[simp] theorem setProc_scheduleCount (f : Process → Process) :
    (s.setProc q f).scheduleCount = s.scheduleCount := rfl

/-- The process that is changed. -/
@[simp] theorem setProc_self (f : Process → Process) :
    (s.setProc q f).procs q = f (s.procs q) := update_self _ _ _

/-- The other processes. -/
theorem setProc_of_ne (h : p ≠ q) (f : Process → Process) :
    (s.setProc q f).procs p = s.procs p := update_of_ne h _ _

/-- A dispatch is counted. -/
@[simp] theorem dispatch_current : (s.dispatch q).current = some q := rfl
@[simp] theorem dispatch_readyQueue : (s.dispatch q).readyQueue = s.readyQueue := rfl
@[simp] theorem dispatch_scheduleCount :
    (s.dispatch q).scheduleCount = (s.scheduleCount + 1) % wordSize := rfl

/-- A dispatch changes no other process. -/
theorem dispatch_of_ne (h : p ≠ q) : (s.dispatch q).procs p = s.procs p := update_of_ne h _ _

/-! ### The scan of the ready queue -/

omit [DecidableEq ι] in
/-- The scan finds the first process of the highest priority. -/
theorem findBestReady_eq :
    s.findBestReady = s.readyQueue.argmax fun p => (s.procs p).dynamicPriority := by
  unfold findBestReady List.argmax
  congr 1
  funext best proc
  cases best <;> rfl

omit [DecidableEq ι] in

/-- The scan finds a member of the queue. -/
theorem findBestReady_mem (h : s.findBestReady = some q) : q ∈ s.readyQueue := by
  rw [findBestReady_eq] at h
  exact List.argmax_mem h

/-- No process ahead of the one found has its priority. -/
theorem findBestReady_first (h : s.findBestReady = some q) (hp : p ∈ s.readyQueue)
    (hle : (s.procs q).dynamicPriority ≤ (s.procs p).dynamicPriority) :
    s.readyQueue.idxOf q ≤ s.readyQueue.idxOf p := by
  rw [findBestReady_eq] at h
  exact List.index_of_argmax (f := fun p => (s.procs p).dynamicPriority) h hp hle

omit [DecidableEq ι] in

/-- Only an empty queue has no best process. -/
theorem findBestReady_none (h : s.findBestReady = none) : s.readyQueue = [] := by
  rw [findBestReady_eq] at h
  exact List.argmax_eq_none.mp h

/-! ### Places in a queue -/

/-- Taking a member out of a queue moves no other one back. -/
theorem idxOf_erase_le {l : List ι} (hp : p ∈ l) (hne : p ≠ q) :
    (l.erase q).idxOf p ≤ l.idxOf p := by
  induction l with
  | nil => exact Nat.le_refl _
  | cons a l ih =>
    by_cases ha : a = q
    · subst ha
      rw [List.erase_cons_head, List.idxOf_cons_ne l (Ne.symm hne)]
      exact Nat.le_succ _
    · rw [List.erase_cons_tail (by simpa using ha)]
      by_cases hap : a = p
      · subst hap
        rw [List.idxOf_cons_self]
        exact Nat.zero_le _
      · rw [List.idxOf_cons_ne _ hap, List.idxOf_cons_ne _ hap]
        exact Nat.succ_le_succ (ih ((List.mem_cons.mp hp).resolve_left (Ne.symm hap)))

/-- Taking out a member ahead of it moves a member forward. -/
theorem idxOf_erase_lt {l : List ι} (hp : p ∈ l) (hne : p ≠ q) (hle : l.idxOf q ≤ l.idxOf p) :
    (l.erase q).idxOf p < l.idxOf p := by
  induction l with
  | nil => cases hp
  | cons a l ih =>
    by_cases ha : a = q
    · subst ha
      rw [List.erase_cons_head, List.idxOf_cons_ne l (Ne.symm hne)]
      exact Nat.lt_succ_self _
    · by_cases hap : a = p
      · subst hap
        rw [List.idxOf_cons_ne _ ha, List.idxOf_cons_self] at hle
        cases hle
      · rw [List.idxOf_cons_ne _ ha, List.idxOf_cons_ne _ hap] at hle
        rw [List.erase_cons_tail (by simpa using ha), List.idxOf_cons_ne _ hap,
          List.idxOf_cons_ne _ hap]
        exact Nat.succ_lt_succ (ih ((List.mem_cons.mp hp).resolve_left (Ne.symm hap))
          (Nat.le_of_succ_le_succ hle))

/-! ### Waiting -/

/-- No priority is above `PROCESS_MAX_PRIORITY`. -/
def Bounded (s : Scheduler ι) : Prop :=
  ∀ q, (s.procs q).priority ≤ processMaxPriority ∧
    (s.procs q).dynamicPriority ≤ processMaxPriority

/-- A change that keeps the priorities of one process below the bound. -/
theorem Bounded.setProc (h : s.Bounded) (f : Process → Process)
    (hb : (s.procs q).priority ≤ processMaxPriority →
      (s.procs q).dynamicPriority ≤ processMaxPriority →
      (f (s.procs q)).priority ≤ processMaxPriority ∧
        (f (s.procs q)).dynamicPriority ≤ processMaxPriority) :
    (s.setProc q f).Bounded := by
  intro r
  by_cases hr : r = q
  · subst hr
    rw [setProc_self]
    exact hb (h r).1 (h r).2
  · rw [setProc_of_ne hr]
    exact h r

omit [DecidableEq ι] in

/-- The priority that a dispatched process falls back to is below the bound. -/
theorem Bounded.base (h : s.Bounded) (q : ι) : (s.procs q).basePriority ≤ processMaxPriority := by
  unfold Process.basePriority
  split
  · exact (h q).1
  · decide

/-- Arrivals have a priority below the bound. -/
theorem Bounded.enqueue (h : s.Bounded) (q : ι) : (s.enqueue q).Bounded := by
  unfold Scheduler.enqueue
  dsimp only
  split
  · exact h.setProc (fun x => { x with dynamicPriority := x.basePriority })
      fun hx _ => ⟨hx, h.base q⟩
  · exact h

/-- So has everybody after some have aged. -/
theorem Bounded.foldl_age (h : s.Bounded) (l : List ι) : (l.foldl Scheduler.age s).Bounded := by
  induction l generalizing s with
  | nil => exact h
  | cons a l ih =>
    apply ih
    unfold Scheduler.age
    split
    · exact h.setProc (fun x => { x with dynamicPriority := x.dynamicPriority + 1 })
        fun hx _ => ⟨hx, ‹_›⟩
    · exact h

/-- A dispatch brings the priority back to that of the process. -/
theorem Bounded.dispatch (h : s.Bounded) (q : ι) : (s.dispatch q).Bounded :=
  h.setProc (fun x => { x with
    dynamicPriority := x.basePriority
    state := .running
    runCount := (x.runCount + 1) % wordSize }) fun hx _ => ⟨hx, h.base q⟩

/-- The running process goes back into the queue. -/
theorem Bounded.requeueCurrent (h : s.Bounded) : s.requeueCurrent.Bounded := by
  unfold Scheduler.requeueCurrent
  rcases s.current with _ | current
  · exact h
  · dsimp only
    split
    · exact (h.setProc (fun x => { x with state := .ready }) fun hx hd => ⟨hx, hd⟩).enqueue current
    · exact h

/-- `scheduler_set_priority` clamps. -/
theorem clamp_le (n : Nat) :
    (if n > processMaxPriority then processMaxPriority else n) ≤ processMaxPriority := by
  split
  · exact Nat.le_refl _
  · exact Nat.le_of_not_lt ‹_›

/-- A queued process that an interrupt stub can resume. -/
structure Waits (s : Scheduler ι) (p : ι) : Prop where
  bounded : s.Bounded
  queued : p ∈ s.readyQueue
  raised : 0 < (s.procs p).dynamicPriority
  frame : (s.procs p).interruptFrame = true
  esp : (s.procs p).esp ≠ 0

/-- The dispatches that can still pass a waiting process over. -/
def rank (s : Scheduler ι) (p : ι) : Nat :=
  processMaxPriority - (s.procs p).dynamicPriority + s.readyQueue.idxOf p

/-- The process still waits, and `n` of the dispatches that can pass it over are used up. -/
def Passed (p : ι) (n : Nat) (s s' : Scheduler ι) : Prop :=
  s.Waits p → s'.Waits p ∧ s'.rank p + n ≤ s.rank p

/-- What is used up of the rank adds up. -/
theorem Passed.trans {m n : Nat} {s' s'' : Scheduler ι} (h : Passed p m s s')
    (h' : Passed p n s' s'') : Passed p (m + n) s s'' := by
  intro hw
  obtain ⟨hw', hle⟩ := h hw
  obtain ⟨hw'', hle'⟩ := h' hw'
  exact ⟨hw'', by omega⟩

/-- Nothing has happened. -/
theorem Passed.refl : Passed p 0 s s := fun hw => ⟨hw, Nat.le_refl _⟩

/-! ### The steps of an operation -/

/-- A change of one process that raises no priority above the bound and, if it is the waiting
process, keeps it waiting. -/
theorem Passed.setProc {f : Process → Process}
    (hb : (s.procs q).priority ≤ processMaxPriority →
      (s.procs q).dynamicPriority ≤ processMaxPriority →
      (f (s.procs q)).priority ≤ processMaxPriority ∧
        (f (s.procs q)).dynamicPriority ≤ processMaxPriority)
    (hp : p = q → (s.procs q).interruptFrame = true → (s.procs q).esp ≠ 0 →
      (s.procs q).dynamicPriority ≤ (f (s.procs q)).dynamicPriority ∧
        (f (s.procs q)).interruptFrame = true ∧ (f (s.procs q)).esp ≠ 0) :
    Passed p 0 s (s.setProc q f) := by
  intro hw
  have hkept : (s.procs p).dynamicPriority ≤ ((s.setProc q f).procs p).dynamicPriority ∧
      ((s.setProc q f).procs p).interruptFrame = true ∧ ((s.setProc q f).procs p).esp ≠ 0 := by
    by_cases hpq : p = q
    · subst hpq
      rw [setProc_self]
      exact hp rfl hw.frame hw.esp
    · rw [setProc_of_ne hpq]
      exact ⟨Nat.le_refl _, hw.frame, hw.esp⟩
  refine ⟨⟨hw.bounded.setProc f hb, hw.queued, Nat.lt_of_lt_of_le hw.raised hkept.1, hkept.2.1,
    hkept.2.2⟩, ?_⟩
  unfold rank
  rw [setProc_readyQueue]
  have := hkept.1
  omega

/-- Arrivals join at the tail. -/
theorem Passed.enqueue : Passed p 0 s (s.enqueue q) := by
  unfold Scheduler.enqueue
  intro hw
  -- the waiting process has a priority already
  have hset : Passed p 0 s (if (s.procs q).dynamicPriority = 0 then
      s.setProc q fun x => { x with dynamicPriority := x.basePriority } else s) := by
    split
    · rename_i hzero
      have hne : p ≠ q := by
        intro h
        subst h
        exact Nat.ne_of_gt hw.raised hzero
      exact Passed.setProc (fun hx _ => ⟨hx, hw.bounded.base q⟩) fun h => absurd h hne
    · exact Passed.refl
  obtain ⟨hw', hle⟩ := hset hw
  refine ⟨⟨hw'.bounded, List.mem_append_left _ hw'.queued, hw'.raised, hw'.frame, hw'.esp⟩, ?_⟩
  unfold rank at hle ⊢
  dsimp only
  rw [List.idxOf_append_of_mem hw'.queued]
  exact hle

/-- Another process leaves the queue. -/
theorem Passed.erase (hne : p ≠ q) :
    Passed p 0 s { s with readyQueue := s.readyQueue.erase q } := by
  intro hw
  refine ⟨⟨hw.bounded, (List.mem_erase_of_ne hne).mpr hw.queued, hw.raised, hw.frame, hw.esp⟩, ?_⟩
  have := idxOf_erase_le hw.queued hne
  unfold rank
  dsimp only
  omega

/-- Another process is the best one: a process of the highest priority loses one ahead of it. -/
theorem Passed.dequeue (hbest : s.findBestReady = some q) (hne : p ≠ q)
    (hmax : processMaxPriority ≤ (s.procs p).dynamicPriority) :
    Passed p 1 s { s with readyQueue := s.readyQueue.erase q } := by
  intro hw
  have hle : (s.procs q).dynamicPriority ≤ (s.procs p).dynamicPriority :=
    Nat.le_trans (hw.bounded q).2 hmax
  have hlt := idxOf_erase_lt hw.queued hne (findBestReady_first hbest hw.queued hle)
  refine ⟨(Passed.erase hne hw).1, ?_⟩
  unfold rank
  dsimp only
  omega

/-- Aging makes nobody wait longer. -/
theorem Passed.age : Passed p 0 s (s.age q) := by
  unfold Scheduler.age
  split
  · rename_i hlt
    apply Passed.setProc
    · exact fun hx _ => ⟨hx, hlt⟩
    · exact fun _ hf he => ⟨Nat.le_succ _, hf, he⟩
  · exact Passed.refl

/-- Nor does aging all of them. -/
theorem Passed.foldl_age (l : List ι) : Passed p 0 s (l.foldl Scheduler.age s) := by
  induction l generalizing s with
  | nil => exact Passed.refl
  | cons a l ih => exact Passed.age.trans ih

/-- Aging one process changes no other. -/
theorem age_of_ne (h : p ≠ q) : (s.age q).procs p = s.procs p := by
  unfold Scheduler.age
  split
  · exact setProc_of_ne h _
  · rfl

/-- A process that is not in the list does not age. -/
theorem foldl_age_of_not_mem {l : List ι} (h : p ∉ l) :
    (l.foldl Scheduler.age s).procs p = s.procs p := by
  induction l generalizing s with
  | nil => rfl
  | cons a l ih =>
    rw [List.mem_cons, not_or] at h
    rw [List.foldl_cons, ih h.2, age_of_ne h.1]

/-- Aging moves nobody in the queue. -/
theorem age_readyQueue : (s.age q).readyQueue = s.readyQueue := by
  unfold Scheduler.age
  split <;> rfl

/-- Nor does aging all of them. -/
theorem foldl_age_readyQueue (l : List ι) :
    (l.foldl Scheduler.age s).readyQueue = s.readyQueue := by
  induction l generalizing s with
  | nil => rfl
  | cons a l ih => rw [List.foldl_cons, ih, age_readyQueue]

/-- Aging raises a queued process that has not the highest priority. -/
theorem Passed.raised (hlt : (s.procs p).dynamicPriority < processMaxPriority) :
    Passed p 1 s (s.age p) := by
  intro hw
  refine ⟨(Passed.age hw).1, ?_⟩
  unfold Scheduler.age rank
  rw [if_pos hlt, setProc_self, setProc_readyQueue]
  dsimp only
  omega

/-- Aging the queue brings a process closer that has not the highest priority. -/
theorem Passed.ageReadyQueue (hlt : (s.procs p).dynamicPriority < processMaxPriority) :
    Passed p 1 s s.ageReadyQueue := by
  intro hw
  unfold Scheduler.ageReadyQueue
  obtain ⟨before, after, hl, hno⟩ := List.eq_append_cons_of_mem hw.queued
  rw [hl, List.foldl_append, List.foldl_cons]
  have hsame := foldl_age_of_not_mem (s := s) hno
  have h1 := Passed.foldl_age (p := p) (s := s) before
  have h2 := Passed.raised (s := before.foldl Scheduler.age s) (p := p) (by rw [hsame]; exact hlt)
  exact ((h1.trans h2).trans (Passed.foldl_age after)) hw

/-- The dispatch of another process, once it is out of the queue. -/
theorem Passed.dispatch (hne : p ≠ q) : Passed p 0 s (s.dispatch q) := by
  intro hw
  have hw' : (s.dispatch q).Waits p := by
    constructor
    · exact hw.bounded.dispatch q
    · exact hw.queued
    all_goals rw [dispatch_of_ne hne]
    exacts [hw.raised, hw.frame, hw.esp]
  refine ⟨hw', ?_⟩
  unfold rank
  rw [dispatch_of_ne hne, dispatch_readyQueue]
  exact Nat.le_refl _

/-- The best process is dequeued, the others age, it is dispatched: the dispatch counts. -/
theorem Passed.next (hbest : s.findBestReady = some q) (hne : p ≠ q) {f : Scheduler ι → Scheduler ι}
    (hf : ∀ s : Scheduler ι, Passed p 0 s (f s))
    (hsame : ∀ s : Scheduler ι, 0 < (s.procs p).dynamicPriority →
      ((f s).procs p).dynamicPriority = (s.procs p).dynamicPriority) :
    Passed p 1 s ((f { s with readyQueue := s.readyQueue.erase q }).ageReadyQueue.dispatch q) := by
  intro hw
  by_cases hmax : (s.procs p).dynamicPriority < processMaxPriority
  · have hlt : ((f { s with readyQueue := s.readyQueue.erase q }).procs p).dynamicPriority <
        processMaxPriority := by
      have heq := hsame { s with readyQueue := s.readyQueue.erase q } hw.raised
      rw [heq]
      exact hmax
    exact ((((Passed.erase hne).trans (hf _)).trans (Passed.ageReadyQueue hlt)).trans
      (Passed.dispatch hne)) hw
  · exact ((((Passed.dequeue hbest hne (Nat.le_of_not_lt hmax)).trans (hf _)).trans
      (Passed.foldl_age _)).trans (Passed.dispatch hne)) hw

/-- The running process joins at the tail. -/
theorem Passed.requeueCurrent (s : Scheduler ι) : Passed p 0 s s.requeueCurrent := by
  unfold Scheduler.requeueCurrent
  rcases s.current with _ | current
  · exact Passed.refl
  · dsimp only
    split
    · refine Passed.trans (Passed.setProc (fun hx hd => ⟨hx, hd⟩) ?_) Passed.enqueue
      exact fun _ hf he => ⟨Nat.le_refl _, hf, he⟩
    · exact Passed.refl

/-- An arrival changes no priority but one that is zero. -/
theorem enqueue_dynamicPriority (hpos : 0 < (s.procs p).dynamicPriority) :
    ((s.enqueue q).procs p).dynamicPriority = (s.procs p).dynamicPriority := by
  unfold Scheduler.enqueue
  dsimp only
  split
  · rename_i hzero
    rw [setProc_of_ne]
    intro h
    subst h
    exact Nat.ne_of_gt hpos hzero
  · rfl

/-- Nor does the running process that joins the queue. -/
theorem requeueCurrent_dynamicPriority (s : Scheduler ι)
    (hpos : 0 < (s.procs p).dynamicPriority) :
    (s.requeueCurrent.procs p).dynamicPriority = (s.procs p).dynamicPriority := by
  unfold Scheduler.requeueCurrent
  rcases s.current with _ | current
  · rfl
  · dsimp only
    split
    · have hset : ((s.setProc current fun x => { x with state := .ready }).procs p).dynamicPriority =
          (s.procs p).dynamicPriority := by
        by_cases h : p = current
        · subst h
          rw [setProc_self]
        · rw [setProc_of_ne h]
      rw [enqueue_dynamicPriority (by rw [hset]; exact hpos), hset]
    · rfl

/-! ### Operations, runs and dispatches -/

/-- One operation. -/
def step (s : Scheduler ι) : SchedulerOp ι → Scheduler ι
  | .add proc => s.schedulerAdd proc
  | .schedule => s.schedulerSchedule
  | .preempt interruptedEsp => (s.schedulerPreempt interruptedEsp).2
  | .blockCurrent interruptedEsp => (s.schedulerBlockCurrent interruptedEsp).2
  | .exitCurrent interruptedEsp => (s.schedulerExitCurrent interruptedEsp).2
  | .wake proc => s.schedulerWake proc
  | .remove proc => s.schedulerRemove proc
  | .setPriority proc priority => s.schedulerSetPriority proc priority

/-- A run of operations. -/
def run (s : Scheduler ι) (ops : List (SchedulerOp ι)) : Scheduler ι := ops.foldl step s

/-- The process an operation dispatches, as `scheduler_get_count` and `scheduler_get_current` show
it. -/
def dispatched (s : Scheduler ι) (op : SchedulerOp ι) : Option ι :=
  if (s.step op).scheduleCount = s.scheduleCount then none else (s.step op).current

/-- The processes dispatched in a run, in order. -/
def dispatches (s : Scheduler ι) : List (SchedulerOp ι) → List ι
  | [] => []
  | op :: ops => (s.dispatched op).toList ++ (s.step op).dispatches ops

/-- The operation neither removes nor re-prioritises a waiting process, nor overwrites its saved
stack pointer by zero. -/
def Spares (p : ι) (s : Scheduler ι) : SchedulerOp ι → Prop
  | .preempt interruptedEsp => s.current = some p → interruptedEsp ≠ 0
  | .remove proc => proc ≠ p
  | .setPriority proc _ => proc ≠ p
  | _ => True

/-- Every operation of a run spares the process. -/
def SparesAll (p : ι) (s : Scheduler ι) : List (SchedulerOp ι) → Prop
  | [] => True
  | op :: ops => s.Spares p op ∧ (s.step op).SparesAll p ops

/-! ### One step -/

/-- No dispatch, and the process waits on, or a dispatch, which counts unless it is the process
itself that is dispatched. -/
def Moves (p : ι) (s s' : Scheduler ι) : Prop :=
  s'.scheduleCount = s.scheduleCount ∧ Passed p 0 s s' ∨
    ∃ q, s'.current = some q ∧ s'.scheduleCount ≠ s.scheduleCount ∧ (p ≠ q → Passed p 1 s s')

/-- A step without a dispatch. -/
theorem Moves.quiet {s' : Scheduler ι} (hc : s'.scheduleCount = s.scheduleCount)
    (h : Passed p 0 s s') : Moves p s s' := .inl ⟨hc, h⟩

/-- A step that is preceded by one without a dispatch. -/
theorem Moves.after {s' s'' : Scheduler ι} (hm : Moves p s' s'') (h : Passed p 0 s s')
    (hc : s'.scheduleCount = s.scheduleCount) : Moves p s s'' := by
  rcases hm with ⟨hc', h'⟩ | ⟨q, hcur, hc', h'⟩
  · exact .inl ⟨hc'.trans hc, h.trans h'⟩
  · exact .inr ⟨q, hcur, hc ▸ hc', fun hne => Nat.zero_add 1 ▸ h.trans (h' hne)⟩

/-- A count of dispatches that goes up shows, also where it wraps. -/
theorem count_succ_ne (n : Nat) : (n + 1) % wordSize ≠ n := by
  unfold wordSize
  omega

/-- Aging is no dispatch. -/
theorem age_scheduleCount : (s.age q).scheduleCount = s.scheduleCount := by
  unfold Scheduler.age
  split <;> rfl

/-- Nor is aging the queue. -/
theorem ageReadyQueue_scheduleCount : s.ageReadyQueue.scheduleCount = s.scheduleCount := by
  unfold Scheduler.ageReadyQueue
  induction s.readyQueue generalizing s with
  | nil => rfl
  | cons a l ih => rw [List.foldl_cons, ih, age_scheduleCount]

/-- Nor is an arrival. -/
theorem enqueue_scheduleCount : (s.enqueue q).scheduleCount = s.scheduleCount := by
  unfold Scheduler.enqueue
  dsimp only
  split <;> rfl

/-- Nor is the running process that joins the queue. -/
theorem requeueCurrent_scheduleCount : s.requeueCurrent.scheduleCount = s.scheduleCount := by
  unfold Scheduler.requeueCurrent
  rcases s.current with _ | current
  · rfl
  · dsimp only
    split
    · rw [enqueue_scheduleCount, setProc_scheduleCount]
    · rfl

/-- A dispatch of the best process is a move. -/
theorem Moves.next (hbest : s.findBestReady = some q) {f : Scheduler ι → Scheduler ι}
    (hf : ∀ s : Scheduler ι, Passed p 0 s (f s))
    (hsame : ∀ s : Scheduler ι, 0 < (s.procs p).dynamicPriority →
      ((f s).procs p).dynamicPriority = (s.procs p).dynamicPriority)
    (hcount : ∀ s : Scheduler ι, (f s).scheduleCount = s.scheduleCount) :
    Moves p s ((f { s with readyQueue := s.readyQueue.erase q }).ageReadyQueue.dispatch q) := by
  refine .inr ⟨q, dispatch_current, ?_, fun hne => Passed.next hbest hne hf hsame⟩
  have h := hcount { s with readyQueue := s.readyQueue.erase q }
  rw [dispatch_scheduleCount, ageReadyQueue_scheduleCount, h]
  exact count_succ_ne _

/-- `scheduler_schedule_locked` dispatches the best process, if there is one. -/
theorem schedulerScheduleLocked_moves : Moves p s s.schedulerScheduleLocked := by
  unfold schedulerScheduleLocked dequeueBest
  rcases hbest : s.findBestReady with _ | q
  · exact .quiet rfl Passed.refl
  · exact .next hbest Passed.requeueCurrent (fun s => requeueCurrent_dynamicPriority s)
      fun _ => requeueCurrent_scheduleCount

/-- `preemptTo` does so too, and the process that ran has joined the queue before. -/
theorem preemptTo_moves (esp : Word) : Moves p s (s.preemptTo esp).2 := by
  unfold preemptTo
  rcases s.findBestReady with _ | next
  · exact .quiet rfl Passed.refl
  · dsimp only
    split
    · exact .quiet rfl Passed.refl
    · have hm := schedulerScheduleLocked_moves (s := s) (p := p)
      revert hm
      generalize s.schedulerScheduleLocked = s'
      intro hm
      rcases s'.current with _ | current
      · exact hm
      · dsimp only
        split <;> exact hm

/-- `scheduler_preempt`. The stack pointer that it saves must not be zero if it is that of the waiting process. -/
theorem schedulerPreempt_moves {esp : Word} (hesp : s.current = some p → esp ≠ 0) :
    Moves p s (s.schedulerPreempt esp).2 := by
  unfold schedulerPreempt
  split
  · exact .quiet rfl Passed.refl
  · rcases hcur : s.current with _ | current
    · exact preemptTo_moves esp
    · dsimp only
      split
      · exact .quiet rfl Passed.refl
      · refine (preemptTo_moves esp).after ?_ rfl
        refine Passed.setProc (fun hx hd => ⟨hx, hd⟩) fun h hf _ => ⟨Nat.le_refl _, hf, ?_⟩
        subst h
        exact hesp hcur

/-- Nobody to dispatch: nobody is dispatched. -/
theorem stopWithoutNext_moves (stopped : ι) (esp : Word) (resume : Bool) :
    Moves p s (s.stopWithoutNext stopped esp resume).2 := by
  unfold stopWithoutNext
  split
  · have hset : Passed p 0 s (s.setProc stopped fun x => { x with state := .running }) :=
      Passed.setProc (fun hx hd => ⟨hx, hd⟩) fun _ hf he => ⟨Nat.le_refl _, hf, he⟩
    exact .quiet rfl hset
  · exact .quiet rfl Passed.refl

/-- The two functions that stop the current process dispatch the best one, if there is one. -/
theorem schedulerStopCurrentLocked_moves (esp : Word) (state : ProcessState) (resume : Bool) :
    Moves p s (s.schedulerStopCurrentLocked esp state resume).2 := by
  unfold schedulerStopCurrentLocked
  rcases s.current with _ | stopped
  · exact .quiet rfl Passed.refl
  · dsimp only
    split
    · exact .quiet rfl Passed.refl
    · rename_i hesp
      have hset : Passed p 0 s (s.setProc stopped fun x =>
          { x with esp := esp, interruptFrame := true, state := state }) :=
        Passed.setProc (fun hx hd => ⟨hx, hd⟩) fun _ _ _ => ⟨Nat.le_refl _, rfl, hesp⟩
      refine Moves.after ?_ hset rfl
      generalize s.setProc stopped _ = s'
      unfold dequeueBest
      rcases hbest : s'.findBestReady with _ | next
      · exact stopWithoutNext_moves _ _ _
      · dsimp only
        split
        · -- the best process cannot be resumed, so it is not the waiting one
          rename_i hno
          have hback : Passed p 0 s' (({ s' with readyQueue := s'.readyQueue.erase next }).enqueue
              next) := by
            intro hw
            have hne : p ≠ next := by
              intro h
              subst h
              simp only [dispatchable, hw.frame, Bool.true_and, Bool.not_eq_true', bne_eq_false_iff_eq] at hno
              exact hw.esp hno
            exact ((Passed.erase hne).trans Passed.enqueue) hw
          exact (stopWithoutNext_moves _ _ _).after hback enqueue_scheduleCount
        · exact Moves.next hbest (fun _ => Passed.refl) (fun _ _ => rfl) fun _ => rfl

/-- An operation that spares a waiting process is a move. -/
theorem step_moves {op : SchedulerOp ι} (hs : s.Spares p op) : Moves p s (s.step op) := by
  cases op with
  | add proc => exact .quiet enqueue_scheduleCount Passed.enqueue
  | schedule => exact schedulerScheduleLocked_moves
  | preempt esp => exact schedulerPreempt_moves hs
  | blockCurrent esp => exact schedulerStopCurrentLocked_moves _ _ _
  | exitCurrent esp => exact schedulerStopCurrentLocked_moves _ _ _
  | wake proc =>
    unfold step schedulerWake
    dsimp only
    split
    · have hset : Passed p 0 s (s.setProc proc fun x => { x with state := .ready }) :=
        Passed.setProc (fun hx hd => ⟨hx, hd⟩) fun _ hf he => ⟨Nat.le_refl _, hf, he⟩
      exact .quiet enqueue_scheduleCount (hset.trans Passed.enqueue)
    · exact .quiet rfl Passed.refl
  | remove proc => exact .quiet rfl (Passed.erase (Ne.symm hs))
  | setPriority proc priority =>
    have hset : ∀ n, Passed p 0 s (s.setProc proc fun x =>
        { x with
          priority := if n > processMaxPriority then processMaxPriority else n
          dynamicPriority := if n > processMaxPriority then processMaxPriority else n }) :=
      fun n => Passed.setProc (fun _ _ => ⟨clamp_le n, clamp_le n⟩) fun h => absurd h.symm hs
    exact .quiet rfl (hset _)

/-- What one operation does to the rank of a waiting process that it does not dispatch. -/
theorem step_passed {op : SchedulerOp ι} (hs : s.Spares p op) (hd : s.dispatched op ≠ some p) :
    Passed p (s.dispatched op).toList.length s (s.step op) := by
  unfold dispatched at hd ⊢
  rcases step_moves hs with ⟨hc, h⟩ | ⟨q, hcur, hc, h⟩
  · rw [if_pos hc]
    exact h
  · rw [if_neg hc, hcur] at hd ⊢
    exact h fun heq => hd (congrArg some heq.symm)

/-- The rank is used up by the dispatches of a run. -/
theorem run_passed {ops : List (SchedulerOp ι)} (hs : s.SparesAll p ops)
    (hd : p ∉ s.dispatches ops) : Passed p (s.dispatches ops).length s (s.run ops) := by
  induction ops generalizing s with
  | nil => exact Passed.refl
  | cons op ops ih =>
    unfold dispatches at hd ⊢
    rw [List.mem_append, not_or, Option.mem_toList] at hd
    rw [List.length_append]
    exact (step_passed hs.1 hd.1).trans (ih hs.2 hd.2)

/-! ### Entering the queue -/

/-- `scheduler_schedule_locked` keeps the priorities below the bound. -/
theorem Bounded.schedulerScheduleLocked (h : s.Bounded) : s.schedulerScheduleLocked.Bounded := by
  unfold Scheduler.schedulerScheduleLocked dequeueBest
  rcases s.findBestReady with _ | q
  · exact h
  · have hq : ({ s with readyQueue := s.readyQueue.erase q } : Scheduler ι).Bounded := h
    exact (hq.requeueCurrent.foldl_age _).dispatch q

/-- So does `preemptTo`. -/
theorem Bounded.preemptTo (h : s.Bounded) (esp : Word) : (s.preemptTo esp).2.Bounded := by
  unfold Scheduler.preemptTo
  rcases s.findBestReady with _ | next
  · exact h
  · dsimp only
    split
    · exact h
    · have hb := h.schedulerScheduleLocked
      rcases s.schedulerScheduleLocked.current with _ | current
      · exact hb
      · dsimp only
        split <;> exact hb

/-- So does `scheduler_preempt`. -/
theorem Bounded.schedulerPreempt (h : s.Bounded) (esp : Word) :
    (s.schedulerPreempt esp).2.Bounded := by
  unfold Scheduler.schedulerPreempt
  split
  · exact h
  · rcases s.current with _ | current
    · exact h.preemptTo esp
    · dsimp only
      split
      · exact h
      · exact (h.setProc (fun x => { x with esp := esp }) fun hx hd => ⟨hx, hd⟩).preemptTo esp

/-- So does a stop that finds nobody to dispatch. -/
theorem Bounded.stopWithoutNext (h : s.Bounded) (stopped : ι) (esp : Word) (resume : Bool) :
    (s.stopWithoutNext stopped esp resume).2.Bounded := by
  unfold Scheduler.stopWithoutNext
  split
  · exact h.setProc (fun x => { x with state := .running }) fun hx hd => ⟨hx, hd⟩
  · exact h

/-- So do the functions that stop the current process. -/
theorem Bounded.schedulerStopCurrentLocked (h : s.Bounded) (esp : Word) (state : ProcessState)
    (resume : Bool) : (s.schedulerStopCurrentLocked esp state resume).2.Bounded := by
  unfold Scheduler.schedulerStopCurrentLocked
  rcases s.current with _ | stopped
  · exact h
  · dsimp only
    split
    · exact h
    · have hset := h.setProc (q := stopped)
        (fun x => { x with esp := esp, interruptFrame := true, state := state })
        fun hx hd => ⟨hx, hd⟩
      revert hset
      generalize s.setProc stopped _ = s'
      intro hset
      unfold dequeueBest
      rcases s'.findBestReady with _ | next
      · exact hset.stopWithoutNext _ _ _
      · have hq : ({ s' with readyQueue := s'.readyQueue.erase next } : Scheduler ι).Bounded := hset
        dsimp only
        split
        · exact (hq.enqueue next).stopWithoutNext _ _ _
        · exact (hq.foldl_age _).dispatch next

/-- Every operation keeps the priorities below the bound. -/
theorem Bounded.step (h : s.Bounded) (op : SchedulerOp ι) : (s.step op).Bounded := by
  cases op with
  | add proc => exact h.enqueue proc
  | schedule => exact h.schedulerScheduleLocked
  | preempt esp => exact h.schedulerPreempt esp
  | blockCurrent esp => exact h.schedulerStopCurrentLocked _ _ _
  | exitCurrent esp => exact h.schedulerStopCurrentLocked _ _ _
  | wake proc =>
    unfold Scheduler.step schedulerWake
    dsimp only
    split
    · exact (h.setProc (fun x => { x with state := .ready }) fun hx hd => ⟨hx, hd⟩).enqueue proc
    · exact h
  | remove proc => exact h
  | setPriority proc priority =>
    have hset := fun n => h.setProc (q := proc)
      (fun x => { x with
        priority := if n > processMaxPriority then processMaxPriority else n
        dynamicPriority := if n > processMaxPriority then processMaxPriority else n })
      fun _ _ => ⟨clamp_le n, clamp_le n⟩
    exact hset _

/-- Every run keeps them there. -/
theorem Bounded.run (h : s.Bounded) (ops : List (SchedulerOp ι)) : (s.run ops).Bounded := by
  induction ops generalizing s with
  | nil => exact h
  | cons op ops ih => exact ih (h.step op)

/-- An arrival has a priority. -/
theorem enqueue_raised : 0 < ((s.enqueue q).procs q).dynamicPriority := by
  unfold enqueue
  dsimp only
  split
  · rw [setProc_self]
    dsimp only [Process.basePriority]
    split
    · exact Nat.pos_of_ne_zero ‹_›
    · decide
  · exact Nat.pos_of_ne_zero ‹_›

/-- Who is in the queue after an arrival. -/
theorem mem_enqueue : p ∈ (s.enqueue q).readyQueue ↔ p ∈ s.readyQueue ∨ p = q := by
  have h : (s.enqueue q).readyQueue = s.readyQueue ++ [q] := by
    unfold enqueue
    dsimp only
    split <;> rfl
  rw [h, List.mem_append, List.mem_singleton]

/-- Aging lowers no priority. -/
theorem foldl_age_le (l : List ι) :
    (s.procs p).dynamicPriority ≤ ((l.foldl age s).procs p).dynamicPriority := by
  induction l generalizing s with
  | nil => exact Nat.le_refl _
  | cons a l ih =>
    refine Nat.le_trans ?_ ih
    by_cases h : p = a
    · subst h
      unfold age
      split
      · rw [setProc_self]
        exact Nat.le_succ _
      · exact Nat.le_refl _
    · rw [age_of_ne h]

/-- Aging raises a priority above the least one. -/
theorem age_raised (hpos : 0 < (s.procs p).dynamicPriority) :
    1 < ((s.age p).procs p).dynamicPriority := by
  unfold age
  split
  · rw [setProc_self]
    exact Nat.succ_lt_succ hpos
  · rename_i hmax
    exact Nat.lt_of_lt_of_le (by decide) (Nat.le_of_not_lt hmax)

/-- So does aging the queue for its members. -/
theorem ageReadyQueue_raised (hp : p ∈ s.readyQueue) (hpos : 0 < (s.procs p).dynamicPriority) :
    1 < (s.ageReadyQueue.procs p).dynamicPriority := by
  unfold ageReadyQueue
  obtain ⟨before, after, hl, hno⟩ := List.eq_append_cons_of_mem hp
  rw [hl, List.foldl_append, List.foldl_cons]
  refine Nat.lt_of_lt_of_le (age_raised ?_) (foldl_age_le after)
  rw [foldl_age_of_not_mem hno]
  exact hpos

/-- What an operation has done to a process that it has brought into the queue: it has a priority,
and not the least one if the operation has dispatched another process since. -/
def Enters (p : ι) (s s' : Scheduler ι) : Prop :=
  p ∉ s.readyQueue → p ∈ s'.readyQueue → 0 < (s'.procs p).dynamicPriority ∧
    (s'.scheduleCount ≠ s.scheduleCount → 1 < (s'.procs p).dynamicPriority)

omit [DecidableEq ι] in

/-- An operation that brings nobody into the queue. -/
theorem Enters.of_queue {s' : Scheduler ι} (h : p ∈ s'.readyQueue → p ∈ s.readyQueue) :
    Enters p s s' := fun hout hin => absurd (h hin) hout

/-- An operation that brings a process in and dispatches nobody. -/
theorem Enters.enqueue {s' : Scheduler ι} (hq : s'.readyQueue = s.readyQueue)
    (hc : s'.scheduleCount = s.scheduleCount) : Enters p s (s'.enqueue q) := by
  intro hout hin
  rw [mem_enqueue, hq] at hin
  obtain rfl := hin.resolve_left hout
  exact ⟨enqueue_raised, fun h => absurd (enqueue_scheduleCount.trans hc) h⟩

/-- The running process that joins the queue. -/
theorem requeueCurrent_enters : Enters p s s.requeueCurrent := by
  unfold requeueCurrent
  rcases s.current with _ | current
  · exact .of_queue id
  · dsimp only
    split
    · exact .enqueue rfl rfl
    · exact .of_queue id

/-- `scheduler_schedule_locked` brings in the running process, and it ages before the dispatch. -/
theorem schedulerScheduleLocked_enters : Enters p s s.schedulerScheduleLocked := by
  unfold schedulerScheduleLocked dequeueBest
  rcases hbest : s.findBestReady with _ | q
  · exact .of_queue id
  · intro hout hin
    have hne : p ≠ q := by
      intro h
      subst h
      exact hout (findBestReady_mem hbest)
    dsimp only at hin ⊢
    generalize hs1 : ({ s with readyQueue := s.readyQueue.erase q } : Scheduler ι) = s1 at hin ⊢
    have hout1 : p ∉ s1.readyQueue := by
      subst hs1
      exact fun h => hout (List.mem_of_mem_erase h)
    have hin1 : p ∈ s1.requeueCurrent.readyQueue := by
      rw [dispatch_readyQueue, ageReadyQueue, foldl_age_readyQueue] at hin
      exact hin
    have hraised := ageReadyQueue_raised hin1 (requeueCurrent_enters hout1 hin1).1
    rw [dispatch_of_ne hne]
    exact ⟨Nat.lt_of_succ_lt hraised, fun _ => hraised⟩

/-- So does `preemptTo`. -/
theorem preemptTo_enters (esp : Word) : Enters p s (s.preemptTo esp).2 := by
  unfold preemptTo
  rcases s.findBestReady with _ | next
  · exact .of_queue id
  · dsimp only
    split
    · exact .of_queue id
    · have he := schedulerScheduleLocked_enters (s := s) (p := p)
      rcases s.schedulerScheduleLocked.current with _ | current
      · exact he
      · dsimp only
        split <;> exact he

/-- So does `scheduler_preempt`. -/
theorem schedulerPreempt_enters (esp : Word) : Enters p s (s.schedulerPreempt esp).2 := by
  unfold schedulerPreempt
  split
  · exact .of_queue id
  · rcases s.current with _ | current
    · exact preemptTo_enters esp
    · dsimp only
      split
      · exact .of_queue id
      · exact preemptTo_enters (s := s.setProc current fun x => { x with esp := esp }) esp

/-- Where nobody is dispatched the queue stays. -/
theorem stopWithoutNext_readyQueue (stopped : ι) (esp : Word) (resume : Bool) :
    (s.stopWithoutNext stopped esp resume).2.readyQueue = s.readyQueue := by
  unfold stopWithoutNext
  split <;> rfl

/-- Stopping the running process brings nothing into the queue. -/
theorem schedulerStopCurrentLocked_enters (esp : Word) (state : ProcessState) (resume : Bool) :
    Enters p s (s.schedulerStopCurrentLocked esp state resume).2 := by
  apply Enters.of_queue
  unfold schedulerStopCurrentLocked
  rcases s.current with _ | stopped
  · exact id
  · dsimp only
    split
    · exact id
    · generalize hset : s.setProc stopped _ = s'
      have hq : s'.readyQueue = s.readyQueue := by
        subst hset
        rfl
      unfold dequeueBest
      rw [← hq]
      rcases hbest : s'.findBestReady with _ | next
      · dsimp only
        rw [stopWithoutNext_readyQueue]
        exact id
      · dsimp only
        split
        · rw [stopWithoutNext_readyQueue, mem_enqueue]
          rintro (h | rfl)
          · exact List.mem_of_mem_erase h
          · exact findBestReady_mem hbest
        · dsimp only
          rw [dispatch_readyQueue, ageReadyQueue, foldl_age_readyQueue]
          exact List.mem_of_mem_erase

/-- Every operation. -/
theorem step_enters (op : SchedulerOp ι) : Enters p s (s.step op) := by
  cases op with
  | add proc => exact .enqueue rfl rfl
  | schedule => exact schedulerScheduleLocked_enters
  | preempt esp => exact schedulerPreempt_enters esp
  | blockCurrent esp => exact schedulerStopCurrentLocked_enters _ _ _
  | exitCurrent esp => exact schedulerStopCurrentLocked_enters _ _ _
  | wake proc =>
    unfold step schedulerWake
    dsimp only
    split
    · exact .enqueue rfl rfl
    · exact .of_queue id
  | remove proc => exact .of_queue List.mem_of_mem_erase
  | setPriority proc priority => exact .of_queue id

/-! ### No starvation -/

/-- **No ready process starves.** A process that an interrupt stub can resume enters the ready queue
with `k` processes ahead of it. While it is spared and not dispatched, at most `15 + k` dispatches
pass it over, the one of the entering operation included. -/
theorem ready_never_starves {s : Scheduler ι}
    (hprio : ∀ q, (s.procs q).priority ≤ processMaxPriority ∧
      (s.procs q).dynamicPriority ≤ processMaxPriority)
    (before : List (SchedulerOp ι)) (entry : SchedulerOp ι) (after : List (SchedulerOp ι)) (p : ι)
    (hout : p ∉ (s.run before).readyQueue) (hin : p ∈ ((s.run before).step entry).readyQueue)
    (hframe : (((s.run before).step entry).procs p).interruptFrame = true)
    (hesp : (((s.run before).step entry).procs p).esp ≠ 0)
    (hspared : ((s.run before).step entry).SparesAll p after)
    (hwaits : p ∉ ((s.run before).step entry).dispatches after) :
    ((s.run before).dispatches (entry :: after)).length ≤
      15 + ((s.run before).step entry).readyQueue.idxOf p := by
  have hbounded : (s.run before).Bounded := Bounded.run hprio before
  obtain ⟨hpos, hcount⟩ := step_enters entry hout hin
  have hw : ((s.run before).step entry).Waits p :=
    ⟨hbounded.step entry, hin, hpos, hframe, hesp⟩
  have hle := (run_passed hspared hwaits hw).2
  unfold rank at hle
  simp only [processMaxPriority] at hle
  unfold dispatches
  rw [List.length_append]
  have hone : ((s.run before).dispatched entry).toList.length ≤ 1 := by
    rcases (s.run before).dispatched entry with _ | q <;> simp
  by_cases hc : ((s.run before).step entry).scheduleCount = (s.run before).scheduleCount
  · have hzero : (s.run before).dispatched entry = none := if_pos hc
    rw [hzero] at hone ⊢
    simp only [Option.toList_none, List.length_nil]
    omega
  · have := hcount hc
    omega

/-- A fresh scheduler over three processes that an interrupt stub can resume. -/
def threeTasks : Scheduler (Fin 3) :=
  schedulerInit
    { procs := fun i =>
        { Process.zero with
          pid := i + 1
          esp := 4096
          interruptFrame := true
          priority := 1
          dynamicPriority := 1
          state := .ready }
      readyQueue := []
      current := none
      scheduleCount := 0
      schedulerInitialized := false
      preemptionEnabled := false
      mem :=
        { frames := ⟨fun _ => false, fun _ => 0, 0, 0, false⟩
          ram := fun _ _ => 0
          activePageDirectory := 0
          kernelScratchTable := 0 }
      tssEsp0 := 0 }

/-- The third task joins behind the second, which runs before it. -/
theorem ready_never_starves_three :
    ((threeTasks.run [.add 0, .schedule, .add 1]).dispatches [.add 2, .schedule]).length ≤ 15 + 1 :=
  ready_never_starves (s := threeTasks) (p := 2) (by decide) [.add 0, .schedule, .add 1] (.add 2)
    [.schedule] (by decide) (by decide) (by decide) (by decide) ⟨trivial, trivial⟩ (by decide)

end Scheduler
end AgenticOs
