import AgenticOs.Kernel.RunQueue
import AgenticOs.Kernel.ProcessTable

/-!
# Which mechanism resumes a process

A cooperative process (`interrupt_frame` clear) has saved its stack pointer in `context_switch`, the others in
an interrupt stub.

* **Interrupt stubs** (`preempt_stubSafe`, `stop_stubSafe`): the three functions that return to a stub only
  hand out stack pointers of processes with an interrupt frame.
* **`yield`** (`yield_iff`): it looks at the process that leaves and not at the one that is chosen: it
  switches rightly exactly if the best ready process is cooperative (`YieldSafe`).
* **Runs** (`SwitchCall`): a run links a process into the ready queue with `scheduler_add` only while it is
  ready and not linked; no other function enqueues a process that is in the queue then.
* **Main result** (`resumptions_match_iff`): in a run whose processes are cooperative and preemptive in any
  mixture, each is resumed by the mechanism that saved its stack pointer exactly if every `yield` is safe.
  `yield_loads_interrupt_frame` is a run with one that is not.
-/

namespace AgenticOs

open Function Lib

namespace Scheduler

variable {ι : Type*} [DecidableEq ι] {s s' : Scheduler ι} {c n p : ι} {interruptedEsp : Word}

/-- No process has changed its kind. -/
def SameKinds (s s' : Scheduler ι) : Prop :=
  ∀ p, (s'.procs p).interruptFrame = (s.procs p).interruptFrame

omit [DecidableEq ι] in

/-- Two steps after one another. -/
theorem SameKinds.trans {s'' : Scheduler ι} (h : SameKinds s s') (h' : SameKinds s' s'') :
    SameKinds s s'' := fun p => (h' p).trans (h p)

/-- A change of a process that is not about its kind. -/
theorem sameKinds_setProc (s : Scheduler ι) (c : ι) {f : Process → Process}
    (hf : ∀ q, (f q).interruptFrame = q.interruptFrame) : SameKinds s (s.setProc c f) := by
  intro p
  by_cases hp : p = c
  · subst hp
    rw [setProc_self]
    exact hf _
  · rw [setProc_of_ne hp]

/-- An arrival in the queue. -/
theorem sameKinds_enqueue (s : Scheduler ι) (n : ι) : SameKinds s (s.enqueue n) := by
  unfold Scheduler.enqueue
  dsimp only
  split
  · have h := sameKinds_setProc s n (f := fun q => { q with dynamicPriority := q.basePriority })
      fun _ => rfl
    exact h
  · exact fun _ => rfl

/-- Aging. -/
theorem sameKinds_ageReadyQueue (s : Scheduler ι) : SameKinds s s.ageReadyQueue := by
  unfold Scheduler.ageReadyQueue
  generalize s.readyQueue = l
  induction l generalizing s with
  | nil => exact fun _ => rfl
  | cons q l ih =>
    refine SameKinds.trans ?_ (ih (s.age q))
    unfold Scheduler.age
    split
    · refine sameKinds_setProc s q ?_
      exact fun _ => rfl
    · exact fun _ => rfl

/-- The running process goes back into the queue. -/
theorem sameKinds_requeueCurrent (s : Scheduler ι) : SameKinds s s.requeueCurrent := by
  unfold Scheduler.requeueCurrent
  rcases s.current with _ | c
  · exact fun _ => rfl
  · dsimp only
    split
    · refine SameKinds.trans ?_ (sameKinds_enqueue _ c)
      refine sameKinds_setProc s c ?_
      exact fun _ => rfl
    · exact fun _ => rfl

/-- A dispatch. -/
theorem sameKinds_dispatch (s : Scheduler ι) (n : ι) : SameKinds s (s.dispatch n) := by
  intro p
  by_cases hp : p = n
  · subst hp
    have h := sameKinds_setProc s p (f := fun q => { q with
      dynamicPriority := q.basePriority
      state := .running
      runCount := (q.runCount + 1) % wordSize }) fun _ => rfl
    exact h p
  · rw [dispatch_of_ne hp]

/-! ### `scheduler_schedule` -/

/-- With nobody in the queue nothing happens. -/
theorem schedule_none (hbest : s.findBestReady = none) : s.schedulerScheduleLocked = s := by
  unfold schedulerScheduleLocked
  rw [dequeueBest_none hbest]

/-- The best ready process is dispatched; the process that ran is ready, the others keep their state. -/
theorem schedule_some (hbest : s.findBestReady = some n) :
    s.schedulerScheduleLocked.current = some n ∧ SameKinds s s.schedulerScheduleLocked ∧
      ∀ p, p ≠ n → s.current = some p → (s.schedulerScheduleLocked.procs p).state =
        if (s.procs p).state = .running then .ready else (s.procs p).state := by
  have heq : s.schedulerScheduleLocked = ({ s with readyQueue := s.readyQueue.erase n } :
      Scheduler ι).requeueCurrent.ageReadyQueue.dispatch n := by
    unfold schedulerScheduleLocked
    rw [dequeueBest_some hbest]
  rw [heq]
  refine ⟨rfl, ?_, fun p hp hc => ?_⟩
  · have hrequeue : SameKinds s ({ s with readyQueue := s.readyQueue.erase n } :
        Scheduler ι).requeueCurrent :=
      sameKinds_requeueCurrent { s with readyQueue := s.readyQueue.erase n }
    exact (hrequeue.trans (sameKinds_ageReadyQueue _)).trans (sameKinds_dispatch _ n)
  · rw [dispatch_of_ne hp, (sameStates_ageReadyQueue _).state p]
    split
    · rename_i hrun
      rw [requeueCurrent_state (s := { s with readyQueue := s.readyQueue.erase n }) hc hrun,
        if_pos rfl]
    · rename_i hrun
      unfold Scheduler.requeueCurrent
      rw [show ({ s with readyQueue := s.readyQueue.erase n } : Scheduler ι).current = some p from hc]
      dsimp only
      rw [if_neg hrun]

/-! ### `yield` -/

/-- A cooperative process that yields finds a cooperative process to switch to, if any. -/
def YieldSafe (s : Scheduler ι) : Prop :=
  ∀ prev next, s.schedulerInitialized = true → s.current = some prev →
    (s.procs prev).interruptFrame = false →
    (s.procs prev).state = .running ∨ (s.procs prev).state = .ready →
    s.findBestReady = some next → next ≠ prev → (s.procs next).interruptFrame = false

/-- `yield` loads the stack pointer of cooperative processes alone exactly if it is safe. -/
theorem yield_iff (s : Scheduler ι) (esp : Word) :
    (∀ p, (s.yield esp).1 = some p → ((s.yield esp).2.procs p).interruptFrame = false) ↔
      s.YieldSafe := by
  unfold Scheduler.yield
  split
  · rename_i hinit
    refine iff_of_true nofun fun prev next h => ?_
    simp [h] at hinit
  rename_i hinit
  rcases hc : s.current with _ | prev
  · exact iff_of_true nofun fun prev next _ h => by
      rw [hc] at h
      cases h
  dsimp only
  split
  · rename_i hframe
    refine iff_of_true nofun fun q next _ h hq => ?_
    rw [hc, Option.some_inj] at h
    rw [← h, hframe] at hq
    cases hq
  rename_i hframe
  unfold schedulerSchedule
  rcases hbest : s.findBestReady with _ | n
  · rw [schedule_none hbest, hc]
    dsimp only
    rw [if_neg (fun h => h.1 rfl)]
    exact iff_of_true nofun fun q next _ _ _ _ h => by
      rw [hbest] at h
      cases h
  obtain ⟨hcurrent, hkinds, hstate⟩ := schedule_some hbest
  rw [hcurrent]
  dsimp only
  by_cases hn : prev = n
  · rw [if_neg (fun h => h.1 hn)]
    refine iff_of_true nofun fun q next _ h _ _ hb hne => ?_
    rw [hc, Option.some_inj] at h
    rw [hbest, Option.some_inj] at hb
    exact absurd (hb ▸ h ▸ hn.symm) hne
  · rw [hstate prev hn hc]
    have hloaded : ((s.schedulerScheduleLocked.setProc prev fun p => { p with esp := esp }).procs
        n).interruptFrame = (s.procs n).interruptFrame := by
      rw [setProc_of_ne (Ne.symm hn)]
      exact hkinds n
    by_cases hgo : (s.procs prev).state = .running ∨ (s.procs prev).state = .ready
    · rw [if_pos ⟨hn, by
        rcases hgo with h | h <;> simp [h]⟩]
      constructor
      · intro h q next _ _ _ _ hb _
        rw [hbest, Option.some_inj] at hb
        rw [← hb, ← hloaded]
        exact h n rfl
      · intro h p hp
        obtain rfl : n = p := by simpa using hp
        rw [hloaded]
        exact h prev n (by simpa using hinit) hc (by simpa using hframe) hgo hbest (Ne.symm hn)
    · rw [if_neg fun h => hgo (by
        have := h.2
        split at this
        · exact .inl ‹_›
        · exact .inr this)]
      refine iff_of_true nofun fun q next _ h _ hst => ?_
      rw [hc, Option.some_inj] at h
      exact absurd (h ▸ hst) hgo

/-! ### Interrupt stubs -/

/-- The stack pointer that a call returned is that of a process: of the one that runs now, or of the
interrupted one. -/
def Owns (s s' : Scheduler ι) (interruptedEsp esp : Word) (p : ι) : Prop :=
  (s'.current = some p ∧ esp = (s'.procs p).esp) ∨ (s.current = some p ∧ esp = interruptedEsp)

/-- After a switch, the returned stack pointer belongs to no cooperative process. -/
def StubSafe (s : Scheduler ι) (interruptedEsp : Word) (r : Word × Scheduler ι) : Prop :=
  r.2.scheduleCount ≠ s.scheduleCount →
    ∀ p, Owns s r.2 interruptedEsp r.1 p → (r.2.procs p).interruptFrame = true

/-- `preemptTo` changes no kind, and switches to no cooperative process. -/
theorem preemptTo_kinds (s : Scheduler ι) (interruptedEsp : Word) :
    SameKinds s (s.preemptTo interruptedEsp).2 ∧
      ((s.preemptTo interruptedEsp).2.scheduleCount ≠ s.scheduleCount →
        ∀ p, (s.preemptTo interruptedEsp).2.current = some p → (s.procs p).interruptFrame = true) := by
  unfold preemptTo
  rcases hbest : s.findBestReady with _ | n
  · exact ⟨fun _ => rfl, fun h => absurd rfl h⟩
  dsimp only
  split
  · exact ⟨fun _ => rfl, fun h => absurd rfl h⟩
  rename_i hframe
  obtain ⟨hcurrent, hkinds, -⟩ := schedule_some hbest
  have hn : ∀ p, s.schedulerScheduleLocked.current = some p → (s.procs p).interruptFrame = true := by
    intro p hp
    rw [hcurrent, Option.some_inj] at hp
    rw [← hp]
    simpa using hframe
  rw [hcurrent]
  dsimp only
  split
  · exact ⟨hkinds, fun _ => hn⟩
  · exact ⟨hkinds, fun _ => hn⟩

/-- `scheduler_preempt` hands out stack pointers of interrupt stubs. -/
theorem preempt_stubSafe (s : Scheduler ι) (interruptedEsp : Word) :
    StubSafe s interruptedEsp (s.schedulerPreempt interruptedEsp) := by
  unfold schedulerPreempt
  split
  · exact fun h => absurd rfl h
  rcases hc : s.current with _ | c
  · dsimp only
    obtain ⟨hkinds, hnext⟩ := s.preemptTo_kinds interruptedEsp
    rintro hswitched p (⟨hp, -⟩ | ⟨hp, -⟩)
    · rw [hkinds p]
      exact hnext hswitched p hp
    · rw [hc] at hp
      cases hp
  dsimp only
  split
  · exact fun h => absurd rfl h
  rename_i hframe
  obtain ⟨hkinds, hnext⟩ :=
    (s.setProc c fun p => { p with esp := interruptedEsp }).preemptTo_kinds interruptedEsp
  rintro hswitched p (⟨hp, -⟩ | ⟨hp, -⟩)
  · rw [hkinds p]
    exact hnext hswitched p hp
  · rw [hc, Option.some_inj] at hp
    subst hp
    rw [hkinds c, setProc_self]
    simpa using hframe

/-- So do the functions that stop the current process. -/
theorem stop_stubSafe (s : Scheduler ι) (interruptedEsp : Word) (stoppedState : ProcessState)
    (resume : Bool) :
    StubSafe s interruptedEsp (s.schedulerStopCurrentLocked interruptedEsp stoppedState resume) := by
  unfold schedulerStopCurrentLocked
  rcases hc : s.current with _ | c
  · exact fun h => absurd rfl h
  dsimp only
  split
  · exact fun h => absurd rfl h
  generalize hs₁ : s.setProc c _ = s₁
  have hcount : s₁.scheduleCount = s.scheduleCount := by
    subst hs₁
    rfl
  have hstopped : (s₁.procs c).interruptFrame = true := by
    subst hs₁
    rw [setProc_self]
  have hstay (t : Scheduler ι) (ht : t.scheduleCount = s.scheduleCount) :
      StubSafe s interruptedEsp (t.stopWithoutNext c interruptedEsp resume) := by
    unfold stopWithoutNext
    split
    · exact fun h => absurd ht h
    · exact fun h => absurd ht h
  rcases hbest : s₁.findBestReady with _ | n
  · rw [dequeueBest_none hbest]
    exact hstay s₁ hcount
  rw [dequeueBest_some hbest]
  dsimp only
  split
  · refine hstay _ ?_
    rw [← hcount]
    exact enqueue_scheduleCount ..
  · rename_i hdisp
    have hn : (s₁.procs n).interruptFrame = true := by
      have : (s₁.procs n).interruptFrame && (s₁.procs n).esp != 0 := by simpa [dispatchable] using hdisp
      exact (Bool.and_eq_true _ _ ▸ this).1
    have haged : SameKinds s₁
        ({ s₁ with readyQueue := s₁.readyQueue.erase n } : Scheduler ι).ageReadyQueue :=
      sameKinds_ageReadyQueue { s₁ with readyQueue := _ }
    have hkinds := haged.trans (sameKinds_dispatch _ n)
    rintro - p (⟨hp, -⟩ | ⟨hp, -⟩)
    · rw [dispatch_current, Option.some_inj] at hp
      subst hp
      exact (hkinds n).trans hn
    · rw [hc, Option.some_inj] at hp
      subst hp
      exact (hkinds c).trans hstopped

end Scheduler

/-! ### Runs -/

/-- The calls that create, link and switch processes. -/
inductive SwitchCall
  | create (isUser : Bool)
  | createPreemptive
  | fork (parent : Slot) (parentFrame : Word)
  | add (proc : Slot)
  | setPriority (proc : Slot) (priority : Nat)
  | setPreemption (enabled : Bool)
  | schedule
  | preempt (interruptedEsp : Word)
  | block (interruptedEsp : Word)
  | exit (interruptedEsp : Word)
  | yield (esp : Word)

/-- What a call resumes: nothing, the process whose stack pointer `context_switch` loads, or the
stack pointer that a stub gets. -/
inductive Resumption
  | nothing
  | loaded (proc : Slot)
  | returned (interruptedEsp esp : Word)

/-- Makes the call. -/
def SwitchCall.run : SwitchCall → KernelM Resumption
  | create isUser => do
    let _ ← processCreate isUser
    return .nothing
  | createPreemptive => do
    let _ ← processCreatePreemptive
    return .nothing
  | fork parent parentFrame => do
    let _ ← processFork parent parentFrame
    return .nothing
  | add proc => do
    onScheduler (·.schedulerAdd proc)
    return .nothing
  | setPriority proc priority => do
    onScheduler (·.schedulerSetPriority proc priority)
    return .nothing
  | setPreemption enabled => do
    onScheduler (·.schedulerSetPreemptionEnabled enabled)
    return .nothing
  | schedule => do
    onScheduler (·.schedulerSchedule)
    return .nothing
  | preempt interruptedEsp => do
    let esp ← callScheduler (·.schedulerPreempt interruptedEsp)
    return .returned interruptedEsp esp
  | block interruptedEsp => do
    let esp ← callScheduler (·.schedulerBlockCurrent interruptedEsp)
    return .returned interruptedEsp esp
  | exit interruptedEsp => do
    let esp ← callScheduler (·.schedulerExitCurrent interruptedEsp)
    return .returned interruptedEsp esp
  | yield esp => fun k =>
    let r := k.toScheduler.yield esp
    (match r.1 with
      | none => .nothing
      | some proc => .loaded proc, k.onScheduler fun _ => r.2)

/-- The kernel after a sequence of calls. -/
def afterSwitches (k : Kernel) (calls : List SwitchCall) : Kernel :=
  calls.foldl (fun k call => (call.run k).2) k

/-- A process is resumed by the mechanism that saved its stack pointer. -/
def Resumption.Matches (k k' : Kernel) : Resumption → Prop
  | nothing => True
  | loaded proc => (k'.procs proc).interruptFrame = false
  | returned interruptedEsp esp =>
    Scheduler.StubSafe k.toScheduler interruptedEsp (esp, k'.toScheduler)

/-- The kernel with an empty table and an empty queue. -/
def Kernel.initialised (k : Kernel) : Kernel := (processInit k).onScheduler (·.schedulerInit)

/-- A call resumes a process rightly, unless it is a `yield` that is not safe. -/
theorem SwitchCall.matches_iff (call : SwitchCall) (k : Kernel) :
    (call.run k).1.Matches k (call.run k).2 ↔ ∀ esp, call = .yield esp → k.toScheduler.YieldSafe := by
  cases call with
  | create isUser => exact iff_of_true trivial nofun
  | createPreemptive => exact iff_of_true trivial nofun
  | fork parent parentFrame => exact iff_of_true trivial nofun
  | add proc => exact iff_of_true trivial nofun
  | setPriority proc priority => exact iff_of_true trivial nofun
  | setPreemption enabled => exact iff_of_true trivial nofun
  | schedule => exact iff_of_true trivial nofun
  | preempt interruptedEsp =>
    exact iff_of_true (Scheduler.preempt_stubSafe k.toScheduler interruptedEsp) nofun
  | block interruptedEsp =>
    exact iff_of_true (Scheduler.stop_stubSafe k.toScheduler interruptedEsp .blocked true) nofun
  | exit interruptedEsp =>
    exact iff_of_true (Scheduler.stop_stubSafe k.toScheduler interruptedEsp .zombie false) nofun
  | yield esp =>
    have hyield := Scheduler.yield_iff k.toScheduler esp
    constructor
    · intro hmatch _ _
      refine hyield.mp fun p hp => ?_
      unfold SwitchCall.run at hmatch
      dsimp only at hmatch
      rw [hp] at hmatch
      exact hmatch
    · intro hsafe
      have hall := hyield.mpr (hsafe esp rfl)
      unfold SwitchCall.run
      dsimp only
      rcases hp : (k.toScheduler.yield esp).1 with _ | p
      · trivial
      · exact hall p hp

/-- **Stacks are resumed by the mechanism that built them**, in a run whose processes are
cooperative and preemptive in any mixture, exactly if each `yield` of it is safe. -/
theorem resumptions_match_iff (k : Kernel) (calls : List SwitchCall) :
    (∀ pre call, pre ++ [call] <+: calls →
      (call.run (afterSwitches k.initialised pre)).1.Matches (afterSwitches k.initialised pre)
        (call.run (afterSwitches k.initialised pre)).2) ↔
      ∀ pre esp, pre ++ [.yield esp] <+: calls →
        (afterSwitches k.initialised pre).toScheduler.YieldSafe := by
  constructor
  · intro hall pre esp hpre
    exact (SwitchCall.matches_iff _ _).mp (hall pre _ hpre) esp rfl
  · intro hsafe pre call hpre
    exact (SwitchCall.matches_iff call _).mpr fun esp he => hsafe pre esp (he ▸ hpre)

/-- A cooperative process runs, a preemptive one is ready, and the first yields: `context_switch`
loads the stack pointer of the second. -/
theorem yield_loads_interrupt_frame :
    ¬ ∀ (pre : List SwitchCall) (call : SwitchCall), pre ++ [call] <+: [.create false, .add 0,
        .schedule, .createPreemptive, .add 1, .yield 0x101000] →
      (call.run (afterSwitches Kernel.blank.initialised pre)).1.Matches
        (afterSwitches Kernel.blank.initialised pre)
        (call.run (afterSwitches Kernel.blank.initialised pre)).2 := by
  intro hall
  have hsafe := (SwitchCall.matches_iff _ _).mp
    (hall [.create false, .add 0, .schedule, .createPreemptive, .add 1] (.yield 0x101000)
      (List.prefix_refl _)) _ rfl
  have hbad := hsafe 0 1 (by decide) (by decide) (by decide) (by decide) (by decide) (by decide)
  exact absurd hbad (by decide)

end AgenticOs
