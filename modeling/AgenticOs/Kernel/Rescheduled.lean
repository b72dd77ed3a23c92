import AgenticOs.Kernel.State

/-!
# What scheduling changes

The scheduler owns five fields of a process (`Process.Rescheduled`) and the active page directory. Whatever it does, the
other fields of all processes and the contents of memory stay, and nobody is dead who was not (`Rescheduled`):

* `Rescheduled.refl`, `Rescheduled.trans`, `Rescheduled.of_same` and `Rescheduled.setProc` are the rules, for a change
  of the list and the counters and for a change of one process.
* The parts of `scheduler.c` follow in the order in which they call one another, from `Rescheduled.enqueue` and
  `Rescheduled.dispatch` to `Rescheduled.schedulerScheduleLocked` and `Rescheduled.schedulerPreempt`.
* A process that stops is blocked or a zombie (`Rescheduled.schedulerStopCurrentLocked`): `PROCESS_DEAD` is the state of
  a slot that has been reaped, and the scheduler never sets it.

Everything in the kernel that is about memory, descriptors or families passes over a call of the scheduler by this.
-/

namespace AgenticOs

open Function Lib

/-- Only fields of the scheduler differ. -/
def Process.Rescheduled (p q : Process) : Prop :=
  q = { p with
    esp := q.esp
    interruptFrame := q.interruptFrame
    dynamicPriority := q.dynamicPriority
    runCount := q.runCount
    state := q.state }

/-- A process that is as it was. -/
theorem Process.Rescheduled.refl (p : Process) : p.Rescheduled p := rfl

/-- The five fields change again, and no other. -/
theorem Process.Rescheduled.trans {p q r : Process} (h : p.Rescheduled q) (h' : q.Rescheduled r) :
    p.Rescheduled r := by
  unfold Process.Rescheduled at h h'
  rw [h] at h'
  exact h'

/-- What the scheduler may change, and no process is dead that was not. -/
structure Rescheduled {ι : Type*} (s s' : Scheduler ι) : Prop where
  procs : ∀ p, (s.procs p).Rescheduled (s'.procs p)
  dead : ∀ p, (s'.procs p).state = .dead → (s.procs p).state = .dead
  mem : s'.mem = { s.mem with activePageDirectory := s'.mem.activePageDirectory }

namespace Rescheduled

variable {ι : Type*} {s s' s'' : Scheduler ι}

/-- A scheduler that has done nothing. -/
theorem refl (s : Scheduler ι) : Rescheduled s s := ⟨fun _ => .refl _, fun _ => id, rfl⟩

/-- Two steps of the scheduler: nobody was dead before the first who is dead after the second, and between the two no
memory has changed. -/
theorem trans (h : Rescheduled s s') (h' : Rescheduled s' s'') : Rescheduled s s'' where
  procs := fun p => (h.procs p).trans (h'.procs p)
  dead := fun p hp => h.dead p (h'.dead p hp)
  mem := by
    have hm := h'.mem
    rw [h.mem] at hm
    exact hm

/-- A change of the list, the counters and the current process. -/
theorem of_same (hp : s'.procs = s.procs) (hm : s'.mem = s.mem) : Rescheduled s s' := by
  refine ⟨fun p => ?_, fun p => ?_, ?_⟩
  · rw [hp]
    exact .refl _
  · rw [hp]
    exact id
  · rw [hm]

/-- The directory of a process is loaded, if it has one. -/
theorem switchAddressSpace (s : Scheduler ι) (proc : ι) : Rescheduled s (s.switchAddressSpace proc) := by
  refine ⟨fun _ => .refl _, fun _ => id, ?_⟩
  unfold Scheduler.switchAddressSpace Memory.pagingSwitchDirectory
  dsimp only
  split
  · split <;> rfl
  · rfl

variable [DecidableEq ι]

/-- A process changes in the scheduler's fields, and does not die of it. -/
theorem setProc {proc : ι} {f : Process → Process} (hf : ∀ q : Process, q.Rescheduled (f q))
    (hd : (f (s.procs proc)).state ≠ .dead ∨ (f (s.procs proc)).state = (s.procs proc).state) :
    Rescheduled s (s.setProc proc f) := by
  refine ⟨fun p => ?_, fun p => ?_, rfl⟩
  · show (s.procs p).Rescheduled (update s.procs proc (f (s.procs proc)) p)
    by_cases hp : p = proc
    · subst hp
      rw [update_self]
      exact hf _
    · rw [update_of_ne hp]
      exact .refl _
  · show (update s.procs proc (f (s.procs proc)) p).state = .dead → _
    by_cases hp : p = proc
    · subst hp
      rw [update_self]
      intro hdead
      rcases hd with hd | hd
      · exact absurd hdead hd
      · rw [← hd, hdead]
    · rw [update_of_ne hp]
      exact id

/-- A process is made ready and put into the list. -/
theorem enqueue (s : Scheduler ι) (proc : ι) : Rescheduled s (s.enqueue proc) := by
  unfold Scheduler.enqueue
  dsimp only
  split
  · have h : Rescheduled s (s.setProc proc fun p => { p with dynamicPriority := p.basePriority }) :=
      setProc (fun _ => rfl) (.inr rfl)
    exact h.trans (of_same rfl rfl)
  · exact of_same rfl rfl

/-- The dynamic priority of one process is raised. -/
theorem age (s : Scheduler ι) (proc : ι) : Rescheduled s (s.age proc) := by
  unfold Scheduler.age
  split
  · exact setProc (fun _ => rfl) (.inr rfl)
  · exact refl s

/-- The dynamic priorities of the whole list are raised. -/
theorem ageReadyQueue (s : Scheduler ι) : Rescheduled s s.ageReadyQueue := by
  unfold Scheduler.ageReadyQueue
  generalize s.readyQueue = l
  induction l generalizing s with
  | nil => exact refl s
  | cons proc l ih => exact (age s proc).trans (ih _)

/-- A process from the list runs, with its directory loaded. -/
theorem dispatch (s : Scheduler ι) (next : ι) : Rescheduled s (s.dispatch next) := by
  unfold Scheduler.dispatch
  have hrun : Rescheduled s (s.setProc next fun p =>
      { p with
        dynamicPriority := p.basePriority
        state := .running
        runCount := (p.runCount + 1) % wordSize }) := setProc (fun _ => rfl) (.inl nofun)
  refine hrun.trans (trans (of_same rfl rfl) ((switchAddressSpace _ next).trans (of_same rfl rfl)))

/-- The process that runs goes back into the list. -/
theorem requeueCurrent (s : Scheduler ι) : Rescheduled s s.requeueCurrent := by
  unfold Scheduler.requeueCurrent
  split
  · exact refl s
  · rename_i current _
    have h : Rescheduled s (s.setProc current fun p => { p with state := .ready }) :=
      setProc (fun _ => rfl) (.inl nofun)
    split
    · exact h.trans (enqueue _ current)
    · exact refl s

/-- The best ready process leaves the list. -/
theorem dequeueBest (s : Scheduler ι) : Rescheduled s s.dequeueBest.2 := by
  unfold Scheduler.dequeueBest
  split
  · exact refl s
  · exact of_same rfl rfl

/-- `scheduler_schedule_locked`: the best ready process runs, if there is one, and the one that ran is ready again. -/
theorem schedulerScheduleLocked (s : Scheduler ι) : Rescheduled s s.schedulerScheduleLocked := by
  unfold Scheduler.schedulerScheduleLocked
  have h := dequeueBest s
  split
  · exact refl s
  · rename_i next s' heq
    rw [heq] at h
    exact h.trans ((requeueCurrent s').trans ((ageReadyQueue _).trans (dispatch _ next)))

/-- The processor is taken away from the process that runs and given to the best ready one. -/
theorem preemptTo (s : Scheduler ι) (esp : Word) : Rescheduled s (s.preemptTo esp).2 := by
  have h := schedulerScheduleLocked s
  unfold Scheduler.preemptTo
  split
  · exact refl s
  · split
    · exact refl s
    · dsimp only
      split
      · exact h
      · split <;> exact h

/-- `scheduler_preempt`, with or without another process that is ready. -/
theorem schedulerPreempt (s : Scheduler ι) (esp : Word) : Rescheduled s (s.schedulerPreempt esp).2 := by
  unfold Scheduler.schedulerPreempt
  split
  · exact refl s
  · split
    · exact preemptTo s esp
    · rename_i current _
      have h : Rescheduled s (s.setProc current fun p => { p with esp := esp }) :=
        setProc (fun _ => rfl) (.inr rfl)
      split
      · exact refl s
      · exact h.trans (preemptTo _ esp)

/-- A process has stopped, and there is none to run: it runs on, or nobody does. -/
theorem stopWithoutNext (s : Scheduler ι) (stopped : ι) (esp : Word) (resume : Bool) :
    Rescheduled s (s.stopWithoutNext stopped esp resume).2 := by
  unfold Scheduler.stopWithoutNext
  have h : Rescheduled s (s.setProc stopped fun p => { p with state := .running }) :=
    setProc (fun _ => rfl) (.inl nofun)
  split
  · exact h
  · exact refl s

/-- `scheduler_stop_current_locked`: a process is stopped in a state that is not `PROCESS_DEAD`. -/
theorem schedulerStopCurrentLocked (s : Scheduler ι) (esp : Word) {state : ProcessState}
    (hstate : state ≠ .dead) (resume : Bool) :
    Rescheduled s (s.schedulerStopCurrentLocked esp state resume).2 := by
  unfold Scheduler.schedulerStopCurrentLocked
  split
  · exact refl s
  split
  · exact refl s
  dsimp only
  rename_i stopped _ _
  have hstop : Rescheduled s (s.setProc stopped fun p =>
      { p with esp := esp, interruptFrame := true, state := state }) :=
    setProc (fun _ => rfl) (.inl hstate)
  generalize s.setProc stopped _ = s₁ at hstop
  have hdequeue := dequeueBest s₁
  split
  · rename_i s₂ heq
    rw [heq] at hdequeue
    exact hstop.trans (hdequeue.trans (stopWithoutNext s₂ stopped esp resume))
  · rename_i next s₂ heq
    rw [heq] at hdequeue
    refine hstop.trans (hdequeue.trans ?_)
    split
    · exact (enqueue s₂ next).trans (stopWithoutNext _ stopped esp resume)
    · exact (ageReadyQueue s₂).trans (dispatch _ next)

/-- `scheduler_block_current` -/
theorem schedulerBlockCurrent (s : Scheduler ι) (esp : Word) :
    Rescheduled s (s.schedulerBlockCurrent esp).2 :=
  schedulerStopCurrentLocked s esp (show ProcessState.blocked ≠ .dead by decide) true

/-- `scheduler_exit_current`: the process is a zombie. -/
theorem schedulerExitCurrent (s : Scheduler ι) (esp : Word) :
    Rescheduled s (s.schedulerExitCurrent esp).2 :=
  schedulerStopCurrentLocked s esp (show ProcessState.zombie ≠ .dead by decide) false

/-- `scheduler_wake`: a process that is blocked is ready. -/
theorem schedulerWake (s : Scheduler ι) (proc : ι) : Rescheduled s (s.schedulerWake proc) := by
  unfold Scheduler.schedulerWake
  have h : Rescheduled s (s.setProc proc fun p => { p with state := .ready }) :=
    setProc (fun _ => rfl) (.inl nofun)
  split
  · exact h.trans (enqueue _ proc)
  · exact refl s

/-- `scheduler_remove`: a process leaves the list. -/
theorem schedulerRemove (s : Scheduler ι) (proc : ι) : Rescheduled s (s.schedulerRemove proc) :=
  of_same rfl rfl

end Rescheduled

end AgenticOs
