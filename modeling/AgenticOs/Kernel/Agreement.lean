import AgenticOs.Kernel.Bookkeeping

/-!
# The process table and the scheduler agree

`Agrees k c`: process `c` runs, nobody else does, and the ready queue holds the ready processes. The lemmas
follow a handler.

* **For the running process** (`Serves`): what a call does that returns to its caller. Such calls compose
  (`Serves.trans`), and quiet steps are among them (`Quiet.serves`).
* **Its end** (`Ended`, `Left`): what a process that has ended leaves behind, and what the scheduler makes of
  it (`Ended.exitCurrent`): nobody is left to resume, or the best ready process is.
* **Stopping it** (`switched_of_stop`): the scheduler switches to the best ready process, at its saved stack
  pointer (`Resumes`).
* **Signals** (`processDeliverSignals_delivers`): the delivery loop ends, in a process without a fatal signal
  or with nobody to run. The induction is on the processes that are still alive.
* **Other entries** (`serves_processDestroy`) and **fork** (`processFork_forking`): a child is ready and not
  yet in the queue while it is made.
-/

namespace AgenticOs

open Function Lib Scheduler

/-- `c` runs, and nobody else; the saved frames are in the view `v`. -/
structure AgreesIn (v : View) (k : Kernel) (c : Slot) : Prop where
  runs : k.toScheduler.Runs v c
  pool : StackPool k.stackPool

/-- `c` runs, and nobody else. -/
abbrev Agrees (k : Kernel) (c : Slot) : Prop := AgreesIn k.view k c

/-- What a handler returns that resumes a process: the frame of the interrupted process `c`, if it
goes on, or the saved stack pointer of the process that runs now. -/
def Resumes (k : Kernel) (c : Slot) (frame esp : Word) : Prop :=
  ∃ n, Agrees k n ∧ esp ≠ 0 ∧ k.view.ring esp ∧ (esp = frame ∧ n = c ∨ esp = (k.procs n).esp)

/-- No process has been blocked, and those that still are have got no fatal signal. -/
def BlockedSame (k k' : Kernel) : Prop :=
  ∀ p, (k'.procs p).state = .blocked →
    (k.procs p).state = .blocked ∧ (k'.procs p).fatalPending = (k.procs p).fatalPending

/-- Frames of ring 3 stay so, nobody has been blocked, and the running process has got no fatal
signal. -/
structure Calm (k k' : Kernel) (c : Slot) : Prop where
  view : k.view.Le k'.view
  blocked : BlockedSame k k'
  fatal : (k'.procs c).fatalPending = (k.procs c).fatalPending

/-- The kernel has worked for the running process. -/
structure Served (k k' : Kernel) (c : Slot) : Prop extends Calm k k' c where
  agrees : Agrees k' c

/-- The kernel works for the running process. -/
def Serves (c : Slot) (k k' : Kernel) : Prop := Agrees k c → Served k k' c

variable {v v' : View} {k k' : Kernel} {c n : Slot} {frame esp : Word}

/-- The same agreement, with more frames of ring 3. -/
theorem AgreesIn.mono (h : AgreesIn v k c) (hv : v.Le v') : AgreesIn v' k c :=
  ⟨h.runs.same (.refl _) hv, h.pool⟩

/-- Nobody has been blocked. -/
theorem BlockedSame.refl (k : Kernel) : BlockedSame k k := fun _ h => ⟨h, rfl⟩

/-- Two steps in which nobody is blocked. -/
theorem BlockedSame.trans {k'' : Kernel} (h : BlockedSame k k') (h' : BlockedSame k' k'') :
    BlockedSame k k'' := fun p hp =>
  ⟨(h p (h' p hp).1).1, (h' p hp).2.trans (h p (h' p hp).1).2⟩

/-- Quiet steps block nobody. -/
theorem Quiet.blockedSame (h : Quiet k k') : BlockedSame k k' := fun p hp =>
  ⟨(h.state p).elim (fun hs => hs ▸ hp) fun hr => hr.1, (h.kept p).fatal⟩

/-- Nothing has happened. -/
theorem Calm.refl (k : Kernel) (c : Slot) : Calm k k c := ⟨.refl _, .refl _, rfl⟩

/-- Two calm steps after one another. -/
theorem Calm.trans {k'' : Kernel} (h : Calm k k' c) (h' : Calm k' k'' c) : Calm k k'' c :=
  ⟨h.view.trans h'.view, h.blocked.trans h'.blocked, h'.fatal.trans h.fatal⟩

/-- Quiet steps are calm. -/
theorem Quiet.calm (h : Quiet k k') (c : Slot) : Calm k k' c :=
  ⟨h.view, h.blockedSame, (h.kept c).fatal⟩

/-- Another process changes, and is not blocked. -/
theorem Calm.setProc {proc : Slot} {f : Process → Process} (hne : proc ≠ c)
    (hf : (f (k.procs proc)).state ≠ .blocked) : Calm k (k.setProc proc f) c := by
  refine ⟨.refl _, fun p hp => ?_, ?_⟩
  · by_cases hpp : p = proc
    · subst hpp
      rw [Kernel.setProc_self] at hp
      exact absurd hp hf
    · rw [k.setProc_of_ne hpp] at hp ⊢
      exact ⟨hp, rfl⟩
  · rw [k.setProc_of_ne (Ne.symm hne)]

/-- A calm step before work for the running process. -/
theorem Calm.served {k'' : Kernel} (h : Calm k k' c) (h' : Served k' k'' c) : Served k k'' c :=
  ⟨h.trans h'.toCalm, h'.agrees⟩

/-- Nothing has been done. -/
theorem Serves.refl (c : Slot) (k : Kernel) : Serves c k k := fun h => ⟨.refl k c, h⟩

/-- Work for the running process, in two parts. -/
theorem Serves.trans {k'' : Kernel} (h : Serves c k k') (h' : Serves c k' k'') : Serves c k k'' := by
  intro hk
  have hs := h hk
  have hs' := h' hs.agrees
  exact ⟨hs.toCalm.trans hs'.toCalm, hs'.agrees⟩

instance (c : Slot) : IsPreorder Kernel (Serves c) where
  refl := Serves.refl c
  trans _ _ _ := Serves.trans

/-- Quiet work for it. -/
theorem Quiet.serves (h : Quiet k k') (c : Slot) : Serves c k k' := by
  intro hk
  refine ⟨h.calm c, h.runs h.view hk.runs, ?_⟩
  rw [h.pool]
  exact hk.pool

/-- `process_get_current` finds the process that runs. -/
theorem AgreesIn.processGetCurrent (h : AgreesIn v k c) : k.processGetCurrent = some c := by
  unfold Kernel.processGetCurrent
  rcases hf : slots.find? fun i => (k.procs i).state = .running with _ | i
  · have := List.find?_eq_none.mp hf c (List.mem_finRange c)
    rw [(h.runs.running c).mpr rfl] at this
    exact absurd rfl this
  · have := List.find?_some hf
    rw [(h.runs.running i).mp (by simpa using this)]

/-! ### The end of a process -/

/-- What a process that has ended leaves behind. -/
structure Ended (v : View) (k k' : Kernel) (c : Slot) : Prop where
  kept : ∀ p, Kept (k.procs p) (k'.procs p)
  view : k.view.Le k'.view
  pool : k'.stackPool = k.stackPool
  stoppable : k'.toScheduler.Stoppable v c
  zombie : (k'.procs c).state = .zombie
  state : ∀ p, p ≠ c → (k'.procs p).state = (k.procs p).state ∨
    ((k.procs p).state = .blocked ∧ (k'.procs p).state = .ready)

/-- A quiet step after the end of a process. -/
theorem Ended.quiet {k'' : Kernel} (h : Ended v k k' c) (hq : Quiet k' k'') : Ended v k k'' c where
  kept := fun p => (h.kept p).trans (hq.kept p)
  view := h.view.trans hq.view
  pool := hq.pool.trans h.pool
  stoppable := by
    have hz : (k''.procs c).state = .zombie := by
      rw [hq.state_eq (by rw [h.zombie]; decide)]
      exact h.zombie
    refine ⟨hq.ordered (.refl v) ∅ h.stoppable.ordered, hq.current.trans h.stoppable.current, .inr hz, ?_, ?_⟩
    · intro p hp
      exact h.stoppable.running p ((hq.state_running p).mp hp)
    · rw [hq.active h.stoppable.ordered.active, (hq.kept c).cr3]
      exact h.stoppable.directory
  zombie := by
    rw [hq.state_eq (by rw [h.zombie]; decide)]
    exact h.zombie
  state := by
    intro p hp
    rcases h.state p hp with hs | ⟨hb, hr⟩
    · rw [← hs]
      exact hq.state p
    · exact .inr ⟨hb, (hq.state_eq (by rw [hr]; decide)).trans hr⟩

/-- `endProcess` ends the running process. -/
theorem endProcess_ended (h : AgreesIn v k c) (exitCode : Word) :
    Ended v k (endProcess c exitCode k).2 c := by
  have hrun : (k.procs c).state = .running := (h.runs.running c).mpr rfl
  -- the running process is not in the queue
  have hremove : Quiet k (k.onScheduler (·.schedulerRemove c)) := by
    have hq : c ∉ k.readyQueue := fun hm => by
      have := ((h.runs.ordered.mem c).mp hm).1
      rw [hrun] at this
      cases this
    have heq : k.onScheduler (·.schedulerRemove c) = k := by
      unfold Kernel.onScheduler Scheduler.schedulerRemove
      dsimp only
      rw [List.erase_of_not_mem hq]
    rw [heq]
    exact Quiet.refl k
  have hcode : Quiet (k.onScheduler (·.schedulerRemove c)) ((k.onScheduler
      (·.schedulerRemove c)).setProc c fun p =>
        { p with
          exitCode := if exitCode.msb then exitCode else exitCode &&& 0xFF
          exited := true }) :=
    Quiet.setProc (fun _ => ⟨rfl, rfl, rfl, rfl, rfl, id⟩) fun _ => rfl
  have hq := (hremove.trans hcode).trans (quiet_processFdCloseAll c _)
  unfold endProcess
  rw [run_bind, run_onScheduler, run_bind, run_modifyProc, run_bind, run_modifyProc]
  dsimp only
  generalize (processFdCloseAll c _).2 = k' at hq
  have hruns := hq.runs (.refl v) h.runs
  have hrun' : (k'.procs c).state = .running := (hruns.running c).mpr rfl
  have hkept : ∀ p, Kept (k'.procs p)
      ((k'.setProc c fun p => { p with state := .zombie, blockReason := .none }).procs p) := by
    intro p
    by_cases hp : p = c
    · subst hp
      rw [Kernel.setProc_self]
      exact ⟨rfl, rfl, rfl, rfl, rfl, id⟩
    · rw [k'.setProc_of_ne hp]
      exact Kept.refl _
  have hhoused : Housed v (k'.procs c) := hruns.ordered.housed c (by
    rw [hrun']
    decide)
  have hord : (k'.toScheduler.setProc c fun p =>
      { p with state := .zombie, blockReason := .none }).Ordered v ∅ := by
    refine hruns.ordered.setOther nofun ?_ nofun fun _ => ?_
    · rw [hrun']
      decide
    · exact hhoused.kept ⟨rfl, rfl, rfl, rfl, rfl, id⟩ (.refl _)
  refine ⟨fun p => (hq.kept p).trans (hkept p), hq.view, hq.pool, ?_, ?_, fun p hp => ?_⟩
  · refine ⟨hord, hruns.current, .inr ?_, fun p hp => ?_, ?_⟩
    · rw [Kernel.setProc_self]
    · by_contra hpc
      rw [k'.setProc_of_ne hpc] at hp
      exact hpc ((hruns.running p).mp hp)
    · rw [Kernel.setProc_self]
      exact hruns.directory
  · rw [Kernel.setProc_self]
  · rw [k'.setProc_of_ne hp]
    exact hq.state p

/-- A process that ends. -/
theorem processMarkExit_ended (h : AgreesIn v k c) (exitCode : Word) :
    Ended v k (processMarkExit c exitCode k).2 c := by
  have hrun : (k.procs c).state = .running := (h.runs.running c).mpr rfl
  have h' := (endProcess_ended h exitCode).quiet (quiet_tellFamily c _)
  unfold processMarkExit
  rw [run_bind, run_getProc, run_ite, if_neg (by rw [hrun]; decide), run_bind]
  exact h'

/-! ### Stopping the current process -/

/-- Process `c` has been stopped in the state `stopped`, and `n` resumed. -/
structure Switched (v : View) (k k' : Kernel) (c n : Slot) (stopped : ProcessState) : Prop where
  agrees : AgreesIn v k' n
  esp : (k'.procs n).esp ≠ 0
  ring : v.ring (k'.procs n).esp
  view : k'.view = k.view
  fatal : ∀ p, (k'.procs p).fatalPending = (k.procs p).fatalPending
  state : ∀ p, (k'.procs p).state =
    if p = n then .running else if p = c then stopped else (k.procs p).state
  kept : ∀ p, p ≠ c → Kept (k.procs p) (k'.procs p)

/-- The process that is switched to is resumed at its saved stack pointer. -/
theorem Switched.resumes {stopped : ProcessState} (h : Switched v k k' c n stopped)
    (hv : v.Le k'.view) (d : Slot) (frame : Word) : Resumes k' d frame (k'.procs n).esp :=
  ⟨n, h.agrees.mono hv, h.esp, hv.ring _ h.ring, .inr rfl⟩

/-- The scheduler switches from a process that may be stopped to the best ready one. -/
theorem switched_of_stop (h : k.toScheduler.Stoppable v c) (hpool : StackPool k.stackPool)
    (hframe : frame ≠ 0) (hring : v.ring frame) {stopped : ProcessState}
    (hst : stopped = .blocked ∨ stopped = .zombie) (resume : Bool)
    (hbest : k.findBestReady = some n) :
    Switched v k (k.onScheduler fun s => (s.schedulerStopCurrentLocked frame stopped resume).2) c n
        stopped ∧
      (k.toScheduler.schedulerStopCurrentLocked frame stopped resume).1 =
        ((k.toScheduler.schedulerStopCurrentLocked frame stopped resume).2.procs n).esp := by
  have hready : (k.procs n).state = .ready :=
    ((h.ordered.mem n).mp (findBestReady_mem hbest)).1
  have hne : n ≠ c := by
    rintro rfl
    rcases h.state with hs | hs <;> rw [hready] at hs <;> cases hs
  have heq : k.toScheduler.schedulerStopCurrentLocked frame stopped resume = _ :=
    h.stop_some hframe hbest
  have hruns := h.runs_next hframe hring hst hbest
  have hprocs := fun p => Stoppable.stop_procs k.toScheduler hne p frame stopped
  have hres := h.ordered.resumable n (.inl hready)
  have hk := (hprocs n).2.1 hne
  unfold Kernel.onScheduler
  dsimp only
  rw [heq]
  dsimp only
  refine ⟨⟨⟨hruns, hpool⟩, ?_, ?_, rfl, fun p => (hprocs p).1, fun p => (hprocs p).2.2,
    fun p => (hprocs p).2.1⟩, rfl⟩
  · exact fun he => hres.esp (hk.esp.symm.trans he)
  · show v.ring _
    rw [hk.esp]
    exact hres.ring

/-- What the end of the running process leaves behind once the scheduler has moved on. -/
structure Left (k k' : Kernel) (c : Slot) : Prop where
  view : k.view.Le k'.view
  fatal : ∀ p, p ≠ c → (k'.procs p).fatalPending = (k.procs p).fatalPending
  zombie : (k'.procs c).state = .zombie
  state : ∀ p, p ≠ c → (k'.procs p).state = (k.procs p).state ∨
    ((k.procs p).state = .blocked ∨ (k.procs p).state = .ready) ∧ k'.canRun p

/-- The process has not ended. -/
def Process.Lives (p : Process) : Prop := p.state ≠ .zombie ∧ p.state ≠ .dead

instance (p : Process) : Decidable p.Lives := inferInstanceAs (Decidable (_ ∧ _))

/-- Who is blocked after a process has left was blocked before, and is not the process that left. -/
theorem Left.blocked (h : Left k k' c) {p : Slot} (hp : (k'.procs p).state = .blocked) :
    (k.procs p).state = .blocked ∧ p ≠ c := by
  have hpc : p ≠ c := by
    rintro rfl
    rw [h.zombie] at hp
    cases hp
  rcases h.state p hpc with hs | ⟨-, hr | hr⟩
  · exact ⟨hs.symm.trans hp, hpc⟩
  · rw [hr] at hp
    cases hp
  · rw [hr] at hp
    cases hp

/-- Who lives then lived before. -/
theorem Left.lives (h : Left k k' c) {p : Slot} (hp : (k'.procs p).Lives) :
    (k.procs p).Lives ∧ p ≠ c := by
  have hpc : p ≠ c := by
    rintro rfl
    exact hp.1 h.zombie
  refine ⟨?_, hpc⟩
  rcases h.state p hpc with hs | ⟨hold, -⟩
  · unfold Process.Lives at hp ⊢
    rw [← hs]
    exact hp
  · rcases hold with ho | ho <;> exact ⟨by rw [ho]; decide, by rw [ho]; decide⟩

/-- The running process `c` is gone: nobody is left to resume, or the best ready process is. -/
theorem Ended.exitCurrent (h : Ended v k k' c) (hpool : StackPool k.stackPool) (hframe : frame ≠ 0)
    (hring : v.ring frame) :
    Left k (k'.onScheduler fun s => (s.schedulerExitCurrent frame).2) c ∧
      (k'.findBestReady = none ∧ (k'.toScheduler.schedulerExitCurrent frame).1 = 0 ∨
        ∃ n, k'.findBestReady = some n ∧
          Switched v k' (k'.onScheduler fun s => (s.schedulerExitCurrent frame).2) c n .zombie ∧
          (k'.toScheduler.schedulerExitCurrent frame).1 =
            ((k'.toScheduler.schedulerExitCurrent frame).2.procs n).esp) := by
  rcases hbest : k'.findBestReady with _ | n
  · have heq : k'.toScheduler.schedulerExitCurrent frame = _ :=
      h.stoppable.stop_none hframe hbest
    have hgone : (k'.toScheduler.schedulerExitCurrent frame).2 =
        k'.toScheduler.setProc c (Stoppable.saved frame .zombie) := by
      rw [heq]
      rfl
    have hprocs (p : Slot) (hp : p ≠ c) :
        (k'.toScheduler.schedulerExitCurrent frame).2.procs p = k'.procs p := by
      rw [hgone]
      exact setProc_of_ne hp _
    refine ⟨⟨h.view, fun p hp => ?_, ?_, fun p hp => ?_⟩, .inl ⟨rfl, ?_⟩⟩
    · exact (congrArg Process.fatalPending (hprocs p hp)).trans (h.kept p).fatal
    · have hz : (k'.toScheduler.schedulerExitCurrent frame).2.procs c =
          Stoppable.saved frame .zombie (k'.procs c) := by
        rw [hgone]
        exact setProc_self ..
      exact congrArg Process.state hz
    · have heq := congrArg Process.state (hprocs p hp)
      rcases h.state p hp with hs | ⟨hb, hr⟩
      · exact .inl (heq.trans hs)
      · exact .inr ⟨.inl hb, .inr (heq.trans hr)⟩
    · rw [heq]
      rfl
  · obtain ⟨hswitched, hesp⟩ := switched_of_stop h.stoppable (h.pool ▸ hpool) hframe
      hring (.inr rfl) false hbest
    have hready : (k'.procs n).state = .ready :=
      ((h.stoppable.ordered.mem n).mp (findBestReady_mem hbest)).1
    have hnc : n ≠ c := by
      rintro rfl
      rw [h.zombie] at hready
      cases hready
    refine ⟨⟨?_, fun p hp => ?_, ?_, fun p hp => ?_⟩, .inr ⟨n, rfl, hswitched, hesp⟩⟩
    · exact h.view
    · exact (hswitched.fatal p).trans (h.kept p).fatal
    · refine (hswitched.state c).trans ?_
      rw [if_neg (Ne.symm hnc), if_pos rfl]
    · have hstate := hswitched.state p
      by_cases hpn : p = n
      · subst hpn
        rw [if_pos rfl] at hstate
        rcases h.state p hp with hs | ⟨hb, -⟩
        · exact .inr ⟨.inr (hs.symm.trans hready), .inl hstate⟩
        · exact .inr ⟨.inl hb, .inl hstate⟩
      · rw [if_neg hpn, if_neg hp] at hstate
        rcases h.state p hp with hs | ⟨hb, hr⟩
        · exact .inl (hstate.trans hs)
        · exact .inr ⟨.inl hb, .inr (hstate.trans hr)⟩

/-- The process `n` has been resumed at its saved stack pointer. -/
structure Resumed (k : Kernel) (n : Slot) (esp : Word) : Prop where
  agrees : Agrees k n
  nonzero : esp ≠ 0
  ring : k.view.ring esp
  saved : esp = (k.procs n).esp

/-- A resumed process is one that a handler returns to. -/
theorem Resumed.resumes (h : Resumed k n esp) : Resumes k c frame esp :=
  ⟨n, h.agrees, h.nonzero, h.ring, .inr h.saved⟩

/-- The running process ends, and the best of the processes that are ready then is resumed. -/
theorem dieOfFault_left (h : Agrees k c) (hframe : frame ≠ 0) (hring : k.view.ring frame)
    (exitCode : Word) :
    Left k (dieOfFault c exitCode frame k).2 c ∧
      ((processMarkExit c exitCode k).2.findBestReady = none ∧
          (dieOfFault c exitCode frame k).1 = 0 ∨
        ∃ n, ((processMarkExit c exitCode k).2.findBestReady = some n ∧ n ≠ c) ∧
          Resumed (dieOfFault c exitCode frame k).2 n (dieOfFault c exitCode frame k).1) := by
  have hended := processMarkExit_ended h exitCode
  unfold dieOfFault
  rw [run_bind, run_callScheduler]
  dsimp only
  generalize (processMarkExit c exitCode k).2 = k₁ at hended
  obtain ⟨hleft, hnext⟩ := hended.exitCurrent h.pool hframe hring
  refine ⟨hleft, ?_⟩
  rcases hnext with hnone | ⟨n, hbest, hswitched, hesp⟩
  · exact .inl hnone
  · refine .inr ⟨n, ⟨hbest, ?_⟩, hswitched.agrees.mono hleft.view, ?_, ?_, hesp⟩
    · rintro rfl
      have hq := ((hended.stoppable.ordered.mem n).mp (findBestReady_mem hbest)).1
      rw [hended.zombie] at hq
      cases hq
    · rw [hesp]
      exact hswitched.esp
    · rw [hesp]
      exact hleft.view.ring _ hswitched.ring

/-! ### Signals -/

/-- The running process changes, but not its state, its address space or its kernel stack. -/
theorem AgreesIn.setProc (h : AgreesIn v k c) {f : Process → Process}
    (hs : (f (k.procs c)).state = .running) (hcr3 : (f (k.procs c)).cr3 = (k.procs c).cr3)
    (hstack : (f (k.procs c)).kernelStack = (k.procs c).kernelStack) :
    AgreesIn v (k.setProc c f) c where
  runs := h.runs.setProc hs hcr3 hstack
  pool := h.pool

/-- A process that dies of a signal: nobody is left to resume, or another process runs. -/
theorem dieOfSignal_left (h : AgreesIn v k c) (hframe : frame ≠ 0) (hring : v.ring frame)
    (signum : Nat) :
    Left k (dieOfSignal c signum frame k).2 c ∧
      ((dieOfSignal c signum frame k).1 = 0 ∧ (∀ p, p ≠ c → (k.procs p).state ≠ .ready) ∨
        ∃ n, AgreesIn v (dieOfSignal c signum frame k).2 n ∧
          (dieOfSignal c signum frame k).1 ≠ 0 ∧ v.ring (dieOfSignal c signum frame k).1 ∧
          (dieOfSignal c signum frame k).1 = ((dieOfSignal c signum frame k).2.procs n).esp ∧
          ∀ p, p ≠ c → (k.procs p).state = .ready →
            p = n ∨ ((dieOfSignal c signum frame k).2.procs p).state = .ready) := by
  have hrun : (k.procs c).state = .running := (h.runs.running c).mpr rfl
  unfold dieOfSignal
  rw [run_bind, run_modifyProc, run_bind, run_callScheduler]
  dsimp only
  generalize hk₁ : k.setProc c _ = k₁
  have hagrees : AgreesIn v k₁ c := by
    subst hk₁
    exact h.setProc hrun rfl rfl
  have hother (p : Slot) (hp : p ≠ c) : k₁.procs p = k.procs p := by
    subst hk₁
    exact k.setProc_of_ne hp _
  have hself : (k₁.procs c).state = .running := (hagrees.runs.running c).mpr rfl
  have hview : k₁.view = k.view := by
    subst hk₁
    rfl
  have hended := processMarkExit_ended hagrees 0
  generalize (processMarkExit c 0 k₁).2 = k₂ at hended
  obtain ⟨hleft, hnext⟩ := hended.exitCurrent hagrees.pool hframe hring
  -- a process that was ready still is
  have hready (p : Slot) (hp : p ≠ c) (hr : (k.procs p).state = .ready) :
      (k₂.procs p).state = .ready := by
    rcases hended.state p hp with hs | ⟨hb, -⟩
    · rw [hs, hother p hp]
      exact hr
    · rw [hother p hp, hr] at hb
      cases hb
  refine ⟨⟨?_, fun p hp => ?_, hleft.zombie, fun p hp => ?_⟩, ?_⟩
  · rw [← hview]
    exact hleft.view
  · rw [hleft.fatal p hp, hother p hp]
  · rw [← hother p hp]
    exact hleft.state p hp
  rcases hnext with ⟨hbest, hzero⟩ | ⟨n, hbest, hswitched, hesp⟩
  · refine .inl ⟨hzero, fun p hp hr => ?_⟩
    have hq := (hended.stoppable.ordered.mem p).mpr ⟨hready p hp hr, Set.notMem_empty p⟩
    rw [findBestReady_none hbest] at hq
    cases hq
  · refine .inr ⟨n, hswitched.agrees, ?_, ?_, hesp, fun p hp hr => ?_⟩
    · rw [hesp]
      exact hswitched.esp
    · rw [hesp]
      exact hswitched.ring
    · by_cases hpn : p = n
      · exact .inl hpn
      · have := hswitched.state p
        rw [if_neg hpn, if_neg hp, hready p hp hr] at this
        exact .inr this

/-- What the delivery of signals returns to: a process without a fatal signal, interrupted or
resumed. -/
structure Delivered (v : View) (k k' : Kernel) (c n : Slot) (esp esp' : Word) : Prop where
  agrees : AgreesIn v k' n
  nonzero : esp' ≠ 0
  ring : v.ring esp'
  clean : k'.view.ring esp' → (k'.procs n).fatalPending = false
  resumed : esp' = esp ∧ n = c ∧ (k'.procs n).esp = (k.procs n).esp ∨ esp' = (k'.procs n).esp

/-- The delivery of signals to the running process `c`: it returns to a process without a fatal
signal, or every process that could run has one. -/
structure Delivers (v : View) (k k' : Kernel) (c : Slot) (esp esp' : Word) : Prop where
  view : k.view.Le k'.view
  blocked : BlockedSame k k'
  returns : esp' = 0 ∧ (∀ p, p = c ∨ (k.procs p).state = .ready → (k.procs p).fatalPending = true) ∨
    ∃ n, Delivered v k k' c n esp esp'

/-- Nobody is blocked by the end of another. -/
theorem Left.blockedSame (h : Left k k' c) : BlockedSame k k' := fun p hp =>
  ⟨(h.blocked hp).1, h.fatal p (h.blocked hp).2⟩

/-- There is nothing to deliver on no stack. -/
theorem processDeliverSignals_zero {fuel : Nat} {r : Word × Kernel}
    (h : processDeliverSignals fuel 0 k = some r) : r = (0, k) := by
  cases fuel with
  | zero => cases h
  | succ fuel =>
    unfold processDeliverSignals at h
    split at h
    · exact (Option.some.inj h).symm
    · rw [if_pos (.inl rfl)] at h
      exact (Option.some.inj h).symm

/-- `SIGCHLD` is only cleared. -/
theorem Delivers.after (hq : Quiet k k') (hset : (k.procs c).fatalPending = false) {k'' : Kernel}
    {esp' : Word} (h : Delivers v k' k'' c esp esp') : Delivers v k k'' c esp esp' := by
  refine ⟨hq.view.trans h.view, hq.blockedSame.trans h.blocked, ?_⟩
  rcases h.returns with ⟨-, hall⟩ | ⟨m, hm⟩
  · have := hall c (.inl rfl)
    rw [(hq.kept c).fatal, hset] at this
    cases this
  · refine .inr ⟨m, hm.agrees, hm.nonzero, hm.ring, hm.clean, ?_⟩
    rcases hm.resumed with ⟨heq, hmc, hkeep⟩ | heq
    · exact .inl ⟨heq, hmc, hkeep.trans (hq.kept m).esp⟩
    · exact .inr heq

/-- The running process dies of a fatal signal, and the next one is looked at. -/
theorem Delivers.die {signum : Nat} {fuel : Nat} {esp' : Word} (h : AgreesIn v k c) (hesp : esp ≠ 0)
    (hring : v.ring esp) (hfatal : (k.procs c).fatalPending = true)
    (hrest : processDeliverSignals fuel (dieOfSignal c signum esp k).1 (dieOfSignal c signum esp k).2 =
      some (esp', k'))
    (ih : ∀ n, AgreesIn v (dieOfSignal c signum esp k).2 n → (dieOfSignal c signum esp k).1 ≠ 0 →
      v.ring (dieOfSignal c signum esp k).1 →
      Delivers v (dieOfSignal c signum esp k).2 k' n (dieOfSignal c signum esp k).1 esp') :
    Delivers v k k' c esp esp' := by
  obtain ⟨hleft, hnext⟩ := dieOfSignal_left h hesp hring signum
  rcases hnext with ⟨hzero, hnone⟩ | ⟨n, hagrees, hne, hr, hsaved, hready⟩
  · rw [hzero] at hrest
    obtain ⟨rfl, rfl⟩ := Prod.mk.inj (processDeliverSignals_zero hrest)
    refine ⟨hleft.view, hleft.blockedSame, .inl ⟨rfl, ?_⟩⟩
    rintro p (rfl | hp)
    · exact hfatal
    · by_cases hpc : p = c
      · exact hpc ▸ hfatal
      · exact absurd hp (hnone p hpc)
  · have hn := ih n hagrees hne hr
    refine ⟨hleft.view.trans hn.view, hleft.blockedSame.trans hn.blocked, ?_⟩
    rcases hn.returns with ⟨hzero, hall⟩ | ⟨m, hm⟩
    · refine .inl ⟨hzero, ?_⟩
      rintro p (rfl | hp)
      · exact hfatal
      · by_cases hpc : p = c
        · exact hpc ▸ hfatal
        · rw [← hleft.fatal p hpc]
          exact hall p (hready p hpc hp)
    · refine .inr ⟨m, hm.agrees, hm.nonzero, hm.ring, hm.clean, .inr ?_⟩
      rcases hm.resumed with ⟨heq, rfl, hkeep⟩ | heq
      · exact heq.trans (hsaved.trans hkeep.symm)
      · exact heq

/-- **The delivery of signals** to the running process, if its loop ends. The induction is on the rounds. -/
theorem processDeliverSignals_delivers (fuel : Nat) {k k' : Kernel} {c : Slot} {esp esp' : Word}
    (h : AgreesIn v k c) (hesp : esp ≠ 0) (hring : v.ring esp)
    (hrun : processDeliverSignals fuel esp k = some (esp', k')) : Delivers v k k' c esp esp' := by
  induction fuel generalizing k c esp with
  | zero => cases hrun
  | succ fuel ih =>
    unfold processDeliverSignals at hrun
    rw [h.processGetCurrent] at hrun
    dsimp only at hrun
    have hstay (hclean : k.view.ring esp → (k.procs c).fatalPending = false) :
        Delivers v k k c esp esp :=
      ⟨.refl _, .refl k, .inr ⟨c, h, hesp, hring, hclean, .inl ⟨rfl, rfl, rfl⟩⟩⟩
    have hdie (signum : Nat) (hfatal : (k.procs c).fatalPending = true)
        (hrest : processDeliverSignals fuel (dieOfSignal c signum esp k).1
          (dieOfSignal c signum esp k).2 = some (esp', k')) : Delivers v k k' c esp esp' :=
      .die h hesp hring hfatal hrest fun n hn hne hr => ih hn hne hr hrest
    split at hrun
    · -- the frame is not one of ring 3
      rename_i hout
      obtain ⟨rfl, rfl⟩ := Prod.mk.inj (Option.some.inj hrun)
      refine hstay fun hr => ?_
      rcases hout with h0 | hout
      · exact absurd h0 hesp
      · rw [show isRing3 _ = true from hr] at hout
        cases hout
    split at hrun
    · rename_i hkill
      exact hdie sigKill (by unfold Process.fatalPending; rw [hkill]; rfl) hrun
    split at hrun
    · rename_i hterm
      exact hdie sigTerm (by unfold Process.fatalPending; rw [hterm, Bool.or_true]) hrun
    rename_i hkill hterm
    have hclean : (k.procs c).fatalPending = false := by
      unfold Process.fatalPending
      simp only [hkill, hterm]
      rfl
    split at hrun
    · have hset := h.setProc (f := fun p =>
        { p with pendingSignals := p.pendingSignals &&& ~~~signalBit sigChld })
        ((h.runs.running c).mpr rfl) rfl rfl
      have hquiet : Quiet k (k.setProc c fun p =>
          { p with pendingSignals := p.pendingSignals &&& ~~~signalBit sigChld }) :=
        Quiet.setProc (fun q => ⟨rfl, rfl, rfl, rfl, fatalPending_congr (fatalSignals_clearChld q), id⟩) fun _ => rfl
      generalize k.setProc c _ = k₁ at hset hquiet hrun
      exact .after hquiet hclean (ih hset hesp hring hrun)
    · obtain ⟨rfl, rfl⟩ := Prod.mk.inj (Option.some.inj hrun)
      exact hstay fun _ => hclean

/-! ### Other entries of the table -/

/-- A change that scheduling does not see. -/
structure Unseen (k k' : Kernel) : Prop where
  scheduler : k'.toScheduler = k.toScheduler
  pool : k'.stackPool = k.stackPool
  frames : k'.frameAt = k.frameAt

/-- Frames and stacks are where they were. -/
theorem Unseen.view (h : Unseen k k') : k'.view = k.view := by
  unfold Kernel.view
  rw [h.pool, h.frames]

/-- A change that scheduling does not see is calm. -/
theorem Unseen.calm (h : Unseen k k') (c : Slot) : Calm k k' c := by
  refine ⟨h.view ▸ .refl _, fun p hp => ?_, ?_⟩
  · rw [h.scheduler] at hp ⊢
    exact ⟨hp, rfl⟩
  · rw [h.scheduler]

/-- And serves the running process. -/
theorem Unseen.serves (h : Unseen k k') (c : Slot) : Serves c k k' := by
  intro hk
  refine ⟨h.calm c, ?_, h.pool ▸ hk.pool⟩
  rw [h.scheduler, h.view]
  exact hk.runs

/-- Giving back a kernel stack is such a change. -/
theorem unseen_freeStack (k : Kernel) (stack : Word) : Unseen k (k.freeStack stack) := by
  rw [freeStack_eq k rfl rfl]
  exact ⟨rfl, rfl, rfl⟩

/-- A process that has ended, or a free slot, becomes or stays a free slot. -/
theorem Serves.setDead {proc : Slot} {f : Process → Process}
    (hold : (k.procs proc).state = .zombie ∨ (k.procs proc).state = .dead)
    (hnew : (f (k.procs proc)).state = .dead) (c : Slot) : Serves c k (k.setProc proc f) := by
  intro h
  have hne : proc ≠ c := by
    rintro rfl
    have hrun := (h.runs.running proc).mpr rfl
    rcases hold with ho | ho <;> rw [ho] at hrun <;> cases hrun
  have hstate (p : Slot) (hp : p ≠ proc) : (k.setProc proc f).procs p = k.procs p :=
    k.setProc_of_ne hp f
  refine ⟨.setProc hne (by rw [hnew]; decide), ⟨?_, h.runs.current, fun p => ?_, ?_⟩, h.pool⟩
  · refine h.runs.ordered.setOther ?_ ?_ (fun hb => ?_) fun hd => absurd hnew hd
    · rw [hnew]
      decide
    · rcases hold with ho | ho <;> rw [ho] <;> decide
    · rw [hnew] at hb
      cases hb
  · by_cases hp : p = proc
    · subst hp
      rw [Kernel.setProc_self, hnew]
      exact iff_of_false nofun hne
    · rw [hstate p hp]
      exact h.runs.running p
  · rw [hstate c (Ne.symm hne)]
    exact h.runs.directory

/-- `process_destroy` of a process that has ended. -/
theorem serves_processDestroy {proc : Slot} (hz : (k.procs proc).state = .zombie) (c : Slot) :
    Serves c k (processDestroy proc k).2 := by
  have hclose := quiet_processFdCloseAll proc k
  have hz₁ : ((processFdCloseAll proc k).2.procs proc).state = .zombie := by
    rw [hclose.state_eq (by rw [hz]; decide), hz]
  unfold processDestroy
  rw [run_bind, run_getProc, run_ite, if_neg (by rw [hz]; decide), run_bind]
  generalize (processFdCloseAll proc k).2 = k₁ at hclose hz₁
  rw [run_bind, run_onMemory, run_bind, run_modify, run_bind, run_modifyProc, run_setProcessCount]
  dsimp only
  have hmem : Quiet k₁ (k₁.withMem (k₁.mem.pagingDestroyAddressSpace (k.procs proc).cr3)) :=
    Quiet.withMem (k₁.mem.pagingDestroyAddressSpace_active _)
  generalize hk₂ : k₁.withMem _ = k₂ at hmem
  have hz₂ : (k₂.procs proc).state = .zombie := by
    subst hk₂
    exact hz₁
  have hfree := (unseen_freeStack k₂ (k.procs proc).kernelStack).serves c
  have hz₃ : ((k₂.freeStack (k.procs proc).kernelStack).procs proc).state = .zombie := by
    rw [freeStack_eq k₂ rfl rfl]
    exact hz₂
  have hdead := Serves.setDead (f := Process.destroyed) (.inl hz₃) rfl c
  refine ((((hclose.serves c).trans (hmem.serves c)).trans hfree).trans hdead).trans ?_
  refine Unseen.serves ?_ c
  exact ⟨rfl, rfl, rfl⟩

/-! ### Fork -/

/-- `c` runs, and its child is ready but not yet in the queue. -/
structure Forking (k : Kernel) (c child : Slot) : Prop where
  ordered : k.toScheduler.Ordered k.view {child}
  current : k.current = some c
  running : ∀ p, (k.procs p).state = .running ↔ p = c
  directory : k.mem.activePageDirectory = (k.procs c).cr3
  pool : StackPool k.stackPool

namespace Forking

variable {child : Slot}

/-- A quiet step in the midst of a fork. -/
theorem quiet (h : Forking k c child) (hq : Quiet k k') : Forking k' c child where
  ordered := hq.ordered hq.view _ h.ordered
  current := hq.current.trans h.current
  running := fun p => (hq.state_running p).trans (h.running p)
  directory := by
    rw [hq.active h.ordered.active, (hq.kept c).cr3]
    exact h.directory
  pool := hq.pool ▸ h.pool

/-- A change that scheduling does not see, in the midst of a fork. -/
theorem unseen (h : Forking k c child) (hu : Unseen k k') : Forking k' c child := by
  refine ⟨?_, ?_, ?_, ?_, hu.pool ▸ h.pool⟩ <;> rw [hu.scheduler]
  · rw [hu.view]
    exact h.ordered
  · exact h.current
  · exact h.running
  · exact h.directory

/-- The child is ready. -/
theorem ready (h : Forking k c child) : (k.procs child).state = .ready := h.ordered.left child rfl

/-- The child is not its parent. -/
theorem ne (h : Forking k c child) : child ≠ c := by
  rintro rfl
  have := (h.running child).mpr rfl
  rw [h.ready] at this
  cases this

/-- The child is put into the queue. -/
theorem add (h : Forking k c child) : Agrees (k.onScheduler (·.schedulerAdd child)) c := by
  have hkept := fun p => enqueue_kept k.toScheduler child p
  have hrest := enqueue_current k.toScheduler child
  have hord : k.toScheduler.Ordered k.view (insert child ∅) := by
    rw [insert_empty_eq]
    exact h.ordered
  refine ⟨⟨hord.enqueue (Set.notMem_empty child), hrest.1.trans h.current, fun p => ?_, ?_⟩, h.pool⟩
  · exact (congrArg (· = ProcessState.running) (hkept p).2).to_iff.trans (h.running p)
  · exact (congrArg Memory.activePageDirectory hrest.2).trans
      (h.directory.trans (hkept c).1.cr3.symm)

/-- The fork has failed: the child's slot is free again. -/
theorem drop (h : Forking k c child) {f : Process → Process}
    (hnew : (f (k.procs child)).state = .dead) : Agrees (k.setProc child f) c := by
  have hother (p : Slot) (hp : p ≠ child) : (k.setProc child f).procs p = k.procs p :=
    k.setProc_of_ne hp f
  refine ⟨⟨⟨fun p => ?_, h.ordered.nodup, nofun, fun p hp => ?_, fun p hp => ?_, h.ordered.active,
    h.ordered.tss⟩, h.current, fun p => ?_, ?_⟩, h.pool⟩
  · show p ∈ k.readyQueue ↔ _
    rw [h.ordered.mem p]
    by_cases hpc : p = child
    · subst hpc
      rw [Kernel.setProc_self, hnew]
      simp
    · rw [hother p hpc]
      simp [hpc]
  · by_cases hpc : p = child
    · subst hpc
      rw [Kernel.setProc_self, hnew] at hp
      rcases hp with hp | hp <;> cases hp
    · rw [hother p hpc] at hp ⊢
      exact h.ordered.resumable p hp
  · by_cases hpc : p = child
    · subst hpc
      rw [Kernel.setProc_self] at hp
      exact absurd hnew hp
    · rw [hother p hpc] at hp ⊢
      exact h.ordered.housed p hp
  · by_cases hpc : p = child
    · subst hpc
      rw [Kernel.setProc_self, hnew]
      exact iff_of_false nofun h.ne
    · rw [hother p hpc]
      exact h.running p
  · rw [hother c (Ne.symm h.ne)]
    exact h.directory

end Forking

/-- A dead slot becomes a child that is ready to run. -/
theorem Agrees.forking {child : Slot} {f : Process → Process} (h : Agrees k c)
    (hdead : (k.procs child).state = .dead) (hready : (f (k.procs child)).state = .ready)
    (hres : Resumable k.view (f (k.procs child))) (hhoused : Housed k.view (f (k.procs child))) :
    Forking (k.setProc child f) c child ∧ Calm k (k.setProc child f) c := by
  have hq : child ∉ k.readyQueue := fun hm => by
    have := ((h.runs.ordered.mem child).mp hm).1
    rw [hdead] at this
    cases this
  have hne : child ≠ c := by
    rintro rfl
    have := (h.runs.running child).mpr rfl
    rw [hdead] at this
    cases this
  have hord := h.runs.ordered.setReady hready hq hres hhoused
  rw [insert_empty_eq] at hord
  refine ⟨⟨hord, h.runs.current, fun p => ?_, ?_, h.pool⟩, .setProc hne (by rw [hready]; decide)⟩
  · by_cases hp : p = child
    · subst hp
      rw [Kernel.setProc_self, hready]
      exact iff_of_false nofun hne
    · rw [k.setProc_of_ne hp]
      exact h.runs.running p
  · rw [k.setProc_of_ne (Ne.symm hne)]
    exact h.runs.directory

/-- An address inside a kernel stack is not zero, so a saved stack pointer is none of those that a stub takes for
nobody. -/
theorem stack_add_ne_zero (hpool : StackPool k.stackPool) {stack : Word} (hs : k.view.stack stack)
    {n : Nat} (hn : n < 4096) : stack + BitVec.ofNat 32 n ≠ 0 := by
  obtain ⟨i, hi, rfl⟩ := hs
  have hbase := stackBase_toNat hpool ⟨i, hi⟩
  unfold Kernel.stackBase at hbase
  intro hzero
  have := congrArg BitVec.toNat hzero
  rw [BitVec.toNat_add, hbase, BitVec.toNat_ofNat, show (0 : Word).toNat = 0 from rfl] at this
  have hlt : i < 16 := hi
  unfold StackPool at hpool
  simp only [wordSize] at hpool
  dsimp only at this
  omega

/-- The end of a fork: no child, or one that is ready and not yet in the queue. -/
theorem forkInto_forking {child : Slot} {parentFrame childCr3 : Word} (h : Agrees k c)
    (hdead : (k.procs child).state = .dead) (hstack : k.view.stack (k.procs child).kernelStack)
    (hcr3 : IsDirectory childCr3) (hring : k.view.ring parentFrame) :
    ((forkInto child c parentFrame childCr3 k).1 = none ∧
        Served k (forkInto child c parentFrame childCr3 k).2 c) ∨
      ((forkInto child c parentFrame childCr3 k).1 = some child ∧
        Forking (forkInto child c parentFrame childCr3 k).2 c child ∧
        Calm k (forkInto child c parentFrame childCr3 k).2 c) := by
  unfold forkInto
  rw [run_bind, run_getProc, run_bind, run_modify, run_bind, run_getProc, run_bind, run_takePid,
    run_bind, run_modifyProc, run_bind]
  dsimp only
  generalize hesp : (k.procs child).kernelStack + BitVec.ofNat 32 (kernelStackSize - frameBytes) =
    childFrame
  -- the frame of the child
  have hframe : Quiet k (k.setFrame childFrame fun _ => (k.frameAt parentFrame).forked) :=
    Quiet.setFrame fun _ => hring
  have hchild : (k.setFrame childFrame fun _ => (k.frameAt parentFrame).forked).view.ring
      childFrame := by
    show isRing3 (update k.frameAt childFrame _ childFrame).cs = true
    rw [update_self]
    exact hring
  generalize k.setFrame childFrame _ = k₁ at hframe hchild
  have hk₁ := hframe.serves c h
  have hpid : Unseen k₁ { k₁ with nextPid := (k₁.nextPid + 1) % wordSize } := ⟨rfl, rfl, rfl⟩
  have hk₂ := hpid.serves c hk₁.agrees
  have hprocs : ({ k₁ with nextPid := (k₁.nextPid + 1) % wordSize } : Kernel).procs = k₁.procs := rfl
  have hview₂ := hpid.view
  generalize ({ k₁ with nextPid := (k₁.nextPid + 1) % wordSize } : Kernel) = k₂ at hk₂ hprocs hview₂
  have hdead₂ : (k₂.procs child).state = .dead := by
    rw [hprocs]
    exact (hframe.state_eq (by rw [hdead]; decide)).trans hdead
  have hstack₂ : k₂.view.stack (k₂.procs child).kernelStack := by
    rw [hprocs, hview₂, (hframe.kept child).kernelStack]
    exact hframe.view.stack _ hstack
  have hesp₂ : childFrame ≠ 0 := by
    rw [← hesp]
    exact stack_add_ne_zero h.pool hstack (by decide)
  -- the child is ready
  obtain ⟨hforking, hcalm⟩ := hk₂.agrees.forking
    (f := (·.forked (k₁.procs c) k₁.nextPid childFrame childCr3)) hdead₂ rfl
    ⟨rfl, hesp₂, hview₂ ▸ hchild⟩ ⟨hcr3, hstack₂⟩
  have hcalm₀ := (hk₁.toCalm.trans hk₂.toCalm).trans hcalm
  generalize k₂.setProc child _ = k₃ at hforking hcalm₀
  have hinherit : Quiet k₃ (processFdInherit child c k₃).2 :=
    quiet_inheritFds child c (List.finRange processMaxFds) k₃
  generalize processFdInherit child c k₃ = r at hinherit
  have hforking₄ := hforking.quiet hinherit
  have hcalm₄ := hcalm₀.trans (hinherit.calm c)
  rw [run_ite]
  split
  · left
    rw [run_bind, run_onMemory, run_bind, run_pure]
    refine ⟨rfl, ?_⟩
    have hmem : Quiet r.2 (r.2.withMem (r.2.mem.pagingDestroyAddressSpace childCr3)) :=
      Quiet.withMem (r.2.mem.pagingDestroyAddressSpace_active _)
    have hforking₅ := hforking₄.quiet hmem
    have hcalm₅ := hcalm₄.trans (hmem.calm c)
    dsimp only
    generalize r.2.withMem _ = k₅ at hforking₅ hcalm₅
    unfold abandonChild
    rw [run_bind, run_getProc, run_bind, run_modify, run_modifyProc]
    dsimp only
    have hfree := unseen_freeStack k₅ (k₅.procs child).kernelStack
    refine ⟨(hcalm₅.trans (hfree.calm c)).trans (.setProc hforking.ne nofun), ?_⟩
    exact (hforking₅.unseen hfree).drop rfl
  · right
    rw [run_bind, run_modifyProc, run_bind, run_setProcessCount, run_pure]
    have hmark : Quiet r.2 (r.2.setProc c fun p => { p with interruptFrame := true }) :=
      Quiet.setProc (fun _ => ⟨rfl, rfl, rfl, rfl, rfl, fun _ => rfl⟩) fun _ => rfl
    have hcount : Unseen (r.2.setProc c fun p => { p with interruptFrame := true })
        { r.2.setProc c fun p => { p with interruptFrame := true } with
          processCount := ((r.2.setProc c fun p => { p with interruptFrame := true }).processCount
            + 1) % wordSize } := ⟨rfl, rfl, rfl⟩
    exact ⟨rfl, (hforking₄.quiet hmark).unseen hcount,
      (hcalm₄.trans (hmark.calm c)).trans (hcount.calm c)⟩

/-- **A fork** of the running process. -/
theorem processFork_forking {parentFrame : Word} (h : Agrees k c) (hring : k.view.ring parentFrame) :
    ((processFork c parentFrame k).1 = none ∧ Served k (processFork c parentFrame k).2 c) ∨
      ∃ child, (processFork c parentFrame k).1 = some child ∧
        Forking (processFork c parentFrame k).2 c child ∧ Calm k (processFork c parentFrame k).2 c := by
  unfold processFork
  rw [run_bind, run_get, run_ite]
  dsimp only
  split
  · exact .inl ⟨rfl, .refl k c, h⟩
  rcases hfind : k.findDead with _ | child
  · exact .inl ⟨rfl, .refl k c, h⟩
  have hdead : (k.procs child).state = .dead := by simpa using List.find?_some hfind
  dsimp only
  rw [run_bind, run_modifyProc, run_bind, run_callAllocateStack]
  dsimp only
  have hk₁ := Serves.setDead (f := fun _ => Process.zero.processFdTableInit) (.inr hdead) rfl c h
  have hdead₁ : ((k.setProc child fun _ => Process.zero.processFdTableInit).procs child).state =
      .dead := by
    rw [Kernel.setProc_self]
    rfl
  have hview₁ : (k.setProc child fun _ => Process.zero.processFdTableInit).view = k.view := rfl
  generalize k.setProc child _ = k₁ at hk₁ hdead₁ hview₁
  rcases allocateStack_cases k₁ with ⟨hnone, -⟩ | ⟨i, hbit, hsome⟩
  · rw [hnone]
    dsimp only
    rw [run_bind, run_modifyProc, run_ite, if_pos rfl, run_pure]
    have hk₂ := Serves.setDead (f := fun p => { p with kernelStack := 0 }) (.inr hdead₁) hdead₁ c
      hk₁.agrees
    exact .inl ⟨rfl, hk₁.toCalm.trans hk₂.toCalm, hk₂.agrees⟩
  · rw [hsome]
    dsimp only
    rw [run_bind, run_modifyProc, run_ite, if_neg (stackBase_ne_zero hk₁.agrees.pool i), run_bind,
      run_getProc, run_bind, run_callMemory]
    dsimp only
    have halloc : Unseen k₁ { k₁ with stackFreeBitmap := update k₁.stackFreeBitmap i false } :=
      ⟨rfl, rfl, rfl⟩
    have hk₂ := halloc.serves c hk₁.agrees
    have hdead₂ : ((({ k₁ with stackFreeBitmap := update k₁.stackFreeBitmap i false } : Kernel)
      ).procs child).state = .dead := hdead₁
    have hview₂ := halloc.view
    have hbase : ({ k₁ with stackFreeBitmap := update k₁.stackFreeBitmap i false } :
      Kernel).stackBase i = k₁.stackBase i := rfl
    rw [← hbase]
    generalize ({ k₁ with stackFreeBitmap := update k₁.stackFreeBitmap i false } : Kernel) = k₂
      at hk₂ hdead₂ hview₂
    have hk₃ := Serves.setDead (f := fun p => { p with kernelStack := k₂.stackBase i })
      (.inr hdead₂) hdead₂ c hk₂.agrees
    have hdead₃ : ((k₂.setProc child fun p => { p with kernelStack := k₂.stackBase i }).procs
        child).state = .dead := by
      rw [Kernel.setProc_self]
      exact hdead₂
    have hstack₃ : (k₂.setProc child fun p => { p with kernelStack := k₂.stackBase i }).view.stack
        ((k₂.setProc child fun p => { p with kernelStack := k₂.stackBase i }).procs
          child).kernelStack := by
      rw [Kernel.setProc_self]
      exact ⟨i, i.isLt, rfl⟩
    generalize k₂.setProc child _ = k₃ at hk₃ hdead₃ hstack₃
    have hclone : Quiet k₃ (k₃.withMem (k₃.mem.pagingCloneDirectory (k₃.procs c).cr3).2) :=
      Quiet.withMem (k₃.mem.pagingCloneDirectory_active _)
    have haligned := k₃.mem.pagingCloneDirectory_aligned (k₃.procs c).cr3
    generalize k₃.mem.pagingCloneDirectory (k₃.procs c).cr3 = r at hclone haligned
    have hk₄ := hclone.serves c hk₃.agrees
    have hcalm := ((hk₁.toCalm.trans hk₂.toCalm).trans hk₃.toCalm).trans hk₄.toCalm
    have hdead₄ : ((k₃.withMem r.2).procs child).state = .dead := hdead₃
    have hstack₄ : (k₃.withMem r.2).view.stack ((k₃.withMem r.2).procs child).kernelStack := hstack₃
    generalize k₃.withMem r.2 = k₄ at hk₄ hcalm hdead₄ hstack₄
    rw [run_ite]
    split
    · left
      rw [run_bind, run_pure]
      refine ⟨rfl, ?_⟩
      unfold abandonChild
      rw [run_bind, run_getProc, run_bind, run_modify, run_modifyProc]
      dsimp only
      have hfree := unseen_freeStack k₄ (k₄.procs child).kernelStack
      have hk₅ := hfree.serves c hk₄.agrees
      have hdead₅ : ((k₄.freeStack (k₄.procs child).kernelStack).procs child).state = .dead := by
        rw [hfree.scheduler]
        exact hdead₄
      have hk₆ := Serves.setDead (f := fun _ => Process.zero) (.inr hdead₅) rfl c hk₅.agrees
      exact ⟨(hcalm.trans hk₅.toCalm).trans hk₆.toCalm, hk₆.agrees⟩
    · rename_i hne
      rcases forkInto_forking hk₄.agrees hdead₄ hstack₄ ⟨hne, haligned⟩
        (hcalm.view.ring _ hring) with ⟨hnone, hserved⟩ | ⟨hforked, hforking, hcalm'⟩
      · exact .inl ⟨hnone, hcalm.trans hserved.toCalm, hserved.agrees⟩
      · exact .inr ⟨child, hforked, hforking, hcalm.trans hcalm'⟩

end AgenticOs
