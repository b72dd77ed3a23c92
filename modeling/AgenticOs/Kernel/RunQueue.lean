import AgenticOs.Kernel.ActiveDirectory
import AgenticOs.Kernel.Fairness

/-!
# The ready queue holds the ready processes

What every operation of the scheduler keeps.

* **Queue** (`Ordered`): the ready queue holds each process in state `READY` once and no other, and every
  process that may be dispatched can be resumed. Some processes may be left `out`: they are ready but not in
  the queue, as a process between `dequeue_best` and its dispatch or a child that `scheduler_add` has not seen
  yet.
* **Running** (`Runs`): exactly one process runs, it is the scheduler's current process, and its address space
  is the active one.
* **Steps that keep the states** (`SameStates`) keep both (`Ordered.same`, `Runs.same`).
* **The queue** (`Ordered.enqueue`, `Ordered.dequeue`, `Ordered.wake`) and **dispatch** (`Ordered.dispatch`):
  a process goes out of the queue and runs, or comes into it.
* **Stopping** (`stop_none`, `stop_some`): with nobody to dispatch the process goes on or the processor stops,
  otherwise the best ready process runs (`runs_next`).
* **Preemption** (`Runs.preempt`): the running process goes on, or the best ready one takes its place.
-/

namespace AgenticOs

open Function Lib

/-- Whether `SIGKILL` is pending, and whether `SIGTERM` is. -/
def Process.fatalSignals (p : Process) : Bool × Bool :=
  (test p.pendingSignals (signalBit sigKill), test p.pendingSignals (signalBit sigTerm))

/-- `SIGKILL` or `SIGTERM` is pending. -/
def Process.fatalPending (p : Process) : Bool :=
  test p.pendingSignals (signalBit sigKill) || test p.pendingSignals (signalBit sigTerm)

/-- The same fatal signals are pending. -/
theorem fatalPending_congr {p q : Process} (h : q.fatalSignals = p.fatalSignals) :
    q.fatalPending = p.fatalPending :=
  congrArg (fun signals : Bool × Bool => signals.1 || signals.2) h

/-- `SIGCHLD` is neither of the fatal signals. -/
theorem fatalSignals_sigChld (p : Process) :
    ({ p with pendingSignals := p.pendingSignals ||| signalBit sigChld } : Process).fatalSignals =
      p.fatalSignals := by
  unfold Process.fatalSignals signalBit
  rw [test_twoPow (by decide), test_twoPow (by decide), test_twoPow (by decide),
    test_twoPow (by decide), bit_or, bit_or, bit_twoPow, bit_twoPow]
  simp

/-- Clearing `SIGCHLD` leaves the fatal signals pending. -/
theorem fatalSignals_clearChld (p : Process) :
    ({ p with pendingSignals := p.pendingSignals &&& ~~~signalBit sigChld } : Process).fatalSignals =
      p.fatalSignals := by
  unfold Process.fatalSignals signalBit
  rw [test_twoPow (by decide), test_twoPow (by decide), test_twoPow (by decide),
    test_twoPow (by decide), bit_and, bit_and, bit_not (by decide), bit_not (by decide), bit_twoPow,
    bit_twoPow]
  simp

/-- What scheduling leaves alone in a process. -/
structure Kept (p q : Process) : Prop where
  pid : q.pid = p.pid
  esp : q.esp = p.esp
  cr3 : q.cr3 = p.cr3
  kernelStack : q.kernelStack = p.kernelStack
  fatal : q.fatalPending = p.fatalPending
  frame : p.interruptFrame = true → q.interruptFrame = true

/-- Nothing happened. -/
theorem Kept.refl (p : Process) : Kept p p := ⟨rfl, rfl, rfl, rfl, rfl, id⟩

/-- Two changes one after another. -/
theorem Kept.trans {p q r : Process} (h : Kept p q) (h' : Kept q r) : Kept p r where
  pid := h'.pid.trans h.pid
  esp := h'.esp.trans h.esp
  cr3 := h'.cr3.trans h.cr3
  kernelStack := h'.kernelStack.trans h.kernelStack
  fatal := h'.fatal.trans h.fatal
  frame := fun hf => h'.frame (h.frame hf)

/-- A change of state leaves the rest alone. -/
theorem Kept.setState (p : Process) (state : ProcessState) : Kept p { p with state := state } :=
  ⟨rfl, rfl, rfl, rfl, rfl, id⟩

/-- The addresses of the frames of ring 3, and of the kernel stacks. -/
structure View where
  ring : Word → Prop
  stack : Word → Prop

/-- At least as many addresses. -/
structure View.Le (v v' : View) : Prop where
  ring : ∀ a, v.ring a → v'.ring a
  stack : ∀ a, v.stack a → v'.stack a

/-- A view allows what it allows. -/
theorem View.Le.refl (v : View) : v.Le v := ⟨fun _ => id, fun _ => id⟩

/-- Two views above one another. -/
theorem View.Le.trans {v v' v'' : View} (h : v.Le v') (h' : v'.Le v'') : v.Le v'' :=
  ⟨fun a ha => h'.ring a (h.ring a ha), fun a ha => h'.stack a (h.stack a ha)⟩

/-- An interrupt stub can resume the process, in ring 3. -/
structure Resumable (v : View) (p : Process) : Prop where
  frame : p.interruptFrame = true
  esp : p.esp ≠ 0
  ring : v.ring p.esp

/-- A process that is kept can still be resumed. -/
theorem Resumable.kept {v v' : View} {p q : Process} (h : Resumable v p) (hk : Kept p q)
    (hv : v.Le v') : Resumable v' q where
  frame := hk.frame h.frame
  esp := by
    rw [hk.esp]
    exact h.esp
  ring := by
    rw [hk.esp]
    exact hv.ring _ h.ring

/-- The process has an address space and a kernel stack. -/
structure Housed (v : View) (p : Process) : Prop where
  directory : IsDirectory p.cr3
  stack : v.stack p.kernelStack

/-- It still has its stack and its directory. -/
theorem Housed.kept {v v' : View} {p q : Process} (h : Housed v p) (hk : Kept p q)
    (hv : v.Le v') : Housed v' q where
  directory := by
    rw [hk.cr3]
    exact h.directory
  stack := by
    rw [hk.kernelStack]
    exact hv.stack _ h.stack

namespace Scheduler

variable {ι : Type*}

/-- The ready queue holds the ready processes, those in `out` excepted. -/
structure Ordered (v : View) (out : Set ι) (s : Scheduler ι) : Prop where
  mem : ∀ p, p ∈ s.readyQueue ↔ (s.procs p).state = .ready ∧ p ∉ out
  nodup : s.readyQueue.Nodup
  left : ∀ p ∈ out, (s.procs p).state = .ready
  resumable : ∀ p, (s.procs p).state = .ready ∨ (s.procs p).state = .blocked →
    Resumable v (s.procs p)
  housed : ∀ p, (s.procs p).state ≠ .dead → Housed v (s.procs p)
  active : IsDirectory s.mem.activePageDirectory
  tss : ∃ a, v.stack a ∧ s.tssEsp0 = a + kernelStackSize

/-- `c` runs, and nobody else. -/
structure Runs (v : View) (s : Scheduler ι) (c : ι) : Prop where
  ordered : s.Ordered v ∅
  current : s.current = some c
  running : ∀ p, (s.procs p).state = .running ↔ p = c
  directory : s.mem.activePageDirectory = (s.procs c).cr3

variable {v v' : View} {out : Set ι} {s s' : Scheduler ι} {c n p : ι}

/-! ### Steps that keep the states -/

/-- The states, the queue and what scheduling leaves alone are the same. -/
structure SameStates (s s' : Scheduler ι) : Prop where
  kept : ∀ p, Kept (s.procs p) (s'.procs p)
  state : ∀ p, (s'.procs p).state = (s.procs p).state
  queue : s'.readyQueue = s.readyQueue
  current : s'.current = s.current
  active : s'.mem.activePageDirectory = s.mem.activePageDirectory
  tss : s'.tssEsp0 = s.tssEsp0

/-- Nothing happened. -/
theorem SameStates.refl (s : Scheduler ι) : SameStates s s :=
  ⟨fun _ => Kept.refl _, fun _ => rfl, rfl, rfl, rfl, rfl⟩

/-- Two steps one after another. -/
theorem SameStates.trans {s'' : Scheduler ι} (h : SameStates s s') (h' : SameStates s' s'') :
    SameStates s s'' where
  kept := fun p => (h.kept p).trans (h'.kept p)
  state := fun p => (h'.state p).trans (h.state p)
  queue := h'.queue.trans h.queue
  current := h'.current.trans h.current
  active := h'.active.trans h.active
  tss := h'.tss.trans h.tss

/-- Such a step keeps the order, also where more frames are of ring 3 after it. -/
theorem Ordered.same (h : s.Ordered v out) (hs : SameStates s s')
    (hv : v.Le v') : s'.Ordered v' out where
  mem := by
    intro p
    rw [hs.queue, hs.state p]
    exact h.mem p
  nodup := by
    rw [hs.queue]
    exact h.nodup
  left := by
    intro p hp
    rw [hs.state p]
    exact h.left p hp
  resumable := by
    intro p hp
    rw [hs.state p] at hp
    exact (h.resumable p hp).kept (hs.kept p) hv
  housed := by
    intro p hp
    rw [hs.state p] at hp
    exact (h.housed p hp).kept (hs.kept p) hv
  active := by
    rw [hs.active]
    exact h.active
  tss := by
    obtain ⟨a, ha, heq⟩ := h.tss
    exact ⟨a, hv.stack a ha, hs.tss.trans heq⟩

/-- The same, for a scheduler that runs a process. -/
theorem Runs.same (h : s.Runs v c) (hs : SameStates s s') (hv : v.Le v') :
    s'.Runs v' c where
  ordered := h.ordered.same hs hv
  current := hs.current.trans h.current
  running := by
    intro p
    rw [hs.state p]
    exact h.running p
  directory := by
    rw [hs.active, (hs.kept c).cr3]
    exact h.directory

variable [DecidableEq ι]

/-! ### Changes of one process -/

/-- One process is changed and stays in its state. -/
theorem SameStates.setProc {f : Process → Process} (hk : ∀ q, Kept q (f q))
    (hs : ∀ q, (f q).state = q.state) : SameStates s (s.setProc c f) where
  kept := by
    intro p
    by_cases hp : p = c
    · subst hp
      rw [setProc_self]
      exact hk _
    · rw [setProc_of_ne hp]
      exact Kept.refl _
  state := by
    intro p
    by_cases hp : p = c
    · subst hp
      rw [setProc_self]
      exact hs _
    · rw [setProc_of_ne hp]
  queue := rfl
  current := rfl
  active := rfl
  tss := rfl

/-- A process that is not in the queue becomes ready: it is left out. -/
theorem Ordered.setReady (h : s.Ordered v out) {f : Process → Process}
    (hready : (f (s.procs c)).state = .ready) (hq : c ∉ s.readyQueue)
    (hres : Resumable v (f (s.procs c))) (hh : Housed v (f (s.procs c))) :
    (s.setProc c f).Ordered v (insert c out) where
  mem := by
    intro p
    show p ∈ s.readyQueue ↔ _
    by_cases hp : p = c
    · subst hp
      simp [hq]
    · rw [setProc_of_ne hp, h.mem p]
      simp [hp]
  nodup := h.nodup
  left := by
    intro p hp
    by_cases hpc : p = c
    · subst hpc
      rw [setProc_self]
      exact hready
    · rw [setProc_of_ne hpc]
      exact h.left p (hp.resolve_left hpc)
  resumable := by
    intro p hp
    by_cases hpc : p = c
    · subst hpc
      rw [setProc_self]
      exact hres
    · rw [setProc_of_ne hpc] at hp ⊢
      exact h.resumable p hp
  housed := by
    intro p hp
    by_cases hpc : p = c
    · subst hpc
      rw [setProc_self]
      exact hh
    · rw [setProc_of_ne hpc] at hp ⊢
      exact h.housed p hp
  active := h.active
  tss := h.tss

/-- A process that is not in the queue gets a state in which it cannot be in the queue. -/
theorem Ordered.setOther (h : s.Ordered v out) {f : Process → Process}
    (hready : (f (s.procs c)).state ≠ .ready) (hq : (s.procs c).state ≠ .ready)
    (hres : (f (s.procs c)).state = .blocked → Resumable v (f (s.procs c)))
    (hh : (f (s.procs c)).state ≠ .dead → Housed v (f (s.procs c))) :
    (s.setProc c f).Ordered v out where
  mem := by
    intro p
    show p ∈ s.readyQueue ↔ _
    rw [h.mem p]
    by_cases hp : p = c
    · subst hp
      rw [setProc_self]
      simp [hq, hready]
    · rw [setProc_of_ne hp]
  nodup := h.nodup
  left := by
    intro p hp
    have hpc : p ≠ c := fun he => hq (he ▸ h.left p hp)
    rw [setProc_of_ne hpc]
    exact h.left p hp
  resumable := by
    intro p hp
    by_cases hpc : p = c
    · subst hpc
      rw [setProc_self] at hp ⊢
      exact hres (hp.resolve_left hready)
    · rw [setProc_of_ne hpc] at hp ⊢
      exact h.resumable p hp
  housed := by
    intro p hp
    by_cases hpc : p = c
    · subst hpc
      rw [setProc_self] at hp ⊢
      exact hh hp
    · rw [setProc_of_ne hpc] at hp ⊢
      exact h.housed p hp
  active := h.active
  tss := h.tss

/-! ### The queue -/

/-- `enqueue` is a change of priority and a longer queue. -/
theorem enqueue_eq (s : Scheduler ι) (n : ι) :
    ∃ s', SameStates s s' ∧ s'.mem = s.mem ∧
      s.enqueue n = { s' with readyQueue := s'.readyQueue ++ [n] } := by
  unfold Scheduler.enqueue
  dsimp only
  split
  · refine ⟨s.setProc n fun p => { p with dynamicPriority := p.basePriority }, ?_, rfl, rfl⟩
    exact SameStates.setProc (fun q => ⟨rfl, rfl, rfl, rfl, rfl, id⟩) fun _ => rfl
  · exact ⟨s, SameStates.refl s, rfl, rfl⟩

/-- What `enqueue` leaves alone. -/
theorem enqueue_kept (s : Scheduler ι) (n p : ι) :
    Kept (s.procs p) ((s.enqueue n).procs p) ∧
      ((s.enqueue n).procs p).state = (s.procs p).state := by
  obtain ⟨s', hsame, -, heq⟩ := s.enqueue_eq n
  rw [heq]
  exact ⟨hsame.kept p, hsame.state p⟩

/-- The queue is not the current process. -/
theorem enqueue_current (s : Scheduler ι) (n : ι) :
    (s.enqueue n).current = s.current ∧ (s.enqueue n).mem = s.mem := by
  obtain ⟨s', hsame, hmem, heq⟩ := s.enqueue_eq n
  rw [heq]
  exact ⟨hsame.current, hmem⟩

/-- A process that is left out is put into the queue. -/
theorem Ordered.enqueue (h : s.Ordered v (insert n out)) (hn : n ∉ out) :
    (s.enqueue n).Ordered v out := by
  obtain ⟨s', hsame, -, heq⟩ := s.enqueue_eq n
  have h' := h.same hsame (.refl v)
  rw [heq]
  constructor
  · intro p
    show p ∈ s'.readyQueue ++ [n] ↔ _
    rw [List.mem_append, List.mem_singleton, h'.mem p]
    by_cases hp : p = n
    · subst hp
      have := h'.left p (Set.mem_insert _ _)
      simp [this, hn]
    · simp [hp]
  · refine List.nodup_append.mpr ⟨h'.nodup, List.nodup_singleton n, ?_⟩
    intro a ha b hb hab
    rw [List.mem_singleton] at hb
    subst hb hab
    exact ((h'.mem a).mp ha).2 (Set.mem_insert _ _)
  · exact fun p hp => h'.left p (Set.mem_insert_of_mem _ hp)
  · exact h'.resumable
  · exact h'.housed
  · exact h'.active
  · exact h'.tss

/-- A blocked process that is woken. -/
theorem Ordered.wake (h : s.Ordered v out) (q : ι) : (s.schedulerWake q).Ordered v out := by
  unfold Scheduler.schedulerWake
  split
  · rename_i hb
    have hne : (s.procs q).state ≠ .ready := by
      rw [hb]
      decide
    have hq : q ∉ s.readyQueue := fun hm => hne ((h.mem q).mp hm).1
    have hlive : (s.procs q).state ≠ .dead := by
      rw [hb]
      decide
    have hkept := Kept.setState (s.procs q) .ready
    have hmid : (s.setProc q fun p => { p with state := .ready }).Ordered v (insert q out) :=
      h.setReady rfl hq ((h.resumable q (.inr hb)).kept hkept (.refl v))
        ((h.housed q hlive).kept hkept (.refl v))
    exact hmid.enqueue fun ho => hne (h.left q ho)
  · exact h

/-- `dequeue_best` leaves the best process out. -/
theorem Ordered.dequeue (h : s.Ordered v ∅) (hn : n ∈ s.readyQueue) :
    { s with readyQueue := s.readyQueue.erase n }.Ordered v {n} where
  mem := by
    intro p
    show p ∈ s.readyQueue.erase n ↔ _
    rw [h.nodup.mem_erase_iff, h.mem p]
    simp [and_comm]
  nodup := h.nodup.erase n
  left := by
    rintro p rfl
    exact ((h.mem p).mp hn).1
  resumable := h.resumable
  housed := h.housed
  active := h.active
  tss := h.tss

/-- **`age_ready_queue`**, one process -/
theorem sameStates_age (s : Scheduler ι) (q : ι) : SameStates s (s.age q) := by
  unfold Scheduler.age
  split
  · exact SameStates.setProc (fun q => ⟨rfl, rfl, rfl, rfl, rfl, id⟩) fun _ => rfl
  · exact SameStates.refl s

/-- **`age_ready_queue`** -/
theorem sameStates_ageReadyQueue (s : Scheduler ι) : SameStates s s.ageReadyQueue := by
  unfold Scheduler.ageReadyQueue
  generalize s.readyQueue = l
  induction l generalizing s with
  | nil => exact SameStates.refl s
  | cons q l ih => exact (sameStates_age s q).trans (ih _)

/-! ### Dispatch -/

omit [DecidableEq ι] in
/-- The address space of a process is loaded. -/
theorem switchAddressSpace_active {q : ι} (hd : IsDirectory (s.procs q).cr3) :
    (s.switchAddressSpace q).mem.activePageDirectory = (s.procs q).cr3 := by
  unfold Scheduler.switchAddressSpace
  dsimp only
  split
  · exact hd.switch _
  · rename_i hc
    by_contra hne
    exact hc ⟨hd.1, fun he => hne he.symm⟩

omit [DecidableEq ι] in
/-- The task state segment points above a kernel stack. -/
theorem tss_switchAddressSpace {q : ι} (h : ∃ a, v.stack a ∧ s.tssEsp0 = a + kernelStackSize)
    (hstack : v.stack (s.procs q).kernelStack) :
    ∃ a, v.stack a ∧ (s.switchAddressSpace q).tssEsp0 = a + kernelStackSize := by
  unfold Scheduler.switchAddressSpace
  dsimp only
  split
  · exact ⟨_, hstack, rfl⟩
  · exact h

/-- Who is dispatched runs. -/
theorem dispatch_self (s : Scheduler ι) (n : ι) :
    Kept (s.procs n) ((s.dispatch n).procs n) ∧ ((s.dispatch n).procs n).state = .running := by
  have heq : (s.dispatch n).procs n = { s.procs n with
      dynamicPriority := (s.procs n).basePriority
      state := .running
      runCount := ((s.procs n).runCount + 1) % wordSize } := update_self ..
  rw [heq]
  exact ⟨⟨rfl, rfl, rfl, rfl, rfl, id⟩, rfl⟩

/-- Everybody is kept. -/
theorem dispatch_kept (s : Scheduler ι) (n p : ι) : Kept (s.procs p) ((s.dispatch n).procs p) := by
  by_cases hp : p = n
  · subst hp
    exact (s.dispatch_self p).1
  · rw [dispatch_of_ne hp]
    exact Kept.refl _

/-- The process that is left out runs. -/
theorem Ordered.dispatch (h : s.Ordered v {n}) (hrun : ∀ p, (s.procs p).state ≠ .running) :
    (s.dispatch n).Runs v n := by
  have hn : (s.procs n).state = .ready := h.left n rfl
  have hhoused : Housed v (s.procs n) := h.housed n (by
    rw [hn]
    decide)
  have hprocs : ∀ p, p ≠ n → (s.dispatch n).procs p = s.procs p := fun p hp => dispatch_of_ne hp
  have hself := s.dispatch_self n
  have hactive : (s.dispatch n).mem.activePageDirectory = (s.procs n).cr3 := by
    have hd : IsDirectory ((s.dispatch n).procs n).cr3 := by
      rw [hself.1.cr3]
      exact hhoused.directory
    rw [← hself.1.cr3]
    exact switchAddressSpace_active (s := { s.setProc n _ with current := some n }) hd
  refine ⟨⟨?_, h.nodup, ?_, ?_, ?_, ?_, ?_⟩, rfl, ?_, ?_⟩
  · intro p
    show p ∈ s.readyQueue ↔ _
    rw [h.mem p]
    by_cases hp : p = n
    · subst hp
      simp [hself.2]
    · rw [hprocs p hp]
      simp [hp]
  · exact fun p hp => absurd hp (Set.notMem_empty p)
  · intro p hp
    by_cases hpn : p = n
    · subst hpn
      rw [hself.2] at hp
      exact absurd hp (by decide)
    · rw [hprocs p hpn] at hp ⊢
      exact h.resumable p hp
  · intro p hp
    by_cases hpn : p = n
    · subst hpn
      exact hhoused.kept hself.1 (.refl v)
    · rw [hprocs p hpn] at hp ⊢
      exact h.housed p hp
  · rw [hactive]
    exact hhoused.directory
  · exact tss_switchAddressSpace (s := { s.setProc n _ with current := some n }) h.tss
      (hhoused.kept hself.1 (.refl v)).stack
  · intro p
    by_cases hpn : p = n
    · subst hpn
      simp [hself.2]
    · rw [hprocs p hpn]
      simp [hpn, hrun p]
  · rw [hactive, hself.1.cr3]

/-! ### Stopping the current process -/

/-- The scan depends on the priorities alone. -/
theorem findBestReady_setProc (s : Scheduler ι) (c : ι) {f : Process → Process}
    (hf : ∀ q, (f q).dynamicPriority = q.dynamicPriority) :
    (s.setProc c f).findBestReady = s.findBestReady := by
  rw [findBestReady_eq, findBestReady_eq]
  congr 1
  funext p
  by_cases hp : p = c
  · subst hp
    rw [setProc_self]
    exact hf _
  · rw [setProc_of_ne hp]

/-- Nobody is found. -/
theorem dequeueBest_none (hbest : s.findBestReady = none) : s.dequeueBest = (none, s) := by
  unfold dequeueBest
  rw [hbest]

/-- Who is found leaves the queue. -/
theorem dequeueBest_some (hbest : s.findBestReady = some n) :
    s.dequeueBest = (some n, { s with readyQueue := s.readyQueue.erase n }) := by
  unfold dequeueBest
  rw [hbest]

/-- A process that is not in the queue and that may be stopped: the one that runs, or the one that
has just ended. -/
structure Stoppable (v : View) (s : Scheduler ι) (c : ι) : Prop where
  ordered : s.Ordered v ∅
  current : s.current = some c
  state : (s.procs c).state = .running ∨ (s.procs c).state = .zombie
  running : ∀ p, (s.procs p).state = .running → p = c
  directory : s.mem.activePageDirectory = (s.procs c).cr3

omit [DecidableEq ι] in
/-- The running process can be stopped. -/
theorem Runs.stoppable (h : s.Runs v c) : s.Stoppable v c where
  ordered := h.ordered
  current := h.current
  state := .inl ((h.running c).mpr rfl)
  running := fun p hp => (h.running p).mp hp
  directory := h.directory

namespace Stoppable

variable {interruptedEsp : Word} {stoppedState : ProcessState} {resume : Bool}

/-- The process as `scheduler_stop_current_locked` saves it. -/
def saved (interruptedEsp : Word) (stoppedState : ProcessState) (p : Process) : Process :=
  { p with esp := interruptedEsp, interruptFrame := true, state := stoppedState }

/-- The scheduler once `c` is stopped and `n` dispatched. -/
def switchedTo (s : Scheduler ι) (c n : ι) (interruptedEsp : Word) (stoppedState : ProcessState) :
    Scheduler ι :=
  ({ s.setProc c (saved interruptedEsp stoppedState) with
    readyQueue := s.readyQueue.erase n } : Scheduler ι).ageReadyQueue.dispatch n

/-- The process is stopped with its frame. -/
theorem ordered_saved (h : s.Stoppable v c) (hesp : interruptedEsp ≠ 0)
    (hring : v.ring interruptedEsp) (hst : stoppedState = .blocked ∨ stoppedState = .zombie) :
    (s.setProc c (saved interruptedEsp stoppedState)).Ordered v ∅ := by
  have hlive : (s.procs c).state ≠ .dead := by
    rcases h.state with hs | hs <;> rw [hs] <;> decide
  refine h.ordered.setOther ?_ ?_ (fun _ => ⟨rfl, hesp, hring⟩) fun _ => ?_
  · show stoppedState ≠ .ready
    rcases hst with rfl | rfl <;> decide
  · rcases h.state with hs | hs <;> rw [hs] <;> decide
  · have hhoused := h.ordered.housed c hlive
    exact ⟨hhoused.directory, hhoused.stack⟩

/-- **`scheduler_stop_current_locked`**, by who is found -/
theorem stop_eq (h : s.Stoppable v c) (hesp : interruptedEsp ≠ 0) :
    s.schedulerStopCurrentLocked interruptedEsp stoppedState resume =
      match (s.setProc c (saved interruptedEsp stoppedState)).dequeueBest with
      | (none, s) => s.stopWithoutNext c interruptedEsp resume
      | (some next, s) =>
        if !s.dispatchable next then (s.enqueue next).stopWithoutNext c interruptedEsp resume
        else (((s.ageReadyQueue.dispatch next).procs next).esp, s.ageReadyQueue.dispatch next) := by
  unfold schedulerStopCurrentLocked
  rw [h.current]
  dsimp only
  rw [if_neg hesp]
  rfl

/-- With nobody to dispatch, the process goes on or the processor stops. -/
theorem stop_none (h : s.Stoppable v c) (hesp : interruptedEsp ≠ 0)
    (hbest : s.findBestReady = none) :
    s.schedulerStopCurrentLocked interruptedEsp stoppedState resume =
      (s.setProc c (saved interruptedEsp stoppedState)).stopWithoutNext c interruptedEsp resume := by
  rw [h.stop_eq hesp, dequeueBest_none]
  exact (findBestReady_setProc s c (f := saved interruptedEsp stoppedState) fun _ => rfl).trans hbest

/-- Otherwise the best ready process is dispatched. -/
theorem stop_some (h : s.Stoppable v c) (hesp : interruptedEsp ≠ 0)
    (hbest : s.findBestReady = some n) :
    s.schedulerStopCurrentLocked interruptedEsp stoppedState resume =
      (((switchedTo s c n interruptedEsp stoppedState).procs n).esp,
        switchedTo s c n interruptedEsp stoppedState) := by
  have hready : (s.procs n).state = .ready := ((h.ordered.mem n).mp (findBestReady_mem hbest)).1
  have hne : n ≠ c := by
    rintro rfl
    rcases h.state with hs | hs <;> rw [hready] at hs <;> cases hs
  have hres := h.ordered.resumable n (.inl hready)
  rw [h.stop_eq hesp, dequeueBest_some (n := n)]
  · have hdisp : ({ s.setProc c (saved interruptedEsp stoppedState) with
        readyQueue := s.readyQueue.erase n } : Scheduler ι).dispatchable n = true := by
      unfold dispatchable
      rw [show ({ s.setProc c (saved interruptedEsp stoppedState) with
        readyQueue := s.readyQueue.erase n } : Scheduler ι).procs n = s.procs n from
          setProc_of_ne hne _, hres.frame]
      simpa using hres.esp
    dsimp only
    rw [if_neg]
    · rfl
    · simpa using hdisp
  · exact (findBestReady_setProc s c (f := saved interruptedEsp stoppedState) fun _ => rfl).trans hbest

/-- The process that is dispatched runs. -/
theorem runs_next (h : s.Stoppable v c) (hesp : interruptedEsp ≠ 0)
    (hring : v.ring interruptedEsp) (hst : stoppedState = .blocked ∨ stoppedState = .zombie)
    (hbest : s.findBestReady = some n) :
    (switchedTo s c n interruptedEsp stoppedState).Runs v n := by
  have hsaved := h.ordered_saved hesp hring hst
  have hmem : n ∈ (s.setProc c (saved interruptedEsp stoppedState)).readyQueue := by
    show n ∈ s.readyQueue
    exact findBestReady_mem hbest
  have hout := hsaved.dequeue hmem
  refine (hout.same (sameStates_ageReadyQueue _) (.refl v)).dispatch fun p hp => ?_
  rw [(sameStates_ageReadyQueue _).state p] at hp
  by_cases hpc : p = c
  · subst hpc
    have hp' : stoppedState = .running := by
      rw [show (({ s.setProc p (saved interruptedEsp stoppedState) with
        readyQueue := s.readyQueue.erase n } : Scheduler ι).procs p) =
          saved interruptedEsp stoppedState (s.procs p) from setProc_self ..] at hp
      exact hp
    rcases hst with rfl | rfl <;> cases hp'
  · rw [show (({ s.setProc c (saved interruptedEsp stoppedState) with
        readyQueue := s.readyQueue.erase n } : Scheduler ι).procs p) = s.procs p from
          setProc_of_ne hpc _] at hp
    exact hpc (h.running p hp)

/-- What stopping changes in the processes. -/
theorem stop_procs (s : Scheduler ι) (hne : n ≠ c) (p : ι) (interruptedEsp : Word)
    (stoppedState : ProcessState) :
    ((switchedTo s c n interruptedEsp stoppedState).procs p).fatalPending =
        (s.procs p).fatalPending ∧
      (p ≠ c → Kept (s.procs p) ((switchedTo s c n interruptedEsp stoppedState).procs p)) ∧
      ((switchedTo s c n interruptedEsp stoppedState).procs p).state =
        if p = n then .running else if p = c then stoppedState else (s.procs p).state := by
  generalize hs' : switchedTo s c n interruptedEsp stoppedState = s'
  have hage := (sameStates_ageReadyQueue ({ s.setProc c (saved interruptedEsp stoppedState) with
    readyQueue := s.readyQueue.erase n } : Scheduler ι))
  have hdispatch : Kept (({ s.setProc c (saved interruptedEsp stoppedState) with
      readyQueue := s.readyQueue.erase n } : Scheduler ι).ageReadyQueue.procs p) (s'.procs p) := by
    subst hs'
    exact dispatch_kept _ n p
  have hkept : Kept ((s.setProc c (saved interruptedEsp stoppedState)).procs p) (s'.procs p) :=
    (hage.kept p).trans hdispatch
  have hstate : p ≠ n → (s'.procs p).state =
      ((s.setProc c (saved interruptedEsp stoppedState)).procs p).state := by
    intro hpn
    subst hs'
    exact (congrArg Process.state (dispatch_of_ne hpn)).trans (hage.state p)
  by_cases hp : p = c
  · subst hp
    rw [setProc_self] at hkept hstate
    refine ⟨hkept.fatal, fun h => absurd rfl h, ?_⟩
    rw [if_neg (Ne.symm hne), if_pos rfl]
    exact hstate (Ne.symm hne)
  · rw [setProc_of_ne hp] at hkept hstate
    refine ⟨hkept.fatal, fun _ => hkept, ?_⟩
    by_cases hpn : p = n
    · subst hpn hs'
      rw [if_pos rfl]
      exact (dispatch_self _ p).2
    · rw [if_neg hpn, if_neg hp]
      exact hstate hpn

end Stoppable

omit [DecidableEq ι] in
/-- The running process has an address space and a kernel stack. -/
theorem Runs.housed (h : s.Runs v c) : Housed v (s.procs c) :=
  h.ordered.housed c (by
    rw [(h.running c).mpr rfl]
    decide)

/-- The running process gets another address space, which is loaded. -/
theorem Runs.load (h : s.Runs v c) {f : Process → Process} {m : Memory}
    (hs : (f (s.procs c)).state = .running) (hcr3 : IsDirectory (f (s.procs c)).cr3)
    (hstack : (f (s.procs c)).kernelStack = (s.procs c).kernelStack)
    (hm : m.activePageDirectory = (f (s.procs c)).cr3) :
    Runs v { s.setProc c f with mem := m } c := by
  have hord : (s.setProc c f).Ordered v ∅ := by
    refine h.ordered.setOther ?_ ?_ (fun hb => ?_) fun _ => ⟨hcr3, hstack ▸ h.housed.stack⟩
    · rw [hs]
      decide
    · rw [(h.running c).mpr rfl]
      decide
    · rw [hs] at hb
      cases hb
  refine ⟨⟨hord.mem, hord.nodup, hord.left, hord.resumable, hord.housed, ?_, hord.tss⟩, h.current,
    fun p => ?_, ?_⟩
  · show IsDirectory m.activePageDirectory
    rw [hm]
    exact hcr3
  · show ((s.setProc c f).procs p).state = .running ↔ p = c
    by_cases hp : p = c
    · subst hp
      rw [setProc_self]
      exact iff_of_true hs rfl
    · rw [setProc_of_ne hp]
      exact h.running p
  · show m.activePageDirectory = ((s.setProc c f).procs c).cr3
    rw [setProc_self]
    exact hm

/-- The running process changes, but not its state or its address space. -/
theorem Runs.setProc (h : s.Runs v c) {f : Process → Process}
    (hs : (f (s.procs c)).state = .running) (hcr3 : (f (s.procs c)).cr3 = (s.procs c).cr3)
    (hstack : (f (s.procs c)).kernelStack = (s.procs c).kernelStack) :
    (s.setProc c f).Runs v c :=
  h.load hs (hcr3 ▸ h.housed.directory) hstack (h.directory.trans hcr3.symm)

/-- A process is sent a signal. -/
theorem Runs.signal (h : s.Runs v c) (q : ι) (w : Word) :
    (s.setProc q fun p => { p with pendingSignals := p.pendingSignals ||| w }).Runs v c := by
  generalize hs' : s.setProc q _ = s'
  have hprocs (p : ι) : ∃ w', s'.procs p = { s.procs p with pendingSignals := w' } := by
    subst hs'
    by_cases hp : p = q
    · subst hp
      exact ⟨_, setProc_self ..⟩
    · exact ⟨_, setProc_of_ne hp _⟩
  have hstate (p : ι) : (s'.procs p).state = (s.procs p).state := by
    obtain ⟨w', hw⟩ := hprocs p
    rw [hw]
  subst hs'
  refine ⟨⟨fun p => ?_, h.ordered.nodup, nofun, fun p hp => ?_, fun p hp => ?_, h.ordered.active,
    h.ordered.tss⟩, h.current, fun p => ?_, ?_⟩
  · rw [hstate p]
    exact h.ordered.mem p
  · rw [hstate p] at hp
    have hres := h.ordered.resumable p hp
    obtain ⟨w', hw⟩ := hprocs p
    rw [hw]
    exact ⟨hres.frame, hres.esp, hres.ring⟩
  · rw [hstate p] at hp
    have hhoused := h.ordered.housed p hp
    obtain ⟨w', hw⟩ := hprocs p
    rw [hw]
    exact ⟨hhoused.directory, hhoused.stack⟩
  · rw [hstate p]
    exact h.running p
  · obtain ⟨w', hw⟩ := hprocs c
    rw [hw]
    exact h.directory

/-- A process that goes on because there is nobody to dispatch. -/
theorem Runs.goOn (h : s.Runs v c) (interruptedEsp : Word) :
    ((s.setProc c (Stoppable.saved interruptedEsp .blocked)).stopWithoutNext c interruptedEsp
      true).2.Runs v c := by
  have heq : ((s.setProc c (Stoppable.saved interruptedEsp .blocked)).stopWithoutNext c
      interruptedEsp true).2 = s.setProc c fun p =>
        { Stoppable.saved interruptedEsp .blocked p with state := .running } := by
    unfold Scheduler.stopWithoutNext
    rw [if_pos rfl]
    unfold Scheduler.setProc
    simp only [update_self, update_idem]
  rw [heq]
  exact h.setProc rfl rfl rfl

/-! ### Preemption -/

/-- The running process goes back into the queue. -/
theorem Ordered.requeueCurrent (h : s.Ordered v {n}) (hc : s.current = some c) (hne : n ≠ c)
    (hrun : (s.procs c).state = .running) (hres : Resumable v (s.procs c)) :
    s.requeueCurrent.Ordered v {n} := by
  unfold Scheduler.requeueCurrent
  rw [hc]
  dsimp only
  rw [if_pos hrun]
  have hq : c ∉ s.readyQueue := fun hm => by
    have := ((h.mem c).mp hm).1
    rw [hrun] at this
    cases this
  have hhoused : Housed v (s.procs c) := h.housed c (by
    rw [hrun]
    decide)
  have hkept := Kept.setState (s.procs c) .ready
  exact (h.setReady (f := fun p => { p with state := .ready }) rfl hq (hres.kept hkept (.refl v))
    (hhoused.kept hkept (.refl v))).enqueue fun he => hne he.symm

/-- What `requeueCurrent` leaves alone. -/
theorem requeueCurrent_kept (s : Scheduler ι) (p : ι) :
    Kept (s.procs p) (s.requeueCurrent.procs p) := by
  unfold Scheduler.requeueCurrent
  rcases s.current with _ | c
  · exact Kept.refl _
  · dsimp only
    split
    · refine Kept.trans ?_ (enqueue_kept _ c p).1
      by_cases hp : p = c
      · subst hp
        rw [setProc_self]
        exact ⟨rfl, rfl, rfl, rfl, rfl, id⟩
      · rw [setProc_of_ne hp]
        exact Kept.refl _
    · exact Kept.refl _

/-- After `requeueCurrent` the process that ran is ready, the others are as before. -/
theorem requeueCurrent_state (hc : s.current = some c) (hrun : (s.procs c).state = .running) (p : ι) :
    (s.requeueCurrent.procs p).state = if p = c then .ready else (s.procs p).state := by
  unfold Scheduler.requeueCurrent
  rw [hc]
  dsimp only
  rw [if_pos hrun, (enqueue_kept _ c p).2]
  split
  · rename_i hp
    subst hp
    rw [setProc_self]
  · rename_i hp
    rw [setProc_of_ne hp]

/-- The process runs or is ready to. -/
def canRun (s : Scheduler ι) (p : ι) : Prop :=
  (s.procs p).state = .running ∨ (s.procs p).state = .ready

/-- The best ready process takes the place of the running one. -/
theorem Runs.schedule (h : s.Runs v c) (hres : Resumable v (s.procs c))
    (hbest : s.findBestReady = some n) :
    s.schedulerScheduleLocked.Runs v n ∧
      ∀ p, Kept (s.procs p) (s.schedulerScheduleLocked.procs p) ∧
        ((s.schedulerScheduleLocked.procs p).state = (s.procs p).state ∨
          s.canRun p ∧ s.schedulerScheduleLocked.canRun p) := by
  have hmem : n ∈ s.readyQueue := findBestReady_mem hbest
  have hready : (s.procs n).state = .ready := ((h.ordered.mem n).mp hmem).1
  have hrun : (s.procs c).state = .running := (h.running c).mpr rfl
  have hne : n ≠ c := by
    rintro rfl
    rw [hready] at hrun
    cases hrun
  have heq : s.schedulerScheduleLocked =
      ({ s with readyQueue := s.readyQueue.erase n } : Scheduler ι).requeueCurrent.ageReadyQueue.dispatch
        n := by
    unfold schedulerScheduleLocked
    rw [dequeueBest_some hbest]
  have hqueue := (h.ordered.dequeue hmem).requeueCurrent h.current hne hrun hres
  have hrequeue := requeueCurrent_state (s := { s with readyQueue := s.readyQueue.erase n })
    h.current hrun
  have hage := sameStates_ageReadyQueue
    ({ s with readyQueue := s.readyQueue.erase n } : Scheduler ι).requeueCurrent
  rw [heq]
  constructor
  · refine (hqueue.same hage (.refl v)).dispatch fun p hp => ?_
    rw [hage.state p, hrequeue p] at hp
    split at hp
    · cases hp
    · rename_i hpc
      exact hpc ((h.running p).mp hp)
  · refine fun p => ⟨((requeueCurrent_kept { s with readyQueue := s.readyQueue.erase n } p).trans
      (hage.kept p)).trans (dispatch_kept _ n p), ?_⟩
    by_cases hpn : p = n
    · subst hpn
      exact .inr ⟨.inr hready, .inl (dispatch_self _ p).2⟩
    · unfold canRun
      rw [dispatch_of_ne hpn, hage.state p, hrequeue p]
      by_cases hpc : p = c
      · subst hpc
        rw [if_pos rfl]
        exact .inr ⟨.inl hrun, .inr rfl⟩
      · rw [if_neg hpc]
        exact .inl rfl

/-- The running process `c` goes on, or `n` takes its place. -/
structure Preempted (v : View) (s s' : Scheduler ι) (c n : ι) (interruptedEsp esp : Word) : Prop where
  runs : s'.Runs v n
  nonzero : esp ≠ 0
  ring : v.ring esp
  returns : esp = interruptedEsp ∧ n = c ∨ esp = (s'.procs n).esp
  fatal : ∀ p, (s'.procs p).fatalPending = (s.procs p).fatalPending
  state : ∀ p, (s'.procs p).state = (s.procs p).state ∨ s.canRun p ∧ s'.canRun p

/-- **`scheduler_preempt`** The process that runs on is another one or the same. -/
theorem Runs.preempt (h : s.Runs v c) {interruptedEsp : Word} (hesp : interruptedEsp ≠ 0)
    (hring : v.ring interruptedEsp) :
    ∃ n, Preempted v s (s.schedulerPreempt interruptedEsp).2 c n interruptedEsp
      (s.schedulerPreempt interruptedEsp).1 := by
  have hstay : Preempted v s s c c interruptedEsp interruptedEsp :=
    ⟨h, hesp, hring, .inl ⟨rfl, rfl⟩, fun _ => rfl, fun _ => .inl rfl⟩
  unfold schedulerPreempt
  split
  · exact ⟨c, hstay⟩
  rw [h.current]
  dsimp only
  split
  · exact ⟨c, hstay⟩
  rename_i hframe
  have hsave := h.setProc (f := fun p => { p with esp := interruptedEsp })
    ((h.running c).mpr rfl) rfl rfl
  have hres : Resumable v
      ((s.setProc c fun p => { p with esp := interruptedEsp }).procs c) := by
    rw [setProc_self]
    exact ⟨by simpa using hframe, hesp, hring⟩
  have hprocs (p : ι) : ∃ e,
      (s.setProc c fun p => { p with esp := interruptedEsp }).procs p = { s.procs p with esp := e } := by
    by_cases hp : p = c
    · subst hp
      exact ⟨_, setProc_self ..⟩
    · exact ⟨_, setProc_of_ne hp _⟩
  have hfatal (p : ι) : ((s.setProc c fun p => { p with esp := interruptedEsp }).procs
      p).fatalPending = (s.procs p).fatalPending := by
    obtain ⟨e, he⟩ := hprocs p
    rw [he]
    rfl
  have hstate (p : ι) : ((s.setProc c fun p => { p with esp := interruptedEsp }).procs p).state =
      (s.procs p).state := by
    obtain ⟨e, he⟩ := hprocs p
    rw [he]
  generalize s.setProc c (fun p => { p with esp := interruptedEsp }) = s' at hsave hres hfatal hstate
  unfold preemptTo
  cases hbest : s'.findBestReady with
  | none => exact ⟨c, hsave, hesp, hring, .inl ⟨rfl, rfl⟩, hfatal, fun p => .inl (hstate p)⟩
  | some n =>
    obtain ⟨hruns, hkept⟩ := hsave.schedule hres hbest
    have hn : (s'.procs n).state = .ready :=
      ((hsave.ordered.mem n).mp (findBestReady_mem hbest)).1
    have hresn := hsave.ordered.resumable n (.inl hn)
    have hkn := (hkept n).1
    dsimp only
    rw [if_neg (by simp [hresn.frame]), hruns.current]
    dsimp only
    rw [if_neg (by
      rw [hkn.esp, hkn.frame hresn.frame, not_or]
      exact ⟨by decide, hresn.esp⟩)]
    refine ⟨n, hruns, ?_, ?_, .inr rfl, fun p => ?_, fun p => ?_⟩
    · rw [hkn.esp]
      exact hresn.esp
    · rw [hkn.esp]
      exact hresn.ring
    · exact (hkept p).1.fatal.trans (hfatal p)
    · rcases (hkept p).2 with hs | ⟨hold, hnew⟩
      · exact .inl (hs.trans (hstate p))
      · unfold canRun at hold ⊢
        rw [hstate p] at hold
        exact .inr ⟨hold, hnew⟩

end Scheduler

end AgenticOs
