import AgenticOs.Kernel.ReferenceRuns

/-!
# Slots without a process

In every state that is reached, a slot of the process table without a process has no pid (`DeadNameless`). Two places of
the kernel make a slot free, `process_destroy` and the exits of `process_fork` that give a child up, and both reset the
pid with the rest of the record. Everything else keeps the pids and lets nobody die (`SamePids`):

* **Rules** (`KeepsPids`): the scheduler (`KeepsPids.callScheduler`), all that is quiet (`KeepsPids.of_quiet`), and
  changes of a process that leave its pid alone.
* **Where slots are freed**: `nameless_processDestroy`, `nameless_abandonChild` and what calls them, up to
  `nameless_processFork`, `nameless_syscallWait` and `nameless_reapZombies`.
* **Calls and handlers** that may block or end their caller: an end leaves a zombie, with its pid
  (`keepsPids_processMarkExit`).
* **Runs** (`FdRun.nameless`): the invariant by induction over the steps.

A fork that fails needs this: the slot that it gives back is as it was before, pid included, because it had none.
-/

namespace AgenticOs

open Function Lib

variable {k k' : Kernel} {proc : Slot}

/-- A slot without a process has no pid. -/
def DeadNameless (k : Kernel) : Prop := ∀ p, (k.procs p).state = .dead → (k.procs p).pid = 0

/-- Pids are kept, and no process is dead that was not. -/
structure SamePids (k k' : Kernel) : Prop where
  pid : ∀ p, (k'.procs p).pid = (k.procs p).pid
  dead : ∀ p, (k'.procs p).state = .dead → (k.procs p).state = .dead

namespace SamePids

/-- Nothing has happened. -/
theorem refl (k : Kernel) : SamePids k k := ⟨fun _ => rfl, fun _ => id⟩

/-- One step after another. -/
theorem trans {k'' : Kernel} (h : SamePids k k') (h' : SamePids k' k'') : SamePids k k'' where
  pid := fun p => (h'.pid p).trans (h.pid p)
  dead := fun p hp => h.dead p (h'.dead p hp)

instance : IsPreorder Kernel SamePids where
  refl := refl
  trans _ _ _ := trans

/-- Who is dead was dead, and had no pid then. -/
theorem nameless (h : SamePids k k') (hk : DeadNameless k) : DeadNameless k' :=
  fun p hp => (h.pid p).trans (hk p (h.dead p hp))

/-- A change of what is no process. -/
theorem of_procs (h : k'.procs = k.procs) : SamePids k k' := by
  constructor <;> intro p <;> rw [h]
  exact id

/-- The scheduler gives no pids, and nobody dies of it. -/
theorem of_rescheduled (h : Rescheduled k.toScheduler k'.toScheduler) : SamePids k k' := by
  refine ⟨fun p => ?_, h.dead⟩
  rw [h.procs p]

/-- Whoever wakes up was blocked. -/
theorem of_quiet (h : Quiet k k') : SamePids k k' where
  pid := fun p => (h.kept p).pid
  dead := by
    intro p hp
    rcases h.state p with hsame | ⟨-, hready⟩
    · rw [← hsame]
      exact hp
    · rw [hready] at hp
      cases hp

/-- A process changes, but not its pid, and does not die of it. -/
theorem setProc {f : Process → Process} (hpid : (f (k.procs proc)).pid = (k.procs proc).pid)
    (hdead : (f (k.procs proc)).state = .dead → (k.procs proc).state = .dead) :
    SamePids k (k.setProc proc f) := by
  constructor <;> intro p <;> by_cases hp : p = proc
  · rw [hp, Kernel.setProc_self]
    exact hpid
  · rw [k.setProc_of_ne hp]
  · rw [hp, Kernel.setProc_self]
    exact hdead
  · rw [k.setProc_of_ne hp]
    exact id

end SamePids

/-- A function that keeps the pids. -/
abbrev KeepsPids {α : Type} (x : KernelM α) : Prop := Rel SamePids x

/-- A function that keeps the pids keeps the invariant. -/
theorem Lib.Rel.nameless {α : Type} {x : KernelM α} (hx : KeepsPids x) : Keeps DeadNameless x :=
  hx.keeps fun _ _ h hk => h.nameless hk

namespace KeepsPids

variable {α : Type}

/-- A function that is quiet. -/
theorem of_quiet {x : KernelM α} (hx : RunsQuietly x) : KeepsPids x := fun k => .of_quiet (hx k)

/-- The scheduler runs, and returns nothing. -/
theorem onScheduler {f : Scheduler Slot → Scheduler Slot} (hf : ∀ s, Rescheduled s (f s)) :
    KeepsPids (onScheduler f) := fun k => .of_rescheduled (hf k.toScheduler)

/-- The scheduler runs, and returns a stack pointer. -/
theorem callScheduler {f : Scheduler Slot → Word × Scheduler Slot} (hf : ∀ s, Rescheduled s (f s).2) :
    KeepsPids (callScheduler f) := fun k => .of_rescheduled (hf k.toScheduler)

/-- A process changes, but not its pid, and does not die of it. -/
theorem modifyProc {f : Process → Process} (hpid : ∀ p : Process, (f p).pid = p.pid)
    (hdead : ∀ p : Process, (f p).state = .dead → p.state = .dead) : KeepsPids (modifyProc proc f) :=
  fun _ => .setProc (hpid _) (hdead _)

end KeepsPids

/-- A slot that is filled with a process, or emptied of its pid. -/
theorem DeadNameless.setProc {f : Process → Process} (h : DeadNameless k)
    (hf : (f (k.procs proc)).state = .dead → (f (k.procs proc)).pid = 0) :
    DeadNameless (k.setProc proc f) := by
  intro p hp
  by_cases hproc : p = proc
  · rw [hproc, Kernel.setProc_self] at hp ⊢
    exact hf hp
  · rw [k.setProc_of_ne hproc] at hp ⊢
    exact h p hp

/-- A process may die if it loses its pid with that. -/
theorem nameless_modifyProc {f : Process → Process} (hf : ∀ p : Process, (f p).state = .dead → (f p).pid = 0) :
    Keeps DeadNameless (modifyProc proc f) := fun _ h => h.setProc (hf _)

/-! ### The process table -/

/-- The bitmap of the kernel stacks is no process. -/
theorem samePids_freeStack (k : Kernel) (stack : Word) : SamePids k (k.freeStack stack) := by
  unfold Kernel.freeStack
  dsimp only
  split
  · exact .refl k
  · split <;> exact .of_procs rfl

/-- A stack is given back. -/
theorem keepsPids_freeStack (stack : Word) : KeepsPids (modify (·.freeStack stack) : KernelM Unit) :=
  fun k => samePids_freeStack k stack

/-- A stack is taken, or there is none. -/
theorem keepsPids_allocateStack : KeepsPids callAllocateStack := by
  intro k
  show SamePids k k.allocateStack.2
  unfold Kernel.allocateStack
  split <;> exact .of_procs rfl

/-- Memory is no process. -/
theorem keepsPids_onMemory (f : Memory → Memory) : KeepsPids (onMemory f) := fun _ => .of_procs rfl

/-- `next_pid` goes up; the pid is not given to anybody yet. -/
theorem keepsPids_takePid : KeepsPids takePid := fun _ => .of_procs rfl

/-- The processes are counted. -/
theorem keepsPids_setProcessCount (f : Nat → Nat) : KeepsPids (setProcessCount f) :=
  fun _ => .of_procs rfl

/-- A process that is made has a state; one that cannot be made loses its pid. -/
theorem nameless_createProcess (interruptFrame : Bool) (words : Nat) :
    Keeps DeadNameless (createProcess interruptFrame words) := by
  have hplace (proc : Slot) (stack : Word) : KeepsPids (modifyProc proc fun p =>
      { p with
        kernelStack := stack
        esp := stack + BitVec.ofNat 32 (kernelStackSize - words * 4) }) :=
    .modifyProc (fun _ => rfl) fun _ => id
  have hcreated (proc : Slot) (pid : Nat) (cr3 : Word) :
      Keeps DeadNameless (modifyProc proc (·.created pid cr3 interruptFrame)) := by
    refine nameless_modifyProc fun p hdead => ?_
    cases hdead
  unfold createProcess
  refine .get_bind fun k h => ?_
  rw [run_ite]
  split
  · exact h
  rcases k.findDead with _ | proc
  · exact h
  refine Keeps.bind keepsPids_takePid.nameless (fun pid => .bind (hcreated proc pid _) fun _ => ?_) k h
  refine .bind keepsPids_allocateStack.nameless fun stack => .ite ?_ ?_
  · exact .bind (nameless_modifyProc fun _ _ => rfl) fun _ => .pure
  · refine .bind (hplace proc stack).nameless fun _ => ?_
    exact .bind (keepsPids_setProcessCount _).nameless fun _ => .pure

/-- A child that could not be made is reset to an empty record. -/
theorem nameless_abandonChild (child : Slot) : Keeps DeadNameless (abandonChild child) := by
  unfold abandonChild
  refine .get_bind fun k h => ?_
  exact Keeps.bind (keepsPids_freeStack _).nameless (fun _ => nameless_modifyProc fun _ _ => rfl) k h

/-- `process_fork` in a slot: the child gets a pid and lives, or it is abandoned. -/
theorem nameless_forkInto (child parent : Slot) (parentFrame childCr3 : Word) :
    Keeps DeadNameless (forkInto child parent parentFrame childCr3) := by
  have hframe (childFrame : Word) : KeepsPids (modify fun k =>
      k.setFrame childFrame fun _ => (k.frameAt parentFrame).forked : KernelM Unit) :=
    fun _ => .of_procs rfl
  have hmark : KeepsPids (modifyProc parent fun p => { p with interruptFrame := true }) :=
    .modifyProc (fun _ => rfl) fun _ => id
  have hforked (q : Process) (pid : Nat) (childFrame : Word) :
      Keeps DeadNameless (modifyProc child (·.forked q pid childFrame childCr3)) := by
    refine nameless_modifyProc fun p hdead => ?_
    cases hdead
  unfold forkInto
  refine .get_bind fun k h => ?_
  refine Keeps.bind (hframe _).nameless (fun _ => .get_bind fun k h => ?_) k h
  refine Keeps.bind keepsPids_takePid.nameless (fun pid => .bind (hforked _ pid _) fun _ => ?_) k h
  refine .bind (KeepsPids.of_quiet (quiet_inheritFds _ _ _)).nameless fun status => .ite ?_ ?_
  · refine .bind (keepsPids_onMemory _).nameless fun _ => ?_
    exact .bind (nameless_abandonChild child) fun _ => .pure
  · exact .bind hmark.nameless fun _ => .bind (keepsPids_setProcessCount _).nameless fun _ => .pure

/-- `process_fork`, whichever step of it fails. -/
theorem nameless_processFork (parent : Slot) (parentFrame : Word) :
    Keeps DeadNameless (processFork parent parentFrame) := by
  have hown (child : Slot) (stack : Word) : KeepsPids (modifyProc child fun p =>
      { p with kernelStack := stack }) := .modifyProc (fun _ => rfl) fun _ => id
  have hclone (cr3 : Word) : KeepsPids (callMemory (·.pagingCloneDirectory cr3)) := fun _ => .of_procs rfl
  unfold processFork
  refine .get_bind fun k h => ?_
  rw [run_ite]
  split
  · exact h
  rcases k.findDead with _ | child
  · exact h
  refine Keeps.bind (nameless_modifyProc fun _ _ => rfl) (fun _ => ?_) k h
  refine .bind keepsPids_allocateStack.nameless fun stack => .bind (hown child stack).nameless fun _ => ?_
  refine .ite .pure (.get_bind fun k h => ?_)
  refine Keeps.bind (hclone _).nameless (fun childCr3 => .ite ?_ ?_) k h
  · exact .bind (nameless_abandonChild child) fun _ => .pure
  · exact nameless_forkInto _ _ _ _

/-- A process that is destroyed loses its pid. -/
theorem nameless_processDestroy (proc : Slot) : Keeps DeadNameless (processDestroy proc) := by
  unfold processDestroy
  refine .get_bind fun k h => ?_
  rw [run_ite]
  split
  · exact h
  refine Keeps.bind (KeepsPids.of_quiet (quiet_processFdCloseAll proc)).nameless (fun _ => ?_) k h
  refine .bind (keepsPids_onMemory _).nameless fun _ => .bind (keepsPids_freeStack _).nameless fun _ => ?_
  refine .bind (nameless_modifyProc fun _ _ => rfl) fun _ => ?_
  exact (keepsPids_setProcessCount _).nameless

/-- A signal is pending. -/
theorem keepsPids_processSendSignal (proc : Slot) (signum : Nat) :
    KeepsPids (processSendSignal proc signum) := by
  unfold processSendSignal
  refine .getProc_bind fun p => .ite (.pure _) (.bind ?_ fun _ => .pure _)
  exact KeepsPids.modifyProc (fun _ => rfl) fun _ => id

/-- A process that ends is a zombie, and keeps its pid for its parent. -/
theorem keepsPids_processMarkExit (proc : Slot) (exitCode : Word) :
    KeepsPids (processMarkExit proc exitCode) := by
  unfold processMarkExit endProcess
  refine .getProc_bind fun p => .ite (.pure _) (.bind ?_ fun _ => KeepsPids.of_quiet (quiet_tellFamily proc))
  refine .bind (KeepsPids.onScheduler fun s => .schedulerRemove s proc) fun _ => ?_
  refine .bind (KeepsPids.modifyProc (fun _ => rfl) fun _ => id) fun _ => ?_
  refine .bind (KeepsPids.of_quiet (quiet_processFdCloseAll proc)) fun _ => ?_
  exact KeepsPids.modifyProc (fun _ => rfl) fun _ => nofun

/-! ### System calls -/

/-- A process that waits for a pipe is blocked, or its reason is taken back. -/
theorem keepsPids_blockOnPipe (proc : Slot) (frame : Word) (reason : BlockReason)
    (fd buffer count : Word) : KeepsPids (blockOnPipe proc frame reason fd buffer count) := by
  unfold blockOnPipe
  refine .bind (KeepsPids.modifyProc (fun _ => rfl) fun _ => id) fun _ => ?_
  refine .bind (KeepsPids.callScheduler fun s => .schedulerBlockCurrent s frame) fun esp => ?_
  refine .ite (.bind ?_ fun _ => .pure _) (.pure _)
  exact KeepsPids.modifyProc (fun _ => rfl) fun _ => id

/-- A process that waits for a child is blocked, or its reason is taken back. -/
theorem keepsPids_blockOnChild (proc : Slot) (frame : Word) : KeepsPids (blockOnChild proc frame) := by
  unfold blockOnChild
  refine .bind (KeepsPids.callScheduler fun s => .schedulerBlockCurrent s frame) fun esp => ?_
  refine .ite (.bind ?_ fun _ => .pure _) (.pure _)
  exact KeepsPids.modifyProc (fun _ => rfl) fun _ => id

/-- `SYS_READ`, with the wait for a pipe. -/
theorem keepsPids_syscallRead (fd buffer count callerCs frame : Word) :
    KeepsPids (syscallRead fd buffer count callerCs frame) := by
  have hwritable : KeepsPids (isUserPointerWritable buffer count) :=
    .of_quiet (quiet_isUserPointerWritable buffer count)
  unfold syscallRead
  refine .ite (.pure _) (.bind (.ite (.pure _) hwritable) fun w => .ite (.pure _) (.get_bind fun k => ?_))
  split
  · exact .pure _
  refine .ite (.bind (KeepsPids.of_quiet (quiet_kernelVfsRead _ _ _)) fun _ => .pure _) (.ite (.pure _) ?_)
  refine .bind (KeepsPids.of_quiet (quiet_kernelPipeRead _ _ _)) fun status => .ite (.pure _) ?_
  exact keepsPids_blockOnPipe _ _ _ _ _ _

/-- `SYS_WRITE`, with the wait for a pipe. -/
theorem keepsPids_syscallWrite (fd buffer count callerCs frame : Word) :
    KeepsPids (syscallWrite fd buffer count callerCs frame) := by
  unfold syscallWrite
  refine .ite (.pure _) (.get_bind fun k => .ite (.pure _) ?_)
  split
  · exact .pure _
  refine .ite (.bind (KeepsPids.of_quiet (quiet_kernelVfsWrite _ _ _)) fun _ => .pure _) (.ite (.pure _) ?_)
  refine .bind (KeepsPids.of_quiet (quiet_kernelPipeWrite _ _ _)) fun status => ?_
  exact .ite (.pure _) (.ite (.pure _) (keepsPids_blockOnPipe _ _ _ _ _ _))

/-- A child that has been waited for is destroyed: its slot has neither a process nor a pid. -/
theorem nameless_reapChild (child : Slot) : Keeps DeadNameless (reapChild child) := by
  have hwaited : KeepsPids (modifyProc child fun p => { p with waited := true }) :=
    .modifyProc (fun _ => rfl) fun _ => id
  unfold reapChild
  refine .bind hwaited.nameless fun _ => .get_bind fun k h => ?_
  exact Keeps.bind (nameless_processDestroy child) (fun _ => .pure) k h

/-- `SYS_WAIT`: a child is reaped, or the caller waits. -/
theorem nameless_syscallWait (statusPtr callerCs frame : Word) :
    Keeps DeadNameless (syscallWait statusPtr callerCs frame) := by
  have hwritable : KeepsPids (if statusPtr = 0 then pure true else isUserPointerWritable statusPtr 4) :=
    .of_quiet (.ite (.pure _) (quiet_isUserPointerWritable statusPtr 4))
  unfold syscallWait
  refine .ite .pure (.get_bind fun k h => ?_)
  rcases k.processGetCurrent with _ | current
  · exact h
  dsimp only
  refine Keeps.bind hwritable.nameless (fun w => .ite .pure (.get_bind fun k h => ?_)) k h
  rcases k.processFindExitedChild (k.procs current).pid with _ | child
  · have hbegin : KeepsPids (modifyProc current (·.processBeginWait statusPtr)) :=
      KeepsPids.modifyProc (fun _ => rfl) fun _ => id
    exact (Rel.ite (.pure _) (.bind hbegin fun _ => keepsPids_blockOnChild _ _)).nameless k h
  · refine Keeps.bind (Lib.Rel.nameless (.runIf ?_)) (fun _ => nameless_reapChild _) k h
    exact Rel.modify fun _ => .of_procs rfl

/-- `SYS_WAITPID`: a child is reaped, or the caller waits, or neither. -/
theorem nameless_syscallWaitpid (targetPid statusPtr options callerCs frame : Word) :
    Keeps DeadNameless (syscallWaitpid targetPid statusPtr options callerCs frame) := by
  have hwritable : KeepsPids (if statusPtr = 0 then pure true else isUserPointerWritable statusPtr 4) :=
    .of_quiet (.ite (.pure _) (quiet_isUserPointerWritable statusPtr 4))
  unfold syscallWaitpid
  refine .ite .pure (.get_bind fun k h => ?_)
  rcases k.processGetCurrent with _ | current
  · exact h
  dsimp only
  refine Keeps.ite .pure (.bind hwritable.nameless fun w => .ite .pure (.get_bind fun k h => ?_)) k h
  rcases k.processFindExitedChildByPid (k.procs current).pid targetPid.toNat with _ | child
  · dsimp only
    have hbegin : KeepsPids (modifyProc current (·.processBeginWaitpid statusPtr targetPid.toNat)) :=
      KeepsPids.modifyProc (fun _ => rfl) fun _ => id
    have hmark : KeepsPids (modifyProc current fun p => { p with waitIsWaitpid := true }) :=
      KeepsPids.modifyProc (fun _ => rfl) fun _ => id
    exact (Rel.ite (.pure _) (.ite (.pure _) (.bind hbegin fun _ => .bind hmark fun _ =>
      keepsPids_blockOnChild _ _))).nameless k h
  · have hcopy : KeepsPids (if statusPtr = 0 then pure uaccessSuccess
        else copyToUser statusPtr (wordBytes (k.procs child).encodedStatus)) :=
      .of_quiet (.ite (.pure _) (quiet_copyToUser _ _))
    exact Keeps.bind hcopy.nameless (fun status => .ite .pure (nameless_reapChild _)) k h

/-- The caller of `SYS_EXIT` leaves the processor. -/
theorem keepsPids_exitCurrent (frame : Word) : KeepsPids (callScheduler (·.schedulerExitCurrent frame)) :=
  .callScheduler fun s => .schedulerExitCurrent s frame

/-- `SYS_EXIT` -/
theorem keepsPids_syscallExit (exitCode callerCs frame : Word) :
    KeepsPids (syscallExit exitCode callerCs frame) := by
  unfold syscallExit
  refine .ite (.pure _) (.get_bind fun k => ?_)
  split
  · exact .pure _
  · refine .bind (keepsPids_processMarkExit _ _) fun _ => ?_
    exact .bind (keepsPids_exitCurrent frame) fun _ => .pure _

/-- `SYS_FORK` -/
theorem nameless_syscallFork (callerCs frame : Word) : Keeps DeadNameless (syscallFork callerCs frame) := by
  unfold syscallFork
  refine .ite .pure (.get_bind fun k h => ?_)
  rcases k.processGetCurrent with _ | current
  · exact h
  dsimp only
  refine Keeps.bind (nameless_processFork _ _) (fun r => ?_) k h
  rcases r with _ | child
  · exact .pure
  · have hadd : KeepsPids (onScheduler (·.schedulerAdd child)) := .onScheduler fun s => .enqueue s child
    exact .bind hadd.nameless fun _ => fun k h => h

/-- A process that moves into a new image is the process that it was. -/
theorem keepsPids_execCommit (proc : Slot) (frame newCr3 sp entry : Word) (vectors : Option Nat) :
    KeepsPids (execCommit proc frame newCr3 sp entry vectors) := by
  have himage : KeepsPids (modifyProc proc fun p =>
      { p with
        cr3 := newCr3
        heapStart := processHeapStart
        heapEnd := processHeapStart
        interruptFrame := true }) := .modifyProc (fun _ => rfl) fun _ => id
  unfold execCommit
  refine .getProc_bind fun p => .bind (KeepsPids.of_quiet (quiet_processFdCloseOnExec proc)) fun _ => ?_
  refine .bind himage fun _ => .bind (KeepsPids.of_quiet (quiet_callKfree _)) fun _ => ?_
  refine .bind (keepsPids_onMemory _) fun _ => .bind (keepsPids_onMemory _) fun _ => ?_
  exact Rel.modify fun _ => .of_procs rfl

/-- `SYS_EXEC`, whether it succeeds or not. -/
theorem keepsPids_syscallExec (pathPtr argvPtr envpPtr callerCs frame : Word) :
    KeepsPids (syscallExec pathPtr argvPtr envpPtr callerCs frame) := by
  have hgiveUp (block : Option Nat) (status : Word) : KeepsPids (do
      callKfree block
      return status : KernelM Word) :=
    .bind (KeepsPids.of_quiet (quiet_callKfree block)) fun _ => .pure _
  unfold syscallExec
  refine .ite (.pure _) (.get_bind fun k => ?_)
  split
  · exact .pure _
  split
  · exact .pure _
  refine .bind (KeepsPids.of_quiet (quiet_callKmalloc _)) fun block => ?_
  split
  · exact .pure _
  refine .get_bind fun k => ?_
  split
  · exact hgiveUp _ _
  split
  · exact hgiveUp _ _
  refine .bind (KeepsPids.of_quiet (quiet_execImage _ _)) fun image => ?_
  split
  · exact hgiveUp _ _
  · exact .bind (keepsPids_execCommit _ _ _ _ _ _) fun _ => .pure _

/-- `SYS_KILL` -/
theorem keepsPids_syscallKill (pid signum callerCs : Word) :
    KeepsPids (syscallKill pid signum callerCs) := by
  unfold syscallKill
  refine .ite (.pure _) (.get_bind fun k => ?_)
  split
  · exact .pure _
  · exact .ite (.pure _) (.bind (keepsPids_processSendSignal _ _) fun _ => .pure _)

/-- Every system call leaves the slots without a process without a pid. -/
theorem nameless_syscallHandle (frame : Word) : Keeps DeadNameless (syscallHandle frame) := by
  have hreplying {call : KernelM Word} (h : Keeps DeadNameless call) : Keeps DeadNameless (replying call) :=
    .bind h fun _ => .pure
  have hswitching {call : KernelM SyscallResult} (h : Keeps DeadNameless call) :
      Keeps DeadNameless (switching call) := .bind h fun _ => .pure
  have hquiet {call : KernelM Word} (h : RunsQuietly call) : Keeps DeadNameless (replying call) :=
    hreplying (KeepsPids.of_quiet h).nameless
  have hyield (cs : Word) : Keeps DeadNameless (replying (pure
      (if isRing3 cs then syscallSuccess else syscallEperm))) := hquiet (.pure _)
  have hecho (f : InterruptFrame) : Keeps DeadNameless (replying (pure
      (if isRing3 f.cs then f.ebx else syscallEperm))) := hquiet (.pure _)
  unfold syscallHandle
  refine .get_bind fun k h => ?_
  have hyield := hyield (k.frameAt frame).cs k h
  have hecho := hecho (k.frameAt frame) k h
  generalize (if isRing3 (k.frameAt frame).cs then syscallSuccess else syscallEperm) = yielded at hyield
  generalize (if isRing3 (k.frameAt frame).cs then (k.frameAt frame).ebx else syscallEperm) = echo
    at hecho
  generalize (k.frameAt frame).eax.toNat = number
  split
  · exact hquiet (quiet_syscallPuts _ _) k h
  · exact Keeps.bind (KeepsPids.of_quiet (quiet_syscallGetchar _)).nameless (fun _ => .pure) k h
  · exact hyield
  · exact hquiet (quiet_syscallUptime _) k h
  · exact hecho
  · exact hquiet (quiet_syscallOpen _ _ _) k h
  · exact hswitching (keepsPids_syscallRead _ _ _ _ _).nameless k h
  · exact hswitching (keepsPids_syscallWrite _ _ _ _ _).nameless k h
  · exact hquiet (quiet_syscallClose _ _) k h
  · exact hquiet (quiet_syscallStat _ _ _) k h
  · exact hquiet (quiet_currentField _ _ _) k h
  · exact hswitching (keepsPids_syscallExit _ _ _).nameless k h
  · exact hswitching (nameless_syscallWait _ _ _) k h
  · exact hreplying (nameless_syscallFork _ _) k h
  · exact hreplying (keepsPids_syscallExec _ _ _ _ _).nameless k h
  · exact hquiet (quiet_syscallBrk _ _) k h
  · exact hswitching (nameless_syscallWaitpid _ _ _ _ _) k h
  · exact hreplying (keepsPids_syscallKill _ _ _).nameless k h
  · exact hquiet (quiet_currentField _ _ _) k h
  · exact hquiet (quiet_syscallPipe _ _ _) k h
  · exact hquiet (.pure _) k h

/-! ### The handlers -/

/-- A process is marked as stopped in an interrupt. -/
theorem samePids_markCurrentFrame (k : Kernel) : SamePids k k.markCurrentFrame := by
  unfold Kernel.markCurrentFrame
  split
  · exact .refl k
  · exact .setProc rfl id

/-- A process that dies of a signal is a zombie. -/
theorem keepsPids_dieOfSignal (current : Slot) (signum : Nat) (frameEsp : Word) :
    KeepsPids (dieOfSignal current signum frameEsp) := by
  unfold dieOfSignal
  refine .bind (KeepsPids.modifyProc (fun _ => rfl) fun _ => id) fun _ => ?_
  exact .bind (keepsPids_processMarkExit _ _) fun _ => keepsPids_exitCurrent frameEsp

/-- Every round of the loop keeps the pids. -/
theorem samePids_processDeliverSignals {fuel : Nat} {frame : Word} {r : Word × Kernel}
    (hrun : processDeliverSignals fuel frame k = some r) : SamePids k r.2 := by
  induction fuel generalizing frame k with
  | zero => cases hrun
  | succ fuel ih =>
    unfold processDeliverSignals at hrun
    rcases hcurrent : k.processGetCurrent with _ | current
    · rw [hcurrent] at hrun
      obtain rfl := Option.some.inj hrun
      exact .refl k
    rw [hcurrent] at hrun
    dsimp only at hrun
    split at hrun
    · obtain rfl := Option.some.inj hrun
      exact .refl k
    split at hrun
    · exact (keepsPids_dieOfSignal current sigKill frame k).trans (ih hrun)
    split at hrun
    · exact (keepsPids_dieOfSignal current sigTerm frame k).trans (ih hrun)
    split at hrun
    · exact (SamePids.setProc rfl id).trans (ih hrun)
    · obtain rfl := Option.some.inj hrun
      exact .refl k

/-- `syscall_dispatch`: the call and the signals. -/
theorem nameless_syscallDispatch {fuel : Nat} {frame : Word} {r : Word × Kernel} (h : DeadNameless k)
    (hrun : syscallDispatch fuel frame k = some r) : DeadNameless r.2 := by
  have hanswer := nameless_syscallHandle frame k.markCurrentFrame ((samePids_markCurrentFrame k).nameless h)
  unfold syscallDispatch at hrun
  split at hrun
  · obtain rfl := Option.some.inj hrun
    exact h
  · generalize syscallHandle frame k.markCurrentFrame = answer at hanswer hrun
    obtain ⟨_ | answer, k₁⟩ := answer
    · cases hrun
    · have heax : SamePids k₁ (k₁.setFrame frame fun f => { f with eax := answer.result }) := .of_procs rfl
      exact (heax.trans (samePids_processDeliverSignals hrun)).nameless hanswer

/-- `timer_interrupt`: preemption and signals. -/
theorem samePids_timerInterrupt {fuel : Nat} {frame : Word} {r : Word × Kernel}
    (hrun : timerInterrupt fuel frame k = some r) : SamePids k r.2 := by
  have hpreempt : KeepsPids (callScheduler (·.schedulerPreempt frame)) :=
    .callScheduler fun s => .schedulerPreempt s frame
  have htick : SamePids k { k with timerTicks := (k.timerTicks + 1) % wordSize } := .of_procs rfl
  exact (htick.trans (hpreempt _)).trans (samePids_processDeliverSignals hrun)

/-- `page_fault_dispatch`: a page is mapped or copied, or the process is a zombie. -/
theorem samePids_pageFaultDispatch (frame errorCode faultAddr : Word) :
    SamePids k (pageFaultDispatch frame errorCode faultAddr k).2 := by
  unfold pageFaultDispatch
  split
  · exact .refl k
  rcases k.current with _ | current
  · exact .refl k
  dsimp only
  have hmem : SamePids k (k.withMem (k.mem.vmHandlePageFault (k.procs current) faultAddr errorCode).2) :=
    .of_procs rfl
  split
  · exact hmem
  · unfold dieOfFault
    exact hmem.trans (Rel.bind (keepsPids_processMarkExit _ _) (fun _ => keepsPids_exitCurrent frame) _)

/-- The handler of a trap. -/
theorem nameless_handle {fuel : Nat} {trap : Trap} {r : Word × Kernel} (h : DeadNameless k)
    (hrun : trap.handle fuel k = some r) : DeadNameless r.2 := by
  have henter : SamePids k (trap.enter k) := .of_procs rfl
  cases trap with
  | syscall => exact nameless_syscallDispatch (henter.nameless h) hrun
  | timer => exact (henter.trans (samePids_timerInterrupt hrun)).nameless h
  | pageFault =>
    obtain rfl := Option.some.inj hrun
    exact (henter.trans (samePids_pageFaultDispatch _ _ _)).nameless h

/-- Zombies whose parent has gone are destroyed, one after another. -/
theorem nameless_reapZombies (current : Option Slot) : Keeps DeadNameless (reapZombies current) := by
  unfold reapZombies
  refine Keeps.forM fun proc _ => Keeps.get_bind fun k h => ?_
  rw [run_ite]
  split
  · exact nameless_processDestroy proc k h
  · exact h

/-- `process_complete_context_switch`: what the process has waited for, and then the zombies. -/
theorem nameless_processCompleteContextSwitch : Keeps DeadNameless processCompleteContextSwitch := by
  intro k h
  unfold processCompleteContextSwitch
  rw [run_bind, run_get]
  rcases k.processGetCurrent with _ | current
  · exact nameless_reapZombies none k h
  · dsimp only
    rw [run_bind, run_bind]
    have hwait := (KeepsPids.of_quiet (quiet_processCompleteWait current)).nameless k h
    have hpipe := (KeepsPids.of_quiet (quiet_processCompletePipeIo current)).nameless _ hwait
    exact nameless_reapZombies (some current) _ hpipe

/-! ### Runs -/

/-- `scheduler_set_current`: a process runs, with its directory loaded. -/
theorem SamePids.setCurrent (k : Kernel) (proc : Slot) :
    SamePids k (k.onScheduler (·.schedulerSetCurrent proc)) := by
  have hstate : SamePids k (k.setProc proc fun p => { p with state := .running }) := .setProc rfl nofun
  have hswitch : SamePids (k.setProc proc fun p => { p with state := .running })
      ((k.setProc proc fun p => { p with state := .running }).onScheduler (·.switchAddressSpace proc)) :=
    .of_rescheduled (.switchAddressSpace _ proc)
  exact (hstate.trans hswitch).trans (.of_procs rfl)

/-- Every step leaves the slots without a process without a pid. -/
theorem FdStep.nameless (h : DeadNameless k) (hstep : FdStep k k') : DeadNameless k' := by
  cases hstep with
  | handle fuel trap hrun => exact nameless_handle h hrun
  | call frame => exact nameless_syscallHandle frame k h
  | signals fuel frame hrun => exact (samePids_processDeliverSignals hrun).nameless h
  | complete => exact nameless_processCompleteContextSwitch k h
  | store | key | setPreemption | initScheduler => exact h
  | create | createPreemptive => exact nameless_createProcess _ _ k h
  | setAddressSpace proc cr3 =>
    have hset : KeepsPids (processSetAddressSpace proc cr3) := .modifyProc (fun _ => rfl) fun _ => id
    exact hset.nameless k h
  | setCurrent proc => exact (SamePids.setCurrent k proc).nameless h
  | add proc => exact (SamePids.of_rescheduled (.enqueue _ proc)).nameless h
  | markExit proc exitCode => exact (keepsPids_processMarkExit proc exitCode).nameless k h
  | destroy proc => exact nameless_processDestroy proc k h

/-- In every state that is reached, a slot without a process has no pid. -/
theorem FdRun.nameless (h : FdRun k) : DeadNameless k := by
  induction h with
  | init k => exact fun _ _ => rfl
  | step _ hstep ih => exact hstep.nameless ih

end AgenticOs
