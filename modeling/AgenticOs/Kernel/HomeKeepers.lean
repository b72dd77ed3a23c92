import AgenticOs.Kernel.Homes

/-!
# What leaves homes alone

The home of a process is its directory, the bounds of its heap, the buffer that it waits with and the memory behind all
of that (`SameHomes`). Most of the kernel has nothing to do with homes, and this is said once for each function
(`KeepsHomes`), by rules that follow the way it is written:

* **Rules**: a result, a bind, a loop, a condition (`KeepsHomes.bind`, `KeepsHomes.forM`, `KeepsHomes.ite`), a change of
  one process (`KeepsHomes.modifyProc`) and a call of the scheduler, which only moves processes between states and
  queues (`KeepsHomes.callScheduler`).
* **Descriptors**: files and pipes are opened, inherited and closed (`sameHomes_processFdCloseAll`,
  `sameHomes_inheritFds`). Whoever is woken by that keeps its reason and its buffer until its transfer
  is made (`SameHomes.processWakePipeWaiter`).
* **The end of a process**: it is a zombie, its family is told, and another process runs
  (`sameHomes_processMarkExit`, `sameHomes_dieOfFault`, `sameHomes_syscallExit`). Its address space stays until it is
  reaped, which is not in this file.
* **System calls** that touch no user memory (`sameHomes_syscallOpen`, `sameHomes_syscallKill`).

What changes an address space is `Confined` to its process instead (`HomeCalls`, `HomeExec`), or creates and destroys
homes (`HomeForks`, `HomeReaping`).
-/

namespace AgenticOs

open Function Lib

/-- A function that leaves homes alone. -/
abbrev KeepsHomes {α : Type} (x : KernelM α) : Prop := Rel SameHomes x

namespace KeepsHomes

variable {α β : Type} {x y : KernelM α} {f : α → KernelM β}

/-- A result, and nothing done. -/
theorem pure (a : α) : KeepsHomes (Pure.pure a : KernelM α) := Rel.pure a

/-- One function after another. -/
theorem bind (hx : KeepsHomes x) (hf : ∀ a, KeepsHomes (f a)) : KeepsHomes (x >>= f) := Rel.bind hx hf

/-- The state is read. -/
theorem get_bind {f : Kernel → KernelM β} (hf : ∀ k, KeepsHomes (f k)) : KeepsHomes (get >>= f) := Rel.get_bind hf

/-- A process is read. -/
theorem getProc_bind {proc : Slot} {f : Process → KernelM β} (hf : ∀ p, KeepsHomes (f p)) :
    KeepsHomes (getProc proc >>= f) := Rel.getProc_bind hf

/-- Any change of the state that leaves homes alone. -/
theorem modify {g : Kernel → Kernel} (h : ∀ k, SameHomes k (g k)) : KeepsHomes (modify g : KernelM PUnit) := h

/-- A loop whose rounds leave homes alone. -/
theorem forM {γ : Type} {l : List γ} {f : γ → KernelM PUnit} (h : ∀ a ∈ l, KeepsHomes (f a)) :
    KeepsHomes (l.forM f) := Rel.forM h

/-- Either of two functions. -/
theorem ite {c : Prop} [Decidable c] (hx : KeepsHomes x) (hy : KeepsHomes y) :
    KeepsHomes (if c then x else y) := Rel.ite hx hy

/-- A function that is called on a condition. -/
theorem runIf {c : Prop} [Decidable c] {x : KernelM PUnit} (hx : KeepsHomes x) : KeepsHomes (runIf c x) :=
  Rel.runIf hx

/-- A process changes, but for the fields that have to do with its home. -/
theorem modifyProc {proc : Slot} {f : Process → Process} (hf : ∀ p : Process, p.SameHome (f p)) :
    KeepsHomes (modifyProc proc f) := fun _ => .setProc (hf _)

/-- The file system has no part in memory or in the process table. -/
theorem callVfs (f : VfsM α) : KeepsHomes (callVfs f) := fun _ => .of_same rfl rfl

/-- The scheduler runs, and returns nothing. -/
theorem onScheduler {f : Scheduler Slot → Scheduler Slot} (hf : ∀ s, Rescheduled s (f s)) :
    KeepsHomes (onScheduler f) := fun k => .of_rescheduled (hf k.toScheduler)

/-- The scheduler runs, and returns a stack pointer. -/
theorem callScheduler {f : Scheduler Slot → Word × Scheduler Slot} (hf : ∀ s, Rescheduled s (f s).2) :
    KeepsHomes (callScheduler f) := fun k => .of_rescheduled (hf k.toScheduler)

end KeepsHomes

/-- An interrupt frame is written: it lies on a kernel stack. -/
theorem sameHomes_setFrame (frame : Word) (f : InterruptFrame → InterruptFrame) :
    KeepsHomes (modify (·.setFrame frame f)) := .modify fun _ => .of_same rfl rfl

/-! ### Descriptors -/

/-- Whoever waits for a pipe and is woken changes its state only: its buffer is due until the transfer is made. -/
theorem SameHomes.processWakePipeWaiter (pipes : Pipes) (pipeIndex : Fin maxPipes) (reason : BlockReason)
    (k : Kernel) : SameHomes k (Kernel.processWakePipeWaiter pipes pipeIndex reason k) := by
  unfold Kernel.processWakePipeWaiter
  split
  · exact .refl k
  · exact .of_rescheduled (Rescheduled.schedulerWake ..)

/-- A pipe operation changes the pipes, and wakes who waits. -/
theorem SameHomes.ofPipes {pipes : Pipes} {k k' : Kernel}
    (h : k' = k ∨ ∃ pipes' i reason, k' = Kernel.processWakePipeWaiter pipes' i reason k) :
    SameHomes k { k' with pipes := pipes } := by
  rcases h with rfl | ⟨pipes', i, reason, rfl⟩
  · exact .of_same rfl rfl
  · exact (processWakePipeWaiter pipes' i reason k).trans (.of_same rfl rfl)

/-- The end of a pipe is closed, and those who wait for the other end are woken. -/
theorem sameHomes_kernelPipeClose (handle : Int) : KeepsHomes (kernelPipeClose handle) :=
  fun k => .ofPipes <| (pipeClose_state Kernel.processWakePipeWaiter k.pipes k handle).imp_right
    fun ⟨pipes, i, reason, _, h⟩ => ⟨pipes, i, reason, h⟩

/-- An end of a pipe gets another reference. -/
theorem sameHomes_kernelPipeRetain (handle : Int) : KeepsHomes (kernelPipeRetain handle) :=
  fun _ => .of_same rfl rfl

/-- A pipe is created. -/
theorem sameHomes_kernelPipeCreate : KeepsHomes kernelPipeCreate := fun _ => .of_same rfl rfl

/-- Bytes are put into a pipe, and its readers are woken. -/
theorem sameHomes_kernelPipeWrite (handle : Int) (buffer : Word) (count : Nat) :
    KeepsHomes (kernelPipeWrite handle buffer count) :=
  fun k => .ofPipes (pipeWrite_state Kernel.processWakePipeWaiter k.pipes k handle _ count)

/-- A descriptor is written. -/
theorem sameHomes_setFd (proc : Slot) (fd : Fin processMaxFds) (entry : ProcessFd) :
    KeepsHomes (modifyProc proc (·.setFd fd entry)) := .modifyProc fun _ => ⟨rfl, rfl, rfl, fun h => ⟨h, rfl, rfl⟩⟩

/-- A descriptor is installed in the first place that is free, if there is one. -/
theorem sameHomes_processFdInstallTyped (proc : Slot) (kind : FdKind) (handle : Int) (flags : Nat) :
    KeepsHomes (processFdInstallTyped proc kind handle flags) := by
  unfold processFdInstallTyped
  refine .ite (.pure _) (.getProc_bind fun p => ?_)
  split
  · exact .pure _
  · exact .bind (sameHomes_setFd _ _ _) fun _ => .pure _

/-- A descriptor of any kind is closed. -/
theorem sameHomes_processFdClose (proc : Slot) (fd : Int) : KeepsHomes (processFdClose proc fd) := by
  unfold processFdClose
  refine .getProc_bind fun p => ?_
  split
  · refine .bind (sameHomes_setFd _ _ _) fun _ => .ite ?_ ?_
    · exact .bind (sameHomes_kernelPipeClose _) fun _ => .pure _
    · exact .bind (.callVfs _) fun _ => .pure _
  · exact .pure _

/-- The descriptors that do not survive `SYS_EXEC` are closed. -/
theorem sameHomes_processFdCloseOnExec (proc : Slot) : KeepsHomes (processFdCloseOnExec proc) := by
  refine .forM fun fd _ => .getProc_bind fun p => .ite ?_ (.pure _)
  exact .bind (sameHomes_processFdClose _ _) fun _ => .pure _

/-- All descriptors of a process are closed. -/
theorem sameHomes_processFdCloseAll (proc : Slot) : KeepsHomes (processFdCloseAll proc) := by
  refine .forM fun fd _ => .getProc_bind fun p => .ite ?_ (.pure _)
  exact .bind (sameHomes_processFdClose _ _) fun _ => .pure _

/-- What a descriptor of any kind stands for gets another reference. -/
theorem sameHomes_retainFd (kind : FdKind) (handle : Int) : KeepsHomes (retainFd kind handle) := by
  unfold retainFd
  refine .ite ?_ ?_
  · exact .bind (sameHomes_kernelPipeRetain _) fun _ => .pure _
  · exact .bind (.callVfs _) fun _ => .pure _

/-- The descriptors of a parent are inherited, one after another. -/
theorem sameHomes_inheritFds (child parent : Slot) (fds : List (Fin processMaxFds)) :
    KeepsHomes (inheritFds child parent fds) := by
  induction fds with
  | nil => exact .pure _
  | cons fd fds ih =>
    unfold inheritFds
    refine .getProc_bind fun p => .ite ih (.bind (sameHomes_retainFd _ _) fun kept => .ite ?_ ?_)
    · exact .bind (sameHomes_processFdCloseAll _) fun _ => .pure _
    · exact .bind (sameHomes_setFd _ _ _) fun _ => ih

/-! ### The end of a process -/

/-- A signal is pending. -/
theorem sameHomes_processSendSignal (proc : Slot) (signum : Nat) : KeepsHomes (processSendSignal proc signum) := by
  unfold processSendSignal
  refine .getProc_bind fun p => .ite (.pure _) (.bind ?_ fun _ => .pure _)
  exact .modifyProc fun _ => ⟨rfl, rfl, rfl, fun h => ⟨h, rfl, rfl⟩⟩

/-- A parent that waits for the child is woken, with its status and pid. -/
theorem sameHomes_handToWaiter (proc parent : Slot) : KeepsHomes (handToWaiter proc parent) := by
  unfold handToWaiter
  refine .getProc_bind fun p => .getProc_bind fun q => .ite ?_ (.pure _)
  refine .bind (.modifyProc fun _ => ⟨rfl, rfl, rfl, nofun⟩) fun _ => ?_
  refine .bind (.runIf (sameHomes_setFrame _ _)) fun _ => ?_
  refine .bind (.modifyProc fun _ => ⟨rfl, rfl, rfl, fun h => ⟨h, rfl, rfl⟩⟩) fun _ => ?_
  exact .onScheduler fun s => Rescheduled.schedulerWake s _

/-- Children lose their parent, and nothing else. -/
theorem SameHomes.orphanChildren (k : Kernel) (pid : Nat) : SameHomes k (k.orphanChildren pid) := by
  refine ⟨rfl, fun p => ?_⟩
  unfold Kernel.orphanChildren
  dsimp only
  split
  · exact ⟨rfl, rfl, rfl, fun h => ⟨h, rfl, rfl⟩⟩
  · exact .refl _

/-- A parent gets `SIGCHLD`, and is woken if it waits; the children of the process are orphans. -/
theorem sameHomes_tellFamily (proc : Slot) : KeepsHomes (tellFamily proc) := by
  have hwaited : KeepsHomes (modifyProc proc fun p => { p with waited := true }) :=
    .modifyProc fun _ => ⟨rfl, rfl, rfl, fun h => ⟨h, rfl, rfl⟩⟩
  unfold tellFamily
  refine .getProc_bind fun p => .bind (.modify fun k => .orphanChildren k _) fun _ => ?_
  refine .getProc_bind fun p => .get_bind fun k => ?_
  split
  · exact hwaited
  · refine .ite hwaited (.bind (sameHomes_processSendSignal _ _) fun _ => ?_)
    exact sameHomes_handToWaiter _ _

/-- `process_mark_exit`: its address space is still there, for whoever reaps it. -/
theorem sameHomes_processMarkExit (proc : Slot) (exitCode : Word) : KeepsHomes (processMarkExit proc exitCode) := by
  unfold processMarkExit endProcess
  refine .getProc_bind fun p => .ite (.pure _) (.bind ?_ fun _ => sameHomes_tellFamily proc)
  refine .bind (.onScheduler fun s => Rescheduled.schedulerRemove s _) fun _ => ?_
  refine .bind (.modifyProc fun _ => ⟨rfl, rfl, rfl, fun h => ⟨h, rfl, rfl⟩⟩) fun _ => ?_
  exact .bind (sameHomes_processFdCloseAll _) fun _ => .modifyProc fun _ => ⟨rfl, rfl, rfl, nofun⟩

/-- A process dies of a page fault. -/
theorem sameHomes_dieOfFault (current : Slot) (exitCode frameEsp : Word) :
    KeepsHomes (dieOfFault current exitCode frameEsp) := by
  unfold dieOfFault
  exact .bind (sameHomes_processMarkExit _ _) fun _ => .callScheduler fun s => Rescheduled.schedulerExitCurrent s _

/-- A process dies of a signal. -/
theorem sameHomes_dieOfSignal (current : Slot) (signum : Nat) (frameEsp : Word) :
    KeepsHomes (dieOfSignal current signum frameEsp) := by
  unfold dieOfSignal
  refine .bind (.modifyProc fun _ => ⟨rfl, rfl, rfl, fun h => ⟨h, rfl, rfl⟩⟩) fun _ => ?_
  exact .bind (sameHomes_processMarkExit _ _) fun _ => .callScheduler fun s => Rescheduled.schedulerExitCurrent s _

/-- A process is marked as stopped in an interrupt. -/
theorem SameHomes.markCurrentFrame (k : Kernel) : SameHomes k k.markCurrentFrame := by
  unfold Kernel.markCurrentFrame
  split
  · exact .refl k
  · exact .setProc ⟨rfl, rfl, rfl, fun h => ⟨h, rfl, rfl⟩⟩

/-! ### Waiting -/

/-- A process waits for any child: the reason is not a pipe, so that no buffer is due. -/
theorem sameHomes_processBeginWait (proc : Slot) (statusPtr : Word) :
    KeepsHomes (modifyProc proc (·.processBeginWait statusPtr)) :=
  .modifyProc fun _ => ⟨rfl, rfl, rfl, nofun⟩

/-- A process waits for one child. -/
theorem sameHomes_processBeginWaitpid (proc : Slot) (statusPtr : Word) (targetPid : Nat) :
    KeepsHomes (modifyProc proc (·.processBeginWaitpid statusPtr targetPid)) :=
  .modifyProc fun _ => ⟨rfl, rfl, rfl, nofun⟩

/-- A process that waits for a child is blocked, or its reason is taken back. -/
theorem sameHomes_blockOnChild (proc : Slot) (frame : Word) : KeepsHomes (blockOnChild proc frame) := by
  unfold blockOnChild
  refine .bind (.callScheduler fun s => Rescheduled.schedulerBlockCurrent s _) fun esp => .ite ?_ (.pure _)
  exact .bind (.modifyProc fun _ => ⟨rfl, rfl, rfl, nofun⟩) fun _ => .pure _

/-! ### System calls -/

/-- `SYS_OPEN`: a file and a descriptor. -/
theorem sameHomes_syscallOpen (pathPtr flags callerCs : Word) : KeepsHomes (syscallOpen pathPtr flags callerCs) := by
  unfold syscallOpen
  refine .ite (.pure _) (.ite (.pure _) (.get_bind fun k => ?_))
  split
  · exact .pure _
  · split
    · exact .pure _
    · refine .bind (.callVfs _) fun r => ?_
      split
      · exact .pure _
      · refine .bind (sameHomes_processFdInstallTyped _ _ _ _) fun fd => .ite ?_ (.pure _)
        exact .bind (.callVfs _) fun _ => .pure _

/-- Bytes are written to a file; they are read from the caller's memory. -/
theorem sameHomes_kernelVfsWrite (handle : Int) (buffer count : Word) :
    KeepsHomes (kernelVfsWrite handle buffer count) := by
  unfold kernelVfsWrite
  refine .get_bind fun k => .bind (.callVfs _) fun r => ?_
  split <;> exact .pure _

/-- `SYS_CLOSE` -/
theorem sameHomes_syscallClose (fd callerCs : Word) : KeepsHomes (syscallClose fd callerCs) := by
  unfold syscallClose
  refine .ite (.pure _) (.get_bind fun k => ?_)
  split
  · exact .pure _
  · exact .bind (sameHomes_processFdClose _ _) fun _ => .pure _

/-- `SYS_PUTS` reads the caller's memory. -/
theorem sameHomes_syscallPuts (str callerCs : Word) : KeepsHomes (syscallPuts str callerCs) := by
  unfold syscallPuts
  exact .ite (.pure _) (.get_bind fun _ => .pure _)

/-- `SYS_GETCHAR` -/
theorem sameHomes_syscallGetchar (callerCs : Word) : KeepsHomes (syscallGetchar callerCs) := by
  unfold syscallGetchar
  refine .ite (.pure _) fun k => ?_
  rcases hk : k.keyBuffer with _ | ⟨c, rest⟩
  · simp only [run_bind, run_get, hk]
    exact SameHomes.refl k
  · simp only [run_bind, run_get, hk]
    exact SameHomes.of_same rfl rfl

/-- The calls that return a field of the running process. -/
theorem sameHomes_currentField (f : Process → Word) (absent callerCs : Word) :
    KeepsHomes (currentField f absent callerCs) := by
  unfold currentField
  refine .ite (.pure _) (.get_bind fun k => ?_)
  split <;> exact .pure _

/-- `SYS_UPTIME` -/
theorem sameHomes_syscallUptime (callerCs : Word) : KeepsHomes (syscallUptime callerCs) := by
  unfold syscallUptime
  exact .ite (.pure _) (.get_bind fun _ => .pure _)

/-- `SYS_KILL`: the signal is pending, and nobody dies of it here. -/
theorem sameHomes_syscallKill (pid signum callerCs : Word) : KeepsHomes (syscallKill pid signum callerCs) := by
  unfold syscallKill
  refine .ite (.pure _) (.get_bind fun k => ?_)
  split
  · exact .pure _
  · exact .ite (.pure _) (.bind (sameHomes_processSendSignal _ _) fun _ => .pure _)

/-- `SYS_EXIT`: the caller is a zombie in the address space that it had. -/
theorem sameHomes_syscallExit (exitCode callerCs frame : Word) :
    KeepsHomes (syscallExit exitCode callerCs frame) := by
  unfold syscallExit
  refine .ite (.pure _) (.get_bind fun k => ?_)
  split
  · exact .pure _
  · refine .bind (sameHomes_processMarkExit _ _) fun _ => ?_
    exact .bind (.callScheduler fun s => Rescheduled.schedulerExitCurrent s _) fun _ => .pure _

end AgenticOs
