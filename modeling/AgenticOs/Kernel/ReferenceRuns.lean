import AgenticOs.Kernel.References
import AgenticOs.Kernel.Runs

/-!
# Descriptors over runs

Every handler ends with no reference in hand: whatever it has opened, retained or created is named by a
descriptor, or has been given back.

* **Functions** (`SparesRefs`, `Balanced`): a function leaves descriptors and counts alone, or keeps them in
  balance. The lemma of each cites those of the functions that it calls, by the rules of `Lib/Program.lean`.
* **System calls** (`balances_syscallHandle`): open, close, pipe, fork, exec, exit and the waits, one lemma
  each; the others spare everything.
* **Handlers** (`balanced_handle`) and what follows a switch (`balances_processCompleteContextSwitch`).
* **Runs** (`FdRun.balanced`): from an empty process table on, with the handlers each also alone. Every run of
  the machine in ring 3 is one (`ReachableIf.fdRun`).
* **Main result** (`descriptor_counts_exact`): in every state that is reached, every descriptor names an open
  file or a pipe, and an open file or an end of a pipe counts the descriptors that name it.
-/

namespace AgenticOs

open Finset Function Lib

variable {k k' : Kernel} {c proc : Slot}

/-- Every object counts the descriptors that name it. -/
abbrev Balanced (k : Kernel) : Prop := k.Counted []

/-- A function that leaves descriptors and counts alone. -/
abbrev SparesRefs {α : Type} (x : KernelM α) : Prop := Rel SameRefs x

/-- A function that leaves descriptors and counts alone keeps them in balance. -/
theorem Lib.Rel.balances {α : Type} {x : KernelM α} (hx : SparesRefs x) : Keeps Balanced x :=
  hx.keeps fun _ _ h hk => hk.same h

namespace SparesRefs

variable {α : Type}

/-- The scheduler reschedules. -/
theorem onScheduler {f : Scheduler Slot → Scheduler Slot} (hf : ∀ s, Rescheduled s (f s)) :
    SparesRefs (onScheduler f) := fun k => .of_rescheduled (hf k.toScheduler) rfl rfl

/-- The scheduler reschedules and returns a stack pointer. -/
theorem callScheduler {f : Scheduler Slot → Word × Scheduler Slot} (hf : ∀ s, Rescheduled s (f s).2) :
    SparesRefs (callScheduler f) := fun k => .of_rescheduled (hf k.toScheduler) rfl rfl

/-- A process changes, but not its descriptors, and does not die. -/
theorem modifyProc {proc : Slot} {f : Process → Process} (hf : ∀ p : Process, (f p).fds = p.fds)
    (hd : ∀ p : Process, (f p).state = .dead → p.state = .dead) : SparesRefs (modifyProc proc f) :=
  fun _ => .setProc (hf _) (hd _)

/-- A call of `paging.c` or `frame.c`. -/
theorem callMemory (f : Memory → α × Memory) : SparesRefs (callMemory f) :=
  fun _ => .of_procs rfl rfl rfl

/-- A change of memory. -/
theorem onMemory (f : Memory → Memory) : SparesRefs (onMemory f) := fun _ => .of_procs rfl rfl rfl

/-- A change of a frame. -/
theorem setFrame (frame : Word) (f : InterruptFrame → InterruptFrame) :
    SparesRefs (modify (·.setFrame frame f) : KernelM Unit) := fun _ => .of_procs rfl rfl rfl

/-- A call of `vfs.c` that leaves its table alone. -/
theorem callVfs {f : VfsM α} (hf : StM.Within Vfs.SameTable f) : SparesRefs (callVfs f) :=
  fun k => .callVfs (hf k.vfs)

end SparesRefs

/-! ### User memory and pipes -/

/-- `uaccess_prepare_write` changes memory. -/
theorem sparesRefs_uaccessPrepareWrite (address size : Word) :
    SparesRefs (uaccessPrepareWrite address size) := by
  unfold uaccessPrepareWrite
  refine .get_bind fun k => .ite (.pure _) (.ite (.pure _) ?_)
  split
  · exact .pure _
  · exact SparesRefs.callMemory _

/-- `is_user_pointer_writable` changes memory. -/
theorem sparesRefs_isUserPointerWritable (ptr size : Word) :
    SparesRefs (isUserPointerWritable ptr size) := by
  unfold isUserPointerWritable
  exact .bind (sparesRefs_uaccessPrepareWrite _ _) fun _ => .pure _

/-- `copy_to_user` changes memory. -/
theorem sparesRefs_copyToUser (dest : Word) (source : List Byte) :
    SparesRefs (copyToUser dest source) := by
  unfold copyToUser
  refine .bind (sparesRefs_uaccessPrepareWrite _ _) fun status => ?_
  exact .bind (.runIf (.modify fun _ => .of_procs rfl rfl rfl)) fun _ => .pure _

/-- A pipe whose contents alone have changed. -/
theorem SameRefs.of_pipe {i : Fin maxPipes} {pipe : Pipe} (hran : SchedulerRan k k')
    (hused : pipe.used = (k.pipes i).used) (hreaders : pipe.readers = (k.pipes i).readers)
    (hwriters : pipe.writers = (k.pipes i).writers) :
    SameRefs k { k' with pipes := update k.pipes i pipe } := by
  have hpipe (j : Fin maxPipes) : (update k.pipes i pipe j).used = (k.pipes j).used ∧
      (update k.pipes i pipe j).readers = (k.pipes j).readers ∧
        (update k.pipes i pipe j).writers = (k.pipes j).writers := by
    by_cases hj : j = i
    · rw [hj, update_self]
      exact ⟨hused, hreaders, hwriters⟩
    · rw [update_of_ne hj]
      exact ⟨rfl, rfl, rfl⟩
  have hsame := hran.sameRefs
  refine ⟨⟨hsame.fds, hsame.dead⟩, fun o => ?_, hsame.file, fun j => (hpipe j).1⟩
  cases o with
  | file j => exact hsame.count (.file j)
  | readEnd j => exact (hpipe j).2.1
  | writeEnd j => exact (hpipe j).2.2

/-- A read from a pipe changes what it holds, and wakes. -/
theorem sparesRefs_kernelPipeRead (handle : Int) (buffer : Word) (count : Nat) :
    SparesRefs (kernelPipeRead handle buffer count) := by
  intro k
  have hpipes : SameRefs k
      { (pipeRead Kernel.processWakePipeWaiter k.pipes k handle (buffer != 0) count).state with
        pipes := (pipeRead Kernel.processWakePipeWaiter k.pipes k handle (buffer != 0) count).pipes } := by
    rcases pipeRead_cases Kernel.processWakePipeWaiter k.pipes k handle (buffer != 0) count with
      ⟨⟨hp, -, hs⟩, -⟩ | ⟨i, n, -, -, -, -, -, -, hp, hs⟩
    · rw [hp, hs]
      exact .refl k
    · rw [hs, hp]
      have hframe := (k.pipes i).take_frame n
      exact .of_pipe (schedulerRan_wake _ _ _ k) (congrArg Pipe.used hframe :)
        (congrArg Pipe.readers hframe :) (congrArg Pipe.writers hframe :)
  exact hpipes.trans (.of_procs rfl rfl rfl)

/-- So does a write. -/
theorem sparesRefs_kernelPipeWrite (handle : Int) (buffer : Word) (count : Nat) :
    SparesRefs (kernelPipeWrite handle buffer count) := by
  intro k
  have hpipes (bytes : Option (Nat → UInt8)) : SameRefs k
      { (pipeWrite Kernel.processWakePipeWaiter k.pipes k handle bytes count).state with
        pipes := (pipeWrite Kernel.processWakePipeWaiter k.pipes k handle bytes count).pipes } := by
    rcases pipeWrite_cases Kernel.processWakePipeWaiter k.pipes k handle bytes count with
      ⟨⟨hp, hs⟩, -⟩ | ⟨i, n, -, -, -, -, -, -, -, hp, hs⟩
    · rw [hp, hs]
      exact .refl k
    · rw [hs, hp]
      obtain ⟨-, -, hreaders, hwriters, hused⟩ :=
        (k.pipes i).put_frame ((List.range n).map (bytes.getD fun _ => 0))
      exact .of_pipe (schedulerRan_wake _ _ _ k) hused hreaders hwriters
  exact hpipes _

/-! ### Exit, waiting, blocking -/

/-- A signal is sent. -/
theorem sparesRefs_processSendSignal (proc : Slot) (signum : Nat) :
    SparesRefs (processSendSignal proc signum) := by
  unfold processSendSignal
  refine .getProc_bind fun p => .ite (.pure _) (.bind ?_ fun _ => .pure _)
  exact SparesRefs.modifyProc (fun _ => rfl) fun _ => id

/-- A parent that waits is handed the status, and woken. -/
theorem sparesRefs_handToWaiter (proc parent : Slot) : SparesRefs (handToWaiter proc parent) := by
  unfold handToWaiter
  refine .getProc_bind fun p => .getProc_bind fun q => .ite ?_ (.pure _)
  refine .bind (SparesRefs.modifyProc (fun _ => rfl) fun _ => id) fun _ => ?_
  refine .bind (.runIf (SparesRefs.setFrame _ _)) fun _ => ?_
  refine .bind (SparesRefs.modifyProc (fun _ => rfl) fun _ => id) fun _ => ?_
  exact SparesRefs.onScheduler fun s => .schedulerWake s parent

/-- The family of a process that ends is told. -/
theorem sparesRefs_tellFamily (proc : Slot) : SparesRefs (tellFamily proc) := by
  have hwaited : SparesRefs (modifyProc proc fun p => { p with waited := true }) :=
    .modifyProc (fun _ => rfl) fun _ => id
  unfold tellFamily
  refine .getProc_bind fun p => .bind (.modify fun k => ?_) fun _ => ?_
  · refine ⟨⟨fun q => ?_, fun q => ?_⟩, fun o => by cases o <;> rfl, fun _ => rfl, fun _ => rfl⟩
    · unfold Kernel.orphanChildren
      dsimp only
      split <;> rfl
    · unfold Kernel.orphanChildren
      dsimp only
      split <;> exact id
  refine .getProc_bind fun p => .get_bind fun k => ?_
  split
  · exact hwaited
  · refine .ite hwaited (.bind (sparesRefs_processSendSignal _ _) fun _ => ?_)
    exact sparesRefs_handToWaiter _ _

/-- A process that ends closes its descriptors. -/
theorem balances_processMarkExit (proc : Slot) (exitCode : Word) :
    Keeps Balanced (processMarkExit proc exitCode) := by
  have hremove : SparesRefs (onScheduler (·.schedulerRemove proc)) :=
    .onScheduler fun s => .schedulerRemove s proc
  have hcode : SparesRefs (modifyProc proc fun p =>
      { p with exitCode := if exitCode.msb then exitCode else exitCode &&& 0xFF, exited := true }) :=
    .modifyProc (fun _ => rfl) fun _ => id
  have hzombie : SparesRefs (modifyProc proc fun p =>
      { p with state := .zombie, blockReason := .none }) :=
    .modifyProc (fun _ => rfl) fun _ => nofun
  intro k h
  unfold processMarkExit
  rw [run_bind, run_getProc, run_ite]
  split
  · exact h
  refine Keeps.bind ?_ (fun _ => (sparesRefs_tellFamily proc).balances) k h
  unfold endProcess
  refine .bind hremove.balances fun _ => .bind hcode.balances fun _ => .bind ?_ fun _ => hzombie.balances
  exact fun k h => (counted_processFdCloseAll h proc).1

/-- `free_stack` -/
theorem sameRefs_freeStack (k : Kernel) (stack : Word) : SameRefs k (k.freeStack stack) := by
  unfold Kernel.freeStack
  dsimp only
  split
  · exact .refl k
  · split
    · exact .of_procs rfl rfl rfl
    · exact .refl k

/-- A process that is destroyed has no descriptor left. -/
theorem balances_processDestroy (proc : Slot) : Keeps Balanced (processDestroy proc) := by
  intro k h
  unfold processDestroy
  rw [run_bind, run_getProc, run_ite]
  split
  · exact h
  obtain ⟨hcounted, -, hnone⟩ := counted_processFdCloseAll h proc
  rw [run_bind, run_bind, run_onMemory, run_bind, run_modify, run_bind, run_modifyProc,
    run_setProcessCount]
  dsimp only
  generalize (processFdCloseAll proc k).2 = k₁ at hcounted hnone
  have hmem : SameRefs k₁ (k₁.withMem (k₁.mem.pagingDestroyAddressSpace (k.procs proc).cr3)) :=
    .of_procs rfl rfl rfl
  have hfree := hmem.trans (sameRefs_freeStack _ (k.procs proc).kernelStack)
  have hnone' (fd : Fin processMaxFds) : ((k₁.withMem (k₁.mem.pagingDestroyAddressSpace
      (k.procs proc).cr3)).freeStack (k.procs proc).kernelStack).held (proc, fd) = none := by
    rw [hfree.held, hnone]
  exact ((hcounted.same hfree).vacant hnone' fun fd => rfl).same (.of_procs rfl rfl rfl)

/-! ### System calls -/

/-- A process is blocked on a pipe; it keeps its descriptors. -/
theorem sparesRefs_blockOnPipe (proc : Slot) (frame : Word) (reason : BlockReason)
    (fd buffer count : Word) : SparesRefs (blockOnPipe proc frame reason fd buffer count) := by
  unfold blockOnPipe
  refine .bind (SparesRefs.modifyProc (fun _ => rfl) fun _ => id) fun _ => ?_
  refine .bind (SparesRefs.callScheduler fun s => .schedulerBlockCurrent s frame) fun esp => ?_
  refine .ite (.bind ?_ fun _ => .pure _) (.pure _)
  exact SparesRefs.modifyProc (fun _ => rfl) fun _ => id

/-- A process is blocked on a child. -/
theorem sparesRefs_blockOnChild (proc : Slot) (frame : Word) : SparesRefs (blockOnChild proc frame) := by
  unfold blockOnChild
  refine .bind (SparesRefs.callScheduler fun s => .schedulerBlockCurrent s frame) fun esp => ?_
  refine .ite (.bind ?_ fun _ => .pure _) (.pure _)
  exact SparesRefs.modifyProc (fun _ => rfl) fun _ => id

/-- The current process runs. -/
theorem state_of_processGetCurrent (h : k.processGetCurrent = some c) :
    (k.procs c).state = .running := by
  simpa using List.find?_some h

/-- A new descriptor, or the file is closed again. -/
theorem balances_syscallOpen (pathPtr flags callerCs : Word) :
    Keeps Balanced (syscallOpen pathPtr flags callerCs) := by
  unfold syscallOpen
  refine .ite .pure (.ite .pure (.get_bind fun k h => ?_))
  rcases hcurrent : k.processGetCurrent with _ | current
  · exact h
  dsimp only
  rcases k.copyStringFromUser pathPtr vfsMaxPath with _ | path
  · exact h
  dsimp only
  rw [run_bind]
  rcases counted_vfsOpen h (some path) (vfsFlagsOf flags) with ⟨e, herror, hsame⟩ |
    ⟨fd, hok, hfds, hcounted⟩
  · rw [herror]
    exact h.same hsame
  rw [hok]
  dsimp only
  have hlives : ((callVfs (Vfs.vfsOpen (some path) (vfsFlagsOf flags)) k).2.procs current).state ≠ .dead := by
    intro hd
    have := hfds.dead current hd
    rw [state_of_processGetCurrent hcurrent] at this
    cases this
  generalize (callVfs (Vfs.vfsOpen (some path) (vfsFlagsOf flags)) k).2 = k₁ at hcounted hlives
  rw [run_bind]
  rcases counted_processFdInstall hcounted hlives
      (if test flags sysOCloexec then processFdCloexec else 0) with ⟨hneg, hk₁⟩ | ⟨hpos, hbalanced⟩
  · rw [run_ite, if_pos hneg, run_bind, hk₁]
    exact (counted_vfsClose hcounted).2
  · rw [run_ite, if_neg (not_lt.mpr hpos)]
    exact hbalanced

/-- A read from a file moves the offset of the open file. -/
theorem sparesRefs_kernelVfsRead (handle : Int) (buffer count : Word) :
    SparesRefs (kernelVfsRead handle buffer count) := by
  unfold kernelVfsRead
  refine .bind (SparesRefs.callVfs (Vfs.within_vfsRead _ _ _)) fun r => ?_
  split
  · exact .pure _
  · exact .bind (.modify fun _ => .of_procs rfl rfl rfl) fun _ => .pure _

/-- So does a write. -/
theorem sparesRefs_kernelVfsWrite (handle : Int) (buffer count : Word) :
    SparesRefs (kernelVfsWrite handle buffer count) := by
  unfold kernelVfsWrite
  refine .get_bind fun k => .bind (SparesRefs.callVfs (Vfs.within_vfsWrite _ _ _)) fun r => ?_
  split <;> exact .pure _

/-- **`SYS_READ`** -/
theorem sparesRefs_syscallRead (fd buffer count callerCs frame : Word) :
    SparesRefs (syscallRead fd buffer count callerCs frame) := by
  unfold syscallRead
  refine .ite (.pure _) (.bind (.ite (.pure _) (sparesRefs_isUserPointerWritable _ _)) fun w => ?_)
  refine .ite (.pure _) (.get_bind fun k => ?_)
  split
  · exact .pure _
  refine .ite (.bind (sparesRefs_kernelVfsRead _ _ _) fun _ => .pure _) (.ite (.pure _) ?_)
  refine .bind (sparesRefs_kernelPipeRead _ _ _) fun status => .ite (.pure _) ?_
  exact sparesRefs_blockOnPipe _ _ _ _ _ _

/-- **`SYS_WRITE`** -/
theorem sparesRefs_syscallWrite (fd buffer count callerCs frame : Word) :
    SparesRefs (syscallWrite fd buffer count callerCs frame) := by
  unfold syscallWrite
  refine .ite (.pure _) (.get_bind fun k => .ite (.pure _) ?_)
  split
  · exact .pure _
  refine .ite (.bind (sparesRefs_kernelVfsWrite _ _ _) fun _ => .pure _) (.ite (.pure _) ?_)
  refine .bind (sparesRefs_kernelPipeWrite _ _ _) fun status => .ite (.pure _) (.ite (.pure _) ?_)
  exact sparesRefs_blockOnPipe _ _ _ _ _ _

/-- A descriptor is closed, and what it named is dropped. -/
theorem balances_processFdClose (proc : Slot) (fd : Int) : Keeps Balanced (processFdClose proc fd) :=
  fun _ h => (counted_processFdClose h proc fd).1

/-- **`SYS_CLOSE`** -/
theorem balances_syscallClose (fd callerCs : Word) : Keeps Balanced (syscallClose fd callerCs) := by
  unfold syscallClose
  refine .ite .pure (.get_bind fun k h => ?_)
  rcases k.processGetCurrent with _ | current
  · exact h
  · exact balances_processFdClose current fd.toInt k h

/-- **`SYS_STAT`** -/
theorem sparesRefs_syscallStat (pathPtr statPtr callerCs : Word) :
    SparesRefs (syscallStat pathPtr statPtr callerCs) := by
  unfold syscallStat
  refine .ite (.pure _) (.bind (sparesRefs_isUserPointerWritable _ _) fun w => .ite (.pure _) ?_)
  refine .get_bind fun k => ?_
  split
  · exact .pure _
  · refine .bind (SparesRefs.callVfs (Vfs.within_vfsStat _ _)) fun r => ?_
    split
    · exact .pure _
    · exact .bind (sparesRefs_copyToUser _ _) fun _ => .pure _

/-- A new pipe has a descriptor for each end, or none: what has been made is taken back. -/
theorem balances_syscallPipe (readOut writeOut callerCs : Word) :
    Keeps Balanced (syscallPipe readOut writeOut callerCs) := by
  unfold syscallPipe
  refine .ite .pure (.get_bind fun k h => ?_)
  rcases hcurrent : k.processGetCurrent with _ | current
  · exact h
  have hlives : (k.procs current).state ≠ .dead := by
    rw [state_of_processGetCurrent hcurrent]
    nofun
  dsimp only
  -- the checks of the two pointers
  have hreadable : SparesRefs (if readOut = 0 then pure false else isUserPointerWritable readOut 4) :=
    .ite (.pure _) (sparesRefs_isUserPointerWritable _ _)
  have hsame := hreadable k
  rw [run_bind]
  generalize (if readOut = 0 then pure false else isUserPointerWritable readOut 4 : KernelM Bool) k = r
    at hsame
  have hwritable : SparesRefs (if !r.1 || writeOut = 0 then pure false
      else isUserPointerWritable writeOut 4) := .ite (.pure _) (sparesRefs_isUserPointerWritable _ _)
  have hsame₂ := hsame.trans (hwritable r.2)
  rw [run_bind]
  generalize (if !r.1 || writeOut = 0 then pure false
    else isUserPointerWritable writeOut 4 : KernelM Bool) r.2 = w at hsame₂
  have h₂ := h.same hsame₂
  have hlives₂ : (w.2.procs current).state ≠ .dead := fun hd => hlives (hsame₂.dead _ hd)
  rw [run_ite]
  split
  · exact h₂
  -- the pipe
  rw [run_bind]
  rcases counted_kernelPipeCreate h₂ with ⟨e, herror⟩ | ⟨i, hok, hfds, h₃⟩
  · rw [herror]
    exact h₂
  rw [hok]
  dsimp only
  have hlives₃ : ((kernelPipeCreate w.2).2.procs current).state ≠ .dead :=
    fun hd => hlives₂ (hfds.dead _ hd)
  generalize (kernelPipeCreate w.2).2 = k₃ at h₃ hlives₃
  -- its two descriptors
  have hlives₄ : ((processFdInstallTyped current .pipeRead (pipeReadHandle i) 0 k₃).2.procs
      current).state ≠ .dead := by
    rw [state_processFdInstallTyped]
    exact hlives₃
  rw [run_bind]
  rcases counted_installRead h₃ hlives₃ 0 with ⟨hneg, hk₃⟩ | ⟨hpos, h₄⟩
  · rw [run_ite, if_pos hneg, run_bind, run_bind, run_pure, hk₃]
    dsimp only
    exact counted_closeWrite (counted_closeRead h₃)
  rw [run_ite, if_neg (not_lt.mpr hpos), run_bind]
  rcases counted_installWrite h₄ hlives₄ 0 with ⟨hneg, hk₄⟩ | ⟨hpos, h₅⟩
  · rw [run_ite, if_pos hneg, run_bind, run_bind, run_pure, hk₄]
    dsimp only
    exact counted_closeWrite (counted_processFdClose h₄ _ _).1
  rw [run_ite, if_neg (not_lt.mpr hpos)]
  -- the two numbers for the caller
  refine Keeps.bind (sparesRefs_copyToUser _ _).balances (fun status => .bind ?_ fun status => ?_) _ h₅
  · exact (Rel.ite (.pure _) (sparesRefs_copyToUser _ _)).balances
  · refine .ite ?_ .pure
    exact .bind (balances_processFdClose _ _) fun _ => .bind (balances_processFdClose _ _) fun _ => .pure

/-! ### Waiting -/

/-- A child is reaped; it has no descriptor left. -/
theorem balances_reapChild (child : Slot) : Keeps Balanced (reapChild child) := by
  have hwaited : SparesRefs (modifyProc child fun p => { p with waited := true }) :=
    .modifyProc (fun _ => rfl) fun _ => id
  unfold reapChild
  refine .bind hwaited.balances fun _ => fun k h => ?_
  exact balances_processDestroy child k h

/-- **`SYS_WAIT`** -/
theorem balances_syscallWait (statusPtr callerCs frame : Word) :
    Keeps Balanced (syscallWait statusPtr callerCs frame) := by
  unfold syscallWait
  refine .ite .pure (.get_bind fun k h => ?_)
  rcases k.processGetCurrent with _ | current
  · exact h
  dsimp only
  have hwritable : SparesRefs (if statusPtr = 0 then pure true else isUserPointerWritable statusPtr 4) :=
    .ite (.pure _) (sparesRefs_isUserPointerWritable _ _)
  refine Keeps.bind hwritable.balances (fun w => .ite .pure (.get_bind fun k h => ?_)) k h
  rcases k.processFindExitedChild (k.procs current).pid with _ | child
  · have hbegin : SparesRefs (modifyProc current (·.processBeginWait statusPtr)) :=
      SparesRefs.modifyProc (fun _ => rfl) fun _ => id
    exact (Rel.ite (.pure _) (.bind hbegin fun _ => sparesRefs_blockOnChild _ _)).balances k h
  · refine Keeps.bind (fun k h => ?_) (fun _ => balances_reapChild _) k h
    rw [run_runIf]
    split
    · exact h.same (.of_procs rfl rfl rfl)
    · exact h

/-- **`SYS_WAITPID`** -/
theorem balances_syscallWaitpid (targetPid statusPtr options callerCs frame : Word) :
    Keeps Balanced (syscallWaitpid targetPid statusPtr options callerCs frame) := by
  unfold syscallWaitpid
  refine .ite .pure (.get_bind fun k h => ?_)
  rcases k.processGetCurrent with _ | current
  · exact h
  dsimp only
  have hwritable : SparesRefs (if statusPtr = 0 then pure true else isUserPointerWritable statusPtr 4) :=
    .ite (.pure _) (sparesRefs_isUserPointerWritable _ _)
  refine Keeps.ite .pure (.bind hwritable.balances fun w => .ite .pure (.get_bind fun k h => ?_)) k h
  rcases k.processFindExitedChildByPid (k.procs current).pid targetPid.toNat with _ | child
  · dsimp only
    have hbegin : SparesRefs (modifyProc current (·.processBeginWaitpid statusPtr targetPid.toNat)) :=
      SparesRefs.modifyProc (fun _ => rfl) fun _ => id
    have hmark : SparesRefs (modifyProc current fun p => { p with waitIsWaitpid := true }) :=
      SparesRefs.modifyProc (fun _ => rfl) fun _ => id
    exact (Rel.ite (.pure _) (.ite (.pure _) (.bind hbegin fun _ => .bind hmark fun _ =>
      sparesRefs_blockOnChild _ _))).balances k h
  · have hcopy : SparesRefs (if statusPtr = 0 then pure uaccessSuccess
        else copyToUser statusPtr (wordBytes (k.procs child).encodedStatus)) :=
      .ite (.pure _) (sparesRefs_copyToUser _ _)
    refine Keeps.bind hcopy.balances (fun status => ?_) k h
    exact .ite .pure (balances_reapChild _)

/-- **`SYS_EXIT`** -/
theorem balances_syscallExit (exitCode callerCs frame : Word) :
    Keeps Balanced (syscallExit exitCode callerCs frame) := by
  unfold syscallExit
  refine .ite .pure (.get_bind fun k h => ?_)
  rcases k.processGetCurrent with _ | current
  · exact h
  dsimp only
  have hexit : SparesRefs (callScheduler (·.schedulerExitCurrent frame)) :=
    .callScheduler fun s => .schedulerExitCurrent s frame
  exact Keeps.bind (balances_processMarkExit _ _) (fun _ => .bind hexit.balances fun _ => .pure) k h

/-! ### Fork -/

/-- `allocate_stack` -/
theorem sameRefs_allocateStack (k : Kernel) : SameRefs k k.allocateStack.2 := by
  unfold Kernel.allocateStack
  split
  · exact .refl k
  · exact .of_procs rfl rfl rfl

/-- The entry of a child that has no descriptor is cleared. -/
theorem balanced_abandonChild {child : Slot} (h : Balanced k) (hnone : ∀ fd, k.held (child, fd) = none) :
    Balanced (abandonChild child k).2 := by
  unfold abandonChild
  rw [run_bind, run_getProc, run_bind, run_modify, run_modifyProc]
  have hfree := sameRefs_freeStack k (k.procs child).kernelStack
  have hnone' (fd : Fin processMaxFds) :
      (k.freeStack (k.procs child).kernelStack).held (child, fd) = none := by
    rw [hfree.held, hnone]
  exact (h.same hfree).vacant (f := fun _ => Process.zero) hnone' fun _ => rfl

/-- The child gets the descriptors of its parent, each with a reference, or none. -/
theorem balanced_forkInto {child : Slot} (parent : Slot) (parentFrame childCr3 : Word) (h : Balanced k)
    (hnone : ∀ fd, k.held (child, fd) = none) :
    Balanced (forkInto child parent parentFrame childCr3 k).2 := by
  unfold forkInto
  rw [run_bind, run_getProc, run_bind, run_modify, run_bind, run_getProc, run_bind, run_takePid,
    run_bind, run_modifyProc]
  dsimp only
  generalize hk₁ : ({ k.setFrame _ _ with nextPid := _ } : Kernel) = k₁
  have hsame₁ : SameRefs k k₁ := by
    subst hk₁
    exact .of_procs rfl rfl rfl
  generalize ((k.setFrame _ _).procs parent) = q
  generalize (k.setFrame _ _).nextPid = pid
  generalize (k.procs child).kernelStack + BitVec.ofNat 32 (kernelStackSize - frameBytes) = childFrame
  have hsame₂ : SameRefs k₁ (k₁.setProc child (·.forked q pid childFrame childCr3)) :=
    .setProc rfl nofun
  have hlives : ((k₁.setProc child (·.forked q pid childFrame childCr3)).procs child).state ≠ .dead := by
    rw [Kernel.setProc_self]
    nofun
  generalize k₁.setProc child (·.forked q pid childFrame childCr3) = k₂ at hsame₂ hlives
  have hsame := hsame₁.trans hsame₂
  have hnone₂ (fd : Fin processMaxFds) : k₂.held (child, fd) = none := by
    rw [hsame.held, hnone]
  obtain ⟨h₃, -, hfailed⟩ := @counted_inheritFds _ _ child parent (h.same hsame) hlives
    (List.finRange processMaxFds) (List.nodup_finRange _) fun fd _ => hnone₂ fd
  rw [run_bind, run_ite]
  split
  · rename_i hstatus
    have hnone₃ := hfailed hstatus
    rw [run_bind, run_onMemory, run_bind, run_pure]
    dsimp only
    exact balanced_abandonChild (h₃.same (.of_procs rfl rfl rfl)) hnone₃
  · have hmark : SparesRefs (modifyProc parent fun p => { p with interruptFrame := true }) :=
      .modifyProc (fun _ => rfl) fun _ => id
    have hcount : SparesRefs (setProcessCount fun n => (n + 1) % wordSize) :=
      fun _ => .of_procs rfl rfl rfl
    exact Keeps.bind hmark.balances (fun _ => .bind hcount.balances fun _ => .pure) _ h₃

/-- `process_fork`, whichever of its steps fails. -/
theorem balances_processFork (parent : Slot) (parentFrame : Word) :
    Keeps Balanced (processFork parent parentFrame) := by
  unfold processFork
  refine .get_bind fun k h => ?_
  rw [run_ite]
  split
  · exact h
  rcases hfind : k.findDead with _ | child
  · exact h
  have hdead : (k.procs child).state = .dead := by simpa using List.find?_some hfind
  dsimp only
  have hnone := h.dead child hdead
  have h₁ : Balanced (k.setProc child fun _ => Process.zero.processFdTableInit) :=
    h.vacant hnone fun _ => rfl
  have hnone₁ (fd : Fin processMaxFds) :
      (k.setProc child fun _ => Process.zero.processFdTableInit).held (child, fd) = none := by
    unfold Kernel.held
    rw [Kernel.setProc_self]
    rfl
  rw [run_bind, run_modifyProc]
  generalize k.setProc child _ = k₁ at h₁ hnone₁
  have hstack := sameRefs_allocateStack k₁
  rw [run_bind, run_callAllocateStack, run_bind, run_modifyProc]
  dsimp only
  generalize k₁.allocateStack = stack at hstack
  have hown : SameRefs stack.2 (stack.2.setProc child fun p => { p with kernelStack := stack.1 }) :=
    .setProc rfl id
  have hsame := hstack.trans hown
  generalize stack.2.setProc child _ = k₂ at hsame
  have h₂ := h₁.same hsame
  have hnone₂ (fd : Fin processMaxFds) : k₂.held (child, fd) = none := by
    rw [hsame.held, hnone₁]
  rw [run_ite]
  split
  · exact h₂
  rw [run_bind, run_getProc, run_bind, run_callMemory]
  dsimp only
  have hclone : SameRefs k₂ (k₂.withMem (k₂.mem.pagingCloneDirectory (k₂.procs parent).cr3).2) :=
    .of_procs rfl rfl rfl
  generalize k₂.mem.pagingCloneDirectory (k₂.procs parent).cr3 = r at hclone
  have hnone₃ (fd : Fin processMaxFds) : (k₂.withMem r.2).held (child, fd) = none := by
    rw [hclone.held, hnone₂]
  rw [run_ite]
  split
  · rw [run_bind, run_pure]
    exact balanced_abandonChild (h₂.same hclone) hnone₃
  · exact balanced_forkInto parent parentFrame r.1 (h₂.same hclone) hnone₃

/-- **`SYS_FORK`** -/
theorem balances_syscallFork (callerCs frame : Word) : Keeps Balanced (syscallFork callerCs frame) := by
  unfold syscallFork
  refine .ite .pure (.get_bind fun k h => ?_)
  rcases k.processGetCurrent with _ | current
  · exact h
  dsimp only
  refine Keeps.bind (balances_processFork _ _) (fun r => ?_) k h
  rcases r with _ | child
  · exact .pure
  · have hadd : SparesRefs (onScheduler (·.schedulerAdd child)) :=
      .onScheduler fun s => .enqueue s child
    exact .bind hadd.balances fun _ => fun k h => h

/-! ### Exec -/

/-- The loader closes the file that it opens. -/
theorem sameTable_readFileIntoBuffer {v : Vfs} (path : CString)
    (hv : ∀ i, (v.vfsOpenFiles i).used = true ↔ 0 < (v.vfsOpenFiles i).refCount) :
    v.SameTable (readFileIntoBuffer path v).2 := by
  unfold readFileIntoBuffer
  rw [StM.run_attempt_bind]
  have hstat := Vfs.within_vfsStat (some path) true v
  generalize Vfs.vfsStat (some path) true v = stat at hstat
  obtain ⟨e | stat, v₁⟩ := stat
  · exact hstat
  dsimp only at hstat ⊢
  split
  · exact hstat
  rw [StM.run_attempt_bind]
  rcases Vfs.vfsOpen_cases (some path) vfsORdonly v₁ with ⟨e, herror, htable⟩ |
    ⟨fd, file, hok, hunused, hused, hone, htable⟩
  · rw [herror]
    exact hstat.trans htable
  rw [hok]
  dsimp only
  generalize (Vfs.vfsOpen (some path) vfsORdonly v₁).2 = v₂ at htable
  -- whatever the reads do, the close frees the entry
  have hclose (v₃ : Vfs) (hread : v₂.SameTable v₃) :
      v₁.SameTable (Vfs.vfsClose (fd.val : Int) v₃).2 := by
    have hfd : (v₃.vfsOpenFiles fd).used = true ∧ (v₃.vfsOpenFiles fd).refCount = 1 := by
      rw [hread.used, hread.refCount, htable, update_self]
      exact ⟨hused, hone⟩
    obtain ⟨file', hcount, hfree, htable'⟩ := Vfs.vfsClose_file hfd.1 (by omega)
    have hzero : file'.refCount = 0 := by omega
    have hfree' : file'.used = false := by
      rw [hzero] at hfree
      simpa using hfree
    have hempty : (v₁.vfsOpenFiles fd).refCount = 0 := by
      have := hv fd
      rw [← hstat.used, ← hstat.refCount, hunused] at this
      simpa using this
    constructor <;> intro i <;> rw [htable'] <;> by_cases hi : i = fd
    · rw [hi, update_self, hfree', hunused]
    · rw [update_of_ne hi, hread.used, htable, update_of_ne hi]
    · rw [hi, update_self, hzero, hempty]
    · rw [update_of_ne hi, hread.refCount, htable, update_of_ne hi]
  have hloop (n : Nat) (done : List Byte) :
      StM.Within Vfs.SameTable (readFileLoop (fd.val : Int) stat.size n done) := by
    induction n generalizing done with
    | zero => exact .pure _
    | succ n ih =>
      unfold readFileLoop
      exact .ite (.bind (Vfs.within_vfsRead _ _ _) fun bytes => .ite (.fail _) (ih _)) (.pure _)
  have hread := hloop stat.size [] v₂
  rw [StM.run_attempt_bind]
  generalize readFileLoop (fd.val : Int) stat.size stat.size [] v₂ = r at hread
  have hclosed := hstat.trans (hclose r.2 hread)
  obtain ⟨e | bytes, v₃⟩ := r
  · exact hclosed
  · dsimp only at hclosed ⊢
    rw [StM.run_attempt_bind]
    generalize Vfs.vfsClose (fd.val : Int) v₃ = closed at hclosed
    obtain ⟨e | _, v₄⟩ := closed
    · exact hclosed
    · dsimp only
      split <;> exact hclosed

/-- The loader opens the file, and closes it again. -/
theorem balances_elfLoadFromVfs (path : CString) : Keeps Balanced (elfLoadFromVfs path) := by
  unfold elfLoadFromVfs
  refine .bind (fun k h => ?_) fun r => ?_
  · exact h.same (.callVfs (sameTable_readFileIntoBuffer path h.tables.file))
  · split
    · exact .pure
    · split
      · exact .pure
      · exact .bind (SparesRefs.callMemory _).balances fun _ => .pure

/-- So it does in another address space. -/
theorem balances_elfLoadFromVfsInto (cr3 : Word) (path : CString) :
    Keeps Balanced (elfLoadFromVfsInto cr3 path) := by
  unfold elfLoadFromVfsInto
  refine .ite .pure (.get_bind fun k h => ?_)
  refine Keeps.bind (SparesRefs.onMemory _).balances (fun _ => ?_) k h
  refine .bind (balances_elfLoadFromVfs path) fun _ => ?_
  exact .bind (SparesRefs.onMemory _).balances fun _ => .pure

/-- The stack of a new image is built in memory. -/
theorem sparesRefs_execStack (newCr3 : Word) (vectors : ExecVectors) :
    SparesRefs (execStack newCr3 vectors) := by
  unfold execStack
  refine .bind (SparesRefs.callMemory _) fun stackPhys => .ite ?_ ?_
  · exact .bind (SparesRefs.onMemory _) fun _ => .pure _
  refine .get_bind fun k => .bind (.ite (.pure _) (SparesRefs.callMemory _)) fun mapped => .ite ?_ ?_
  · exact .bind (SparesRefs.onMemory _) fun _ => .bind (SparesRefs.onMemory _) fun _ => .pure _
  · refine .bind (SparesRefs.callMemory _) fun r => ?_
    split
    · exact .bind (SparesRefs.onMemory _) fun _ => .pure _
    · exact .pure _

/-- The image is built: the loader has read the file. -/
theorem balances_execImage (path : CString) (vectors : ExecVectors) :
    Keeps Balanced (execImage path vectors) := by
  unfold execImage
  refine .bind (SparesRefs.callMemory _).balances fun newCr3 => ?_
  refine .ite .pure (.bind (balances_elfLoadFromVfsInto _ _) fun r => ?_)
  split
  · exact .bind (SparesRefs.onMemory _).balances fun _ => .pure
  · refine .bind (sparesRefs_execStack _ _).balances fun r => ?_
    split <;> exact .pure

/-- `kfree` -/
theorem sparesRefs_callKfree (ptr : Option Nat) : SparesRefs (callKfree ptr) :=
  fun _ => .of_procs rfl rfl rfl

/-- The new image keeps the descriptors but for those that are closed on exec. -/
theorem balances_execCommit (proc : Slot) (frame newCr3 sp entry : Word) (vectors : Option Nat) :
    Keeps Balanced (execCommit proc frame newCr3 sp entry vectors) := by
  have hclose : Keeps Balanced (processFdCloseOnExec proc) :=
    fun _ h => (counted_processFdCloseOnExec h proc).1
  have himage : SparesRefs (modifyProc proc fun p =>
      { p with
        cr3 := newCr3
        heapStart := processHeapStart
        heapEnd := processHeapStart
        interruptFrame := true }) := .modifyProc (fun _ => rfl) fun _ => id
  unfold execCommit
  refine .getProc_bind fun p => .bind hclose fun _ => .bind himage.balances fun _ => ?_
  refine .bind (sparesRefs_callKfree _).balances fun _ => ?_
  refine .bind (SparesRefs.onMemory _).balances fun _ => ?_
  exact .bind (SparesRefs.onMemory _).balances fun _ => (SparesRefs.setFrame _ _).balances

/-- **`SYS_EXEC`**, whether it commits or not. -/
theorem balances_syscallExec (pathPtr argvPtr envpPtr callerCs frame : Word) :
    Keeps Balanced (syscallExec pathPtr argvPtr envpPtr callerCs frame) := by
  have hkmalloc : SparesRefs (callKmalloc execVectorsBytes) := fun _ => .of_procs rfl rfl rfl
  have hgiveUp (block : Option Nat) (status : Word) : Keeps Balanced (do
      callKfree block
      return status : KernelM Word) := .bind (sparesRefs_callKfree block).balances fun _ => .pure
  unfold syscallExec
  refine .ite .pure (.get_bind fun k h => ?_)
  rcases k.processGetCurrent with _ | current
  · exact h
  dsimp only
  rcases (if k.uaccessReadable pathPtr 1 then k.copyStringFromUser pathPtr vfsMaxPath else none) with
    _ | path
  · exact h
  dsimp only
  refine Keeps.bind hkmalloc.balances (fun block => ?_) k h
  rcases block with _ | block
  · exact .pure
  refine .get_bind fun k h => ?_
  rcases k.execCopyVector ExecVectors.zero argvPtr false with status | vectors
  · exact hgiveUp _ _ k h
  dsimp only
  rcases k.execCopyVector vectors envpPtr true with status | vectors
  · exact hgiveUp _ _ k h
  dsimp only
  refine Keeps.bind (balances_execImage _ _) (fun image => ?_) k h
  rcases image with status | ⟨newCr3, entry, sp⟩
  · exact hgiveUp _ _
  · exact .bind (balances_execCommit _ _ _ _ _ _) fun _ => .pure

/-! ### The handlers -/

/-- **`SYS_KILL`** -/
theorem sparesRefs_syscallKill (pid signum callerCs : Word) :
    SparesRefs (syscallKill pid signum callerCs) := by
  unfold syscallKill
  refine .ite (.pure _) (.get_bind fun k => ?_)
  split
  · exact .pure _
  · exact .ite (.pure _) (.bind (sparesRefs_processSendSignal _ _) fun _ => .pure _)

/-- **`SYS_BRK`** -/
theorem sparesRefs_syscallBrk (requestedBrk callerCs : Word) :
    SparesRefs (syscallBrk requestedBrk callerCs) := by
  unfold syscallBrk
  refine .ite (.pure _) (.get_bind fun k => ?_)
  split
  · exact .pure _
  refine .ite (.pure _) (.bind (SparesRefs.onMemory _) fun _ => ?_)
  exact .bind (SparesRefs.modifyProc (fun _ => rfl) fun _ => id) fun _ => .pure _

/-- **`SYS_GETCHAR`** -/
theorem sparesRefs_syscallGetchar (callerCs : Word) : SparesRefs (syscallGetchar callerCs) := by
  unfold syscallGetchar
  refine .ite (.pure _) fun k => ?_
  rcases hk : k.keyBuffer with _ | ⟨c, rest⟩
  · simp only [run_bind, run_get, hk]
    exact SameRefs.refl k
  · simp only [run_bind, run_get, hk]
    exact SameRefs.of_procs rfl rfl rfl

/-- The calls that read a field of the current process. -/
theorem sparesRefs_currentField (f : Process → Word) (absent callerCs : Word) :
    SparesRefs (currentField f absent callerCs) := by
  unfold currentField
  refine .ite (.pure _) (.get_bind fun k => ?_)
  split <;> exact .pure _

/-- Every system call ends with nothing in hand. -/
theorem balances_syscallHandle (frame : Word) : Keeps Balanced (syscallHandle frame) := by
  have hreplying {call : KernelM Word} (h : Keeps Balanced call) : Keeps Balanced (replying call) :=
    .bind h fun _ => .pure
  have hswitching {call : KernelM SyscallResult} (h : Keeps Balanced call) :
      Keeps Balanced (switching call) := .bind h fun _ => .pure
  have hspares {call : KernelM Word} (h : SparesRefs call) : Keeps Balanced (replying call) :=
    hreplying h.balances
  have hyield (cs : Word) : Keeps Balanced (replying (pure
      (if isRing3 cs then syscallSuccess else syscallEperm))) := hspares (.pure _)
  have hecho (f : InterruptFrame) : Keeps Balanced (replying (pure
      (if isRing3 f.cs then f.ebx else syscallEperm))) := hspares (.pure _)
  unfold syscallHandle
  refine .get_bind fun k h => ?_
  have hyield := hyield (k.frameAt frame).cs k h
  have hecho := hecho (k.frameAt frame) k h
  generalize (if isRing3 (k.frameAt frame).cs then syscallSuccess else syscallEperm) = yielded at hyield
  generalize (if isRing3 (k.frameAt frame).cs then (k.frameAt frame).ebx else syscallEperm) = echo
    at hecho
  generalize (k.frameAt frame).eax.toNat = number
  split
  · exact hspares (.ite (.pure _) (.get_bind fun _ => .pure _)) k h
  · exact Keeps.bind (sparesRefs_syscallGetchar _).balances (fun _ => .pure) k h
  · exact hyield
  · exact hspares (.ite (.pure _) (.get_bind fun _ => .pure _)) k h
  · exact hecho
  · exact hreplying (balances_syscallOpen _ _ _) k h
  · exact hswitching (sparesRefs_syscallRead _ _ _ _ _).balances k h
  · exact hswitching (sparesRefs_syscallWrite _ _ _ _ _).balances k h
  · exact hreplying (balances_syscallClose _ _) k h
  · exact hspares (sparesRefs_syscallStat _ _ _) k h
  · exact hspares (sparesRefs_currentField _ _ _) k h
  · exact hswitching (balances_syscallExit _ _ _) k h
  · exact hswitching (balances_syscallWait _ _ _) k h
  · exact hreplying (balances_syscallFork _ _) k h
  · exact hreplying (balances_syscallExec _ _ _ _ _) k h
  · exact hspares (sparesRefs_syscallBrk _ _) k h
  · exact hswitching (balances_syscallWaitpid _ _ _ _ _) k h
  · exact hspares (sparesRefs_syscallKill _ _ _) k h
  · exact hspares (sparesRefs_currentField _ _ _) k h
  · exact hreplying (balances_syscallPipe _ _ _) k h
  · exact hspares (.pure _) k h

/-- The current process gets an interrupt frame. -/
theorem sameRefs_markCurrentFrame (k : Kernel) : SameRefs k k.markCurrentFrame := by
  unfold Kernel.markCurrentFrame
  split
  · exact .refl k
  · exact .setProc rfl id

/-- A process that dies of a signal closes its descriptors. -/
theorem balances_dieOfSignal (current : Slot) (signum : Nat) (frameEsp : Word) :
    Keeps Balanced (dieOfSignal current signum frameEsp) := by
  have hkilled : SparesRefs (modifyProc current fun p =>
      { p with
        pendingSignals := p.pendingSignals &&& ~~~signalBit signum
        killedBySignal := BitVec.ofNat 32 signum }) := .modifyProc (fun _ => rfl) fun _ => id
  have hexit : SparesRefs (callScheduler (·.schedulerExitCurrent frameEsp)) :=
    .callScheduler fun s => .schedulerExitCurrent s frameEsp
  unfold dieOfSignal
  exact .bind hkilled.balances fun _ => .bind (balances_processMarkExit _ _) fun _ => hexit.balances

/-- Every round of the loop keeps the counts. -/
theorem balanced_processDeliverSignals {fuel : Nat} {frame : Word} {r : Word × Kernel}
    (h : Balanced k) (hrun : processDeliverSignals fuel frame k = some r) : Balanced r.2 := by
  induction fuel generalizing frame k with
  | zero => cases hrun
  | succ fuel ih =>
    unfold processDeliverSignals at hrun
    rcases hcurrent : k.processGetCurrent with _ | current
    · rw [hcurrent] at hrun
      obtain rfl := Option.some.inj hrun
      exact h
    rw [hcurrent] at hrun
    dsimp only at hrun
    split at hrun
    · obtain rfl := Option.some.inj hrun
      exact h
    split at hrun
    · exact ih (balances_dieOfSignal current sigKill frame k h) hrun
    split at hrun
    · exact ih (balances_dieOfSignal current sigTerm frame k h) hrun
    split at hrun
    · exact ih (h.same (.setProc rfl id)) hrun
    · obtain rfl := Option.some.inj hrun
      exact h

/-- The handler of system calls, with the delivery of signals. -/
theorem balanced_syscallDispatch {fuel : Nat} {frame : Word} {r : Word × Kernel} (h : Balanced k)
    (hrun : syscallDispatch fuel frame k = some r) : Balanced r.2 := by
  have hanswer := balances_syscallHandle frame k.markCurrentFrame (h.same (sameRefs_markCurrentFrame k))
  unfold syscallDispatch at hrun
  split at hrun
  · obtain rfl := Option.some.inj hrun
    exact h
  · generalize syscallHandle frame k.markCurrentFrame = answer at hanswer hrun
    obtain ⟨_ | answer, k₁⟩ := answer
    · cases hrun
    · have heax : SameRefs k₁ (k₁.setFrame frame fun f => { f with eax := answer.result }) :=
        .of_procs rfl rfl rfl
      exact balanced_processDeliverSignals (hanswer.same heax) hrun

/-- The handler of the timer. -/
theorem balanced_timerInterrupt {fuel : Nat} {frame : Word} {r : Word × Kernel} (h : Balanced k)
    (hrun : timerInterrupt fuel frame k = some r) : Balanced r.2 := by
  have hpreempt : SparesRefs (callScheduler (·.schedulerPreempt frame)) :=
    .callScheduler fun s => .schedulerPreempt s frame
  have htick : SameRefs k { k with timerTicks := (k.timerTicks + 1) % wordSize } :=
    .of_procs rfl rfl rfl
  exact balanced_processDeliverSignals (h.same (htick.trans (hpreempt _))) hrun

/-- The handler of page faults. -/
theorem balanced_pageFaultDispatch {frame errorCode faultAddr : Word} (h : Balanced k) :
    Balanced (pageFaultDispatch frame errorCode faultAddr k).2 := by
  unfold pageFaultDispatch
  split
  · exact h
  rcases k.current with _ | current
  · exact h
  dsimp only
  have hmem : Balanced (k.withMem (k.mem.vmHandlePageFault (k.procs current) faultAddr errorCode).2) :=
    h.same (.of_procs rfl rfl rfl)
  split
  · exact hmem
  · have hexit : SparesRefs (callScheduler (·.schedulerExitCurrent frame)) :=
      .callScheduler fun s => .schedulerExitCurrent s frame
    unfold dieOfFault
    exact Keeps.bind (balances_processMarkExit _ _) (fun _ => hexit.balances) _ hmem

/-- The handler of any trap. -/
theorem balanced_handle {fuel : Nat} {trap : Trap} {r : Word × Kernel} (h : Balanced k)
    (hrun : trap.handle fuel k = some r) : Balanced r.2 := by
  have henter : Balanced (trap.enter k) := h.same (.of_procs rfl rfl rfl)
  cases trap with
  | syscall => exact balanced_syscallDispatch henter hrun
  | timer => exact balanced_timerInterrupt henter hrun
  | pageFault =>
    obtain rfl := Option.some.inj hrun
    exact balanced_pageFaultDispatch henter

/-! ### After a switch -/

/-- A pipe operation is completed. -/
theorem sparesRefs_processCompletePipeIo (proc : Slot) : SparesRefs (processCompletePipeIo proc) := by
  have hpending (p : Process) : SparesRefs (pendingPipeIo p) := by
    unfold pendingPipeIo
    split
    · exact .pure _
    · exact .ite (sparesRefs_kernelPipeRead _ _ _) (.ite (sparesRefs_kernelPipeWrite _ _ _) (.pure _))
  unfold processCompletePipeIo
  refine .getProc_bind fun p => .ite (.bind (hpending p) fun result => ?_) (.pure _)
  refine .bind (.runIf (SparesRefs.setFrame _ _)) fun _ => ?_
  exact SparesRefs.modifyProc (fun _ => rfl) fun _ => id

/-- A wait is completed. -/
theorem sparesRefs_processCompleteWait (proc : Slot) : SparesRefs (processCompleteWait proc) := by
  unfold processCompleteWait
  refine .getProc_bind fun p => .ite ?_ (.pure _)
  refine .bind (.runIf (.bind (sparesRefs_copyToUser _ _) fun _ => .runIf (SparesRefs.setFrame _ _)))
    fun _ => ?_
  exact SparesRefs.modifyProc (fun _ => rfl) fun _ => id

/-- Zombies are destroyed; they have no descriptor left. -/
theorem balances_reapZombies (current : Option Slot) : Keeps Balanced (reapZombies current) := by
  unfold reapZombies
  refine Keeps.forM fun proc _ => Keeps.get_bind fun k h => ?_
  rw [run_ite]
  split
  · exact balances_processDestroy proc k h
  · exact h

/-- What follows a switch. -/
theorem balances_processCompleteContextSwitch : Keeps Balanced processCompleteContextSwitch := by
  intro k h
  unfold processCompleteContextSwitch
  rw [run_bind, run_get]
  rcases k.processGetCurrent with _ | current
  · exact balances_reapZombies none k h
  · dsimp only
    rw [run_bind, run_bind]
    have hwait := (sparesRefs_processCompleteWait current).balances k h
    have hpipe := (sparesRefs_processCompletePipeIo current).balances _ hwait
    exact balances_reapZombies (some current) _ hpipe

/-! ### Runs -/

/-- A new process has no descriptor. -/
theorem balances_createProcess (interruptFrame : Bool) (words : Nat) :
    Keeps Balanced (createProcess interruptFrame words) := by
  unfold createProcess
  refine .get_bind fun k h => ?_
  rw [run_ite]
  split
  · exact h
  rcases hfind : k.findDead with _ | proc
  · exact h
  have hdead : (k.procs proc).state = .dead := by simpa using List.find?_some hfind
  dsimp only
  rw [run_bind, run_takePid, run_bind, run_modifyProc, run_bind, run_callAllocateStack]
  dsimp only
  have hnone := h.dead proc hdead
  have hpid : SameRefs k { k with nextPid := (k.nextPid + 1) % wordSize } := .of_procs rfl rfl rfl
  have h₁ : Balanced (({ k with nextPid := (k.nextPid + 1) % wordSize } : Kernel).setProc proc
      (·.created k.nextPid k.mem.pagingGetCurrentDirectory interruptFrame)) :=
    Kernel.Counted.vacant (h.same hpid) hnone fun _ => rfl
  have hnone₁ (fd : Fin processMaxFds) : (({ k with nextPid := (k.nextPid + 1) % wordSize } : Kernel).setProc
      proc (·.created k.nextPid k.mem.pagingGetCurrentDirectory interruptFrame)).held (proc, fd) = none := by
    unfold Kernel.held
    rw [Kernel.setProc_self]
    rfl
  generalize Kernel.setProc _ proc _ = k₁ at h₁ hnone₁
  have hstack := sameRefs_allocateStack k₁
  generalize k₁.allocateStack = stack at hstack
  have hnone₂ (fd : Fin processMaxFds) : stack.2.held (proc, fd) = none := by
    rw [hstack.held, hnone₁]
  rw [run_ite]
  split
  · exact Kernel.Counted.vacant
      (f := fun p => { p with kernelStack := 0, state := .dead, pid := 0 }) (h₁.same hstack) hnone₂ hnone₂
  · have hplace : SparesRefs (modifyProc proc fun p =>
        { p with
          kernelStack := stack.1
          esp := stack.1 + BitVec.ofNat 32 (kernelStackSize - words * 4) }) :=
      .modifyProc (fun _ => rfl) fun _ => id
    have hcount : SparesRefs (setProcessCount fun n => (n + 1) % wordSize) :=
      fun _ => .of_procs rfl rfl rfl
    exact Keeps.bind hplace.balances (fun _ => .bind hcount.balances fun _ => .pure) _ (h₁.same hstack)

/-- What can happen to a machine between two looks at its descriptors: the handlers of traps and what
follows a switch, each also alone, and what the kernel does with processes itself. -/
inductive FdStep (k : Kernel) : Kernel → Prop
  | handle (fuel : Nat) (trap : Trap) {r : Word × Kernel} (h : trap.handle fuel k = some r) : FdStep k r.2
  | call (frame : Word) : FdStep k (syscallHandle frame k).2
  | signals (fuel : Nat) (frame : Word) {r : Word × Kernel}
      (h : processDeliverSignals fuel frame k = some r) : FdStep k r.2
  | complete : FdStep k (processCompleteContextSwitch k).2
  | store (address : Word) (b : Byte) : FdStep k (k.withMem (k.mem.storeByte address b))
  | key (c : Byte) : FdStep k { k with keyBuffer := k.keyBuffer ++ [c] }
  | create (isUser : Bool) : FdStep k (processCreate isUser k).2
  | createPreemptive : FdStep k (processCreatePreemptive k).2
  | setAddressSpace (proc : Slot) (cr3 : Word) : FdStep k (processSetAddressSpace proc cr3 k).2
  | setCurrent (proc : Slot) : FdStep k (k.onScheduler (·.schedulerSetCurrent proc))
  | setPreemption (enabled : Bool) : FdStep k (k.onScheduler (·.schedulerSetPreemptionEnabled enabled))
  | initScheduler : FdStep k (k.onScheduler (·.schedulerInit))
  | add (proc : Slot) : FdStep k (k.onScheduler (·.schedulerAdd proc))
  | markExit (proc : Slot) (exitCode : Word) : FdStep k (processMarkExit proc exitCode k).2
  | destroy (proc : Slot) : FdStep k (processDestroy proc k).2

/-- The states that are reached from an empty process table, no pipe and no open file. -/
inductive FdRun : Kernel → Prop
  | init (k : Kernel) (hpipes : k.pipes = pipeInit)
      (hfiles : k.vfs.vfsOpenFiles = fun _ => VfsOpenFile.zero) : FdRun (processInit k)
  | step {k k' : Kernel} (h : FdRun k) (hstep : FdStep k k') : FdRun k'

/-- Another process is current. -/
theorem SameRefs.setCurrent (k : Kernel) (proc : Slot) :
    SameRefs k (k.onScheduler (·.schedulerSetCurrent proc)) := by
  have hcurrent : SameRefs k (k.onScheduler ({ · with current := some proc })) := .of_procs rfl rfl rfl
  have hstate : SameRefs (k.onScheduler ({ · with current := some proc }))
      ((k.onScheduler ({ · with current := some proc })).setProc proc fun p =>
        { p with state := .running }) := .setProc rfl nofun
  exact (hcurrent.trans hstate).trans (.of_rescheduled (.switchAddressSpace _ proc) rfl rfl)

/-- Every step keeps the counts. -/
theorem FdStep.balanced (h : Balanced k) (hstep : FdStep k k') : Balanced k' := by
  cases hstep with
  | handle fuel trap hrun => exact balanced_handle h hrun
  | call frame => exact balances_syscallHandle frame k h
  | signals fuel frame hrun => exact balanced_processDeliverSignals h hrun
  | complete => exact balances_processCompleteContextSwitch k h
  | store | key => exact h.same (.of_procs rfl rfl rfl)
  | create | createPreemptive => exact balances_createProcess _ _ k h
  | setAddressSpace proc cr3 =>
    have hset : SparesRefs (processSetAddressSpace proc cr3) := .modifyProc (fun _ => rfl) fun _ => id
    exact hset.balances k h
  | setCurrent proc => exact h.same (.setCurrent k proc)
  | setPreemption | initScheduler => exact h.same (.of_procs rfl rfl rfl)
  | add proc => exact h.same (.of_rescheduled (.enqueue _ proc) rfl rfl)
  | markExit proc exitCode => exact balances_processMarkExit proc exitCode k h
  | destroy proc => exact balances_processDestroy proc k h

/-- With no process there is no descriptor. -/
theorem balanced_processInit (hpipes : k.pipes = pipeInit)
    (hfiles : k.vfs.vfsOpenFiles = fun _ => VfsOpenFile.zero) : Balanced (processInit k) where
  exact := fun o => by
    have hcount : (processInit k).count o = 0 := by
      cases o with
      | file i => exact congrArg (fun t => (t i).refCount) hfiles
      | readEnd i => exact congrArg (fun t => (t i).readers) hpipes
      | writeEnd i => exact congrArg (fun t => (t i).writers) hpipes
    have hnone : holders univ (processInit k).held o.name = 0 :=
      holders_eq_zero_iff.mpr fun s _ => Option.some_ne_none o.name |>.symm
    rw [hcount, hnone, List.count_nil]
  named := fun _ _ => nofun
  tables := by
    constructor
    · intro i
      show (k.vfs.vfsOpenFiles i).used = true ↔ 0 < (k.vfs.vfsOpenFiles i).refCount
      rw [hfiles]
      exact ⟨nofun, nofun⟩
    · intro i
      show (k.pipes i).used = true ↔ 0 < (k.pipes i).readers ∨ 0 < (k.pipes i).writers
      rw [hpipes]
      exact ⟨nofun, fun h => h.elim nofun nofun⟩
  dead := fun _ _ _ => rfl

/-- Every run keeps the counts. -/
theorem FdRun.balanced (h : FdRun k) : Balanced k := by
  induction h with
  | init k hpipes hfiles => exact balanced_processInit hpipes hfiles
  | step _ hstep ih => exact hstep.balanced ih

/-- The machine in ring 3 is one that runs so. -/
theorem ReachableIf.fdRun {ok : Kernel → Event → Prop} (h : ReachableIf ok k) : FdRun k := by
  induction h with
  | boot h =>
    obtain ⟨k₀, create, proc, cr3, preemption, -, hpipes, hfiles, -, hkind, -⟩ := h
    have hinit := (FdRun.init k₀ hpipes hfiles).step .initScheduler
    have hcreate : FdRun (create ((processInit k₀).onScheduler (·.schedulerInit))).2 := by
      rcases hkind with rfl | rfl
      · exact hinit.step (.create true)
      · exact hinit.step .createPreemptive
    exact ((hcreate.step (.setAddressSpace proc cr3)).step (.setCurrent proc)).step (.setPreemption _)
  | step _ _ hstep ih =>
    cases hstep with
    | trap fuel trap _ _ hhandle => exact (ih.step (.handle fuel trap hhandle)).step .complete
    | store address b => exact ih.step (.store address b)
    | key c => exact ih.step (.key c)

/-! ### Exact counts -/

namespace Kernel

/-- The descriptors of processes that have a kind and a handle. -/
def descriptors (k : Kernel) (kind : FdKind) (handle : Int) : Finset (Slot × Fin processMaxFds) :=
  univ.filter fun s => (k.procs s.1).state ≠ .dead ∧ ((k.procs s.1).fds s.2).kind = kind ∧
    ((k.procs s.1).fds s.2).handle = handle

/-- An open file or a pipe is in use iff a descriptor names it, and it counts the descriptors that do. -/
structure DescriptorCountsExact (k : Kernel) : Prop where
  fileUsed : ∀ i : Fin vfsMaxOpenFiles,
    (k.vfs.vfsOpenFiles i).used = true ↔ (k.descriptors .vfs (i.val : Int)).Nonempty
  refCount : ∀ i : Fin vfsMaxOpenFiles,
    (k.vfs.vfsOpenFiles i).refCount = (k.descriptors .vfs (i.val : Int)).card
  pipeUsed : ∀ i, (k.pipes i).used = true ↔
    (k.descriptors .pipeRead (pipeReadHandle i)).Nonempty ∨
      (k.descriptors .pipeWrite (pipeWriteHandle i)).Nonempty
  readers : ∀ i, (k.pipes i).readers = (k.descriptors .pipeRead (pipeReadHandle i)).card
  writers : ∀ i, (k.pipes i).writers = (k.descriptors .pipeWrite (pipeWriteHandle i)).card
  names : ∀ p fd, (k.procs p).state ≠ .dead → ((k.procs p).fds fd).kind ≠ .none →
    (∃ i : Fin vfsMaxOpenFiles, ((k.procs p).fds fd).kind = .vfs ∧
      ((k.procs p).fds fd).handle = i.val ∧ (k.vfs.vfsOpenFiles i).used = true) ∨
    (∃ i, ((k.procs p).fds fd).kind = .pipeRead ∧ ((k.procs p).fds fd).handle = pipeReadHandle i ∧
      (k.pipes i).used = true) ∨
    ∃ i, ((k.procs p).fds fd).kind = .pipeWrite ∧ ((k.procs p).fds fd).handle = pipeWriteHandle i ∧
      (k.pipes i).used = true

end Kernel

/-- The descriptors with the name of an object are its holders. -/
theorem Lib.holders_eq_descriptors (h : Balanced k) (o : Object) :
    holders univ k.held o.name = (k.descriptors o.name.1 o.name.2).card := by
  unfold holders Kernel.descriptors
  congr 1
  refine Finset.filter_congr fun s _ => ?_
  unfold Kernel.held
  rw [ProcessFd.name_eq_some, Prod.ext_iff]
  refine ⟨fun hs => ⟨fun hd => ?_, hs⟩, fun hs => hs.2⟩
  have hnone := ProcessFd.name_eq_none.mp (h.dead s.1 hd s.2)
  exact o.name_kind (hs.1.symm.trans hnone)

/-- An object counts its descriptors. -/
theorem Kernel.Counted.count_eq (h : Balanced k) (o : Object) :
    k.count o = (k.descriptors o.name.1 o.name.2).card := by
  rw [h.exact, List.count_nil, holders_eq_descriptors h]
  rfl

/-- An object in use has a descriptor. -/
theorem Kernel.Counted.count_pos (h : Balanced k) (o : Object) :
    0 < k.count o ↔ (k.descriptors o.name.1 o.name.2).Nonempty := by
  rw [h.count_eq, Finset.card_pos]

/-- The balance with nothing in hand says that the counts are exact. -/
theorem Kernel.Counted.descriptorCountsExact (h : Balanced k) : k.DescriptorCountsExact where
  fileUsed := fun i => (h.tables.file i).trans (h.count_pos (.file i))
  refCount := fun i => h.count_eq (.file i)
  pipeUsed := fun i => (h.tables.pipe i).trans
    (or_congr (h.count_pos (.readEnd i)) (h.count_pos (.writeEnd i)))
  readers := fun i => h.count_eq (.readEnd i)
  writers := fun i => h.count_eq (.writeEnd i)
  names := fun p fd hlives hkind => by
    obtain ⟨r, hr⟩ := Option.ne_none_iff_exists'.mp (mt ProcessFd.name_eq_none.mp hkind)
    obtain ⟨o, rfl⟩ := h.named (p, fd) r hr
    have hname := ProcessFd.name_eq_some.mp hr
    have hpos : 0 < k.count o := by
      rw [h.exact]
      exact Nat.add_pos_left (holders_pos_iff.mpr ⟨(p, fd), mem_univ _, hr⟩) _
    cases o with
    | file i => exact .inl ⟨i, congrArg Prod.fst hname, congrArg Prod.snd hname, (h.tables.file i).mpr hpos⟩
    | readEnd i =>
      exact .inr (.inl ⟨i, congrArg Prod.fst hname, congrArg Prod.snd hname,
        (h.tables.pipe i).mpr (.inl hpos)⟩)
    | writeEnd i =>
      exact .inr (.inr ⟨i, congrArg Prod.fst hname, congrArg Prod.snd hname,
        (h.tables.pipe i).mpr (.inr hpos)⟩)

/-- In every state that is reached, every descriptor names an open file or a pipe, which counts it. -/
theorem descriptor_counts_exact (h : FdRun k) : k.DescriptorCountsExact :=
  h.balanced.descriptorCountsExact

/-- Two processes hold the two ends of one pipe. -/
theorem descriptor_counts_exact_couple :
    Kernel.couple.DescriptorCountsExact ∧ (Kernel.couple.pipes 0).readers = 2 ∧ (Kernel.couple.pipes 0).writers = 2 ∧
      ((Kernel.couple.procs 1).fds 0).kind = .pipeRead ∧ ((Kernel.couple.procs 1).fds 1).kind = .pipeWrite :=
  ⟨descriptor_counts_exact reachable_couple.fdRun, by decide +kernel, by decide +kernel, by decide +kernel,
    by decide +kernel⟩

end AgenticOs
