import AgenticOs.Kernel.Isolation
import AgenticOs.Memory.Refusals

/-!
# Fork and exec are all or nothing

The two system calls that build an address space take frames, a slot and a stack, or frames, a block of
the heap and an open file, before they know that they succeed.

* `fork_all_or_nothing`: when `process_fork` returns `NULL`, for whatever reason, nothing that it counts
  or hands out has changed, and the parent sees its memory as before.
* `exec_all_or_nothing`: when `SYS_EXEC` returns an error, wherever it fails, nothing has changed but what
  the file system keeps of the sectors that were read.

Both hold of every memory that holds address spaces (`AddressSpaces`), and every state of a run has such a
memory (`Settled.addressSpaces`). Each is followed by a call that fails late: a fork that has a frame for
the directory of the child and none for its page table, and an exec that has a new address space and finds
no file system.
-/

namespace AgenticOs

open Function Finset Lib Lib.StM

variable {k : Kernel} {parent : Slot} {live : Finset Nat} {d : Nat}

/-- The living processes have the address spaces. -/
theorem Settled.addressSpaces (h : Settled k) : AddressSpaces k.mem k.directories := by
  obtain ⟨m0, S, c, hc, hk, -⟩ := h.peopled
  obtain ⟨-, -, -, -, htracks⟩ := hk.loaded hc
  exact ⟨m0, S, hk.directories ▸ htracks⟩

/-! ### Fork -/

/-- A fork that fails changes nothing that counts, and the parent reads and writes its memory as
before. -/
theorem fork_all_or_nothing {parentFrame : Word} (hrun : FdRun k) (hpool : StackPool k.stackPool)
    (hspaces : AddressSpaces k.mem live) (hd : d ∈ live) (hcr3 : (k.procs parent).cr3 = frameAddr d)
    (hparent : k.Alive parent) (hfail : (processFork parent parentFrame k).1 = none) :
    ForkUndone parent k (processFork parent parentFrame k).2 :=
  have hfailed := processFork_failed hrun.balanced hpool hparent hfail
  hfailed.undone hrun.balanced (balances_processFork parent parentFrame k hrun.balanced) hrun.nameless
    hspaces hd hcr3 hparent

set_option maxRecDepth 4000 in
/-- One frame is left: the directory of a third child would get it, and its page table none. -/
theorem Memory.rewritten_clone : (Kernel.rewritten.mem.pagingCloneDirectory 0x300000).1 = 0 := by
  obtain ⟨m0, S, htracks⟩ := settled_rewritten.addressSpaces
  have hscratch : Kernel.rewritten.mem.kernelScratchTable ≠ 0 := by decide
  show (Kernel.rewritten.mem.pagingCloneDirectory (frameAddr 768)).1 = 0
  exact pagingCloneDirectory_lastFrame Memory.rewritten_onePage.1 (by decide) (by decide) hscratch (by decide)
    htracks.represents.books.counted (by decide)

set_option maxRecDepth 4000 in
/-- The fork fails, with the table shared already. -/
theorem processFork_rewritten : (processFork 0 (forkTrap.frame .rewritten) .rewritten).1 = none := by
  have hpool : StackPool Kernel.rewritten.stackPool := ⟨by decide, by decide⟩
  rcases processFork_cases hpool 0 (forkTrap.frame .rewritten) with
    hrun | ⟨child, hdead, hrun | ⟨i, r, -, hr, ⟨-, hrun⟩ | ⟨hne, -⟩⟩⟩
  · rw [hrun]
  · rw [hrun]
  · rw [hrun]
  · have hchild : 0 ≠ child := by
      rintro rfl
      exact absurd hdead (by decide)
    have hcr3 : ((Kernel.rewritten.housed child i).procs 0).cr3 = 0x300000 := by
      unfold Kernel.housed
      rw [Kernel.setProc_of_ne _ hchild]
      decide +kernel
    have hmem : (Kernel.rewritten.housed child i).mem = Kernel.rewritten.mem := rfl
    rw [hr, hcr3, hmem] at hne
    exact absurd Memory.rewritten_clone hne

set_option maxRecDepth 4000 in
/-- The parent has a page of its own, both ends of a pipe and two children; the third fork fails. -/
theorem fork_all_or_nothing_rewritten :
    (processFork 0 (forkTrap.frame .rewritten) .rewritten).1 = none ∧
      ForkUndone 0 .rewritten (processFork 0 (forkTrap.frame .rewritten) .rewritten).2 ∧
        Kernel.rewritten.mem.userLoad (Kernel.rewritten.procs 0).cr3 0x90000000 = some 43 ∧
          ((Kernel.rewritten.procs 0).fds 0).kind = .pipeRead := by
  have hd : 768 ∈ Kernel.rewritten.directories := by decide
  have hpool : StackPool Kernel.rewritten.stackPool := ⟨by decide, by decide⟩
  exact ⟨processFork_rewritten, fork_all_or_nothing reachable_rewritten.fdRun hpool settled_rewritten.addressSpaces hd
    (by decide) (by decide) processFork_rewritten, Memory.rewritten_onePage.2, by decide⟩

/-! ### Exec -/

/-- **A `SYS_EXEC` that fails has no effect**, whatever the file, the vectors and the free memory were. -/
theorem exec_all_or_nothing {H : Set Nat} {pathPtr argvPtr envpPtr callerCs frame : Word}
    (hspaces : AddressSpaces k.mem live) (hheap : k.heap.Sound H)
    (hfail : (syscallExec pathPtr argvPtr envpPtr callerCs frame k).1 ≠ syscallSuccess) :
    ExecUndone live k (syscallExec pathPtr argvPtr envpPtr callerCs frame k).2 := by
  obtain ⟨m0, S, htracks⟩ := hspaces
  have hends := syscallExec_ends pathPtr argvPtr envpPtr callerCs frame k
  generalize syscallExec pathPtr argvPtr envpPtr callerCs frame k = r at hfail hends
  cases hends with
  | refused status hstatus => exact .refl live k
  | uncopied block heap status hblock hstatus =>
    exact (ImageRead.refl (k.withHeap heap)).undone hheap hblock htracks ⟨htracks, rfl, fun d => .refl d S, rfl⟩
  | unloaded block heap path vectors status k' hblock hsmall hrun =>
    have hread := imageRead_execImage path vectors (k.withHeap heap)
    rw [hrun] at hread
    have hspace := execImage_spaces (k := k.withHeap heap) htracks path hsmall
    rw [hrun] at hspace
    rcases hspace with ⟨_, S', -, -, hundone⟩ | ⟨_, _, _, _, -, hok, -⟩
    · exact hread.undone hheap hblock htracks hundone
    · cases hok
  | committed => exact absurd rfl hfail

/-- Without a file system there is no image. -/
theorem readFileIntoBuffer_unmounted {v : Vfs} (path : CString) (hmount : v.vfsMounted = false) :
    readFileIntoBuffer path v = (.error elfEio, v) := by
  have hstat : Vfs.vfsStat (some path) true v = (.error vfsEio, v) := by
    unfold Vfs.vfsStat
    rw [run_get_bind, hmount]
    rfl
  unfold readFileIntoBuffer
  rw [run_attempt_bind, hstat]
  rfl

/-- The new address space is there when the error comes. -/
theorem execImage_unmounted {path : CString} {vectors : ExecVectors} (hmount : k.vfs.vfsMounted = false)
    (hroom : k.mem.pagingCreateAddressSpace.1 ≠ 0) : (execImage path vectors k).1 = .error syscallEio := by
  have hvfs (k₁ : Kernel) (h : k₁.vfs.vfsMounted = false) : (elfLoadFromVfs path k₁).1 = .error elfEio := by
    have hfile : (callVfs (readFileIntoBuffer path) k₁).1 = .error elfEio := by
      show (readFileIntoBuffer path k₁.vfs).1 = _
      rw [readFileIntoBuffer_unmounted path h]
    unfold elfLoadFromVfs
    rw [run_bind, hfile]
    rfl
  have hload (cr3 : Word) (hcr3 : cr3 ≠ 0) (m : Memory) :
      (elfLoadFromVfsInto cr3 path (k.withMem m)).1 = .error elfEio := by
    unfold elfLoadFromVfsInto
    rw [run_ite, if_neg hcr3, run_bind, run_get, run_bind, run_onMemory]
    dsimp only
    exact hvfs _ hmount
  unfold execImage
  rw [run_bind, run_callMemory]
  dsimp only
  rw [run_ite, if_neg hroom, run_bind, hload _ hroom]
  rfl

/-- The first process has the path of a program in its page, and an argument vector that names it. -/
def Kernel.calling : Kernel := Kernel.written.withMem (Kernel.written.mem.storeByte 0x90000103 0x90)

/-- The state before the call is settled. -/
theorem settled_calling : Settled .calling := by
  have hstep : Step .written (.store 0x90000103 0x90) .calling := .store _ _ _ (by decide)
  exact settled_written.run (.single ⟨.store 0x90000103 0x90, trivial, hstep⟩)

/-- The call fails at the image, which has an address space by then. -/
theorem syscallExec_calling :
    (syscallExec 0x90000000 0x90000100 0 0x1B 0x400000 .calling).1 = syscallEio := by
  obtain ⟨m0, S, htracks⟩ := settled_calling.addressSpaces
  have hroom : Kernel.calling.mem.pagingCreateAddressSpace.1 ≠ 0 := fun hzero =>
    absurd (Memory.create_refused (by decide +kernel) htracks.represents.books.counted hzero) (by decide +kernel)
  have hcopied : ((Kernel.calling.withHeap (Kernel.calling.heap.kmalloc execVectorsBytes).2).copyVectors 0x90000100
    0).isOk = true := by decide +kernel
  have hpath : (if Kernel.calling.uaccessReadable 0x90000000 1 then
      Kernel.calling.copyStringFromUser 0x90000000 vfsMaxPath else none) = some [42] := by decide +kernel
  have hring : isRing3 0x1B = true := rfl
  obtain ⟨vectors, -, himage⟩ := syscallExec_image 0x400000 hring (show _ = some 0 by decide +kernel) hpath
    (show Kernel.calling.heap.kmalloc _ = (some _, _) from Prod.mk.eta.symm) hcopied
  have hmount : (Kernel.calling.withHeap (Kernel.calling.heap.kmalloc execVectorsBytes).2).vfs.vfsMounted = false := by
    decide +kernel
  rw [himage, execImage_unmounted hmount hroom]

set_option maxRecDepth 4000 in
/-- The path can be read, the vector has one argument, there is a new address space, and no file system. -/
theorem exec_all_or_nothing_calling :
    (syscallExec 0x90000000 0x90000100 0 0x1B 0x400000 .calling).1 = syscallEio ∧
      ExecUndone Kernel.calling.directories .calling
        (syscallExec 0x90000000 0x90000100 0 0x1B 0x400000 .calling).2 := by
  have hheap : Kernel.calling.heap.Sound {heapStart} :=
    .single (by decide) (by decide) (by decide) (by decide) (by decide)
  have hfail : (syscallExec 0x90000000 0x90000100 0 0x1B 0x400000 .calling).1 ≠ syscallSuccess := by
    rw [syscallExec_calling]
    decide
  exact ⟨syscallExec_calling, exec_all_or_nothing settled_calling.addressSpaces hheap hfail⟩

end AgenticOs
