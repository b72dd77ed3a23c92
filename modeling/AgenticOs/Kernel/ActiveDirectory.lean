import AgenticOs.Kernel.Syscall
import AgenticOs.Memory.Entry

/-!
# The active directory

`paging_switch_directory` alone loads another directory. Every other operation of the kernel on memory works through
the directory that is loaded, or on one that is not, and leaves `activePageDirectory` as it was:

* **frames and tables** of `frame.c` and `paging.c`, down to `paging_map_page_in_directory` and
  `paging_resolve_cow_fault` (`pagingMapPageInDirectory_active`, `pagingResolveCowFault_active`);
* **address spaces**: one is created, cloned or destroyed while another is loaded (`pagingCreateAddressSpace_active`,
  `pagingCloneDirectory_active`, `pagingDestroyAddressSpace_active`);
* **`vm.c`, `elf.c` and `syscall.c`**: a page fault, the segments of an image, the strings of a new stack and the loop
  of `SYS_BRK` (`vmHandlePageFault_active`, `loadSegments_active`, `pushTable_active`, `dropPages_active`).

`execBuildUserStack_active` is the exception: building the stack of an image loads the new directory and then the old
one again. That keeps the old one if it is the address of a page (`IsDirectory`), since `paging_switch_directory` masks
what it loads. New directories are such addresses, or zero (`pagingCreateAddressSpace_aligned`,
`pagingCloneDirectory_aligned`).

The equations are in the simp set. They are what the invariant of the running process (its own directory is loaded)
needs of memory.
-/

namespace AgenticOs

open Function Lib

/-- The address of a page directory: `paging_switch_directory` loads it unchanged. -/
def IsDirectory (cr3 : Word) : Prop := cr3 ≠ 0 ∧ cr3.toNat % 4096 = 0

/-- The low bits of the address of a page are zero, so the mask of `paging_switch_directory` leaves it as it is. -/
theorem and_addrMask_of_aligned {w : Word} (h : w.toNat % 4096 = 0) : w &&& addrMask = w := by
  apply BitVec.eq_of_toNat_eq
  show (w &&& (0xFFFFF000 : Word)).toNat = w.toNat
  rw [and_pageMask, BitVec.toNat_ofNat]
  unfold frameOf
  omega

/-- A directory that is loaded is the active one. -/
theorem IsDirectory.switch {cr3 : Word} (h : IsDirectory cr3) (m : Memory) :
    (m.pagingSwitchDirectory cr3).activePageDirectory = cr3 := by
  unfold Memory.pagingSwitchDirectory
  rw [if_neg h.1]
  exact and_addrMask_of_aligned h.2

namespace Memory

variable (m : Memory)

/-! ### Frames and tables -/

/-- A released frame may be the frame of a directory, which stays loaded. -/
@[simp] theorem frameRelease_active (a : Word) :
    (m.frameRelease a).2.activePageDirectory = m.activePageDirectory := rfl

/-- A frame gets another reference, and no directory is loaded. -/
@[simp] theorem frameRetain_active (a : Word) :
    (m.frameRetain a).2.activePageDirectory = m.activePageDirectory := rfl

/-- A frame is taken, and no directory is loaded. -/
@[simp] theorem frameAlloc_active : m.frameAlloc.2.activePageDirectory = m.activePageDirectory := rfl

/-- A new table is filled with absent entries, whether there was a frame for it or not. -/
@[simp] theorem allocatorAllocPageTable_active :
    m.allocatorAllocPageTable.2.activePageDirectory = m.activePageDirectory := by
  unfold allocatorAllocPageTable
  dsimp only
  split
  · rfl
  · rw [fillTable_eq]
    rfl

/-- A page is mapped in any directory, with or without a new table. -/
@[simp] theorem pagingMapPageInDirectory_active (cr3 va pa flags : Word) :
    (m.pagingMapPageInDirectory cr3 va pa flags).2.activePageDirectory = m.activePageDirectory := by
  unfold pagingMapPageInDirectory
  dsimp only
  split
  · rfl
  · split
    · split
      · exact m.allocatorAllocPageTable_active
      · exact m.allocatorAllocPageTable_active
    · split <;> rfl

/-- A page is unmapped in any directory. -/
@[simp] theorem pagingUnmapPageInDirectory_active (cr3 va : Word) :
    (m.pagingUnmapPageInDirectory cr3 va).2.activePageDirectory = m.activePageDirectory := by
  unfold pagingUnmapPageInDirectory
  dsimp only
  split <;> rfl

/-- The flags of a page are set in any directory. -/
@[simp] theorem pagingSetPageFlagsInDirectory_active (cr3 va flags : Word) :
    (m.pagingSetPageFlagsInDirectory cr3 va flags).2.activePageDirectory =
      m.activePageDirectory := by
  unfold pagingSetPageFlagsInDirectory
  dsimp only
  split
  · rfl
  · split
    · rfl
    · split <;> rfl

/-- A page is copied through the scratch table of the kernel, not through another directory. -/
@[simp] theorem copyPhysicalPage_active (source destination : Word) :
    (m.copyPhysicalPage source destination).2.activePageDirectory = m.activePageDirectory := by
  unfold copyPhysicalPage
  split <;> rfl

/-- A copy-on-write fault is resolved in place, by a copy, or not at all. -/
@[simp] theorem pagingResolveCowFault_active (cr3 va : Word) :
    (m.pagingResolveCowFault cr3 va).2.activePageDirectory = m.activePageDirectory := by
  unfold pagingResolveCowFault
  dsimp only
  split
  · rfl
  · split
    · rfl
    · split
      · rfl
      · split
        · rfl
        · split
          · rfl
          · split
            · rw [frameRelease_active, copyPhysicalPage_active, frameAlloc_active]
            · rw [frameRelease_active, setEntry_active, copyPhysicalPage_active, frameAlloc_active]

/-! ### Address spaces -/

/-- A new address space is built while the old one is loaded. -/
@[simp] theorem pagingCreateAddressSpace_active :
    m.pagingCreateAddressSpace.2.activePageDirectory = m.activePageDirectory := by
  unfold pagingCreateAddressSpace
  dsimp only
  split
  · exact m.allocatorAllocPageTable_active
  · split
    · rw [frameFree_active, allocatorAllocPageTable_active, allocatorAllocPageTable_active]
    · rw [shareSupervisor_active, setEntry_active, fillTable_eq, writeFrame_active,
        allocatorAllocPageTable_active, allocatorAllocPageTable_active]

/-- The address space that is loaded is not destroyed, and another one is not loaded for that.
-/
@[simp] theorem pagingDestroyAddressSpace_active (cr3 : Word) :
    (m.pagingDestroyAddressSpace cr3).activePageDirectory = m.activePageDirectory := by
  unfold pagingDestroyAddressSpace
  dsimp only
  split
  · rfl
  · rw [frameFree_active, destroyTables_active]

/-- The tables of a clone that shares no page yet are given back. -/
@[simp] theorem pagingDestroyCloneSkeleton_active (directory : Word) :
    (m.pagingDestroyCloneSkeleton directory).activePageDirectory = m.activePageDirectory := by
  unfold pagingDestroyCloneSkeleton
  split
  · rfl
  · rw [frameFree_active, destroySkeletonTables_active]

/-- The tables of a clone are given back, and its references to pages. -/
@[simp] theorem pagingDestroyCloneWithRefs_active (directory : Word) :
    (m.pagingDestroyCloneWithRefs directory).activePageDirectory = m.activePageDirectory := by
  unfold pagingDestroyCloneWithRefs
  split
  · rfl
  · rw [frameFree_active, destroyRefsTables_active]

/-- Phase 1 of `paging_clone_directory`, over any tables: a table for each of the source. -/
@[simp] theorem cloneTables_active (srcDir newDir : Word) (l : List TableIndex) :
    (cloneTables srcDir newDir l m).2.activePageDirectory = m.activePageDirectory := by
  induction l generalizing m with
  | nil => rfl
  | cons i l ih =>
    unfold cloneTables
    dsimp only
    split
    · exact ih m
    · split
      · exact ih _
      · split
        · rw [pagingDestroyCloneSkeleton_active, allocatorAllocPageTable_active]
        · split
          · rw [ih, setEntry_active, allocatorAllocPageTable_active]
          · rw [pagingDestroyCloneSkeleton_active, setEntry_active, allocatorAllocPageTable_active]

/-- Phase 2a, for one table: its pages get another reference. -/
@[simp] theorem shareTable_active (srcTable newTable : Word) (l : List TableIndex) :
    (shareTable srcTable newTable l m).2.activePageDirectory = m.activePageDirectory := by
  induction l generalizing m with
  | nil => rfl
  | cons j l ih =>
    unfold shareTable
    dsimp only
    split
    · exact ih m
    · split
      · exact ih _
      · split
        · rfl
        · rw [ih, setEntry_active, frameRetain_active]

/-- Phase 2a, over any tables. -/
@[simp] theorem shareTables_active (srcDir newDir : Word) (l : List TableIndex) :
    (shareTables srcDir newDir l m).2.activePageDirectory = m.activePageDirectory := by
  induction l generalizing m with
  | nil => rfl
  | cons i l ih =>
    unfold shareTables
    dsimp only
    split
    · exact ih m
    · split
      · rw [pagingDestroyCloneWithRefs_active, shareTable_active]
      · rw [ih, shareTable_active]

/-- Phase 2b: writable pages become copy-on-write in both directories. -/
@[simp] theorem commitCow_active (srcDir newDir : Word) :
    (m.commitCow srcDir newDir).activePageDirectory = m.activePageDirectory := by
  refine foldl_active (fun m i => ?_) _
  unfold commitCowTable
  split
  · rfl
  · refine foldl_active (fun m j => ?_) _
    unfold commitCowPage
    dsimp only
    split <;> rfl

/-- A clone is built with any directory loaded, and given back if a phase fails. -/
@[simp] theorem pagingCloneDirectory_active (srcCr3 : Word) :
    (m.pagingCloneDirectory srcCr3).2.activePageDirectory = m.activePageDirectory := by
  unfold pagingCloneDirectory
  dsimp only
  split
  · rfl
  · split
    · exact m.allocatorAllocPageTable_active
    · split
      · rw [cloneTables_active, allocatorAllocPageTable_active]
      · split
        · rw [shareTables_active, cloneTables_active, allocatorAllocPageTable_active]
        · rw [commitCow_active, shareTables_active, cloneTables_active,
            allocatorAllocPageTable_active]

/-! ### New directories are addresses of pages -/

/-- A frame is an address of a page, and so is the zero that says that there is none. -/
theorem frameAllocBelow_aligned (limit : Nat) : (m.frameAllocBelow limit).1.toNat % 4096 = 0 := by
  show (m.frames.frameAllocBelow limit).1.toNat % 4096 = 0
  unfold FrameState.frameAllocBelow
  split
  · rfl
  · split
    · rfl
    · exact frameAddr_aligned _

/-- A new table lies in a frame. -/
theorem allocatorAllocPageTable_aligned : m.allocatorAllocPageTable.1.toNat % 4096 = 0 := by
  unfold allocatorAllocPageTable
  dsimp only
  split
  · rfl
  · exact m.frameAllocBelow_aligned _

/-- A new directory lies in a frame, or there is none. -/
theorem pagingCreateAddressSpace_aligned : m.pagingCreateAddressSpace.1.toNat % 4096 = 0 := by
  unfold pagingCreateAddressSpace
  dsimp only
  split
  · rfl
  · split
    · rfl
    · exact m.allocatorAllocPageTable_aligned

/-- A clone lies in a frame, or there is none. -/
theorem pagingCloneDirectory_aligned (srcCr3 : Word) :
    (m.pagingCloneDirectory srcCr3).1.toNat % 4096 = 0 := by
  unfold pagingCloneDirectory
  dsimp only
  split
  · rfl
  · split
    · rfl
    · split
      · rfl
      · split
        · rfl
        · exact m.allocatorAllocPageTable_aligned

/-! ### Stores -/

/-- Bytes are stored through the loaded directory. -/
@[simp] theorem storeBytes_active (address : Word) (bytes : List Byte) :
    (m.storeBytes address bytes).activePageDirectory = m.activePageDirectory := by
  induction bytes generalizing m address with
  | nil => rfl
  | cons b bytes ih => exact ih _ _

/-- A page is cleared through the loaded directory. -/
@[simp] theorem clearPage_active (address : Word) :
    (m.clearPage address).activePageDirectory = m.activePageDirectory := rfl

/-! ### `vm.c` -/

/-- A page of the heap is mapped, or its frame is given back. -/
@[simp] theorem demandMapHeapPage_active (cr3 page : Word) :
    (m.demandMapHeapPage cr3 page).2.activePageDirectory = m.activePageDirectory := by
  unfold demandMapHeapPage
  dsimp only
  split
  · rfl
  · split
    · rw [frameRelease_active, pagingMapPageInDirectory_active, frameAlloc_active]
    · rw [clearPage_active, pagingMapPageInDirectory_active, frameAlloc_active]

/-- A page is prepared for a store of the kernel, in each case of `vm_prepare_user_write_page`. -/
@[simp] theorem vmPrepareUserWritePage_active (proc : Process) (page : Word) :
    (m.vmPrepareUserWritePage proc page).2.activePageDirectory = m.activePageDirectory := by
  unfold vmPrepareUserWritePage
  dsimp only
  split
  · rfl
  · split
    · rfl
    · split
      · exact m.pagingResolveCowFault_active _ _
      · split
        · exact m.demandMapHeapPage_active _ _
        · rfl

/-- A page fault is handled, in each case of `vm_handle_page_fault`. -/
@[simp] theorem vmHandlePageFault_active (proc : Process) (faultAddr errorCode : Word) :
    (m.vmHandlePageFault proc faultAddr errorCode).2.activePageDirectory =
      m.activePageDirectory := by
  have hcow := m.pagingResolveCowFault_active proc.cr3 (pageAlignDown faultAddr)
  unfold vmHandlePageFault
  dsimp only
  split
  · rfl
  · split
    · split
      · exact hcow
      · split <;> exact hcow
    · split
      · split
        · rfl
        · split
          · exact m.demandMapHeapPage_active _ _
          · rfl
      · rfl

/-- The pages of a range are prepared until one fails. -/
@[simp] theorem prepareWritePages_active (proc : Process) (pages : List Word) :
    (prepareWritePages proc pages m).2.activePageDirectory = m.activePageDirectory := by
  induction pages generalizing m with
  | nil => rfl
  | cons page pages ih =>
    have hpage := m.vmPrepareUserWritePage_active proc page
    unfold prepareWritePages
    dsimp only
    split
    · rw [ih, hpage]
    · exact hpage
    · exact hpage

/-! ### `elf.c` -/

/-- The pages that were mapped for a segment are given back. -/
@[simp] theorem unmapPages_active (mapped : List (Word × Word)) :
    (m.unmapPages mapped).activePageDirectory = m.activePageDirectory := by
  induction mapped generalizing m with
  | nil => rfl
  | cons p mapped ih => exact (ih _).trans (m.pagingUnmapPageInDirectory_active _ _)

/-- The pages of a segment are mapped, or those that were are given back. -/
@[simp] theorem mapPages_active (pages : List Word) (mapped : List (Word × Word)) :
    (mapPages pages mapped m).2.activePageDirectory = m.activePageDirectory := by
  induction pages generalizing m mapped with
  | nil => rfl
  | cons page pages ih =>
    unfold mapPages
    dsimp only
    split
    · rfl
    · split
      · rw [unmapPages_active, frameAlloc_active]
      · split
        · rw [unmapPages_active, frameRelease_active, pagingMapPageInDirectory_active,
            frameAlloc_active]
        · split
          · rw [unmapPages_active, frameFree_active, pagingMapPageInDirectory_active,
              frameAlloc_active]
          · rw [ih, pagingMapPageInDirectory_active, frameAlloc_active]

/-- The pages of a segment get their flags until one fails. -/
@[simp] theorem protectPages_active (flags : Word) (pages : List Word) :
    (protectPages flags pages m).2.activePageDirectory = m.activePageDirectory := by
  induction pages generalizing m with
  | nil => rfl
  | cons page pages ih =>
    unfold protectPages
    dsimp only
    split
    · exact m.pagingSetPageFlagsInDirectory_active _ _ _
    · rw [ih, pagingSetPageFlagsInDirectory_active]

/-- The bytes of a segment are stored through the loaded directory. -/
@[simp] theorem fillSegment_active (file : List Byte) (ph : ElfProgramHeader) :
    (m.fillSegment file ph).activePageDirectory = m.activePageDirectory := by
  unfold fillSegment
  rw [storeBytes_active, storeBytes_active]

/-- The second loop of `elf_load_from_vfs`, wherever it stops. -/
@[simp] theorem loadSegments_active (file : List Byte) (phs : List ElfProgramHeader) :
    (loadSegments file phs m).2.activePageDirectory = m.activePageDirectory := by
  induction phs generalizing m with
  | nil => rfl
  | cons ph phs ih =>
    have hmap : (m.mapSegmentPages ph.vaddr ph.memsz).2.activePageDirectory =
        m.activePageDirectory := m.mapPages_active _ _
    have hprotect : (((m.mapSegmentPages ph.vaddr ph.memsz).2.fillSegment file ph).protectSegmentPages
        ph.vaddr ph.memsz ph.flags).2.activePageDirectory = m.activePageDirectory := by
      unfold protectSegmentPages
      dsimp only
      rw [protectPages_active, fillSegment_active, hmap]
    unfold loadSegments
    dsimp only
    split
    · exact ih m
    · split
      · exact hmap
      · split
        · exact hprotect
        · rw [ih, hprotect]

/-! ### `SYS_EXEC` and `SYS_BRK` -/

/-- The strings are put on the stack until one does not fit. -/
@[simp] theorem pushStrings_active (stackPage : Word) (values : List CString) (sp : Word)
    (pointers : List Word) :
    (pushStrings stackPage values sp pointers m).2.activePageDirectory = m.activePageDirectory := by
  induction values generalizing m sp pointers with
  | nil => rfl
  | cons value values ih =>
    unfold pushStrings
    dsimp only
    split
    · rfl
    · rw [ih, storeBytes_active]

/-- The table of the pointers is put below the strings. -/
@[simp] theorem pushTable_active (stackPage sp : Word) (argv env : List Word) :
    (m.pushTable stackPage sp argv env).2.activePageDirectory = m.activePageDirectory := by
  unfold pushTable
  dsimp only
  split
  · rfl
  · split
    · rfl
    · rw [storeBytes_active]

/-- The stack is built with the new directory loaded, and the old one is loaded again: it is the address of a page, so
`paging_switch_directory` loads it unchanged. -/
theorem execBuildUserStack_active (h : IsDirectory m.activePageDirectory) (newCr3 : Word)
    (vectors : ExecVectors) (stackPage : Word) :
    (m.execBuildUserStack newCr3 vectors stackPage).2.activePageDirectory =
      m.activePageDirectory := h.switch _

/-- A page of the heap is unmapped and its frame released. -/
@[simp] theorem dropPage_active (cr3 page : Word) :
    (m.dropPage cr3 page).activePageDirectory = m.activePageDirectory := by
  unfold dropPage
  dsimp only
  split
  · rw [frameRelease_active, pagingUnmapPageInDirectory_active]
  · rw [pagingUnmapPageInDirectory_active]

/-- The loop of `SYS_BRK`. -/
@[simp] theorem dropPages_active (cr3 : Word) (pages : List Word) :
    (pages.foldl (fun m page => m.dropPage cr3 page) m).activePageDirectory =
      m.activePageDirectory := by
  induction pages generalizing m with
  | nil => rfl
  | cons page pages ih => exact (ih _).trans (m.dropPage_active cr3 page)

end Memory

end AgenticOs
