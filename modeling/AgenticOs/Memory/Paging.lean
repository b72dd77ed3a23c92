import AgenticOs.Memory.Frame
import Mathlib.Data.List.FinRange

/-!
# `kernel/paging.c`

Address spaces: two-level page tables in physical memory, fork by copy-on-write.

* **Memory**: `Memory.ram frame i` is word `i` of a physical frame. The kernel reaches tables below
  `IDENTITY_MAPPED_LIMIT` at their physical address, so a table pointer is a word and `table[i]` reads the
  frame it points into.
* **Scratch mappings**: `copy_physical_page` goes through two of them that every directory shares; its effect
  is the copy of the frame and the two entries it writes into the scratch table.
* **Loops**: those over the 1024 entries of a table are folds over `tableIndices`; each loop body that does
  more than one thing is a definition of its own (`shareEntry`, `freeUserPage`, `destroyTable`).
* **Clone** (`pagingCloneDirectory`): phase 1 builds the child's tables, phase 2a shares the pages, phase 2b
  makes them copy-on-write on both sides; the two unwinding routines are those of the source.

TLB maintenance (`invlpg`, reloading `cr3`) has no counterpart here: a translation always reads the tables.
-/

namespace AgenticOs

open Function Lib

/-- An index into a page table or a page directory. -/
abbrev TableIndex := Fin 1024

instance TableIndex.neZero : NeZero 1024 := ⟨by decide⟩

instance TableIndex.lawfulBEq : LawfulBEq TableIndex := inferInstance

/-- The values of `i` in `for (i = 0; i < n; i++)`. -/
@[irreducible] def indicesBelow (n : Nat) : List (Fin n) := List.finRange n

/-- The loop `for (i = 0; i < 1024; i++)`. -/
def tableIndices : List TableIndex := indicesBelow 1024

/-- Source: `paging.h` `PAGE_PRESENT` -/
def pagePresent : Word := 0x01
/-- Source: `paging.h` `PAGE_WRITABLE` -/
def pageWritable : Word := 0x02
/-- Source: `paging.h` `PAGE_USER` -/
def pageUser : Word := 0x04
/-- Source: `paging.h` `PAGE_COW` -/
def pageCow : Word := 0x200
/-- The address bits of an entry, `0xFFFFF000`. -/
def addrMask : Word := 0xFFFFF000
/-- The flag bits of an entry, `0xFFF`. -/
def flagMask : Word := 0xFFF

/-- Source: `paging.c` `page_directory` -/
abbrev pageDirectory : Word := 0x00100000
/-- Source: `paging.c` `first_page_table` -/
abbrev firstPageTable : Word := 0x00101000
/-- Source: `paging.c` `IDENTITY_MAPPED_LIMIT` -/
abbrev identityMappedLimit : Nat := 0x00400000
/-- Source: `paging.c` `SCRATCH_DIRECTORY_INDEX` -/
abbrev scratchDirectoryIndex : TableIndex := 1023

/-- `(virtual_addr >> 22) & 0x3FF` -/
def dirIndex (virtualAddr : Word) : TableIndex :=
  ⟨virtualAddr.toNat / 4194304 % 1024, Nat.mod_lt _ (by decide)⟩

/-- `(virtual_addr >> 12) & 0x3FF` -/
def tableIndex (virtualAddr : Word) : TableIndex :=
  ⟨virtualAddr.toNat / 4096 % 1024, Nat.mod_lt _ (by decide)⟩

/-- The frame allocator, physical memory, and the static variables of `paging.c`. -/
structure Memory where
  frames : FrameState
  ram : Nat → TableIndex → Word
  activePageDirectory : Word
  kernelScratchTable : Word

namespace Memory

/-! ## Memory access -/

/-- `table[i]` -/
def entry (m : Memory) (table : Word) (i : TableIndex) : Word := m.ram (frameOf table) i

/-- New contents for a frame. -/
def writeFrame (m : Memory) (frame : Nat) (w : TableIndex → Word) : Memory :=
  { m with ram := update m.ram frame w }

/-- A new state of the frame allocator. -/
def withFrames (m : Memory) (frames : FrameState) : Memory := { m with frames := frames }

/-- `table[i] = e` -/
def setEntry (m : Memory) (table : Word) (i : TableIndex) (e : Word) : Memory :=
  m.writeFrame (frameOf table) (update (m.ram (frameOf table)) i e)

/-- `for (i = 0; i < 1024; i++) table[i] = g(i)` -/
def fillTable (m : Memory) (table : Word) (g : TableIndex → Word) : Memory :=
  tableIndices.foldl (fun m i => m.setEntry table i (g i)) m

/-- `frame_release` on the allocator of this memory. -/
def frameRelease (m : Memory) (physAddr : Word) : Bool × Memory :=
  let r := m.frames.frameRelease physAddr
  (r.1, m.withFrames r.2)

/-- `frame_free` on the allocator of this memory. -/
def frameFree (m : Memory) (physAddr : Word) : Memory := (m.frameRelease physAddr).2

/-- `frame_retain` on the allocator of this memory. -/
def frameRetain (m : Memory) (physAddr : Word) : Bool × Memory :=
  let r := m.frames.frameRetain physAddr
  (r.1, m.withFrames r.2)

/-- `frame_alloc_below` on the allocator of this memory. -/
def frameAllocBelow (m : Memory) (limit : Nat) : Word × Memory :=
  let r := m.frames.frameAllocBelow limit
  (r.1, m.withFrames r.2)

/-- `frame_alloc` on the allocator of this memory. -/
def frameAlloc (m : Memory) : Word × Memory :=
  m.frameAllocBelow (m.frames.totalFrames * frameSize)

/-! ## Tables -/

/-- Source: `paging.c` `paging_alloc_frame` -/
def pagingAllocFrame (m : Memory) : Word × Memory := m.frameAllocBelow identityMappedLimit

/-- A new table of absent entries, or `NULL`.
Source: `paging.c` `allocator_alloc_page_table` -/
def allocatorAllocPageTable (m : Memory) : Word × Memory :=
  let r := m.pagingAllocFrame
  if r.1 = 0 then (0, r.2) else (r.1, r.2.fillTable r.1 fun _ => 0x02)

/-- Source: `paging.c` `copy_physical_page` -/
def copyPhysicalPage (m : Memory) (source destination : Word) : Bool × Memory :=
  if m.kernelScratchTable = 0 ∨ source.toNat % 4096 ≠ 0 ∨ destination.toNat % 4096 ≠ 0 then
    (false, m)
  else
    let m := m.setEntry m.kernelScratchTable 0 (source ||| pagePresent ||| pageWritable)
    let m := m.setEntry m.kernelScratchTable 1 (destination ||| pagePresent ||| pageWritable)
    let m := m.writeFrame (frameOf destination) (m.ram (frameOf source))
    let m := m.setEntry m.kernelScratchTable 0 pageWritable
    (true, m.setEntry m.kernelScratchTable 1 pageWritable)

/-- The identity entries of the first 4 MiB. -/
def identityEntry (i : TableIndex) : Word :=
  BitVec.ofNat 32 (i * 4096) ||| pagePresent ||| pageWritable

/-- Source: `paging.c` `paging_init` -/
def pagingInit (m : Memory) : Memory :=
  let m := m.fillTable pageDirectory fun _ => 0x02
  let m := m.fillTable firstPageTable identityEntry
  let m := m.setEntry pageDirectory 0 (firstPageTable ||| pagePresent ||| pageWritable)
  let r := m.allocatorAllocPageTable
  let m := { r.2 with kernelScratchTable := r.1 }
  let m :=
    if r.1 ≠ 0 then
      m.setEntry pageDirectory scratchDirectoryIndex (r.1 ||| pagePresent ||| pageWritable)
    else m
  { m with activePageDirectory := pageDirectory }

/-- Source: `paging.c` `paging_map_page_in_directory` -/
def pagingMapPageInDirectory (m : Memory) (cr3 virtualAddr physicalAddr flags : Word) :
    Bool × Memory :=
  let directory := cr3 &&& addrMask
  if cr3 = 0 ∨ physicalAddr.toNat % 4096 ≠ 0 then (false, m)
  else
    let setPage (m : Memory) : Bool × Memory :=
      (true, m.setEntry (m.entry directory (dirIndex virtualAddr) &&& addrMask)
        (tableIndex virtualAddr) (physicalAddr &&& addrMask ||| flags &&& flagMask ||| pagePresent))
    if !test (m.entry directory (dirIndex virtualAddr)) pagePresent then
      let r := m.allocatorAllocPageTable
      if r.1 = 0 then (false, r.2)
      else
        setPage (r.2.setEntry directory (dirIndex virtualAddr)
          (r.1 ||| pagePresent ||| pageWritable ||| flags &&& pageUser))
    else if test flags pageUser then
      setPage (m.setEntry directory (dirIndex virtualAddr)
        (m.entry directory (dirIndex virtualAddr) ||| pageUser))
    else setPage m

/-- Source: `paging.c` `paging_map_page` -/
def pagingMapPage (m : Memory) (virtualAddr physicalAddr flags : Word) : Memory :=
  (m.pagingMapPageInDirectory m.activePageDirectory virtualAddr physicalAddr flags).2

/-- Clears an entry and returns the address it held.
Source: `paging.c` `paging_unmap_page_in_directory` -/
def pagingUnmapPageInDirectory (m : Memory) (cr3 virtualAddr : Word) : Word × Memory :=
  let directory := cr3 &&& addrMask
  if cr3 = 0 ∨ test (m.entry directory (dirIndex virtualAddr)) pagePresent = false then (0, m)
  else
    let pageTable := m.entry directory (dirIndex virtualAddr) &&& addrMask
    let oldEntry := m.entry pageTable (tableIndex virtualAddr)
    (oldEntry &&& addrMask, m.setEntry pageTable (tableIndex virtualAddr) pageWritable)

/-- Source: `paging.c` `paging_unmap_page` -/
def pagingUnmapPage (m : Memory) (virtualAddr : Word) : Memory :=
  (m.pagingUnmapPageInDirectory m.activePageDirectory virtualAddr).2

/-- Source: `paging.c` `paging_is_user_accessible`, for any directory -/
def isUserAccessible (m : Memory) (directory virtualAddr : Word) : Bool :=
  has (m.entry directory (dirIndex virtualAddr)) (pagePresent ||| pageUser) &&
    has (m.entry (m.entry directory (dirIndex virtualAddr) &&& addrMask) (tableIndex virtualAddr))
      (pagePresent ||| pageUser)

/-- Source: `paging.c` `paging_is_user_writable`, for any directory -/
def isUserWritable (m : Memory) (directory virtualAddr : Word) : Bool :=
  has (m.entry directory (dirIndex virtualAddr)) (pagePresent ||| pageUser ||| pageWritable) &&
    has (m.entry (m.entry directory (dirIndex virtualAddr) &&& addrMask) (tableIndex virtualAddr))
      (pagePresent ||| pageUser ||| pageWritable)

/-- Source: `paging.c` `paging_get_physical_address_in_directory` -/
def pagingGetPhysicalAddressInDirectory (m : Memory) (cr3 virtualAddr : Word) : Word :=
  let directory := cr3 &&& addrMask
  if cr3 = 0 ∨ test (m.entry directory (dirIndex virtualAddr)) pagePresent = false then 0
  else
    let e := m.entry (m.entry directory (dirIndex virtualAddr) &&& addrMask)
      (tableIndex virtualAddr)
    if test e pagePresent then e &&& addrMask ||| virtualAddr &&& flagMask else 0

/-- Source: `paging.c` `paging_get_page_flags_in_directory` -/
def pagingGetPageFlagsInDirectory (m : Memory) (cr3 virtualAddr : Word) : Word :=
  let directory := cr3 &&& addrMask
  if cr3 = 0 ∨ test (m.entry directory (dirIndex virtualAddr)) pagePresent = false then 0
  else
    m.entry (m.entry directory (dirIndex virtualAddr) &&& addrMask) (tableIndex virtualAddr) &&&
      flagMask

/-- Source: `paging.c` `paging_set_page_flags_in_directory` -/
def pagingSetPageFlagsInDirectory (m : Memory) (cr3 virtualAddr flags : Word) : Bool × Memory :=
  let directory := cr3 &&& addrMask
  if cr3 = 0 ∨ test (m.entry directory (dirIndex virtualAddr)) pagePresent = false then (false, m)
  else
    let table := m.entry directory (dirIndex virtualAddr) &&& addrMask
    let e := m.entry table (tableIndex virtualAddr)
    if test e pagePresent = false then (false, m)
    else
      let m := m.setEntry table (tableIndex virtualAddr)
        (e &&& addrMask ||| flags &&& flagMask ||| pagePresent)
      (true,
        if test flags pageUser then
          m.setEntry directory (dirIndex virtualAddr)
            (m.entry directory (dirIndex virtualAddr) ||| pageUser)
        else m)

/-- Source: `paging.c` `paging_get_current_directory` -/
def pagingGetCurrentDirectory (m : Memory) : Word := m.activePageDirectory

/-- Source: `paging.c` `paging_switch_directory` -/
def pagingSwitchDirectory (m : Memory) (cr3 : Word) : Memory :=
  if cr3 = 0 then m else { m with activePageDirectory := cr3 &&& addrMask }

/-! ## Address spaces -/

/-- Shares entry `i` of the active directory if it is a supervisor entry: the loop body of
`paging_create_address_space`. -/
def shareEntry (directory : Word) (m : Memory) (i : TableIndex) : Memory :=
  let e := m.entry m.activePageDirectory i
  if i ≠ 0 ∧ test e pagePresent = true ∧ test e pageUser = false then
    m.setEntry directory i (e &&& ~~~pageUser)
  else m

/-- The loop of `paging_create_address_space` over the active directory. -/
def shareSupervisor (m : Memory) (directory : Word) : Memory :=
  tableIndices.foldl (shareEntry directory) m

/-- Source: `paging.c` `paging_create_address_space` -/
def pagingCreateAddressSpace (m : Memory) : Word × Memory :=
  let r := m.allocatorAllocPageTable
  let directory := r.1
  if directory = 0 then (0, r.2)
  else
    let r := r.2.allocatorAllocPageTable
    let lowTable := r.1
    if lowTable = 0 then (0, r.2.frameFree directory)
    else
      let m := r.2.fillTable lowTable identityEntry
      let m := m.setEntry directory 0 (lowTable ||| pagePresent ||| pageWritable)
      (directory, m.shareSupervisor directory)

/-- Releases the page of entry `j` of a table if it is a user page, and clears the entry: the inner
loop body of the destroy functions. -/
def freeUserPage (table : Word) (m : Memory) (j : TableIndex) : Memory :=
  if has (m.entry table j) (pagePresent ||| pageUser) then
    (m.frameFree (m.entry table j &&& addrMask)).setEntry table j 0x02
  else m

/-- The inner loop of the destroy functions. -/
def freeUserPages (m : Memory) (table : Word) : Memory :=
  tableIndices.foldl (freeUserPage table) m

/-- The loop body of `paging_destroy_address_space`. -/
def destroyTable (directory : Word) (m : Memory) (i : TableIndex) : Memory :=
  if test (m.entry directory i) pagePresent = false then m
  else
    let table := m.entry directory i &&& addrMask
    if table = firstPageTable ∨ (i ≠ 0 ∧ test (m.entry directory i) pageUser = false) then m
    else ((m.freeUserPages table).frameFree table).setEntry directory i 0x02

/-- Source: `paging.c` `paging_destroy_address_space` -/
def pagingDestroyAddressSpace (m : Memory) (cr3 : Word) : Memory :=
  let directory := cr3 &&& addrMask
  if cr3 = 0 ∨ directory = pageDirectory ∨ directory = m.activePageDirectory then m
  else (tableIndices.foldl (destroyTable directory) m).frameFree directory

/-- The loop body of `paging_destroy_clone_skeleton`. -/
def destroySkeletonTable (directory : Word) (m : Memory) (i : TableIndex) : Memory :=
  if test (m.entry directory i) pagePresent = false then m
  else if i ≠ 0 ∧ test (m.entry directory i) pageUser = false then m
  else (m.frameFree (m.entry directory i &&& addrMask)).setEntry directory i pageWritable

/-- Source: `paging.c` `paging_destroy_clone_skeleton` -/
def pagingDestroyCloneSkeleton (m : Memory) (directory : Word) : Memory :=
  if directory = 0 then m
  else (tableIndices.foldl (destroySkeletonTable directory) m).frameFree directory

/-- The loop body of `paging_destroy_clone_with_refs`. -/
def destroyRefsTable (directory : Word) (m : Memory) (i : TableIndex) : Memory :=
  if test (m.entry directory i) pagePresent = false then m
  else if i ≠ 0 ∧ test (m.entry directory i) pageUser = false then m
  else
    let table := m.entry directory i &&& addrMask
    ((m.freeUserPages table).frameFree table).setEntry directory i pageWritable

/-- Source: `paging.c` `paging_destroy_clone_with_refs` -/
def pagingDestroyCloneWithRefs (m : Memory) (directory : Word) : Memory :=
  if directory = 0 then m
  else (tableIndices.foldl (destroyRefsTable directory) m).frameFree directory

/-! ### `paging_clone_directory`

Three loops over the directory. The first two can fail half way: the first by running out of frames
or by meeting a page whose count is zero or full, the second when a frame cannot be retained. -/

/-- Every user page of a table can take one more reference. -/
def tableShareable (m : Memory) (srcTable : Word) : Bool :=
  tableIndices.all fun j =>
    !has (m.entry srcTable j) (pagePresent ||| pageUser) ||
      let refs := m.frames.frameGetRefcount (m.entry srcTable j &&& addrMask)
      refs != 0 && refs != 0xFFFF

/-- Phase 1: a child table for every private table of the source. -/
def cloneTables (srcDir newDir : Word) : List TableIndex → Memory → Bool × Memory
  | [], m => (true, m)
  | i :: is, m =>
    let e := m.entry srcDir i
    if test e pagePresent = false then cloneTables srcDir newDir is m
    else if i ≠ 0 ∧ test e pageUser = false then
      cloneTables srcDir newDir is (m.setEntry newDir i e)
    else
      let r := m.allocatorAllocPageTable
      if r.1 = 0 then (false, r.2.pagingDestroyCloneSkeleton newDir)
      else
        let m := r.2.setEntry newDir i (r.1 &&& addrMask ||| r.2.entry srcDir i &&& flagMask)
        if m.tableShareable (e &&& addrMask) then cloneTables srcDir newDir is m
        else (false, m.pagingDestroyCloneSkeleton newDir)

/-- Phase 2a for one table: copies its present entries, retaining the user pages. -/
def shareTable (srcTable newTable : Word) : List TableIndex → Memory → Bool × Memory
  | [], m => (true, m)
  | j :: js, m =>
    let e := m.entry srcTable j
    if test e pagePresent = false then shareTable srcTable newTable js m
    else if test e pageUser = false then shareTable srcTable newTable js (m.setEntry newTable j e)
    else
      let r := m.frameRetain (e &&& addrMask)
      if r.1 = false then (false, r.2)
      else shareTable srcTable newTable js (r.2.setEntry newTable j (r.2.entry srcTable j))

/-- Phase 2a: retains all shared frames while the parent is untouched. -/
def shareTables (srcDir newDir : Word) : List TableIndex → Memory → Bool × Memory
  | [], m => (true, m)
  | i :: is, m =>
    if test (m.entry newDir i) pagePresent = false ∨
        (i ≠ 0 ∧ test (m.entry newDir i) pageUser = false) then shareTables srcDir newDir is m
    else
      let r := shareTable (m.entry srcDir i &&& addrMask) (m.entry newDir i &&& addrMask)
        tableIndices m
      if r.1 = false then (false, r.2.pagingDestroyCloneWithRefs newDir)
      else shareTables srcDir newDir is r.2

/-- Entry `j` of phase 2b: a writable user mapping becomes read-only COW on both sides. -/
def commitCowPage (srcTable newTable : Word) (m : Memory) (j : TableIndex) : Memory :=
  let e := m.entry srcTable j
  if has e (pagePresent ||| pageUser) && test e (pageWritable ||| pageCow) then
    let e' := e &&& ~~~pageWritable ||| pageCow
    (m.setEntry srcTable j e').setEntry newTable j e'
  else m

/-- Directory entry `i` of phase 2b. -/
def commitCowTable (srcDir newDir : Word) (m : Memory) (i : TableIndex) : Memory :=
  if test (m.entry newDir i) pagePresent = false ∨
      (i ≠ 0 ∧ test (m.entry newDir i) pageUser = false) then m
  else
    tableIndices.foldl
      (commitCowPage (m.entry srcDir i &&& addrMask) (m.entry newDir i &&& addrMask)) m

/-- Phase 2b: commits writable user mappings as read-only COW. -/
def commitCow (srcDir newDir : Word) (m : Memory) : Memory :=
  tableIndices.foldl (commitCowTable srcDir newDir) m

/-- Source: `paging.c` `paging_clone_directory` -/
def pagingCloneDirectory (m : Memory) (srcCr3 : Word) : Word × Memory :=
  let srcDir := srcCr3 &&& addrMask
  if srcCr3 = 0 ∨ m.kernelScratchTable = 0 then (0, m)
  else
    let r := m.allocatorAllocPageTable
    let newDir := r.1
    if newDir = 0 then (0, r.2)
    else
      let r := cloneTables srcDir newDir tableIndices r.2
      if r.1 = false then (0, r.2)
      else
        let r := shareTables srcDir newDir tableIndices r.2
        if r.1 = false then (0, r.2) else (newDir, commitCow srcDir newDir r.2)

/-- Source: `paging.c` `paging_resolve_cow_fault` -/
def pagingResolveCowFault (m : Memory) (cr3 virtualAddr : Word) : Bool × Memory :=
  let directory := cr3 &&& addrMask
  if cr3 = 0 ∨ test (m.entry directory (dirIndex virtualAddr)) pagePresent = false then (false, m)
  else
    let table := m.entry directory (dirIndex virtualAddr) &&& addrMask
    let e := m.entry table (tableIndex virtualAddr)
    if has e (pagePresent ||| pageUser ||| pageCow) = false ∨ test e pageWritable = true then
      (false, m)
    else
      let oldPhys := e &&& addrMask
      let refs := m.frames.frameGetRefcount oldPhys
      if refs = 0 then (false, m)
      else if refs = 1 then
        (true, m.setEntry table (tableIndex virtualAddr) ((e ||| pageWritable) &&& ~~~pageCow))
      else
        let r := m.frameAlloc
        let newPhys := r.1
        if newPhys = 0 then (false, r.2)
        else
          let r := r.2.copyPhysicalPage oldPhys newPhys
          if r.1 = false then (false, (r.2.frameRelease newPhys).2)
          else
            let m := r.2.setEntry table (tableIndex virtualAddr)
              (newPhys ||| (e &&& flagMask ||| pageWritable) &&& ~~~pageCow)
            (true, (m.frameRelease oldPhys).2)

end Memory

end AgenticOs
