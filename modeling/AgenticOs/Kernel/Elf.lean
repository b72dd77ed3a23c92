import AgenticOs.Kernel.UserCopy
import Mathlib.Data.BitVec

/-!
# `kernel/elf.c`

The loader reads a whole file, checks its headers, and maps and fills the pages of its segments in the active
address space.

* **Reading** (`readFileIntoBuffer`): `elf_file_buffer` is the list of the bytes read: no header or segment
  that passes the checks lies beyond them.
* **Checking** (`elfLayout`): the header, each segment, and the overlap of page ranges, in 32-bit arithmetic.
  Reading and checking change no memory.
* **Loading** (`loadSegments`): each segment is mapped, filled and protected before the next one.
  `mapSegmentPages` takes its pages back where the source does, and only there. Loading changes nothing but
  memory.
* **Another address space** (`elfLoadFromVfsInto`): the directory is switched to and back.

The statuses are those of `elf.h`.
-/

namespace AgenticOs

open Function Lib

/-- Source: `elf.h` `ELF_SUCCESS` -/
abbrev elfSuccess : Int := 0
/-- Source: `elf.h` `ELF_EINVAL` -/
abbrev elfEinval : Int := -1
/-- Source: `elf.h` `ELF_ENOENT` -/
abbrev elfEnoent : Int := -2
/-- Source: `elf.h` `ELF_EIO` -/
abbrev elfEio : Int := -3
/-- Source: `elf.h` `ELF_ENOSPC` -/
abbrev elfEnospc : Int := -4
/-- Source: `elf.h` `ELF_MAX_SEGMENTS` -/
abbrev elfMaxSegments : Nat := 8
/-- Source: `elf.h` `ELF_MAX_IMAGE_SIZE` -/
abbrev elfMaxImageSize : Nat := 8192
/-- Source: `elf.h` `ELF_MAX_LOAD_MEMORY_SIZE` -/
abbrev elfMaxLoadMemorySize : Word := 65536
/-- Source: `elf.h` `ELF_USER_LOAD_MIN` -/
abbrev elfUserLoadMin : Word := 0x40000000
/-- Source: `elf.h` `ELF_USER_LOAD_MAX` -/
abbrev elfUserLoadMax : Word := 0x90000000
/-- Source: `elf.c` `ELF_PT_LOAD` -/
abbrev elfPtLoad : Word := 1
/-- Source: `elf.c` `ELF_PF_W` -/
abbrev elfPfW : Word := 0x02
/-- `sizeof(struct elf32_header)` -/
abbrev elfHeaderBytes : Nat := 52
/-- `sizeof(struct elf32_program_header)` -/
abbrev elfProgramHeaderBytes : Nat := 32

/-- The fields of `struct elf32_header` that the loader reads.
Source: `elf.c` `struct elf32_header` -/
structure ElfHeader where
  ident : List Byte
  type : BitVec 16
  machine : BitVec 16
  version : Word
  entry : Word
  phoff : Word
  ehsize : BitVec 16
  phentsize : BitVec 16
  phnum : BitVec 16

/-- The fields of `struct elf32_program_header` that the loader reads.
Source: `elf.c` `struct elf32_program_header` -/
structure ElfProgramHeader where
  type : Word
  offset : Word
  vaddr : Word
  filesz : Word
  memsz : Word
  flags : Word
  align : Word

/-- Source: `elf.h` `struct elf_load_info` -/
structure ElfLoadInfo where
  entry : Word
  loadStart : Word
  loadEnd : Word
  loadedBytes : Word
  segmentCount : Nat

/-- `elf_file_buffer[i]` -/
def fileByte (file : List Byte) (i : Nat) : Byte := file.getD i 0

/-- The header of a file. -/
def elfHeader (file : List Byte) : ElfHeader :=
  let half := fun i => halfOfBytes (fileByte file) i
  let word := fun i => wordOfBytes (fileByte file) i
  { ident := file.take 16
    type := half 16
    machine := half 18
    version := word 20
    entry := word 24
    phoff := word 28
    ehsize := half 40
    phentsize := half 42
    phnum := half 44 }

/-- The program header at an offset of a file. -/
def elfProgramHeader (file : List Byte) (offset : Nat) : ElfProgramHeader :=
  let word := fun i => wordOfBytes (fileByte file) (offset + i)
  { type := word 0
    offset := word 4
    vaddr := word 8
    filesz := word 16
    memsz := word 20
    flags := word 24
    align := word 28 }

/-- The program headers of a file. -/
def elfProgramHeaders (file : List Byte) : List ElfProgramHeader :=
  (List.range (elfHeader file).phnum.toNat).map fun i =>
    elfProgramHeader file ((elfHeader file).phoff.toNat + i * elfProgramHeaderBytes)

/-- Source: `elf.c` `align_down` -/
def elfAlignDown (value : Word) : Word := value &&& addrMask

/-- Source: `elf.c` `align_up` -/
def elfAlignUp (value : Word) : Word := (value + 4095) &&& addrMask

/-- Source: `elf.c` `add_overflows` -/
def addOverflows (a b : Word) : Bool := a + b < a

/-- Source: `elf.c` `power_of_two_or_zero` -/
def powerOfTwoOrZero (value : Word) : Bool := value = 0 || value &&& (value - 1) = 0

/-- Source: `elf.c` `range_inside_file` -/
def rangeInsideFile (offset size fileSize : Word) : Bool :=
  !addOverflows offset size && offset + size ≤ fileSize

/-- Source: `elf.c` `range_inside_user_space` -/
def rangeInsideUserSpace (start size : Word) : Bool :=
  !(size = 0 || addOverflows start size) && elfUserLoadMin ≤ start && start + size ≤ elfUserLoadMax

/-- Source: `elf.c` `ranges_overlap` -/
def rangesOverlap (aStart aEnd bStart bEnd : Word) : Bool := aStart < bEnd && bStart < aEnd

/-! ## Reading -/

/-- The read loop: at most `n` more reads, `done` is what they have brought so far. -/
def readFileLoop (fd : Int) (size : Nat) : Nat → List Byte → VfsM (List Byte)
  | 0, done => return done
  | n + 1, done => do
    if done.length < size then
      let bytes ← Vfs.vfsRead fd true (size - done.length)
      if bytes.length = 0 then StM.fail vfsEio else readFileLoop fd size n (done ++ bytes)
    else return done

/-- An error carries the status of the loader. Source: `elf.c` `read_file_into_buffer` -/
def readFileIntoBuffer (path : CString) : VfsM (List Byte) := do
  match ← StM.attempt (Vfs.vfsStat (some path) true) with
  | .error e => StM.fail (if e = vfsEnoent then elfEnoent else elfEio)
  | .ok stat =>
    if stat.size = 0 ∨ elfMaxImageSize < stat.size then StM.fail elfEinval
    else
      match ← StM.attempt (Vfs.vfsOpen (some path) vfsORdonly) with
      | .error e => StM.fail (if e = vfsEnoent then elfEnoent else elfEio)
      | .ok fd =>
        match ← StM.attempt (readFileLoop fd.val stat.size stat.size []) with
        | .error _ => do
          let _ ← StM.attempt (Vfs.vfsClose fd.val)
          StM.fail elfEio
        | .ok bytes =>
          match ← StM.attempt (Vfs.vfsClose fd.val) with
          | .error _ => StM.fail elfEio
          | .ok _ => if bytes.length = stat.size then return bytes else StM.fail elfEio

/-! ## Checking -/

/-- Source: `elf.c` `validate_header` -/
def validateHeader (header : ElfHeader) (fileSize : Nat) : Int :=
  if fileSize < elfHeaderBytes then elfEinval
  else if header.ident.take 7 ≠ [0x7F, 0x45, 0x4C, 0x46, 1, 1, 1] then elfEinval
  else if header.type ≠ 2 ∨ header.machine ≠ 3 ∨ header.version ≠ 1 ∨
      header.ehsize.toNat ≠ elfHeaderBytes ∨ header.phentsize.toNat ≠ elfProgramHeaderBytes ∨
      header.phnum = 0 ∨ elfMaxSegments < header.phnum.toNat then
    elfEinval
  else if !rangeInsideFile header.phoff
      (BitVec.ofNat 32 (header.phnum.toNat * elfProgramHeaderBytes)) (BitVec.ofNat 32 fileSize) then
    elfEinval
  else elfSuccess

/-- Source: `elf.c` `validate_segment` -/
def validateSegment (ph : ElfProgramHeader) (fileSize : Nat) : Int :=
  if ph.type ≠ elfPtLoad then elfSuccess
  else if ph.memsz = 0 ∨ ph.memsz < ph.filesz then elfEinval
  else if elfMaxLoadMemorySize < ph.memsz then elfEinval
  else if !rangeInsideFile ph.offset ph.filesz (BitVec.ofNat 32 fileSize) then elfEinval
  else if !rangeInsideUserSpace ph.vaddr ph.memsz then elfEinval
  else if !powerOfTwoOrZero ph.align then elfEinval
  else if 1 < ph.align ∧ ph.vaddr &&& (ph.align - 1) ≠ ph.offset &&& (ph.align - 1) then elfEinval
  else elfSuccess

/-- The local variables of the first loop of `elf_load_from_vfs`: the page ranges of the segments
seen so far, the last first. -/
structure SegmentScan where
  pages : List (Word × Word)
  loadMemory : Word
  loadStart : Word
  loadEnd : Word

/-- The variables before the loop. -/
def SegmentScan.init : SegmentScan where
  pages := []
  loadMemory := 0
  loadStart := 0xFFFFFFFF
  loadEnd := 0

/-- The first loop of `elf_load_from_vfs`. -/
def scanSegments (fileSize : Nat) : List ElfProgramHeader → SegmentScan → Except Int SegmentScan
  | [], scan => .ok scan
  | ph :: phs, scan =>
    if validateSegment ph fileSize ≠ elfSuccess then .error (validateSegment ph fileSize)
    else if ph.type ≠ elfPtLoad then scanSegments fileSize phs scan
    else
      let pageStart := elfAlignDown ph.vaddr
      let pageEnd := elfAlignUp (ph.vaddr + ph.memsz)
      if scan.pages.any fun s => rangesOverlap pageStart pageEnd s.1 s.2 then .error elfEinval
      else if elfMaxLoadMemorySize - scan.loadMemory < ph.memsz then .error elfEinval
      else
        scanSegments fileSize phs
          { pages := (pageStart, pageEnd) :: scan.pages
            loadMemory := scan.loadMemory + ph.memsz
            loadStart := if ph.vaddr < scan.loadStart then ph.vaddr else scan.loadStart
            loadEnd := if scan.loadEnd < ph.vaddr + ph.memsz then ph.vaddr + ph.memsz
              else scan.loadEnd }

/-- What the checks of `elf_load_from_vfs` find in a file. -/
def elfLayout (file : List Byte) : Except Int SegmentScan :=
  let header := elfHeader file
  if validateHeader header file.length ≠ elfSuccess then .error (validateHeader header file.length)
  else
    match scanSegments file.length (elfProgramHeaders file) SegmentScan.init with
    | .error status => .error status
    | .ok scan =>
      if scan.pages.length = 0 ∨ header.entry < scan.loadStart ∨ scan.loadEnd ≤ header.entry then
        .error elfEinval
      else .ok scan

/-! ## Loading -/

/-- The pages `for (page = start; page < end; page += FRAME_SIZE)`. -/
def segmentPages (vaddr memsz : Word) : List Word :=
  let start := elfAlignDown vaddr
  let stop := elfAlignUp (vaddr + memsz)
  (List.range ((stop.toNat - start.toNat) / 4096)).map fun i => start + BitVec.ofNat 32 (i * 4096)

namespace Memory

/-- Source: `paging.c` `paging_is_mapped` -/
def pagingIsMapped (m : Memory) (virtualAddr : Word) : Bool :=
  if test (m.entry m.activePageDirectory (dirIndex virtualAddr)) pagePresent = false then false
  else
    test (m.entry (m.entry m.activePageDirectory (dirIndex virtualAddr) &&& addrMask)
      (tableIndex virtualAddr)) pagePresent

/-- The pages mapped so far are unmapped and their frames released, in their order. -/
def unmapPages (m : Memory) (mapped : List (Word × Word)) : Memory :=
  mapped.foldl (fun m p => (m.pagingUnmapPage p.1).frameFree p.2) m

/-- The loop of `map_segment_pages`; `mapped` are the pages of the rounds before, in their order. -/
def mapPages : List Word → List (Word × Word) → Memory → Int × Memory
  | [], _, m => (elfSuccess, m)
  | page :: pages, mapped, m =>
    if m.pagingIsMapped page then (elfEinval, m)
    else
      let r := m.frameAlloc
      let phys := r.1
      if phys = 0 then (elfEnospc, r.2.unmapPages mapped)
      else
        let s := r.2.pagingMapPageInDirectory r.2.pagingGetCurrentDirectory page phys
          (pagePresent ||| pageWritable ||| pageUser)
        if s.1 = false then (elfEnospc, (s.2.frameRelease phys).2.unmapPages mapped)
        else if !s.2.isUserWritable s.2.activePageDirectory page then
          (elfEio, (s.2.frameFree phys).unmapPages mapped)
        else mapPages pages (mapped ++ [(page, phys)]) s.2

/-- Source: `elf.c` `map_segment_pages` -/
def mapSegmentPages (m : Memory) (vaddr memsz : Word) : Int × Memory :=
  mapPages (segmentPages vaddr memsz) [] m

/-- The loop of `protect_segment_pages`. -/
def protectPages (flags : Word) : List Word → Memory → Int × Memory
  | [], m => (elfSuccess, m)
  | page :: pages, m =>
    let r := m.pagingSetPageFlagsInDirectory m.pagingGetCurrentDirectory page flags
    if r.1 = false then (elfEio, r.2) else protectPages flags pages r.2

/-- Source: `elf.c` `protect_segment_pages` -/
def protectSegmentPages (m : Memory) (vaddr memsz elfFlags : Word) : Int × Memory :=
  let flags := pagePresent ||| pageUser
  let flags := if test elfFlags elfPfW then flags ||| pageWritable else flags
  protectPages flags (segmentPages vaddr memsz) m

/-- The bytes of a segment: zeros, and over them what the file has. -/
def fillSegment (m : Memory) (file : List Byte) (ph : ElfProgramHeader) : Memory :=
  (m.storeBytes ph.vaddr (List.replicate ph.memsz.toNat 0)).storeBytes ph.vaddr
    ((List.range ph.filesz.toNat).map fun i => fileByte file (ph.offset.toNat + i))

/-- The second loop of `elf_load_from_vfs`. -/
def loadSegments (file : List Byte) : List ElfProgramHeader → Memory → Int × Memory
  | [], m => (elfSuccess, m)
  | ph :: phs, m =>
    if ph.type ≠ elfPtLoad then loadSegments file phs m
    else
      let r := m.mapSegmentPages ph.vaddr ph.memsz
      if r.1 ≠ elfSuccess then r
      else
        let s := (r.2.fillSegment file ph).protectSegmentPages ph.vaddr ph.memsz ph.flags
        if s.1 ≠ elfSuccess then s else loadSegments file phs s.2

end Memory

/-- What `elf_load_from_vfs` reports of a file that it has loaded. -/
def elfLoadInfo (file : List Byte) (scan : SegmentScan) : ElfLoadInfo where
  entry := (elfHeader file).entry
  loadStart := scan.loadStart
  loadEnd := scan.loadEnd
  loadedBytes :=
    (((elfProgramHeaders file).filter fun ph => ph.type = elfPtLoad).map (·.filesz)).sum
  segmentCount := scan.pages.length

/-- Source: `elf.c` `elf_load_from_vfs` -/
def elfLoadFromVfs (path : CString) : KernelM (Except Int ElfLoadInfo) := do
  match ← callVfs (readFileIntoBuffer path) with
  | .error status => return .error status
  | .ok file =>
    match elfLayout file with
    | .error status => return .error status
    | .ok scan => do
      let status ← callMemory (Memory.loadSegments file (elfProgramHeaders file))
      return if status = elfSuccess then .ok (elfLoadInfo file scan) else .error status

/-- Source: `elf.c` `elf_load_from_vfs_into` -/
def elfLoadFromVfsInto (cr3 : Word) (path : CString) : KernelM (Except Int ElfLoadInfo) := do
  if cr3 = 0 then return .error elfEinval
  else
    let k ← get
    let oldCr3 := k.mem.pagingGetCurrentDirectory
    onMemory (·.pagingSwitchDirectory cr3)
    let status ← elfLoadFromVfs path
    onMemory (·.pagingSwitchDirectory oldCr3)
    return status

end AgenticOs
