import AgenticOs.Types
import AgenticOs.Lib.Bytes
import AgenticOs.Lib.Faults
import Mathlib.Logic.Function.Basic

/-!
# `kernel/simplefs.c`

A flat file system on a block device: a superblock, four sectors of directory with eight entries each, and one
contiguous extent of data sectors for each file. Free sectors are found in a bitmap that only memory holds.

* **State**: `SimpleFs` is the static variables of `simplefs.c` together with the block devices they act on.
* **Errors**: a C function that returns a status is a function in `FsM`: an error carries the negative status,
  and the state is what the function leaves behind either way.
* **Devices**: every sector read or write takes the next element of its half of `faults`; `true` makes it
  fail, and a failed write leaves the sector as it was. `log` records which sectors were asked for.
* **Structures** go to the device and come back as bytes (`Superblock.toBytes`, `DirEntry.ofBytes`).
* **Arithmetic** is that of `uint32_t` where the source's is: the rounding up of a size to sectors can wrap
  (`sectorsForBytes`), and so can the end of a write.

The last section is the interface: format, mount, open, read, write and stat.
-/

namespace AgenticOs

open Function Lib

/-- Source: `blkdev.h` `SECTOR_SIZE` -/
abbrev sectorSize : Nat := 512
/-- Source: `simplefs.h` `SIMPLEFS_MAGIC` -/
abbrev simplefsMagic : Nat := 0x31534653
/-- Source: `simplefs.h` `SIMPLEFS_VERSION` -/
abbrev simplefsVersion : Nat := 1
/-- Source: `simplefs.h` `SIMPLEFS_DIR_START` -/
abbrev simplefsDirStart : Nat := 1
/-- Source: `simplefs.h` `SIMPLEFS_DIR_SECTORS` -/
abbrev simplefsDirSectors : Nat := 4
/-- Source: `simplefs.h` `SIMPLEFS_MAX_FILES` -/
abbrev simplefsMaxFiles : Nat := 32
/-- Source: `simplefs.h` `SIMPLEFS_NAME_MAX` -/
abbrev simplefsNameMax : Nat := 32
/-- Source: `simplefs.h` `SIMPLEFS_DATA_START` -/
abbrev simplefsDataStart : Nat := 5
/-- Source: `simplefs.c` `SIMPLEFS_MAX_TRACKED_SECTORS` -/
abbrev simplefsMaxTrackedSectors : Nat := 4096
/-- Source: `vfs.h` `VFS_O_RDONLY` -/
abbrev vfsORdonly : Word := 0x0001
/-- Source: `vfs.h` `VFS_O_WRONLY` -/
abbrev vfsOWronly : Word := 0x0002
/-- Source: `vfs.h` `VFS_O_RDWR` -/
abbrev vfsORdwr : Word := 0x0003
/-- Source: `vfs.h` `VFS_O_CREAT` -/
abbrev vfsOCreat : Word := 0x0100
/-- Source: `vfs.h` `VFS_O_TRUNC` -/
abbrev vfsOTrunc : Word := 0x0200

/-- The bytes of a sector; only those below `SECTOR_SIZE` are stored. -/
abbrev Sector := Nat → Byte

/-- `memcpy(dst + i, src, n)` -/
def memcpy (dst : Nat → Byte) (i : Nat) (src : Nat → Byte) (n : Nat) : Nat → Byte :=
  fun k => if i ≤ k ∧ k < i + n then src (k - i) else dst k

/-- `memset(sector, 0, sizeof(sector))` -/
def zeroSector : Sector := fun _ => 0

/-- A NUL-terminated string: the bytes before the terminator, which is the end of the list or its
first zero byte. -/
abbrev CString := List Byte

/-- Source: `blkdev.h` `struct block_device`; `read_sector` and `write_sector` as to whether they
are there -/
structure BlockDevice where
  sectorCount : Nat
  sectorSize : Nat
  readSector : Bool
  writeSector : Bool

/-- Source: `simplefs.c` `struct simplefs_superblock` -/
structure Superblock where
  magic : Nat
  version : Nat
  sectorSize : Nat
  totalSectors : Nat
  dirStart : Nat
  dirSectors : Nat
  dataStart : Nat
  nextFreeSector : Nat
  maxFiles : Nat

/-- Source: `simplefs.c` `struct simplefs_dir_entry` -/
structure DirEntry where
  used : Nat
  name : Vector Byte simplefsNameMax
  startSector : Nat
  sizeBytes : Nat
  allocatedSectors : Nat
  flags : Nat
  reserved : Vector Nat 3

/-- Source: `simplefs.h` `struct simplefs_file_info` -/
structure FileInfo where
  startSector : Nat
  size : Nat
  allocatedSectors : Nat
  flags : Nat
  deriving DecidableEq

/-- A call of a device's `read_sector` or `write_sector`. -/
inductive Access where
  | read (lba : Nat)
  | write (lba : Nat)
  deriving DecidableEq

/-- The static variables of `simplefs.c`, and the block devices. -/
structure SimpleFs where
  devices : Nat → BlockDevice
  /-- the sectors of each device -/
  disk : Nat → Nat → Sector
  /-- which of the coming sector reads and writes fail -/
  faults : Faults
  /-- the calls of the devices so far, the latest first -/
  log : List Access
  simplefsDev : Option Nat
  simplefsSb : Superblock
  simplefsMounted : Bool
  simplefsSectorUsed : Nat → Bool

/-! ### Structures as bytes -/

/-- A `uint32_t` at byte `i`. -/
def u32At (bytes : Nat → Byte) (i : Nat) : Nat := (wordOfBytes bytes i).toNat

/-- Byte `k` of a `uint32_t`. -/
def u32Byte (n k : Nat) : Byte := wordByte (BitVec.ofNat 32 n) k

/-- A superblock read from the bytes of a sector. -/
def Superblock.ofBytes (bytes : Nat → Byte) : Superblock where
  magic := u32At bytes 0
  version := u32At bytes 4
  sectorSize := u32At bytes 8
  totalSectors := u32At bytes 12
  dirStart := u32At bytes 16
  dirSectors := u32At bytes 20
  dataStart := u32At bytes 24
  nextFreeSector := u32At bytes 28
  maxFiles := u32At bytes 32

/-- The fields of a superblock in order. -/
def Superblock.field (sb : Superblock) : Nat → Nat
  | 0 => sb.magic
  | 1 => sb.version
  | 2 => sb.sectorSize
  | 3 => sb.totalSectors
  | 4 => sb.dirStart
  | 5 => sb.dirSectors
  | 6 => sb.dataStart
  | 7 => sb.nextFreeSector
  | _ => sb.maxFiles

/-- Byte `k` of a superblock. -/
def Superblock.toBytes (sb : Superblock) (k : Nat) : Byte := u32Byte (sb.field (k / 4)) (k % 4)

/-- `sizeof(struct simplefs_superblock)` -/
abbrev superblockSize : Nat := 36

/-- `sizeof(struct simplefs_dir_entry)` -/
abbrev dirEntrySize : Nat := 64

/-- A directory entry read from bytes. -/
def DirEntry.ofBytes (bytes : Nat → Byte) : DirEntry where
  used := u32At bytes 0
  name := Vector.ofFn fun k => bytes (4 + k)
  startSector := u32At bytes 36
  sizeBytes := u32At bytes 40
  allocatedSectors := u32At bytes 44
  flags := u32At bytes 48
  reserved := Vector.ofFn fun k => u32At bytes (52 + 4 * k)

/-- The words of a directory entry after the name, in order. -/
def DirEntry.field (e : DirEntry) : Nat → Nat
  | 0 => e.startSector
  | 1 => e.sizeBytes
  | 2 => e.allocatedSectors
  | 3 => e.flags
  | 4 => e.reserved[0]
  | 5 => e.reserved[1]
  | _ => e.reserved[2]

/-- Byte `k` of a directory entry. -/
def DirEntry.toBytes (e : DirEntry) (k : Nat) : Byte :=
  if k < 4 then u32Byte e.used k
  else if h : k < 36 then e.name.get ⟨k - 4, by show k - 4 < 32; omega⟩
  else u32Byte (e.field ((k - 36) / 4)) ((k - 36) % 4)

/-- `memset(&entry, 0, sizeof(entry))` -/
def DirEntry.zero : DirEntry where
  used := 0
  name := Vector.replicate _ 0
  startSector := 0
  sizeBytes := 0
  allocatedSectors := 0
  flags := 0
  reserved := Vector.replicate _ 0

/-- What `simplefs_open` and `simplefs_stat` report about a file. -/
def DirEntry.info (e : DirEntry) : FileInfo where
  startSector := e.startSector
  size := e.sizeBytes
  allocatedSectors := e.allocatedSectors
  flags := e.flags

/-- The string a character array holds. -/
def cstr (bytes : List Byte) : List Byte := bytes.takeWhile (· ≠ 0)

/-- `strcmp(entry.name, name) == 0`; `name` fits in the array with its terminator, so the comparison
ends inside it. -/
def DirEntry.nameIs (e : DirEntry) (name : List Byte) : Bool := cstr e.name.toList == name

/-- A computation on the file system that ends with a status. -/
abbrev FsM (α : Type) := StM Int SimpleFs α

namespace SimpleFs

open StM

/-! ### Sectors -/

/-- `simplefs_dev->read_sector(simplefs_dev, lba, sector)` -/
def readSector (lba : Nat) : FsM Sector := fun s =>
  match s.simplefsDev with
  | none => (.error vfsEio, s)
  | some dev =>
    let s' := { s with faults := s.faults.after 1 0, log := .read lba :: s.log }
    if s.faults.read 0 then (.error vfsEio, s') else (.ok (s.disk dev lba), s')

/-- `simplefs_dev->write_sector(simplefs_dev, lba, sector)` -/
def writeSector (lba : Nat) (sector : Sector) : FsM Unit := fun s =>
  match s.simplefsDev with
  | none => (.error vfsEio, s)
  | some dev =>
    let s' := { s with faults := s.faults.after 0 1, log := .write lba :: s.log }
    if s.faults.write 0 then (.error vfsEio, s')
    else (.ok (), { s' with disk := update s.disk dev (update (s.disk dev) lba sector) })

/-- Source: `simplefs.c` `simplefs_sectors_for_bytes` -/
def sectorsForBytes (bytes : Nat) : Nat :=
  if bytes = 0 then 0 else (bytes + sectorSize - 1) % wordSize / sectorSize

/-- `a - b` in `uint32_t` -/
def u32Sub (a b : Nat) : Nat := (a + wordSize - b) % wordSize

/-- Source: `simplefs.c` `simplefs_validate_dev` -/
def validateDev (d : BlockDevice) : Bool :=
  d.readSector && d.writeSector && d.sectorSize == sectorSize &&
    decide (simplefsDataStart < d.sectorCount) &&
    decide (d.sectorCount ≤ simplefsMaxTrackedSectors)

/-- Source: `simplefs.c` `simplefs_sector_set` -/
def sectorSet (s : SimpleFs) (sector : Nat) : SimpleFs :=
  { s with simplefsSectorUsed := update s.simplefsSectorUsed sector true }

/-- Source: `simplefs.c` `simplefs_sector_clear` -/
def sectorClear (s : SimpleFs) (sector : Nat) : SimpleFs :=
  { s with simplefsSectorUsed := update s.simplefsSectorUsed sector false }

/-- The range check of `simplefs_mark_run_used` and `simplefs_mark_run_free`. -/
def runOutside (s : SimpleFs) (start count : Nat) : Bool :=
  decide (start < simplefsDataStart) || decide (s.simplefsSb.totalSectors ≤ start) ||
    decide (u32Sub s.simplefsSb.totalSectors start < count)

/-- The loop of `simplefs_mark_run_used`, with `n` sectors to go. -/
def markRunUsedFrom (sector : Nat) : Nat → FsM Unit
  | 0 => pure ()
  | n + 1 => do
    if (← get).simplefsSectorUsed sector then fail vfsEio
    modify (·.sectorSet sector)
    markRunUsedFrom (sector + 1) n

/-- Source: `simplefs.c` `simplefs_mark_run_used` -/
def markRunUsed (start count : Nat) : FsM Unit := do
  if count = 0 then return ()
  if (← get).runOutside start count then fail vfsEio
  markRunUsedFrom start count

/-- Source: `simplefs.c` `simplefs_mark_run_free` -/
def markRunFree (s : SimpleFs) (start count : Nat) : SimpleFs :=
  if count = 0 || s.runOutside start count then s
  else (List.range count).foldl (fun s i => s.sectorClear (start + i)) s

/-! ### Directory entries and the superblock -/

/-- Source: `simplefs.c` `simplefs_write_superblock` -/
def writeSuperblock : FsM Unit := do
  writeSector 0 (memcpy zeroSector 0 (← get).simplefsSb.toBytes superblockSize)

/-- Source: `simplefs.c` `simplefs_read_entry` -/
def readEntry (index : Nat) : FsM DirEntry := do
  let entriesPerSector := sectorSize / dirEntrySize
  let sectorLba := (← get).simplefsSb.dirStart + index / entriesPerSector
  let sectorOffset := index % entriesPerSector * dirEntrySize
  if simplefsMaxFiles ≤ index then fail vfsEinval
  let sector ← readSector sectorLba
  return DirEntry.ofBytes fun k => sector (sectorOffset + k)

/-- Source: `simplefs.c` `simplefs_write_entry` -/
def writeEntry (index : Nat) (entry : DirEntry) : FsM Unit := do
  let entriesPerSector := sectorSize / dirEntrySize
  let sectorLba := (← get).simplefsSb.dirStart + index / entriesPerSector
  let sectorOffset := index % entriesPerSector * dirEntrySize
  if simplefsMaxFiles ≤ index then fail vfsEinval
  let sector ← readSector sectorLba
  writeSector sectorLba (memcpy sector sectorOffset entry.toBytes dirEntrySize)

/-- The first entry from index `i` on, of `n`, that satisfies a test: the loops of
`simplefs_find_entry` and `simplefs_find_free_entry`. -/
def findFrom (test : DirEntry → Bool) (status : Int) (i : Nat) : Nat → FsM (Nat × DirEntry)
  | 0 => fail status
  | n + 1 => do
    let entry ← readEntry i
    if test entry then return (i, entry)
    findFrom test status (i + 1) n

/-- Source: `simplefs.c` `simplefs_find_entry` -/
def findEntry (name : List Byte) : FsM (Nat × DirEntry) :=
  findFrom (fun entry => entry.used != 0 && entry.nameIs name) vfsEnoent 0 simplefsMaxFiles

/-- Source: `simplefs.c` `simplefs_find_free_entry` -/
def findFreeEntry : FsM Nat := do
  let r ← findFrom (fun entry => entry.used == 0) vfsEnospc 0 simplefsMaxFiles
  return r.1

/-- The loop of `simplefs_rebuild_allocation_map` over the `n` entries from `i` on; returns the end
of the highest extent. -/
def rebuildFrom (highWater i : Nat) : Nat → FsM Nat
  | 0 => return highWater
  | n + 1 => do
    let entry ← readEntry i
    if entry.used = 0 ∨ entry.allocatedSectors = 0 then rebuildFrom highWater (i + 1) n
    else
      if (← get).runOutside entry.startSector entry.allocatedSectors then fail vfsEio
      markRunUsed entry.startSector entry.allocatedSectors
      let stop := (entry.startSector + entry.allocatedSectors) % wordSize
      rebuildFrom (if highWater < stop then stop else highWater) (i + 1) n

/-- Source: `simplefs.c` `simplefs_rebuild_allocation_map` -/
def rebuildAllocationMap : FsM Unit := do
  modify fun s => { s with simplefsSectorUsed := fun i => decide (i < simplefsDataStart) }
  let highWater ← rebuildFrom simplefsDataStart 0 simplefsMaxFiles
  modify fun s => { s with simplefsSb := { s.simplefsSb with nextFreeSector := highWater } }
  writeSuperblock

/-! ### Paths -/

/-- The loop of `simplefs_normalize_path` from position `len` of the name on. -/
def normalizeFrom (len : Nat) : List Byte → Option (List Byte)
  | [] => some []
  | c :: cs =>
    if c = 0 then some []
    else if c = 0x2F then none
    else if simplefsNameMax - 1 ≤ len then none
    else (normalizeFrom (len + 1) cs).map (c :: ·)

/-- The name a path stands for, if it is accepted. `'/'` is `0x2F` and `'.'` is `0x2E`.
Source: `simplefs.c` `simplefs_normalize_path` -/
def normalizePath : Option CString → Option (List Byte)
  | none => none
  | some path =>
    match path with
    | [] => none
    | c :: name =>
      if c ≠ 0x2F then none
      else
        match normalizeFrom 0 name with
        | none => none
        | some name =>
          -- an empty name is refused before the loop
          if name = [] ∨ name = [0x2E] ∨ name = [0x2E, 0x2E] then none else some name

/-- `simplefs_normalize_path` as a step of a caller. -/
def normalize (path : Option CString) : FsM (List Byte) :=
  match normalizePath path with
  | none => fail vfsEinval
  | some name => pure name

/-- The array a name is stored in.
Source: `simplefs.c` `simplefs_copy_name` -/
def copyName (name : List Byte) : Vector Byte simplefsNameMax :=
  Vector.ofFn fun k => if k.val < simplefsNameMax - 1 then name.getD k 0 else 0

/-! ### Allocation -/

/-- The length of the free run at `sector`, at most `n`: the inner loop of
`simplefs_allocate_sectors`. -/
def freeRun (used : Nat → Bool) (sector : Nat) : Nat → Nat
  | 0 => 0
  | n + 1 => if used sector then 0 else freeRun used (sector + 1) n + 1

/-- The outer loop of `simplefs_allocate_sectors`: the first start from `start` to `last` with
`count` free sectors. -/
def findRun (used : Nat → Bool) (count last start : Nat) : Option Nat :=
  if last < start then none
  else if freeRun used start count = count then some start
  else findRun used count last (start + freeRun used start count + 1)
termination_by last + 1 - start

/-- Source: `simplefs.c` `simplefs_allocate_sectors` -/
def allocateSectors (count : Nat) : FsM Nat := do
  if count = 0 then return 0
  let s ← get
  if u32Sub s.simplefsSb.totalSectors simplefsDataStart < count then fail vfsEnospc
  match findRun s.simplefsSectorUsed count (u32Sub s.simplefsSb.totalSectors count)
      simplefsDataStart with
  | none => fail vfsEnospc
  | some start =>
    markRunUsed start count
    modify fun s =>
      if s.simplefsSb.nextFreeSector < start + count then
        { s with simplefsSb := { s.simplefsSb with nextFreeSector := start + count } }
      else s
    writeSuperblock
    return start

/-- The loop of `simplefs_zero_run`, with `n` sectors to go. -/
def zeroRun (sector : Nat) : Nat → FsM Unit
  | 0 => pure ()
  | n + 1 => do
    writeSector sector zeroSector
    zeroRun (sector + 1) n

/-- The loop of `simplefs_copy_file_data`, with `n` sectors to go. -/
def copySectors (source target : Nat) : Nat → FsM Unit
  | 0 => pure ()
  | n + 1 => do
    let sector ← readSector source
    writeSector target sector
    copySectors (source + 1) (target + 1) n

/-- Source: `simplefs.c` `simplefs_copy_file_data` -/
def copyFileData (entry : DirEntry) (newStart : Nat) : FsM Unit :=
  copySectors entry.startSector newStart (sectorsForBytes entry.sizeBytes)

/-- Source: `simplefs.c` `simplefs_ensure_capacity` -/
def ensureCapacity (entry : DirEntry) (requiredSectors : Nat) : FsM DirEntry := do
  if requiredSectors ≤ entry.allocatedSectors then return entry
  let newStart ← allocateSectors requiredSectors
  zeroRun newStart requiredSectors
  if 0 < entry.sizeBytes ∧ 0 < entry.allocatedSectors then copyFileData entry newStart
  return { entry with startSector := newStart, allocatedSectors := requiredSectors }

/-! ### The interface -/

/-- Source: `simplefs.c` `simplefs_format` -/
def simplefsFormat (dev : Option Nat) : FsM Unit := do
  match dev with
  | none => fail vfsEinval
  | some d =>
    let s ← get
    if !validateDev (s.devices d) then fail vfsEinval
    modify fun s =>
      { s with
        simplefsDev := some d
        simplefsSb :=
          { magic := simplefsMagic
            version := simplefsVersion
            sectorSize := sectorSize
            totalSectors := (s.devices d).sectorCount
            dirStart := simplefsDirStart
            dirSectors := simplefsDirSectors
            dataStart := simplefsDataStart
            nextFreeSector := simplefsDataStart
            maxFiles := simplefsMaxFiles } }
    writeSuperblock
    zeroRun simplefsDirStart simplefsDirSectors
    match ← attempt rebuildAllocationMap with
    | .error status =>
      modify fun s => { s with simplefsMounted := false }
      fail status
    | .ok _ => modify fun s => { s with simplefsMounted := true }

/-- The checks of `simplefs_mount` on the superblock it has read. -/
def superblockValid (sb : Superblock) (d : BlockDevice) : Bool :=
  sb.magic == simplefsMagic && sb.version == simplefsVersion && sb.sectorSize == sectorSize &&
    sb.totalSectors == d.sectorCount && sb.dirStart == simplefsDirStart &&
    sb.dirSectors == simplefsDirSectors && sb.dataStart == simplefsDataStart &&
    sb.maxFiles == simplefsMaxFiles && decide (simplefsDataStart ≤ sb.nextFreeSector) &&
    decide (sb.nextFreeSector ≤ d.sectorCount)

/-- `dev->read_sector(dev, 0, sector)` on a device that need not be the mounted one. -/
def readSectorZero (d : Nat) : FsM Sector := fun s =>
  let s' := { s with faults := s.faults.after 1 0, log := .read 0 :: s.log }
  if s.faults.read 0 then (.error vfsEio, s') else (.ok (s.disk d 0), s')

/-- Source: `simplefs.c` `simplefs_mount` -/
def simplefsMount (dev : Option Nat) : FsM Unit := do
  match dev with
  | none => fail vfsEinval
  | some d =>
    let s ← get
    if !validateDev (s.devices d) then fail vfsEinval
    let sector ← readSectorZero d
    -- the superblock in memory is replaced before it is checked
    modify fun s => { s with simplefsSb := Superblock.ofBytes sector }
    if !superblockValid (Superblock.ofBytes sector) (s.devices d) then fail vfsEio
    modify fun s => { s with simplefsDev := some d }
    match ← attempt rebuildAllocationMap with
    | .error status =>
      modify fun s => { s with simplefsMounted := false }
      fail status
    | .ok _ => modify fun s => { s with simplefsMounted := true }

/-- `if (!simplefs_mounted) return VFS_EIO` -/
def requireMounted : FsM Unit := do
  if !(← get).simplefsMounted then fail vfsEio

/-- Source: `simplefs.c` `simplefs_open` -/
def simplefsOpen (path : Option CString) (flags : Word) : FsM FileInfo := do
  requireMounted
  let name ← normalize path
  match ← attempt (findEntry name) with
  | .error status =>
    if status = vfsEnoent then
      if !test flags vfsOCreat then fail vfsEnoent
      let index ← findFreeEntry
      let entry := { DirEntry.zero with used := 1, name := copyName name }
      writeEntry index entry
      return DirEntry.info entry
    else fail status
  | .ok (index, entry) =>
    if test flags vfsOTrunc then
      modify (·.markRunFree entry.startSector entry.allocatedSectors)
      let entry := { entry with startSector := 0, sizeBytes := 0, allocatedSectors := 0 }
      writeEntry index entry
      return DirEntry.info entry
    else return DirEntry.info entry

/-- The loop of `simplefs_read` once `done` of `count` bytes have been read. -/
def readLoop (entry : DirEntry) (offset count done : Nat) : FsM (List Byte) := do
  if done < count then
    let absolute := (offset + done) % wordSize
    let sectorIndex := absolute / sectorSize
    let sectorOffset := absolute % sectorSize
    let chunk := min (count - done) (sectorSize - sectorOffset)
    let sector ← readSector ((entry.startSector + sectorIndex) % wordSize)
    let rest ← readLoop entry offset count (done + chunk)
    return (List.range chunk).map (fun k => sector (sectorOffset + k)) ++ rest
  else return []
termination_by count - done
decreasing_by
  have := Nat.mod_lt ((offset + done) % wordSize) (show 0 < sectorSize by decide)
  omega

/-- The bytes read; `buffer` is whether the caller's buffer is there.
Source: `simplefs.c` `simplefs_read` -/
def simplefsRead (path : Option CString) (offset : Nat) (buffer : Bool) (count : Nat) :
    FsM (List Byte) := do
  requireMounted
  if !buffer ∧ 0 < count then fail vfsEinval
  let name ← normalize path
  let (_, entry) ← findEntry name
  if entry.sizeBytes ≤ offset ∨ count = 0 then return []
  readLoop entry offset (min count (entry.sizeBytes - offset)) 0

/-- The loop of `simplefs_write` once `done` of `count` bytes have been written. A chunk of a whole
sector overwrites all of the local buffer, so what that held does not matter. -/
def writeLoop (entry : DirEntry) (offset : Nat) (input : Nat → Byte) (count done : Nat) :
    FsM Unit := do
  if done < count then
    let absolute := (offset + done) % wordSize
    let sectorIndex := absolute / sectorSize
    let sectorOffset := absolute % sectorSize
    let chunk := min (count - done) (sectorSize - sectorOffset)
    let lba := (entry.startSector + sectorIndex) % wordSize
    let sector ← if chunk ≠ sectorSize then readSector lba else pure zeroSector
    writeSector lba (memcpy sector sectorOffset (fun k => input (done + k)) chunk)
    writeLoop entry offset input count (done + chunk)
  else return ()
termination_by count - done
decreasing_by
  have := Nat.mod_lt ((offset + done) % wordSize) (show 0 < sectorSize by decide)
  omega

/-- The number of bytes written; `buffer` is the caller's, if it is there.
Source: `simplefs.c` `simplefs_write` -/
def simplefsWrite (path : Option CString) (offset : Nat) (buffer : Option (Nat → Byte))
    (count : Nat) : FsM Nat := do
  requireMounted
  match buffer with
  | none => if 0 < count then fail vfsEinval else return 0
  | some input =>
    if count = 0 then return 0
    if (offset + count) % wordSize < offset then fail vfsEinval
    let name ← normalize path
    let (index, entry) ← findEntry name
    let newSize :=
      if (offset + count) % wordSize < entry.sizeBytes then entry.sizeBytes
      else (offset + count) % wordSize
    let entry' ← ensureCapacity entry (sectorsForBytes newSize)
    writeLoop entry' offset input count 0
    writeEntry index { entry' with sizeBytes := newSize }
    if 0 < entry.allocatedSectors ∧ entry'.startSector ≠ entry.startSector then
      modify (·.markRunFree entry.startSector entry.allocatedSectors)
    return count

/-- `out` is whether the caller's structure is there.
Source: `simplefs.c` `simplefs_stat` -/
def simplefsStat (path : Option CString) (out : Bool) : FsM FileInfo := do
  requireMounted
  if !out then fail vfsEinval
  let name ← normalize path
  let (_, entry) ← findEntry name
  return DirEntry.info entry

/-- The static variables at boot, over devices that work. -/
def atBoot (devices : Nat → BlockDevice) (disk : Nat → Nat → Sector) : SimpleFs where
  devices := devices
  disk := disk
  faults := .none
  log := []
  simplefsDev := none
  simplefsSb := Superblock.ofBytes zeroSector
  simplefsMounted := false
  simplefsSectorUsed := fun _ => false

end SimpleFs

end AgenticOs
