import AgenticOs.Fs.FileWrite
import AgenticOs.Fs.Paths
import AgenticOs.Fs.Vfs

/-!
# Calls that are given a path, and the entry they come to

Each call looks for its path in the directory before it does anything else with a file. The first part of a
call, up to there, is a function of its own here, which says the index of the entry; the call is this part and
what follows it.

* `openTarget` ends with the entry that is found, or with the free one that the name is stored in
  (`OpenEntry`), and `openRest` goes on from there; `simplefsOpen_parts` says that both together are
  `simplefs_open`.
* `readTarget`, `writeTarget` and `statTarget` are the same of the other calls; `simplefs_write` looks for its
  path only if it has something to write.

A run of `openTarget` that fails has not come to an entry, and then the call has failed the same way.
-/

namespace AgenticOs

open Function Lib Lib.StM

namespace SimpleFs

/-- The entry of a path. -/
def lookupPath (path : Option CString) : FsM (Nat × DirEntry) := do
  let name ← normalize path
  findEntry name

/-- The entry of a file that is opened: the one found, or the free one that the name is stored in. -/
inductive OpenEntry
  | found (index : Nat) (entry : DirEntry)
  | created (index : Nat) (entry : DirEntry)

/-- The index of the entry. -/
def OpenEntry.index : OpenEntry → Nat
  | .found index _ => index
  | .created index _ => index

/-- `simplefs_open` up to the entry. -/
def openTarget (path : Option CString) (flags : Word) : FsM OpenEntry := do
  requireMounted
  let name ← normalize path
  match ← attempt (findEntry name) with
  | .error status =>
    if status = vfsEnoent then
      if !test flags vfsOCreat then fail vfsEnoent
      let index ← findFreeEntry
      let entry := { DirEntry.zero with used := 1, name := copyName name }
      writeEntry index entry
      return .created index entry
    else fail status
  | .ok (index, entry) => return .found index entry

/-- `simplefs_open` after that. -/
def openRest (flags : Word) : OpenEntry → FsM FileInfo
  | .created _ entry => return DirEntry.info entry
  | .found index entry =>
    if test flags vfsOTrunc then do
      modify (·.markRunFree entry.startSector entry.allocatedSectors)
      let entry := { entry with startSector := 0, sizeBytes := 0, allocatedSectors := 0 }
      writeEntry index entry
      return DirEntry.info entry
    else return DirEntry.info entry

/-- `simplefs_read` up to the entry. -/
def readTarget (path : Option CString) (buffer : Bool) (count : Nat) : FsM (Nat × DirEntry) := do
  requireMounted
  if !buffer ∧ 0 < count then fail vfsEinval
  lookupPath path

/-- `simplefs_write` up to the entry, if it has something to write. -/
def writeTarget (path : Option CString) (offset : Nat) (buffer : Option (Nat → Byte)) (count : Nat) :
    FsM (Option (Nat × DirEntry)) := do
  requireMounted
  if buffer.isNone then
    if 0 < count then fail vfsEinval else return none
  else
    if count = 0 then return none
    if (offset + count) % wordSize < offset then fail vfsEinval
    let found ← lookupPath path
    return some found

/-- `simplefs_write` after that. -/
def writeRest (offset : Nat) (input : Nat → Byte) (count : Nat) : Option (Nat × DirEntry) → FsM Nat
  | none => return 0
  | some (index, entry) => do
    let newSize :=
      if (offset + count) % wordSize < entry.sizeBytes then entry.sizeBytes
      else (offset + count) % wordSize
    let entry' ← ensureCapacity entry (sectorsForBytes newSize)
    writeLoop entry' offset input count 0
    writeEntry index { entry' with sizeBytes := newSize }
    if 0 < entry.allocatedSectors ∧ entry'.startSector ≠ entry.startSector then
      modify (·.markRunFree entry.startSector entry.allocatedSectors)
    return count

/-- `simplefs_stat` up to the entry. -/
def statTarget (path : Option CString) (out : Bool) : FsM (Nat × DirEntry) := do
  requireMounted
  if !out then fail vfsEinval
  lookupPath path

/-! ### The calls are these parts -/

/-- **`simplefs_open`** is its search and what follows it. -/
theorem simplefsOpen_parts (path : Option CString) (flags : Word) :
    simplefsOpen path flags = openTarget path flags >>= openRest flags := by
  unfold simplefsOpen openTarget
  simp only [bind_assoc]
  refine bind_congr fun _ => bind_congr fun name => bind_congr fun found => ?_
  rcases found with status | ⟨index, entry⟩
  · dsimp only
    split
    · split
      · rfl
      · simp only [bind_assoc, pure_bind]
        rfl
    · rfl
  · rfl

/-- **`simplefs_read`** is its search and the read of the entry found. -/
theorem simplefsRead_parts (path : Option CString) (offset : Nat) (buffer : Bool) (count : Nat) :
    simplefsRead path offset buffer count = readTarget path buffer count >>= Volume.readFound offset count := by
  unfold simplefsRead readTarget lookupPath
  simp only [bind_assoc]
  refine bind_congr fun _ => ?_
  split
  · rfl
  · simp only [bind_assoc]
    rfl

/-- **`simplefs_stat`** is its search and the report of the entry found. -/
theorem simplefsStat_parts (path : Option CString) (out : Bool) :
    simplefsStat path out = statTarget path out >>= fun found => return found.2.info := by
  unfold simplefsStat statTarget lookupPath
  simp only [bind_assoc]
  refine bind_congr fun _ => ?_
  split
  · rfl
  · simp only [bind_assoc]

/-- **`simplefs_write`** is its search, if it has something to write, and what follows it. -/
theorem simplefsWrite_parts (path : Option CString) (offset : Nat) (buffer : Option (Nat → Byte)) (count : Nat) :
    simplefsWrite path offset buffer count =
      writeTarget path offset buffer count >>= writeRest offset (buffer.getD zeroSector) count := by
  unfold simplefsWrite writeTarget lookupPath
  simp only [bind_assoc]
  refine bind_congr fun _ => ?_
  rcases buffer with _ | input
  · dsimp only [Option.isNone]
    rw [if_pos rfl]
    split
    · rfl
    · rfl
  · dsimp only [Option.isNone]
    rw [if_neg Bool.false_ne_true]
    split
    · rfl
    · split
      · rfl
      · simp only [bind_assoc, pure_bind]
        rfl

end SimpleFs

end AgenticOs
