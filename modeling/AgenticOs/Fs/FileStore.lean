import AgenticOs.Fs.FileData
import AgenticOs.Fs.Vfs
import Mathlib.Data.Set.Card

/-!
# A store of files

What `vfs.c` over `simplefs.c` is for: files by name, and open descriptions that move through them. There are
no sectors here.

* **Store** (`FileStore`): the bytes of each file, and for each descriptor the description it stands for, with
  a name, flags and an offset. Descriptors that were retained share one.
* **Calls** (`FileStore.step`): open creates or empties a file, reads and writes go on at the offset, stat
  tells the size. The store answers by itself, but for one thing: it cannot tell when a file has no room to
  grow, and `full` says that it has none.
* **The code** (`VfsCall.run`): the function of `vfs.c` that a call runs; `Bounded` are the counts that the
  system calls let through.

That the code refines the store is in `StoreRefinement.lean`.
-/

namespace AgenticOs

open Function Lib

/-- A call of `vfs.c` once a file system is mounted. -/
inductive VfsCall
  | open (path : Option CString) (flags : Word)
  | read (fd : Int) (buffer : Bool) (count : Nat)
  | write (fd : Int) (buffer : Option (Nat → Byte)) (count : Nat)
  | retain (fd : Int)
  | close (fd : Int)
  | stat (path : Option CString) (out : Bool)

/-- What a call answers when it succeeds. -/
inductive VfsAnswer
  | fd (fd : Fin vfsMaxOpenFiles)
  | bytes (bytes : List Byte)
  | count (count : Nat)
  | done
  | size (size : Nat)

/-- An open file: reads and writes go on at the offset. -/
structure OpenDescription where
  name : List Byte
  flags : Word
  offset : Nat
  refCount : Nat

/-- Files by name, and what the descriptors stand for. -/
structure FileStore where
  files : List Byte → Option (List Byte)
  descriptions : Fin vfsMaxOpenFiles → Option OpenDescription

namespace FileStore

/-- A store without files. -/
def empty : FileStore := ⟨fun _ => none, fun _ => none⟩

/-- The number of files. -/
noncomputable def fileCount (S : FileStore) : Nat := {name | S.files name ≠ none}.ncard

/-- The lowest descriptor that stands for nothing. -/
def freeDescriptor (S : FileStore) : Option (Fin vfsMaxOpenFiles) :=
  (List.finRange vfsMaxOpenFiles).find? fun i => (S.descriptions i).isNone

/-- A descriptor in the table is an index. -/
theorem descriptor_lt {fd : Int} (h : 0 ≤ fd ∧ fd.toNat < vfsMaxOpenFiles) : fd.toNat < vfsMaxOpenFiles := h.2

/-- What a descriptor stands for. -/
def description (S : FileStore) (fd : Int) : Option (Fin vfsMaxOpenFiles × OpenDescription) :=
  if h : 0 ≤ fd ∧ fd.toNat < vfsMaxOpenFiles then
    (S.descriptions ⟨fd.toNat, descriptor_lt h⟩).map fun D => (⟨fd.toNat, descriptor_lt h⟩, D)
  else none

/-- Another description for a descriptor. -/
def describe (S : FileStore) (i : Fin vfsMaxOpenFiles) (D : Option OpenDescription) : FileStore :=
  { S with descriptions := update S.descriptions i D }

/-- Another content for a file. -/
def store (S : FileStore) (name bytes : List Byte) : FileStore :=
  { S with files := update S.files name (some bytes) }

/-- The bytes of a file. -/
def content (S : FileStore) (name : List Byte) : List Byte := (S.files name).getD []

/-- The file that an open names is there, is created or is emptied; there can be 32 files. -/
noncomputable def openFile (S : FileStore) (name : List Byte) (flags : Word) : Except Int FileStore :=
  match S.files name with
  | none =>
    if test flags vfsOCreat = false then .error vfsEnoent
    else if simplefsMaxFiles ≤ S.fileCount then .error vfsEnospc
    else .ok (S.store name [])
  | some _ => .ok (if test flags vfsOTrunc = true then S.store name [] else S)

/-- A call, answered by the store. -/
noncomputable def step (S : FileStore) (full : Bool) : VfsCall → Except Int VfsAnswer × FileStore
  | .open path flags =>
    if Vfs.vfsFlagsValid flags = false then (.error vfsEinval, S)
    else
      match Vfs.vfsCopyPath path with
      | none => (.error vfsEinval, S)
      | some copied =>
        match S.freeDescriptor with
        | none => (.error vfsEmfile, S)
        | some fd =>
          match SimpleFs.normalizePath (some copied) with
          | none => (.error vfsEinval, S)
          | some name =>
            match S.openFile name flags with
            | .error e => (.error e, S)
            | .ok S' =>
              (.ok (.fd fd), S'.describe fd (some { name := name, flags := flags, offset := 0, refCount := 1 }))
  | .read fd buffer count =>
    match S.description fd with
    | none => (.error vfsEbadf, S)
    | some (i, D) =>
      if !buffer ∧ 0 < count then (.error vfsEinval, S)
      else if test D.flags vfsORdonly = false then (.error vfsEbadf, S)
      else
        let bytes := ((S.content D.name).drop D.offset).take count
        (.ok (.bytes bytes), S.describe i (some { D with offset := D.offset + bytes.length }))
  | .write fd buffer count =>
    match S.description fd with
    | none => (.error vfsEbadf, S)
    | some (i, D) =>
      if buffer.isNone ∧ 0 < count then (.error vfsEinval, S)
      else if test D.flags vfsOWronly = false then (.error vfsEbadf, S)
      else if count = 0 then (.ok (.count 0), S)
      else if full ∧ (S.content D.name).length < D.offset + count then (.error vfsEnospc, S)
      else
        (.ok (.count count),
          (S.store D.name (splice (S.content D.name) D.offset (buffer.getD zeroSector) count)).describe i
            (some { D with offset := D.offset + count }))
  | .retain fd =>
    match S.description fd with
    | none => (.error vfsEbadf, S)
    | some (i, D) =>
      if D.refCount = uint32Max then (.error vfsEbadf, S)
      else (.ok .done, S.describe i (some { D with refCount := D.refCount + 1 }))
  | .close fd =>
    match S.description fd with
    | none => (.error vfsEbadf, S)
    | some (i, D) =>
      (.ok .done, S.describe i (if 1 < D.refCount then some { D with refCount := D.refCount - 1 } else none))
  | .stat path out =>
    if out = false then (.error vfsEinval, S)
    else
      match SimpleFs.normalizePath path with
      | none => (.error vfsEinval, S)
      | some name =>
        match S.files name with
        | none => (.error vfsEnoent, S)
        | some bytes => (.ok (.size bytes.length), S)

/-- What the calls answer one after another; with each call comes whether files can grow. -/
noncomputable def answers : FileStore → List (Bool × VfsCall) → List (Except Int VfsAnswer)
  | _, [] => []
  | S, (full, call) :: calls => (S.step full call).1 :: (S.step full call).2.answers calls

end FileStore

namespace VfsCall

/-- The function of `vfs.c` that a call runs. -/
def run : VfsCall → VfsM VfsAnswer
  | .open path flags => do
    let fd ← Vfs.vfsOpen path flags
    return .fd fd
  | .read fd buffer count => do
    let bytes ← Vfs.vfsRead fd buffer count
    return .bytes bytes
  | .write fd buffer count => do
    let written ← Vfs.vfsWrite fd buffer count
    return .count written
  | .retain fd => do
    let _ ← Vfs.vfsRetain fd
    return .done
  | .close fd => do
    let _ ← Vfs.vfsClose fd
    return .done
  | .stat path out => do
    let stat ← Vfs.vfsStat path out
    return .size stat.size

/-- The counts of writes that the system calls let through. -/
def Bounded : VfsCall → Prop
  | .write _ _ count => count ≤ 2 ^ 31
  | _ => True

/-- What the calls answer one after another. -/
def answers (v : Vfs) : List VfsCall → List (Except Int VfsAnswer)
  | [] => []
  | call :: calls => (call.run v).1 :: answers (call.run v).2 calls

end VfsCall

end AgenticOs
