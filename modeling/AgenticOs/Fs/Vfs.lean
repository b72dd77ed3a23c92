import AgenticOs.Fs.SimpleFs

/-!
# `kernel/vfs.c`

The table of open files over the file system.

* **State**: `Vfs` is the open table with the file system under it. An open file has a path, flags, an offset
  and the number of descriptors that share it.
* **Errors**: a C function that returns a descriptor, a count or zero is a function in `VfsM`: an error
  carries the negative status. `Vfs.call` hands a call to `simplefs.c`.
* **Offsets**: a read or a write moves the offset of the open file by what was read or written (`advance`),
  whichever descriptor it came through. A count of `2^31` or more is a negative `int`.

Descriptors of `vfs.c` are not those of a process; `Kernel/Process.lean` has the latter.
-/

namespace AgenticOs

open Function Lib

/-- Source: `vfs.h` `VFS_MAX_OPEN_FILES` -/
abbrev vfsMaxOpenFiles : Nat := 16
/-- Source: `vfs.h` `VFS_MAX_PATH` -/
abbrev vfsMaxPath : Nat := 64

/-- Source: `vfs.c` `struct vfs_open_file` -/
structure VfsOpenFile where
  used : Bool
  refCount : Nat
  path : CString
  flags : Word
  offset : Nat

/-- The all-zero entry left by `memset`. -/
def VfsOpenFile.zero : VfsOpenFile where
  used := false
  refCount := 0
  path := []
  flags := 0
  offset := 0

/-- The static variables of `vfs.c`, and the file system under it. -/
structure Vfs where
  fs : SimpleFs
  vfsRootDev : Option Nat
  vfsMounted : Bool
  vfsOpenFiles : Fin vfsMaxOpenFiles → VfsOpenFile

/-- A function of `vfs.c` that returns a status. -/
abbrev VfsM (α : Type) := StM Int Vfs α

namespace Vfs

open StM

/-- A call of the file system. -/
def call {α : Type} (x : FsM α) : VfsM α := fun v => ((x v.fs).1, { v with fs := (x v.fs).2 })

/-- Source: `vfs.c` `vfs_flags_valid` -/
def vfsFlagsValid (flags : Word) : Bool :=
  !test flags (~~~(vfsORdwr ||| vfsOCreat ||| vfsOTrunc)) && test flags vfsORdwr &&
    !(test flags vfsOTrunc && !test flags vfsOWronly) &&
    !(test flags vfsOCreat && !test flags vfsOWronly)

/-- Source: `vfs.c` `vfs_copy_path` -/
def vfsCopyPath : Option CString → Option CString
  | none => none
  | some path => if vfsMaxPath ≤ (cstr path).length then none else some (cstr path)

/-- Source: `vfs.c` `vfs_alloc_fd` -/
def vfsAllocFd (v : Vfs) : Option (Fin vfsMaxOpenFiles) :=
  (List.finRange vfsMaxOpenFiles).find? fun i => !(v.vfsOpenFiles i).used

/-- The open file a descriptor names. Source: `vfs.c` `vfs_fd_valid` -/
def vfsFdValid (v : Vfs) (fd : Int) : Option (Fin vfsMaxOpenFiles) :=
  if h : 0 ≤ fd ∧ fd.toNat < vfsMaxOpenFiles then
    if (v.vfsOpenFiles ⟨fd.toNat, h.2⟩).used then some ⟨fd.toNat, h.2⟩ else none
  else none

/-- `vfs_open_files[fd] = file` -/
def setOpenFile (v : Vfs) (fd : Fin vfsMaxOpenFiles) (file : VfsOpenFile) : Vfs :=
  { v with vfsOpenFiles := update v.vfsOpenFiles fd file }

/-- Source: `vfs.c` `vfs_clear_open_files` -/
def vfsClearOpenFiles (v : Vfs) : Vfs := { v with vfsOpenFiles := fun _ => VfsOpenFile.zero }

/-- Source: `vfs.c` `vfs_init` -/
def vfsInit (dev : Option Nat) : VfsM Unit := do
  match dev with
  | none => fail vfsEinval
  | some d =>
    if ((← get).fs.devices d).sectorSize ≠ sectorSize then fail vfsEinval
    modify fun v => { v with vfsRootDev := some d, vfsMounted := false }.vfsClearOpenFiles

/-- Source: `vfs.c` `vfs_format` -/
def vfsFormat : VfsM Unit := do
  let v ← get
  if v.vfsRootDev.isNone then fail vfsEinval
  modify fun v => { v.vfsClearOpenFiles with vfsMounted := false }
  call (SimpleFs.simplefsFormat v.vfsRootDev)

/-- Source: `vfs.c` `vfs_mount` -/
def vfsMount : VfsM Unit := do
  let v ← get
  if v.vfsRootDev.isNone then fail vfsEinval
  match ← attempt (call (SimpleFs.simplefsMount v.vfsRootDev)) with
  | .error status =>
    modify fun v => { v with vfsMounted := false }
    fail status
  | .ok _ => modify fun v => { v with vfsMounted := true }

/-- Source: `vfs.c` `vfs_open` -/
def vfsOpen (path : Option CString) (flags : Word) : VfsM (Fin vfsMaxOpenFiles) := do
  if !(← get).vfsMounted then fail vfsEio
  if !vfsFlagsValid flags then fail vfsEinval
  match vfsCopyPath path with
  | none => fail vfsEinval
  | some path =>
    match (← get).vfsAllocFd with
    | none => fail vfsEmfile
    | some fd =>
      let _ ← call (SimpleFs.simplefsOpen (some path) flags)
      modify fun v => v.setOpenFile fd
        { used := true, refCount := 1, path := path, flags := flags, offset := 0 }
      return fd

/-- The offset of an open file moves by what was read or written. -/
def advance (fd : Fin vfsMaxOpenFiles) (count : Nat) (v : Vfs) : Vfs :=
  let file := v.vfsOpenFiles fd
  v.setOpenFile fd { file with offset := (file.offset + count) % wordSize }

/-- The bytes read; `buffer` is whether the caller's buffer is there.
Source: `vfs.c` `vfs_read` -/
def vfsRead (fd : Int) (buffer : Bool) (count : Nat) : VfsM (List Byte) := do
  match (← get).vfsFdValid fd with
  | none => fail vfsEbadf
  | some i =>
    if !buffer ∧ 0 < count then fail vfsEinval
    let file := (← get).vfsOpenFiles i
    if !test file.flags vfsORdonly then fail vfsEbadf
    let bytes ← call (SimpleFs.simplefsRead (some file.path) file.offset buffer count)
    modify (advance i bytes.length)
    return bytes

/-- The number of bytes written; `buffer` is the caller's, if it is there. A count of `2^31` or more
is a negative `int` status.
Source: `vfs.c` `vfs_write` -/
def vfsWrite (fd : Int) (buffer : Option (Nat → Byte)) (count : Nat) : VfsM Nat := do
  match (← get).vfsFdValid fd with
  | none => fail vfsEbadf
  | some i =>
    if buffer.isNone ∧ 0 < count then fail vfsEinval
    let file := (← get).vfsOpenFiles i
    if !test file.flags vfsOWronly then fail vfsEbadf
    let written ← call (SimpleFs.simplefsWrite (some file.path) file.offset buffer count)
    if wordSize / 2 ≤ written then fail ((written : Int) - wordSize)
    modify (advance i written)
    return written

/-- Source: `vfs.c` `vfs_close` -/
def vfsClose (fd : Int) : VfsM Unit := do
  match (← get).vfsFdValid fd with
  | none => fail vfsEbadf
  | some i =>
    let file := (← get).vfsOpenFiles i
    if 1 < file.refCount then
      modify fun v => v.setOpenFile i { file with refCount := file.refCount - 1 }
    else modify fun v => v.setOpenFile i VfsOpenFile.zero

/-- Source: `vfs.c` `vfs_retain` -/
def vfsRetain (fd : Int) : VfsM Unit := do
  match (← get).vfsFdValid fd with
  | none => fail vfsEbadf
  | some i =>
    let file := (← get).vfsOpenFiles i
    if file.refCount = uint32Max then fail vfsEbadf
    modify fun v => v.setOpenFile i { file with refCount := file.refCount + 1 }

/-- `out` is whether the caller's structure is there; it holds the same four fields.
Source: `vfs.c` `vfs_stat` -/
def vfsStat (path : Option CString) (out : Bool) : VfsM FileInfo := do
  if !(← get).vfsMounted then fail vfsEio
  if !out then fail vfsEinval
  call (SimpleFs.simplefsStat path true)

end Vfs

end AgenticOs
