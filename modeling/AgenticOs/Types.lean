/-!
# Constants and enumerations shared by the kernel

The numbers of `include/*.h` and the enumerations of `process.h` that more than one subsystem reads. Statuses
are C `int`s and modelled by `Int`; `uint32_t` quantities are `ℕ`, with the wrap-around written out (`%
wordSize`) at the places where it can happen.

* **Words**: `wordSize` is `2^32`, `uint32Max` is `UINT32_MAX` and also `(uint32_t)-1`.
* **Statuses** of `vfs.h` and `pipe.h`: each subsystem returns its own.
* **Enumerations** of `process.h`: the states of a process (`ProcessState`), why a process is blocked
  (`BlockReason`) and what a descriptor names (`FdKind`).
-/

namespace AgenticOs

/-- `2^32`: `uint32_t` arithmetic is modulo this.
Source: `stdint.h` -/
abbrev wordSize : Nat := 4294967296

/-- `UINT32_MAX`, also `(uint32_t)-1`.
Source: `stdint.h` -/
abbrev uint32Max : Nat := 4294967295

/-! ## Statuses -/

/-- Source: `vfs.h` `VFS_SUCCESS` -/
abbrev vfsSuccess : Int := 0
/-- Source: `vfs.h` `VFS_EINVAL` -/
abbrev vfsEinval : Int := -1
/-- Source: `vfs.h` `VFS_ENOENT` -/
abbrev vfsEnoent : Int := -2
/-- Source: `vfs.h` `VFS_ENOSPC` -/
abbrev vfsEnospc : Int := -3
/-- Source: `vfs.h` `VFS_EIO` -/
abbrev vfsEio : Int := -4
/-- Source: `vfs.h` `VFS_EMFILE` -/
abbrev vfsEmfile : Int := -5
/-- Source: `vfs.h` `VFS_EBADF` -/
abbrev vfsEbadf : Int := -6
/-- Source: `vfs.h` `VFS_EEXIST` -/
abbrev vfsEexist : Int := -7

/-- Source: `pipe.h` `PIPE_SUCCESS` -/
abbrev pipeSuccess : Int := 0
/-- Source: `pipe.h` `PIPE_EBADF` -/
abbrev pipeEbadf : Int := -1
/-- Source: `pipe.h` `PIPE_WOULD_BLOCK` -/
abbrev pipeWouldBlock : Int := -2
/-- Source: `pipe.h` `PIPE_BROKEN` -/
abbrev pipeBroken : Int := -3

/-! ## Enumerations of `process.h` -/

/-- Source: `process.h` `enum block_reason` -/
inductive BlockReason
  | none
  | waitChild
  | pipeRead
  | pipeWrite
  deriving DecidableEq, Repr

/-- Source: `process.h` `enum process_fd_kind` -/
inductive FdKind
  | none
  | vfs
  | pipeRead
  | pipeWrite
  deriving DecidableEq, Repr

/-- Source: `process.h` `enum process_state` -/
inductive ProcessState
  | dead
  | ready
  | running
  | blocked
  | zombie
  deriving DecidableEq, Repr

end AgenticOs
