import AgenticOs.Fs.Vfs

/-!
# How much a read returns

`simplefs_read` returns at most as many bytes as it was asked for, and so does `vfs_read`: a read fills at
most the buffer that it is given.

* **The loop** (`returns_readLoop`): it returns at most what was still to be read, whatever the device
  answers.
* **The calls** (`returns_simplefsRead`, `Vfs.vfsRead_length`): the count is cut to what is left of the file
  before the loop, so no call returns more than its count.

The proofs are with the rules of `Returns` in `Lib/StateError.lean`. The system calls rely on this when they
copy what was read to the buffer of the program.
-/

namespace AgenticOs

open Lib Lib.StM

namespace SimpleFs

/-- The loop returns what is still to be read. -/
theorem returns_readLoop (entry : DirEntry) (offset count done : Nat) :
    Returns (fun bytes : List Byte => bytes.length ≤ count - done) (readLoop entry offset count done) := by
  induction done using readLoop.induct offset count with
  | case1 done hlt absolute sectorOffset chunk ih =>
    rw [readLoop, if_pos hlt]
    refine .bind fun sector => ih.seq fun rest hrest => .pure ?_
    have hchunk : chunk ≤ count - done := Nat.min_le_left _ _
    rw [List.length_append, List.length_map, List.length_range]
    show chunk + rest.length ≤ count - done
    omega
  | case2 done hlt =>
    rw [readLoop, if_neg hlt]
    exact .pure (Nat.zero_le _)

/-- **`simplefs_read`** -/
theorem returns_simplefsRead (path : Option CString) (offset : Nat) (buffer : Bool) (count : Nat) :
    Returns (fun bytes : List Byte => bytes.length ≤ count) (simplefsRead path offset buffer count) := by
  refine .bind fun _ => .check (.bind fun _ => .bind fun found => .ite (fun _ => .pure (Nat.zero_le _)) fun _ => ?_)
  intro s bytes hbytes
  exact (returns_readLoop _ _ _ _ s bytes hbytes).trans (Nat.min_le_left _ _)

end SimpleFs

namespace Vfs

/-- A call of the file system. -/
theorem returns_call {α : Type} {P : α → Prop} {f : FsM α} (h : Returns P f) : Returns P (call f) :=
  fun v a ha => h v.fs a ha

/-- A read fits into the buffer. -/
theorem vfsRead_length (fd : Int) (buffer : Bool) (count : Nat) :
    Returns (fun bytes : List Byte => bytes.length ≤ count) (vfsRead fd buffer count) := by
  refine .bind fun v => ?_
  split
  · exact .fail _
  · refine .check (.bind fun v => .check ?_)
    exact (returns_call (SimpleFs.returns_simplefsRead _ _ _ _)).seq fun bytes hbytes => .bind fun _ => .pure hbytes

end Vfs

end AgenticOs
