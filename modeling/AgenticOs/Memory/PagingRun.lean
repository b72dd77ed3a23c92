import AgenticOs.Memory.UserAccess
import AgenticOs.Memory.Clone
import AgenticOs.Memory.Boot

/-!
# Runs of the paging operations

A `PagingState` is memory and the set of directories that have been created and not destroyed.

* **Operations** (`PagingOp`): create, map a fresh page, clone, store as the user, resolve a fault, unmap,
  destroy, and load a directory, with any arguments. `PagingState.enabled` says when a caller may run one; one
  that is not enabled is not called.
* **Runs**: `PagingState.step` runs one operation and reports its outcome, `exec` and `outcomes` a sequence of
  them.
* **Reference**: `Reference` is the system a user program should see, in which every address space has its own
  copy of every page. `Reference.step` follows the outcome of an operation (which directory was created,
  whether frames ran out), and decides the rest by itself.

When an operation is refused is the subject of `Refusals.lean`.
-/

namespace AgenticOs

open Function Finset Lib

/-- What a caller of the paging code does; a directory is named by its frame. -/
inductive PagingOp
  /-- `paging_create_address_space` -/
  | create
  /-- `frame_alloc_below`, `paging_map_page_in_directory`, and `frame_free` when that fails -/
  | map (d : Nat) (virtualAddr flags : Word) (limit : Nat)
  /-- `paging_clone_directory` -/
  | clone (d : Nat)
  /-- a user store of one byte -/
  | store (d : Nat) (virtualAddr : Word) (b : Byte)
  /-- `paging_resolve_cow_fault` -/
  | resolve (d : Nat) (virtualAddr : Word)
  /-- `paging_unmap_page_in_directory`, and `frame_release` of the frame it returns -/
  | unmap (d : Nat) (virtualAddr : Word)
  /-- `paging_destroy_address_space` -/
  | destroy (d : Nat)
  /-- `paging_switch_directory` -/
  | load (d : Nat)
  /-- `paging_switch_directory` to the kernel's directory -/
  | loadKernel

/-- How an operation ends. -/
inductive Outcome
  /-- nothing was done -/
  | failed
  | done
  /-- a new directory -/
  | created (d : Nat)
  /-- a new page, and what its frame contains -/
  | mapped (page : TableIndex → Word)

/-- Memory, and the live directories. -/
structure PagingState where
  memory : Memory
  live : Finset Nat

namespace PagingState

/-- An unmapped page of the user range. -/
def unmapped (s : PagingState) (d : Nat) (virtualAddr : Word) : Prop :=
  inUserRange (dirIndex virtualAddr) ∧
    s.memory.pagingGetPhysicalAddressInDirectory (frameAddr d) virtualAddr = 0

instance (s : PagingState) (d : Nat) (va : Word) : Decidable (s.unmapped d va) :=
  inferInstanceAs (Decidable (_ ∧ _))

/-- When a caller runs an operation. -/
def enabled (s : PagingState) : PagingOp → Prop
  | .create => True
  | .map d virtualAddr flags _ =>
    d ∈ s.live ∧ isUser flags = true ∧ s.unmapped d virtualAddr
  | .clone d => d ∈ s.live
  | .store d _ _ => d ∈ s.live
  | .resolve d _ => d ∈ s.live
  | .unmap d virtualAddr => d ∈ s.live ∧ inUserRange (dirIndex virtualAddr)
  | .destroy d => d ∈ s.live ∧ s.memory.activePageDirectory ≠ frameAddr d
  | .load d => d ∈ s.live
  | .loadKernel => True

instance (s : PagingState) (op : PagingOp) : Decidable (s.enabled op) := by
  cases op <;> unfold enabled <;> infer_instance

/-- The directory that `paging_create_address_space` or `paging_clone_directory` returns. -/
def created (s : PagingState) (r : Word × Memory) : Outcome × PagingState :=
  if r.1 = 0 then (.failed, ⟨r.2, s.live⟩)
  else (.created (frameOf r.1), ⟨r.2, insert (frameOf r.1) s.live⟩)

/-- Maps a fresh frame. -/
def mapFresh (m : Memory) (d : Nat) (virtualAddr flags : Word) (limit : Nat) : Outcome × Memory :=
  let r := m.frameAllocBelow limit
  if r.1 = 0 then (.failed, r.2)
  else
    let r' := r.2.pagingMapPageInDirectory (frameAddr d) virtualAddr r.1 flags
    if r'.1 then (.mapped (r'.2.ram (frameOf r.1)), r'.2) else (.failed, r'.2.frameFree r.1)

/-- Unmaps a page and releases its frame. -/
def unmapRelease (m : Memory) (d : Nat) (virtualAddr : Word) : Memory :=
  let r := m.pagingUnmapPageInDirectory (frameAddr d) virtualAddr
  if r.1 = 0 then r.2 else (r.2.frameRelease r.1).2

/-- An operation that is enabled. -/
def run (s : PagingState) : PagingOp → Outcome × PagingState
  | .create => s.created s.memory.pagingCreateAddressSpace
  | .map d virtualAddr flags limit =>
    let r := mapFresh s.memory d virtualAddr flags limit
    (r.1, ⟨r.2, s.live⟩)
  | .clone d => s.created (s.memory.pagingCloneDirectory (frameAddr d))
  | .store d virtualAddr b =>
    (if s.memory.userStoreDropped (frameAddr d) virtualAddr then .failed else .done,
      ⟨s.memory.userStore (frameAddr d) virtualAddr b, s.live⟩)
  | .resolve d virtualAddr =>
    (.done, ⟨(s.memory.pagingResolveCowFault (frameAddr d) virtualAddr).2, s.live⟩)
  | .unmap d virtualAddr => (.done, ⟨unmapRelease s.memory d virtualAddr, s.live⟩)
  | .destroy d => (.done, ⟨s.memory.pagingDestroyAddressSpace (frameAddr d), s.live.erase d⟩)
  | .load d => (.done, ⟨s.memory.pagingSwitchDirectory (frameAddr d), s.live⟩)
  | .loadKernel => (.done, ⟨s.memory.pagingSwitchDirectory pageDirectory, s.live⟩)

/-- One operation. -/
def step (s : PagingState) (op : PagingOp) : Outcome × PagingState :=
  if s.enabled op then s.run op else (.failed, s)

/-- The state after a sequence of operations. -/
def exec (s : PagingState) (ops : List PagingOp) : PagingState :=
  ops.foldl (fun s op => (s.step op).2) s

/-- The outcomes of a sequence of operations. -/
def outcomes (s : PagingState) : List PagingOp → List (PagingOp × Outcome)
  | [] => []
  | op :: ops => (op, (s.step op).1) :: (s.step op).2.outcomes ops

end PagingState

/-! ### The reference system -/

/-- A page of the reference system. -/
structure RefPage where
  bytes : PageOffset → Byte
  storable : Bool

/-- Address spaces that share nothing. -/
@[ext] structure Reference where
  live : Finset Nat
  page : Nat → TableIndex → TableIndex → Option RefPage

namespace Reference

/-- No address space. -/
def empty : Reference := ⟨∅, fun _ _ _ => none⟩

/-- One page replaced. -/
def setPage (R : Reference) (d : Nat) (virtualAddr : Word) (p : Option RefPage) : Reference where
  live := R.live
  page := fun d' i j =>
    if d' = d ∧ i = dirIndex virtualAddr ∧ j = tableIndex virtualAddr then p else R.page d' i j

/-- The page of an address. -/
def pageAt (R : Reference) (d : Nat) (virtualAddr : Word) : Option RefPage :=
  R.page d (dirIndex virtualAddr) (tableIndex virtualAddr)

/-- A load; `none` is a fault. -/
def load (R : Reference) (d : Nat) (virtualAddr : Word) : Option (Byte) :=
  (R.pageAt d virtualAddr).map fun p => p.bytes (pageOffset virtualAddr)

/-- A store to a page that allows it. -/
def store (R : Reference) (d : Nat) (virtualAddr : Word) (b : Byte) : Reference :=
  match R.pageAt d virtualAddr with
  | none => R
  | some p =>
    if p.storable then
      R.setPage d virtualAddr (some ⟨update p.bytes (pageOffset virtualAddr) b, true⟩)
    else R

/-- One operation with a given outcome. -/
def step (R : Reference) : PagingOp → Outcome → Reference
  | .create, .created d => ⟨insert d R.live, R.page⟩
  | .map d virtualAddr flags _, .mapped page =>
    R.setPage d virtualAddr (some ⟨pageByte page, isWritable flags || isCow flags⟩)
  -- an eager copy of every page
  | .clone s, .created d => ⟨insert d R.live, fun d' => if d' = d then R.page s else R.page d'⟩
  | .store d virtualAddr b, .done => R.store d virtualAddr b
  | .unmap d virtualAddr, .done => R.setPage d virtualAddr none
  | .destroy d, .done => ⟨R.live.erase d, fun d' => if d' = d then fun _ _ => none else R.page d'⟩
  | _, _ => R

/-- The reference system after a sequence of operations with given outcomes. -/
def exec (R : Reference) (ops : List (PagingOp × Outcome)) : Reference :=
  ops.foldl (fun R op => R.step op.1 op.2) R

end Reference

end AgenticOs
