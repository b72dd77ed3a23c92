import AgenticOs.Types
import Mathlib.Data.Set.Defs
import Mathlib.Logic.Function.Basic

/-!
# `kernel/allocator.c`

The kernel heap: block headers at addresses, linked both ways.

* **Pointers**: a pointer is an address, `none` is `NULL`; an address given to the caller is the one behind
  the header.
* **Scans** of the block list have `maxBlocks` steps, the number of headers that fit into the heap; that no
  list is longer is part of `Kernel/HeapTiling.lean`.
* **`kmalloc`**: the first block that fits, split if the rest is worth it. The size is rounded up in 32-bit
  arithmetic, as in the source, which wraps.
* **`kfree`**: the header is right before the pointer; the block becomes free and is merged with its free
  neighbours. A block that is free already is left alone. After a `kmalloc` it leaves the heap as it was
  (`Sound.kfree_kmalloc`).

Proofs read the headers as a list of blocks (`Kernel/HeapTiling.lean`).
-/

namespace AgenticOs

open Function

/-- Source: `allocator.c` `HEAP_START` -/
abbrev heapStart : Nat := 0x00200000
/-- Source: `allocator.c` `HEAP_SIZE` -/
abbrev heapSize : Nat := 0x00100000
/-- Source: `allocator.c` `ALIGNMENT` -/
abbrev heapAlignment : Nat := 16
/-- Source: `allocator.c` `MIN_SPLIT` -/
abbrev heapMinSplit : Nat := 32
/-- `sizeof(struct heap_block)` -/
abbrev blockHeader : Nat := 16
/-- The number of headers that fit into the heap. -/
abbrev maxBlocks : Nat := 65536

/-- Source: `allocator.c` `struct heap_block` -/
structure HeapBlock where
  size : Nat
  free : Bool
  next : Option Nat
  prev : Option Nat
  deriving DecidableEq

/-- The headers in the memory of the heap, and the static variables of `allocator.c`. -/
structure Heap where
  block : Nat → HeapBlock
  heapHead : Option Nat
  heapUsed : Nat

/-- Source: `allocator.c` `align_up` -/
def heapAlignUp (value : Nat) : Nat :=
  (value + (heapAlignment - 1)) % wordSize / heapAlignment * heapAlignment

namespace Heap

/-- `*b = f(*b)` -/
def setBlock (h : Heap) (b : Nat) (f : HeapBlock → HeapBlock) : Heap :=
  { h with block := update h.block b (f (h.block b)) }

/-- `if (b) b->prev = p;` -/
def setPrev (h : Heap) (b : Option Nat) (p : Option Nat) : Heap :=
  match b with
  | none => h
  | some b => h.setBlock b fun x => { x with prev := p }

/-- Source: `allocator.c` `allocator_init` -/
def allocatorInit (h : Heap) : Heap where
  block := update h.block heapStart
    { size := heapSize - blockHeader, free := true, next := none, prev := none }
  heapHead := some heapStart
  heapUsed := 0

/-- Source: `allocator.c` `split_block` -/
def splitBlock (h : Heap) (b size : Nat) : Heap :=
  let remaining := (h.block b).size - size
  if remaining ≤ blockHeader + heapMinSplit then h
  else
    let next := b + blockHeader + size
    let after := (h.block b).next
    let h := h.setBlock next fun _ =>
      { size := remaining - blockHeader, free := true, next := after, prev := some b }
    let h := h.setPrev after (some next)
    h.setBlock b fun x => { x with size := size, next := some next }

/-- The loop of `kmalloc` from block `b` on. -/
def kmallocFrom (h : Heap) (needed : Nat) : Nat → Option Nat → Option Nat × Heap
  | 0, _ => (none, h)
  | _ + 1, none => (none, h)
  | n + 1, some b =>
    if (h.block b).free ∧ needed ≤ (h.block b).size then
      let h := (h.splitBlock b needed).setBlock b fun x => { x with free := false }
      (some (b + blockHeader), { h with heapUsed := (h.heapUsed + (h.block b).size) % wordSize })
    else kmallocFrom h needed n (h.block b).next

/-- Source: `allocator.c` `kmalloc` -/
def kmalloc (h : Heap) (size : Nat) : Option Nat × Heap :=
  if h.heapHead = none ∨ size = 0 then (none, h)
  else h.kmallocFrom (heapAlignUp size) maxBlocks h.heapHead

/-- The first half of `coalesce`: the following block is taken in if it is free. -/
def coalesceNext (h : Heap) (b : Nat) : Heap :=
  match (h.block b).next with
  | none => h
  | some next =>
    if (h.block next).free then
      let after := (h.block next).next
      let h := h.setBlock b fun x =>
        { x with size := x.size + (blockHeader + (h.block next).size), next := after }
      h.setPrev after (some b)
    else h

/-- The second half of `coalesce`: the block is taken in by the preceding one if that is free. -/
def coalescePrev (h : Heap) (b : Nat) : Heap :=
  match (h.block b).prev with
  | none => h
  | some prev =>
    if (h.block prev).free then
      let after := (h.block b).next
      let h := h.setBlock prev fun x =>
        { x with size := x.size + (blockHeader + (h.block b).size), next := after }
      h.setPrev after (some prev)
    else h

/-- Source: `allocator.c` `coalesce` -/
def coalesce (h : Heap) (b : Nat) : Heap := (h.coalesceNext b).coalescePrev b

/-- Source: `allocator.c` `kfree` -/
def kfree (h : Heap) (ptr : Option Nat) : Heap :=
  match ptr with
  | none => h
  | some p =>
    let b := p - blockHeader
    if (h.block b).free then h
    else
      let h := h.setBlock b fun x => { x with free := true }
      let size := (h.block b).size
      { h with heapUsed := if size ≤ h.heapUsed then h.heapUsed - size else 0 }.coalesce b

/-- The loop of `allocator_get_free_bytes` from block `b` on. -/
def freeBytesFrom (h : Heap) : Nat → Option Nat → Nat → Nat
  | 0, _, total => total
  | _ + 1, none, total => total
  | n + 1, some b, total =>
    freeBytesFrom h n (h.block b).next
      (if (h.block b).free then (total + (h.block b).size) % wordSize else total)

/-- Source: `allocator.c` `allocator_get_free_bytes` -/
def allocatorGetFreeBytes (h : Heap) : Nat := h.freeBytesFrom maxBlocks h.heapHead 0

/-- The blocks met from `b` on, with their headers. -/
def blocksFrom (h : Heap) : Nat → Option Nat → List (Nat × HeapBlock)
  | 0, _ => []
  | _ + 1, none => []
  | n + 1, some b => (b, h.block b) :: blocksFrom h n (h.block b).next

/-- The block list: what a walk along `next` from the head meets. -/
def blocks (h : Heap) : List (Nat × HeapBlock) := h.blocksFrom maxBlocks h.heapHead

/-! ### A heap of blocks side by side -/

/-- The blocks at the addresses `S` are linked in the order of their addresses, do not overlap, and no
two free ones are neighbours. -/
structure Sound (h : Heap) (S : Set Nat) : Prop where
  head : ∀ a, h.heapHead = some a → a ∈ S
  next : ∀ a ∈ S, ∀ n, (h.block a).next = some n →
    n ∈ S ∧ n = a + blockHeader + (h.block a).size ∧ (h.block n).prev = some a ∧
      ¬ ((h.block a).free = true ∧ (h.block n).free = true)
  prev : ∀ a ∈ S, ∀ p, (h.block a).prev = some p → p ∈ S ∧ (h.block p).next = some a
  apart : ∀ a ∈ S, ∀ b ∈ S, a < b → a + blockHeader + (h.block a).size ≤ b
  size : ∀ a ∈ S, (h.block a).size ≤ heapSize
  used : h.heapUsed ≤ heapSize

variable {h h' : Heap} {S : Set Nat} {o : Option Nat}

/-- `b->free = free` -/
def mark (h : Heap) (b : Nat) (free : Bool) : Heap := h.setBlock b fun x => { x with free := free }

/-- The state in which `kmalloc` leaves the heap when it takes block `b`. -/
def taken (h : Heap) (b needed : Nat) : Heap :=
  let h := (h.splitBlock b needed).mark b false
  { h with heapUsed := (h.heapUsed + (h.block b).size) % wordSize }

/-- What the loop of `kmalloc` finds is a free block that is large enough, and it is taken. -/
theorem kmallocFrom_some (hs : h.Sound S) {needed fuel p : Nat} (hb : ∀ a, o = some a → a ∈ S)
    (hk : h.kmallocFrom needed fuel o = (some p, h')) :
    ∃ b ∈ S, (h.block b).free = true ∧ needed ≤ (h.block b).size ∧ p = b + blockHeader ∧
      h' = h.taken b needed := by
  induction fuel generalizing o with
  | zero => cases hk
  | succ fuel ih =>
    rcases o with _ | b
    · cases hk
    · unfold kmallocFrom at hk
      split at hk
      · rename_i hfree
        cases hk
        exact ⟨b, hb b rfl, hfree.1, hfree.2, rfl, rfl⟩
      · exact ih (fun a ha => (hs.next b (hb b rfl) a ha).1) hk

/-- The header that is changed. -/
@[simp] theorem setBlock_self (h : Heap) (b : Nat) (f : HeapBlock → HeapBlock) :
    (h.setBlock b f).block b = f (h.block b) := update_self _ _ _

/-- The other headers. -/
theorem setBlock_of_ne {a b : Nat} (hne : a ≠ b) (f : HeapBlock → HeapBlock) :
    (h.setBlock b f).block a = h.block a := update_of_ne hne _ _

/-- The block that is marked. -/
@[simp] theorem mark_self (h : Heap) (b : Nat) (free : Bool) :
    (h.mark b free).block b = { h.block b with free := free } := update_self _ _ _

/-- The other blocks. -/
theorem mark_of_ne {a b : Nat} (hne : a ≠ b) (free : Bool) :
    (h.mark b free).block a = h.block a := update_of_ne hne _ _

/-- Setting a link changes one header. -/
theorem setPrev_of_ne {a : Nat} (hne : o ≠ some a) (p : Option Nat) :
    (h.setPrev o p).block a = h.block a := by
  rcases o with _ | b
  · rfl
  · unfold setPrev
    exact setBlock_of_ne (fun hab => hne (congrArg some hab.symm)) _

/-- Without a free block behind it nothing happens. -/
theorem coalesceNext_eq {b : Nat}
    (hn : ∀ n, (h.block b).next = some n → (h.block n).free = false) : h.coalesceNext b = h := by
  unfold coalesceNext
  split
  · rfl
  · rename_i n hnext
    rw [hn n hnext]
    rfl

/-- Without a free block before it nothing happens. -/
theorem coalescePrev_eq {b : Nat}
    (hp : ∀ p, (h.block b).prev = some p → (h.block p).free = false) : h.coalescePrev b = h := by
  unfold coalescePrev
  split
  · rfl
  · rename_i p hprev
    rw [hp p hprev]
    rfl

/-- A block is not next to itself. -/
theorem Sound.next_ne (hs : h.Sound S) {a n : Nat} (ha : a ∈ S) (hn : (h.block a).next = some n) :
    a < n := by
  have := (hs.next a ha n hn).2.1
  simp only [blockHeader] at this
  omega

/-- The neighbours of a free block are in use. -/
theorem Sound.prev_used (hs : h.Sound S) {b p : Nat} (hb : b ∈ S) (hfree : (h.block b).free = true)
    (hp : (h.block b).prev = some p) : p < b ∧ (h.block p).free = false := by
  obtain ⟨hpS, hnext⟩ := hs.prev b hb p hp
  refine ⟨hs.next_ne hpS hnext, ?_⟩
  have := (hs.next p hpS b hnext).2.2.2
  rw [hfree] at this
  simpa using this

/-- The block behind a free one is in use. -/
theorem Sound.next_used (hs : h.Sound S) {b n : Nat} (hb : b ∈ S) (hfree : (h.block b).free = true)
    (hn : (h.block b).next = some n) : (h.block n).free = false := by
  have := (hs.next b hb n hn).2.2.2
  rw [hfree] at this
  simpa using this

/-- The used bytes after a block has been taken and given back. -/
theorem used_restored {used size : Nat} (hu : used ≤ heapSize) (hz : size ≤ heapSize) :
    (if size ≤ (used + size) % wordSize then (used + size) % wordSize - size else 0) = used := by
  simp only [heapSize] at hu hz
  have hmod : (used + size) % wordSize = used + size := Nat.mod_eq_of_lt (by unfold wordSize; omega)
  rw [hmod, if_pos (Nat.le_add_left _ _), Nat.add_sub_cancel]

/-- A free block takes in the free block behind it. -/
theorem coalesce_split {b next needed rest : Nat} {after prev : Option Nat}
    (hb : h.block b = { size := needed, free := true, next := some next, prev := prev })
    (hn : h.block next = { size := rest, free := true, next := after, prev := some b })
    (hne : next ≠ b) (hafter : after ≠ some b)
    (hp : ∀ p, prev = some p → p ≠ b ∧ after ≠ some p ∧ (h.block p).free = false) (a : Nat) :
    (h.coalesce b).block a =
      if a = b then
        { size := needed + (blockHeader + rest), free := true, next := after, prev := prev }
      else if after = some a then { h.block a with prev := some b } else h.block a := by
  have hfirst : h.coalesceNext b = (h.setBlock b fun _ =>
      { size := needed + (blockHeader + rest), free := true, next := after, prev := prev }).setPrev
        after (some b) := by
    unfold coalesceNext setBlock
    simp [hb, hn]
  generalize hg : h.coalesceNext b = g at hfirst
  have hself : g.block b =
      { size := needed + (blockHeader + rest), free := true, next := after, prev := prev } := by
    rw [hfirst, setPrev_of_ne hafter, setBlock_self]
  have hlast : h.coalesce b = g := by
    unfold coalesce
    rw [hg]
    apply coalescePrev_eq
    intro p hprev
    rw [hself] at hprev
    obtain ⟨hpb, hpa, hfree⟩ := hp p hprev
    rw [hfirst, setPrev_of_ne hpa, setBlock_of_ne hpb, hfree]
  rw [hlast]
  by_cases hab : a = b
  · subst hab
    rw [if_pos rfl, hself]
  · rw [if_neg hab, hfirst]
    by_cases haf : after = some a
    · subst haf
      rw [if_pos rfl]
      unfold setPrev
      rw [setBlock_self, setBlock_of_ne hab]
    · rw [if_neg haf, setPrev_of_ne haf, setBlock_of_ne hab]

/-- The block that is taken, when it is split. -/
theorem splitBlock_eq {b needed : Nat}
    (hsplit : ¬ (h.block b).size - needed ≤ blockHeader + heapMinSplit)
    (hafter : (h.block b).next ≠ some b) :
    (h.splitBlock b needed).block b =
        { h.block b with size := needed, next := some (b + blockHeader + needed) } ∧
      (h.splitBlock b needed).heapUsed = h.heapUsed ∧
      (h.splitBlock b needed).heapHead = h.heapHead ∧
      ((h.block b).next ≠ some (b + blockHeader + needed) →
        (h.splitBlock b needed).block (b + blockHeader + needed) =
          { size := (h.block b).size - needed - blockHeader, free := true
            next := (h.block b).next, prev := some b }) ∧
      ∀ a, a ≠ b → a ≠ b + blockHeader + needed →
        (h.splitBlock b needed).block a =
          if (h.block b).next = some a then
            { h.block a with prev := some (b + blockHeader + needed) }
          else h.block a := by
  have hne : b + blockHeader + needed ≠ b := by
    simp only [blockHeader]
    omega
  unfold splitBlock
  rw [if_neg hsplit]
  dsimp only
  generalize (h.block b).next = after at hafter ⊢
  refine ⟨?_, ?_, ?_, ?_, ?_⟩
  · rw [setBlock_self, setPrev_of_ne hafter, setBlock_of_ne hne.symm]
  · rcases after with _ | n <;> rfl
  · rcases after with _ | n <;> rfl
  · intro hn
    rw [setBlock_of_ne hne, setPrev_of_ne hn, setBlock_self]
  · intro a hab hanext
    rw [setBlock_of_ne hab]
    by_cases ha : after = some a
    · subst ha
      rw [if_pos rfl]
      unfold setPrev
      rw [setBlock_self, setBlock_of_ne hanext]
    · rw [if_neg ha, setPrev_of_ne ha, setBlock_of_ne hanext]

/-- Links are in the headers. -/
theorem setPrev_head (p : Option Nat) :
    (h.setPrev o p).heapHead = h.heapHead ∧ (h.setPrev o p).heapUsed = h.heapUsed := by
  rcases o with _ | b <;> exact ⟨rfl, rfl⟩

/-- Taking in the block behind moves neither the head nor the count. -/
theorem coalesceNext_head (b : Nat) :
    (h.coalesceNext b).heapHead = h.heapHead ∧ (h.coalesceNext b).heapUsed = h.heapUsed := by
  unfold coalesceNext
  split
  · exact ⟨rfl, rfl⟩
  · split
    · exact setPrev_head _
    · exact ⟨rfl, rfl⟩

/-- Nor does being taken in by the block before. -/
theorem coalescePrev_head (b : Nat) :
    (h.coalescePrev b).heapHead = h.heapHead ∧ (h.coalescePrev b).heapUsed = h.heapUsed := by
  unfold coalescePrev
  split
  · exact ⟨rfl, rfl⟩
  · split
    · exact setPrev_head _
    · exact ⟨rfl, rfl⟩

/-- Nor do both. -/
theorem coalesce_head (b : Nat) :
    (h.coalesce b).heapHead = h.heapHead ∧ (h.coalesce b).heapUsed = h.heapUsed := by
  obtain ⟨h1, h2⟩ := coalescePrev_head (h := h.coalesceNext b) b
  obtain ⟨h3, h4⟩ := coalesceNext_head (h := h) b
  exact ⟨h1.trans h3, h2.trans h4⟩

/-- The state in which `kfree` calls `coalesce`. -/
def given (h : Heap) (b : Nat) : Heap :=
  let h := h.mark b true
  { h with
    heapUsed := if (h.block b).size ≤ h.heapUsed then h.heapUsed - (h.block b).size else 0 }

/-- `kfree` of a block in use. -/
theorem kfree_eq {b : Nat} (hused : (h.block b).free = false) :
    h.kfree (some (b + blockHeader)) = (h.given b).coalesce b := by
  unfold kfree
  dsimp only
  rw [Nat.add_sub_cancel, hused]
  rfl

/-- **A block that is taken and given back** leaves every header of the list, the head and the count of
used bytes as they were. -/
theorem kfree_taken (hs : h.Sound S) {b needed : Nat} (hb : b ∈ S) (hfree : (h.block b).free = true)
    (hle : needed ≤ (h.block b).size) :
    (∀ a ∈ S, ((h.taken b needed).kfree (some (b + blockHeader))).block a = h.block a) ∧
      ((h.taken b needed).kfree (some (b + blockHeader))).heapHead = h.heapHead ∧
      ((h.taken b needed).kfree (some (b + blockHeader))).heapUsed = h.heapUsed := by
  have hsize := hs.size b hb
  have hself : (h.taken b needed).block b =
      { (h.splitBlock b needed).block b with free := false } := mark_self _ _ _
  have hother : ∀ a, a ≠ b → (h.taken b needed).block a = (h.splitBlock b needed).block a :=
    fun a ha => mark_of_ne ha _
  have hgself : ((h.taken b needed).given b).block b =
      { (h.splitBlock b needed).block b with free := true } := by
    have hmark : ((h.taken b needed).given b).block b =
        { (h.taken b needed).block b with free := true } := mark_self _ _ _
    rw [hmark, hself]
  have hgother : ∀ a, a ≠ b →
      ((h.taken b needed).given b).block a = (h.splitBlock b needed).block a :=
    fun a ha => (mark_of_ne (h := h.taken b needed) ha true).trans (hother a ha)
  rw [kfree_eq (by rw [hself])]
  obtain ⟨hhead, hused⟩ := coalesce_head (h := (h.taken b needed).given b) b
  rw [hhead, hused]
  -- the block is not its own neighbour
  have hnextne : (h.block b).next ≠ some b := fun hn => Nat.lt_irrefl _ (hs.next_ne hb hn)
  have hheadEq : ((h.taken b needed).given b).heapHead = (h.splitBlock b needed).heapHead := rfl
  have husedEq : ((h.taken b needed).given b).heapUsed =
      if ((h.splitBlock b needed).block b).size ≤ ((h.splitBlock b needed).heapUsed +
          ((h.splitBlock b needed).block b).size) % wordSize then
        ((h.splitBlock b needed).heapUsed + ((h.splitBlock b needed).block b).size) % wordSize -
          ((h.splitBlock b needed).block b).size
      else 0 := by
    unfold given taken
    simp only [mark_self]
    rfl
  rw [hheadEq, husedEq]
  by_cases hsplit : (h.block b).size - needed ≤ blockHeader + heapMinSplit
  · -- the block is taken whole
    have heq : h.splitBlock b needed = h := if_pos hsplit
    have hblock : { h.block b with free := true } = h.block b := by rw [← hfree]
    have hsame : ∀ a, ((h.taken b needed).given b).block a = h.block a := by
      intro a
      by_cases ha : a = b
      · rw [ha, hgself, heq, hblock]
      · rw [hgother a ha, heq]
    rw [heq]
    refine ⟨?_, rfl, used_restored hs.used hsize⟩
    intro a ha
    have hco : ((h.taken b needed).given b).coalesce b = (h.taken b needed).given b := by
      unfold coalesce
      rw [coalesceNext_eq, coalescePrev_eq]
      · intro p hp
        rw [hsame] at hp ⊢
        exact (hs.prev_used hb hfree hp).2
      · intro n hn
        rw [hsame] at hn ⊢
        exact hs.next_used hb hfree hn
    rw [hco]
    exact hsame a
  · -- its rest becomes a block, which it takes in again
    obtain ⟨hsb, hsused, hshead, hsn, hsother⟩ := splitBlock_eq hsplit hnextne
    rw [hsused, hshead, hsb]
    have hlt : needed + blockHeader + heapMinSplit < (h.block b).size := by omega
    have hnotmem : b + blockHeader + needed ∉ S := by
      intro hmem
      have := hs.apart b hb _ hmem (by simp only [blockHeader]; omega)
      simp only [blockHeader, heapMinSplit] at hlt this
      omega
    have hnextS : ∀ a, (h.block b).next = some a → a ∈ S := fun a ha => (hs.next b hb a ha).1
    have hnn : (h.block b).next ≠ some (b + blockHeader + needed) :=
      fun hn => hnotmem (hnextS _ hn)
    have hne : b + blockHeader + needed ≠ b := by
      simp only [blockHeader]
      omega
    refine ⟨?_, rfl, used_restored hs.used (Nat.le_trans hle hsize)⟩
    intro a ha
    have hco := coalesce_split (h := (h.taken b needed).given b) (b := b)
      (by rw [hgself, hsb]) (by rw [hgother _ hne, hsn hnn]) hne hnextne
      (by
        intro p hp
        obtain ⟨hpb, hpfree⟩ := hs.prev_used hb hfree hp
        obtain ⟨hpS, -⟩ := hs.prev b hb p hp
        have hpnext : (h.block b).next ≠ some p := by
          intro hn
          exact Nat.lt_asymm hpb (hs.next_ne hb hn)
        refine ⟨Nat.ne_of_lt hpb, hpnext, ?_⟩
        rw [hgother p (Nat.ne_of_lt hpb), hsother p (Nat.ne_of_lt hpb)
          (fun h => hnotmem (h ▸ hpS)), if_neg hpnext]
        exact hpfree) a
    rw [hco]
    by_cases hab : a = b
    · subst hab
      rw [if_pos rfl]
      have : needed + (blockHeader + ((h.block a).size - needed - blockHeader)) =
          (h.block a).size := by
        simp only [blockHeader, heapMinSplit] at hlt ⊢
        omega
      rw [this, ← hfree]
    · have hanext : a ≠ b + blockHeader + needed := fun h => hnotmem (h ▸ ha)
      rw [if_neg hab, hgother a hab, hsother a hab hanext]
      by_cases han : (h.block b).next = some a
      · rw [if_pos han, if_pos han]
        obtain ⟨-, -, hprev, -⟩ := hs.next b hb a han
        rw [← hprev]
      · rw [if_neg han, if_neg han]

/-- The walk along the list meets blocks of `S` only. -/
theorem Sound.blocksFrom_congr (hs : h.Sound S) (heq : ∀ a ∈ S, h'.block a = h.block a) (n : Nat)
    (ho : ∀ a, o = some a → a ∈ S) : h'.blocksFrom n o = h.blocksFrom n o := by
  induction n generalizing o with
  | zero => rfl
  | succ n ih =>
    rcases o with _ | b
    · rfl
    · have hb := ho b rfl
      unfold blocksFrom
      rw [heq b hb, ih fun a ha => (hs.next b hb a ha).1]

/-- A loop of `kmalloc` that finds nothing changes nothing. -/
theorem kmallocFrom_none {needed fuel : Nat} (hk : (h.kmallocFrom needed fuel o).1 = none) :
    (h.kmallocFrom needed fuel o).2 = h := by
  induction fuel generalizing o with
  | zero => rfl
  | succ fuel ih =>
    rcases o with _ | b
    · rfl
    · unfold kmallocFrom at hk ⊢
      split
      · rename_i hfree
        rw [if_pos hfree] at hk
        cases hk
      · rename_i hfree
        rw [if_neg hfree] at hk
        exact ih hk

/-- A `kmalloc` that fails changes nothing. -/
theorem kmalloc_none {size : Nat} (hk : h.kmalloc size = (none, h')) : h' = h := by
  unfold kmalloc at hk
  split at hk
  · cases hk
    rfl
  · have h2 := kmallocFrom_none (congrArg Prod.fst hk)
    rw [hk] at h2
    exact h2

/-- **`kfree` undoes `kmalloc`**: the block list and the count of used bytes are as before. -/
theorem Sound.kfree_kmalloc (hs : h.Sound S) {size p : Nat} (hk : h.kmalloc size = (some p, h')) :
    (h'.kfree (some p)).Sound S ∧ (h'.kfree (some p)).blocks = h.blocks ∧
      (h'.kfree (some p)).heapUsed = h.heapUsed := by
  unfold kmalloc at hk
  split at hk
  · cases hk
  · obtain ⟨b, hb, hfree, hle, rfl, rfl⟩ := kmallocFrom_some hs hs.head hk
    obtain ⟨hblock, hhead, hused⟩ := kfree_taken hs hb hfree hle
    refine ⟨?_, ?_, hused⟩
    · constructor
      · rw [hhead]
        exact hs.head
      · intro a ha n hn
        rw [hblock a ha] at hn ⊢
        obtain ⟨hnS, h2, h3, h4⟩ := hs.next a ha n hn
        rw [hblock n hnS]
        exact ⟨hnS, h2, h3, h4⟩
      · intro a ha p hp
        rw [hblock a ha] at hp
        obtain ⟨hpS, hnext⟩ := hs.prev a ha p hp
        rw [hblock p hpS]
        exact ⟨hpS, hnext⟩
      · intro a ha c hc hac
        rw [hblock a ha]
        exact hs.apart a ha c hc hac
      · intro a ha
        rw [hblock a ha]
        exact hs.size a ha
      · rw [hused]
        exact hs.used
    · unfold blocks
      rw [hhead]
      exact hs.blocksFrom_congr hblock maxBlocks hs.head

/-- A heap of one block. -/
theorem Sound.single {b : Nat} (hhead : h.heapHead = some b) (hnext : (h.block b).next = none)
    (hprev : (h.block b).prev = none) (hsize : (h.block b).size ≤ heapSize) (hused : h.heapUsed ≤ heapSize) :
    h.Sound {b} where
  head a ha := (Option.some.inj (hhead.symm.trans ha)).symm
  next := by
    rintro a rfl n hn
    cases hnext.symm.trans hn
  prev := by
    rintro a rfl p hp
    cases hprev.symm.trans hp
  apart := by
    rintro a rfl b rfl hlt
    exact absurd hlt (Nat.lt_irrefl _)
  size := by
    rintro a rfl
    exact hsize
  used := hused

/-- The heap of `allocator_init` is one free block. -/
theorem allocatorInit_sound (h : Heap) : h.allocatorInit.Sound {heapStart} := by
  have hblock : h.allocatorInit.block heapStart =
      { size := heapSize - blockHeader, free := true, next := none, prev := none } := by
    exact update_self heapStart _ h.block
  refine .single rfl ?_ ?_ ?_ (Nat.zero_le _)
  · rw [hblock]
  · rw [hblock]
  · rw [hblock]
    exact Nat.sub_le _ _

end Heap

end AgenticOs
