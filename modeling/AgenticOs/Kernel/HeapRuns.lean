import AgenticOs.Kernel.HeapTiling
import Mathlib.Algebra.BigOperators.Group.List.Lemmas
import Mathlib.Order.CompletePartialOrder
import Mathlib.Order.Interval.Set.Disjoint

/-!
# Runs of the heap

Calls of `kmalloc` and `kfree` in any order after `allocator_init`, with the pointers that have been returned
and not yet freed (`HeapRun`).

* **Well-formed heaps** (`WellFormed`): the headers lie side by side and fill the heap, blocks in use do not
  overlap, no two free blocks are neighbours, the live pointers are those of the blocks in use, and the counts
  are right. A heap is well formed if it is tiled, and tiled if it is well formed (`Tiled.wellFormed`,
  `WellFormed.tiled`).
* **Calls** (`WellFormed.kmalloc`, `WellFormed.kfree`): a block that is returned was not live and becomes
  live; one that is freed is the only one that is no longer live.
* **Main result** (`heap_well_formed`): in every state of every run.
* **Requests** (`honours_iff`): what a well-formed heap answers to a request is right (`Honours`) except where
  the request is rounded up past the end of the 32-bit range while a block is free (`huge_request_returned`).
-/

namespace AgenticOs

open Lib

namespace Heap

variable {h h' : Heap} {l l₁ l₂ : List Block} {p q : Block} {prev : Option Nat} {a b n fuel total : Nat}
  {live : List Nat}

/-- The calls of a run, and the live allocations: the pointers returned and not yet freed. -/
inductive HeapRun : Heap → List Nat → Prop
  | allocatorInit (h : Heap) : HeapRun h.allocatorInit []
  | kmalloc {h h' : Heap} {live : List Nat} {size ptr : Nat} (hr : HeapRun h live) (hsize : size < wordSize)
      (hk : h.kmalloc size = (some ptr, h')) : HeapRun h' (ptr :: live)
  | kmallocNull {h h' : Heap} {live : List Nat} {size : Nat} (hr : HeapRun h live) (hsize : size < wordSize)
      (hk : h.kmalloc size = (none, h')) : HeapRun h' live
  | kfree {h : Heap} {live : List Nat} {ptr : Nat} (hr : HeapRun h live) (hlive : ptr ∈ live) :
      HeapRun (h.kfree (some ptr)) (live.erase ptr)
  | kfreeNull {h : Heap} {live : List Nat} (hr : HeapRun h live) : HeapRun (h.kfree none) live

/-- The bytes of payload behind a pointer. -/
def payloadSize (h : Heap) (ptr : Nat) : Nat := (h.block (ptr - blockHeader)).size

/-- The payload behind a pointer. -/
def payload (h : Heap) (ptr : Nat) : Set Nat := Set.Ico ptr (ptr + h.payloadSize ptr)

/-- The pointers to the payloads of the blocks in use. -/
def inUse (h : Heap) : List Nat :=
  (h.blocks.filter fun x => !x.2.free).map fun x => x.1 + blockHeader

/-- A heap whose live allocations are `live`. -/
structure WellFormed (h : Heap) (live : List Nat) : Prop where
  /-- The block list starts at `HEAP_START`. -/
  first : h.blocks.head?.map Prod.fst = some heapStart
  firstPrev : (h.block heapStart).prev = none
  /-- The links of neighbours agree, and a block begins where the payload of the one before it ends. -/
  linked : h.blocks.IsChain fun x y =>
    (x.2.next = some y.1 ∧ y.2.prev = some x.1) ∧ y.1 = x.1 + blockHeader + x.2.size
  /-- The last block ends at `HEAP_START + HEAP_SIZE`. -/
  last : ∀ x, h.blocks.getLast? = some x →
    x.2.next = none ∧ x.1 + blockHeader + x.2.size = heapStart + heapSize
  sizes : ∀ x ∈ h.blocks, heapAlignment ∣ x.2.size
  coalesced : h.blocks.IsChain fun x y => ¬ (x.2.free = true ∧ y.2.free = true)
  /-- The live allocations are the blocks in use, each once. -/
  inUse : live.Perm h.inUse
  nodup : live.Nodup
  aligned : ∀ ptr ∈ live, heapAlignment ∣ ptr
  disjoint : live.Pairwise fun x y => Disjoint (h.payload x) (h.payload y)
  used : h.heapUsed = (live.map h.payloadSize).sum
  accounted : h.allocatorGetFreeBytes + h.heapUsed + blockHeader * h.blocks.length = heapSize
  /-- When everything has been freed, the heap is one free block. -/
  emptied : live = [] → h.blocks =
    [(heapStart, { size := heapSize - blockHeader, free := true, next := none, prev := none })]

/-! ### The headers of a chain -/

/-- The headers of blocks side by side, with their addresses. -/
def headers (h : Heap) : Nat → List Block → List (Nat × HeapBlock)
  | _, [] => []
  | a, p :: l => (a, h.block a) :: headers h (a + blockHeader + p.size) l

/-- The block that a header describes. -/
def described (x : Nat × HeapBlock) : Block := ⟨x.2.size, x.2.free⟩

/-- The walk along a chain meets its headers. -/
theorem Chain.blocksFrom (hc : h.Chain none prev a l) (hfuel : l.length ≤ fuel) :
    h.blocksFrom fuel (if l.isEmpty then none else some a) = h.headers a l := by
  induction l generalizing prev a fuel with
  | nil => cases fuel <;> rfl
  | cons p l ih =>
    obtain ⟨fuel, rfl⟩ := Nat.exists_eq_add_of_lt (Nat.lt_of_lt_of_le (Nat.succ_pos _) hfuel)
    rw [Nat.zero_add] at hfuel ⊢
    have hrun : h.blocksFrom (fuel + 1) (some a) = (a, h.block a) :: h.blocksFrom fuel (h.block a).next := rfl
    rw [List.isEmpty_cons, if_neg Bool.false_ne_true, hrun, headers, hc.1]
    exact congrArg _ (ih hc.2 (Nat.le_of_succ_le_succ hfuel))

/-- The block list of a tiled heap. -/
theorem Tiled.blocks (ht : h.Tiled l) : h.blocks = h.headers heapStart l := by
  have hwalk := ht.chain.blocksFrom ht.length_le
  rw [if_neg (by simpa using ht.ne_nil)] at hwalk
  unfold Heap.blocks
  rw [ht.head, hwalk]

/-- The headers of a chain describe its blocks. -/
theorem Chain.described (hc : h.Chain none prev a l) : (h.headers a l).map described = l := by
  induction l generalizing prev a with
  | nil => rfl
  | cons p l ih =>
    rw [headers, List.map_cons, ih hc.2, Heap.described, hc.1]

/-- Neighbours are linked to one another, and lie side by side. -/
theorem Chain.linked (hc : h.Chain none prev a l) :
    (h.headers a l).IsChain fun x y =>
      (x.2.next = some y.1 ∧ y.2.prev = some x.1) ∧ y.1 = x.1 + blockHeader + x.2.size := by
  induction l generalizing prev a with
  | nil => exact List.isChain_nil
  | cons p l ih =>
    cases l with
    | nil => exact List.isChain_singleton _
    | cons q l =>
      refine List.isChain_cons_cons.mpr ⟨⟨⟨hc.next_eq, ?_⟩, ?_⟩, ih hc.2⟩
      · rw [hc.2.1]
      · rw [hc.1]

/-- The last header links to nothing, and its block ends the chain. -/
theorem Chain.last (hc : h.Chain none prev a l) {x : Nat × HeapBlock}
    (hx : (h.headers a l).getLast? = some x) :
    x.2.next = none ∧ x.1 + blockHeader + x.2.size = a + extent l := by
  induction l generalizing prev a with
  | nil => cases hx
  | cons p l ih =>
    rw [add_extent_cons]
    cases l with
    | nil =>
      obtain rfl := Option.some.inj hx
      rw [hc.1]
      exact ⟨rfl, rfl⟩
    | cons q l => exact ih hc.2 (by rwa [headers, headers, List.getLast?_cons_cons] at hx)

/-- The headers in use are those of the blocks in use. -/
theorem Chain.inUse (hc : h.Chain none prev a l) :
    ((h.headers a l).filter fun x => !x.2.free).map Prod.fst = Blocks.inUse blockHeader a l := by
  induction l generalizing prev a with
  | nil => rfl
  | cons p l ih =>
    have hfree : (h.block a).free = p.free := by rw [hc.1]
    rw [headers, List.filter_cons, Blocks.inUse, hfree, ← ih hc.2]
    cases p.free <;> rfl

/-- The pointers in use are those of the blocks in use. -/
theorem inUse_eq (hc : h.Chain none prev heapStart l) (hb : h.blocks = h.headers heapStart l) :
    h.inUse = (Blocks.inUse blockHeader heapStart l).map (· + blockHeader) := by
  rw [← hc.inUse, List.map_map, Heap.inUse, hb]
  rfl

/-- Blocks in use do not overlap. -/
theorem Chain.apart (hc : h.Chain none prev a l) :
    (Blocks.inUse blockHeader a l).Pairwise fun x y => x + blockHeader + (h.block x).size ≤ y := by
  induction l generalizing prev a with
  | nil => exact List.Pairwise.nil
  | cons p l ih =>
    rw [Blocks.inUse]
    split
    · exact ih hc.2
    · refine List.pairwise_cons.mpr ⟨fun b hb => ?_, ih hc.2⟩
      obtain ⟨l₁, q, l₂, -, -, rfl⟩ := Blocks.mem_inUse.mp hb
      rw [hc.1]
      exact Nat.le_add_right _ _

/-- The payloads in use add up to what the blocks use. -/
theorem Chain.used (hc : h.Chain none prev a l) :
    ((Blocks.inUse blockHeader a l).map fun x => (h.block x).size).sum = Blocks.used l := by
  induction l generalizing prev a with
  | nil => rfl
  | cons p l ih =>
    rw [Blocks.inUse, Blocks.used_cons, ← ih hc.2]
    split
    · rw [Nat.zero_add]
    · rw [List.map_cons, List.sum_cons, hc.1]

/-- So do those of the live pointers. -/
theorem used_eq (hc : h.Chain none prev heapStart l) (hb : h.blocks = h.headers heapStart l)
    (hlive : live.Perm h.inUse) : (live.map h.payloadSize).sum = Blocks.used l := by
  rw [(hlive.map _).sum_eq, inUse_eq hc hb, List.map_map, ← hc.used]
  refine congrArg _ (List.map_congr_left fun x _ => ?_)
  rw [Function.comp_apply, payloadSize, Nat.add_sub_cancel]

/-- A walk meets no more blocks than it has steps. -/
theorem length_blocksFrom_le (h : Heap) (fuel : Nat) (o : Option Nat) :
    (h.blocksFrom fuel o).length ≤ fuel := by
  induction fuel generalizing o with
  | zero => exact Nat.le_refl 0
  | succ fuel ih =>
    cases o with
    | none => exact Nat.zero_le _
    | some a => exact Nat.succ_le_succ (ih _)

/-- The loop of `allocator_get_free_bytes` adds up the free payloads. -/
theorem Chain.freeBytesFrom (hc : h.Chain none prev a l) (hfuel : l.length ≤ fuel)
    (hlt : total + Blocks.unused l < wordSize) :
    h.freeBytesFrom fuel (if l.isEmpty then none else some a) total = total + Blocks.unused l := by
  induction l generalizing prev a fuel total with
  | nil => cases fuel <;> rfl
  | cons p l ih =>
    obtain ⟨fuel, rfl⟩ := Nat.exists_eq_add_of_lt (Nat.lt_of_lt_of_le (Nat.succ_pos _) hfuel)
    rw [Nat.zero_add] at hfuel ⊢
    have hrun : h.freeBytesFrom (fuel + 1) (some a) total = h.freeBytesFrom fuel (h.block a).next
        (if (h.block a).free then (total + (h.block a).size) % wordSize else total) := rfl
    rw [Blocks.unused_cons] at hlt ⊢
    rw [List.isEmpty_cons, if_neg Bool.false_ne_true, hrun, hc.1]
    dsimp only
    split at hlt
    · rename_i hp
      rw [if_pos hp, if_pos hp, Nat.mod_eq_of_lt (by omega), ih hc.2 (Nat.le_of_succ_le_succ hfuel) (by omega)]
      omega
    · rename_i hp
      rw [if_neg hp, if_neg hp, ih hc.2 (Nat.le_of_succ_le_succ hfuel) (by omega)]
      omega

/-- `allocator_get_free_bytes` is right: the heap is smaller than `2^32`. -/
theorem Tiled.freeBytes (ht : h.Tiled l) : h.allocatorGetFreeBytes = Blocks.unused l := by
  have hcovers := ht.covers
  rw [extent_eq] at hcovers
  have hlt : heapSize < wordSize := by decide
  have hwalk := @Chain.freeBytesFrom _ _ _ _ _ 0 ht.chain ht.length_le (by omega)
  rw [if_neg (by simpa using ht.ne_nil), Nat.zero_add] at hwalk
  unfold allocatorGetFreeBytes
  rw [ht.head, hwalk]

/-! ### Well-formed heaps -/

/-- Blocks that fill the heap, the pointers into those in use being live. -/
theorem Tiled.wellFormed (ht : h.Tiled l) (hlive : live.Perm h.inUse) : h.WellFormed live := by
  have hinUse := inUse_eq ht.chain ht.blocks
  have hstart : ∃ p l', l = p :: l' := List.exists_cons_of_ne_nil ht.ne_nil
  have hmem {ptr : Nat} (hptr : ptr ∈ live) :
      ∃ l₁ q l₂, l = l₁ ++ q :: l₂ ∧ ptr = heapStart + extent l₁ + blockHeader := by
    have hp := hlive.subset hptr
    rw [hinUse] at hp
    obtain ⟨b, hb, rfl⟩ := List.mem_map.mp hp
    obtain ⟨l₁, q, l₂, hl, -, rfl⟩ := Blocks.mem_inUse.mp hb
    exact ⟨l₁, q, l₂, hl, rfl⟩
  have hsorted := @Blocks.inUse_pairwise blockHeader l heapStart (by decide)
  constructor
  · obtain ⟨p, l', rfl⟩ := hstart
    rw [ht.blocks]
    rfl
  · obtain ⟨p, l', rfl⟩ := hstart
    rw [ht.chain.1]
  · rw [ht.blocks]
    exact ht.chain.linked
  · intro x hx
    rw [ht.blocks] at hx
    rw [← ht.covers]
    exact ht.chain.last hx
  · intro x hx
    rw [ht.blocks] at hx
    refine ht.aligned (described x) ?_
    rw [← ht.chain.described]
    exact List.mem_map_of_mem hx
  · have hcoalesced := ht.coalesced
    unfold Blocks.Coalesced at hcoalesced
    rw [← ht.chain.described, List.isChain_map] at hcoalesced
    rw [ht.blocks]
    exact hcoalesced
  · exact hlive
  · refine hlive.nodup_iff.mpr ?_
    rw [hinUse]
    exact (hsorted.imp Nat.ne_of_lt).map _ fun x y hxy heq => hxy (Nat.add_right_cancel heq)
  · intro ptr hptr
    obtain ⟨l₁, q, l₂, rfl, rfl⟩ := hmem hptr
    have hextent : ∀ m : List Block, (∀ x ∈ m, heapAlignment ∣ x.size) → heapAlignment ∣ extent m := by
      intro m
      induction m with
      | nil => exact fun _ => Nat.dvd_zero _
      | cons p m ih =>
        intro hm
        rw [extent_cons]
        exact Nat.dvd_add (Nat.dvd_add (by decide) (hm p List.mem_cons_self))
          (ih fun x hx => hm x (List.mem_cons_of_mem _ hx))
    have h₁ := hextent l₁ fun x hx => ht.aligned x (List.mem_append_left _ hx)
    exact Nat.dvd_add (Nat.dvd_add (by decide) h₁) (by decide)
  · have hapart : (h.inUse).Pairwise fun x y => Disjoint (h.payload x) (h.payload y) := by
      rw [hinUse, List.pairwise_map]
      refine ht.chain.apart.imp fun {x y} hxy => Set.disjoint_left.mpr fun z hz hz' => ?_
      have hz₁ := hz.2
      have hz₂ := hz'.1
      simp only [payloadSize, Nat.add_sub_cancel] at hz₁
      simp only [blockHeader] at hxy hz₁ hz₂
      omega
    exact (hlive.pairwise_iff fun hxy => hxy.symm).mpr hapart
  · rw [ht.used, used_eq ht.chain ht.blocks hlive]
  · have hlength : h.blocks.length = l.length := by
      conv_rhs => rw [← ht.chain.described, List.length_map, ← ht.blocks]
    rw [ht.freeBytes, ht.used, hlength, ← ht.covers, extent_eq, Nat.add_comm (Blocks.unused l)]
  · rintro rfl
    have hnone : Blocks.inUse blockHeader heapStart l = [] := by
      rw [List.nil_perm, hinUse, List.map_eq_nil_iff] at hlive
      exact hlive
    obtain ⟨size, rfl⟩ := ht.coalesced.eq_singleton ht.ne_nil hnone
    have hcovers := ht.covers
    rw [extent_cons] at hcovers
    have hsize : size = heapSize - blockHeader := by
      simp only [extent, Blocks.extent_nil, heapSize, blockHeader] at hcovers ⊢
      omega
    rw [ht.blocks, headers, headers, ht.chain.1, hsize]
    rfl

/-- Headers that are linked side by side are those of the blocks that they describe. -/
theorem chain_of_blocksFrom (hstep : (h.blocksFrom fuel (some a)).IsChain fun x y =>
      (x.2.next = some y.1 ∧ y.2.prev = some x.1) ∧ y.1 = x.1 + blockHeader + x.2.size)
    (hlast : ∀ x, (h.blocksFrom fuel (some a)).getLast? = some x → x.2.next = none)
    (hprev : (h.block a).prev = prev) (hfuel : fuel ≠ 0) :
    h.Chain none prev a ((h.blocksFrom fuel (some a)).map described) := by
  induction fuel generalizing a prev with
  | zero => exact absurd rfl hfuel
  | succ fuel ih =>
    have hrun : h.blocksFrom (fuel + 1) (some a) = (a, h.block a) :: h.blocksFrom fuel (h.block a).next := rfl
    rw [hrun] at hstep hlast ⊢
    cases hnext : (h.block a).next with
    | none =>
      have hnil : h.blocksFrom fuel none = [] := by cases fuel <;> rfl
      rw [hnil]
      refine ⟨?_, trivial⟩
      rw [← hprev, List.map_nil, List.isEmpty_nil, if_pos rfl, ← hnext]
      rfl
    | some c =>
      rw [hnext] at hstep hlast
      cases fuel with
      | zero =>
        have hlink : (h.block a).next = none := hlast (a, h.block a) rfl
        rw [hnext] at hlink
        cases hlink
      | succ fuel =>
        have hrest : h.blocksFrom (fuel + 1) (some c) = (c, h.block c) :: h.blocksFrom fuel (h.block c).next := rfl
        obtain ⟨⟨⟨-, hback⟩, hadjacent⟩, htail⟩ := List.isChain_cons_cons.mp (hrest ▸ hstep)
        have hc := ih (hrest ▸ htail) (fun x hx => hlast x ?_) hback (Nat.succ_ne_zero _)
        · rw [List.map_cons]
          refine ⟨?_, ?_⟩
          · rw [← hprev, hrest, List.map_cons, List.isEmpty_cons, if_neg Bool.false_ne_true]
            dsimp only at hadjacent
            unfold described
            dsimp only
            rw [← hadjacent, ← hnext]
          · unfold described
            dsimp only at hadjacent ⊢
            rw [← hadjacent]
            exact hc
        · rw [hrest] at hx ⊢
          rwa [List.getLast?_cons_cons]

/-- The blocks of a well-formed heap. -/
theorem WellFormed.tiled (hw : h.WellFormed live) : h.Tiled (h.blocks.map described) := by
  have hhead : h.heapHead = some heapStart := by
    have hfirst := hw.first
    unfold blocks at hfirst
    cases hh : h.heapHead with
    | none =>
      rw [hh] at hfirst
      cases hfirst
    | some a =>
      rw [hh] at hfirst
      exact hfirst
  have hblocks : h.blocks = h.blocksFrom maxBlocks (some heapStart) := by rw [blocks, hhead]
  have hchain : h.Chain none none heapStart (h.blocks.map described) := by
    rw [hblocks]
    refine chain_of_blocksFrom ?_ (fun x hx => (hw.last x (hblocks ▸ hx)).1) hw.firstPrev (by decide)
    rw [← hblocks]
    exact hw.linked
  have hheaders : h.blocks = h.headers heapStart (h.blocks.map described) := by
    have hlength : (h.blocks.map described).length ≤ maxBlocks := by
      rw [List.length_map]
      exact length_blocksFrom_le _ _ _
    have hne : h.blocks.map described ≠ [] := fun hnil => by
      have hfirst := hw.first
      rw [List.map_eq_nil_iff.mp hnil] at hfirst
      cases hfirst
    have hwalk := hchain.blocksFrom hlength
    rw [if_neg (by simpa using hne), ← hblocks] at hwalk
    exact hwalk
  refine ⟨hhead, hchain, ?_, List.isChain_map _ |>.mpr hw.coalesced, ?_, ?_⟩
  · -- the last block says where the blocks end
    obtain ⟨x, hx⟩ : ∃ x, h.blocks.getLast? = some x := by
      cases hx : h.blocks.getLast? with
      | some x => exact ⟨x, rfl⟩
      | none =>
        have hfirst := hw.first
        rw [List.getLast?_eq_none_iff.mp hx] at hfirst
        cases hfirst
    have hend := (hw.last x hx).2
    rw [hheaders] at hx
    exact Nat.add_left_cancel ((hchain.last hx).2.symm.trans hend)
  · intro x hx
    obtain ⟨y, hy, rfl⟩ := List.mem_map.mp hx
    exact hw.sizes y hy
  · rw [hw.used, used_eq hchain hheaders hw.inUse]

/-! ### What a call does -/

/-- The pointers in use of a tiled heap. -/
theorem Tiled.inUse (ht : h.Tiled l) :
    h.inUse = (Blocks.inUse blockHeader heapStart l).map (· + blockHeader) := inUse_eq ht.chain ht.blocks

/-- A block that is returned was not live, and becomes live. -/
theorem WellFormed.kmalloc (hw : h.WellFormed live) (hk : h.kmalloc n = (some b, h')) :
    h'.WellFormed (b :: live) := by
  have ht := hw.tiled
  generalize h.blocks.map described = l at ht
  have hn : n ≠ 0 := by
    rintro rfl
    have hzero : h.kmalloc 0 = (none, h) := if_pos (.inr rfl)
    rw [hzero] at hk
    cases hk
  rcases ht.kmalloc hn with ⟨l₁, p, l₂, rfl, hp, hrun, htaken⟩ | ⟨-, hrun⟩
  · rw [hrun] at hk
    cases hk
    refine htaken.wellFormed ?_
    rw [htaken.inUse]
    refine (List.Perm.cons _ (hw.inUse.trans (.of_eq ht.inUse))).trans ?_
    exact ((Blocks.inUse_take hp.1 hp.2).map (· + blockHeader)).symm
  · rw [hrun] at hk
    cases hk

/-- A live block that is freed is the only one that is no longer live. -/
theorem WellFormed.kfree (hw : h.WellFormed live) (hb : b ∈ live) :
    (h.kfree (some b)).WellFormed (live.erase b) := by
  have ht := hw.tiled
  generalize h.blocks.map described = l at ht
  have hmem := hw.inUse.subset hb
  rw [ht.inUse] at hmem
  obtain ⟨c, hc, rfl⟩ := List.mem_map.mp hmem
  obtain ⟨l₁, q, l₂, rfl, hq, rfl⟩ := Blocks.mem_inUse.mp hc
  have hgiven := ht.kfree hq
  refine hgiven.wellFormed ?_
  have hbefore : live.Perm ((heapStart + extent l₁ + blockHeader) ::
      (Blocks.inUse blockHeader heapStart (Blocks.giveBack blockHeader l₁ q l₂)).map (· + blockHeader)) := by
    refine (hw.inUse.trans (.of_eq ht.inUse)).trans ?_
    exact (Blocks.inUse_give hq).map (· + blockHeader)
  rw [hgiven.inUse]
  exact (hbefore.erase _).trans (by rw [List.erase_cons_head])

/-- **The kernel heap is well formed** after every sequence of calls. -/
theorem heap_well_formed (hr : HeapRun h live) : h.WellFormed live := by
  induction hr with
  | allocatorInit h =>
    have ht := allocatorInit_tiled h
    refine ht.wellFormed ?_
    rw [ht.inUse]
    exact .refl _
  | kmalloc _ _ hk ih => exact ih.kmalloc hk
  | kmallocNull _ _ hk ih =>
    obtain rfl := kmalloc_none hk
    exact ih
  | kfree _ hlive ih => exact ih.kfree hlive
  | kfreeNull _ ih => exact ih

/-- The heap of `allocator_init`. -/
def initialHeap : Heap :=
  allocatorInit ⟨fun _ => { size := 0, free := false, next := none, prev := none }, none, 0⟩

/-- Two blocks are taken from the heap of `allocator_init`, the first one is freed. -/
theorem heap_well_formed_freed :
    (((initialHeap.kmalloc 24).2.kmalloc 80).2.kfree (some 0x00200010)).WellFormed [0x00200040] :=
  have hfirst : HeapRun (initialHeap.kmalloc 24).2 [0x00200010] :=
    .kmalloc (.allocatorInit _) (by decide : 24 < wordSize) rfl
  have hsecond : HeapRun ((initialHeap.kmalloc 24).2.kmalloc 80).2 [0x00200040, 0x00200010] :=
    .kmalloc hfirst (by decide : 80 < wordSize) rfl
  heap_well_formed (.kfree hsecond (by decide))

/-! ### What a request gets -/

/-- The bytes of payload that a request asks for: a multiple of 16. -/
def requested (n : Nat) : Nat := (n + (heapAlignment - 1)) / heapAlignment * heapAlignment

/-- `kmalloc` honours a request of `n` bytes: it returns `NULL` exactly when no free block has the bytes,
and else a pointer to at least `n` bytes that were free, inside the heap and apart from every live
allocation. -/
def Honours (h : Heap) (live : List Nat) (n : Nat) : Prop :=
  ((h.kmalloc n).1 = none ↔ ∀ x ∈ h.blocks, x.2.free = true → x.2.size < requested n) ∧
    ∀ ptr, (h.kmalloc n).1 = some ptr →
      n ≤ (h.kmalloc n).2.payloadSize ptr ∧
      (h.kmalloc n).2.payload ptr ⊆ Set.Ico heapStart (heapStart + heapSize) ∧
      (∃ x ∈ h.blocks, x.2.free = true ∧ (h.kmalloc n).2.payload ptr ⊆ h.payload (x.1 + blockHeader)) ∧
      ∀ y ∈ live, Disjoint ((h.kmalloc n).2.payload ptr) (h.payload y)

/-- A request gets at least its bytes. -/
theorem le_requested (n : Nat) : n ≤ requested n := by
  simp only [requested, heapAlignment]
  omega

/-- The request is rounded as an integer, but for the fifteen sizes at the end of the range. -/
theorem heapAlignUp_eq_requested (hn : n ≤ wordSize - heapAlignment) : heapAlignUp n = requested n := by
  have hmod : (n + (heapAlignment - 1)) % wordSize = n + (heapAlignment - 1) :=
    Nat.mod_eq_of_lt (by simp only [wordSize, heapAlignment] at hn ⊢; omega)
  rw [heapAlignUp, hmod, requested]

/-- The sizes that wrap are rounded up to zero. -/
theorem heapAlignUp_wraps (hn : wordSize - heapAlignment < n) (hlt : n < wordSize) : heapAlignUp n = 0 := by
  simp only [heapAlignUp, wordSize, heapAlignment] at hn hlt ⊢
  omega

/-- The payload that a block gets lies in the payload that it had. -/
theorem Chain.taken_size (hc : h.Chain none prev b (p :: l)) (hle : n ≤ p.size) :
    n ≤ ((h.taken b n).block b).size ∧ ((h.taken b n).block b).size ≤ p.size := by
  have htaken := (hc.take hle).1
  unfold Blocks.taken at htaken
  split at htaken
  · rw [htaken.1]
    exact ⟨hle, Nat.le_refl _⟩
  · rw [htaken.1]
    exact ⟨Nat.le_refl _, hle⟩

/-- The headers of a chain in two parts. -/
theorem headers_append : h.headers a (l₁ ++ l₂) = h.headers a l₁ ++ h.headers (a + extent l₁) l₂ := by
  induction l₁ generalizing a with
  | nil => rfl
  | cons p l₁ ih =>
    rw [List.cons_append, headers, ih, headers, add_extent_cons]
    rfl

/-- Every block of a tiled heap is met. -/
theorem Tiled.mem_blocks (ht : h.Tiled (l₁ ++ p :: l₂)) :
    (heapStart + extent l₁, h.block (heapStart + extent l₁)) ∈ h.blocks := by
  rw [ht.blocks, headers_append, headers]
  exact List.mem_append_right _ List.mem_cons_self

/-- The payload of a free block is apart from those in use. -/
theorem Tiled.free_apart (ht : h.Tiled (l₁ ++ p :: l₂)) (hp : p.free = true) (hb : b ∈ h.inUse) :
    Disjoint (h.payload (heapStart + extent l₁ + blockHeader)) (h.payload b) := by
  have hsize : (h.block (heapStart + extent l₁)).size = p.size := by
    rw [(chain_append_cons.mp ht.chain).2.1]
  rw [ht.inUse] at hb
  obtain ⟨c, hc, rfl⟩ := List.mem_map.mp hb
  rw [Blocks.inUse_append, Blocks.inUse, if_pos hp] at hc
  refine Set.disjoint_left.mpr fun z hz hz' => ?_
  have hz₁ := hz.1
  have hz₂ := hz.2
  have hz₃ := hz'.1
  have hz₄ := hz'.2
  simp only [payloadSize, Nat.add_sub_cancel, hsize] at hz₂ hz₄
  rcases List.mem_append.mp hc with hc | hc
  · -- the block in use is before it
    obtain ⟨m₁, q, m₂, rfl, -, rfl⟩ := Blocks.mem_inUse.mp hc
    have hq : (h.block (heapStart + extent m₁)).size = q.size := by
      have hchain := ht.chain
      rw [List.append_assoc] at hchain
      rw [(chain_append_cons.mp hchain).2.1]
    rw [hq] at hz₄
    simp only [extent, Blocks.extent_append, Blocks.extent_cons] at hz₁ hz₄
    omega
  · obtain ⟨m₁, q, m₂, rfl, -, rfl⟩ := Blocks.mem_inUse.mp hc
    simp only [extent] at hz₂ hz₃
    omega

/-- No block is larger than the heap. -/
theorem Tiled.size_le (ht : h.Tiled l) (hp : p ∈ l) : p.size ≤ heapSize := by
  obtain ⟨l₁, l₂, rfl⟩ := List.append_of_mem hp
  have hcovers := ht.covers
  simp only [extent, Blocks.extent_append, Blocks.extent_cons] at hcovers
  omega

/-- A block that fits a request that does not wrap. -/
theorem Tiled.honours (ht : h.Tiled (l₁ ++ p :: l₂)) (hw : h.WellFormed live)
    (hp : Fits (heapAlignUp n) p) (hn : n ≤ wordSize - heapAlignment)
    (hrun : h.kmalloc n = (some (heapStart + extent l₁ + blockHeader),
      h.taken (heapStart + extent l₁) (heapAlignUp n))) : h.Honours live n := by
  have hsuffix := (chain_append_cons.mp ht.chain).2
  have hheader : h.block (heapStart + extent l₁) = _ := hsuffix.1
  obtain ⟨hle, hge⟩ := hsuffix.taken_size hp.2
  rw [heapAlignUp_eq_requested hn] at hp hle hge hrun
  have hinside : extent l₁ + (blockHeader + p.size) ≤ heapSize := by
    have hcovers := ht.covers
    simp only [extent, Blocks.extent_append, Blocks.extent_cons] at hcovers ⊢
    omega
  unfold Honours
  rw [hrun]
  have hshrinks : (h.taken (heapStart + extent l₁) (requested n)).payload
      (heapStart + extent l₁ + blockHeader) ⊆ h.payload (heapStart + extent l₁ + blockHeader) := by
    refine Set.Ico_subset_Ico_right (Nat.add_le_add_left ?_ _)
    simp only [payloadSize, Nat.add_sub_cancel]
    rw [hheader]
    exact hge
  refine ⟨⟨nofun, fun hnone => ?_⟩, ?_⟩
  · have := hnone _ ht.mem_blocks (by rw [hheader]; exact hp.1)
    rw [hheader] at this
    exact absurd hp.2 (Nat.not_le_of_lt this)
  · rintro ptr hptr
    obtain rfl := Option.some.inj hptr
    refine ⟨?_, hshrinks.trans ?_, ⟨_, ht.mem_blocks, ?_, hshrinks⟩, fun y hy => ?_⟩
    · rw [payloadSize, Nat.add_sub_cancel]
      exact Nat.le_trans (le_requested n) hle
    · unfold payload payloadSize
      rw [Nat.add_sub_cancel, hheader]
      refine Set.Ico_subset_Ico (by omega) ?_
      dsimp only
      omega
    · rw [hheader]
      exact hp.1
    · exact (ht.free_apart hp.1 (hw.inUse.subset hy)).mono_left hshrinks

/-- **Which requests are honoured**: those that do not wrap when they are rounded up, and all while no
block is free. -/
theorem honours_iff (hw : h.WellFormed live) (hpos : 1 ≤ n) (hlt : n < wordSize) :
    h.Honours live n ↔ n ≤ wordSize - heapAlignment ∨ ∀ x ∈ h.blocks, x.2.free = false := by
  have ht := hw.tiled
  have hdescribed : ∀ x ∈ h.blocks, described x ∈ h.blocks.map described :=
    fun x hx => List.mem_map_of_mem hx
  generalize h.blocks.map described = l at ht hdescribed
  have hsmall : heapSize ≤ wordSize - heapAlignment := by decide
  rcases ht.kmalloc (Nat.one_le_iff_ne_zero.mp hpos) with ⟨l₁, p, l₂, rfl, hp, hrun, -⟩ | ⟨hnone, hrun⟩
  · constructor
    · intro hh
      refine .inl (Nat.not_lt.mp fun hbig => ?_)
      have hall : ∀ x ∈ h.blocks, x.2.free = true → x.2.size < requested n := by
        intro x hx _
        have hsize : x.2.size ≤ heapSize := ht.size_le (hdescribed x hx)
        have hrequested := le_requested n
        omega
      have hfail := hh.1.mpr hall
      rw [hrun] at hfail
      cases hfail
    · rintro (hn | hused)
      · exact ht.honours hw hp hn hrun
      · have hfree := hused _ ht.mem_blocks
        rw [(chain_append_cons.mp ht.chain).2.1] at hfree
        exact absurd hp.1 (Bool.eq_false_iff.mp hfree)
  · constructor
    · intro _
      by_cases hn : n ≤ wordSize - heapAlignment
      · exact .inl hn
      · refine .inr fun x hx => ?_
        have hx := hnone _ (hdescribed x hx)
        rw [heapAlignUp_wraps (Nat.not_le.mp hn) hlt] at hx
        exact Bool.eq_false_iff.mpr fun hfree => hx ⟨hfree, Nat.zero_le _⟩
    · intro hn
      unfold Honours
      rw [hrun]
      refine ⟨⟨fun _ x hx hfree => ?_, fun _ => rfl⟩, nofun⟩
      rcases hn with hn | hused
      · have hx := hnone _ (hdescribed x hx)
        rw [heapAlignUp_eq_requested hn] at hx
        exact Nat.not_le.mp fun hle => hx ⟨hfree, hle⟩
      · exact absurd hfree (Bool.eq_false_iff.mp (hused x hx))

/-- The heap of `allocator_init` is well formed. -/
theorem initialHeap_wellFormed : initialHeap.WellFormed [] := by
  have ht := allocatorInit_tiled ⟨fun _ => { size := 0, free := false, next := none, prev := none }, none, 0⟩
  refine ht.wellFormed ?_
  rw [ht.inUse]
  exact .refl _

/-- A small request of the first heap. -/
theorem honours_iff_small :
    initialHeap.Honours [] 24 ↔ 24 ≤ wordSize - heapAlignment ∨ ∀ x ∈ initialHeap.blocks, x.2.free = false :=
  honours_iff initialHeap_wellFormed (by decide) (by decide)

/-- A request of 2^32 - 1 bytes is rounded up to none, and gets a block without payload. -/
theorem huge_request_returned : ¬ ∀ (h : Heap) (live : List Nat) (n : Nat),
    h.WellFormed live → 1 ≤ n → n < wordSize → h.Honours live n := by
  intro hall
  have hh := hall initialHeap [] 0xFFFFFFFF initialHeap_wellFormed (by decide) (by decide)
  have hsize := (hh.2 0x00200010 rfl).1
  have hzero : (initialHeap.kmalloc 0xFFFFFFFF).2.payloadSize 0x00200010 = 0 := rfl
  rw [hzero] at hsize
  exact absurd hsize (by decide)

end Heap

end AgenticOs
