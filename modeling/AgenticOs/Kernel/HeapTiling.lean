import AgenticOs.Kernel.Heap
import AgenticOs.Lib.Blocks

/-!
# The heap is tiled

The headers in memory describe blocks side by side from `HEAP_START` to the end of the heap, linked in both
directions (`Tiled`).

* **Chains** (`Chain`): a part of the list, from an address to an address. Chains join (`chain_append`), a
  part can be replaced (`Chain.replace`), and a chain is about the headers between its ends only
  (`Chain.congr`).
* **`kmalloc`** (`Tiled.kmalloc`): it takes the first block that fits, or none does. On the list of blocks
  this is `Blocks.taken` (`Chain.take`).
* **`kfree`** (`Tiled.kfree`): the block that is given back takes in the one behind it and is taken in by the
  one before it. On the list of blocks this is `Blocks.giveBack` (`Chain.give`).
* **Walks** (`Tiled.length_le`): a walk along the list ends before its `maxBlocks` steps do.

`coalescePrev_eq_coalesceNext` saves half of the work: the second half of `coalesce` is the first, seen from
the block before.
-/

namespace AgenticOs

open Function Lib

namespace Heap

variable {h h' : Heap} {l l₁ l₂ : List Block} {p q r : Block} {next prev prev' : Option Nat} {a b n : Nat}

/-- The headers from address `a` on are those of the blocks `l`; the last one links to `next`, the first
one back to `prev`. -/
def Chain (h : Heap) (next : Option Nat) : Option Nat → Nat → List Block → Prop
  | _, _, [] => True
  | prev, a, p :: l =>
    h.block a =
        { size := p.size
          free := p.free
          next := if l.isEmpty then next else some (a + blockHeader + p.size)
          prev := prev } ∧
      Chain h next (some a) (a + blockHeader + p.size) l

/-- The address of the last block, if there is one. -/
def lastAddr (prev : Option Nat) (a : Nat) : List Block → Option Nat
  | [] => prev
  | p :: l => lastAddr (some a) (a + blockHeader + p.size) l

/-- The bytes of blocks. -/
abbrev extent (l : List Block) : Nat := Blocks.extent blockHeader l

/-- The bytes of a block and of those after it. -/
theorem extent_cons : extent (p :: l) = blockHeader + p.size + extent l := Blocks.extent_cons

/-- The blocks behind the first one begin where it ends. -/
theorem add_extent_cons (a : Nat) (p : Block) (l : List Block) :
    a + extent (p :: l) = a + blockHeader + p.size + extent l := by
  rw [extent_cons, Nat.add_assoc, Nat.add_assoc, Nat.add_assoc]

/-- A chain is two chains. -/
theorem chain_append_cons : h.Chain next prev a (l₁ ++ p :: l₂) ↔
    h.Chain (some (a + extent l₁)) prev a l₁ ∧
      h.Chain next (lastAddr prev a l₁) (a + extent l₁) (p :: l₂) := by
  induction l₁ generalizing prev a with
  | nil => exact ⟨fun hc => ⟨trivial, hc⟩, fun hc => hc.2⟩
  | cons q l₁ ih =>
    have hcons : h.Chain next prev a (q :: (l₁ ++ p :: l₂)) ↔ h.block a =
        { size := q.size, free := q.free, next := some (a + blockHeader + q.size), prev := prev } ∧
          h.Chain next (some a) (a + blockHeader + q.size) (l₁ ++ p :: l₂) := by
      cases l₁ <;> exact Iff.rfl
    rw [add_extent_cons, List.cons_append, hcons, ih, ← and_assoc]
    refine and_congr_left fun _ => and_congr_left fun _ => ?_
    cases l₁ with
    | nil => rfl
    | cons r l₁ => rfl

/-- A chain is about the headers between its ends. -/
theorem Chain.congr (hc : h.Chain next prev a l)
    (hag : ∀ x, a ≤ x → x < a + extent l → h'.block x = h.block x) : h'.Chain next prev a l := by
  induction l generalizing prev a with
  | nil => trivial
  | cons p l ih =>
    rw [add_extent_cons] at hag
    have hheader : 0 < blockHeader := by decide
    refine ⟨(hag a (Nat.le_refl a) (by omega)).trans hc.1, ih hc.2 fun x hx hstop => ?_⟩
    exact hag x (by omega) hstop

/-- The first block of a chain gets another block before it. -/
theorem Chain.relink (hc : h.Chain next prev a l) (hag : ∀ x, a < x → h'.block x = h.block x)
    (hfirst : l ≠ [] → h'.block a = { h.block a with prev := prev' }) : h'.Chain next prev' a l := by
  cases l with
  | nil => trivial
  | cons p l =>
    refine ⟨?_, hc.2.congr fun x hx _ => hag x ?_⟩
    · rw [hfirst (List.cons_ne_nil _ _), hc.1]
    · have hheader : 0 < blockHeader := by decide
      omega

/-- The next block begins where this one ends. -/
theorem Chain.next_eq (hc : h.Chain next prev a (p :: q :: l)) :
    (h.block a).next = some (a + blockHeader + p.size) := by
  rw [hc.1]
  rfl

/-! ### `kmalloc` -/

/-- A block fits a request. -/
abbrev Fits (needed : Nat) (p : Block) : Prop := p.free = true ∧ needed ≤ p.size

/-- The loop of `kmalloc` takes the first block that fits. -/
theorem kmallocFrom_chain {needed fuel : Nat} (hc : h.Chain none prev a l) (hfuel : l.length ≤ fuel) :
    (∃ l₁ p l₂, l = l₁ ++ p :: l₂ ∧ (∀ x ∈ l₁, ¬ Fits needed x) ∧ Fits needed p ∧
      h.kmallocFrom needed fuel (if l.isEmpty then none else some a) =
        (some (a + extent l₁ + blockHeader), h.taken (a + extent l₁) needed)) ∨
    (∀ x ∈ l, ¬ Fits needed x) ∧
      h.kmallocFrom needed fuel (if l.isEmpty then none else some a) = (none, h) := by
  induction l generalizing prev a fuel with
  | nil =>
    refine .inr ⟨nofun, ?_⟩
    cases fuel <;> rfl
  | cons p l ih =>
    obtain ⟨fuel, rfl⟩ := Nat.exists_eq_add_of_lt (Nat.lt_of_lt_of_le (Nat.succ_pos _) hfuel)
    rw [Nat.zero_add] at hfuel ⊢
    have hrun : h.kmallocFrom needed (fuel + 1) (some a) = if (h.block a).free ∧ needed ≤ (h.block a).size then
        (some (a + blockHeader), h.taken a needed) else h.kmallocFrom needed fuel (h.block a).next := rfl
    rw [hc.1] at hrun
    rw [List.isEmpty_cons, if_neg Bool.false_ne_true, hrun]
    dsimp only
    by_cases hp : Fits needed p
    · exact .inl ⟨[], p, l, rfl, nofun, hp, if_pos hp⟩
    · rw [if_neg hp]
      have hnone : ∀ x ∈ p :: l, x ∈ l ∨ x = p := fun x hx => (List.mem_cons.mp hx).symm
      rcases ih hc.2 (Nat.le_of_succ_le_succ hfuel) with ⟨l₁, q, l₂, rfl, hbefore, hq, hfound⟩ | ⟨hall, hfound⟩
      · refine .inl ⟨p :: l₁, q, l₂, rfl, fun x hx => ?_, hq, ?_⟩
        · rcases List.mem_cons.mp hx with rfl | hx
          · exact hp
          · exact hbefore x hx
        · rw [hfound, add_extent_cons]
      · refine .inr ⟨fun x hx => ?_, hfound⟩
        rcases List.mem_cons.mp hx with rfl | hx
        · exact hp
        · exact hall x hx

/-- A block that is taken from the chain. -/
theorem Chain.take (hc : h.Chain none prev b (p :: l)) (hle : n ≤ p.size) :
    (h.taken b n).Chain none prev b (Blocks.taken blockHeader heapMinSplit p n ++ l) ∧
      ∀ x, x < b → (h.taken b n).block x = h.block x := by
  have hself : (h.taken b n).block b = { (h.splitBlock b n).block b with free := false } := mark_self _ _ _
  have hother (x : Nat) (hx : x ≠ b) : (h.taken b n).block x = (h.splitBlock b n).block x :=
    mark_of_ne hx _
  have hsize : (h.block b).size = p.size := by rw [hc.1]
  have hheader : 0 < blockHeader := by decide
  unfold Blocks.taken
  split
  · -- the block is taken whole
    rename_i hwhole
    have hsame : h.splitBlock b n = h := if_pos (hsize ▸ hwhole)
    rw [hsame] at hself hother
    refine ⟨⟨?_, hc.2.congr fun x hx _ => hother x (by omega)⟩, fun x hx => hother x (by omega)⟩
    rw [hself, hc.1]
    rfl
  · -- its rest becomes a block
    rename_i hsplit
    have hnext : (h.block b).next ≠ some b := by
      rw [hc.1]
      dsimp only
      split
      · nofun
      · exact fun heq => by have := Option.some.inj heq; omega
    have hnext' : (h.block b).next ≠ some (b + blockHeader + n) := by
      rw [hc.1]
      dsimp only
      split
      · nofun
      · exact fun heq => by have := Option.some.inj heq; omega
    obtain ⟨hblock, -, -, hrest, hsplitOther⟩ := splitBlock_eq (hsize ▸ hsplit) hnext
    have hrest := hrest hnext'
    rw [hsize] at hrest
    have hrestAddr : b + blockHeader + n + blockHeader + (p.size - n - blockHeader) =
        b + blockHeader + p.size := by
      simp only [blockHeader] at hsplit ⊢
      omega
    refine ⟨⟨?_, ?_, ?_⟩, fun x hx => ?_⟩
    · rw [hself, hblock, hc.1]
      rfl
    · rw [hother _ (by omega), hrest, hrestAddr, hc.1]
      rfl
    · rw [hrestAddr]
      refine hc.2.relink (fun x hx => ?_) fun hne => ?_
      · have hxnext : (h.block b).next ≠ some x := by
          rw [hc.1]
          dsimp only
          split
          · nofun
          · exact fun heq => by have := Option.some.inj heq; omega
        rw [hother x (by omega), hsplitOther x (by omega) (by omega), if_neg hxnext]
      · have hxnext : (h.block b).next = some (b + blockHeader + p.size) := by
          rw [hc.1]
          exact if_neg (by simpa using hne)
        rw [hother _ (by omega), hsplitOther _ (by omega) (by omega), if_pos hxnext]
    · have hxnext : (h.block b).next ≠ some x := by
        rw [hc.1]
        dsimp only
        split
        · nofun
        · exact fun heq => by have := Option.some.inj heq; omega
      rw [hother x (by omega), hsplitOther x (by omega) (by omega), if_neg hxnext]

/-! ### `kfree` -/

/-- A link that is written to where it was. -/
theorem setPrev_self (h : Heap) (a : Nat) (o : Option Nat) :
    (h.setPrev (some a) o).block a = { h.block a with prev := o } := by
  unfold setPrev
  rw [setBlock_self]

/-- Where a block links to, it does not link back. -/
theorem Chain.next_gt (hc : h.Chain none prev b (p :: l)) {x : Nat} (hx : (h.block b).next = some x) :
    x = b + blockHeader + p.size := by
  rw [hc.1] at hx
  dsimp only at hx
  split at hx
  · cases hx
  · exact (Option.some.inj hx).symm

/-- The first half of `coalesce`: the block takes in the one behind it, if that is free. -/
theorem Chain.coalesceNext (hc : h.Chain none prev b (p :: l)) :
    (h.coalesceNext b).Chain none prev b (Blocks.absorb blockHeader p l) ∧
      ∀ x, x < b → (h.coalesceNext b).block x = h.block x := by
  have hheader : 0 < blockHeader := by decide
  cases l with
  | nil =>
    have hnext : (h.block b).next = none := by rw [hc.1]; rfl
    have hsame : h.coalesceNext b = h := coalesceNext_eq fun n hn => by simp [hnext] at hn
    rw [hsame]
    exact ⟨hc, fun _ _ => rfl⟩
  | cons q l =>
    have hnext := hc.next_eq
    obtain ⟨hb, hrest⟩ := hc
    generalize hnextAddr : b + blockHeader + p.size = c at hnext hrest
    rw [Blocks.absorb_cons]
    by_cases hq : q.free = true
    · -- the two blocks become one; the block behind them, if any, links back to it
      have hrun : h.coalesceNext b = (h.setBlock b fun x =>
          { x with size := x.size + (blockHeader + (h.block c).size), next := (h.block c).next }).setPrev
            (h.block c).next (some b) := by
        unfold Heap.coalesceNext
        rw [hnext]
        dsimp only
        rw [hrest.1, hq]
        rfl
      have hafter (x : Nat) (hx : (h.block c).next = some x) : x = c + blockHeader + q.size :=
        hrest.next_gt hx
      have hsum : b + blockHeader + (p.size + (blockHeader + q.size)) = c + blockHeader + q.size := by
        omega
      rw [if_pos hq, hrun]
      refine ⟨⟨?_, ?_⟩, fun x hx => ?_⟩
      · rw [setPrev_of_ne fun hx => by have := hafter b hx; omega, setBlock_self, hb, hrest.1, hsum]
      · rw [hsum]
        refine hrest.2.relink (fun x hx => ?_) fun hne => ?_
        · rw [setPrev_of_ne fun hx' => by have := hafter x hx'; omega, setBlock_of_ne (by omega)]
        · have hlink : (h.block c).next = some (c + blockHeader + q.size) := by
            rw [hrest.1]
            exact if_neg (by simpa using hne)
          have hne : c + blockHeader + q.size ≠ b := by omega
          rw [hlink]
          rw [setPrev_self, setBlock_of_ne hne]
      · rw [setPrev_of_ne fun hx' => by have := hafter x hx'; omega, setBlock_of_ne (by omega)]
    · have hsame : h.coalesceNext b = h := by
        refine coalesceNext_eq fun n hn => ?_
        obtain rfl := Option.some.inj (hnext.symm.trans hn)
        rw [hrest.1]
        exact Bool.eq_false_iff.mpr hq
      rw [hsame, if_neg hq]
      refine ⟨⟨hb, ?_⟩, fun _ _ => rfl⟩
      rw [hnextAddr]
      exact hrest

/-- One block more at the end. -/
theorem extent_concat : extent (l ++ [r]) = extent l + (blockHeader + r.size) := Blocks.extent_append

/-- The last block of a chain begins behind the others. -/
theorem lastAddr_concat : lastAddr prev a (l ++ [r]) = some (a + extent l) := by
  induction l generalizing prev a with
  | nil => rfl
  | cons p l ih =>
    rw [add_extent_cons, ← ih]
    rfl

/-- A chain is two chains, the second with a block. -/
theorem chain_append (hne : l₂ ≠ []) : h.Chain next prev a (l₁ ++ l₂) ↔
    h.Chain (some (a + extent l₁)) prev a l₁ ∧ h.Chain next (lastAddr prev a l₁) (a + extent l₁) l₂ := by
  obtain ⟨p, l, rfl⟩ := List.exists_cons_of_ne_nil hne
  exact chain_append_cons

/-- A part of the chain is replaced: the part before it does not see that. -/
theorem Chain.replace {l : List Block} (hc : h.Chain none prev a (l₁ ++ p :: l₂)) (hne : l ≠ [])
    (hnew : h'.Chain none (lastAddr prev a l₁) (a + extent l₁) l)
    (hold : ∀ x, x < a + extent l₁ → h'.block x = h.block x) : h'.Chain none prev a (l₁ ++ l) :=
  (chain_append hne).mpr ⟨(chain_append_cons.mp hc).1.congr fun x _ hx => hold x hx, hnew⟩

/-- The second half of `coalesce` is the first half, seen from the block before. -/
theorem coalescePrev_eq_coalesceNext {c : Nat} (hprev : (h.block b).prev = some c)
    (hnext : (h.block c).next = some b) (hb : (h.block b).free = true) (hc : (h.block c).free = true) :
    h.coalescePrev b = h.coalesceNext c := by
  unfold Heap.coalescePrev Heap.coalesceNext
  rw [hprev, hnext]
  dsimp only
  rw [if_pos hc, if_pos hb]

/-- A block that is given back takes in the block behind it, and is taken in by the block before it. -/
theorem Chain.give (hc : h.Chain none none a (l₁ ++ p :: l₂)) :
    ((h.given (a + extent l₁)).coalesce (a + extent l₁)).Chain none none a
      (Blocks.giveBack blockHeader l₁ p l₂) := by
  have hheader : 0 < blockHeader := by decide
  obtain ⟨-, hsuffix⟩ := chain_append_cons.mp hc
  have hgiven (x : Nat) (hx : x ≠ a + extent l₁) : (h.given (a + extent l₁)).block x = h.block x :=
    mark_of_ne hx true
  have hself : (h.given (a + extent l₁)).block (a + extent l₁) =
      { h.block (a + extent l₁) with free := true } := mark_self _ _ _
  have hfreed : (h.given (a + extent l₁)).Chain none (lastAddr none a l₁) (a + extent l₁)
      (⟨p.size, true⟩ :: l₂) := by
    refine ⟨?_, hsuffix.2.congr fun x hx _ => hgiven x (by omega)⟩
    rw [hself, hsuffix.1]
  obtain ⟨hmerged, hbefore⟩ := hfreed.coalesceNext
  have hkept (x : Nat) (hx : x < a + extent l₁) :
      ((h.given (a + extent l₁)).coalesceNext (a + extent l₁)).block x = h.block x :=
    (hbefore x hx).trans (hgiven x (Nat.ne_of_lt hx))
  unfold Heap.coalesce
  generalize (h.given (a + extent l₁)).coalesceNext (a + extent l₁) = g at hmerged hkept ⊢
  obtain ⟨size, l', habsorb⟩ := @Blocks.absorb_eq_cons blockHeader ⟨p.size, true⟩ l₂
  rcases List.eq_nil_or_concat l₁ with rfl | ⟨l₁, r, rfl⟩
  · -- no block before it
    rw [habsorb] at hmerged
    have hsame : g.coalescePrev (a + extent []) = g := by
      refine coalescePrev_eq fun c hprev => ?_
      rw [hmerged.1] at hprev
      cases hprev
    rw [hsame, Blocks.giveBack_nil, habsorb]
    exact hmerged
  · rw [List.concat_eq_append] at hc hmerged hkept ⊢
    have hend : a + extent (l₁ ++ [r]) = a + extent l₁ + blockHeader + r.size := by
      rw [extent_concat, ← Nat.add_assoc, ← Nat.add_assoc]
    rw [List.append_assoc] at hc
    -- the chain from the block before on
    have hpair : g.Chain none (lastAddr none a l₁) (a + extent l₁)
        (r :: Blocks.absorb blockHeader ⟨p.size, true⟩ l₂) := by
      have hr := (chain_append_cons.mp hc).2.1
      rw [lastAddr_concat, hend] at hmerged
      refine ⟨?_, hmerged⟩
      rw [hkept _ (by omega), hr, habsorb]
      rfl
    have hbefore (x : Nat) (hx : x < a + extent l₁) : g.block x = h.block x := hkept x (by omega)
    have hlink : (g.block (a + extent (l₁ ++ [r]))).prev = some (a + extent l₁) ∧
        (g.block (a + extent (l₁ ++ [r]))).free = true := by
      rw [habsorb, lastAddr_concat] at hmerged
      rw [hmerged.1]
      exact ⟨rfl, rfl⟩
    have hrfree : (g.block (a + extent l₁)).free = r.free := by rw [hpair.1]
    rw [Blocks.giveBack_append]
    split
    · rename_i hr
      have hnext : (g.block (a + extent l₁)).next = some (a + extent (l₁ ++ [r])) := by
        rw [hpair.1, habsorb, hend]
        rfl
      rw [coalescePrev_eq_coalesceNext hlink.1 hnext hlink.2 (hrfree.trans hr)]
      obtain ⟨hboth, hbefore'⟩ := hpair.coalesceNext
      obtain ⟨size', l'', habsorb'⟩ := @Blocks.absorb_eq_cons blockHeader r
        (Blocks.absorb blockHeader ⟨p.size, true⟩ l₂)
      exact hc.replace (habsorb' ▸ List.cons_ne_nil _ _) hboth
        fun x hx => (hbefore' x hx).trans (hbefore x hx)
    · rename_i hr
      have hsame : g.coalescePrev (a + extent (l₁ ++ [r])) = g := by
        refine coalescePrev_eq fun c hprev => ?_
        obtain rfl := Option.some.inj (hlink.1.symm.trans hprev)
        exact hrfree.trans (Bool.eq_false_iff.mpr hr)
      rw [hsame]
      exact hc.replace (List.cons_ne_nil _ _) hpair hbefore

/-! ### The tiled heap -/

/-- The headers from `HEAP_START` on are those of the blocks `l`, which fill the heap; no two neighbours
are free. -/
structure Tiled (h : Heap) (l : List Block) : Prop where
  head : h.heapHead = some heapStart
  chain : h.Chain none none heapStart l
  covers : extent l = heapSize
  coalesced : Blocks.Coalesced l
  aligned : ∀ x ∈ l, heapAlignment ∣ x.size
  used : h.heapUsed = Blocks.used l

/-- **`allocator_init`** -/
theorem allocatorInit_tiled (h : Heap) : h.allocatorInit.Tiled [⟨heapSize - blockHeader, true⟩] where
  head := rfl
  chain := ⟨(update_self heapStart _ h.block).trans rfl, trivial⟩
  covers := rfl
  coalesced := List.isChain_singleton _
  aligned := by
    rintro x hx
    obtain rfl := List.mem_singleton.mp hx
    decide
  used := rfl

/-- A tiled heap has a block. -/
theorem Tiled.ne_nil (ht : h.Tiled l) : l ≠ [] := by
  rintro rfl
  exact absurd ht.covers (by decide)

/-- The bytes of a heap are those in use, those free and the headers. -/
theorem extent_eq (l : List Block) :
    extent l = Blocks.used l + Blocks.unused l + blockHeader * l.length := Blocks.extent_eq

/-- A walk along the list ends before its steps do. -/
theorem Tiled.length_le (ht : h.Tiled l) : l.length ≤ maxBlocks := by
  have hcovers := ht.covers
  rw [extent_eq] at hcovers
  simp only [blockHeader, heapSize, maxBlocks] at hcovers ⊢
  omega

/-- No more than the heap is in use. -/
theorem Tiled.used_le (ht : h.Tiled l) : Blocks.used l ≤ heapSize := by
  have hcovers := ht.covers
  rw [extent_eq] at hcovers
  omega

/-- Sizes are aligned. -/
theorem dvd_heapAlignUp (n : Nat) : heapAlignment ∣ heapAlignUp n := Nat.dvd_mul_left _ _

/-- The bytes in use after block `b` has been taken. -/
theorem Chain.taken_used (hc : h.Chain none prev b (p :: l)) :
    (h.taken b n).heapUsed =
      (h.heapUsed + Blocks.takenSize blockHeader heapMinSplit p n) % wordSize := by
  have hsize : (h.block b).size = p.size := by rw [hc.1]
  have hrun : (h.taken b n).heapUsed =
      ((h.splitBlock b n).heapUsed + ((h.splitBlock b n).block b).size) % wordSize := by
    unfold taken
    simp only [mark_self]
    rfl
  rw [hrun]
  unfold Blocks.takenSize
  split
  · rename_i hwhole
    have hsame : h.splitBlock b n = h := if_pos (hsize ▸ hwhole)
    rw [hsame, hsize]
  · rename_i hsplit
    have hnext : (h.block b).next ≠ some b := by
      intro hx
      have := hc.next_gt hx
      simp only [blockHeader] at this
      omega
    obtain ⟨hblock, hused, -⟩ := splitBlock_eq (hsize ▸ hsplit) hnext
    rw [hblock, hused]

/-- The first block is not moved. -/
theorem taken_heapHead (h : Heap) (b n : Nat) : (h.taken b n).heapHead = h.heapHead := by
  have hsplit : (h.splitBlock b n).heapHead = h.heapHead := by
    unfold splitBlock
    dsimp only
    split
    · rfl
    · exact setPrev_head (h := h.setBlock _ _) _ |>.1
  exact hsplit

/-- What `kmalloc` does with the blocks: it takes the first one that fits, or none does. -/
theorem Tiled.kmalloc (ht : h.Tiled l) (hn : n ≠ 0) :
    (∃ l₁ p l₂, l = l₁ ++ p :: l₂ ∧ Fits (heapAlignUp n) p ∧
      h.kmalloc n = (some (heapStart + extent l₁ + blockHeader),
        h.taken (heapStart + extent l₁) (heapAlignUp n)) ∧
      (h.taken (heapStart + extent l₁) (heapAlignUp n)).Tiled
        (l₁ ++ Blocks.taken blockHeader heapMinSplit p (heapAlignUp n) ++ l₂)) ∨
    (∀ x ∈ l, ¬ Fits (heapAlignUp n) x) ∧ h.kmalloc n = (none, h) := by
  have hrun : h.kmalloc n = h.kmallocFrom (heapAlignUp n) maxBlocks (some heapStart) := by
    unfold Heap.kmalloc
    rw [ht.head]
    exact if_neg (by simp [hn])
  have hwalk := @kmallocFrom_chain _ _ _ _ (heapAlignUp n) _ ht.chain ht.length_le
  rw [if_neg (by simpa using ht.ne_nil), ← hrun] at hwalk
  rcases hwalk with ⟨l₁, p, l₂, rfl, -, hp, hk⟩ | hnone
  · refine .inl ⟨l₁, p, l₂, rfl, hp, hk, ?_⟩
    obtain ⟨-, hsuffix⟩ := chain_append_cons.mp ht.chain
    obtain ⟨htaken, hbefore⟩ := hsuffix.take hp.2
    have hused := ht.used_le
    have hcovers := ht.covers
    refine ⟨(taken_heapHead _ _ _).trans ht.head, ?_, ?_, ht.coalesced.take hp.1 _, ?_, ?_⟩
    · rw [List.append_assoc]
      refine ht.chain.replace ?_ htaken hbefore
      unfold Blocks.taken
      split <;> exact List.cons_ne_nil _ _
    · simp only [extent, Blocks.extent_append, Blocks.extent_cons, Blocks.extent_taken hp.2] at hcovers ⊢
      omega
    · intro x hx
      rcases List.mem_append.mp hx with hx | hx
      · rcases List.mem_append.mp hx with hx | hx
        · exact ht.aligned x (by simp [hx])
        · exact Blocks.dvd_taken (by decide) (ht.aligned p (by simp)) (dvd_heapAlignUp n) x hx
      · exact ht.aligned x (by simp [hx])
    · have hsize : Blocks.takenSize blockHeader heapMinSplit p (heapAlignUp n) ≤ p.size := by
        have := hp.2
        unfold Blocks.takenSize
        split <;> omega
      rw [extent_eq] at hcovers
      rw [hsuffix.taken_used, ht.used]
      simp only [Blocks.used_append, Blocks.used_cons, Blocks.unused_append, Blocks.unused_cons, hp.1,
        if_true, Blocks.used_taken] at hcovers ⊢
      have hlt : heapSize < wordSize := by decide
      rw [Nat.mod_eq_of_lt (by omega)]
      omega
  · exact .inr hnone

/-- What `kfree` does with the blocks. -/
theorem Tiled.kfree (ht : h.Tiled (l₁ ++ p :: l₂)) (hp : p.free = false) :
    (h.kfree (some (heapStart + extent l₁ + blockHeader))).Tiled
      (Blocks.giveBack blockHeader l₁ p l₂) := by
  obtain ⟨-, hsuffix⟩ := chain_append_cons.mp ht.chain
  rw [kfree_eq (by rw [hsuffix.1, hp])]
  obtain ⟨hhead, hused⟩ := coalesce_head (h := h.given (heapStart + extent l₁)) (heapStart + extent l₁)
  refine ⟨hhead.trans ht.head, ht.chain.give, ?_, ht.coalesced.givesBack, ?_, ?_⟩
  · exact Blocks.extent_giveBack.trans ht.covers
  · exact Blocks.dvd_giveBack (by decide) ht.aligned
  · have hsum := @Blocks.used_giveBack blockHeader l₁ l₂ _ hp
    have hgiven : (h.given (heapStart + extent l₁)).heapUsed =
        if p.size ≤ h.heapUsed then h.heapUsed - p.size else 0 := by
      unfold given
      simp only [mark_self, hsuffix.1]
      rfl
    rw [hused, hgiven, ht.used, ← hsum, if_pos (Nat.le_add_left _ _), Nat.add_sub_cancel]

end Heap

end AgenticOs
