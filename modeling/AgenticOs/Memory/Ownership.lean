import AgenticOs.Memory.PagingSteps

/-!
# Frame ownership

A frame handed out by the allocator is a page, mapped by some number of page-table entries, or a directory or
page table.

* **What the hardware finds**: `userMappings` counts the present user entries for a frame in all live
  directories, and `isStructure` is the frame of a live directory or of a table that one owns. Both are read
  off memory, and agree with `Spaces` (`mapsFrame_iff`, `isStructure_iff`).
* **Counts** (`refcount_exact`): the reference count of a frame is the first number, plus one for a structure.
* **Main result** (`frame_ownership`): in every state that callers of the paging code can reach from any
  start-up, the counts are exact, no frame in use is free, and without address spaces the allocator is as it
  was at the start (`restored`).
-/

namespace AgenticOs

open Function Finset Lib

namespace PagingState

/-- Entry `(d, i, j)` is a present user entry for frame `f`. -/
def mapsFrame (s : PagingState) (f : Nat) (p : Nat × TableIndex × TableIndex) : Prop :=
  test (s.memory.entry (frameAddr p.1) p.2.1) pagePresent = true ∧
    has (s.memory.entry (s.memory.entry (frameAddr p.1) p.2.1 &&& addrMask) p.2.2)
      (pagePresent ||| pageUser) = true ∧
    frameOf (s.memory.entry (s.memory.entry (frameAddr p.1) p.2.1 &&& addrMask) p.2.2) = f

instance (s : PagingState) (f : Nat) : DecidablePred (s.mapsFrame f) := fun _ =>
  inferInstanceAs (Decidable (_ ∧ _ ∧ _))

/-- The number of present user page-table entries for `f` in all live directories. -/
def userMappings (s : PagingState) (f : Nat) : Nat :=
  ((s.live ×ˢ univ).filter (s.mapsFrame f)).card

/-- Frame `f` is a live directory, or a page table that one owns. -/
def isStructure (s : PagingState) (f : Nat) : Prop :=
  f ∈ s.live ∨ ∃ d ∈ s.live, ∃ i,
    ownedTable i (s.memory.entry (frameAddr d) i) = some f

instance (s : PagingState) (f : Nat) : Decidable (s.isStructure f) :=
  inferInstanceAs (Decidable (_ ∨ _))

end PagingState

namespace Tracks

variable {m0 : Memory} {s : PagingState} {S : Spaces} {f : Nat}

/-- The entries the hardware finds are the entries of `S`. -/
theorem mapsFrame_iff (h : Tracks m0 s S) {d : Nat} (hd : d ∈ s.live) (i j : TableIndex) :
    s.mapsFrame f (d, i, j) ↔ S.held (.page d i j) = some f := by
  rw [← h.live] at hd
  have hdir : s.memory.entry (frameAddr d) i = s.memory.ram d i := by
    rw [← frameAddr_and_addrMask (h.represents.live_lt hd)]
    exact h.represents.entry_dir hd
  show _ ↔ (S.entry d i j).map frameOf = some f
  unfold PagingState.mapsFrame
  rw [hdir, test_pagePresent]
  unfold Memory.entry
  rw [frameOf_and_addrMask, has_or, has_pagePresent, has_pageUser, Bool.and_eq_true]
  -- both sides read the same table entry, if there is a table
  have key : isPresent (s.memory.ram d i) = true →
      S.entry d i j = userEntry (s.memory.ram (frameOf (s.memory.ram d i)) j) := by
    intro hp
    rcases ht : S.table d i with _ | t
    · rw [h.represents.entry_none_of_table_none ht,
        h.represents.kernelTable_of_shared hd hp ht]
    · rw [h.represents.layout.pages d i t ht, (h.represents.entry_of_table ht).2.2.2]
  constructor
  · rintro ⟨hp, ⟨hpe, hue⟩, hf⟩
    rw [key hp, userEntry_eq_some.mpr ⟨hpe, hue, rfl⟩, Option.map_some, hf]
  · intro hm
    obtain ⟨e, he, hf⟩ := Option.map_eq_some_iff.mp hm
    obtain ⟨t, ht⟩ := h.represents.books.wellFormed.entries d i j e he
    have hp := (h.represents.entry_of_table ht).2.1
    rw [key hp] at he
    obtain ⟨hpe, hue, heq⟩ := userEntry_eq_some.mp he
    exact ⟨hp, ⟨hpe, hue⟩, by rw [heq, hf]⟩

/-- The directories and tables found in memory are those of `S`. -/
theorem isStructure_iff (h : Tracks m0 s S) :
    s.isStructure f ↔ ∃ o : Owner, o.structural = true ∧ S.held o = some f := by
  have hdir : ∀ d ∈ S.live, ∀ i, s.memory.entry (frameAddr d) i = s.memory.ram d i := by
    intro d hd i
    rw [← frameAddr_and_addrMask (h.represents.live_lt hd)]
    exact h.represents.entry_dir hd
  unfold PagingState.isStructure
  rw [← h.live]
  constructor
  · rintro (hf | ⟨d, hd, i, ht⟩)
    · exact ⟨.dir f, rfl, Represents.held_dir hf⟩
    · rw [hdir d hd, ← h.represents.layout.dirs d hd] at ht
      exact ⟨.table d i, rfl, ht⟩
  · rintro ⟨o, hs, ho⟩
    cases o with
    | dir d =>
      left
      by_cases hd : d ∈ S.live
      · rw [Represents.held_dir hd, Option.some_inj] at ho
        exact ho ▸ hd
      · simp [Spaces.held, hd] at ho
    | table d i =>
      have hd := h.represents.books.wellFormed.tables d i f ho
      refine .inr ⟨d, hd, i, ?_⟩
      rw [hdir d hd, ← h.represents.layout.dirs d hd]
      exact ho
    | page d i j => cases hs
    | pageHand => cases hs
    | tableHand => rw [show S.held .tableHand = none from h.tableHand] at ho; cases ho

/-- Frames that are no directory and no table are held by page entries only. -/
theorem holders_eq_userMappings (h : Tracks m0 s S) (hs : ¬ s.isStructure f) :
    holders owners S.held f = s.userMappings f := by
  unfold holders PagingState.userMappings
  symm
  refine Finset.card_bij (fun p _ => Owner.page p.1 p.2.1 p.2.2) ?_ ?_ ?_
  · rintro ⟨d, i, j⟩ hp
    obtain ⟨hmem, hmaps⟩ := Finset.mem_filter.mp hp
    have ho := (h.mapsFrame_iff (Finset.mem_product.mp hmem).1 i j).mp hmaps
    exact Finset.mem_filter.mpr ⟨h.represents.books.wellFormed.mem_owners ho, ho⟩
  · rintro ⟨d, i, j⟩ - ⟨d', i', j'⟩ - heq
    cases heq
    rfl
  · intro o hmem
    have ho := (Finset.mem_filter.mp hmem).2
    cases o with
    | page d i j =>
      obtain ⟨e, he, -⟩ := Option.map_eq_some_iff.mp
        (show (S.entry d i j).map frameOf = some f from ho)
      obtain ⟨t, ht⟩ := h.represents.books.wellFormed.entries d i j e he
      have hd : d ∈ s.live := h.live ▸ h.represents.books.wellFormed.tables d i t ht
      have hmem : (d, i, j) ∈ s.live ×ˢ (univ : Finset (TableIndex × TableIndex)) := by
        simp only [Finset.mem_product, hd, Finset.mem_univ, and_true]
      exact ⟨(d, i, j), Finset.mem_filter.mpr ⟨hmem, (h.mapsFrame_iff hd i j).mpr ho⟩, rfl⟩
    | dir d => exact absurd (h.isStructure_iff.mpr ⟨.dir d, rfl, ho⟩) hs
    | table d i => exact absurd (h.isStructure_iff.mpr ⟨.table d i, rfl, ho⟩) hs
    | tableHand => exact absurd (h.isStructure_iff.mpr ⟨.tableHand, rfl, ho⟩) hs
    | pageHand => rw [show S.held .pageHand = none from h.pageHand] at ho; cases ho

/-- The reference count of every frame the allocator handed out is exact. -/
theorem refcount_exact (h : Tracks m0 s S) (hf : Pool m0.frames f) :
    s.memory.frames.frameRefcounts f = s.userMappings f + if s.isStructure f then 1 else 0 := by
  by_cases hs : s.isStructure f
  · rw [if_pos hs]
    obtain ⟨o, ho, hheld⟩ := h.isStructure_iff.mp hs
    rw [h.represents.books.single o f ho hheld]
    -- a structure is mapped nowhere
    have hzero : s.userMappings f = 0 := by
      unfold PagingState.userMappings
      rw [Finset.card_eq_zero, Finset.filter_eq_empty_iff]
      rintro ⟨d, i, j⟩ hmem hmaps
      have hp := (h.mapsFrame_iff (Finset.mem_product.mp hmem).1 i j).mp hmaps
      have heq := h.represents.books.structural_unique ho hheld hp
      rw [heq] at ho
      cases ho
    rw [hzero]
  · rw [if_neg hs, Nat.add_zero, ← h.holders_eq_userMappings hs]
    exact h.represents.books.exact f hf

/-- A frame in use is not free. -/
theorem allocated_of_live (h : Tracks m0 s S) (hf : 0 < s.userMappings f ∨ s.isStructure f) :
    Pool m0.frames f ∧ s.memory.frames.frameBitmap f = true := by
  have hheld : ∃ o, S.held o = some f := by
    rcases hf with hpos | hs
    · obtain ⟨⟨d, i, j⟩, hp⟩ := Finset.card_pos.mp hpos
      obtain ⟨hmem, hmaps⟩ := Finset.mem_filter.mp hp
      exact ⟨.page d i j, (h.mapsFrame_iff (Finset.mem_product.mp hmem).1 i j).mp hmaps⟩
    · obtain ⟨o, -, ho⟩ := h.isStructure_iff.mp hs
      exact ⟨o, ho⟩
  obtain ⟨o, ho⟩ := hheld
  exact ⟨h.represents.books.pool o f ho,
    (h.represents.books.counted.live_iff f (h.represents.books.lt_total ho)).mpr
      (h.represents.books.refcount_pos ho)⟩

/-- Without address spaces the allocator is as it was. -/
theorem restored (h : Tracks m0 s S) (hb : Booted m0) (hlive : s.live = ∅) :
    s.memory.frames.totalFrames = m0.frames.totalFrames ∧
      s.memory.frames.usedFrames = m0.frames.usedFrames := by
  have hbooks := h.represents.books
  refine ⟨hbooks.total, ?_⟩
  rw [hbooks.counted.used_eq, hb.counted.used_eq, hbooks.total]
  refine holders_congr fun f hf => ?_
  unfold FrameState.inUse
  by_cases hpool : Pool m0.frames f
  · -- no owner is left, so the frame is free again
    have hnone : ¬ s.memory.frames.frameBitmap f = true := by
      intro hbit
      have hlt : f < s.memory.frames.totalFrames := by
        rw [hbooks.total]
        exact Finset.mem_range.mp hf
      have hpos := (hbooks.counted.live_iff f hlt).mp hbit
      rw [h.refcount_exact hpool] at hpos
      have h1 : s.userMappings f = 0 := by
        unfold PagingState.userMappings
        rw [hlive, Finset.empty_product, Finset.filter_empty, Finset.card_empty]
      have h2 : ¬ s.isStructure f := by
        rintro (hd | ⟨d, hd, -⟩) <;> rw [hlive] at hd <;> exact Finset.notMem_empty _ hd
      rw [h1, if_neg h2] at hpos
      exact absurd hpos (by decide)
    rw [hpool.2.2, if_neg hnone, if_neg Bool.false_ne_true]
  · rw [(hbooks.base f hpool).1]

end Tracks

/-- The state of the paging code when the kernel has started. -/
def startPaging (boot : BootInfo) (ram : Nat → TableIndex → Word) (early : List (Nat × Nat))
    (steps : List BootStep) : PagingState := ⟨bootMemory boot ram early steps, ∅⟩

/-- **Frame ownership is exact.** After start-up and any sequence of operations, the count of every
frame the allocator could hand out is the number of present user entries that map it, plus one if it
is a live directory or a page table one owns; no such frame is free; and when all address spaces are
destroyed, as many frames are free as at the start. -/
theorem frame_ownership (boot : BootInfo) (ram : Nat → TableIndex → Word) (early : List (Nat × Nat))
    (steps : List BootStep) (ops : List PagingOp) :
    let s0 := startPaging boot ram early steps
    let s := s0.exec ops
    (∀ f, Pool s0.memory.frames f →
      s.memory.frames.frameGetRefcount (frameAddr f) =
        s.userMappings f + if s.isStructure f then 1 else 0) ∧
    (∀ f, 0 < s.userMappings f ∨ s.isStructure f →
      Pool s0.memory.frames f ∧ s.memory.frames.frameIsAllocated (frameAddr f) = true) ∧
    (s.live = ∅ → s.memory.frames.frameGetFreeCount = s0.memory.frames.frameGetFreeCount) := by
  intro s0 s
  have hb : Booted s0.memory := bootMemory_booted boot ram early steps
  obtain ⟨S, h, -⟩ : ∃ S, Tracks s0.memory s S ∧ S.view = _ := hb.tracks.exec ops
  have hbooks := h.represents.books
  refine ⟨fun f hf => ?_, fun f hf => ?_, fun hlive => ?_⟩
  · have hlt := hf.2.1
    rw [FrameState.frameGetRefcount_eq hbooks.counted hbooks.initialized
      (by rw [hbooks.total]; exact hlt)]
    exact h.refcount_exact hf
  · obtain ⟨hpool, hbit⟩ := h.allocated_of_live hf
    refine ⟨hpool, ?_⟩
    have hlt := hpool.2.1
    have hmax : f < maxFrames := Nat.lt_of_lt_of_le hlt hb.counted.total_le
    unfold FrameState.frameIsAllocated
    rw [(FrameState.frameAddr_facts hmax).1, Nat.mul_div_cancel _ (by decide)]
    dsimp only
    split
    · rfl
    · exact hbit
  · obtain ⟨htotal, hused⟩ := h.restored hb hlive
    unfold FrameState.frameGetFreeCount
    rw [htotal, hused]

end AgenticOs
