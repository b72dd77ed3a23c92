import AgenticOs.Memory.CopyOnWrite

/-!
# A clone that is given back

`paging_clone_directory` that fails, or a clone that is destroyed at once, leaves the allocator as it was, and
the parent as far as it can tell.

* **Books** (`Accounting.frames_eq`): the frames that are held decide every field of the allocator, so it is
  enough that the owners hold what they held (`held_clone_destroy`).
* **Bytes** (`load_eq`): the source directory may have become copy-on-write, but each of its pages reads the
  same byte.
* **Stores** (`userStores_iff`): a store goes through where the page is writable, or copy-on-write with a
  fault that can be handled (`resolve_iff`). A page that could be written in place has one reference, so its
  fault is resolved in place and needs no frame.
* **Both** (`same_user`): address spaces that differ in copy-on-write only show the same bytes and let the
  same stores through.
-/

namespace AgenticOs

open Function Finset Lib

/-- What an entry shows a user program: its frame, and whether a store may go there. -/
def shown (e : Word) : Nat × Bool := (frameOf e, isWritable e || isCow e)

/-! ### The allocator's books -/

/-- The frames that are held decide the state of the allocator. -/
theorem Accounting.frames_eq {fr0 fr fr' : FrameState} {S S' : Spaces} (h : Accounting fr0 fr S)
    (h' : Accounting fr0 fr' S') (hheld : S'.held = S.held) : fr' = fr := by
  have htotal : fr'.totalFrames = fr.totalFrames := h'.total.trans h.total.symm
  have hrefs : fr'.frameRefcounts = fr.frameRefcounts := by
    funext f
    by_cases hf : Pool fr0 f
    · rw [h'.exact f hf, h.exact f hf, hheld]
    · rw [(h'.base f hf).2, (h.base f hf).2]
  have hbits : fr'.frameBitmap = fr.frameBitmap := by
    funext f
    by_cases hf : Pool fr0 f
    · have hlt : f < fr.totalFrames := h.total.symm ▸ hf.2.1
      rw [Bool.eq_iff_iff, h'.counted.live_iff f (htotal ▸ hlt), h.counted.live_iff f hlt, hrefs]
    · rw [(h'.base f hf).1, (h.base f hf).1]
  have hused : fr'.usedFrames = fr.usedFrames := by
    rw [h'.counted.used_eq, h.counted.used_eq, htotal]
    unfold FrameState.inUse
    rw [hbits]
  have hinit : fr'.frameInitialized = fr.frameInitialized := h'.initialized.trans h.initialized.symm
  cases fr
  cases fr'
  cases htotal
  cases hrefs
  cases hbits
  cases hused
  cases hinit
  rfl

namespace Spaces

variable {S : Spaces} {s n : Nat} {table : Nat → TableIndex → Option Nat}

/-- A clone that is destroyed leaves every frame with its owners. -/
theorem held_clone_destroy (h : S.WellFormed) (hn : n ∉ S.live) (htable : ∀ d, d ≠ n → table d = S.table d) :
    ((S.clone s n table).destroy n).held = S.held := by
  have hnoTable (i : TableIndex) : S.table n i = none :=
    Option.eq_none_iff_forall_not_mem.mpr fun t ht => hn (h.tables n i t ht)
  funext o
  cases o with
  | dir d =>
    show (if d ∈ (insert n S.live).erase n then some d else none) = if d ∈ S.live then some d else none
    rw [Finset.erase_insert hn]
  | table d i =>
    show (if d = n ∧ i ∈ tableIndices then none else table d i) = S.table d i
    by_cases hd : d = n
    · rw [if_pos ⟨hd, Memory.mem_tableIndices i⟩, hd, hnoTable]
    · rw [if_neg fun hc => hd hc.1, htable d hd]
  | page d i j =>
    show (((S.clone s n table).destroy n).entry d i j).map frameOf = (S.entry d i j).map frameOf
    rw [destroy_entry]
    by_cases hd : d = n
    · rw [if_pos hd, hd]
      rcases he : S.entry n i j with _ | e
      · rfl
      · obtain ⟨t, ht⟩ := h.entries n i j e he
        rw [hnoTable] at ht
        cases ht
    · rw [if_neg hd]
      show (if d = s ∨ d = n then (S.entry s i j).map shareCow else S.entry d i j).map frameOf = _
      by_cases hs : d = s
      · rw [if_pos (.inl hs), hs, Option.map_map]
        congr 1
        funext e
        exact (shareCow_facts e).1
      · rw [if_neg (not_or.mpr ⟨hs, hd⟩)]
  | pageHand | tableHand => rfl

/-- An entry that has become copy-on-write shows the same. -/
theorem shown_eq {o o' : Option Word} (h : o' = o ∨ o' = o.map shareCow) : o'.map shown = o.map shown := by
  rcases h with rfl | rfl
  · rfl
  · rw [Option.map_map]
    congr 1
    funext e
    exact Prod.ext (shareCow_facts e).1 (shareCow_facts e).2.2

/-- A load depends on what the entry of the page shows. -/
theorem load_eq (S : Spaces) (d : Nat) (va : Word) : S.view.load d va =
    ((S.entry d (dirIndex va) (tableIndex va)).map shown).map
      fun x => pageByte (S.content x.1) (pageOffset va) := by
  show ((S.entry d (dirIndex va) (tableIndex va)).map _).map _ = _
  rw [Option.map_map, Option.map_map]
  rfl

end Spaces

/-! ### Stores that go through -/

/-- A store of a user program goes through, in place or once `paging_resolve_cow_fault` has handled
the fault. -/
def Memory.userStores (m : Memory) (directory virtualAddr : Word) : Bool :=
  m.isUserWritable directory virtualAddr || (m.pagingResolveCowFault directory virtualAddr).1

/-- There is a frame for a private copy of a page, and a way to fill it. -/
def Memory.CanCopy (m : Memory) : Prop := m.frameAlloc.1 ≠ 0 ∧ m.kernelScratchTable ≠ 0

/-- `copy_physical_page` needs its scratch table only. -/
theorem Memory.copyPhysicalPage_fst (m : Memory) (source destination : Nat) :
    (m.copyPhysicalPage (frameAddr source) (frameAddr destination)).1 = decide (m.kernelScratchTable ≠ 0) := by
  unfold Memory.copyPhysicalPage
  by_cases hs : m.kernelScratchTable = 0
  · rw [if_pos (.inl hs), decide_eq_false (not_not.mpr hs)]
  · rw [if_neg (by
      rw [not_or, not_or, not_not, not_not]
      exact ⟨hs, frameAddr_aligned _, frameAddr_aligned _⟩), decide_eq_true hs]

namespace Represents

variable {m0 m : Memory} {S : Spaces} {d : Nat} {va : Word}

/-- When `paging_resolve_cow_fault` handles a fault. -/
theorem resolve_iff (h : Represents m0 m S) (hd : d ∈ S.live) (hhand : S.pageHand = none) :
    (m.pagingResolveCowFault (frameAddr d) va).1 = true ↔
      ∃ e, S.entry d (dirIndex va) (tableIndex va) = some e ∧ isWritable e = false ∧ isCow e = true ∧
        (m.frames.frameRefcounts (frameOf e) = 1 ∨ m.CanCopy) := by
  rcases he : S.entry d (dirIndex va) (tableIndex va) with _ | e
  · refine iff_of_false ?_ fun ⟨_, hc, _⟩ => nomatch hc
    rcases h.resolveCowFault hd hhand va with ⟨hfail, -⟩ | ⟨e, he', -⟩
    · rw [hfail]
      exact Bool.false_ne_true
    · rw [he] at he'
      cases he'
  obtain ⟨t, ht⟩ := h.books.wellFormed.entries d _ _ e he
  obtain ⟨-, hp, -, -⟩ := h.entry_of_table ht
  have hpage := h.layout.pages d _ t ht (tableIndex va)
  rw [he] at hpage
  obtain ⟨hpe, hue, heq⟩ := userEntry_eq_some.mp hpage.symm
  have hheld : S.held (.page d (dirIndex va) (tableIndex va)) = some (frameOf e) := held_page he
  have hpos := h.books.refcount_pos hheld
  have hdir : m.entry (frameAddr d &&& addrMask) (dirIndex va) = m.ram d (dirIndex va) := h.entry_dir hd
  rw [show (∃ e', some e = some e' ∧ isWritable e' = false ∧ isCow e' = true ∧
      (m.frames.frameRefcounts (frameOf e') = 1 ∨ m.CanCopy)) ↔ isWritable e = false ∧ isCow e = true ∧
        (m.frames.frameRefcounts (frameOf e) = 1 ∨ m.CanCopy) by
    simp only [Option.some_inj, exists_eq_left']]
  unfold Memory.pagingResolveCowFault
  dsimp only
  rw [if_neg (by
    rw [not_or, hdir, test_pagePresent, hp]
    exact ⟨h.frameAddr_live_ne_zero hd, by decide⟩), h.entry_table ht, heq, has_or, has_or, has_pagePresent,
    has_pageUser, has_pageCow, test_pageWritable]
  rw [heq] at hpe hue
  rw [hpe, hue, Bool.and_self, Bool.true_and]
  by_cases hc : isCow e = false ∨ isWritable e = true
  · rw [if_pos hc]
    refine iff_of_false Bool.false_ne_true fun ⟨hw, hcow, _⟩ => ?_
    rcases hc with hc | hc
    · rw [hcow] at hc
      cases hc
    · rw [hw] at hc
      cases hc
  rw [if_neg hc, and_addrMask, h.frameGetRefcount_eq hheld, if_neg (by omega)]
  rw [not_or, Bool.not_eq_false, Bool.not_eq_true] at hc
  rw [and_iff_right hc.2, and_iff_right hc.1]
  by_cases hone : m.frames.frameRefcounts (frameOf e) = 1
  · rw [if_pos hone]
    exact iff_of_true rfl (.inl hone)
  rw [if_neg hone, or_iff_right hone]
  unfold Memory.CanCopy Memory.frameAlloc
  rcases h.allocPage_cases hhand (m.frames.totalFrames * frameSize) with
    heq' | ⟨f, hfpos, hflt, -, heq', h1⟩
  · rw [heq', if_pos rfl]
    exact iff_of_false Bool.false_ne_true fun hc => hc.1 rfl
  rw [heq']
  dsimp only
  rw [if_neg (frameAddr_ne_zero hfpos hflt), and_iff_right (frameAddr_ne_zero hfpos hflt)]
  have hcopy := (m.withFrames (m.frames.take f)).copyPhysicalPage_fst (frameOf e) f
  rw [Memory.withFrames_scratch] at hcopy
  by_cases hs : m.kernelScratchTable = 0
  · rw [decide_eq_false (not_not.mpr hs)] at hcopy
    rw [hcopy, if_pos rfl]
    exact iff_of_false Bool.false_ne_true fun hc => hc hs
  · rw [decide_eq_true hs] at hcopy
    rw [hcopy, if_neg Bool.noConfusion]
    exact iff_of_true rfl hs

end Represents

namespace Tracks

variable {m0 : Memory} {s s' : PagingState} {S S' : Spaces} {d n : Nat} {va : Word}

/-- A page that can be written in place has one reference. -/
theorem refcount_of_writable (h : Tracks m0 s S) {i j : TableIndex} {e : Word}
    (he : S.entry d i j = some e) (hw : isWritable e = true) :
    s.memory.frames.frameRefcounts (frameOf e) = 1 := by
  have hbooks := h.represents.books
  have hheld : S.held (.page d i j) = some (frameOf e) := Represents.held_page he
  rw [hbooks.exact _ (hbooks.pool _ _ hheld)]
  unfold holders
  rw [Finset.card_eq_one]
  refine ⟨.page d i j, Finset.eq_singleton_iff_unique_mem.mpr
    ⟨Finset.mem_filter.mpr ⟨hbooks.wellFormed.mem_owners hheld, hheld⟩, fun o ho => ?_⟩⟩
  have ho := (Finset.mem_filter.mp ho).2
  cases o with
  | dir | table => exact hbooks.structural_unique rfl ho hheld
  | page d' i' j' =>
    obtain ⟨e', he', hf⟩ := Option.map_eq_some_iff.mp (show (S.entry d' i' j').map frameOf = some _ from ho)
    obtain ⟨rfl, rfl, rfl⟩ := h.unshared d i j e he hw d' i' j' e' he' hf
    rfl
  | pageHand => exact absurd (h.pageHand.symm.trans ho) nofun
  | tableHand => exact absurd (h.tableHand.symm.trans ho) nofun

/-- A store goes through where the page is writable, or copy-on-write and its fault can be handled. -/
theorem userStores_iff (h : Tracks m0 s S) (hd : d ∈ s.live) :
    s.memory.userStores (frameAddr d) va = true ↔
      ∃ e, S.entry d (dirIndex va) (tableIndex va) = some e ∧ (isWritable e || isCow e) = true ∧
        (s.memory.frames.frameRefcounts (frameOf e) = 1 ∨ s.memory.CanCopy) := by
  have hdS : d ∈ S.live := h.live ▸ hd
  unfold Memory.userStores
  rw [Bool.or_eq_true, h.represents.resolve_iff hdS h.pageHand]
  rcases he : S.entry d (dirIndex va) (tableIndex va) with _ | e
  · rw [(h.represents.translate_none hdS he).2]
    simp
  · rw [(h.represents.translate (h.user d _ _ e he) he).2.1]
    simp only [Option.some_inj, exists_eq_left', Bool.or_eq_true]
    rcases hw : isWritable e with _ | _
    · simp
    · simp [h.refcount_of_writable he hw]

/-- Address spaces that differ in copy-on-write only show the same bytes and let the same stores
through. -/
theorem same_user (h : Tracks m0 s S) (h' : Tracks m0 s' S') (hd : d ∈ s.live) (hd' : d ∈ s'.live)
    (hheld : S'.held = S.held) (hcontent : S'.content = S.content)
    (hentry : ∀ i j, S'.entry d i j = S.entry d i j ∨ S'.entry d i j = (S.entry d i j).map shareCow) :
    s'.memory.userLoad (frameAddr d) va = s.memory.userLoad (frameAddr d) va ∧
      s'.memory.userStores (frameAddr d) va = s.memory.userStores (frameAddr d) va := by
  have hframes := h.represents.books.frames_eq h'.represents.books hheld
  have hcopy : s'.memory.CanCopy ↔ s.memory.CanCopy := by
    unfold Memory.CanCopy Memory.frameAlloc Memory.frameAllocBelow
    rw [hframes, h'.represents.scratch, h.represents.scratch]
  have hsame := Spaces.shown_eq (hentry (dirIndex va) (tableIndex va))
  constructor
  · rw [h.userLoad_eq hd, h'.userLoad_eq hd', S'.load_eq, S.load_eq, hsame, hcontent]
  · have hshown (o : Option Word) : (∃ e, o = some e ∧ (isWritable e || isCow e) = true ∧
        (s.memory.frames.frameRefcounts (frameOf e) = 1 ∨ s.memory.CanCopy)) ↔
        ∃ x, o.map shown = some x ∧ x.2 = true ∧
          (s.memory.frames.frameRefcounts x.1 = 1 ∨ s.memory.CanCopy) := by
      cases o <;> simp [shown]
    rw [Bool.eq_iff_iff, h.userStores_iff hd, h'.userStores_iff hd', hframes, hcopy, hshown, hshown, hsame]

end Tracks

end AgenticOs
