import AgenticOs.Kernel.OneSpace

/-!
# An image is built in one address space

Whatever the loader gets done before it succeeds or fails, it does in the loaded address space.

* **Stores** (`Tracks.storeBytes`): bytes are stored in pages that can be written in place.
* **Pages** (`Tracks.mapPages`, `Tracks.unmapPages`): the pages that the loader has mapped are its own, with
  the frames that it has recorded for them (`Spaces.Recorded`), and those that it takes back are given back to
  the allocator.
* **Flags** (`Tracks.protectPages`): the pages of a segment are protected in place.
* **Main result** (`Tracks.loadSegments`): the second loop of `elf_load_from_vfs` changes one address space,
  whether it succeeds or not.

All of this is about memory that `Tracks` address spaces, so the frames stay counted exactly on the way.
-/

namespace AgenticOs

open Function Finset Lib

/-- Pages with the frames that `map_segment_pages` has recorded for them. -/
def Spaces.Recorded (S : Spaces) (d : Nat) (mapped : List (Word × Word)) : Prop :=
  ∀ p ∈ mapped, ∃ e, S.entry d (pageSlot p.1).1 (pageSlot p.1).2 = some e ∧ p.2 = frameAddr (frameOf e) ∧
    isWritable e = true

namespace Spaces

variable {S S' : Spaces} {d : Nat} {q : PageSlot} {va : Word} {o : Option Word} {mapped : List (Word × Word)}

/-- The same entries, the same writable pages. -/
theorem Writable.congr (h : S.Writable d q) (hentry : S'.entry = S.entry) : S'.Writable d q := by
  unfold Writable
  rw [hentry]
  exact h

/-- A change of another entry. -/
theorem Writable.other (h : S.Writable d q) (hentry : S'.entry = setAt S.entry d (dirIndex va) (tableIndex va) o)
    (hq : q ≠ pageSlot va) : S'.Writable d q := by
  unfold Writable
  rw [hentry, setAt_other hq]
  exact h

/-- A change of an entry that is not recorded. -/
theorem Recorded.other (h : S.Recorded d mapped)
    (hentry : S'.entry = setAt S.entry d (dirIndex va) (tableIndex va) o)
    (hmapped : ∀ p ∈ mapped, pageSlot p.1 ≠ pageSlot va) : S'.Recorded d mapped := by
  intro p hp
  rw [hentry, setAt_other (hmapped p hp)]
  exact h p hp

/-- The recorded pages are writable. -/
theorem Recorded.writable (h : S.Recorded d mapped) {p : Word × Word} (hp : p ∈ mapped) :
    S.Writable d (pageSlot p.1) := by
  obtain ⟨e, he, -, hw⟩ := h p hp
  exact ⟨e, he, hw⟩

end Spaces

namespace Tracks

variable {m0 m : Memory} {live : Finset Nat} {S : Spaces} {d : Nat} {va : Word}

/-! ### Stores of the kernel -/

/-- One byte. -/
theorem storeByte (h : Tracks m0 ⟨m, live⟩ S) (hactive : m.activePageDirectory = frameAddr d)
    (hwritable : S.Writable d (pageSlot va)) (b : Byte) :
    ∃ S', InSpace m0 live d m (m.storeByte va b) S S' ∧ S'.entry = S.entry := by
  obtain ⟨e, hentry, hw⟩ := hwritable
  have he : S.entry d (dirIndex va) (tableIndex va) = some e := hentry
  obtain ⟨-, -, hframe⟩ := h.represents.translate (h.user d _ _ e he) he
  unfold Memory.storeByte Memory.userWrite
  rw [hactive, hframe]
  exact h.fillPage he hw _

/-- One page of zeros. -/
theorem clearPage (h : Tracks m0 ⟨m, live⟩ S) (hactive : m.activePageDirectory = frameAddr d)
    (hwritable : S.Writable d (pageSlot va)) :
    ∃ S', InSpace m0 live d m (m.clearPage va) S S' ∧ S'.entry = S.entry := by
  obtain ⟨e, hentry, hw⟩ := hwritable
  have he : S.entry d (dirIndex va) (tableIndex va) = some e := hentry
  obtain ⟨-, -, hframe⟩ := h.represents.translate (h.user d _ _ e he) he
  unfold Memory.clearPage
  rw [hactive, hframe]
  exact h.fillPage he hw _

/-- Bytes are stored in pages that can be written in place. -/
theorem storeBytes (h : Tracks m0 ⟨m, live⟩ S) (hactive : m.activePageDirectory = frameAddr d) (va : Word)
    (bytes : List Byte) (hwritable : ∀ k < bytes.length, S.Writable d (pageSlot (va + BitVec.ofNat 32 k))) :
    ∃ S', InSpace m0 live d m (m.storeBytes va bytes) S S' ∧ S'.entry = S.entry := by
  induction bytes generalizing m S va with
  | nil => exact ⟨S, h.self, rfl⟩
  | cons b bytes ih =>
    have hfirst := hwritable 0 (Nat.succ_pos _)
    rw [BitVec.add_zero] at hfirst
    obtain ⟨S₁, h₁, hentry₁⟩ := h.storeByte hactive hfirst b
    obtain ⟨S₂, h₂, hentry₂⟩ := ih h₁.tracks (h₁.active.trans hactive) (va + 1) fun k hk => by
      rw [← add_ofNat_succ]
      exact (hwritable (k + 1) (Nat.succ_lt_succ hk)).congr hentry₁
    exact ⟨S₂, h₁.trans h₂, hentry₂.trans hentry₁⟩

/-! ### Mapping and unmapping -/

/-- An address that is not mapped has no page. -/
theorem entry_of_not_mapped (h : Tracks m0 ⟨m, live⟩ S) (hactive : m.activePageDirectory = frameAddr d)
    (hmapped : m.pagingIsMapped va = false) : S.entry d (dirIndex va) (tableIndex va) = none := by
  rcases he : S.entry d (dirIndex va) (tableIndex va) with _ | e
  · rfl
  exfalso
  obtain ⟨t, ht⟩ := h.represents.books.wellFormed.entries d _ _ e he
  obtain ⟨hd, hp, -, -⟩ := h.represents.entry_of_table ht
  have hpage := h.represents.layout.pages d _ t ht (tableIndex va)
  rw [he] at hpage
  obtain ⟨hpe, -, -⟩ := userEntry_eq_some.mp hpage.symm
  have hdir := h.represents.entry_dir (i := dirIndex va) hd
  have htable := h.represents.entry_table (j := tableIndex va) ht
  rw [frameAddr_and_addrMask (h.represents.live_lt hd)] at hdir htable
  unfold Memory.pagingIsMapped at hmapped
  rw [hactive, htable, hdir, test_pagePresent, test_pagePresent, hp, hpe] at hmapped
  cases hmapped

/-- The pages mapped so far are given back. -/
theorem unmapPages {mapped : List (Word × Word)} (h : Tracks m0 ⟨m, live⟩ S) (hd : d ∈ live)
    (hactive : m.activePageDirectory = frameAddr d) (hmapped : S.Recorded d mapped)
    (hnodup : (mapped.map fun p => pageSlot p.1).Nodup) :
    ∃ S', InSpace m0 live d m (m.unmapPages mapped) S S' := by
  induction mapped generalizing m S with
  | nil => exact ⟨S, h.self⟩
  | cons p mapped ih =>
    obtain ⟨hfresh, hnodup⟩ := List.nodup_cons.mp hnodup
    obtain ⟨e, he, hphys, -⟩ := hmapped p List.mem_cons_self
    obtain ⟨S₁, h₁, hentry⟩ := h.unmapFrame hd he
    have hothers : ∀ q ∈ mapped, pageSlot q.1 ≠ pageSlot p.1 := fun q hq heq =>
      hfresh (List.mem_map.mpr ⟨q, hq, heq⟩)
    have hrest : S.Recorded d mapped := fun q hq => hmapped q (List.mem_cons_of_mem _ hq)
    have hrun : m.unmapPages (p :: mapped) =
        ((m.pagingUnmapPageInDirectory (frameAddr d) p.1).2.frameFree (frameAddr (frameOf e))).unmapPages mapped := by
      unfold Memory.unmapPages
      rw [List.foldl_cons]
      unfold Memory.pagingUnmapPage
      rw [hactive, hphys]
    obtain ⟨S₂, h₂⟩ := ih h₁.tracks (h₁.active.trans hactive) (hrest.other hentry hothers) hnodup
    rw [hrun]
    exact ⟨S₂, h₁.trans h₂⟩

/-- The loop of `map_segment_pages`: when it is done, its pages can be written. -/
theorem mapPages (h : Tracks m0 ⟨m, live⟩ S) (hd : d ∈ live) (hactive : m.activePageDirectory = frameAddr d)
    (pages : List Word) (mapped : List (Word × Word)) (hpages : ∀ page ∈ pages, inUserRange (dirIndex page))
    (hmapped : S.Recorded d mapped) (hnodup : ((mapped.map Prod.fst ++ pages).map pageSlot).Nodup) :
    ∃ S', InSpace m0 live d m (Memory.mapPages pages mapped m).2 S S' ∧
      ((Memory.mapPages pages mapped m).1 = elfSuccess →
        ∀ page ∈ mapped.map Prod.fst ++ pages, S'.Writable d (pageSlot page)) := by
  induction pages generalizing m S mapped with
  | nil =>
    refine ⟨S, h.self, fun _ page hpage => ?_⟩
    rw [List.append_nil] at hpage
    obtain ⟨p, hp, rfl⟩ := List.mem_map.mp hpage
    exact hmapped.writable hp
  | cons page pages ih =>
    have hnone : elfEnospc ≠ elfSuccess := by decide
    have hinvalid : elfEinval ≠ elfSuccess := by decide
    have hslots : (mapped.map fun p => pageSlot p.1).Nodup := by
      rw [List.map_append, List.map_map] at hnodup
      exact (List.nodup_append.mp hnodup).1
    unfold Memory.mapPages
    split
    · exact ⟨S, h.self, fun hc => absurd hc hinvalid⟩
    rename_i hunmapped
    have hentry := h.entry_of_not_mapped hactive (Bool.not_eq_true _ ▸ hunmapped)
    have huser : isUser (pagePresent ||| pageWritable ||| pageUser) = true := by decide
    dsimp only
    unfold Memory.frameAlloc
    rcases h.mapFrame hd (hpages page List.mem_cons_self) huser (m.frames.totalFrames * frameSize) with
      heq | ⟨f, m₁, hpos, hlt, heq, -, hactive₁, hback, hmap⟩
    · rw [heq, if_pos rfl]
      obtain ⟨S', h'⟩ := h.unmapPages hd hactive hmapped hslots
      exact ⟨S', h', fun hc => absurd hc hnone⟩
    rw [heq]
    dsimp only
    rw [if_neg (frameAddr_ne_zero hpos hlt), show m₁.pagingGetCurrentDirectory = frameAddr d from
      hactive₁.trans hactive]
    rcases hmap hentry with hfail | ⟨m₂, S₂, e, hdone, h₂, hentry₂, hframe, hw⟩
    · rw [hfail, if_pos rfl]
      obtain ⟨S', h'⟩ := hback.tracks.unmapPages hd (hback.active.trans hactive) hmapped hslots
      exact ⟨S', hback.trans h', fun hc => absurd hc hnone⟩
    rw [hdone, if_neg (Ne.symm Bool.false_ne_true)]
    dsimp only
    have hactive₂ := h₂.active.trans hactive
    have hself : S₂.entry d (dirIndex page) (tableIndex page) = some e := by
      rw [hentry₂]
      exact if_pos ⟨rfl, rfl, rfl⟩
    have hwritable : isWritable e = true := hw.trans (by decide)
    -- a page that has just been mapped can be written
    have hcheck := (h₂.tracks.represents.translate (h₂.tracks.user d _ _ e hself) hself).2.1
    rw [hactive₂, hcheck, hwritable, Bool.not_true, if_neg Bool.false_ne_true]
    have hothers : ∀ p ∈ mapped, pageSlot p.1 ≠ pageSlot page := by
      intro p hp heq
      rw [List.map_append] at hnodup
      exact (List.nodup_append.mp hnodup).2.2 _ (List.mem_map_of_mem (List.mem_map_of_mem hp)) _
        List.mem_cons_self heq
    have hmapped₂ : S₂.Recorded d (mapped ++ [(page, frameAddr f)]) := by
      intro p hp
      rcases List.mem_append.mp hp with hp | hp
      · exact hmapped.other hentry₂ hothers p hp
      · obtain rfl := List.mem_singleton.mp hp
        exact ⟨e, hself, by rw [hframe], hwritable⟩
    have hlist : (mapped ++ [(page, frameAddr f)]).map Prod.fst ++ pages = mapped.map Prod.fst ++ page :: pages := by
      rw [List.map_append, List.append_assoc]
      rfl
    obtain ⟨S', h', hall⟩ := ih h₂.tracks hactive₂ _ (fun q hq => hpages q (List.mem_cons_of_mem _ hq)) hmapped₂
      (hlist ▸ hnodup)
    rw [hlist] at hall
    exact ⟨S', h₂.trans h', hall⟩

/-- The loop of `protect_segment_pages`. -/
theorem protectPages {pages : List Word} {flags : Word} (h : Tracks m0 ⟨m, live⟩ S) (hd : d ∈ live)
    (hactive : m.activePageDirectory = frameAddr d) (hflags : isUser flags = true)
    (hwritable : ∀ page ∈ pages, S.Writable d (pageSlot page)) (hnodup : (pages.map pageSlot).Nodup) :
    ∃ S', InSpace m0 live d m (m.protectPages flags pages).2 S S' := by
  induction pages generalizing m S with
  | nil => exact ⟨S, h.self⟩
  | cons page pages ih =>
    obtain ⟨hfresh, hnodup⟩ := List.nodup_cons.mp hnodup
    obtain ⟨m₁, S₁, e, hrun, h₁, hentry⟩ := h.setFlags hd (hwritable page List.mem_cons_self) hflags
    have hactive₁ := h₁.active.trans hactive
    unfold Memory.protectPages
    dsimp only
    rw [show m.pagingGetCurrentDirectory = frameAddr d from hactive, hrun, if_neg (Ne.symm Bool.false_ne_true)]
    have hothers : ∀ q ∈ pages, S₁.Writable d (pageSlot q) := fun q hq =>
      (hwritable q (List.mem_cons_of_mem _ hq)).other hentry fun heq => hfresh (heq ▸ List.mem_map_of_mem hq)
    obtain ⟨S₂, h₂⟩ := ih h₁.tracks hactive₁ hothers hnodup
    exact ⟨S₂, h₁.trans h₂⟩

/-! ### Segments -/

variable {file : List Byte} {ph : ElfProgramHeader} {phs : List ElfProgramHeader}

/-- The pages of a segment are protected. -/
theorem protectSegmentPages (h : Tracks m0 ⟨m, live⟩ S) (hd : d ∈ live) (hsafe : SafeSegment file.length ph)
    (hactive : m.activePageDirectory = frameAddr d)
    (hwritable : ∀ page ∈ segmentPages ph.vaddr ph.memsz, S.Writable d (pageSlot page)) (elfFlags : Word) :
    ∃ S', InSpace m0 live d m (m.protectSegmentPages ph.vaddr ph.memsz elfFlags).2 S S' := by
  unfold Memory.protectSegmentPages
  refine h.protectPages hd hactive ?_ hwritable hsafe.nodup
  split <;> decide

/-- The bytes of a segment go into its pages. -/
theorem fillSegment (h : Tracks m0 ⟨m, live⟩ S) (hsafe : SafeSegment file.length ph)
    (hactive : m.activePageDirectory = frameAddr d)
    (hwritable : ∀ page ∈ segmentPages ph.vaddr ph.memsz, S.Writable d (pageSlot page)) :
    ∃ S', InSpace m0 live d m (m.fillSegment file ph) S S' ∧ S'.entry = S.entry := by
  have haddress (k : Nat) (hk : k < ph.memsz.toNat) : S.Writable d (pageSlot (ph.vaddr + BitVec.ofNat 32 k)) := by
    rw [← pageSlot_elfAlignDown]
    exact hwritable _ (hsafe.mem_pages hk)
  have hfilesz := hsafe.filesz_le
  obtain ⟨S₁, h₁, hentry₁⟩ := h.storeBytes hactive ph.vaddr (List.replicate ph.memsz.toNat 0) fun k hk =>
    haddress k (by rwa [List.length_replicate] at hk)
  obtain ⟨S₂, h₂, hentry₂⟩ := h₁.tracks.storeBytes (h₁.active.trans hactive) ph.vaddr
    ((List.range ph.filesz.toNat).map fun i => fileByte file (ph.offset.toNat + i)) fun k hk => by
      rw [List.length_map, List.length_range] at hk
      exact (haddress k (by omega)).congr hentry₁
  exact ⟨S₂, h₁.trans h₂, hentry₂.trans hentry₁⟩

/-- The second loop of `elf_load_from_vfs`, whether it succeeds or not. -/
theorem loadSegments (h : Tracks m0 ⟨m, live⟩ S) (hd : d ∈ live) (hactive : m.activePageDirectory = frameAddr d)
    (hsafe : ∀ ph ∈ phs, SafeSegment file.length ph) :
    ∃ S', InSpace m0 live d m (m.loadSegments file phs).2 S S' := by
  induction phs generalizing m S with
  | nil => exact ⟨S, h.self⟩
  | cons ph phs ih =>
    have hseg := hsafe ph List.mem_cons_self
    have hrest : ∀ q ∈ phs, SafeSegment file.length q := fun q hq => hsafe q (List.mem_cons_of_mem _ hq)
    unfold Memory.loadSegments
    split
    · exact ih h hactive hrest
    dsimp only
    obtain ⟨S₁, h₁, hwritable⟩ := h.mapPages hd hactive (segmentPages ph.vaddr ph.memsz) []
      (fun _ => hseg.userPage) (fun _ hpage => absurd hpage List.not_mem_nil) hseg.nodup
    unfold Memory.mapSegmentPages
    split
    · exact ⟨S₁, h₁⟩
    rename_i hdone
    obtain ⟨S₂, h₂, hentry₂⟩ := h₁.tracks.fillSegment hseg (h₁.active.trans hactive)
      (hwritable (not_not.mp hdone))
    have h₁₂ := h₁.trans h₂
    obtain ⟨S₃, h₃⟩ := h₂.tracks.protectSegmentPages hd hseg (h₁₂.active.trans hactive)
      (fun page hpage => (hwritable (not_not.mp hdone) page hpage).congr hentry₂) ph.flags
    have h₁₃ := h₁₂.trans h₃
    split
    · exact ⟨S₃, h₁₃⟩
    · obtain ⟨S₄, h₄⟩ := ih h₃.tracks (h₁₃.active.trans hactive) hrest
      exact ⟨S₄, h₁₃.trans h₄⟩

end Tracks

end AgenticOs
