import AgenticOs.Kernel.ElfLoaded
import AgenticOs.Memory.CloneUndone

/-!
# What happens in one address space

The kernel fills an address space page by page: it maps fresh frames, stores into them, sets their flags and
unmaps them again.

* **The others** (`Elsewhere`): of all other address spaces the directories, the tables, the entries and the
  bytes stay (`SameSpace`). What is held once the one address space is destroyed does not depend on what was
  in it (`Elsewhere.held_destroy`).
* **Steps** (`InSpace`): memory stores address spaces that differ in one of them only, and the same directory
  is loaded. Mapping a fresh frame (`Tracks.mapFrame`), unmapping one (`Tracks.unmapFrame`), setting flags
  (`Tracks.setFlags`) and filling a page (`Tracks.fillPage`) are such steps, and steps compose
  (`InSpace.trans`).
* **Pages that can be written in place** (`Spaces.Writable`): they are filled without touching anybody else,
  because no other entry maps their frame.
-/

namespace AgenticOs

open Function Finset Lib

/-- The directory, the tables, the entries and the bytes of an address space are the same. -/
structure SameSpace (d : Nat) (S S' : Spaces) : Prop where
  table : S'.table d = S.table d
  entry : S'.entry d = S.entry d
  content : ∀ i j e, S.entry d i j = some e → S'.content (frameOf e) = S.content (frameOf e)

/-- Nothing has happened. -/
theorem SameSpace.refl (d : Nat) (S : Spaces) : SameSpace d S S := ⟨rfl, rfl, fun _ _ _ _ => rfl⟩

/-- Two changes after one another. -/
theorem SameSpace.trans {d : Nat} {S S' S'' : Spaces} (h : SameSpace d S S') (h' : SameSpace d S' S'') :
    SameSpace d S S'' where
  table := h'.table.trans h.table
  entry := h'.entry.trans h.entry
  content := by
    intro i j e he
    have he' : S'.entry d i j = some e := by
      rw [h.entry]
      exact he
    exact (h'.content i j e he').trans (h.content i j e he)

/-- All address spaces but that of `d` are the same. -/
def Elsewhere (d : Nat) (S S' : Spaces) : Prop := ∀ d', d' ≠ d → SameSpace d' S S'

namespace Elsewhere

variable {S S' : Spaces} {d : Nat} {i j : TableIndex} {o : Option Word}

/-- Nothing has happened. -/
theorem refl (d : Nat) (S : Spaces) : Elsewhere d S S := fun d' _ => .refl d' S

/-- Two changes after one another, of the same address space. -/
theorem trans {S'' : Spaces} (h : Elsewhere d S S') (h' : Elsewhere d S' S'') : Elsewhere d S S'' :=
  fun d' hd' => (h d' hd').trans (h' d' hd')

/-- One entry of the address space is replaced. -/
theorem setAt (htable : ∀ d', d' ≠ d → S'.table d' = S.table d')
    (hentry : S'.entry = AgenticOs.setAt S.entry d i j o)
    (hcontent : ∀ d' i j e, d' ≠ d → S.entry d' i j = some e →
      S'.content (frameOf e) = S.content (frameOf e)) : Elsewhere d S S' := by
  refine fun d' hd' => ⟨htable d' hd', ?_, fun i j e => hcontent d' i j e hd'⟩
  rw [hentry]
  funext i' j'
  exact if_neg fun hc => hd' hc.1

/-- What is held once the address space is destroyed does not depend on what was in it. -/
theorem held_destroy (h : Elsewhere d S S') (hlive : S'.live = S.live) (hpage : S'.pageHand = S.pageHand)
    (htable : S'.tableHand = S.tableHand) : (S'.destroy d).held = (S.destroy d).held := by
  funext x
  cases x with
  | dir d' =>
    show (if d' ∈ S'.live.erase d then some d' else none) = if d' ∈ S.live.erase d then some d' else none
    rw [hlive]
  | table d' i =>
    show (if d' = d ∧ i ∈ tableIndices then none else S'.table d' i) =
      if d' = d ∧ i ∈ tableIndices then none else S.table d' i
    by_cases hd : d' = d
    · rw [if_pos ⟨hd, Memory.mem_tableIndices i⟩, if_pos ⟨hd, Memory.mem_tableIndices i⟩]
    · rw [if_neg fun hc => hd hc.1, if_neg fun hc => hd hc.1, (h d' hd).table]
  | page d' i j =>
    show ((S'.destroy d).entry d' i j).map frameOf = ((S.destroy d).entry d' i j).map frameOf
    rw [Spaces.destroy_entry, Spaces.destroy_entry]
    by_cases hd : d' = d
    · rw [if_pos hd, if_pos hd]
    · rw [if_neg hd, if_neg hd, (h d' hd).entry]
  | pageHand => exact hpage
  | tableHand => exact htable

end Elsewhere

/-- Memory `m'` stores `S'`, which differs from `S` in the address space of `d` only. The directory that
is loaded in `m` is still loaded. -/
structure InSpace (m0 : Memory) (live : Finset Nat) (d : Nat) (m m' : Memory) (S S' : Spaces) : Prop where
  tracks : Tracks m0 ⟨m', live⟩ S'
  elsewhere : Elsewhere d S S'
  active : m'.activePageDirectory = m.activePageDirectory

/-- Two steps after one another. -/
theorem InSpace.trans {m0 m m' m'' : Memory} {live : Finset Nat} {d : Nat} {S S' S'' : Spaces}
    (h : InSpace m0 live d m m' S S') (h' : InSpace m0 live d m' m'' S' S'') : InSpace m0 live d m m'' S S'' :=
  ⟨h'.tracks, h.elsewhere.trans h'.elsewhere, h'.active.trans h.active⟩

/-- The page at a place can be written in place. -/
def Spaces.Writable (S : Spaces) (d : Nat) (q : PageSlot) : Prop :=
  ∃ e, S.entry d q.1 q.2 = some e ∧ isWritable e = true

/-- The other entries of an address space. -/
theorem setAt_other {entry : Nat → TableIndex → TableIndex → Option Word} {d : Nat} {va : Word}
    {o : Option Word} {q : PageSlot} (hq : q ≠ pageSlot va) :
    setAt entry d (dirIndex va) (tableIndex va) o d q.1 q.2 = entry d q.1 q.2 :=
  if_neg fun hc => hq (Prod.ext hc.2.1 hc.2.2)

namespace Tracks

variable {m0 m : Memory} {live : Finset Nat} {S : Spaces} {d : Nat} {va : Word} {e : Word}

/-- No step is one. -/
theorem self (h : Tracks m0 ⟨m, live⟩ S) : InSpace m0 live d m m S S := ⟨h, .refl d S, rfl⟩

/-- The address spaces are those that callers know. -/
theorem live_eq (h : Tracks m0 ⟨m, live⟩ S) : S.live = live := h.live

/-- An address space that callers know is there. -/
theorem mem_live (h : Tracks m0 ⟨m, live⟩ S) (hd : d ∈ live) : d ∈ S.live := h.live_eq ▸ hd

/-- The entries of the user range after one of them is replaced. -/
theorem user_setAt (h : Tracks m0 ⟨m, live⟩ S) (hi : inUserRange (dirIndex va)) (o : Option Word)
    (d' : Nat) (i j : TableIndex) (e : Word)
    (he : setAt S.entry d (dirIndex va) (tableIndex va) o d' i j = some e) : inUserRange i := by
  by_cases hx : d' = d ∧ i = dirIndex va ∧ j = tableIndex va
  · rw [hx.2.1]
    exact hi
  · exact h.user d' i j e ((if_neg hx).symm.trans he)

/-- A fresh frame can be given back at once. Where no page is mapped it can be mapped: either there is no
frame for a table, or the page is there. -/
theorem mapFrame (h : Tracks m0 ⟨m, live⟩ S) (hd : d ∈ live) (hi : inUserRange (dirIndex va))
    {flags : Word} (hu : isUser flags = true) (limit : Nat) :
    m.frameAllocBelow limit = (0, m) ∨
      ∃ f m₁, 0 < f ∧ f < 1048576 ∧ m.frameAllocBelow limit = (frameAddr f, m₁) ∧ m₁.ram = m.ram ∧
        m₁.activePageDirectory = m.activePageDirectory ∧
        InSpace m0 live d m (m₁.frameFree (frameAddr f)) S S ∧
        (S.entry d (dirIndex va) (tableIndex va) = none →
          m₁.pagingMapPageInDirectory (frameAddr d) va (frameAddr f) flags = (false, m₁) ∨
            ∃ m' S' e, m₁.pagingMapPageInDirectory (frameAddr d) va (frameAddr f) flags = (true, m') ∧
              InSpace m0 live d m m' S S' ∧ S'.entry = setAt S.entry d (dirIndex va) (tableIndex va) (some e) ∧
                frameOf e = f ∧ isWritable e = isWritable flags) := by
  rcases h.represents.allocPage_cases h.pageHand limit with heq | ⟨f, hpos, hlt, hfree, heq, h1⟩
  · exact .inl heq
  refine .inr ⟨f, _, hpos, hlt, heq, rfl, rfl, ?_, fun hnone => ?_⟩
  · rw [h1.frameFree_eq (o := .pageHand) rfl]
    exact ⟨h.same (h.represents.giveBack hfree h.pageHand h1), .refl d S, rfl⟩
  rcases h1.mapPage (h.mem_live hd) rfl h.tableHand hi hnone hu with hfail | ⟨hok, table, htable, h2⟩
  · exact .inl hfail
  obtain ⟨hframe, -, hw, -, -⟩ := mapEntry_facts hlt flags
  have hactive := (m.withFrames (m.frames.take f)).pagingMapPageInDirectory_active (frameAddr d) va
    (frameAddr f) flags
  refine .inr ⟨_, _, frameAddr f &&& addrMask ||| flags &&& flagMask ||| pagePresent, Prod.ext hok rfl,
    ⟨⟨h2, h.live, rfl, h.tableHand, h.user_setAt hi _, ?_⟩, ?_, hactive⟩, rfl, hframe, hw⟩
  · refine h.unshared.setAt rfl fun d' i' j' e' he' hf => ?_
    exact absurd (hf.trans hframe) (not_mapped h.represents hfree he')
  · refine .setAt htable rfl fun d' i j e' _ he' => ?_
    exact update_of_ne (not_mapped h.represents hfree he') ..

/-- A page is unmapped and its frame released. -/
theorem unmapFrame (h : Tracks m0 ⟨m, live⟩ S) (hd : d ∈ live)
    (he : S.entry d (dirIndex va) (tableIndex va) = some e) :
    ∃ S', InSpace m0 live d m
        ((m.pagingUnmapPageInDirectory (frameAddr d) va).2.frameFree (frameAddr (frameOf e))) S S' ∧
      S'.entry = setAt S.entry d (dirIndex va) (tableIndex va) none := by
  have hi := h.user d _ _ e he
  obtain ⟨-, h'⟩ := h.represents.unmapPage (h.mem_live hd) h.pageHand hi
  have hhand : (S.entry d (dirIndex va) (tableIndex va)).map frameOf = some (frameOf e) := by
    rw [he]
    rfl
  rw [hhand] at h'
  rw [h'.frameFree_eq (o := .pageHand) rfl]
  have h2 := h'.dropPage rfl
  refine ⟨_, ⟨⟨h2, h.live, rfl, h.tableHand, h.user_setAt hi none, ?_⟩, ?_,
    m.pagingUnmapPageInDirectory_active _ _⟩, rfl⟩
  · refine h.unshared.mono rfl fun d' i j e' he' => ?_
    by_cases hx : d' = d ∧ i = dirIndex va ∧ j = tableIndex va
    · cases (if_pos hx).symm.trans he'
    · exact (if_neg hx).symm.trans he'
  · exact .setAt (fun _ _ => rfl) rfl fun _ _ _ _ _ _ => rfl

/-- The flags of a page that could be written in place are set. -/
theorem setFlags (h : Tracks m0 ⟨m, live⟩ S) (hd : d ∈ live) (hwritable : S.Writable d (pageSlot va))
    {flags : Word} (hu : isUser flags = true) :
    ∃ m' S' e, m.pagingSetPageFlagsInDirectory (frameAddr d) va flags = (true, m') ∧
      InSpace m0 live d m m' S S' ∧ S'.entry = setAt S.entry d (dirIndex va) (tableIndex va) (some e) := by
  obtain ⟨e, hentry, hw⟩ := hwritable
  have he : S.entry d (dirIndex va) (tableIndex va) = some e := hentry
  have hdS := h.mem_live hd
  have hi := h.user d _ _ e he
  obtain ⟨t, ht⟩ := h.represents.books.wellFormed.entries d _ _ e he
  obtain ⟨-, hp, -, -⟩ := h.represents.entry_of_table ht
  obtain ⟨huser, -⟩ := h.represents.user_of_present hdS hi hp
  have hpage := h.represents.layout.pages d _ t ht (tableIndex va)
  rw [he] at hpage
  obtain ⟨hpe, -, heq⟩ := userEntry_eq_some.mp hpage.symm
  rw [heq] at hpe
  have hdir : m.entry (frameAddr d &&& addrMask) (dirIndex va) = m.ram d (dirIndex va) :=
    h.represents.entry_dir hdS
  have hframe := frameOf_lt e
  have haddr : e &&& addrMask = frameAddr (frameOf e) &&& addrMask := by
    rw [and_addrMask, frameAddr_and_addrMask hframe]
  obtain ⟨hf', hp', hw', hu', -⟩ := mapEntry_facts hframe flags
  have hlt := h.represents.live_lt hdS
  have hdt : d ≠ t := h.represents.dir_ne_table hdS ht
  generalize hm' : m.writeFrame t (update (m.ram t) (tableIndex va)
      (frameAddr (frameOf e) &&& addrMask ||| flags &&& flagMask ||| pagePresent)) = m'
  have hsame : m'.ram d = m.ram d := by
    rw [← hm']
    exact update_of_ne hdt ..
  have hrun : m.pagingSetPageFlagsInDirectory (frameAddr d) va flags = (true, m') := by
    unfold Memory.pagingSetPageFlagsInDirectory
    dsimp only
    rw [if_neg (by
      rw [not_or, hdir, test_pagePresent, hp]
      exact ⟨h.represents.frameAddr_live_ne_zero hdS, by decide⟩), h.represents.entry_table ht,
      test_pagePresent, heq, hpe, if_neg (by decide), h.represents.setEntry_table ht, haddr, hm', test_pageUser,
      if_pos hu, frameAddr_and_addrMask hlt, Represents.setEntry_frameAddr hlt]
    unfold Memory.entry
    -- the entry of the directory carries `PAGE_USER` already
    rw [frameOf_frameAddr hlt, hsame, or_pageUser huser, ← hsame, Represents.writeFrame_self]
  have hrep := h.represents.writeFlags ht he (userEntry_eq_some.mpr ⟨hp', hu'.trans hu, rfl⟩) hf'
  rw [hm'] at hrep
  refine ⟨m', _, _, hrun, ⟨⟨hrep, h.live, h.pageHand, h.tableHand, h.user_setAt hi _, ?_⟩, ?_, ?_⟩, rfl⟩
  · refine h.unshared.setAt rfl fun d' i' j' e' he' hf => ?_
    exact h.unshared d _ _ e he hw d' i' j' e' he' (hf.trans hf')
  · exact .setAt (fun _ _ => rfl) rfl fun _ _ _ _ _ _ => rfl
  · rw [← hm']
    rfl

/-- A page that can be written in place is filled. -/
theorem fillPage (h : Tracks m0 ⟨m, live⟩ S) (he : S.entry d (dirIndex va) (tableIndex va) = some e)
    (hw : isWritable e = true) (w : TableIndex → Word) :
    ∃ S', InSpace m0 live d m (m.writeFrame (frameOf e) w) S S' ∧ S'.entry = S.entry := by
  have hrep := h.represents.writeContent
    (fun hd => h.represents.page_ne_structural rfl (Represents.held_dir hd) he rfl)
    (fun d' i' ht => h.represents.page_ne_structural (o := .table d' i') rfl ht he rfl)
    (h.represents.books.pool _ _ (Represents.held_page he)) w
  refine ⟨_, ⟨⟨hrep, h.live, h.pageHand, h.tableHand, h.user, h.unshared⟩,
    fun d' hd' => ⟨rfl, rfl, fun i j e' he' => update_of_ne (fun hf => ?_) ..⟩, rfl⟩, rfl⟩
  exact hd' (h.unshared d _ _ e he hw d' i j e' he' hf).1

end Tracks

end AgenticOs
