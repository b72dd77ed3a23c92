import AgenticOs.Memory.PagingRun

/-!
# Every operation keeps the books, and what the user sees

`Tracks m0 s S`: the state `s` stores the address spaces `S`, with no frame in hand, every user page in the
user range, and every writable page mapped once.

* **Operations** (`Tracks.step_create`, `step_map`, `step_clone`, `step_store`, `step_unmap`, `step_destroy`):
  each leads to a state that tracks some `S'`, and what a user sees of `S'` (`Spaces.view`) is what
  `Reference.step` makes of what he saw of `S`. `Tracks.step` is all of them in one.
* **Copy-on-write** (`Tracks.resolve`): resolving a fault is invisible, and after it succeeds the page can be
  written. That a byte written in place is the page of one address space only is what `Unshared` is for
  (`Tracks.write`).
* **Runs** (`Tracks.exec`): from a booted kernel (`Booted.tracks`) every sequence of operations keeps the
  books, and users see what the reference shows.

`cloned`, `destroyed` and `load` say the same of memory, without the outcome; system calls use them.
-/

namespace AgenticOs

open Function Finset Lib

/-- A page that can be written in place is mapped once. -/
def Spaces.Unshared (S : Spaces) : Prop :=
  ∀ d i j e, S.entry d i j = some e → isWritable e = true → ∀ d' i' j' e',
    S.entry d' i' j' = some e' → frameOf e' = frameOf e → d' = d ∧ i' = i ∧ j' = j

/-- What user programs can see. -/
def Spaces.view (S : Spaces) : Reference where
  live := S.live
  page := fun d i j =>
    (S.entry d i j).map fun e => ⟨pageByte (S.content (frameOf e)), isWritable e || isCow e⟩

/-- State `s`, reached from the memory `m0`, stores `S`. -/
structure Tracks (m0 : Memory) (s : PagingState) (S : Spaces) : Prop where
  represents : Represents m0 s.memory S
  live : S.live = s.live
  pageHand : S.pageHand = none
  tableHand : S.tableHand = none
  user : ∀ d i j e, S.entry d i j = some e → inUserRange i
  unshared : S.Unshared

/-! ### Views -/

namespace Spaces

variable {S : Spaces} {d : Nat} {va : Word}

/-- The page of an address after its entry and the contents of its frame are replaced. -/
theorem view_setAt (d : Nat) (va : Word) (e : Option Word) (content : Nat → TableIndex → Word)
    (hother : ∀ d' i' j' e', S.entry d' i' j' = some e' →
      ¬ (d' = d ∧ i' = dirIndex va ∧ j' = tableIndex va) →
      content (frameOf e') = S.content (frameOf e')) :
    ((S.withEntry (setAt S.entry d (dirIndex va) (tableIndex va) e)).withContent content).view =
      S.view.setPage d va
        (e.map fun e => ⟨pageByte (content (frameOf e)), isWritable e || isCow e⟩) := by
  ext1
  case live => rfl
  case page =>
    funext d' i' j'
    show Option.map _ (setAt S.entry d (dirIndex va) (tableIndex va) e d' i' j') =
      if d' = d ∧ i' = dirIndex va ∧ j' = tableIndex va then _ else _
    unfold setAt
    by_cases hc : d' = d ∧ i' = dirIndex va ∧ j' = tableIndex va
    · rw [if_pos hc, if_pos hc]
      rfl
    · rw [if_neg hc, if_neg hc]
      rcases he : S.entry d' i' j' with _ | e'
      · simp [view, he]
      · simp only [view, he, Option.map_some]
        rw [← hother d' i' j' e' he hc]
        rfl

/-- Clearing an entry keeps `Unshared`. -/
theorem Unshared.mono {entry : Nat → TableIndex → TableIndex → Option Word} (h : S.Unshared)
    {S' : Spaces} (hentry : S'.entry = entry)
    (hsub : ∀ d i j e, entry d i j = some e → S.entry d i j = some e) : S'.Unshared := by
  intro d i j e he hw d' i' j' e' he' hf
  rw [hentry] at he he'
  exact h d i j e (hsub d i j e he) hw d' i' j' e' (hsub d' i' j' e' he') hf

/-- A new entry whose frame no other entry maps keeps `Unshared`. -/
theorem Unshared.setAt (h : S.Unshared) {i j : TableIndex} {e : Word} {S' : Spaces}
    (hentry : S'.entry = setAt S.entry d i j (some e))
    (hfresh : ∀ d' i' j' e', S.entry d' i' j' = some e' → frameOf e' = frameOf e →
      d' = d ∧ i' = i ∧ j' = j) : S'.Unshared := by
  intro d1 i1 j1 e1 he1 hw d2 i2 j2 e2 he2 hf
  rw [hentry] at he1 he2
  unfold AgenticOs.setAt at he1 he2
  by_cases h1 : d1 = d ∧ i1 = i ∧ j1 = j
  · rw [if_pos h1] at he1
    cases he1
    by_cases h2 : d2 = d ∧ i2 = i ∧ j2 = j
    · rw [h1.1, h1.2.1, h1.2.2]
      exact h2
    · rw [if_neg h2] at he2
      exact absurd (hfresh d2 i2 j2 e2 he2 hf) h2
  · rw [if_neg h1] at he1
    by_cases h2 : d2 = d ∧ i2 = i ∧ j2 = j
    · rw [if_pos h2] at he2
      cases he2
      exact absurd (hfresh d1 i1 j1 e1 he1 hf.symm) h1
    · rw [if_neg h2] at he2
      exact h d1 i1 j1 e1 he1 hw d2 i2 j2 e2 he2 hf

end Spaces

/-- A page that is set to what it was. -/
theorem Reference.setPage_self {R : Reference} {d : Nat} {va : Word} {p : Option RefPage}
    (hp : R.pageAt d va = p) : R.setPage d va p = R := by
  ext1
  case live => rfl
  case page =>
    funext d' i j
    show (if d' = d ∧ i = dirIndex va ∧ j = tableIndex va then p else R.page d' i j) = _
    by_cases hc : d' = d ∧ i = dirIndex va ∧ j = tableIndex va
    · rw [if_pos hc, hc.1, hc.2.1, hc.2.2, ← hp]
      rfl
    · rw [if_neg hc]

namespace Tracks

variable {m0 : Memory} {s : PagingState} {S : Spaces} {d : Nat} {va : Word}

/-- Memory that still stores `S`. -/
theorem same (h : Tracks m0 s S) {m : Memory} (hm : Represents m0 m S) :
    Tracks m0 ⟨m, s.live⟩ S :=
  { h with represents := hm }

/-- A frame that one page entry holds is mapped once. -/
theorem only_mapper (h : Represents m0 s.memory S) {i j : TableIndex} {e : Word}
    (he : S.entry d i j = some e) (hone : s.memory.frames.frameRefcounts (frameOf e) = 1)
    (d' : Nat) (i' j' : TableIndex) (e' : Word) (he' : S.entry d' i' j' = some e')
    (hf : frameOf e' = frameOf e) : d' = d ∧ i' = i ∧ j' = j := by
  have h1 := Represents.held_page he
  have h2 := Represents.held_page he'
  rw [hf] at h2
  cases h.books.unique h2 h1 hone
  exact ⟨rfl, rfl, rfl⟩

/-- A free frame is mapped nowhere. -/
theorem not_mapped (h : Represents m0 s.memory S) {f : Nat}
    (hfree : s.memory.frames.frameBitmap f = false) {d' : Nat} {i' j' : TableIndex} {e' : Word}
    (he' : S.entry d' i' j' = some e') : frameOf e' ≠ f := by
  rintro rfl
  exact h.books.not_held_of_free hfree _ (Represents.held_page he')

/-! ### The operations -/

/-- An unmapped address has no user page. -/
theorem entry_of_unmapped (h : Tracks m0 s S) (hun : s.unmapped d va) :
    S.entry d (dirIndex va) (tableIndex va) = none := by
  rcases he : S.entry d (dirIndex va) (tableIndex va) with _ | e
  · rfl
  · exfalso
    obtain ⟨t, ht⟩ := h.represents.books.wellFormed.entries d _ _ e he
    obtain ⟨hd, hp, -, -⟩ := h.represents.entry_of_table ht
    have hpage := h.represents.layout.pages d _ t ht (tableIndex va)
    rw [he] at hpage
    obtain ⟨hpe, -, heq⟩ := userEntry_eq_some.mp hpage.symm
    have hphys := hun.2
    unfold Memory.pagingGetPhysicalAddressInDirectory at hphys
    dsimp only at hphys
    rw [if_neg (by
      rw [not_or, h.represents.entry_dir hd, test_pagePresent, hp]
      exact ⟨h.represents.frameAddr_live_ne_zero hd, by decide⟩),
      h.represents.entry_table ht, test_pagePresent, if_pos hpe, heq, and_addrMask,
      ← frameAddr_and_addrMask (frameOf_lt e)] at hphys
    have hframe := (cloneEntry_facts (frameOf_lt e) va).1
    rw [hphys] at hframe
    have hlow := h.represents.held_ge (Represents.held_page he)
    rw [← hframe] at hlow
    exact absurd hlow (by decide)

/-- `paging_create_address_space`. -/
theorem step_create (h : Tracks m0 s S) :
    ∃ S', Tracks m0 (s.run .create).2 S' ∧ S'.view = S.view.step .create (s.run .create).1 := by
  unfold PagingState.run PagingState.created
  dsimp only
  rcases h.represents.createAddressSpace h.tableHand with
    ⟨hz, h'⟩ | ⟨d, t, -, hlt, hpos, hd, h', -⟩
  · rw [if_pos hz]
    exact ⟨S, h.same h', rfl⟩
  · rw [hd, if_neg (frameAddr_ne_zero hpos (by omega)), frameOf_frameAddr (by omega)]
    refine ⟨S.create d t, ⟨h', ?_, h.pageHand, h.tableHand, h.user, h.unshared⟩, rfl⟩
    show insert d S.live = insert d s.live
    rw [h.live]

/-- A fresh page at an unmapped address. -/
theorem step_map (h : Tracks m0 s S) {flags : Word} (limit : Nat) (hd : d ∈ s.live)
    (hu : isUser flags = true) (hun : s.unmapped d va) :
    ∃ S', Tracks m0 (s.run (.map d va flags limit)).2 S' ∧
      S'.view = S.view.step (.map d va flags limit) (s.run (.map d va flags limit)).1 := by
  have hnone := h.entry_of_unmapped hun
  rw [← h.live] at hd
  unfold PagingState.run PagingState.mapFresh
  dsimp only
  rcases h.represents.allocPage_cases h.pageHand limit with heq | ⟨f, hpos, hlt, hfree, heq, h1⟩
  · rw [heq]
    exact ⟨S, h.same h.represents, rfl⟩
  · rw [heq]
    dsimp only
    rw [if_neg (frameAddr_ne_zero hpos hlt), frameOf_frameAddr hlt]
    rcases h1.mapPage hd rfl h.tableHand hun.1 hnone hu with hfail | ⟨hok, table, -, h2⟩
    · rw [hfail, if_neg Bool.false_ne_true, h1.frameFree_eq (o := .pageHand) rfl]
      exact ⟨S, h.same (h.represents.giveBack hfree h.pageHand h1), rfl⟩
    · rw [if_pos hok]
      obtain ⟨hframe, -, hw, -, hc⟩ := mapEntry_facts hlt flags
      set e := frameAddr f &&& addrMask ||| flags &&& flagMask ||| pagePresent with he
      refine ⟨_, ⟨h2, h.live, rfl, h.tableHand, ?_, ?_⟩, ?_⟩
      · intro d' i' j' e' he'
        by_cases hx : d' = d ∧ i' = dirIndex va ∧ j' = tableIndex va
        · rw [hx.2.1]
          exact hun.1
        · exact h.user d' i' j' e' ((if_neg hx).symm.trans he')
      · refine h.unshared.setAt rfl fun d' i' j' e' he' hf => ?_
        exact absurd (hf.trans hframe) (not_mapped h.represents hfree he')
      · have hcont := h2.layout.contents d (dirIndex va) (tableIndex va) e
          (if_pos ⟨rfl, rfl, rfl⟩)
        rw [hframe] at hcont
        have hview := S.view_setAt d va (some e) (update S.content f (s.memory.ram f))
          fun d' i' j' e' he' _ => update_of_ne (not_mapped h.represents hfree he') _ _
        rw [Option.map_some, hframe, hw, hc] at hview
        refine Eq.trans ?_ hview |>.trans ?_
        · rfl
        · show _ = S.view.setPage d va _
          rw [hcont]
          rfl

/-- Memory that stores a clone. -/
theorem cloned (h : Tracks m0 s S) {m : Memory} {n : Nat} {table : Nat → TableIndex → Option Nat}
    (h' : Represents m0 m (S.clone d n table)) :
    Tracks m0 ⟨m, insert n s.live⟩ (S.clone d n table) := by
  have hentry : ∀ d' i j, (S.clone d n table).entry d' i j =
      if d' = d ∨ d' = n then (S.entry d i j).map shareCow else S.entry d' i j :=
    fun _ _ _ => rfl
  -- an entry of the clone comes from an entry of `S` for the same frame
  have horigin : ∀ d' i j e', (S.clone d n table).entry d' i j = some e' →
      ∃ e, S.entry (if d' = n then d else d') i j = some e ∧ frameOf e' = frameOf e ∧
        (isWritable e' = true → isWritable e = true ∧ d' ≠ d ∧ d' ≠ n) := by
    intro d' i j e' he'
    rw [hentry] at he'
    by_cases hc : d' = d ∨ d' = n
    · rw [if_pos hc] at he'
      obtain ⟨e, he, rfl⟩ := Option.map_eq_some_iff.mp he'
      obtain ⟨h1, h2, -⟩ := shareCow_facts e
      refine ⟨e, ?_, h1, fun hw => by rw [h2] at hw; cases hw⟩
      rcases hc with hc | hc
      · rw [hc, ite_self]
        exact he
      · rw [if_pos hc]
        exact he
    · rw [if_neg hc] at he'
      rw [not_or] at hc
      exact ⟨e', by rw [if_neg hc.2]; exact he', rfl, fun hw => ⟨hw, hc.1, hc.2⟩⟩
  refine ⟨h', ?_, h.pageHand, h.tableHand, ?_, ?_⟩
  · show insert n S.live = insert n s.live
    rw [h.live]
  · intro d' i j e' he'
    obtain ⟨e, he, -⟩ := horigin d' i j e' he'
    exact h.user _ i j e he
  · intro d1 i1 j1 e1 he1 hw d2 i2 j2 e2 he2 hf
    obtain ⟨e, he, hfe, hcond⟩ := horigin d1 i1 j1 e1 he1
    obtain ⟨e', he', hfe', -⟩ := horigin d2 i2 j2 e2 he2
    obtain ⟨hwe, hne1, hne2⟩ := hcond hw
    rw [if_neg hne2] at he
    obtain ⟨hd2, hi2, hj2⟩ := h.unshared d1 i1 j1 e he hwe _ i2 j2 e' he'
      (hfe'.symm.trans (hf.trans hfe))
    refine ⟨?_, hi2, hj2⟩
    by_cases hc : d2 = n
    · rw [if_pos hc] at hd2
      exact absurd hd2.symm hne1
    · rw [if_neg hc] at hd2
      exact hd2

/-- `paging_clone_directory`. -/
theorem step_clone (h : Tracks m0 s S) (hd : d ∈ s.live) :
    ∃ S', Tracks m0 (s.run (.clone d)).2 S' ∧
      S'.view = S.view.step (.clone d) (s.run (.clone d)).1 := by
  rw [← h.live] at hd
  unfold PagingState.run PagingState.created
  dsimp only
  rcases h.represents.cloneDirectory hd h.tableHand h.pageHand with
    ⟨hz, h'⟩ | ⟨n, table, hn, hpos, hlt, -, hres, h'⟩
  · rw [if_pos hz]
    exact ⟨S, h.same h', rfl⟩
  · rw [hres, if_neg (frameAddr_ne_zero hpos (by omega)), frameOf_frameAddr (by omega)]
    have hentry : ∀ d' i j, (S.clone d n table).entry d' i j =
        if d' = d ∨ d' = n then (S.entry d i j).map shareCow else S.entry d' i j :=
      fun _ _ _ => rfl
    refine ⟨S.clone d n table, h.cloned h', ?_⟩
    ext1
    case live => rfl
    case page =>
      funext d' i j
      have hshare : ∀ o : Option Word,
          (o.map shareCow).map (fun e => (⟨pageByte (S.content (frameOf e)),
            isWritable e || isCow e⟩ : RefPage)) =
          o.map fun e => ⟨pageByte (S.content (frameOf e)), isWritable e || isCow e⟩ := by
        intro o
        cases o with
        | none => rfl
        | some e =>
          obtain ⟨h1, -, h3⟩ := shareCow_facts e
          rw [Option.map_some, Option.map_some, Option.map_some, h1, h3]
      show ((S.clone d n table).entry d' i j).map _ =
        (if d' = n then S.view.page d else S.view.page d') i j
      rw [hentry]
      by_cases hn' : d' = n
      · rw [if_pos (Or.inr hn'), if_pos hn']
        exact hshare _
      · rw [if_neg hn']
        by_cases hd' : d' = d
        · rw [if_pos (Or.inl hd'), hd']
          exact hshare _
        · rw [if_neg (not_or.mpr ⟨hd', hn'⟩)]
          rfl

/-- `paging_resolve_cow_fault` is invisible, and after it succeeds the page can be written. -/
theorem resolve (h : Tracks m0 s S) (hd : d ∈ s.live) (va : Word) :
    ∃ S', Tracks m0
        ⟨(s.memory.pagingResolveCowFault (frameAddr d) va).2, s.live⟩ S' ∧ S'.view = S.view ∧
      (((s.memory.pagingResolveCowFault (frameAddr d) va).1 = false ∧ S' = S) ∨
        (s.memory.pagingResolveCowFault (frameAddr d) va).1 = true ∧
        ∃ e e', S.entry d (dirIndex va) (tableIndex va) = some e ∧ isCow e = true ∧
          S'.entry d (dirIndex va) (tableIndex va) = some e' ∧ isWritable e' = true) := by
  rw [← h.live] at hd
  rcases h.represents.resolveCowFault hd h.pageHand va with
    ⟨hfail, h'⟩ | ⟨e, he, -, hcow, hok, hcase⟩
  · exact ⟨S, h.same h', rfl, .inl ⟨hfail, rfl⟩⟩
  · have hi := h.user d _ _ e he
    have huser : ∀ e' : Word, ∀ d' i' j' e'', setAt S.entry d (dirIndex va) (tableIndex va)
        (some e') d' i' j' = some e'' → inUserRange i' := by
      intro e' d' i' j' e'' he''
      by_cases hx : d' = d ∧ i' = dirIndex va ∧ j' = tableIndex va
      · rw [hx.2.1]
        exact hi
      · exact h.user d' i' j' e'' ((if_neg hx).symm.trans he'')
    rw [hok]
    rcases hcase with ⟨hone, h'⟩ | ⟨f, hfree, hflt, h'⟩
    · -- the only mapping: the frame stays
      obtain ⟨hframe, -, hw, -, -⟩ := reuseEntry_facts e
      refine ⟨_, ⟨h', h.live, h.pageHand, h.tableHand, huser _, ?_⟩, ?_,
        .inr ⟨rfl, e, _, he, hcow, if_pos ⟨rfl, rfl, rfl⟩, hw⟩⟩
      · refine h.unshared.setAt rfl fun d' i' j' e' he' hf => ?_
        exact only_mapper h.represents he hone d' i' j' e' he' (hf.trans hframe)
      · refine (S.view_setAt d va (some _) S.content fun _ _ _ _ _ _ => rfl).trans ?_
        refine Reference.setPage_self ?_
        show (S.entry d (dirIndex va) (tableIndex va)).map _ = _
        rw [he, Option.map_some, Option.map_some, hframe, hw, hcow, Bool.or_true, Bool.true_or]
    · -- a private copy
      obtain ⟨hframe, -, hw, -, -⟩ := copyEntry_facts hflt e
      refine ⟨_, ⟨h', h.live, h.pageHand, h.tableHand, huser _, ?_⟩, ?_,
        .inr ⟨rfl, e, _, he, hcow, if_pos ⟨rfl, rfl, rfl⟩, hw⟩⟩
      · refine h.unshared.setAt rfl fun d' i' j' e' he' hf => ?_
        exact absurd (hf.trans hframe) (not_mapped h.represents hfree he')
      · refine (S.view_setAt d va (some _) _ fun d' i' j' e' he' _ =>
          update_of_ne (not_mapped h.represents hfree he') _ _).trans ?_
        refine Reference.setPage_self ?_
        show (S.entry d (dirIndex va) (tableIndex va)).map _ = _
        rw [he, Option.map_some, Option.map_some, hframe, update_self, hw, hcow, Bool.or_true,
          Bool.true_or]

/-- A byte written in place changes one byte of one page. -/
theorem write (h : Tracks m0 s S) {e : Word}
    (he : S.entry d (dirIndex va) (tableIndex va) = some e) (hw : isWritable e = true)
    (b : Byte) :
    ∃ S', Tracks m0 ⟨s.memory.userWrite (frameAddr d) va b, s.live⟩ S' ∧
      S'.view = S.view.store d va b := by
  have hi := h.user d _ _ e he
  refine ⟨_, ⟨h.represents.userWrite_represents hi he b, h.live, h.pageHand, h.tableHand, h.user,
    h.unshared⟩, ?_⟩
  have hview := S.view_setAt d va (some e) (update S.content (frameOf e)
    (setPageByte (S.content (frameOf e)) (pageOffset va) b)) fun d' i' j' e' he' hne =>
      update_of_ne (fun hf => hne (h.unshared d _ _ e he hw d' i' j' e' he' hf)) _ _
  rw [Represents.setAt_self he, Option.map_some, update_self, pageByte_setPageByte] at hview
  refine Eq.trans rfl (hview.trans ?_)
  have hpage : S.view.pageAt d va =
      some ⟨pageByte (S.content (frameOf e)), isWritable e || isCow e⟩ := by
    show (S.entry d (dirIndex va) (tableIndex va)).map _ = _
    rw [he]
    rfl
  unfold Reference.store
  rw [hpage, hw, Bool.true_or]
  rfl

/-- A user store. -/
theorem step_store (h : Tracks m0 s S) (hd : d ∈ s.live) (b : Byte) :
    ∃ S', Tracks m0 (s.run (.store d va b)).2 S' ∧
      S'.view = S.view.step (.store d va b) (s.run (.store d va b)).1 := by
  have hdS : d ∈ S.live := h.live ▸ hd
  unfold PagingState.run Memory.userStore
  dsimp only
  obtain ⟨S', h', hview, hcase⟩ := h.resolve hd va
  rcases he : S.entry d (dirIndex va) (tableIndex va) with _ | e
  · -- no page: the fault is not resolved
    rcases hcase with ⟨hfail, hS⟩ | ⟨-, e, e', he', -⟩
    · rw [if_neg (by rw [(h.represents.translate_none hdS he).2]; decide), hfail,
        if_neg Bool.false_ne_true]
      refine ⟨S', h', hview.trans ?_⟩
      have hnone : S.view.pageAt d va = none := by
        show (S.entry d (dirIndex va) (tableIndex va)).map _ = _
        rw [he]
        rfl
      split
      · rfl
      · show _ = S.view.store d va b
        unfold Reference.store
        rw [hnone]
    · rw [he] at he'
      cases he'
  · have hi := h.user d _ _ e he
    obtain ⟨-, hwrit, -⟩ := h.represents.translate hi he
    have hpage : S.view.pageAt d va =
        some ⟨pageByte (S.content (frameOf e)), isWritable e || isCow e⟩ := by
      show (S.entry d (dirIndex va) (tableIndex va)).map _ = _
      rw [he]
      rfl
    unfold Memory.userStoreDropped
    rw [hwrit, h.represents.pageFlags he]
    by_cases hw : isWritable e = true
    · -- the store goes straight to the frame
      rw [if_pos hw, hw, Bool.not_true, Bool.and_false, Bool.false_and, if_neg Bool.false_ne_true]
      exact h.write he hw b
    · rw [if_neg hw]
      rw [Bool.not_eq_true] at hw
      rw [hw, Bool.not_false, Bool.and_true]
      rcases hcase with ⟨hfail, rfl⟩ | ⟨hok, e1, e', he1, hcow, he', hw'⟩
      · rw [hfail, if_neg Bool.false_ne_true, Bool.not_false, Bool.and_true]
        refine ⟨S', h', ?_⟩
        by_cases hcow : isCow e = true
        · rw [if_pos hcow]
          rfl
        · -- a read-only page
          rw [if_neg hcow]
          rw [Bool.not_eq_true] at hcow
          show _ = S'.view.store d va b
          unfold Reference.store
          rw [hpage, hw, hcow]
          rfl
      · -- the fault is resolved and the store runs again
        rw [hok, if_pos rfl, Bool.not_true, Bool.and_false, if_neg Bool.false_ne_true]
        unfold Memory.userStoreDirect
        rw [(h'.represents.translate hi he').2.1, if_pos hw']
        obtain ⟨S'', h'', hview''⟩ := h'.write he' hw' b
        exact ⟨S'', h'', hview''.trans (by rw [hview]; rfl)⟩

/-- Unmapping a page. -/
theorem step_unmap (h : Tracks m0 s S) (hd : d ∈ s.live) (hi : inUserRange (dirIndex va)) :
    ∃ S', Tracks m0 (s.run (.unmap d va)).2 S' ∧
      S'.view = S.view.step (.unmap d va) (s.run (.unmap d va)).1 := by
  rw [← h.live] at hd
  unfold PagingState.run PagingState.unmapRelease
  dsimp only
  obtain ⟨hres, h'⟩ := h.represents.unmapPage hd h.pageHand hi
  have hsub : ∀ d' i' j' e', setAt S.entry d (dirIndex va) (tableIndex va) none d' i' j' = some e' →
      S.entry d' i' j' = some e' := by
    intro d' i' j' e' he'
    unfold setAt at he'
    by_cases hx : d' = d ∧ i' = dirIndex va ∧ j' = tableIndex va
    · rw [if_pos hx] at he'
      cases he'
    · rw [if_neg hx] at he'
      exact he'
  have hview : (S.withEntry (setAt S.entry d (dirIndex va) (tableIndex va) none)).view =
      S.view.setPage d va none :=
    S.view_setAt d va none S.content fun _ _ _ _ _ _ => rfl
  rcases he : S.entry d (dirIndex va) (tableIndex va) with _ | e
  · rw [he] at hres h'
    rw [if_pos hres]
    exact ⟨_, ⟨h', h.live, rfl, h.tableHand, fun d' i' j' e' he' => h.user d' i' j' e'
      (hsub d' i' j' e' he'), h.unshared.mono rfl hsub⟩, hview⟩
  · have hpos : 0 < frameOf e := by
      have := h.represents.held_ge (Represents.held_page he)
      simp only [firstFrame] at this
      omega
    rw [he] at hres h'
    rw [hres, if_neg (frameAddr_ne_zero hpos (frameOf_lt e)),
      h'.frameRelease_eq (o := .pageHand) rfl]
    exact ⟨_, ⟨h'.dropPage rfl, h.live, rfl, h.tableHand, fun d' i' j' e' he' => h.user d' i' j' e'
      (hsub d' i' j' e' he'), h.unshared.mono rfl hsub⟩, hview⟩

end Tracks

/-- The entries that are left. -/
theorem Spaces.destroy_entry (S : Spaces) (d d' : Nat) (i j : TableIndex) :
    (S.destroy d).entry d' i j = if d' = d then none else S.entry d' i j := by
  show (if d' = d ∧ i ∈ tableIndices then none else S.entry d' i j) = _
  by_cases hx : d' = d
  · rw [if_pos ⟨hx, Memory.mem_tableIndices i⟩, if_pos hx]
  · rw [if_neg (fun hc => hx hc.1), if_neg hx]

namespace Tracks

variable {m0 : Memory} {s : PagingState} {S : Spaces} {d : Nat} {va : Word}

/-- Memory without an address space. -/
theorem destroyed (h : Tracks m0 s S) (hd : d ∈ s.live)
    (hactive : s.memory.activePageDirectory ≠ frameAddr d) :
    Tracks m0 ⟨s.memory.pagingDestroyAddressSpace (frameAddr d), s.live.erase d⟩ (S.destroy d) := by
  rw [← h.live] at hd
  have hsub : ∀ d' i' j' e', (S.destroy d).entry d' i' j' = some e' →
      S.entry d' i' j' = some e' := by
    intro d' i' j' e' he'
    rw [S.destroy_entry] at he'
    by_cases hx : d' = d
    · rw [if_pos hx] at he'
      cases he'
    · rw [if_neg hx] at he'
      exact he'
  refine ⟨h.represents.destroyAddressSpace hd h.tableHand h.pageHand hactive, ?_,
    h.pageHand, h.tableHand, fun d' i' j' e' he' => h.user d' i' j' e' (hsub d' i' j' e' he'),
    h.unshared.mono rfl hsub⟩
  show S.live.erase d = s.live.erase d
  rw [h.live]

/-- `paging_destroy_address_space` of a directory that is not loaded. -/
theorem step_destroy (h : Tracks m0 s S) (hd : d ∈ s.live)
    (hactive : s.memory.activePageDirectory ≠ frameAddr d) :
    ∃ S', Tracks m0 (s.run (.destroy d)).2 S' ∧
      S'.view = S.view.step (.destroy d) (s.run (.destroy d)).1 := by
  refine ⟨S.destroy d, h.destroyed hd hactive, ?_⟩
  ext1
  case live => rfl
  case page =>
    funext d' i j
    show ((S.destroy d).entry d' i j).map _ =
      (if d' = d then fun _ _ => none else S.view.page d') i j
    rw [S.destroy_entry]
    by_cases hx : d' = d
    · rw [if_pos hx, if_pos hx]
      rfl
    · rw [if_neg hx, if_neg hx]
      rfl

/-- Loading a directory. -/
theorem load (h : Tracks m0 s S) {cr3 : Word}
    (hcr3 : cr3 = pageDirectory ∨ ∃ d ∈ S.live, cr3 = frameAddr d) :
    Tracks m0 ⟨s.memory.pagingSwitchDirectory cr3, s.live⟩ S := by
  refine h.same ?_
  unfold Memory.pagingSwitchDirectory
  by_cases hz : cr3 = 0
  · rw [if_pos hz]
    exact h.represents
  · rw [if_neg hz]
    refine h.represents.switch ?_
    rcases hcr3 with rfl | ⟨d, hd, rfl⟩
    · exact .inl (by decide)
    · exact .inr ⟨d, hd, frameAddr_and_addrMask (h.represents.live_lt hd)⟩

/-- **One operation** keeps the books, and its effect on what users see is the reference's. -/
theorem step (h : Tracks m0 s S) (op : PagingOp) :
    ∃ S', Tracks m0 (s.step op).2 S' ∧ S'.view = S.view.step op (s.step op).1 := by
  unfold PagingState.step
  by_cases hen : s.enabled op
  · rw [if_pos hen]
    cases op with
    | create => exact h.step_create
    | map d va flags limit => exact h.step_map limit hen.1 hen.2.1 hen.2.2
    | clone d => exact h.step_clone hen
    | store d va b => exact h.step_store hen b
    | resolve d va =>
      obtain ⟨S', h', hview, -⟩ := h.resolve (d := d) hen va
      exact ⟨S', h', hview⟩
    | unmap d va => exact h.step_unmap hen.1 hen.2
    | destroy d => exact h.step_destroy hen.1 hen.2
    | load d => exact ⟨S, h.load (.inr ⟨d, h.live ▸ hen, rfl⟩), rfl⟩
    | loadKernel => exact ⟨S, h.load (.inl rfl), rfl⟩
  · rw [if_neg hen]
    exact ⟨S, h, by cases op <;> rfl⟩

/-- **Every run** keeps the books, and users see what the reference shows. -/
theorem exec (h : Tracks m0 s S) (ops : List PagingOp) :
    ∃ S', Tracks m0 (s.exec ops) S' ∧ S'.view = S.view.exec (s.outcomes ops) := by
  induction ops generalizing s S with
  | nil => exact ⟨S, h, rfl⟩
  | cons op ops ih =>
    obtain ⟨S', h', hview⟩ := h.step op
    obtain ⟨S'', h'', hview'⟩ := ih h'
    refine ⟨S'', h'', hview'.trans ?_⟩
    rw [hview]
    rfl

end Tracks

/-! ### The start -/

/-- No address space. -/
def Spaces.empty : Spaces where
  live := ∅
  table := fun _ _ => none
  entry := fun _ _ _ => none
  content := fun _ _ => 0
  pageHand := none
  tableHand := none

/-- A booted kernel has no address space yet. -/
theorem Booted.tracks {m0 : Memory} (h : Booted m0) : Tracks m0 ⟨m0, ∅⟩ Spaces.empty := by
  have hheld : ∀ o, Spaces.empty.held o = none := by
    intro o
    cases o <;> rfl
  have hno : ∀ o f, Spaces.empty.held o ≠ some f := by
    intro o f ho
    rw [hheld] at ho
    cases ho
  refine ⟨⟨h, ?_, ?_, rfl⟩, rfl, rfl, rfl, fun _ _ _ _ he => (nomatch he),
    fun _ _ _ _ he => (nomatch he)⟩
  · exact
      { counted := h.counted
        initialized := h.initialized
        total := rfl
        base := fun _ _ => ⟨rfl, rfl⟩
        wellFormed := ⟨fun _ hd => absurd hd (Finset.notMem_empty _), fun _ _ _ ht => (nomatch ht),
          fun _ _ _ _ he => (nomatch he)⟩
        pool := fun o f ho => absurd ho (hno o f)
        exact := by
          intro f hf
          rw [holders_eq_zero_iff.mpr fun o _ => hno o f]
          have := h.counted.live_iff f hf.2.1
          rw [hf.2.2] at this
          simp only [Bool.false_eq_true, false_iff] at this
          exact Nat.eq_zero_of_not_pos this
        single := fun o f _ ho => absurd ho (hno o f) }
  · exact
      { dirs := fun _ hd => absurd hd (Finset.notMem_empty _)
        pages := fun _ _ _ ht => nomatch ht
        contents := fun _ _ _ _ he => nomatch he
        handContent := fun _ hf => nomatch hf
        shared := fun _ hd => absurd hd (Finset.notMem_empty _)
        writable := fun _ hd => absurd hd (Finset.notMem_empty _)
        blank := fun _ _ _ ht => nomatch ht
        kernel := rfl
        kernelTables := fun t ht => (h.kernelTable t ht).2
        active := .inl h.active }

end AgenticOs
