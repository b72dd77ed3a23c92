import AgenticOs.Memory.AddressSpace

/-!
# Mapping, unmapping and copying one page

`paging_map_page_in_directory`, `paging_unmap_page_in_directory` and `paging_resolve_cow_fault` on represented
memory, for an address of the user range in a live directory.

* `mapPage`: mapping the page in hand at an unmapped address adds the one entry, or fails for lack of a table
  and changes nothing.
* `unmapPage`: unmapping returns the address of the page that was there and puts the page into the hand;
  frames that are not the allocator's are not written (`unmapPage_ram`).
* `resolveCowFault`: nothing happens, or a page with one reference is made writable in place, or the address
  gets a private copy. If there is no frame or no way to copy, the fault is not resolved and nothing changes
  (`copyPhysicalPage_cases`, `giveBack`).

Each is put together from the moves of `Moves.lean`; no proof here counts references.
-/

namespace AgenticOs

open Function Finset Lib

namespace Represents

variable {m0 m : Memory} {S : Spaces} {d t f : Nat} {i j : TableIndex} {o : Owner}

/-- A directory has an address. -/
theorem frameAddr_live_ne_zero (h : Represents m0 m S) (hd : d ∈ S.live) : frameAddr d ≠ 0 :=
  frameAddr_ne_zero (h.live_pos hd) (h.live_lt hd)

/-- Writing a word that is already there changes nothing. -/
theorem writeFrame_self (m : Memory) (f : Nat) (i : TableIndex) :
    m.writeFrame f (update (m.ram f) i (m.ram f i)) = m := by
  unfold Memory.writeFrame
  rw [update_eq_self, update_eq_self]

/-- The entry of an owned table, through its directory. -/
theorem entry_table (h : Represents m0 m S) (ht : S.table d i = some t) :
    m.entry (m.entry (frameAddr d &&& addrMask) i &&& addrMask) j = m.ram t j := by
  obtain ⟨hd, -, -, hf⟩ := h.entry_of_table ht
  rw [h.entry_dir hd]
  unfold Memory.entry
  rw [frameOf_and_addrMask, hf]

/-- Writing an owned table through its directory. -/
theorem setEntry_table (h : Represents m0 m S) (ht : S.table d i = some t) (e : Word) :
    m.setEntry (m.entry (frameAddr d &&& addrMask) i &&& addrMask) j e =
      m.writeFrame t (update (m.ram t) j e) := by
  obtain ⟨hd, -, -, hf⟩ := h.entry_of_table ht
  rw [h.entry_dir hd]
  unfold Memory.setEntry
  rw [frameOf_and_addrMask, hf]

/-! ### `paging_map_page_in_directory` -/

/-- The last step of mapping: the page in hand is written into its table. -/
theorem mapIntoTable (h : Represents m0 m S) (ht : S.table d i = some t)
    (hhand : S.pageHand = some f) (hun : S.entry d i j = none) (flags : Word)
    (hu : isUser flags = true) :
    Represents m0
      (m.setEntry (m.entry (frameAddr d &&& addrMask) i &&& addrMask) j
        (frameAddr f &&& addrMask ||| flags &&& flagMask ||| pagePresent))
      ((S.withEntry (setAt S.entry d i j
        (some (frameAddr f &&& addrMask ||| flags &&& flagMask ||| pagePresent)))).withPageHand
          none) := by
  have hf := h.books.lt_max (o := .pageHand) hhand
  obtain ⟨hframe, hpres, -, huser, -⟩ := mapEntry_facts hf flags
  have hentry : userEntry (frameAddr f &&& addrMask ||| flags &&& flagMask ||| pagePresent) =
      some (frameAddr f &&& addrMask ||| flags &&& flagMask ||| pagePresent) :=
    userEntry_eq_some.mpr ⟨hpres, huser.trans hu, rfl⟩
  rw [h.setEntry_table ht]
  have h1 := h.writePage (j := j) ht
    (frameAddr f &&& addrMask ||| flags &&& flagMask ||| pagePresent)
    (by rw [hentry, hhand, Option.map_some, hframe])
    (fun _ hn => by rw [hentry] at hn; cases hn)
  rw [hentry, hun] at h1
  exact h1

/-- Mapping the page in hand at an unmapped user address fails for lack of a table and changes
nothing, or adds the one entry. -/
theorem mapPage (h : Represents m0 m S) (hd : d ∈ S.live) (hhand : S.pageHand = some f)
    (hth : S.tableHand = none) {va flags : Word} (hi : inUserRange (dirIndex va))
    (hun : S.entry d (dirIndex va) (tableIndex va) = none) (hu : isUser flags = true) :
    m.pagingMapPageInDirectory (frameAddr d) va (frameAddr f) flags = (false, m) ∨
    ((m.pagingMapPageInDirectory (frameAddr d) va (frameAddr f) flags).1 = true ∧
      ∃ table, (∀ d', d' ≠ d → table d' = S.table d') ∧
        Represents m0 (m.pagingMapPageInDirectory (frameAddr d) va (frameAddr f) flags).2
        (((S.withTables table).withEntry (setAt S.entry d (dirIndex va) (tableIndex va)
          (some (frameAddr f &&& addrMask ||| flags &&& flagMask ||| pagePresent)))).withPageHand
            none)) := by
  unfold Memory.pagingMapPageInDirectory
  dsimp only
  rw [if_neg (by
    rw [not_or, not_not]
    exact ⟨h.frameAddr_live_ne_zero hd, frameAddr_aligned f⟩)]
  have hdir : m.entry (frameAddr d &&& addrMask) (dirIndex va) = m.ram d (dirIndex va) :=
    h.entry_dir hd
  rw [hdir, test_pagePresent]
  by_cases hp : isPresent (m.ram d (dirIndex va)) = true
  · -- the table exists; it is a user table already
    obtain ⟨huser, ht⟩ := h.user_of_present hd hi hp
    rw [hp, Bool.not_true, if_neg Bool.false_ne_true, test_pageUser, if_pos hu, or_pageUser huser,
      frameAddr_and_addrMask (h.live_lt hd), setEntry_frameAddr (h.live_lt hd), writeFrame_self]
    refine .inr ⟨rfl, S.table, fun _ _ => rfl, ?_⟩
    have h1 := h.mapIntoTable ht hhand hun flags hu
    rw [frameAddr_and_addrMask (h.live_lt hd)] at h1
    exact h1
  · -- a new table first
    simp only [Bool.not_eq_true] at hp
    rw [hp, Bool.not_false, if_pos rfl]
    rcases h.allocTable_cases hth with heq | ⟨t, htpos, htlt, -, heq, h1⟩
    · left
      rw [heq]
      rfl
    · right
      rw [heq]
      dsimp only
      rw [if_neg (frameAddr_ne_zero htpos (by omega))]
      refine ⟨rfl, ?_⟩
      dsimp only
      have hnone := h.table_none_of_absent hd hp
      obtain ⟨hframe, hpres, hwrit, huser⟩ := newTableEntry_facts (f := t) (by omega) flags
      have hown : ownedTable (dirIndex va)
          (frameAddr t ||| pagePresent ||| pageWritable ||| flags &&& pageUser) = some t := by
        rw [ownedTable_eq_some]
        refine ⟨?_, hframe⟩
        rw [ownsTable, hpres, huser.trans hu, Bool.or_true]
        rfl
      have hfill : (withTable m t).ram t = fun _ => 0x02 := update_self _ _ _
      have h2 := h1.writeDir (i := dirIndex va) hd
        (frameAddr t ||| pagePresent ||| pageWritable ||| flags &&& pageUser)
        (h.entry_none_of_table_none hnone) hown.symm
        (fun t' ht' j => by
          rw [hown, Option.some_inj] at ht'
          rw [← ht', hfill]
          exact userEntry_absent)
        (fun t' ht' _ j => by
          rw [hown, Option.some_inj] at ht'
          rw [← ht', hfill]
          show frameOf 0x02 = 0
          decide)
        (fun _ hn => by rw [huser, hu] at hn; cases hn)
        (fun _ _ => hwrit)
      have h3 := h2.mapIntoTable (d := d) (i := dirIndex va) (t := t) (f := f)
        (j := tableIndex va) (by simp [hown]) hhand hun flags hu
      rw [frameAddr_and_addrMask (h.live_lt hd)] at h3 ⊢
      rw [setEntry_frameAddr (h.live_lt hd)]
      refine ⟨(S.withTable d (dirIndex va) (some t)).table, fun d' hd' => ?_, h3.of_eq ?_⟩
      · funext i
        exact if_neg fun hc => hd' hc.1
      rw [hown]
      ext1
      case tableHand => exact hnone.trans hth.symm
      all_goals rfl

/-! ### `paging_unmap_page_in_directory` -/

/-- An entry that is set to what it was. -/
theorem setAt_self {entry : Nat → TableIndex → TableIndex → Option Word} {e : Option Word}
    (he : entry d i j = e) : setAt entry d i j e = entry := by
  funext d' i' j'
  unfold setAt
  by_cases hc : d' = d ∧ i' = i ∧ j' = j
  · rw [if_pos hc, hc.1, hc.2.1, hc.2.2, he]
  · rw [if_neg hc]

/-- Unmapping an address of the user range returns the address of the page that was mapped there,
or zero, and puts the page into the hand. -/
theorem unmapPage (h : Represents m0 m S) (hd : d ∈ S.live) (hhand : S.pageHand = none) {va : Word}
    (hi : inUserRange (dirIndex va)) :
    (m.pagingUnmapPageInDirectory (frameAddr d) va).1 =
        (match S.entry d (dirIndex va) (tableIndex va) with
          | none => 0
          | some e => frameAddr (frameOf e)) ∧
      Represents m0 (m.pagingUnmapPageInDirectory (frameAddr d) va).2
        ((S.withEntry (setAt S.entry d (dirIndex va) (tableIndex va) none)).withPageHand
          ((S.entry d (dirIndex va) (tableIndex va)).map frameOf)) := by
  unfold Memory.pagingUnmapPageInDirectory
  dsimp only
  have hdir : m.entry (frameAddr d &&& addrMask) (dirIndex va) = m.ram d (dirIndex va) :=
    h.entry_dir hd
  by_cases hp : isPresent (m.ram d (dirIndex va)) = true
  · obtain ⟨-, ht⟩ := h.user_of_present hd hi hp
    rw [if_neg (by
      rw [not_or, hdir, test_pagePresent, hp]
      exact ⟨h.frameAddr_live_ne_zero hd, by decide⟩)]
    rw [h.entry_table ht, h.setEntry_table ht]
    have hpage := h.layout.pages d _ _ ht (tableIndex va)
    have habs : userEntry pageWritable = none := by decide
    have h1 := h.writePage (j := tableIndex va) ht pageWritable (by rw [habs, hhand]; rfl)
      (fun _ _ => by decide)
    rw [habs] at h1
    refine ⟨?_, h1⟩
    dsimp only
    rw [and_addrMask, hpage]
    rcases he : userEntry (m.ram (frameOf (m.ram d (dirIndex va))) (tableIndex va)) with _ | e
    · rw [h.layout.blank d _ _ ht hi _ he]
      rfl
    · obtain ⟨-, -, rfl⟩ := userEntry_eq_some.mp he
      rfl
  · simp only [Bool.not_eq_true] at hp
    rw [if_pos (.inr (by rw [hdir, test_pagePresent, hp]))]
    have hnone := h.entry_none_of_table_none (h.table_none_of_absent hd hp) (tableIndex va)
    rw [hnone]
    refine ⟨rfl, ?_⟩
    have hS : (S.withEntry (setAt S.entry d (dirIndex va) (tableIndex va) none)).withPageHand
        (Option.map frameOf none) = S := by
      rw [setAt_self hnone]
      ext1
      case pageHand => exact hhand.symm
      all_goals rfl
    rw [hS]
    exact h

/-- What the allocator never had is not written when a page is unmapped. -/
theorem unmapPage_ram {g : Nat} (h : Represents m0 m S) (hd : d ∈ S.live) {va : Word} (hi : inUserRange (dirIndex va))
    (hg : ¬Pool m0.frames g) : (m.pagingUnmapPageInDirectory (frameAddr d) va).2.ram g = m.ram g := by
  unfold Memory.pagingUnmapPageInDirectory
  dsimp only
  split
  · rfl
  rename_i hthere
  rw [not_or, Bool.not_eq_false, test_pagePresent, h.entry_dir hd] at hthere
  -- the table of the page is one of the address space
  obtain ⟨-, ht⟩ := h.user_of_present hd hi hthere.2
  rw [h.setEntry_table ht, Memory.writeFrame_ram]
  refine update_of_ne ?_ ..
  rintro rfl
  exact hg (h.books.pool (.table d (dirIndex va)) _ ht)

/-! ### `paging_resolve_cow_fault` -/

/-- `copy_physical_page` from a mapped page to the page in hand, when the scratch table exists. -/
theorem copyPhysicalPage_cases (h : Represents m0 m S) {e : Word} (he : S.entry d i j = some e)
    (hhand : S.pageHand = some f) :
    m.copyPhysicalPage (frameAddr (frameOf e)) (frameAddr f) = (false, m) ∨
    ((m.copyPhysicalPage (frameAddr (frameOf e)) (frameAddr f)).1 = true ∧
      (m.copyPhysicalPage (frameAddr (frameOf e)) (frameAddr f)).2.frames = m.frames ∧
      Represents m0 (m.copyPhysicalPage (frameAddr (frameOf e)) (frameAddr f)).2
        (S.withContent (update S.content f (S.content (frameOf e))))) := by
  unfold Memory.copyPhysicalPage
  by_cases hs : m.kernelScratchTable = 0
  · rw [if_pos (.inl hs)]
    exact .inl rfl
  · right
    rw [if_neg (by
      rw [not_or, not_or, not_not, not_not]
      exact ⟨hs, frameAddr_aligned _, frameAddr_aligned _⟩)]
    dsimp only
    have hs0 : m0.kernelScratchTable ≠ 0 := h.scratch ▸ hs
    have hf := h.books.lt_max (o := .pageHand) hhand
    have hef := h.books.lt_max (held_page he)
    -- the scratch table belongs to nobody, so its two entries come and go unnoticed
    have enter : ∀ {m' : Memory}, Represents m0 m' S → ∀ (g : Nat) (i : TableIndex),
        g < 1048576 → Represents m0 (m'.writeFrame (frameOf m0.kernelScratchTable)
          (update (m'.ram (frameOf m0.kernelScratchTable)) i
            (frameAddr g ||| pagePresent ||| pageWritable))) S := by
      intro m' h' g i hg
      refine h'.writeScratch hs0 i (userEntry_eq_none.mpr ?_)
      rw [(supervisorEntry_facts hg).2.2.2, Bool.and_false]
    have leave : ∀ {m' : Memory} {S' : Spaces}, Represents m0 m' S' → ∀ i : TableIndex,
        Represents m0 (m'.writeFrame (frameOf m0.kernelScratchTable)
          (update (m'.ram (frameOf m0.kernelScratchTable)) i pageWritable)) S' :=
      fun h' i => h'.writeScratch hs0 i (by decide)
    unfold Memory.setEntry
    simp only [Memory.writeFrame_scratch, h.scratch, frameOf_frameAddr hf, frameOf_frameAddr hef]
    have hdir : f ∉ S.live := fun hd => h.hand_ne_structural rfl (held_dir hd) hhand rfl
    have htab : ∀ d i, S.table d i ≠ some f := fun d i ht =>
      h.hand_ne_structural (o := .table d i) rfl ht hhand rfl
    have copy : ∀ {m' : Memory}, Represents m0 m' S →
        Represents m0 (m'.writeFrame f (m'.ram (frameOf e)))
          (S.withContent (update S.content f (S.content (frameOf e)))) := by
      intro m' h'
      have h1 := h'.writeContent hdir htab (h'.books.pool .pageHand f hhand) (m'.ram (frameOf e))
      rw [h'.layout.contents d i j e he] at h1 ⊢
      exact h1
    exact ⟨trivial, rfl, leave (leave (copy (enter (enter h _ 0 hef) _ 1 hf)) 0) 1⟩

/-- Taking a free frame and giving it back leaves the contents of every page. -/
theorem content_of_free (h : Represents m0 m S) (hfree : m.frames.frameBitmap f = false)
    {w : TableIndex → Word} (o : Owner) (g : Nat) (_ : o.structural = false)
    (ho : (((S.withPageHand (some f)).withContent (update S.content f w)).withPageHand none).held o =
      some g) : update S.content f w g = S.content g := by
  refine update_of_ne ?_ _ _
  rintro rfl
  cases o with
  | pageHand => cases ho
  | dir d => exact h.books.not_held_of_free hfree (.dir d) ho
  | table d i => exact h.books.not_held_of_free hfree (.table d i) ho
  | page d i j => exact h.books.not_held_of_free hfree (.page d i j) ho
  | tableHand => exact h.books.not_held_of_free hfree .tableHand ho

/-- Giving back a frame that was free before leaves the address spaces as they were. -/
theorem giveBack (h : Represents m0 m S) (hfree : m.frames.frameBitmap f = false)
    (hhand : S.pageHand = none) {m' : Memory} {w : TableIndex → Word}
    (h' : Represents m0 m' ((S.withPageHand (some f)).withContent (update S.content f w))) :
    Represents m0 (m'.withFrames (m'.frames.dropRef f)) S := by
  refine ((h'.dropPage rfl).recontent S.content (h.content_of_free hfree)).of_eq ?_
  ext1
  case pageHand => exact hhand.symm
  all_goals rfl

/-- An entry that is no user page. -/
theorem has_presentUser_of_none {e : Word} (h : userEntry e = none) :
    has e (pagePresent ||| pageUser) = false := by
  rw [has_or, has_pagePresent, has_pageUser]
  exact userEntry_eq_none.mp h

/-- A present entry whose table the directory does not own leads to a kernel table. -/
theorem kernelTable_of_shared (h : Represents m0 m S) (hd : d ∈ S.live)
    (hp : isPresent (m.ram d i) = true) (hnone : S.table d i = none) (j : TableIndex) :
    userEntry (m.ram (frameOf (m.ram d i)) j) = none := by
  have hown := h.layout.dirs d hd i
  rw [hnone] at hown
  have hno : ownsTable i (m.ram d i) = false := by
    by_contra hc
    rw [Bool.not_eq_false] at hc
    rw [ownedTable, if_pos hc] at hown
    cases hown
  simp only [ownsTable, hp, Bool.true_and, Bool.or_eq_false_iff, beq_eq_false_iff_ne] at hno
  exact h.layout.kernelTables _ ((h.layout.shared d hd i hp hno.2).2 hno.1) j

/-- Outcome of `paging_resolve_cow_fault`: nothing, a page made writable in place, or a private copy
of a shared one. -/
theorem resolveCowFault (h : Represents m0 m S) (hd : d ∈ S.live) (hhand : S.pageHand = none)
    (va : Word) :
    ((m.pagingResolveCowFault (frameAddr d) va).1 = false ∧
      Represents m0 (m.pagingResolveCowFault (frameAddr d) va).2 S) ∨
    ∃ e, S.entry d (dirIndex va) (tableIndex va) = some e ∧ isWritable e = false ∧
      isCow e = true ∧ (m.pagingResolveCowFault (frameAddr d) va).1 = true ∧
      ((m.frames.frameRefcounts (frameOf e) = 1 ∧
          Represents m0 (m.pagingResolveCowFault (frameAddr d) va).2
            (S.withEntry (setAt S.entry d (dirIndex va) (tableIndex va)
              (some ((e ||| pageWritable) &&& ~~~pageCow))))) ∨
        ∃ f, m.frames.frameBitmap f = false ∧ f < 1048576 ∧
          Represents m0 (m.pagingResolveCowFault (frameAddr d) va).2
            ((S.withEntry (setAt S.entry d (dirIndex va) (tableIndex va)
              (some (frameAddr f ||| (e &&& flagMask ||| pageWritable) &&& ~~~pageCow)))).withContent
                (update S.content f (S.content (frameOf e))))) := by
  unfold Memory.pagingResolveCowFault
  dsimp only
  have hdir : m.entry (frameAddr d &&& addrMask) (dirIndex va) = m.ram d (dirIndex va) :=
    h.entry_dir hd
  by_cases hp : isPresent (m.ram d (dirIndex va)) = true
  · rw [if_neg (by
      rw [not_or, hdir, test_pagePresent, hp]
      exact ⟨h.frameAddr_live_ne_zero hd, by decide⟩)]
    rcases ht : S.table d (dirIndex va) with _ | t
    · -- a table of the kernel maps no user page
      have hno := h.kernelTable_of_shared hd hp ht (tableIndex va)
      rw [hdir]
      unfold Memory.entry
      rw [frameOf_and_addrMask, if_pos]
      · exact .inl ⟨rfl, h⟩
      · left
        rw [has_or, has_presentUser_of_none hno, Bool.false_and]
    obtain ⟨-, -, -, htd⟩ := h.entry_of_table ht
    rw [h.entry_table ht]
    set e := m.ram t (tableIndex va) with he
    rw [has_or, has_or, has_pagePresent, has_pageUser, has_pageCow, test_pageWritable]
    by_cases hc : (isPresent e && isUser e && isCow e) = false ∨ isWritable e = true
    · rw [if_pos hc]
      exact .inl ⟨rfl, h⟩
    · rw [if_neg hc]
      rw [not_or, Bool.not_eq_false, Bool.not_eq_true] at hc
      obtain ⟨hc1, hw⟩ := hc
      simp only [Bool.and_eq_true] at hc1
      obtain ⟨⟨hpe, hue⟩, hce⟩ := hc1
      have hentry : S.entry d (dirIndex va) (tableIndex va) = some e := by
        rw [h.layout.pages d _ t ht]
        exact userEntry_eq_some.mpr ⟨hpe, hue, rfl⟩
      have hheld : S.held (.page d (dirIndex va) (tableIndex va)) = some (frameOf e) :=
        held_page hentry
      have hpos := h.books.refcount_pos hheld
      rw [and_addrMask, h.frameGetRefcount_eq hheld, if_neg (by omega)]
      by_cases hone : m.frames.frameRefcounts (frameOf e) = 1
      · rw [if_pos hone]
        refine .inr ⟨e, hentry, hw, hce, rfl, .inl ⟨hone, ?_⟩⟩
        obtain ⟨hframe, hpres, -, huser, -⟩ := reuseEntry_facts e
        rw [h.setEntry_table ht]
        exact h.writeFlags ht hentry
          (userEntry_eq_some.mpr ⟨hpres.trans hpe, huser.trans hue, rfl⟩) hframe
      · rw [if_neg hone]
        unfold Memory.frameAlloc
        rcases h.allocPage_cases hhand (m.frames.totalFrames * frameSize) with
          heq | ⟨f, hfpos, hflt, hfree, heq, h1⟩
        · left
          rw [heq]
          exact ⟨rfl, h⟩
        · rw [heq]
          dsimp only
          rw [if_neg (frameAddr_ne_zero hfpos hflt)]
          have hfe : frameOf e ≠ f := fun hef =>
            h.books.not_held_of_free hfree _ (hef ▸ hheld)
          rcases h1.copyPhysicalPage_cases hentry rfl with hcopy | ⟨hc1, hframes, h2⟩
          · left
            rw [hcopy]
            dsimp only
            rw [if_pos rfl, h1.frameRelease_eq (o := .pageHand) rfl]
            exact ⟨rfl, h.giveBack hfree hhand h1⟩
          · right
            refine ⟨e, hentry, hw, hce, ?_⟩
            rw [hc1, if_neg (by decide : ¬ true = false)]
            refine ⟨rfl, .inr ⟨f, hfree, hflt, ?_⟩⟩
            dsimp only
            obtain ⟨hframe, hpres, -, huser, -⟩ := copyEntry_facts hflt e
            have hnew : userEntry (frameAddr f ||| (e &&& flagMask ||| pageWritable) &&& ~~~pageCow)
                = some (frameAddr f ||| (e &&& flagMask ||| pageWritable) &&& ~~~pageCow) :=
              userEntry_eq_some.mpr ⟨hpres.trans hpe, huser.trans hue, rfl⟩
            have h3 := h2.writePage (d := d) (i := dirIndex va) (j := tableIndex va) (t := t) ht
              (frameAddr f ||| (e &&& flagMask ||| pageWritable) &&& ~~~pageCow)
              (by rw [hnew, Option.map_some, hframe]; rfl)
              (fun _ hn => by rw [hnew] at hn; cases hn)
            rw [hdir]
            unfold Memory.setEntry
            have hold : (S.entry d (dirIndex va) (tableIndex va)).map frameOf =
                some (frameOf e) := by rw [hentry]; rfl
            rw [frameOf_and_addrMask, htd, h3.frameRelease_eq (o := .pageHand) hold]
            refine (h3.dropPage hold).of_eq ?_
            rw [hnew]
            ext1
            case pageHand => exact hhand.symm
            case content =>
              show update (update S.content f (m.ram f)) f
                (update S.content f (m.ram f) (frameOf e)) = _
              rw [update_idem, update_of_ne hfe]
              rfl
            all_goals rfl
  · simp only [Bool.not_eq_true] at hp
    rw [if_pos (.inr (by rw [hdir, test_pagePresent, hp]))]
    exact .inl ⟨rfl, h⟩

end Represents

end AgenticOs
