import AgenticOs.Memory.OnePage

/-!
# The user pages of the active directory

Every user page of a process lies in the user range and has a frame of its own, which is no table
(`UserPages`).

* **Reading**: what the processor finds at an address is read off the entry of its page (`userLoad_eq`,
  `isUserAccessible_eq`, `isUserWritable_eq`), and so are the flags that the kernel reads (`pageFlags_kinds`).
* **Writing**: all that page-fault recovery and the ELF loader do is to take frames (`UserPages.withFrames`),
  to write a page's entry (`UserPages.install`) and to write frames that are no tables
  (`UserPages.writeFrame`). Each keeps `UserPages`.
* **Calls**: a page is taken and mapped (`mapFresh`: nothing can be had and nothing changes, or it is in the
  lowest free frame), its entry is replaced (`writeEntry`), its flags are changed (`changeFlags`). `Repaged`
  says of all three that one page has a new entry and the others are as before.

`blank` is a directory without pages on a machine with 256 free frames.
-/

namespace AgenticOs

open Function Lib

/-- Frames in use stay in use. -/
structure FrameState.KeepsUsed (s s' : FrameState) : Prop where
  counted : s'.Counted
  initialized : s'.frameInitialized = true
  total : s'.totalFrames = s.totalFrames
  used : ∀ g, s.frameBitmap g = true → s'.frameBitmap g = true

namespace FrameState

variable {s s' : FrameState} {f g : Nat}

/-- A frame that is free was free. -/
theorem KeepsUsed.pool (h : s.KeepsUsed s') (hg : Pool s' g) : Pool s g := by
  refine ⟨hg.1, h.total ▸ hg.2.1, ?_⟩
  by_contra hused
  have hused := h.used g (Bool.eq_true_of_not_eq_false hused)
  exact absurd (hused.symm.trans hg.2.2) nofun

/-- Nothing has been taken. -/
theorem KeepsUsed.refl (hs : s.Counted) (hinit : s.frameInitialized = true) : s.KeepsUsed s :=
  ⟨hs, hinit, rfl, fun _ => id⟩

/-- A free frame is taken. -/
theorem KeepsUsed.take (h : s.KeepsUsed s') (hf : f < s'.totalFrames) (hfree : s'.frameBitmap f = false) :
    s.KeepsUsed (s'.take f) := by
  refine ⟨h.counted.take hf hfree, h.initialized, h.total, fun g hg => ?_⟩
  by_cases hgf : g = f
  · rw [hgf]
    exact update_self ..
  · rw [take_bitmap_of_ne hgf]
    exact h.used g hg

/-- One of several references is dropped. -/
theorem KeepsUsed.dropRef (h : s.KeepsUsed s') (hf : f < s'.totalFrames) (hmany : 2 ≤ s'.frameRefcounts f) :
    s.KeepsUsed (s'.dropRef f) := by
  refine ⟨h.counted.dropRef hf (by omega), h.initialized, h.total, fun g hg => ?_⟩
  have hsame : (s'.dropRef f).frameBitmap = s'.frameBitmap := by
    unfold FrameState.dropRef
    exact if_neg (by omega)
  rw [hsame]
  exact h.used g hg

end FrameState

namespace Memory

variable {m m' : Memory} {fr : FrameState} {f g t : Nat} {i : TableIndex} {p q : PageSlot}
  {w : TableIndex → Word} {dirEntry e e' va : Word}

/-- The entry of the user page at a place. -/
def userPage (m : Memory) (p : PageSlot) : Option Word := (m.mappedEntry p).filter fun e => isUser e

/-- A frame that is neither the directory nor a table. -/
structure Plain (m : Memory) (g : Nat) : Prop where
  notDirectory : g ≠ m.directory
  notTable : ∀ i, m.hasTable i = true → m.tableFrame i ≠ g
  notScratch : m.kernelScratchTable ≠ 0 → g ≠ frameOf m.kernelScratchTable

/-- A frame in use that can be a page. -/
structure PageFrame (m : Memory) (g : Nat) : Prop extends m.Plain g where
  low : firstFrame ≤ g
  lt : g < m.frames.totalFrames
  used : m.frames.frameBitmap g = true

/-- Nothing is mapped at the scratch addresses, as `paging_init` and `copy_physical_page` leave them. -/
structure ScratchIdle (m : Memory) : Prop where
  pool : ¬Pool m.frames (frameOf m.kernelScratchTable)
  notDirectory : frameOf m.kernelScratchTable ≠ m.directory
  notTable : ¬m.IsTable (frameOf m.kernelScratchTable)
  source : m.ram (frameOf m.kernelScratchTable) 0 = pageWritable
  dest : m.ram (frameOf m.kernelScratchTable) 1 = pageWritable

/-- The address space of a process, when its directory is loaded. -/
structure UserPages (m : Memory) : Prop where
  sound : m.ActiveSound
  userTables : ∀ i, inUserRange i → m.hasTable i = true → isUser (m.ram m.directory i) = true
  inRange : ∀ p e, m.userPage p = some e → inUserRange p.1
  frames : ∀ p e, m.userPage p = some e → m.PageFrame (frameOf e)
  /-- no frame is mapped twice -/
  distinct : ∀ p q e e', m.userPage p = some e → m.userPage q = some e' → frameOf e = frameOf e' → p = q
  kernelTables : ∀ i, ¬inUserRange i → m.hasTable i = true → ¬Pool m.frames (m.tableFrame i) ∧
    m.tableFrame i ≠ m.directory ∧ ¬m.IsTable (m.tableFrame i)
  scratch : m.kernelScratchTable ≠ 0 → m.ScratchIdle

/-! ### What the processor finds -/

/-- A user page is a mapped page whose entry has the user bit. -/
theorem userPage_eq_some : m.userPage p = some e ↔ m.mappedEntry p = some e ∧ isUser e = true :=
  Option.filter_eq_some_iff

/-- The entry of a user page is a word of its table. -/
theorem userPage_some (h : m.userPage p = some e) :
    m.hasTable p.1 = true ∧ m.ram (m.tableFrame p.1) p.2 = e ∧ isPresent e = true ∧ isUser e = true := by
  obtain ⟨hmapped, huser⟩ := userPage_eq_some.mp h
  obtain ⟨hhas, hentry, hpresent⟩ := mappedEntry_some hmapped
  exact ⟨hhas, hentry, hpresent, huser⟩

/-- An entry of the directory that is loaded. -/
theorem entry_active (m : Memory) (i : TableIndex) : m.entry m.activePageDirectory i = m.ram m.directory i := rfl

/-- An entry of one of its tables. -/
theorem entry_tableFrame (m : Memory) (i j : TableIndex) :
    m.entry (m.entry m.activePageDirectory i &&& addrMask) j = m.ram (m.tableFrame i) j := by
  unfold entry
  rw [frameOf_and_addrMask]
  rfl

/-- The frame that an address translates to. -/
theorem userFrame_eq (h : m.mappedEntry (pageSlot va) = some e) :
    m.userFrame m.activePageDirectory va = frameOf e := by
  unfold userFrame
  rw [entry_tableFrame]
  exact congrArg frameOf (mappedEntry_some h).2.1

/-- What `mappedEntry` makes of the words of a page. -/
theorem mappedEntry_eq (m : Memory) (p : PageSlot) :
    m.mappedEntry p =
      if m.hasTable p.1 = true ∧ isPresent (m.ram (m.tableFrame p.1) p.2) = true then
        some (m.ram (m.tableFrame p.1) p.2)
      else none := by
  unfold mappedEntry presentEntry
  by_cases hhas : m.hasTable p.1 = true <;> simp [hhas]

/-- The user page at a place, by the words of the directory and the table. -/
theorem userPage_eq (m : Memory) (p : PageSlot) :
    m.userPage p =
      if m.hasTable p.1 = true ∧ isPresent (m.ram (m.tableFrame p.1) p.2) = true ∧
          isUser (m.ram (m.tableFrame p.1) p.2) = true then
        some (m.ram (m.tableFrame p.1) p.2)
      else none := by
  unfold userPage
  rw [mappedEntry_eq]
  by_cases hmapped : m.hasTable p.1 = true ∧ isPresent (m.ram (m.tableFrame p.1) p.2) = true
  · rw [if_pos hmapped]
    by_cases huser : isUser (m.ram (m.tableFrame p.1) p.2) = true
    · rw [if_pos ⟨hmapped.1, hmapped.2, huser⟩, Option.filter_some_pos huser]
    · rw [if_neg fun hc => huser hc.2.2, Option.filter_some_neg (Bool.eq_false_of_not_eq_true huser)]
  · rw [if_neg hmapped, if_neg fun hc => hmapped ⟨hc.1, hc.2.1⟩]
    rfl

namespace UserPages

/-- A page is accessible if its entry says so. -/
theorem isUserAccessible_eq (h : m.UserPages) (va : Word) :
    m.isUserAccessible m.activePageDirectory va = (m.userPage (pageSlot va)).isSome := by
  unfold isUserAccessible
  rw [entry_tableFrame, entry_active, has_or, has_or, has_pagePresent, has_pagePresent, has_pageUser, has_pageUser]
  rcases hpage : m.userPage (pageSlot va) with _ | e
  · have hno : ¬(isPresent (m.ram m.directory (dirIndex va)) = true ∧
        isPresent (m.ram (m.tableFrame (dirIndex va)) (tableIndex va)) = true ∧
          isUser (m.ram (m.tableFrame (dirIndex va)) (tableIndex va)) = true) := fun hc => by
      have hsome := (userPage_eq m (pageSlot va)).trans (if_pos hc)
      rw [hpage] at hsome
      cases hsome
    by_contra hc
    simp only [Option.isSome_none, Bool.not_eq_false, Bool.and_eq_true] at hc
    exact hno ⟨hc.1.1, hc.2⟩
  · obtain ⟨hhas, hentry, hpresent, huser⟩ := userPage_some hpage
    have hdirUser := h.userTables _ (h.inRange _ _ hpage) hhas
    unfold Memory.hasTable at hhas
    simp only [pageSlot] at hhas hentry hdirUser
    simp [hhas, hdirUser, hentry, hpresent, huser]

/-- A page is writable if its entry says so. -/
theorem isUserWritable_eq (h : m.UserPages) (va : Word) :
    m.isUserWritable m.activePageDirectory va = (m.userPage (pageSlot va)).any fun e => isWritable e := by
  have haccessible := h.isUserAccessible_eq va
  unfold isUserAccessible at haccessible
  unfold isUserWritable
  rw [has_or (n := pageWritable), has_or (n := pageWritable), has_pageWritable, has_pageWritable]
  rcases hpage : m.userPage (pageSlot va) with _ | e
  · rw [hpage] at haccessible
    simp only [Option.isSome_none, Bool.and_eq_false_iff] at haccessible
    simp only [Option.any_none, Bool.and_eq_false_iff]
    tauto
  · rw [hpage, Option.isSome_some, Bool.and_eq_true] at haccessible
    obtain ⟨hhas, hentry, -, -⟩ := userPage_some hpage
    have hdirWritable := (h.sound.tables _ (h.inRange _ _ hpage) hhas).2.1
    rw [haccessible.1, haccessible.2, entry_tableFrame, entry_active]
    simp only [pageSlot] at hentry hdirWritable
    simp [hdirWritable, hentry]

/-- What a program loads is a byte of the frame of the page. -/
theorem userLoad_eq (h : m.UserPages) (va : Word) :
    m.userLoad m.activePageDirectory va =
      (m.userPage (pageSlot va)).map fun e => pageByte (m.ram (frameOf e)) (pageOffset va) := by
  unfold userLoad
  rw [h.isUserAccessible_eq]
  rcases hpage : m.userPage (pageSlot va) with _ | e
  · rfl
  · rw [userFrame_eq (userPage_eq_some.mp hpage).1]
    rfl

end UserPages

/-- The flags that are read at an address are those of its page, or of an absent entry. -/
theorem pageFlags_cases (hactive : m.activePageDirectory ≠ 0) (va : Word) :
    m.mappedEntry (pageSlot va) = none ∧
        isPresent (m.pagingGetPageFlagsInDirectory m.activePageDirectory va) = false ∨
      ∃ e, m.mappedEntry (pageSlot va) = some e ∧ isPresent e = true ∧
        m.pagingGetPageFlagsInDirectory m.activePageDirectory va = e &&& flagMask := by
  have hflags := pageFlags_eq (m := m) hactive va
  have htable : m.tableEntry (frameOf m.activePageDirectory) (pageSlot va) =
      if m.hasTable (pageSlot va).1 = true then
        some (m.ram (m.tableFrame (pageSlot va).1) (pageSlot va).2)
      else none := rfl
  rw [hflags, htable, mappedEntry_eq]
  generalize m.ram (m.tableFrame (pageSlot va).1) (pageSlot va).2 = e
  by_cases hhas : m.hasTable (pageSlot va).1 = true
  · rw [if_pos hhas]
    have hbit : isPresent (e &&& flagMask) = isPresent e := by
      show bit 0 (e &&& flagMask) = bit 0 e
      rw [bit_and, bit_flagMask]
      simp
    by_cases hpresent : isPresent e = true
    · exact .inr ⟨e, if_pos ⟨hhas, hpresent⟩, hpresent, rfl⟩
    · exact .inl ⟨if_neg fun hc => hpresent hc.2, hbit.trans (Bool.eq_false_of_not_eq_true hpresent)⟩
  · rw [if_neg hhas]
    exact .inl ⟨if_neg fun hc => hhas hc.1, by decide⟩

/-- The flags of an entry are those of its low bits. -/
theorem flag_and_flagMask (e : Word) : isPresent (e &&& flagMask) = isPresent e ∧
    isUser (e &&& flagMask) = isUser e ∧ isWritable (e &&& flagMask) = isWritable e ∧
      isCow (e &&& flagMask) = isCow e := by
  refine ⟨?_, ?_, ?_, ?_⟩ <;> refine bit_and.trans ?_ <;> rw [bit_flagMask] <;> exact Bool.and_true _

/-- The flags show what kind of page there is. -/
theorem pageFlags_kinds (hactive : m.activePageDirectory ≠ 0) (va : Word) :
    let flags := m.pagingGetPageFlagsInDirectory m.activePageDirectory va
    isPresent flags = (m.mappedEntry (pageSlot va)).isSome ∧
      has flags (pagePresent ||| pageUser) = (m.userPage (pageSlot va)).isSome ∧
      has flags (pagePresent ||| pageUser ||| pageWritable) = (m.userPage (pageSlot va)).any (fun e => isWritable e) ∧
      has flags (pagePresent ||| pageUser ||| pageCow) = (m.userPage (pageSlot va)).any (fun e => isCow e) := by
  dsimp only
  rw [has_or (n := pageWritable), has_or (n := pageCow), has_or, has_pagePresent, has_pageUser, has_pageWritable,
    has_pageCow]
  unfold userPage
  rcases pageFlags_cases hactive va with ⟨hnone, hno⟩ | ⟨e, he, hpresent, hflags⟩
  · rw [hnone, hno]
    exact ⟨rfl, rfl, rfl, rfl⟩
  · obtain ⟨h₁, h₂, h₃, h₄⟩ := flag_and_flagMask e
    rw [he, hflags, h₁, h₂, h₃, h₄, hpresent]
    rcases huser : isUser e with _ | _
    · rw [Option.filter_some_neg huser]
      exact ⟨rfl, rfl, rfl, rfl⟩
    · rw [Option.filter_some_pos huser]
      exact ⟨rfl, rfl, rfl, rfl⟩

/-- The physical address that is read at an address. -/
theorem physicalAddress_eq_mapped (hactive : m.activePageDirectory ≠ 0) (va : Word) :
    m.pagingGetPhysicalAddressInDirectory m.activePageDirectory va =
      (m.mappedEntry (pageSlot va)).elim 0 fun e => e &&& addrMask ||| va &&& flagMask := by
  have haddr := physicalAddress_eq (m := m) hactive va
  have htable : m.tableEntry (frameOf m.activePageDirectory) (pageSlot va) =
      if m.hasTable (pageSlot va).1 = true then
        some (m.ram (m.tableFrame (pageSlot va).1) (pageSlot va).2)
      else none := rfl
  rw [haddr, htable, mappedEntry_eq]
  generalize m.ram (m.tableFrame (pageSlot va).1) (pageSlot va).2 = e
  by_cases hhas : m.hasTable (pageSlot va).1 = true
  · rw [if_pos hhas]
    by_cases hpresent : isPresent e = true
    · rw [if_pos ⟨hhas, hpresent⟩]
      exact if_pos hpresent
    · rw [if_neg fun hc => hpresent hc.2]
      exact if_neg hpresent
  · rw [if_neg hhas, if_neg fun hc => hhas hc.1]
    rfl

/-! ### Writing the entry of a page -/

/-- Only the table and the directory are written. -/
theorem install_ram_other (ht : g ≠ t) (hd : g ≠ m.directory) :
    (m.install fr t w p dirEntry e).ram g = m.ram g :=
  (update_of_ne ht ..).trans (update_of_ne hd ..)

namespace UserPages

/-- A page has another entry, and no other page has changed. -/
theorem install_mapped (h : m.UserPages) (hfits : m.Fits t w p.1 dirEntry)
    (hplace : m.IsTable t ∨ Pool m.frames t) (q : PageSlot) :
    (m.install fr t w p dirEntry e).mappedEntry q = if q = p then presentEntry e else m.mappedEntry q := by
  by_cases hq : inUserRange q.1
  · exact hfits.mappedEntry h.sound hq
  have hne : q.1 ≠ p.1 := fun hc => hq (hc ▸ hfits.user)
  rw [if_neg fun hc => hne (congrArg Prod.fst hc)]
  unfold mappedEntry
  rw [hfits.hasTable, hfits.tableFrame, update_of_ne hne, update_of_ne hne]
  by_cases hhas : m.hasTable q.1 = true
  · obtain ⟨hpool, hdirectory, htable⟩ := h.kernelTables q.1 hq hhas
    have hnt : m.tableFrame q.1 ≠ t := by
      rintro rfl
      exact hplace.elim htable hpool
    rw [if_pos hhas, if_pos hhas, install_ram_other hnt hdirectory]
  · rw [if_neg hhas, if_neg hhas]

/-- The other words of the table are those it is written with. -/
theorem install_word (h : m.UserPages) (hfits : m.Fits t w p.1 dirEntry)
    (hplace : m.IsTable t ∨ Pool m.frames t) (hq : q ≠ p) :
    (m.install fr t w p dirEntry e).tableEntry m.directory q =
      if q.1 = p.1 then some (w q.2) else m.tableEntry m.directory q := by
  obtain ⟨i, j⟩ := q
  have hself : (m.install fr t w p dirEntry e).ram t = update w p.2 e := update_self ..
  unfold tableEntry
  rw [hfits.ram_directory]
  dsimp only
  by_cases hi : i = p.1
  · subst hi
    have hj : j ≠ p.2 := fun hc => hq (Prod.ext rfl hc)
    rw [if_pos rfl, update_self, if_pos hfits.present, hfits.frame, hself, update_of_ne hj]
  rw [if_neg hi, update_of_ne hi]
  by_cases hhas : isPresent (m.ram m.directory i) = true
  · have hframe : frameOf (m.ram m.directory i) ≠ t ∧ frameOf (m.ram m.directory i) ≠ m.directory := by
      by_cases hrange : inUserRange i
      · exact ⟨hfits.apart i hrange hi hhas, (h.sound.tables i hrange hhas).2.2⟩
      · obtain ⟨hpool, hdirectory, htable⟩ := h.kernelTables i hrange hhas
        refine ⟨?_, hdirectory⟩
        intro hc
        exact hplace.elim (hc ▸ htable) (hc ▸ hpool)
    rw [if_pos hhas, if_pos hhas, install_ram_other hframe.1 hframe.2]
  · rw [if_neg hhas, if_neg hhas]

/-- **One page has another entry**, and no other user page has changed. -/
theorem install_userPage (h : m.UserPages) (hfits : m.Fits t w p.1 dirEntry)
    (hplace : m.IsTable t ∨ Pool m.frames t) (q : PageSlot) :
    (m.install fr t w p dirEntry e).userPage q = if q = p then userEntry e else m.userPage q := by
  unfold userPage
  rw [h.install_mapped hfits hplace]
  by_cases hq : q = p
  · rw [if_pos hq, if_pos hq]
    unfold presentEntry userEntry
    rcases isPresent e with _ | _ <;> rcases huser : isUser e with _ | _ <;> simp [huser]
  · rw [if_neg hq, if_neg hq]

/-- A frame that is free is neither the directory nor a table. -/
theorem plain_of_pool (h : m.UserPages) (hg : Pool m.frames g) : m.Plain g := by
  obtain ⟨hdirectory, htable⟩ := h.sound.ne_of_free hg.2.2
  refine ⟨hdirectory, fun i hhas hc => ?_, fun hs hc => (h.scratch hs).pool (hc ▸ hg)⟩
  by_cases hi : inUserRange i
  · exact htable ⟨i, hi, hhas, hc⟩
  · exact (h.kernelTables i hi hhas).1 (hc ▸ hg)

/-- The frame of a page is not the table that is written. -/
theorem page_ne_table (h : m.UserPages) (hplace : m.IsTable t ∨ Pool m.frames t) (hq : m.userPage q = some e) :
    frameOf e ≠ t := by
  have hframe := h.frames q e hq
  rintro rfl
  rcases hplace with ⟨i, -, hhas, heq⟩ | hfree
  · exact hframe.notTable i hhas heq
  · exact absurd (hframe.used.symm.trans hfree.2.2) nofun

/-- The entry of a user page is written; its frame is that of the page, or one that was free. -/
theorem install (h : m.UserPages) (hfits : m.Fits t w p.1 dirEntry) (hplace : m.IsTable t ∨ Pool m.frames t)
    (hdirUser : isUser dirEntry = true) (hfr : m.frames.KeepsUsed fr) (ht : fr.frameBitmap t = true)
    (hne : t ≠ frameOf e)
    (hframe : m.PageFrame (frameOf e) ∨ Pool m.frames (frameOf e) ∧ fr.frameBitmap (frameOf e) = true)
    (hother : ∀ q e', q ≠ p → m.userPage q = some e' → frameOf e' ≠ frameOf e) :
    (m.install fr t w p dirEntry e).UserPages := by
  have hpage (q : PageSlot) : (m.install fr t w p dirEntry e).userPage q = _ :=
    h.install_userPage hfits hplace q
  have hpool {g : Nat} (hg : ¬Pool m.frames g) : ¬Pool fr g := fun hc => hg (hfr.pool hc)
  have htables {g : Nat} (hg : (m.install fr t w p dirEntry e).IsTable g) : m.IsTable g ∨ g = t := by
    obtain ⟨i, hi, hhas, rfl⟩ := hg
    rw [hfits.hasTable] at hhas
    rw [hfits.tableFrame]
    by_cases hip : i = p.1
    · exact .inr (by rw [hip, update_self])
    · rw [update_of_ne hip] at hhas ⊢
      exact .inl ⟨i, hi, hhas, rfl⟩
  have hkeep {g : Nat} (hg : m.PageFrame g) (hgt : g ≠ t) : (m.install fr t w p dirEntry e).PageFrame g := by
    refine ⟨⟨hg.notDirectory, fun i hhas => ?_, hg.notScratch⟩, hg.low, hfr.total ▸ hg.lt, hfr.used g hg.used⟩
    rw [hfits.hasTable] at hhas
    rw [hfits.tableFrame]
    by_cases hip : i = p.1
    · rw [hip, update_self]
      exact hgt.symm
    · rw [update_of_ne hip] at hhas ⊢
      exact hg.notTable i hhas
  have hself : (m.install fr t w p dirEntry e).PageFrame (frameOf e) := by
    rcases hframe with hframe | ⟨hfree, hused⟩
    · exact hkeep hframe hne.symm
    obtain ⟨hdirectory, hnotTable, hscratch⟩ := h.plain_of_pool hfree
    refine ⟨⟨hdirectory, fun i hhas => ?_, hscratch⟩, hfree.1, hfr.total ▸ hfree.2.1, hused⟩
    rw [hfits.hasTable] at hhas
    rw [hfits.tableFrame]
    by_cases hip : i = p.1
    · rw [hip, update_self]
      exact hne
    · rw [update_of_ne hip] at hhas ⊢
      exact hnotTable i hhas
  refine ⟨?_, fun i hi hhas => ?_, fun q e' hq => ?_, fun q e' hq => ?_, fun q q' e₁ e₂ hq hq' heq => ?_,
    fun i hi hhas => ?_, fun hs => ?_⟩
  · exact hfits.sound h.sound hfr.counted hfr.initialized (hfr.used _ h.sound.directory) ht
      fun j hj _ hhas => hfr.used _ (h.sound.tables j hj hhas).1
  · rw [hfits.hasTable] at hhas
    rw [install_directory, hfits.ram_directory]
    by_cases hip : i = p.1
    · rw [hip, update_self]
      exact hdirUser
    · rw [update_of_ne hip] at hhas ⊢
      exact h.userTables i hi hhas
  · rw [hpage] at hq
    split at hq
    · rename_i hqp
      exact hqp ▸ hfits.user
    · exact h.inRange q e' hq
  · rw [hpage] at hq
    split at hq
    · rw [← (userEntry_eq_some.mp hq).2.2]
      exact hself
    · exact hkeep (h.frames q e' hq) (h.page_ne_table hplace hq)
  · rw [hpage] at hq hq'
    split at hq <;> split at hq'
    · rename_i hqp hqp'
      rw [hqp, hqp']
    · rename_i hqp hqp'
      rw [← (userEntry_eq_some.mp hq).2.2] at heq
      exact absurd heq.symm (hother q' e₂ hqp' hq')
    · rename_i hqp hqp'
      rw [← (userEntry_eq_some.mp hq').2.2] at heq
      exact absurd heq (hother q e₁ hqp hq)
    · exact h.distinct q q' e₁ e₂ hq hq' heq
  · have hip : i ≠ p.1 := fun hc => hi (hc ▸ hfits.user)
    rw [hfits.hasTable, update_of_ne hip] at hhas
    rw [hfits.tableFrame, update_of_ne hip]
    obtain ⟨hfree, hdirectory, htable⟩ := h.kernelTables i hi hhas
    refine ⟨hpool hfree, hdirectory, fun hc => ?_⟩
    rcases htables hc with hc | hc
    · exact htable hc
    · exact hplace.elim (hc ▸ htable) (hc ▸ hfree)
  · obtain ⟨hfree, hdirectory, htable, hsource, hdest⟩ := h.scratch hs
    have hst : frameOf m.kernelScratchTable ≠ t := by
      rintro hc
      exact hplace.elim (hc ▸ htable) (hc ▸ hfree)
    have hram : (m.install fr t w p dirEntry e).ram (frameOf m.kernelScratchTable) =
        m.ram (frameOf m.kernelScratchTable) := install_ram_other hst hdirectory
    refine ⟨hpool hfree, hdirectory, fun hc => ?_, ?_, ?_⟩
    · exact (htables hc).elim htable hst
    · exact (congrFun hram 0).trans hsource
    · exact (congrFun hram 1).trans hdest

/-- What other user pages contain is not written. -/
theorem install_content (h : m.UserPages) (hplace : m.IsTable t ∨ Pool m.frames t) (hq : m.userPage q = some e') :
    (m.install fr t w p dirEntry e).ram (frameOf e') = m.ram (frameOf e') :=
  install_ram_other (h.page_ne_table hplace hq) (h.frames q e' hq).notDirectory

end UserPages

/-! ### Writing frames that are no tables -/

/-- Writing a frame that is no table leaves the directory. -/
theorem Plain.ram_directory (hg : m.Plain g) : (m.writeFrame g w).ram m.directory = m.ram m.directory :=
  update_of_ne hg.notDirectory.symm ..

/-- And which tables there are. -/
theorem Plain.hasTable (hg : m.Plain g) : (m.writeFrame g w).hasTable = m.hasTable := by
  funext i
  exact congrArg (fun row : TableIndex → Word => isPresent (row i)) hg.ram_directory

/-- And where they are. -/
theorem Plain.tableFrame (hg : m.Plain g) : (m.writeFrame g w).tableFrame = m.tableFrame := by
  funext i
  exact congrArg (fun row : TableIndex → Word => frameOf (row i)) hg.ram_directory

/-- And the entries of all pages. -/
theorem Plain.mappedEntry (hg : m.Plain g) : (m.writeFrame g w).mappedEntry = m.mappedEntry := by
  funext q
  unfold Memory.mappedEntry
  rw [hg.hasTable, hg.tableFrame]
  by_cases hhas : m.hasTable q.1 = true
  · have hrow : (m.writeFrame g w).ram (m.tableFrame q.1) = m.ram (m.tableFrame q.1) :=
      update_of_ne (hg.notTable q.1 hhas) ..
    rw [if_pos hhas, if_pos hhas, hrow]
  · rw [if_neg hhas, if_neg hhas]

/-- And the words of the tables. -/
theorem Plain.tableEntry (hg : m.Plain g) (q : PageSlot) :
    (m.writeFrame g w).tableEntry m.directory q = m.tableEntry m.directory q := by
  unfold Memory.tableEntry
  rw [hg.ram_directory]
  by_cases hhas : isPresent (m.ram m.directory q.1) = true
  · have hrow : (m.writeFrame g w).ram (frameOf (m.ram m.directory q.1)) = m.ram (frameOf (m.ram m.directory q.1)) :=
      update_of_ne (hg.notTable q.1 hhas) ..
    rw [if_pos hhas, if_pos hhas, hrow]
  · rw [if_neg hhas, if_neg hhas]

/-- And all user pages. -/
theorem Plain.userPage (hg : m.Plain g) : (m.writeFrame g w).userPage = m.userPage := by
  funext q
  unfold Memory.userPage
  rw [hg.mappedEntry]

/-- And which frames are tables. -/
theorem Plain.isTable (hg : m.Plain g) (f : Nat) : (m.writeFrame g w).IsTable f ↔ m.IsTable f := by
  unfold IsTable
  rw [hg.hasTable, hg.tableFrame]

/-- And which frames may be written so. -/
theorem Plain.plain (hg : m.Plain g) : (m.writeFrame g w).Plain f ↔ m.Plain f := by
  have htables : (∀ i, (m.writeFrame g w).hasTable i = true → (m.writeFrame g w).tableFrame i ≠ f) ↔
      ∀ i, m.hasTable i = true → m.tableFrame i ≠ f := by
    rw [hg.hasTable, hg.tableFrame]
  exact ⟨fun h => ⟨h.notDirectory, htables.mp h.notTable, h.notScratch⟩,
    fun h => ⟨h.notDirectory, htables.mpr h.notTable, h.notScratch⟩⟩

/-- The books stay right. -/
theorem ActiveSound.writeFrame (hs : m.ActiveSound) (hg : m.Plain g) (w : TableIndex → Word) :
    (m.writeFrame g w).ActiveSound := by
  refine ⟨hs.counted, hs.initialized, hs.active, hs.directory, fun i hi hhas => ?_,
    fun i j hi hj hhas hhas' heq => ?_⟩
  · rw [hg.hasTable] at hhas
    rw [hg.tableFrame]
    obtain ⟨hused, hwritable, hne⟩ := hs.tables i hi hhas
    exact ⟨hused, (congrArg (fun row => isWritable (row i)) hg.ram_directory).trans hwritable, hne⟩
  · rw [hg.hasTable] at hhas hhas'
    rw [hg.tableFrame] at heq
    exact hs.apart i j hi hj hhas hhas' heq

/-- A frame that is no table is written: no entry changes. -/
theorem UserPages.writeFrame (h : m.UserPages) (hg : m.Plain g) (w : TableIndex → Word) :
    (m.writeFrame g w).UserPages := by
  refine ⟨h.sound.writeFrame hg w, fun i hi hhas => ?_, fun q e hq => ?_, fun q e hq => ?_,
    fun q q' e₁ e₂ hq hq' heq => ?_, fun i hi hhas => ?_, fun hs => ?_⟩
  · rw [hg.hasTable] at hhas
    exact (congrArg (fun row => isUser (row i)) hg.ram_directory).trans (h.userTables i hi hhas)
  · rw [hg.userPage] at hq
    exact h.inRange q e hq
  · rw [hg.userPage] at hq
    have hframe := h.frames q e hq
    exact ⟨hg.plain.mpr hframe.toPlain, hframe.low, hframe.lt, hframe.used⟩
  · rw [hg.userPage] at hq hq'
    exact h.distinct q q' e₁ e₂ hq hq' heq
  · rw [hg.hasTable] at hhas
    rw [hg.tableFrame, hg.isTable]
    exact h.kernelTables i hi hhas
  · obtain ⟨hfree, hdirectory, htable, hsource, hdest⟩ := h.scratch hs
    have hrow : (m.writeFrame g w).ram (frameOf m.kernelScratchTable) = m.ram (frameOf m.kernelScratchTable) :=
      update_of_ne (hg.notScratch hs).symm ..
    exact ⟨hfree, hdirectory, fun hc => htable ((hg.isTable _).mp hc), (congrFun hrow 0).trans hsource,
      (congrFun hrow 1).trans hdest⟩

/-! ### Taking frames -/

/-- Frames are taken that nobody uses. -/
theorem UserPages.withFrames (h : m.UserPages) (hfr : m.frames.KeepsUsed fr) : (m.withFrames fr).UserPages := by
  have hpool {g : Nat} (hg : ¬Pool m.frames g) : ¬Pool fr g := fun hc => hg (hfr.pool hc)
  refine ⟨⟨hfr.counted, hfr.initialized, h.sound.active, hfr.used _ h.sound.directory, fun i hi hhas => ?_,
    h.sound.apart⟩, h.userTables, h.inRange, fun q e hq => ?_, h.distinct, fun i hi hhas => ?_, fun hs => ?_⟩
  · obtain ⟨hused, hrest⟩ := h.sound.tables i hi hhas
    exact ⟨hfr.used _ hused, hrest⟩
  · have hframe := h.frames q e hq
    exact ⟨⟨hframe.notDirectory, hframe.notTable, hframe.notScratch⟩, hframe.low, hfr.total ▸ hframe.lt,
      hfr.used _ hframe.used⟩
  · obtain ⟨hfree, hrest⟩ := h.kernelTables i hi hhas
    exact ⟨hpool hfree, hrest⟩
  · have hidle := h.scratch hs
    exact ⟨hpool hidle.pool, hidle.notDirectory, hidle.notTable, hidle.source, hidle.dest⟩

/-! ### A page with another entry -/

/-- The page at a place has entry `e`, and the other pages are as before. -/
structure Repaged (m m' : Memory) (p : PageSlot) (e : Word) : Prop where
  pages : m'.UserPages
  active : m'.activePageDirectory = m.activePageDirectory
  scratch : m'.kernelScratchTable = m.kernelScratchTable
  mapped : ∀ q, m'.mappedEntry q = if q = p then some e else m.mappedEntry q
  words : ∀ q, q ≠ p → m'.tableEntry m.directory q =
    if m.hasTable p.1 = false ∧ q.1 = p.1 then some 0x02 else m.tableEntry m.directory q
  content : ∀ q e', q ≠ p → m.userPage q = some e' → m'.ram (frameOf e') = m.ram (frameOf e')

/-- The page that has changed. -/
theorem Repaged.userPage_self (h : m.Repaged m' p e) (huser : isUser e = true) : m'.userPage p = some e :=
  userPage_eq_some.mpr ⟨(h.mapped p).trans (if_pos rfl), huser⟩

/-- The pages that have not. -/
theorem Repaged.userPage_other (h : m.Repaged m' p e) (hq : q ≠ p) : m'.userPage q = m.userPage q := by
  unfold userPage
  rw [h.mapped, if_neg hq]

/-- The page itself is written. -/
theorem Repaged.write (h : m.Repaged m' p e) (huser : isUser e = true) (w : TableIndex → Word) :
    m.Repaged (m'.writeFrame (frameOf e) w) p e := by
  have hself := h.userPage_self huser
  have hplain := (h.pages.frames p e hself).toPlain
  have hdirectory : m'.directory = m.directory := congrArg frameOf h.active
  refine ⟨h.pages.writeFrame hplain w, h.active, h.scratch, fun q => ?_, fun q hq => ?_, fun q e' hq hpage => ?_⟩
  · rw [hplain.mappedEntry, h.mapped]
  · rw [← h.words q hq, ← hdirectory]
    exact hplain.tableEntry q
  · have hne : frameOf e' ≠ frameOf e := fun hc =>
      hq (h.pages.distinct q p e' e ((h.userPage_other hq).trans hpage) hself hc)
    rw [writeFrame_ram, update_of_ne hne]
    exact h.content q e' hq hpage

namespace UserPages

/-- A table that is there keeps its words. -/
theorem tableEntry_same (hhas : m.hasTable p.1 = true) :
    (if q.1 = p.1 then some (m.ram (m.tableFrame p.1) q.2) else m.tableEntry m.directory q) =
      if m.hasTable p.1 = false ∧ q.1 = p.1 then some 0x02 else m.tableEntry m.directory q := by
  rw [if_neg fun hc : m.hasTable p.1 = false ∧ q.1 = p.1 => absurd (hhas.symm.trans hc.1) nofun]
  by_cases hq : q.1 = p.1
  · rw [if_pos hq]
    unfold tableEntry
    rw [hq]
    exact (if_pos hhas).symm
  · exact if_neg hq

/-- A page is taken from the allocator and mapped for the user: nothing can be had for it, or for its
table, and nothing changes; or it is mapped, in the lowest free frame. -/
theorem mapFresh (h : m.UserPages) {flags : Word} (hi : inUserRange (dirIndex va))
    (huser : isUser flags = true) :
    m.supply.takePage (dirIndex va) = none ∧ (m.frameAlloc = (0, m) ∨ ∃ f, m.frames.Lowest f ∧
        m.frameAlloc = (frameAddr f, m.withFrames (m.frames.take f)) ∧
        (m.withFrames (m.frames.take f)).pagingMapPageInDirectory m.activePageDirectory va (frameAddr f)
          flags = (false, m.withFrames (m.frames.take f))) ∨
      ∃ f m', m.frames.Lowest f ∧ m.frameAlloc = (frameAddr f, m.withFrames (m.frames.take f)) ∧
        (m.withFrames (m.frames.take f)).pagingMapPageInDirectory m.activePageDirectory va (frameAddr f)
          flags = (true, m') ∧
        m.Repaged m' (pageSlot va) (newEntry f flags) ∧
        m.MapsPage m' (pageSlot va) f (newEntry f flags) := by
  rcases h.sound.map_installs hi huser with hfails | ⟨f, fr, t, w, dirEntry, hf, halloc, hmap, htable, hmaps⟩
  · exact .inl hfails
  obtain ⟨hframe, hpresent, -, huser'⟩ := newEntry_facts (hf.lt_max h.sound.counted) flags
  have hpool : Pool m.frames f := ⟨hf.low, hf.lt, hf.free⟩
  have hself := FrameState.KeepsUsed.refl h.sound.counted h.sound.initialized
  have hplace : m.IsTable t ∨ Pool m.frames t := by
    rcases htable.place with ⟨hhas, rfl, -⟩ | ⟨-, ht, -⟩
    · exact .inl ⟨_, hi, hhas, rfl⟩
    · exact .inr ht
  have htf : t ≠ f := by
    rcases htable.place with ⟨hhas, rfl, -⟩ | ⟨-, -, ht, -⟩
    · exact (h.plain_of_pool hpool).notTable _ hhas
    · exact ht
  have hfr : m.frames.KeepsUsed fr ∧ fr.frameBitmap t = true ∧ fr.frameBitmap f = true := by
    rcases htable.place with ⟨hhas, rfl, -, rfl⟩ | ⟨-, ht, -, rfl, -⟩
    · have htake := hself.take hf.lt hf.free
      exact ⟨htake, htake.used _ (h.sound.tables _ hi hhas).1, update_self ..⟩
    · have htake := hself.take hf.lt hf.free
      have hfree : (m.frames.take f).frameBitmap t = false := by
        rw [FrameState.take_bitmap_of_ne htf, ht.2.2]
      refine ⟨htake.take ht.2.1 hfree, update_self .., ?_⟩
      rw [FrameState.take_bitmap_of_ne htf.symm]
      exact update_self ..
  have hother (q : PageSlot) (e' : Word) (hq : m.userPage q = some e') : frameOf e' ≠ f := by
    rintro rfl
    exact absurd ((h.frames q e' hq).used.symm.trans hf.free) nofun
  refine .inr ⟨f, _, hf, halloc, hmap, ⟨?_, rfl, rfl, fun q => ?_, fun q hq => ?_,
    fun q e' _ => h.install_content hplace⟩, hmaps⟩
  · refine h.install (p := pageSlot va) htable.fits hplace htable.user hfr.1 hfr.2.1 ?_ (.inr ?_) ?_
    · rwa [hframe]
    · rw [hframe]
      exact ⟨hpool, hfr.2.2⟩
    · rw [hframe]
      exact fun q e' _ => hother q e'
  · rw [h.install_mapped (p := pageSlot va) htable.fits hplace]
    unfold presentEntry
    rw [if_pos hpresent]
  · rw [h.install_word (p := pageSlot va) htable.fits hplace hq]
    rcases htable.place with ⟨hhas, rfl, rfl, -⟩ | ⟨hno, -, -, -, rfl⟩
    · exact tableEntry_same hhas
    · rw [show m.hasTable (pageSlot va).1 = false from hno]
      simp only [true_and]

/-- The entry of a user page is replaced, by one for a frame that no other page has. -/
theorem writeEntry (h : m.UserPages) (hpage : m.userPage p = some e) (hfr : m.frames.KeepsUsed fr)
    (hframe : m.PageFrame (frameOf e')) (hother : ∀ q e₁, q ≠ p → m.userPage q = some e₁ → frameOf e₁ ≠ frameOf e')
    (hpresent : isPresent e' = true) (flag : Word) (hflag : ∀ k, 12 ≤ k → bit k flag = false) :
    m.Repaged (m.install fr (m.tableFrame p.1) (m.ram (m.tableFrame p.1)) p (m.ram m.directory p.1 ||| flag) e')
      p e' := by
  obtain ⟨hhas, -, -, -⟩ := userPage_some hpage
  have hi := h.inRange p e hpage
  have hfits := h.sound.fits hi hhas flag hflag
  have hplace : m.IsTable (m.tableFrame p.1) ∨ Pool m.frames (m.tableFrame p.1) := .inl ⟨p.1, hi, hhas, rfl⟩
  have hdirUser : isUser (m.ram m.directory p.1 ||| flag) = true := by
    show bit 2 _ = true
    rw [bit_or, show bit 2 (m.ram m.directory p.1) = true from h.userTables p.1 hi hhas, Bool.true_or]
  refine ⟨?_, rfl, rfl, fun q => ?_, fun q hq => ?_, fun q e' _ => h.install_content hplace⟩
  · exact h.install hfits hplace hdirUser hfr (hfr.used _ (h.sound.tables _ hi hhas).1) (hframe.notTable p.1 hhas)
      (.inl hframe) hother
  · rw [h.install_mapped hfits hplace]
    unfold presentEntry
    rw [if_pos hpresent]
  · rw [h.install_word hfits hplace hq, tableEntry_same hhas]

/-- The flags of a user page are changed. -/
theorem changeFlags (h : m.UserPages) (hpage : m.userPage p = some e) (hframe : frameOf e' = frameOf e)
    (hpresent : isPresent e' = true) (flag : Word) (hflag : ∀ k, 12 ≤ k → bit k flag = false) :
    m.Repaged (m.install m.frames (m.tableFrame p.1) (m.ram (m.tableFrame p.1)) p
      (m.ram m.directory p.1 ||| flag) e') p e' := by
  refine h.writeEntry hpage (FrameState.KeepsUsed.refl h.sound.counted h.sound.initialized) ?_
    (fun q e₁ hq hpage' hc => ?_) hpresent flag hflag
  · rw [hframe]
    exact h.frames p e hpage
  · exact hq (h.distinct q p e₁ e hpage' hpage (hc.trans hframe))

end UserPages

/-- A machine of 4 MiB has 256 frames to hand out. -/
theorem small_freeBelow : (frameInit .small).freeBelow 1024 = 256 := by
  have hall : (frameInit .small).freeBelow 1024 =
      ((frameInit .small).frameRange firstFrame 1024).length := by
    refine List.countP_eq_length.mpr fun f hf => ?_
    obtain ⟨hlow, hlt, -⟩ := FrameState.mem_frameRange.mp hf
    have hfree := small_free hlow hlt
    simp only [hfree, Bool.not_false]
  rw [hall]
  unfold FrameState.frameRange
  rw [List.length_range', small_total]
  decide

/-- A directory without tables, on a machine with 256 free frames. -/
def blank : Memory where
  frames := frameInit .small
  ram := fun _ _ => 0x02
  activePageDirectory := 0x100000
  kernelScratchTable := 0x104000

/-- There is no table. -/
theorem blank_hasTable (i : TableIndex) : blank.hasTable i = false := by
  show isPresent 0x02 = false
  decide

/-- And so no page. -/
theorem blank_mappedEntry (p : PageSlot) : blank.mappedEntry p = none :=
  if_neg (by rw [blank_hasTable]; decide)

/-- The directory is one of a process. -/
theorem blank_userPages : blank.UserPages := by
  obtain ⟨hcounted, hinit⟩ := frameInit_counted .small
  have hnoTable {i : TableIndex} (h : blank.hasTable i = true) : False :=
    Bool.false_ne_true ((blank_hasTable i).symm.trans h)
  have hnoPage {p : PageSlot} {e : Word} (h : blank.userPage p = some e) : False := by
    unfold userPage at h
    rw [blank_mappedEntry] at h
    cases h
  have hsound : blank.ActiveSound := ⟨hcounted, hinit, by decide, small_reserved (by decide),
    fun i _ h => (hnoTable h).elim, fun i j _ _ h => (hnoTable h).elim⟩
  refine ⟨hsound, fun i _ h => (hnoTable h).elim, fun p e h => (hnoPage h).elim, fun p e h => (hnoPage h).elim,
    fun p q e e' h => (hnoPage h).elim, fun i _ h => (hnoTable h).elim, fun _ => ?_⟩
  exact ⟨fun hc => absurd hc.1 (by decide), by decide, fun ⟨i, _, h, _⟩ => hnoTable h, rfl, rfl⟩

/-- All frames are below 4 MiB. -/
theorem blank_supply : blank.supply.low = 256 ∧ blank.supply.all = 256 := by
  refine ⟨supply_low.trans small_freeBelow, supply_all.trans ?_⟩
  show (frameInit .small).freeBelow (frameInit .small).totalFrames = 256
  rw [small_total, small_freeBelow]

end Memory

end AgenticOs
