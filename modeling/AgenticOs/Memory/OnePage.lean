import AgenticOs.Memory.ActivePages

/-!
# Mapping and unmapping one page

What `paging_map_page_in_directory` and `paging_unmap_page_in_directory` do to the entries of all pages of a
directory, whatever process it is of. It is enough that the tables of the directory are allocated frames of
their own (`OwnTables`): a table that is made on demand is then none of them.

* **Mapping** (`OwnTables.map_cases`): it fails and changes no page, or changes the entry of the page, where a
  table made for it has absent entries (`mappedAt`).
* **Unmapping** (`OwnTables.unmap`): the entry of the page is absent, and no other page has changed.
* **Main result** (`one_page_mapped`): after a page is mapped it translates to the frame with the flags that
  were asked for, every other page translates as before, and unmapping it gives back the frame's address.
* **Limits** (`mapping_changes_neighbours`): a page next to the mapped one gets the flags `0x02` of the absent
  entries of a new table; and in a directory whose own frame is free, the new table takes its place.
-/

namespace AgenticOs

open Function Lib

/-! ### The words of an entry -/

/-- The mask of the address has the high twenty bits. -/
theorem bit_addrMask (i : Nat) : bit i addrMask = (decide (12 ≤ i) && decide (i < 32)) := bit_pageMask i

/-- The address of an entry made of an aligned address and flags. -/
theorem or_and_addrMask {a w : Word} (ha : a.toNat % 4096 = 0) (hw : ∀ i, 12 ≤ i → bit i w = false) :
    (a ||| w) &&& addrMask = a := by
  refine eq_of_bits fun i => ?_
  rw [bit_and, bit_or, bit_addrMask]
  by_cases hi : i < 12
  · rw [bit_of_aligned ha hi]
    simp [Nat.not_le.mpr hi]
  · rw [hw i (by omega)]
    by_cases h32 : i < 32
    · simp [h32, show 12 ≤ i by omega]
    · rw [bit_of_ge (by omega)]
      simp

/-- And its flags. -/
theorem or_and_flagMask {a w : Word} (ha : a.toNat % 4096 = 0) (hw : ∀ i, 12 ≤ i → bit i w = false) :
    (a ||| w) &&& flagMask = w := by
  refine eq_of_bits fun i => ?_
  rw [bit_and, bit_or, bit_flagMask]
  by_cases hi : i < 12
  · rw [bit_of_aligned ha hi]
    simp [hi]
  · rw [hw i (by omega)]
    simp [hi]

/-- Flags are low bits. -/
theorem bit_flags_high (flags : Word) {i : Nat} (hi : 12 ≤ i) :
    bit i (flags &&& flagMask ||| pagePresent) = false := by
  rw [bit_or, bit_and, bit_flagMask, bit_pagePresent]
  simp [Nat.not_lt.mpr hi, show 0 ≠ i by omega]

/-- Further bits keep an entry present. -/
theorem isPresent_or {e : Word} (h : isPresent e = true) (w : Word) : isPresent (e ||| w) = true := by
  show bit 0 (e ||| w) = true
  rw [bit_or, show bit 0 e = true from h, Bool.true_or]

/-- The address of a byte of a page. -/
theorem toNat_or_offset {a : Word} (ha : a.toNat % 4096 = 0) (va : Word) :
    (a ||| va &&& flagMask).toNat = a.toNat + va.toNat % 4096 := by
  have hmask : (va &&& flagMask).toNat = va.toNat % 4096 := by
    show (va &&& (0xFFF : Word)).toNat = _
    rw [BitVec.toNat_and]
    exact Nat.and_two_pow_sub_one_eq_mod va.toNat 12
  have hsplit := @Nat.two_pow_add_eq_or_of_lt 12 (va.toNat % 4096) (Nat.mod_lt va.toNat (by decide : 0 < 2 ^ 12))
    (a.toNat / 4096)
  have hmul : 2 ^ 12 * (a.toNat / 4096) = a.toNat := by omega
  rw [hmul] at hsplit
  rw [BitVec.toNat_or, hmask]
  exact hsplit.symm

namespace Memory

variable {m : Memory} {d f t : Nat} {i : TableIndex} {p q : PageSlot} {cr3 va va' e : Word}

/-- The entry of a page in its table, if directory `d` has the table. -/
def tableEntry (m : Memory) (d : Nat) (p : PageSlot) : Option Word :=
  if isPresent (m.ram d p.1) then some (m.ram (frameOf (m.ram d p.1)) p.2) else none

/-- The tables of a directory are allocated frames of their own. -/
structure OwnTables (m : Memory) (d : Nat) : Prop where
  directory : m.frames.frameBitmap d = true
  allocated : ∀ i, isPresent (m.ram d i) = true → m.frames.frameBitmap (frameOf (m.ram d i)) = true
  notDirectory : ∀ i, isPresent (m.ram d i) = true → frameOf (m.ram d i) ≠ d
  apart : ∀ i j, isPresent (m.ram d i) = true → isPresent (m.ram d j) = true →
    frameOf (m.ram d i) = frameOf (m.ram d j) → i = j

/-! ### Reading entries -/

/-- What an entry translates an address to. -/
def translatedBy (va : Word) : Option Word → Word
  | some e => if isPresent e then e &&& addrMask ||| va &&& flagMask else 0
  | none => 0

/-- The flags that are read from an entry. -/
def flagsOf : Option Word → Word
  | some e => e &&& flagMask
  | none => 0

/-- An address is translated by the entry of its page. -/
theorem physicalAddress_eq (hcr3 : cr3 ≠ 0) (va : Word) :
    m.pagingGetPhysicalAddressInDirectory cr3 va =
      translatedBy va (m.tableEntry (frameOf cr3) (pageSlot va)) := by
  unfold pagingGetPhysicalAddressInDirectory tableEntry entry pageSlot
  simp only [hcr3, false_or, test_pagePresent, frameOf_and_addrMask]
  by_cases hpresent : isPresent (m.ram (frameOf cr3) (dirIndex va)) = true
  · rw [if_neg (by rw [hpresent]; exact nofun), if_pos hpresent]
    rfl
  · rw [if_pos (by simpa using hpresent), if_neg hpresent]
    rfl

/-- Its flags are those of this entry. -/
theorem pageFlags_eq (hcr3 : cr3 ≠ 0) (va : Word) :
    m.pagingGetPageFlagsInDirectory cr3 va = flagsOf (m.tableEntry (frameOf cr3) (pageSlot va)) := by
  unfold pagingGetPageFlagsInDirectory tableEntry entry pageSlot
  simp only [hcr3, false_or, test_pagePresent, frameOf_and_addrMask]
  by_cases hpresent : isPresent (m.ram (frameOf cr3) (dirIndex va)) = true
  · rw [if_neg (by rw [hpresent]; exact nofun), if_pos hpresent]
    rfl
  · rw [if_pos (by simpa using hpresent), if_neg hpresent]
    rfl

/-! ### Writing entries -/

/-- An entry of a table is written. -/
theorem OwnTables.writeEntry (h : m.OwnTables d) (hpresent : isPresent (m.ram d p.1) = true) (e : Word) :
    (m.writeFrame (frameOf (m.ram d p.1)) (update (m.ram (frameOf (m.ram d p.1))) p.2 e)).OwnTables d ∧
      (m.writeFrame (frameOf (m.ram d p.1)) (update (m.ram (frameOf (m.ram d p.1))) p.2 e)).tableEntry d =
        update (m.tableEntry d) p (some e) := by
  have hdirectory : (m.writeFrame (frameOf (m.ram d p.1))
      (update (m.ram (frameOf (m.ram d p.1))) p.2 e)).ram d = m.ram d :=
    update_of_ne (h.notDirectory _ hpresent).symm ..
  refine ⟨⟨h.directory, ?_, ?_, ?_⟩, funext fun q => ?_⟩
  · rw [hdirectory]
    exact h.allocated
  · rw [hdirectory]
    exact h.notDirectory
  · rw [hdirectory]
    exact h.apart
  unfold tableEntry
  rw [hdirectory, writeFrame_ram]
  by_cases hq : q.1 = p.1
  · rw [hq, if_pos hpresent, update_self]
    by_cases hqp : q.2 = p.2
    · rw [hqp, update_self, show q = p from Prod.ext hq hqp, update_self]
    · rw [update_of_ne hqp, update_of_ne fun heq => hqp (congrArg Prod.snd heq), hq, if_pos hpresent]
  · rw [update_of_ne fun heq => hq (congrArg Prod.fst heq)]
    split
    · rename_i hother
      rw [update_of_ne fun heq => hq (h.apart _ _ hother hpresent heq)]
    · rfl

/-- An entry of the directory is written: for the table it had, or for a table of its own. -/
theorem OwnTables.writeTable (h : m.OwnTables d) (hf : m.frames.frameBitmap (frameOf e) = true)
    (hpresent : isPresent e = true) (hd : frameOf e ≠ d)
    (hapart : ∀ j, isPresent (m.ram d j) = true → frameOf (m.ram d j) = frameOf e → j = i) :
    (m.writeFrame d (update (m.ram d) i e)).OwnTables d ∧
      ∀ q, (m.writeFrame d (update (m.ram d) i e)).tableEntry d q =
        if q.1 = i then some (m.ram (frameOf e) q.2) else m.tableEntry d q := by
  have hdirectory : (m.writeFrame d (update (m.ram d) i e)).ram d = update (m.ram d) i e := update_self ..
  refine ⟨⟨h.directory, fun j hj => ?_, fun j hj => ?_, fun j k hj hk heq => ?_⟩, fun q => ?_⟩
  · rw [hdirectory] at hj ⊢
    by_cases hji : j = i
    · rw [hji, update_self]
      exact hf
    · rw [update_of_ne hji] at hj ⊢
      exact h.allocated j hj
  · rw [hdirectory] at hj ⊢
    by_cases hji : j = i
    · rw [hji, update_self]
      exact hd
    · rw [update_of_ne hji] at hj ⊢
      exact h.notDirectory j hj
  · rw [hdirectory] at hj hk heq
    by_cases hji : j = i <;> by_cases hki : k = i
    · rw [hji, hki]
    · rw [hji, update_self, update_of_ne hki] at heq
      rw [update_of_ne hki] at hk
      exact absurd (hapart k hk heq.symm) hki
    · rw [hki, update_self, update_of_ne hji] at heq
      rw [update_of_ne hji] at hj
      exact absurd (hapart j hj heq) hji
    · rw [update_of_ne hji] at hj heq
      rw [update_of_ne hki] at hk heq
      exact h.apart j k hj hk heq
  · unfold tableEntry
    rw [hdirectory]
    by_cases hq : q.1 = i
    · rw [hq, update_self, if_pos hpresent, if_pos rfl]
      exact congrArg some (congrFun (update_of_ne hd ..) q.2)
    · rw [update_of_ne hq, if_neg hq]
      split
      · rename_i hother
        exact congrArg some (congrFun (update_of_ne (h.notDirectory _ hother) ..) q.2)
      · rfl

/-- A free frame is taken and filled. -/
theorem OwnTables.takeFrame (h : m.OwnTables d) (hfree : m.frames.frameBitmap f = false)
    (w : TableIndex → Word) :
    ((m.withFrames (m.frames.take f)).writeFrame f w).OwnTables d ∧
      ((m.withFrames (m.frames.take f)).writeFrame f w).tableEntry d = m.tableEntry d ∧ f ≠ d ∧
      ∀ j, isPresent (m.ram d j) = true → frameOf (m.ram d j) ≠ f := by
  have hne {g : Nat} (hg : m.frames.frameBitmap g = true) : g ≠ f := by
    rintro rfl
    exact absurd (hg.symm.trans hfree) nofun
  have hdirectory : ((m.withFrames (m.frames.take f)).writeFrame f w).ram d = m.ram d :=
    update_of_ne (hne h.directory) ..
  have hbitmap {g : Nat} (hg : m.frames.frameBitmap g = true) : (m.frames.take f).frameBitmap g = true := by
    rw [FrameState.take_bitmap_of_ne (hne hg), hg]
  refine ⟨⟨hbitmap h.directory, ?_, ?_, ?_⟩, funext fun q => ?_, (hne h.directory).symm,
    fun j hj => hne (h.allocated j hj)⟩
  · rw [hdirectory]
    exact fun j hj => hbitmap (h.allocated j hj)
  · rw [hdirectory]
    exact h.notDirectory
  · rw [hdirectory]
    exact h.apart
  · unfold tableEntry
    rw [hdirectory]
    split
    · rename_i hpresent
      exact congrArg some (congrFun (update_of_ne (hne (h.allocated _ hpresent)) ..) q.2)
    · rfl

/-! ### The calls -/

/-- The entries after a page is mapped with entry `e`: a table made for it has absent entries. -/
def mappedAt (m : Memory) (d : Nat) (p : PageSlot) (e : Word) (q : PageSlot) : Option Word :=
  if q = p then some e
  else (m.tableEntry d q).or (if q.1 = p.1 then some 0x02 else none)

/-- In a table that is there one entry is replaced. -/
theorem tableEntry_present (hpresent : isPresent (m.ram d p.1) = true) (e : Word) :
    update (m.tableEntry d) p (some e) = m.mappedAt d p e := by
  funext q
  unfold mappedAt
  by_cases hqp : q = p
  · rw [hqp, update_self, if_pos rfl]
  · rw [update_of_ne hqp, if_neg hqp]
    by_cases hq : q.1 = p.1
    · unfold tableEntry
      rw [hq, if_pos hpresent]
      rfl
    · rw [if_neg hq, Option.or_none]

/-- An entry is written through the address of its table. -/
theorem setEntry_eq (m : Memory) (t : Word) (i : TableIndex) (e : Word) :
    m.setEntry (t &&& addrMask) i e = m.writeFrame (frameOf t) (update (m.ram (frameOf t)) i e) := by
  unfold setEntry
  rw [frameOf_and_addrMask]

/-- The page of a directory that has its table. -/
theorem OwnTables.setPage (h : m.OwnTables (frameOf cr3)) (hpresent : isPresent (m.ram (frameOf cr3) p.1) = true)
    (e : Word) :
    (m.setEntry (m.entry (cr3 &&& addrMask) p.1 &&& addrMask) p.2 e).OwnTables (frameOf cr3) ∧
      (m.setEntry (m.entry (cr3 &&& addrMask) p.1 &&& addrMask) p.2 e).tableEntry (frameOf cr3) =
        m.mappedAt (frameOf cr3) p e := by
  obtain ⟨hown, hentry⟩ := h.writeEntry hpresent e
  unfold entry
  rw [frameOf_and_addrMask, setEntry_eq]
  exact ⟨hown, hentry.trans (tableEntry_present hpresent e)⟩

/-- The directory entry of a table gets the flag `PAGE_USER`: no page changes. -/
theorem OwnTables.userTable (h : m.OwnTables (frameOf cr3)) (hpresent : isPresent (m.ram (frameOf cr3) i) = true) :
    (m.setEntry (cr3 &&& addrMask) i (m.entry (cr3 &&& addrMask) i ||| pageUser)).OwnTables (frameOf cr3) ∧
      (m.setEntry (cr3 &&& addrMask) i (m.entry (cr3 &&& addrMask) i ||| pageUser)).tableEntry (frameOf cr3) =
        m.tableEntry (frameOf cr3) := by
  have hframe : frameOf (m.ram (frameOf cr3) i ||| pageUser) = frameOf (m.ram (frameOf cr3) i) :=
    frameOf_congr fun k hk => by rw [bit_or, bit_pageUser_high hk, Bool.or_false]
  have hwrite := h.writeTable (by rw [hframe]; exact h.allocated i hpresent)
    (isPresent_or hpresent pageUser)
    (by rw [hframe]; exact h.notDirectory i hpresent)
    (fun j hj heq => h.apart j i hj hpresent (heq.trans hframe))
  unfold entry
  rw [frameOf_and_addrMask, setEntry_eq]
  refine ⟨hwrite.1, funext fun q => (hwrite.2 q).trans ?_⟩
  unfold tableEntry
  split
  · rename_i hq
    rw [hframe, hq, if_pos hpresent]
  · rfl

/-- A new table: its pages are absent, and no other page changes. -/
theorem OwnTables.newTable (h : m.OwnTables (frameOf cr3)) (hfree : m.frames.frameBitmap f = false) (hf : f < 1024)
    (flags : Word) (i : TableIndex) (habsent : isPresent (m.ram (frameOf cr3) i) = false) :
    let m' := ((m.withFrames (m.frames.take f)).writeFrame f fun _ => 0x02).setEntry (cr3 &&& addrMask) i
      (frameAddr f ||| pagePresent ||| pageWritable ||| flags &&& pageUser)
    m'.OwnTables (frameOf cr3) ∧ isPresent (m'.ram (frameOf cr3) i) = true ∧
      ∀ q, m'.tableEntry (frameOf cr3) q =
        (m.tableEntry (frameOf cr3) q).or (if q.1 = i then some 0x02 else none) := by
  obtain ⟨hframe, hpresent, -, -⟩ := newTableEntry_facts (show f < 1048576 by omega) flags
  obtain ⟨hown, hentry, hd, hapart⟩ := h.takeFrame hfree fun _ => 0x02
  have hdirectory : ((m.withFrames (m.frames.take f)).writeFrame f fun _ => 0x02).ram (frameOf cr3) =
      m.ram (frameOf cr3) := update_of_ne hd.symm ..
  have hwrite := @writeTable _ _ i _ hown (by rw [hframe]; exact update_self ..) hpresent
    (by rw [hframe]; exact hd) (fun j hj heq => by
      rw [hdirectory] at hj heq
      exact absurd (heq.trans hframe) (hapart j hj))
  dsimp only
  rw [setEntry_eq]
  refine ⟨hwrite.1, ?_, fun q => (hwrite.2 q).trans ?_⟩
  · rw [writeFrame_ram, update_self, update_self]
    exact hpresent
  · rw [hentry, hframe]
    by_cases hq : q.1 = i
    · rw [if_pos hq, if_pos hq]
      have hnone : m.tableEntry (frameOf cr3) q = none := by
        unfold tableEntry
        rw [hq, habsent, if_neg nofun]
      rw [hnone, Option.none_or]
      have hword : ((m.withFrames (m.frames.take f)).writeFrame f fun _ => 0x02).ram f = fun _ => 0x02 :=
        update_self ..
      rw [hword]
    · rw [if_neg hq, if_neg hq, Option.or_none]

/-- What `paging_map_page_in_directory` does to the pages of a directory. -/
theorem OwnTables.map_cases (h : m.OwnTables (frameOf cr3)) (hcr3 : cr3 ≠ 0) (va flags : Word) {pa : Word}
    (hpa : pa.toNat % 4096 = 0) :
    (∃ m', m.pagingMapPageInDirectory cr3 va pa flags = (true, m') ∧ m'.OwnTables (frameOf cr3) ∧
        m'.tableEntry (frameOf cr3) = m.mappedAt (frameOf cr3) (pageSlot va)
          (pa &&& addrMask ||| flags &&& flagMask ||| pagePresent)) ∨
      ∃ m', m.pagingMapPageInDirectory cr3 va pa flags = (false, m') ∧ m'.ram = m.ram := by
  unfold pagingMapPageInDirectory
  dsimp only
  rw [if_neg (not_or.mpr ⟨hcr3, not_not.mpr hpa⟩), test_pagePresent, test_pageUser]
  have hread : m.entry (cr3 &&& addrMask) (dirIndex va) = m.ram (frameOf cr3) (pageSlot va).1 := by
    unfold entry
    rw [frameOf_and_addrMask]
    rfl
  rcases hpresent : isPresent (m.entry (cr3 &&& addrMask) (dirIndex va)) with _ | _
  · rw [if_pos (by rfl)]
    unfold allocatorAllocPageTable pagingAllocFrame frameAllocBelow
    rcases m.frames.frameAllocBelow_cases identityMappedLimit with ⟨hnone, -⟩ | ⟨f, hlow, hlim, -, hfree, -, hsome⟩
    · rw [hnone]
      exact .inr ⟨_, rfl, rfl⟩
    have hlt : f < 1024 := by
      have : identityMappedLimit / frameSize = 1024 := by decide
      omega
    have hpos : 0 < f := by
      simp only [firstFrame] at hlow
      omega
    rw [hread] at hpresent
    obtain ⟨hown, htable, hentry⟩ := h.newTable hfree hlt flags (pageSlot va).1 hpresent
    obtain ⟨hown', hentry'⟩ := hown.setPage htable
      (pa &&& addrMask ||| flags &&& flagMask ||| pagePresent)
    rw [hsome]
    dsimp only
    rw [if_neg (frameAddr_ne_zero hpos (by omega))]
    dsimp only
    rw [if_neg (frameAddr_ne_zero hpos (by omega)), fillTable_eq, frameOf_frameAddr (by omega)]
    refine .inl ⟨_, rfl, hown', hentry'.trans (funext fun q => ?_)⟩
    unfold mappedAt
    rw [hentry]
    split
    · rfl
    · split <;> simp
  · rw [if_neg nofun]
    rcases isUser flags with _ | _
    · obtain ⟨hown, hentry⟩ := h.setPage (hread ▸ hpresent) (pa &&& addrMask ||| flags &&& flagMask ||| pagePresent)
      rw [if_neg nofun]
      exact .inl ⟨_, rfl, hown, hentry⟩
    · obtain ⟨hown, hentry⟩ := h.userTable (hread ▸ hpresent)
      have htable : isPresent ((m.setEntry (cr3 &&& addrMask) (pageSlot va).1
          (m.entry (cr3 &&& addrMask) (pageSlot va).1 ||| pageUser)).ram (frameOf cr3) (pageSlot va).1) = true := by
        rw [setEntry_eq, writeFrame_ram, update_self, update_self]
        exact isPresent_or hpresent pageUser
      obtain ⟨hown', hentry'⟩ := hown.setPage htable (pa &&& addrMask ||| flags &&& flagMask ||| pagePresent)
      rw [if_pos rfl]
      refine .inl ⟨_, rfl, hown', hentry'.trans ?_⟩
      unfold mappedAt
      rw [hentry]

/-- What `paging_unmap_page_in_directory` does to the pages of a directory. -/
theorem OwnTables.unmap (h : m.OwnTables (frameOf cr3)) (hcr3 : cr3 ≠ 0)
    (hentry : m.tableEntry (frameOf cr3) (pageSlot va) = some e) :
    (m.pagingUnmapPageInDirectory cr3 va).1 = e &&& addrMask ∧
      (m.pagingUnmapPageInDirectory cr3 va).2.tableEntry (frameOf cr3) =
        update (m.tableEntry (frameOf cr3)) (pageSlot va) (some pageWritable) := by
  unfold tableEntry at hentry
  split at hentry
  · rename_i hpresent
    have hwrite := (h.writeEntry hpresent pageWritable).2
    unfold pagingUnmapPageInDirectory entry
    simp only [hcr3, false_or, test_pagePresent, frameOf_and_addrMask, setEntry_eq]
    have htable : isPresent (m.ram (frameOf cr3) (dirIndex va)) = true := hpresent
    rw [if_neg (by rw [htable]; exact nofun)]
    exact ⟨congrArg (· &&& addrMask) (Option.some.inj hentry), hwrite⟩
  · cases hentry

/-! ### One page -/

/-- The addresses of one entry of the directory are those of 4 MiB. -/
theorem dirIndex_eq_iff : dirIndex va' = dirIndex va ↔ va'.toNat / 4194304 = va.toNat / 4194304 := by
  have := va.isLt
  have := va'.isLt
  simp only [dirIndex, Fin.mk.injEq]
  omega

/-- The entry that a page is mapped with. -/
theorem pageEntry_words {pa : Word} (hpa : pa.toNat % 4096 = 0) (flags : Word) :
    let e := pa &&& addrMask ||| flags &&& flagMask ||| pagePresent
    isPresent e = true ∧ e &&& addrMask = pa ∧ e &&& flagMask = flags &&& flagMask ||| pagePresent := by
  have hself : pa &&& addrMask = pa := by
    have h := or_and_addrMask (w := 0) hpa fun i _ => by unfold bit; simp
    simpa using h
  dsimp only
  rw [hself, BitVec.or_assoc]
  refine ⟨?_, or_and_addrMask hpa fun _ => bit_flags_high flags, or_and_flagMask hpa fun _ => bit_flags_high flags⟩
  show bit 0 _ = true
  simp [bit_pagePresent]

/-- **Mapping and unmapping one page affect only that page.** The tables of the directory are allocated
frames of their own, as is the directory. After a page is mapped it translates to the given frame with the
given flags; every other page translates as before, and has the same flags unless the page needed a new
table: then the other pages of its 4 MiB have the absent entry `0x02`. A call that fails changes nothing.
Unmapping returns the frame, leaves the page without translation and changes no other page. -/
theorem one_page_mapped {m : Memory} {cr3 va pa flags : Word} (hcr3 : cr3 ≠ 0)
    (hown : m.OwnTables (frameOf cr3)) (hpa : pa.toNat % 4096 = 0) :
    (∀ m', m.pagingMapPageInDirectory cr3 va pa flags = (true, m') →
      (∀ va' : Word, va'.toNat / 4096 = va.toNat / 4096 →
        (m'.pagingGetPhysicalAddressInDirectory cr3 va').toNat = pa.toNat + va'.toNat % 4096 ∧
        m'.pagingGetPageFlagsInDirectory cr3 va' = flags &&& flagMask ||| pagePresent) ∧
      (∀ va' : Word, va'.toNat / 4096 ≠ va.toNat / 4096 →
        m'.pagingGetPhysicalAddressInDirectory cr3 va' = m.pagingGetPhysicalAddressInDirectory cr3 va' ∧
        m'.pagingGetPageFlagsInDirectory cr3 va' =
          if isPresent (m.entry cr3 (dirIndex va)) = false ∧ va'.toNat / 4194304 = va.toNat / 4194304 then 0x02
          else m.pagingGetPageFlagsInDirectory cr3 va') ∧
      ∀ r m'', m'.pagingUnmapPageInDirectory cr3 va = (r, m'') →
        r = pa ∧
        (∀ va' : Word, va'.toNat / 4096 = va.toNat / 4096 →
          m''.pagingGetPhysicalAddressInDirectory cr3 va' = 0 ∧
          isPresent (m''.pagingGetPageFlagsInDirectory cr3 va') = false) ∧
        ∀ va' : Word, va'.toNat / 4096 ≠ va.toNat / 4096 →
          m''.pagingGetPhysicalAddressInDirectory cr3 va' = m'.pagingGetPhysicalAddressInDirectory cr3 va' ∧
          m''.pagingGetPageFlagsInDirectory cr3 va' = m'.pagingGetPageFlagsInDirectory cr3 va') ∧
    ∀ m', m.pagingMapPageInDirectory cr3 va pa flags = (false, m') → ∀ va',
      m'.pagingGetPhysicalAddressInDirectory cr3 va' = m.pagingGetPhysicalAddressInDirectory cr3 va' ∧
      m'.pagingGetPageFlagsInDirectory cr3 va' = m.pagingGetPageFlagsInDirectory cr3 va' := by
  obtain ⟨hpresent, haddr, hflags⟩ := pageEntry_words hpa flags
  simp only [physicalAddress_eq hcr3, pageFlags_eq hcr3]
  rcases hown.map_cases hcr3 va flags hpa with ⟨m₁, hmap, hown₁, hentry₁⟩ | ⟨m₁, hmap, hram⟩
  · refine ⟨fun m' hrun => ?_, fun m' hrun => ?_⟩
    · obtain rfl : m₁ = m' := congrArg Prod.snd (hmap.symm.trans hrun)
      have hself : m₁.tableEntry (frameOf cr3) (pageSlot va) =
          some (pa &&& addrMask ||| flags &&& flagMask ||| pagePresent) := by
        rw [hentry₁]
        exact if_pos rfl
      obtain ⟨hr, hentry₂⟩ := hown₁.unmap hcr3 hself
      refine ⟨fun va' hsame => ?_, fun va' hother => ?_, fun r m'' hunmap => ?_⟩
      · rw [pageSlot_eq_iff.mpr hsame, hself]
        unfold translatedBy flagsOf
        dsimp only
        rw [if_pos hpresent, haddr, hflags, toNat_or_offset hpa]
        exact ⟨rfl, rfl⟩
      · have hslot : pageSlot va' ≠ pageSlot va := fun h => hother (pageSlot_eq_iff.mp h)
        have hnew : m₁.tableEntry (frameOf cr3) (pageSlot va') = _ :=
          (congrFun hentry₁ _).trans (if_neg hslot)
        have hread : m.entry cr3 (dirIndex va) = m.ram (frameOf cr3) (dirIndex va) := rfl
        rw [hnew, hread]
        rcases hold : m.tableEntry (frameOf cr3) (pageSlot va') with _ | e
        · -- the page had no table
          have habsent : isPresent (m.ram (frameOf cr3) (dirIndex va')) = false := by
            unfold tableEntry at hold
            split at hold
            · cases hold
            · rename_i habsent
              exact Bool.eq_false_of_not_eq_true habsent
          by_cases hdir : dirIndex va' = dirIndex va
          · rw [if_pos (show (pageSlot va').1 = (pageSlot va).1 from hdir),
              if_pos ⟨hdir ▸ habsent, dirIndex_eq_iff.mp hdir⟩]
            exact ⟨rfl, rfl⟩
          · rw [if_neg (show (pageSlot va').1 ≠ (pageSlot va).1 from hdir),
              if_neg fun h => hdir (dirIndex_eq_iff.mpr h.2)]
            exact ⟨rfl, rfl⟩
        · have htable : isPresent (m.ram (frameOf cr3) (dirIndex va')) = true := by
            unfold tableEntry at hold
            split at hold
            · assumption
            · cases hold
          rw [Option.some_or, if_neg]
          · exact ⟨rfl, rfl⟩
          · rintro ⟨habsent, hdir⟩
            rw [← dirIndex_eq_iff.mpr hdir, htable] at habsent
            cases habsent
      · rw [hunmap] at hr hentry₂
        refine ⟨hr.trans haddr, fun va' hsame => ?_, fun va' hother => ?_⟩
        · rw [hentry₂, pageSlot_eq_iff.mpr hsame, update_self]
          exact ⟨rfl, rfl⟩
        · rw [hentry₂, update_of_ne fun h => hother (pageSlot_eq_iff.mp h)]
          exact ⟨rfl, rfl⟩
    · rw [hmap] at hrun
      cases hrun
  · refine ⟨fun m' hrun => ?_, fun m' hrun va' => ?_⟩
    · rw [hmap] at hrun
      cases hrun
    · obtain rfl : m₁ = m' := congrArg Prod.snd (hmap.symm.trans hrun)
      unfold tableEntry
      rw [hram]
      exact ⟨rfl, rfl⟩

/-- A directory without tables, in frame 800, on a machine with 4 MiB. -/
def emptyDirectory : Memory where
  frames := ⟨fun f => f == 800, fun f => if f = 800 then 1 else 0, 1024, 1, true⟩
  ram := fun _ _ => 0x02
  activePageDirectory := 0x320000
  kernelScratchTable := 0

/-- The directory has no table, so none is shared. -/
theorem emptyDirectory_ownTables : emptyDirectory.OwnTables (frameOf 0x320000) := by
  have habsent (i : TableIndex) : ¬isPresent (emptyDirectory.ram (frameOf 0x320000) i) = true := by
    show ¬isPresent 0x02 = true
    decide
  exact ⟨by decide, fun i hi => absurd hi (habsent i), fun i hi => absurd hi (habsent i),
    fun i j hi => absurd hi (habsent i)⟩

/-- A page can be mapped there. -/
theorem emptyDirectory_maps : ∃ m', emptyDirectory.pagingMapPageInDirectory 0x320000 0x40000000 0x600000 0x07 =
    (true, m') :=
  ⟨_, Prod.ext (show (emptyDirectory.pagingMapPageInDirectory 0x320000 0x40000000 0x600000 0x07).1 = true by
    decide) rfl⟩

/-- It is translated, and the other pages of its table are not. -/
theorem one_page_mapped_empty : ∃ m',
    emptyDirectory.pagingMapPageInDirectory 0x320000 0x40000000 0x600000 0x07 = (true, m') ∧
      ∀ va' : Word, va'.toNat / 4096 = (0x40000000 : Word).toNat / 4096 →
        (m'.pagingGetPhysicalAddressInDirectory 0x320000 va').toNat =
            (0x600000 : Word).toNat + va'.toNat % 4096 ∧
          m'.pagingGetPageFlagsInDirectory 0x320000 va' = 0x07 &&& flagMask ||| pagePresent := by
  obtain ⟨m', hmap⟩ := emptyDirectory_maps
  have hcr3 : (0x320000 : Word) ≠ 0 := by decide
  exact ⟨m', hmap, ((one_page_mapped hcr3 emptyDirectory_ownTables (by decide)).1 m' hmap).1⟩

/-- A directory in frame 800, which is the only free frame. Its one table maps the first page. -/
def freeDirectory : Memory where
  frames := ⟨fun f => f != 800, fun f => if f = 800 then 0 else 1, 1024, 1023, true⟩
  ram := fun f i => if f = 800 ∧ i = 0 then 0x321003 else if f = 801 ∧ i = 0 then 0x500003 else 0x02
  activePageDirectory := 0
  kernelScratchTable := 0

/-- The directory has one table. -/
theorem freeDirectory_table {i : TableIndex} (h : isPresent (freeDirectory.ram (frameOf 0x320000) i) = true) :
    i = 0 := by
  by_contra hi
  have hword : freeDirectory.ram (frameOf 0x320000) i = 0x02 := by
    show (if frameOf 0x320000 = 800 ∧ i = 0 then _ else _) = _
    rw [if_neg fun hc => hi hc.2]
    exact if_neg fun hc => absurd hc.1 (by decide)
  rw [hword] at h
  exact absurd h (by decide)

/-- The table of the second page is put where the directory is. -/
theorem freeDirectory_maps :
    freeDirectory.pagingMapPageInDirectory 0x320000 0x401000 0x600000 0x03 = (true,
      ((((freeDirectory.withFrames (freeDirectory.frames.take 800)).writeFrame 800 fun _ => 0x02).setEntry
        0x320000 1 0x320003).setEntry 0x320000 1 0x600003)) := by
  have halloc : freeDirectory.allocatorAllocPageTable =
      (0x320000, (freeDirectory.withFrames (freeDirectory.frames.take 800)).writeFrame 800 fun _ => 0x02) := by
    have hframe : freeDirectory.frames.frameAllocBelow identityMappedLimit =
        (0x320000, freeDirectory.frames.take 800) := by rfl
    unfold allocatorAllocPageTable pagingAllocFrame frameAllocBelow
    rw [hframe]
    dsimp only
    rw [if_neg (by decide), fillTable_eq]
    rfl
  unfold pagingMapPageInDirectory
  dsimp only
  rw [if_neg (by decide), if_pos (by decide), halloc]
  dsimp only
  rw [if_neg (by decide)]
  rfl

/-- A page next to the mapped one gets the flags `0x02` of the absent entries of a new table; and in a
directory whose own frame is free, the new table takes its place, and pages are lost. -/
theorem mapping_changes_neighbours :
    emptyDirectory.OwnTables (frameOf 0x320000) ∧
    (∃ m', emptyDirectory.pagingMapPageInDirectory 0x320000 0x40000000 0x600000 0x07 = (true, m') ∧
      emptyDirectory.pagingGetPageFlagsInDirectory 0x320000 0x40001000 = 0 ∧
      m'.pagingGetPageFlagsInDirectory 0x320000 0x40001000 = 0x02) ∧
    (∀ i, isPresent (freeDirectory.ram (frameOf 0x320000) i) = true →
      freeDirectory.frames.frameBitmap (frameOf (freeDirectory.ram (frameOf 0x320000) i)) = true ∧
      frameOf (freeDirectory.ram (frameOf 0x320000) i) ≠ frameOf 0x320000 ∧
      ∀ j, isPresent (freeDirectory.ram (frameOf 0x320000) j) = true → i = j) ∧
    ∃ m', freeDirectory.pagingMapPageInDirectory 0x320000 0x401000 0x600000 0x03 = (true, m') ∧
      freeDirectory.pagingGetPhysicalAddressInDirectory 0x320000 0 = 0x500000 ∧
      m'.pagingGetPhysicalAddressInDirectory 0x320000 0 = 0 := by
  refine ⟨emptyDirectory_ownTables, ?_, fun i hi => ?_, _, freeDirectory_maps, by decide, by decide⟩
  · have hcr3 : (0x320000 : Word) ≠ 0 := by decide
    obtain ⟨m', hmap⟩ := emptyDirectory_maps
    rcases emptyDirectory_ownTables.map_cases hcr3 0x40000000 0x07 (show (0x600000 : Word).toNat % 4096 = 0 by
      decide) with ⟨m₁, hmap₁, -, hentry⟩ | ⟨m₁, hmap₁, -⟩
    · refine ⟨m₁, hmap₁, by decide, ?_⟩
      rw [pageFlags_eq hcr3, hentry]
      rfl
    · rw [hmap] at hmap₁
      cases hmap₁
  · obtain rfl := freeDirectory_table hi
    exact ⟨by decide, by decide, fun j hj => (freeDirectory_table hj).symm⟩

end Memory

end AgenticOs
