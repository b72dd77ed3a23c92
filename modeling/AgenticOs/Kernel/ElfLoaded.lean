import AgenticOs.Kernel.ActiveDirectory
import AgenticOs.Kernel.ElfEntry
import AgenticOs.Memory.UserBytes

/-!
# What a loaded image is

A segment is mapped, filled and protected before the next one.

* **One segment** (`HoldsSegment`): its bytes are those of the file with zeros behind them, and its pages are
  writable if the segment is (`SafeSegment.loaded`). The pages of the other segments are found as they were,
  since no two segments have a page in common.
* **All segments** (`Loadable.holds`): so an image holds all its segments when the last one is loaded, and no
  page but theirs has been mapped.
* **Main result** (`loaded_image_of_file`): a load that succeeds, into an address space in which nothing was
  mapped, leaves the image of the file there and nothing else (`HoldsImage`), and reports the bounds of its
  segments.
* **New address spaces** (`create_fresh`): one that `paging_create_address_space` returns is such an address
  space (`FreshSpace`).

What holds of an address space does not depend on which one is loaded (`HoldsImage.congr`), so the image is
still there when the old directory is loaded again.
-/

namespace AgenticOs

open Function Lib

section

variable {file : List Byte} {size : Nat} {ph : ElfProgramHeader} {phs : List ElfProgramHeader} {m m' : Memory}
  {page va : Word} {P : Set PageSlot}

/-- The places of some pages. -/
def pageSlots (pages : List Word) : Set PageSlot := {q | ∃ page ∈ pages, pageSlot page = q}

/-- One page more. -/
theorem pageSlots_cons (page : Word) (pages : List Word) :
    pageSlots (page :: pages) = insert (pageSlot page) (pageSlots pages) := by
  ext q
  simp [pageSlots, eq_comm]

/-- Pages after pages. -/
theorem pageSlots_append (pages pages' : List Word) :
    pageSlots (pages ++ pages') = pageSlots pages ∪ pageSlots pages' := by
  ext q
  simp [pageSlots, or_and_right, exists_or]

/-- The places of the pages of a segment. -/
def ElfProgramHeader.slots (ph : ElfProgramHeader) : Set PageSlot := pageSlots (segmentPages ph.vaddr ph.memsz)

/-- An address in the pages of a segment is in one of them. -/
theorem SafeSegment.slot_mem (h : SafeSegment size ph) : pageSlot va ∈ ph.slots ↔ va.toNat ∈ ph.pageRange := by
  constructor
  · rintro ⟨page, hpage, heq⟩
    obtain ⟨haligned, hlow, hhigh⟩ := h.mem_segmentPages hpage
    have hdiv := pageSlot_eq_iff.mp heq
    unfold ElfProgramHeader.pageStart at hlow
    unfold ElfProgramHeader.pageEnd at hhigh
    unfold ElfProgramHeader.pageRange ElfProgramHeader.pageStart ElfProgramHeader.pageEnd
    exact ⟨by omega, by omega⟩
  · exact fun hva => ⟨_, h.alignDown_mem hva, pageSlot_elfAlignDown va⟩

/-! ### Mapping, filling and protecting -/

namespace Memory.UserPages

/-- The pages that are mapped are user pages, and the others are as before. -/
theorem mapPages (h : m.UserPages) {pages : List Word} (hpages : ∀ page ∈ pages, inUserRange (dirIndex page))
    {mapped : List (Word × Word)} (hrun : m.mapPages pages mapped = (elfSuccess, m')) :
    m'.UserPages ∧ m.SamePages m' (pageSlots pages)ᶜ ∧ ∀ q ∈ pageSlots pages, (m'.userPage q).isSome = true := by
  induction pages generalizing m mapped with
  | nil =>
    cases hrun
    exact ⟨h, .refl _ _, fun q ⟨page, hpage, _⟩ => nomatch hpage⟩
  | cons page pages ih =>
    unfold Memory.mapPages at hrun
    dsimp only at hrun
    split at hrun
    · cases hrun
    split at hrun
    · cases hrun
    rename_i hnonzero
    rcases h.mapFresh (hpages page List.mem_cons_self) (show isUser loadFlags = true by decide) with
      ⟨-, hnone | ⟨f, hf, halloc, hmap⟩⟩ | ⟨f, m₁, hf, halloc, hmap, hpaged, -⟩
    · exact absurd (congrArg Prod.fst hnone) hnonzero
    · rw [halloc] at hrun
      have hfails : (m.withFrames (m.frames.take f)).pagingMapPageInDirectory
        (m.withFrames (m.frames.take f)).pagingGetCurrentDirectory page (frameAddr f) loadFlags = _ := hmap
      rw [hfails, if_pos rfl] at hrun
      cases hrun
    · rw [halloc] at hrun
      have hmaps : (m.withFrames (m.frames.take f)).pagingMapPageInDirectory
        (m.withFrames (m.frames.take f)).pagingGetCurrentDirectory page (frameAddr f) loadFlags = _ := hmap
      rw [hmaps] at hrun
      dsimp only at hrun
      rw [if_neg (by decide)] at hrun
      split at hrun
      · cases hrun
      have huser : isUser (newEntry f loadFlags) = true :=
        (newEntry_facts (hf.lt_max h.sound.counted) loadFlags).2.2.2.trans (by decide)
      obtain ⟨hpages', hsame, hsome⟩ :=
        ih hpaged.pages (fun page hpage => hpages page (List.mem_cons_of_mem _ hpage)) hrun
      have hfirst := hpaged.samePages h
      rw [pageSlots_cons]
      refine ⟨hpages', (hfirst.mono ?_).trans (hsame.mono ?_), fun q hq => ?_⟩
      · exact fun q hq hc => hq (.inl hc)
      · exact fun q hq hc => hq (.inr hc)
      · by_cases hlater : q ∈ pageSlots pages
        · exact hsome q hlater
        · rw [hsame.entries q hlater, hq.resolve_right hlater, hpaged.userPage_self huser]
          rfl

/-- The pages get other flags, and keep their bytes. -/
theorem protectPages (h : m.UserPages) {flags : Word} (hflags : isUser flags = true) {pages : List Word}
    (hpages : ∀ page ∈ pages, (m.userPage (pageSlot page)).isSome = true) :
    ∃ m', m.protectPages flags pages = (elfSuccess, m') ∧ m'.UserPages ∧ m.SamePages m' (pageSlots pages)ᶜ ∧
      (∀ x, m'.userLoad m'.activePageDirectory x = m.userLoad m.activePageDirectory x) ∧
      ∀ q ∈ pageSlots pages, ∃ e, m'.userPage q = some e ∧ isWritable e = isWritable flags := by
  induction pages generalizing m with
  | nil => exact ⟨m, rfl, h, .refl m _, fun _ => rfl, fun q ⟨page, hpage, _⟩ => nomatch hpage⟩
  | cons page pages ih =>
    obtain ⟨e, hpage⟩ := Option.isSome_iff_exists.mp (hpages page List.mem_cons_self)
    obtain ⟨m₁, hset, hpaged, hbytes⟩ := h.setFlags hpage hflags
    obtain ⟨-, -, hwritable, huser⟩ := newEntry_facts (frameOf_lt e) flags
    have hself := hpaged.userPage_self (huser.trans hflags)
    have hstill : ∀ page' ∈ pages, (m₁.userPage (pageSlot page')).isSome = true := fun page' hpage' => by
      by_cases hq : pageSlot page' = pageSlot page
      · rw [hq, hself]
        rfl
      · rw [hpaged.userPage_other hq]
        exact hpages page' (List.mem_cons_of_mem _ hpage')
    obtain ⟨m', hrun, hpages', hsame, hbytes', hentries⟩ := ih hpaged.pages hstill
    have hfirst := hpaged.samePages h
    refine ⟨m', ?_, hpages', ?_, fun x => (hbytes' x).trans (hbytes x), fun q hq => ?_⟩
    · unfold Memory.protectPages
      have hset' : m.pagingSetPageFlagsInDirectory m.pagingGetCurrentDirectory page flags = (true, m₁) := hset
      rw [hset']
      exact hrun
    · rw [pageSlots_cons]
      refine (hfirst.mono ?_).trans (hsame.mono ?_)
      · exact fun q hq hc => hq (.inl hc)
      · exact fun q hq hc => hq (.inr hc)
    · rw [pageSlots_cons] at hq
      by_cases hlater : q ∈ pageSlots pages
      · exact hentries q hlater
      · rw [hsame.entries q hlater, hq.resolve_right hlater, hself]
        exact ⟨_, rfl, hwritable⟩

end Memory.UserPages

/-- The memory of a loaded segment. -/
structure HoldsSegment (m : Memory) (file : List Byte) (ph : ElfProgramHeader) : Prop where
  bytes : ∀ k < ph.memsz.toNat, m.userLoad m.activePageDirectory (ph.vaddr + BitVec.ofNat 32 k) =
    if k < ph.filesz.toNat then file[ph.offset.toNat + k]? else some 0
  pages : ∀ q ∈ ph.slots, ∃ e, m.userPage q = some e ∧ isWritable e = test ph.flags elfPfW

/-- A byte of a segment is on one of its pages. -/
theorem SafeSegment.address_slot (h : SafeSegment size ph) {k : Nat} (hk : k < ph.memsz.toNat) :
    pageSlot (ph.vaddr + BitVec.ofNat 32 k) ∈ ph.slots :=
  ⟨_, h.mem_pages hk, pageSlot_elfAlignDown _⟩

/-- Zeros are stored over the whole segment and then the file over its beginning. -/
theorem SafeSegment.filled (h : SafeSegment file.length ph) (hm : m.UserPages)
    (hpages : ∀ q ∈ ph.slots, (m.userPage q).isSome = true) :
    (m.fillSegment file ph).UserPages ∧ m.SamePages (m.fillSegment file ph) ph.slotsᶜ ∧
      (m.fillSegment file ph).userPage = m.userPage ∧
      ∀ k < ph.memsz.toNat, (m.fillSegment file ph).userLoad (m.fillSegment file ph).activePageDirectory
        (ph.vaddr + BitVec.ofNat 32 k) = if k < ph.filesz.toNat then file[ph.offset.toNat + k]? else some 0 := by
  have hstop := h.stop_le
  have hfilesz := h.filesz_le
  have hinside := h.inside
  -- an address of the segment lies in its pages
  have hslot {n : Nat} (hn : n ≤ ph.memsz.toNat) (x : Word) (hlow : ph.vaddr.toNat ≤ x.toNat)
      (hhigh : x.toNat < ph.vaddr.toNat + n) : pageSlot x ∉ ph.slotsᶜ := by
    have hx := h.toNat_address (k := x.toNat - ph.vaddr.toNat) (by omega)
    have heq : ph.vaddr + BitVec.ofNat 32 (x.toNat - ph.vaddr.toNat) = x := BitVec.eq_of_toNat_eq (by omega)
    exact fun hc => hc (heq ▸ h.address_slot (by omega))
  unfold Memory.fillSegment
  generalize hz : List.replicate ph.memsz.toNat (0 : Byte) = zeros
  generalize hf : (List.range ph.filesz.toNat).map (fun i => fileByte file (ph.offset.toNat + i)) = data
  have hzlen : zeros.length = ph.memsz.toNat := by rw [← hz, List.length_replicate]
  have hflen : data.length = ph.filesz.toNat := by rw [← hf, List.length_map, List.length_range]
  have hzeros : m.Stored (m.storeBytes ph.vaddr zeros) ph.vaddr zeros :=
    hm.storeBytes (by omega) fun k hk => hpages _ (h.address_slot (by omega))
  generalize m.storeBytes ph.vaddr zeros = m₁ at hzeros ⊢
  have hdata : m₁.Stored (m₁.storeBytes ph.vaddr data) ph.vaddr data :=
    hzeros.pages.storeBytes (by omega) fun k hk => by
      rw [hzeros.entries]
      exact hpages _ (h.address_slot (by omega))
  generalize m₁.storeBytes ph.vaddr data = m' at hdata ⊢
  refine ⟨hdata.pages, ?_, hdata.entries.trans hzeros.entries, fun k hk => ?_⟩
  · exact (hzeros.samePages (hslot hzlen.le)).trans (hdata.samePages (hslot (by omega)))
  · have hx := h.toNat_address hk
    by_cases hin : k < ph.filesz.toNat
    · rw [if_pos hin, hdata.load_at (by omega) hx, ← hf, List.getElem?_map, List.getElem?_range hin, Option.map_some,
        List.getElem?_eq_getElem (by omega)]
      unfold fileByte
      rw [List.getD_eq_getElem]
    · rw [if_neg hin, hdata.load_other (by omega), hzeros.load_at (by omega) hx, ← hz, List.getElem?_replicate,
        if_pos hk]

/-! ### One segment after another -/

/-- A segment that was loaded stays. -/
theorem HoldsSegment.samePages (h : HoldsSegment m file ph) (hsafe : SafeSegment size ph)
    (hsame : m.SamePages m' P) (hP : ph.slots ⊆ P) : HoldsSegment m' file ph where
  bytes k hk := (hsame.loads _ (hP (hsafe.address_slot hk))).trans (h.bytes k hk)
  pages q hq := by
    rw [hsame.entries q (hP hq)]
    exact h.pages q hq

/-- A segment is loaded: the other pages are found as before. -/
theorem SafeSegment.loaded (h : SafeSegment file.length ph) (hm : m.UserPages)
    (hmap : (m.mapSegmentPages ph.vaddr ph.memsz).1 = elfSuccess) :
    ∃ m', ((m.mapSegmentPages ph.vaddr ph.memsz).2.fillSegment file ph).protectSegmentPages ph.vaddr ph.memsz
        ph.flags = (elfSuccess, m') ∧
      m'.UserPages ∧ m.SamePages m' ph.slotsᶜ ∧ HoldsSegment m' file ph := by
  obtain ⟨hm₁, hmapped, hsome⟩ := hm.mapPages (fun page hpage => h.userPage hpage)
    (Prod.ext hmap rfl : m.mapPages (segmentPages ph.vaddr ph.memsz) [] = (elfSuccess, _))
  obtain ⟨hm₂, hfilled, hentries, hbytes⟩ := h.filled hm₁ hsome
  have hflags : isUser (if test ph.flags elfPfW then pagePresent ||| pageUser ||| pageWritable
      else pagePresent ||| pageUser) = true ∧
        isWritable (if test ph.flags elfPfW then pagePresent ||| pageUser ||| pageWritable
          else pagePresent ||| pageUser) = test ph.flags elfPfW := by
    rcases test ph.flags elfPfW with _ | _ <;> decide
  obtain ⟨m', hrun, hm', hprotected, hsame, hwritable⟩ := hm₂.protectPages hflags.1 fun page hpage => by
    rw [hentries]
    exact hsome _ ⟨page, hpage, rfl⟩
  refine ⟨m', hrun, hm', (hmapped.trans hfilled).trans hprotected, fun k hk => ?_, fun q hq => ?_⟩
  · exact (hsame _).trans (hbytes k hk)
  · obtain ⟨e, hpage, he⟩ := hwritable q hq
    exact ⟨e, hpage, he.trans hflags.2⟩

/-- The places of the pages of all segments. -/
theorem pageSlots_loadPages (ph : ElfProgramHeader) (phs : List ElfProgramHeader) :
    pageSlots (loadPages (ph :: phs)) = ph.slots ∪ pageSlots (loadPages phs) := by
  rw [loadPages_cons, pageSlots_append]
  rfl

/-- A load that succeeds: no segment disturbs one before it. -/
theorem Loadable.holds (h : Loadable file phs) (hm : m.UserPages)
    (hload : m.loadSegments file phs = (elfSuccess, m')) :
    m'.UserPages ∧ m.SamePages m' (pageSlots (loadPages phs))ᶜ ∧ ∀ ph ∈ phs, HoldsSegment m' file ph := by
  induction phs generalizing m with
  | nil =>
    cases hload
    exact ⟨hm, .refl _ _, nofun⟩
  | cons ph phs ih =>
    have hsafe := h.safe ph List.mem_cons_self
    unfold Memory.loadSegments at hload
    rw [if_neg (not_not_intro (h.type ph List.mem_cons_self))] at hload
    dsimp only at hload
    split at hload
    · rename_i hfails
      exact absurd (congrArg Prod.fst hload) hfails
    rename_i hmap
    obtain ⟨m₁, hrun, hm₁, hsame, hholds⟩ := hsafe.loaded hm (not_not.mp hmap)
    rw [hrun, if_neg (not_not_intro rfl)] at hload
    obtain ⟨hm', hsame', hholds'⟩ := ih h.tail hm₁ hload
    have hapart : ph.slots ⊆ (pageSlots (loadPages phs))ᶜ := by
      rintro q ⟨page, hpage, rfl⟩ ⟨page', hpage', heq⟩
      exact h.apart hpage' hpage heq.symm
    rw [pageSlots_loadPages]
    refine ⟨hm', (hsame.mono ?_).trans (hsame'.mono ?_), List.forall_mem_cons.mpr ⟨?_, hholds'⟩⟩
    · exact fun q hq hc => hq (.inl hc)
    · exact fun q hq hc => hq (.inr hc)
    · exact hholds.samePages hsafe hsame' hapart

end

/-! ### The image in its address space -/

section

variable {file : List Byte} {phs : List ElfProgramHeader} {m : Memory} {cr3 va : Word} {k : Kernel}
  {path : CString} {info : ElfLoadInfo}

/-- The address space `cr3` holds the image of a file and nothing else. -/
structure HoldsImage (m : Memory) (cr3 : Word) (file : List Byte) : Prop where
  bytes : ∀ ph ∈ loadHeaders file, ∀ k < ph.memsz.toNat, m.userLoad cr3 (ph.vaddr + BitVec.ofNat 32 k) =
    if k < ph.filesz.toNat then file[ph.offset.toNat + k]? else some 0
  pages : ∀ ph ∈ loadHeaders file, ∀ va : Word, va.toNat ∈ ph.pageRange →
    m.isUserAccessible cr3 va = true ∧ m.isUserWritable cr3 va = test ph.flags elfPfW
  others : ∀ va : Word, m.isUserAccessible cr3 va = true → ∃ ph ∈ loadHeaders file, va.toNat ∈ ph.pageRange

/-- An address space in which nothing has been mapped for the user. -/
structure FreshSpace (m : Memory) (cr3 : Word) : Prop where
  pages : (m.pagingSwitchDirectory cr3).UserPages
  empty : ∀ va, m.isUserAccessible cr3 va = false

namespace Memory

/-- A directory is the same with and without the low bits of its address. -/
theorem entry_aligned (m : Memory) (cr3 : Word) : m.entry (cr3 &&& addrMask) = m.entry cr3 := by
  funext i
  unfold entry
  rw [frameOf_and_addrMask]

/-- What is found in an address space does not depend on which one is active. -/
theorem switch_ram (m : Memory) (cr3 : Word) : (m.pagingSwitchDirectory cr3).ram = m.ram := by
  unfold pagingSwitchDirectory
  split <;> rfl

/-- The views of a user program come from the frames. -/
theorem userViews_congr {m m' : Memory} {d d' : Word} (hram : m'.ram = m.ram) (hd : m.entry d' = m.entry d) :
    m'.isUserAccessible d' va = m.isUserAccessible d va ∧ m'.isUserWritable d' va = m.isUserWritable d va ∧
      m'.userLoad d' va = m.userLoad d va := by
  have hentry (t : Word) : m'.entry t = m.entry t := by
    unfold entry
    rw [hram]
  unfold userLoad isUserAccessible isUserWritable userFrame
  rw [hentry, hd, hentry, hram]
  exact ⟨rfl, rfl, rfl⟩

end Memory

/-- The image is where its frames are. -/
theorem HoldsImage.congr {m' : Memory} {d d' : Word} (h : HoldsImage m d file) (hram : m'.ram = m.ram)
    (hd : m.entry d' = m.entry d) : HoldsImage m' d' file := by
  have hviews (va : Word) : m'.isUserAccessible d' va = m.isUserAccessible d va ∧
      m'.isUserWritable d' va = m.isUserWritable d va ∧ m'.userLoad d' va = m.userLoad d va :=
    Memory.userViews_congr hram hd
  refine ⟨fun ph hph k hk => (hviews _).2.2.trans (h.bytes ph hph k hk), fun ph hph va hva => ?_, fun va hva => ?_⟩
  · rw [(hviews va).1, (hviews va).2.1]
    exact h.pages ph hph va hva
  · rw [(hviews va).1] at hva
    exact h.others va hva

/-- The segments make up the image. -/
theorem Loadable.holdsImage (h : Loadable file (loadHeaders file)) {m' : Memory} (hm : m.UserPages)
    (hempty : ∀ va, m.isUserAccessible m.activePageDirectory va = false)
    (hload : m.loadSegments file (loadHeaders file) = (elfSuccess, m')) :
    m'.activePageDirectory = m.activePageDirectory ∧ HoldsImage m' m'.activePageDirectory file := by
  obtain ⟨hm', hsame, hholds⟩ := h.holds hm hload
  refine ⟨hsame.active, fun ph hph => (hholds ph hph).bytes, fun ph hph va hva => ?_, fun va hva => ?_⟩
  · obtain ⟨e, hpage, he⟩ := (hholds ph hph).pages _ ((h.safe ph hph).slot_mem.mpr hva)
    rw [hm'.isUserAccessible_eq, hm'.isUserWritable_eq, hpage]
    exact ⟨rfl, he⟩
  · by_contra hno
    have hslot : pageSlot va ∉ pageSlots (loadPages (loadHeaders file)) := by
      rintro ⟨page, hpage, heq⟩
      obtain ⟨ph, hph, hpage⟩ := List.mem_flatMap.mp hpage
      exact hno ⟨ph, hph, (h.safe ph hph).slot_mem.mp ⟨page, hpage, heq⟩⟩
    have hnone := hempty va
    rw [hm.isUserAccessible_eq] at hnone
    rw [hm'.isUserAccessible_eq, hsame.entries _ hslot, hnone] at hva
    cases hva

/-- The image is loaded with the new directory, and then the old one is loaded again. -/
theorem elfLoadFromVfsInto_run (hcr3 : cr3 ≠ 0) (path : CString) (k : Kernel) :
    (elfLoadFromVfsInto cr3 path k).1 =
        (elfLoadFromVfs path (k.withMem (k.mem.pagingSwitchDirectory cr3))).1 ∧
      (elfLoadFromVfsInto cr3 path k).2.mem =
        (elfLoadFromVfs path (k.withMem (k.mem.pagingSwitchDirectory cr3))).2.mem.pagingSwitchDirectory
          k.mem.activePageDirectory := by
  unfold elfLoadFromVfsInto
  rw [if_neg hcr3, run_bind, run_get]
  dsimp only
  rw [run_bind, run_onMemory, run_bind, run_bind, run_onMemory]
  exact ⟨rfl, rfl⟩

/-- **A loaded image** is what the file says. -/
theorem loaded_image_of_file (k : Kernel) (cr3 : Word) (path : CString) (info : ElfLoadInfo)
    (hactive : IsDirectory k.mem.activePageDirectory) (hfresh : FreshSpace k.mem cr3)
    (hload : (elfLoadFromVfsInto cr3 path k).1 = .ok info) :
    ∃ file, (readFileIntoBuffer path k.vfs).1 = .ok file ∧
      HoldsImage (elfLoadFromVfsInto cr3 path k).2.mem cr3 file ∧
      IsLeast (segmentStarts (loadHeaders file)) info.loadStart.toNat ∧
      IsGreatest (segmentEnds (loadHeaders file)) info.loadEnd.toNat ∧
      (elfLoadFromVfsInto cr3 path k).2.mem.activePageDirectory = k.mem.activePageDirectory := by
  have hcr3 : cr3 ≠ 0 := by
    rintro rfl
    cases hload
  obtain ⟨hstatus, hmem⟩ := elfLoadFromVfsInto_run hcr3 path k
  have hdirectory : (k.mem.pagingSwitchDirectory cr3).activePageDirectory = cr3 &&& addrMask := by
    unfold Memory.pagingSwitchDirectory
    rw [if_neg hcr3]
  obtain ⟨file, scan, hread, hlayout, rfl, hdone, hloaded⟩ := elfLoadFromVfs_ok (hstatus.symm.trans hload)
  have hfile := elfLayout_accepted hlayout (readFileIntoBuffer_length hread)
  have hempty (va : Word) : (k.mem.pagingSwitchDirectory cr3).isUserAccessible
      (k.mem.pagingSwitchDirectory cr3).activePageDirectory va = false := by
    rw [hdirectory, (Memory.userViews_congr (k.mem.switch_ram cr3) (k.mem.entry_aligned cr3)).1, hfresh.empty]
  obtain ⟨hkept, himage⟩ := hfile.loadable.holdsImage hfresh.pages hempty (Prod.ext hdone rfl)
  rw [hkept, hdirectory] at himage
  rw [hmem, hloaded]
  refine ⟨file, hread, ?_, hfile.start, hfile.stop, hactive.switch _⟩
  exact himage.congr (Memory.switch_ram _ _) (Memory.entry_aligned _ _).symm

/-! ### New address spaces are fresh -/

/-- No frame is mapped twice in an address space. -/
def Spaces.MapsOnce (S : Spaces) (d : Nat) : Prop :=
  ∀ (p q : PageSlot) (e e' : Word), S.entry d p.1 p.2 = some e → S.entry d q.1 q.2 = some e' →
    frameOf e = frameOf e' → p = q

namespace Represents

variable {m0 : Memory} {S : Spaces} {d : Nat}

/-- The tables of a live directory are its own or the kernel's. -/
theorem table_cases (h : Represents m0 m S) (hd : d ∈ S.live) {i : TableIndex}
    (hpresent : isPresent (m.ram d i) = true) :
    S.table d i = some (frameOf (m.ram d i)) ∨ ¬inUserRange i ∧ KernelTable m0 (frameOf (m.ram d i)) := by
  by_cases howned : i = 0 ∨ isUser (m.ram d i) = true
  · refine .inl ((h.layout.dirs d hd i).trans (ownedTable_eq_some.mpr ⟨?_, rfl⟩))
    unfold ownsTable
    rw [hpresent]
    simpa using howned
  · obtain ⟨hi, huser⟩ := not_or.mp howned
    obtain ⟨hrange, hkernel⟩ := h.layout.shared d hd i hpresent (Bool.eq_false_of_not_eq_true huser)
    exact .inr ⟨hrange, hkernel hi⟩

/-- The pool is the one of the start. -/
theorem pool_start (h : Represents m0 m S) {g : Nat} (hg : Pool m.frames g) : Pool m0.frames g :=
  h.books.pool_of_free hg.1 hg.2.1 hg.2.2

/-- The user pages are the entries of the address space. -/
theorem userPage_iff (h : Represents m0 m S) (hd : d ∈ S.live) (hactive : m.activePageDirectory = frameAddr d)
    {p : PageSlot} {e : Word} : m.userPage p = some e ↔ S.entry d p.1 p.2 = some e := by
  have hdirectory : m.directory = d := by
    unfold Memory.directory
    rw [hactive, frameOf_frameAddr (h.live_lt hd)]
  constructor
  · intro hpage
    obtain ⟨hhas, hentry, hpresent, huser⟩ := Memory.userPage_some hpage
    have hsome : userEntry (m.ram (m.tableFrame p.1) p.2) = some e :=
      userEntry_eq_some.mpr ⟨hentry ▸ hpresent, hentry ▸ huser, hentry⟩
    unfold Memory.hasTable Memory.tableFrame at *
    rw [hdirectory] at hhas hsome
    rcases h.table_cases hd hhas with hown | ⟨-, hkernel⟩
    · rwa [← h.layout.pages d p.1 _ hown p.2] at hsome
    · rw [h.layout.kernelTables _ hkernel] at hsome
      cases hsome
  · intro he
    obtain ⟨t, ht⟩ := h.books.wellFormed.entries d _ _ e he
    obtain ⟨-, hhas, -, htable⟩ := h.entry_of_table ht
    have hpage := h.layout.pages d p.1 t ht p.2
    rw [he] at hpage
    obtain ⟨hpresent, huser, hentry⟩ := userEntry_eq_some.mp hpage.symm
    rw [m.userPage_eq]
    unfold Memory.hasTable Memory.tableFrame
    rw [hdirectory, htable, hentry]
    exact if_pos ⟨hhas, hentry ▸ hpresent, hentry ▸ huser⟩

/-- A live address space, once its directory is loaded. -/
theorem userPages (h : Represents m0 m S) (hd : d ∈ S.live) (hactive : m.activePageDirectory = frameAddr d)
    (hrange : ∀ i j e, S.entry d i j = some e → inUserRange i) (honce : S.MapsOnce d)
    (hidle : m.kernelScratchTable ≠ 0 → m.ram (frameOf m.kernelScratchTable) 0 = pageWritable ∧
      m.ram (frameOf m.kernelScratchTable) 1 = pageWritable) : m.UserPages := by
  have hdirectory : m.directory = d := by
    unfold Memory.directory
    rw [hactive, frameOf_frameAddr (h.live_lt hd)]
  have htable (i : TableIndex) (hhas : m.hasTable i = true) :
      S.table d i = some (m.tableFrame i) ∨ ¬inUserRange i ∧ KernelTable m0 (m.tableFrame i) := by
    unfold Memory.hasTable Memory.tableFrame at *
    rw [hdirectory] at hhas ⊢
    exact h.table_cases hd hhas
  have howned {i : TableIndex} (hi : inUserRange i) (hhas : m.hasTable i = true) :
      S.table d i = some (m.tableFrame i) := (htable i hhas).resolve_right fun hc => hc.1 hi
  -- a frame that the allocator never had is no directory and no table of the address space
  have houtside {g : Nat} (hg : ¬Pool m0.frames g) : g ≠ m.directory ∧ ¬m.IsTable g := by
    refine ⟨?_, ?_⟩
    · rintro rfl
      exact hg (hdirectory ▸ h.books.pool _ _ (held_dir hd))
    · rintro ⟨i, hi, hhas, rfl⟩
      exact hg (h.books.pool (.table d i) _ (howned hi hhas))
  have hentry {p : PageSlot} {e : Word} (hpage : m.userPage p = some e) : S.entry d p.1 p.2 = some e :=
    (h.userPage_iff hd hactive).mp hpage
  refine ⟨h.activeSound hd hactive, fun i hi hhas => ?_, fun p e hpage => hrange _ _ e (hentry hpage),
    fun p e hpage => ?_, fun p q e e' hpage hpage' => honce p q e e' (hentry hpage) (hentry hpage'),
    fun i hi hhas => ?_, fun hs => ?_⟩
  · obtain ⟨-, -, huser, -⟩ := h.entry_of_table (howned hi hhas)
    rw [hdirectory]
    refine huser ?_
    rintro rfl
    exact absurd hi (by decide)
  · -- the frame of a page is in the pool, and neither a directory nor a table is
    have hheld := held_page (hentry hpage)
    have hpool := h.books.pool _ _ hheld
    refine ⟨⟨?_, ?_, ?_⟩, hpool.1, ?_, ?_⟩
    · rw [hdirectory]
      intro hc
      rw [hc] at hheld
      exact nomatch h.books.structural_unique rfl (held_dir hd) hheld
    · intro i hhas hc
      rcases htable i hhas with hown | ⟨-, hkernel⟩
      · have htableHeld : S.held (.table d i) = some (frameOf e) := hc ▸ hown
        exact nomatch h.books.structural_unique rfl htableHeld hheld
      · exact (h.booted.kernelTable _ hkernel).1 (hc ▸ hpool)
    · intro hs hc
      obtain ⟨hout, -⟩ := h.booted.scratch (h.scratch ▸ hs)
      rw [← h.scratch, ← hc] at hout
      exact hout hpool
    · rw [h.books.total]
      exact hpool.2.1
    · by_contra hfree
      exact h.books.not_held_of_free (Bool.eq_false_of_not_eq_true hfree) _ hheld
  · rcases htable i hhas with hown | ⟨-, hkernel⟩
    · have hheld : S.held (.table d i) = some (m.tableFrame i) := hown
      refine ⟨fun hc => h.books.not_held_of_free hc.2.2 _ hheld, ?_, ?_⟩
      · rw [hdirectory]
        intro hc
        rw [hc] at hheld
        exact nomatch h.books.structural_unique rfl hheld (held_dir hd)
      · rintro ⟨j, hj, hhas', heq⟩
        have hheld' : S.held (.table d j) = some (m.tableFrame j) := howned hj hhas'
        rw [heq] at hheld'
        cases h.books.structural_unique rfl hheld hheld'
        exact hi hj
    · have hout := (h.booted.kernelTable _ hkernel).1
      exact ⟨fun hc => hout (h.pool_start hc), houtside hout⟩
  · obtain ⟨hout, -⟩ := h.booted.scratch (h.scratch ▸ hs)
    rw [← h.scratch] at hout
    obtain ⟨hne, hnot⟩ := houtside hout
    exact ⟨fun hc => hout (h.pool_start hc), hne, hnot, (hidle hs).1, (hidle hs).2⟩

/-- An address space in which no page is mapped is fresh. -/
theorem freshSpace (h : Represents m0 m S) (hd : d ∈ S.live) (hempty : ∀ i j, S.entry d i j = none)
    (hidle : m.kernelScratchTable ≠ 0 → m.ram (frameOf m.kernelScratchTable) 0 = pageWritable ∧
      m.ram (frameOf m.kernelScratchTable) 1 = pageWritable) : FreshSpace m (frameAddr d) := by
  refine ⟨?_, fun va => (h.translate_none hd (hempty _ _)).1⟩
  unfold Memory.pagingSwitchDirectory
  rw [if_neg (h.frameAddr_live_ne_zero hd), frameAddr_and_addrMask (h.live_lt hd)]
  refine (h.switch (.inr ⟨d, hd, rfl⟩)).userPages hd rfl (fun i j e he => ?_) (fun p q e e' he => ?_) hidle
  · rw [hempty] at he
    cases he
  · rw [hempty] at he
    cases he

/-- `paging_create_address_space` returns a fresh address space, or none. -/
theorem create_fresh (h : Represents m0 m S) (hhand : S.tableHand = none)
    (hidle : m.pagingCreateAddressSpace.2.kernelScratchTable ≠ 0 →
      m.pagingCreateAddressSpace.2.ram (frameOf m.pagingCreateAddressSpace.2.kernelScratchTable) 0 = pageWritable ∧
        m.pagingCreateAddressSpace.2.ram (frameOf m.pagingCreateAddressSpace.2.kernelScratchTable) 1 =
          pageWritable) :
    m.pagingCreateAddressSpace.1 = 0 ∨
      FreshSpace m.pagingCreateAddressSpace.2 m.pagingCreateAddressSpace.1 := by
  rcases h.createAddressSpace hhand with ⟨hzero, -⟩ | ⟨d, t, hnew, -, -, hcr3, hcreated, -⟩
  · exact .inl hzero
  · rw [hcr3]
    refine .inr (hcreated.freshSpace (Finset.mem_insert_self _ _) (fun i j => ?_) hidle)
    exact h.entry_none_of_table_none (h.table_none_of_not_live hnew i) j

end Represents

/-! ### A program in an address space without tables -/

/-- The directory is loaded already. -/
theorem blank_switch : Memory.blank.pagingSwitchDirectory 0x100000 = .blank := by
  unfold Memory.pagingSwitchDirectory
  rw [if_neg (by decide)]
  rfl

/-- A new address space is fresh. -/
theorem blank_fresh : FreshSpace .blank 0x100000 := by
  refine ⟨blank_switch.symm ▸ Memory.blank_userPages, fun va => ?_⟩
  have haccessible := Memory.blank_userPages.isUserAccessible_eq va
  rw [Memory.userPage, Memory.blank_mappedEntry] at haccessible
  exact haccessible

/-- The program with a gap is loaded there. -/
theorem gapImage_loadsInto : ∃ fs,
    (readFileIntoBuffer [0x2F, 0x61] (Kernel.blankPages fs).vfs).1 = .ok gapImage ∧
      (elfLoadFromVfsInto 0x100000 [0x2F, 0x61] (.blankPages fs)).1 = .ok (elfLoadInfo gapImage gapScan) := by
  obtain ⟨fs, hread, hload⟩ := gapImage_loads
  have hinto := (elfLoadFromVfsInto_run (show (0x100000 : Word) ≠ 0 by decide) [0x2F, 0x61] (.blankPages fs)).1
  have hmem : (Kernel.blankPages fs).mem = .blank := rfl
  rw [hmem, blank_switch] at hinto
  exact ⟨fs, hread, hinto.trans hload⟩

/-- The program with a gap is loaded with its gap left out. -/
theorem loaded_image_of_file_gap : ∃ fs,
    HoldsImage (elfLoadFromVfsInto 0x100000 [0x2F, 0x61] (.blankPages fs)).2.mem 0x100000 gapImage ∧
      IsLeast (segmentStarts (loadHeaders gapImage)) gapScan.loadStart.toNat ∧
      IsGreatest (segmentEnds (loadHeaders gapImage)) gapScan.loadEnd.toNat := by
  obtain ⟨fs, hread, hload⟩ := gapImage_loadsInto
  have hactive : IsDirectory (0x100000 : Word) := ⟨by decide, by decide⟩
  obtain ⟨file, hread', himage, hstart, hstop, -⟩ := loaded_image_of_file (.blankPages fs) 0x100000 [0x2F, 0x61]
    (elfLoadInfo gapImage gapScan) hactive blank_fresh hload
  cases hread.symm.trans hread'
  exact ⟨fs, himage, hstart, hstop⟩

end

end AgenticOs
