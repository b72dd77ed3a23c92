import AgenticOs.Kernel.ElfImage
import AgenticOs.Kernel.Runs
import AgenticOs.Memory.ActivePages
import Mathlib.Data.List.TakeWhile

/-!
# What a failed ELF load leaves behind

`map_segment_pages` takes its pages back when memory runs out, and not when it meets a page that is mapped
already; and nothing takes back the pages of the segments before the one that fails.

* **Pages mapped so far** (`Mapping m₀ m l`): `m` is `m₀` with the pages `l` mapped. Each round of the loop
  adds one (`Mapping.mapsPage`), and each round of a rollback takes one away (`Mapping.unmapsPage`,
  `Mapping.rollback`).
* **One segment** (`SafeSegment.loads`): what mapping, filling and protecting a segment comes to, with the
  three ways the first can end (`MapsPages`).
* **All segments** (`Loadable.loadSegments`): a load succeeds if none of its pages is mapped and there is
  memory for all.
* **Main result** (`Loadable.untouched_iff`): a load that fails leaves the pages as they were exactly when it
  fails at its first page, or when memory runs out in its first segment (`LoadStrands` is the other case).
-/

namespace AgenticOs

open Function Lib

/-- The user pages of the active directory, their frames and their flags are as before, and so are the
frames but for tables that the directory was given. -/
structure Memory.Untouched (m m' : Memory) : Prop where
  active : m'.activePageDirectory = m.activePageDirectory
  pages : ∀ p : PageSlot, inUserRange p.1 → m'.mappedEntry p = m.mappedEntry p
  frames : ∀ g, m.SameFrame m' g ∨ m.frames.frameBitmap g = false ∧ m'.IsTable g

/-- None of these pages is mapped, and there is memory for all of them. -/
def Memory.CanMap (m : Memory) (pages : List Word) : Prop :=
  (∀ page ∈ pages, m.pagingIsMapped page = false) ∧
    (m.supply.takePages (pages.map dirIndex)).isSome = true

/-- The pages of all segments. -/
def loadPages (phs : List ElfProgramHeader) : List Word :=
  phs.flatMap fun ph => segmentPages ph.vaddr ph.memsz

/-- The pages of a segment before the first one that is mapped. -/
def freshPages (m : Memory) (ph : ElfProgramHeader) : List Word :=
  (segmentPages ph.vaddr ph.memsz).takeWhile fun page => !m.pagingIsMapped page

/-- The first segment has pages before its first mapped one and there is memory for them, and not all
segments can be mapped. -/
def LoadStrands (m : Memory) (file : List Byte) : Prop :=
  ∃ ph phs, loadHeaders file = ph :: phs ∧ freshPages m ph ≠ [] ∧ m.CanMap (freshPages m ph) ∧
    ¬m.CanMap (loadPages (loadHeaders file))

namespace Memory

variable {m m' m₀ : Memory} {l : List (Word × Nat)} {f : Nat} {page : Word} {p : PageSlot}

/-- A page is mapped if the directory and the table have entries for it. -/
theorem pagingIsMapped_eq (m : Memory) (va : Word) :
    m.pagingIsMapped va = (m.mappedEntry (pageSlot va)).isSome := by
  have hdir : m.entry m.activePageDirectory (dirIndex va) = m.ram m.directory (dirIndex va) := rfl
  have hpage : m.entry (m.ram m.directory (dirIndex va) &&& addrMask) (tableIndex va) =
      m.ram (m.tableFrame (dirIndex va)) (tableIndex va) := by
    unfold entry
    rw [frameOf_and_addrMask]
    rfl
  unfold pagingIsMapped mappedEntry hasTable pageSlot presentEntry
  rw [hdir, hpage, test_pagePresent, test_pagePresent]
  rcases isPresent (m.ram m.directory (dirIndex va)) with _ | _
  · rfl
  rcases isPresent (m.ram (m.tableFrame (dirIndex va)) (tableIndex va)) with _ | _
  · simp
  · simp

/-- Nothing has happened. -/
theorem Untouched.refl (m : Memory) : m.Untouched m := ⟨rfl, fun _ _ => rfl, fun _ => .inl ⟨rfl, rfl⟩⟩

/-! ### Pages mapped one after another -/

/-- The flags that `map_segment_pages` maps with. -/
abbrev loadFlags : Word := pagePresent ||| pageWritable ||| pageUser

/-- A page of `m` that `m₀` has not, in a frame that was free. -/
structure LoadedPage (m₀ m : Memory) (page : Word) (f : Nat) : Prop where
  user : inUserRange (dirIndex page)
  fresh : m₀.mappedEntry (pageSlot page) = none
  mapped : m.mappedEntry (pageSlot page) = some (newEntry f loadFlags)
  low : firstFrame ≤ f
  lt : f < m.frames.totalFrames
  free : m₀.frames.frameBitmap f = false
  taken : m.frames.frameBitmap f = true
  refcount : m.frames.frameRefcounts f = 1
  notDirectory : f ≠ m.directory
  notTable : ¬m.IsTable f

/-- `m` is `m₀` with some more pages. -/
structure Mapping (m₀ m : Memory) (l : List (Word × Nat)) : Prop where
  start : m₀.ActiveSound
  sound : m.ActiveSound
  active : m.activePageDirectory = m₀.activePageDirectory
  total : m.frames.totalFrames = m₀.frames.totalFrames
  pages : ∀ q ∈ l, LoadedPage m₀ m q.1 q.2
  slots : (l.map fun q => pageSlot q.1).Nodup
  distinct : (l.map Prod.snd).Nodup
  others : ∀ p : PageSlot, inUserRange p.1 → (∀ q ∈ l, pageSlot q.1 ≠ p) → m.mappedEntry p = m₀.mappedEntry p
  frames : ∀ g, (∀ q ∈ l, q.2 ≠ g) → m₀.SameFrame m g ∨ m₀.frames.frameBitmap g = false ∧ m.IsTable g

/-- No page is mapped. -/
theorem Mapping.nil (hs : m.ActiveSound) : Mapping m m [] :=
  ⟨hs, hs, rfl, rfl, nofun, .nil, .nil, fun _ _ _ => rfl, fun _ _ => .inl ⟨rfl, rfl⟩⟩

/-- When all pages are taken back nothing has happened. -/
theorem Mapping.untouched (h : Mapping m₀ m []) : m₀.Untouched m :=
  ⟨h.active, fun p hp => h.others p hp nofun, fun g => h.frames g nofun⟩

/-- Mapping a page leaves the frames in use. -/
theorem MapsPage.sameFrame {e : Word} {g : Nat} (h : m.MapsPage m' p f e)
    (hg : m.frames.frameBitmap g = true) (hne : g ≠ f) : m.SameFrame m' g :=
  (h.others g hne).resolve_right fun hc => absurd (hg.symm.trans hc.1) nofun

/-- One more page. -/
theorem Mapping.mapsPage (h : Mapping m₀ m l) (hi : inUserRange (dirIndex page))
    (hnone : m.mappedEntry (pageSlot page) = none)
    (hmaps : m.MapsPage m' (pageSlot page) f (newEntry f loadFlags)) :
    Mapping m₀ m' (l ++ [(page, f)]) := by
  have hslot : ∀ q ∈ l, pageSlot q.1 ≠ pageSlot page := fun q hq heq => by
    have hmapped := (h.pages q hq).mapped
    rw [heq, hnone] at hmapped
    cases hmapped
  have hframe : ∀ q ∈ l, q.2 ≠ f := fun q hq heq => by
    have htaken := (h.pages q hq).taken
    rw [heq, hmaps.lowest.free] at htaken
    cases htaken
  have hfree₀ : m₀.frames.frameBitmap f = false := by
    rcases h.frames f hframe with hsame | ⟨hfree, -⟩
    · rw [← hsame.1, hmaps.lowest.free]
    · exact hfree
  have hmapped := hmaps.mapped (pageSlot page) hi
  rw [if_pos rfl] at hmapped
  have hnew : LoadedPage m₀ m' page f :=
    { user := hi
      fresh := (h.others _ hi hslot).symm.trans hnone
      mapped := hmapped
      low := hmaps.lowest.low
      lt := hmaps.total ▸ hmaps.lowest.lt
      free := hfree₀
      taken := hmaps.taken.1
      refcount := hmaps.taken.2
      notDirectory := fun hc => hmaps.notDirectory (hc.trans (congrArg frameOf hmaps.active))
      notTable := hmaps.notTable }
  have hold : ∀ q ∈ l, LoadedPage m₀ m' q.1 q.2 := fun q hq => by
    have hpage := h.pages q hq
    have hsame := hmaps.sameFrame hpage.taken (hframe q hq)
    exact
      { user := hpage.user
        fresh := hpage.fresh
        mapped := by rw [hmaps.mapped _ hpage.user, if_neg (hslot q hq), hpage.mapped]
        low := hpage.low
        lt := hmaps.total ▸ hpage.lt
        free := hpage.free
        taken := hsame.1.trans hpage.taken
        refcount := hsame.2.trans hpage.refcount
        notDirectory := fun hc => hpage.notDirectory (hc.trans (congrArg frameOf hmaps.active))
        notTable := fun hc => by
          rcases hmaps.tables _ hc with ht | hfree
          · exact hpage.notTable ht
          · exact absurd (hpage.taken.symm.trans hfree) nofun }
  have hkept {g : Nat} (hg : m.IsTable g) : m'.IsTable g := by
    obtain ⟨i, hi, hhas, rfl⟩ := hg
    exact ⟨i, hi, hmaps.kept i hhas⟩
  refine ⟨h.start, hmaps.sound, hmaps.active.trans h.active, hmaps.total.trans h.total, ?_, ?_, ?_,
    fun p hp hne => ?_, fun g hne => ?_⟩
  · intro q hq
    rcases List.mem_append.mp hq with hq | hq
    · exact hold q hq
    · rw [List.mem_singleton.mp hq]
      exact hnew
  · rw [List.map_append]
    refine h.slots.append (List.nodup_singleton _) fun x hx hx' => ?_
    obtain ⟨q, hq, rfl⟩ := List.mem_map.mp hx
    exact hslot q hq (List.mem_singleton.mp hx')
  · rw [List.map_append]
    refine h.distinct.append (List.nodup_singleton _) fun x hx hx' => ?_
    obtain ⟨q, hq, rfl⟩ := List.mem_map.mp hx
    exact hframe q hq (List.mem_singleton.mp hx')
  · have hp' : p ≠ pageSlot page := (hne (page, f) (by simp)).symm
    rw [hmaps.mapped p hp, if_neg hp', h.others p hp fun q hq => hne q (List.mem_append_left _ hq)]
  · have hgf : g ≠ f := (hne (page, f) (by simp)).symm
    rcases h.frames g (fun q hq => hne q (List.mem_append_left _ hq)) with hsame | ⟨hfree, ht⟩
    · rcases hmaps.others g hgf with hsame' | ⟨hfree, ht⟩
      · exact .inl ⟨hsame'.1.trans hsame.1, hsame'.2.trans hsame.2⟩
      · exact .inr ⟨hsame.1.symm.trans hfree, ht⟩
    · exact .inr ⟨hfree, hkept ht⟩

/-- One page less. -/
theorem Mapping.unmapsPage (h : Mapping m₀ m ((page, f) :: l)) (hunmaps : m.UnmapsPage m' (pageSlot page) f) :
    Mapping m₀ m' l := by
  have hfirst := h.pages (page, f) List.mem_cons_self
  obtain ⟨hslot, hslots⟩ := List.nodup_cons.mp h.slots
  obtain ⟨hframe, hframes⟩ := List.nodup_cons.mp h.distinct
  have htable {g : Nat} : m'.IsTable g ↔ m.IsTable g := by
    unfold IsTable
    rw [hunmaps.hasTable, hunmaps.tableFrame]
  refine ⟨h.start, hunmaps.sound, hunmaps.active.trans h.active, hunmaps.total.trans h.total, fun q hq => ?_,
    hslots, hframes, fun p hp hne => ?_, fun g hne => ?_⟩
  · have hpage := h.pages q (List.mem_cons_of_mem _ hq)
    have hneSlot : pageSlot q.1 ≠ pageSlot page := fun heq =>
      hslot (List.mem_map.mpr ⟨q, hq, heq⟩)
    have hneFrame : q.2 ≠ f := fun heq => hframe (List.mem_map.mpr ⟨q, hq, heq⟩)
    have hsame := hunmaps.others q.2 hneFrame
    exact
      { user := hpage.user
        fresh := hpage.fresh
        mapped := by rw [hunmaps.mapped _ hpage.user, if_neg hneSlot, hpage.mapped]
        low := hpage.low
        lt := hunmaps.total ▸ hpage.lt
        free := hpage.free
        taken := hsame.1.trans hpage.taken
        refcount := hsame.2.trans hpage.refcount
        notDirectory := fun hc => hpage.notDirectory (hc.trans (congrArg frameOf hunmaps.active))
        notTable := fun hc => hpage.notTable (htable.mp hc) }
  · rw [hunmaps.mapped p hp]
    split
    · rename_i hpp
      rw [hpp, hfirst.fresh]
    · rename_i hpp
      refine h.others p hp fun q hq => ?_
      rcases List.mem_cons.mp hq with rfl | hq
      · exact Ne.symm hpp
      · exact hne q hq
  · by_cases hgf : g = f
    · subst hgf
      have hlive := (h.start.counted.live_iff g (h.total ▸ hfirst.lt)).not
      rw [hfirst.free] at hlive
      have hzero : m₀.frames.frameRefcounts g = 0 := by
        have := hlive.mp Bool.false_ne_true
        omega
      exact .inl ⟨hunmaps.freed.1.trans hfirst.free.symm, hunmaps.freed.2.trans hzero.symm⟩
    · have hothers := hunmaps.others g hgf
      rcases h.frames g (fun q hq => by
        rcases List.mem_cons.mp hq with rfl | hq
        · exact Ne.symm hgf
        · exact hne q hq) with hsame | ⟨hfree, ht⟩
      · exact .inl ⟨hothers.1.trans hsame.1, hothers.2.trans hsame.2⟩
      · exact .inr ⟨hfree, htable.mpr ht⟩

/-- The pages as the loop of `map_segment_pages` records them. -/
def recorded (l : List (Word × Nat)) : List (Word × Word) := l.map fun q => (q.1, frameAddr q.2)

/-- A rollback takes all pages away again. -/
theorem Mapping.rollback (h : Mapping m₀ m l) : m₀.Untouched (m.unmapPages (recorded l)) := by
  induction l generalizing m with
  | nil => exact h.untouched
  | cons q l ih =>
    have hpage := h.pages q List.mem_cons_self
    exact ih (h.unmapsPage (h.sound.unmapsPage hpage.user hpage.mapped hpage.low hpage.lt hpage.refcount
      hpage.notDirectory hpage.notTable))

/-- The loop records the page that it has mapped last at the end. -/
theorem recorded_append (l : List (Word × Nat)) (page : Word) (f : Nat) :
    recorded (l ++ [(page, f)]) = recorded l ++ [(page, frameAddr f)] := List.map_append ..

/-- What `mapPages` ends with, for a loop over `pages` of which the pages `fresh` come before the first
mapped one. -/
inductive MapsPages (m₀ m : Memory) (l : List (Word × Nat)) (pages fresh : List Word) : Int × Memory → Prop
  | exhausted (m' : Memory) : m.supply.takePages (fresh.map dirIndex) = none → m₀.Untouched m' →
      MapsPages m₀ m l pages fresh (elfEnospc, m')
  | occupied (m' : Memory) (new : List (Word × Nat)) : fresh ≠ pages → new.map Prod.fst = fresh →
      (m.supply.takePages (fresh.map dirIndex)).isSome = true → Mapping m₀ m' (l ++ new) →
      MapsPages m₀ m l pages fresh (elfEinval, m')
  | done (m' : Memory) (new : List (Word × Nat)) : fresh = pages → new.map Prod.fst = pages →
      m.supply.takePages (pages.map dirIndex) = some m'.supply → Mapping m₀ m' (l ++ new) →
      MapsPages m₀ m l pages fresh (elfSuccess, m')

/-- One round after another. -/
theorem Mapping.mapPages (h : Mapping m₀ m l) (pages : List Word)
    (huser : ∀ page ∈ pages, inUserRange (dirIndex page)) (hnodup : (pages.map pageSlot).Nodup)
    (hapart : ∀ page ∈ pages, ∀ q ∈ l, pageSlot q.1 ≠ pageSlot page) :
    MapsPages m₀ m l pages (pages.takeWhile fun page => !m₀.pagingIsMapped page)
      (Memory.mapPages pages (recorded l) m) := by
  induction pages generalizing m l with
  | nil => exact .done m [] rfl rfl rfl (by rwa [List.append_nil])
  | cons page pages ih =>
    have hi := huser page List.mem_cons_self
    have hsame : m.pagingIsMapped page = m₀.pagingIsMapped page := by
      rw [pagingIsMapped_eq, pagingIsMapped_eq, h.others _ hi (hapart page List.mem_cons_self)]
    obtain ⟨hslot, hslots⟩ := List.nodup_cons.mp hnodup
    unfold Memory.mapPages
    by_cases hmapped : m₀.pagingIsMapped page = true
    · -- the page is mapped already
      rw [hsame, if_pos hmapped, List.takeWhile_cons_of_neg (by rw [hmapped]; decide)]
      exact .occupied m [] (List.cons_ne_nil _ _).symm rfl rfl (by rwa [List.append_nil])
    have hnone : m.mappedEntry (pageSlot page) = none := by
      rw [← hsame, pagingIsMapped_eq, Bool.not_eq_true, Option.isSome_eq_false_iff] at hmapped
      exact Option.isNone_iff_eq_none.mp hmapped
    rw [hsame, if_neg hmapped, List.takeWhile_cons_of_pos (by simpa using hmapped)]
    dsimp only
    rcases h.sound.map_cases hi (by decide : isUser loadFlags = true) with
      ⟨hsupply, halloc | ⟨f, hf, halloc, hmap⟩⟩ | ⟨f, m', hf, halloc, hmap, hmaps⟩
    · rw [halloc]
      refine .exhausted _ ?_ h.rollback
      show (m.supply.takePage _).bind _ = none
      rw [hsupply]
      rfl
    · -- there is no table for it
      have hmap' : (m.withFrames (m.frames.take f)).pagingMapPageInDirectory
          (m.withFrames (m.frames.take f)).pagingGetCurrentDirectory page (frameAddr f) loadFlags = _ := hmap
      rw [halloc]
      dsimp only
      rw [if_neg (hf.frameAddr_ne_zero h.sound.counted), hmap', if_pos rfl, h.sound.release_taken hf]
      refine .exhausted _ ?_ h.rollback
      show (m.supply.takePage _).bind _ = none
      rw [hsupply]
      rfl
    · have hmap' : (m.withFrames (m.frames.take f)).pagingMapPageInDirectory
          (m.withFrames (m.frames.take f)).pagingGetCurrentDirectory page (frameAddr f) loadFlags = _ := hmap
      have hlt := hf.lt_max h.sound.counted
      obtain ⟨-, -, hwritable, huser'⟩ := newEntry_facts hlt loadFlags
      have hcan := hmaps.isUserWritable hi (hwritable.trans (by decide)) (huser'.trans (by decide))
      rw [halloc]
      dsimp only
      rw [if_neg (hf.frameAddr_ne_zero h.sound.counted), hmap',
        if_neg (by decide : ¬true = false), if_neg (by rw [hcan]; decide), ← recorded_append]
      have hnext := h.mapsPage hi hnone hmaps
      have hrun := ih hnext (fun x hx => huser x (List.mem_cons_of_mem _ hx)) hslots fun x hx q hq => by
        rcases List.mem_append.mp hq with hq | hq
        · exact hapart x (List.mem_cons_of_mem _ hx) q hq
        · rw [List.mem_singleton.mp hq]
          exact fun hc => hslot (List.mem_map.mpr ⟨x, hx, hc.symm⟩)
      have hsupply (xs : List Word) : m.supply.takePages ((page :: xs).map dirIndex) =
          m'.supply.takePages (xs.map dirIndex) := by
        have htake : m.supply.takePage (dirIndex page) = some m'.supply := hmaps.supply
        show (m.supply.takePage _).bind _ = _
        rw [htake]
        rfl
      generalize Memory.mapPages pages (recorded (l ++ [(page, f)])) m' = r at hrun
      cases hrun with
      | exhausted m'' hnone huntouched =>
        exact .exhausted m'' ((hsupply _).trans hnone) huntouched
      | occupied m'' new hne hfresh hsome hmapping =>
        rw [List.append_assoc] at hmapping
        exact .occupied m'' ((page, f) :: new) (fun hc => hne (List.cons.inj hc).2)
          (congrArg (page :: ·) hfresh) (by rw [hsupply, hsome]) hmapping
      | done m'' new hall hfresh hsome hmapping =>
        rw [List.append_assoc] at hmapping
        exact .done m'' ((page, f) :: new) (congrArg (page :: ·) hall) (congrArg (page :: ·) hfresh)
          ((hsupply _).trans hsome) hmapping

/-! ### Filling and protecting -/

/-- The pages that are mapped lie in frames of their own. -/
theorem Mapping.plainPage (h : Mapping m₀ m l) {q : Word × Nat} (hq : q ∈ l) : m.PlainPage (pageSlot q.1) := by
  have hpage := h.pages q hq
  have hlt : q.2 < 1048576 := by
    have hlt := hpage.lt
    have htotal := h.sound.counted.total_le
    simp only [maxFrames] at htotal
    omega
  refine ⟨q.2, ?_, hpage.notDirectory, hpage.notTable⟩
  rw [hpage.mapped, Option.map_some, (newEntry_facts hlt _).1]

/-- Protecting mapped pages succeeds. -/
theorem ActiveSound.protectPages (hs : m.ActiveSound) {flags : Word} (hflags : isUser flags = true)
    (pages : List Word) (hpages : ∀ page ∈ pages, inUserRange (dirIndex page) ∧
      (m.mappedEntry (pageSlot page)).isSome = true) :
    (Memory.protectPages flags pages m).1 = elfSuccess ∧
      m.KeepsPages (Memory.protectPages flags pages m).2 := by
  induction pages generalizing m with
  | nil => exact ⟨rfl, .refl hs⟩
  | cons page pages ih =>
    obtain ⟨hi, hsome⟩ := hpages page List.mem_cons_self
    obtain ⟨m', hset, hkeeps⟩ := hs.setFlags hi hsome hflags
    have hset' : m.pagingSetPageFlagsInDirectory m.pagingGetCurrentDirectory page flags = (true, m') := hset
    obtain ⟨hstatus, hrest⟩ := ih hkeeps.sound fun x hx => by
      obtain ⟨hx, hsome⟩ := hpages x (List.mem_cons_of_mem _ hx)
      exact ⟨hx, (hkeeps.isSome hx).trans hsome⟩
    unfold Memory.protectPages
    dsimp only
    rw [hset', if_neg (by decide : ¬true = false)]
    exact ⟨hstatus, hkeeps.trans hrest⟩

end Memory

/-! ### The pages of a segment -/

section

variable {file : List Byte} {size : Nat} {ph q : ElfProgramHeader} {phs : List ElfProgramHeader}
  {page page' va : Word} {m : Memory}

/-- The pages of a segment are aligned, and lie in its page range. -/
theorem SafeSegment.mem_segmentPages (h : SafeSegment size ph) (hpage : page ∈ segmentPages ph.vaddr ph.memsz) :
    page.toNat % 4096 = 0 ∧ page.toNat ∈ ph.pageRange := by
  obtain ⟨i, hi, rfl⟩ := List.mem_map.mp hpage
  have hi := List.mem_range.mp hi
  have hstart := h.words.1
  have hstop := h.stop
  rw [hstart, h.words.2] at hi
  have hnat : (elfAlignDown ph.vaddr + BitVec.ofNat 32 (i * 4096)).toNat = ph.pageStart + i * 4096 := by
    rw [BitVec.toNat_add, BitVec.toNat_ofNat, hstart]
    omega
  have haligned : ph.pageStart % 4096 = 0 := Nat.mul_mod_left ..
  rw [hnat]
  unfold ElfProgramHeader.pageRange
  exact ⟨by omega, by omega, by omega⟩

/-- They are pages of the user range. -/
theorem SafeSegment.userPage (h : SafeSegment size ph) (hpage : page ∈ segmentPages ph.vaddr ph.memsz) :
    inUserRange (dirIndex page) := by
  obtain ⟨-, hlow, hhigh⟩ := h.mem_segmentPages hpage
  have hstart := h.start
  have hstop := h.stop
  unfold inUserRange dirIndex
  dsimp only
  omega

/-- Pages are told apart by their places. -/
theorem pageSlot_inj (hp : page.toNat % 4096 = 0) (hp' : page'.toNat % 4096 = 0)
    (h : pageSlot page = pageSlot page') : page = page' := by
  have hdiv := pageSlot_eq_iff.mp h
  exact BitVec.eq_of_toNat_eq (by omega)

/-- An address has the place of its page. -/
theorem pageSlot_elfAlignDown (va : Word) : pageSlot (elfAlignDown va) = pageSlot va := by
  rw [pageSlot_eq_iff, toNat_elfAlignDown]
  omega

/-- No page of a segment comes twice. -/
theorem SafeSegment.nodup (h : SafeSegment size ph) : ((segmentPages ph.vaddr ph.memsz).map pageSlot).Nodup := by
  have hpages : (segmentPages ph.vaddr ph.memsz).Nodup := by
    refine List.Nodup.map_on (fun i hi j hj heq => ?_) List.nodup_range
    have hi := List.mem_range.mp hi
    have hj := List.mem_range.mp hj
    have hpages := h.pages
    rw [h.words.1, h.words.2] at hi hj
    have hnat := congrArg BitVec.toNat heq
    rw [BitVec.toNat_add, BitVec.toNat_add, BitVec.toNat_ofNat, BitVec.toNat_ofNat] at hnat
    omega
  exact hpages.map_on fun x hx y hy heq =>
    pageSlot_inj (h.mem_segmentPages hx).1 (h.mem_segmentPages hy).1 heq

/-- The bytes of a segment go into its pages. -/
theorem SafeSegment.fill_keeps (h : SafeSegment file.length ph) {m₀ : Memory} {l : List (Word × Nat)}
    (hmapping : Memory.Mapping m₀ m l) (hl : l.map Prod.fst = segmentPages ph.vaddr ph.memsz) :
    m.KeepsPages (m.fillSegment file ph) := by
  have hplain (k : Nat) (hk : k < ph.memsz.toNat) :
      inUserRange (dirIndex (ph.vaddr + BitVec.ofNat 32 k)) ∧
        m.PlainPage (pageSlot (ph.vaddr + BitVec.ofNat 32 k)) := by
    have hmem := h.mem_pages hk
    have hslot := pageSlot_elfAlignDown (ph.vaddr + BitVec.ofNat 32 k)
    rw [← hl] at hmem
    obtain ⟨q, hq, hpage⟩ := List.mem_map.mp hmem
    have hplain := hmapping.plainPage hq
    have huser := (hmapping.pages q hq).user
    rw [hpage] at hplain huser
    rw [hslot] at hplain
    have hdir : dirIndex (elfAlignDown (ph.vaddr + BitVec.ofNat 32 k)) =
        dirIndex (ph.vaddr + BitVec.ofNat 32 k) := congrArg Prod.fst hslot
    exact ⟨hdir ▸ huser, hplain⟩
  have hfilesz := h.filesz_le
  unfold Memory.fillSegment
  have hzero : m.KeepsPages (m.storeBytes ph.vaddr (List.replicate ph.memsz.toNat 0)) :=
    hmapping.sound.storeBytes fun k hk => hplain k (by rwa [List.length_replicate] at hk)
  refine hzero.trans (hzero.sound.storeBytes fun k hk => ?_)
  rw [List.length_map, List.length_range] at hk
  obtain ⟨hi, hplain⟩ := hplain k (by omega)
  exact ⟨hi, hzero.plainPage hi hplain⟩

/-- Pages that are mapped stay mapped. -/
theorem Memory.Mapping.isSome {m₀ : Memory} {l : List (Word × Nat)} (h : Memory.Mapping m₀ m l) {p : PageSlot}
    (hp : inUserRange p.1) (hsome : (m₀.mappedEntry p).isSome = true) : (m.mappedEntry p).isSome = true := by
  rw [h.others p hp fun q hq heq => ?_, hsome]
  have hfresh := (h.pages q hq).fresh
  rw [heq] at hfresh
  rw [hfresh] at hsome
  cases hsome

/-- The pages of the first segment, and of the others. -/
theorem loadPages_cons (ph : ElfProgramHeader) (phs : List ElfProgramHeader) :
    loadPages (ph :: phs) = segmentPages ph.vaddr ph.memsz ++ loadPages phs := List.flatMap_cons

/-- What mapping, filling and protecting a segment comes to. -/
inductive LoadsSegment (m : Memory) (ph : ElfProgramHeader) (phs : List ElfProgramHeader) (file : List Byte) :
    Int × Memory → Prop
  | exhausted (m' : Memory) : m.supply.takePages ((freshPages m ph).map dirIndex) = none → m.Untouched m' →
      LoadsSegment m ph phs file (elfEnospc, m')
  | occupied (m' : Memory) (new : List (Word × Nat)) : freshPages m ph ≠ segmentPages ph.vaddr ph.memsz →
      new.map Prod.fst = freshPages m ph →
      (m.supply.takePages ((freshPages m ph).map dirIndex)).isSome = true → Memory.Mapping m m' new →
      LoadsSegment m ph phs file (elfEinval, m')
  | done (m' m'' : Memory) (new : List (Word × Nat)) : freshPages m ph = segmentPages ph.vaddr ph.memsz →
      new.map Prod.fst = segmentPages ph.vaddr ph.memsz →
      m.supply.takePages ((segmentPages ph.vaddr ph.memsz).map dirIndex) = some m'.supply →
      Memory.Mapping m m' new → m'.KeepsPages m'' →
      LoadsSegment m ph phs file (m''.loadSegments file phs)

/-- **One segment is loaded**: the three ways that it can go. -/
theorem SafeSegment.loads (h : SafeSegment file.length ph) (htype : ph.type = elfPtLoad) (hs : m.ActiveSound)
    (phs : List ElfProgramHeader) : LoadsSegment m ph phs file (m.loadSegments file (ph :: phs)) := by
  have hrun := (Memory.Mapping.nil hs).mapPages (segmentPages ph.vaddr ph.memsz) (fun _ => h.userPage)
    h.nodup nofun
  have hmap : m.mapSegmentPages ph.vaddr ph.memsz =
      Memory.mapPages (segmentPages ph.vaddr ph.memsz) (Memory.recorded []) m := rfl
  unfold Memory.loadSegments
  dsimp only
  rw [if_neg (not_not_intro htype), hmap]
  generalize Memory.mapPages (segmentPages ph.vaddr ph.memsz) (Memory.recorded []) m = r at hrun
  cases hrun with
  | exhausted m' hnone huntouched =>
    rw [if_pos (by decide : elfEnospc ≠ elfSuccess)]
    exact .exhausted m' hnone huntouched
  | occupied m' new hne hfresh hsome hmapping =>
    rw [if_pos (by decide : elfEinval ≠ elfSuccess)]
    exact .occupied m' new hne hfresh hsome hmapping
  | done m' new hall hpages hsupply hmapping =>
    rw [if_neg (not_not_intro (rfl : elfSuccess = elfSuccess))]
    have hfill := h.fill_keeps hmapping hpages
    have hmapped : ∀ page ∈ segmentPages ph.vaddr ph.memsz, inUserRange (dirIndex page) ∧
        ((m'.fillSegment file ph).mappedEntry (pageSlot page)).isSome = true := fun page hpage => by
      refine ⟨h.userPage hpage, (hfill.isSome (q := pageSlot page) (h.userPage hpage)).trans ?_⟩
      rw [← hpages] at hpage
      obtain ⟨q, hq, rfl⟩ := List.mem_map.mp hpage
      rw [(hmapping.pages q hq).mapped]
      rfl
    have huser : isUser (if test ph.flags elfPfW then pagePresent ||| pageUser ||| pageWritable
        else pagePresent ||| pageUser) = true := by split <;> decide
    obtain ⟨hstatus, hkeeps⟩ := hfill.sound.protectPages huser (segmentPages ph.vaddr ph.memsz) hmapped
    have hprotect : (m'.fillSegment file ph).protectSegmentPages ph.vaddr ph.memsz ph.flags =
        Memory.protectPages (if test ph.flags elfPfW then pagePresent ||| pageUser ||| pageWritable
          else pagePresent ||| pageUser) (segmentPages ph.vaddr ph.memsz) (m'.fillSegment file ph) := rfl
    rw [hprotect, if_neg (not_not_intro hstatus)]
    exact .done m' _ new hall hpages hsupply hmapping (hfill.trans hkeeps)

/-- Segments that can be loaded: their pages do not overlap. -/
structure Loadable (file : List Byte) (phs : List ElfProgramHeader) : Prop where
  type : ∀ ph ∈ phs, ph.type = elfPtLoad
  safe : ∀ ph ∈ phs, SafeSegment file.length ph
  nonempty : ∀ ph ∈ phs, segmentPages ph.vaddr ph.memsz ≠ []
  disjoint : phs.Pairwise fun p q => Disjoint p.pageRange q.pageRange

/-- The other segments can be loaded. -/
theorem Loadable.tail (h : Loadable file (ph :: phs)) : Loadable file phs :=
  ⟨fun q hq => h.type q (List.mem_cons_of_mem _ hq), fun q hq => h.safe q (List.mem_cons_of_mem _ hq),
    fun q hq => h.nonempty q (List.mem_cons_of_mem _ hq), (List.pairwise_cons.mp h.disjoint).2⟩

/-- The pages of the other segments are not in the first. -/
theorem Loadable.apart (h : Loadable file (ph :: phs)) (hpage : page ∈ loadPages phs)
    (hpage' : page' ∈ segmentPages ph.vaddr ph.memsz) : pageSlot page' ≠ pageSlot page := by
  intro heq
  obtain ⟨q, hq, hpage⟩ := List.mem_flatMap.mp hpage
  obtain ⟨haligned, hrange⟩ := (h.safe q (List.mem_cons_of_mem _ hq)).mem_segmentPages hpage
  obtain ⟨haligned', hrange'⟩ := (h.safe ph List.mem_cons_self).mem_segmentPages hpage'
  have hsame := pageSlot_inj haligned' haligned heq
  have hdisjoint := (List.pairwise_cons.mp h.disjoint).1 q hq
  exact Set.disjoint_left.mp hdisjoint hrange' (hsame ▸ hrange)

/-- All pages are pages of the user range. -/
theorem Loadable.userPage (h : Loadable file phs) (hpage : page ∈ loadPages phs) :
    inUserRange (dirIndex page) := by
  obtain ⟨q, hq, hpage⟩ := List.mem_flatMap.mp hpage
  exact (h.safe q hq).userPage hpage

/-- All pages of a segment are fresh if none of them is mapped. -/
theorem freshPages_eq (m : Memory) (ph : ElfProgramHeader) :
    freshPages m ph = segmentPages ph.vaddr ph.memsz ↔
      ∀ page ∈ segmentPages ph.vaddr ph.memsz, m.pagingIsMapped page = false := by
  unfold freshPages
  rw [List.takeWhile_eq_self_iff]
  simp only [Bool.not_eq_true']

/-- Memory for all segments is memory for the fresh pages of the first. -/
theorem canMap_freshPages (h : m.CanMap (loadPages (ph :: phs))) :
    freshPages m ph = segmentPages ph.vaddr ph.memsz ∧
      (m.supply.takePages ((freshPages m ph).map dirIndex)).isSome = true := by
  obtain ⟨hunmapped, hsupply⟩ := h
  rw [loadPages_cons] at hunmapped hsupply
  have hall := (freshPages_eq m ph).mpr fun page hpage => hunmapped page (List.mem_append_left _ hpage)
  refine ⟨hall, ?_⟩
  rw [hall]
  rw [List.map_append, Memory.Supply.takePages_append] at hsupply
  exact Option.isSome_of_isSome_bind hsupply

/-- A load succeeds if none of its pages is mapped and there is memory for all of them; it unmaps no
page. -/
theorem Loadable.loadSegments (h : Loadable file phs) (hs : m.ActiveSound) :
    ((m.loadSegments file phs).1 = elfSuccess ↔ m.CanMap (loadPages phs)) ∧
      ∀ p : PageSlot, inUserRange p.1 → (m.mappedEntry p).isSome = true →
        ((m.loadSegments file phs).2.mappedEntry p).isSome = true := by
  induction phs generalizing m with
  | nil => exact ⟨iff_of_true rfl ⟨nofun, rfl⟩, fun _ _ => id⟩
  | cons ph phs ih =>
    have hrun := (h.safe ph List.mem_cons_self).loads (h.type ph List.mem_cons_self) hs phs
    generalize m.loadSegments file (ph :: phs) = r at hrun
    cases hrun with
    | exhausted m' hnone huntouched =>
      refine ⟨iff_of_false (by decide : elfEnospc ≠ elfSuccess) fun hcan => ?_, fun p hp hsome => ?_⟩
      · have hsome := (canMap_freshPages hcan).2
        rw [hnone] at hsome
        cases hsome
      · dsimp only
        rw [huntouched.pages p hp, hsome]
    | occupied m' new hne hfresh hsome hmapping =>
      exact ⟨iff_of_false (by decide : elfEinval ≠ elfSuccess) fun hcan => hne (canMap_freshPages hcan).1,
        fun p hp hsome => hmapping.isSome hp hsome⟩
    | done m' m'' new hall hpages hsupply hmapping hkeeps =>
      obtain ⟨hstatus, hstay⟩ := ih h.tail hkeeps.sound
      refine ⟨hstatus.trans ?_, fun p hp hsome =>
        hstay p hp ((hkeeps.isSome hp).trans (hmapping.isSome hp hsome))⟩
      have hsame : ∀ page ∈ loadPages phs, m''.pagingIsMapped page = m.pagingIsMapped page := by
        intro page hpage
        have hi := h.tail.userPage hpage
        rw [Memory.pagingIsMapped_eq, Memory.pagingIsMapped_eq, hkeeps.isSome (q := pageSlot page) hi,
          hmapping.others (pageSlot page) hi fun q hq => h.apart hpage ?_]
        rw [← hpages]
        exact List.mem_map_of_mem hq
      unfold Memory.CanMap
      rw [loadPages_cons, List.map_append, Memory.Supply.takePages_append, hsupply, Option.bind_some,
        hkeeps.supply]
      refine and_congr ⟨fun hrest page hpage => ?_, fun hrest page hpage => ?_⟩ Iff.rfl
      · rcases List.mem_append.mp hpage with hpage | hpage
        · exact (freshPages_eq m ph).mp hall page hpage
        · rw [← hsame page hpage, hrest page hpage]
      · rw [hsame page hpage, hrest page (List.mem_append_right _ hpage)]

/-- A page that was not mapped before is mapped. -/
theorem Memory.Untouched.not_mapped {m' : Memory} (h : m.Untouched m') {p : PageSlot} (hp : inUserRange p.1)
    (hnone : m.mappedEntry p = none) : ¬(m'.mappedEntry p).isSome = true := by
  rw [h.pages p hp, hnone]
  exact Bool.false_ne_true

/-- What is left of a load that fails. -/
theorem Loadable.untouched_iff (h : Loadable file (loadHeaders file)) (hs : m.ActiveSound) :
    ((m.loadSegments file (loadHeaders file)).1 ≠ elfSuccess →
        m.Untouched (m.loadSegments file (loadHeaders file)).2) ↔ ¬LoadStrands m file := by
  unfold LoadStrands
  rcases hheaders : loadHeaders file with _ | ⟨ph, phs⟩
  · exact iff_of_true (fun hc => absurd rfl hc) nofun
  rw [hheaders] at h
  have hsafe := h.safe ph List.mem_cons_self
  have hstatus := (h.loadSegments hs).1
  have hrun := hsafe.loads (h.type ph List.mem_cons_self) hs phs
  have hstrands : (∃ ph' phs', ph :: phs = ph' :: phs' ∧ freshPages m ph' ≠ [] ∧ m.CanMap (freshPages m ph') ∧
      ¬m.CanMap (loadPages (ph :: phs))) ↔ freshPages m ph ≠ [] ∧ m.CanMap (freshPages m ph) ∧
        ¬(m.loadSegments file (ph :: phs)).1 = elfSuccess := by
    rw [hstatus]
    constructor
    · rintro ⟨ph', phs', heq, hrest⟩
      obtain ⟨rfl, rfl⟩ := List.cons.inj heq
      exact hrest
    · exact fun hrest => ⟨ph, phs, rfl, hrest⟩
  have hcan (hsome : (m.supply.takePages ((freshPages m ph).map dirIndex)).isSome = true) :
      m.CanMap (freshPages m ph) := by
    refine ⟨fun page hpage => ?_, hsome⟩
    have hfresh := List.mem_takeWhile_imp hpage
    simpa using hfresh
  have hfirst {m' : Memory} {new : List (Word × Nat)} (hmapping : Memory.Mapping m m' new)
      (hnew : new.map Prod.fst = freshPages m ph) (hne : freshPages m ph ≠ []) {m'' : Memory}
      (hstay : ∀ p : PageSlot, inUserRange p.1 → (m'.mappedEntry p).isSome = true →
        (m''.mappedEntry p).isSome = true) : ¬m.Untouched m'' := by
    obtain ⟨q, new, rfl⟩ := List.exists_cons_of_ne_nil (l := new) fun hc => hne (by rw [← hnew, hc]; rfl)
    have hpage := hmapping.pages q List.mem_cons_self
    refine fun huntouched => huntouched.not_mapped (p := pageSlot q.1) hpage.user hpage.fresh
      (hstay _ hpage.user ?_)
    rw [hpage.mapped]
    rfl
  rw [hstrands]
  generalize m.loadSegments file (ph :: phs) = r at hrun
  cases hrun with
  | exhausted m' hnone huntouched =>
    refine iff_of_true (fun _ => huntouched) fun hc => ?_
    have hsome := hc.2.1.2
    rw [hnone] at hsome
    cases hsome
  | occupied m' new hne hnew hsome hmapping =>
    by_cases hfresh : freshPages m ph = []
    · rw [hfresh] at hnew
      rw [List.map_eq_nil_iff.mp hnew] at hmapping
      exact iff_of_true (fun _ => hmapping.untouched) fun hc => hc.1 hfresh
    · refine iff_of_false (fun hc => ?_) (not_not_intro ⟨hfresh, hcan hsome, (by decide : elfEinval ≠ elfSuccess)⟩)
      exact hfirst hmapping hnew hfresh (fun _ _ => id) (hc (by decide : elfEinval ≠ elfSuccess))
  | done m' m'' new hall hnew hsupply hmapping hkeeps =>
    have hne : freshPages m ph ≠ [] := hall ▸ h.nonempty ph List.mem_cons_self
    by_cases hdone : (m''.loadSegments file phs).1 = elfSuccess
    · exact iff_of_true (fun hc => absurd hdone hc) fun hc => hc.2.2 hdone
    · refine iff_of_false (fun hc => ?_)
        (not_not_intro ⟨hne, hcan (by rw [hall, hsupply]; rfl), hdone⟩)
      refine hfirst hmapping (hnew.trans hall.symm) hne (fun p hp hsome => ?_) (hc hdone)
      exact (h.tail.loadSegments hkeeps.sound).2 p hp ((hkeeps.isSome hp).trans hsome)

end

end AgenticOs
