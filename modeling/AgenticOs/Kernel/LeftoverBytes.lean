import AgenticOs.Kernel.ElfEntry
import AgenticOs.Kernel.ElfLoaded
import AgenticOs.Memory.Refusals

/-!
# What is left of old contents in a loaded image

The loader maps whole pages and writes the bytes of its segments into them. A frame comes from the allocator as
its last owner has left it, so that the bytes of a page before and behind the segment are old ones (`Leftover`).

* **Free frames** (`KeepsSpare`): a call that takes frames writes only to those it takes, and the others hold what
  they held. This is shown of a new address space (`create_spare`), of a page that is mapped
  (`UserPages.map_spare`), of bytes that are stored (`UserPages.storeBytes_spare`) and of flags that are changed
  (`UserPages.protectPages_spare`).
* **Pages** (`UserPages.mapPages_spare`): a page that has just been mapped shows the old contents of its frame.
* **Segments** (`SafeSegment.leftover`): so does, after the segment has been stored and protected, what lies in its
  pages and not in the segment.
* **Main result** (`Loadable.leftover`): this holds of all segments of an image, whatever the file.

`syscallExec_starts` carries it on to the program that runs, and `exec_image_clean_iff` concludes which files show
nothing of what was in memory before.
-/

namespace AgenticOs

open Function Lib

namespace Memory

variable {m m' m'' : Memory} {f g : Nat} {x va : Word} {P : Set PageSlot}

/-! ### Frames that stay free -/

/-- The frames that are free were free, and hold what they held. -/
structure KeepsSpare (m m' : Memory) : Prop where
  free : ∀ g, Pool m'.frames g → Pool m.frames g
  words : ∀ g, Pool m'.frames g → m'.ram g = m.ram g

/-- Nothing has happened. -/
theorem KeepsSpare.refl (m : Memory) : m.KeepsSpare m := ⟨fun _ => id, fun _ _ => rfl⟩

/-- First one thing and then another. -/
theorem KeepsSpare.trans (h : m.KeepsSpare m') (h' : m'.KeepsSpare m'') : m.KeepsSpare m'' :=
  ⟨fun g hg => h.free g (h'.free g hg), fun g hg => (h'.words g hg).trans (h.words g (h'.free g hg))⟩

/-- A frame in use is written. -/
theorem KeepsSpare.writeFrame (hused : m.frames.frameBitmap f = true) (w : TableIndex → Word) :
    m.KeepsSpare (m.writeFrame f w) := by
  refine ⟨fun _ => id, fun g hg => update_of_ne ?_ ..⟩
  rintro rfl
  exact absurd (hused.symm.trans hg.2.2) nofun

/-- Another directory is loaded. -/
theorem KeepsSpare.switch (m : Memory) (cr3 : Word) : m.KeepsSpare (m.pagingSwitchDirectory cr3) := by
  unfold pagingSwitchDirectory
  split
  · exact .refl m
  · exact ⟨fun _ => id, fun _ _ => rfl⟩

/-- A frame that was taken is not free. -/
theorem pool_take (hg : Pool (m.frames.take f) g) : Pool m.frames g ∧ g ≠ f := by
  have hne : g ≠ f := by
    rintro rfl
    exact absurd ((update_self ..).symm.trans hg.2.2) nofun
  exact ⟨⟨hg.1, hg.2.1, (FrameState.take_bitmap_of_ne hne).symm.trans hg.2.2⟩, hne⟩

/-- A free frame is taken and written. -/
theorem KeepsSpare.take (m : Memory) (f : Nat) (w : TableIndex → Word) :
    m.KeepsSpare ((m.withFrames (m.frames.take f)).writeFrame f w) :=
  ⟨fun _ hg => (pool_take hg).1, fun _ hg => update_of_ne (pool_take hg).2 ..⟩

/-- The entries of the kernel are written into a directory. -/
theorem KeepsSpare.shareSupervisor {d : Nat} (hd : d < 1048576) (hused : m.frames.frameBitmap d = true) :
    m.KeepsSpare (m.shareSupervisor (frameAddr d)) := by
  have hframes := m.shareSupervisor_frames (frameAddr d)
  refine ⟨fun g hg => hframes ▸ hg, fun g hg => Represents.shareSupervisor_ram hd ?_ m⟩
  rintro rfl
  rw [hframes] at hg
  exact absurd (hused.symm.trans hg.2.2) nofun

/-- The two frames of a new address space are written, and no other one. -/
theorem create_spare (hinit : m.frames.frameInitialized = true) (hcounted : m.frames.Counted)
    (hdone : m.pagingCreateAddressSpace.1 ≠ 0) : m.KeepsSpare m.pagingCreateAddressSpace.2 := by
  unfold pagingCreateAddressSpace at hdone ⊢
  rcases allocTable_lowest hinit hcounted.total_le with ⟨-, halloc⟩ | ⟨d, -, hd, halloc⟩
  · rw [halloc, if_pos rfl] at hdone
    exact absurd rfl hdone
  have hcounted₁ := hcounted.take hd.lt hd.free
  have hfirst := KeepsSpare.take m d fun _ => 0x02
  have hd' : d < 1048576 := hd.lt_max hcounted
  have hused : ((m.withFrames (m.frames.take d)).writeFrame d fun _ => 0x02).frames.frameBitmap d = true :=
    update_self ..
  have hcounted₁' : ((m.withFrames (m.frames.take d)).writeFrame d fun _ => 0x02).frames.Counted := hcounted₁
  have hinit' : ((m.withFrames (m.frames.take d)).writeFrame d fun _ => 0x02).frames.frameInitialized = true := hinit
  rw [halloc] at hdone ⊢
  generalize (m.withFrames (m.frames.take d)).writeFrame d (fun _ => 0x02) = m₁ at *
  dsimp only at hdone ⊢
  rw [if_neg (hd.frameAddr_ne_zero hcounted)] at hdone ⊢
  rcases allocTable_lowest hinit' hcounted₁'.total_le with ⟨-, halloc'⟩ | ⟨t, -, ht, halloc'⟩
  · rw [halloc', if_pos rfl] at hdone
    exact absurd rfl hdone
  have hne : d ≠ t := by
    rintro rfl
    exact absurd (hused.symm.trans ht.free) nofun
  rw [halloc']
  dsimp only
  rw [if_neg (ht.frameAddr_ne_zero hcounted₁'), fillTable_eq, frameOf_frameAddr (ht.lt_max hcounted₁'),
    Represents.setEntry_frameAddr hd']
  have hsecond := KeepsSpare.take m₁ t fun _ => 0x02
  have hboth : ((m₁.withFrames (m₁.frames.take t)).writeFrame t fun _ => 0x02).frames.frameBitmap d = true ∧
      ((m₁.withFrames (m₁.frames.take t)).writeFrame t fun _ => 0x02).frames.frameBitmap t = true :=
    ⟨(FrameState.take_bitmap_of_ne hne).trans hused, update_self ..⟩
  generalize (m₁.withFrames (m₁.frames.take t)).writeFrame t (fun _ => 0x02) = m₂ at *
  -- what follows writes the two frames, and both are in use
  have hidentity : m₂.KeepsSpare (m₂.writeFrame t identityEntry) := .writeFrame hboth.2 _
  have hentry := KeepsSpare.writeFrame (m := m₂.writeFrame t identityEntry) hboth.1
    (update ((m₂.writeFrame t identityEntry).ram d) 0 (frameAddr t ||| pagePresent ||| pageWritable))
  have hshared := KeepsSpare.shareSupervisor (m := (m₂.writeFrame t identityEntry).writeFrame d
    (update ((m₂.writeFrame t identityEntry).ram d) 0 (frameAddr t ||| pagePresent ||| pageWritable))) hd' hboth.1
  exact (((hfirst.trans hsecond).trans hidentity).trans hentry).trans hshared

namespace UserPages

/-- A page is mapped: its frame, too, holds what it held. -/
theorem map_spare (h : m.UserPages) {flags : Word} (hi : inUserRange (dirIndex va)) (huser : isUser flags = true)
    (hf : m.frames.Lowest f) (halloc : m.frameAlloc = (frameAddr f, m.withFrames (m.frames.take f)))
    (hmap : (m.withFrames (m.frames.take f)).pagingMapPageInDirectory m.activePageDirectory va (frameAddr f)
      flags = (true, m')) : m.KeepsSpare m' ∧ m'.ram f = m.ram f := by
  have hcounted := h.sound.counted
  have hsame {f' : Nat} (hf' : m.frames.Lowest f')
      (halloc' : m.frameAlloc = (frameAddr f', m.withFrames (m.frames.take f'))) : f' = f :=
    frameAddr_inj (hf'.lt_max hcounted) (hf.lt_max hcounted) (congrArg Prod.fst (halloc'.symm.trans halloc))
  rcases h.sound.map_installs hi huser with
    ⟨-, hnone | ⟨f', hf', halloc', hfails⟩⟩ | ⟨f', fr, t, w, dirEntry, hf', halloc', hdone, htable, -⟩
  · exact absurd (congrArg Prod.fst (halloc.symm.trans hnone)) (hf.frameAddr_ne_zero hcounted)
  · obtain rfl := hsame hf' halloc'
    cases hfails.symm.trans hmap
  obtain rfl := hsame hf' halloc'
  obtain rfl : _ = m' := congrArg Prod.snd (hdone.symm.trans hmap)
  obtain ⟨hfd, hft⟩ := h.sound.ne_of_free hf.free
  have hplace : t ≠ f' ∧ ∀ g, Pool fr g → Pool m.frames g ∧ g ≠ t := by
    rcases htable.place with ⟨hhas, rfl, -, rfl⟩ | ⟨-, -, hne, rfl, -⟩
    · refine ⟨fun heq => hft ⟨_, hi, hhas, heq⟩, fun g hg => ⟨(pool_take hg).1, ?_⟩⟩
      rintro rfl
      exact absurd ((h.sound.tables _ hi hhas).1.symm.trans (pool_take hg).1.2.2) nofun
    · refine ⟨hne, fun g hg => ?_⟩
      obtain ⟨hg₁, hgt⟩ := pool_take (m := m.withFrames (m.frames.take f')) hg
      exact ⟨(pool_take hg₁).1, hgt⟩
  refine ⟨⟨fun g hg => (hplace.2 g hg).1, fun g hg => ?_⟩, install_ram_other hplace.1.symm hfd⟩
  obtain ⟨hg₀, hgt⟩ := hplace.2 g hg
  exact install_ram_other hgt (h.sound.ne_of_free hg₀.2.2).1

/-- Stores go to frames in use. -/
theorem storeBytes_spare (h : m.UserPages) {bytes : List Byte}
    (hpages : ∀ k < bytes.length, (m.userPage (pageSlot (va + BitVec.ofNat 32 k))).isSome = true) :
    m.KeepsSpare (m.storeBytes va bytes) := by
  induction bytes generalizing m va with
  | nil => exact .refl m
  | cons b bytes ih =>
    rw [List.length_cons] at hpages
    have hfirst := hpages 0 (Nat.succ_pos _)
    rw [BitVec.add_zero] at hfirst
    obtain ⟨e, hpage⟩ := Option.isSome_iff_exists.mp hfirst
    obtain ⟨hstored, hentries⟩ := h.storeByte hpage b
    have hone : m.KeepsSpare (m.storeByte va b) := by
      rw [storeByte_eq hpage]
      exact .writeFrame (h.frames _ e hpage).used _
    refine hone.trans (ih hstored fun k hk => ?_)
    rw [hentries, ← add_ofNat_succ]
    exact hpages (k + 1) (Nat.succ_lt_succ hk)

/-- Flags are in tables, and tables in frames in use. -/
theorem protectPages_spare (h : m.UserPages) {flags : Word} (hflags : isUser flags = true) {pages : List Word}
    (hpages : ∀ page ∈ pages, (m.userPage (pageSlot page)).isSome = true) :
    m.KeepsSpare (m.protectPages flags pages).2 := by
  induction pages generalizing m with
  | nil => exact .refl m
  | cons page pages ih =>
    obtain ⟨e, hpage⟩ := Option.isSome_iff_exists.mp (hpages page List.mem_cons_self)
    obtain ⟨hhas, hentry, hpresent, -⟩ := userPage_some hpage
    have hi := h.inRange _ e hpage
    have htable := h.sound.tables _ hi hhas
    obtain ⟨m₁, hset, hpaged, -⟩ := h.setFlags hpage hflags
    obtain ⟨-, -, -, huser⟩ := newEntry_facts (frameOf_lt e) flags
    have hself := hpaged.userPage_self (huser.trans hflags)
    have hstill : ∀ page' ∈ pages, (m₁.userPage (pageSlot page')).isSome = true := fun page' hpage' => by
      by_cases hq : pageSlot page' = pageSlot page
      · rw [hq, hself]
        rfl
      · rw [hpaged.userPage_other hq]
        exact hpages page' (List.mem_cons_of_mem _ hpage')
    have hone : m.KeepsSpare m₁ := by
      have hinstalls := setFlags_eq h.sound.active hhas htable.2.2 hentry hpresent hflags
      obtain rfl : _ = m₁ := congrArg Prod.snd (hinstalls.symm.trans hset)
      refine ⟨fun _ => id, fun g hg => install_ram_other ?_ ?_⟩
      · rintro rfl
        exact absurd (htable.1.symm.trans hg.2.2) nofun
      · rintro rfl
        exact absurd (h.sound.directory.symm.trans hg.2.2) nofun
    have hrun : m.protectPages flags (page :: pages) = m₁.protectPages flags pages := by
      have hset' : m.pagingSetPageFlagsInDirectory m.pagingGetCurrentDirectory page flags = (true, m₁) := hset
      show (if (m.pagingSetPageFlagsInDirectory m.pagingGetCurrentDirectory page flags).1 = false then _ else _) = _
      rw [hset']
      rfl
    rw [hrun]
    exact hone.trans (ih hpaged.pages hstill)

end UserPages

/-! ### What is found there -/

/-- At an address of `m'` a program finds what was in a frame that was free. -/
def Leftover (m m' : Memory) (x : Word) : Prop :=
  ∃ g, Pool m.frames g ∧ m'.userLoad m'.activePageDirectory x = some (pageByte (m.ram g) (pageOffset x))

/-- What was left before was left at an earlier time, too. -/
theorem Leftover.of_spare (hspare : m.KeepsSpare m') (h : m'.Leftover m'' x) : m.Leftover m'' x := by
  obtain ⟨g, hg, hload⟩ := h
  exact ⟨g, hspare.free g hg, (hspare.words g hg) ▸ hload⟩

/-- And is as long as the byte is not written. -/
theorem Leftover.load (h : m.Leftover m' x)
    (hload : m''.userLoad m''.activePageDirectory x = m'.userLoad m'.activePageDirectory x) : m.Leftover m'' x := by
  obtain ⟨g, hg, hfound⟩ := h
  exact ⟨g, hg, hload.trans hfound⟩

/-- The pages that are mapped one after another show what their frames held. -/
theorem UserPages.mapPages_spare (h : m.UserPages) {pages : List Word}
    (hpages : ∀ page ∈ pages, inUserRange (dirIndex page)) {mapped : List (Word × Word)}
    (hrun : m.mapPages pages mapped = (elfSuccess, m')) :
    m.KeepsSpare m' ∧ ∀ x, pageSlot x ∈ pageSlots pages → m.Leftover m' x := by
  induction pages generalizing m mapped with
  | nil =>
    cases hrun
    exact ⟨.refl _, fun x ⟨page, hpage, _⟩ => nomatch hpage⟩
  | cons page pages ih =>
    unfold Memory.mapPages at hrun
    dsimp only at hrun
    split at hrun
    · cases hrun
    split at hrun
    · cases hrun
    rename_i hnonzero
    have huserFlags : isUser loadFlags = true := by decide
    rcases h.mapFresh (hpages page List.mem_cons_self) huserFlags with
      ⟨-, hnone | ⟨f, hf, halloc, hmap⟩⟩ | ⟨f, m₁, hf, halloc, hmap, hpaged, -⟩
    · exact absurd (congrArg Prod.fst hnone) hnonzero
    · rw [halloc] at hrun
      have hfails : (m.withFrames (m.frames.take f)).pagingMapPageInDirectory
        (m.withFrames (m.frames.take f)).pagingGetCurrentDirectory page (frameAddr f) loadFlags = _ := hmap
      rw [hfails, if_pos rfl] at hrun
      cases hrun
    · rw [halloc] at hrun
      have hmaps : (m.withFrames (m.frames.take f)).pagingMapPageInDirectory
        (m.withFrames (m.frames.take f)).pagingGetCurrentDirectory page (frameAddr f) loadFlags = _ := hmap
      rw [hmaps] at hrun
      dsimp only at hrun
      rw [if_neg (by decide)] at hrun
      split at hrun
      · cases hrun
      obtain ⟨hfirst, hwords⟩ := h.map_spare (hpages page List.mem_cons_self) huserFlags hf halloc hmap
      have hrange : ∀ page' ∈ pages, inUserRange (dirIndex page') :=
        fun page' hpage' => hpages page' (List.mem_cons_of_mem _ hpage')
      obtain ⟨-, hsame, -⟩ := hpaged.pages.mapPages hrange hrun
      obtain ⟨hrest, hothers⟩ := ih hpaged.pages hrange hrun
      have hlt := hf.lt_max h.sound.counted
      have hframe : frameOf (newEntry f loadFlags) = f := (newEntry_facts hlt loadFlags).1
      have huser : isUser (newEntry f loadFlags) = true := (newEntry_facts hlt loadFlags).2.2.2.trans huserFlags
      refine ⟨hfirst.trans hrest, fun x hx => ?_⟩
      by_cases hlater : pageSlot x ∈ pageSlots pages
      · exact (hothers x hlater).of_spare hfirst
      · rw [pageSlots_cons] at hx
        have hslot : pageSlot x = pageSlot page := hx.resolve_right hlater
        refine Leftover.load ⟨f, ⟨hf.low, hf.lt, hf.free⟩, ?_⟩ (hsame.loads x hlater)
        rw [hpaged.pages.userLoad_eq, hslot, hpaged.userPage_self huser, Option.map_some, hframe, hwords]

end Memory

/-! ### Segments -/

section

variable {file : List Byte} {ph : ElfProgramHeader} {phs : List ElfProgramHeader} {m m' : Memory} {x : Word}

/-- A segment is stored over part of its pages. -/
theorem SafeSegment.fill_spare (h : SafeSegment file.length ph) (hm : m.UserPages)
    (hpages : ∀ q ∈ ph.slots, (m.userPage q).isSome = true) :
    m.KeepsSpare (m.fillSegment file ph) ∧ ∀ x : Word, ¬ph.Contains x.toNat →
      (m.fillSegment file ph).userLoad (m.fillSegment file ph).activePageDirectory x =
        m.userLoad m.activePageDirectory x := by
  have hstop := h.stop_le
  have hfilesz := h.filesz_le
  unfold Memory.fillSegment
  generalize hz : List.replicate ph.memsz.toNat (0 : Byte) = zeros
  generalize hf : (List.range ph.filesz.toNat).map (fun i => fileByte file (ph.offset.toNat + i)) = data
  have hzlen : zeros.length = ph.memsz.toNat := by rw [← hz, List.length_replicate]
  have hflen : data.length = ph.filesz.toNat := by rw [← hf, List.length_map, List.length_range]
  have hin : ∀ k < zeros.length, (m.userPage (pageSlot (ph.vaddr + BitVec.ofNat 32 k))).isSome = true :=
    fun k hk => hpages _ (h.address_slot (by omega))
  have hzeros : m.Stored (m.storeBytes ph.vaddr zeros) ph.vaddr zeros := hm.storeBytes (by omega) hin
  have hspare : m.KeepsSpare (m.storeBytes ph.vaddr zeros) := hm.storeBytes_spare hin
  generalize m.storeBytes ph.vaddr zeros = m₁ at hzeros hspare ⊢
  have hin₁ : ∀ k < data.length, (m₁.userPage (pageSlot (ph.vaddr + BitVec.ofNat 32 k))).isSome = true := by
    intro k hk
    rw [hzeros.entries]
    exact hpages _ (h.address_slot (by omega))
  have hdata : m₁.Stored (m₁.storeBytes ph.vaddr data) ph.vaddr data := hzeros.pages.storeBytes (by omega) hin₁
  refine ⟨hspare.trans (hzeros.pages.storeBytes_spare hin₁), fun x hx => ?_⟩
  unfold ElfProgramHeader.Contains at hx
  rw [hdata.loads, if_neg (by omega), hzeros.loads, if_neg (by omega)]

/-- What lies in the pages of a segment and not in the segment. -/
theorem SafeSegment.leftover (h : SafeSegment file.length ph) (hm : m.UserPages)
    (hmap : (m.mapSegmentPages ph.vaddr ph.memsz).1 = elfSuccess) :
    let loaded := ((m.mapSegmentPages ph.vaddr ph.memsz).2.fillSegment file ph).protectSegmentPages ph.vaddr ph.memsz
      ph.flags
    m.KeepsSpare loaded.2 ∧ ∀ x, pageSlot x ∈ ph.slots → ¬ph.Contains x.toNat → m.Leftover loaded.2 x := by
  have hrun : m.mapPages (segmentPages ph.vaddr ph.memsz) [] =
      (elfSuccess, (m.mapSegmentPages ph.vaddr ph.memsz).2) := Prod.ext hmap rfl
  have hrange : ∀ page ∈ segmentPages ph.vaddr ph.memsz, inUserRange (dirIndex page) := fun page => h.userPage
  obtain ⟨hm₁, -, hsome⟩ := hm.mapPages hrange hrun
  obtain ⟨hmapped, hleft⟩ := hm.mapPages_spare hrange hrun
  generalize (m.mapSegmentPages ph.vaddr ph.memsz).2 = m₁ at hm₁ hsome hmapped hleft ⊢
  obtain ⟨hm₂, -, hentries, -⟩ := h.filled hm₁ hsome
  obtain ⟨hfilled, hkept⟩ := h.fill_spare hm₁ hsome
  generalize m₁.fillSegment file ph = m₂ at hm₂ hentries hfilled hkept ⊢
  have hflags : isUser (if test ph.flags elfPfW then pagePresent ||| pageUser ||| pageWritable
      else pagePresent ||| pageUser) = true := by
    rcases test ph.flags elfPfW with _ | _ <;> decide
  have hpages : ∀ page ∈ segmentPages ph.vaddr ph.memsz, (m₂.userPage (pageSlot page)).isSome = true := by
    intro page hpage
    rw [hentries]
    exact hsome _ ⟨page, hpage, rfl⟩
  obtain ⟨m', hprotect, -, -, hbytes, -⟩ := hm₂.protectPages hflags hpages
  have hprotected := hm₂.protectPages_spare hflags hpages
  unfold Memory.protectSegmentPages
  dsimp only
  rw [hprotect] at hprotected ⊢
  refine ⟨(hmapped.trans hfilled).trans hprotected, fun x hx hout => ?_⟩
  exact (hleft x hx).load ((hbytes x).trans (hkept x hout))

/-- **What is left in an image**: in the pages of a segment and not in the segment, old contents are found. -/
theorem Loadable.leftover (h : Loadable file phs) (hm : m.UserPages)
    (hload : m.loadSegments file phs = (elfSuccess, m')) :
    m.KeepsSpare m' ∧ ∀ ph ∈ phs, ∀ x, pageSlot x ∈ ph.slots → ¬ph.Contains x.toNat → m.Leftover m' x := by
  induction phs generalizing m with
  | nil =>
    cases hload
    exact ⟨.refl _, nofun⟩
  | cons ph phs ih =>
    have hsafe := h.safe ph List.mem_cons_self
    unfold Memory.loadSegments at hload
    rw [if_neg (not_not_intro (h.type ph List.mem_cons_self))] at hload
    dsimp only at hload
    split at hload
    · rename_i hfails
      exact absurd (congrArg Prod.fst hload) hfails
    rename_i hmap
    obtain ⟨m₁, hrun, hm₁, -⟩ := hsafe.loaded hm (not_not.mp hmap)
    obtain ⟨hspare, hleft⟩ := hsafe.leftover hm (not_not.mp hmap)
    rw [hrun] at hspare hleft
    rw [hrun, if_neg (not_not_intro rfl)] at hload
    obtain ⟨-, hsame, -⟩ := h.tail.holds hm₁ hload
    obtain ⟨hspare', hleft'⟩ := ih h.tail hm₁ hload
    refine ⟨hspare.trans hspare', List.forall_mem_cons.mpr ⟨fun x hx hout => ?_, fun q hq x hx hout => ?_⟩⟩
    · -- the pages of the later segments are other pages
      refine (hleft x hx hout).load (hsame.loads x ?_)
      obtain ⟨page, hpage, heq⟩ := hx
      rintro ⟨page', hpage', heq'⟩
      exact h.apart hpage' hpage (heq.trans heq'.symm)
    · exact (hleft' q hq x hx hout).of_spare hspare

/-- In the pages of the segments of a file, and in no segment, a program finds old contents. -/
def Memory.ShowsOld (m m' : Memory) (file : List Byte) : Prop :=
  ∀ ph ∈ loadHeaders file, ∀ x, pageSlot x ∈ ph.slots → ¬ph.Contains x.toNat → m.Leftover m' x

/-- They were old before frames were taken. -/
theorem Memory.ShowsOld.of_spare {m'' : Memory} (hspare : m.KeepsSpare m') (h : m'.ShowsOld m'' file) :
    m.ShowsOld m'' file := fun ph hph x hx hout => (h ph hph x hx hout).of_spare hspare

/-- They stay as long as the pages of the segments do. -/
theorem Memory.ShowsOld.samePages {m'' : Memory} {P : Set PageSlot} (h : m.ShowsOld m' file)
    (hsame : m'.SamePages m'' P) (hP : ∀ ph ∈ loadHeaders file, ph.slots ⊆ P) : m.ShowsOld m'' file :=
  fun ph hph x hx hout => (h ph hph x hx hout).load (hsame.loads x (hP ph hph hx))

end

end AgenticOs
