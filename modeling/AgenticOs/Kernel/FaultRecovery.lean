import AgenticOs.Kernel.PageWalk
import AgenticOs.Memory.UserPages

/-!
# Page-fault recovery is atomic

A fault, or the kernel before it writes to user memory, makes a page writable in one of two ways: a
copy-on-write page gets a frame of its own, a heap page that was not touched yet gets a fresh one.

* **Copy-on-write** (`CowResult`): there is nothing to resolve (`resolve_none`), or the page is made writable
  in place, or its frame is replaced by a copy, or there is no frame for one (`resolve_some`). The scratch
  mappings come and go (`copyPhysicalPage_eq`).
* **Heap pages** (`UserPages.demandMap`): nothing can be had for the page or its table, or a cleared page is
  mapped.
* **Recovery** (`Atomic`): both change nothing when memory runs out, and otherwise one page only
  (`Recovered`).
* **Main result** (`fault_recovery_atomic`): for `vm_handle_page_fault` and `vm_prepare_user_write_page`, in
  every address space of user pages. The flags `0x02` of the absent entries of a new table are the exception
  (`recovery_changes_neighbours`).
-/

namespace AgenticOs

open Function Lib

namespace Memory

variable {m m' : Memory} {f g : Nat} {p : PageSlot} {e va page : Word}

/-! ### Copy-on-write -/

/-- The scratch mappings come and go. -/
theorem copyPhysicalPage_eq (h : m.kernelScratchTable ≠ 0 → m.ScratchIdle) (hf : f < 1048576) (hg : g < 1048576)
    (hfs : m.kernelScratchTable ≠ 0 → f ≠ frameOf m.kernelScratchTable)
    (hgs : m.kernelScratchTable ≠ 0 → g ≠ frameOf m.kernelScratchTable) :
    m.copyPhysicalPage (frameAddr g) (frameAddr f) =
      if m.kernelScratchTable = 0 then (false, m) else (true, m.writeFrame f (m.ram g)) := by
  unfold copyPhysicalPage
  by_cases hs : m.kernelScratchTable = 0
  · rw [if_pos (.inl hs), if_pos hs]
  rw [if_neg (by
    rw [not_or, not_or, not_not, not_not]
    exact ⟨hs, frameAddr_aligned _, frameAddr_aligned _⟩), if_neg hs]
  have hfs := hfs hs
  have hgs := hgs hs
  have hsource := (h hs).source
  have hdest := (h hs).dest
  unfold setEntry
  dsimp only
  simp only [writeFrame_scratch, frameOf_frameAddr hf, frameOf_frameAddr hg]
  generalize frameOf m.kernelScratchTable = k at *
  -- the two entries are as before
  have hrow (x y : Word) : update (update (update (update (m.ram k) 0 x) 1 y) 0 pageWritable) 1 pageWritable =
      m.ram k := by
    funext i
    by_cases h1 : i = 1
    · rw [h1, update_self, hdest]
    by_cases h0 : i = 0
    · rw [h0, update_of_ne (by decide), update_self, hsource]
    · rw [update_of_ne h1, update_of_ne h0, update_of_ne h1, update_of_ne h0]
  have hself : m.writeFrame k (m.ram k) = m := by
    unfold writeFrame
    rw [update_eq_self]
  simp only [writeFrame_writeFrame, writeFrame_ram, update_self, update_of_ne hgs, update_of_ne hfs.symm,
    writeFrame_comm hfs, hrow, hself]

/-- What `paging_resolve_cow_fault` does to the page at a place. -/
inductive CowResult (m : Memory) (p : PageSlot) : Bool × Memory → Prop
  /-- no copy-on-write page -/
  | unresolvable : (∀ e, m.userPage p = some e → isCow e = false ∨ isWritable e = true) →
      CowResult m p (false, m)
  /-- no memory -/
  | exhausted (e : Word) : m.userPage p = some e → isCow e = true → isWritable e = false →
      2 ≤ m.frames.frameRefcounts (frameOf e) → m.supply.all = 0 ∨ m.kernelScratchTable = 0 →
      CowResult m p (false, m)
  /-- the last reference: the page is made writable -/
  | reused (e : Word) (m' : Memory) : m.userPage p = some e → isCow e = true → isWritable e = false →
      m.frames.frameRefcounts (frameOf e) = 1 → m'.frames = m.frames → m'.ram (frameOf e) = m.ram (frameOf e) →
      m.Repaged m' p ((e ||| pageWritable) &&& ~~~pageCow) → CowResult m p (true, m')
  /-- the page is copied -/
  | copied (e : Word) (f : Nat) (m' : Memory) : m.userPage p = some e → isCow e = true → isWritable e = false →
      2 ≤ m.frames.frameRefcounts (frameOf e) → m.frames.Lowest f →
      m'.frames = (m.frames.take f).dropRef (frameOf e) → m'.ram f = m.ram (frameOf e) →
      m.Repaged m' p (frameAddr f ||| (e &&& flagMask ||| pageWritable) &&& ~~~pageCow) → CowResult m p (true, m')

/-- An entry of a table, in its frame. -/
theorem entry_table (m : Memory) (i j : TableIndex) :
    m.entry (m.ram m.directory i &&& addrMask) j = m.ram (m.tableFrame i) j := by
  unfold entry
  rw [frameOf_and_addrMask]
  rfl

/-- An entry that is written, with its frame. -/
theorem setEntry_table (m : Memory) (va e : Word) :
    m.setEntry (m.ram m.directory (dirIndex va) &&& addrMask) (tableIndex va) e =
      m.install m.frames (m.tableFrame (dirIndex va)) (m.ram (m.tableFrame (dirIndex va))) (pageSlot va)
        (m.ram m.directory (dirIndex va)) e :=
  m.setEntry_install (pageSlot va) e

namespace UserPages

/-- The frame of a page is counted. -/
theorem refcount_pos (h : m.UserPages) (hpage : m.userPage p = some e) :
    0 < m.frames.frameRefcounts (frameOf e) := by
  have hframe := h.frames p e hpage
  exact (h.sound.counted.live_iff _ hframe.lt).mp hframe.used

/-- There is nothing to resolve. -/
theorem resolve_none (hno : ∀ e, m.userPage (pageSlot va) = some e → isCow e = false ∨ isWritable e = true) :
    m.pagingResolveCowFault m.activePageDirectory va = (false, m) := by
  unfold pagingResolveCowFault
  dsimp only
  rw [entry_directory, test_pagePresent, entry_table]
  split
  · rfl
  rename_i hdir
  simp only [not_or, Bool.not_eq_false] at hdir
  refine if_pos ?_
  rw [has_or, has_or, has_pagePresent, has_pageUser, has_pageCow, test_pageWritable]
  by_contra hc
  simp only [not_or, Bool.not_eq_false, Bool.and_eq_true, Bool.not_eq_true] at hc
  have hpage := (userPage_eq m (pageSlot va)).trans (if_pos ⟨hdir.2, hc.1.1.1, hc.1.1.2⟩)
  rcases hno _ hpage with hcow | hwritable
  · exact absurd (hc.1.2.symm.trans hcow) nofun
  · exact absurd (hwritable.symm.trans hc.2) nofun

/-- A copy-on-write page is reused or copied. -/
theorem resolve_some (hactive : m.activePageDirectory ≠ 0) (hpage : m.userPage (pageSlot va) = some e)
    (hcow : isCow e = true) (hwritable : isWritable e = false) :
    m.pagingResolveCowFault m.activePageDirectory va =
      (let oldPhys := frameAddr (frameOf e)
      let refs := m.frames.frameGetRefcount oldPhys
      if refs = 0 then (false, m)
      else if refs = 1 then
        (true, m.setEntry (m.ram m.directory (dirIndex va) &&& addrMask) (tableIndex va)
          ((e ||| pageWritable) &&& ~~~pageCow))
      else
        let r := m.frameAlloc
        let newPhys := r.1
        if newPhys = 0 then (false, r.2)
        else
          let r := r.2.copyPhysicalPage oldPhys newPhys
          if r.1 = false then (false, (r.2.frameRelease newPhys).2)
          else
            let m' := r.2.setEntry (m.ram m.directory (dirIndex va) &&& addrMask) (tableIndex va)
              (newPhys ||| (e &&& flagMask ||| pageWritable) &&& ~~~pageCow)
            (true, (m'.frameRelease oldPhys).2)) := by
  obtain ⟨hhas, hentry, hpresent, huser⟩ := userPage_some hpage
  have hdir : isPresent (m.ram m.directory (dirIndex va)) = true := hhas
  have he : m.ram (m.tableFrame (dirIndex va)) (tableIndex va) = e := hentry
  unfold pagingResolveCowFault
  dsimp only
  rw [entry_directory, test_pagePresent, entry_table, he, if_neg (by rw [hdir]; exact not_or.mpr ⟨hactive, nofun⟩),
    if_neg, and_addrMask]
  rw [has_or, has_or, has_pagePresent, has_pageUser, has_pageCow, test_pageWritable, hpresent, huser, hcow,
    hwritable]
  decide

/-- A reference to a page frame is released after an entry is written. -/
theorem release_install (h : m.UserPages) (hg : m.PageFrame g) (t : Nat) (w : TableIndex → Word) (dirEntry : Word) :
    ((m.install m.frames t w p dirEntry e).frameRelease (frameAddr g)).2 =
      m.install (m.frames.dropRef g) t w p dirEntry e := by
  have hpos := (h.sound.counted.live_iff g hg.lt).mp hg.used
  have hrelease := FrameState.frameRelease_eq h.sound.counted h.sound.initialized hg.low hg.lt hpos
  unfold Memory.frameRelease
  rw [show (m.install m.frames t w p dirEntry e).frames = m.frames from rfl, hrelease]
  rfl

/-- The page of a free frame that is taken and filled. -/
def filled (m : Memory) (f g : Nat) : Memory := (m.withFrames (m.frames.take f)).writeFrame f (m.ram g)

/-- The frame takes the place of the shared one. -/
theorem replaceFrame (h : m.UserPages) (hf : m.frames.Lowest f) (hpage : m.userPage (pageSlot va) = some e)
    (hmany : 2 ≤ m.frames.frameRefcounts (frameOf e)) :
    ∃ m', (((filled m f (frameOf e)).setEntry (m.ram m.directory (dirIndex va) &&& addrMask) (tableIndex va)
        (frameAddr f ||| (e &&& flagMask ||| pageWritable) &&& ~~~pageCow)).frameRelease
          (frameAddr (frameOf e))).2 = m' ∧
      m'.frames = (m.frames.take f).dropRef (frameOf e) ∧ m'.ram f = m.ram (frameOf e) ∧
      m.Repaged m' (pageSlot va) (frameAddr f ||| (e &&& flagMask ||| pageWritable) &&& ~~~pageCow) := by
  have hpool : Pool m.frames f := ⟨hf.low, hf.lt, hf.free⟩
  have hself := FrameState.KeepsUsed.refl h.sound.counted h.sound.initialized
  have hframe := h.frames _ e hpage
  have hef : frameOf e ≠ f := by
    rintro rfl
    exact absurd (hframe.used.symm.trans hf.free) nofun
  obtain ⟨hframe', hpresent, -, -, -⟩ := copyEntry_facts (hf.lt_max h.sound.counted) e
  have hplain : (m.withFrames (m.frames.take f)).Plain f :=
    ⟨(h.plain_of_pool hpool).1, (h.plain_of_pool hpool).2, (h.plain_of_pool hpool).3⟩
  -- the filled frame is mapped nowhere yet
  have h₁ : (filled m f (frameOf e)).UserPages :=
    (h.withFrames (hself.take hf.lt hf.free)).writeFrame hplain (m.ram (frameOf e))
  have hpages : (filled m f (frameOf e)).userPage = m.userPage := hplain.userPage
  have hmapped : (filled m f (frameOf e)).mappedEntry = m.mappedEntry := hplain.mappedEntry
  have hdir : m.ram m.directory = (filled m f (frameOf e)).ram (filled m f (frameOf e)).directory :=
    hplain.ram_directory.symm
  have hrefs : 2 ≤ (filled m f (frameOf e)).frames.frameRefcounts (frameOf e) := by
    show 2 ≤ update m.frames.frameRefcounts f 1 (frameOf e)
    rw [update_of_ne hef]
    exact hmany
  have hself₁ := FrameState.KeepsUsed.refl h₁.sound.counted h₁.sound.initialized
  have hpageFrame : (filled m f (frameOf e)).PageFrame f :=
    ⟨hplain.plain.mpr hplain, hf.low, hf.lt, update_self ..⟩
  have hother (q : PageSlot) (e₁ : Word) (hq : m.userPage q = some e₁) : frameOf e₁ ≠ f := by
    rintro rfl
    exact absurd ((h.frames q e₁ hq).used.symm.trans hf.free) nofun
  have hwrite := h₁.writeEntry ((congrFun hpages _).trans hpage) (hself₁.dropRef hframe.lt hrefs)
    (by rwa [hframe']) (fun q e₁ _ hq => by rw [hframe']; exact hother q e₁ ((congrFun hpages q).symm.trans hq))
    (hpresent.trans (userPage_some hpage).2.2.1) 0#32 fun k _ => BitVec.getLsbD_zero
  rw [BitVec.or_zero] at hwrite
  have hold : (filled m f (frameOf e)).PageFrame (frameOf e) :=
    h₁.frames (pageSlot va) e ((congrFun hpages _).trans hpage)
  rw [hdir, setEntry_table, h₁.release_install hold]
  have htable : f ≠ (filled m f (frameOf e)).tableFrame (pageSlot va).1 :=
    (hpageFrame.notTable _ (userPage_some ((congrFun hpages _).trans hpage)).1).symm
  refine ⟨_, rfl, rfl, ?_, hwrite.pages, hwrite.active, hwrite.scratch, fun q => ?_,
    fun q hq => ?_, fun q e₁ hq hq' => ?_⟩
  · exact (install_ram_other htable hpageFrame.notDirectory).trans (update_self ..)
  · rw [← hmapped]
    exact hwrite.mapped q
  · have hword := hwrite.words q hq
    rw [show (filled m f (frameOf e)).hasTable = m.hasTable from hplain.hasTable] at hword
    exact hword.trans (if_congr Iff.rfl rfl (hplain.tableEntry q))
  · refine (hwrite.content q e₁ hq ((congrFun hpages q).trans hq')).trans ?_
    exact update_of_ne (hother q e₁ hq') ..

/-- **`paging_resolve_cow_fault`** -/
theorem resolveCow (h : m.UserPages) (va : Word) :
    m.CowResult (pageSlot va) (m.pagingResolveCowFault m.activePageDirectory va) := by
  by_cases hno : ∀ e, m.userPage (pageSlot va) = some e → isCow e = false ∨ isWritable e = true
  · rw [resolve_none hno]
    exact .unresolvable hno
  push Not at hno
  obtain ⟨e, hpage, hcow, hwritable⟩ := hno
  rw [ne_eq, Bool.not_eq_false] at hcow
  rw [ne_eq, Bool.not_eq_true] at hwritable
  have hframe := h.frames _ e hpage
  have hpos := h.refcount_pos hpage
  have hlt := frameOf_lt e
  rw [resolve_some h.sound.active hpage hcow hwritable]
  dsimp only
  rw [FrameState.frameGetRefcount_eq h.sound.counted h.sound.initialized hframe.lt, if_neg (by omega)]
  by_cases hone : m.frames.frameRefcounts (frameOf e) = 1
  · rw [if_pos hone, setEntry_table]
    obtain ⟨hframe', hpresent, -, -, -⟩ := reuseEntry_facts e
    have hentry := userPage_some hpage
    have hchange := h.changeFlags hpage hframe' (hpresent.trans hentry.2.2.1) 0#32
      fun k _ => BitVec.getLsbD_zero
    rw [BitVec.or_zero] at hchange
    refine .reused e _ hpage hcow hwritable hone rfl ?_ hchange
    exact h.install_content (.inl ⟨_, h.inRange _ e hpage, hentry.1, rfl⟩) hpage
  rw [if_neg hone]
  have hmany : 2 ≤ m.frames.frameRefcounts (frameOf e) := by omega
  rcases h.sound.frameAlloc_cases with ⟨hzero, halloc⟩ | ⟨f, hf, halloc⟩
  · rw [halloc]
    exact .exhausted e hpage hcow hwritable hmany (.inl hzero)
  have hpool : Pool m.frames f := ⟨hf.low, hf.lt, hf.free⟩
  have hplain := h.plain_of_pool hpool
  have hflt := hf.lt_max h.sound.counted
  have htaken : m.frames.KeepsUsed (m.frames.take f) :=
    (FrameState.KeepsUsed.refl h.sound.counted h.sound.initialized).take hf.lt hf.free
  have h₁ := h.withFrames htaken
  rw [halloc]
  dsimp only
  rw [if_neg (hf.frameAddr_ne_zero h.sound.counted), copyPhysicalPage_eq h₁.scratch hflt hlt hplain.notScratch
    hframe.notScratch]
  by_cases hs : m.kernelScratchTable = 0
  · rw [withFrames_scratch, if_pos hs]
    dsimp only
    rw [if_pos rfl, h.sound.release_taken hf]
    exact .exhausted e hpage hcow hwritable hmany (.inr hs)
  rw [withFrames_scratch, if_neg hs]
  dsimp only
  rw [if_neg (by decide)]
  obtain ⟨m', hrun, hframes, hcontent, hpaged⟩ := h.replaceFrame hf hpage hmany
  have hrun : ((((m.withFrames (m.frames.take f)).writeFrame f ((m.withFrames (m.frames.take f)).ram
    (frameOf e))).setEntry (m.ram m.directory (dirIndex va) &&& addrMask) (tableIndex va)
      (frameAddr f ||| (e &&& flagMask ||| pageWritable) &&& ~~~pageCow)).frameRelease
        (frameAddr (frameOf e))).2 = m' := hrun
  rw [hrun]
  exact .copied e f m' hpage hcow hwritable hmany hf hframes hcontent hpaged

end UserPages

/-! ### Heap pages -/

/-- The flags of a heap page. -/
abbrev heapFlags : Word := pagePresent ||| pageWritable ||| pageUser

/-- What `demand_map_heap_page` does. -/
inductive DemandResult (m : Memory) (page : Word) : VmFaultResult × Memory → Prop
  | oom : m.supply.takePage (dirIndex page) = none → DemandResult m page (.oom, m)
  | mapped (f : Nat) (m' : Memory) : m.frames.Lowest f → m'.frames.frameRefcounts f = 1 → m'.ram f = (fun _ => 0) →
      m.supply.takePage (dirIndex page) = some m'.supply → m.Repaged m' (pageSlot page) (newEntry f heapFlags) →
      DemandResult m page (.handled, m')

/-- **`demand_map_heap_page`** -/
theorem UserPages.demandMap (h : m.UserPages) (hi : inUserRange (dirIndex page)) :
    m.DemandResult page (m.demandMapHeapPage m.activePageDirectory page) := by
  unfold demandMapHeapPage
  have huser : isUser heapFlags = true := by decide
  rcases h.mapFresh hi huser with ⟨hnone, halloc | ⟨f, hf, halloc, hmap⟩⟩ |
    ⟨f, m', hf, halloc, hmap, hpaged, hmaps⟩
  · rw [halloc]
    exact .oom hnone
  · rw [halloc]
    dsimp only
    rw [if_neg (hf.frameAddr_ne_zero h.sound.counted), hmap]
    dsimp only
    rw [if_pos rfl, h.sound.release_taken hf]
    exact .oom hnone
  · obtain ⟨hframe, -, -, huser'⟩ := newEntry_facts (hf.lt_max h.sound.counted) heapFlags
    have hself := hpaged.userPage_self (huser'.trans huser)
    have hplain := (hpaged.pages.frames _ _ hself).toPlain
    rw [hframe] at hplain
    have hclear : m'.clearPage page = m'.writeFrame f fun _ => 0 := by
      unfold clearPage
      rw [userFrame_eq (userPage_eq_some.mp hself).1, hframe]
    have hsupply : (m'.writeFrame f fun _ => 0).supply = m'.supply := by
      unfold Memory.supply
      rw [hplain.hasTable]
      rfl
    have hwrite := hpaged.write (huser'.trans huser) fun _ => 0
    rw [hframe] at hwrite
    rw [halloc]
    dsimp only
    rw [if_neg (hf.frameAddr_ne_zero h.sound.counted), hmap]
    dsimp only
    rw [if_neg (by decide), hclear]
    exact .mapped f _ hf hmaps.taken.2 (update_self ..) (hmaps.supply.trans (congrArg some hsupply.symm)) hwrite

/-! ### Recovery -/

/-- A page of zeros. -/
theorem pageByte_zero (o : PageOffset) : pageByte (fun _ => 0) o = 0 := by
  unfold pageByte wordByte
  simp

/-- The page of an address has been made writable, and no other page has changed. -/
structure Recovered (m m' : Memory) (cr3 va : Word) : Prop where
  writable : m'.isUserWritable cr3 va = true
  owned : m'.frames.frameRefcounts (m'.userFrame cr3 va) = 1
  contents : ∀ va' : Word, va'.toNat / 4096 = va.toNat / 4096 →
    m'.userLoad cr3 va' = if m.isUserAccessible cr3 va then m.userLoad cr3 va' else some 0
  source : m.isUserAccessible cr3 va = true → 2 ≤ m.frames.frameRefcounts (m.userFrame cr3 va) →
    m'.frames.frameRefcounts (m.userFrame cr3 va) + 1 = m.frames.frameRefcounts (m.userFrame cr3 va)
  translation : ∀ va' : Word, va'.toNat / 4096 ≠ va.toNat / 4096 →
    m'.pagingGetPhysicalAddressInDirectory cr3 va' = m.pagingGetPhysicalAddressInDirectory cr3 va'
  flags : ∀ va' : Word, va'.toNat / 4096 ≠ va.toNat / 4096 →
    m'.pagingGetPageFlagsInDirectory cr3 va' =
      if isPresent (m.entry cr3 (dirIndex va)) = false ∧ va'.toNat / 4194304 = va.toNat / 4194304 then 0x02
      else m.pagingGetPageFlagsInDirectory cr3 va'
  loads : ∀ va' : Word, va'.toNat / 4096 ≠ va.toNat / 4096 → m'.userLoad cr3 va' = m.userLoad cr3 va'

/-- A call that recovers a page or changes nothing. -/
structure Atomic (m : Memory) (cr3 va : Word) (r : VmFaultResult × Memory) : Prop where
  unchanged : r.1 ≠ .handled → r.2 = m
  recovered : r.1 = .handled → m.isUserWritable cr3 va = false → m.Recovered r.2 cr3 va

/-- A refusal changes nothing. -/
theorem Atomic.fails {cr3 : Word} {res : VmFaultResult} (hres : res ≠ .handled) : m.Atomic cr3 va (res, m) :=
  ⟨fun _ => rfl, fun hc => absurd hc hres⟩

/-- What a page with another entry looks like to the processor. -/
theorem Repaged.recovered (h : m.UserPages) (hpaged : m.Repaged m' (pageSlot va) e) (huser : isUser e = true)
    (hwritable : isWritable e = true) (hone : m'.frames.frameRefcounts (frameOf e) = 1)
    (hcontents : m'.ram (frameOf e) = (m.userPage (pageSlot va)).elim (fun _ => 0) fun e₀ => m.ram (frameOf e₀))
    (hsource : ∀ e₀, m.userPage (pageSlot va) = some e₀ → 2 ≤ m.frames.frameRefcounts (frameOf e₀) →
      m'.frames.frameRefcounts (frameOf e₀) + 1 = m.frames.frameRefcounts (frameOf e₀)) :
    m.Recovered m' m.activePageDirectory va := by
  have hself := hpaged.userPage_self huser
  have hactive : m'.activePageDirectory ≠ 0 := hpaged.active ▸ h.sound.active
  have hother {va' : Word} (hne : va'.toNat / 4096 ≠ va.toNat / 4096) : pageSlot va' ≠ pageSlot va :=
    fun hc => hne (pageSlot_eq_iff.mp hc)
  have hmapped {va' : Word} (hne : va'.toNat / 4096 ≠ va.toNat / 4096) :
      m'.mappedEntry (pageSlot va') = m.mappedEntry (pageSlot va') := by
    rw [hpaged.mapped, if_neg (hother hne)]
  constructor
  · rw [← hpaged.active, hpaged.pages.isUserWritable_eq, hself]
    exact hwritable
  · rw [← hpaged.active, userFrame_eq (userPage_eq_some.mp hself).1]
    exact hone
  · intro va' hsame
    rw [h.isUserAccessible_eq, h.userLoad_eq, ← hpaged.active, hpaged.pages.userLoad_eq, pageSlot_eq_iff.mpr hsame,
      hself, Option.map_some, hcontents]
    rcases m.userPage (pageSlot va) with _ | e₀
    · rw [if_neg (by decide)]
      exact congrArg some (pageByte_zero _)
    · rfl
  · intro haccessible
    rw [h.isUserAccessible_eq] at haccessible
    obtain ⟨e₀, he₀⟩ := Option.isSome_iff_exists.mp haccessible
    rw [userFrame_eq (userPage_eq_some.mp he₀).1]
    exact hsource e₀ he₀
  · intro va' hne
    rw [← hpaged.active, physicalAddress_eq_mapped hactive, hmapped hne, hpaged.active,
      physicalAddress_eq_mapped h.sound.active]
  · intro va' hne
    have hwords : m'.tableEntry (frameOf m.activePageDirectory) (pageSlot va') = _ := hpaged.words _ (hother hne)
    rw [pageFlags_eq h.sound.active, pageFlags_eq h.sound.active, hwords]
    refine (apply_ite flagsOf _ _ _).trans (if_congr (and_congr_right fun _ => dirIndex_eq_iff) ?_ rfl)
    decide
  · intro va' hne
    rw [h.userLoad_eq, ← hpaged.active, hpaged.pages.userLoad_eq, hpaged.userPage_other (hother hne)]
    rcases hpage : m.userPage (pageSlot va') with _ | e₁
    · rfl
    · rw [Option.map_some, Option.map_some, hpaged.content _ e₁ (hother hne) hpage]

/-- Resolving a copy-on-write fault. -/
theorem UserPages.atomic_resolve (h : m.UserPages) (hslot : pageSlot page = pageSlot va) {res : VmFaultResult}
    (hres : res ≠ .handled) :
    m.Atomic m.activePageDirectory va
      (if (m.pagingResolveCowFault m.activePageDirectory page).1 = true then .handled else res,
        (m.pagingResolveCowFault m.activePageDirectory page).2) := by
  have hrun := h.resolveCow page
  rw [hslot] at hrun
  generalize m.pagingResolveCowFault m.activePageDirectory page = r at hrun
  cases hrun with
  | unresolvable | exhausted => exact .fails hres
  | reused e m' hpage _ _ hone hframes hram hpaged =>
    obtain ⟨hframe, -, hwritable, huser, -⟩ := reuseEntry_facts e
    refine ⟨fun hc => absurd rfl hc, fun _ _ => hpaged.recovered h (huser.trans (userPage_some hpage).2.2.2) hwritable
      ?_ ?_ fun e₀ he₀ hmany => ?_⟩
    · rw [hframe, hframes, hone]
    · rw [hpage, hframe]
      exact hram
    · cases hpage.symm.trans he₀
      omega
  | copied e f m' hpage _ _ hmany hf hframes hram hpaged =>
    obtain ⟨hframe, -, hwritable, huser, -⟩ := copyEntry_facts (hf.lt_max h.sound.counted) e
    have hef : frameOf e ≠ f := by
      rintro rfl
      exact absurd ((h.frames _ e hpage).used.symm.trans hf.free) nofun
    refine ⟨fun hc => absurd rfl hc, fun _ _ => hpaged.recovered h (huser.trans (userPage_some hpage).2.2.2) hwritable
      ?_ ?_ fun e₀ he₀ _ => ?_⟩
    · rw [hframe, hframes]
      exact (update_of_ne hef.symm ..).trans (update_self ..)
    · rw [hpage, hframe]
      exact hram
    · cases hpage.symm.trans he₀
      have hdrop : m'.frames.frameRefcounts (frameOf e) = m.frames.frameRefcounts (frameOf e) - 1 := by
        rw [hframes]
        refine (update_self ..).trans ?_
        exact congrArg (· - 1) (update_of_ne hef ..)
      dsimp only
      omega

/-- Touching a heap page for the first time. -/
theorem UserPages.atomic_demandMap (h : m.UserPages) (hi : inUserRange (dirIndex page))
    (hslot : pageSlot page = pageSlot va) (hnone : m.mappedEntry (pageSlot va) = none) :
    m.Atomic m.activePageDirectory va (m.demandMapHeapPage m.activePageDirectory page) := by
  have hrun := h.demandMap hi
  generalize m.demandMapHeapPage m.activePageDirectory page = r at hrun
  cases hrun with
  | oom => exact .fails nofun
  | mapped f m' hf hone hram _ hpaged =>
    obtain ⟨hframe, -, hwritable, huser⟩ := newEntry_facts (hf.lt_max h.sound.counted) heapFlags
    have hnoPage : m.userPage (pageSlot va) = none := by
      unfold userPage
      rw [hnone]
      rfl
    rw [hslot] at hpaged
    refine ⟨fun hc => absurd rfl hc, fun _ _ => hpaged.recovered h (huser.trans (by decide))
      (hwritable.trans (by decide)) ?_ ?_ fun e₀ he₀ => ?_⟩
    · rw [hframe, hone]
    · rw [hnoPage, hframe]
      exact hram
    · rw [hnoPage] at he₀
      cases he₀

/-- The user range by addresses. -/
theorem inUserRange_of_mem {w : Word} (hlow : userSpaceStart.toNat ≤ w.toNat) (hhigh : w.toNat < userSpaceEnd.toNat) :
    inUserRange (dirIndex w) := by
  rw [toNat_userSpaceStart] at hlow
  rw [toNat_userSpaceEnd] at hhigh
  unfold inUserRange dirIndex
  dsimp only
  omega

/-- **Page-fault recovery is atomic.** A call that does not handle the fault changes nothing. A call that does
makes the page writable in a frame of its own, with what it contained or zeros, and takes one reference from
the frame that it was copied from; every other page translates and loads as before, and has the same flags
unless the page needed a new table: then the other pages of its 4 MiB have the absent entry `0x02`. -/
theorem fault_recovery_atomic {proc : Process} (h : m.UserPages) (hcr3 : proc.cr3 = m.activePageDirectory)
    (hheap : userSpaceStart ≤ proc.heapStart ∧ proc.heapEnd ≤ userSpaceEnd) :
    (∀ va errorCode, test errorCode vmFaultPresent =
        isPresent (m.pagingGetPageFlagsInDirectory proc.cr3 va) →
      m.Atomic proc.cr3 va (m.vmHandlePageFault proc va errorCode)) ∧
    ∀ page, m.Atomic proc.cr3 page (m.vmPrepareUserWritePage proc page) := by
  have hheapRange {w : Word} (hlow : proc.heapStart ≤ w) (hhigh : w < proc.heapEnd) : inUserRange (dirIndex w) :=
    inUserRange_of_mem ((BitVec.le_def.mp hheap.1).trans (BitVec.le_def.mp hlow))
      ((BitVec.lt_def.mp hhigh).trans_le (BitVec.le_def.mp hheap.2))
  have habsent {w : Word} (hno : isPresent (m.pagingGetPageFlagsInDirectory m.activePageDirectory w) = false) :
      m.mappedEntry (pageSlot w) = none :=
    Option.isSome_eq_false_iff.mp ((pageFlags_kinds h.sound.active w).1.symm.trans hno) |> Option.isNone_iff_eq_none.mp
  rw [hcr3]
  constructor
  · intro va errorCode hconsistent
    have hslot : pageSlot (pageAlignDown va) = pageSlot va :=
      Prod.ext (dirIndex_pageAlignDown va) (tableIndex_pageAlignDown va)
    unfold vmHandlePageFault
    rw [hcr3]
    dsimp only
    split
    · exact .fails nofun
    split
    · -- a store to a present page
      have hresolve {res : VmFaultResult} (hres : res ≠ .handled) := h.atomic_resolve hslot hres
      generalize m.pagingResolveCowFault m.activePageDirectory (pageAlignDown va) = r at hresolve
      rcases hhandled : r.1 with _ | _
      · simp only [hhandled, Bool.false_eq_true, if_false] at hresolve ⊢
        split
        · exact hresolve nofun
        · exact hresolve nofun
      · simp only [hhandled, if_true] at hresolve ⊢
        exact hresolve (show VmFaultResult.oom ≠ .handled from nofun)
    split
    · -- an access to an absent page
      rename_i hno
      split
      · exact .fails nofun
      split
      · rename_i hheapPage
        refine h.atomic_demandMap ?_ hslot (habsent (hconsistent.symm.trans hno))
        rw [dirIndex_pageAlignDown]
        exact hheapRange hheapPage.1 hheapPage.2
      · exact .fails nofun
    · exact .fails nofun
  · intro page
    unfold vmPrepareUserWritePage
    rw [hcr3]
    dsimp only
    split
    · exact .fails nofun
    split
    · -- already writable
      rename_i hflags
      refine ⟨fun hc => absurd rfl hc, fun _ hno => ?_⟩
      rw [h.isUserWritable_eq, ← (pageFlags_kinds h.sound.active page).2.2.1, hflags] at hno
      cases hno
    split
    · exact h.atomic_resolve rfl nofun
    split
    · rename_i hheapPage
      rw [test_pagePresent] at hheapPage
      exact h.atomic_demandMap (hheapRange hheapPage.2.1 hheapPage.2.2) rfl (habsent hheapPage.1)
    · exact .fails nofun

/-- The first touch of a heap page under an entry without a table takes two frames: for the page, and for
the table. -/
theorem demandMapHeapPage_new {m : Memory} (page : Word) {f t : Nat}
    (hinit : m.frames.frameInitialized = true) (hactive : m.activePageDirectory ≠ 0)
    (hno : m.hasTable (dirIndex page) = false) (hsize : m.frames.totalFrames * frameSize ≠ 0)
    (hf : m.frames.findFree (m.frames.totalFrames * frameSize) = some f)
    (ht : (m.frames.take f).findFree identityMappedLimit = some t) (hf0 : 0 < f) (hflt : f < 1048576)
    (ht0 : 0 < t) (htlt : t < 1048576) (hne : t ≠ m.directory) :
    m.demandMapHeapPage m.activePageDirectory page =
      (.handled, (m.install ((m.frames.take f).take t) t (fun _ => 0x02) (pageSlot page)
        (frameAddr t ||| pagePresent ||| pageWritable ||| heapFlags &&& pageUser)
        (newEntry f heapFlags)).clearPage page) := by
  have hmap := map_new (m := m.withFrames (m.frames.take f)) hactive hno ht0 htlt
    (allocTable_find hinit ht0 htlt ht) hne f heapFlags
  unfold demandMapHeapPage frameAlloc frameAllocBelow
  rw [FrameState.frameAllocBelow_find hinit hsize hf]
  dsimp only
  rw [withFrames_active] at hmap
  rw [if_neg (frameAddr_ne_zero hf0 hflt), hmap]
  rfl

/-- A process with one heap page, which is not mapped. -/
def heapProcess : Process :=
  { Process.zero with cr3 := 0x100000, heapStart := 0x90000000, heapEnd := 0x90001000 }

/-- A store to that page. -/
theorem blank_heapFault : blank.vmHandlePageFault heapProcess 0x90000000 0x06 =
    blank.demandMapHeapPage blank.activePageDirectory 0x90000000 := by
  unfold vmHandlePageFault
  dsimp only
  rw [if_neg (by decide), if_neg (by decide), if_pos (by decide), if_neg (by decide), if_pos (by decide)]
  rfl

/-- There is memory for it. -/
theorem blank_heapFault_handled : (blank.vmHandlePageFault heapProcess 0x90000000 0x06).1 = .handled := by
  have hi : inUserRange (dirIndex 0x90000000) := by decide
  have hrun := blank_userPages.demandMap hi
  rw [← blank_heapFault] at hrun
  generalize blank.vmHandlePageFault heapProcess 0x90000000 0x06 = r at hrun
  cases hrun with
  | oom hnone =>
    have hsome : (blank.supply.takePages [dirIndex 0x90000000]).isSome := Supply.takePages_isSome
      (by rw [blank_supply.1]; decide) (by rw [blank_supply.2]; decide)
    unfold Supply.takePages at hsome
    rw [hnone] at hsome
    cases hsome
  | mapped => rfl

/-- The first touch of the heap. -/
theorem fault_recovery_atomic_blank :
    blank.Recovered (blank.vmHandlePageFault heapProcess 0x90000000 0x06).2 0x100000 0x90000000 := by
  have hpage : blank.userPage (pageSlot 0x90000000) = none := by
    unfold userPage
    rw [blank_mappedEntry, Option.filter_none]
  have hflags : test 0x06 vmFaultPresent =
      isPresent (blank.pagingGetPageFlagsInDirectory heapProcess.cr3 0x90000000) := by
    exact Eq.trans (by decide) (pageFlags_kinds blank_userPages.sound.active _).1.symm
  have hnotWritable : blank.isUserWritable heapProcess.cr3 0x90000000 = false := by
    refine (blank_userPages.isUserWritable_eq _).trans ?_
    rw [hpage, Option.any_none]
  have hcr3 : heapProcess.cr3 = blank.activePageDirectory := rfl
  exact ((fault_recovery_atomic blank_userPages hcr3 (by decide)).1 0x90000000 0x06
    hflags).recovered blank_heapFault_handled hnotWritable

/-- The next page gets the flags `0x02` of the absent entries of a new table. -/
theorem recovery_changes_neighbours : blank.UserPages ∧
    (blank.vmHandlePageFault heapProcess 0x90000000 0x06).1 = .handled ∧
      blank.pagingGetPageFlagsInDirectory heapProcess.cr3 0x90001000 = 0 ∧
      (blank.vmHandlePageFault heapProcess 0x90000000 0x06).2.pagingGetPageFlagsInDirectory heapProcess.cr3
        0x90001000 = 0x02 := by
  have hnone := blank_mappedEntry (pageSlot 0x90000000)
  have hi : inUserRange (dirIndex 0x90000000) := by decide
  have hatomic := blank_userPages.atomic_demandMap hi rfl hnone
  rw [← blank_heapFault] at hatomic
  have hnotWritable : blank.isUserWritable blank.activePageDirectory 0x90000000 = false := by
    rw [blank_userPages.isUserWritable_eq]
    unfold userPage
    rw [hnone]
    rfl
  have hno : blank.pagingGetPageFlagsInDirectory heapProcess.cr3 0x90001000 = 0 :=
    (pageFlags_eq blank_userPages.sound.active _).trans
      (congrArg flagsOf (if_neg (Bool.eq_false_iff.mp (blank_hasTable _))))
  refine ⟨blank_userPages, blank_heapFault_handled, hno, ?_⟩
  refine ((hatomic.recovered blank_heapFault_handled hnotWritable).flags 0x90001000 (by decide)).trans ?_
  exact if_pos ⟨by decide, by decide⟩

end Memory

end AgenticOs
