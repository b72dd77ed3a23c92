import AgenticOs.Kernel.FaultRecovery

/-!
# Preparing pages and handling faults

What `vm_prepare_user_write_page` and `vm_handle_page_fault` do to a page of a process, case by case.

* **The pages of a process** (`ProcessPages`): the address space of a process whose directory is loaded, with
  its heap and stack where `exec`, faults and `SYS_BRK` keep them.
* **Cases** (`prepare_eq`, `storeFault_eq`, `loadFault_eq`, `absentFault_eq`): a page is writable,
  copy-on-write, or absent and in the heap; anything else is refused.
* **Other pages** (`Readied`): both functions make a page writable and change no other one, and both commute
  with a store to another page (`ProcessPages.prepare_writeFrame`), so that preparing a range before the
  stores is the same as handling faults in between.
* **Frames** (`prepare_enough`, `prepareWritePages_enough`): with enough frames neither runs out of memory.
* **The difference** (`BehindHeapEnd`): where the heap ends inside a page, the first function compares the
  page with `heap_end`, the second one the byte.
-/

namespace AgenticOs

open Function Lib

namespace Memory

open UserPages

variable {m m' : Memory} {fr : FrameState} {f g t : Nat} {p q : PageSlot} {w z : TableIndex → Word}
  {e dirEntry va page flags : Word}

/-! ### Recovery and a store to another page commute -/

/-- Entries of other frames. -/
theorem setEntry_writeFrame {table : Word} (hne : frameOf table ≠ g) (i : TableIndex) (e : Word) :
    (m.writeFrame g w).setEntry table i e = (m.setEntry table i e).writeFrame g w := by
  unfold setEntry
  rw [writeFrame_ram, update_of_ne hne, writeFrame_comm hne.symm]

/-- The allocator does not read frames. -/
theorem frameAlloc_writeFrame :
    (m.writeFrame g w).frameAlloc = (m.frameAlloc.1, m.frameAlloc.2.writeFrame g w) := rfl

/-- A page is installed in other frames. -/
theorem install_writeFrame (ht : t ≠ g) (hd : m.directory ≠ g) :
    (m.writeFrame g w).install fr t z p dirEntry e = (m.install fr t z p dirEntry e).writeFrame g w := by
  have hrow : (m.writeFrame g w).ram m.directory = m.ram m.directory := update_of_ne hd ..
  show (((m.writeFrame g w).withFrames fr).writeFrame m.directory
    (update ((m.writeFrame g w).ram m.directory) p.1 dirEntry)).writeFrame t (update z p.2 e) = _
  rw [hrow]
  unfold install
  rw [writeFrame_comm ht (m := (m.withFrames fr).writeFrame _ _), writeFrame_comm hd]
  rfl

/-- A new table is another frame. -/
theorem allocTable_writeFrame (hne : frameOf m.allocatorAllocPageTable.1 ≠ g) :
    (m.writeFrame g w).allocatorAllocPageTable =
      (m.allocatorAllocPageTable.1, m.allocatorAllocPageTable.2.writeFrame g w) := by
  have hframe : (m.writeFrame g w).pagingAllocFrame = (m.pagingAllocFrame.1, m.pagingAllocFrame.2.writeFrame g w) :=
    rfl
  unfold allocatorAllocPageTable at hne ⊢
  rw [hframe]
  dsimp only at hne ⊢
  by_cases hzero : m.pagingAllocFrame.1 = 0
  · rw [if_pos hzero, if_pos hzero]
  · rw [if_neg hzero] at hne ⊢
    rw [if_neg hzero, fillTable_eq, fillTable_eq, writeFrame_comm hne.symm]

/-- Mapping a page. -/
theorem map_writeFrame (h : m.UserPages) (hg : m.PageFrame g) (hi : inUserRange (dirIndex va))
    (huser : isUser flags = true) (f : Nat) :
    (m.writeFrame g w).pagingMapPageInDirectory m.activePageDirectory va (frameAddr f) flags =
      ((m.pagingMapPageInDirectory m.activePageDirectory va (frameAddr f) flags).1,
        (m.pagingMapPageInDirectory m.activePageDirectory va (frameAddr f) flags).2.writeFrame g w) := by
  have h' := h.writeFrame hg.toPlain w
  have hdirectory := hg.notDirectory
  have htables := hg.toPlain.hasTable (w := w)
  have hframes := hg.toPlain.tableFrame (w := w)
  have hrow : (m.writeFrame g w).ram m.directory = m.ram m.directory := hg.toPlain.ram_directory
  by_cases hhas : m.hasTable (dirIndex va) = true
  · have hne := hg.notTable _ hhas
    have htable : (m.writeFrame g w).ram (m.tableFrame (dirIndex va)) = m.ram (m.tableFrame (dirIndex va)) :=
      update_of_ne hne ..
    have hmap := map_existing h'.sound.active ((congrFun htables _).trans hhas)
      (h'.sound.tables _ hi ((congrFun htables _).trans hhas)).2.2 huser f
    rw [hframes, htable, show (m.writeFrame g w).ram (m.writeFrame g w).directory = m.ram m.directory from hrow,
      install_writeFrame hne hdirectory.symm] at hmap
    exact hmap.trans (by rw [map_existing h.sound.active hhas (h.sound.tables _ hi hhas).2.2 huser]; rfl)
  rw [Bool.not_eq_true] at hhas
  have hhas' := (congrFun htables _).trans hhas
  rcases allocTable_lowest h.sound.initialized h.sound.counted.total_le with ⟨-, halloc⟩ | ⟨t, -, ht, halloc⟩
  · have hne : frameOf m.allocatorAllocPageTable.1 ≠ g := by
      rw [halloc]
      exact (Nat.lt_of_lt_of_le (show frameOf 0 < firstFrame by decide) hg.low).ne
    have halloc' := allocTable_writeFrame (w := w) hne
    rw [halloc] at halloc'
    exact (map_fails h'.sound.active hhas' halloc' f).trans (by rw [map_fails h.sound.active hhas halloc])
  · have htg : t ≠ g := by
      rintro rfl
      exact absurd (hg.used.symm.trans ht.free) nofun
    have hlt := ht.lt_max h.sound.counted
    have hpos : 0 < t := Nat.lt_of_lt_of_le (by decide) ht.low
    have hne : frameOf m.allocatorAllocPageTable.1 ≠ g := by
      rw [halloc, frameOf_frameAddr hlt]
      exact htg
    have htd := (h.sound.ne_of_free ht.free).1
    have halloc' := allocTable_writeFrame (w := w) hne
    rw [halloc] at halloc'
    dsimp only at halloc'
    rw [writeFrame_comm htg] at halloc'
    refine (map_new h'.sound.active hhas' hpos hlt halloc' htd f _).trans ?_
    rw [install_writeFrame htg hdirectory.symm, map_new h.sound.active hhas hpos hlt halloc htd _]
    rfl

/-- Clearing a page. -/
theorem clearPage_writeFrame (hpage : m.userPage (pageSlot page) = some e) (hg : m.Plain g)
    (hne : frameOf e ≠ g) : (m.writeFrame g w).clearPage page = (m.clearPage page).writeFrame g w := by
  have hpage' := hg.userPage (w := w) ▸ hpage
  unfold clearPage
  rw [userFrame_eq (userPage_eq_some.mp hpage').1, userFrame_eq (userPage_eq_some.mp hpage).1,
    writeFrame_comm hne.symm]

/-- Touching a heap page. -/
theorem demandMap_writeFrame (h : m.UserPages) (hq : m.userPage q = some e) (hne : q ≠ pageSlot page)
    (hi : inUserRange (dirIndex page)) :
    (m.writeFrame (frameOf e) w).demandMapHeapPage m.activePageDirectory page =
      ((m.demandMapHeapPage m.activePageDirectory page).1,
        (m.demandMapHeapPage m.activePageDirectory page).2.writeFrame (frameOf e) w) := by
  have hg := h.frames q e hq
  unfold demandMapHeapPage
  rw [frameAlloc_writeFrame]
  dsimp only
  have huser : isUser heapFlags = true := by decide
  rcases h.mapFresh hi huser with ⟨hnone, halloc | ⟨f, hf, halloc, hmap⟩⟩ |
    ⟨f, m', hf, halloc, hmap, hpaged, hmaps⟩
  · rw [halloc]
    rfl
  all_goals
    have htake := (FrameState.KeepsUsed.refl h.sound.counted h.sound.initialized).take hf.lt hf.free
    have h₁ := h.withFrames htake
    have hg₁ : (m.withFrames (m.frames.take f)).PageFrame (frameOf e) :=
      ⟨⟨hg.notDirectory, hg.notTable, hg.notScratch⟩, hg.low, hg.lt, htake.used _ hg.used⟩
    have hcomm := map_writeFrame (w := w) h₁ hg₁ hi huser f
    have hzero := hf.frameAddr_ne_zero h.sound.counted
    rw [withFrames_active, hmap] at hcomm
    rw [halloc]
    dsimp only
    rw [if_neg hzero, if_neg hzero, hmap, hcomm]
    dsimp only
  · rfl
  · obtain ⟨hframe, -, -, huser⟩ := newEntry_facts (hf.lt_max h.sound.counted) heapFlags
    have hself := hpaged.userPage_self (huser.trans (by decide))
    have hother := (hpaged.userPage_other hne).trans hq
    have hapart : frameOf (newEntry f heapFlags) ≠ frameOf e := fun hc =>
      hne (hpaged.pages.distinct q _ e _ hother hself hc.symm)
    rw [if_neg (by decide), if_neg (by decide),
      clearPage_writeFrame hself (hpaged.pages.frames q e hother).toPlain hapart]

/-- Copying a page. -/
theorem copyPhysicalPage_writeFrame (h : m.UserPages) (hg : m.Plain g) {s : Nat} (hf : f < 1048576)
    (hs : s < 1048576) (hfs : m.kernelScratchTable ≠ 0 → f ≠ frameOf m.kernelScratchTable)
    (hss : m.kernelScratchTable ≠ 0 → s ≠ frameOf m.kernelScratchTable) (hfg : f ≠ g) (hsg : s ≠ g) :
    (m.writeFrame g w).copyPhysicalPage (frameAddr s) (frameAddr f) =
      ((m.copyPhysicalPage (frameAddr s) (frameAddr f)).1,
        (m.copyPhysicalPage (frameAddr s) (frameAddr f)).2.writeFrame g w) := by
  rw [copyPhysicalPage_eq h.scratch hf hs hfs hss,
    copyPhysicalPage_eq (h.writeFrame hg w).scratch hf hs hfs hss, writeFrame_scratch]
  split
  · rfl
  · rw [writeFrame_ram, update_of_ne hsg, writeFrame_comm hfg.symm]

/-- Resolving a copy-on-write fault. -/
theorem resolve_writeFrame (h : m.UserPages) (hq : m.userPage q = some e) (hne : q ≠ pageSlot page) :
    (m.writeFrame (frameOf e) w).pagingResolveCowFault m.activePageDirectory page =
      ((m.pagingResolveCowFault m.activePageDirectory page).1,
        (m.pagingResolveCowFault m.activePageDirectory page).2.writeFrame (frameOf e) w) := by
  have hg := h.frames q e hq
  have hplain := hg.toPlain
  have h' := h.writeFrame hplain w
  have hpages : (m.writeFrame (frameOf e) w).userPage = m.userPage := hplain.userPage
  by_cases hno : ∀ e₀, m.userPage (pageSlot page) = some e₀ → isCow e₀ = false ∨ isWritable e₀ = true
  · have hno' := hno
    rw [← hpages] at hno'
    rw [resolve_none hno]
    exact resolve_none hno'
  push Not at hno
  obtain ⟨e₀, hpage, hcow, hwritable⟩ := hno
  rw [ne_eq, Bool.not_eq_false] at hcow
  rw [ne_eq, Bool.not_eq_true] at hwritable
  have hpage' := (congrFun hpages _).trans hpage
  have hframe := h.frames _ e₀ hpage
  have hapart : frameOf e₀ ≠ frameOf e := fun hc => hne (h.distinct q _ e e₀ hq hpage hc.symm)
  have hrun := resolve_some h'.sound.active hpage' hcow hwritable
  have hrow : (m.writeFrame (frameOf e) w).ram (m.writeFrame (frameOf e) w).directory = m.ram m.directory :=
    hplain.ram_directory
  have htable : frameOf (m.ram m.directory (dirIndex page) &&& addrMask) ≠ frameOf e := by
    rw [frameOf_and_addrMask]
    exact hplain.notTable _ (userPage_some hpage).1
  rw [hrow] at hrun
  refine hrun.trans ?_
  rw [resolve_some h.sound.active hpage hcow hwritable]
  dsimp only
  rw [writeFrame_frames]
  split
  · rfl
  split
  · rw [setEntry_writeFrame htable]
  rw [frameAlloc_writeFrame]
  dsimp only
  rcases h.sound.frameAlloc_cases with ⟨hzero, halloc⟩ | ⟨f, hf, halloc⟩
  · rw [halloc]
    rfl
  have hpool : Pool m.frames f := ⟨hf.low, hf.lt, hf.free⟩
  have hflt := hf.lt_max h.sound.counted
  have htaken : m.frames.KeepsUsed (m.frames.take f) :=
    (FrameState.KeepsUsed.refl h.sound.counted h.sound.initialized).take hf.lt hf.free
  have hfe : f ≠ frameOf e := by
    rintro rfl
    exact absurd (hg.used.symm.trans hf.free) nofun
  have hcopy := copyPhysicalPage_writeFrame (w := w) (h.withFrames htaken) ⟨hplain.1, hplain.2, hplain.3⟩ hflt
    (frameOf_lt e₀) (h.plain_of_pool hpool).notScratch hframe.notScratch hfe hapart
  rw [halloc]
  dsimp only
  rw [if_neg (hf.frameAddr_ne_zero h.sound.counted), if_neg (hf.frameAddr_ne_zero h.sound.counted), hcopy]
  dsimp only
  split
  · rfl
  · rw [setEntry_writeFrame htable]
    rfl

/-! ### The pages of a process -/

/-- The address space of a running process, as `exec` sets it up and faults and `SYS_BRK` keep it. -/
structure ProcessPages (m : Memory) (proc : Process) : Prop where
  pages : m.UserPages
  active : proc.cr3 = m.activePageDirectory
  heapStart : proc.heapStart = processHeapStart
  heapEnd : proc.heapEnd ≤ processHeapLimit
  guard : m.userPage (pageSlot userStackGuardBottom) = none

/-- An address whose page begins before the end of the heap, but not the address itself, and that is not
mapped. -/
def BehindHeapEnd (m : Memory) (proc : Process) (va : Word) : Prop :=
  m.mappedEntry (pageSlot va) = none ∧ proc.heapStart ≤ pageAlignDown va ∧ pageAlignDown va < proc.heapEnd ∧
    proc.heapEnd ≤ va

instance (proc : Process) (va : Word) : Decidable (m.BehindHeapEnd proc va) :=
  inferInstanceAs (Decidable (_ ∧ _ ∧ _ ∧ _))

/-- The error code of a fault of a user program. -/
def userFaultCode (m : Memory) (directory va access : Word) : Word :=
  (if test (m.entry directory (dirIndex va)) pagePresent &&
      test (m.entry (m.entry directory (dirIndex va) &&& addrMask) (tableIndex va)) pagePresent then vmFaultPresent
    else 0) ||| access ||| vmFaultUser

variable {proc : Process}

/-- A byte is in the slot of its page. -/
theorem pageSlot_pageAlignDown (va : Word) : pageSlot (pageAlignDown va) = pageSlot va :=
  Prod.ext (dirIndex_pageAlignDown va) (tableIndex_pageAlignDown va)

/-- The code of a fault tells whether the page is mapped. -/
theorem userFaultCode_active (m : Memory) (va access : Word) : m.userFaultCode m.activePageDirectory va access =
    (if (m.mappedEntry (pageSlot va)).isSome then vmFaultPresent else 0) ||| access ||| vmFaultUser := by
  have hpresent : (isPresent (m.ram m.directory (dirIndex va)) &&
      isPresent (m.ram (m.tableFrame (dirIndex va)) (tableIndex va))) = (m.mappedEntry (pageSlot va)).isSome := by
    rw [mappedEntry_eq, Bool.eq_iff_iff, Bool.and_eq_true]
    split
    · rename_i hmapped
      exact iff_of_true hmapped rfl
    · rename_i hmapped
      exact iff_of_false hmapped nofun
  unfold userFaultCode
  rw [test_pagePresent, test_pagePresent, entry_tableFrame, entry_active, hpresent]

namespace ProcessPages

/-- A page begins at or before its bytes. -/
theorem pageAlignDown_le (va : Word) : (pageAlignDown va).toNat ≤ va.toNat := by
  rw [toNat_pageAlignDown]
  omega

/-- The heap starts at a page. -/
theorem heapStart_le (h : m.ProcessPages proc) (va : Word) :
    proc.heapStart ≤ pageAlignDown va ↔ proc.heapStart ≤ va := by
  rw [h.heapStart, BitVec.le_def, BitVec.le_def, toNat_pageAlignDown, show processHeapStart.toNat = 0x90000000 from rfl]
  omega

/-- The heap is in the user range, and not at the guard page. -/
theorem heap_page (h : m.ProcessPages proc) (hlow : proc.heapStart ≤ va) (hhigh : pageAlignDown va < proc.heapEnd) :
    inUserRange (dirIndex va) ∧ isStackGuardFault va = false ∧ pageSlot va ≠ pageSlot userStackGuardBottom := by
  have hend := h.heapEnd
  rw [h.heapStart] at hlow
  rw [BitVec.le_def] at hlow hend
  rw [BitVec.lt_def, toNat_pageAlignDown] at hhigh
  rw [show processHeapStart.toNat = 0x90000000 from rfl] at hlow
  rw [show processHeapLimit.toNat = 0xA0000000 from rfl] at hend
  refine ⟨?_, ?_, fun hc => ?_⟩
  · unfold inUserRange dirIndex
    dsimp only
    omega
  · unfold isStackGuardFault
    rw [Bool.and_eq_false_iff]
    left
    rw [decide_eq_false_iff_not, BitVec.le_def, show userStackGuardBottom.toNat = 0xAFFFE000 from rfl]
    omega
  · have := pageSlot_eq_iff.mp hc
    rw [show userStackGuardBottom.toNat = 0xAFFFE000 from rfl] at this
    omega

/-- What `vm_prepare_user_write_page` does. -/
theorem prepare_eq (h : m.ProcessPages proc) (hlow : userSpaceStart ≤ va) (hhigh : va < userSpaceEnd) :
    m.vmPrepareUserWritePage proc (pageAlignDown va) =
      (let r := m.pagingResolveCowFault m.activePageDirectory (pageAlignDown va)
      if (m.userPage (pageSlot va)).any (fun e => isWritable e) = true then (.handled, m)
      else if (m.userPage (pageSlot va)).any (fun e => isCow e) = true then (if r.1 then .handled else .oom, r.2)
      else if m.mappedEntry (pageSlot va) = none ∧ proc.heapStart ≤ va ∧ pageAlignDown va < proc.heapEnd then
        m.demandMapHeapPage m.activePageDirectory (pageAlignDown va)
      else (.fatal, m)) := by
  obtain ⟨hpresent, -, hwritable, hcow⟩ := pageFlags_kinds h.pages.sound.active va
  have hmapped : test (m.pagingGetPageFlagsInDirectory m.activePageDirectory va) pagePresent = false ↔
      m.mappedEntry (pageSlot va) = none := by
    rw [test_pagePresent, hpresent, Option.isSome_eq_false_iff, Option.isNone_iff_eq_none]
  have hrange : ¬(m.activePageDirectory = 0 ∨ (pageAlignDown va).toNat % 4096 ≠ 0 ∨
      pageAlignDown va < userSpaceStart ∨ userSpaceEnd ≤ pageAlignDown va) := by
    rw [BitVec.le_def, toNat_userSpaceStart] at hlow
    rw [BitVec.lt_def, toNat_userSpaceEnd] at hhigh
    rw [BitVec.lt_def, BitVec.le_def, toNat_pageAlignDown, toNat_userSpaceStart, toNat_userSpaceEnd]
    rintro (hc | hc)
    · exact h.pages.sound.active hc
    · omega
  unfold vmPrepareUserWritePage
  rw [h.active, pageFlags_pageAlignDown]
  dsimp only
  simp only [hwritable, hcow, hmapped, h.heapStart_le]
  by_cases hguard : isStackGuardFault (pageAlignDown va) = true
  · -- the guard page is not mapped, and not in the heap
    have hslot : pageSlot va = pageSlot userStackGuardBottom := by
      unfold isStackGuardFault at hguard
      rw [Bool.and_eq_true, decide_eq_true_iff, decide_eq_true_iff, BitVec.le_def, BitVec.lt_def,
        toNat_pageAlignDown, show userStackGuardBottom.toNat = 0xAFFFE000 from rfl,
        show userStackBottom.toNat = 0xAFFFF000 from rfl] at hguard
      apply pageSlot_eq_iff.mpr
      rw [show userStackGuardBottom.toNat = 0xAFFFE000 from rfl]
      omega
    rw [if_pos (by simp only [hguard, or_true]), hslot, h.guard, if_neg (by decide), if_neg (by decide), if_neg]
    exact fun hc => (h.heap_page hc.2.1 hc.2.2).2.2 hslot
  · rw [if_neg]
    intro hc
    exact hrange (by tauto)

/-- What `vm_handle_page_fault` does with a store to a mapped page. -/
theorem storeFault_eq (h : m.ProcessPages proc) (hmapped : (m.mappedEntry (pageSlot va)).isSome = true) :
    ∃ res, res ≠ .handled ∧
      m.vmHandlePageFault proc va (m.userFaultCode m.activePageDirectory va vmFaultWrite) =
        (let r := m.pagingResolveCowFault m.activePageDirectory (pageAlignDown va)
        (if r.1 then .handled else res, r.2)) := by
  have hactive := h.pages.sound.active
  rw [userFaultCode_active, if_pos hmapped]
  unfold vmHandlePageFault
  rw [h.active]
  dsimp only
  rw [if_neg (not_or.mpr ⟨hactive, by decide⟩), if_pos (by decide)]
  generalize m.pagingResolveCowFault m.activePageDirectory (pageAlignDown va) = r
  rcases hhandled : r.1 with _ | _
  · simp only [Bool.false_eq_true, if_false]
    split
    · exact ⟨.oom, nofun, rfl⟩
    · exact ⟨.fatal, nofun, rfl⟩
  · exact ⟨.oom, nofun, rfl⟩

/-- A load that faults at a mapped page is fatal. -/
theorem loadFault_eq (h : m.ProcessPages proc) (hmapped : (m.mappedEntry (pageSlot va)).isSome = true) :
    m.vmHandlePageFault proc va (m.userFaultCode m.activePageDirectory va 0) = (.fatal, m) := by
  rw [userFaultCode_active, if_pos hmapped]
  unfold vmHandlePageFault
  rw [h.active]
  dsimp only
  rw [if_neg (not_or.mpr ⟨h.pages.sound.active, by decide⟩), if_neg (by decide), if_neg (by decide)]

/-- An absent page is mapped if the byte is in the heap. -/
theorem absentFault_eq (h : m.ProcessPages proc) (hmapped : m.mappedEntry (pageSlot va) = none) {access : Word}
    (haccess : access = 0 ∨ access = vmFaultWrite) :
    ∃ res, res ≠ .handled ∧ m.vmHandlePageFault proc va (m.userFaultCode m.activePageDirectory va access) =
      if proc.heapStart ≤ va ∧ va < proc.heapEnd then
        m.demandMapHeapPage m.activePageDirectory (pageAlignDown va)
      else (res, m) := by
  have hcode : test (0 ||| access ||| vmFaultUser) vmFaultUser = true ∧
      has (0 ||| access ||| vmFaultUser) (vmFaultPresent ||| vmFaultWrite) = false ∧
      test (0 ||| access ||| vmFaultUser) vmFaultPresent = false := by
    rcases haccess with rfl | rfl <;> decide
  rw [userFaultCode_active, hmapped, Option.isSome_none, if_neg (by decide)]
  unfold vmHandlePageFault
  rw [h.active]
  dsimp only
  rw [hcode.1, hcode.2.1, hcode.2.2, if_neg (not_or.mpr ⟨h.pages.sound.active, by decide⟩), if_neg (by decide),
    if_pos rfl]
  by_cases hguard : isStackGuardFault va = true
  · refine ⟨.guard, nofun, ?_⟩
    rw [if_pos hguard, if_neg]
    intro hc
    have hpage := (BitVec.le_def.mpr (pageAlignDown_le va) : pageAlignDown va ≤ va)
    have hlt : pageAlignDown va < proc.heapEnd :=
      BitVec.lt_def.mpr ((BitVec.le_def.mp hpage).trans_lt (BitVec.lt_def.mp hc.2))
    exact absurd (hguard.symm.trans (h.heap_page hc.1 hlt).2.1) nofun
  · exact ⟨.fatal, nofun, if_neg hguard⟩

end ProcessPages

/-! ### A page is made writable -/

/-- A copy-on-write page is made writable. -/
theorem resolve_handled (h : m.UserPages) (hrun : m.pagingResolveCowFault m.activePageDirectory page = (true, m')) :
    ∃ e e', m.userPage (pageSlot page) = some e ∧ isUser e' = true ∧ isWritable e' = true ∧
      m.Repaged m' (pageSlot page) e' := by
  have hcow := h.resolveCow page
  rw [hrun] at hcow
  cases hcow with
  | reused e m' hpage _ _ _ _ _ hpaged =>
    obtain ⟨-, -, hwritable, huser, -⟩ := reuseEntry_facts e
    exact ⟨e, _, hpage, huser.trans (userPage_some hpage).2.2.2, hwritable, hpaged⟩
  | copied e f m' hpage _ _ _ hf _ _ hpaged =>
    obtain ⟨-, -, hwritable, huser, -⟩ := copyEntry_facts (hf.lt_max h.sound.counted) e
    exact ⟨e, _, hpage, huser.trans (userPage_some hpage).2.2.2, hwritable, hpaged⟩

/-- A heap page is mapped. -/
theorem demandMap_handled (h : m.UserPages) (hi : inUserRange (dirIndex page))
    (hrun : m.demandMapHeapPage m.activePageDirectory page = (.handled, m')) :
    ∃ e, isUser e = true ∧ isWritable e = true ∧ m.Repaged m' (pageSlot page) e := by
  have hdemand := h.demandMap hi
  rw [hrun] at hdemand
  cases hdemand with
  | mapped f m' hf _ _ _ hpaged =>
    obtain ⟨-, -, hwritable, huser⟩ := newEntry_facts (hf.lt_max h.sound.counted) heapFlags
    exact ⟨_, huser.trans (by decide), hwritable.trans (by decide), hpaged⟩

/-- The page at a place is writable, and other pages are as before. -/
structure Readied (m m' : Memory) (proc : Process) (p : PageSlot) : Prop where
  process : m'.ProcessPages proc
  writable : ∃ e, m'.userPage p = some e ∧ isWritable e = true
  mapped : ∀ q, q ≠ p → m'.mappedEntry q = m.mappedEntry q
  content : ∀ q e, q ≠ p → m.userPage q = some e → m'.ram (frameOf e) = m.ram (frameOf e)

/-- The other pages are what they were. -/
theorem Readied.userPage (h : m.Readied m' proc p) (hq : q ≠ p) : m'.userPage q = m.userPage q := by
  unfold Memory.userPage
  rw [h.mapped q hq]

namespace ProcessPages

/-- The process still has its pages. -/
theorem readied (h : m.ProcessPages proc) (hpaged : m.Repaged m' p e) (huser : isUser e = true)
    (hwritable : isWritable e = true) (hguard : p ≠ pageSlot userStackGuardBottom) : m.Readied m' proc p where
  process := ⟨hpaged.pages, h.active.trans hpaged.active.symm, h.heapStart, h.heapEnd,
    (hpaged.userPage_other hguard.symm).trans h.guard⟩
  writable := ⟨e, hpaged.userPage_self huser, hwritable⟩
  mapped := fun q hq => (hpaged.mapped q).trans (if_neg hq)
  content := hpaged.content

/-- A page with the writable bit is one that can be written. -/
theorem any_writable : (m.userPage p).any (fun e => isWritable e) = true ↔
    ∃ e, m.userPage p = some e ∧ isWritable e = true := by
  rcases m.userPage p with _ | e
  · simp
  · simp

/-- A page that `vm_prepare_user_write_page` lets through is writable. -/
theorem prepare_readied (h : m.ProcessPages proc) (hlow : userSpaceStart ≤ va) (hhigh : va < userSpaceEnd)
    (hrun : m.vmPrepareUserWritePage proc (pageAlignDown va) = (.handled, m')) :
    m.Readied m' proc (pageSlot va) := by
  rw [h.prepare_eq hlow hhigh] at hrun
  dsimp only at hrun
  split at hrun
  · rename_i hwritable
    cases hrun
    exact ⟨h, any_writable.mp hwritable, fun _ _ => rfl, fun _ _ _ _ => rfl⟩
  split at hrun
  · have hresolve : m.pagingResolveCowFault m.activePageDirectory (pageAlignDown va) = (true, m') := by
      rcases hr : m.pagingResolveCowFault m.activePageDirectory (pageAlignDown va) with ⟨_ | _, m₁⟩
      · rw [hr] at hrun
        cases hrun
      · rw [hr] at hrun
        cases hrun
        rfl
    obtain ⟨e, e', hpage, huser, hwritable, hpaged⟩ := resolve_handled h.pages hresolve
    rw [pageSlot_pageAlignDown] at hpage hpaged
    refine h.readied hpaged huser hwritable fun hc => ?_
    rw [hc, h.guard] at hpage
    cases hpage
  split at hrun
  · rename_i hheap
    obtain ⟨hi, -, hguard⟩ := h.heap_page hheap.2.1 hheap.2.2
    obtain ⟨e, huser, hwritable, hpaged⟩ := demandMap_handled h.pages (by rwa [dirIndex_pageAlignDown]) hrun
    rw [pageSlot_pageAlignDown] at hpaged
    exact h.readied hpaged huser hwritable hguard
  · cases hrun

/-- A writable page is kept. -/
theorem prepare_keeps (h : m.ProcessPages proc) (hlow : userSpaceStart ≤ va) (hhigh : va < userSpaceEnd)
    (hrun : m.vmPrepareUserWritePage proc (pageAlignDown va) = (.handled, m'))
    (hq : m.userPage q = some e) (hwritable : isWritable e = true) :
    m'.userPage q = some e ∧ m'.ram (frameOf e) = m.ram (frameOf e) := by
  by_cases hva : q = pageSlot va
  · rw [h.prepare_eq hlow hhigh, if_pos (any_writable.mpr ⟨e, hva ▸ hq, hwritable⟩)] at hrun
    cases hrun
    exact ⟨hq, rfl⟩
  · have hreadied := h.prepare_readied hlow hhigh hrun
    exact ⟨(hreadied.userPage hva).trans hq, hreadied.content q e hva hq⟩

/-- A store to a page keeps the pages. -/
theorem writeFrame (h : m.ProcessPages proc) (hg : m.Plain g) (w : TableIndex → Word) :
    (m.writeFrame g w).ProcessPages proc :=
  ⟨h.pages.writeFrame hg w, h.active, h.heapStart, h.heapEnd, by rw [hg.userPage]; exact h.guard⟩

/-- A page is prepared before a store or after it. -/
theorem prepare_writeFrame (h : m.ProcessPages proc) (hlow : userSpaceStart ≤ va) (hhigh : va < userSpaceEnd)
    (hq : m.userPage q = some e) (hwritable : isWritable e = true) :
    (m.writeFrame (frameOf e) w).vmPrepareUserWritePage proc (pageAlignDown va) =
      ((m.vmPrepareUserWritePage proc (pageAlignDown va)).1,
        (m.vmPrepareUserWritePage proc (pageAlignDown va)).2.writeFrame (frameOf e) w) := by
  have hplain := (h.pages.frames q e hq).toPlain
  rw [(h.writeFrame hplain w).prepare_eq hlow hhigh, h.prepare_eq hlow hhigh, hplain.userPage, hplain.mappedEntry,
    writeFrame_active]
  dsimp only
  by_cases hva : q = pageSlot va
  · rw [if_pos (any_writable.mpr ⟨e, hva ▸ hq, hwritable⟩), if_pos (any_writable.mpr ⟨e, hva ▸ hq, hwritable⟩)]
  have hne : q ≠ pageSlot (pageAlignDown va) := by rwa [pageSlot_pageAlignDown]
  split
  · rfl
  split
  · rw [resolve_writeFrame h.pages hq hne]
  split
  · rename_i hheap
    have hi := (h.heap_page hheap.2.1 hheap.2.2).1
    rw [demandMap_writeFrame h.pages hq hne (by rwa [dirIndex_pageAlignDown])]
  · rfl

end ProcessPages

/-! ### The pages of a range -/

/-- Page addresses of the user range. -/
def UserPageList (pages : List Word) : Prop :=
  ∀ page ∈ pages, ∃ va, userSpaceStart ≤ va ∧ va < userSpaceEnd ∧ pageAlignDown va = page

/-- The pages of a range. -/
theorem userPageList_rangePages {a n : Word} (h : ValidRange a n) : UserPageList (rangePages a n) := by
  intro page hpage
  obtain ⟨i, hi, rfl⟩ := h.mem_rangePages.mp hpage
  have hlow := h.low
  have hhigh := h.high
  refine ⟨_, ?_, ?_, rfl⟩
  · rw [BitVec.le_def, h.toNat_byte hi, toNat_userSpaceStart]
    omega
  · rw [BitVec.lt_def, h.toNat_byte hi, toNat_userSpaceEnd]
    omega

/-- The pages are prepared one after another. -/
theorem prepareWritePages_ok {pages : List Word} :
    prepareWritePages proc (page :: pages) m = (uaccessSuccess, m') ↔ ∃ m₁,
      m.vmPrepareUserWritePage proc page = (.handled, m₁) ∧
        prepareWritePages proc pages m₁ = (uaccessSuccess, m') := by
  have hmem : uaccessEnomem ≠ uaccessSuccess := by decide
  have hfault : uaccessEfault ≠ uaccessSuccess := by decide
  rw [prepareWritePages]
  rcases m.vmPrepareUserWritePage proc page with ⟨_ | _ | _ | _, m₁⟩
  case handled => simp
  case oom => exact iff_of_false (fun hc => hmem (congrArg Prod.fst hc)) fun ⟨_, hc, _⟩ => nomatch hc
  all_goals exact iff_of_false (fun hc => hfault (congrArg Prod.fst hc)) fun ⟨_, hc, _⟩ => nomatch hc

namespace ProcessPages

variable {pages : List Word}

/-- Preparing the pages keeps one that is writable. -/
theorem prepareWritePages_keeps (h : m.ProcessPages proc) (hpages : UserPageList pages)
    (hrun : prepareWritePages proc pages m = (uaccessSuccess, m')) (hq : m.userPage q = some e)
    (hwritable : isWritable e = true) :
    m'.ProcessPages proc ∧ m'.userPage q = some e ∧ m'.ram (frameOf e) = m.ram (frameOf e) := by
  induction pages generalizing m with
  | nil =>
    cases hrun
    exact ⟨h, hq, rfl⟩
  | cons page pages ih =>
    obtain ⟨va, hlow, hhigh, rfl⟩ := hpages page List.mem_cons_self
    obtain ⟨m₁, hprepare, hrun⟩ := prepareWritePages_ok.mp hrun
    obtain ⟨hq₁, hcontent⟩ := h.prepare_keeps hlow hhigh hprepare hq hwritable
    obtain ⟨h', hq', hcontent'⟩ := ih (h.prepare_readied hlow hhigh hprepare).process
      (fun page hpage => hpages page (List.mem_cons_of_mem _ hpage)) hrun hq₁
    exact ⟨h', hq', hcontent'.trans hcontent⟩

/-- The pages are prepared before a store or after it. -/
theorem prepareWritePages_writeFrame (h : m.ProcessPages proc) (hpages : UserPageList pages)
    (hq : m.userPage q = some e) (hwritable : isWritable e = true) :
    prepareWritePages proc pages (m.writeFrame (frameOf e) w) =
      ((prepareWritePages proc pages m).1, (prepareWritePages proc pages m).2.writeFrame (frameOf e) w) := by
  induction pages generalizing m with
  | nil => rfl
  | cons page pages ih =>
    obtain ⟨va, hlow, hhigh, rfl⟩ := hpages page List.mem_cons_self
    unfold prepareWritePages
    rw [h.prepare_writeFrame hlow hhigh hq hwritable]
    rcases hprepare : m.vmPrepareUserWritePage proc (pageAlignDown va) with ⟨_ | _ | _ | _, m₁⟩
    case handled =>
      exact ih (h.prepare_readied hlow hhigh hprepare).process
        (fun page hpage => hpages page (List.mem_cons_of_mem _ hpage))
        (h.prepare_keeps hlow hhigh hprepare hq hwritable).1
    all_goals rfl

/-- A writable page needs no preparation. -/
theorem prepareWritePages_writable (h : m.ProcessPages proc) (hlow : userSpaceStart ≤ va) (hhigh : va < userSpaceEnd)
    (hq : m.userPage (pageSlot va) = some e) (hwritable : isWritable e = true) :
    prepareWritePages proc (pageAlignDown va :: pages) m = prepareWritePages proc pages m := by
  have hprepare : m.vmPrepareUserWritePage proc (pageAlignDown va) = (.handled, m) := by
    rw [h.prepare_eq hlow hhigh]
    exact if_pos (any_writable.mpr ⟨e, hq, hwritable⟩)
  conv_lhs => unfold prepareWritePages
  dsimp only
  rw [hprepare]

end ProcessPages

/-! ### With enough frames -/

/-- Memory for `n` pages and their tables. -/
structure EnoughFrames (m : Memory) (n : Nat) : Prop where
  scratch : m.kernelScratchTable ≠ 0
  low : 2 * n ≤ m.supply.low
  all : 2 * n ≤ m.supply.all

/-- A frame with another owner is not freed. -/
theorem freeBelow_dropRef {s : FrameState} (hmany : 2 ≤ s.frameRefcounts f) (n : Nat) :
    (s.dropRef f).freeBelow n = s.freeBelow n := by
  have hsame : (s.dropRef f).frameBitmap = s.frameBitmap := by
    unfold FrameState.dropRef
    exact if_neg (by omega)
  unfold FrameState.freeBelow
  rw [hsame]
  rfl

/-- Fewer frames are needed. -/
theorem EnoughFrames.mono {n k : Nat} (h : m.EnoughFrames n) (hk : k ≤ n) : m.EnoughFrames k := by
  have := h.low
  have := h.all
  exact ⟨h.scratch, by omega, by omega⟩

/-- A heap page can be mapped. -/
theorem demandMap_enough {n : Nat} (h : m.UserPages) (hi : inUserRange (dirIndex page))
    (hframes : m.EnoughFrames (n + 1)) :
    ∃ m', m.demandMapHeapPage m.activePageDirectory page = (.handled, m') ∧ m'.EnoughFrames n := by
  have hlow := hframes.low
  have hall := hframes.all
  have hdemand := h.demandMap hi
  generalize m.demandMapHeapPage m.activePageDirectory page = r at hdemand
  cases hdemand with
  | oom hnone =>
    unfold Supply.takePage at hnone
    rw [if_neg (by omega)] at hnone
    split at hnone
    · cases hnone
    · rw [if_neg (by omega)] at hnone
      cases hnone
  | mapped f m' _ _ _ hsupply hpaged =>
    refine ⟨m', rfl, hpaged.scratch ▸ hframes.scratch, ?_, ?_⟩
    all_goals
      unfold Supply.takePage at hsupply
      rw [if_neg (by omega)] at hsupply
      split at hsupply
      · rw [← Option.some.inj hsupply]
        dsimp only
        omega
      · rw [if_neg (by omega)] at hsupply
        rw [← Option.some.inj hsupply]
        dsimp only
        omega

/-- A copy-on-write page can be made writable. -/
theorem resolve_enough {n : Nat} (h : m.UserPages) (hpage : m.userPage (pageSlot page) = some e)
    (hcow : isCow e = true) (hno : isWritable e = false) (hframes : m.EnoughFrames (n + 1)) :
    ∃ m', m.pagingResolveCowFault m.activePageDirectory page = (true, m') ∧ m'.EnoughFrames n := by
  have hlow := hframes.low
  have hall := hframes.all
  have hresolve := h.resolveCow page
  generalize m.pagingResolveCowFault m.activePageDirectory page = r at hresolve
  cases hresolve with
  | unresolvable hnone =>
    rcases hnone e hpage with hc | hc
    · exact absurd (hcow.symm.trans hc) nofun
    · exact absurd (hc.symm.trans hno) nofun
  | exhausted e' _ _ _ _ hc =>
    rcases hc with hc | hc
    · omega
    · exact absurd hc hframes.scratch
  | reused e' m' _ _ _ _ hsame _ hpaged =>
    refine ⟨m', rfl, hpaged.scratch ▸ hframes.scratch, ?_, ?_⟩
    · rw [supply_low, hsame, ← supply_low]
      omega
    · rw [supply_all, hsame, ← supply_all]
      omega
  | copied e' f m' hpage' _ _ hmany hf hframes' _ hpaged =>
    have hne : frameOf e' ≠ f := by
      rintro rfl
      exact absurd ((h.frames _ e' hpage').used.symm.trans hf.free) nofun
    have hmany' : 2 ≤ (m.frames.take f).frameRefcounts (frameOf e') := by
      show 2 ≤ update m.frames.frameRefcounts f 1 (frameOf e')
      rw [update_of_ne hne]
      exact hmany
    have hfree (k : Nat) : m'.frames.freeBelow k = m.frames.freeBelow k - 1 := by
      rw [hframes', freeBelow_dropRef hmany', hf.freeBelow_take]
    refine ⟨m', rfl, hpaged.scratch ▸ hframes.scratch, ?_, ?_⟩
    · rw [supply_low, hfree, ← supply_low]
      omega
    · rw [supply_all, hfree, show m'.frames.totalFrames = m.frames.totalFrames by rw [hframes']; rfl, ← supply_all]
      omega

/-- A page that is writable, or can be made so. -/
def Preparable (m : Memory) (proc : Process) (va : Word) : Prop :=
  (m.userPage (pageSlot va)).any (fun e => isWritable e || isCow e) = true ∨
    m.mappedEntry (pageSlot va) = none ∧ proc.heapStart ≤ pageAlignDown va ∧ pageAlignDown va < proc.heapEnd

/-- Bytes of one page. -/
theorem pageAlignDown_congr {va' : Word} (h : pageSlot va' = pageSlot va) : pageAlignDown va' = pageAlignDown va := by
  apply BitVec.eq_of_toNat_eq
  rw [toNat_pageAlignDown, toNat_pageAlignDown, pageSlot_eq_iff.mp h]

/-- Whether a page can be prepared is about its page. -/
theorem preparable_congr {va' : Word} (h : pageSlot va' = pageSlot va) :
    m.Preparable proc va' ↔ m.Preparable proc va := by
  unfold Preparable
  rw [h, pageAlignDown_congr h]

namespace ProcessPages

/-- A page that has been prepared is one of them. -/
theorem prepare_preparable (h : m.ProcessPages proc) (hlow : userSpaceStart ≤ va) (hhigh : va < userSpaceEnd)
    (hrun : m.vmPrepareUserWritePage proc (pageAlignDown va) = (.handled, m')) : m.Preparable proc va := by
  rw [h.prepare_eq hlow hhigh] at hrun
  dsimp only at hrun
  unfold Preparable
  rw [h.heapStart_le]
  rcases hpage : m.userPage (pageSlot va) with _ | e
  · rw [hpage, Option.any_none, if_neg Bool.false_ne_true, Option.any_none, if_neg Bool.false_ne_true] at hrun
    split at hrun
    · rename_i hheap
      exact .inr hheap
    · cases hrun
  · rw [hpage, Option.any_some, Option.any_some] at hrun
    left
    rw [Option.any_some, Bool.or_eq_true]
    split at hrun
    · rename_i hwritable
      exact .inl hwritable
    split at hrun
    · rename_i hcow
      exact .inr hcow
    · rw [if_neg] at hrun
      · cases hrun
      · rw [(userPage_eq_some.mp hpage).1]
        exact fun hc => nomatch hc.1

/-- With enough frames they can be prepared. -/
theorem prepare_enough (h : m.ProcessPages proc) (hlow : userSpaceStart ≤ va) (hhigh : va < userSpaceEnd) {n : Nat}
    (hframes : m.EnoughFrames (n + 1)) (hva : m.Preparable proc va) :
    ∃ m', m.vmPrepareUserWritePage proc (pageAlignDown va) = (.handled, m') ∧ m'.EnoughFrames n := by
  rw [h.prepare_eq hlow hhigh]
  dsimp only
  unfold Preparable at hva
  rw [h.heapStart_le] at hva
  rcases hpage : m.userPage (pageSlot va) with _ | e
  · have hheap := hva.resolve_left (by rw [hpage]; exact nofun)
    have hi := (h.heap_page hheap.2.1 hheap.2.2).1
    rw [Option.any_none, if_neg Bool.false_ne_true, Option.any_none, if_neg Bool.false_ne_true, if_pos hheap]
    exact demandMap_enough h.pages (by rwa [dirIndex_pageAlignDown]) hframes
  · rw [Option.any_some, Option.any_some]
    rcases hwritable : isWritable e with _ | _
    · have hcow : isCow e = true := by
        rcases hva with hva | hva
        · rwa [hpage, Option.any_some, hwritable, Bool.false_or] at hva
        · rw [(userPage_eq_some.mp hpage).1] at hva
          exact nomatch hva.1
      obtain ⟨m', hrun, hframes'⟩ := resolve_enough h.pages (by rwa [pageSlot_pageAlignDown]) hcow hwritable hframes
      rw [if_neg Bool.false_ne_true, if_pos hcow, hrun]
      exact ⟨m', rfl, hframes'⟩
    · rw [if_pos rfl]
      exact ⟨m, rfl, hframes.mono (Nat.le_succ n)⟩

/-- Preparing a page changes nothing for the others. -/
theorem preparable_iff (h : m.ProcessPages proc) (hlow : userSpaceStart ≤ va) (hhigh : va < userSpaceEnd)
    (hrun : m.vmPrepareUserWritePage proc (pageAlignDown va) = (.handled, m')) (va' : Word) :
    m'.Preparable proc va' ↔ m.Preparable proc va' := by
  have hreadied := h.prepare_readied hlow hhigh hrun
  by_cases hva : pageSlot va' = pageSlot va
  · obtain ⟨e, hpage, hwritable⟩ := hreadied.writable
    rw [preparable_congr hva, preparable_congr hva]
    refine iff_of_true (.inl ?_) (h.prepare_preparable hlow hhigh hrun)
    rw [hpage, Option.any_some, hwritable, Bool.true_or]
  · unfold Preparable
    rw [hreadied.userPage hva, hreadied.mapped _ hva]

/-- A range can be prepared only if all of its pages can. -/
theorem prepareWritePages_preparable (h : m.ProcessPages proc) {pages : List Word} (hpages : UserPageList pages)
    (hrun : prepareWritePages proc pages m = (uaccessSuccess, m')) : ∀ page ∈ pages, m.Preparable proc page := by
  induction pages generalizing m with
  | nil => exact nofun
  | cons page pages ih =>
    obtain ⟨va, hlow, hhigh, rfl⟩ := hpages page List.mem_cons_self
    obtain ⟨m₁, hprepare, hrun⟩ := prepareWritePages_ok.mp hrun
    intro page hpage
    rcases List.mem_cons.mp hpage with rfl | hpage
    · rw [preparable_congr (pageSlot_pageAlignDown va)]
      exact h.prepare_preparable hlow hhigh hprepare
    · rw [← h.preparable_iff hlow hhigh hprepare]
      exact ih (h.prepare_readied hlow hhigh hprepare).process
        (fun page hpage => hpages page (List.mem_cons_of_mem _ hpage)) hrun page hpage

/-- With enough frames it can be prepared then. -/
theorem prepareWritePages_enough (h : m.ProcessPages proc) {pages : List Word} (hpages : UserPageList pages)
    (hframes : m.EnoughFrames pages.length) (hall : ∀ page ∈ pages, m.Preparable proc page) :
    ∃ m', prepareWritePages proc pages m = (uaccessSuccess, m') := by
  induction pages generalizing m with
  | nil => exact ⟨m, rfl⟩
  | cons page pages ih =>
    obtain ⟨va, hlow, hhigh, rfl⟩ := hpages page List.mem_cons_self
    have hva := hall _ List.mem_cons_self
    rw [preparable_congr (pageSlot_pageAlignDown va)] at hva
    obtain ⟨m₁, hprepare, hframes₁⟩ := h.prepare_enough hlow hhigh hframes hva
    obtain ⟨m', hrun⟩ := ih (h.prepare_readied hlow hhigh hprepare).process
      (fun page hpage => hpages page (List.mem_cons_of_mem _ hpage)) hframes₁ fun page hpage =>
        (h.preparable_iff hlow hhigh hprepare page).mpr (hall page (List.mem_cons_of_mem _ hpage))
    exact ⟨m', prepareWritePages_ok.mpr ⟨m₁, hprepare, hrun⟩⟩

end ProcessPages

end Memory

end AgenticOs
