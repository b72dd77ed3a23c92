import AgenticOs.Kernel.MemoryPolicy
import AgenticOs.Kernel.Runs
import AgenticOs.Memory.UserBytes

/-!
# Kernel writes and user writes

`uaccess_prepare_write` makes the pages of a range writable before the kernel writes to it. A user program
just stores, and each store that faults is run again when `vm_handle_page_fault` has handled the fault
(`UserStores`).

* **One store** (`storeFault_iff`): the fault handler and `vm_prepare_user_write_page` do the same to a page,
  but behind the end of the heap.
* **A range** (`stores_iff`): the stores complete if and only if the pages can be prepared, and both come to
  the same memory. The induction is on the bytes: the first store prepares its page, and the other pages are
  prepared before it or after it (`prepare_then_store`).
* **Behind the heap** (`behind_prepared_iff`): a range that starts behind the end of the heap, in its last
  page, can be prepared when its other pages can be written, but a program cannot store there
  (`no_stores_behind`).
* **Main result** (`kernel_writes_like_user_iff`): the two write alike except for these ranges;
  `kernel_writes_behind_heap` is one of them.
-/

namespace AgenticOs

open Function Lib

namespace Memory

open UserPages

variable {m m' : Memory} {proc : Process} {e va : Word}

/-! ### Stores of a user program -/

/-- The stores of a user program to ascending addresses, each run again when its fault has been handled. -/
inductive UserStores (proc : Process) : Memory → Word → List Byte → Memory → Prop
  | done (m : Memory) (va : Word) : UserStores proc m va [] m
  | store {m m' : Memory} {va : Word} {b : Byte} {bytes : List Byte} :
      m.isUserWritable proc.cr3 va = true → UserStores proc (m.userWrite proc.cr3 va b) (va + 1) bytes m' →
      UserStores proc m va (b :: bytes) m'
  | fault {m m₁ m' : Memory} {va : Word} {b : Byte} {bytes : List Byte} :
      m.isUserWritable proc.cr3 va = false →
      m.vmHandlePageFault proc va (m.userFaultCode proc.cr3 va vmFaultWrite) = (.handled, m₁) →
      UserStores proc m₁ va (b :: bytes) m' → UserStores proc m va (b :: bytes) m'

namespace ProcessPages

/-- **`paging_is_user_writable`** -/
theorem isUserWritable_eq (h : m.ProcessPages proc) (va : Word) :
    m.isUserWritable proc.cr3 va = (m.userPage (pageSlot va)).any fun e => isWritable e := by
  rw [h.active]
  exact h.pages.isUserWritable_eq va

/-- The fault handler and `vm_prepare_user_write_page` do the same to a page, but behind the end of the
heap. -/
theorem storeFault_iff (h : m.ProcessPages proc) (hlow : userSpaceStart ≤ va) (hhigh : va < userSpaceEnd)
    (hno : m.isUserWritable proc.cr3 va = false) (hin : ¬m.BehindHeapEnd proc va) :
    m.vmHandlePageFault proc va (m.userFaultCode proc.cr3 va vmFaultWrite) = (.handled, m') ↔
      m.vmPrepareUserWritePage proc (pageAlignDown va) = (.handled, m') := by
  rw [h.isUserWritable_eq] at hno
  rw [h.prepare_eq hlow hhigh, h.active, hno, if_neg (by decide)]
  rcases hmapped : m.mappedEntry (pageSlot va) with _ | e
  · -- an absent page
    have hnoPage : m.userPage (pageSlot va) = none := by
      unfold userPage
      rw [hmapped, Option.filter_none]
    obtain ⟨res, hres, hfault⟩ := h.absentFault_eq hmapped (.inr rfl)
    rw [hfault, hnoPage, Option.any_none, if_neg Bool.false_ne_true]
    by_cases hheap : proc.heapStart ≤ va ∧ va < proc.heapEnd
    · have hpage : pageAlignDown va < proc.heapEnd :=
        BitVec.lt_def.mpr ((pageAlignDown_le va).trans_lt (BitVec.lt_def.mp hheap.2))
      rw [if_pos hheap, if_pos ⟨rfl, hheap.1, hpage⟩]
    · rw [if_neg hheap, if_neg]
      · exact iff_of_false (fun hc => hres (congrArg Prod.fst hc)) fun hc => nomatch hc
      · intro hc
        refine hin ⟨hmapped, (h.heapStart_le va).mpr hc.2.1, hc.2.2, ?_⟩
        rw [BitVec.le_def]
        by_contra hlt
        exact hheap ⟨hc.2.1, BitVec.lt_def.mpr (Nat.lt_of_not_le hlt)⟩
  · -- a page that is not writable
    obtain ⟨res, hres, hfault⟩ := h.storeFault_eq (by rw [hmapped]; rfl)
    rw [hfault]
    dsimp only
    by_cases hcow : (m.userPage (pageSlot va)).any (fun e => isCow e) = true
    · rw [if_pos hcow]
      rcases m.pagingResolveCowFault m.activePageDirectory (pageAlignDown va) with ⟨_ | _, m₁⟩
      · exact iff_of_false (fun hc => hres (congrArg Prod.fst hc)) fun hc => nomatch hc
      · exact Iff.rfl
    · have hresolve : m.pagingResolveCowFault m.activePageDirectory (pageAlignDown va) = (false, m) := by
        refine resolve_none fun e₀ he₀ => .inl ?_
        rw [pageSlot_pageAlignDown] at he₀
        rw [he₀, Option.any_some] at hcow
        exact Bool.eq_false_of_not_eq_true hcow
      have habsent {P : Prop} : ¬(some e = none ∧ P) := fun hc => nomatch hc.1
      rw [hresolve, if_neg hcow, if_neg habsent]
      exact iff_of_false (fun hc => hres (congrArg Prod.fst hc)) fun hc => nomatch hc

/-- The first store prepares its page. -/
theorem stores_cons_iff (h : m.ProcessPages proc) (hlow : userSpaceStart ≤ va) (hhigh : va < userSpaceEnd)
    (hin : ¬m.BehindHeapEnd proc va) {b : Byte} {bytes : List Byte} :
    UserStores proc m va (b :: bytes) m' ↔ ∃ m₁,
      m.vmPrepareUserWritePage proc (pageAlignDown va) = (.handled, m₁) ∧
        UserStores proc (m₁.userWrite proc.cr3 va b) (va + 1) bytes m' := by
  have hready {m₁ : Memory} (hrun : m.vmPrepareUserWritePage proc (pageAlignDown va) = (.handled, m₁)) :
      m₁.isUserWritable proc.cr3 va = true := by
    have hreadied := h.prepare_readied hlow hhigh hrun
    rw [hreadied.process.isUserWritable_eq]
    exact any_writable.mpr hreadied.writable
  constructor
  · intro hstores
    cases hstores with
    | store hwritable hrest =>
      refine ⟨m, ?_, hrest⟩
      rw [h.prepare_eq hlow hhigh]
      exact if_pos (by rwa [← h.isUserWritable_eq])
    | fault hno hfault hrest =>
      have hrun := (h.storeFault_iff hlow hhigh hno hin).mp hfault
      refine ⟨_, hrun, ?_⟩
      cases hrest with
      | store _ hrest => exact hrest
      | fault hno' => exact absurd ((hready hrun).symm.trans hno') nofun
  · rintro ⟨m₁, hrun, hrest⟩
    rcases hwritable : m.isUserWritable proc.cr3 va with _ | _
    · exact .fault hwritable ((h.storeFault_iff hlow hhigh hwritable hin).mpr hrun) (.store (hready hrun) hrest)
    · rw [h.prepare_eq hlow hhigh, if_pos (by rwa [← h.isUserWritable_eq])] at hrun
      cases hrun
      exact .store hwritable hrest

/-- A store to a mapped page writes its frame. -/
theorem userWrite_eq (h : m.ProcessPages proc) (hpage : m.userPage (pageSlot va) = some e) (b : Byte) :
    m.userWrite proc.cr3 va b = m.writeFrame (frameOf e) (setPageByte (m.ram (frameOf e)) (pageOffset va) b) := by
  unfold userWrite
  rw [h.active, userFrame_eq (userPage_eq_some.mp hpage).1]

/-- A store before the other pages are prepared is a store after it. -/
theorem prepare_then_store (h : m.ProcessPages proc) {pages : List Word} (hpages : UserPageList pages)
    (hpage : m.userPage (pageSlot va) = some e) (hwritable : isWritable e = true) (b : Byte) :
    prepareWritePages proc pages (m.userWrite proc.cr3 va b) = (uaccessSuccess, m') ↔ ∃ m₁,
      prepareWritePages proc pages m = (uaccessSuccess, m₁) ∧ m' = m₁.storeByte va b := by
  rw [h.userWrite_eq hpage, h.prepareWritePages_writeFrame hpages hpage hwritable]
  rcases hrun : prepareWritePages proc pages m with ⟨status, m₁⟩
  constructor
  · intro heq
    cases heq
    obtain ⟨-, hpage', hcontent⟩ := h.prepareWritePages_keeps hpages hrun hpage hwritable
    exact ⟨m₁, rfl, by rw [storeByte_eq hpage', hcontent]⟩
  · rintro ⟨m₂, heq, rfl⟩
    cases heq
    obtain ⟨-, hpage', hcontent⟩ := h.prepareWritePages_keeps hpages hrun hpage hwritable
    rw [storeByte_eq hpage', hcontent]

/-- An address after a mapped one is not behind the end of the heap. -/
theorem not_behind_next (hmapped : m.mappedEntry (pageSlot va) = some e) (hnext : (va + 1).toNat = va.toNat + 1) :
    ¬m.BehindHeapEnd proc (va + 1) := by
  rintro ⟨hnone, -, hlt, hle⟩
  rw [BitVec.lt_def, toNat_pageAlignDown, hnext] at hlt
  rw [BitVec.le_def, hnext] at hle
  by_cases hsame : (va.toNat + 1) / 4096 = va.toNat / 4096
  · have hslot : pageSlot (va + 1) = pageSlot va := pageSlot_eq_iff.mpr (hnext ▸ hsame)
    rw [hslot, hmapped] at hnone
    cases hnone
  · omega

/-- After the first store: the rest of the pages is prepared, before it or after it. -/
theorem stores_tail {size : Word} {b : Byte} {bytes : List Byte} (hrange : ValidRange va size)
    (hlength : bytes.length + 1 = size.toNat)
    (ih : ∀ m : Memory, m.ProcessPages proc → ¬m.BehindHeapEnd proc (va + 1) → ValidRange (va + 1) (size - 1) →
      ∀ m', UserStores proc m (va + 1) bytes m' ↔ ∃ m₁,
        prepareWritePages proc (rangePages (va + 1) (size - 1)) m = (uaccessSuccess, m₁) ∧
          m' = m₁.storeBytes (va + 1) bytes) :
    ∃ pages, rangePages va size = pageAlignDown va :: pages ∧ ∀ m m' : Memory, m.ProcessPages proc →
      (∃ e, m.userPage (pageSlot va) = some e ∧ isWritable e = true) →
        (UserStores proc (m.userWrite proc.cr3 va b) (va + 1) bytes m' ↔ ∃ m₁,
          prepareWritePages proc pages m = (uaccessSuccess, m₁) ∧ m' = m₁.storeBytes va (b :: bytes)) := by
  have hlow := hrange.low
  have hhigh := hrange.high
  by_cases hnil : bytes = []
  · subst hnil
    refine ⟨[], hrange.rangePages_one hlength.symm, fun m m' h _ => ?_⟩
    have hstore : m.userWrite proc.cr3 va b = m.storeBytes va [b] := by
      rw [h.active]
      rfl
    rw [hstore]
    constructor
    · intro hstores
      cases hstores
      exact ⟨m, rfl, rfl⟩
    · rintro ⟨m₁, heq, rfl⟩
      cases heq
      exact .done _ _
  have hpos := List.length_pos_of_ne_nil hnil
  have hnext : (va + 1).toNat = va.toNat + 1 := toNat_add_one (by omega)
  have hless : (size - 1).toNat = bytes.length := by
    rw [toNat_sub_one (by omega)]
    omega
  have hvalid : ValidRange (va + 1) (size - 1) := ⟨by omega, by omega, by omega⟩
  obtain ⟨pages, hpages, htail⟩ := hrange.rangePages_tail hvalid
  have hlist : UserPageList pages := fun page hpage =>
    userPageList_rangePages hrange page (hpages ▸ List.mem_cons_of_mem _ hpage)
  refine ⟨pages, hpages, fun m m' h ⟨e, hpage, hwritable⟩ => ?_⟩
  have hplain := (h.pages.frames _ e hpage).toPlain
  have hstart : userSpaceStart ≤ va := BitVec.le_def.mpr hlow
  have hend : va < userSpaceEnd := by
    rw [BitVec.lt_def, toNat_userSpaceEnd]
    omega
  -- the page of the first byte is not prepared again
  have hskip : prepareWritePages proc (rangePages (va + 1) (size - 1)) (m.userWrite proc.cr3 va b) =
      prepareWritePages proc pages (m.userWrite proc.cr3 va b) := by
    rcases htail with heq | heq
    · rw [heq, h.userWrite_eq hpage]
      exact (h.writeFrame hplain _).prepareWritePages_writable hstart hend (hplain.userPage ▸ hpage) hwritable
    · rw [heq]
  have hprocess : (m.userWrite proc.cr3 va b).ProcessPages proc := by
    rw [h.userWrite_eq hpage]
    exact h.writeFrame hplain _
  have hmapped : (m.userWrite proc.cr3 va b).mappedEntry (pageSlot va) = some e := by
    rw [h.userWrite_eq hpage, hplain.mappedEntry]
    exact (userPage_eq_some.mp hpage).1
  rw [ih _ hprocess (not_behind_next hmapped hnext) hvalid, hskip]
  constructor
  · rintro ⟨m₂, hrun, rfl⟩
    obtain ⟨m₁, hrest, rfl⟩ := (h.prepare_then_store hlist hpage hwritable b).mp hrun
    exact ⟨m₁, hrest, rfl⟩
  · rintro ⟨m₁, hrun, rfl⟩
    exact ⟨m₁.storeByte va b, (h.prepare_then_store hlist hpage hwritable b).mpr ⟨m₁, hrun, rfl⟩, rfl⟩

/-- The stores complete if and only if the pages can be prepared, and then write the bytes. -/
theorem stores_iff (h : m.ProcessPages proc) {size : Word} {bytes : List Byte} (hrange : ValidRange va size)
    (hlength : bytes.length = size.toNat) (hin : ¬m.BehindHeapEnd proc va) :
    UserStores proc m va bytes m' ↔ ∃ m₁,
      prepareWritePages proc (rangePages va size) m = (uaccessSuccess, m₁) ∧ m' = m₁.storeBytes va bytes := by
  induction bytes generalizing m m' va size with
  | nil => exact absurd hlength hrange.pos.ne
  | cons b bytes ih =>
    have hlow := hrange.low
    have hhigh := hrange.high
    rw [List.length_cons] at hlength
    have hstart : userSpaceStart ≤ va := BitVec.le_def.mpr hlow
    have hend : va < userSpaceEnd := by
      rw [BitVec.lt_def, toNat_userSpaceEnd]
      omega
    have hnext : (va + 1).toNat = va.toNat + 1 := toNat_add_one (by omega)
    have hrest : (size - 1).toNat = bytes.length := by
      rw [toNat_sub_one (by omega)]
      omega
    obtain ⟨pages, hpages, htail⟩ := stores_tail (b := b) hrange hlength fun m₁ h₁ hin₁ hvalid m₂ =>
      ih h₁ hvalid hrest.symm hin₁
    rw [h.stores_cons_iff hstart hend hin, hpages]
    constructor
    · rintro ⟨m₁, hprepare, hstores⟩
      have hreadied := h.prepare_readied hstart hend hprepare
      obtain ⟨m₂, hrun, rfl⟩ := (htail m₁ m' hreadied.process hreadied.writable).mp hstores
      exact ⟨m₂, prepareWritePages_ok.mpr ⟨m₁, hprepare, hrun⟩, rfl⟩
    · rintro ⟨m₂, hrun, rfl⟩
      obtain ⟨m₁, hprepare, hrun⟩ := prepareWritePages_ok.mp hrun
      have hreadied := h.prepare_readied hstart hend hprepare
      exact ⟨m₁, hprepare, (htail m₁ _ hreadied.process hreadied.writable).mpr ⟨m₂, hrun, rfl⟩⟩

/-- A user program cannot store behind the end of the heap. -/
theorem no_stores_behind (h : m.ProcessPages proc) (hbehind : m.BehindHeapEnd proc va) {b : Byte}
    {bytes : List Byte} : ¬UserStores proc m va (b :: bytes) m' := by
  obtain ⟨hnone, -, -, hle⟩ := hbehind
  have hno : m.isUserWritable proc.cr3 va = false := by
    rw [h.isUserWritable_eq]
    unfold userPage
    rw [hnone]
    rfl
  obtain ⟨res, hres, hfault⟩ := h.absentFault_eq hnone (.inr rfl)
  rw [if_neg fun hc => absurd (BitVec.lt_def.mp hc.2) (Nat.not_lt.mpr (BitVec.le_def.mp hle)), ← h.active] at hfault
  intro hstores
  cases hstores with
  | store hwritable => exact absurd (hwritable.symm.trans hno) nofun
  | fault _ hhandled => exact hres (congrArg Prod.fst (hfault.symm.trans hhandled))

end ProcessPages

end Memory

/-! ### `uaccess_prepare_write` -/

namespace Kernel

variable {k : Kernel} {proc : Slot} {address size : Word}

/-- **`uaccess_prepare_write`**, as a walk over pages -/
theorem uaccessPrepareWrite_run (hproc : k.activeProcessDirectory = some proc) (hvalid : ValidRange address size) :
    uaccessPrepareWrite address size k =
      ((Memory.prepareWritePages (k.procs proc) (rangePages address size) k.mem).1,
        k.withMem (Memory.prepareWritePages (k.procs proc) (rangePages address size) k.mem).2) := by
  have hsize : size ≠ 0 := by
    rintro rfl
    exact absurd hvalid.pos (by decide)
  have hrange := (uaccessRangeValid_iff hsize).mpr hvalid
  unfold uaccessPrepareWrite
  rw [run_bind, run_get, hrange]
  dsimp only
  rw [Bool.not_true, if_neg Bool.false_ne_true, if_neg hsize, hproc]
  rfl

/-- Its answer. -/
theorem uaccessPrepareWrite_status (hproc : k.activeProcessDirectory = some proc)
    (hvalid : ValidRange address size) : (uaccessPrepareWrite address size k).1 =
      (Memory.prepareWritePages (k.procs proc) (rangePages address size) k.mem).1 := by
  rw [uaccessPrepareWrite_run hproc hvalid]

/-- The kernel and the user program write alike: both complete or none does, and they come to the same
memory. -/
structure WritesAlike (k : Kernel) (proc : Slot) (address size : Word) (bytes : List Byte) : Prop where
  completes : (uaccessPrepareWrite address size k).1 = uaccessSuccess ↔
    ∃ m', Memory.UserStores (k.procs proc) k.mem address bytes m'
  same : (uaccessPrepareWrite address size k).1 = uaccessSuccess →
    ∀ m', Memory.UserStores (k.procs proc) k.mem address bytes m' →
      m' = (uaccessPrepareWrite address size k).2.mem.storeBytes address bytes

/-- The further pages of a range are writable or copy-on-write. -/
def RestWritable (m : Memory) (address size : Word) : Prop :=
  ∀ i < size.toNat, pageSlot (address + BitVec.ofNat 32 i) ≠ pageSlot address →
    (m.userPage (pageSlot (address + BitVec.ofNat 32 i))).any (fun e => isWritable e || isCow e) = true

/-- A range that starts behind the end of the heap, in its last page, can be prepared when its other pages can
be written. -/
theorem behind_prepared_iff {m : Memory} {proc : Process} (h : m.ProcessPages proc)
    (hvalid : ValidRange address size) (hframes : m.EnoughFrames (rangePages address size).length)
    (hbehind : m.BehindHeapEnd proc address) :
    (Memory.prepareWritePages proc (rangePages address size) m).1 = uaccessSuccess ↔
      RestWritable m address size := by
  have hlist := Memory.userPageList_rangePages hvalid
  have hhigh := hvalid.high
  obtain ⟨hnone, hstart, hpage, hle⟩ := hbehind
  constructor
  · intro hok i hi hne
    have hall := h.prepareWritePages_preparable hlist (Prod.ext hok rfl)
    have hbyte := hall _ (hvalid.mem_rangePages.mpr ⟨i, hi, rfl⟩)
    rw [Memory.preparable_congr (Memory.pageSlot_pageAlignDown _)] at hbyte
    refine hbyte.resolve_right fun hheap => hne (pageSlot_eq_iff.mpr ?_)
    have hlt := BitVec.lt_def.mp hheap.2.2
    rw [BitVec.le_def] at hle
    rw [toNat_pageAlignDown, hvalid.toNat_byte hi] at hlt
    rw [hvalid.toNat_byte hi]
    omega
  · intro hrest
    have hall : ∀ page ∈ rangePages address size, m.Preparable proc page := by
      intro page hmem
      obtain ⟨i, hi, rfl⟩ := hvalid.mem_rangePages.mp hmem
      rw [Memory.preparable_congr (Memory.pageSlot_pageAlignDown _)]
      by_cases hsame : pageSlot (address + BitVec.ofNat 32 i) = pageSlot address
      · rw [Memory.preparable_congr hsame]
        exact .inr ⟨hnone, hstart, hpage⟩
      · exact .inl (hrest i hi hsame)
    obtain ⟨m', hrun⟩ := h.prepareWritePages_enough hlist hframes hall
    exact congrArg Prod.fst hrun

end Kernel

/-- **The kernel writes to user memory like the program itself**, but for a range that starts behind the end of the
heap in its last page, when that page is not mapped and the other pages can be written: then the kernel maps
the page, and the program dies at its first store. Otherwise both complete or none does, with the same memory
after it. -/
theorem kernel_writes_like_user_iff {k : Kernel} {proc : Slot} {address size : Word} {bytes : List Byte}
    (hproc : k.activeProcessDirectory = some proc) (h : k.mem.ProcessPages (k.procs proc))
    (hvalid : ValidRange address size) (hlength : bytes.length = size.toNat)
    (hframes : k.mem.EnoughFrames (rangePages address size).length) :
    k.WritesAlike proc address size bytes ↔
      ¬(k.mem.BehindHeapEnd (k.procs proc) address ∧ Kernel.RestWritable k.mem address size) := by
  have hrun := Kernel.uaccessPrepareWrite_run hproc hvalid
  by_cases hbehind : k.mem.BehindHeapEnd (k.procs proc) address
  · have hprepared := Kernel.behind_prepared_iff h hvalid hframes hbehind
    have hno : ¬∃ m', Memory.UserStores (k.procs proc) k.mem address bytes m' := by
      rintro ⟨m', hstores⟩
      rcases bytes with _ | ⟨b, bytes⟩
      · exact absurd hlength hvalid.pos.ne
      · exact h.no_stores_behind hbehind hstores
    constructor
    · intro halike hc
      exact hno (halike.completes.mp (hrun ▸ hprepared.mpr hc.2))
    · intro hc
      have hfails : ¬(uaccessPrepareWrite address size k).1 = uaccessSuccess := by
        rw [hrun]
        exact fun hok => hc ⟨hbehind, hprepared.mp hok⟩
      exact ⟨iff_of_false hfails hno, fun hok => absurd hok hfails⟩
  · have hiff (m' : Memory) : Memory.UserStores (k.procs proc) k.mem address bytes m' ↔ _ :=
      h.stores_iff hvalid hlength hbehind
    refine iff_of_true ⟨?_, fun hok m' hstores => ?_⟩ fun hc => hbehind hc.1
    · rw [hrun]
      constructor
      · intro hok
        exact ⟨_, (hiff _).mpr ⟨_, Prod.ext hok rfl, rfl⟩⟩
      · rintro ⟨m', hstores⟩
        obtain ⟨m₁, hprepare, -⟩ := (hiff m').mp hstores
        exact congrArg Prod.fst hprepare
    · obtain ⟨m₁, hprepare, rfl⟩ := (hiff m').mp hstores
      rw [hrun, hprepare]
      rfl

/-- The first process, with a heap and no page mapped. -/
def Kernel.blankHeap (heapEnd : Word) : Kernel :=
  (Kernel.solo.withMem .blank).setProc 0 fun p =>
    { p with cr3 := 0x100000, heapStart := processHeapStart, heapEnd := heapEnd }

/-- Process 0 is the current one. -/
theorem blankHeap_current (heapEnd : Word) : (Kernel.blankHeap heapEnd).activeProcessDirectory = some 0 := by
  have hcurrent : Kernel.solo.processGetCurrent = some 0 := by decide
  have hactive : ¬((0x100000 : Word) = 0 ∨ (0x100000 : Word) ≠ 0x100000) := by decide
  unfold Kernel.activeProcessDirectory
  rw [show (Kernel.blankHeap heapEnd).processGetCurrent = some 0 from hcurrent]
  exact if_neg hactive

/-- It has no page yet. -/
theorem blank_noPage (p : PageSlot) : Memory.blank.userPage p = none := by
  unfold Memory.userPage
  rw [Memory.blank_mappedEntry, Option.filter_none]

/-- It has a heap. -/
theorem blankHeap_process (heapEnd : Word) (h : heapEnd ≤ processHeapLimit) :
    (Kernel.blankHeap heapEnd).mem.ProcessPages ((Kernel.blankHeap heapEnd).procs 0) :=
  ⟨Memory.blank_userPages, rfl, rfl, h, blank_noPage _⟩

/-- There are enough frames. -/
theorem blankHeap_frames (heapEnd : Word) {n : Nat} (h : n ≤ 128) :
    (Kernel.blankHeap heapEnd).mem.EnoughFrames n := by
  refine ⟨show (0x104000 : Word) ≠ 0 by decide, ?_, ?_⟩
  · show 2 * n ≤ Memory.blank.supply.low
    rw [Memory.blank_supply.1]
    omega
  · show 2 * n ≤ Memory.blank.supply.all
    rw [Memory.blank_supply.2]
    omega

/-- A store to the first page of the heap. -/
theorem kernel_writes_like_user_iff_blank :
    (Kernel.blankHeap 0x90001000).WritesAlike 0 0x90000000 1 [0x41] :=
  (kernel_writes_like_user_iff (blankHeap_current _) (blankHeap_process _ (by decide)) ⟨by decide, by decide, by decide⟩
    rfl (blankHeap_frames _ (by decide))).mpr fun hc => absurd hc.1.2.2.2 (by decide)

/-- A heap of one byte: the kernel writes to its sixteenth byte, and the program dies when it does. -/
theorem kernel_writes_behind_heap :
    (uaccessPrepareWrite 0x90000010 1 (.blankHeap 0x90000001)).1 = uaccessSuccess ∧
      ¬∃ m', Memory.UserStores ((Kernel.blankHeap 0x90000001).procs 0) (Kernel.blankHeap 0x90000001).mem 0x90000010
        [0x41] m' := by
  have hprocess := blankHeap_process 0x90000001 (by decide)
  have hvalid : ValidRange 0x90000010 1 := ⟨by decide, by decide, by decide⟩
  have hbehind : (Kernel.blankHeap 0x90000001).mem.BehindHeapEnd ((Kernel.blankHeap 0x90000001).procs 0)
      0x90000010 := ⟨Memory.blank_mappedEntry _, by decide, by decide, by decide⟩
  have hrest : Kernel.RestWritable (Kernel.blankHeap 0x90000001).mem 0x90000010 1 := by
    intro i hi hne
    obtain rfl : i = 0 := Nat.lt_one_iff.mp hi
    exact absurd (congrArg pageSlot (BitVec.add_zero _)) hne
  constructor
  · rw [Kernel.uaccessPrepareWrite_status (blankHeap_current _) hvalid]
    exact (Kernel.behind_prepared_iff hprocess hvalid (blankHeap_frames _ (by decide)) hbehind).mpr hrest
  · rintro ⟨m', hstores⟩
    exact hprocess.no_stores_behind hbehind hstores

end AgenticOs
