import AgenticOs.Kernel.UserWrites

/-!
# Kernel reads and user reads

`uaccess_readable` looks at the page entries only. A user program just loads, and a load of a heap page that
is not there yet maps the page (`UserLoads`).

* **One load** (`Touch`): the page can be read, or it is a heap page and is mapped, or the fault is fatal.
  Other pages are as before, and a load takes the frames for its own page only (`touch_frames`).
* **A range** (`loads_iff`): with enough frames the loads complete if and only if each byte can be reached
  (`Reached`): it is on a user page, or on a heap page that the first byte of the range on it maps. The
  induction is on the bytes.
* **Main result** (`kernel_reads_like_user_iff`): the kernel accepts the ranges that the program can read,
  except those with a heap page that the program has not touched, which it rejects
  (`kernel_rejects_untouched_heap`).
-/

namespace AgenticOs

open Function Lib

namespace Memory

open UserPages

variable {m m' m₁ : Memory} {proc : Process} {p q : PageSlot} {va va' : Word}

/-! ### Loads of a user program -/

/-- The loads of a user program from ascending addresses, each run again when its fault has been handled. -/
inductive UserLoads (proc : Process) : Memory → Word → List Byte → Memory → Prop
  | done (m : Memory) (va : Word) : UserLoads proc m va [] m
  | load {m m' : Memory} {va : Word} {b : Byte} {bytes : List Byte} :
      m.userLoad proc.cr3 va = some b → UserLoads proc m (va + 1) bytes m' → UserLoads proc m va (b :: bytes) m'
  | fault {m m₁ m' : Memory} {va : Word} {b : Byte} {bytes : List Byte} :
      m.userLoad proc.cr3 va = none →
      m.vmHandlePageFault proc va (m.userFaultCode proc.cr3 va 0) = (.handled, m₁) →
      UserLoads proc m₁ va (b :: bytes) m' → UserLoads proc m va (b :: bytes) m'

/-- The program can load `n` bytes. -/
def Loads (m : Memory) (proc : Process) (va : Word) (n : Nat) : Prop :=
  ∃ bytes m', bytes.length = n ∧ UserLoads proc m va bytes m'

/-- A byte of a range that starts at `start` is on a user page, or on a heap page that the first byte of the
range on it maps. -/
def Reached (m : Memory) (proc : Process) (start va : Word) : Prop :=
  (m.userPage (pageSlot va)).isSome = true ∨
    m.mappedEntry (pageSlot va) = none ∧ proc.heapStart ≤ va ∧
      max start.toNat (pageAlignDown va).toNat < proc.heapEnd.toNat

/-- The page at a place can be read, and other pages are as before. -/
structure Touched (m m' : Memory) (proc : Process) (p : PageSlot) : Prop where
  process : m'.ProcessPages proc
  present : (m'.userPage p).isSome = true
  mapped : ∀ q, q ≠ p → m'.mappedEntry q = m.mappedEntry q

/-- What a load does to the page of its address. -/
inductive Touch (m : Memory) (proc : Process) (va : Word) : Memory → Prop
  | present : (m.userPage (pageSlot va)).isSome = true → Touch m proc va m
  | absent {m' : Memory} : m.mappedEntry (pageSlot va) = none → proc.heapStart ≤ va → va < proc.heapEnd →
      m.demandMapHeapPage m.activePageDirectory (pageAlignDown va) = (.handled, m') → Touch m proc va m'

/-- The other pages are what they were. -/
theorem Touched.userPage (h : m.Touched m' proc p) (hq : q ≠ p) : m'.userPage q = m.userPage q := by
  unfold Memory.userPage
  rw [h.mapped q hq]

/-- How many pages of a list are not mapped. -/
def absentPages (m : Memory) (pages : List Word) : Nat :=
  pages.countP fun page => (m.mappedEntry (pageSlot page)).isNone

/-- One page more. -/
theorem absentPages_cons (m : Memory) (page : Word) (pages : List Word) : m.absentPages (page :: pages) =
    m.absentPages pages + if (m.mappedEntry (pageSlot page)).isNone = true then 1 else 0 :=
  List.countP_cons ..

/-- Pages stay mapped. -/
theorem Touched.absentPages_le (h : m.Touched m' proc p) (pages : List Word) :
    m'.absentPages pages ≤ m.absentPages pages := by
  refine List.countP_mono_left fun page _ habsent => ?_
  by_cases hp : pageSlot page = p
  · have hpresent := h.present
    unfold Memory.userPage at hpresent
    rw [← hp, Option.isNone_iff_eq_none.mp habsent] at hpresent
    cases hpresent
  · rwa [h.mapped _ hp] at habsent

namespace ProcessPages

/-- A byte can be loaded exactly if its page is mapped. -/
theorem userLoad_isSome (h : m.ProcessPages proc) (va : Word) :
    (m.userLoad proc.cr3 va).isSome = (m.userPage (pageSlot va)).isSome := by
  rw [h.active, h.pages.userLoad_eq, Option.isSome_map]

/-- A load touches one page. -/
theorem touched (h : m.ProcessPages proc) (htouch : m.Touch proc va m') : m.Touched m' proc (pageSlot va) := by
  cases htouch with
  | present hpage => exact ⟨h, hpage, fun _ _ => rfl⟩
  | absent hnone hlow hhigh hrun =>
    have hpage : pageAlignDown va < proc.heapEnd :=
      BitVec.lt_def.mpr ((pageAlignDown_le va).trans_lt (BitVec.lt_def.mp hhigh))
    obtain ⟨hi, -, hguard⟩ := h.heap_page hlow hpage
    obtain ⟨e, huser, hwritable, hpaged⟩ := demandMap_handled h.pages (by rwa [dirIndex_pageAlignDown]) hrun
    rw [pageSlot_pageAlignDown] at hpaged
    have hreadied := h.readied hpaged huser hwritable hguard
    obtain ⟨e', he', -⟩ := hreadied.writable
    exact ⟨hreadied.process, by rw [he']; rfl, hreadied.mapped⟩

/-- The first load touches its page. -/
theorem loads_succ_iff (h : m.ProcessPages proc) {n : Nat} :
    m.Loads proc va (n + 1) ↔ ∃ m₁, m.Touch proc va m₁ ∧ m₁.Loads proc (va + 1) n := by
  constructor
  · rintro ⟨bytes, m', hlength, hloads⟩
    cases hloads with
    | done => exact absurd hlength (Nat.succ_ne_zero n).symm
    | load hload hrest =>
      refine ⟨m, .present ?_, _, m', Nat.succ.inj hlength, hrest⟩
      rw [← h.userLoad_isSome, hload]
      rfl
    | fault hno hfault hrest =>
      have hnoPage : m.userPage (pageSlot va) = none := by
        have hnone := h.userLoad_isSome va
        rw [hno] at hnone
        exact Option.isNone_iff_eq_none.mp (Option.isSome_eq_false_iff.mp hnone.symm)
      rw [h.active] at hfault
      rcases hmapped : m.mappedEntry (pageSlot va) with _ | e
      · obtain ⟨res, hres, heq⟩ := h.absentFault_eq hmapped (.inl rfl)
        rw [heq] at hfault
        split at hfault
        · rename_i hheap
          have htouch : m.Touch proc va _ := .absent hmapped hheap.1 hheap.2 hfault
          refine ⟨_, htouch, ?_⟩
          cases hrest with
          | load _ hrest => exact ⟨_, m', Nat.succ.inj hlength, hrest⟩
          | fault hno' =>
            have hpresent := (h.touched htouch).present
            rw [← (h.touched htouch).process.userLoad_isSome, hno'] at hpresent
            cases hpresent
        · exact absurd (congrArg Prod.fst hfault) hres
      · rw [h.loadFault_eq (by rw [hmapped]; rfl)] at hfault
        cases hfault
  · rintro ⟨m₁, htouch, bytes, m', hlength, hrest⟩
    have hpresent := (h.touched htouch).present
    rw [← (h.touched htouch).process.userLoad_isSome] at hpresent
    obtain ⟨b, hb⟩ := Option.isSome_iff_exists.mp hpresent
    refine ⟨b :: bytes, m', congrArg Nat.succ hlength, ?_⟩
    cases htouch with
    | present => exact .load hb hrest
    | absent hnone hlow hhigh hrun =>
      have hno : m.userLoad proc.cr3 va = none := by
        rw [h.active, h.pages.userLoad_eq]
        unfold Memory.userPage
        rw [hnone]
        rfl
      obtain ⟨res, -, heq⟩ := h.absentFault_eq hnone (.inl rfl)
      rw [if_pos ⟨hlow, hhigh⟩, hrun, ← h.active] at heq
      exact .fault hno heq (.load hb hrest)

/-- The first byte can be reached if and only if it can be touched. -/
theorem touch_iff (h : m.ProcessPages proc) {n : Nat} (hframes : m.mappedEntry (pageSlot va) = none →
    m.EnoughFrames (n + 1)) :
    (∃ m₁, m.Touch proc va m₁) ↔ m.Reached proc va va := by
  have hle := pageAlignDown_le va
  unfold Reached
  rw [Nat.max_eq_left hle]
  constructor
  · rintro ⟨m₁, htouch⟩
    cases htouch with
    | present hpage => exact .inl hpage
    | absent hnone hlow hhigh => exact .inr ⟨hnone, hlow, BitVec.lt_def.mp hhigh⟩
  · rintro (hpage | ⟨hnone, hlow, hhigh⟩)
    · exact ⟨m, .present hpage⟩
    · have hpage : pageAlignDown va < proc.heapEnd := BitVec.lt_def.mpr (hle.trans_lt hhigh)
      have hi := (h.heap_page hlow hpage).1
      obtain ⟨m₁, hrun, -⟩ := demandMap_enough h.pages (by rwa [dirIndex_pageAlignDown]) (hframes hnone)
      exact ⟨m₁, .absent hnone hlow (BitVec.lt_def.mpr hhigh) hrun⟩

/-- The other bytes can be reached after it if and only if they can be reached before. -/
theorem reached_next (htouched : m.Touched m₁ proc (pageSlot va)) (hfirst : m.Reached proc va va)
    (hstart : (va + 1).toNat = va.toNat + 1) (hva : va.toNat < va'.toNat) :
    m₁.Reached proc (va + 1) va' ↔ m.Reached proc va va' := by
  unfold Reached at hfirst ⊢
  rw [Nat.max_eq_left (pageAlignDown_le va)] at hfirst
  rw [hstart, toNat_pageAlignDown]
  by_cases hsame : pageSlot va' = pageSlot va
  · have hpage := pageSlot_eq_iff.mp hsame
    rw [hsame]
    refine iff_of_true (.inl htouched.present) ?_
    rcases hfirst with hfirst | ⟨hnone, hlow, hhigh⟩
    · exact .inl hfirst
    · refine .inr ⟨hnone, BitVec.le_def.mpr ((BitVec.le_def.mp hlow).trans hva.le), ?_⟩
      omega
  · have hpage : va'.toNat / 4096 ≠ va.toNat / 4096 := fun hc => hsame (pageSlot_eq_iff.mpr hc)
    have hmax : max (va.toNat + 1) (va'.toNat / 4096 * 4096) = max va.toNat (va'.toNat / 4096 * 4096) := by omega
    rw [htouched.userPage hsame, htouched.mapped _ hsame, hmax]

/-- Touching a page takes the frames for it, and leaves those for the other pages. -/
theorem touch_frames (h : m.ProcessPages proc) {pages : List Word} (htouch : m.Touch proc va m₁)
    (hframes : m.EnoughFrames (m.absentPages (pageAlignDown va :: pages))) :
    m₁.EnoughFrames (m₁.absentPages (pageAlignDown va :: pages)) := by
  have htouched := h.touched htouch
  cases htouch with
  | present => exact hframes
  | absent hnone hlow hhigh hrun =>
    have hpage : pageAlignDown va < proc.heapEnd :=
      BitVec.lt_def.mpr ((pageAlignDown_le va).trans_lt (BitVec.lt_def.mp hhigh))
    have hi := (h.heap_page hlow hpage).1
    rw [absentPages_cons, pageSlot_pageAlignDown, hnone, Option.isNone_none, if_pos rfl] at hframes
    have hpageRange : inUserRange (dirIndex (pageAlignDown va)) := by rwa [dirIndex_pageAlignDown]
    obtain ⟨m₂, hrun', hframes'⟩ := demandMap_enough h.pages hpageRange hframes
    cases hrun.symm.trans hrun'
    obtain ⟨e, he⟩ := Option.isSome_iff_exists.mp htouched.present
    rw [absentPages_cons, pageSlot_pageAlignDown, (userPage_eq_some.mp he).1, Option.isNone_some,
      if_neg Bool.false_ne_true]
    exact hframes'.mono (htouched.absentPages_le pages)

/-- With enough frames the loads complete if and only if each byte can be reached. -/
theorem loads_iff (h : m.ProcessPages proc) {size : Word} (hvalid : ValidRange va size)
    (hframes : m.EnoughFrames (m.absentPages (rangePages va size))) :
    m.Loads proc va size.toNat ↔ ∀ i < size.toNat, m.Reached proc va (va + BitVec.ofNat 32 i) := by
  induction hn : size.toNat generalizing m va size with
  | zero => exact absurd hn hvalid.pos.ne'
  | succ n ih =>
    have hlow := hvalid.low
    have hhigh := hvalid.high
    have hstart : (va + 1).toNat = va.toNat + 1 := toNat_add_one (by omega)
    have hrest : (size - 1).toNat = n := by
      rw [toNat_sub_one (by omega)]
      omega
    have hzero : va + BitVec.ofNat 32 0 = va := BitVec.add_zero _
    obtain ⟨pages, hpages⟩ : ∃ pages, rangePages va size = pageAlignDown va :: pages :=
      ValidRange.rangePages_eq ▸ steps_cons ..
    have hfirst : (∃ m₁, m.Touch proc va m₁) ↔ m.Reached proc va va := h.touch_iff fun hnone => by
      rwa [hpages, absentPages_cons, pageSlot_pageAlignDown, hnone, Option.isNone_none, if_pos rfl] at hframes
    have hnext {m₁ : Memory} (htouch : m.Touch proc va m₁) (hreached : m.Reached proc va va) :
        m₁.Loads proc (va + 1) n ↔ ∀ i < n, m.Reached proc va (va + BitVec.ofNat 32 (i + 1)) := by
      rcases Nat.eq_zero_or_pos n with rfl | hpos
      · exact iff_of_true ⟨[], m₁, rfl, .done _ _⟩ nofun
      have htouched := h.touched htouch
      have hvalid' : ValidRange (va + 1) (size - 1) := ⟨by omega, by omega, by omega⟩
      have hframes' : m₁.EnoughFrames (m₁.absentPages (rangePages (va + 1) (size - 1))) := by
        obtain ⟨pages', hpages', htail⟩ := hvalid.rangePages_tail hvalid'
        have henough := h.touch_frames htouch (hpages' ▸ hframes)
        rcases htail with heq | heq
        · rwa [heq]
        · rw [heq]
          exact henough.mono (by rw [absentPages_cons]; exact Nat.le_add_right ..)
      rw [ih htouched.process hvalid' hframes' hrest]
      refine forall₂_congr fun i hi => ?_
      have hbyte := hvalid'.toNat_byte (i := i) (by omega)
      rw [add_ofNat_succ, reached_next htouched hreached hstart (by omega)]
    rw [h.loads_succ_iff]
    constructor
    · rintro ⟨m₁, htouch, hloads⟩ i hi
      have hreached := hfirst.mp ⟨m₁, htouch⟩
      rcases i with _ | i
      · rwa [hzero]
      · exact (hnext htouch hreached).mp hloads i (Nat.lt_of_succ_lt_succ hi)
    · intro hall
      have hreached := hzero ▸ hall 0 (Nat.succ_pos n)
      obtain ⟨m₁, htouch⟩ := hfirst.mpr hreached
      exact ⟨m₁, htouch, (hnext htouch hreached).mpr fun i hi => hall (i + 1) (Nat.succ_lt_succ hi)⟩

end ProcessPages

end Memory

/-! ### `uaccess_readable` -/

namespace Kernel

variable {k : Kernel} {proc : Slot} {address size : Word}

/-- **`uaccess_readable`** asks for every page of the range. -/
theorem uaccessReadable_pages (hproc : k.activeProcessDirectory = some proc)
    (h : k.mem.ProcessPages (k.procs proc)) (hvalid : ValidRange address size) :
    k.uaccessReadable address size = true ↔
      ∀ i < size.toNat, (k.mem.userPage (pageSlot (address + BitVec.ofNat 32 i))).isSome = true := by
  have hsize : size ≠ 0 := by
    rintro rfl
    exact absurd hvalid.pos (by decide)
  rw [uaccessReadable_iff hsize ((uaccessRangeValid_iff hsize).mpr hvalid), hproc]
  simp only [Option.some.injEq, exists_eq_left']
  refine forall₂_congr fun i _ => ?_
  rw [h.active, (Memory.pageFlags_kinds h.pages.sound.active _).2.1]

/-- The loads complete if and only if each byte can be reached. -/
theorem loads_reached {m : Memory} {proc : Process} (h : m.ProcessPages proc) (hvalid : ValidRange address size)
    (hframes : m.EnoughFrames (rangePages address size).length) :
    m.Loads proc address size.toNat ↔
      ∀ i < size.toNat, m.Reached proc address (address + BitVec.ofNat 32 i) :=
  h.loads_iff hvalid (hframes.mono List.countP_le_length)

end Kernel

/-- **The kernel reads user memory like the program itself**, but for a range with a heap page that the program has
not touched, all of whose bytes the program could load: the kernel rejects it. Otherwise both complete or none
does. -/
theorem kernel_reads_like_user_iff {k : Kernel} {proc : Slot} {address size : Word}
    (hproc : k.activeProcessDirectory = some proc) (h : k.mem.ProcessPages (k.procs proc))
    (hvalid : ValidRange address size) (hframes : k.mem.EnoughFrames (rangePages address size).length) :
    (k.uaccessReadable address size = true ↔ k.mem.Loads (k.procs proc) address size.toNat) ↔
      ¬((∀ i < size.toNat, k.mem.Reached (k.procs proc) address (address + BitVec.ofNat 32 i)) ∧
        ∃ i < size.toNat, k.mem.mappedEntry (pageSlot (address + BitVec.ofNat 32 i)) = none) := by
  have hreadable := Kernel.uaccessReadable_pages hproc h hvalid
  rw [hreadable, Kernel.loads_reached h hvalid hframes]
  constructor
  · rintro hiff ⟨hall, i, hi, hnone⟩
    have hpage := hiff.mpr hall i hi
    unfold Memory.userPage at hpage
    rw [hnone] at hpage
    cases hpage
  · intro hno
    refine ⟨fun hpages i hi => .inl (hpages i hi), fun hall i hi => (hall i hi).resolve_right fun hheap => ?_⟩
    exact hno ⟨hall, i, hi, hheap.1⟩

/-- The directory of the current process is loaded. -/
theorem activeProcessDirectory_withMem {k : Kernel} {proc : Slot} {m : Memory}
    (hcurrent : k.processGetCurrent = some proc) (hzero : (k.procs proc).cr3 ≠ 0)
    (hactive : (k.procs proc).cr3 = m.pagingGetCurrentDirectory) :
    (k.withMem m).activeProcessDirectory = some proc := by
  have hcurrent' : (k.withMem m).processGetCurrent = some proc := hcurrent
  unfold Kernel.activeProcessDirectory
  rw [hcurrent']
  exact if_neg (not_or_intro hzero (not_not_intro hactive))

/-- The process of `blankHeap` once the first page of its heap can be written. -/
def Kernel.touchedHeap : Kernel :=
  (Kernel.blankHeap 0x90001000).withMem ((Kernel.blankHeap 0x90001000).mem.vmPrepareUserWritePage
    ((Kernel.blankHeap 0x90001000).procs 0) (pageAlignDown 0x90000000)).2

/-- Nothing but the memory has changed, and one page of it is ready for a write. -/
theorem touchedHeap_readied : ∃ m', Kernel.touchedHeap = (Kernel.blankHeap 0x90001000).withMem m' ∧
    (Kernel.blankHeap 0x90001000).mem.Readied m' ((Kernel.blankHeap 0x90001000).procs 0) (pageSlot 0x90000000) ∧
    m'.EnoughFrames 1 := by
  have hprocess := blankHeap_process 0x90001000 (by decide)
  have hframes : (Kernel.blankHeap 0x90001000).mem.EnoughFrames (1 + 1) := blankHeap_frames _ (by decide)
  have hlow : userSpaceStart ≤ 0x90000000 := by decide
  have hhigh : 0x90000000 < userSpaceEnd := by decide
  obtain ⟨m', hrun, henough⟩ := hprocess.prepare_enough hlow hhigh hframes
    (.inr ⟨Memory.blank_mappedEntry _, by decide, by decide⟩)
  refine ⟨m', ?_, hprocess.prepare_readied hlow hhigh hrun, henough⟩
  unfold Kernel.touchedHeap
  rw [hrun]

/-- Four bytes of that page: the kernel accepts them, and the program can load them. -/
theorem kernel_reads_like_user_iff_touched :
    Kernel.touchedHeap.uaccessReadable 0x90000000 4 = true ∧
      Kernel.touchedHeap.mem.Loads (Kernel.touchedHeap.procs 0) 0x90000000 (4 : Word).toNat := by
  obtain ⟨m', htouched, hreadied, hframes⟩ := touchedHeap_readied
  rw [htouched]
  have hcurrent : ((Kernel.blankHeap 0x90001000).withMem m').activeProcessDirectory = some 0 :=
    activeProcessDirectory_withMem (by decide) (by decide) hreadied.process.active
  have hvalid : ValidRange 0x90000000 4 := ⟨by decide, by decide, by decide⟩
  have hslot : ∀ i < (4 : Word).toNat,
      pageSlot ((0x90000000 : Word) + BitVec.ofNat 32 i) = pageSlot 0x90000000 := by decide
  obtain ⟨e, hpage, -⟩ := hreadied.writable
  have hreadable : ((Kernel.blankHeap 0x90001000).withMem m').uaccessReadable 0x90000000 4 = true := by
    refine (Kernel.uaccessReadable_pages hcurrent hreadied.process hvalid).mpr fun i hi => ?_
    have hsome : (m'.userPage (pageSlot 0x90000000)).isSome = true := Option.isSome_of_eq_some hpage
    rw [hslot i hi]
    exact hsome
  have hmapped : ¬∃ i < (4 : Word).toNat,
      m'.mappedEntry (pageSlot (0x90000000 + BitVec.ofNat 32 i)) = none := by
    rintro ⟨i, hi, hnone⟩
    rw [hslot i hi, (Memory.userPage_eq_some.mp hpage).1] at hnone
    cases hnone
  have hiff := (kernel_reads_like_user_iff hcurrent hreadied.process hvalid hframes).mpr
    fun hc => hmapped hc.2
  exact ⟨hreadable, hiff.mp hreadable⟩

/-- The first byte of a heap that was not touched yet: the program can load it, and the kernel rejects it. -/
theorem kernel_rejects_untouched_heap :
    (Kernel.blankHeap 0x90001000).uaccessReadable 0x90000000 1 = false ∧
      (Kernel.blankHeap 0x90001000).mem.Loads ((Kernel.blankHeap 0x90001000).procs 0) 0x90000000
        (1 : Word).toNat := by
  have hprocess := blankHeap_process 0x90001000 (by decide)
  have hvalid : ValidRange 0x90000000 1 := ⟨by decide, by decide, by decide⟩
  constructor
  · rw [Bool.eq_false_iff]
    intro hreadable
    have hpage := (Kernel.uaccessReadable_pages (blankHeap_current _) hprocess hvalid).mp hreadable 0 (by decide)
    rw [show (Kernel.blankHeap 0x90001000).mem.userPage _ = none from blank_noPage _] at hpage
    cases hpage
  · refine (Kernel.loads_reached hprocess hvalid (blankHeap_frames _ (by decide))).mpr fun i hi => .inr ?_
    obtain rfl : i = 0 := Nat.lt_one_iff.mp hi
    exact ⟨Memory.blank_mappedEntry _, by decide, by decide⟩

end AgenticOs
