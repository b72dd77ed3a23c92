import AgenticOs.Kernel.UserCopy
import AgenticOs.Lib.Walk
import AgenticOs.Memory.Entry

/-!
# The pages of a user range

`uaccess_readable` and `uaccess_prepare_write` go from page to page with `page += PAGE_SIZE` and end on
success only when `page == last`.

* **Ranges** (`ValidRange`): one that `uaccess_range_valid` lets through does not wrap, and its last page is a
  whole number of pages away from the first (`ValidRange.last_eq`).
* **Pages** (`rangePages_nodup`, `mem_rangePages`): they are those of the bytes of the range, each once.
* **Loops** (`uaccessReadableLoop_eq`, `uaccessPrepareWriteLoop_eq`): for such a range the loops end, and come
  to each page once, by the rule of `Lib/Walk.lean`.
* **Main result** (`user_range_walk_exact`): which ranges are let through, that the loops end with the answer
  of the traversal, that a range is readable when the entry of each of its bytes is present and user, and
  which addresses `copy_to_user` stores to.
-/

namespace AgenticOs

open Function Lib

variable {address size page : Word} {i : Nat}

/-- The page of an address, as a number. -/
theorem toNat_pageAlignDown (w : Word) : (pageAlignDown w).toNat = w.toNat / 4096 * 4096 := by
  unfold pageAlignDown
  rw [and_addrMask]
  unfold frameAddr frameOf
  rw [BitVec.toNat_ofNat]
  simp only [frameSize]
  have := w.isLt
  omega

/-- A page has one entry of the directory. -/
theorem dirIndex_pageAlignDown (w : Word) : dirIndex (pageAlignDown w) = dirIndex w := by
  apply Fin.ext
  simp only [dirIndex, toNat_pageAlignDown]
  omega

/-- And one entry of the table. -/
theorem tableIndex_pageAlignDown (w : Word) : tableIndex (pageAlignDown w) = tableIndex w := by
  apply Fin.ext
  simp only [tableIndex, toNat_pageAlignDown]
  omega

/-- The flags are those of the page. -/
theorem pageFlags_pageAlignDown (m : Memory) (cr3 va : Word) :
    m.pagingGetPageFlagsInDirectory cr3 (pageAlignDown va) = m.pagingGetPageFlagsInDirectory cr3 va := by
  unfold Memory.pagingGetPageFlagsInDirectory
  rw [dirIndex_pageAlignDown, tableIndex_pageAlignDown]

/-! ### Valid ranges -/

/-- Where user space starts. -/
theorem toNat_userSpaceStart : userSpaceStart.toNat = 0x40000000 := rfl

/-- Where user space ends. -/
theorem toNat_userSpaceEnd : userSpaceEnd.toNat = 0xC0000000 := rfl

/-- A range that is let through does not wrap. -/
structure ValidRange (address size : Word) : Prop where
  pos : 0 < size.toNat
  low : 0x40000000 ≤ address.toNat
  high : address.toNat + size.toNat ≤ 0xC0000000

/-- **What `uaccess_range_valid` lets through.** -/
theorem uaccessRangeValid_iff (hsize : size ≠ 0) :
    uaccessRangeValid address size = true ↔ ValidRange address size := by
  have hpos : 0 < size.toNat := Nat.pos_of_ne_zero fun h => hsize (BitVec.eq_of_toNat_eq h)
  have ha := address.isLt
  have hs := size.isLt
  have hsum := BitVec.toNat_add address size
  unfold uaccessRangeValid
  rw [if_neg hsize]
  simp only [BitVec.lt_def, BitVec.le_def, hsum, toNat_userSpaceStart, toNat_userSpaceEnd]
  split
  · refine ⟨nofun, fun h => ?_⟩
    have := h.low
    have := h.high
    omega
  · simp only [Bool.not_eq_true', Bool.or_eq_false_iff, decide_eq_false_iff_not]
    constructor
    · exact fun h => ⟨hpos, by omega, by omega⟩
    · intro h
      have := h.high
      omega

/-- The addresses of a valid range, as the natural numbers from its start on. -/
theorem ValidRange.iff_forall (hsize : size ≠ 0) :
    ValidRange address size ↔ ∀ n, address.toNat ≤ n → n < address.toNat + size.toNat →
      userSpaceStart.toNat ≤ n ∧ n < userSpaceEnd.toNat := by
  have hpos : 0 < size.toNat := Nat.pos_of_ne_zero fun h => hsize (BitVec.eq_of_toNat_eq h)
  rw [toNat_userSpaceStart, toNat_userSpaceEnd]
  constructor
  · intro h n hlow hhigh
    have := h.low
    have := h.high
    omega
  · intro h
    have hfirst := h address.toNat (Nat.le_refl _) (by omega)
    have hlast := h (address.toNat + size.toNat - 1) (by omega) (by omega)
    exact ⟨hpos, by omega, by omega⟩

/-- The step of the loops. -/
theorem toNat_frameStep : (4096 : Word).toNat = 4096 := rfl

/-- How many pages there are from the first to the last. -/
def ValidRange.pageCount (address size : Word) : Nat :=
  (pageAlignDown (address + size - 1) - pageAlignDown address).toNat / 4096

namespace ValidRange

variable (h : ValidRange address size)
include h

/-- An address of the range does not wrap. -/
theorem toNat_byte (hi : i < size.toNat) : (address + BitVec.ofNat 32 i).toNat = address.toNat + i := by
  have := h.high
  rw [BitVec.toNat_add, BitVec.toNat_ofNat]
  omega

/-- Nor does the last one. -/
theorem toNat_last : (address + size - 1).toNat = address.toNat + size.toNat - 1 := by
  have hpos := h.pos
  have hhigh := h.high
  have hsum : (address + size).toNat = address.toNat + size.toNat := by
    rw [BitVec.toNat_add]
    omega
  rw [toNat_sub_one (by omega), hsum]

/-- How many pages there are, by the numbers of the first and the last. -/
theorem pageCount_eq : pageCount address size =
    (address.toNat + size.toNat - 1) / 4096 - address.toNat / 4096 := by
  have hpos := h.pos
  have hhigh := h.high
  unfold pageCount
  rw [BitVec.toNat_sub, toNat_pageAlignDown, toNat_pageAlignDown, h.toNat_last]
  omega

/-- The last page is a whole number of pages away. -/
theorem last_eq : pageAlignDown (address + size - 1) =
    pageAlignDown address + BitVec.ofNat 32 (pageCount address size * (4096 : Word).toNat) := by
  have hpos := h.pos
  have hhigh := h.high
  apply BitVec.eq_of_toNat_eq
  rw [BitVec.toNat_add, BitVec.toNat_ofNat, h.pageCount_eq, toNat_pageAlignDown, toNat_pageAlignDown,
    h.toNat_last, toNat_frameStep]
  omega

/-- The steps from the first page to the last do not go around. -/
theorem noWrap : pageCount address size * (4096 : Word).toNat < 2 ^ 32 := by
  have hhigh := h.high
  rw [h.pageCount_eq, toNat_frameStep]
  omega

omit h in

/-- The pages are the steps from the first one. -/
theorem rangePages_eq : rangePages address size =
    steps (pageAlignDown address) 4096 (pageCount address size) := rfl

/-- No page comes twice. -/
theorem rangePages_nodup : (rangePages address size).Nodup :=
  steps_nodup (by decide) h.noWrap

/-- The pages of a range are those of its bytes. -/
theorem mem_rangePages : page ∈ rangePages address size ↔
    ∃ i < size.toNat, page = pageAlignDown (address + BitVec.ofNat 32 i) := by
  have hpos := h.pos
  have hhigh := h.high
  have hcount := h.pageCount_eq
  rw [rangePages_eq]
  unfold steps
  simp only [List.mem_map, List.mem_range, toNat_frameStep]
  constructor
  · rintro ⟨j, hj, rfl⟩
    -- the first byte of the range in page `j`
    refine ⟨address.toNat / 4096 * 4096 + j * 4096 - address.toNat, by omega, ?_⟩
    apply BitVec.eq_of_toNat_eq
    rw [toNat_pageAlignDown, h.toNat_byte (by omega), BitVec.toNat_add, BitVec.toNat_ofNat,
      toNat_pageAlignDown]
    omega
  · rintro ⟨i, hi, rfl⟩
    refine ⟨(address.toNat + i) / 4096 - address.toNat / 4096, by omega, ?_⟩
    apply BitVec.eq_of_toNat_eq
    rw [toNat_pageAlignDown, h.toNat_byte hi, BitVec.toNat_add, BitVec.toNat_ofNat, toNat_pageAlignDown]
    omega

/-- A range of one byte has one page. -/
theorem rangePages_one (hone : size.toNat = 1) : rangePages address size = [pageAlignDown address] := by
  have hcount := h.pageCount_eq
  have hzero : pageCount address size = 0 := by
    rw [hcount, hone]
    omega
  rw [rangePages_eq, hzero, steps_zero]

/-- A range that starts one byte later has the same pages, or all but the first. -/
theorem rangePages_tail (h' : ValidRange (address + 1) (size - 1)) : ∃ pages,
    rangePages address size = pageAlignDown address :: pages ∧
      (rangePages (address + 1) (size - 1) = pageAlignDown address :: pages ∨
        rangePages (address + 1) (size - 1) = pages) := by
  have hpos := h.pos
  have hhigh := h.high
  have hpos' := h'.pos
  have hcount := h.pageCount_eq
  have hcount' := h'.pageCount_eq
  have hnext : (address + 1).toNat = address.toNat + 1 := toNat_add_one (by omega)
  have hrest : (size - 1).toNat = size.toNat - 1 := toNat_sub_one (by omega)
  rw [hnext, hrest] at hcount'
  rw [rangePages_eq, rangePages_eq]
  by_cases hsame : (address.toNat + 1) / 4096 = address.toNat / 4096
  · have hpage : pageAlignDown (address + 1) = pageAlignDown address := by
      apply BitVec.eq_of_toNat_eq
      rw [toNat_pageAlignDown, toNat_pageAlignDown, hnext, hsame]
    have hcounts : pageCount (address + 1) (size - 1) = pageCount address size := by omega
    rw [hpage, hcounts]
    obtain ⟨pages, hpages⟩ := steps_cons (pageAlignDown address) 4096 (pageCount address size)
    exact ⟨pages, hpages, .inl hpages⟩
  · have hpage : pageAlignDown (address + 1) = pageAlignDown address + 4096 := by
      apply BitVec.eq_of_toNat_eq
      rw [BitVec.toNat_add, toNat_pageAlignDown, toNat_pageAlignDown, hnext, toNat_frameStep]
      omega
    have hcounts : pageCount address size = pageCount (address + 1) (size - 1) + 1 := by omega
    rw [hpage, hcounts, steps_succ]
    exact ⟨_, rfl, .inr rfl⟩

/-- A loop over the pages of a valid range comes to its end. -/
theorem walk_rangePages {ε σ : Type} (body : Word → StM ε σ Unit) {turns : Nat} (hturns : 2 ^ 20 ≤ turns)
    (s : σ) :
    walk 4096 (pageAlignDown (address + size - 1)) body turns (pageAlignDown address) s =
      some ((rangePages address size).forM body s) := by
  have hwrap := h.noWrap
  rw [toNat_frameStep] at hwrap
  rw [h.last_eq, rangePages_eq]
  exact walk_eq_forM body (by decide) h.noWrap (by omega) s

end ValidRange

/-! ### The loops of `uaccess.c` -/

namespace Kernel

/-- The body of the loop of `uaccess_readable`. -/
def readableBody (k : Kernel) (proc : Slot) (page : Word) : StM Unit Unit Unit := fun _ =>
  if has (k.mem.pagingGetPageFlagsInDirectory (k.procs proc).cr3 page) (pagePresent ||| pageUser) then
    (.ok (), ())
  else (.error (), ())

/-- `uaccess_readable` with its loop, which may turn `turns` times. -/
def uaccessReadableLoop (k : Kernel) (address size : Word) (turns : Nat) : Option Bool :=
  if !uaccessRangeValid address size then some false
  else if size = 0 then some true
  else
    match k.activeProcessDirectory with
    | none => some false
    | some proc =>
      (walk 4096 (pageAlignDown (address + size - 1)) (k.readableBody proc) turns (pageAlignDown address) ()).map
        fun r => r.1.isOk

/-- The body of the loop of `uaccess_prepare_write`. -/
def prepareWriteBody (proc : Process) (page : Word) : StM Int Memory Unit := fun m =>
  let r := m.vmPrepareUserWritePage proc page
  match r.1 with
  | .handled => (.ok (), r.2)
  | .oom => (.error uaccessEnomem, r.2)
  | _ => (.error uaccessEfault, r.2)

/-- The status after the loop of `uaccess_prepare_write`. -/
def prepareWriteStatus : Except Int Unit → Int
  | .ok _ => uaccessSuccess
  | .error status => status

/-- `uaccess_prepare_write` with its loop, which may turn `turns` times. -/
def uaccessPrepareWriteLoop (k : Kernel) (address size : Word) (turns : Nat) : Option (Int × Kernel) :=
  if !uaccessRangeValid address size then some (uaccessEfault, k)
  else if size = 0 then some (uaccessSuccess, k)
  else
    match k.activeProcessDirectory with
    | none => some (uaccessEfault, k)
    | some proc =>
      (walk 4096 (pageAlignDown (address + size - 1)) (prepareWriteBody (k.procs proc)) turns
        (pageAlignDown address) k.mem).map fun r => (prepareWriteStatus r.1, k.withMem r.2)

variable {k : Kernel}

/-- The loop of `uaccess_readable` asks the same of each page. -/
theorem forM_readableBody (proc : Slot) (pages : List Word) :
    (pages.forM (k.readableBody proc) ()).1.isOk = pages.all fun page =>
      has (k.mem.pagingGetPageFlagsInDirectory (k.procs proc).cr3 page) (pagePresent ||| pageUser) := by
  induction pages with
  | nil => rfl
  | cons page pages ih =>
    rw [List.all_cons]
    by_cases hflags : has (k.mem.pagingGetPageFlagsInDirectory (k.procs proc).cr3 page)
        (pagePresent ||| pageUser) = true
    · rw [forM_cons_ok (show k.readableBody proc page () = (.ok (), ()) from if_pos hflags), ih, hflags,
        Bool.true_and]
    · rw [forM_cons_error (show k.readableBody proc page () = (.error (), ()) from if_neg hflags)]
      simp only [Bool.not_eq_true] at hflags
      rw [hflags]
      rfl

/-- The loop of `uaccess_prepare_write` prepares one page after another. -/
theorem forM_prepareWriteBody (proc : Process) (pages : List Word) (m : Memory) :
    (prepareWriteStatus (pages.forM (prepareWriteBody proc) m).1, (pages.forM (prepareWriteBody proc) m).2) =
      Memory.prepareWritePages proc pages m := by
  induction pages generalizing m with
  | nil => rfl
  | cons page pages ih =>
    unfold Memory.prepareWritePages
    rcases hresult : m.vmPrepareUserWritePage proc page with ⟨_ | _ | _ | _, m'⟩
    · rw [forM_cons_error (show prepareWriteBody proc page m = (.error uaccessEfault, m') by
        unfold prepareWriteBody; rw [hresult])]
      rfl
    · rw [forM_cons_ok (show prepareWriteBody proc page m = (.ok (), m') by
        unfold prepareWriteBody; rw [hresult])]
      exact ih m'
    · rw [forM_cons_error (show prepareWriteBody proc page m = (.error uaccessEfault, m') by
        unfold prepareWriteBody; rw [hresult])]
      rfl
    · rw [forM_cons_error (show prepareWriteBody proc page m = (.error uaccessEnomem, m') by
        unfold prepareWriteBody; rw [hresult])]
      rfl

/-- The loop of `uaccess_readable` ends with the answer of the traversal. -/
theorem uaccessReadableLoop_eq (k : Kernel) (address size : Word) {turns : Nat} (hturns : 2 ^ 20 ≤ turns) :
    k.uaccessReadableLoop address size turns = some (k.uaccessReadable address size) := by
  unfold uaccessReadableLoop uaccessReadable
  by_cases hvalid : uaccessRangeValid address size = true
  · rw [hvalid]
    by_cases hsize : size = 0
    · rw [if_pos hsize, if_pos hsize]
      rfl
    rw [if_neg hsize, if_neg hsize]
    rcases k.activeProcessDirectory with _ | proc
    · rfl
    have hrange := (uaccessRangeValid_iff hsize).mp hvalid
    dsimp only
    rw [hrange.walk_rangePages _ hturns, Option.map_some, forM_readableBody]
    rfl
  · rw [Bool.not_eq_true] at hvalid
    rw [hvalid]
    rfl

/-- The loop of `uaccess_prepare_write` ends as the traversal does. -/
theorem uaccessPrepareWriteLoop_eq (k : Kernel) (address size : Word) {turns : Nat} (hturns : 2 ^ 20 ≤ turns) :
    k.uaccessPrepareWriteLoop address size turns = some (uaccessPrepareWrite address size k) := by
  unfold uaccessPrepareWriteLoop uaccessPrepareWrite
  rw [run_bind, run_get]
  by_cases hvalid : uaccessRangeValid address size = true
  · rw [hvalid]
    by_cases hsize : size = 0
    · rw [if_pos hsize, if_pos hsize]
      rfl
    rw [if_neg hsize, if_neg hsize]
    rcases k.activeProcessDirectory with _ | proc
    · rfl
    have hrange := (uaccessRangeValid_iff hsize).mp hvalid
    dsimp only
    rw [hrange.walk_rangePages _ hturns, Option.map_some]
    show some (prepareWriteStatus _, k.withMem _) = some ((Memory.prepareWritePages _ _ k.mem).1,
      k.withMem (Memory.prepareWritePages _ _ k.mem).2)
    rw [← forM_prepareWriteBody]
  · rw [Bool.not_eq_true] at hvalid
    rw [hvalid]
    rfl

/-- A range is readable when the entry of each of its bytes is present and user. -/
theorem uaccessReadable_iff (hsize : size ≠ 0) (hvalid : uaccessRangeValid address size = true) :
    k.uaccessReadable address size = true ↔
      ∃ proc, k.activeProcessDirectory = some proc ∧ ∀ i < size.toNat,
        has (k.mem.pagingGetPageFlagsInDirectory (k.procs proc).cr3 (address + BitVec.ofNat 32 i))
          (pagePresent ||| pageUser) = true := by
  have hrange := (uaccessRangeValid_iff hsize).mp hvalid
  unfold uaccessReadable
  rw [hvalid, if_neg hsize]
  rcases k.activeProcessDirectory with _ | proc
  · simp
  simp only [Bool.not_true, Bool.false_eq_true, if_false, List.all_eq_true, Option.some.injEq, exists_eq_left']
  constructor
  · intro h i hi
    rw [← pageFlags_pageAlignDown]
    exact h _ (hrange.mem_rangePages.mpr ⟨i, hi, rfl⟩)
  · intro h page hpage
    obtain ⟨i, hi, rfl⟩ := hrange.mem_rangePages.mp hpage
    rw [pageFlags_pageAlignDown]
    exact h i hi

/-! ### The copies -/

/-- The addresses of the bytes of a range. -/
def copyAddresses (address size : Word) : List Word :=
  (List.range size.toNat).map fun i => address + BitVec.ofNat 32 i

/-- Bytes stored at addresses, one after another. -/
def storeEach (m : Memory) (bytes : List (Word × Byte)) : Memory :=
  bytes.foldl (fun m ab => m.storeByte ab.1 ab.2) m

/-- Storing a range is storing its bytes one by one. -/
theorem storeBytes_eq (m : Memory) (address : Word) (bytes : List Byte) :
    m.storeBytes address bytes = storeEach m
      (((List.range bytes.length).map fun i => address + BitVec.ofNat 32 i).zip bytes) := by
  induction bytes generalizing m address with
  | nil => rfl
  | cons b bytes ih =>
    have hnext : ((List.range bytes.length).map fun i => address + BitVec.ofNat 32 (i + 1)) =
        (List.range bytes.length).map fun i => address + 1 + BitVec.ofNat 32 i := by
      exact List.map_congr_left fun i _ => add_ofNat_succ address i
    rw [Memory.storeBytes, ih, List.length_cons, List.range_succ_eq_map, List.map_cons, List.map_map,
      List.zip_cons_cons, ← hnext]
    unfold storeEach
    rw [List.foldl_cons]
    congr 2
    simp

/-- What a `copy_to_user` that succeeds does: prepare, and store each byte at its address. -/
theorem copyToUser_run {source : List Byte} (hlength : source.length = size.toNat) {k' : Kernel}
    (hrun : copyToUser address source k = (uaccessSuccess, k')) :
    k' = (uaccessPrepareWrite address size k).2.withMem
      (storeEach (uaccessPrepareWrite address size k).2.mem ((copyAddresses address size).zip source)) := by
  have hsize : BitVec.ofNat 32 source.length = size := by
    rw [hlength]
    exact BitVec.ofNat_toNat ..
  unfold copyToUser at hrun
  rw [run_bind, hsize] at hrun
  rcases hprepare : uaccessPrepareWrite address size k with ⟨status, k₁⟩
  rw [hprepare] at hrun
  have hstatus : status = uaccessSuccess := congrArg Prod.fst hrun
  subst hstatus
  have hstate : k₁.storeBytes address source = k' := congrArg Prod.snd hrun
  unfold copyAddresses
  rw [← hstate, ← hlength, ← storeBytes_eq]
  rfl

end Kernel

/-- **The walk over a user range is exact.** A range of at least one byte is valid when all its addresses,
as natural numbers, are user addresses. Then any loop of its shape from the first page to the last ends
and is the traversal of the pages of its bytes, each once; the loops of `uaccess_readable` and
`uaccess_prepare_write` end with their answers, a range is readable when the entry of each byte is present
and user, and the copies touch only bytes on these pages. -/
theorem user_range_walk_exact {address size : Word} (hsize : size ≠ 0) :
    (uaccessRangeValid address size = true ↔
      ∀ n, address.toNat ≤ n → n < address.toNat + size.toNat →
        userSpaceStart.toNat ≤ n ∧ n < userSpaceEnd.toNat) ∧
    (uaccessRangeValid address size = true →
      (rangePages address size).Nodup ∧
      (∀ page, page ∈ rangePages address size ↔
        ∃ i < size.toNat, page = pageAlignDown (address + BitVec.ofNat 32 i)) ∧
      (∀ (ε σ : Type) (body : Word → StM ε σ Unit) (turns : Nat) (s : σ), 2 ^ 20 ≤ turns →
        walk 4096 (pageAlignDown (address + size - 1)) body turns (pageAlignDown address) s =
          some ((rangePages address size).forM body s)) ∧
      ∀ k : Kernel,
        (∀ turns, 2 ^ 20 ≤ turns →
          k.uaccessReadableLoop address size turns = some (k.uaccessReadable address size) ∧
          k.uaccessPrepareWriteLoop address size turns = some (uaccessPrepareWrite address size k)) ∧
        (k.uaccessReadable address size = true ↔
          ∃ proc, k.activeProcessDirectory = some proc ∧ ∀ i < size.toNat,
            has (k.mem.pagingGetPageFlagsInDirectory (k.procs proc).cr3 (address + BitVec.ofNat 32 i))
              (pagePresent ||| pageUser) = true) ∧
        (∀ bytes, k.copyFromUser address size = some bytes →
          bytes = (Kernel.copyAddresses address size).map k.loadByte) ∧
        (∀ source k', source.length = size.toNat → copyToUser address source k = (uaccessSuccess, k') →
          k' = (uaccessPrepareWrite address size k).2.withMem
            (Kernel.storeEach (uaccessPrepareWrite address size k).2.mem
              ((Kernel.copyAddresses address size).zip source))) ∧
        ∀ a ∈ Kernel.copyAddresses address size, pageAlignDown a ∈ rangePages address size) := by
  refine ⟨(uaccessRangeValid_iff hsize).trans (ValidRange.iff_forall hsize), fun hvalid => ?_⟩
  have hrange := (uaccessRangeValid_iff hsize).mp hvalid
  refine ⟨hrange.rangePages_nodup, fun page => hrange.mem_rangePages,
    fun ε σ body turns s hturns => hrange.walk_rangePages body hturns s, fun k => ?_⟩
  refine ⟨fun turns hturns => ⟨k.uaccessReadableLoop_eq address size hturns,
    k.uaccessPrepareWriteLoop_eq address size hturns⟩, Kernel.uaccessReadable_iff hsize hvalid,
    fun bytes hbytes => ?_, fun source k' hlength hrun => Kernel.copyToUser_run hlength hrun, fun a ha => ?_⟩
  · unfold Kernel.copyFromUser at hbytes
    split at hbytes
    · cases hbytes
      exact (List.map_map ..).symm
    · cases hbytes
  · obtain ⟨i, hi, rfl⟩ := List.mem_map.mp ha
    exact hrange.mem_rangePages.mpr ⟨i, List.mem_range.mp hi, rfl⟩

/-- Two bytes on two pages: the range is valid, both pages are walked, and the loop that prepares them ends with
the answer of `uaccess_prepare_write`. -/
theorem user_range_walk_exact_two_pages :
    uaccessRangeValid 0x40000FFF 2 = true ∧
      (∀ page, page ∈ rangePages 0x40000FFF 2 ↔ ∃ i < (2 : Word).toNat,
        page = pageAlignDown (0x40000FFF + BitVec.ofNat 32 i)) ∧
      ∀ k : Kernel, k.uaccessPrepareWriteLoop 0x40000FFF 2 (2 ^ 20) = some (uaccessPrepareWrite 0x40000FFF 2 k) ∧
        ∀ a ∈ Kernel.copyAddresses 0x40000FFF 2, pageAlignDown a ∈ rangePages 0x40000FFF 2 := by
  have hvalid : uaccessRangeValid 0x40000FFF 2 = true := by decide
  obtain ⟨-, hpages, -, hkernel⟩ := (user_range_walk_exact (by decide)).2 hvalid
  exact ⟨hvalid, hpages, fun k => ⟨((hkernel k).1 _ le_rfl).2, (hkernel k).2.2.2.2⟩⟩

end AgenticOs
