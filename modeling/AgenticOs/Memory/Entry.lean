import AgenticOs.Memory.Paging
import AgenticOs.Memory.FrameSpec

/-!
# Page-table entries, bit by bit

What the flag tests of `paging.c` say about an entry, and what the entries it builds contain. The rest of the
development reads entries through these lemmas: four flag bits (`0` present, `1` writable, `2` user, `9`
copy-on-write) and the frame.

* **Tests**: `test_pagePresent` and its relatives turn `entry & PAGE_PRESENT` into a bit.
* **Addresses**: masking the flags of an entry leaves the address of its frame (`and_addrMask`), and flag bits
  beside an address keep the frame (`frameOf_or_flags`).
* **Entries**: the bits and the frame of every entry that `paging.c` writes: of a mapped page
  (`mapEntry_facts`), of a new table (`newTableEntry_facts`), of a child's table (`cloneEntry_facts`), of a
  page shared by copy-on-write (`cowEntry_facts`), and of one made writable again (`reuseEntry_facts`,
  `copyEntry_facts`).
* **Memory**: reading after writing a frame, and what the loops of `paging.c` leave of the directory that is
  loaded (`foldl_active`).
-/

namespace AgenticOs

open Function Lib

variable {e : Word}

/-- `PAGE_PRESENT` of an entry. -/
abbrev isPresent (e : Word) : Bool := bit 0 e
/-- `PAGE_WRITABLE` of an entry. -/
abbrev isWritable (e : Word) : Bool := bit 1 e
/-- `PAGE_USER` of an entry. -/
abbrev isUser (e : Word) : Bool := bit 2 e
/-- `PAGE_COW` of an entry. -/
abbrev isCow (e : Word) : Bool := bit 9 e

/-! ### Tests -/

/-- The test of the present bit. -/
@[simp] theorem test_pagePresent : test e pagePresent = isPresent e :=
  test_twoPow (show 0 < 32 by decide)

/-- The test of the writable bit. -/
@[simp] theorem test_pageWritable : test e pageWritable = isWritable e :=
  test_twoPow (show 1 < 32 by decide)

/-- The test of the user bit. -/
@[simp] theorem test_pageUser : test e pageUser = isUser e :=
  test_twoPow (show 2 < 32 by decide)

/-- The test of the copy-on-write bit. -/
@[simp] theorem test_pageCow : test e pageCow = isCow e :=
  test_twoPow (show 9 < 32 by decide)

/-- The comparison with the present bit. -/
@[simp] theorem has_pagePresent : has e pagePresent = isPresent e :=
  has_twoPow (show 0 < 32 by decide)

/-- The comparison with the writable bit. -/
@[simp] theorem has_pageWritable : has e pageWritable = isWritable e :=
  has_twoPow (show 1 < 32 by decide)

/-- The comparison with the user bit. -/
@[simp] theorem has_pageUser : has e pageUser = isUser e :=
  has_twoPow (show 2 < 32 by decide)

/-- The comparison with the copy-on-write bit. -/
@[simp] theorem has_pageCow : has e pageCow = isCow e :=
  has_twoPow (show 9 < 32 by decide)

/-! ### Bits of the masks -/

/-- `PAGE_PRESENT` is bit 0. -/
theorem bit_pagePresent (i : Nat) : bit i pagePresent = decide (0 = i) := by
  rw [show pagePresent = BitVec.twoPow 32 0 from rfl, bit_twoPow]; simp

/-- `PAGE_WRITABLE` is bit 1. -/
theorem bit_pageWritable (i : Nat) : bit i pageWritable = decide (1 = i) := by
  rw [show pageWritable = BitVec.twoPow 32 1 from rfl, bit_twoPow]; simp

/-- `PAGE_USER` is bit 2. -/
theorem bit_pageUser (i : Nat) : bit i pageUser = decide (2 = i) := by
  rw [show pageUser = BitVec.twoPow 32 2 from rfl, bit_twoPow]; simp

/-- `PAGE_COW` is bit 9. -/
theorem bit_pageCow (i : Nat) : bit i pageCow = decide (9 = i) := by
  rw [show pageCow = BitVec.twoPow 32 9 from rfl, bit_twoPow]; simp

/-- The mask of the flags has the low twelve bits. -/
theorem bit_flagMask (i : Nat) : bit i flagMask = decide (i < 12) := bit_lowMask i

/-! ### Addresses -/

/-- The frame address of a frame points to it. -/
@[simp] theorem frameOf_frameAddr {f : Nat} (h : f < 1048576) : frameOf (frameAddr f) = f :=
  frameOf_ofNat h

/-- Masking the flags of an entry leaves the address of its frame. -/
theorem and_addrMask (e : Word) : e &&& addrMask = frameAddr (frameOf e) := and_pageMask e

/-- Masking the flags keeps the frame. -/
@[simp] theorem frameOf_and_addrMask (e : Word) : frameOf (e &&& addrMask) = frameOf e := by
  rw [and_addrMask, frameOf_frameAddr (frameOf_lt e)]

/-- The address of a frame masks to itself. -/
theorem frameAddr_and_addrMask {f : Nat} (h : f < 1048576) :
    frameAddr f &&& addrMask = frameAddr f := by
  rw [and_addrMask, frameOf_frameAddr h]

/-- Frame addresses are multiples of the page size. -/
theorem frameAddr_aligned (f : Nat) : (frameAddr f).toNat % 4096 = 0 := by
  unfold frameAddr
  rw [BitVec.toNat_ofNat]
  simp only [frameSize]
  omega

/-- Only frame 0 has address 0. -/
theorem frameAddr_ne_zero {f : Nat} (h0 : 0 < f) (h : f < 1048576) : frameAddr f ≠ 0 := by
  intro hz
  have h1 := congrArg frameOf hz
  rw [frameOf_frameAddr h] at h1
  have h2 : frameOf (0 : Word) = 0 := rfl
  omega

/-- Frames with the same address are the same. -/
theorem frameAddr_inj {f g : Nat} (hf : f < 1048576) (hg : g < 1048576)
    (h : frameAddr f = frameAddr g) : f = g := by
  have := congrArg frameOf h
  rwa [frameOf_frameAddr hf, frameOf_frameAddr hg] at this

/-- The low bits of a frame address are clear. -/
theorem bit_frameAddr (f : Nat) {i : Nat} (hi : i < 12) : bit i (frameAddr f) = false :=
  bit_of_aligned (frameAddr_aligned f) hi

/-- Flag bits beside a frame address keep the frame. -/
theorem frameOf_or_flags {f : Nat} (hf : f < 1048576) {w : Word}
    (hw : ∀ i, 12 ≤ i → bit i w = false) : frameOf (frameAddr f ||| w) = f := by
  rw [frameOf_congr (w := frameAddr f), frameOf_frameAddr hf]
  intro i hi
  rw [bit_or, hw i hi, Bool.or_false]

/-! ### The entries `paging.c` builds -/

/-- The page entry of `paging_map_page_in_directory`. -/
theorem mapEntry_facts {f : Nat} (hf : f < 1048576) (flags : Word) :
    let e := frameAddr f &&& addrMask ||| flags &&& flagMask ||| pagePresent
    frameOf e = f ∧ isPresent e = true ∧ isWritable e = isWritable flags ∧
      isUser e = isUser flags ∧ isCow e = isCow flags := by
  dsimp only
  rw [frameAddr_and_addrMask hf, BitVec.or_assoc]
  refine ⟨frameOf_or_flags hf fun i hi => ?_, ?_, ?_, ?_, ?_⟩
  · rw [bit_or, bit_and, bit_flagMask, bit_pagePresent]
    simp [Nat.not_lt.mpr hi, (show 0 ≠ i by omega)]
  all_goals simp [bit_frameAddr, bit_flagMask, bit_pagePresent]

/-- The directory entry of `paging_map_page_in_directory` for a new table. -/
theorem newTableEntry_facts {f : Nat} (hf : f < 1048576) (flags : Word) :
    let e := frameAddr f ||| pagePresent ||| pageWritable ||| flags &&& pageUser
    frameOf e = f ∧ isPresent e = true ∧ isWritable e = true ∧ isUser e = isUser flags := by
  dsimp only
  rw [BitVec.or_assoc, BitVec.or_assoc]
  refine ⟨frameOf_or_flags hf fun i hi => ?_, ?_, ?_, ?_⟩
  · rw [bit_or, bit_or, bit_and, bit_pagePresent, bit_pageWritable, bit_pageUser]
    simp [(show 0 ≠ i by omega), (show 1 ≠ i by omega), (show 2 ≠ i by omega)]
  all_goals simp [bit_frameAddr, bit_pagePresent, bit_pageWritable, bit_pageUser]

/-- A directory entry `table | PAGE_PRESENT | PAGE_WRITABLE`. -/
theorem supervisorEntry_facts {f : Nat} (hf : f < 1048576) :
    let e := frameAddr f ||| pagePresent ||| pageWritable
    frameOf e = f ∧ isPresent e = true ∧ isWritable e = true ∧ isUser e = false := by
  dsimp only
  rw [BitVec.or_assoc]
  refine ⟨frameOf_or_flags hf fun i hi => ?_, ?_, ?_, ?_⟩
  · rw [bit_or, bit_pagePresent, bit_pageWritable]
    simp [(show 0 ≠ i by omega), (show 1 ≠ i by omega)]
  all_goals simp [bit_frameAddr, bit_pagePresent, bit_pageWritable]

/-- The directory entry `paging_clone_directory` gives a child table. -/
theorem cloneEntry_facts {f : Nat} (hf : f < 1048576) (flags : Word) :
    let e := frameAddr f &&& addrMask ||| flags &&& flagMask
    frameOf e = f ∧ isPresent e = isPresent flags ∧ isWritable e = isWritable flags ∧
      isUser e = isUser flags := by
  dsimp only
  rw [frameAddr_and_addrMask hf]
  refine ⟨frameOf_or_flags hf fun i hi => ?_, ?_, ?_, ?_⟩
  · rw [bit_and, bit_flagMask]
    simp [Nat.not_lt.mpr hi]
  all_goals simp [bit_frameAddr, bit_flagMask]

/-- The copy-on-write form of an entry, as `paging_clone_directory` writes it. -/
def cowEntry (e : Word) : Word := e &&& ~~~pageWritable ||| pageCow

/-- Copy-on-write entries keep the frame and the user bit, and cannot be written. -/
theorem cowEntry_facts (e : Word) :
    frameOf (cowEntry e) = frameOf e ∧ isPresent (cowEntry e) = isPresent e ∧
      isWritable (cowEntry e) = false ∧ isUser (cowEntry e) = isUser e ∧
      isCow (cowEntry e) = true := by
  unfold cowEntry
  refine ⟨frameOf_congr fun i hi => ?_, ?_, ?_, ?_, ?_⟩
  · by_cases h : i < 32
    · rw [bit_or, bit_and, bit_not h, bit_pageWritable, bit_pageCow]
      simp [(show 1 ≠ i by omega), (show 9 ≠ i by omega)]
    · rw [bit_of_ge (by omega), bit_of_ge (by omega)]
  all_goals simp [bit_not, bit_pageWritable, bit_pageCow]

/-- The entry `paging_resolve_cow_fault` makes writable in place. -/
theorem reuseEntry_facts (e : Word) :
    let e' := (e ||| pageWritable) &&& ~~~pageCow
    frameOf e' = frameOf e ∧ isPresent e' = isPresent e ∧ isWritable e' = true ∧
      isUser e' = isUser e ∧ isCow e' = false := by
  dsimp only
  refine ⟨frameOf_congr fun i hi => ?_, ?_, ?_, ?_, ?_⟩
  · by_cases h : i < 32
    · rw [bit_and, bit_or, bit_not h, bit_pageWritable, bit_pageCow]
      simp [(show 1 ≠ i by omega), (show 9 ≠ i by omega)]
    · rw [bit_of_ge (by omega), bit_of_ge (by omega)]
  all_goals simp [bit_not, bit_pageWritable, bit_pageCow]

/-- The entry `paging_resolve_cow_fault` makes for the copied page. -/
theorem copyEntry_facts {f : Nat} (hf : f < 1048576) (e : Word) :
    let e' := frameAddr f ||| (e &&& flagMask ||| pageWritable) &&& ~~~pageCow
    frameOf e' = f ∧ isPresent e' = isPresent e ∧ isWritable e' = true ∧
      isUser e' = isUser e ∧ isCow e' = false := by
  dsimp only
  refine ⟨frameOf_or_flags hf fun i hi => ?_, ?_, ?_, ?_, ?_⟩
  · rw [bit_and, bit_or, bit_and, bit_flagMask, bit_pageWritable]
    simp [Nat.not_lt.mpr hi, (show 1 ≠ i by omega)]
  all_goals simp [bit_not, bit_frameAddr, bit_flagMask, bit_pageWritable, bit_pageCow]

/-- Setting a bit that is set changes nothing. -/
theorem or_pageUser (h : isUser e = true) : e ||| pageUser = e := by
  refine eq_of_bits fun i => ?_
  rw [bit_or, bit_pageUser]
  by_cases h2 : 2 = i
  · subst h2; simp [h]
  · simp [h2]

/-- Clearing a bit that is clear changes nothing. -/
theorem and_not_pageUser (h : isUser e = false) : e &&& ~~~pageUser = e := by
  refine eq_of_bits fun i => ?_
  by_cases hi : i < 32
  · rw [bit_and, bit_not hi, bit_pageUser]
    by_cases h2 : 2 = i
    · subst h2; simp [h]
    · simp [h2]
  · rw [bit_of_ge (by omega), bit_of_ge (by omega)]

/-- The absent entry `0x02` that `paging.c` clears tables with. -/
theorem absent_bits : isPresent (0x02 : Word) = false ∧ isUser (0x02 : Word) = false := by decide

/-- Identity entries of the low table are supervisor entries. -/
theorem identityEntry_user (i : TableIndex) : isUser (Memory.identityEntry i) = false := by
  have h : bit 2 (BitVec.ofNat 32 (i * 4096)) = false := bit_frameAddr i (by decide)
  simp [Memory.identityEntry, h, bit_pagePresent, bit_pageWritable]

/-! ### Reading and writing memory -/

namespace Memory

variable {m : Memory}

section

variable {f : Nat} {w w' : TableIndex → Word} {fr fr' : FrameState}

/-- And the directory that is loaded. -/
@[simp] theorem writeFrame_frames : (m.writeFrame f w).frames = m.frames := rfl
@[simp] theorem writeFrame_active :
    (m.writeFrame f w).activePageDirectory = m.activePageDirectory := rfl

/-- And which table is the scratch table. -/
@[simp] theorem writeFrame_scratch :
    (m.writeFrame f w).kernelScratchTable = m.kernelScratchTable := rfl

/-- It leaves the directory that is loaded alone. -/
@[simp] theorem writeFrame_ram : (m.writeFrame f w).ram = update m.ram f w := rfl
@[simp] theorem withFrames_frames : (m.withFrames fr).frames = fr := rfl
@[simp] theorem withFrames_active :
    (m.withFrames fr).activePageDirectory = m.activePageDirectory := rfl

/-- And which table is the scratch table. -/
@[simp] theorem withFrames_scratch :
    (m.withFrames fr).kernelScratchTable = m.kernelScratchTable := rfl

/-- And the frames' contents. -/
@[simp] theorem withFrames_ram : (m.withFrames fr).ram = m.ram := rfl

/-- The second of two writes to a frame counts. -/
theorem writeFrame_writeFrame : (m.writeFrame f w).writeFrame f w' = m.writeFrame f w' := by
  unfold writeFrame
  rw [update_idem]

end

/-- A loop over all indices comes to each of them. -/
theorem mem_indicesBelow {n : Nat} (i : Fin n) : i ∈ indicesBelow n := by
  unfold indicesBelow
  exact List.mem_finRange i

/-- And to none of them twice. -/
theorem nodup_indicesBelow (n : Nat) : (indicesBelow n).Nodup := by
  unfold indicesBelow
  exact List.nodup_finRange _

/-- The loop over a table comes to each of its entries. -/
theorem mem_tableIndices (i : TableIndex) : i ∈ tableIndices := mem_indicesBelow i

/-- And to none of them twice. -/
theorem nodup_tableIndices : tableIndices.Nodup := nodup_indicesBelow _

/-- Filling a table writes all of its words and nothing else. -/
theorem fillTable_eq (m : Memory) (t : Word) (g : TableIndex → Word) :
    m.fillTable t g = m.writeFrame (frameOf t) g := by
  have key : ∀ (l : List TableIndex) (m : Memory),
      l.foldl (fun m i => m.setEntry t i (g i)) m =
        m.writeFrame (frameOf t) fun i => if i ∈ l then g i else m.ram (frameOf t) i := by
    intro l
    induction l with
    | nil => intro m; simp [writeFrame]
    | cons j l ih =>
      intro m
      rw [List.foldl_cons, ih]
      unfold setEntry
      rw [writeFrame_writeFrame, writeFrame_ram, update_self]
      refine congrArg (m.writeFrame (frameOf t)) (funext fun i => ?_)
      by_cases hl : i ∈ l
      · simp [hl]
      · by_cases hij : i = j
        · subst hij; simp
        · simp [hl, hij]
  unfold fillTable
  rw [key]
  simp [mem_tableIndices]

/-! ### The active directory

Only `paging_init` and `paging_switch_directory` load another directory. -/

/-- Writing an entry loads no directory. -/
@[simp] theorem setEntry_active (t : Word) (i : TableIndex) (e : Word) :
    (m.setEntry t i e).activePageDirectory = m.activePageDirectory := rfl

/-- Nor does freeing a frame. -/
@[simp] theorem frameFree_active (a : Word) :
    (m.frameFree a).activePageDirectory = m.activePageDirectory := rfl

/-- A loop whose body keeps the active directory keeps it. -/
theorem foldl_active {step : Memory → TableIndex → Memory}
    (hstep : ∀ m i, (step m i).activePageDirectory = m.activePageDirectory)
    (l : List TableIndex) : (l.foldl step m).activePageDirectory = m.activePageDirectory := by
  induction l generalizing m with
  | nil => rfl
  | cons i l ih => exact ih.trans (hstep m i)

/-- Nor does sharing the supervisor entries. -/
@[simp] theorem shareSupervisor_active (directory : Word) :
    (m.shareSupervisor directory).activePageDirectory = m.activePageDirectory := by
  refine foldl_active (fun m i => ?_) _
  unfold shareEntry
  dsimp only
  split <;> rfl

/-- Sharing the supervisor entries takes no frame. -/
theorem shareSupervisor_frames (directory : Word) : (m.shareSupervisor directory).frames = m.frames := by
  unfold shareSupervisor
  induction tableIndices generalizing m with
  | nil => rfl
  | cons i l ih =>
    refine ih.trans ?_
    unfold shareEntry
    dsimp only
    split <;> rfl

/-- Freeing the pages of a table loads no directory. -/
@[simp] theorem freeUserPages_active (table : Word) :
    (m.freeUserPages table).activePageDirectory = m.activePageDirectory := by
  refine foldl_active (fun m j => ?_) _
  unfold freeUserPage
  split <;> rfl

/-- Nor does the loop of `paging_destroy_address_space`. -/
@[simp] theorem destroyTables_active (directory : Word) (l : List TableIndex) :
    (l.foldl (destroyTable directory) m).activePageDirectory = m.activePageDirectory := by
  refine foldl_active (fun m i => ?_) _
  unfold destroyTable
  dsimp only
  split
  · rfl
  · split
    · rfl
    · rw [setEntry_active, frameFree_active, freeUserPages_active]

/-- Nor does that of `paging_destroy_clone_skeleton`. -/
@[simp] theorem destroySkeletonTables_active (directory : Word) (l : List TableIndex) :
    (l.foldl (destroySkeletonTable directory) m).activePageDirectory = m.activePageDirectory := by
  refine foldl_active (fun m i => ?_) _
  unfold destroySkeletonTable
  split
  · rfl
  · split <;> rfl

/-- Nor does that of `paging_destroy_clone_with_refs`. -/
@[simp] theorem destroyRefsTables_active (directory : Word) (l : List TableIndex) :
    (l.foldl (destroyRefsTable directory) m).activePageDirectory = m.activePageDirectory := by
  refine foldl_active (fun m i => ?_) _
  unfold destroyRefsTable
  dsimp only
  split
  · rfl
  · split
    · rfl
    · rw [setEntry_active, frameFree_active, freeUserPages_active]

end Memory

end AgenticOs
