import AgenticOs.Fs.FileData
import Mathlib.Order.Bounds.Basic

/-!
# The sector search is first fit

`simplefs_allocate_sectors` looks for free sectors from `SIMPLEFS_DATA_START` on and jumps past a run that is
too short.

* **The search** (`findRun_isLeast`, `findRun_none`): no start that it jumps over could have served
  (`Fits.jump`), so it finds the first that does, and fails only when there is none.
* **The loop** (`searchLoop_eq`): `searchLoop` is the loop as the C code runs it, in `uint32_t` and with the
  sectors whose bits it looks at. It ends, does not wrap, and looks only at sectors that a start inside the
  bounds would take.
* **Main result** (`sectors_allocated_first_fit`): on a device that does not fail, the call takes the first
  free run that is long enough and marks just its sectors, or changes nothing and says that there is no space.
-/

namespace AgenticOs

open Function Lib Lib.StM

namespace SimpleFs

variable {used : Nat → Bool} {count last start x : Nat}

/-! ### The search -/

/-- The starts up to `last` of `count` free sectors. -/
def Fits (used : Nat → Bool) (count start last : Nat) : Set Nat :=
  {x | start ≤ x ∧ x ≤ last ∧ ∀ i, Holds.inRun x count i → used i = false}

/-- A run is counted up to a bound. -/
theorem freeRun_le (n sector : Nat) : freeRun used sector n ≤ n := by
  induction n generalizing sector with
  | zero => exact Nat.le_refl 0
  | succ n ih =>
    unfold freeRun
    split
    · exact Nat.zero_le _
    · exact Nat.succ_le_succ (ih _)

/-- A run that is too short ends at a sector in use. -/
theorem used_of_freeRun_ne {n sector : Nat} (h : freeRun used sector n ≠ n) :
    used (sector + freeRun used sector n) = true := by
  induction n generalizing sector with
  | zero => exact absurd rfl h
  | succ n ih =>
    unfold freeRun at h ⊢
    by_cases hused : used sector = true
    · rw [if_pos hused]
      exact hused
    · rw [if_neg hused] at h ⊢
      have hnext := @ih (sector + 1) fun heq => h (by rw [heq])
      rw [Nat.add_right_comm] at hnext
      exact hnext

/-- The starts that a jump leaves out do not fit: the sector that ends the run is in all of them. -/
theorem Fits.jump (h : freeRun used start count ≠ count) :
    Fits used count (start + freeRun used start count + 1) last = Fits used count start last := by
  have hused := used_of_freeRun_ne h
  have hlt := Nat.lt_of_le_of_ne (freeRun_le count start) h
  ext x
  constructor
  · rintro ⟨hlow, hhigh, hfree⟩
    exact ⟨by omega, hhigh, hfree⟩
  · rintro ⟨hlow, hhigh, hfree⟩
    refine ⟨?_, hhigh, hfree⟩
    by_contra hx
    have hnot := hfree (start + freeRun used start count) ⟨by omega, by omega⟩
    rw [hused] at hnot
    cases hnot

/-- The search finds the first start that fits. -/
theorem findRun_isLeast {r : Nat} (h : findRun used count last start = some r) :
    IsLeast (Fits used count start last) r := by
  induction start using findRun.induct used count last with
  | case1 start hlt =>
    rw [findRun, if_pos hlt] at h
    cases h
  | case2 start hlt hfull =>
    have hfits := findRun_some h
    rw [findRun, if_neg hlt, if_pos hfull] at h
    cases h
    exact ⟨hfits, fun x hx => hx.1⟩
  | case3 start hlt hshort ih =>
    rw [findRun, if_neg hlt, if_neg hshort] at h
    rw [← Fits.jump hshort]
    exact ih h

/-- The search fails only when no start fits. -/
theorem findRun_none (h : findRun used count last start = none) : Fits used count start last = ∅ := by
  induction start using findRun.induct used count last with
  | case1 start hlt =>
    refine Set.eq_empty_of_forall_notMem ?_
    rintro x ⟨hlow, hhigh, -⟩
    omega
  | case2 start hlt hfull =>
    rw [findRun, if_neg hlt, if_pos hfull] at h
    cases h
  | case3 start hlt hshort ih =>
    rw [findRun, if_neg hlt, if_neg hshort] at h
    rw [← Fits.jump hshort]
    exact ih h

/-! ### The loop in `uint32_t` -/

/-- The sectors that the inner loop of `simplefs_allocate_sectors` looks at. -/
def runLooksAt (used : Nat → Bool) (sector : Nat) : Nat → List Nat
  | 0 => []
  | n + 1 => sector :: if used sector then [] else runLooksAt used (sector + 1) n

/-- The outer loop of `simplefs_allocate_sectors`: what it finds, and the sectors it looks at. It may
turn `turns` times. -/
def searchLoop (used : Nat → Bool) (count last : Nat) : Nat → Nat → Option (Option Nat × List Nat)
  | 0, _ => none
  | turns + 1, start =>
    if last < start then some (none, [])
    else if freeRun used start count = count then some (some start, runLooksAt used start count)
    else
      (searchLoop used count last turns ((start + freeRun used start count + 1) % wordSize)).map
        fun r => (r.1, runLooksAt used start count ++ r.2)

/-- What the search of `simplefs_allocate_sectors` finds, with the check of the count before it, and
the sectors that it looks at. -/
def search (s : SimpleFs) (count turns : Nat) : Option (Option Nat × List Nat) :=
  if u32Sub s.simplefsSb.totalSectors simplefsDataStart < count then some (none, [])
  else
    searchLoop s.simplefsSectorUsed count (u32Sub s.simplefsSb.totalSectors count) turns
      simplefsDataStart

/-- The loop looks at sectors of the run only. -/
theorem mem_runLooksAt {n sector : Nat} (h : x ∈ runLooksAt used sector n) : Holds.inRun sector n x := by
  induction n generalizing sector with
  | zero => cases h
  | succ n ih =>
    unfold runLooksAt at h
    rcases List.mem_cons.mp h with rfl | h
    · exact ⟨Nat.le_refl _, by omega⟩
    · split at h
      · cases h
      · obtain ⟨hlow, hhigh⟩ := ih h
        exact ⟨by omega, by omega⟩

/-- The loop ends, does not wrap, and looks only at sectors that a start up to `last` would take. -/
theorem searchLoop_eq (used : Nat → Bool) (start : Nat) (hlast : last + count < wordSize) :
    ∃ looked, (∀ x ∈ looked, x < last + count) ∧ ∀ turns, 0 < turns → last + 1 < turns + start →
      searchLoop used count last turns start = some (findRun used count last start, looked) := by
  induction start using findRun.induct used count last with
  | case1 start hend =>
    refine ⟨[], List.forall_mem_nil _, fun turns hpos _ => ?_⟩
    obtain ⟨turns, rfl⟩ := Nat.exists_eq_succ_of_ne_zero (Nat.pos_iff_ne_zero.mp hpos)
    rw [searchLoop, findRun, if_pos hend, if_pos hend]
  | case2 start hend hfull =>
    refine ⟨runLooksAt used start count, fun x hx => ?_, fun turns hpos _ => ?_⟩
    · have hin := (mem_runLooksAt hx).2
      omega
    · obtain ⟨turns, rfl⟩ := Nat.exists_eq_succ_of_ne_zero (Nat.pos_iff_ne_zero.mp hpos)
      rw [searchLoop, findRun, if_neg hend, if_neg hend, if_pos hfull, if_pos hfull]
  | case3 start hend hshort ih =>
    obtain ⟨looked, hlooked, hloop⟩ := ih
    have hlt := Nat.lt_of_le_of_ne (freeRun_le count start) hshort
    refine ⟨runLooksAt used start count ++ looked, fun x hx => ?_, fun turns hpos hturns => ?_⟩
    · rcases List.mem_append.mp hx with hx | hx
      · have hin := (mem_runLooksAt hx).2
        omega
      · exact hlooked x hx
    · obtain ⟨turns, rfl⟩ := Nat.exists_eq_succ_of_ne_zero (Nat.pos_iff_ne_zero.mp hpos)
      rw [searchLoop, findRun, if_neg hend, if_neg hend, if_neg hshort, if_neg hshort,
        Nat.mod_eq_of_lt (by omega), hloop turns (by omega) (by omega)]
      rfl

/-! ### The call -/

variable {s : SimpleFs} {dev : Nat}

/-- A subtraction in `uint32_t` that does not wrap. -/
theorem u32Sub_eq {a b : Nat} (ha : a < wordSize) (hb : b ≤ a) : u32Sub a b = a - b := by
  unfold u32Sub
  rw [Nat.sub_add_comm hb, Nat.add_mod_right, Nat.mod_eq_of_lt (by omega)]

/-- The superblock is written, the map is not. -/
theorem writeSuperblock_run (start : Nat) (hdev : s.simplefsDev = some dev)
    (hworks : s.faults.write 0 = false) :
    ∃ s', (do
      writeSuperblock
      return start : FsM Nat) s = (.ok start, s') ∧ s'.simplefsSectorUsed = s.simplefsSectorUsed := by
  have hwrite : ∃ s', writeSuperblock s = (.ok (), s') ∧ s'.simplefsSectorUsed = s.simplefsSectorUsed := by
    unfold writeSuperblock
    rw [run_get_bind]
    unfold writeSector
    rw [hdev]
    dsimp only
    rw [hworks, if_neg Bool.false_ne_true]
    exact ⟨_, rfl, rfl⟩
  obtain ⟨s', hrun, hused⟩ := hwrite
  exact ⟨s', bind_ok hrun, hused⟩

/-- Taking a free run marks its sectors and no other. -/
theorem allocateSectors_found (hdev : s.simplefsDev = some dev) (hworks : s.faults.write 0 = false)
    (hcount : 1 ≤ count) (hbig : ¬u32Sub s.simplefsSb.totalSectors simplefsDataStart < count)
    (hfound : findRun s.simplefsSectorUsed count (u32Sub s.simplefsSb.totalSectors count)
      simplefsDataStart = some start) (hinside : s.runOutside start count = false) :
    ∃ s', allocateSectors count s = (.ok start, s') ∧
      s'.simplefsSectorUsed = fun i => s.simplefsSectorUsed i || decide (Holds.inRun start count i) := by
  have hzero : count ≠ 0 := Nat.pos_iff_ne_zero.mp hcount
  have hmark : markRunUsed start count s = (.ok (), { s with
      simplefsSectorUsed := fun i => s.simplefsSectorUsed i || decide (Holds.inRun start count i) }) := by
    unfold markRunUsed
    rw [if_neg hzero, run_get_bind, hinside, if_neg Bool.false_ne_true]
    exact Holds.markRunUsedFrom_run count (findRun_some hfound).2.2
  unfold allocateSectors
  rw [if_neg hzero, run_get_bind, if_neg hbig, hfound]
  dsimp only
  rw [bind_ok hmark, run_modify_bind]
  dsimp only
  split
  · exact writeSuperblock_run start hdev hworks
  · exact writeSuperblock_run start hdev hworks

/-- The starts at which `count` sectors of the device are free. -/
def FreeStarts (s : SimpleFs) (count : Nat) : Set Nat :=
  {x | simplefsDataStart ≤ x ∧ x + count ≤ s.simplefsSb.totalSectors ∧
    ∀ i, x ≤ i → i < x + count → s.simplefsSectorUsed i = false}

/-- The sectors where the loop stops are those with room. -/
theorem freeStarts_eq (hcount : count ≤ s.simplefsSb.totalSectors) :
    s.FreeStarts count =
      Fits s.simplefsSectorUsed count simplefsDataStart (s.simplefsSb.totalSectors - count) := by
  ext x
  constructor
  · rintro ⟨hlow, hhigh, hfree⟩
    exact ⟨hlow, by omega, fun i hi => hfree i hi.1 hi.2⟩
  · rintro ⟨hlow, hhigh, hfree⟩
    exact ⟨hlow, by omega, fun i h1 h2 => hfree i ⟨h1, h2⟩⟩

/-- **First fit.** On a device that does not fail `simplefs_allocate_sectors` takes the first free run
that is long enough and marks just its sectors, or changes nothing and answers `VFS_ENOSPC` when there
is none. The search ends and looks at no sector outside the device. -/
theorem sectors_allocated_first_fit {s : SimpleFs} {dev count : Nat} (hdev : s.simplefsDev = some dev)
    (hworks : s.faults.write 0 = false) (hlow : simplefsDataStart < s.simplefsSb.totalSectors)
    (hhigh : s.simplefsSb.totalSectors ≤ simplefsMaxTrackedSectors) (hcount : 1 ≤ count) :
    ∃ found looked,
      (∀ turns, simplefsMaxTrackedSectors ≤ turns → s.search count turns = some (found, looked)) ∧
      (∀ x ∈ looked, x < s.simplefsSb.totalSectors) ∧
      ((∃ start s', found = some start ∧ allocateSectors count s = (.ok start, s') ∧
          IsLeast (s.FreeStarts count) start ∧
          ∀ i, s'.simplefsSectorUsed i = true ↔
            s.simplefsSectorUsed i = true ∨ start ≤ i ∧ i < start + count) ∨
        found = none ∧ allocateSectors count s = (.error vfsEnospc, s) ∧ s.FreeStarts count = ∅) := by
  simp only [simplefsMaxTrackedSectors, simplefsDataStart] at hlow hhigh
  have hword : s.simplefsSb.totalSectors < wordSize := Nat.lt_of_le_of_lt hhigh (by decide)
  have hfirst : u32Sub s.simplefsSb.totalSectors simplefsDataStart =
      s.simplefsSb.totalSectors - simplefsDataStart := u32Sub_eq hword (Nat.le_of_lt hlow)
  have hzero : count ≠ 0 := Nat.pos_iff_ne_zero.mp hcount
  by_cases hbig : u32Sub s.simplefsSb.totalSectors simplefsDataStart < count
  · refine ⟨none, [], fun turns _ => ?_, nofun, .inr ⟨rfl, ?_, ?_⟩⟩
    · unfold search
      rw [if_pos hbig]
    · unfold allocateSectors
      rw [if_neg hzero, run_get_bind, if_pos hbig]
      rfl
    · refine Set.eq_empty_of_forall_notMem ?_
      rintro x ⟨hstart, hend, -⟩
      rw [hfirst] at hbig
      omega
  have hle : count ≤ s.simplefsSb.totalSectors := by
    rw [hfirst] at hbig
    omega
  have hlast : u32Sub s.simplefsSb.totalSectors count = s.simplefsSb.totalSectors - count :=
    u32Sub_eq hword hle
  have hends : u32Sub s.simplefsSb.totalSectors count + count = s.simplefsSb.totalSectors := by omega
  obtain ⟨looked, hlooked, hloop⟩ :=
    searchLoop_eq s.simplefsSectorUsed simplefsDataStart (hends.trans_lt hword)
  have hsearch (turns : Nat) (hturns : simplefsMaxTrackedSectors ≤ turns) :
      s.search count turns = some (findRun s.simplefsSectorUsed count
        (u32Sub s.simplefsSb.totalSectors count) simplefsDataStart, looked) := by
    simp only [simplefsMaxTrackedSectors] at hturns
    unfold search
    rw [if_neg hbig]
    refine hloop turns (by omega) ?_
    simp only [simplefsDataStart]
    omega
  refine ⟨_, looked, hsearch, fun x hx => ?_, ?_⟩
  · have hx := hlooked x hx
    omega
  rw [freeStarts_eq hle, ← hlast]
  rcases hfound : findRun s.simplefsSectorUsed count (u32Sub s.simplefsSb.totalSectors count)
    simplefsDataStart with _ | start
  · refine .inr ⟨rfl, ?_, findRun_none hfound⟩
    unfold allocateSectors
    rw [if_neg hzero, run_get_bind, if_neg hbig, hfound]
    rfl
  · obtain ⟨hstart, hend, -⟩ := findRun_some hfound
    have hinside : s.runOutside start count = false := by
      unfold runOutside
      rw [u32Sub_eq hword (by omega)]
      simp only [Bool.or_eq_false_iff, decide_eq_false_iff_not]
      omega
    obtain ⟨s', hrun, hused⟩ := allocateSectors_found hdev hworks hcount hbig hfound hinside
    refine .inl ⟨start, s', rfl, hrun, findRun_isLeast hfound, fun i => ?_⟩
    rw [hused, Bool.or_eq_true, decide_eq_true_eq]
    rfl

/-- A volume of eight sectors on which sector 6 is in use. -/
def gapAtSix : SimpleFs where
  devices := fun _ => ⟨8, sectorSize, true, true⟩
  disk := fun _ _ => zeroSector
  faults := Faults.none
  log := []
  simplefsDev := some 0
  simplefsSb := Superblock.std 8 7
  simplefsMounted := true
  simplefsSectorUsed := fun i => decide (i < simplefsDataStart) || i == 6

/-- The run at sector 6 has no room for two, and the loop goes on. -/
theorem sectors_allocated_first_fit_gap :
    ∃ found looked, (∀ turns, simplefsMaxTrackedSectors ≤ turns → gapAtSix.search 2 turns = some (found, looked)) ∧
      (∀ x ∈ looked, x < 8) ∧
      ((∃ start s', found = some start ∧ allocateSectors 2 gapAtSix = (.ok start, s') ∧
          IsLeast (gapAtSix.FreeStarts 2) start ∧
          ∀ i, s'.simplefsSectorUsed i = true ↔
            gapAtSix.simplefsSectorUsed i = true ∨ start ≤ i ∧ i < start + 2) ∨
        found = none ∧ allocateSectors 2 gapAtSix = (.error vfsEnospc, gapAtSix) ∧
          gapAtSix.FreeStarts 2 = ∅) :=
  @sectors_allocated_first_fit gapAtSix 0 2 rfl rfl (by decide) (by decide) (by decide)

end SimpleFs

end AgenticOs
