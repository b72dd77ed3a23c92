import AgenticOs.Fs.Extents
import Mathlib.Data.List.Find

/-!
# The files of a volume

What the entries of a directory mean: which sectors belong to a file, and which bytes it has.

* **Extents** (`Volume.Agrees`): they lie in the data sectors and do not overlap, and the bitmap marks exactly
  the sectors below `SIMPLEFS_DATA_START` and those of the extents. A mount establishes this for every image
  it accepts.
* **Files** (`Volume.Consistent`): what every operation keeps besides when the device works. A file fits in
  its extent and the rest of the extent is zero, names differ, and the superblock on the device is the one in
  memory.
* **One entry replaced**: each operation that changes a file does this. `Agrees.replace` and
  `Consistent.replace` say what has to be shown for that, once for all of them, and `Consistent.files_replace`
  what happens to the files: the file of that name is the new one, and the others are as they were.
* **Names** (`Consistent.lookup_eq_some`): with distinct names, the entry that is found is the entry of that
  name.
-/

namespace AgenticOs

open Function Lib Lib.StM

/-- An entry in use. -/
def DirEntry.Live (e : DirEntry) : Prop := e.used ≠ 0

/-- Sector `i` belongs to the extent of an entry. -/
def DirEntry.Holds (e : DirEntry) (i : Nat) : Prop := Holds.inRun e.startSector e.allocatedSectors i

/-- The name of an entry. -/
def DirEntry.nameBytes (e : DirEntry) : List Byte := cstr e.name.toList

/-- The test of `simplefs_find_entry`. -/
def DirEntry.isNamed (name : List Byte) (e : DirEntry) : Bool := e.used != 0 && e.nameIs name

/-- The test of the search, as a statement. -/
theorem DirEntry.isNamed_iff {e : DirEntry} {name : List Byte} :
    e.isNamed name = true ↔ e.Live ∧ e.nameBytes = name := by
  unfold DirEntry.isNamed DirEntry.nameIs DirEntry.Live DirEntry.nameBytes
  simp

namespace Volume

/-- The address of byte `p` of a file. -/
def dataAddr (e : DirEntry) (p : Nat) : Nat := sectorSize * e.startSector + p

/-- The bytes of a file. -/
def fileBytes (V : Volume) (e : DirEntry) : List Byte :=
  (List.range e.sizeBytes).map fun p => V.bytes (dataAddr e p)

/-- What `simplefs_find_entry` finds. -/
def lookup (V : Volume) (name : List Byte) : Option Nat :=
  (List.range' 0 simplefsMaxFiles).find? fun i => (V.entry i).isNamed name

/-- What `simplefs_find_free_entry` finds. -/
def freeSlot (V : Volume) : Option Nat :=
  (List.range' 0 simplefsMaxFiles).find? fun i => (V.entry i).used == 0

/-- The files by name. -/
def files (V : Volume) (name : List Byte) : Option (List Byte) :=
  (V.lookup name).map fun i => V.fileBytes (V.entry i)

/-- An extent is empty or lies in the data sectors. -/
def ExtentOk (V : Volume) (e : DirEntry) : Prop :=
  e.allocatedSectors = 0 ∨
    simplefsDataStart ≤ e.startSector ∧ e.startSector + e.allocatedSectors ≤ V.total

/-- The superblock on the device is the one in memory, and its high-water mark is plausible. -/
structure SuperOk (V : Volume) : Prop where
  low : simplefsDataStart ≤ V.nextFree
  high : V.nextFree ≤ V.total
  bytes : ∀ k < superblockSize, V.bytes k = (Superblock.std V.total V.nextFree).toBytes k

/-- The directory and the bitmap agree. -/
structure Agrees (V : Volume) : Prop where
  extent : ∀ i < simplefsMaxFiles, (V.entry i).Live → V.ExtentOk (V.entry i)
  disjoint : ∀ i < simplefsMaxFiles, ∀ j < simplefsMaxFiles, i ≠ j → (V.entry i).Live →
    (V.entry j).Live → ∀ x, (V.entry i).Holds x → ¬ (V.entry j).Holds x
  bitmap : ∀ x, V.used x = true ↔ x < simplefsDataStart ∨
    ∃ i < simplefsMaxFiles, (V.entry i).Live ∧ (V.entry i).Holds x

/-- Files fit in their extents. -/
def Sized (V : Volume) : Prop :=
  ∀ i < simplefsMaxFiles, (V.entry i).Live →
    (V.entry i).sizeBytes ≤ sectorSize * (V.entry i).allocatedSectors

/-- The directory, the bitmap and the data agree. -/
structure Consistent (V : Volume) : Prop extends V.Agrees where
  super : V.SuperOk
  size : V.Sized
  unique : ∀ i < simplefsMaxFiles, ∀ j < simplefsMaxFiles, (V.entry i).Live → (V.entry j).Live →
    (V.entry i).nameBytes = (V.entry j).nameBytes → i = j
  slack : ∀ i < simplefsMaxFiles, (V.entry i).Live → ∀ p, (V.entry i).sizeBytes ≤ p →
    p < sectorSize * (V.entry i).allocatedSectors → V.bytes (dataAddr (V.entry i) p) = 0

variable {V V' : Volume} {i j : Nat} {e : DirEntry} {name : List Byte}

/-- A file depends on the bytes up to its size. -/
theorem fileBytes_congr (h : ∀ p < e.sizeBytes, V'.bytes (dataAddr e p) = V.bytes (dataAddr e p)) :
    V'.fileBytes e = V.fileBytes e := by
  unfold fileBytes
  apply List.map_congr_left
  intro p hp
  exact h p (List.mem_range.mp hp)

/-! ### Finding entries -/

/-- The search depends on the entries. -/
theorem lookup_congr (h : ∀ i < simplefsMaxFiles, V'.entry i = V.entry i) :
    V'.lookup name = V.lookup name := by
  unfold lookup
  apply List.find?_congr
  intro i hi
  rw [List.mem_range'_1] at hi
  rw [h i (by omega)]

/-- What is found is an entry in use of that name. -/
theorem lookup_lt (h : V.lookup name = some i) :
    i < simplefsMaxFiles ∧ (V.entry i).Live ∧ (V.entry i).nameBytes = name := by
  have hmem := List.mem_of_find?_eq_some h
  have htest := List.find?_some h
  rw [List.mem_range'_1] at hmem
  exact ⟨by omega, DirEntry.isNamed_iff.mp htest⟩

/-- If nothing is found, no entry in use has the name. -/
theorem lookup_none (h : V.lookup name = none) (hi : i < simplefsMaxFiles)
    (hlive : (V.entry i).Live) : (V.entry i).nameBytes ≠ name := by
  intro hname
  unfold lookup at h
  rw [List.find?_eq_none] at h
  exact h i (List.mem_range'_1.mpr ⟨Nat.zero_le _, by omega⟩)
    (DirEntry.isNamed_iff.mpr ⟨hlive, hname⟩)

/-- With distinct names, the entry found is the entry of that name. -/
theorem Consistent.lookup_eq_some (h : V.Consistent) :
    V.lookup name = some i ↔
      i < simplefsMaxFiles ∧ (V.entry i).Live ∧ (V.entry i).nameBytes = name := by
  constructor
  · exact lookup_lt
  · rintro ⟨hi, hlive, hname⟩
    rcases hl : V.lookup name with _ | j
    · exact absurd hname (lookup_none hl hi hlive)
    · obtain ⟨hj, hjlive, hjname⟩ := lookup_lt hl
      rw [h.unique i hi j hj hlive hjlive (hname.trans hjname.symm)]

/-- What is found is an unused entry. -/
theorem freeSlot_some (h : V.freeSlot = some i) : i < simplefsMaxFiles ∧ ¬ (V.entry i).Live := by
  have hmem := List.mem_of_find?_eq_some h
  have htest := List.find?_some h
  rw [List.mem_range'_1] at hmem
  refine ⟨by omega, ?_⟩
  unfold DirEntry.Live
  simpa using htest

/-- If nothing is found, all entries are in use. -/
theorem freeSlot_none (h : V.freeSlot = none) (hi : i < simplefsMaxFiles) : (V.entry i).Live := by
  unfold freeSlot at h
  rw [List.find?_eq_none] at h
  have := h i (List.mem_range'_1.mpr ⟨Nat.zero_le _, by omega⟩)
  unfold DirEntry.Live
  simpa using this

/-! ### Extents -/

/-- The bytes of a file whose extent is in order lie in the data sectors. -/
theorem ExtentOk.addr {p : Nat} (h : V.ExtentOk e) (hp : p < sectorSize * e.allocatedSectors) :
    simplefsDataStart * sectorSize ≤ dataAddr e p ∧ dataAddr e p < sectorSize * V.total := by
  rcases h with hz | ⟨hlow, hhigh⟩
  · rw [hz] at hp
    omega
  · simp only [dataAddr, sectorSize, simplefsDataStart] at *
    omega

/-- An extent with sectors starts in the data sectors, and not far from their beginning. -/
theorem ExtentOk.start_small (h : V.ExtentOk e) (hmax : V.total ≤ simplefsMaxTrackedSectors)
    (hpos : 0 < e.allocatedSectors) :
    simplefsDataStart ≤ e.startSector ∧ e.startSector + wordSize / sectorSize ≤ wordSize := by
  rcases h with hz | ⟨hlow, hhigh⟩
  · omega
  · simp only [sectorSize, simplefsDataStart, simplefsMaxTrackedSectors, wordSize] at *
    omega

/-- Bytes of extents that do not overlap have different addresses. -/
theorem dataAddr_ne {e' : DirEntry} (h : ∀ x, e.Holds x → ¬ e'.Holds x) {p q : Nat}
    (hp : p < sectorSize * e.allocatedSectors) (hq : q < sectorSize * e'.allocatedSectors) :
    dataAddr e p ≠ dataAddr e' q := by
  intro heq
  simp only [dataAddr, sectorSize] at *
  refine h (e.startSector + p / 512) ⟨by omega, by omega⟩ ?_
  exact ⟨by omega, by omega⟩

/-! ### Replacing one entry -/

/-- What has to be shown for the extents when entry `j` is replaced by `e`: about the new entry
itself, and about the entries that stay. -/
structure Moves (V V' : Volume) (j : Nat) (e : DirEntry) : Prop where
  total : V'.total = V.total
  entry : ∀ i < simplefsMaxFiles, V'.entry i = if i = j then e else V.entry i
  live : e.Live
  extent : V.ExtentOk e
  disjoint : ∀ i < simplefsMaxFiles, i ≠ j → (V.entry i).Live → ∀ x, (V.entry i).Holds x →
    ¬ e.Holds x
  bitmap : ∀ x, V'.used x = true ↔ x < simplefsDataStart ∨ e.Holds x ∨
    ∃ i < simplefsMaxFiles, i ≠ j ∧ (V.entry i).Live ∧ (V.entry i).Holds x

/-- What has to be shown for the files. -/
structure Replaces (V V' : Volume) (j : Nat) (e : DirEntry) : Prop extends V.Moves V' j e where
  super : V'.SuperOk
  size : e.sizeBytes ≤ sectorSize * e.allocatedSectors
  slack : ∀ p, e.sizeBytes ≤ p → p < sectorSize * e.allocatedSectors →
    V'.bytes (dataAddr e p) = 0
  name : ∀ i < simplefsMaxFiles, i ≠ j → (V.entry i).Live → (V.entry i).nameBytes ≠ e.nameBytes
  data : ∀ i < simplefsMaxFiles, i ≠ j → (V.entry i).Live → ∀ p,
    p < sectorSize * (V.entry i).allocatedSectors →
      V'.bytes (dataAddr (V.entry i) p) = V.bytes (dataAddr (V.entry i) p)

/-- The entries after a replacement. -/
theorem Moves.entry_self (hr : V.Moves V' j e) (hj : j < simplefsMaxFiles) : V'.entry j = e := by
  rw [hr.entry j hj, if_pos rfl]

/-- The entries that stay. -/
theorem Moves.entry_other (hr : V.Moves V' j e) (hi : i < simplefsMaxFiles) (hij : i ≠ j) :
    V'.entry i = V.entry i := by
  rw [hr.entry i hi, if_neg hij]

/-- **One entry is replaced**: extents and bitmap still agree. -/
theorem Agrees.replace (h : V.Agrees) (hj : j < simplefsMaxFiles) (hr : V.Moves V' j e) :
    V'.Agrees := by
  have hself := hr.entry_self hj
  refine { extent := ?_, disjoint := ?_, bitmap := ?_ }
  · intro i hi hlive
    unfold ExtentOk
    rw [hr.total]
    by_cases hij : i = j
    · rw [hij, hself]
      exact hr.extent
    · rw [hr.entry_other hi hij] at hlive ⊢
      exact h.extent i hi hlive
  · intro i hi k hk hik hlive hlive' x
    by_cases hij : i = j
    · have hkj : k ≠ j := by omega
      rw [hij, hself, hr.entry_other hk hkj]
      rw [hr.entry_other hk hkj] at hlive'
      exact fun hx hx' => hr.disjoint k hk hkj hlive' x hx' hx
    · rw [hr.entry_other hi hij] at hlive ⊢
      by_cases hkj : k = j
      · rw [hkj, hself]
        exact hr.disjoint i hi hij hlive x
      · rw [hr.entry_other hk hkj] at hlive' ⊢
        exact h.disjoint i hi k hk hik hlive hlive' x
  · intro x
    rw [hr.bitmap x]
    apply or_congr_right
    constructor
    · rintro (hx | ⟨i, hi, hij, hlive, hx⟩)
      · exact ⟨j, hj, by rw [hself]; exact hr.live, by rw [hself]; exact hx⟩
      · exact ⟨i, hi, by rw [hr.entry_other hi hij]; exact hlive,
          by rw [hr.entry_other hi hij]; exact hx⟩
    · rintro ⟨i, hi, hlive, hx⟩
      by_cases hij : i = j
      · rw [hij, hself] at hx
        exact .inl hx
      · rw [hr.entry_other hi hij] at hlive hx
        exact .inr ⟨i, hi, hij, hlive, hx⟩

/-- **One entry is replaced**: the files are in order. -/
theorem Consistent.replace (h : V.Consistent) (hj : j < simplefsMaxFiles)
    (hr : V.Replaces V' j e) : V'.Consistent := by
  have hself := hr.entry_self hj
  refine { toAgrees := h.toAgrees.replace hj hr.toMoves, super := hr.super, size := ?_,
           unique := ?_, slack := ?_ }
  · intro i hi hlive
    by_cases hij : i = j
    · rw [hij, hself]
      exact hr.size
    · rw [hr.entry_other hi hij] at hlive ⊢
      exact h.size i hi hlive
  · intro i hi k hk hlive hlive' hname
    by_cases hij : i = j
    · by_cases hkj : k = j
      · omega
      · rw [hij, hself, hr.entry_other hk hkj] at hname
        rw [hr.entry_other hk hkj] at hlive'
        exact absurd hname.symm (hr.name k hk hkj hlive')
    · rw [hr.entry_other hi hij] at hlive hname
      by_cases hkj : k = j
      · rw [hkj, hself] at hname
        exact absurd hname (hr.name i hi hij hlive)
      · rw [hr.entry_other hk hkj] at hlive' hname
        exact h.unique i hi k hk hlive hlive' hname
  · intro i hi hlive p hp hlt
    by_cases hij : i = j
    · rw [hij, hself] at hp hlt ⊢
      exact hr.slack p hp hlt
    · rw [hr.entry_other hi hij] at hlive hp hlt ⊢
      rw [hr.data i hi hij hlive p hlt]
      exact h.slack i hi hlive p hp hlt

/-- After a replacement the file of that name is the new one, and the others are as they were.
The old entry is unused or had the same name. -/
theorem Consistent.files_replace (h : V.Consistent) (hj : j < simplefsMaxFiles)
    (hr : V.Replaces V' j e) (hold : (V.entry j).Live → (V.entry j).nameBytes = e.nameBytes) :
    V'.files = update V.files e.nameBytes (some (V'.fileBytes e)) := by
  have h' := h.replace hj hr
  have hself : V'.entry j = e := by rw [hr.entry j hj, if_pos rfl]
  funext name
  by_cases hn : name = e.nameBytes
  · rw [hn, update_self]
    unfold files
    rw [h'.lookup_eq_some.mpr ⟨hj, by rw [hself]; exact hr.live, by rw [hself]⟩, Option.map_some,
      hself]
  · rw [update_of_ne hn]
    unfold files
    -- the same entry has that name before and after
    have hiff : ∀ i, V'.lookup name = some i ↔ V.lookup name = some i := by
      intro i
      rw [h'.lookup_eq_some, h.lookup_eq_some]
      apply and_congr_right
      intro hi
      by_cases hij : i = j
      · rw [hij, hself]
        constructor
        · exact fun hc => absurd hc.2.symm hn
        · exact fun hc => absurd (hc.2.symm.trans (hold hc.1)) hn
      · rw [hr.entry i hi, if_neg hij]
    have hlook : V'.lookup name = V.lookup name := Option.ext hiff
    rw [hlook]
    rcases hl : V.lookup name with _ | i
    · rfl
    · obtain ⟨hi, hlive, hname⟩ := lookup_lt hl
      have hij : i ≠ j := by
        rintro rfl
        exact hn (hname.symm.trans (hold hlive))
      rw [Option.map_some, Option.map_some, hr.entry i hi, if_neg hij,
        fileBytes_congr fun p hp => hr.data i hi hij hlive p
          (Nat.lt_of_lt_of_le hp (h.size i hi hlive))]

/-- The file of a name that is found. -/
theorem files_of_lookup (h : V.lookup name = some i) :
    V.files name = some (V.fileBytes (V.entry i)) := by
  unfold files
  rw [h, Option.map_some]

/-- There is no file of a name that is not found. -/
theorem files_eq_none : V.files name = none ↔ V.lookup name = none := by
  unfold files
  rw [Option.map_eq_none_iff]

end Volume

end AgenticOs
