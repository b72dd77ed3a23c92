import AgenticOs.Fs.FileData

/-!
# Writing a file

`simplefs_write` splices bytes into a file, moving it to a larger extent first when it has to grow.

* **Room** (`ensureCapacity_fits`, `ensureCapacity_moves`, `ensureCapacity_full`): the file stays where it is,
  is copied to a new run, or there is none.
* **The call** (`Agrees.write`): which way `simplefs_write` of an accepted path goes (`Wrote`), how many
  sector reads and writes it takes, and what a failing device can leave behind (`MidWrite`): bytes of the file
  itself, in the range that is written, or a new run.
* **Directory** (`Wrote.agrees`): the bitmap and the directory agree after a write.
* **Files** (`Wrote.next`): a write that succeeds splices its bytes into the file and puts zeros into a gap
  before them, and nothing else changes (`fileBytes_splice`).

A size so near the end of the 32-bit range that its number of sectors wraps is the exception; `Near` and
`Small` keep away from it.
-/

namespace AgenticOs

open Function Lib Lib.StM

namespace Volume

variable {d : Nat} {V V' W U : Volume} {i j : Nat} {e : DirEntry} {name : List Byte}
  {E : Volume → Prop} {s : SimpleFs} {start req : Nat}

/-! ### `simplefs_ensure_capacity` -/

/-- The sectors that are copied when a file moves. -/
def copies (e : DirEntry) : Nat :=
  if 0 < e.sizeBytes ∧ 0 < e.allocatedSectors then SimpleFs.sectorsForBytes e.sizeBytes else 0

/-- What a failing device can leave behind while a file moves to a new run. -/
def MidMove (V : Volume) (start req : Nat) (U : Volume) : Prop :=
  U = V.reserved start req ∨
    (V.allocated start req).Smeared (sectorSize * start) (sectorSize * req) U

/-- The volume once a file has been copied to a new run. -/
structure Copied (V : Volume) (e : DirEntry) (start req : Nat) (W : Volume) : Prop where
  smeared : (V.allocated start req).Smeared (sectorSize * start) (sectorSize * req) W
  own : copies e = 0 ∨ 0 < e.startSector ∧
      (e.startSector + copies e ≤ start ∨ start + req ≤ e.startSector) →
    ∀ p < sectorSize * req, W.bytes (sectorSize * start + p) =
      if p < sectorSize * copies e then V.bytes (dataAddr e p) else 0

/-- The file has room. -/
theorem ensureCapacity_fits (h : req ≤ e.allocatedSectors) :
    Uses (onVolume d) (SimpleFs.ensureCapacity e req) V 0 0 (.ok e) V E := by
  unfold SimpleFs.ensureCapacity
  rw [if_pos h]
  exact Uses.pure e

/-- There is no room. -/
theorem ensureCapacity_full (hmax : V.total ≤ simplefsMaxTrackedSectors)
    (hlow : simplefsDataStart ≤ V.total) (h : e.allocatedSectors < req)
    (hrun : V.freeRun req = none) :
    Uses (onVolume d) (SimpleFs.ensureCapacity e req) V 0 0 (.error vfsEnospc) V E := by
  unfold SimpleFs.ensureCapacity
  rw [if_neg (Nat.not_le.mpr h)]
  exact (allocateSectors_none hmax hlow (by omega) hrun).bind_error

/-- The file moves to a new run. -/
theorem ensureCapacity_moves (hmax : V.total ≤ simplefsMaxTrackedSectors)
    (hlow : simplefsDataStart ≤ V.total) (h : e.allocatedSectors < req)
    (hrun : V.freeRun req = some start) (hcopies : copies e ≤ req) :
    ∃ W, V.Copied e start req W ∧
      Uses (onVolume d) (SimpleFs.ensureCapacity e req) V (copies e) (1 + (req + copies e))
        (.ok { e with startSector := start, allocatedSectors := req }) W
        (V.MidMove start req) := by
  obtain ⟨hstart, hend, -⟩ := freeRun_some hrun
  have hle : sectorSize * copies e ≤ sectorSize * req := Nat.mul_le_mul_left _ hcopies
  have hwide : sectorSize ≤ sectorSize * start := Nat.le_mul_of_pos_right _ (by
    simp only [simplefsDataStart] at hstart
    omega)
  have halloc := allocateSectors (d := d) hmax hlow (by omega) hrun (E := V.MidMove start req)
    (.inl rfl)
  have hzero := (Holds.zeroRun (d := d) (V := V.allocated start req) req start).mono
    (F := V.MidMove start req) fun u hu => .inr hu
  set Z := (V.allocated start req).write (sectorSize * start) zeroSector (sectorSize * req) with hZ
  have hsmear : (V.allocated start req).Smeared (sectorSize * start) (sectorSize * req) Z := ⟨_, rfl⟩
  unfold SimpleFs.ensureCapacity
  rw [if_neg (Nat.not_le.mpr h)]
  by_cases hsome : 0 < e.sizeBytes ∧ 0 < e.allocatedSectors
  · have hc : copies e = SimpleFs.sectorsForBytes e.sizeBytes := if_pos hsome
    simp only [if_pos hsome]
    have finish : ∀ src, Uses (onVolume d) (SimpleFs.copyFileData e start) Z (copies e) (copies e)
        (.ok ()) (Z.write (sectorSize * start) src (sectorSize * copies e))
        (Z.Smeared (sectorSize * start) (sectorSize * copies e)) →
        Uses (onVolume d) (do
          let newStart ← SimpleFs.allocateSectors req
          SimpleFs.zeroRun newStart req
          SimpleFs.copyFileData e newStart
          return { e with startSector := newStart, allocatedSectors := req } : FsM DirEntry) V
          (copies e) (1 + (req + copies e))
          (.ok { e with startSector := start, allocatedSectors := req })
          (Z.write (sectorSize * start) src (sectorSize * copies e)) (V.MidMove start req) := by
      intro src hcopy
      have hcopy' := hcopy.mono (F := V.MidMove start req) fun u hu =>
        .inr (hsmear.trans (hu.mono (Nat.le_refl _) (by omega)))
      exact Uses.cast (r := 0 + (0 + (copies e + 0))) (w := 1 + (req + (copies e + 0)))
        (halloc.bind (hzero.bind (hcopy'.bind (Uses.pure _)))) (by omega) (by omega)
    have hspec : ∀ src, (V.allocated start req).Smeared (sectorSize * start) (sectorSize * req)
        (Z.write (sectorSize * start) src (sectorSize * copies e)) := fun src =>
      hsmear.trans (Smeared.mono (a := sectorSize * start) (n := sectorSize * copies e) ⟨src, rfl⟩
        (Nat.le_refl _) (by omega))
    by_cases hdisj : 0 < e.startSector ∧
        (e.startSector + copies e ≤ start ∨ start + req ≤ e.startSector)
    · have hcopy := Holds.copySectors (d := d) (V := Z) (copies e) e.startSector start (by omega)
      rw [hc] at hcopy
      refine ⟨_, ⟨hspec _, fun _ p hp => ?_⟩, finish _ (by rw [hc]; exact hcopy)⟩
      rw [write_bytes, Nat.add_sub_cancel_left]
      by_cases hpc : p < sectorSize * copies e
      · have hsrc : sectorSize * e.startSector + p < sectorSize * start ∨
            sectorSize * start + sectorSize * req ≤ sectorSize * e.startSector + p := by
          rcases hdisj.2 with hb | hb
          · left
            have := Nat.mul_le_mul_left sectorSize hb
            rw [Nat.mul_add] at this
            omega
          · right
            have := Nat.mul_le_mul_left sectorSize hb
            rw [Nat.mul_add] at this
            omega
        rw [if_pos ⟨Nat.le_add_right _ _, by omega⟩, if_pos hpc, hZ, write_bytes_of_not (by omega),
          allocated_bytes]
        · rfl
        · have := Nat.mul_le_mul_left sectorSize hdisj.1
          omega
      · rw [if_neg (by omega), if_neg hpc, hZ, write_bytes, if_pos ⟨Nat.le_add_right _ _, by omega⟩]
        rfl
    · obtain ⟨src, hcopy⟩ := Holds.copySectors_any (d := d) (V := Z) (copies e) e.startSector start
      rw [hc] at hcopy
      refine ⟨_, ⟨hspec src, fun hcase p hp => ?_⟩, finish src (by rw [hc]; exact hcopy)⟩
      have hnone : copies e = 0 := hcase.resolve_right hdisj
      rw [hnone, Nat.mul_zero, write_zero, if_neg (Nat.not_lt_zero p), hZ, write_bytes,
        if_pos ⟨Nat.le_add_right _ _, by omega⟩]
      rfl
  · have hc : copies e = 0 := if_neg hsome
    simp only [if_neg hsome]
    refine ⟨Z, ⟨hsmear, fun _ p hp => ?_⟩, ?_⟩
    · rw [hc, if_neg (by omega), hZ, write_bytes, if_pos ⟨Nat.le_add_right _ _, by omega⟩]
      rfl
    · exact Uses.cast (r := 0 + (0 + 0)) (w := 1 + (req + 0))
        (halloc.bind (hzero.bind (Uses.pure _))) (by omega) (by omega)

/-! ### `simplefs_write` -/

/-- The size of a file after a write. -/
def grownSize (e : DirEntry) (offset count : Nat) : Nat := max e.sizeBytes (offset + count)

/-- The sectors `simplefs_write` asks for. -/
def required (e : DirEntry) (offset count : Nat) : Nat :=
  SimpleFs.sectorsForBytes (grownSize e offset count)

/-- The entry of a file after a write. -/
def resized (e : DirEntry) (offset count : Nat) : DirEntry :=
  { e with sizeBytes := grownSize e offset count }

/-- The entry of a file that moved for a write. -/
def relocated (e : DirEntry) (start offset count : Nat) : DirEntry :=
  { e with
    startSector := start
    sizeBytes := grownSize e offset count
    allocatedSectors := required e offset count }

/-- What `simplefs_write` does with the entry found. -/
def writeFound (offset : Nat) (input : Nat → Byte) (count : Nat) (found : Nat × DirEntry) :
    FsM Nat := do
  let entry' ← SimpleFs.ensureCapacity found.2 (required found.2 offset count)
  SimpleFs.writeLoop entry' offset input count 0
  SimpleFs.writeEntry found.1 { entry' with sizeBytes := grownSize found.2 offset count }
  if 0 < found.2.allocatedSectors ∧ entry'.startSector ≠ found.2.startSector then
    modify (·.markRunFree found.2.startSector found.2.allocatedSectors)
  return count

/-- **`simplefs_write`**, once its arguments are checked -/
theorem simplefsWrite_eq (hs : Holds d s V) (hm : V.mounted = true) {path : Option CString}
    (hpath : SimpleFs.normalizePath path = some name) {offset count : Nat} (input : Nat → Byte)
    (hpos : 0 < count) (hsum : offset + count < wordSize) :
    SimpleFs.simplefsWrite path offset (some input) count s =
      (SimpleFs.findEntry name >>= writeFound offset input count) s := by
  have hmod : (offset + count) % wordSize = offset + count := Nat.mod_eq_of_lt hsum
  have hsize : ∀ e : DirEntry, (if (offset + count) % wordSize < e.sizeBytes then e.sizeBytes
      else (offset + count) % wordSize) = grownSize e offset count := by
    intro e
    rw [hmod]
    unfold grownSize
    split <;> omega
  unfold SimpleFs.simplefsWrite
  rw [bind_ok (requireMounted_eq hs hm), normalize_some hpath]
  dsimp only
  rw [if_neg (Nat.pos_iff_ne_zero.mp hpos), if_neg (by omega)]
  simp only [hsize]
  rfl

/-- Sizes that are rounded up without wrapping. -/
structure Small (e : DirEntry) (offset count : Nat) : Prop where
  size : grownSize e offset count + sectorSize ≤ wordSize
  pos : 0 < count

/-- The sectors of a size, rounded up. -/
theorem Small.required_eq {offset count : Nat} (h : Small e offset count) :
    required e offset count = (grownSize e offset count + 511) / 512 :=
  sectorsForBytes_eq h.size

/-- They hold the bytes. -/
theorem Small.fits {offset count : Nat} (h : Small e offset count) :
    grownSize e offset count ≤ sectorSize * required e offset count := by
  rw [h.required_eq]
  simp only [sectorSize]
  omega

/-- There is at least one. -/
theorem Small.required_pos {offset count : Nat} (h : Small e offset count) :
    0 < required e offset count := by
  have hp := h.pos
  have hle : offset + count ≤ grownSize e offset count := Nat.le_max_right _ _
  rw [h.required_eq]
  omega

/-- What was written before is copied. -/
theorem Small.copies_le {offset count : Nat} (h : Small e offset count) :
    copies e ≤ required e offset count := by
  have hs := h.size
  have hle : e.sizeBytes ≤ grownSize e offset count := Nat.le_max_left _ _
  unfold copies
  split
  · rw [sectorsForBytes_eq (by omega), h.required_eq]
    omega
  · exact Nat.zero_le _

/-- The ways `simplefs_write` of an accepted path goes, with its result and the volume after it. -/
inductive Wrote (V : Volume) (name : List Byte) (offset : Nat) (input : Nat → Byte) (count : Nat) :
    Except Int Nat → Volume → Prop
  | missing : V.lookup name = none → Wrote V name offset input count (.error vfsEnoent) V
  | full (j : Nat) : V.lookup name = some j →
      (V.entry j).allocatedSectors < required (V.entry j) offset count →
      V.freeRun (required (V.entry j) offset count) = none →
      Wrote V name offset input count (.error vfsEnospc) V
  | inPlace (j : Nat) : V.lookup name = some j →
      required (V.entry j) offset count ≤ (V.entry j).allocatedSectors →
      Wrote V name offset input count (.ok count)
        ((V.write (dataAddr (V.entry j) offset) input count).setEntry j
          (resized (V.entry j) offset count))
  | moved (j start : Nat) (W : Volume) : V.lookup name = some j →
      (V.entry j).allocatedSectors < required (V.entry j) offset count →
      V.freeRun (required (V.entry j) offset count) = some start →
      V.Copied (V.entry j) start (required (V.entry j) offset count) W →
      Wrote V name offset input count (.ok count)
        (((W.write (sectorSize * start + offset) input count).setEntry j
          (relocated (V.entry j) start offset count)).freeExtent (V.entry j))

/-- The data loop of a write that stays in its place begins behind the directory, and its sector
numbers do not leave the 32-bit range. -/
structure Near (e : DirEntry) (offset : Nat) : Prop where
  low : simplefsDataStart ≤ e.startSector + offset / sectorSize
  high : e.startSector + wordSize / sectorSize ≤ wordSize

/-- Data is written from the first data sector on. -/
theorem Near.addr {offset : Nat} (h : Near e offset) :
    simplefsDataStart * sectorSize ≤ dataAddr e offset := by
  have hlow := h.low
  simp only [dataAddr, sectorSize, simplefsDataStart] at *
  omega

/-- An extent in the data area is near. -/
theorem ExtentOk.near (h : V.ExtentOk e) (hmax : V.total ≤ simplefsMaxTrackedSectors)
    (hpos : 0 < e.allocatedSectors) (offset : Nat) : Near e offset := by
  obtain ⟨hlow, hhigh⟩ := h.start_small hmax hpos
  exact ⟨Nat.le_trans hlow (Nat.le_add_right _ _), hhigh⟩

/-- A size whose sectors do not fit in what a file has is not near the end of the 32-bit range. -/
theorem small_of_required {offset count : Nat} (he : e.Fits) (hsum : offset + count < wordSize)
    (hpos : 0 < count) (hreq : 0 < required e offset count) : Small e offset count := by
  refine ⟨?_, hpos⟩
  have hsize : e.sizeBytes < wordSize := he.field 1
  unfold required SimpleFs.sectorsForBytes at hreq
  unfold grownSize at *
  by_cases hz : max e.sizeBytes (offset + count) = 0
  · rw [if_pos hz] at hreq
    omega
  · rw [if_neg hz] at hreq
    simp only [sectorSize, wordSize] at *
    omega

/-- A write that stays in its place. -/
theorem writeFound_inPlace {offset count : Nat} (input : Nat → Byte) (hj : j < simplefsMaxFiles)
    (hsum : offset + count < wordSize) (hnear : Near e offset)
    (hfits : required e offset count ≤ e.allocatedSectors) :
    Uses (onVolume d) (writeFound offset input count (j, e)) V (partChunks offset count 0 + 1)
      (chunks offset count 0 + 1) (.ok count)
      ((V.write (dataAddr e offset) input count).setEntry j (resized e offset count))
      (V.Smeared (dataAddr e offset) count) := by
  have hloop := Holds.writeLoop (d := d) (V := V) input (Nat.le_of_lt hsum) hnear.high 0
  simp only [Nat.add_zero, Nat.sub_zero, Nat.zero_add] at hloop
  have hentry := Holds.writeEntry (d := d) (V := V.write (dataAddr e offset) input count)
    (E := V.Smeared (dataAddr e offset) count) hj (resized e offset count) ⟨_, rfl⟩
  unfold writeFound
  have hstay : ¬ (0 < e.allocatedSectors ∧ e.startSector ≠ e.startSector) := fun hc => hc.2 rfl
  apply Uses.cast (r := 0 + (partChunks offset count 0 + (1 + 0)))
    (w := 0 + (chunks offset count 0 + (1 + 0))) _ (by omega) (by omega)
  apply (ensureCapacity_fits hfits).bind
  dsimp only
  simp only [if_neg hstay]
  exact hloop.bind (hentry.bind (m := 0) (n := 0) (Uses.pure count))

/-- A write that moves the file. -/
theorem writeFound_moves {offset count : Nat} (input : Nat → Byte) (hj : j < simplefsMaxFiles)
    (hext : V.ExtentOk e) (hlow : simplefsDataStart ≤ V.total)
    (hmax : V.total ≤ simplefsMaxTrackedSectors)
    (hs : Small e offset count) (hgrows : e.allocatedSectors < required e offset count)
    (hrun : V.freeRun (required e offset count) = some start)
    (hused : ∀ x, e.Holds x → V.used x = true) :
    ∃ W, V.Copied e start (required e offset count) W ∧
      Uses (onVolume d) (writeFound offset input count (j, e)) V
        (copies e + (partChunks offset count 0 + 1))
        (1 + (required e offset count + copies e) + (chunks offset count 0 + 1)) (.ok count)
        (((W.write (sectorSize * start + offset) input count).setEntry j
          (relocated e start offset count)).freeExtent e)
        (V.MidMove start (required e offset count)) := by
  obtain ⟨hstart, hend, hfree⟩ := freeRun_some hrun
  obtain ⟨W, hW, hensure⟩ := ensureCapacity_moves (d := d) hmax hlow hgrows hrun hs.copies_le
  refine ⟨W, hW, ?_⟩
  have hsum : offset + count ≤ grownSize e offset count := Nat.le_max_right _ _
  have hroom := Nat.le_trans hsum hs.fits
  have hpos := hs.pos
  have hreq := hs.required_pos
  have hnew : V.ExtentOk { e with startSector := start,
                                  allocatedSectors := required e offset count } :=
    .inr ⟨hstart, hend⟩
  obtain ⟨-, hhigh⟩ := hnew.start_small hmax hreq
  have hword : offset + count ≤ wordSize := by
    have := hs.size
    omega
  have hloop := Holds.writeLoop (d := d) (V := W)
    (e := { e with startSector := start, allocatedSectors := required e offset count })
    input hword hhigh 0
  simp only [Nat.add_zero, Nat.sub_zero, Nat.zero_add] at hloop
  have hloop' := hloop.mono (F := V.MidMove start (required e offset count)) fun u hu =>
    .inr (hW.smeared.trans (hu.mono (by omega) (by omega)))
  have hentry := Holds.writeEntry (d := d)
    (V := W.write (sectorSize * start + offset) input count)
    (E := V.MidMove start (required e offset count)) hj (relocated e start offset count)
    (.inr (hW.smeared.trans (Smeared.mono (a := sectorSize * start + offset) (n := count) ⟨_, rfl⟩
      (by omega) (by omega))))
  have htail : Uses (onVolume d) (do
      if 0 < e.allocatedSectors ∧ start ≠ e.startSector then
        modify (·.markRunFree e.startSector e.allocatedSectors)
      return count : FsM Nat)
      ((W.write (sectorSize * start + offset) input count).setEntry j
        (relocated e start offset count)) 0 0 (.ok count)
      (((W.write (sectorSize * start + offset) input count).setEntry j
        (relocated e start offset count)).freeExtent e)
      (V.MidMove start (required e offset count)) := by
    obtain ⟨htotal, -, -, -⟩ := hW.smeared.fields
    rcases Nat.eq_zero_or_pos e.allocatedSectors with hz | hold
    · have hno : ¬ (0 < e.allocatedSectors ∧ start ≠ e.startSector) := by omega
      simp only [if_neg hno]
      rw [freeExtent_empty hz]
      exact Uses.pure count
    · -- the new run is free, the old extent is not
      have hne : start ≠ e.startSector := by
        intro hc
        have h1 := hfree e.startSector ⟨by omega, by omega⟩
        rw [hused e.startSector ⟨Nat.le_refl _, by omega⟩] at h1
        cases h1
      simp only [if_pos (⟨hold, hne⟩ : 0 < e.allocatedSectors ∧ start ≠ e.startSector)]
      have hfreeRun := Holds.markRunFree (d := d)
        (V := (W.write (sectorSize * start + offset) input count).setEntry j
          (relocated e start offset count))
        (E := V.MidMove start (required e offset count))
        (show e.allocatedSectors = 0 ∨ simplefsDataStart ≤ e.startSector ∧
            e.startSector + e.allocatedSectors ≤ W.total by
          rw [htotal]
          exact hext)
      exact hfreeRun.bind (m := 0) (n := 0) (Uses.pure count)
  unfold writeFound
  exact Uses.cast (r := copies e + (partChunks offset count 0 + (1 + 0)))
    (w := 1 + (required e offset count + copies e) + (chunks offset count 0 + (1 + 0)))
    (hensure.bind (hloop'.bind (hentry.bind htail))) (by omega) (by omega)

/-- What a failing device can leave behind of a write: bytes of the file itself, in the range that is
written, or a new run. -/
def MidWrite (V : Volume) (name : List Byte) (offset count : Nat) (U : Volume) : Prop :=
  U = V ∨ ∃ j, V.lookup name = some j ∧
    (required (V.entry j) offset count ≤ (V.entry j).allocatedSectors ∧
        V.Smeared (dataAddr (V.entry j) offset) count U ∨
      (V.entry j).allocatedSectors < required (V.entry j) offset count ∧
        ∃ start, V.freeRun (required (V.entry j) offset count) = some start ∧
          V.MidMove start (required (V.entry j) offset count) U)

/-- A file that is found and written in its place is written behind the directory. -/
def Placed (V : Volume) (name : List Byte) (offset count : Nat) : Prop :=
  ∀ j, V.lookup name = some j →
    required (V.entry j) offset count ≤ (V.entry j).allocatedSectors → Near (V.entry j) offset

/-- Sizes that are not near the end of the 32-bit range. -/
theorem Agrees.placed (h : V.Agrees) (hmax : V.total ≤ simplefsMaxTrackedSectors)
    {offset count : Nat} (hsmall : ∀ j, V.lookup name = some j → Small (V.entry j) offset count) :
    V.Placed name offset count := by
  intro j hl hfits
  obtain ⟨hj, hlive, -⟩ := lookup_lt hl
  exact (h.extent j hj hlive).near hmax (Nat.lt_of_lt_of_le (hsmall j hl).required_pos hfits) offset

/-- **`simplefs_write`** of an accepted path. -/
theorem Agrees.write (h : V.Agrees) (hm : V.mounted = true) (hlow : simplefsDataStart ≤ V.total)
    (hmax : V.total ≤ simplefsMaxTrackedSectors) {path : Option CString}
    (hpath : SimpleFs.normalizePath path = some name) {offset count : Nat} (input : Nat → Byte)
    (hpos : 0 < count) (hsum : offset + count < wordSize) (hplaced : V.Placed name offset count) :
    ∃ r w res V', V.Wrote name offset input count res V' ∧
      Uses (onVolume d) (SimpleFs.simplefsWrite path offset (some input) count) V r w res V'
        (V.MidWrite name offset count) := by
  have hfind := findEntry_uses (d := d) (V := V) (E := V.MidWrite name offset count) name (.inl rfl)
  have start : ∀ {r w : Nat} {res : Except Int Nat} {V' : Volume},
      Uses (onVolume d) (SimpleFs.findEntry name >>= writeFound offset input count) V r w res V'
        (V.MidWrite name offset count) →
      Uses (onVolume d) (SimpleFs.simplefsWrite path offset (some input) count) V r w res V'
        (V.MidWrite name offset count) := fun hrest =>
    hrest.of_eq fun s hs => simplefsWrite_eq hs hm hpath input hpos hsum
  rcases hl : V.lookup name with _ | j
  · rw [hl] at hfind
    exact ⟨_, _, _, _, .missing hl, start hfind.bind_error⟩
  · rw [hl] at hfind
    obtain ⟨hj, hlive, -⟩ := lookup_lt hl
    have hext := h.extent j hj hlive
    by_cases hfits : required (V.entry j) offset count ≤ (V.entry j).allocatedSectors
    · have hrest := (writeFound_inPlace (d := d) (V := V) input hj hsum (hplaced j hl hfits) hfits).mono
        (F := V.MidWrite name offset count) fun u hu => .inr ⟨j, hl, .inl ⟨hfits, hu⟩⟩
      exact ⟨_, _, _, _, .inPlace j hl hfits, start (hfind.bind hrest)⟩
    · rw [Nat.not_le] at hfits
      have hs := small_of_required (V.entry_fits j) hsum hpos (by omega)
      rcases hrun : V.freeRun (required (V.entry j) offset count) with _ | run
      · have hfull : Uses (onVolume d) (writeFound offset input count (j, V.entry j)) V 0 0
            (.error vfsEnospc) V (V.MidWrite name offset count) :=
          (ensureCapacity_full hmax hlow hfits hrun).bind_error
        exact ⟨_, _, _, _, .full j hl hfits hrun, start (hfind.bind hfull)⟩
      · obtain ⟨W, hW, hrest⟩ := writeFound_moves (d := d) input hj hext hlow hmax hs
          hfits hrun fun x hx => (h.bitmap x).mpr (.inr ⟨j, hj, hlive, hx⟩)
        have hrest' := hrest.mono (F := V.MidWrite name offset count) fun u hu =>
          .inr ⟨j, hl, .inr ⟨hfits, run, hrun, hu⟩⟩
        exact ⟨_, _, _, _, .moved j run W hl hfits hrun hW, start (hfind.bind hrest')⟩

/-! ### The files after a write -/

/-- Entry `j` replaced, and the bitmap changed to match. -/
theorem Agrees.moves_of (h : V.Agrees) (hl : V.lookup name = some j) (htotal : V'.total = V.total)
    (hentry : ∀ i < simplefsMaxFiles, V'.entry i = if i = j then e else V.entry i)
    (hlive : e.Live) (hext : V.ExtentOk e)
    (hdisj : ∀ i < simplefsMaxFiles, i ≠ j → (V.entry i).Live → ∀ x, (V.entry i).Holds x →
      ¬ e.Holds x)
    (hused : ∀ x, V'.used x = true ↔ V.used x = true ∧ ¬ (V.entry j).Holds x ∨ e.Holds x) :
    V.Moves V' j e := by
  obtain ⟨hj, hjlive, -⟩ := lookup_lt hl
  refine { total := htotal, entry := hentry, live := hlive, extent := hext, disjoint := hdisj,
           bitmap := fun x => ?_ }
  rw [hused x, h.bitmap x]
  constructor
  · rintro (⟨hx | ⟨i, hi, hil, hx⟩, hno⟩ | hx)
    · exact .inl hx
    · refine .inr (.inr ⟨i, hi, ?_, hil, hx⟩)
      rintro rfl
      exact hno hx
    · exact .inr (.inl hx)
  · rintro (hx | hx | ⟨i, hi, hij, hil, hx⟩)
    · refine .inl ⟨.inl hx, fun hc => ?_⟩
      unfold DirEntry.Holds Holds.inRun at hc
      rcases h.extent j hj hjlive with hz | ⟨hlow, -⟩ <;> omega
    · exact .inr hx
    · exact .inl ⟨.inr ⟨i, hi, hil, hx⟩, h.disjoint i hi j hj hij hil hjlive x hx⟩

/-- A write in place changes one file. -/
theorem Agrees.inPlace_moves (h : V.Agrees) (hl : V.lookup name = some j) {offset count : Nat}
    {input : Nat → Byte} (hsum : offset + count < wordSize) (hnear : Near (V.entry j) offset) :
    V.Moves ((V.write (dataAddr (V.entry j) offset) input count).setEntry j
      (resized (V.entry j) offset count)) j (resized (V.entry j) offset count) := by
  obtain ⟨hj, hlive, -⟩ := lookup_lt hl
  have hext := h.extent j hj hlive
  have haddr := hnear.addr
  have hfit : (resized (V.entry j) offset count).Fits := by
    have hf := V.entry_fits j
    exact fits_of_small hf (hf.field 0) (Nat.max_lt.mpr ⟨hf.field 1, hsum⟩) (hf.field 2)
  refine h.moves_of hl rfl (fun i hi => ?_) hlive hext
    (fun i hi hij hil => h.disjoint i hi j hj hij hil hlive) fun x => ?_
  · rw [entry_setEntry hfit, entry_write (.inr haddr) hi]
  · show V.used x = true ↔ V.used x = true ∧ ¬ (V.entry j).Holds x ∨ (V.entry j).Holds x
    constructor
    · intro hx
      by_cases hc : (V.entry j).Holds x
      · exact .inr hc
      · exact .inl ⟨hx, hc⟩
    · rintro (⟨hx, -⟩ | hx)
      · exact hx
      · exact (h.bitmap x).mpr (.inr ⟨j, hj, hlive, hx⟩)

/-- So does a write that moves its file. -/
theorem Agrees.moved_moves (h : V.Agrees) (hmax : V.total ≤ simplefsMaxTrackedSectors)
    (hl : V.lookup name = some j) {offset count : Nat}
    {input : Nat → Byte} (hs : Small (V.entry j) offset count)
    (hrun : V.freeRun (required (V.entry j) offset count) = some start)
    (hW : V.Copied (V.entry j) start (required (V.entry j) offset count) W) :
    V.Moves (((W.write (sectorSize * start + offset) input count).setEntry j
      (relocated (V.entry j) start offset count)).freeExtent (V.entry j)) j
      (relocated (V.entry j) start offset count) := by
  obtain ⟨hj, hlive, -⟩ := lookup_lt hl
  obtain ⟨hstart, hend, hfree⟩ := freeRun_some hrun
  obtain ⟨htotal, -, hused, -⟩ := hW.smeared.fields
  have hwide : simplefsDataStart * sectorSize ≤ sectorSize * start := by
    rw [Nat.mul_comm]
    exact Nat.mul_le_mul_left _ hstart
  have hfit : (relocated (V.entry j) start offset count).Fits := by
    have hsize := hs.size
    simp only [simplefsMaxTrackedSectors, sectorSize] at hmax hsize
    have hword : 4096 < wordSize := by decide
    exact fits_of_small (V.entry_fits j) (by omega) (by omega) (by omega)
  have hnot : ∀ x, V.used x = true → ¬ (relocated (V.entry j) start offset count).Holds x := by
    intro x hx hc
    rw [hfree x hc] at hx
    cases hx
  refine h.moves_of hl htotal (fun i hi => ?_) hlive (.inr ⟨hstart, hend⟩)
    (fun i hi hij hil x hx => hnot x ((h.bitmap x).mpr (.inr ⟨i, hi, hil, hx⟩))) fun x => ?_
  · show ((W.write (sectorSize * start + offset) input count).setEntry j
      (relocated (V.entry j) start offset count)).entry i = _
    rw [entry_setEntry hfit, entry_write (.inr (by omega)) hi, hW.smeared.entry hwide hi,
      allocated_entry hi]
  · show (W.used x && !decide (Holds.inRun _ _ x)) = true ↔ _
    rw [Bool.and_eq_true, hused, allocated_used, Bool.not_eq_true', decide_eq_false_iff_not]
    constructor
    · rintro ⟨hx | hx, hno⟩
      · exact .inl ⟨hx, hno⟩
      · exact .inr hx
    · rintro (⟨hx, hno⟩ | hx)
      · exact ⟨.inl hx, hno⟩
      · refine ⟨.inr hx, fun hc => ?_⟩
        exact hnot x ((h.bitmap x).mpr (.inr ⟨j, hj, hlive, hc⟩)) hx

/-- The bitmap and the directory agree after a write. -/
theorem Wrote.agrees {offset count : Nat} {input : Nat → Byte} {res : Except Int Nat}
    (hw : V.Wrote name offset input count res V') (h : V.Agrees)
    (hmax : V.total ≤ simplefsMaxTrackedSectors) (hpos : 0 < count)
    (hsum : offset + count < wordSize) (hplaced : V.Placed name offset count) : V'.Agrees := by
  cases hw with
  | missing | full => exact h
  | inPlace j hl hfits =>
    exact h.replace (lookup_lt hl).1 (h.inPlace_moves hl hsum (hplaced j hl hfits))
  | moved j start W hl hgrows hrun hW =>
    have hs := small_of_required (V.entry_fits j) hsum hpos (by omega)
    exact h.replace (lookup_lt hl).1 (h.moved_moves hmax hl hs hrun hW)

/-- The new contents of a file, byte by byte. -/
theorem fileBytes_splice {e' : DirEntry} {offset count : Nat} {input : Nat → Byte}
    (hsize : e'.sizeBytes = grownSize e offset count)
    (hb : ∀ p < grownSize e offset count, V'.bytes (dataAddr e' p) =
      if offset ≤ p ∧ p < offset + count then input (p - offset)
      else if p < e.sizeBytes then V.bytes (dataAddr e p) else 0) :
    V'.fileBytes e' = splice (V.fileBytes e) offset input count := by
  unfold splice
  rw [length_fileBytes]
  unfold fileBytes
  rw [hsize]
  apply List.map_congr_left
  intro p hp
  rw [hb p (List.mem_range.mp hp)]
  by_cases hc : offset ≤ p ∧ p < offset + count
  · rw [if_pos hc, if_pos hc]
  · rw [if_neg hc, if_neg hc]
    by_cases hps : p < e.sizeBytes
    · rw [if_pos hps]
      exact (getD_fileBytes hps).symm
    · rw [if_neg hps, List.getD_eq_default]
      rw [List.length_map, List.length_range]
      omega

/-- Outside the range written, a file that stays in its place is as it was. -/
theorem Consistent.inPlace (h : V.Consistent) (hmax : V.total ≤ simplefsMaxTrackedSectors)
    (hl : V.lookup name = some j) {offset count : Nat} (input : Nat → Byte)
    (hs : Small (V.entry j) offset count)
    (hfits : required (V.entry j) offset count ≤ (V.entry j).allocatedSectors) :
    V.Replaces ((V.write (dataAddr (V.entry j) offset) input count).setEntry j
        (resized (V.entry j) offset count)) j (resized (V.entry j) offset count) ∧
      ((V.write (dataAddr (V.entry j) offset) input count).setEntry j
        (resized (V.entry j) offset count)).fileBytes (resized (V.entry j) offset count) =
          splice (V.fileBytes (V.entry j)) offset input count := by
  obtain ⟨hj, hlive, -⟩ := lookup_lt hl
  have hext := h.extent j hj hlive
  have hsum : offset + count ≤ grownSize (V.entry j) offset count := Nat.le_max_right _ _
  have hmore : (V.entry j).sizeBytes ≤ grownSize (V.entry j) offset count := Nat.le_max_left _ _
  have hroom := Nat.le_trans hs.fits (Nat.mul_le_mul_left sectorSize hfits)
  have hpos := hs.pos
  have haddr := (hext.addr (p := offset) (by omega)).1
  have hsmear : V.Smeared (dataAddr (V.entry j) offset) count
      (V.write (dataAddr (V.entry j) offset) input count) := ⟨_, rfl⟩
  -- a byte of the extent afterwards
  have hbyte : ∀ p < sectorSize * (V.entry j).allocatedSectors,
      ((V.write (dataAddr (V.entry j) offset) input count).setEntry j
        (resized (V.entry j) offset count)).bytes (dataAddr (V.entry j) p) =
        if offset ≤ p ∧ p < offset + count then input (p - offset)
        else V.bytes (dataAddr (V.entry j) p) := by
    intro p hp
    rw [setEntry_bytes_of_ge hj (hext.addr hp).1, write_bytes]
    unfold dataAddr
    by_cases hc : offset ≤ p ∧ p < offset + count
    · rw [if_pos (by omega), if_pos hc]
      congr 1
      omega
    · rw [if_neg (by omega), if_neg hc]
  have hnear := hext.near hmax (Nat.lt_of_lt_of_le hs.required_pos hfits) offset
  have hlt : offset + count < wordSize := by
    have := hs.size
    simp only [sectorSize] at this
    omega
  refine ⟨{ toMoves := h.inPlace_moves hl hlt hnear, super := (hsmear.superOk haddr h.super).setEntry _ _,
            size := hroom, slack := ?_, name := ?_, data := ?_ }, ?_⟩
  · intro p hp hlt
    have hp' : grownSize (V.entry j) offset count ≤ p := hp
    have h1 := hbyte p hlt
    rw [if_neg (by omega)] at h1
    exact h1.trans (h.slack j hj hlive p (by omega) hlt)
  · intro i hi hij hil hc
    exact hij (h.unique i hi j hj hil hlive hc)
  · intro i hi hij hil p hp
    rw [setEntry_bytes_of_ge hj ((h.extent i hi hil).addr hp).1]
    apply write_bytes_of_not
    rintro ⟨h1, h2⟩
    have hne := dataAddr_ne (q := dataAddr (V.entry i) p - sectorSize * (V.entry j).startSector)
      (h.disjoint i hi j hj hij hil hlive) hp (by unfold dataAddr at *; omega)
    unfold dataAddr at *
    omega
  · refine fileBytes_splice rfl fun p hp => ?_
    refine (hbyte p (by omega)).trans ?_
    by_cases hc : offset ≤ p ∧ p < offset + count
    · rw [if_pos hc, if_pos hc]
    · rw [if_neg hc, if_neg hc]
      by_cases hps : p < (V.entry j).sizeBytes
      · rw [if_pos hps]
      · rw [if_neg hps]
        exact h.slack j hj hlive p (by omega) (by omega)

/-- A file that moved has its old bytes, zeros behind them, and what was written. -/
theorem Consistent.moved (h : V.Consistent) (hmax : V.total ≤ simplefsMaxTrackedSectors)
    (hl : V.lookup name = some j) {offset count : Nat} (input : Nat → Byte)
    (hs : Small (V.entry j) offset count)
    (hrun : V.freeRun (required (V.entry j) offset count) = some start)
    (hW : V.Copied (V.entry j) start (required (V.entry j) offset count) W) :
    V.Replaces (((W.write (sectorSize * start + offset) input count).setEntry j
        (relocated (V.entry j) start offset count)).freeExtent (V.entry j)) j
        (relocated (V.entry j) start offset count) ∧
      (((W.write (sectorSize * start + offset) input count).setEntry j
        (relocated (V.entry j) start offset count)).freeExtent (V.entry j)).fileBytes
          (relocated (V.entry j) start offset count) =
            splice (V.fileBytes (V.entry j)) offset input count := by
  obtain ⟨hj, hlive, -⟩ := lookup_lt hl
  obtain ⟨hstart, hend, hfree⟩ := freeRun_some hrun
  have hext := h.extent j hj hlive
  have hsum : offset + count ≤ grownSize (V.entry j) offset count := Nat.le_max_right _ _
  have hmore : (V.entry j).sizeBytes ≤ grownSize (V.entry j) offset count := Nat.le_max_left _ _
  have hroom := hs.fits
  have hwide : simplefsDataStart * sectorSize ≤ sectorSize * start := by
    rw [Nat.mul_comm]
    exact Nat.mul_le_mul_left _ hstart
  have hused : ∀ i < simplefsMaxFiles, (V.entry i).Live → ∀ x, (V.entry i).Holds x →
      ¬ Holds.inRun start (required (V.entry j) offset count) x := by
    intro i hi hil x hx hc
    have := (h.bitmap x).mpr (.inr ⟨i, hi, hil, hx⟩)
    rw [hfree x hc] at this
    cases this
  have hsmear : W.Smeared (sectorSize * start + offset) count
      (W.write (sectorSize * start + offset) input count) := ⟨_, rfl⟩
  have hsuper : (W.write (sectorSize * start + offset) input count).SuperOk :=
    hsmear.superOk (by omega) (hW.smeared.superOk hwide (h.super.allocated hend))
  -- the file where it is now, before the write
  have hcopied : ∀ p < sectorSize * required (V.entry j) offset count,
      W.bytes (sectorSize * start + p) =
        if p < (V.entry j).sizeBytes then V.bytes (dataAddr (V.entry j) p) else 0 := by
    intro p hp
    have hcopies : copies (V.entry j) ≤ (V.entry j).allocatedSectors := by
      have hsize := h.size j hj hlive
      have hss := hs.size
      unfold copies
      split
      · rw [sectorsForBytes_eq (by omega)]
        simp only [sectorSize] at hsize
        omega
      · exact Nat.zero_le _
    have hcase : copies (V.entry j) = 0 ∨ 0 < (V.entry j).startSector ∧
        ((V.entry j).startSector + copies (V.entry j) ≤ start ∨
          start + required (V.entry j) offset count ≤ (V.entry j).startSector) := by
      rcases Nat.eq_zero_or_pos (copies (V.entry j)) with hz | hsome
      · exact .inl hz
      · rcases hext with hz | ⟨hlow, -⟩
        · omega
        · have hreq := hs.required_pos
          refine .inr ⟨by simp only [simplefsDataStart] at hlow; omega, ?_⟩
          -- otherwise the runs have a sector in common
          rcases Nat.le_total (V.entry j).startSector start with hle | hle
          · left
            rw [← Nat.not_lt]
            intro hc
            exact hused j hj hlive start ⟨hle, by omega⟩ ⟨Nat.le_refl _, by omega⟩
          · right
            rw [← Nat.not_lt]
            intro hc
            exact hused j hj hlive _ ⟨Nat.le_refl _, by omega⟩ ⟨hle, hc⟩
    rw [hW.own hcase p hp]
    have hsize := h.size j hj hlive
    have hss := hs.size
    by_cases hps : p < (V.entry j).sizeBytes
    · have hcov : p < sectorSize * copies (V.entry j) := by
        have hc : copies (V.entry j) = SimpleFs.sectorsForBytes (V.entry j).sizeBytes :=
          if_pos ⟨by omega, by
            rcases Nat.eq_zero_or_pos (V.entry j).allocatedSectors with hz | hp
            · rw [hz] at hsize
              omega
            · exact hp⟩
        rw [hc, sectorsForBytes_eq (by omega)]
        simp only [sectorSize]
        omega
      rw [if_pos hcov, if_pos hps]
    · rw [if_neg hps]
      by_cases hcov : p < sectorSize * copies (V.entry j)
      · rw [if_pos hcov]
        refine h.slack j hj hlive p (by omega) ?_
        exact Nat.lt_of_lt_of_le hcov (Nat.mul_le_mul_left _ hcopies)
      · rw [if_neg hcov]
  -- and afterwards
  have hbyte : ∀ p < sectorSize * required (V.entry j) offset count,
      (((W.write (sectorSize * start + offset) input count).setEntry j
        (relocated (V.entry j) start offset count)).freeExtent (V.entry j)).bytes
          (dataAddr (relocated (V.entry j) start offset count) p) =
        if offset ≤ p ∧ p < offset + count then input (p - offset)
        else if p < (V.entry j).sizeBytes then V.bytes (dataAddr (V.entry j) p) else 0 := by
    intro p hp
    rw [← hcopied p hp]
    show ((W.write (sectorSize * start + offset) input count).setEntry j
      (relocated (V.entry j) start offset count)).bytes (sectorSize * start + p) = _
    rw [setEntry_bytes_of_ge hj (by omega), write_bytes]
    by_cases hc : offset ≤ p ∧ p < offset + count
    · rw [if_pos (by omega), if_pos hc]
      congr 1
      omega
    · rw [if_neg (by omega), if_neg hc]
  refine ⟨{ toMoves := h.moved_moves hmax hl hs hrun hW, super := ?_, size := hroom, slack := ?_,
            name := ?_, data := ?_ }, ?_⟩
  · have hset := hsuper.setEntry j (relocated (V.entry j) start offset count)
    exact ⟨hset.low, hset.high, hset.bytes⟩
  · intro p hp hlt
    have hp' : grownSize (V.entry j) offset count ≤ p := hp
    rw [hbyte p hlt, if_neg (by omega), if_neg (by omega)]
  · intro i hi hij hil hc
    exact hij (h.unique i hi j hj hil hlive hc)
  · intro i hi hij hil p hp
    obtain ⟨hlow, -⟩ := (h.extent i hi hil).addr hp
    have hout : dataAddr (V.entry i) p < sectorSize * start ∨ sectorSize * start +
        sectorSize * required (V.entry j) offset count ≤ dataAddr (V.entry i) p := by
      have hdisj : ∀ x, (V.entry i).Holds x →
          ¬ (relocated (V.entry j) start offset count).Holds x := hused i hi hil
      have hne := dataAddr_ne (q := dataAddr (V.entry i) p - sectorSize * start) hdisj hp
      by_cases hc : sectorSize * start ≤ dataAddr (V.entry i) p
      · refine .inr (Nat.not_lt.mp fun hlt => ?_)
        refine hne (show dataAddr (V.entry i) p - sectorSize * start <
          sectorSize * required (V.entry j) offset count by omega) ?_
        show dataAddr (V.entry i) p =
          sectorSize * start + (dataAddr (V.entry i) p - sectorSize * start)
        omega
      · exact .inl (Nat.not_le.mp hc)
    show ((W.write (sectorSize * start + offset) input count).setEntry j
      (relocated (V.entry j) start offset count)).bytes (dataAddr (V.entry i) p) = _
    rw [setEntry_bytes_of_ge hj hlow, write_bytes_of_not (by omega), hW.smeared.bytes (by omega),
      allocated_bytes (by simp only [sectorSize, simplefsDataStart] at *; omega)]
  · exact fileBytes_splice rfl fun p hp => hbyte p (by omega)

/-- The files after `simplefs_write`: a write that succeeds splices its bytes into the file, and
nothing else changes. -/
theorem Wrote.next {offset count : Nat} {input : Nat → Byte} {res : Except Int Nat}
    (hw : V.Wrote name offset input count res V') (h : V.Consistent)
    (hmax : V.total ≤ simplefsMaxTrackedSectors)
    (hsmall : ∀ j, V.lookup name = some j → Small (V.entry j) offset count) :
    V.Next V' ∧ V'.fileCount = V.fileCount ∧
      (match V.files name with
        | none => res = .error vfsEnoent ∧ V' = V
        | some old => res = .error vfsEnospc ∧ V' = V ∨ res = .ok count ∧
            V'.files = update V.files name (some (splice old offset input count))) := by
  cases hw with
  | missing hl =>
    rw [files_eq_none.mpr hl]
    exact ⟨⟨h, rfl, rfl⟩, rfl, rfl, rfl⟩
  | full j hl =>
    rw [files_of_lookup hl]
    exact ⟨⟨h, rfl, rfl⟩, rfl, .inl ⟨rfl, rfl⟩⟩
  | inPlace j hl hfits =>
    obtain ⟨hj, hlive, hname⟩ := lookup_lt hl
    obtain ⟨hr, hbytes⟩ := h.inPlace hmax hl input (hsmall j hl) hfits
    have hfiles := h.files_replace hj hr fun _ => rfl
    have hsame : (resized (V.entry j) offset count).nameBytes = name := hname
    rw [hsame, hbytes] at hfiles
    rw [files_of_lookup hl]
    exact ⟨⟨h.replace hj hr, rfl, rfl⟩, fileCount_moves hr.toMoves hlive, .inr ⟨rfl, hfiles⟩⟩
  | moved j start W hl hgrows hrun hW =>
    obtain ⟨hj, hlive, hname⟩ := lookup_lt hl
    obtain ⟨htotal, -, -, hmounted⟩ := hW.smeared.fields
    obtain ⟨hr, hbytes⟩ := h.moved hmax hl input (hsmall j hl) hrun hW
    have hfiles := h.files_replace hj hr fun _ => rfl
    have hsame : (relocated (V.entry j) start offset count).nameBytes = name := hname
    rw [hsame, hbytes] at hfiles
    rw [files_of_lookup hl]
    exact ⟨⟨h.replace hj hr, hmounted, htotal⟩, fileCount_moves hr.toMoves hlive,
      .inr ⟨rfl, hfiles⟩⟩

end Volume

end AgenticOs
