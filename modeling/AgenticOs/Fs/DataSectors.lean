import AgenticOs.Fs.IoErrors
import AgenticOs.Lib.Trace

/-!
# Which sectors the data loops touch

The loops of `simplefs_read` and `simplefs_write` go from byte to byte of a file and compute the sector of
each (`sectorOf`). These are sectors of the extent as long as the bytes are below the capacity of the extent,
and the loops themselves do not check that: `simplefs_write` relies on the capacity having been made large
enough, and `simplefs_read` on the size in the directory entry.

* **Loops** (`adds_readLoop`, `adds_writeLoop`): they touch only sectors of the bytes they are given, and on a
  device that works they come to the sector of the last byte (`readLoop_last`, `writeLoop_last`).
* **Writes** (`data_writes_stay_iff`): the data of a write stay in the extent of the file except when the
  number of sectors it needs wraps to zero (`Overruns`), as for four gigabytes less one byte
  (`data_writes_leave_extent`).
* **Reads** (`mounted_reads_stay_iff`): on an image that a mount accepts, extents lie in the data sectors and
  do not overlap; reads stay in them except when the size in an entry is larger than its extent (`ReadsPast`),
  which no mount checks (`mounted_reads_leave_extent`).
-/

namespace AgenticOs

open Function Lib Lib.StM Volume

variable {d : Nat} {s s' s1 s2 : SimpleFs} {V : Volume} {name : List Byte} {i j p : Nat}
  {e e' : DirEntry} {path : Option CString} {offset count done : Nat}

namespace SimpleFs

/-- The sector of byte `p` of the file of an entry. -/
def sectorOf (e : DirEntry) (p : Nat) : Nat := (e.startSector + p / sectorSize) % wordSize

/-- A byte below the capacity of an extent is in the extent. -/
theorem holds_sectorOf (hext : V.ExtentOk e) (hmax : V.total ≤ simplefsMaxTrackedSectors)
    (hp : p < sectorSize * e.allocatedSectors) : e.Holds (sectorOf e p) := by
  have hidx : p / sectorSize < e.allocatedSectors := Nat.div_lt_of_lt_mul hp
  obtain ⟨-, hhigh⟩ := hext.resolve_left (Nat.pos_iff_ne_zero.mp (Nat.zero_lt_of_lt hidx))
  have hword : e.startSector + p / sectorSize < wordSize := by
    simp only [simplefsMaxTrackedSectors, sectorSize, wordSize] at *
    omega
  unfold sectorOf
  rw [Nat.mod_eq_of_lt hword]
  exact ⟨Nat.le_add_right _ _, Nat.add_lt_add_left hidx _⟩

/-- And no other byte is. -/
theorem not_holds_sectorOf (hstart : e.startSector < wordSize) (hp : p < wordSize)
    (hover : sectorSize * e.allocatedSectors ≤ p) : ¬ e.Holds (sectorOf e p) := by
  have hidx : e.allocatedSectors ≤ p / sectorSize := by
    rw [Nat.le_div_iff_mul_le (by decide), Nat.mul_comm]
    exact hover
  have hlt : p / sectorSize < wordSize := Nat.lt_of_le_of_lt (Nat.div_le_self _ _) hp
  rintro ⟨hlow, hhigh⟩
  unfold sectorOf at hlow hhigh
  rcases Nat.lt_or_ge (e.startSector + p / sectorSize) wordSize with hc | hc
  · rw [Nat.mod_eq_of_lt hc] at hhigh
    omega
  · -- the sector number wraps to one before the extent
    rw [Nat.mod_eq_sub_mod hc, Nat.mod_eq_of_lt (by omega)] at hlow
    omega

/-! ### The loops -/

/-- **`read_sector`** -/
theorem adds_readSector {P : Access → Prop} {lba : Nat} (h : P (.read lba)) :
    Adds log P (readSector lba) := by
  intro s
  unfold readSector
  rcases s.simplefsDev with _ | dev
  · exact ⟨[], rfl, fun _ h => nomatch h⟩
  · refine ⟨[.read lba], ?_, fun a ha => ?_⟩
    · dsimp only
      split <;> rfl
    · rw [List.mem_singleton.mp ha]
      exact h

/-- **`write_sector`** -/
theorem adds_writeSector {P : Access → Prop} {lba : Nat} {sector : Sector} (h : P (.write lba)) :
    Adds log P (writeSector lba sector) := by
  intro s
  unfold writeSector
  rcases s.simplefsDev with _ | dev
  · exact ⟨[], rfl, fun _ h => nomatch h⟩
  · refine ⟨[.write lba], ?_, fun a ha => ?_⟩
    · dsimp only
      split <;> rfl
    · rw [List.mem_singleton.mp ha]
      exact h

/-- The loop of `simplefs_read` reads sectors of the bytes asked for. -/
theorem adds_readLoop (hsum : offset + count ≤ wordSize) (done : Nat) :
    Adds log (fun a => ∃ p, offset ≤ p ∧ p < offset + count ∧ a = .read (sectorOf e p))
      (readLoop e offset count done) := by
  induction done using readLoop.induct offset count with
  | case1 done hlt absolute sectorOffset chunk ih =>
    rw [readLoop, if_pos hlt]
    have hmod : (offset + done) % wordSize = offset + done := Nat.mod_eq_of_lt (by omega)
    refine (adds_readSector ⟨offset + done, by omega, by omega, ?_⟩).bind fun _ =>
      ih.bind fun _ => Adds.pure _
    rw [hmod]
    rfl
  | case2 done hlt =>
    rw [readLoop, if_neg hlt]
    exact Adds.pure _

/-- The loop of `simplefs_write` touches sectors of the bytes given. -/
theorem adds_writeLoop (input : Nat → Byte) (hsum : offset + count ≤ wordSize) (done : Nat) :
    Adds log (fun a => ∃ p, offset ≤ p ∧ p < offset + count ∧
      (a = .read (sectorOf e p) ∨ a = .write (sectorOf e p)))
      (writeLoop e offset input count done) := by
  induction hn : count - done using Nat.strong_induction_on generalizing done with
  | _ n ih =>
    subst hn
    rw [writeLoop]
    by_cases hlt : done < count
    · rw [if_pos hlt]
      have hpos := chunkAt_pos offset hlt
      have hchunk : min (count - done) (sectorSize - (offset + done) % wordSize % sectorSize) =
          chunkAt offset count done := rfl
      have hsector : sectorOf e (offset + done) =
          (e.startSector + (offset + done) % wordSize / sectorSize) % wordSize := by
        unfold sectorOf
        rw [Nat.mod_eq_of_lt (a := offset + done) (by omega)]
      have hrest := ih _ (by omega) (done + chunkAt offset count done) rfl
      dsimp only
      rw [hchunk, ← hsector]
      split
      · refine (adds_readSector ⟨offset + done, by omega, by omega, .inl rfl⟩).bind fun _ => ?_
        exact (adds_writeSector ⟨offset + done, by omega, by omega, .inr rfl⟩).bind fun _ => hrest
      · exact (adds_writeSector ⟨offset + done, by omega, by omega, .inr rfl⟩).bind fun _ => hrest
    · rw [if_neg hlt]
      exact Adds.pure _

/-! ### The loops on a device that works -/

/-- One more call of the device. -/
def logged (s : SimpleFs) (a : Access) : SimpleFs := { s with log := a :: s.log }

/-- A sector with new contents. -/
def stored (s : SimpleFs) (d lba : Nat) (sector : Sector) : SimpleFs :=
  { s with disk := update s.disk d (update (s.disk d) lba sector) }

/-- **`read_sector`** of a device that works -/
theorem readSector_works (hdev : s.simplefsDev = some d) (hf : s.faults = .none) (lba : Nat) :
    readSector lba s = (.ok (s.disk d lba), s.logged (.read lba)) := by
  obtain ⟨devices, disk, faults, log, dev, sb, mounted, used⟩ := s
  cases hdev
  cases hf
  rfl

/-- **`write_sector`** of a device that works -/
theorem writeSector_works (hdev : s.simplefsDev = some d) (hf : s.faults = .none) (lba : Nat)
    (sector : Sector) :
    writeSector lba sector s = (.ok (), (s.stored d lba sector).logged (.write lba)) := by
  obtain ⟨devices, disk, faults, log, dev, sb, mounted, used⟩ := s
  cases hdev
  cases hf
  rfl

/-- Calls that come before those of a log. -/
theorem logged_append {a b : Access} {l : List Access} (hl : s'.log = l ++ (s.logged a).log)
    (hmem : b ∈ l) : ∃ l, s'.log = l ++ s.log ∧ b ∈ l :=
  ⟨l ++ [a], by rw [hl, List.append_assoc]; rfl, List.mem_append_left _ hmem⟩

/-- The last chunk is in the sector of the last byte. -/
theorem last_sector (hsum : offset + count ≤ wordSize) (hlt : done < count)
    (hlast : ¬ done + chunkAt offset count done < count) :
    sectorOf e (offset + count - 1) =
      (e.startSector + (offset + done) % wordSize / sectorSize) % wordSize := by
  have hmod : (offset + done) % wordSize = offset + done := Nat.mod_eq_of_lt (by omega)
  unfold sectorOf
  unfold chunkAt at hlast
  rw [hmod] at hlast ⊢
  rw [show (offset + count - 1) / sectorSize = (offset + done) / sectorSize by
    simp only [sectorSize] at *
    omega]

/-- The loop of `simplefs_read` comes to the sector of the last byte. -/
theorem readLoop_last (hdev : s.simplefsDev = some d) (hf : s.faults = .none)
    (hsum : offset + count ≤ wordSize) (hlt : done < count) :
    ∃ l, (readLoop e offset count done s).2.log = l ++ s.log ∧
      .read (sectorOf e (offset + count - 1)) ∈ l := by
  induction hn : count - done using Nat.strong_induction_on generalizing done s with
  | _ n ih =>
    subst hn
    have hmod : (offset + done) % wordSize = offset + done := Nat.mod_eq_of_lt (by omega)
    have hpos := chunkAt_pos offset hlt
    have hchunk : min (count - done) (sectorSize - (offset + done) % wordSize % sectorSize) =
        chunkAt offset count done := rfl
    rw [readLoop, if_pos hlt]
    rw [bind_ok (readSector_works hdev hf _), hchunk, bind_pure_state]
    by_cases hmore : done + chunkAt offset count done < count
    · obtain ⟨l, hl, hmem⟩ := ih _ (by omega) (s := s.logged _) hdev hf hmore rfl
      exact logged_append hl hmem
    · rw [readLoop, if_neg hmore]
      refine ⟨[_], rfl, ?_⟩
      rw [List.mem_singleton, last_sector hsum hlt hmore]

/-- And so does the loop of `simplefs_write`. -/
theorem writeLoop_last (input : Nat → Byte) (hdev : s.simplefsDev = some d) (hf : s.faults = .none)
    (hsum : offset + count ≤ wordSize) (hlt : done < count) :
    ∃ l, (writeLoop e offset input count done s).2.log = l ++ s.log ∧
      .write (sectorOf e (offset + count - 1)) ∈ l := by
  induction hn : count - done using Nat.strong_induction_on generalizing done s with
  | _ n ih =>
    subst hn
    have hpos := chunkAt_pos offset hlt
    rw [writeLoop, if_pos hlt]
    dsimp only
    have hchunk : min (count - done) (sectorSize - (offset + done) % wordSize % sectorSize) =
        chunkAt offset count done := rfl
    rw [hchunk]
    -- the rest of the loop after the sector is written
    have hrest : ∀ (sector : Sector) (s : SimpleFs), s.simplefsDev = some d → s.faults = .none →
        ∃ l, ((writeSector ((e.startSector + (offset + done) % wordSize / sectorSize) % wordSize)
            (memcpy sector ((offset + done) % wordSize % sectorSize) (fun k => input (done + k))
              (chunkAt offset count done)) >>= fun _ =>
          writeLoop e offset input count (done + chunkAt offset count done)) s).2.log =
            l ++ s.log ∧ .write (sectorOf e (offset + count - 1)) ∈ l := by
      intro sector s hdev hf
      rw [bind_ok (writeSector_works hdev hf _ _)]
      by_cases hmore : done + chunkAt offset count done < count
      · obtain ⟨l, hl, hmem⟩ := ih _ (by omega) (s := (s.stored d _ _).logged _) hdev hf hmore rfl
        exact logged_append (s := s.stored d _ _) hl hmem
      · rw [writeLoop, if_neg hmore]
        refine ⟨[_], rfl, ?_⟩
        rw [List.mem_singleton, last_sector hsum hlt hmore]
    split
    · rw [bind_ok (readSector_works hdev hf _)]
      obtain ⟨l, hl, hmem⟩ := hrest _ (s.logged _) hdev hf
      exact logged_append hl hmem
    · exact hrest zeroSector s hdev hf

end SimpleFs

/-! ### Entries found, and room made -/

namespace Volume

/-- The entry that a successful search finds. -/
theorem findEntry_ok (hs : Holds d s V) (h : SimpleFs.findEntry name s = (.ok (i, e), s')) :
    V.lookup name = some i ∧ e = V.entry i ∧ Holds d s' V := by
  have hfind := findEntry_uses (d := d) (V := V) (E := fun _ => True) name trivial
  by_cases hc : s.faults.Clear (V.nameReads name) 0
  · obtain ⟨s'', hrun, hs', -⟩ := (hfind s hs).1 hc
    rw [h] at hrun
    rcases hl : V.lookup name with _ | j
    · rw [hl] at hrun
      cases hrun
    · rw [hl] at hrun
      cases hrun
      exact ⟨rfl, rfl, hs'⟩
  · obtain ⟨s'', _, hrun, -⟩ := (hfind s hs).2 hc
    rw [h] at hrun
    cases hrun

/-- On a device that works the search succeeds. -/
theorem findEntry_works (hs : Holds d s V) (hf : s.faults = .none) (hl : V.lookup name = some j) :
    ∃ s', SimpleFs.findEntry name s = (.ok (j, V.entry j), s') ∧ Holds d s' V ∧
      s'.faults = .none := by
  have hfind := findEntry_uses (d := d) (V := V) (E := fun _ => True) name trivial
  rw [hl] at hfind
  exact hfind.run hs hf

/-- A file that is written keeps its extent, or gets a free run. -/
theorem ensureCapacity_ok (hs : Holds d s V) (hfits : e.Fits) (hsum : offset + count < wordSize)
    (hpos : 0 < count)
    (h : SimpleFs.ensureCapacity e (required e offset count) s = (.ok e', s')) :
    required e offset count ≤ e.allocatedSectors ∧ e' = e ∨
      Small e offset count ∧ ∃ start, V.freeRun (required e offset count) = some start ∧
        e' = { e with startSector := start, allocatedSectors := required e offset count } := by
  obtain ⟨hlow, hmax⟩ := hs.total_bounds
  by_cases hroom : required e offset count ≤ e.allocatedSectors
  · obtain ⟨s'', hrun, -⟩ := (ensureCapacity_fits (d := d) (V := V) (E := fun _ => True) hroom s
      hs).1 Faults.clear_zero
    rw [h] at hrun
    cases hrun
    exact .inl ⟨hroom, rfl⟩
  · have hgrows : e.allocatedSectors < required e offset count := by omega
    have hsmall := small_of_required hfits hsum hpos (by omega)
    rcases hfree : V.freeRun (required e offset count) with _ | start
    · obtain ⟨s'', hrun, -⟩ := (ensureCapacity_full (d := d) (E := fun _ => True) hmax
        (Nat.le_of_lt hlow) hgrows hfree s hs).1 Faults.clear_zero
      rw [h] at hrun
      cases hrun
    · obtain ⟨W, -, hmoves⟩ := ensureCapacity_moves (d := d) hmax (Nat.le_of_lt hlow) hgrows hfree
        hsmall.copies_le
      by_cases hc : s.faults.Clear (copies e) (1 + (required e offset count + copies e))
      · obtain ⟨s'', hrun, -⟩ := (hmoves s hs).1 hc
        rw [h] at hrun
        cases hrun
        exact .inr ⟨hsmall, start, rfl, rfl⟩
      · obtain ⟨s'', _, hrun, -⟩ := (hmoves s hs).2 hc
        rw [h] at hrun
        cases hrun

/-- A size that is rounded up past the end of the 32-bit range asks for no sectors. -/
theorem required_wraps (hfits : e.Fits) (hsum : offset + count < wordSize)
    (hwraps : wordSize < grownSize e offset count + sectorSize) : required e offset count = 0 := by
  by_contra hc
  have hpos : 0 < offset + count ∨ 0 < e.sizeBytes := by
    unfold grownSize at hwraps
    simp only [wordSize, sectorSize] at *
    omega
  have hsize : e.sizeBytes < wordSize := hfits.field 1
  unfold required SimpleFs.sectorsForBytes at hc
  unfold grownSize at *
  rw [if_neg (by omega)] at hc
  simp only [sectorSize, wordSize] at *
  omega

end Volume

/-! ### `simplefs_write` -/

/-- A call of `simplefs_write` that finds entry `index` and has the extent of `e` for it by then: its
data loop asks the device to write sector `lba`. -/
def SimpleFs.WritesData (s : SimpleFs) (path : Option CString) (offset : Nat) (input : Nat → Byte)
    (count index : Nat) (e : DirEntry) (lba : Nat) : Prop :=
  ∃ name entry s1 s2 l, normalizePath path = some name ∧
    findEntry name s = (.ok (index, entry), s1) ∧
    ensureCapacity entry (required entry offset count) s1 = (.ok e, s2) ∧
    (writeLoop e offset input count 0 s2).2.log = l ++ s2.log ∧ .write lba ∈ l

namespace Volume

/-- A write whose end, or the size of its file, is so near the end of the 32-bit range that the
number of sectors it needs is computed as zero, and that ends behind the extent of the file. -/
def Overruns (V : Volume) (path : Option CString) (offset count : Nat) : Prop :=
  ∃ name j, SimpleFs.normalizePath path = some name ∧ V.lookup name = some j ∧ 0 < count ∧
    wordSize < grownSize (V.entry j) offset count + sectorSize ∧
    sectorSize * (V.entry j).allocatedSectors < offset + count

/-- The last sector of such a write is not in the extent. -/
theorem Overruns.writes (h : V.Overruns path offset count) (hs : Holds d s V) (hf : s.faults = .none)
    (input : Nat → Byte) (hsum : offset + count < wordSize) :
    ∃ index e lba, s.WritesData path offset input count index e lba ∧ ¬ e.Holds lba := by
  obtain ⟨name, j, hpath, hl, hpos, hwraps, hover⟩ := h
  obtain ⟨s1, hrun, hs1, hf1⟩ := findEntry_works hs hf hl
  have hzero := required_wraps (V.entry_fits j) hsum hwraps
  have hroom : required (V.entry j) offset count ≤ (V.entry j).allocatedSectors := by omega
  obtain ⟨s2, hensure, hs2, hf2⟩ :=
    (ensureCapacity_fits (d := d) (V := V) (E := fun _ => True) hroom).run hs1 hf1
  obtain ⟨l, hlog, hmem⟩ := SimpleFs.writeLoop_last (e := V.entry j) input hs2.dev hf2
    (Nat.le_of_lt hsum) hpos
  refine ⟨j, V.entry j, _, ⟨name, _, s1, s2, l, hpath, hrun, hensure, hlog, hmem⟩, ?_⟩
  exact SimpleFs.not_holds_sectorOf ((V.entry_fits j).field 0) (by omega) (by omega)

/-- Other writes stay in the extent. -/
theorem Laid.writes (h : V.Laid simplefsMaxFiles) (hs : Holds d s V) {input : Nat → Byte}
    (hsum : offset + count < wordSize) (hno : ¬ V.Overruns path offset count)
    {index lba : Nat} (hw : s.WritesData path offset input count index e lba) :
    V.ExtentOk e ∧ e.Holds lba ∧ (V.Marks V.used simplefsMaxFiles →
      ∀ i < simplefsMaxFiles, i ≠ index → (V.entry i).Live → ¬ (V.entry i).Holds lba) := by
  obtain ⟨name, entry, s1, s2, l, hpath, hfind, hensure, hlog, hmem⟩ := hw
  obtain ⟨hl, rfl, hs1⟩ := findEntry_ok hs hfind
  obtain ⟨hj, hlive, -⟩ := lookup_lt hl
  obtain ⟨-, hmax⟩ := hs.total_bounds
  -- the loop writes some sector, so there are bytes to write
  obtain ⟨l', hlog', hall⟩ := SimpleFs.adds_writeLoop (e := e) input
    (Nat.le_of_lt hsum) 0 s2
  rw [hlog] at hlog'
  obtain rfl := List.append_cancel_right hlog'
  obtain ⟨p, hp1, hp2, hread | hwrite⟩ := hall _ hmem
  · cases hread
  cases hwrite
  have hpos : 0 < count := by omega
  rcases ensureCapacity_ok hs1 (V.entry_fits index) hsum hpos hensure with
    ⟨hfits, rfl⟩ | ⟨hsmall, start, hfree, rfl⟩
  · have hroom : offset + count ≤ sectorSize * (V.entry index).allocatedSectors := by
      by_cases hwraps : wordSize < grownSize (V.entry index) offset count + sectorSize
      · by_contra hover
        exact hno ⟨name, index, hpath, hl, hpos, hwraps, by omega⟩
      · have hsmall : Small (V.entry index) offset count := ⟨by omega, hpos⟩
        exact Nat.le_trans (Nat.le_max_right _ _)
          (Nat.le_trans hsmall.fits (Nat.mul_le_mul_left _ hfits))
    have hext := h.extent index hj hlive
    have hin := SimpleFs.holds_sectorOf (p := p) hext hmax (by omega)
    exact ⟨hext, hin, fun _ i hi hne hil hx => h.disjoint i hi index hj hne hil hlive _ hx hin⟩
  · obtain ⟨hstart, hend, hunused⟩ := freeRun_some hfree
    have hext : V.ExtentOk { V.entry index with
        startSector := start
        allocatedSectors := required (V.entry index) offset count } := .inr ⟨hstart, hend⟩
    have hin := SimpleFs.holds_sectorOf (p := p) hext hmax
      (Nat.lt_of_lt_of_le hp2 (Nat.le_trans (Nat.le_max_right _ _) hsmall.fits))
    refine ⟨hext, hin, fun hm i hi _ hil hx => ?_⟩
    have hused := (hm _).mpr (.inr ⟨i, hi, hil, hx⟩)
    rw [hunused _ hin] at hused
    cases hused

end Volume

/-- **When the data of a write stay in the file.** For a volume whose extents lie in the data sectors
and do not overlap, and a write whose end does not wrap: in every state that holds the volume, and
whatever sectors fail, all sectors that the data loop writes belong to the extent that the file has
in the call, which lies in the data sectors, and to no other file, exactly unless the write
overruns. -/
theorem data_writes_stay_iff {d : Nat} {V : Volume} (hlow : simplefsDataStart < V.total)
    (hmax : V.total ≤ simplefsMaxTrackedSectors) (h : V.Laid simplefsMaxFiles)
    (path : Option CString) (input : Nat → Byte) (offset count : Word)
    (hsum : offset.toNat + count.toNat < wordSize) :
    (∀ s, Holds d s V → ∀ index e lba,
      s.WritesData path offset.toNat input count.toNat index e lba →
      V.ExtentOk e ∧ e.Holds lba ∧ (V.Marks V.used simplefsMaxFiles →
        ∀ i < simplefsMaxFiles, i ≠ index → (V.entry i).Live → ¬ (V.entry i).Holds lba)) ↔
      ¬ V.Overruns path offset.toNat count.toNat := by
  constructor
  · intro hall hover
    have hs : Holds d (SimpleFs.ofVolume d V .none) V := holds_ofVolume hlow hmax
    obtain ⟨index, e, lba, hw, hout⟩ := hover.writes hs rfl input hsum
    exact hout (hall _ hs index e lba hw).2.1
  · intro hno s hs index e lba hw
    exact h.writes hs hsum hno hw

/-- Four gigabytes less one byte written to an empty file. -/
theorem data_writes_leave_extent :
    Holds 0 (SimpleFs.ofVolume 0 (oneFile 8 (fileA 0 0 0)) .none) (oneFile 8 (fileA 0 0 0)) ∧
    (oneFile 8 (fileA 0 0 0)).Agrees ∧
    ∃ index e lba, (SimpleFs.ofVolume 0 (oneFile 8 (fileA 0 0 0)) .none).WritesData
      (some [0x2F, 0x61]) 0 (fun _ => 7) 0xFFFFFFFF index e lba ∧ ¬ e.Holds lba := by
  have hs : Holds 0 (SimpleFs.ofVolume 0 (oneFile 8 (fileA 0 0 0)) .none)
      (oneFile 8 (fileA 0 0 0)) :=
    holds_ofVolume (show 5 < 8 by decide) (show 8 ≤ 4096 by decide)
  have hfits := fileA_fits 0 0 0
  have hlive := fileA_live 0 0 0
  have hl : (oneFile 8 _).lookup _ = some 0 := oneFile_lookup hfits hlive
  rw [fileA_nameBytes] at hl
  refine ⟨hs, oneFile_agrees hfits hlive (.inl rfl), ?_⟩
  have hover : (oneFile 8 (fileA 0 0 0)).Overruns (some [0x2F, 0x61]) 0 0xFFFFFFFF := by
    refine ⟨[0x61], 0, by decide, hl, by decide, ?_, ?_⟩
    · rw [oneFile_entry hfits]
      decide
    · rw [oneFile_entry hfits]
      decide
  exact hover.writes hs rfl _ (by decide)

/-- One byte written to it. -/
theorem data_writes_stay_small :
    (∀ s, Holds 0 s (oneFile 8 (fileA 0 0 0)) → ∀ index e lba,
      s.WritesData (some [0x2F, 0x61]) (0 : Word).toNat (fun _ => 7) (1 : Word).toNat index e lba →
      (oneFile 8 (fileA 0 0 0)).ExtentOk e ∧ e.Holds lba ∧
        ((oneFile 8 (fileA 0 0 0)).Marks (oneFile 8 (fileA 0 0 0)).used simplefsMaxFiles →
          ∀ i < simplefsMaxFiles, i ≠ index → ((oneFile 8 (fileA 0 0 0)).entry i).Live →
            ¬ ((oneFile 8 (fileA 0 0 0)).entry i).Holds lba)) ↔
      ¬ (oneFile 8 (fileA 0 0 0)).Overruns (some [0x2F, 0x61]) (0 : Word).toNat (1 : Word).toNat :=
  data_writes_stay_iff (show 5 < 8 by decide) (show 8 ≤ 4096 by decide)
    (agrees_iff.mp (oneFile_agrees (fileA_fits 0 0 0) (fileA_live 0 0 0) (.inl rfl))).1
    (some [0x2F, 0x61]) (fun _ => 7) 0 1 (by decide)

/-! ### `simplefs_read` of a volume that a mount accepts -/

/-- A call of `simplefs_read` that finds entry `index`, which is `e`, asks the device for sector `lba`
of the file's data. -/
def SimpleFs.ReadsData (s : SimpleFs) (path : Option CString) (offset count index : Nat)
    (e : DirEntry) (lba : Nat) : Prop :=
  ∃ name s1 l, normalizePath path = some name ∧ findEntry name s = (.ok (index, e), s1) ∧
    (readFound offset count (index, e) s1).2.log = l ++ s1.log ∧ .read lba ∈ l

/-- The same state with a device that fails differently. -/
def SimpleFs.withFaults (s : SimpleFs) (faults : Faults) : SimpleFs := { s with faults := faults }

namespace Volume

/-- A read that ends inside the size in the entry but behind the extent. -/
def ReadsPast (V : Volume) (path : Option CString) (offset count : Nat) : Prop :=
  ∃ name j, SimpleFs.normalizePath path = some name ∧ V.lookup name = some j ∧ 0 < count ∧
    offset < (V.entry j).sizeBytes ∧
    sectorSize * (V.entry j).allocatedSectors < min (offset + count) (V.entry j).sizeBytes

/-- A read of a file comes to the sector of its last byte. -/
theorem readsData_last {name : CString} {j : Nat} (hs : Holds d s V) (hf : s.faults = .none)
    (hpath : SimpleFs.normalizePath path = some name) (hl : V.lookup name = some j) (hpos : 0 < count)
    (hsize : offset < (V.entry j).sizeBytes) :
    s.ReadsData path offset count j (V.entry j)
      (SimpleFs.sectorOf (V.entry j) (offset + min count ((V.entry j).sizeBytes - offset) - 1)) := by
  obtain ⟨s1, hrun, hs1, hf1⟩ := findEntry_works hs hf hl
  have hword : (V.entry j).sizeBytes < wordSize := (V.entry_fits j).field 1
  obtain ⟨l, hlog, hmem⟩ := SimpleFs.readLoop_last (e := V.entry j) hs1.dev hf1
    (show offset + min count ((V.entry j).sizeBytes - offset) ≤ wordSize by omega)
    (show 0 < min count ((V.entry j).sizeBytes - offset) by omega)
  refine ⟨name, s1, l, hpath, hrun, ?_, hmem⟩
  have hsome : ¬ ((V.entry j).sizeBytes ≤ offset ∨ count = 0) := by omega
  unfold readFound
  rw [if_neg hsome]
  exact hlog

/-- The last sector of such a read is not in the extent. -/
theorem ReadsPast.reads (h : V.ReadsPast path offset count) (hs : Holds d s V)
    (hf : s.faults = .none) :
    ∃ index e lba, s.ReadsData path offset count index e lba ∧ ¬ e.Holds lba := by
  obtain ⟨name, j, hpath, hl, hpos, hsize, hover⟩ := h
  have hword : (V.entry j).sizeBytes < wordSize := (V.entry_fits j).field 1
  refine ⟨j, V.entry j, _, readsData_last hs hf hpath hl hpos hsize, ?_⟩
  exact SimpleFs.not_holds_sectorOf ((V.entry_fits j).field 0) (by omega) (by omega)

/-- Other reads stay in the extent. -/
theorem Agrees.reads (h : V.Agrees) (hs : Holds d s V) (hno : ¬ V.ReadsPast path offset count)
    {index lba : Nat} (hr : s.ReadsData path offset count index e lba) :
    e.Holds lba ∧ V.ExtentOk e ∧ V.used lba = true ∧
      ∀ i < simplefsMaxFiles, i ≠ index → (V.entry i).Live → ¬ (V.entry i).Holds lba := by
  obtain ⟨name, s1, l, hpath, hfind, hlog, hmem⟩ := hr
  obtain ⟨hl, rfl, hs1⟩ := findEntry_ok hs hfind
  obtain ⟨hj, hlive, -⟩ := lookup_lt hl
  obtain ⟨-, hmax⟩ := hs.total_bounds
  have hword : (V.entry index).sizeBytes < wordSize := (V.entry_fits index).field 1
  by_cases hnone : (V.entry index).sizeBytes ≤ offset ∨ count = 0
  · unfold readFound at hlog
    rw [if_pos hnone] at hlog
    obtain rfl := List.append_cancel_right (hlog.symm.trans (List.nil_append _).symm)
    cases hmem
  · unfold readFound at hlog
    rw [if_neg hnone] at hlog
    obtain ⟨l', hlog', hall⟩ := SimpleFs.adds_readLoop (e := V.entry index)
      (show offset + min count ((V.entry index).sizeBytes - offset) ≤ wordSize by omega) 0 s1
    rw [hlog] at hlog'
    obtain rfl := List.append_cancel_right hlog'
    obtain ⟨p, hp1, hp2, hread⟩ := hall _ hmem
    cases hread
    have hroom : min (offset + count) (V.entry index).sizeBytes ≤
        sectorSize * (V.entry index).allocatedSectors := by
      by_contra hover
      exact hno ⟨name, index, hpath, hl, by omega, by omega, by omega⟩
    have hext := h.extent index hj hlive
    have hin := SimpleFs.holds_sectorOf (p := p) hext hmax (by omega)
    exact ⟨hin, hext, (h.bitmap _).mpr (.inr ⟨index, hj, hlive, hin⟩),
      fun i hi hne hil hx => h.disjoint i hi index hj hne hil hlive _ hx hin⟩

/-- A mount that succeeds leaves a volume whose extents fit together, and its bitmap. -/
theorem mount_agrees (hmount : SimpleFs.simplefsMount (some d) s = (.ok (), s')) :
    Holds d s' (ofState d s') ∧ (ofState d s').Agrees ∧ s'.simplefsMounted = true := by
  rcases hv : SimpleFs.validateDev (s.devices d) with _ | _
  · have hrefused : SimpleFs.simplefsMount (some d) s = (.error vfsEinval, s) := by
      have hget : (StM.get : FsM SimpleFs) s = (.ok s, s) := rfl
      unfold SimpleFs.simplefsMount
      dsimp only
      rw [bind_ok hget, hv]
      rfl
    rw [hmount] at hrefused
    cases hrefused
  rw [SimpleFs.mount_eq hv] at hmount
  split at hmount
  · cases hmount
  split at hmount
  swap
  · cases hmount
  rename_i hval
  have hs := SimpleFs.attached_holds hv hval
  obtain ⟨hlow, hmax⟩ := hs.total_bounds
  set s0 := (s.loaded d).attached d
  rcases Volume.rebuildAllocationMap (d := d) (E := fun _ => True) hmax (Nat.le_of_lt hlow)
    (fun _ _ => trivial) with ⟨hlaid, top, used, h1, h2, hm, hrun⟩ | ⟨-, r, used, hrun⟩
  · by_cases hc : s0.faults.Clear simplefsMaxFiles 1
    · obtain ⟨s1, hrebuild, hs1, -⟩ := (hrun s0 hs).1 hc
      obtain ⟨hsettle, hs2⟩ := SimpleFs.settle_ok hrebuild hs1
      rw [hsettle] at hmount
      cases hmount
      rw [← eq_ofState hs2]
      exact ⟨hs2, hlaid.remounted hm, rfl⟩
    · obtain ⟨s1, _, hrebuild, -⟩ := (hrun s0 hs).2 hc
      rw [hrebuild] at hmount
      cases hmount
  · by_cases hc : s0.faults.Clear r 0
    · obtain ⟨s1, hrebuild, -⟩ := (hrun s0 hs).1 hc
      rw [hrebuild] at hmount
      cases hmount
    · obtain ⟨s1, _, hrebuild, -⟩ := (hrun s0 hs).2 hc
      rw [hrebuild] at hmount
      cases hmount

end Volume

/-- **What a mount guarantees to reads.** When `simplefs_mount` accepts the sectors of a device, the
extents of used entries lie in the data sectors and do not overlap. Whatever sectors fail afterwards,
all sectors that `simplefs_read` fetches for the data of a file are in the extent of the entry found,
marked in the bitmap and in no other extent, exactly unless the read ends inside the size in the
entry but behind the extent; the mount does not compare the two. -/
theorem mounted_reads_stay_iff {d : Nat} {s s' : SimpleFs}
    (hmount : SimpleFs.simplefsMount (some d) s = (.ok (), s')) :
    (ofState d s').Laid simplefsMaxFiles ∧
    ∀ path (offset count : Word),
      (∀ faults index e lba,
        (s'.withFaults faults).ReadsData path offset.toNat count.toNat index e lba →
        e.Holds lba ∧ (ofState d s').ExtentOk e ∧ s'.simplefsSectorUsed lba = true ∧
          ∀ i < simplefsMaxFiles, i ≠ index → ((ofState d s').entry i).Live →
            ¬ ((ofState d s').entry i).Holds lba) ↔
        ¬ (ofState d s').ReadsPast path offset.toNat count.toNat := by
  obtain ⟨hs, hagrees, -⟩ := mount_agrees hmount
  have hfaulty : ∀ faults, Holds d (s'.withFaults faults) (ofState d s') := fun _ => { hs with }
  refine ⟨(agrees_iff.mp hagrees).1, fun path offset count => ⟨fun hall hpast => ?_,
    fun hno faults index e lba hr => hagrees.reads (hfaulty faults) hno hr⟩⟩
  obtain ⟨index, e, lba, hr, hout⟩ := hpast.reads (hfaulty .none) rfl
  exact hout (hall .none index e lba hr).1

/-- Sectors with a file of one sector whose entry gives it a size. -/
def imageOf (size : Word) : SimpleFs :=
  SimpleFs.ofVolume 0 (oneFile 8 (fileA 5 size 1)).writeSuper .none

/-- The image is mounted. -/
theorem imageOf_mounts (size : Word) :
    ∃ s', SimpleFs.simplefsMount (some 0) (imageOf size) = (.ok (), s') ∧ s'.faults = .none ∧
      (ofState 0 s').lookup [0x61] = some 0 ∧ (ofState 0 s').entry 0 = fileA 5 size 1 := by
  have hfits := fileA_fits 5 size 1
  have hlive := fileA_live 5 size 1
  have hentry : ∀ i < simplefsMaxFiles, (oneFile 8 (fileA 5 size 1)).writeSuper.entry i =
      (oneFile 8 (fileA 5 size 1)).entry i := fun i hi => entry_write (.inl (Nat.le_refl _)) hi
  have hl : (oneFile 8 _).lookup _ = some 0 := oneFile_lookup hfits hlive
  rw [fileA_nameBytes] at hl
  have hbefore : (oneFile 8 (fileA 5 size 1)).Agrees :=
    oneFile_agrees hfits hlive (.inr ⟨show 5 ≤ 5 by decide, show 5 + 1 ≤ 8 by decide⟩)
  have hlaid : (oneFile 8 (fileA 5 size 1)).writeSuper.Laid simplefsMaxFiles := by
    constructor
    · intro i hi
      rw [hentry i hi]
      exact hbefore.extent i hi
    · intro i hi j hj
      rw [hentry i hi, hentry j hj]
      exact hbefore.disjoint i hi j hj
  obtain ⟨s', used, top, hmount, hf, hs', -⟩ := SimpleFs.mount_run (s := imageOf size) (d := 0)
    (V := (oneFile 8 (fileA 5 size 1)).writeSuper) rfl
    (holds_ofVolume (d := 0) (V := (oneFile 8 (fileA 5 size 1)).writeSuper) (show 5 < 8 by decide)
      (show 8 ≤ 4096 by decide)).device rfl (fun _ _ _ => rfl) (writeSuper_superOk (show 5 ≤ 8 by decide)
      (show 8 ≤ 8 by decide)) hlaid
  refine ⟨s', hmount, hf, ?_, ?_⟩
  · rw [← eq_ofState hs', remounted_lookup, ← hl]
    exact lookup_congr hentry
  · rw [← eq_ofState hs', remounted_entry (by decide), hentry 0 (by decide), oneFile_entry hfits]

/-- A file of two sectors' size with an extent of one: the second sector read is free. -/
theorem mounted_reads_leave_extent :
    ∃ s', SimpleFs.simplefsMount (some 0) (imageOf 1024) = (.ok (), s') ∧
      ∃ index e lba, s'.ReadsData (some [0x2F, 0x61]) 0 1024 index e lba ∧ ¬ e.Holds lba := by
  obtain ⟨s', hmount, hf, hl, hentry⟩ := imageOf_mounts 1024
  obtain ⟨hs, -⟩ := mount_agrees hmount
  have hpast : (ofState 0 s').ReadsPast (some [0x2F, 0x61]) 0 1024 := by
    refine ⟨[0x61], 0, by decide, hl, by decide, ?_, ?_⟩
    · rw [hentry]
      decide
    · rw [hentry]
      decide
  exact ⟨s', hmount, hpast.reads hs hf⟩

/-- A file that fits in its extent: its sector is read, and belongs to it. -/
theorem mounted_reads_stay_small :
    ∃ s', SimpleFs.simplefsMount (some 0) (imageOf 512) = (.ok (), s') ∧
      s'.ReadsData (some [0x2F, 0x61]) 0 512 0 (fileA 5 512 1) 5 ∧
        (fileA 5 512 1).Holds 5 ∧ s'.simplefsSectorUsed 5 = true := by
  obtain ⟨s', hmount, hf, hl, hentry⟩ := imageOf_mounts 512
  obtain ⟨hs, -⟩ := mount_agrees hmount
  have hread : s'.ReadsData (some [0x2F, 0x61]) 0 512 0 (fileA 5 512 1) 5 := by
    have hpath : SimpleFs.normalizePath (some [0x2F, 0x61]) = some [0x61] := by decide
    have hsize : 0 < ((ofState 0 s').entry 0).sizeBytes := by
      rw [hentry]
      decide
    have hlast := readsData_last hs hf hpath hl (show 0 < 512 by decide) hsize
    rw [hentry] at hlast
    exact hlast
  have hno : ¬ (ofState 0 s').ReadsPast (some [0x2F, 0x61]) (0 : Word).toNat (512 : Word).toNat := by
    rintro ⟨name, j, hpath, hl', -, -, hover⟩
    obtain rfl : [0x61] = name := Option.some.inj hpath
    obtain rfl : 0 = j := Option.some.inj (hl.symm.trans hl')
    rw [hentry] at hover
    exact absurd hover (by decide)
  have hsame : s'.withFaults .none = s' := by
    unfold SimpleFs.withFaults
    rw [← hf]
  obtain ⟨hin, -, hused, -⟩ := ((mounted_reads_stay_iff hmount).2 (some [0x2F, 0x61]) 0 512).mpr hno .none 0 _ 5
    (hsame.symm ▸ hread)
  exact ⟨s', hmount, hread, hin, hused⟩

end AgenticOs
