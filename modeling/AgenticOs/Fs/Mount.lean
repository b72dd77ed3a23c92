import AgenticOs.Fs.FileWrite

/-!
# Formatting and mounting

`simplefs_rebuild_allocation_map` computes the bitmap from the directory, `simplefs_mount` accepts a
superblock and rebuilds the bitmap, and `simplefs_format` writes an empty file system.

* **Directories** (`Laid`): entries with extents inside the data sectors that do not overlap. The rebuilding
  marks them all, or fails at the first entry that is out of place (`rebuildFrom`, `rebuildAllocationMap`);
  there is one bitmap only that agrees with a directory (`Marks.unique`).
* **Superblocks** (`superblockValid_iff`): the accepted ones are the standard one up to the high-water mark.
* **Mounts** (`mount_run`): mounting sectors that hold a superblock and a directory whose extents fit
  together. Whatever was in memory before is replaced.
* **Formats** (`format_run`): formatting a device that works leaves a consistent volume without files.

`ofState` reads the volume off any state; `mount_eq` and `format_eq` say where the two calls stop otherwise.
-/

namespace AgenticOs

open Function Lib Lib.StM

namespace Volume

variable {d : Nat} {V U : Volume} {i j n : Nat} {e : DirEntry} {name : List Byte}
  {E : Volume → Prop} {s : SimpleFs} {start count : Nat} {used : Nat → Bool}

/-! ### The bitmap of a directory -/

/-- The first `n` entries have extents inside the data sectors that do not overlap. -/
structure Laid (V : Volume) (n : Nat) : Prop where
  extent : ∀ i < n, (V.entry i).Live → V.ExtentOk (V.entry i)
  disjoint : ∀ i < n, ∀ j < n, i ≠ j → (V.entry i).Live → (V.entry j).Live →
    ∀ x, (V.entry i).Holds x → ¬ (V.entry j).Holds x

/-- A bitmap marks the first sectors and the extents of the first `n` entries. -/
def Marks (V : Volume) (used : Nat → Bool) (n : Nat) : Prop :=
  ∀ x, used x = true ↔ x < simplefsDataStart ∨ ∃ i < n, (V.entry i).Live ∧ (V.entry i).Holds x

/-- Agreement is a sound directory and the map of its runs. -/
theorem agrees_iff :
    V.Agrees ↔ V.Laid simplefsMaxFiles ∧ V.Marks V.used simplefsMaxFiles :=
  ⟨fun h => ⟨⟨h.extent, h.disjoint⟩, h.bitmap⟩, fun h => ⟨h.1.extent, h.1.disjoint, h.2⟩⟩

/-- Two bitmaps of the same directory are the same. -/
theorem Marks.unique {used' : Nat → Bool} (h : V.Marks used n) (h' : V.Marks used' n) :
    used = used' := by
  funext x
  rw [Bool.eq_iff_iff, h x, h' x]

/-- Fewer entries. -/
theorem Laid.mono (h : V.Laid n) (hi : i ≤ n) : V.Laid i :=
  ⟨fun k hk => h.extent k (by omega), fun k hk l hl => h.disjoint k (by omega) l (by omega)⟩

/-- One more entry. -/
theorem laid_succ : V.Laid (n + 1) ↔ V.Laid n ∧ ((V.entry n).Live → V.ExtentOk (V.entry n) ∧
    ∀ i < n, (V.entry i).Live → ∀ x, (V.entry i).Holds x → ¬ (V.entry n).Holds x) := by
  constructor
  · intro h
    exact ⟨h.mono (by omega), fun hl => ⟨h.extent n (by omega) hl, fun i hi hil =>
      h.disjoint i (by omega) n (by omega) (by omega) hil hl⟩⟩
  · rintro ⟨h, hn⟩
    constructor
    · intro i hi hil
      by_cases hin : i = n
      · subst hin
        exact (hn hil).1
      · exact h.extent i (by omega) hil
    · intro i hi j hj hij hil hjl x hx
      by_cases hin : i = n
      · subst hin
        exact fun hx' => (hn hil).2 j (by omega) hjl x hx' hx
      · by_cases hjn : j = n
        · subst hjn
          exact (hn hjl).2 i (by omega) hil x hx
        · exact h.disjoint i (by omega) j (by omega) hij hil hjl x hx

/-- An entry that is not skipped has sectors. -/
theorem not_live_or_empty (h : ¬ (e.used = 0 ∨ e.allocatedSectors = 0)) :
    e.Live ∧ 0 < e.allocatedSectors := by
  rw [not_or] at h
  exact ⟨h.1, by omega⟩

/-- An entry without sectors changes nothing. -/
theorem Marks.skip (h : V.Marks used n)
    (hskip : (V.entry n).used = 0 ∨ (V.entry n).allocatedSectors = 0) :
    V.Marks used (n + 1) := by
  intro x
  rw [h x]
  apply or_congr_right
  constructor
  · rintro ⟨i, hi, hx⟩
    exact ⟨i, by omega, hx⟩
  · rintro ⟨i, hi, hl, hx⟩
    refine ⟨i, ?_, hl, hx⟩
    rcases Nat.lt_or_ge i n with hin | hin
    · exact hin
    · obtain rfl : i = n := by omega
      rcases hskip with hz | hz
      · exact absurd hz hl
      · exact absurd hx (not_holds_of_empty hz x)

/-- An entry that is skipped. -/
theorem Laid.skip (h : V.Laid n)
    (hskip : (V.entry n).used = 0 ∨ (V.entry n).allocatedSectors = 0) : V.Laid (n + 1) := by
  rw [laid_succ]
  refine ⟨h, fun hl => ?_⟩
  have hz := hskip.resolve_left hl
  exact ⟨.inl hz, fun i _ _ x _ => not_holds_of_empty hz x⟩

/-- An entry whose extent is marked. -/
theorem Marks.mark (h : V.Marks used n) (hl : (V.entry n).Live) :
    V.Marks (fun x => used x || decide (Holds.inRun (V.entry n).startSector
      (V.entry n).allocatedSectors x)) (n + 1) := by
  intro x
  rw [Bool.or_eq_true, decide_eq_true_eq, h x]
  constructor
  · rintro ((hx | ⟨i, hi, hx⟩) | hx)
    · exact .inl hx
    · exact .inr ⟨i, by omega, hx⟩
    · exact .inr ⟨n, by omega, hl, hx⟩
  · rintro (hx | ⟨i, hi, hil, hx⟩)
    · exact .inl (.inl hx)
    · rcases Nat.lt_or_ge i n with hin | hin
      · exact .inl (.inr ⟨i, hin, hil, hx⟩)
      · obtain rfl : i = n := by omega
        exact .inr hx

/-- The extent of a further entry is free exactly when the entry fits in with the others. -/
theorem Laid.mark_iff (h : V.Laid n) (hm : V.Marks used n) (hl : (V.entry n).Live)
    (hsome : 0 < (V.entry n).allocatedSectors) :
    V.Laid (n + 1) ↔ (simplefsDataStart ≤ (V.entry n).startSector ∧
        (V.entry n).startSector + (V.entry n).allocatedSectors ≤ V.total) ∧
      ∀ x, (V.entry n).Holds x → used x = false := by
  rw [laid_succ]
  constructor
  · rintro ⟨-, hn⟩
    obtain ⟨hext, hdisj⟩ := hn hl
    have hin := hext.resolve_left (by omega)
    refine ⟨hin, fun x hx => ?_⟩
    rw [← Bool.not_eq_true, hm x]
    rintro (hlow | ⟨i, hi, hil, hx'⟩)
    · unfold DirEntry.Holds Holds.inRun at hx
      omega
    · exact hdisj i hi hil x hx' hx
  · rintro ⟨hin, hfree⟩
    refine ⟨h, fun _ => ⟨.inr hin, fun i hi hil x hx hx' => ?_⟩⟩
    have hused := (hm x).mpr (.inr ⟨i, hi, hil, hx⟩)
    rw [hfree x hx'] at hused
    cases hused

/-! ### `simplefs_mark_run_used` on a run that is not free -/

/-- The bounds of a run, as the code tests them. -/
theorem runOutside_iff (hs : Holds d s V) (hpos : 0 < count) :
    s.runOutside start count = true ↔
      ¬ (simplefsDataStart ≤ start ∧ start + count ≤ V.total) := by
  constructor
  · rintro hout ⟨hlow, hhigh⟩
    rw [Holds.runOutside_eq hs hlow hhigh hpos] at hout
    cases hout
  · intro hno
    obtain ⟨-, hmax⟩ := hs.total_bounds
    unfold SimpleFs.runOutside
    rw [hs.sb]
    show (decide (start < simplefsDataStart) || decide (V.total ≤ start) ||
      decide (SimpleFs.u32Sub V.total start < count)) = true
    rw [Bool.or_eq_true, Bool.or_eq_true, decide_eq_true_eq, decide_eq_true_eq, decide_eq_true_eq]
    rcases Nat.lt_or_ge start V.total with hlt | hge
    · rw [u32Sub_total hmax (by omega)]
      omega
    · exact .inl (.inr hge)

/-- Marking a run stops at a sector in use. -/
theorem markRunUsedFrom_taken (n start : Nat) (used : Nat → Bool)
    (h : ∃ x, Holds.inRun start n x ∧ used x = true) :
    ∃ used', Uses (onVolume d) (SimpleFs.markRunUsedFrom start n) (V.withUsed used) 0 0
      (.error vfsEio) (V.withUsed used') E := by
  induction n generalizing start used with
  | zero =>
    obtain ⟨x, hx, -⟩ := h
    unfold Holds.inRun at hx
    omega
  | succ n ih =>
    unfold SimpleFs.markRunUsedFrom
    rcases hu : used start with _ | _
    · obtain ⟨x, hx, hxu⟩ := h
      unfold Holds.inRun at hx
      have hne : x ≠ start := by
        rintro rfl
        rw [hu] at hxu
        cases hxu
      obtain ⟨used', hrest⟩ := ih (start + 1) (update used start true)
        ⟨x, ⟨by omega, by omega⟩, by rw [update_of_ne hne]; exact hxu⟩
      refine ⟨used', Uses.get_bind fun s hs => ?_⟩
      have hfree : s.simplefsSectorUsed start = false := by
        rw [hs.used]
        exact hu
      have hset : Uses (onVolume d) (StM.modify (·.sectorSet start)) (V.withUsed used) 0 0 (.ok ())
          (V.withUsed (update used start true)) E := by
        apply Uses.modify
        intro s hs
        refine ⟨{ hs with used := ?_ }, rfl⟩
        show update s.simplefsSectorUsed start true = _
        rw [hs.used]
        rfl
      rw [hfree, if_neg Bool.false_ne_true]
      exact hset.bind (f := fun _ => SimpleFs.markRunUsedFrom (start + 1) n) hrest
    · refine ⟨used, Uses.get_bind fun s hs => ?_⟩
      have htaken : s.simplefsSectorUsed start = true := by
        rw [hs.used]
        exact hu
      rw [if_pos htaken]
      exact (Uses.fail vfsEio).bind_error

/-! ### `simplefs_rebuild_allocation_map` -/

/-- The loop over the directory either marks all extents, or stops at one that is out of place. -/
theorem rebuildFrom (hmax : V.total ≤ simplefsMaxTrackedSectors) (n i highWater : Nat)
    (used : Nat → Bool) (hn : i + n = simplefsMaxFiles) (hlow : simplefsDataStart ≤ highWater)
    (hhigh : highWater ≤ V.total) (hl : V.Laid i) (hm : V.Marks used i)
    (hE : ∀ used, E (V.withUsed used)) :
    (V.Laid simplefsMaxFiles ∧ ∃ top used', simplefsDataStart ≤ top ∧ top ≤ V.total ∧
        V.Marks used' simplefsMaxFiles ∧
        Uses (onVolume d) (SimpleFs.rebuildFrom highWater i n) (V.withUsed used) n 0 (.ok top)
          (V.withUsed used') E) ∨
    (¬ V.Laid simplefsMaxFiles ∧ ∃ r used',
        Uses (onVolume d) (SimpleFs.rebuildFrom highWater i n) (V.withUsed used) r 0
          (.error vfsEio) (V.withUsed used') E) := by
  induction n generalizing i highWater used with
  | zero =>
    obtain rfl : i = simplefsMaxFiles := by omega
    exact .inl ⟨hl, highWater, used, hlow, hhigh, hm, Uses.pure highWater⟩
  | succ n ih =>
    have hread : Uses (onVolume d) (SimpleFs.readEntry i) (V.withUsed used) 1 0 (.ok (V.entry i))
        (V.withUsed used) E := Holds.readEntry (by omega) (hE used)
    unfold SimpleFs.rebuildFrom
    by_cases hskip : (V.entry i).used = 0 ∨ (V.entry i).allocatedSectors = 0
    · rcases ih (i + 1) highWater used (by omega) hlow hhigh (hl.skip hskip) (hm.skip hskip) with
        ⟨hall, top, used', h1, h2, h3, h4⟩ | ⟨hbad, r, used', h4⟩
      · refine .inl ⟨hall, top, used', h1, h2, h3, ?_⟩
        apply Uses.cast _ (Nat.add_comm 1 n) (Nat.zero_add 0)
        apply hread.bind
        rw [if_pos hskip]
        exact h4
      · refine .inr ⟨hbad, 1 + r, used', ?_⟩
        apply hread.bind (n := 0)
        rw [if_pos hskip]
        exact h4
    · obtain ⟨hlive, hsome⟩ := not_live_or_empty hskip
      by_cases hin : simplefsDataStart ≤ (V.entry i).startSector ∧
          (V.entry i).startSector + (V.entry i).allocatedSectors ≤ V.total
      · have hstop : ((V.entry i).startSector + (V.entry i).allocatedSectors) % wordSize =
            (V.entry i).startSector + (V.entry i).allocatedSectors := by
          apply Nat.mod_eq_of_lt
          simp only [simplefsMaxTrackedSectors, wordSize] at *
          omega
        by_cases hfree : ∀ x, (V.entry i).Holds x → used x = false
        · -- the extent is marked
          have hmark := Holds.markRunUsed (d := d) (V := V.withUsed used) (E := E) hin.1 hin.2 hsome
            hfree
          rcases ih (i + 1) (if highWater < (V.entry i).startSector + (V.entry i).allocatedSectors
              then (V.entry i).startSector + (V.entry i).allocatedSectors else highWater)
            (fun x => used x || decide (Holds.inRun (V.entry i).startSector
              (V.entry i).allocatedSectors x)) (by omega) (by split <;> omega)
            (by split <;> omega) ((hl.mark_iff hm hlive hsome).mpr ⟨hin, hfree⟩)
            (hm.mark hlive) with
            ⟨hall, top, used', h1, h2, h3, h4⟩ | ⟨hbad, r, used', h4⟩
          · refine .inl ⟨hall, top, used', h1, h2, h3, ?_⟩
            apply Uses.cast (r := 1 + (0 + n)) (w := 0 + (0 + 0)) _ (by omega) (by omega)
            apply hread.bind
            rw [if_neg hskip]
            apply Uses.get_bind
            intro s hs
            rw [Holds.runOutside_eq hs hin.1 hin.2 hsome, if_neg Bool.false_ne_true]
            apply hmark.bind
            rw [hstop]
            exact h4
          · refine .inr ⟨hbad, 1 + (0 + r), used', ?_⟩
            apply hread.bind (n := 0 + 0)
            rw [if_neg hskip]
            apply Uses.get_bind
            intro s hs
            rw [Holds.runOutside_eq hs hin.1 hin.2 hsome, if_neg Bool.false_ne_true]
            apply hmark.bind
            rw [hstop]
            exact h4
        · -- it overlaps an earlier one
          have htaken : ∃ x, Holds.inRun (V.entry i).startSector (V.entry i).allocatedSectors x ∧
              used x = true := by
            by_contra hno
            apply hfree
            intro x hx
            rw [← Bool.not_eq_true]
            exact fun hu => hno ⟨x, hx, hu⟩
          obtain ⟨used', hmark⟩ := markRunUsedFrom_taken (d := d) (V := V) (E := E) _ _ used htaken
          refine .inr ⟨fun hall => ?_, 1 + 0, used', ?_⟩
          · exact hfree ((hl.mark_iff hm hlive hsome).mp (hall.mono (by omega))).2
          · apply hread.bind (n := 0)
            rw [if_neg hskip]
            apply Uses.get_bind
            intro s hs
            rw [Holds.runOutside_eq hs hin.1 hin.2 hsome, if_neg Bool.false_ne_true]
            apply Uses.bind_error
            unfold SimpleFs.markRunUsed
            rw [if_neg (Nat.pos_iff_ne_zero.mp hsome)]
            apply Uses.get_bind
            intro s hs
            rw [Holds.runOutside_eq hs hin.1 hin.2 hsome, if_neg Bool.false_ne_true]
            exact hmark
      · -- it leaves the data sectors
        refine .inr ⟨fun hall => ?_, 1 + 0, used, ?_⟩
        · exact hin ((hl.mark_iff hm hlive hsome).mp (hall.mono (by omega))).1
        · apply hread.bind (n := 0)
          rw [if_neg hskip]
          apply Uses.get_bind
          intro s hs
          rw [if_pos ((runOutside_iff hs hsome).mpr hin)]
          exact (Uses.fail vfsEio).bind_error

/-- The volume after the bitmap is rebuilt and the superblock written. -/
def rebuilt (V : Volume) (used : Nat → Bool) (top : Nat) : Volume :=
  ((V.withUsed used).withNextFree top).writeSuper

/-- The volume of a mount that succeeds. -/
def remounted (V : Volume) (used : Nat → Bool) (top : Nat) : Volume :=
  { V.rebuilt used top with mounted := true }

/-- The loop with what comes before and after it. -/
theorem rebuildAllocationMap (hmax : V.total ≤ simplefsMaxTrackedSectors)
    (hlow : simplefsDataStart ≤ V.total) (hE : ∀ used top, E ((V.withUsed used).withNextFree top)) :
    (V.Laid simplefsMaxFiles ∧ ∃ top used', simplefsDataStart ≤ top ∧ top ≤ V.total ∧
        V.Marks used' simplefsMaxFiles ∧
        Uses (onVolume d) SimpleFs.rebuildAllocationMap V simplefsMaxFiles 1 (.ok ())
          (V.rebuilt used' top) E) ∨
    (¬ V.Laid simplefsMaxFiles ∧ ∃ r used',
        Uses (onVolume d) SimpleFs.rebuildAllocationMap V r 0 (.error vfsEio)
          (V.withUsed used') E) := by
  have hclear : Uses (onVolume d) (modify fun s =>
      { s with simplefsSectorUsed := fun i => decide (i < simplefsDataStart) } : FsM Unit) V 0 0
      (.ok ()) (V.withUsed fun i => decide (i < simplefsDataStart)) E := by
    apply Uses.modify
    intro s hs
    exact ⟨{ hs with used := rfl }, rfl⟩
  have hmarks : V.Marks (fun i => decide (i < simplefsDataStart)) 0 := by
    intro x
    rw [decide_eq_true_eq]
    exact ⟨.inl, fun h => h.resolve_right fun ⟨i, hi, _⟩ => absurd hi (Nat.not_lt_zero i)⟩
  have hlaid : V.Laid 0 :=
    ⟨fun _ hi => absurd hi (Nat.not_lt_zero _), fun _ hi => absurd hi (Nat.not_lt_zero _)⟩
  have hnext : ∀ used top, Uses (onVolume d) (modify fun s =>
      { s with simplefsSb := { s.simplefsSb with nextFreeSector := top } } : FsM Unit)
      (V.withUsed used) 0 0 (.ok ()) ((V.withUsed used).withNextFree top) E := by
    intro used top
    apply Uses.modify
    intro s hs
    refine ⟨{ hs with sb := ?_ }, rfl⟩
    show { s.simplefsSb with nextFreeSector := top } = _
    rw [hs.sb]
    rfl
  unfold SimpleFs.rebuildAllocationMap
  rcases rebuildFrom (d := d) hmax simplefsMaxFiles 0 simplefsDataStart _ (by decide)
    (Nat.le_refl _) hlow hlaid hmarks fun used => hE used V.nextFree with
    ⟨hall, top, used', h1, h2, h3, h4⟩ | ⟨hbad, r, used', h4⟩
  · refine .inl ⟨hall, top, used', h1, h2, h3, ?_⟩
    exact Uses.cast (r := 0 + (simplefsMaxFiles + (0 + 0))) (w := 0 + (0 + (0 + 1)))
      (hclear.bind (h4.bind ((hnext used' top).bind (Holds.writeSuperblock (hE used' top)))))
      (by omega) (by omega)
  · refine .inr ⟨hbad, 0 + r, used', ?_⟩
    exact hclear.bind (n := 0) h4.bind_error

/-! ### Volumes of states -/

/-- The volume a state stands for, on a device. -/
def ofState (d : Nat) (s : SimpleFs) : Volume where
  total := (s.devices d).sectorCount
  bytes := fun p => s.disk d (p / sectorSize) (p % sectorSize)
  nextFree := s.simplefsSb.nextFreeSector
  used := s.simplefsSectorUsed
  mounted := s.simplefsMounted

/-- A byte of a volume is one of its device. -/
theorem ofState_bytes (d : Nat) (s : SimpleFs) {lba k : Nat} (hk : k < sectorSize) :
    s.disk d lba k = (ofState d s).bytes (sectorSize * lba + k) := by
  show _ = s.disk d ((sectorSize * lba + k) / sectorSize) ((sectorSize * lba + k) % sectorSize)
  simp only [sectorSize] at *
  rw [show (512 * lba + k) / 512 = lba by omega, show (512 * lba + k) % 512 = k by omega]

/-- A state that holds a volume holds no other. -/
theorem eq_ofState (hs : Holds d s V) : V = ofState d s := by
  refine ext_bytes hs.total.symm ?_ hs.used.symm hs.mounted.symm fun p => ?_
  · show V.nextFree = s.simplefsSb.nextFreeSector
    rw [hs.sb]
    rfl
  · have hp := hs.bytes (p / sectorSize) (p % sectorSize) (Nat.mod_lt _ (by decide))
    rw [Nat.div_add_mod] at hp
    exact hp.symm

end Volume

/-- A state that holds a volume, on a device with given faults. -/
def SimpleFs.ofVolume (d : Nat) (V : Volume) (faults : Faults) : SimpleFs where
  devices := fun _ => ⟨V.total, sectorSize, true, true⟩
  disk := fun _ lba k => V.bytes (sectorSize * lba + k)
  faults := faults
  log := []
  simplefsDev := some d
  simplefsSb := Superblock.std V.total V.nextFree
  simplefsMounted := V.mounted
  simplefsSectorUsed := V.used

/-- The volume that was built is held. -/
theorem Volume.holds_ofVolume {d : Nat} {V : Volume} {faults : Faults}
    (hlow : simplefsDataStart < V.total) (hhigh : V.total ≤ simplefsMaxTrackedSectors) :
    Holds d (SimpleFs.ofVolume d V faults) V where
  dev := rfl
  device := by
    show (true && true && (512 : Nat) == 512 && decide (simplefsDataStart < V.total) &&
      decide (V.total ≤ simplefsMaxTrackedSectors)) = true
    rw [decide_eq_true hlow, decide_eq_true hhigh]
    rfl
  total := rfl
  sb := rfl
  bytes := fun _ _ _ => rfl
  used := rfl
  mounted := rfl

namespace SimpleFs

open Volume

variable {d : Nat} {s : SimpleFs} {V : Volume}

/-! ### `simplefs_mount` -/

/-- After the superblock has been asked for. -/
def asked (s : SimpleFs) : SimpleFs :=
  { s with faults := s.faults.after 1 0, log := .read 0 :: s.log }

/-- With the superblock that was read. -/
def loaded (s : SimpleFs) (d : Nat) : SimpleFs :=
  { s.asked with simplefsSb := Superblock.ofBytes (s.disk d 0) }

/-- With the device that is mounted. -/
def attached (s : SimpleFs) (d : Nat) : SimpleFs := { s with simplefsDev := some d }

/-- The mount or format ends as the rebuilding of the bitmap does. -/
def settle (r : Except Int Unit × SimpleFs) : Except Int Unit × SimpleFs :=
  (r.1, { r.2 with simplefsMounted := r.1.isOk })

/-- **`simplefs_settle_mount`**, by its outcomes -/
theorem settle_run {x : FsM Unit} {s : SimpleFs} :
    ((do
      match ← attempt x with
      | .error status =>
        modify fun s => { s with simplefsMounted := false }
        fail status
      | .ok _ => modify fun s => { s with simplefsMounted := true }) : FsM Unit) s =
      settle (x s) := by
  rcases hx : x s with ⟨res, s'⟩
  have hatt : attempt x s = (.ok res, s') := by
    unfold attempt
    rw [hx]
  rw [bind_ok hatt]
  rcases res with e | u
  · rfl
  · rfl

/-- `simplefs_mount`, as to where it stops. -/
theorem mount_eq (hv : validateDev (s.devices d) = true) :
    simplefsMount (some d) s =
      if s.faults.read 0 then (.error vfsEio, s.asked)
      else if superblockValid (Superblock.ofBytes (s.disk d 0)) (s.devices d) then
        settle (rebuildAllocationMap ((s.loaded d).attached d))
      else (.error vfsEio, s.loaded d) := by
  have hget : (StM.get : FsM SimpleFs) s = (.ok s, s) := rfl
  have hload : (modify fun s' : SimpleFs =>
      { s' with simplefsSb := Superblock.ofBytes (s.disk d 0) } : FsM Unit) s.asked =
      (.ok (), s.loaded d) := rfl
  have hattach : (modify fun s' : SimpleFs => { s' with simplefsDev := some d } : FsM Unit)
      (s.loaded d) = (.ok (), (s.loaded d).attached d) := rfl
  unfold simplefsMount
  dsimp only
  rw [bind_ok hget, hv]
  simp only [Bool.not_true, Bool.false_eq_true, if_false]
  rcases hr : s.faults.read 0 with _ | _
  · have hread : readSectorZero d s = (.ok (s.disk d 0), s.asked) := by
      unfold readSectorZero
      rw [hr]
      rfl
    rw [if_neg Bool.false_ne_true, bind_ok hread, bind_ok hload]
    rcases hval : superblockValid (Superblock.ofBytes (s.disk d 0)) (s.devices d) with _ | _
    · simp only [Bool.not_false, if_true, Bool.false_eq_true, if_false]
      rfl
    · simp only [Bool.not_true, Bool.false_eq_true, if_false, if_true]
      rw [bind_ok hattach]
      exact settle_run
  · have hread : readSectorZero d s = (.error vfsEio, s.asked) := by
      unfold readSectorZero
      rw [hr]
      rfl
    rw [if_pos rfl, StM.bind_error hread]

/-- An accepted superblock is the standard one up to its high-water mark. -/
theorem superblockValid_iff {sb : Superblock} {dev : BlockDevice} :
    superblockValid sb dev = true ↔ sb = Superblock.std dev.sectorCount sb.nextFreeSector ∧
      simplefsDataStart ≤ sb.nextFreeSector ∧ sb.nextFreeSector ≤ dev.sectorCount := by
  unfold superblockValid
  simp only [Bool.and_eq_true, beq_iff_eq, decide_eq_true_eq]
  constructor
  · rintro ⟨⟨⟨⟨⟨⟨⟨⟨⟨h1, h2⟩, h3⟩, h4⟩, h5⟩, h6⟩, h7⟩, h8⟩, h9⟩, h10⟩
    refine ⟨?_, h9, h10⟩
    obtain ⟨magic, version, sectorSize, total, dirStart, dirSectors, dataStart, next, maxFiles⟩ := sb
    dsimp only at *
    subst h1 h2 h3 h4 h5 h6 h7 h8
    rfl
  · rintro ⟨h, h9, h10⟩
    rw [h]
    exact ⟨⟨⟨⟨⟨⟨⟨⟨⟨rfl, rfl⟩, rfl⟩, rfl⟩, rfl⟩, rfl⟩, rfl⟩, rfl⟩, h9⟩, h10⟩

/-- With an accepted superblock the state holds a volume. -/
theorem attached_holds (hv : validateDev (s.devices d) = true)
    (hval : superblockValid (Superblock.ofBytes (s.disk d 0)) (s.devices d) = true) :
    Holds d ((s.loaded d).attached d) (ofState d ((s.loaded d).attached d)) where
  dev := rfl
  device := hv
  total := rfl
  sb := (superblockValid_iff.mp hval).1
  bytes := fun _ _ hk => ofState_bytes d _ hk
  used := rfl
  mounted := rfl

/-- A step that went well mounts. -/
theorem settle_ok {d : Nat} {x : FsM Unit} {s s' : SimpleFs} {W : Volume} (hx : x s = (.ok (), s'))
    (hs : Holds d s' W) :
    settle (x s) = (.ok (), { s' with simplefsMounted := true }) ∧
      Holds d { s' with simplefsMounted := true } { W with mounted := true } := by
  rw [hx]
  exact ⟨rfl, { hs with mounted := rfl }⟩

/-- The bounds a validated device has. -/
theorem validateDev_bounds {dev : BlockDevice} (h : validateDev dev = true) :
    simplefsDataStart < dev.sectorCount ∧ dev.sectorCount ≤ simplefsMaxTrackedSectors := by
  unfold validateDev at h
  simp only [Bool.and_eq_true, decide_eq_true_eq] at h
  exact ⟨h.1.2, h.2⟩

/-- **Mounting** sectors that hold a superblock and a directory whose extents fit together. -/
theorem mount_run (hf : s.faults = .none) (hv : validateDev (s.devices d) = true)
    (htotal : (s.devices d).sectorCount = V.total)
    (hbytes : ∀ lba k, k < sectorSize → s.disk d lba k = V.bytes (sectorSize * lba + k))
    (hsuper : V.SuperOk) (hlaid : V.Laid simplefsMaxFiles) :
    ∃ s' used top, simplefsMount (some d) s = (.ok (), s') ∧ s'.faults = .none ∧
      Holds d s' (V.remounted used top) ∧ V.Marks used simplefsMaxFiles ∧
      simplefsDataStart ≤ top ∧ top ≤ V.total := by
  obtain ⟨hlow, hmax⟩ := validateDev_bounds hv
  rw [htotal] at hlow hmax
  have hword : simplefsMaxTrackedSectors < wordSize := by decide
  have hsb : Superblock.ofBytes (s.disk d 0) = Superblock.std V.total V.nextFree := by
    have hhigh := hsuper.high
    apply Superblock.ofBytes_toBytes (by omega) (by omega)
    intro k hk
    rw [hbytes 0 k (by simp only [superblockSize, sectorSize] at *; omega), Nat.mul_zero,
      Nat.zero_add]
    exact hsuper.bytes k hk
  have hval : superblockValid (Superblock.ofBytes (s.disk d 0)) (s.devices d) = true := by
    rw [superblockValid_iff, hsb, htotal]
    exact ⟨rfl, hsuper.low, hsuper.high⟩
  -- the volume before the bitmap is rebuilt: only that bitmap and the flag differ from `V`
  have hatt : Holds d ((s.loaded d).attached d)
      { V with used := s.simplefsSectorUsed, mounted := s.simplefsMounted } :=
    { dev := rfl, device := hv, total := htotal, sb := hsb, bytes := hbytes, used := rfl,
      mounted := rfl }
  have hfaults : ((s.loaded d).attached d).faults = .none := by
    show s.faults.after 1 0 = .none
    rw [hf]
    rfl
  rcases Volume.rebuildAllocationMap (d := d)
    (V := { V with used := s.simplefsSectorUsed, mounted := s.simplefsMounted })
    (E := fun _ => True) hmax (Nat.le_of_lt hlow) (fun _ _ => trivial) with
    ⟨-, top, used, h1, h2, h3, h4⟩ | ⟨hbad, -⟩
  · obtain ⟨s', hrun, hs', hf'⟩ := h4.run hatt hfaults
    obtain ⟨hsettle, hs''⟩ := settle_ok hrun hs'
    refine ⟨{ s' with simplefsMounted := true }, used, top, ?_, hf', hs'', h3, h1, h2⟩
    rw [mount_eq hv, hf]
    show (if false = true then _ else _) = _
    rw [if_neg Bool.false_ne_true, if_pos hval]
    exact hsettle
  · exact absurd ⟨hlaid.extent, hlaid.disjoint⟩ hbad

/-! ### `simplefs_format` -/

/-- With the device and the superblock of an empty file system. -/
def blank (s : SimpleFs) (d : Nat) : SimpleFs :=
  { s with
    simplefsDev := some d
    simplefsSb := Superblock.std (s.devices d).sectorCount simplefsDataStart }

/-- `simplefs_format`, up to the end. -/
theorem format_eq (hv : validateDev (s.devices d) = true) :
    simplefsFormat (some d) s =
      (writeSuperblock >>= fun _ => zeroRun simplefsDirStart simplefsDirSectors >>= fun _ =>
        fun s => settle (rebuildAllocationMap s)) (s.blank d) := by
  have hget : (StM.get : FsM SimpleFs) s = (.ok s, s) := rfl
  have hblank : (modify fun s' : SimpleFs =>
      { s' with
        simplefsDev := some d
        simplefsSb :=
          { magic := simplefsMagic
            version := simplefsVersion
            sectorSize := sectorSize
            totalSectors := (s'.devices d).sectorCount
            dirStart := simplefsDirStart
            dirSectors := simplefsDirSectors
            dataStart := simplefsDataStart
            nextFreeSector := simplefsDataStart
            maxFiles := simplefsMaxFiles } } : FsM Unit) s = (.ok (), s.blank d) := rfl
  have htail : (do
      match ← attempt rebuildAllocationMap with
      | .error status =>
        modify fun s => { s with simplefsMounted := false }
        fail status
      | .ok _ => modify fun s => { s with simplefsMounted := true } : FsM Unit) =
      fun s => settle (rebuildAllocationMap s) := funext fun s => settle_run
  unfold simplefsFormat
  dsimp only
  rw [bind_ok hget, hv]
  simp only [Bool.not_true, Bool.false_eq_true, if_false]
  rw [bind_ok hblank]
  exact congrFun (congrArg (fun rest : FsM Unit => writeSuperblock >>= fun _ =>
    zeroRun simplefsDirStart simplefsDirSectors >>= fun _ => rest) htail) (s.blank d)

/-- The blank device holds its volume. -/
theorem blank_holds (hv : validateDev (s.devices d) = true) :
    Holds d (s.blank d) (ofState d (s.blank d)) where
  dev := rfl
  device := hv
  total := rfl
  sb := rfl
  bytes := fun _ _ hk => ofState_bytes d _ hk
  used := rfl
  mounted := rfl

end SimpleFs

namespace Volume

variable {d : Nat} {V : Volume} {s : SimpleFs}

/-- The volume with a fresh superblock and an empty directory. -/
def cleared (V : Volume) : Volume :=
  V.writeSuper.write (sectorSize * simplefsDirStart) zeroSector (sectorSize * simplefsDirSectors)

/-- No entry is used. -/
theorem cleared_entry {i : Nat} (hi : i < simplefsMaxFiles) : (V.cleared.entry i).used = 0 := by
  have hzero : V.cleared.entry i = DirEntry.ofBytes fun _ => 0 := by
    apply DirEntry.ofBytes_congr
    intro k hk
    unfold cleared
    rw [write_bytes, if_pos]
    · rfl
    · simp only [entryAddr, sectorSize, dirEntrySize, simplefsDirStart, simplefsDirSectors,
        simplefsMaxFiles] at *
      omega
  rw [hzero]
  show u32At (fun _ => 0) 0 = 0
  decide

/-- A volume with no entry in use. -/
theorem consistent_of_empty {W : Volume} (hsuper : W.SuperOk)
    (hempty : ∀ i < simplefsMaxFiles, (W.entry i).used = 0)
    (hm : W.Marks W.used simplefsMaxFiles) :
    W.Consistent ∧ W.files = fun _ => none := by
  have hnot : ∀ i < simplefsMaxFiles, ¬ (W.entry i).Live := fun i hi hl => hl (hempty i hi)
  refine ⟨{ extent := fun i hi hl => absurd hl (hnot i hi),
            disjoint := fun i hi _ _ _ hl => absurd hl (hnot i hi), bitmap := hm, super := hsuper,
            size := fun i hi hl => absurd hl (hnot i hi),
            unique := fun i hi _ _ hl => absurd hl (hnot i hi),
            slack := fun i hi hl => absurd hl (hnot i hi) }, ?_⟩
  funext name
  rw [files_eq_none]
  rcases hl : W.lookup name with _ | i
  · rfl
  · exact absurd (lookup_lt hl).2.1 (hnot i (lookup_lt hl).1)

/-- **Formatting** a device that works. -/
theorem format_run (hf : s.faults = .none) (hv : SimpleFs.validateDev (s.devices d) = true) :
    ∃ s' V', SimpleFs.simplefsFormat (some d) s = (.ok (), s') ∧ s'.faults = .none ∧
      Holds d s' V' ∧ V'.Consistent ∧ V'.mounted = true ∧ V'.total = (s.devices d).sectorCount ∧
      (V'.files = fun _ => none) ∧ V'.fileCount = 0 := by
  obtain ⟨hlow, hmax⟩ := SimpleFs.validateDev_bounds hv
  have hblank := SimpleFs.blank_holds (s := s) hv
  have hwrite := Holds.writeSuperblock (d := d) (V := ofState d (s.blank d))
    (E := fun _ => True) trivial
  have hzero := (Holds.zeroRun (d := d) (V := (ofState d (s.blank d)).writeSuper)
    simplefsDirSectors simplefsDirStart).mono (F := fun _ => True) fun _ _ => trivial
  set W := (ofState d (s.blank d)).cleared with hW
  have hempty : ∀ i < simplefsMaxFiles, (W.entry i).used = 0 := fun i hi => cleared_entry hi
  have hlaid : W.Laid simplefsMaxFiles :=
    ⟨fun i hi hl => absurd (hempty i hi) hl, fun i hi _ _ _ hl => absurd (hempty i hi) hl⟩
  rcases rebuildAllocationMap (d := d) (V := W) (E := fun _ => True) hmax (by
    show simplefsDataStart ≤ (s.devices d).sectorCount
    omega) (fun _ _ => trivial) with ⟨-, top, used, h1, h2, h3, h4⟩ | ⟨hbad, -⟩
  · obtain ⟨s1, hrun1, hs1, hf1⟩ := hwrite.run hblank hf
    obtain ⟨s2, hrun2, hs2, hf2⟩ := hzero.run hs1 hf1
    obtain ⟨s3, hrun3, hs3, hf3⟩ := h4.run hs2 hf2
    obtain ⟨hsettle, hs4⟩ := SimpleFs.settle_ok hrun3 hs3
    have hentry : ∀ i < simplefsMaxFiles, (W.remounted used top).entry i = W.entry i :=
      fun i hi => entry_write (V := (W.withUsed used).withNextFree top) (.inl (Nat.le_refl _)) hi
    have hsuper : (W.remounted used top).SuperOk := by
      have hw := writeSuper_superOk (V := (W.withUsed used).withNextFree top) h1 h2
      exact ⟨hw.low, hw.high, hw.bytes⟩
    have hempty' : ∀ i < simplefsMaxFiles, ((W.remounted used top).entry i).used = 0 :=
      fun i hi => by rw [hentry i hi]; exact hempty i hi
    obtain ⟨hcons, hfiles⟩ := consistent_of_empty hsuper hempty' fun x => by
      rw [show (W.remounted used top).used x = used x from rfl, h3 x]
      apply or_congr_right
      constructor
      · rintro ⟨i, hi, hx⟩
        exact ⟨i, hi, by rw [hentry i hi]; exact hx⟩
      · rintro ⟨i, hi, hx⟩
        rw [hentry i hi] at hx
        exact ⟨i, hi, hx⟩
    refine ⟨{ s3 with simplefsMounted := true }, _, ?_, hf3, hs4, hcons, rfl, rfl, hfiles, ?_⟩
    · rw [SimpleFs.format_eq hv]
      exact (bind_ok hrun1).trans ((bind_ok hrun2).trans hsettle)
    · unfold fileCount
      rw [Finset.card_eq_zero, Finset.filter_eq_empty_iff]
      intro i hi
      exact not_not.mpr (hempty' i (Finset.mem_range.mp hi))
  · exact absurd hlaid hbad

end Volume

end AgenticOs
