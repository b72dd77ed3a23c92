import AgenticOs.Fs.DataSectors

/-!
# Mounts and formats that fail

A call of `simplefs_mount` or `simplefs_format` that fails while a file system is mounted. Either nothing is
mounted afterwards, or the file system that was mounted is as before, except in two cases. A mount replaces
the superblock in memory before it checks it; and a format replaces the device and the superblock, and begins
to write, before it knows that the device can be written.

* **As before** (`Intact`): the device, the superblock and the bitmap are the same, and all calls to come are
  answered the same, however the devices fail.
* **Mounts** (`mount_error_iff`): what a mount that fails leaves, exactly; it breaks its promise when it is
  refused for a superblock that differs from the one in memory (`MountReplaces`).
* **Formats** (`format_error_iff`): the same of a format, which breaks its promise when a write before the end
  of the directory fails (`FormatReplaces`, `FormatErases`).
* **Main result** (`mount_errors`): both together. `mount_leaves_unvalidated` is a mount that leaves a device
  mounted with the superblock of another one.
-/

namespace AgenticOs

open Function Lib Lib.StM Volume

/-- What a call of the interface answers. -/
inductive FsAnswer where
  | info (r : Except Int FileInfo)
  | bytes (r : Except Int (List Byte))
  | written (r : Except Int Nat)

/-- The status of a call that failed. -/
def FsAnswer.error? : FsAnswer → Option Int
  | info (.error e) | bytes (.error e) | written (.error e) => some e
  | _ => none

namespace FsOp

/-- The answer of a call. -/
def answer (s : SimpleFs) : FsOp → FsAnswer
  | .open path flags => .info (SimpleFs.simplefsOpen path flags s).1
  | .read path offset buffer count => .bytes (SimpleFs.simplefsRead path offset buffer count s).1
  | .write path offset buffer count => .written (SimpleFs.simplefsWrite path offset buffer count s).1
  | .stat path out => .info (SimpleFs.simplefsStat path out s).1

/-- The answers of a sequence of calls. -/
def answers (s : SimpleFs) : List FsOp → List FsAnswer
  | [] => []
  | op :: ops => op.answer s :: answers (op.step s) ops

end FsOp

namespace SimpleFs

variable {d n start lba : Nat} {s s' t : SimpleFs} {sector : Sector} {e : Int}

/-- The state as later calls find it, on a device that fails in a given way; what was asked of the
devices before is forgotten. -/
def resumed (s : SimpleFs) (faults : Faults) : SimpleFs := { s with faults := faults, log := [] }

/-- No file system is mounted, and every call of the interface says so. -/
def Unmounted (s : SimpleFs) : Prop :=
  s.simplefsMounted = false ∧
    ∀ op : FsOp, ∀ faults, (op.answer (s.resumed faults)).error? = some vfsEio

/-- The mounted file system is the same: its device, its superblock, its bitmap, and the answers of
all calls to come. -/
def Intact (s s' : SimpleFs) : Prop :=
  s'.simplefsDev = s.simplefsDev ∧ s'.simplefsSb = s.simplefsSb ∧
    s'.simplefsSectorUsed = s.simplefsSectorUsed ∧ s'.simplefsMounted = s.simplefsMounted ∧
    ∀ ops faults, FsOp.answers (s'.resumed faults) ops = FsOp.answers (s.resumed faults) ops

/-- Nothing is asked of a volume that is not mounted. -/
theorem unmounted_of (h : s.simplefsMounted = false) : s.Unmounted := by
  refine ⟨h, fun op faults => ?_⟩
  have hreq : requireMounted (s.resumed faults) = (.error vfsEio, s.resumed faults) := by
    unfold requireMounted
    have hget : (StM.get : FsM SimpleFs) (s.resumed faults) =
        (.ok (s.resumed faults), s.resumed faults) := rfl
    rw [bind_ok hget, show (s.resumed faults).simplefsMounted = false from h]
    rfl
  cases op with
  | «open» path flags =>
    have hrun : simplefsOpen path flags (s.resumed faults) = (.error vfsEio, s.resumed faults) :=
      StM.bind_error hreq
    exact congrArg (fun r => (FsAnswer.info r.1).error?) hrun
  | read path offset buffer count =>
    have hrun : simplefsRead path offset buffer count (s.resumed faults) =
        (.error vfsEio, s.resumed faults) := StM.bind_error hreq
    exact congrArg (fun r => (FsAnswer.bytes r.1).error?) hrun
  | write path offset buffer count =>
    have hrun : simplefsWrite path offset buffer count (s.resumed faults) =
        (.error vfsEio, s.resumed faults) := StM.bind_error hreq
    exact congrArg (fun r => (FsAnswer.written r.1).error?) hrun
  | stat path out =>
    have hrun : simplefsStat path out (s.resumed faults) = (.error vfsEio, s.resumed faults) :=
      StM.bind_error hreq
    exact congrArg (fun r => (FsAnswer.info r.1).error?) hrun

/-- States that differ only in what the devices were asked and will fail. -/
theorem intact_of (h : ∀ faults, s'.resumed faults = s.resumed faults) : s.Intact s' := by
  have hall := h .none
  unfold resumed at hall
  injection hall with _ _ _ _ hdev hsb hm hused
  exact ⟨hdev, hsb, hused, hm, fun ops faults => by rw [h faults]⟩

/-! ### `simplefs_mount` -/

/-- A mount that is refused for its superblock, which differs from the one in memory. -/
def MountReplaces (s : SimpleFs) (d : Nat) : Prop :=
  validateDev (s.devices d) = true ∧ s.faults.read 0 = false ∧
    superblockValid (Superblock.ofBytes (s.disk d 0)) (s.devices d) = false ∧
    Superblock.ofBytes (s.disk d 0) ≠ s.simplefsSb

/-- A device that is refused is not touched. -/
theorem mount_refused (hv : validateDev (s.devices d) = false) :
    simplefsMount (some d) s = (.error vfsEinval, s) := by
  have hget : (StM.get : FsM SimpleFs) s = (.ok s, s) := rfl
  unfold simplefsMount
  dsimp only
  rw [bind_ok hget, hv]
  rfl

/-- A mount that fails leaves no volume mounted. -/
theorem settle_error {r : Except Int Unit × SimpleFs} (h : settle r = (.error e, s')) :
    s'.simplefsMounted = false := by
  unfold settle at h
  rcases r with ⟨_ | _, t⟩
  · cases h
    rfl
  · cases h

/-- **A mount that fails.** -/
theorem mount_error_iff (hm : s.simplefsMounted = true) {dev : Option Nat}
    (h : simplefsMount dev s = (.error e, s')) :
    s'.Unmounted ∨ s.Intact s' ↔ ¬ ∃ d, dev = some d ∧ s.MountReplaces d := by
  rcases dev with _ | d
  · cases h
    refine ⟨fun _ hc => ?_, fun _ => .inr (intact_of fun _ => rfl)⟩
    obtain ⟨_, hd, -⟩ := hc
    cases hd
  have hreplaces : (∃ d', some d = some d' ∧ s.MountReplaces d') ↔ s.MountReplaces d :=
    ⟨fun ⟨d', hd, hr⟩ => by cases hd; exact hr, fun hr => ⟨d, rfl, hr⟩⟩
  rw [hreplaces]
  rcases hv : validateDev (s.devices d) with _ | _
  · rw [mount_refused hv] at h
    cases h
    refine ⟨fun _ hr => ?_, fun _ => .inr (intact_of fun _ => rfl)⟩
    rw [hr.1] at hv
    cases hv
  rw [mount_eq hv] at h
  by_cases hread : s.faults.read 0 = true
  · rw [if_pos hread] at h
    cases h
    refine ⟨fun _ hr => ?_, fun _ => .inr (intact_of fun _ => rfl)⟩
    rw [hr.2.1] at hread
    cases hread
  rw [if_neg hread] at h
  by_cases hval : superblockValid (Superblock.ofBytes (s.disk d 0)) (s.devices d) = true
  · rw [if_pos hval] at h
    refine ⟨fun _ hr => ?_, fun _ => .inl (unmounted_of (settle_error h))⟩
    rw [hr.2.2.1] at hval
    cases hval
  · rw [if_neg hval] at h
    cases h
    constructor
    · rintro (hun | hint) hr
      · have hnot : s.simplefsMounted = false := hun.1
        rw [hm] at hnot
        cases hnot
      · exact hr.2.2.2 hint.2.1
    · intro hno
      have hsame : Superblock.ofBytes (s.disk d 0) = s.simplefsSb :=
        not_not.mp fun hne => hno ⟨hv, by simpa using hread, by simpa using hval, hne⟩
      refine .inr (intact_of fun faults => ?_)
      show { s with faults := faults, log := [], simplefsSb := Superblock.ofBytes (s.disk d 0) } = _
      rw [hsame]
      rfl

/-! ### `simplefs_format` -/

/-- What a format writes to one of the first sectors. -/
def formatSector (s : SimpleFs) (d lba : Nat) : Sector :=
  if lba = 0 then
    memcpy zeroSector 0
      (Superblock.std (s.devices d).sectorCount simplefsDataStart).toBytes superblockSize
  else zeroSector

/-- A format that fails to write the superblock or a sector of the directory. -/
def FormatCut (s : SimpleFs) (d : Nat) : Prop :=
  validateDev (s.devices d) = true ∧ ¬ s.faults.Clear 0 (1 + simplefsDirSectors)

/-- Such a format of another device than the mounted one, or with another superblock in memory than
that of an empty file system. -/
def FormatReplaces (s : SimpleFs) (d : Nat) : Prop :=
  s.FormatCut d ∧ ¬ (s.simplefsDev = some d ∧
    s.simplefsSb = Superblock.std (s.devices d).sectorCount simplefsDataStart)

/-- Such a format that has changed a sector before it fails. -/
def FormatErases (s : SimpleFs) (d : Nat) : Prop :=
  s.FormatCut d ∧ ∃ lba < 1 + simplefsDirSectors, (∀ n ≤ lba, s.faults.write n = false) ∧
    s.disk d lba ≠ s.formatSector d lba

/-- A device that is refused is not touched. -/
theorem format_refused (hv : validateDev (s.devices d) = false) :
    simplefsFormat (some d) s = (.error vfsEinval, s) := by
  have hget : (StM.get : FsM SimpleFs) s = (.ok s, s) := rfl
  unfold simplefsFormat
  dsimp only
  rw [bind_ok hget, hv]
  rfl

/-- Writing to a sector what it holds changes no answer. -/
theorem writeSector_same (hdev : s.simplefsDev = some d)
    (hsame : s.faults.write 0 = false → s.disk d lba = sector) (faults : Faults) :
    (writeSector lba sector s).2.resumed faults = s.resumed faults := by
  obtain ⟨devices, disk, faults', log, dev, sb, mounted, used⟩ := s
  cases hdev
  have hrun : writeSector lba sector
      ⟨devices, disk, faults', log, some d, sb, mounted, used⟩ =
      if faults'.write 0 then (.error vfsEio,
        ⟨devices, disk, faults'.after 0 1, .write lba :: log, some d, sb, mounted, used⟩)
      else (.ok (), ⟨devices, update disk d (update (disk d) lba sector), faults'.after 0 1,
        .write lba :: log, some d, sb, mounted, used⟩) := rfl
  rw [hrun]
  rcases hw : faults'.write 0 with _ | _
  · rw [if_neg Bool.false_ne_true, ← hsame hw, update_eq_self, update_eq_self]
    rfl
  · rw [if_pos rfl]
    rfl

/-- The same device and the same sectors. -/
theorem resumed_fields (h : ∀ faults, t.resumed faults = s.resumed faults) :
    t.simplefsDev = s.simplefsDev ∧ t.disk = s.disk := by
  have hall := h .none
  unfold resumed at hall
  injection hall with _ hdisk _ _ hdev
  exact ⟨hdev, hdisk⟩

/-- A write that goes well. -/
theorem writeSector_ok (h : writeSector lba sector s = (.ok (), t)) :
    s.faults.write 0 = false ∧ t.faults = s.faults.after 0 1 := by
  unfold writeSector at h
  rcases hdev : s.simplefsDev with _ | d
  · rw [hdev] at h
    cases h
  · rw [hdev] at h
    dsimp only at h
    rcases hw : s.faults.write 0 with _ | _
    · rw [hw, if_neg Bool.false_ne_true] at h
      cases h
      exact ⟨rfl, rfl⟩
    · rw [hw, if_pos rfl] at h
      cases h

/-- Clearing sectors that are clear. -/
theorem zeroRun_same (n start : Nat) (hdev : s.simplefsDev = some d)
    (hsame : ∀ k < n, (∀ i ≤ k, s.faults.write i = false) → s.disk d (start + k) = zeroSector)
    (faults : Faults) : (zeroRun start n s).2.resumed faults = s.resumed faults := by
  induction n generalizing start s with
  | zero => rfl
  | succ n ih =>
    have hfirst : ∀ faults, (writeSector start zeroSector s).2.resumed faults =
        s.resumed faults :=
      writeSector_same hdev fun hw => hsame 0 (Nat.succ_pos n) fun i hi => by
        obtain rfl : i = 0 := by omega
        exact hw
    unfold zeroRun
    rcases hrun : writeSector start zeroSector s with ⟨_ | _, t⟩
    · rw [StM.bind_error hrun]
      rw [hrun] at hfirst
      exact hfirst faults
    · rw [bind_ok hrun]
      rw [hrun] at hfirst
      obtain ⟨hdev', hdisk⟩ := resumed_fields hfirst
      obtain ⟨hw, hafter⟩ := writeSector_ok hrun
      rw [ih (start + 1) (hdev'.trans hdev) fun k hk hall => ?_]
      · exact hfirst faults
      · rw [hdisk, show start + 1 + k = start + (k + 1) by omega]
        apply hsame (k + 1) (by omega)
        intro i hi
        rcases i with _ | i
        · exact hw
        · have hnext := hall i (by omega)
          rw [hafter] at hnext
          rw [Nat.add_comm i 1]
          exact hnext

/-- What a format writes before it rebuilds the bitmap, over the same device and superblock. -/
theorem formatStart_same (hdev : s.simplefsDev = some d)
    (hsb : s.simplefsSb = Superblock.std (s.devices d).sectorCount simplefsDataStart)
    (hsame : ∀ lba < 1 + simplefsDirSectors, (∀ n ≤ lba, s.faults.write n = false) →
      s.disk d lba = s.formatSector d lba) (faults : Faults) :
    ((writeSuperblock >>= fun _ => zeroRun simplefsDirStart simplefsDirSectors) s).2.resumed
      faults = s.resumed faults := by
  have heq : writeSuperblock s = writeSector 0 (s.formatSector d 0) s := by
    have hget : (StM.get : FsM SimpleFs) s = (.ok s, s) := rfl
    unfold writeSuperblock
    rw [bind_ok hget, hsb]
    rfl
  have hfirst : ∀ faults, (writeSector 0 (s.formatSector d 0) s).2.resumed faults =
      s.resumed faults :=
    writeSector_same hdev fun hw => hsame 0 (by decide) fun i hi => by
      obtain rfl : i = 0 := by omega
      exact hw
  rw [← heq] at hfirst
  rcases hrun : writeSuperblock s with ⟨_ | _, t⟩
  · rw [StM.bind_error hrun]
    rw [hrun] at hfirst
    exact hfirst faults
  · rw [bind_ok hrun]
    rw [hrun] at hfirst
    obtain ⟨hdev', hdisk⟩ := resumed_fields hfirst
    obtain ⟨hw, hafter⟩ := writeSector_ok (heq.symm.trans hrun)
    rw [zeroRun_same _ _ (hdev'.trans hdev) fun k hk hall => ?_]
    · exact hfirst faults
    · rw [hdisk]
      simp only [simplefsDirStart, simplefsDirSectors] at *
      refine (hsame (1 + k) (by omega) fun i hi => ?_).trans ?_
      · rcases i with _ | i
        · exact hw
        · have hnext := hall i (by omega)
          rw [hafter] at hnext
          rw [Nat.add_comm i 1]
          exact hnext
      · exact if_neg (by omega)

/-- A format that fails on the way leaves the device and the superblock of an empty file system. -/
theorem format_cut (hm : s.simplefsMounted = true) (hcut : s.FormatCut d) :
    ∃ t, simplefsFormat (some d) s = (.error vfsEio, t) ∧
      t = ((writeSuperblock >>= fun _ => zeroRun simplefsDirStart simplefsDirSectors)
        (s.blank d)).2 ∧ t.simplefsMounted = true ∧ t.simplefsDev = some d ∧
      t.simplefsSb = Superblock.std (s.devices d).sectorCount simplefsDataStart := by
  obtain ⟨hv, hc⟩ := hcut
  have hblank := blank_holds (s := s) hv
  have hwrite := Holds.writeSuperblock (d := d) (V := ofState d (s.blank d))
    (E := fun u => u.total = (s.devices d).sectorCount ∧ u.nextFree = simplefsDataStart ∧
      u.mounted = s.simplefsMounted) ⟨rfl, rfl, rfl⟩
  have hzero := (Holds.zeroRun (d := d) (V := (ofState d (s.blank d)).writeSuper)
    simplefsDirSectors simplefsDirStart).mono
    (F := fun u => u.total = (s.devices d).sectorCount ∧ u.nextFree = simplefsDataStart ∧
      u.mounted = s.simplefsMounted) fun u hu => by
        obtain ⟨ht, hn, -, hmounted⟩ := hu.fields
        exact ⟨ht, hn, hmounted⟩
  have hstart := (hwrite.bind (f := fun _ => SimpleFs.zeroRun simplefsDirStart simplefsDirSectors)
    hzero).cast (m := 0) (n := 1 + simplefsDirSectors) rfl rfl
  obtain ⟨t, u, hrun, ht, htotal, hnext, hmounted⟩ := (hstart (s.blank d) hblank).2 hc
  refine ⟨t, ?_, by rw [hrun], ht.mounted.trans (hmounted.trans hm), ht.dev, ?_⟩
  · rw [format_eq hv]
    rcases hw : writeSuperblock (s.blank d) with ⟨_ | _, t1⟩
    · rw [StM.bind_error hw] at hrun ⊢
      exact hrun
    · rw [bind_ok hw] at hrun ⊢
      exact StM.bind_error hrun
  · rw [ht.sb, htotal, hnext]

/-- A format whose first writes work goes on to read the empty directory. -/
theorem format_started (hv : validateDev (s.devices d) = true)
    (hc : s.faults.Clear 0 (1 + simplefsDirSectors)) :
    ∃ t, simplefsFormat (some d) s = settle (rebuildAllocationMap t) ∧
      Holds d t (ofState d (s.blank d)).cleared ∧ t.faults = s.faults.after 0 (1 + simplefsDirSectors) := by
  have hwrite := Holds.writeSuperblock (d := d) (V := ofState d (s.blank d)) (E := fun _ => True)
    trivial
  have hzero := (Holds.zeroRun (d := d) (V := (ofState d (s.blank d)).writeSuper)
    simplefsDirSectors simplefsDirStart).mono (F := fun _ => True) fun _ _ => trivial
  obtain ⟨hc1, hc2⟩ := Faults.clear_add.mp
    (show s.faults.Clear (0 + 0) (1 + simplefsDirSectors) from hc)
  obtain ⟨t1, hrun1, ht1, hf1⟩ := (hwrite (s.blank d) (blank_holds hv)).1 hc1
  obtain ⟨t2, hrun2, ht2, hf2⟩ := (hzero t1 ht1).1 (by rw [hf1]; exact hc2)
  refine ⟨t2, ?_, ht2, ?_⟩
  · rw [format_eq hv, bind_ok hrun1]
    exact bind_ok (f := fun _ s => settle (rebuildAllocationMap s)) hrun2
  · rw [hf1, Faults.after_after] at hf2
    exact hf2

/-- A format that fails after its first writes leaves nothing mounted. -/
theorem format_late (hv : validateDev (s.devices d) = true)
    (hc : s.faults.Clear 0 (1 + simplefsDirSectors))
    (h : simplefsFormat (some d) s = (.error e, s')) : s'.Unmounted := by
  obtain ⟨t, hrun, -⟩ := format_started hv hc
  exact unmounted_of (settle_error (hrun.symm.trans h))

/-- A format that cannot read back the directory it has written. -/
theorem format_unreadable (hv : validateDev (s.devices d) = true)
    (hc : s.faults.Clear 0 (1 + simplefsDirSectors)) (hr : s.faults.read 0 = true) :
    ∃ s', simplefsFormat (some d) s = (.error vfsEio, s') ∧ s'.simplefsMounted = false := by
  obtain ⟨hlow, hmax⟩ := validateDev_bounds hv
  obtain ⟨t, hrun, ht, hf⟩ := format_started hv hc
  have hread : t.faults.read 0 = true := by
    rw [hf]
    exact hr
  have hempty : ∀ i < simplefsMaxFiles, ((ofState d (s.blank d)).cleared.entry i).used = 0 :=
    fun i hi => cleared_entry hi
  have hlaid : (ofState d (s.blank d)).cleared.Laid simplefsMaxFiles :=
    ⟨fun i hi hl => absurd (hempty i hi) hl, fun i hi _ _ _ hl => absurd (hempty i hi) hl⟩
  rcases Volume.rebuildAllocationMap (d := d) (V := (ofState d (s.blank d)).cleared) (E := fun _ => True)
    hmax (Nat.le_of_lt hlow) (fun _ _ => trivial) with ⟨-, top, used, -, -, -, hrebuild⟩ | ⟨hbad, -⟩
  · have hnot : ¬ t.faults.Clear simplefsMaxFiles 1 := fun hclear => by
      cases hread.symm.trans (hclear.1 0 (by decide))
    obtain ⟨t', _, hfails, -⟩ := (hrebuild t ht).2 hnot
    refine ⟨{ t' with simplefsMounted := false }, ?_, rfl⟩
    rw [hrun, hfails]
    rfl
  · exact absurd hlaid hbad

/-- **A format that fails.** -/
theorem format_error_iff (hm : s.simplefsMounted = true) {dev : Option Nat}
    (h : simplefsFormat dev s = (.error e, s')) :
    (s'.Unmounted ∨ s.Intact s' → ¬ ∃ d, dev = some d ∧ s.FormatReplaces d) ∧
    (¬ (∃ d, dev = some d ∧ (s.FormatReplaces d ∨ s.FormatErases d)) →
      s'.Unmounted ∨ s.Intact s') := by
  rcases dev with _ | d
  · cases h
    refine ⟨fun _ hc => ?_, fun _ => .inr (intact_of fun _ => rfl)⟩
    obtain ⟨_, hd, -⟩ := hc
    cases hd
  by_cases hcut : s.FormatCut d
  · obtain ⟨t, hrun, ht, hmounted, hdev, hsb⟩ := format_cut hm hcut
    rw [hrun] at h
    cases h
    constructor
    · rintro (hun | ⟨hdev', hsb', -⟩) ⟨d', hd, -, hne⟩
      · rw [hun.1] at hmounted
        cases hmounted
      · cases hd
        exact hne ⟨hdev'.symm.trans hdev, hsb'.symm.trans hsb⟩
    · intro hno
      obtain ⟨hdev', hsb'⟩ : s.simplefsDev = some d ∧
          s.simplefsSb = Superblock.std (s.devices d).sectorCount simplefsDataStart :=
        not_not.mp fun hne => hno ⟨d, rfl, .inl ⟨hcut, hne⟩⟩
      have hblank : s.blank d = s := by
        unfold blank
        rw [← hdev', ← hsb']
      refine .inr (intact_of fun faults => ?_)
      rw [ht, hblank]
      apply formatStart_same hdev' hsb'
      intro lba hlba hall
      by_contra hne
      exact hno ⟨d, rfl, .inr ⟨hcut, lba, hlba, hall, hne⟩⟩
  · have hgood : s'.Unmounted ∨ s.Intact s' := by
      rcases hv : validateDev (s.devices d) with _ | _
      · rw [format_refused hv] at h
        cases h
        exact .inr (intact_of fun _ => rfl)
      · exact .inl (format_late hv (not_not.mp fun hc => hcut ⟨hv, hc⟩) h)
    refine ⟨fun _ hc => ?_, fun _ => hgood⟩
    obtain ⟨d', hd, hc, -⟩ := hc
    cases hd
    exact hcut hc

end SimpleFs

/-- **Mounts and formats that fail.** In a state with a mounted file system, a mount or format that
fails leaves either nothing mounted or the file system that was mounted, exactly unless a mount reads
a superblock that it refuses and that is not the one in memory; and unless a format fails in its
first writes with another device or superblock than those in memory, or after it has changed a
sector. In the first of these two cases for a format the file system is not intact. -/
theorem mount_errors {s : SimpleFs} (hm : s.simplefsMounted = true) (dev : Option Nat) (e : Int)
    (s' : SimpleFs) :
    (SimpleFs.simplefsMount dev s = (.error e, s') →
      (s'.Unmounted ∨ s.Intact s' ↔ ¬ ∃ d, dev = some d ∧ s.MountReplaces d)) ∧
    (SimpleFs.simplefsFormat dev s = (.error e, s') →
      (s'.Unmounted ∨ s.Intact s' → ¬ ∃ d, dev = some d ∧ s.FormatReplaces d) ∧
      (¬ (∃ d, dev = some d ∧ (s.FormatReplaces d ∨ s.FormatErases d)) →
        s'.Unmounted ∨ s.Intact s')) :=
  ⟨SimpleFs.mount_error_iff hm, SimpleFs.format_error_iff hm⟩

/-- A file system on device 0, and device 1 full of zeros. -/
def besideBlank : SimpleFs :=
  { SimpleFs.ofVolume 0 (oneFile 8 (fileA 5 1 1)).writeSuper .none with
    disk := update (fun _ _ => zeroSector) 0
      ((SimpleFs.ofVolume 0 (oneFile 8 (fileA 5 1 1)).writeSuper .none).disk 0) }

/-- Mounting device 1 fails, and device 0 stays mounted with the superblock of device 1. -/
theorem mount_leaves_unvalidated :
    ∃ s', SimpleFs.simplefsMount (some 1) besideBlank = (.error vfsEio, s') ∧
      ¬ (s'.Unmounted ∨ besideBlank.Intact s') := by
  have hv : SimpleFs.validateDev (besideBlank.devices 1) = true := by decide
  have hread : besideBlank.faults.read 0 = false := rfl
  have hzero : besideBlank.disk 1 0 = zeroSector := rfl
  have hbad : SimpleFs.superblockValid (Superblock.ofBytes (besideBlank.disk 1 0))
      (besideBlank.devices 1) = false := by
    rw [hzero]
    decide
  have hrun : SimpleFs.simplefsMount (some 1) besideBlank =
      (.error vfsEio, besideBlank.loaded 1) := by
    rw [SimpleFs.mount_eq hv, hread, hbad]
    rfl
  refine ⟨_, hrun, ?_⟩
  rw [SimpleFs.mount_error_iff rfl hrun, not_not]
  refine ⟨1, rfl, hv, hread, hbad, fun hc => ?_⟩
  rw [hzero] at hc
  exact absurd (congrArg Superblock.magic hc) (by decide)

/-- Both devices can be written, and neither can be read any more. -/
def unreadable : SimpleFs := { besideBlank with faults := ⟨fun _ => true, fun _ => false⟩ }

/-- Mounting device 1 fails and leaves device 0 mounted; formatting it fails and leaves nothing mounted. -/
theorem mount_errors_unreadable :
    (∃ s', SimpleFs.simplefsMount (some 1) unreadable = (.error vfsEio, s') ∧ unreadable.Intact s') ∧
      ∃ s', SimpleFs.simplefsFormat (some 1) unreadable = (.error vfsEio, s') ∧ s'.Unmounted := by
  have hv : SimpleFs.validateDev (unreadable.devices 1) = true := by decide
  have hmount : SimpleFs.simplefsMount (some 1) unreadable = (.error vfsEio, unreadable.asked) := by
    rw [SimpleFs.mount_eq hv]
    exact if_pos rfl
  obtain ⟨s', hformat, hunmounted⟩ := SimpleFs.format_unreadable hv ⟨nofun, fun _ _ => rfl⟩ rfl
  have hclear : unreadable.faults.Clear 0 (1 + simplefsDirSectors) := ⟨nofun, fun _ _ => rfl⟩
  constructor
  · have hkept := ((mount_errors (s := unreadable) rfl (some 1) vfsEio unreadable.asked).1 hmount).mpr
      fun ⟨_, _, hreplaces⟩ => by cases hreplaces.2.1
    exact ⟨_, hmount, hkept.resolve_left fun hun => by cases hun.1⟩
  · have hkept := ((mount_errors (s := unreadable) rfl (some 1) vfsEio s').2 hformat).2
      fun ⟨_, hd, hcase⟩ => by
        cases hd
        exact hcase.elim (fun hreplaces => hreplaces.1.2 hclear) fun herases => herases.1.2 hclear
    refine ⟨s', hformat, hkept.resolve_right fun hintact => ?_⟩
    cases hunmounted.symm.trans hintact.2.2.2.1

end AgenticOs
