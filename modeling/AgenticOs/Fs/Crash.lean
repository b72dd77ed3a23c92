import AgenticOs.Fs.Remount

/-!
# Power cuts

A call is cut short after any number of its sector writes, and the device is mounted again.

* **Order of writes**: only the last write of a call, that of the directory entry, changes what a file is.
  Before it, a file that moves has only been copied to free sectors (`Consistent.midMove`), and a file that
  stays has only changed in the range that is written (`Consistent.midInPlace`).
* **Calls that are cut** (`Working.cut_open`, `Working.cut_write`): what is on the device holds a volume that
  can be mounted (`Readable`). A read and a stat write nothing (`keepsDisk_read`, `keepsDisk_stat`).
* **Mounting again** (`mount_contents`): the mount succeeds, and reads answer with the files of that volume.
* **Main result** (`power_cut_safe`): after formatting a device that works and any sequence of calls, a call
  is cut short anywhere. Then every file that the call does not name is as it was, and the file that it names
  is as before or as after the call, or is mixed in the range that a write covers (`FsOp.Survives`).
-/

namespace AgenticOs

open Function Lib Lib.StM Volume

variable {d : Nat} {s s' : SimpleFs} {V V' W U : Volume} {name : List Byte} {i j : Nat}

/-- The contents of a file, as `simplefs_read` answers. -/
def SimpleFs.contents (s : SimpleFs) (path : Option CString) : Except Int (List Byte) :=
  (SimpleFs.simplefsRead path 0 true (wordSize - 1) s).1

namespace Volume

/-- What a path answers on a volume. -/
def contents (V : Volume) (path : Option CString) : Except Int (List Byte) :=
  match SimpleFs.normalizePath path with
  | none => .error vfsEinval
  | some name => match V.files name with
    | none => .error vfsEnoent
    | some bytes => .ok bytes

/-- A volume whose extents fit together and hold their files. -/
structure Readable (V : Volume) : Prop where
  super : V.SuperOk
  laid : V.Laid simplefsMaxFiles
  sized : V.Sized

/-- A consistent volume can be read. -/
theorem Consistent.readable (h : V.Consistent) : V.Readable := ⟨h.super, ⟨h.extent, h.disjoint⟩, h.size⟩

/-- Files are shorter than the largest count. -/
theorem Agrees.take_all (h : V.Agrees) (hs : V.Sized) (hmax : V.total ≤ simplefsMaxTrackedSectors)
    {bytes : List Byte} (hb : V.files name = some bytes) :
    (bytes.drop 0).take (wordSize - 1) = bytes := by
  rcases hl : V.lookup name with _ | j
  · rw [files_eq_none.mpr hl] at hb
    cases hb
  · rw [files_of_lookup hl] at hb
    cases hb
    obtain ⟨hj, hlive, -⟩ := lookup_lt hl
    have hsize := hs j hj hlive
    rw [List.drop_zero]
    apply List.take_of_length_le
    rw [length_fileBytes]
    rcases h.size_bound hs hmax hj hlive with ⟨-, hz⟩ | hb
    · omega
    · simp only [sectorSize, simplefsMaxTrackedSectors, wordSize] at *
      omega

end Volume

/-- Reading whole files on a mounted volume. -/
theorem Holds.contents_eq (hs : Holds d s V) (ha : V.Agrees) (hsized : V.Sized)
    (hm : V.mounted = true) (hf : s.faults = .none) (path : Option CString) :
    s.contents path = V.contents path := by
  unfold SimpleFs.contents Volume.contents
  rcases hpath : SimpleFs.normalizePath path with _ | name
  · unfold SimpleFs.simplefsRead
    rw [bind_ok (requireMounted_eq hs hm), if_neg (by decide), normalize_none hpath]
    rfl
  · obtain ⟨-, hmax⟩ := hs.total_bounds
    obtain ⟨r, hx⟩ := ha.read (d := d) (E := fun _ => True) hsized hmax hm hpath 0
      (show true = true ∨ wordSize - 1 = 0 from .inl rfl) trivial
    obtain ⟨s', hrun, -⟩ := hx.run hs hf
    rw [hrun]
    dsimp only
    rcases hb : V.files name with _ | bytes
    · rfl
    · dsimp only
      rw [ha.take_all hsized hmax hb]

/-- The state after a device has been mounted that holds a readable volume. -/
theorem mount_contents {r : SimpleFs} (hf : r.faults = .none)
    (hv : SimpleFs.validateDev (r.devices d) = true) (htotal : (r.devices d).sectorCount = W.total)
    (hbytes : ∀ lba k, k < sectorSize → r.disk d lba k = W.bytes (sectorSize * lba + k))
    (hw : W.Readable) :
    ∃ r', SimpleFs.simplefsMount (some d) r = (.ok (), r') ∧
      ∀ path, r'.contents path = W.contents path := by
  obtain ⟨r', used, top, hrun, hf', hr', hm, -, -⟩ := SimpleFs.mount_run hf hv htotal hbytes hw.super
    hw.laid
  refine ⟨r', hrun, fun path => ?_⟩
  rw [hr'.contents_eq (hw.laid.remounted hm) hw.sized.remounted rfl hf' path]
  unfold Volume.contents
  rw [remounted_files hw.laid hw.sized]

/-! ### What a cut can leave on the device -/

namespace Volume

/-- Bytes written to the data sectors leave a readable volume. -/
theorem Readable.smeared {a n : Nat} (h : V.Readable) (hs : V.Smeared a n U)
    (ha : simplefsDataStart * sectorSize ≤ a) : U.Readable := by
  obtain ⟨ht, -, -, -⟩ := hs.fields
  refine ⟨hs.superOk ha h.super, ⟨?_, ?_⟩, ?_⟩
  · intro i hi
    rw [hs.entry ha hi]
    unfold ExtentOk
    rw [ht]
    exact h.laid.extent i hi
  · intro i hi j hj
    rw [hs.entry ha hi, hs.entry ha hj]
    exact h.laid.disjoint i hi j hj
  · intro i hi
    rw [hs.entry ha hi]
    exact h.sized i hi

/-- Names are found as before. -/
theorem Smeared.lookup {a n : Nat} (hs : V.Smeared a n U)
    (ha : simplefsDataStart * sectorSize ≤ a) (name : List Byte) : U.lookup name = V.lookup name := by
  unfold Volume.lookup
  apply List.find?_congr
  intro i hi
  rw [List.mem_range'_1] at hi
  rw [hs.entry ha (by omega)]

/-- Files whose bytes are not written over stay. -/
theorem Smeared.files_eq {a n : Nat} (hs : V.Smeared a n U)
    (ha : simplefsDataStart * sectorSize ≤ a)
    (hout : ∀ i, V.lookup name = some i → ∀ p < (V.entry i).sizeBytes,
      dataAddr (V.entry i) p < a ∨ a + n ≤ dataAddr (V.entry i) p) :
    U.files name = V.files name := by
  unfold files
  rw [hs.lookup ha]
  rcases hl : V.lookup name with _ | i
  · rfl
  · rw [Option.map_some, Option.map_some, hs.entry ha (lookup_lt hl).1,
      fileBytes_congr fun p hp => hs.bytes (hout i hl p hp)]

/-- A volume with a run that is marked can be read. -/
theorem Readable.allocated (h : V.Readable) {start count : Nat} (hend : start + count ≤ V.total) :
    (V.allocated start count).Readable := by
  refine ⟨h.super.allocated hend, ⟨?_, ?_⟩, ?_⟩
  · intro i hi
    rw [allocated_entry hi]
    exact h.laid.extent i hi
  · intro i hi j hj
    rw [allocated_entry hi, allocated_entry hj]
    exact h.laid.disjoint i hi j hj
  · intro i hi
    rw [allocated_entry hi]
    exact h.sized i hi

/-- Its names are found as before. -/
theorem allocated_lookup {start count : Nat} (name : List Byte) :
    (V.allocated start count).lookup name = V.lookup name := by
  unfold Volume.lookup
  apply List.find?_congr
  intro i hi
  rw [List.mem_range'_1] at hi
  rw [allocated_entry (by omega)]

/-- And its files are the same. -/
theorem Readable.allocated_files (h : V.Readable) {start count : Nat} (name : List Byte) :
    (V.allocated start count).files name = V.files name := by
  unfold files
  rw [allocated_lookup]
  rcases hl : V.lookup name with _ | i
  · rfl
  · obtain ⟨hi, hlive, -⟩ := lookup_lt hl
    rw [Option.map_some, Option.map_some, allocated_entry hi]
    congr 1
    apply fileBytes_congr
    intro p hp
    apply allocated_bytes
    have haddr := ((h.laid.extent i hi hlive).addr (p := p) (by
      have := h.sized i hi hlive
      omega)).1
    simp only [simplefsDataStart, sectorSize] at *
    omega

/-- While a file moves, every file is as it was: the device holds a volume with the same files. -/
theorem Consistent.midMove (h : V.Consistent) {start req : Nat} (hrun : V.freeRun req = some start)
    (hu : V.MidMove start req U) :
    ∃ W : Volume, W.bytes = U.bytes ∧ W.total = V.total ∧ W.Readable ∧ W.files = V.files := by
  obtain ⟨hstart, hend, hfree⟩ := freeRun_some hrun
  rcases hu with rfl | hu
  · exact ⟨V, rfl, rfl, h.readable, rfl⟩
  · have hwide : simplefsDataStart * sectorSize ≤ sectorSize * start := by
      rw [Nat.mul_comm]
      exact Nat.mul_le_mul_left _ hstart
    refine ⟨U, rfl, hu.fields.1, (h.readable.allocated hend).smeared hu hwide, ?_⟩
    funext name
    rw [← show (V.allocated start req).files name = V.files name from h.readable.allocated_files name]
    refine hu.files_eq hwide fun i hl p hp => ?_
    rw [allocated_lookup] at hl
    obtain ⟨hi, hlive, -⟩ := lookup_lt hl
    rw [allocated_entry hi] at hp ⊢
    have hsize := h.size i hi hlive
    -- the new run is free, so it has no sector of this file
    have hno : ∀ x, (V.entry i).Holds x → ¬ Holds.inRun start req x := by
      intro x hx hc
      have := (h.bitmap x).mpr (.inr ⟨i, hi, hlive, hx⟩)
      rw [hfree x hc] at this
      cases this
    by_cases hc : sectorSize * start ≤ dataAddr (V.entry i) p
    · refine .inr (Nat.not_lt.mp fun hlt => ?_)
      have hx : dataAddr (V.entry i) p / sectorSize < start + req ∧
          start ≤ dataAddr (V.entry i) p / sectorSize ∧
          (V.entry i).Holds (dataAddr (V.entry i) p / sectorSize) := by
        unfold DirEntry.Holds Holds.inRun
        unfold dataAddr at *
        simp only [sectorSize] at *
        omega
      exact hno _ hx.2.2 ⟨hx.2.1, hx.1⟩
    · exact .inl (Nat.not_le.mp hc)

/-- While a file is written in its place, only the range that is written changes. -/
theorem Consistent.midInPlace (h : V.Consistent) (hl : V.lookup name = some j) {offset count : Nat}
    (hs : Small (V.entry j) offset count)
    (hfits : required (V.entry j) offset count ≤ (V.entry j).allocatedSectors)
    (hu : V.Smeared (dataAddr (V.entry j) offset) count U) :
    U.Readable ∧ U.files = update V.files name (some (U.fileBytes (V.entry j))) ∧
      (U.fileBytes (V.entry j)).length = (V.fileBytes (V.entry j)).length ∧
      ∀ p < (V.fileBytes (V.entry j)).length, ¬ (offset ≤ p ∧ p < offset + count) →
        (U.fileBytes (V.entry j))[p]? = (V.fileBytes (V.entry j))[p]? := by
  obtain ⟨hj, hlive, hname⟩ := lookup_lt hl
  have hpos := hs.pos
  have hsum : offset + count ≤ grownSize (V.entry j) offset count := Nat.le_max_right _ _
  have hroom := Nat.le_trans hs.fits (Nat.mul_le_mul_left sectorSize hfits)
  have haddr := ((h.extent j hj hlive).addr (p := offset) (by omega)).1
  refine ⟨h.readable.smeared hu haddr, ?_, by rw [length_fileBytes, length_fileBytes], ?_⟩
  · funext other
    by_cases ho : other = name
    · rw [ho, update_self]
      unfold files
      rw [hu.lookup haddr, hl, Option.map_some, hu.entry haddr hj]
    · rw [update_of_ne ho]
      refine hu.files_eq haddr fun i hi p hp => ?_
      obtain ⟨hilt, hilive, hiname⟩ := lookup_lt hi
      have hij : i ≠ j := by
        rintro rfl
        exact ho (hiname.symm.trans hname)
      by_cases hc : dataAddr (V.entry j) offset ≤ dataAddr (V.entry i) p
      · refine .inr (Nat.not_lt.mp fun hlt => ?_)
        have hisize := h.size i hilt hilive
        refine dataAddr_ne (q := dataAddr (V.entry i) p - sectorSize * (V.entry j).startSector)
          (h.disjoint i hilt j hj hij hilive hlive) (p := p) (by omega) ?_ ?_
        · unfold dataAddr at *
          omega
        · unfold dataAddr at *
          omega
      · exact .inl (Nat.not_le.mp hc)
  · intro p hp hout
    rw [length_fileBytes] at hp
    have hb := hu.bytes (p := dataAddr (V.entry j) p) (by unfold dataAddr; omega)
    rw [List.getElem?_eq_getElem (by rw [length_fileBytes]; exact hp),
      List.getElem?_eq_getElem (by rw [length_fileBytes]; exact hp), getElem_fileBytes,
      getElem_fileBytes, hb]

end Volume

/-! ### The calls -/

/-- The same file system on a device that stops after `k` writes. -/
def SimpleFs.cut (s : SimpleFs) (k : Nat) : SimpleFs := { s with faults := .cutAfter k }

/-- The sectors of a device, as the bytes of a volume. -/
def OnDisk (d : Nat) (s : SimpleFs) (W : Volume) : Prop :=
  ∀ lba k, k < sectorSize → s.disk d lba k = W.bytes (sectorSize * lba + k)

/-- A call that is cut short: it is done, or a failure has left something behind. -/
theorem Working.cut_cases {α : Type} {x : FsM α} {r w : Nat} {res : Except Int α}
    {E : Volume → Prop} (h : Working d s V) (hx : Uses (onVolume d) x V r w res V' E) (k : Nat) :
    ∃ U, Holds d (x (s.cut k)).2 U ∧ (U = V' ∨ E U) := by
  have hs : Holds d (s.cut k) V := { h.holds with }
  by_cases hc : (s.cut k).faults.Clear r w
  · obtain ⟨s', hrun, hs', -⟩ := (hx _ hs).1 hc
    rw [hrun]
    exact ⟨V', hs', .inl rfl⟩
  · obtain ⟨s', u, hrun, hs', hu⟩ := (hx _ hs).2 hc
    rw [hrun]
    exact ⟨u, hs', .inr hu⟩

/-- `simplefs_open` cut short. -/
theorem Working.cut_open (h : Working d s V) (path : Option CString) (flags : Word) (k : Nat) :
    ∃ W, OnDisk d (SimpleFs.simplefsOpen path flags (s.cut k)).2 W ∧ W.total = V.total ∧
      W.Readable ∧ (W.files = V.files ∨ ∃ name, SimpleFs.normalizePath path = some name ∧
        W.files = update V.files name (some []) ∧
        (V.files name = none ∨ test flags vfsOTrunc = true)) := by
  have hs : Holds d (s.cut k) V := { h.holds with }
  rcases hpath : SimpleFs.normalizePath path with _ | name
  · refine ⟨V, ?_, rfl, h.consistent.readable, .inl rfl⟩
    have hrun : SimpleFs.simplefsOpen path flags (s.cut k) = (.error vfsEinval, s.cut k) := by
      unfold SimpleFs.simplefsOpen
      rw [bind_ok (requireMounted_eq hs h.mounted), normalize_none hpath]
      rfl
    rw [hrun]
    exact hs.bytes
  · obtain ⟨r, w, res, V', ho, hx⟩ := h.consistent.toAgrees.open (d := d) h.mounted hpath flags
    obtain ⟨hnext, hfiles⟩ := ho.next h.consistent (normalizePath_valid hpath)
    obtain ⟨U, hU, rfl | hmid⟩ := h.cut_cases hx k
    · refine ⟨U, hU.bytes, hnext.total, hnext.consistent.readable, ?_⟩
      by_cases hc : res.isOk ∧ (V.lookup name = none ∨ test flags vfsOTrunc = true)
      · rw [if_pos hc] at hfiles
        refine .inr ⟨name, rfl, hfiles, ?_⟩
        rw [files_eq_none]
        exact hc.2
      · rw [if_neg hc] at hfiles
        exact .inl hfiles
    · refine ⟨V, fun lba k hk => ?_, rfl, h.consistent.readable, .inl rfl⟩
      rw [hU.bytes lba k hk, hmid.bytes]

/-- `simplefs_write` cut short. -/
theorem Working.cut_write (h : Working d s V) (path : Option CString)
    (buffer : Option (Nat → Byte)) {offset count : Nat} (hend : offset + count ≤ writeLimit)
    (k : Nat) :
    ∃ W, OnDisk d (SimpleFs.simplefsWrite path offset buffer count (s.cut k)).2 W ∧
      W.total = V.total ∧ W.Readable ∧ (W.files = V.files ∨ ∃ name input j old new,
        SimpleFs.normalizePath path = some name ∧ buffer = some input ∧ V.lookup name = some j ∧
        V.files name = some old ∧ W.files = update V.files name (some new) ∧
        (new = splice old offset input count ∨
          required (V.entry j) offset count ≤ (V.entry j).allocatedSectors ∧
          new.length = old.length ∧ ∀ p < old.length, ¬ (offset ≤ p ∧ p < offset + count) →
            new[p]? = old[p]?)) := by
  have hsum : offset + count < wordSize := Nat.lt_of_le_of_lt hend (by decide)
  by_cases hcase : buffer = none ∨ count = 0 ∨ SimpleFs.normalizePath path = none
  · refine ⟨V, ?_, rfl, h.consistent.readable, .inl rfl⟩
    have hs : Holds d (s.cut k) V := { h.holds with }
    rw [Working.write_trivial hs h.mounted path buffer hsum hcase]
    exact hs.bytes
  · rw [not_or, not_or] at hcase
    obtain ⟨input, rfl⟩ := Option.ne_none_iff_exists'.mp hcase.1
    obtain ⟨name, hpath⟩ := Option.ne_none_iff_exists'.mp hcase.2.2
    have hpos : 0 < count := by omega
    have hsmall : ∀ j, V.lookup name = some j → Small (V.entry j) offset count := fun j hl =>
      h.small hl hpos hend
    obtain ⟨r, w, res, V', hw, hx⟩ := h.consistent.toAgrees.write (d := d) h.mounted h.total_ge
      h.total_le hpath input hpos hsum (h.consistent.toAgrees.placed h.total_le hsmall)
    obtain ⟨hnext, -, hfiles⟩ := hw.next h.consistent h.total_le hsmall
    obtain ⟨U, hU, rfl | hmid⟩ := h.cut_cases hx k
    · refine ⟨U, hU.bytes, hnext.total, hnext.consistent.readable, ?_⟩
      rcases hl : V.lookup name with _ | j
      · rw [files_eq_none.mpr hl] at hfiles
        left
        rw [hfiles.2]
      · rw [files_of_lookup hl] at hfiles
        rcases hfiles with ⟨-, hsame⟩ | ⟨-, hnew⟩
        · left
          rw [hsame]
        · exact .inr ⟨name, input, j, _, _, hpath, rfl, hl, files_of_lookup hl, hnew, .inl rfl⟩
    · rcases hmid with rfl | ⟨j, hl, ⟨hfits, hu⟩ | ⟨-, start, hrun, hu⟩⟩
      · exact ⟨U, hU.bytes, rfl, h.consistent.readable, .inl rfl⟩
      · obtain ⟨hread, hnew, hlen, hsame⟩ := h.consistent.midInPlace hl (hsmall j hl) hfits hu
        exact ⟨U, hU.bytes, hu.fields.1, hread, .inr ⟨name, input, j, _, _, hpath, rfl, hl,
          files_of_lookup hl, hnew, .inr ⟨hfits, hlen, hsame⟩⟩⟩
      · obtain ⟨W, hbytes, htotal, hread, hsame⟩ := h.consistent.midMove hrun hu
        refine ⟨W, fun lba k hk => ?_, htotal, hread, .inl hsame⟩
        rw [hU.bytes lba k hk, hbytes]

/-! ### Calls that write nothing -/

namespace SimpleFs

/-- A computation that leaves all sectors as they are. -/
def KeepsDisk {α : Type} (x : FsM α) : Prop := ∀ s, (x s).2.disk = s.disk

/-- A value writes nothing. -/
theorem KeepsDisk.pure {α : Type} (a : α) : KeepsDisk (Pure.pure a : FsM α) := fun _ => rfl

/-- Nor does an error. -/
theorem KeepsDisk.fail {α : Type} (e : Int) : KeepsDisk (StM.fail e : FsM α) := fun _ => rfl

/-- Nor does a look at the state. -/
theorem KeepsDisk.get : KeepsDisk (StM.get : FsM SimpleFs) := fun _ => rfl

/-- A check before the rest. -/
theorem KeepsDisk.check {α β : Type} {c : Prop} [Decidable c] {e : Int} {g : α → FsM β} {y : FsM β}
    (hy : KeepsDisk y) : KeepsDisk (if c then StM.fail e >>= g else y) := by
  split
  · exact fun _ => rfl
  · exact hy

/-- Two computations one after the other. -/
theorem KeepsDisk.bind {α β : Type} {x : FsM α} {f : α → FsM β} (hx : KeepsDisk x)
    (hf : ∀ a, KeepsDisk (f a)) : KeepsDisk (x >>= f) := by
  intro s
  have h := hx s
  rcases hrun : x s with ⟨_ | a, s'⟩
  · rw [StM.bind_error hrun]
    rw [hrun] at h
    exact h
  · rw [bind_ok hrun, hf a s']
    rw [hrun] at h
    exact h

/-- Reading a sector writes none. -/
theorem keepsDisk_readSector (lba : Nat) : KeepsDisk (readSector lba) := by
  intro s
  unfold readSector
  rcases s.simplefsDev with _ | dev
  · rfl
  · dsimp only
    split <;> rfl

/-- Nor does reading an entry. -/
theorem keepsDisk_readEntry (i : Nat) : KeepsDisk (readEntry i) := by
  refine KeepsDisk.get.bind fun s => ?_
  dsimp only
  split
  · exact (KeepsDisk.fail _).bind fun _ => (keepsDisk_readSector _).bind fun _ => KeepsDisk.pure _
  · exact (keepsDisk_readSector _).bind fun _ => KeepsDisk.pure _

/-- Nor does a search of the directory. -/
theorem keepsDisk_findFrom (test : DirEntry → Bool) (status : Int) (n i : Nat) :
    KeepsDisk (findFrom test status i n) := by
  induction n generalizing i with
  | zero => exact KeepsDisk.fail _
  | succ n ih =>
    refine (keepsDisk_readEntry i).bind fun entry => ?_
    split
    · exact KeepsDisk.pure _
    · exact ih (i + 1)

/-- Nor does the loop of `simplefs_read`. -/
theorem keepsDisk_readLoop (entry : DirEntry) (offset count done : Nat) :
    KeepsDisk (readLoop entry offset count done) := by
  induction done using readLoop.induct offset count with
  | case1 done hlt absolute sectorOffset chunk ih =>
    rw [readLoop, if_pos hlt]
    exact (keepsDisk_readSector _).bind fun _ => ih.bind fun _ => KeepsDisk.pure _
  | case2 done hlt =>
    rw [readLoop, if_neg hlt]
    exact KeepsDisk.pure _

/-- Nor does the check that a file system is mounted. -/
theorem keepsDisk_requireMounted : KeepsDisk requireMounted := by
  refine KeepsDisk.get.bind fun s => ?_
  split
  · exact KeepsDisk.fail _
  · exact KeepsDisk.pure _

/-- Nor does the check of a path. -/
theorem keepsDisk_normalize (path : Option CString) : KeepsDisk (normalize path) := by
  unfold normalize
  split
  · exact KeepsDisk.fail _
  · exact KeepsDisk.pure _

/-- `simplefs_read` writes nothing. -/
theorem keepsDisk_read (path : Option CString) (offset : Nat) (buffer : Bool) (count : Nat) :
    KeepsDisk (simplefsRead path offset buffer count) := by
  refine keepsDisk_requireMounted.bind fun _ => .check ((keepsDisk_normalize path).bind fun _ =>
    (keepsDisk_findFrom _ _ _ _).bind fun found => ?_)
  dsimp only
  split
  · exact .pure _
  · exact keepsDisk_readLoop _ _ _ _

/-- `simplefs_stat` writes nothing. -/
theorem keepsDisk_stat (path : Option CString) (out : Bool) : KeepsDisk (simplefsStat path out) :=
  keepsDisk_requireMounted.bind fun _ => .check ((keepsDisk_normalize path).bind fun _ =>
    (keepsDisk_findFrom _ _ _ _).bind fun _ => .pure _)

end SimpleFs

/-! ### What is found after the device is mounted again -/

/-- What a call that was cut short may have made of the files, for a file system before it and the
one found when the device is mounted again. -/
def FsOp.Survives (old new : SimpleFs) : FsOp → Prop
  | .open path flags =>
    (∀ other, SimpleFs.normalizePath other ≠ SimpleFs.normalizePath path →
      new.contents other = old.contents other) ∧
    (new.contents path = old.contents path ∨ new.contents path = .ok [] ∧
      (old.contents path = .error vfsEnoent ∨ test flags vfsOTrunc = true))
  | .write path offset buffer count =>
    (∀ other, SimpleFs.normalizePath other ≠ SimpleFs.normalizePath path →
      new.contents other = old.contents other) ∧
    (new.contents path = old.contents path ∨
      ∃ input info bytes bytes', buffer = some input ∧
        (SimpleFs.simplefsStat path true old).1 = .ok info ∧ old.contents path = .ok bytes ∧
        new.contents path = .ok bytes' ∧
        if info.allocatedSectors < SimpleFs.sectorsForBytes (max info.size (offset + count)) then
          bytes' = splice bytes offset input count
        else (bytes'.length = bytes.length ∨ bytes'.length = max bytes.length (offset + count)) ∧
          ∀ p < bytes.length, ¬ (offset ≤ p ∧ p < offset + count) → bytes'[p]? = bytes[p]?)
  | _ => ∀ path, new.contents path = old.contents path

/-- The bytes outside a range that is replaced. -/
theorem getElem?_splice {old : List Byte} {offset count p : Nat} {input : Nat → Byte}
    (hp : p < old.length) (hout : ¬ (offset ≤ p ∧ p < offset + count)) :
    (splice old offset input count)[p]? = old[p]? := by
  unfold splice
  rw [List.getElem?_map, List.getElem?_range (by omega), Option.map_some, if_neg hout,
    List.getD_eq_getElem _ _ hp, List.getElem?_eq_getElem hp]

namespace Volume

/-- What a path answers depends on the files. -/
theorem contents_congr (h : W.files = V.files) (path : Option CString) :
    W.contents path = V.contents path := by
  unfold contents
  rw [h]

/-- The bytes of a file that is there. -/
theorem contents_of_some {path : Option CString} {bytes : List Byte}
    (hpath : SimpleFs.normalizePath path = some name) (hb : V.files name = some bytes) :
    V.contents path = .ok bytes := by
  unfold contents
  rw [hpath]
  dsimp only
  rw [hb]

/-- The answer for a file that is not there. -/
theorem contents_of_none {path : Option CString} (hpath : SimpleFs.normalizePath path = some name)
    (hb : V.files name = none) : V.contents path = .error vfsEnoent := by
  unfold contents
  rw [hpath]
  dsimp only
  rw [hb]

/-- Changing one file changes no other. -/
theorem contents_update {path other : Option CString} {new : Option (List Byte)}
    (hpath : SimpleFs.normalizePath path = some name) (hw : W.files = update V.files name new)
    (ho : SimpleFs.normalizePath other ≠ SimpleFs.normalizePath path) :
    W.contents other = V.contents other := by
  unfold contents
  rcases hother : SimpleFs.normalizePath other with _ | name'
  · rfl
  · have hne : name' ≠ name := by
      rintro rfl
      exact ho (hother.trans hpath.symm)
    dsimp only
    rw [hw, update_of_ne hne]

end Volume

/-- **A power cut leaves the files whole.** After formatting a device that works and any sequence of
calls, a call is cut short after `k` of its sector writes, and the device is mounted again by a
kernel that knows nothing of what was in memory. The mount succeeds. Every file other than the one
the call is about is as it was; a new file is absent or empty; a truncated file is as it was or
empty; a file that had to move has its old or its new contents; and a file written in its place has
its old or its new size, and its old bytes outside the range. -/
theorem power_cut_safe (s : SimpleFs) (d : Nat) (hf : s.faults = .none)
    (hv : SimpleFs.validateDev (s.devices d) = true) (ops : List FsOp)
    (hb : ∀ op ∈ ops, op.Bounded) (op : FsOp) (hop : op.Bounded) (k : Nat) (r : SimpleFs)
    (hr : r.faults = .none) (hdev : r.devices d = s.devices d)
    (hdisk : r.disk d = (op.step
      ((FsOp.exec (SimpleFs.simplefsFormat (some d) s).2 ops).cut k)).disk d) :
    ∃ r', SimpleFs.simplefsMount (some d) r = (.ok (), r') ∧
      op.Survives (FsOp.exec (SimpleFs.simplefsFormat (some d) s).2 ops) r' := by
  obtain ⟨s0, V0, hformat, h0, ht0, -⟩ := Working.format hf hv
  rw [hformat] at hdisk ⊢
  obtain ⟨V, h, ht⟩ := h0.exec ops hb
  set s1 := FsOp.exec s0 ops
  have hold : ∀ path, s1.contents path = V.contents path :=
    h.holds.contents_eq h.consistent.toAgrees h.consistent.size h.mounted h.faults
  have hstep : Holds d (s1.cut k) V := { h.holds with }
  -- mounting sectors that hold a volume
  have remount : ∀ W : Volume, OnDisk d (op.step (s1.cut k)) W → W.total = V.total → W.Readable →
      ∃ r', SimpleFs.simplefsMount (some d) r = (.ok (), r') ∧
        ∀ path, r'.contents path = W.contents path := by
    intro W hW htotal hread
    refine mount_contents hr (by rw [hdev]; exact hv) (by rw [hdev, htotal, ht, ht0]) ?_ hread
    intro lba k' hk'
    rw [hdisk]
    exact hW lba k' hk'
  cases op with
  | «open» path flags =>
    obtain ⟨W, hW, htotal, hread, hfiles⟩ := h.cut_open path flags k
    obtain ⟨r', hmount, hnew⟩ := remount W hW htotal hread
    refine ⟨r', hmount, ?_⟩
    rcases hfiles with hsame | ⟨name, hpath, hupdate, hwhy⟩
    · refine ⟨fun other _ => ?_, .inl ?_⟩
      · rw [hnew, hold, contents_congr hsame]
      · rw [hnew, hold, contents_congr hsame]
    · refine ⟨fun other ho => ?_, .inr ⟨?_, hwhy.imp_left fun hn => ?_⟩⟩
      · rw [hnew, hold, contents_update hpath hupdate ho]
      · rw [hnew]
        exact contents_of_some hpath (by rw [hupdate, update_self])
      · rw [hold, contents_of_none hpath hn]
  | write path offset buffer count =>
    obtain ⟨W, hW, htotal, hread, hfiles⟩ := h.cut_write path buffer hop k
    obtain ⟨r', hmount, hnew⟩ := remount W hW htotal hread
    refine ⟨r', hmount, ?_⟩
    rcases hfiles with hsame | ⟨name, input, j, old, new, hpath, rfl, hl, ho, hupdate, hwhat⟩
    · refine ⟨fun other _ => ?_, .inl ?_⟩
      · rw [hnew, hold, contents_congr hsame]
      · rw [hnew, hold, contents_congr hsame]
    · refine ⟨fun other hother => ?_, .inr ⟨input, (V.entry j).info, old, new, rfl, ?_, ?_, ?_, ?_⟩⟩
      · rw [hnew, hold, contents_update hpath hupdate hother]
      · obtain ⟨_, hstat, -⟩ := h.stat_run path true
        rw [hstat, hpath]
        dsimp only
        rw [hl]
        rfl
      · rw [hold, contents_of_some hpath ho]
      · rw [hnew]
        exact contents_of_some hpath (by rw [hupdate, update_self])
      · show if (V.entry j).allocatedSectors < required (V.entry j) offset count then _ else _
        by_cases hgrow : (V.entry j).allocatedSectors < required (V.entry j) offset count
        · rw [if_pos hgrow]
          exact hwhat.resolve_right fun hc => by omega
        · rw [if_neg hgrow]
          rcases hwhat with rfl | ⟨-, hlen, hsame⟩
          · exact ⟨.inr (length_splice _ _ _ _), fun p hp hout => getElem?_splice hp hout⟩
          · exact ⟨.inl hlen, hsame⟩
  | read path offset buffer count =>
    have hsame := SimpleFs.keepsDisk_read path offset buffer count (s1.cut k)
    obtain ⟨r', hmount, hnew⟩ := remount V (fun lba k' hk' => by
      show (SimpleFs.simplefsRead path offset buffer count (s1.cut k)).2.disk d lba k' = _
      rw [hsame]
      exact hstep.bytes lba k' hk') rfl h.consistent.readable
    exact ⟨r', hmount, fun path => by rw [hnew, hold]⟩
  | stat path out =>
    have hsame := SimpleFs.keepsDisk_stat path out (s1.cut k)
    obtain ⟨r', hmount, hnew⟩ := remount V (fun lba k' hk' => by
      show (SimpleFs.simplefsStat path out (s1.cut k)).2.disk d lba k' = _
      rw [hsame]
      exact hstep.bytes lba k' hk') rfl h.consistent.readable
    exact ⟨r', hmount, fun path => by rw [hnew, hold]⟩

/-- The devices at boot are those of the machine. -/
theorem SimpleFs.atBoot_disk (devices : Nat → BlockDevice) (disk : Nat → Nat → Sector) (d : Nat) :
    (SimpleFs.atBoot devices disk).disk d = disk d := rfl

/-- A write to a new file on a device of eight sectors, cut after its second sector write; the kernel
boots and mounts the device. -/
theorem power_cut_safe_small :
    ∃ r', SimpleFs.simplefsMount (some 0) (SimpleFs.atBoot (fun _ => ⟨8, 512, true, true⟩)
        (FsOp.step ((FsOp.exec (SimpleFs.simplefsFormat (some 0) (SimpleFs.atBoot
            (fun _ => ⟨8, 512, true, true⟩) fun _ _ => zeroSector)).2
            [.open (some [0x2F, 0x61]) vfsOCreat]).cut 2)
            (.write (some [0x2F, 0x61]) 3 (some fun _ => 7) 600)).disk) = (.ok (), r') ∧
      (FsOp.write (some [0x2F, 0x61]) 3 (some fun _ => 7) 600).Survives
        (FsOp.exec (SimpleFs.simplefsFormat (some 0) (SimpleFs.atBoot
          (fun _ => ⟨8, 512, true, true⟩) fun _ _ => zeroSector)).2
          [.open (some [0x2F, 0x61]) vfsOCreat]) r' :=
  power_cut_safe (SimpleFs.atBoot (fun _ => ⟨8, 512, true, true⟩) fun _ _ => zeroSector) 0 rfl
    (by decide) [.open (some [0x2F, 0x61]) vfsOCreat] (by decide)
    (.write (some [0x2F, 0x61]) 3 (some fun _ => 7) 600) (by decide) 2 _ rfl rfl
    (SimpleFs.atBoot_disk _ _ 0)

end AgenticOs
