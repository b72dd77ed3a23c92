import AgenticOs.Fs.Working

/-!
# Mounting again

The bitmap that the operations maintain is the one a mount computes from the directory, and mounting changes
no file.

* **Directories** (`Holds.dirEntry_eq`): the entries as they are on the device are those of the volume.
* **Files** (`remounted_files`): a mount changes the bitmap and the high-water mark only, and so every file
  stays.
* **Mounts** (`Working.mount`): mounting the device of a working file system succeeds, whatever is in memory,
  and what it leaves is again a working file system.
* **Main result** (`allocation_map_rebuilt`): after formatting a device that works and any sequence of calls,
  the bitmap marks the sectors below `SIMPLEFS_DATA_START` and those of the extents in the directory on the
  device; a mount computes the same bitmap again.
-/

namespace AgenticOs

open Function Lib Lib.StM Volume

/-- Entry `i` of the directory on a device. -/
def SimpleFs.dirEntry (s : SimpleFs) (d i : Nat) : DirEntry :=
  DirEntry.ofBytes fun k => s.disk d (simplefsDirStart + i / (sectorSize / dirEntrySize))
    (i % (sectorSize / dirEntrySize) * dirEntrySize + k)

variable {d : Nat} {s : SimpleFs} {V : Volume} {used : Nat → Bool} {top : Nat}

/-- The directory on a device with the bytes of a volume. -/
theorem dirEntry_of_bytes
    (h : ∀ lba k, k < sectorSize → s.disk d lba k = V.bytes (sectorSize * lba + k)) (i : Nat) :
    s.dirEntry d i = V.entry i := by
  apply DirEntry.ofBytes_congr
  intro k hk
  rw [h _ _ (by have := Holds.entry_in_sector i (k + 1) (by omega); omega), Holds.entryAddr_eq]

/-- The directory on the device is that of the volume. -/
theorem Holds.dirEntry_eq (h : Holds d s V) (i : Nat) : s.dirEntry d i = V.entry i :=
  dirEntry_of_bytes h.bytes i

namespace Volume

/-- A mount writes the superblock only. -/
theorem remounted_bytes {p : Nat} (hp : sectorSize ≤ p) :
    (V.remounted used top).bytes p = V.bytes p :=
  write_bytes_of_not (V := (V.withUsed used).withNextFree top) (by omega)

/-- The entries stay. -/
theorem remounted_entry {i : Nat} (hi : i < simplefsMaxFiles) :
    (V.remounted used top).entry i = V.entry i :=
  entry_congr (fun _ hp _ => remounted_bytes hp) hi

/-- So does what is found by name. -/
theorem remounted_lookup (name : List Byte) :
    (V.remounted used top).lookup name = V.lookup name :=
  lookup_congr fun _ hi => remounted_entry hi

/-- The bitmap that a mount computes agrees with the directory. -/
theorem Laid.remounted (h : V.Laid simplefsMaxFiles) (hm : V.Marks used simplefsMaxFiles) :
    (V.remounted used top).Agrees := by
  refine { extent := ?_, disjoint := ?_, bitmap := ?_ }
  · intro i hi
    rw [remounted_entry hi]
    exact h.extent i hi
  · intro i hi j hj
    rw [remounted_entry hi, remounted_entry hj]
    exact h.disjoint i hi j hj
  · intro x
    rw [show (V.remounted used top).used x = used x from rfl, hm x]
    apply or_congr_right
    constructor
    · rintro ⟨i, hi, hx⟩
      exact ⟨i, hi, by rw [remounted_entry hi]; exact hx⟩
    · rintro ⟨i, hi, hx⟩
      rw [remounted_entry hi] at hx
      exact ⟨i, hi, hx⟩

/-- Files still fit in their extents. -/
theorem Sized.remounted (h : V.Sized) : (V.remounted used top).Sized := by
  intro i hi
  rw [remounted_entry hi]
  exact h i hi

/-- Files whose extents are in the data sectors are where they were. -/
theorem remounted_fileBytes {e : DirEntry} (hext : V.ExtentOk e)
    (hsize : e.sizeBytes ≤ sectorSize * e.allocatedSectors) :
    (V.remounted used top).fileBytes e = V.fileBytes e := by
  apply fileBytes_congr
  intro p hp
  apply remounted_bytes
  have haddr := (hext.addr (p := p) (by omega)).1
  simp only [simplefsDataStart, sectorSize] at *
  omega

/-- **Every file stays.** -/
theorem remounted_files (h : V.Laid simplefsMaxFiles) (hs : V.Sized) :
    (V.remounted used top).files = V.files := by
  funext name
  unfold files
  rw [remounted_lookup]
  rcases hl : V.lookup name with _ | i
  · rfl
  · obtain ⟨hi, hlive, -⟩ := lookup_lt hl
    rw [Option.map_some, Option.map_some, remounted_entry hi,
      remounted_fileBytes (h.extent i hi hlive) (hs i hi hlive)]

/-- **A mount of a consistent volume** leaves one. -/
theorem Consistent.remounted (h : V.Consistent) (hm : V.Marks used simplefsMaxFiles)
    (hlow : simplefsDataStart ≤ top) (hhigh : top ≤ V.total) :
    (V.remounted used top).Consistent := by
  have hlaid : V.Laid simplefsMaxFiles := ⟨h.extent, h.disjoint⟩
  have hw := writeSuper_superOk (V := (V.withUsed used).withNextFree top) hlow hhigh
  refine { toAgrees := hlaid.remounted hm, super := ⟨hw.low, hw.high, hw.bytes⟩,
           size := h.size.remounted, unique := ?_, slack := ?_ }
  · intro i hi j hj
    rw [remounted_entry hi, remounted_entry hj]
    exact h.unique i hi j hj
  · intro i hi
    rw [remounted_entry hi]
    intro hlive p hp hlt
    have haddr := ((h.extent i hi hlive).addr hlt).1
    rw [remounted_bytes (by simp only [simplefsDataStart, sectorSize] at *; omega)]
    exact h.slack i hi hlive p hp hlt

end Volume

/-- Another memory over the same device. -/
structure SimpleFs.SameDevice (d : Nat) (s t : SimpleFs) : Prop where
  faults : t.faults = s.faults
  device : t.devices d = s.devices d
  disk : t.disk d = s.disk d

/-- Mounting the device of a working file system, whatever is in memory. -/
theorem Working.mount {t : SimpleFs} (h : Working d s V) (ht : SimpleFs.SameDevice d s t) :
    ∃ s' top, SimpleFs.simplefsMount (some d) t = (.ok (), s') ∧
      Working d s' (V.remounted V.used top) := by
  have hlaid : V.Laid simplefsMaxFiles := ⟨h.consistent.extent, h.consistent.disjoint⟩
  have hbytes : ∀ lba k, k < sectorSize → t.disk d lba k = V.bytes (sectorSize * lba + k) := by
    rw [ht.disk]
    exact h.holds.bytes
  obtain ⟨s', used, top, hrun, hf, hs', hm, hlow, hhigh⟩ := SimpleFs.mount_run (ht.faults.trans h.faults)
    (by rw [ht.device]; exact h.holds.device) (by rw [ht.device]; exact h.holds.total) hbytes h.consistent.super hlaid
  obtain rfl : used = V.used := hm.unique h.consistent.bitmap
  exact ⟨s', top, hrun, hs', h.consistent.remounted hm hlow hhigh, rfl, hf⟩

/-- **The bitmap kept by the operations is the one a mount computes.** After formatting a device that
works and any sequence of calls, the bitmap marks the sectors below `SIMPLEFS_DATA_START` and those
of the extents of used entries; mounting then succeeds, in the memory that the calls leave or in any
other, computes the same bitmap, and changes no answer of `simplefs_read` and `simplefs_stat`. -/
theorem allocation_map_rebuilt (s : SimpleFs) (d : Nat) (hf : s.faults = .none)
    (hv : SimpleFs.validateDev (s.devices d) = true) (ops : List FsOp)
    (hb : ∀ op ∈ ops, op.Bounded) :
    (SimpleFs.simplefsFormat (some d) s).1 = .ok () ∧
    (∀ x, (FsOp.exec (SimpleFs.simplefsFormat (some d) s).2 ops).simplefsSectorUsed x = true ↔
      x < simplefsDataStart ∨ ∃ i < simplefsMaxFiles,
        ((FsOp.exec (SimpleFs.simplefsFormat (some d) s).2 ops).dirEntry d i).Live ∧
        ((FsOp.exec (SimpleFs.simplefsFormat (some d) s).2 ops).dirEntry d i).Holds x) ∧
    ∀ t, SimpleFs.SameDevice d (FsOp.exec (SimpleFs.simplefsFormat (some d) s).2 ops) t →
      ∃ s', SimpleFs.simplefsMount (some d) t = (.ok (), s') ∧
        s'.simplefsSectorUsed =
          (FsOp.exec (SimpleFs.simplefsFormat (some d) s).2 ops).simplefsSectorUsed ∧
        (∀ path offset buffer count, (SimpleFs.simplefsRead path offset buffer count s').1 =
          (SimpleFs.simplefsRead path offset buffer count
            (FsOp.exec (SimpleFs.simplefsFormat (some d) s).2 ops)).1) ∧
        ∀ path out, (SimpleFs.simplefsStat path out s').1 =
          (SimpleFs.simplefsStat path out
            (FsOp.exec (SimpleFs.simplefsFormat (some d) s).2 ops)).1 := by
  obtain ⟨s0, V0, hformat, h0, -⟩ := Working.format hf hv
  rw [hformat]
  obtain ⟨V, h, -⟩ := h0.exec ops hb
  set s1 := FsOp.exec s0 ops
  have hlaid : V.Laid simplefsMaxFiles := ⟨h.consistent.extent, h.consistent.disjoint⟩
  refine ⟨rfl, fun x => ?_, fun t ht => ?_⟩
  · rw [h.holds.used, h.consistent.bitmap x]
    simp only [h.holds.dirEntry_eq]
  obtain ⟨s', top, hmount, h'⟩ := h.mount ht
  refine ⟨s', hmount, ?_, fun path offset buffer count => ?_, fun path out => ?_⟩
  · rw [h.holds.used, h'.holds.used]
    rfl
  · obtain ⟨_, hread, -⟩ := h.read_run path offset buffer count
    obtain ⟨_, hread', -⟩ := h'.read_run path offset buffer count
    rw [hread, hread', remounted_files hlaid h.consistent.size]
  · obtain ⟨_, hstat, -⟩ := h.stat_run path out
    obtain ⟨_, hstat', -⟩ := h'.stat_run path out
    rw [hstat, hstat']
    dsimp only
    split
    · rfl
    · rcases SimpleFs.normalizePath path with _ | name
      · rfl
      · dsimp only
        rw [remounted_lookup]
        rcases hl : V.lookup name with _ | j
        · rfl
        · dsimp only
          rw [remounted_entry (lookup_lt hl).1]

/-- A device with eight sectors of zeros, formatted, and a file of two sectors created and written. -/
def SimpleFs.smallVolume : SimpleFs :=
  FsOp.exec (SimpleFs.simplefsFormat (some 0) (SimpleFs.atBoot (fun _ => ⟨8, 512, true, true⟩)
      fun _ _ => zeroSector)).2
    [.open (some [0x2F, 0x61]) vfsOCreat, .write (some [0x2F, 0x61]) 3 (some fun _ => 7) 600]

/-- What a restart leaves: the device, and nothing in memory. -/
def SimpleFs.restarted (s : SimpleFs) : SimpleFs :=
  { s with simplefsDev := none, simplefsSectorUsed := fun _ => false, simplefsMounted := false }

/-- The device is the same after a restart. -/
theorem SimpleFs.sameDevice_restarted (s : SimpleFs) (d : Nat) : SameDevice d s s.restarted := ⟨rfl, rfl, rfl⟩

/-- After a restart a mount finds the two sectors of the file taken, and the next one free. -/
theorem allocation_map_rebuilt_small :
    ∃ s', SimpleFs.simplefsMount (some 0) SimpleFs.smallVolume.restarted = (.ok (), s') ∧
      s'.simplefsSectorUsed 5 = true ∧ s'.simplefsSectorUsed 6 = true ∧ s'.simplefsSectorUsed 7 = false := by
  have hmount := (allocation_map_rebuilt
    (SimpleFs.atBoot (fun _ => ⟨8, 512, true, true⟩) fun _ _ => zeroSector) 0 rfl (by decide)
    [.open (some [0x2F, 0x61]) vfsOCreat, .write (some [0x2F, 0x61]) 3 (some fun _ => 7) 600] (by decide)).2.2
  obtain ⟨s', hrun, hused, -⟩ := hmount SimpleFs.smallVolume.restarted (SimpleFs.sameDevice_restarted ..)
  have hbitmap : s'.simplefsSectorUsed = SimpleFs.smallVolume.simplefsSectorUsed := hused
  refine ⟨s', hrun, ?_⟩
  rw [hbitmap]
  exact ⟨by decide +kernel, by decide +kernel, by decide +kernel⟩

end AgenticOs
