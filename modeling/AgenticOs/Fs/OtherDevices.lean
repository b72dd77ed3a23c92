import AgenticOs.Fs.Mount

/-!
# Devices that are not mounted

A call of `simplefs.c` reads and writes through `simplefs_dev` only. So the sectors of all other devices stay, the same
device is mounted afterwards, and the log of the sectors that were asked for grows (`OthersKept`). There is one lemma
for each function of the file, in the order of the source, by the rules of `Within`:

* the sectors, the entries of the directory and the bitmap (`othersKept_writeSector`, `othersKept_findFrom`,
  `othersKept_allocateSectors`);
* the data of a file (`othersKept_ensureCapacity`, `othersKept_readLoop`, `othersKept_writeLoop`);
* the interface (`othersKept_open`, `othersKept_read`, `othersKept_write`, `othersKept_stat`).

A mount and a format attach another device first, and from then on reach only that one (`mount_attaches`,
`format_attaches`): a volume that is not mounted now is found as it was left, whatever is done in between. That is what
a name space with several devices needs of this file.
-/

namespace AgenticOs

open Function Lib Lib.StM

namespace SimpleFs

/-- The mounted device stays, and the others keep their sectors. -/
structure OthersKept (s s' : SimpleFs) : Prop where
  devices : s'.devices = s.devices
  dev : s'.simplefsDev = s.simplefsDev
  disk : ∀ d, s.simplefsDev ≠ some d → s'.disk d = s.disk d
  log : s.log <:+ s'.log

instance : IsPreorder SimpleFs OthersKept where
  refl _ := ⟨rfl, rfl, fun _ _ => rfl, List.suffix_rfl⟩
  trans _ _ _ h h' := by
    refine ⟨h'.devices.trans h.devices, h'.dev.trans h.dev, fun d hd => ?_, h.log.trans h'.log⟩
    rw [h'.disk d (h.dev ▸ hd), h.disk d hd]

/-- A change of the bitmap or the superblock in memory. -/
theorem OthersKept.of_fields {s s' : SimpleFs} (hdevices : s'.devices = s.devices)
    (hdev : s'.simplefsDev = s.simplefsDev) (hdisk : s'.disk = s.disk) (hlog : s'.log = s.log) :
    OthersKept s s' :=
  ⟨hdevices, hdev, fun d _ => congrFun hdisk d, hlog ▸ List.suffix_rfl⟩

/-- A sector is read, or the device fails; the log says which sector was asked for. -/
theorem othersKept_readSector (lba : Nat) : Within OthersKept (readSector lba) := by
  intro s
  unfold readSector
  rcases hdev : s.simplefsDev with _ | dev
  · exact refl_of OthersKept s
  · dsimp only
    split <;> exact ⟨rfl, hdev.symm, fun _ _ => rfl, List.suffix_cons ..⟩

/-- A sector of the mounted device is written, or the device fails. -/
theorem othersKept_writeSector (lba : Nat) (sector : Sector) : Within OthersKept (writeSector lba sector) := by
  intro s
  unfold writeSector
  rcases hdev : s.simplefsDev with _ | dev
  · exact refl_of OthersKept s
  · dsimp only
    split
    · exact ⟨rfl, hdev.symm, fun _ _ => rfl, List.suffix_cons ..⟩
    · refine ⟨rfl, hdev.symm, fun d hd => ?_, List.suffix_cons ..⟩
      exact update_of_ne (fun heq => hd (by rw [hdev, heq])) _ _

/-! ### Entries and the bitmap -/

/-- An entry of the directory is read. -/
theorem othersKept_readEntry (i : Nat) : Within OthersKept (readEntry i) :=
  .get_bind fun _ => .check ((othersKept_readSector _).bind fun _ => .pure _)

/-- The sector of an entry is read and written. -/
theorem othersKept_writeEntry (i : Nat) (entry : DirEntry) : Within OthersKept (writeEntry i entry) :=
  .get_bind fun _ => .check ((othersKept_readSector _).bind fun _ => othersKept_writeSector _ _)

/-- The directory is searched from an entry on. -/
theorem othersKept_findFrom (test : DirEntry → Bool) (status : Int) (n i : Nat) :
    Within OthersKept (findFrom test status i n) := by
  induction n generalizing i with
  | zero => exact .fail _
  | succ n ih => exact (othersKept_readEntry i).bind fun entry => .ite (.pure _) (ih (i + 1))

/-- The bits of a run are set in the bitmap, which is in memory only. -/
theorem othersKept_markRunUsedFrom (n sector : Nat) : Within OthersKept (markRunUsedFrom sector n) := by
  induction n generalizing sector with
  | zero => exact .pure _
  | succ n ih =>
    refine .get_bind fun s => .check ?_
    exact Within.bind (.modify fun s => .of_fields rfl rfl rfl rfl) fun _ => ih (sector + 1)

/-- A run is marked as used, if it is inside the device. -/
theorem othersKept_markRunUsed (start count : Nat) : Within OthersKept (markRunUsed start count) :=
  .ite (.pure _) (.get_bind fun _ => .check (othersKept_markRunUsedFrom count start))

/-- Bits of the bitmap are cleared, one after another. -/
theorem othersKept_sectorsClear (is : List Nat) (start : Nat) (s : SimpleFs) :
    OthersKept s (is.foldl (fun s i => s.sectorClear (start + i)) s) := by
  induction is generalizing s with
  | nil => exact refl_of OthersKept s
  | cons i is ih =>
    have hclear : OthersKept s (s.sectorClear (start + i)) := .of_fields rfl rfl rfl rfl
    exact trans_of OthersKept hclear (ih (s.sectorClear (start + i)))

/-- A run is marked as free, as far as it is inside the data region. -/
theorem othersKept_markRunFree (s : SimpleFs) (start count : Nat) :
    OthersKept s (s.markRunFree start count) := by
  unfold markRunFree
  split
  · exact refl_of OthersKept s
  · exact othersKept_sectorsClear _ start s

/-- The superblock is written to the mounted device. -/
theorem othersKept_writeSuperblock : Within OthersKept writeSuperblock :=
  .get_bind fun _ => othersKept_writeSector _ _

/-- A run is allocated first-fit: the bitmap, the counters and the superblock. -/
theorem othersKept_allocateSectors (count : Nat) : Within OthersKept (allocateSectors count) := by
  refine .ite (.pure _) (.get_bind fun s => .check ?_)
  split
  · exact .fail _
  · refine (othersKept_markRunUsed _ _).bind fun _ => Within.bind (.modify fun s => ?_) fun _ =>
      othersKept_writeSuperblock.bind fun _ => .pure _
    split
    · exact .of_fields rfl rfl rfl rfl
    · exact refl_of OthersKept s

/-! ### Data -/

/-- Sectors of a new extent are zeroed. -/
theorem othersKept_zeroRun (n sector : Nat) : Within OthersKept (zeroRun sector n) := by
  induction n generalizing sector with
  | zero => exact .pure _
  | succ n ih => exact (othersKept_writeSector _ _).bind fun _ => ih (sector + 1)

/-- Sectors of the old extent are copied into the new one. -/
theorem othersKept_copySectors (n source target : Nat) : Within OthersKept (copySectors source target n) := by
  induction n generalizing source target with
  | zero => exact .pure _
  | succ n ih =>
    exact (othersKept_readSector _).bind fun _ => (othersKept_writeSector _ _).bind fun _ =>
      ih (source + 1) (target + 1)

/-- A file gets an extent that is large enough, unless it has one. -/
theorem othersKept_ensureCapacity (entry : DirEntry) (requiredSectors : Nat) :
    Within OthersKept (ensureCapacity entry requiredSectors) := by
  refine .ite (.pure _) ((othersKept_allocateSectors _).bind fun start =>
    (othersKept_zeroRun _ _).bind fun _ => .ite ?_ (.pure _))
  exact (othersKept_copySectors _ _ _).bind fun _ => .pure _

/-- The loop of `simplefs_read`: one sector in each round. -/
theorem othersKept_readLoop (entry : DirEntry) (offset count done : Nat) :
    Within OthersKept (readLoop entry offset count done) := by
  induction done using readLoop.induct offset count with
  | case1 done hlt absolute sectorOffset chunk ih =>
    rw [readLoop, if_pos hlt]
    exact (othersKept_readSector _).bind fun _ => ih.bind fun _ => .pure _
  | case2 done hlt =>
    rw [readLoop, if_neg hlt]
    exact .pure _

/-- The loop of `simplefs_write`: a sector that is written in part is read before. -/
theorem othersKept_writeLoop (entry : DirEntry) (offset : Nat) (input : Nat → Byte) (count done : Nat) :
    Within OthersKept (writeLoop entry offset input count done) := by
  induction hn : count - done using Nat.strong_induction_on generalizing done with
  | _ n ih =>
    subst hn
    rw [writeLoop]
    by_cases hlt : done < count
    · rw [if_pos hlt]
      have hpos := chunkAt_pos offset hlt
      have hrest := ih _ (by omega) (done + chunkAt offset count done) rfl
      dsimp only
      exact .ite ((othersKept_readSector _).bind fun _ => (othersKept_writeSector _ _).bind fun _ => hrest)
        ((othersKept_writeSector _ _).bind fun _ => hrest)
    · rw [if_neg hlt]
      exact .pure _

/-- The end of a write. -/
theorem othersKept_writeEnd (index : Nat) (entry : DirEntry) (moved : Prop) [Decidable moved]
    (start sectors count : Nat) :
    Within OthersKept (do
      writeEntry index entry
      if moved then
        modify (·.markRunFree start sectors)
      return count : FsM Nat) :=
  (othersKept_writeEntry _ _).bind fun _ =>
    .ite (Within.bind (.modify fun s => othersKept_markRunFree s _ _) fun _ => .pure _) (.pure _)

/-! ### The interface -/

/-- A call is refused when no device is mounted. -/
theorem othersKept_requireMounted : Within OthersKept requireMounted :=
  .get_bind fun _ => .ite (.fail _) (.pure _)

/-- A path is normalized without the device. -/
theorem othersKept_normalize (path : Option CString) : Within OthersKept (normalize path) := by
  unfold normalize
  split
  · exact .fail _
  · exact .pure _

/-- `simplefs_open`: a file is created, truncated or only found. -/
theorem othersKept_open (path : Option CString) (flags : Word) : Within OthersKept (simplefsOpen path flags) := by
  refine othersKept_requireMounted.bind fun _ => (othersKept_normalize path).bind fun name =>
    (Within.attempt (othersKept_findFrom _ _ _ _)).bind fun found => ?_
  rcases found with status | ⟨index, entry⟩
  · refine .ite (.check ?_) (.fail _)
    exact ((othersKept_findFrom _ _ _ _).bind fun _ => .pure _).bind fun index =>
      (othersKept_writeEntry _ _).bind fun _ => .pure _
  · refine .ite ?_ (.pure _)
    exact Within.bind (.modify fun s => othersKept_markRunFree s _ _) fun _ =>
      (othersKept_writeEntry _ _).bind fun _ => .pure _

/-- `simplefs_read` -/
theorem othersKept_read (path : Option CString) (offset : Nat) (buffer : Bool) (count : Nat) :
    Within OthersKept (simplefsRead path offset buffer count) := by
  refine othersKept_requireMounted.bind fun _ => .check ((othersKept_normalize path).bind fun name =>
    (othersKept_findFrom _ _ _ _).bind fun found => .ite (.pure _) (othersKept_readLoop _ _ _ _))

/-- `simplefs_write` -/
theorem othersKept_write (path : Option CString) (offset : Nat) (buffer : Option (Nat → Byte)) (count : Nat) :
    Within OthersKept (simplefsWrite path offset buffer count) := by
  refine othersKept_requireMounted.bind fun _ => ?_
  rcases buffer with _ | input
  · exact .ite (.fail _) (.pure _)
  · exact .ite (.pure _) (.check ((othersKept_normalize path).bind fun name =>
      (othersKept_findFrom _ _ _ _).bind fun found => (othersKept_ensureCapacity _ _).bind fun entry =>
      (othersKept_writeLoop _ _ _ _ _).bind fun _ => othersKept_writeEnd _ _ _ _ _ _))

/-- `simplefs_stat` -/
theorem othersKept_stat (path : Option CString) (out : Bool) : Within OthersKept (simplefsStat path out) :=
  othersKept_requireMounted.bind fun _ => .check ((othersKept_normalize path).bind fun _ =>
    (othersKept_findFrom _ _ _ _).bind fun _ => .pure _)

/-! ### Mounting and formatting -/

/-- The loop that rebuilds the bitmap from the directory. -/
theorem othersKept_rebuildFrom (n highWater i : Nat) : Within OthersKept (rebuildFrom highWater i n) := by
  induction n generalizing highWater i with
  | zero => exact .pure _
  | succ n ih =>
    refine (othersKept_readEntry i).bind fun entry => .ite (ih _ _) (.get_bind fun s => .check ?_)
    exact (othersKept_markRunUsed _ _).bind fun _ => ih _ _

/-- The bitmap is rebuilt, and the counters are written to the superblock. -/
theorem othersKept_rebuildAllocationMap : Within OthersKept rebuildAllocationMap :=
  Within.bind (.modify fun _ => .of_fields rfl rfl rfl rfl) fun _ => (othersKept_rebuildFrom _ _ _).bind fun _ =>
    Within.bind (.modify fun _ => .of_fields rfl rfl rfl rfl) fun _ => othersKept_writeSuperblock

/-- A device is attached, and the others keep their sectors. -/
structure Attaches (d : Nat) (s s' : SimpleFs) : Prop where
  devices : s'.devices = s.devices
  dev : s'.simplefsDev = some d
  disk : ∀ d', d' ≠ d → s'.disk d' = s.disk d'

/-- What is done once a device is attached does not reach the other devices. -/
theorem OthersKept.attaches {d : Nat} {s s₁ s' : SimpleFs} (h : OthersKept s₁ s')
    (hdevices : s₁.devices = s.devices) (hdev : s₁.simplefsDev = some d) (hdisk : s₁.disk = s.disk) :
    Attaches d s s' := by
  refine ⟨h.devices.trans hdevices, h.dev.trans hdev, fun d' hd' => ?_⟩
  rw [h.disk d' (by rw [hdev]; exact fun heq => hd' (Option.some.inj heq).symm), hdisk]

/-- The file system is mounted or not, as the rebuild says. -/
theorem othersKept_settle {x : FsM Unit} (hx : Within OthersKept x) :
    Within OthersKept fun s => settle (x s) := by
  intro s
  have hmounted : OthersKept (x s).2 (settle (x s)).2 := .of_fields rfl rfl rfl rfl
  exact trans_of OthersKept (hx s) hmounted

/-- **A mount** attaches its device and writes to no other. -/
theorem mount_attaches {d : Nat} {s s' : SimpleFs} (hv : validateDev (s.devices d) = true)
    (h : simplefsMount (some d) s = (.ok (), s')) : Attaches d s s' := by
  rw [mount_eq hv] at h
  split at h
  · cases h
  split at h
  · have hkept := othersKept_settle othersKept_rebuildAllocationMap ((s.loaded d).attached d)
    dsimp only at hkept
    rw [h] at hkept
    exact hkept.attaches rfl rfl rfl
  · cases h

/-- **A format** attaches its device and writes to no other. -/
theorem format_attaches {d : Nat} {s s' : SimpleFs} (hv : validateDev (s.devices d) = true)
    (h : simplefsFormat (some d) s = (.ok (), s')) : Attaches d s s' := by
  have hkept : Within OthersKept (writeSuperblock >>= fun _ => zeroRun simplefsDirStart simplefsDirSectors >>=
      fun _ => fun s => settle (rebuildAllocationMap s) : FsM Unit) :=
    othersKept_writeSuperblock.bind fun _ => (othersKept_zeroRun _ _).bind fun _ =>
      othersKept_settle othersKept_rebuildAllocationMap
  have hrun := hkept (s.blank d)
  rw [← format_eq hv, h] at hrun
  exact hrun.attaches rfl rfl rfl

end SimpleFs

end AgenticOs
