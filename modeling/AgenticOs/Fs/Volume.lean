import AgenticOs.Fs.SimpleFs
import Mathlib.Data.List.Basic

/-!
# A volume on a device

`Volume` is what a mounted file system amounts to: the bytes of the device in one row, the number of sectors,
the high-water mark of the superblock and the bitmap. `Holds d s V` relates it to the state of `simplefs.c`.

* **Round trips** (`ofBytes_toBytes`, `Superblock.ofBytes_toBytes`): a directory entry and a superblock are
  read as they were written, if their fields fit in 32 bits.
* **Sectors and entries** (`readSector`, `writeSector`, `readEntry`, `writeEntry`, `writeSuperblock`): what
  these functions do to a volume, how many sector reads and writes that takes, and what they leave behind when
  one of these fails.
* **Searches** (`findFrom`): what a search through the directory finds, and how much it reads.
* **Bitmap** (`markRunUsed`, `markRunFree`): a run that is free is marked, one that is in use is freed.

The lemmas are specifications in the sense of `Lib/Faults.lean`; from here on nothing unfolds the functions.
-/

namespace AgenticOs

open Function Lib Lib.StM

/-! ### Structures and their bytes -/

/-- Every field fits in a `uint32_t`. -/
structure DirEntry.Fits (e : DirEntry) : Prop where
  used : e.used < wordSize
  field : ∀ i, e.field i < wordSize

/-- A number is read from its bytes. -/
theorem u32At_eq {bytes : Nat → Byte} {i n : Nat} (hn : n < wordSize)
    (h : ∀ k < 4, bytes (i + k) = u32Byte n k) : u32At bytes i = n := by
  unfold u32At
  rw [wordOfBytes_eq h, BitVec.toNat_ofNat]
  exact Nat.mod_eq_of_lt hn

/-- What is read is a `uint32_t`. -/
theorem u32At_lt (bytes : Nat → Byte) (i : Nat) : u32At bytes i < wordSize :=
  (wordOfBytes bytes i).isLt

/-- A number depends on its four bytes. -/
theorem u32At_congr {bytes bytes' : Nat → Byte} {i : Nat}
    (h : ∀ k < 4, bytes (i + k) = bytes' (i + k)) : u32At bytes i = u32At bytes' i := by
  unfold u32At
  rw [wordOfBytes_congr h]

namespace DirEntry

/-- An entry depends on its 64 bytes. -/
theorem ofBytes_congr {bytes bytes' : Nat → Byte} (h : ∀ k < dirEntrySize, bytes k = bytes' k) :
    ofBytes bytes = ofBytes bytes' := by
  have hword : ∀ i, i + 4 ≤ dirEntrySize → u32At bytes i = u32At bytes' i := fun i hi =>
    u32At_congr fun k hk => h _ (by omega)
  have hname : (Vector.ofFn fun k : Fin simplefsNameMax => bytes (4 + k)) =
      Vector.ofFn fun k : Fin simplefsNameMax => bytes' (4 + k) := by
    congr 1
    funext k
    have hk : k.val < 32 := k.isLt
    exact h _ (by show 4 + k.val < 64; omega)
  have hres : (Vector.ofFn fun k : Fin 3 => u32At bytes (52 + 4 * k)) =
      Vector.ofFn fun k : Fin 3 => u32At bytes' (52 + 4 * k) := by
    congr 1
    funext k
    have hk : k.val < 3 := k.isLt
    exact hword _ (by show 52 + 4 * k.val + 4 ≤ 64; omega)
  unfold ofBytes
  rw [hname, hres, hword 0 (by decide), hword 36 (by decide), hword 40 (by decide),
    hword 44 (by decide), hword 48 (by decide)]

/-- What is read from any bytes fits. -/
theorem ofBytes_fits (bytes : Nat → Byte) : (ofBytes bytes).Fits := by
  refine ⟨u32At_lt _ _, fun i => ?_⟩
  have hres : ∀ k, (h : k < 3) → (ofBytes bytes).reserved[k] < wordSize := by
    intro k h
    unfold ofBytes
    rw [Vector.getElem_ofFn]
    exact u32At_lt _ _
  unfold field
  split
  · exact u32At_lt _ _
  · exact u32At_lt _ _
  · exact u32At_lt _ _
  · exact u32At_lt _ _
  · exact hres 0 (by decide)
  · exact hres 1 (by decide)
  · exact hres 2 (by decide)

/-- **Round trip**: an entry written and read again. -/
theorem ofBytes_toBytes {e : DirEntry} (h : e.Fits) : ofBytes e.toBytes = e := by
  -- byte `k` of word `i` after the name
  have hbyte : ∀ i k, k < 4 → e.toBytes (36 + 4 * i + k) = u32Byte (e.field i) k := by
    intro i k hk
    unfold toBytes
    rw [if_neg (by omega), dif_neg (by omega), show (36 + 4 * i + k - 36) / 4 = i by omega,
      show (36 + 4 * i + k - 36) % 4 = k by omega]
  have hword : ∀ i, u32At e.toBytes (36 + 4 * i) = e.field i := fun i =>
    u32At_eq (h.field i) (hbyte i)
  have hused : u32At e.toBytes 0 = e.used := by
    refine u32At_eq h.used fun k hk => ?_
    unfold toBytes
    rw [Nat.zero_add, if_pos hk]
  have hname : (Vector.ofFn fun k : Fin simplefsNameMax => e.toBytes (4 + k)) = e.name := by
    refine Vector.ext fun k hk => ?_
    have hk' : k < 32 := hk
    rw [Vector.getElem_ofFn]
    show e.toBytes (4 + k) = _
    unfold toBytes
    rw [if_neg (by omega), dif_pos (by omega)]
    simp [Vector.get]
  have hres : (Vector.ofFn fun k : Fin 3 => u32At e.toBytes (52 + 4 * k)) = e.reserved := by
    refine Vector.ext fun k hk => ?_
    rw [Vector.getElem_ofFn]
    show u32At e.toBytes (52 + 4 * k) = _
    rw [show 52 + 4 * k = 36 + 4 * (4 + k) by omega, hword]
    match k with
    | 0 => rfl
    | 1 => rfl
    | 2 => rfl
    | n + 3 => omega
  unfold ofBytes
  rw [hused, hname, hres, hword 0, hword 1, hword 2, hword 3]
  rfl

end DirEntry

/-- The superblock of a volume. -/
def Superblock.std (total nextFree : Nat) : Superblock where
  magic := simplefsMagic
  version := simplefsVersion
  sectorSize := AgenticOs.sectorSize
  totalSectors := total
  dirStart := simplefsDirStart
  dirSectors := simplefsDirSectors
  dataStart := simplefsDataStart
  nextFreeSector := nextFree
  maxFiles := simplefsMaxFiles

/-- A superblock written and read again. -/
theorem Superblock.ofBytes_toBytes {total nextFree : Nat} (ht : total < wordSize)
    (hn : nextFree < wordSize) {bytes : Nat → Byte}
    (h : ∀ k < superblockSize, bytes k = (std total nextFree).toBytes k) :
    ofBytes bytes = std total nextFree := by
  have hword : ∀ i, i < 9 → (std total nextFree).field i < wordSize →
      u32At bytes (4 * i) = (std total nextFree).field i := by
    intro i hi hlt
    refine u32At_eq hlt fun k hk => ?_
    rw [h _ (by show 4 * i + k < 36; omega)]
    unfold toBytes
    rw [show (4 * i + k) / 4 = i by omega, show (4 * i + k) % 4 = k by omega]
  unfold ofBytes
  rw [hword 0 (by decide) (show simplefsMagic < wordSize by decide),
    hword 1 (by decide) (show simplefsVersion < wordSize by decide),
    hword 2 (by decide) (show AgenticOs.sectorSize < wordSize by decide), hword 3 (by decide) ht,
    hword 4 (by decide) (show simplefsDirStart < wordSize by decide),
    hword 5 (by decide) (show simplefsDirSectors < wordSize by decide),
    hword 6 (by decide) (show simplefsDataStart < wordSize by decide), hword 7 (by decide) hn,
    hword 8 (by decide) (show simplefsMaxFiles < wordSize by decide)]
  rfl

/-! ### Volumes -/

/-- A device, and what memory knows about it. -/
structure Volume where
  total : Nat
  bytes : Nat → Byte
  nextFree : Nat
  used : Nat → Bool
  mounted : Bool

namespace Volume

variable {V : Volume} {i j p : Nat}

/-- New bytes at address `a`. -/
def write (V : Volume) (a : Nat) (src : Nat → Byte) (n : Nat) : Volume :=
  { V with bytes := memcpy V.bytes a src n }

/-- Another bitmap. -/
def withUsed (V : Volume) (used : Nat → Bool) : Volume := { V with used := used }

/-- Another high-water mark. -/
def withNextFree (V : Volume) (n : Nat) : Volume := { V with nextFree := n }

/-- The address of directory entry `i`. -/
def entryAddr (i : Nat) : Nat := sectorSize + dirEntrySize * i

/-- Directory entry `i`. -/
def entry (V : Volume) (i : Nat) : DirEntry := DirEntry.ofBytes fun k => V.bytes (entryAddr i + k)

/-- Directory entry `i` replaced. -/
def setEntry (V : Volume) (i : Nat) (e : DirEntry) : Volume :=
  V.write (entryAddr i) e.toBytes dirEntrySize

/-- The superblock is written out. -/
def writeSuper (V : Volume) : Volume :=
  V.write 0 (memcpy zeroSector 0 (Superblock.std V.total V.nextFree).toBytes superblockSize)
    sectorSize

/-- Writing bytes leaves the bitmap alone. -/
@[simp] theorem write_used (a : Nat) (src : Nat → Byte) (n : Nat) : (V.write a src n).used = V.used :=
  rfl

/-- And the number of sectors. -/
@[simp] theorem write_total (a : Nat) (src : Nat → Byte) (n : Nat) :
    (V.write a src n).total = V.total := rfl

/-- And the high-water mark. -/
@[simp] theorem write_nextFree (a : Nat) (src : Nat → Byte) (n : Nat) :
    (V.write a src n).nextFree = V.nextFree := rfl

/-- The bytes after a write. -/
theorem write_bytes (a : Nat) (src : Nat → Byte) (n : Nat) :
    (V.write a src n).bytes p = if a ≤ p ∧ p < a + n then src (p - a) else V.bytes p := rfl

/-- Bytes outside the range that is written. -/
theorem write_bytes_of_not {a n : Nat} {src : Nat → Byte} (h : ¬ (a ≤ p ∧ p < a + n)) :
    (V.write a src n).bytes p = V.bytes p := if_neg h

/-- A directory entry lies before the data sectors. -/
theorem setEntry_bytes_of_ge {e : DirEntry} (hi : i < simplefsMaxFiles)
    (hp : simplefsDataStart * sectorSize ≤ p) : (V.setEntry i e).bytes p = V.bytes p := by
  apply write_bytes_of_not
  simp only [entryAddr, simplefsMaxFiles, simplefsDataStart, sectorSize, dirEntrySize] at *
  omega

/-- Entries depend on the directory only. -/
theorem entry_congr {V' : Volume} (h : ∀ p, sectorSize ≤ p → p < simplefsDataStart * sectorSize →
    V'.bytes p = V.bytes p) (hi : i < simplefsMaxFiles) : V'.entry i = V.entry i := by
  apply DirEntry.ofBytes_congr
  intro k hk
  apply h
  · simp only [entryAddr]
    omega
  · simp only [entryAddr, simplefsMaxFiles, simplefsDataStart, sectorSize, dirEntrySize] at *
    omega

/-- The entries after one of them is replaced. -/
theorem entry_setEntry {e : DirEntry} (he : e.Fits) :
    (V.setEntry i e).entry j = if j = i then e else V.entry j := by
  by_cases hij : j = i
  · rw [if_pos hij, hij, ← DirEntry.ofBytes_toBytes he]
    unfold entry
    rw [DirEntry.ofBytes_toBytes he]
    apply (DirEntry.ofBytes_congr _).trans (DirEntry.ofBytes_toBytes he)
    intro k hk
    unfold setEntry
    rw [write_bytes, if_pos ⟨by omega, by omega⟩, Nat.add_sub_cancel_left]
  · rw [if_neg hij]
    apply DirEntry.ofBytes_congr
    intro k hk
    apply write_bytes_of_not
    simp only [entryAddr, sectorSize, dirEntrySize] at *
    omega

/-- Data and superblock writes leave the entries. -/
theorem entry_write {a n : Nat} {src : Nat → Byte}
    (h : a + n ≤ sectorSize ∨ simplefsDataStart * sectorSize ≤ a) (hi : i < simplefsMaxFiles) :
    (V.write a src n).entry i = V.entry i := by
  apply entry_congr _ hi
  intro p h1 h2
  apply write_bytes_of_not
  omega

end Volume

/-- State `s` of `simplefs.c` holds volume `V` on device `d`. -/
structure Holds (d : Nat) (s : SimpleFs) (V : Volume) : Prop where
  dev : s.simplefsDev = some d
  device : SimpleFs.validateDev (s.devices d) = true
  total : (s.devices d).sectorCount = V.total
  sb : s.simplefsSb = Superblock.std V.total V.nextFree
  bytes : ∀ lba k, k < sectorSize → s.disk d lba k = V.bytes (sectorSize * lba + k)
  used : s.simplefsSectorUsed = V.used
  mounted : s.simplefsMounted = V.mounted

/-- A state of `simplefs.c` looked at as a volume. -/
def onVolume (d : Nat) : Observer Int SimpleFs Volume where
  faults := SimpleFs.faults
  rel := Holds d
  broken := vfsEio

namespace Holds

variable {d : Nat} {V V' : Volume} {α : Type} {r w : Nat} {E : Volume → Prop}

/-- A volume has a data sector, and no more sectors than the bitmap. -/
theorem total_bounds {s : SimpleFs} (h : Holds d s V) : simplefsDataStart < V.total ∧
    V.total ≤ simplefsMaxTrackedSectors := by
  have hv := h.device
  unfold SimpleFs.validateDev at hv
  rw [h.total] at hv
  simp only [Bool.and_eq_true, decide_eq_true_eq] at hv
  exact ⟨hv.1.2, hv.2⟩

/-! ### Sectors -/

/-- Reading a sector. -/
theorem readSector (lba : Nat) {f : Sector → FsM α} {res : Except Int α} (hE : E V)
    (h : ∀ sector, (∀ k < sectorSize, sector k = V.bytes (sectorSize * lba + k)) →
      Uses (onVolume d) (f sector) V r w res V' E) :
    Uses (onVolume d) (SimpleFs.readSector lba >>= f) V (1 + r) (0 + w) res V' E := by
  apply Uses.bind_value _ h
  intro s hs
  obtain ⟨devices, disk, faults, log, dev, sb, mounted, used⟩ := s
  obtain rfl : dev = some d := hs.dev
  have hs' : Holds d ⟨devices, disk, faults.after 1 0, .read lba :: log, some d, sb, mounted, used⟩
      V := { hs with }
  have hrun : SimpleFs.readSector lba ⟨devices, disk, faults, log, some d, sb, mounted, used⟩ =
      if faults.read 0 then (.error vfsEio,
        ⟨devices, disk, faults.after 1 0, .read lba :: log, some d, sb, mounted, used⟩)
      else (.ok (disk d lba),
        ⟨devices, disk, faults.after 1 0, .read lba :: log, some d, sb, mounted, used⟩) := rfl
  constructor
  · intro hc
    have hgood : faults.read 0 = false := hc.1 0 Nat.one_pos
    rw [hgood, if_neg Bool.false_ne_true] at hrun
    exact ⟨_, _, hrun, hs', rfl, hs.bytes lba⟩
  · intro hc
    have hbad : faults.read 0 = true := by
      rcases hf : faults.read 0 with _ | _
      · exact absurd (Faults.clear_read hf) hc
      · rfl
    rw [if_pos hbad] at hrun
    exact ⟨_, V, hrun, hs', hE⟩

/-- Writing part of a sector that has been read, or all of it. -/
theorem writeSector (lba : Nat) (sector : Sector) (src : Nat → Byte) {i n : Nat}
    (hin : i + n ≤ sectorSize)
    (h : ∀ k < sectorSize, sector k =
      if i ≤ k ∧ k < i + n then src (k - i) else V.bytes (sectorSize * lba + k)) (hE : E V) :
    Uses (onVolume d) (SimpleFs.writeSector lba sector) V 0 1 (.ok ())
      (V.write (sectorSize * lba + i) src n) E := by
  intro s hs
  obtain ⟨devices, disk, faults, log, dev, sb, mounted, used⟩ := s
  obtain rfl : dev = some d := hs.dev
  have hrun : SimpleFs.writeSector lba sector
      ⟨devices, disk, faults, log, some d, sb, mounted, used⟩ =
      if faults.write 0 then (.error vfsEio,
        ⟨devices, disk, faults.after 0 1, .write lba :: log, some d, sb, mounted, used⟩)
      else (.ok (), ⟨devices, update disk d (update (disk d) lba sector), faults.after 0 1,
        .write lba :: log, some d, sb, mounted, used⟩) := rfl
  constructor
  · intro hc
    have hgood : faults.write 0 = false := hc.2 0 Nat.one_pos
    rw [hgood, if_neg Bool.false_ne_true] at hrun
    refine ⟨_, hrun, ?_, rfl⟩
    refine { dev := rfl, device := hs.device, total := hs.total, sb := hs.sb, bytes := ?_,
             used := hs.used, mounted := hs.mounted }
    intro lba' k hk
    show update disk d (update (disk d) lba sector) d lba' k = _
    rw [update_self, Volume.write_bytes]
    by_cases hl : lba' = lba
    · subst hl
      rw [update_self, h k hk]
      by_cases hc : i ≤ k ∧ k < i + n
      · rw [if_pos hc, if_pos (by omega)]
        congr 1
        omega
      · rw [if_neg hc, if_neg (by omega)]
    · rw [update_of_ne hl, if_neg]
      · exact hs.bytes lba' k hk
      · simp only [sectorSize] at *
        omega
  · intro hc
    have hbad : faults.write 0 = true := by
      rcases hf : faults.write 0 with _ | _
      · exact absurd (Faults.clear_write hf) hc
      · rfl
    rw [if_pos hbad] at hrun
    exact ⟨_, V, hrun, { hs with }, hE⟩

/-- Writing a sector of zeros. -/
theorem writeZero (lba : Nat) (hE : E V) :
    Uses (onVolume d) (SimpleFs.writeSector lba zeroSector) V 0 1 (.ok ())
      (V.write (sectorSize * lba) zeroSector sectorSize) E := by
  have h := writeSector (d := d) (V := V) lba zeroSector zeroSector (i := 0) (n := sectorSize)
    (Nat.le_refl _) (fun k hk => by
      rw [if_pos ⟨Nat.zero_le _, by omega⟩]
      rfl) hE
  exact h

/-! ### Directory entries and the superblock -/

/-- Where a directory entry lies, by its sector and its place in the sector. -/
theorem entryAddr_eq (i : Nat) (k : Nat) :
    sectorSize * (simplefsDirStart + i / (sectorSize / dirEntrySize)) +
      (i % (sectorSize / dirEntrySize) * dirEntrySize + k) = Volume.entryAddr i + k := by
  have h : sectorSize / dirEntrySize = 8 := by decide
  rw [h]
  simp only [Volume.entryAddr, sectorSize, dirEntrySize, simplefsDirStart]
  omega

/-- An entry does not leave its sector. -/
theorem entry_in_sector (i k : Nat) (hk : k ≤ dirEntrySize) :
    i % (sectorSize / dirEntrySize) * dirEntrySize + k ≤ sectorSize := by
  have h : sectorSize / dirEntrySize = 8 := by decide
  rw [h]
  simp only [dirEntrySize, sectorSize] at *
  omega

/-- **Reading an entry** takes one sector read. -/
theorem readEntry {i : Nat} (hi : i < simplefsMaxFiles) (hE : E V) :
    Uses (onVolume d) (SimpleFs.readEntry i) V 1 0 (.ok (V.entry i)) V E := by
  unfold SimpleFs.readEntry
  apply Uses.get_bind
  intro s hs
  rw [hs.sb]
  dsimp only
  rw [if_neg (by omega)]
  apply readSector (r := 0) (w := 0) _ hE
  intro sector hsector
  have heq : DirEntry.ofBytes (fun k => sector
      (i % (sectorSize / dirEntrySize) * dirEntrySize + k)) = V.entry i := by
    apply DirEntry.ofBytes_congr
    intro k hk
    rw [hsector _ (by have := entry_in_sector i (k + 1) (by omega); omega)]
    show V.bytes _ = V.bytes _
    rw [← entryAddr_eq]
    rfl
  rw [heq]
  exact Uses.pure _

/-- **Writing an entry** takes one read and one write. -/
theorem writeEntry {i : Nat} (hi : i < simplefsMaxFiles) (e : DirEntry) (hE : E V) :
    Uses (onVolume d) (SimpleFs.writeEntry i e) V 1 1 (.ok ()) (V.setEntry i e) E := by
  unfold SimpleFs.writeEntry
  apply Uses.get_bind
  intro s hs
  rw [hs.sb]
  dsimp only
  rw [if_neg (by omega)]
  apply readSector (r := 0) (w := 1) _ hE
  intro sector hsector
  have haddr := entryAddr_eq i 0
  rw [Nat.add_zero, Nat.add_zero] at haddr
  unfold Volume.setEntry
  rw [← haddr]
  apply writeSector
  · exact entry_in_sector i dirEntrySize (Nat.le_refl _)
  · intro k hk
    show (if _ then _ else _) = _
    by_cases hc : i % (sectorSize / dirEntrySize) * dirEntrySize ≤ k ∧
        k < i % (sectorSize / dirEntrySize) * dirEntrySize + dirEntrySize
    · rw [if_pos hc, if_pos hc]
    · rw [if_neg hc, if_neg hc]
      exact hsector k hk
  · exact hE

/-- **Writing the superblock** takes one write. -/
theorem writeSuperblock (hE : E V) :
    Uses (onVolume d) SimpleFs.writeSuperblock V 0 1 (.ok ()) V.writeSuper E := by
  unfold SimpleFs.writeSuperblock
  apply Uses.get_bind
  intro s hs
  rw [hs.sb]
  have h := writeSector (d := d) (V := V) 0
    (memcpy zeroSector 0 (Superblock.std V.total V.nextFree).toBytes superblockSize)
    (memcpy zeroSector 0 (Superblock.std V.total V.nextFree).toBytes superblockSize)
    (i := 0) (n := sectorSize) (Nat.le_refl _) (fun k hk => by
      rw [if_pos ⟨Nat.zero_le _, by omega⟩]
      rfl) hE
  exact h

/-- How many entries a search through the directory reads. -/
def searchReads (V : Volume) (test : DirEntry → Bool) (i n : Nat) : Nat :=
  match (List.range' i n).find? fun j => test (V.entry j) with
  | none => n
  | some j => j + 1 - i

/-- A search through the directory. -/
theorem findFrom (test : DirEntry → Bool) (status : Int) (n i : Nat)
    (hn : i + n ≤ simplefsMaxFiles) (hE : E V) :
    Uses (onVolume d) (SimpleFs.findFrom test status i n) V (searchReads V test i n) 0
      (match (List.range' i n).find? fun j => test (V.entry j) with
        | none => .error status
        | some j => .ok (j, V.entry j)) V E := by
  induction n generalizing i with
  | zero => exact Uses.fail _
  | succ n ih =>
    have hread := readEntry (d := d) (V := V) (E := E) (i := i) (by omega) hE
    have hrest := ih (i + 1) (by omega)
    unfold searchReads at hrest ⊢
    rw [List.range'_succ, List.find?_cons]
    by_cases ht : test (V.entry i) = true
    · have hdone : Uses (onVolume d) (if test (V.entry i) = true then Pure.pure (i, V.entry i)
          else SimpleFs.findFrom test status (i + 1) n) V 0 0 (.ok (i, V.entry i)) V E := by
        rw [if_pos ht]
        exact Uses.pure _
      have h := hread.bind (f := fun entry => if test entry = true then Pure.pure (i, entry)
        else SimpleFs.findFrom test status (i + 1) n) hdone
      rw [ht]
      rw [show 1 + 0 = i + 1 - i by omega] at h
      exact h
    · rw [Bool.not_eq_true] at ht
      rw [ht]
      have h := hread.bind (f := fun entry => if test entry = true then Pure.pure (i, entry)
        else SimpleFs.findFrom test status (i + 1) n) (by rw [ht, if_neg Bool.false_ne_true]; exact hrest)
      have hcost : 1 + (match (List.range' (i + 1) n).find? fun j => test (V.entry j) with
          | none => n
          | some j => j + 1 - (i + 1)) =
          match (List.range' (i + 1) n).find? fun j => test (V.entry j) with
          | none => n + 1
          | some j => j + 1 - i := by
        rcases hf : (List.range' (i + 1) n).find? fun j => test (V.entry j) with _ | j
        · exact Nat.add_comm _ _
        · have hmem := List.mem_of_find?_eq_some hf
          rw [List.mem_range'_1] at hmem
          show 1 + (j + 1 - (i + 1)) = j + 1 - i
          omega
      rw [hcost] at h
      exact h

/-! ### The bitmap -/

/-- The sectors of a run. -/
def inRun (start count sector : Nat) : Prop := start ≤ sector ∧ sector < start + count

instance (start count : Nat) : DecidablePred (inRun start count) := fun _ =>
  inferInstanceAs (Decidable (_ ∧ _))

/-- A run in the data sectors passes the range check. -/
theorem runOutside_eq {s : SimpleFs} (hs : Holds d s V) {start count : Nat}
    (hlow : simplefsDataStart ≤ start) (hhigh : start + count ≤ V.total) (hpos : 0 < count) :
    s.runOutside start count = false := by
  obtain ⟨-, hb⟩ := hs.total_bounds
  simp only [simplefsMaxTrackedSectors] at hb
  have hsub : SimpleFs.u32Sub V.total start = V.total - start := by
    unfold SimpleFs.u32Sub
    simp only [wordSize]
    omega
  unfold SimpleFs.runOutside
  rw [hs.sb]
  show (decide (start < simplefsDataStart) || decide (V.total ≤ start) ||
    decide (SimpleFs.u32Sub V.total start < count)) = false
  rw [hsub, Bool.or_eq_false_iff, Bool.or_eq_false_iff]
  simp only [decide_eq_false_iff_not]
  omega

/-- The sectors that `simplefs_mark_run_used` marks. -/
theorem markRunUsedFrom_run (n : Nat) {sector : Nat} {s : SimpleFs}
    (hfree : ∀ i, inRun sector n i → s.simplefsSectorUsed i = false) :
    SimpleFs.markRunUsedFrom sector n s = (.ok (), { s with
      simplefsSectorUsed := fun i => s.simplefsSectorUsed i || decide (inRun sector n i) }) := by
  induction n generalizing sector s with
  | zero =>
    have hnone : (fun i => s.simplefsSectorUsed i || decide (inRun sector 0 i)) =
        s.simplefsSectorUsed := by
      funext i
      rw [decide_eq_false fun h : inRun sector 0 i => by have := h.1; have := h.2; omega, Bool.or_false]
    rw [hnone]
    rfl
  | succ n ih =>
    have hhere : ¬s.simplefsSectorUsed sector = true := by
      rw [hfree sector ⟨Nat.le_refl _, by omega⟩]
      exact nofun
    unfold SimpleFs.markRunUsedFrom
    rw [run_get_bind, if_neg hhere]
    show SimpleFs.markRunUsedFrom (sector + 1) n (s.sectorSet sector) = _
    have hnext : ∀ i, inRun (sector + 1) n i → (s.sectorSet sector).simplefsSectorUsed i = false := by
      rintro i ⟨hlow, hhigh⟩
      refine (update_of_ne (by omega) _ _).trans (hfree i ⟨by omega, by omega⟩)
    rw [ih hnext]
    have hmarked : (fun i => (s.sectorSet sector).simplefsSectorUsed i ||
        decide (inRun (sector + 1) n i)) =
        fun i => s.simplefsSectorUsed i || decide (inRun sector (n + 1) i) := by
      funext i
      show (update s.simplefsSectorUsed sector true i || _) = _
      by_cases hi : i = sector
      · rw [hi, update_self, decide_eq_true (show inRun sector (n + 1) sector from
          ⟨Nat.le_refl _, by omega⟩), Bool.or_true, Bool.true_or]
      · rw [update_of_ne hi]
        congr 2
        unfold inRun
        refine propext ⟨fun h => ⟨by omega, by omega⟩, fun h => ⟨by omega, by omega⟩⟩
    rw [hmarked]
    rfl

/-- Marking a run that is free. -/
theorem markRunUsedFrom (n start : Nat) (used : Nat → Bool)
    (hfree : ∀ i, inRun start n i → used i = false) :
    Uses (onVolume d) (SimpleFs.markRunUsedFrom start n) (V.withUsed used) 0 0 (.ok ())
      (V.withUsed fun i => used i || decide (inRun start n i)) E := by
  apply Uses.of_run
  intro s hs
  have hused : s.simplefsSectorUsed = used := hs.used
  refine ⟨_, markRunUsedFrom_run n fun i hi => by rw [hused]; exact hfree i hi, { hs with used := ?_ }, rfl⟩
  show (fun i => s.simplefsSectorUsed i || decide (inRun start n i)) = _
  rw [hused]
  rfl

/-- **A run that is free is marked.** -/
theorem markRunUsed {start count : Nat} (hlow : simplefsDataStart ≤ start)
    (hhigh : start + count ≤ V.total) (hpos : 0 < count)
    (hfree : ∀ i, inRun start count i → V.used i = false) :
    Uses (onVolume d) (SimpleFs.markRunUsed start count) V 0 0 (.ok ())
      (V.withUsed fun i => V.used i || decide (inRun start count i)) E := by
  unfold SimpleFs.markRunUsed
  rw [if_neg (by omega)]
  apply Uses.get_bind
  intro s hs
  rw [runOutside_eq hs hlow hhigh hpos, if_neg Bool.false_ne_true]
  exact markRunUsedFrom count start V.used hfree

/-- The loop of `simplefs_mark_run_free`, as one change of the bitmap. -/
theorem foldl_sectorClear (s : SimpleFs) (start n : Nat) :
    (List.range n).foldl (fun s i => s.sectorClear (start + i)) s =
      { s with simplefsSectorUsed :=
          fun i => s.simplefsSectorUsed i && !decide (inRun start n i) } := by
  induction n with
  | zero =>
    have h : (fun i => s.simplefsSectorUsed i && !decide (inRun start 0 i)) =
        s.simplefsSectorUsed := by
      funext i
      have : ¬ inRun start 0 i := fun h => by unfold inRun at h; omega
      simp [this]
    rw [h]
    rfl
  | succ n ih =>
    rw [List.range_succ, List.foldl_append, ih]
    unfold SimpleFs.sectorClear
    simp only [List.foldl_cons, List.foldl_nil]
    congr 1
    funext i
    unfold inRun
    by_cases hi : i = start + n
    · subst hi
      simp
    · rw [update_of_ne hi]
      congr 3
      simp only [eq_iff_iff]
      omega

/-- Freeing a run, empty or inside the data sectors. -/
theorem markRunFree {start count : Nat}
    (h : count = 0 ∨ simplefsDataStart ≤ start ∧ start + count ≤ V.total) :
    Uses (onVolume d) (modify fun s => s.markRunFree start count : FsM Unit) V 0 0 (.ok ())
      (V.withUsed fun i => V.used i && !decide (inRun start count i)) E := by
  apply Uses.modify
  intro s hs
  unfold SimpleFs.markRunFree
  by_cases hz : count = 0
  · have heq : (fun i => V.used i && !decide (inRun start count i)) = V.used := by
      funext i
      have : ¬ inRun start count i := fun h => by unfold inRun at h; omega
      simp [this]
    rw [heq, hz]
    exact ⟨hs, rfl⟩
  · obtain ⟨hlow, hhigh⟩ := h.resolve_left hz
    rw [runOutside_eq hs hlow hhigh (by omega)]
    simp only [hz, decide_false, Bool.or_self, Bool.false_eq_true, if_false]
    rw [foldl_sectorClear]
    refine ⟨{ hs with used := ?_ }, rfl⟩
    show (fun i => s.simplefsSectorUsed i && !decide (inRun start count i)) = _
    rw [hs.used]
    rfl

end Holds

end AgenticOs
