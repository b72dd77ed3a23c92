import AgenticOs.Fs.FileOps

/-!
# Reading a file, and room for a file

What reading the bytes of a file does, and where a file gets sectors from.

* **Reads** (`Agrees.read`, `stat`): `simplefs_read` and `simplefs_stat` of an accepted path, with the number
  of sector reads they take; they answer with the bytes of the file from the offset on, and with its entry.
* **Bytes that are written over** (`Smeared`): a volume with other bytes in some data sectors has the same
  directory (`Smeared.entry`) and the same superblock (`Smeared.superOk`).
* **A new run** (`allocateSectors`, `allocateSectors_none`): `simplefs_allocate_sectors` takes the free run
  that its search finds, marks it and raises the high-water mark, or finds none and changes nothing.
-/

namespace AgenticOs

open Function Lib Lib.StM

/-- A byte string with `count` bytes at `offset` replaced; a gap before them is filled with zeros. -/
def splice (old : List Byte) (offset : Nat) (input : Nat → Byte) (count : Nat) : List Byte :=
  (List.range (max old.length (offset + count))).map fun p =>
    if offset ≤ p ∧ p < offset + count then input (p - offset) else old.getD p 0

/-- A file grows to the end of what is put into it. -/
theorem length_splice (old : List Byte) (offset : Nat) (input : Nat → Byte) (count : Nat) :
    (splice old offset input count).length = max old.length (offset + count) := by
  unfold splice
  rw [List.length_map, List.length_range]

namespace Volume

variable {d : Nat} {V W U : Volume} {i j : Nat} {e : DirEntry} {name : List Byte}
  {E : Volume → Prop} {s : SimpleFs}

/-- A file has as many bytes as its entry says. -/
@[simp] theorem length_fileBytes (V : Volume) (e : DirEntry) :
    (V.fileBytes e).length = e.sizeBytes := by
  unfold fileBytes
  rw [List.length_map, List.length_range]

/-- A byte of a file. -/
theorem getElem_fileBytes {p : Nat} (hp : p < (V.fileBytes e).length) :
    (V.fileBytes e)[p] = V.bytes (dataAddr e p) := by
  simp only [fileBytes, List.getElem_map, List.getElem_range]

/-- A byte of a file, where it might have ended. -/
theorem getD_fileBytes {p : Nat} (hp : p < e.sizeBytes) :
    (V.fileBytes e).getD p 0 = V.bytes (dataAddr e p) := by
  rw [List.getD_eq_getElem _ _ (by rw [length_fileBytes]; exact hp), getElem_fileBytes]

/-- The sizes and places of files that fit in their extents are small. -/
theorem Agrees.size_bound (h : V.Agrees) (hsized : V.Sized) (hlt : V.total ≤ simplefsMaxTrackedSectors)
    (hi : i < simplefsMaxFiles) (hlive : (V.entry i).Live) :
    (V.entry i).allocatedSectors = 0 ∧ (V.entry i).sizeBytes = 0 ∨
      sectorSize * (V.entry i).startSector + sectorSize * (V.entry i).allocatedSectors ≤
        sectorSize * simplefsMaxTrackedSectors := by
  have hs := hsized i hi hlive
  rcases h.extent i hi hlive with hz | ⟨-, hhigh⟩
  · left
    rw [hz] at hs
    exact ⟨hz, by omega⟩
  · right
    rw [← Nat.mul_add]
    exact Nat.mul_le_mul_left _ (Nat.le_trans hhigh hlt)

/-! ### `simplefs_read` and `simplefs_stat` -/

/-- What `simplefs_read` does with the entry found. -/
def readFound (offset count : Nat) (found : Nat × DirEntry) : FsM (List Byte) :=
  if found.2.sizeBytes ≤ offset ∨ count = 0 then return []
  else SimpleFs.readLoop found.2 offset (min count (found.2.sizeBytes - offset)) 0

/-- `simplefs_read` of an accepted path on a mounted volume. -/
theorem simplefsRead_eq (hs : Holds d s V) (hm : V.mounted = true) {path : Option CString}
    (hpath : SimpleFs.normalizePath path = some name) (offset : Nat) {buffer : Bool} {count : Nat}
    (hbuf : buffer = true ∨ count = 0) :
    SimpleFs.simplefsRead path offset buffer count s =
      (SimpleFs.findEntry name >>= readFound offset count) s := by
  unfold SimpleFs.simplefsRead
  rw [bind_ok (requireMounted_eq hs hm), normalize_some hpath, if_neg]
  · rfl
  · rintro ⟨hb, hpos⟩
    rcases hbuf with hb' | hz
    · rw [hb'] at hb
      exact absurd hb (by decide)
    · omega

/-- **`simplefs_read`** of an accepted path with a buffer. -/
theorem Agrees.read (h : V.Agrees) (hsized : V.Sized) (hlt : V.total ≤ simplefsMaxTrackedSectors)
    (hm : V.mounted = true) {path : Option CString}
    (hpath : SimpleFs.normalizePath path = some name) (offset : Nat) {buffer : Bool} {count : Nat}
    (hbuf : buffer = true ∨ count = 0) (hE : E V) :
    ∃ r, Uses (onVolume d) (SimpleFs.simplefsRead path offset buffer count) V r 0
      (match V.files name with
        | none => .error vfsEnoent
        | some bytes => .ok ((bytes.drop offset).take count)) V E := by
  have hfind := findEntry_uses (d := d) (V := V) name hE
  have start : ∀ {r : Nat} {res : Except Int (List Byte)},
      Uses (onVolume d) (SimpleFs.findEntry name >>= readFound offset count) V r 0 res V E →
      Uses (onVolume d) (SimpleFs.simplefsRead path offset buffer count) V r 0 res V E :=
    fun hrest => hrest.of_eq fun s hs => simplefsRead_eq hs hm hpath offset hbuf
  rcases hl : V.lookup name with _ | j
  · rw [hl] at hfind
    rw [files_eq_none.mpr hl]
    exact ⟨_, start hfind.bind_error⟩
  · rw [hl] at hfind
    rw [files_of_lookup hl]
    obtain ⟨hj, hlive, -⟩ := lookup_lt hl
    by_cases hend : (V.entry j).sizeBytes ≤ offset ∨ count = 0
    · have hnil : ((V.fileBytes (V.entry j)).drop offset).take count = [] := by
        rcases hend with hle | hz
        · rw [List.drop_of_length_le (by rw [length_fileBytes]; exact hle), List.take_nil]
        · rw [hz, List.take_zero]
      have hrest : readFound offset count (j, V.entry j) = pure [] := if_pos hend
      have hdone : Uses (onVolume d) (readFound offset count (j, V.entry j)) V 0 0 (.ok []) V E := by
        rw [hrest]
        exact Uses.pure _
      dsimp only
      rw [hnil]
      exact ⟨_, start (hfind.bind hdone)⟩
    · have hrest : readFound offset count (j, V.entry j) = SimpleFs.readLoop (V.entry j) offset
          (min count ((V.entry j).sizeBytes - offset)) 0 := if_neg hend
      rw [not_or, Nat.not_le] at hend
      have hsize := hsized j hj hlive
      obtain ⟨-, hstart⟩ := (h.extent j hj hlive).start_small hlt (by
        rcases Nat.eq_zero_or_pos (V.entry j).allocatedSectors with hz | hp
        · rw [hz] at hsize
          omega
        · exact hp)
      have hword := (V.entry_fits j).field 1
      have hfit : offset + min count ((V.entry j).sizeBytes - offset) ≤ wordSize := by
        have : (V.entry j).field 1 = (V.entry j).sizeBytes := rfl
        omega
      have hlist : ((V.fileBytes (V.entry j)).drop offset).take count =
          (List.range (min count ((V.entry j).sizeBytes - offset) - 0)).map fun k =>
            V.bytes (sectorSize * (V.entry j).startSector + (offset + 0 + k)) := by
        refine List.ext_getElem ?_ fun k hk hk' => ?_
        · rw [List.length_take, List.length_drop, length_fileBytes, List.length_map,
            List.length_range]
          omega
        · rw [List.getElem_take, List.getElem_drop, getElem_fileBytes, List.getElem_map,
            List.getElem_range]
          rfl
      have hloop := Holds.readLoop (d := d) (V := V) hfit hstart 0 hE
      rw [← hrest] at hloop
      dsimp only
      rw [hlist]
      exact ⟨_, start (hfind.bind hloop)⟩

/-- **`simplefs_stat`** of an accepted path. -/
theorem stat (hm : V.mounted = true) {path : Option CString}
    (hpath : SimpleFs.normalizePath path = some name) (hE : E V) :
    Uses (onVolume d) (SimpleFs.simplefsStat path true) V (V.nameReads name) 0
      (match V.lookup name with
        | none => .error vfsEnoent
        | some j => .ok (V.entry j).info) V E := by
  have hfind := findEntry_uses (d := d) (V := V) name hE
  have heq : ∀ s, Holds d s V → SimpleFs.simplefsStat path true s =
      (SimpleFs.findEntry name >>= fun found => pure found.2.info) s := by
    intro s hs
    unfold SimpleFs.simplefsStat
    rw [bind_ok (requireMounted_eq hs hm), normalize_some hpath]
    rfl
  apply Uses.of_eq _ heq
  rcases hl : V.lookup name with _ | j
  · rw [hl] at hfind
    exact hfind.bind_error
  · rw [hl] at hfind
    exact hfind.bind (m := 0) (n := 0) (Uses.pure _)

/-! ### Bytes that are written over -/

/-- Only bytes have changed. -/
theorem Smeared.fields {a n : Nat} (h : V.Smeared a n U) :
    U.total = V.total ∧ U.nextFree = V.nextFree ∧ U.used = V.used ∧ U.mounted = V.mounted := by
  obtain ⟨src, rfl⟩ := h
  exact ⟨rfl, rfl, rfl, rfl⟩

/-- Bytes outside the range have not. -/
theorem Smeared.bytes {a n p : Nat} (h : V.Smeared a n U) (hp : p < a ∨ a + n ≤ p) :
    U.bytes p = V.bytes p := by
  obtain ⟨src, rfl⟩ := h
  exact write_bytes_of_not (by omega)

/-- Part of the bytes. -/
theorem Smeared.mono {a n b m : Nat} (h : V.Smeared a n U) (hab : b ≤ a) (hn : a + n ≤ b + m) :
    V.Smeared b m U := by
  obtain ⟨src, rfl⟩ := h
  refine ⟨(V.write a src n).bytes ∘ (b + ·), ?_⟩
  refine ext_bytes rfl rfl rfl rfl fun p => ?_
  rw [write_bytes (V := V) b]
  by_cases hp : b ≤ p ∧ p < b + m
  · rw [if_pos hp, comp_apply, Nat.add_sub_cancel' hp.1]
  · rw [if_neg hp, write_bytes_of_not (by omega)]

/-- First some bytes of the range have changed and then others. -/
theorem Smeared.trans {a n : Nat} (h : V.Smeared a n W) (h' : W.Smeared a n U) :
    V.Smeared a n U := by
  obtain ⟨src, rfl⟩ := h
  obtain ⟨src', rfl⟩ := h'
  refine ⟨src', ext_bytes rfl rfl rfl rfl fun p => ?_⟩
  rw [write_bytes, write_bytes (V := V) a src']
  by_cases hp : a ≤ p ∧ p < a + n
  · rw [if_pos hp, if_pos hp]
  · rw [if_neg hp, if_neg hp, write_bytes_of_not hp]

/-- Bytes written to the data sectors leave the directory as it was. -/
theorem Smeared.entry {a n : Nat} (h : V.Smeared a n U) (ha : simplefsDataStart * sectorSize ≤ a)
    (hi : i < simplefsMaxFiles) : U.entry i = V.entry i := by
  obtain ⟨src, rfl⟩ := h
  exact entry_write (.inr ha) hi

/-- And the superblock. -/
theorem Smeared.superOk {a n : Nat} (h : V.Smeared a n U)
    (ha : simplefsDataStart * sectorSize ≤ a) (hs : V.SuperOk) : U.SuperOk := by
  obtain ⟨ht, hn, -, -⟩ := h.fields
  refine ⟨by rw [hn]; exact hs.low, by rw [hn, ht]; exact hs.high, fun k hk => ?_⟩
  rw [ht, hn, ← hs.bytes k hk]
  apply h.bytes
  left
  simp only [superblockSize, simplefsDataStart, sectorSize] at *
  omega

/-! ### A new run -/

/-- The volume with a run marked and the high-water mark raised in memory. -/
def reserved (V : Volume) (start count : Nat) : Volume :=
  (V.withUsed fun x => V.used x || decide (Holds.inRun start count x)).withNextFree
    (if V.nextFree < start + count then start + count else V.nextFree)

/-- The same with the superblock written. -/
def allocated (V : Volume) (start count : Nat) : Volume := (V.reserved start count).writeSuper

/-- Only the superblock is written when a run is allocated. -/
theorem allocated_bytes {start count p : Nat} (hp : sectorSize ≤ p) :
    (V.allocated start count).bytes p = V.bytes p :=
  write_bytes_of_not (V := V.reserved start count) (by omega)

/-- No entry changes. -/
theorem allocated_entry {start count : Nat} (hi : i < simplefsMaxFiles) :
    (V.allocated start count).entry i = V.entry i :=
  entry_congr (fun _ hp _ => allocated_bytes hp) hi

/-- The sectors in use are those from before, and the run. -/
theorem allocated_used {start count x : Nat} :
    (V.allocated start count).used x = true ↔ V.used x = true ∨ Holds.inRun start count x := by
  show (V.used x || decide (Holds.inRun start count x)) = true ↔ _
  rw [Bool.or_eq_true, decide_eq_true_eq]

/-- The superblock that is written out. -/
theorem writeSuper_superOk (hlow : simplefsDataStart ≤ V.nextFree) (hhigh : V.nextFree ≤ V.total) :
    V.writeSuper.SuperOk := by
  refine ⟨hlow, hhigh, fun k hk => ?_⟩
  unfold writeSuper
  rw [write_bytes, if_pos (by simp only [superblockSize, sectorSize] at *; omega), Nat.sub_zero]
  exact if_pos ⟨Nat.zero_le _, by omega⟩

/-- The superblock in memory and on the device are the same. -/
theorem SuperOk.allocated (h : V.SuperOk) {start count : Nat} (hend : start + count ≤ V.total) :
    (V.allocated start count).SuperOk := by
  have hlow := h.low
  have hhigh := h.high
  apply writeSuper_superOk
  · show simplefsDataStart ≤ if V.nextFree < start + count then start + count else V.nextFree
    split
    · omega
    · exact hlow
  · show (if V.nextFree < start + count then start + count else V.nextFree) ≤ V.total
    split
    · exact hend
    · exact hhigh

/-- The search for a free run in `simplefs_allocate_sectors`. -/
def freeRun (V : Volume) (count : Nat) : Option Nat :=
  if V.total - simplefsDataStart < count then none
  else SimpleFs.findRun V.used count (V.total - count) simplefsDataStart

/-- The run that is found lies in the data sectors and is free. -/
theorem freeRun_some {count start : Nat} (h : V.freeRun count = some start) :
    simplefsDataStart ≤ start ∧ start + count ≤ V.total ∧
      ∀ x, Holds.inRun start count x → V.used x = false := by
  unfold freeRun at h
  by_cases hbig : V.total - simplefsDataStart < count
  · rw [if_pos hbig] at h
    cases h
  · rw [if_neg hbig] at h
    obtain ⟨hlow, hhigh, hfree⟩ := findRun_some h
    exact ⟨hlow, by omega, hfree⟩

/-- The high-water mark in the superblock. -/
theorem raiseNextFree {start count : Nat} :
    Uses (onVolume d) (modify fun s => if s.simplefsSb.nextFreeSector < start + count then
        { s with simplefsSb := { s.simplefsSb with nextFreeSector := start + count } }
      else s : FsM Unit) V 0 0 (.ok ())
      (V.withNextFree (if V.nextFree < start + count then start + count else V.nextFree)) E := by
  apply Uses.modify
  intro s hs
  have hsb : s.simplefsSb.nextFreeSector = V.nextFree := by
    rw [hs.sb]
    rfl
  rw [hsb]
  by_cases hlt : V.nextFree < start + count
  · rw [if_pos hlt, if_pos hlt]
    refine ⟨{ hs with sb := ?_ }, rfl⟩
    show { s.simplefsSb with nextFreeSector := start + count } = _
    rw [hs.sb]
    rfl
  · rw [if_neg hlt, if_neg hlt]
    exact ⟨hs, rfl⟩

/-- `a - b` in `uint32_t`, for a volume. -/
theorem u32Sub_total (hb : V.total ≤ simplefsMaxTrackedSectors) {b : Nat} (hle : b ≤ V.total) :
    SimpleFs.u32Sub V.total b = V.total - b := by
  unfold SimpleFs.u32Sub
  simp only [wordSize, simplefsMaxTrackedSectors] at *
  omega

/-- `simplefs_allocate_sectors` takes the free run that is found. -/
theorem allocateSectors (hmax : V.total ≤ simplefsMaxTrackedSectors)
    (hlow : simplefsDataStart ≤ V.total) {count start : Nat} (hpos : 0 < count)
    (hrun : V.freeRun count = some start) (hE : E (V.reserved start count)) :
    Uses (onVolume d) (SimpleFs.allocateSectors count) V 0 1 (.ok start)
      (V.allocated start count) E := by
  obtain ⟨hstart, hend, hfree⟩ := freeRun_some hrun
  unfold freeRun at hrun
  have hbig : ¬ V.total - simplefsDataStart < count := by
    intro hc
    rw [if_pos hc] at hrun
    cases hrun
  rw [if_neg hbig] at hrun
  have htotal : ∀ {s}, Holds d s V → s.simplefsSb.totalSectors = V.total := by
    intro s hs
    rw [hs.sb]
    rfl
  have htake : Uses (onVolume d) (do
      SimpleFs.markRunUsed start count
      modify fun s => if s.simplefsSb.nextFreeSector < start + count then
          { s with simplefsSb := { s.simplefsSb with nextFreeSector := start + count } }
        else s
      SimpleFs.writeSuperblock
      return start) V (0 + (0 + (0 + 0))) (0 + (0 + (1 + 0))) (.ok start)
      (V.allocated start count) E :=
    (Holds.markRunUsed hstart hend hpos hfree).bind (raiseNextFree.bind
      ((Holds.writeSuperblock hE).bind (Uses.pure start)))
  unfold SimpleFs.allocateSectors
  rw [if_neg (Nat.pos_iff_ne_zero.mp hpos)]
  apply Uses.get_bind
  intro s hs
  rw [htotal hs, u32Sub_total hmax hlow, if_neg hbig, u32Sub_total hmax (by omega), hs.used, hrun]
  exact htake

/-- Without a free run nothing happens. -/
theorem allocateSectors_none (hmax : V.total ≤ simplefsMaxTrackedSectors)
    (hlow : simplefsDataStart ≤ V.total) {count : Nat} (hpos : 0 < count)
    (hrun : V.freeRun count = none) :
    Uses (onVolume d) (SimpleFs.allocateSectors count) V 0 0 (.error vfsEnospc) V E := by
  have htotal : ∀ {s}, Holds d s V → s.simplefsSb.totalSectors = V.total := by
    intro s hs
    rw [hs.sb]
    rfl
  unfold freeRun at hrun
  unfold SimpleFs.allocateSectors
  rw [if_neg (Nat.pos_iff_ne_zero.mp hpos)]
  apply Uses.get_bind
  intro s hs
  by_cases hbig : V.total - simplefsDataStart < count
  · rw [htotal hs, u32Sub_total hmax hlow, if_pos hbig]
    exact (Uses.fail vfsEnospc).bind_error
  · rw [if_neg hbig] at hrun
    rw [htotal hs, u32Sub_total hmax hlow, if_neg hbig, u32Sub_total hmax (by omega), hs.used,
      hrun]
    exact Uses.fail vfsEnospc

end Volume

end AgenticOs
