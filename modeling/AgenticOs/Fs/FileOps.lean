import AgenticOs.Fs.Files
import Mathlib.Data.Finset.Card
import Mathlib.Data.Finset.Range

/-!
# Names, and what `simplefs_open` does

* **Names** (`normalizePath_valid`, `cstr_copyName`): accepted paths stand for names that fit in a directory
  entry, and a name that is stored is read back.
* **Searches** (`findEntry_uses`, `findFreeEntry_uses`): what the searches through the directory find and how
  many sectors they read. The table is full exactly when there are `SIMPLEFS_MAX_FILES` files
  (`freeSlot_eq_none_iff`).
* **New and emptied files**: creating a file (`Consistent.create`) and emptying one (`Consistent.truncate`)
  replace one entry by one without an extent.
* **Open** (`Agrees.open`): which of its five ways `simplefs_open` takes (`Opened`), what the volume is then,
  and what it leaves behind when the device fails (`MidOpen`): the bitmap may be that of the truncated file
  already.
* **Files** (`Opened.next`): a name opened with success and either new or truncated is an empty file, and
  nothing else changes.
-/

namespace AgenticOs

open Function Lib Lib.StM

/-! ### Names -/

/-- A name that fits in a directory entry with its terminator. -/
structure ValidName (name : List Byte) : Prop where
  length : name.length < simplefsNameMax
  bytes : ∀ b ∈ name, b ≠ 0

/-- What the loop of `simplefs_normalize_path` accepts fits, and has no terminator inside. -/
theorem normalizeFrom_valid {n : Nat} {path name : List Byte} (hn : n < simplefsNameMax)
    (h : SimpleFs.normalizeFrom n path = some name) :
    n + name.length < simplefsNameMax ∧ ∀ b ∈ name, b ≠ 0 := by
  induction path generalizing n name with
  | nil =>
    cases h
    exact ⟨hn, fun _ hb => (nomatch hb)⟩
  | cons c cs ih =>
    unfold SimpleFs.normalizeFrom at h
    by_cases h0 : c = 0
    · rw [if_pos h0] at h
      cases h
      exact ⟨hn, fun _ hb => (nomatch hb)⟩
    · rw [if_neg h0] at h
      by_cases h1 : c = 0x2F
      · rw [if_pos h1] at h
        cases h
      · rw [if_neg h1] at h
        by_cases h2 : simplefsNameMax - 1 ≤ n
        · rw [if_pos h2] at h
          cases h
        · rw [if_neg h2] at h
          obtain ⟨name', hname, rfl⟩ := Option.map_eq_some_iff.mp h
          obtain ⟨hlen, hbytes⟩ := ih (by omega) hname
          refine ⟨by rw [List.length_cons]; omega, fun b hb => ?_⟩
          rcases List.mem_cons.mp hb with rfl | hb
          · exact h0
          · exact hbytes b hb

/-- Accepted paths stand for valid names. -/
theorem normalizePath_valid {path : Option CString} {name : List Byte}
    (h : SimpleFs.normalizePath path = some name) : ValidName name := by
  unfold SimpleFs.normalizePath at h
  rcases path with _ | path
  · cases h
  rcases path with _ | ⟨c, cs⟩
  · cases h
  dsimp only at h
  by_cases hc : c ≠ 0x2F
  · rw [if_pos hc] at h
    cases h
  rw [if_neg hc] at h
  rcases hn : SimpleFs.normalizeFrom 0 cs with _ | name'
  · rw [hn] at h
    cases h
  · rw [hn] at h
    dsimp only at h
    by_cases hd : name' = [] ∨ name' = [0x2E] ∨ name' = [0x2E, 0x2E]
    · rw [if_pos hd] at h
      cases h
    · rw [if_neg hd] at h
      cases h
      obtain ⟨hlen, hbytes⟩ := normalizeFrom_valid (by decide) hn
      exact ⟨by omega, hbytes⟩

/-- A stored name is read back. -/
theorem cstr_copyName {name : List Byte} (h : ValidName name) :
    cstr (SimpleFs.copyName name).toList = name := by
  have hlist : (SimpleFs.copyName name).toList =
      name ++ List.replicate (simplefsNameMax - name.length) 0 := by
    have hlen := h.length
    have hofFn : (SimpleFs.copyName name).toList = List.ofFn fun k : Fin simplefsNameMax =>
        if k.val < simplefsNameMax - 1 then name.getD k 0 else 0 := Vector.toList_ofFn
    rw [hofFn]
    refine List.ext_getElem ?_ fun k hk hk' => ?_
    · rw [List.length_ofFn, List.length_append, List.length_replicate]
      omega
    rw [List.getElem_ofFn]
    dsimp only
    by_cases hkn : k < name.length
    · rw [List.getElem_append_left hkn,
        if_pos (Nat.lt_of_lt_of_le hkn (Nat.le_sub_one_of_lt hlen)), List.getD_eq_getElem _ _ hkn]
    · rw [List.getElem_append_right (by omega), List.getElem_replicate,
        List.getD_eq_default _ _ (by omega), ite_self]
  unfold cstr
  rw [hlist, List.takeWhile_append_of_pos (by simpa using h.bytes)]
  have hrest : List.takeWhile (fun b : Byte => decide (b ≠ 0))
      (List.replicate (simplefsNameMax - name.length) 0) = [] := by
    rcases simplefsNameMax - name.length with _ | n
    · rfl
    · rw [List.replicate_succ, List.takeWhile_cons]
      rfl
  rw [hrest, List.append_nil]

namespace Volume

variable {d : Nat} {V V' : Volume} {i j : Nat} {e : DirEntry} {name : List Byte}
  {E : Volume → Prop} {s : SimpleFs}

/-- The number of files. -/
def fileCount (V : Volume) : Nat :=
  ((Finset.range simplefsMaxFiles).filter fun i => (V.entry i).used ≠ 0).card

/-- A volume after an operation. -/
structure Next (V V' : Volume) : Prop where
  consistent : V'.Consistent
  mounted : V'.mounted = V.mounted
  total : V'.total = V.total

/-! ### The calls before a file is touched -/

/-- The check that a file system is mounted, on a mounted one. -/
theorem requireMounted_eq (hs : Holds d s V) (hm : V.mounted = true) :
    SimpleFs.requireMounted s = (.ok (), s) := by
  unfold SimpleFs.requireMounted
  have hget : (StM.get : FsM SimpleFs) s = (.ok s, s) := rfl
  rw [bind_ok hget, hs.mounted, hm]
  rfl

/-- An accepted path. -/
theorem normalize_some {path : Option CString} (h : SimpleFs.normalizePath path = some name) :
    SimpleFs.normalize path = pure name := by
  unfold SimpleFs.normalize
  rw [h]

/-- A path that is refused. -/
theorem normalize_none {path : Option CString} (h : SimpleFs.normalizePath path = none) :
    SimpleFs.normalize path = fail vfsEinval := by
  unfold SimpleFs.normalize
  rw [h]

/-- What the search for a name reads. -/
def nameReads (V : Volume) (name : List Byte) : Nat :=
  Holds.searchReads V (DirEntry.isNamed name) 0 simplefsMaxFiles

/-- What the search for a free entry reads. -/
def freeReads (V : Volume) : Nat :=
  Holds.searchReads V (fun e => e.used == 0) 0 simplefsMaxFiles

/-- **The search for a name**, with the sectors that it reads. -/
theorem findEntry_uses (name : List Byte) (hE : E V) :
    Uses (onVolume d) (SimpleFs.findEntry name) V (V.nameReads name) 0
      (match V.lookup name with
        | none => .error vfsEnoent
        | some j => .ok (j, V.entry j)) V E :=
  Holds.findFrom (DirEntry.isNamed name) vfsEnoent simplefsMaxFiles 0 (by decide) hE

/-- **The search for a free entry**, with the sectors that it reads. -/
theorem findFreeEntry_uses (hE : E V) :
    Uses (onVolume d) SimpleFs.findFreeEntry V V.freeReads 0
      (match V.freeSlot with
        | none => .error vfsEnospc
        | some j => .ok j) V E := by
  have h := Holds.findFrom (d := d) (V := V) (fun e => e.used == 0) vfsEnospc simplefsMaxFiles 0
    (by decide) hE
  unfold SimpleFs.findFreeEntry
  unfold freeSlot
  rcases hf : (List.range' 0 simplefsMaxFiles).find? (fun j => (V.entry j).used == 0) with _ | j
  · rw [hf] at h
    exact h.bind_error
  · rw [hf] at h
    exact h.bind (m := 0) (n := 0) (Uses.pure _)

/-! ### Entries without an extent -/

/-- An entry with other small numbers fits. -/
theorem fits_of_small {e : DirEntry} (he : e.Fits) {a b c : Nat} (ha : a < wordSize)
    (hb : b < wordSize) (hc : c < wordSize) :
    ({ e with startSector := a, sizeBytes := b, allocatedSectors := c } : DirEntry).Fits := by
  refine ⟨he.used, fun i => ?_⟩
  match i with
  | 0 => exact ha
  | 1 => exact hb
  | 2 => exact hc
  | 3 => exact he.field 3
  | 4 => exact he.field 4
  | 5 => exact he.field 5
  | n + 6 => exact he.field 6

/-- What is read from the directory fits. -/
theorem entry_fits (V : Volume) (i : Nat) : (V.entry i).Fits := DirEntry.ofBytes_fits _

/-- The entry of a new file. -/
def newEntry (name : List Byte) : DirEntry :=
  { DirEntry.zero with used := 1, name := SimpleFs.copyName name }

/-- The entry of a new file fits. -/
theorem newEntry_fits (name : List Byte) : (newEntry name).Fits := by
  have hzero : (0 : Nat) < wordSize := by decide
  refine ⟨show 1 < wordSize by decide, fun i => ?_⟩
  match i with
  | 0 => exact hzero
  | 1 => exact hzero
  | 2 => exact hzero
  | 3 => exact hzero
  | 4 => exact hzero
  | 5 => exact hzero
  | n + 6 => exact hzero

/-- Directory entries are away from the superblock. -/
theorem SuperOk.setEntry (h : V.SuperOk) (j : Nat) (e : DirEntry) : (V.setEntry j e).SuperOk where
  low := h.low
  high := h.high
  bytes := by
    intro k hk
    have hb := h.bytes k hk
    unfold Volume.setEntry
    rw [write_bytes_of_not (by
      simp only [entryAddr, sectorSize, superblockSize] at *
      omega)]
    exact hb

/-- No sector belongs to a file without sectors. -/
theorem not_holds_of_empty (halloc : e.allocatedSectors = 0) (x : Nat) : ¬ e.Holds x := by
  intro hx
  unfold DirEntry.Holds Holds.inRun at hx
  omega

/-- Replacing an entry by one without an extent. -/
theorem moves_empty {W : Volume} (htotal : W.total = V.total) (hbytes : W.bytes = V.bytes)
    (he : e.Fits) (hlive : e.Live) (halloc : e.allocatedSectors = 0)
    (hbitmap : ∀ x, W.used x = true ↔ x < simplefsDataStart ∨
      ∃ i < simplefsMaxFiles, i ≠ j ∧ (V.entry i).Live ∧ (V.entry i).Holds x) :
    V.Moves (W.setEntry j e) j e := by
  refine { total := htotal, entry := ?_, live := hlive, extent := .inl halloc,
           disjoint := fun i _ _ _ x _ => not_holds_of_empty halloc x, bitmap := ?_ }
  · intro i hi
    have hentry : W.entry i = V.entry i := entry_congr (fun p _ _ => by rw [hbytes]) hi
    rw [entry_setEntry he, hentry]
  · intro x
    show W.used x = true ↔ _
    rw [hbitmap x]
    apply or_congr_right
    exact ⟨fun hx => .inr hx, fun hx => hx.resolve_left (not_holds_of_empty halloc x)⟩

/-- The same for the files. -/
theorem Consistent.replaces_empty (h : V.Consistent) {W : Volume} (hj : j < simplefsMaxFiles)
    (hr : V.Moves (W.setEntry j e) j e) (hsuper : W.SuperOk) (hbytes : W.bytes = V.bytes)
    (halloc : e.allocatedSectors = 0) (hsize : e.sizeBytes = 0)
    (hname : ∀ i < simplefsMaxFiles, i ≠ j → (V.entry i).Live →
      (V.entry i).nameBytes ≠ e.nameBytes) :
    V.Replaces (W.setEntry j e) j e := by
  refine { toMoves := hr, super := hsuper.setEntry j e, size := by omega, slack := ?_,
           name := hname, data := ?_ }
  · intro p _ hp
    rw [halloc] at hp
    omega
  · intro i hi _ hl p hp
    rw [setEntry_bytes_of_ge hj ((h.extent i hi hl).addr hp).1, hbytes]

/-! ### A new file -/

/-- A new file takes no sector. -/
theorem Agrees.create_moves (h : V.Agrees) (hfree : V.freeSlot = some j) (name : List Byte) :
    V.Moves (V.setEntry j (newEntry name)) j (newEntry name) := by
  obtain ⟨hj, hunused⟩ := freeSlot_some hfree
  apply moves_empty rfl rfl (newEntry_fits name) (show (1 : Nat) ≠ 0 by decide) rfl
  intro x
  rw [h.bitmap x]
  apply or_congr_right
  constructor
  · rintro ⟨i, hi, hl, hx⟩
    refine ⟨i, hi, ?_, hl, hx⟩
    rintro rfl
    exact hunused hl
  · rintro ⟨i, hi, -, hl, hx⟩
    exact ⟨i, hi, hl, hx⟩

/-- Creating a file. -/
theorem Consistent.create (h : V.Consistent) (hfree : V.freeSlot = some j) (hn : ValidName name)
    (hnew : V.lookup name = none) :
    V.Next (V.setEntry j (newEntry name)) ∧
      (V.setEntry j (newEntry name)).files = update V.files name (some []) ∧
      (V.setEntry j (newEntry name)).fileCount = V.fileCount + 1 := by
  obtain ⟨hj, hunused⟩ := freeSlot_some hfree
  have hname : (newEntry name).nameBytes = name := cstr_copyName hn
  have hr : V.Replaces (V.setEntry j (newEntry name)) j (newEntry name) := by
    apply h.replaces_empty hj (h.create_moves hfree name) h.super rfl rfl rfl
    intro i hi _ hl
    rw [hname]
    exact lookup_none hnew hi hl
  refine ⟨⟨h.replace hj hr, rfl, rfl⟩, ?_, ?_⟩
  · have hf := h.files_replace hj hr fun hl => absurd hl hunused
    rw [hname] at hf
    exact hf
  · unfold fileCount
    have hset : ((Finset.range simplefsMaxFiles).filter fun i =>
        ((V.setEntry j (newEntry name)).entry i).used ≠ 0) =
        insert j ((Finset.range simplefsMaxFiles).filter fun i => (V.entry i).used ≠ 0) := by
      ext i
      rw [Finset.mem_filter, Finset.mem_insert, Finset.mem_filter, Finset.mem_range,
        entry_setEntry (newEntry_fits name)]
      by_cases hij : i = j
      · rw [if_pos hij, hij]
        exact ⟨fun _ => .inl rfl, fun _ => ⟨hj, show (1 : Nat) ≠ 0 by decide⟩⟩
      · rw [if_neg hij]
        exact ⟨.inr, fun hx => hx.resolve_left hij⟩
    rw [hset, Finset.card_insert_of_notMem]
    rw [Finset.mem_filter]
    exact fun hc => hunused hc.2

/-! ### An emptied file -/

/-- The entry of a truncated file. -/
def truncated (e : DirEntry) : DirEntry :=
  { e with startSector := 0, sizeBytes := 0, allocatedSectors := 0 }

/-- The bitmap with an extent freed. -/
def freeExtent (V : Volume) (e : DirEntry) : Volume :=
  V.withUsed fun x => V.used x && !decide (Holds.inRun e.startSector e.allocatedSectors x)

/-- There is nothing to free. -/
theorem freeExtent_empty (halloc : e.allocatedSectors = 0) : V.freeExtent e = V := by
  have hsame : (fun x => V.used x && !decide (Holds.inRun e.startSector e.allocatedSectors x)) =
      V.used := by
    funext x
    have hno : ¬ Holds.inRun e.startSector e.allocatedSectors x := not_holds_of_empty halloc x
    rw [decide_eq_false hno, Bool.not_false, Bool.and_true]
  unfold freeExtent
  rw [hsame]
  rfl

/-- A file keeps its slot, so the number of files stays. -/
theorem fileCount_moves (hr : V.Moves V' j e)
    (hl : (V.entry j).Live) : V'.fileCount = V.fileCount := by
  unfold fileCount
  congr 1
  apply Finset.filter_congr
  intro i hi
  rw [hr.entry i (Finset.mem_range.mp hi)]
  by_cases hij : i = j
  · rw [if_pos hij, hij]
    exact ⟨fun _ => hl, fun _ => hr.live⟩
  · rw [if_neg hij]

/-- An emptied file gives its sectors back. -/
theorem Agrees.truncate_moves (h : V.Agrees) (hfound : V.lookup name = some j) :
    V.Moves ((V.freeExtent (V.entry j)).setEntry j (truncated (V.entry j))) j
      (truncated (V.entry j)) := by
  obtain ⟨hj, hl, -⟩ := lookup_lt hfound
  have hzero : (0 : Nat) < wordSize := by decide
  refine moves_empty (W := V.freeExtent (V.entry j)) rfl rfl
    (fits_of_small (V.entry_fits j) hzero hzero hzero) hl rfl fun x => ?_
  show (V.used x && !decide (Holds.inRun _ _ x)) = true ↔ _
  rw [Bool.and_eq_true, h.bitmap x, Bool.not_eq_true', decide_eq_false_iff_not]
  constructor
  · rintro ⟨hx | ⟨i, hi, hlive, hx⟩, hno⟩
    · exact .inl hx
    · refine .inr ⟨i, hi, ?_, hlive, hx⟩
      rintro rfl
      exact hno hx
  · rintro (hx | ⟨i, hi, hij, hlive, hx⟩)
    · refine ⟨.inl hx, fun hc => ?_⟩
      unfold Holds.inRun at hc
      rcases h.extent j hj hl with hz | ⟨hlow, -⟩ <;> omega
    · exact ⟨.inr ⟨i, hi, hlive, hx⟩, h.disjoint i hi j hj hij hlive hl x hx⟩

/-- Emptying a file. -/
theorem Consistent.truncate (h : V.Consistent) (hfound : V.lookup name = some j) :
    V.Next ((V.freeExtent (V.entry j)).setEntry j (truncated (V.entry j))) ∧
      ((V.freeExtent (V.entry j)).setEntry j (truncated (V.entry j))).files =
        update V.files name (some []) ∧
      ((V.freeExtent (V.entry j)).setEntry j (truncated (V.entry j))).fileCount =
        V.fileCount := by
  obtain ⟨hj, hl, hname⟩ := lookup_lt hfound
  have hm := h.truncate_moves hfound
  have hr := h.replaces_empty hj hm ⟨h.super.low, h.super.high, h.super.bytes⟩ rfl rfl rfl
    fun i hi hij hlive hc => hij (h.unique i hi j hj hlive hl hc)
  refine ⟨⟨h.replace hj hr, rfl, rfl⟩, ?_, fileCount_moves hm hl⟩
  have hf := h.files_replace hj hr fun _ => rfl
  rw [show (truncated (V.entry j)).nameBytes = name from hname] at hf
  exact hf

/-- The table is full exactly when `SIMPLEFS_MAX_FILES` files exist. -/
theorem freeSlot_eq_none_iff : V.freeSlot = none ↔ V.fileCount = simplefsMaxFiles := by
  have hcard : (Finset.range simplefsMaxFiles).card = simplefsMaxFiles := Finset.card_range _
  unfold fileCount
  constructor
  · intro h
    have hall : ∀ i ∈ Finset.range simplefsMaxFiles, (V.entry i).used ≠ 0 := fun i hi =>
      freeSlot_none h (Finset.mem_range.mp hi)
    rw [Finset.filter_true_of_mem hall]
    exact hcard
  · intro h
    rcases hf : V.freeSlot with _ | i
    · rfl
    · obtain ⟨hi, hunused⟩ := freeSlot_some hf
      have heq := Finset.eq_of_subset_of_card_le (Finset.filter_subset
        (fun i => (V.entry i).used ≠ 0) (Finset.range simplefsMaxFiles)) (by rw [hcard, h])
      have hmem : i ∈ Finset.range simplefsMaxFiles := Finset.mem_range.mpr hi
      rw [← heq, Finset.mem_filter] at hmem
      exact absurd hmem.2 hunused

/-! ### `simplefs_open` -/

/-- What `simplefs_open` does with the result of the search for the name. -/
def openFound (name : List Byte) (flags : Word) : Except Int (Nat × DirEntry) → FsM FileInfo
  | .error status =>
    if status = vfsEnoent then do
      if !test flags vfsOCreat then StM.fail vfsEnoent
      let index ← SimpleFs.findFreeEntry
      SimpleFs.writeEntry index (newEntry name)
      return DirEntry.info (newEntry name)
    else StM.fail status
  | .ok (index, entry) =>
    if test flags vfsOTrunc then do
      StM.modify (·.markRunFree entry.startSector entry.allocatedSectors)
      SimpleFs.writeEntry index (truncated entry)
      return DirEntry.info (truncated entry)
    else return DirEntry.info entry

/-- `simplefs_open` of an accepted path on a mounted volume. -/
theorem simplefsOpen_eq (hs : Holds d s V) (hm : V.mounted = true) {path : Option CString}
    (hpath : SimpleFs.normalizePath path = some name) (flags : Word) :
    SimpleFs.simplefsOpen path flags s =
      (StM.attempt (SimpleFs.findEntry name) >>= openFound name flags) s := by
  unfold SimpleFs.simplefsOpen
  rw [bind_ok (requireMounted_eq hs hm), normalize_some hpath]
  rfl

/-- The ways `simplefs_open` of an accepted path goes, with its result and the volume after it. -/
inductive Opened (V : Volume) (name : List Byte) (flags : Word) :
    Except Int FileInfo → Volume → Prop
  | missing : V.lookup name = none → test flags vfsOCreat = false →
      Opened V name flags (.error vfsEnoent) V
  | full : V.lookup name = none → test flags vfsOCreat = true → V.freeSlot = none →
      Opened V name flags (.error vfsEnospc) V
  | created (j : Nat) : V.lookup name = none → test flags vfsOCreat = true →
      V.freeSlot = some j →
      Opened V name flags (.ok (newEntry name).info) (V.setEntry j (newEntry name))
  | emptied (j : Nat) : V.lookup name = some j → test flags vfsOTrunc = true →
      Opened V name flags (.ok (truncated (V.entry j)).info)
        ((V.freeExtent (V.entry j)).setEntry j (truncated (V.entry j)))
  | found (j : Nat) : V.lookup name = some j → test flags vfsOTrunc = false →
      Opened V name flags (.ok (V.entry j).info) V

/-- **A truncation**: the sectors are freed, and then the entry is written. -/
theorem openFound_truncate (h : V.Agrees) {flags : Word} (hl : V.lookup name = some j)
    (htrunc : test flags vfsOTrunc = true) (hE : E (V.freeExtent (V.entry j))) :
    Uses (onVolume d) (openFound name flags (.ok (j, V.entry j))) V 1 1
      (.ok (truncated (V.entry j)).info)
      ((V.freeExtent (V.entry j)).setEntry j (truncated (V.entry j))) E := by
  obtain ⟨hj, hlive, -⟩ := lookup_lt hl
  dsimp only [openFound]
  rw [if_pos htrunc]
  have hfree := Holds.markRunFree (d := d) (V := V) (E := E) (h.extent j hj hlive)
  exact hfree.bind (m := 1) (n := 1) ((Holds.writeEntry hj _ hE).bind (m := 0) (n := 0)
    (Uses.pure _))

/-- What a failing device can leave behind of a call of `simplefs_open`: the bitmap may be that of the
truncated file already. -/
def MidOpen (V : Volume) (name : List Byte) (flags : Word) (U : Volume) : Prop :=
  U = V ∨ ∃ j, V.lookup name = some j ∧ test flags vfsOTrunc = true ∧
    U = V.freeExtent (V.entry j)

/-- A truncation that fails has written nothing. -/
theorem MidOpen.bytes {flags : Word} {U : Volume} (h : V.MidOpen name flags U) :
    U.bytes = V.bytes := by
  rcases h with rfl | ⟨_, _, _, rfl⟩
  · rfl
  · rfl

/-- An error of the device is passed on. -/
theorem openFound_broken (name : List Byte) (flags : Word) (s : SimpleFs) :
    openFound name flags (.error vfsEio) s = (.error vfsEio, s) := by
  dsimp only [openFound]
  rw [if_neg (show ¬ vfsEio = vfsEnoent by decide)]
  rfl

/-- **`simplefs_open`** of an accepted path. When the device fails, it still holds what it held. -/
theorem Agrees.open (h : V.Agrees) (hm : V.mounted = true) {path : Option CString}
    (hpath : SimpleFs.normalizePath path = some name) (flags : Word) :
    ∃ r w res V', V.Opened name flags res V' ∧
      Uses (onVolume d) (SimpleFs.simplefsOpen path flags) V r w res V' (V.MidOpen name flags) := by
  have hfind := findEntry_uses (d := d) (V := V) (E := V.MidOpen name flags) name (.inl rfl)
  -- the calls every way begins with
  have start : ∀ {r w : Nat} {res : Except Int FileInfo} {V' : Volume},
      Uses (onVolume d) (openFound name flags (match V.lookup name with
        | none => .error vfsEnoent
        | some j => .ok (j, V.entry j))) V r w res V' (V.MidOpen name flags) →
      Uses (onVolume d) (SimpleFs.simplefsOpen path flags) V (V.nameReads name + r) (0 + w) res V'
        (V.MidOpen name flags) := fun hrest =>
    (hfind.attempt_bind hrest (openFound_broken name flags)).of_eq fun s hs =>
      simplefsOpen_eq hs hm hpath flags
  rcases hl : V.lookup name with _ | j
  · rw [hl] at start
    unfold openFound at start
    simp only [if_true] at start
    by_cases hcreat : test flags vfsOCreat = true
    · simp only [hcreat, Bool.not_true, Bool.false_eq_true, if_false] at start
      have hslot := findFreeEntry_uses (d := d) (V := V) (E := V.MidOpen name flags) (.inl rfl)
      rcases hf : V.freeSlot with _ | j
      · rw [hf] at hslot
        exact ⟨_, _, _, _, .full hl hcreat hf, start hslot.bind_error⟩
      · rw [hf] at hslot
        have hwrite := Holds.writeEntry (d := d) (V := V) (E := V.MidOpen name flags)
          (freeSlot_some hf).1 (newEntry name) (.inl rfl)
        exact ⟨_, _, _, _, .created j hl hcreat hf, start (hslot.bind
          (hwrite.bind (Uses.pure (newEntry name).info)))⟩
    · rw [Bool.not_eq_true] at hcreat
      simp only [hcreat, Bool.not_false, if_true] at start
      exact ⟨_, _, _, _, .missing hl hcreat, start (Uses.fail _).bind_error⟩
  · rw [hl] at start
    by_cases htrunc : test flags vfsOTrunc = true
    · exact ⟨_, _, _, _, .emptied j hl htrunc,
        start (openFound_truncate h hl htrunc (.inr ⟨j, hl, htrunc, rfl⟩))⟩
    · unfold openFound at start
      simp only [htrunc] at start
      exact ⟨_, _, _, _, .found j hl (by simpa using htrunc), start (Uses.pure _)⟩

/-- The bitmap and the directory agree afterwards. -/
theorem Opened.agrees {flags : Word} {res : Except Int FileInfo}
    (ho : V.Opened name flags res V') (h : V.Agrees) : V'.Agrees := by
  cases ho with
  | missing | full | found => exact h
  | created j _ _ hf => exact h.replace (freeSlot_some hf).1 (h.create_moves hf name)
  | emptied j hl => exact h.replace (lookup_lt hl).1 (h.truncate_moves hl)

/-- The files after `simplefs_open`: a name opened with success and either new or truncated is an
empty file, and nothing else changes. -/
theorem Opened.next {flags : Word} {res : Except Int FileInfo} (ho : V.Opened name flags res V')
    (h : V.Consistent) (hn : ValidName name) :
    V.Next V' ∧
      V'.files = (if res.isOk ∧ (V.lookup name = none ∨ test flags vfsOTrunc = true) then
        update V.files name (some []) else V.files) := by
  cases ho with
  | missing | full =>
    refine ⟨⟨h, rfl, rfl⟩, ?_⟩
    rw [if_neg]
    exact fun hc => Bool.false_ne_true hc.1
  | created j hl _ hf =>
    obtain ⟨hnext, hfiles, -⟩ := h.create hf hn hl
    exact ⟨hnext, by rw [if_pos ⟨rfl, .inl hl⟩, hfiles]⟩
  | emptied j hl htrunc =>
    obtain ⟨hnext, hfiles, -⟩ := h.truncate hl
    exact ⟨hnext, by rw [if_pos ⟨rfl, .inr htrunc⟩, hfiles]⟩
  | found j hl htrunc =>
    refine ⟨⟨h, rfl, rfl⟩, ?_⟩
    rw [if_neg]
    rintro ⟨-, hc | hc⟩
    · rw [hl] at hc
      cases hc
    · rw [htrunc] at hc
      cases hc

end Volume

end AgenticOs
