import AgenticOs.Fs.Crash
import AgenticOs.Fs.DataSectors
import AgenticOs.Fs.OtherDevices
import AgenticOs.Fs.PathCalls

/-!
# Names stay where they are

A directory entry that is in use keeps its name in every call but a format, and a call that is given a path
comes to the entry of that name.

* **Names stay** (`Working.op_keeps`): a call changes the name of no entry in use, and the entry it comes to
  has the name of its path. `Keeps` says this of two volumes.
* **Where calls come to** (`reaches_iff`): a call whose other arguments let it look for its path comes to the
  entry that has the name, or to a free one for a new file (`slot`). An entry in use is given only to its name
  (`Working.reaches_iff_name`).
* **The exception**: a write so long that its data run over the end of the device and around to the directory.
  It asks for sectors that the device does not have (`Working.write_behind`), and names stay in a write that
  asks for none (`write_keeps`).
-/

namespace AgenticOs

open Function Lib Lib.StM Volume

variable {d : Nat} {s s' : SimpleFs} {V V' : Volume} {name : List Byte} {i j : Nat} {e : DirEntry}

namespace Volume

/-- Entry `i` is in use and has this name. -/
def Has (V : Volume) (i : Nat) (name : List Byte) : Prop :=
  i < simplefsMaxFiles ∧ (V.entry i).Live ∧ (V.entry i).nameBytes = name

/-- Files without sectors start at sector 0. -/
def Rooted (V : Volume) : Prop :=
  ∀ i < simplefsMaxFiles, (V.entry i).Live → (V.entry i).allocatedSectors = 0 → (V.entry i).startSector = 0

/-- All names are where they were. -/
structure Keeps (V V' : Volume) : Prop where
  has : ∀ i name, V.Has i name → V'.Has i name
  rooted : V.Rooted → V'.Rooted

/-- Nothing happened. -/
theorem Keeps.refl (V : Volume) : V.Keeps V := ⟨fun _ _ => id, id⟩

/-- The same entries. -/
theorem Keeps.of_entries (h : ∀ i < simplefsMaxFiles, V'.entry i = V.entry i) : V.Keeps V' := by
  constructor
  · rintro i name ⟨hi, hlive, hname⟩
    exact ⟨hi, by rw [h i hi]; exact hlive, by rw [h i hi]; exact hname⟩
  · intro hroot i hi
    rw [h i hi]
    exact hroot i hi

/-- An entry is replaced by one of the same name. -/
theorem Moves.keeps (hr : V.Moves V' j e) (hj : j < simplefsMaxFiles)
    (hname : (V.entry j).Live → e.nameBytes = (V.entry j).nameBytes)
    (hroot : V.Rooted → e.allocatedSectors = 0 → e.startSector = 0) : V.Keeps V' := by
  constructor
  · rintro i name ⟨hi, hlive, rfl⟩
    by_cases hij : i = j
    · subst hij
      refine ⟨hi, ?_, ?_⟩
      · rw [hr.entry_self hi]
        exact hr.live
      · rw [hr.entry_self hi]
        exact hname hlive
    · refine ⟨hi, ?_, ?_⟩
      · rw [hr.entry_other hi hij]
        exact hlive
      · rw [hr.entry_other hi hij]
  · intro hrooted i hi hlive hempty
    by_cases hij : i = j
    · subst hij
      rw [hr.entry_self hi] at hempty ⊢
      exact hroot hrooted hempty
    · rw [hr.entry_other hi hij] at hlive hempty ⊢
      exact hrooted i hi hlive hempty

/-- An open keeps the names. -/
theorem Opened.keeps {flags : Word} {res : Except Int FileInfo} (ho : V.Opened name flags res V')
    (h : V.Agrees) : V.Keeps V' := by
  cases ho with
  | missing | full | found => exact .refl V
  | created j _ _ hslot =>
    obtain ⟨hj, hunused⟩ := freeSlot_some hslot
    exact (h.create_moves hslot name).keeps hj (fun hlive => absurd hlive hunused) fun _ _ => rfl
  | emptied j hl => exact (h.truncate_moves hl).keeps (lookup_lt hl).1 (fun _ => rfl) fun _ _ => rfl

/-- The name of a new file is stored. -/
theorem Opened.has {flags : Word} {res : Except Int FileInfo} (ho : V.Opened name flags res V')
    (hn : ValidName name) (hl : V.lookup name = none) (hcreat : test flags vfsOCreat = true)
    (hslot : V.freeSlot = some i) : V'.Has i name := by
  cases ho with
  | missing _ hno =>
    rw [hno] at hcreat
    cases hcreat
  | full _ _ hfull =>
    rw [hfull] at hslot
    cases hslot
  | created j _ _ hfree =>
    obtain rfl := Option.some.inj (hfree.symm.trans hslot)
    have hself := entry_setEntry (V := V) (i := j) (j := j) (newEntry_fits name)
    rw [if_pos rfl] at hself
    refine ⟨(freeSlot_some hslot).1, ?_, ?_⟩
    · rw [hself]
      exact (by decide : (1 : Nat) ≠ 0)
    · rw [hself]
      exact cstr_copyName hn
  | emptied j hfound | found j hfound =>
    rw [hfound] at hl
    cases hl

/-- So does a write. -/
theorem Wrote.keeps {offset count : Nat} {input : Nat → Byte} {res : Except Int Nat}
    (hw : V.Wrote name offset input count res V') (h : V.Agrees) (hmax : V.total ≤ simplefsMaxTrackedSectors)
    (hsum : offset + count < wordSize) (hsmall : ∀ j, V.lookup name = some j → Small (V.entry j) offset count) :
    V.Keeps V' := by
  cases hw with
  | missing | full => exact .refl V
  | inPlace j hl hfits =>
    obtain ⟨hj, hlive, -⟩ := lookup_lt hl
    exact (h.inPlace_moves hl hsum (h.placed hmax hsmall j hl hfits)).keeps hj (fun _ => rfl)
      fun hroot => hroot j hj hlive
  | moved j start W hl hgrows hrun hW =>
    refine (h.moved_moves hmax hl (hsmall j hl) hrun hW).keeps (lookup_lt hl).1 (fun _ => rfl) fun _ hempty => ?_
    exact absurd hempty (Nat.ne_of_gt (hsmall j hl).required_pos)

end Volume

/-! ### Sectors that a device does not have -/

/-- The sector that is asked for. -/
def Access.lba : Access → Nat
  | .read lba => lba
  | .write lba => lba

/-- The sectors asked for between two states. -/
def SimpleFs.accessesSince (s s' : SimpleFs) : List Access := s'.log.take (s'.log.length - s.log.length)

/-- What was logged after the start. -/
theorem SimpleFs.accessesSince_eq {l : List Access} (h : s'.log = l ++ s.log) : s.accessesSince s' = l := by
  unfold accessesSince
  rw [h, List.length_append, Nat.add_sub_cancel, List.take_left]

/-- A write that ends near the end of the 32-bit range asks for a sector behind the device. -/
theorem Working.write_behind (h : Working d s V) (hroot : V.Rooted) {path : Option CString}
    (hpath : SimpleFs.normalizePath path = some name) (hl : V.lookup name = some j) {offset count : Nat}
    (input : Nat → Byte) (hpos : 0 < count) (hsum : offset + count < wordSize)
    (hlarge : ¬Small (V.entry j) offset count) :
    ∃ a ∈ s.accessesSince (SimpleFs.simplefsWrite path offset (some input) count s).2, V.total ≤ a.lba := by
  obtain ⟨hj, hlive, -⟩ := lookup_lt hl
  have hsize := h.consistent.size j hj hlive
  have hmax := h.total_le
  have hwraps : wordSize < grownSize (V.entry j) offset count + sectorSize := by
    by_contra hle
    exact hlarge ⟨Nat.not_lt.mp hle, hpos⟩
  have hstart : (V.entry j).startSector ≤ simplefsMaxTrackedSectors ∧
      (V.entry j).sizeBytes ≤ sectorSize * simplefsMaxTrackedSectors := by
    rcases h.consistent.extent j hj hlive with hempty | ⟨-, hend⟩
    · rw [hroot j hj hlive hempty]
      rw [hempty] at hsize
      omega
    · have hall : (V.entry j).allocatedSectors ≤ simplefsMaxTrackedSectors := by omega
      exact ⟨by omega, Nat.le_trans hsize (Nat.mul_le_mul_left _ hall)⟩
  -- so the end of the write is in the last sector of the range
  have hlast : wordSize < offset + count + sectorSize := by
    unfold grownSize at hwraps
    simp only [wordSize, sectorSize, simplefsMaxTrackedSectors] at *
    omega
  have hsector : V.total ≤ SimpleFs.sectorOf (V.entry j) (offset + count - 1) := by
    unfold SimpleFs.sectorOf
    simp only [wordSize, sectorSize, simplefsMaxTrackedSectors] at *
    omega
  obtain ⟨s₁, hfind, hs₁, hworks⟩ := findEntry_works h.holds h.faults hl
  have hroom : required (V.entry j) offset count ≤ (V.entry j).allocatedSectors := by
    rw [required_wraps (V.entry_fits j) hsum hwraps]
    exact Nat.zero_le _
  have hensure : SimpleFs.ensureCapacity (V.entry j) (required (V.entry j) offset count) =
      pure (V.entry j) := if_pos hroom
  obtain ⟨l, hlog, hmem⟩ := SimpleFs.writeLoop_last (e := V.entry j) input hs₁.dev hworks
    (Nat.le_of_lt hsum) hpos
  refine ⟨.write (SimpleFs.sectorOf (V.entry j) (offset + count - 1)), ?_, hsector⟩
  obtain ⟨l₀, hlog₀⟩ : s.log <:+ s₁.log := by
    have hkept := SimpleFs.othersKept_findFrom (DirEntry.isNamed name) vfsEnoent simplefsMaxFiles 0 s
    rw [show SimpleFs.findFrom (DirEntry.isNamed name) vfsEnoent 0 simplefsMaxFiles s = _ from hfind] at hkept
    exact hkept.log
  -- the rest of the call only adds to the log
  have hend := SimpleFs.othersKept_writeEnd j { V.entry j with sizeBytes := grownSize (V.entry j) offset count }
    (0 < (V.entry j).allocatedSectors ∧ (V.entry j).startSector ≠ (V.entry j).startSector) (V.entry j).startSector
    (V.entry j).allocatedSectors count
  obtain ⟨l₁, hlog₁⟩ := (Within.after (x := SimpleFs.writeLoop (V.entry j) offset input count 0)
    (fun _ => hend) s₁).log
  have hrun : SimpleFs.simplefsWrite path offset (some input) count s =
      writeFound offset input count (j, V.entry j) s₁ := by
    rw [simplefsWrite_eq h.holds h.mounted hpath input hpos hsum, bind_ok hfind]
  unfold writeFound at hrun
  rw [hensure, pure_bind] at hrun
  rw [hrun, SimpleFs.accessesSince_eq (l := l₁ ++ l ++ l₀)]
  · exact List.mem_append_left _ (List.mem_append_right _ hmem)
  · rw [List.append_assoc, List.append_assoc, hlog₀, ← hlog, hlog₁]

/-! ### The entry a call comes to -/

namespace FsOp

/-- The path a call is given. -/
def path : FsOp → Option CString
  | .open path _ => path
  | .read path _ _ _ => path
  | .write path _ _ _ => path
  | .stat path _ => path

/-- The first part of a call, with the index of the entry it comes to. -/
def target : FsOp → FsM (Option Nat)
  | .open path flags => do
    let entry ← SimpleFs.openTarget path flags
    return some entry.index
  | .read path _ buffer count => do
    let found ← SimpleFs.readTarget path buffer count
    return some found.1
  | .write path offset buffer count => do
    let found ← SimpleFs.writeTarget path offset buffer count
    return found.map (·.1)
  | .stat path out => do
    let found ← SimpleFs.statTarget path out
    return some found.1

/-- A call that fails on its way to an entry does nothing else. -/
theorem step_of_target_error {op : FsOp} {status : Int} (h : op.target s = (.error status, s')) :
    op.step s = s' := by
  unfold target at h
  unfold step
  cases op with
  | «open» path flags =>
    dsimp only
    rw [SimpleFs.simplefsOpen_parts, bind_error (error_of_bind_pure h)]
  | read path offset buffer count =>
    dsimp only
    rw [SimpleFs.simplefsRead_parts, bind_error (error_of_bind_pure h)]
  | write path offset buffer count =>
    dsimp only
    rw [SimpleFs.simplefsWrite_parts, bind_error (error_of_bind_pure h)]
  | stat path out =>
    dsimp only
    rw [SimpleFs.simplefsStat_parts, bind_error (error_of_bind_pure h)]

/-- A call comes to an entry. -/
def Reaches (s : SimpleFs) (op : FsOp) (i : Nat) : Prop := (op.target s).1 = .ok (some i)

/-- The arguments beside the path, for which a call looks for its path. -/
def Looks : FsOp → Prop
  | .open _ _ => True
  | .read _ _ buffer count => buffer = true ∨ count = 0
  | .write _ offset buffer count => buffer ≠ none ∧ count ≠ 0 ∧ offset ≤ (offset + count) % wordSize
  | .stat _ out => out = true

/-- The entry that a name is given: the one that has it, or a free one for a new file. -/
def slot (V : Volume) (name : List Byte) : FsOp → Option Nat
  | .open _ flags =>
    match V.lookup name with
    | some j => some j
    | none => if test flags vfsOCreat then V.freeSlot else none
  | _ => V.lookup name

end FsOp

namespace Working

/-- **`find_entry`** -/
theorem findEntry_run (h : Working d s V) (name : List Byte) :
    ∃ s', SimpleFs.findEntry name s = (match V.lookup name with
      | none => .error vfsEnoent
      | some j => .ok (j, V.entry j), s') ∧ Working d s' V :=
  h.of_uses (findEntry_uses (E := fun _ => True) name trivial) h.next_self

/-- **`find_free_entry`** -/
theorem findFreeEntry_run (h : Working d s V) :
    ∃ s', SimpleFs.findFreeEntry s = (match V.freeSlot with
      | none => .error vfsEnospc
      | some j => .ok j, s') ∧ Working d s' V :=
  h.of_uses (findFreeEntry_uses (E := fun _ => True) trivial) h.next_self

/-- A search for a path. -/
theorem looks_iff (h : Working d s V) (path : Option CString) :
    ((SimpleFs.lookupPath path >>= fun found => (pure (some found.1) : FsM (Option Nat))) s).1 = .ok (some i) ↔
      ∃ name, SimpleFs.normalizePath path = some name ∧ V.lookup name = some i := by
  unfold SimpleFs.lookupPath
  rcases hpath : SimpleFs.normalizePath path with _ | name
  · rw [normalize_none hpath, fail_bind]
    exact ⟨nofun, nofun⟩
  rw [normalize_some hpath, pure_bind]
  obtain ⟨s', hfind, -⟩ := h.findEntry_run name
  rcases hl : V.lookup name with _ | j
  · rw [hl] at hfind
    rw [bind_error hfind]
    refine ⟨nofun, ?_⟩
    rintro ⟨_, ⟨⟩, hj⟩
    rw [hl] at hj
    cases hj
  · rw [hl] at hfind
    rw [bind_ok hfind]
    constructor
    · rintro ⟨⟩
      exact ⟨name, rfl, hl⟩
    · rintro ⟨_, ⟨⟩, hj⟩
      obtain rfl := Option.some.inj (hl.symm.trans hj)
      rfl

/-- A path that is opened. -/
theorem opens_iff (h : Working d s V) (path : Option CString) (flags : Word) :
    (FsOp.open path flags).Reaches s i ↔
      ∃ name, SimpleFs.normalizePath path = some name ∧ (FsOp.open path flags).slot V name = some i := by
  unfold FsOp.Reaches FsOp.target FsOp.slot SimpleFs.openTarget
  simp only [bind_assoc]
  rw [bind_ok (requireMounted_eq h.holds h.mounted)]
  rcases hpath : SimpleFs.normalizePath path with _ | name
  · rw [normalize_none hpath, fail_bind]
    exact ⟨nofun, nofun⟩
  rw [normalize_some hpath, pure_bind]
  have hname {P : List Byte → Prop} : (∃ name', some name = some name' ∧ P name') ↔ P name :=
    ⟨fun ⟨_, heq, hP⟩ => Option.some.inj heq ▸ hP, fun hP => ⟨name, rfl, hP⟩⟩
  rw [hname]
  obtain ⟨s₁, hfind, hs₁⟩ := h.findEntry_run name
  rw [bind_ok (attempt_run hfind)]
  rcases V.lookup name with _ | j
  · dsimp only
    rw [if_pos rfl]
    by_cases hcreat : test flags vfsOCreat = true
    · rw [hcreat, if_neg (by decide), if_pos rfl]
      simp only [bind_assoc]
      obtain ⟨s₂, hfree, hs₂⟩ := hs₁.findFreeEntry_run
      rcases hslot : V.freeSlot with _ | j
      · rw [hslot] at hfree
        rw [bind_error hfree]
        exact ⟨nofun, nofun⟩
      · rw [hslot] at hfree
        rw [bind_ok hfree]
        obtain ⟨s₃, hwrite, -⟩ := (Holds.writeEntry (d := d) (V := V) (E := fun _ => True)
          (freeSlot_some hslot).1 (newEntry name) trivial).run hs₂.holds hs₂.faults
        have hwrite' : SimpleFs.writeEntry j { DirEntry.zero with used := 1, name := SimpleFs.copyName name } s₂ =
          (.ok (), s₃) := hwrite
        rw [bind_ok hwrite']
        exact ⟨fun heq => by cases heq; rfl, fun heq => by cases heq; rfl⟩
    · rw [Bool.not_eq_true] at hcreat
      rw [hcreat, if_pos (by decide), if_neg Bool.false_ne_true]
      exact ⟨nofun, nofun⟩
  · exact ⟨fun heq => by cases heq; rfl, fun heq => by cases heq; rfl⟩

/-- **Where calls come to.** A call whose other arguments let it look for its path comes to the entry that
has the name, or to a free one for a new file. -/
theorem reaches_iff (h : Working d s V) (op : FsOp) :
    op.Reaches s i ↔ op.Looks ∧ ∃ name, SimpleFs.normalizePath op.path = some name ∧ op.slot V name = some i := by
  have hmounted := requireMounted_eq h.holds h.mounted
  cases op with
  | «open» path flags => exact (h.opens_iff path flags).trans (and_iff_right trivial).symm
  | read path offset buffer count =>
    unfold FsOp.Reaches FsOp.target FsOp.slot FsOp.Looks SimpleFs.readTarget
    simp only [bind_assoc]
    rw [bind_ok hmounted]
    by_cases hbuffer : !buffer ∧ 0 < count
    · rw [if_pos hbuffer]
      refine ⟨nofun, ?_⟩
      rintro ⟨hbuffer' | hzero, -⟩
      · rw [hbuffer'] at hbuffer
        exact absurd hbuffer.1 (by decide)
      · omega
    · rw [if_neg hbuffer, h.looks_iff path]
      refine (and_iff_right ?_).symm
      rcases buffer with _ | _
      · exact .inr (by_contra fun hzero => hbuffer ⟨rfl, Nat.pos_of_ne_zero hzero⟩)
      · exact .inl rfl
  | write path offset buffer count =>
    unfold FsOp.Reaches FsOp.target FsOp.slot FsOp.Looks SimpleFs.writeTarget
    simp only [bind_assoc]
    rw [bind_ok hmounted]
    rcases buffer with _ | input
    · rw [if_pos (show (none : Option (Nat → Byte)).isNone = true from rfl)]
      refine ⟨fun heq => ?_, fun hlooks => absurd rfl hlooks.1.1⟩
      split at heq
      · cases heq
      · cases heq
    rw [if_neg nofun]
    by_cases hzero : count = 0
    · rw [if_pos hzero]
      exact ⟨nofun, fun hlooks => absurd hzero hlooks.1.2.1⟩
    rw [if_neg hzero]
    by_cases hwraps : (offset + count) % wordSize < offset
    · rw [if_pos hwraps]
      exact ⟨nofun, fun hlooks => absurd hwraps (Nat.not_lt.mpr hlooks.1.2.2)⟩
    rw [if_neg hwraps, bind_assoc]
    exact (h.looks_iff path).trans (and_iff_right ⟨nofun, hzero, Nat.not_lt.mp hwraps⟩).symm
  | stat path out =>
    unfold FsOp.Reaches FsOp.target FsOp.slot FsOp.Looks SimpleFs.statTarget
    simp only [bind_assoc]
    rw [bind_ok hmounted]
    rcases out with _ | _
    · rw [if_pos (show (!false) = true from rfl)]
      exact ⟨nofun, fun hlooks => nomatch hlooks.1⟩
    · rw [if_neg (by decide), h.looks_iff path]
      exact (and_iff_right rfl).symm

/-- **Names stay in a write** that asks for sectors of the device only. -/
theorem write_keeps (h : Working d s V) (hroot : V.Rooted) (path : Option CString) (offset : Nat)
    (buffer : Option (Nat → Byte)) {count : Nat} (hcount : count < wordSize)
    (hrange : ∀ a ∈ s.accessesSince (SimpleFs.simplefsWrite path offset buffer count s).2, a.lba < V.total) :
    ∃ V', Working d (SimpleFs.simplefsWrite path offset buffer count s).2 V' ∧ V.Keeps V' := by
  by_cases hcase : buffer = none ∨ count = 0 ∨ wordSize ≤ offset + count ∨ SimpleFs.normalizePath path = none
  · rw [write_refused h.holds h.mounted hcount hcase]
    exact ⟨V, h, .refl V⟩
  rw [not_or, not_or, not_or] at hcase
  obtain ⟨hbuffer, hzero, hsum, hpath⟩ := hcase
  rw [Nat.not_le] at hsum
  obtain ⟨input, rfl⟩ := Option.ne_none_iff_exists'.mp hbuffer
  obtain ⟨name, hpath⟩ := Option.ne_none_iff_exists'.mp hpath
  have hpos := Nat.pos_of_ne_zero hzero
  have hsmall (j : Nat) (hl : V.lookup name = some j) : Small (V.entry j) offset count := by
    by_contra hlarge
    obtain ⟨a, ha, hbehind⟩ := h.write_behind hroot hpath hl input hpos hsum hlarge
    exact absurd (hrange a ha) (Nat.not_lt.mpr hbehind)
  have hagrees := h.consistent.toAgrees
  obtain ⟨r, w, res, V', hw, hx⟩ := hagrees.write (d := d) h.mounted h.total_ge h.total_le hpath input hpos hsum
    (hagrees.placed h.total_le hsmall)
  obtain ⟨s', hrun, hs'⟩ := h.of_uses hx (hw.next h.consistent h.total_le hsmall).1
  rw [hrun]
  exact ⟨V', hs', hw.keeps hagrees h.total_le hsum hsmall⟩

end Working

/-- Counts of writes fit in 32 bits. -/
def FsOp.Counted : FsOp → Prop
  | .write _ _ _ count => count < wordSize
  | _ => True

/-- **Names stay** in a call, and the entry it comes to has the name of its path. -/
theorem Working.op_keeps (h : Working d s V) (hroot : V.Rooted) (op : FsOp) (hcount : op.Counted)
    (hrange : ∀ a ∈ s.accessesSince (op.step s), a.lba < V.total) :
    ∃ V', Working d (op.step s) V' ∧ V.Keeps V' ∧
      ∀ i, op.Reaches s i → ∃ name, SimpleFs.normalizePath op.path = some name ∧ V'.Has i name := by
  -- the calls that do not make entries
  have found {V' : Volume} (hkeeps : V.Keeps V') (hslot : ∀ name, op.slot V name = V.lookup name) (i : Nat)
      (hreach : op.Reaches s i) : ∃ name, SimpleFs.normalizePath op.path = some name ∧ V'.Has i name := by
    obtain ⟨-, name, hpath, hl⟩ := (h.reaches_iff op).mp hreach
    rw [hslot] at hl
    exact ⟨name, hpath, hkeeps.has i name (lookup_lt hl)⟩
  cases op with
  | «open» path flags =>
    rcases hpath : SimpleFs.normalizePath path with _ | name
    · have hstep : (FsOp.open path flags).step s = s := congrArg Prod.snd (h.open_invalid hpath flags)
      rw [hstep]
      refine ⟨V, h, .refl V, fun i hreach => ?_⟩
      obtain ⟨-, name, hname, -⟩ := (h.reaches_iff _).mp hreach
      exact nomatch hpath.symm.trans hname
    obtain ⟨res, s', V', hrun, hs', ho⟩ := h.open_run hpath flags
    have hkeeps := ho.keeps h.consistent.toAgrees
    have hstep : (FsOp.open path flags).step s = s' := congrArg Prod.snd hrun
    rw [hstep]
    refine ⟨V', hs', hkeeps, fun i hreach => ⟨name, hpath, ?_⟩⟩
    obtain ⟨-, name', hname, hslot⟩ := (h.reaches_iff _).mp hreach
    obtain rfl := Option.some.inj (hpath.symm.trans hname)
    dsimp only [FsOp.slot] at hslot
    rcases hl : V.lookup name with _ | j
    · rw [hl] at hslot
      dsimp only at hslot
      split at hslot
      · exact ho.has (normalizePath_valid hpath) hl ‹_› hslot
      · cases hslot
    · rw [hl] at hslot
      cases hslot
      exact hkeeps.has _ _ (lookup_lt hl)
  | read path offset buffer count =>
    obtain ⟨s', hrun, hs'⟩ := h.read_run path offset buffer count
    have hstep : (FsOp.read path offset buffer count).step s = s' := congrArg Prod.snd hrun
    rw [hstep]
    exact ⟨V, hs', .refl V, found (.refl V) fun _ => rfl⟩
  | write path offset buffer count =>
    obtain ⟨V', hs', hkeeps⟩ := h.write_keeps hroot path offset buffer hcount hrange
    exact ⟨V', hs', hkeeps, found hkeeps fun _ => rfl⟩
  | stat path out =>
    obtain ⟨s', hrun, hs'⟩ := h.stat_run path out
    have hstep : (FsOp.stat path out).step s = s' := congrArg Prod.snd hrun
    rw [hstep]
    exact ⟨V, hs', .refl V, found (.refl V) fun _ => rfl⟩

/-- An entry in use is given only to its name. -/
theorem FsOp.name_of_slot {op : FsOp} {name' : List Byte} (hslot : op.slot V name' = some i) (hhas : V.Has i name) :
    name' = name := by
  have hfound (hl : V.lookup name' = some i) : name' = name := (lookup_lt hl).2.2.symm.trans hhas.2.2
  cases op with
  | «open» path flags =>
    dsimp only [FsOp.slot] at hslot
    rcases hl : V.lookup name' with _ | j
    · rw [hl] at hslot
      dsimp only at hslot
      split at hslot
      · exact absurd hhas.2.1 (freeSlot_some hslot).2
      · cases hslot
    · rw [hl] at hslot
      cases hslot
      exact hfound hl
  | _ => exact hfound hslot

/-- The calls that come to an entry are those that are given its name. -/
theorem Working.reaches_iff_name (h : Working d s V) {op : FsOp} (hlooks : op.Looks) (hhas : V.Has i name) :
    op.Reaches s i ↔ SimpleFs.normalizePath op.path = some name := by
  rw [h.reaches_iff, and_iff_right hlooks]
  constructor
  · rintro ⟨name', hpath, hslot⟩
    rw [hpath, FsOp.name_of_slot hslot hhas]
  · intro hpath
    have hl : V.lookup name = some i := h.consistent.lookup_eq_some.mpr hhas
    refine ⟨name, hpath, ?_⟩
    cases op with
    | «open» path flags =>
      dsimp only [FsOp.slot]
      rw [hl]
    | _ => exact hl

end AgenticOs
