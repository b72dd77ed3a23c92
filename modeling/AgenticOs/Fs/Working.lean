import AgenticOs.Fs.Mount

/-!
# A mounted file system on a device that works

`Working d s V`: state `s` of `simplefs.c` holds the consistent, mounted volume `V` on device `d`, and no
sector read or write to come fails.

* **Start** (`Working.format`): formatting a device that works gives an empty file system.
* **Calls** (`open_run`, `read_run`, `write_run`, `stat_run`): what each call of the interface answers and
  what it does to the volume, for all arguments. Each keeps `Working`.
* **Runs** (`Working.step`, `Working.exec`): so a sequence of calls does. Writes end at most at `writeLimit`
  (`Bounded`), up to which nothing is asked of the end of the 32-bit range.
-/

namespace AgenticOs

open Function Lib Lib.StM Volume

/-- A mounted and consistent file system on a device that works. -/
structure Working (d : Nat) (s : SimpleFs) (V : Volume) : Prop where
  holds : Holds d s V
  consistent : V.Consistent
  mounted : V.mounted = true
  faults : s.faults = .none

/-- The largest end of a write for which nothing is asked of the end of the 32-bit range. -/
abbrev writeLimit : Nat := 2 ^ 31 + 2 ^ 21

namespace Working

variable {d : Nat} {s s' : SimpleFs} {V V' : Volume} {name : List Byte} {i j : Nat}

/-- There is a data area. -/
theorem total_ge (h : Working d s V) : simplefsDataStart ≤ V.total := Nat.le_of_lt h.holds.total_bounds.1

/-- The map has room for every sector. -/
theorem total_le (h : Working d s V) : V.total ≤ simplefsMaxTrackedSectors := h.holds.total_bounds.2

/-- A call that leaves the volume as the specification of an operation says. -/
theorem of_uses {α : Type} {x : FsM α} {r w : Nat} {res : Except Int α} {E : Volume → Prop}
    (h : Working d s V) (hx : Uses (onVolume d) x V r w res V' E) (hn : V.Next V') :
    ∃ s', x s = (res, s') ∧ Working d s' V' := by
  obtain ⟨s', hrun, hs', hf⟩ := hx.run h.holds h.faults
  exact ⟨s', hrun, hs', hn.consistent, hn.mounted.trans h.mounted, hf⟩

/-- A file system is consistent with itself. -/
theorem next_self (h : Working d s V) : V.Next V := ⟨h.consistent, rfl, rfl⟩

/-- A path that is not accepted. -/
theorem open_invalid (h : Working d s V) {path : Option CString}
    (hpath : SimpleFs.normalizePath path = none) (flags : Word) :
    SimpleFs.simplefsOpen path flags s = (.error vfsEinval, s) := by
  unfold SimpleFs.simplefsOpen
  rw [bind_ok (requireMounted_eq h.holds h.mounted), normalize_none hpath]
  rfl

/-- **`simplefs_open`**. -/
theorem open_run (h : Working d s V) {path : Option CString}
    (hpath : SimpleFs.normalizePath path = some name) (flags : Word) :
    ∃ res s' V', SimpleFs.simplefsOpen path flags s = (res, s') ∧ Working d s' V' ∧
      V.Opened name flags res V' := by
  obtain ⟨r, w, res, V', ho, hx⟩ := h.consistent.toAgrees.open h.mounted hpath flags
  obtain ⟨s', hrun, hs'⟩ := h.of_uses hx (ho.next h.consistent (normalizePath_valid hpath)).1
  exact ⟨res, s', V', hrun, hs', ho⟩

/-- **`simplefs_read`**: what it answers for any arguments; it changes nothing. -/
theorem read_run (h : Working d s V) (path : Option CString) (offset : Nat) (buffer : Bool)
    (count : Nat) :
    ∃ s', SimpleFs.simplefsRead path offset buffer count s =
      (if !buffer ∧ 0 < count then .error vfsEinval
        else match SimpleFs.normalizePath path with
          | none => .error vfsEinval
          | some name => match V.files name with
            | none => .error vfsEnoent
            | some bytes => .ok ((bytes.drop offset).take count), s') ∧ Working d s' V := by
  by_cases hbuf : !buffer ∧ 0 < count
  · rw [if_pos hbuf]
    refine ⟨s, ?_, h⟩
    unfold SimpleFs.simplefsRead
    rw [bind_ok (requireMounted_eq h.holds h.mounted), if_pos hbuf]
    rfl
  · rw [if_neg hbuf]
    rcases hpath : SimpleFs.normalizePath path with _ | name
    · refine ⟨s, ?_, h⟩
      unfold SimpleFs.simplefsRead
      rw [bind_ok (requireMounted_eq h.holds h.mounted), if_neg hbuf, normalize_none hpath]
      rfl
    · have hb : buffer = true ∨ count = 0 := by
        rcases buffer with _ | _
        · right
          by_contra hc
          exact hbuf ⟨rfl, by omega⟩
        · exact .inl rfl
      obtain ⟨r, hx⟩ := h.consistent.toAgrees.read (d := d) (E := fun _ => True) h.consistent.size
        h.total_le h.mounted hpath offset hb trivial
      exact h.of_uses hx h.next_self

/-- **`simplefs_stat`**. -/
theorem stat_run (h : Working d s V) (path : Option CString) (out : Bool) :
    ∃ s', SimpleFs.simplefsStat path out s =
      (if !out then .error vfsEinval
        else match SimpleFs.normalizePath path with
          | none => .error vfsEinval
          | some name => match V.lookup name with
            | none => .error vfsEnoent
            | some j => .ok (V.entry j).info, s') ∧ Working d s' V := by
  rcases out with _ | _
  · refine ⟨s, ?_, h⟩
    unfold SimpleFs.simplefsStat
    rw [bind_ok (requireMounted_eq h.holds h.mounted)]
    rfl
  · rcases hpath : SimpleFs.normalizePath path with _ | name
    · refine ⟨s, ?_, h⟩
      unfold SimpleFs.simplefsStat
      rw [bind_ok (requireMounted_eq h.holds h.mounted), normalize_none hpath]
      rfl
    · exact h.of_uses (Volume.stat h.mounted hpath (E := fun _ => True) trivial) h.next_self

/-- Sizes stay away from the end of the 32-bit range. -/
theorem small (h : Working d s V) (hl : V.lookup name = some j) {offset count : Nat}
    (hpos : 0 < count) (hend : offset + count ≤ writeLimit) : Small (V.entry j) offset count := by
  obtain ⟨hj, hlive, -⟩ := lookup_lt hl
  have hsize := h.consistent.size j hj hlive
  have hmax := h.total_le
  refine ⟨?_, hpos⟩
  have hle : (V.entry j).sizeBytes ≤ 2 ^ 21 := by
    rcases h.consistent.toAgrees.size_bound h.consistent.size hmax hj hlive with ⟨-, hz⟩ | hb
    · omega
    · simp only [sectorSize, simplefsMaxTrackedSectors] at hb hsize
      omega
  unfold grownSize
  simp only [sectorSize, wordSize, writeLimit] at *
  omega

/-- A write that does nothing: no bytes, no buffer, or a path that is not accepted. -/
theorem write_trivial (hs : Holds d s V) (hm : V.mounted = true) (path : Option CString)
    {offset count : Nat}
    (buffer : Option (Nat → Byte)) (hsum : offset + count < wordSize)
    (hcase : buffer = none ∨ count = 0 ∨ SimpleFs.normalizePath path = none) :
    SimpleFs.simplefsWrite path offset buffer count s =
      (if count = 0 then .ok 0 else .error vfsEinval, s) := by
  unfold SimpleFs.simplefsWrite
  rw [bind_ok (requireMounted_eq hs hm)]
  rcases buffer with _ | input
  · dsimp only
    by_cases hz : count = 0
    · rw [if_pos hz, if_neg (by omega)]
      rfl
    · rw [if_neg hz, if_pos (by omega)]
      rfl
  · dsimp only
    by_cases hz : count = 0
    · rw [if_pos hz, if_pos hz]
      rfl
    · have hpath := (hcase.resolve_left (by simp)).resolve_left hz
      rw [if_neg hz, if_neg hz, if_neg (by rw [Nat.mod_eq_of_lt hsum]; omega), normalize_none hpath]
      rfl

/-- **`simplefs_write`**. -/
theorem write_run (h : Working d s V) {path : Option CString}
    (hpath : SimpleFs.normalizePath path = some name) {offset count : Nat} (input : Nat → Byte)
    (hpos : 0 < count) (hend : offset + count ≤ writeLimit) :
    ∃ res s' V', SimpleFs.simplefsWrite path offset (some input) count s = (res, s') ∧
      Working d s' V' ∧ V.Wrote name offset input count res V' := by
  have hsum : offset + count < wordSize := Nat.lt_of_le_of_lt hend (by decide)
  have hsmall : ∀ j, V.lookup name = some j → Small (V.entry j) offset count := fun j hl =>
    h.small hl hpos hend
  obtain ⟨r, w, res, V', hw, hx⟩ := h.consistent.toAgrees.write h.mounted h.total_ge h.total_le hpath input
    hpos hsum (h.consistent.toAgrees.placed h.total_le hsmall)
  obtain ⟨s', hrun, hs'⟩ := h.of_uses hx (hw.next h.consistent h.total_le hsmall).1
  exact ⟨res, s', V', hrun, hs', hw⟩

end Working

/-! ### Runs of the interface -/

/-- A call of the interface, apart from formatting and mounting. -/
inductive FsOp where
  | open (path : Option CString) (flags : Word)
  | read (path : Option CString) (offset : Nat) (buffer : Bool) (count : Nat)
  | write (path : Option CString) (offset : Nat) (buffer : Option (Nat → Byte)) (count : Nat)
  | stat (path : Option CString) (out : Bool)

namespace FsOp

/-- The state after a call. -/
def step (s : SimpleFs) : FsOp → SimpleFs
  | .open path flags => (SimpleFs.simplefsOpen path flags s).2
  | .read path offset buffer count => (SimpleFs.simplefsRead path offset buffer count s).2
  | .write path offset buffer count => (SimpleFs.simplefsWrite path offset buffer count s).2
  | .stat path out => (SimpleFs.simplefsStat path out s).2

/-- Writes end at most at `writeLimit`. -/
def Bounded : FsOp → Prop
  | .write _ offset _ count => offset + count ≤ writeLimit
  | _ => True

instance : DecidablePred Bounded := fun op => by
  cases op <;> unfold Bounded <;> infer_instance

/-- The state after a sequence of calls. -/
def exec (s : SimpleFs) (ops : List FsOp) : SimpleFs := ops.foldl step s

end FsOp

variable {d : Nat} {s : SimpleFs} {V : Volume}

/-- A call keeps the file system working. -/
theorem Working.step (h : Working d s V) (op : FsOp) (hb : op.Bounded) :
    ∃ V', Working d (op.step s) V' ∧ V'.total = V.total := by
  cases op with
  | «open» path flags =>
    rcases hpath : SimpleFs.normalizePath path with _ | name
    · refine ⟨V, ?_, rfl⟩
      show Working d (SimpleFs.simplefsOpen path flags s).2 V
      rw [h.open_invalid hpath]
      exact h
    · obtain ⟨res, s', V', hrun, hs', ho⟩ := h.open_run hpath flags
      refine ⟨V', ?_, (ho.next h.consistent (normalizePath_valid hpath)).1.total⟩
      show Working d (SimpleFs.simplefsOpen path flags s).2 V'
      rw [hrun]
      exact hs'
  | read path offset buffer count =>
    obtain ⟨s', hrun, hs'⟩ := h.read_run path offset buffer count
    refine ⟨V, ?_, rfl⟩
    show Working d (SimpleFs.simplefsRead path offset buffer count s).2 V
    rw [hrun]
    exact hs'
  | write path offset buffer count =>
    have hend : offset + count ≤ writeLimit := hb
    have hsum : offset + count < wordSize := Nat.lt_of_le_of_lt hend (by decide)
    by_cases hcase : buffer = none ∨ count = 0 ∨ SimpleFs.normalizePath path = none
    · refine ⟨V, ?_, rfl⟩
      show Working d (SimpleFs.simplefsWrite path offset buffer count s).2 V
      rw [Working.write_trivial h.holds h.mounted path buffer hsum hcase]
      exact h
    · rw [not_or, not_or] at hcase
      obtain ⟨input, rfl⟩ := Option.ne_none_iff_exists'.mp hcase.1
      obtain ⟨name, hpath⟩ := Option.ne_none_iff_exists'.mp hcase.2.2
      have hpos : 0 < count := by omega
      obtain ⟨res, s', V', hrun, hs', hw⟩ := h.write_run hpath input hpos hend
      have hnext := (hw.next h.consistent h.total_le fun j hl => h.small hl hpos hend).1
      refine ⟨V', ?_, hnext.total⟩
      show Working d (SimpleFs.simplefsWrite path offset (some input) count s).2 V'
      rw [hrun]
      exact hs'
  | stat path out =>
    obtain ⟨s', hrun, hs'⟩ := h.stat_run path out
    refine ⟨V, ?_, rfl⟩
    show Working d (SimpleFs.simplefsStat path out s).2 V
    rw [hrun]
    exact hs'

/-- And so does a sequence of calls. -/
theorem Working.exec (h : Working d s V) (ops : List FsOp) (hb : ∀ op ∈ ops, op.Bounded) :
    ∃ V', Working d (FsOp.exec s ops) V' ∧ V'.total = V.total := by
  induction ops generalizing s V with
  | nil => exact ⟨V, h, rfl⟩
  | cons op ops ih =>
    obtain ⟨V1, h1, ht1⟩ := h.step op (hb op List.mem_cons_self)
    obtain ⟨V2, h2, ht2⟩ := ih h1 fun op' hop => hb op' (List.mem_cons_of_mem _ hop)
    exact ⟨V2, h2, ht2.trans ht1⟩

/-- Formatting a device that works gives an empty file system. -/
theorem Working.format (hf : s.faults = .none) (hv : SimpleFs.validateDev (s.devices d) = true) :
    ∃ s' V, SimpleFs.simplefsFormat (some d) s = (.ok (), s') ∧ Working d s' V ∧
      V.total = (s.devices d).sectorCount ∧ (V.files = fun _ => none) ∧ V.fileCount = 0 := by
  obtain ⟨s', V, hrun, hf', hs', hc, hm, ht, hfiles, hcount⟩ := format_run hf hv
  exact ⟨s', V, hrun, ⟨hs', hc, hm, hf'⟩, ht, hfiles, hcount⟩

end AgenticOs
