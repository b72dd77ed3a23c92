import AgenticOs.Fs.FileOps
import Mathlib.Data.List.TakeWhile

/-!
# `simplefs_normalize_path` and its buffer

`SimpleFs.normalizePath` says which name a path stands for. Here is the function with the array that it fills,
`name_out`, as the memory from the address of the array on.

* **Accepted paths** (`normalizePath_iff`): those that are a slash and the name of a file (`FileName`): 1 to
  31 bytes without a slash, and neither `.` nor `..`.
* **What is written** (`simplefsNormalizePath_ok`): for an accepted path, the name and its terminator and
  nothing else.
* **Refused paths** (`simplefsNormalizePath_error`): the function stops in the middle of a path that is too
  long, so the array is written up to its last byte at most, and nothing behind it.

Two paths stand for one name only if they are the same string (`normalizePath_iff_cstr`).
-/

namespace AgenticOs

open Function Lib Lib.StM

namespace SimpleFs

/-- The loop of `simplefs_normalize_path` with `len` bytes in `name_out`; it ends with the length of the
name. -/
def copyFrom (len : Nat) : List Byte → StM Int (Nat → Byte) Nat
  | [] => return len
  | c :: cs => do
    if c = 0 then return len
    if c = 0x2F then fail vfsEinval
    if simplefsNameMax - 1 ≤ len then fail vfsEinval
    modify fun nameOut => update nameOut len c
    copyFrom (len + 1) cs

/-- The state is the memory at `name_out`; `nameOut` is whether the caller's array is there.
Source: `simplefs.c` `simplefs_normalize_path` -/
def simplefsNormalizePath (path : Option CString) (nameOut : Bool) : StM Int (Nat → Byte) Unit :=
  match path with
  | none => fail vfsEinval
  | some path => do
    if !nameOut then fail vfsEinval
    if path.getD 0 0 ≠ 0x2F then fail vfsEinval
    if path.getD 1 0 = 0 then fail vfsEinval
    let len ← copyFrom 0 (path.drop 1)
    let nameOut ← get
    if len = 1 ∧ nameOut 0 = 0x2E ∨ len = 2 ∧ nameOut 0 = 0x2E ∧ nameOut 1 = 0x2E then fail vfsEinval
    modify fun nameOut => update nameOut len 0

/-- The names of files: 1 to 31 bytes without `'/'`, and neither `.` nor `..`. -/
structure FileName (name : List Byte) : Prop where
  pos : 1 ≤ name.length
  short : name.length ≤ 31
  slash : ∀ b ∈ name, b ≠ 0x2F
  dot : name ≠ [0x2E]
  dots : name ≠ [0x2E, 0x2E]

variable {path name : List Byte} {memory : Nat → Byte} {len : Nat}

/-! ### Which paths are accepted -/

/-- A string is read up to its zero. -/
theorem cstr_cons (c : Byte) (cs : List Byte) : cstr (c :: cs) = if c = 0 then [] else c :: cstr cs := by
  unfold cstr
  by_cases hc : c = 0
  · rw [if_pos hc, List.takeWhile_cons_of_neg (by simpa using hc)]
  · rw [if_neg hc, List.takeWhile_cons_of_pos (by simpa using hc)]

/-- A string holds itself. -/
theorem cstr_cstr (bytes : List Byte) : cstr (cstr bytes) = cstr bytes := List.takeWhile_idem

/-- The loop accepts the rest of a string without slashes that fits. -/
theorem normalizeFrom_iff (hlen : len < simplefsNameMax) :
    normalizeFrom len path = some name ↔
      cstr path = name ∧ (∀ b ∈ name, b ≠ 0x2F) ∧ len + name.length < simplefsNameMax := by
  induction path generalizing len name with
  | nil =>
    constructor
    · intro h
      cases h
      exact ⟨rfl, List.forall_mem_nil _, hlen⟩
    · rintro ⟨rfl, -, -⟩
      rfl
  | cons c cs ih =>
    unfold normalizeFrom
    rw [cstr_cons]
    by_cases hzero : c = 0
    · rw [if_pos hzero, if_pos hzero]
      constructor
      · intro h
        cases h
        exact ⟨rfl, List.forall_mem_nil _, hlen⟩
      · rintro ⟨rfl, -, -⟩
        rfl
    rw [if_neg hzero, if_neg hzero]
    by_cases hslash : c = 0x2F
    · rw [if_pos hslash]
      constructor
      · intro h
        cases h
      · rintro ⟨rfl, hbytes, -⟩
        exact absurd hslash (hbytes c List.mem_cons_self)
    rw [if_neg hslash]
    by_cases hfull : simplefsNameMax - 1 ≤ len
    · rw [if_pos hfull]
      constructor
      · intro h
        cases h
      · rintro ⟨rfl, -, hshort⟩
        rw [List.length_cons] at hshort
        omega
    rw [if_neg hfull, Option.map_eq_some_iff]
    constructor
    · rintro ⟨rest, hrest, rfl⟩
      obtain ⟨hcstr, hbytes, hshort⟩ := (ih (by omega)).mp hrest
      refine ⟨by rw [hcstr], fun b hb => ?_, by rw [List.length_cons]; omega⟩
      rcases List.mem_cons.mp hb with rfl | hb
      · exact hslash
      · exact hbytes b hb
    · rintro ⟨rfl, hbytes, hshort⟩
      rw [List.length_cons] at hshort
      exact ⟨cstr cs, (ih (by omega)).mpr
        ⟨rfl, fun b hb => hbytes b (List.mem_cons_of_mem _ hb), by omega⟩, rfl⟩

/-- **The accepted paths** are a slash and a name. -/
theorem normalizePath_iff : normalizePath (some path) = some name ↔
    FileName name ∧ cstr path = 0x2F :: name := by
  unfold normalizePath
  rcases path with _ | ⟨c, cs⟩
  · exact ⟨nofun, fun h => nomatch h.2⟩
  dsimp only
  rw [cstr_cons]
  by_cases hc : c ≠ 0x2F
  · rw [if_pos hc]
    refine ⟨nofun, ?_⟩
    rintro ⟨-, hpath⟩
    split at hpath
    · cases hpath
    · exact absurd (List.cons.inj hpath).1 hc
  rw [if_neg hc]
  obtain rfl := not_not.mp hc
  rw [if_neg (by decide), List.cons.injEq]
  have hfrom : normalizeFrom 0 cs = some name ↔
      cstr cs = name ∧ (∀ b ∈ name, b ≠ 0x2F) ∧ 0 + name.length < simplefsNameMax := normalizeFrom_iff (by decide)
  rw [Nat.zero_add] at hfrom
  constructor
  · intro h
    rcases hn : normalizeFrom 0 cs with _ | rest
    · rw [hn] at h
      cases h
    rw [hn] at h hfrom
    dsimp only at h
    by_cases hdots : rest = [] ∨ rest = [0x2E] ∨ rest = [0x2E, 0x2E]
    · rw [if_pos hdots] at h
      cases h
    rw [if_neg hdots] at h
    rw [not_or, not_or] at hdots
    obtain ⟨hpos, hdot, hdots⟩ := hdots
    cases h
    obtain ⟨hcstr, hbytes, hshort⟩ := hfrom.mp rfl
    exact ⟨⟨List.length_pos_iff.mpr hpos, Nat.le_of_lt_succ hshort, hbytes, hdot, hdots⟩, rfl, hcstr⟩
  · rintro ⟨hname, -, hcstr⟩
    rw [hfrom.mpr ⟨hcstr, hname.slash, Nat.lt_succ_of_le hname.short⟩]
    dsimp only
    rw [if_neg]
    rintro (rfl | hdot | hdots)
    · exact absurd hname.pos (by decide)
    · exact hname.dot hdot
    · exact hname.dots hdots

/-- A path stands for the name if it is the same string as another that does. -/
theorem normalizePath_iff_cstr {other : Option CString} (h : normalizePath (some path) = some name) :
    normalizePath other = some name ↔ other.map cstr = some (cstr path) := by
  obtain ⟨hname, hpath⟩ := normalizePath_iff.mp h
  rcases other with _ | other
  · exact ⟨nofun, nofun⟩
  · rw [normalizePath_iff, and_iff_right hname, Option.map_some, Option.some.injEq, hpath]

/-! ### What is written -/

/-- Nothing is copied. -/
theorem memcpy_none (memory src : Nat → Byte) (i : Nat) : memcpy memory i src 0 = memory := by
  funext k
  exact if_neg (by omega)

/-- The first byte, and then the others. -/
theorem memcpy_update (src src' : Nat → Byte) {i n : Nat} (h : ∀ k, src' (k + 1) = src k) :
    memcpy (update memory i (src' 0)) (i + 1) src n = memcpy memory i src' (n + 1) := by
  funext k
  unfold memcpy
  by_cases hk : k = i
  · rw [hk, if_neg (by omega), update_self, if_pos ⟨Nat.le_refl _, by omega⟩, Nat.sub_self]
  · rw [update_of_ne hk]
    by_cases hin : i + 1 ≤ k ∧ k < i + 1 + n
    · rw [if_pos hin, if_pos ⟨by omega, by omega⟩, show k - i = k - (i + 1) + 1 by omega, h]
    · rw [if_neg hin, if_neg (by omega)]

/-- The last byte after the others. -/
theorem update_memcpy {src src' : Nat → Byte} {n : Nat} (h : ∀ k < n, src' k = src k) :
    update (memcpy memory 0 src n) n (src' n) = memcpy memory 0 src' (n + 1) := by
  funext k
  unfold memcpy
  by_cases hk : k = n
  · rw [hk, update_self, if_pos ⟨Nat.zero_le _, by omega⟩, Nat.sub_zero]
  · rw [update_of_ne hk]
    by_cases hin : k < n
    · rw [if_pos ⟨Nat.zero_le _, by omega⟩, if_pos ⟨Nat.zero_le _, by omega⟩, Nat.sub_zero, h k hin]
    · rw [if_neg (by omega), if_neg (by omega)]

/-- **`normalize_path`**, the copying part -/
theorem copyFrom_ok (h : normalizeFrom len path = some name) :
    copyFrom len path memory = (.ok (len + name.length), memcpy memory len (name.getD · 0) name.length) := by
  induction path generalizing len name memory with
  | nil =>
    cases h
    exact congrArg (Prod.mk _) (memcpy_none ..).symm
  | cons c cs ih =>
    unfold normalizeFrom at h
    unfold copyFrom
    by_cases hzero : c = 0
    · rw [if_pos hzero] at h ⊢
      cases h
      exact congrArg (Prod.mk _) (memcpy_none ..).symm
    rw [if_neg hzero] at h ⊢
    by_cases hslash : c = 0x2F
    · rw [if_pos hslash] at h
      cases h
    rw [if_neg hslash] at h ⊢
    by_cases hfull : simplefsNameMax - 1 ≤ len
    · rw [if_pos hfull] at h
      cases h
    rw [if_neg hfull] at h ⊢
    obtain ⟨rest, hrest, rfl⟩ := Option.map_eq_some_iff.mp h
    show copyFrom (len + 1) cs (update memory len c) = _
    rw [ih hrest, List.length_cons, Nat.add_assoc, Nat.add_comm 1]
    exact congrArg (Prod.mk _) (memcpy_update (rest.getD · 0) ((c :: rest).getD · 0) fun _ => rfl)

/-- A path that is refused has been copied up to byte 31 at most. -/
theorem copyFrom_error (h : normalizeFrom len path = none) :
    ∃ memory', copyFrom len path memory = (.error vfsEinval, memory') ∧
      ∀ k, simplefsNameMax - 1 ≤ k → memory' k = memory k := by
  induction path generalizing len memory with
  | nil => cases h
  | cons c cs ih =>
    unfold normalizeFrom at h
    unfold copyFrom
    by_cases hzero : c = 0
    · rw [if_pos hzero] at h
      cases h
    rw [if_neg hzero] at h ⊢
    by_cases hslash : c = 0x2F
    · rw [if_pos hslash]
      exact ⟨memory, rfl, fun _ _ => rfl⟩
    rw [if_neg hslash] at h ⊢
    by_cases hfull : simplefsNameMax - 1 ≤ len
    · rw [if_pos hfull]
      exact ⟨memory, rfl, fun _ _ => rfl⟩
    rw [if_neg hfull] at h ⊢
    show ∃ memory', copyFrom (len + 1) cs (update memory len c) = (.error vfsEinval, memory') ∧ _
    obtain ⟨memory', hrun, hsame⟩ := ih (Option.map_eq_none_iff.mp h)
    refine ⟨memory', hrun, fun k hk => ?_⟩
    rw [hsame k hk, update_of_ne (by omega)]

/-- The test for `.` and `..`, on the array. -/
theorem dots_iff (hpos : name ≠ []) :
    (name.length = 1 ∧ memcpy memory 0 (name.getD · 0) name.length 0 = 0x2E ∨
        name.length = 2 ∧ memcpy memory 0 (name.getD · 0) name.length 0 = 0x2E ∧
          memcpy memory 0 (name.getD · 0) name.length 1 = 0x2E) ↔
      name = [] ∨ name = [0x2E] ∨ name = [0x2E, 0x2E] := by
  unfold memcpy
  rcases name with _ | ⟨a, _ | ⟨b, _ | ⟨c, rest⟩⟩⟩
  · exact absurd rfl hpos
  · simp
  · simp
  · simp

/-- A path that is accepted: the name and its terminator are written, and nothing else. -/
theorem simplefsNormalizePath_ok (h : normalizePath (some path) = some name) :
    simplefsNormalizePath (some path) true memory =
      (.ok (), memcpy memory 0 ((name ++ [0]).getD · 0) (name.length + 1)) := by
  unfold normalizePath at h
  rcases path with _ | ⟨c, cs⟩
  · cases h
  dsimp only at h
  by_cases hc : c ≠ 0x2F
  · rw [if_pos hc] at h
    cases h
  rw [if_neg hc] at h
  rcases hfrom : normalizeFrom 0 cs with _ | rest
  · rw [hfrom] at h
    cases h
  rw [hfrom] at h
  dsimp only at h
  by_cases hdots : rest = [] ∨ rest = [0x2E] ∨ rest = [0x2E, 0x2E]
  · rw [if_pos hdots] at h
    cases h
  rw [if_neg hdots] at h
  cases h
  have hpos : name ≠ [] := fun hnil => hdots (.inl hnil)
  have hfirst : ¬cs.getD 0 0 = 0 := by
    intro hzero
    rcases cs with _ | ⟨b, bs⟩
    · cases hfrom
      exact hpos rfl
    · unfold normalizeFrom at hfrom
      rw [if_pos (show b = 0 from hzero)] at hfrom
      cases hfrom
      exact hpos rfl
  have hslash : ¬(c :: cs).getD 0 0 ≠ 0x2F := hc
  have hsecond : ¬(c :: cs).getD 1 0 = 0 := hfirst
  unfold simplefsNormalizePath
  dsimp only
  rw [if_neg (by decide), if_neg hslash, if_neg hsecond, List.drop_one, List.tail_cons,
    bind_ok (copyFrom_ok hfrom), run_get_bind, Nat.zero_add, if_neg fun hd => hdots ((dots_iff hpos).mp hd)]
  have hlast : (name ++ [0]).getD name.length 0 = 0 := by
    rw [List.getD_append_right _ _ _ _ (Nat.le_refl _), Nat.sub_self]
    rfl
  have hwrite : update (memcpy memory 0 (name.getD · 0) name.length) name.length
      ((name ++ [0]).getD name.length 0) = memcpy memory 0 ((name ++ [0]).getD · 0) (name.length + 1) :=
    update_memcpy fun k hk => List.getD_append _ _ _ _ hk
  rw [hlast] at hwrite
  exact congrArg (Prod.mk _) hwrite

/-- A path that is refused: nothing is written behind the array. -/
theorem simplefsNormalizePath_error (h : normalizePath (some path) = none) :
    ∃ memory', simplefsNormalizePath (some path) true memory = (.error vfsEinval, memory') ∧
      ∀ k, simplefsNameMax ≤ k → memory' k = memory k := by
  unfold normalizePath at h
  unfold simplefsNormalizePath
  dsimp only
  rw [if_neg (by decide)]
  rcases path with _ | ⟨c, cs⟩
  · exact ⟨memory, rfl, fun _ _ => rfl⟩
  dsimp only at h
  by_cases hc : c ≠ 0x2F
  · rw [if_pos (show (c :: cs).getD 0 0 ≠ 0x2F from hc)]
    exact ⟨memory, rfl, fun _ _ => rfl⟩
  rw [if_neg hc] at h
  rw [if_neg (show ¬(c :: cs).getD 0 0 ≠ 0x2F from hc)]
  by_cases hfirst : (c :: cs).getD 1 0 = 0
  · rw [if_pos hfirst]
    exact ⟨memory, rfl, fun _ _ => rfl⟩
  rw [if_neg hfirst, List.drop_one, List.tail_cons]
  rcases hfrom : normalizeFrom 0 cs with _ | rest
  · obtain ⟨memory', hrun, hsame⟩ : ∃ memory', copyFrom 0 cs memory = (.error vfsEinval, memory') ∧ _ :=
      copyFrom_error hfrom
    exact ⟨memory', bind_error hrun, fun k hk => hsame k (by omega)⟩
  rw [hfrom] at h
  dsimp only at h
  by_cases hdots : rest = [] ∨ rest = [0x2E] ∨ rest = [0x2E, 0x2E]
  · have hpos : rest ≠ [] := by
      rintro rfl
      obtain ⟨hcstr, -⟩ := (normalizeFrom_iff (by decide)).mp hfrom
      rcases cs with _ | ⟨b, bs⟩
      · exact hfirst rfl
      · rw [cstr_cons] at hcstr
        split at hcstr
        · exact hfirst ‹_›
        · cases hcstr
    obtain ⟨-, -, hshort⟩ := (normalizeFrom_iff (by decide)).mp hfrom
    refine ⟨memcpy memory 0 (rest.getD · 0) rest.length, ?_, fun k hk => ?_⟩
    · rw [bind_ok (copyFrom_ok hfrom), run_get_bind, Nat.zero_add, if_pos ((dots_iff hpos).mpr hdots)]
      rfl
    · exact if_neg (by omega)
  · rw [if_neg hdots] at h
    cases h

end SimpleFs

end AgenticOs
