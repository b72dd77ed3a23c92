import AgenticOs.Kernel.Exec

/-!
# What `exec_copy_vector` copies

A pointer of the caller designates a list of strings if it is `NULL` or the address of an array of pointers to
them that ends with `NULL` (`Designates`); it designates one list at most (`Designates.unique`).

* **Layout** (`Carries`): the strings are copied one behind the other, with their terminators, and an offset
  says where each of them begins. Storing one more string keeps this (`Carries.addArg`, `Carries.addEnv`), and
  what `exec_build_user_stack` reads back are the strings (`Carries.listed`).
* **Loops** (`copyExecString_iff`, `copyExecStrings_iff`): each succeeds exactly if what it is to copy is
  readable, not longer than the limit, and fits.
* **Main result** (`copyVectors_iff`): a copy is made exactly if the two pointers designate strings and all of
  them fit, and it carries these strings.
-/

namespace AgenticOs

open Function Lib

/-! ### Strings one behind the other -/

/-- Strings with their terminators. -/
def stringBlock (strings : List CString) : List Byte := strings.flatMap (· ++ [0])

/-- Strings have no terminators inside. -/
def NoNul (strings : List CString) : Prop := ∀ s ∈ strings, ∀ b ∈ s, b ≠ 0

section

variable {s : CString} {strings strings' : List CString}

/-- No strings. -/
theorem stringBlock_nil : stringBlock [] = [] := rfl

/-- A string with its terminator, and the others behind it. -/
theorem stringBlock_cons : stringBlock (s :: strings) = s ++ 0 :: stringBlock strings := by
  unfold stringBlock
  rw [List.flatMap_cons, List.append_assoc]
  rfl

/-- Strings in two parts. -/
theorem stringBlock_append : stringBlock (strings ++ strings') = stringBlock strings ++ stringBlock strings' :=
  List.flatMap_append

/-- How long they are. -/
theorem length_stringBlock_cons :
    (stringBlock (s :: strings)).length = s.length + 1 + (stringBlock strings).length := by
  rw [stringBlock_cons, List.length_append, List.length_cons]
  omega

/-- How long both parts are. -/
theorem length_stringBlock_append :
    (stringBlock (strings ++ strings')).length = (stringBlock strings).length + (stringBlock strings').length := by
  rw [stringBlock_append, List.length_append]

/-- The string behind the first ones. -/
theorem stringBlock_getElem? {i j : Nat} (hi : i < strings.length) (hj : j ≤ strings[i].length) :
    (stringBlock strings)[(stringBlock (strings.take i)).length + j]? = (strings[i] ++ [0])[j]? := by
  have hsplit : stringBlock strings =
      stringBlock (strings.take i) ++ (strings[i] ++ [0] ++ stringBlock (strings.drop (i + 1))) := by
    conv_lhs => rw [← List.take_append_drop i strings, List.drop_eq_getElem_cons hi, stringBlock_append,
      stringBlock_cons]
    rw [List.append_assoc]
    rfl
  rw [hsplit, List.getElem?_append_right (Nat.le_add_right _ _), Nat.add_sub_cancel_left,
    List.getElem?_append_left (by rw [List.length_append, List.length_singleton]; omega)]

/-- A string starts inside the block, and ends in it. -/
theorem length_take_add_lt {i : Nat} (hi : i < strings.length) :
    (stringBlock (strings.take i)).length + strings[i].length < (stringBlock strings).length := by
  have hsome := stringBlock_getElem? hi (Nat.le_refl strings[i].length)
  by_contra hc
  rw [List.getElem?_eq_none (Nat.not_lt.mp hc), List.getElem?_append_right (Nat.le_refl _), Nat.sub_self] at hsome
  cases hsome

/-- A string is what lies before its terminator. -/
theorem takeWhile_eq_string {bytes : List Byte} (hs : ∀ b ∈ s, b ≠ 0)
    (hbytes : ∀ i ≤ s.length, bytes[i]? = (s ++ [0])[i]?) : bytes.takeWhile (· ≠ 0) = s := by
  induction s generalizing bytes with
  | nil =>
    obtain ⟨rest, rfl⟩ : ∃ rest, bytes = 0 :: rest := by
      have hfirst := hbytes 0 (Nat.le_refl 0)
      rcases bytes with _ | ⟨b, rest⟩
      · cases hfirst
      · cases hfirst
        exact ⟨rest, rfl⟩
    rfl
  | cons c s ih =>
    obtain ⟨rest, rfl⟩ : ∃ rest, bytes = c :: rest := by
      have hfirst := hbytes 0 (Nat.zero_le _)
      rcases bytes with _ | ⟨b, rest⟩
      · cases hfirst
      · cases hfirst
        exact ⟨rest, rfl⟩
    have hc : c ≠ 0 := hs c List.mem_cons_self
    rw [List.takeWhile_cons_of_pos (by simpa using hc)]
    exact congrArg (c :: ·) (ih (fun b hb => hs b (List.mem_cons_of_mem _ hb))
      fun i hi => hbytes (i + 1) (Nat.succ_le_succ hi))

end

/-! ### The strings of the caller -/

namespace Kernel

variable {k : Kernel} {a : Word} {s s' : CString} {strings strings' : List CString} {n : Nat}

/-- There is a readable string at an address of the caller. -/
inductive StringAt (k : Kernel) : Word → CString → Prop
  | nil {a : Word} : k.copyByteFromUser a = some 0 → StringAt k a []
  | cons {a : Word} {b : Byte} {s : CString} : k.copyByteFromUser a = some b → b ≠ 0 → StringAt k (a + 1) s →
      StringAt k a (b :: s)

/-- There is a readable array of pointers to strings there, up to `NULL`, and no string is longer than
`exec_copy_vector` allows. -/
inductive PointersAt (k : Kernel) : Word → List CString → Prop
  | nil {a : Word} : k.copyWordFromUser a = some 0 → PointersAt k a []
  | cons {a p : Word} {s : CString} {strings : List CString} : k.copyWordFromUser a = some p → p ≠ 0 →
      StringAt k p s → s.length < execMaxStringBytes → PointersAt k (a + 4) strings →
      PointersAt k a (s :: strings)

/-- A pointer of the caller designates some strings. -/
structure Designates (k : Kernel) (limit : Nat) (ptr : Word) (strings : List CString) : Prop where
  count : strings.length ≤ limit
  strings : ptr = 0 ∧ strings = [] ∨ ptr ≠ 0 ∧ k.PointersAt ptr strings

/-- There is one string at an address. -/
theorem StringAt.unique (h : k.StringAt a s) (h' : k.StringAt a s') : s = s' := by
  induction h generalizing s' with
  | nil hb =>
    cases h' with
    | nil => rfl
    | cons hb' hne => exact absurd (Option.some.inj (hb.symm.trans hb')).symm hne
  | cons hb hne _ ih =>
    cases h' with
    | nil hb' => exact absurd (Option.some.inj (hb.symm.trans hb')) hne
    | cons hb' _ hrest =>
      rw [Option.some.inj (hb.symm.trans hb'), ih hrest]

/-- There is one list of strings at an address. -/
theorem PointersAt.unique (h : k.PointersAt a strings) (h' : k.PointersAt a strings') : strings = strings' := by
  induction h generalizing strings' with
  | nil hp =>
    cases h' with
    | nil => rfl
    | cons hp' hne => exact absurd (Option.some.inj (hp.symm.trans hp')).symm hne
  | cons hp hne hs _ _ ih =>
    cases h' with
    | nil hp' => exact absurd (Option.some.inj (hp.symm.trans hp')) hne
    | cons hp' _ hs' _ hrest =>
      obtain rfl := Option.some.inj (hp.symm.trans hp')
      rw [hs.unique hs', ih hrest]

/-- A pointer designates one list. -/
theorem Designates.unique {limit : Nat} (h : k.Designates limit a strings) (h' : k.Designates limit a strings') :
    strings = strings' := by
  rcases h.strings with ⟨hnull, rfl⟩ | ⟨hne, hp⟩
  · rcases h'.strings with ⟨-, rfl⟩ | ⟨hne, -⟩
    · rfl
    · exact absurd hnull hne
  · rcases h'.strings with ⟨hnull, -⟩ | ⟨-, hp'⟩
    · exact absurd hnull hne
    · exact hp.unique hp'

/-- A string has no terminator inside. -/
theorem StringAt.noNul (h : k.StringAt a s) : ∀ b ∈ s, b ≠ 0 := by
  induction h with
  | nil => exact List.forall_mem_nil _
  | cons _ hne _ ih => exact List.forall_mem_cons.mpr ⟨hne, ih⟩

/-- Nor has any string of a list. -/
theorem PointersAt.noNul (h : k.PointersAt a strings) : NoNul strings := by
  induction h with
  | nil => exact List.forall_mem_nil _
  | cons _ _ hs _ _ ih => exact List.forall_mem_cons.mpr ⟨hs.noNul, ih⟩

/-- Nor has any that a pointer designates. -/
theorem Designates.noNul {limit : Nat} (h : k.Designates limit a strings) : NoNul strings := by
  rcases h.strings with ⟨-, rfl⟩ | ⟨-, hp⟩
  · exact List.forall_mem_nil _
  · exact hp.noNul

end Kernel

/-! ### What is copied -/

namespace ExecVectors

variable {v v' : ExecVectors} {s : CString} {strings : List CString} {bytes : List Byte} {environment : Bool}

/-- Bytes put behind the others. -/
def append (v : ExecVectors) (bytes : List Byte) : ExecVectors := bytes.foldl push v

/-- Strings put behind the others, the first of them with this index. -/
def store (v : ExecVectors) (environment : Bool) : Nat → List CString → ExecVectors
  | _, [] => v
  | index, s :: strings => ((v.setOffset environment index).append (s ++ [0])).store environment (index + 1) strings

/-- One byte after another. -/
theorem append_cons (b : Byte) : v.append (b :: bytes) = (v.push b).append bytes := rfl

/-- Only `data` changes, where the bytes are put. -/
theorem append_fields (v : ExecVectors) (bytes : List Byte) :
    v.append bytes =
      { v with
        bytesUsed := v.bytesUsed + bytes.length
        data := fun i => if v.bytesUsed ≤ i ∧ i < v.bytesUsed + bytes.length then
          bytes.getD (i - v.bytesUsed) 0 else v.data i } := by
  induction bytes generalizing v with
  | nil =>
    have hdata : (fun i => if v.bytesUsed ≤ i ∧ i < v.bytesUsed + ([] : List Byte).length then
        ([] : List Byte).getD (i - v.bytesUsed) 0 else v.data i) = v.data := by
      funext i
      exact if_neg (by rw [List.length_nil]; omega)
    rw [hdata]
    rfl
  | cons b bytes ih =>
    rw [append_cons, ih]
    unfold push
    congr 1
    · rw [List.length_cons]
      dsimp only
      omega
    · funext i
      dsimp only
      rw [List.length_cons]
      by_cases hi : i = v.bytesUsed
      · subst hi
        rw [if_neg (by omega), update_self, if_pos (by omega), Nat.sub_self]
        rfl
      · rw [update_of_ne hi]
        by_cases hin : v.bytesUsed + 1 ≤ i ∧ i < v.bytesUsed + 1 + bytes.length
        · have hindex : i - v.bytesUsed = i - (v.bytesUsed + 1) + 1 := by omega
          rw [if_pos hin, if_pos (by omega), hindex, List.getD_cons_succ]
        · rw [if_neg hin, if_neg (by omega)]

/-- The bytes that are used. -/
theorem append_bytesUsed : (v.append bytes).bytesUsed = v.bytesUsed + bytes.length := by
  rw [append_fields]

/-- An offset uses none. -/
theorem setOffset_bytesUsed (index : Nat) : (v.setOffset environment index).bytesUsed = v.bytesUsed := by
  cases environment <;> rfl

/-- The strings use as many as they have, with their terminators. -/
theorem store_bytesUsed (index : Nat) :
    (v.store environment index strings).bytesUsed = v.bytesUsed + (stringBlock strings).length := by
  induction strings generalizing v index with
  | nil => rfl
  | cons s strings ih =>
    unfold store
    rw [ih, append_bytesUsed, setOffset_bytesUsed, length_stringBlock_cons, List.length_append, List.length_singleton,
      Nat.add_assoc]

/-- Storing strings does not count them. -/
theorem store_counts (index : Nat) :
    (v.store environment index strings).argc = v.argc ∧ (v.store environment index strings).envc = v.envc := by
  induction strings generalizing v index with
  | nil => exact ⟨rfl, rfl⟩
  | cons s strings ih =>
    unfold store
    rw [(ih _).1, (ih _).2, append_fields]
    cases environment <;> exact ⟨rfl, rfl⟩

/-- The strings that are there, and where. -/
structure Carries (v : ExecVectors) (args envs : List CString) : Prop where
  used : v.bytesUsed = (stringBlock (args ++ envs)).length
  data : ∀ i < v.bytesUsed, (stringBlock (args ++ envs))[i]? = some (v.data i)
  argOffsets : ∀ i < args.length, v.argvOffsets i = (stringBlock (args.take i)).length
  envOffsets : ∀ i < envs.length, v.envOffsets i = (stringBlock (args ++ envs.take i)).length

/-- There are none at first. -/
theorem Carries.zero : Carries .zero [] [] :=
  ⟨rfl, fun _ hi => absurd hi (Nat.not_lt_zero _), fun _ hi => absurd hi (Nat.not_lt_zero _),
    fun _ hi => absurd hi (Nat.not_lt_zero _)⟩

/-- How many strings there are is written last. -/
theorem Carries.setCount {args envs : List CString} (h : v.Carries args envs) (environment : Bool) (n : Nat) :
    (v.setCount environment n).Carries args envs := by
  cases environment <;> exact ⟨h.used, h.data, h.argOffsets, h.envOffsets⟩

/-- A string behind the others. -/
theorem Carries.data_append {args envs args' envs' : List CString} (h : v.Carries args envs)
    (hall : args' ++ envs' = args ++ envs ++ [s]) :
    (v.append (s ++ [0])).bytesUsed = (stringBlock (args' ++ envs')).length ∧
      ∀ i < (v.append (s ++ [0])).bytesUsed,
        (stringBlock (args' ++ envs'))[i]? = some ((v.append (s ++ [0])).data i) := by
  have hblock : stringBlock (args' ++ envs') = stringBlock (args ++ envs) ++ (s ++ [0]) := by
    rw [hall, stringBlock_append, stringBlock_cons, stringBlock_nil]
  have hused : (v.append (s ++ [0])).bytesUsed = (stringBlock (args' ++ envs')).length := by
    rw [append_bytesUsed, h.used, hblock]
    exact List.length_append.symm
  refine ⟨hused, fun i hi => ?_⟩
  rw [append_bytesUsed] at hi
  rw [append_fields, hblock]
  dsimp only
  by_cases hin : i < v.bytesUsed
  · rw [if_neg (by omega), List.getElem?_append_left (h.used ▸ hin), h.data i hin]
  · rw [if_pos (by omega), List.getElem?_append_right (by rw [← h.used]; omega), ← h.used,
      List.getElem?_eq_getElem (by omega), List.getD_eq_getElem]

/-- The offset of the next string is not one of those that are there. -/
theorem Carries.setOffset {args envs : List CString} (h : v.Carries args envs) (environment : Bool) :
    (v.setOffset environment (if environment then envs.length else args.length)).Carries args envs := by
  cases environment with
  | false =>
    refine ⟨h.used, h.data, fun i hi => ?_, h.envOffsets⟩
    rw [← h.argOffsets i hi]
    exact update_of_ne (Nat.ne_of_lt hi) ..
  | true =>
    refine ⟨h.used, h.data, h.argOffsets, fun i hi => ?_⟩
    rw [← h.envOffsets i hi]
    exact update_of_ne (Nat.ne_of_lt hi) ..

/-- One more argument, as long as there is no environment. -/
theorem Carries.addArg {args : List CString} (h : v.Carries args []) (hfits : v.bytesUsed ≤ execMaxVectorBytes) :
    ((v.setOffset false args.length).append (s ++ [0])).Carries (args ++ [s]) [] := by
  have hall : args ++ [s] ++ [] = args ++ [] ++ [s] := by rw [List.append_nil, List.append_nil]
  obtain ⟨hused, hdata⟩ := (h.setOffset false).data_append hall
  refine ⟨hused, hdata, fun i hi => ?_, fun _ hi => absurd hi (Nat.not_lt_zero _)⟩
  rw [append_fields]
  rw [List.length_append, List.length_singleton] at hi
  rcases Nat.lt_succ_iff_lt_or_eq.mp hi with hi | rfl
  · rw [List.take_append_of_le_length (Nat.le_of_lt hi)]
    exact (h.setOffset false).argOffsets i hi
  · rw [List.take_left]
    have hself : (v.setOffset false args.length).argvOffsets args.length = v.bytesUsed % 65536 := update_self ..
    have hall := h.used
    rw [List.append_nil] at hall
    rw [← hall]
    exact hself.trans (Nat.mod_eq_of_lt (Nat.lt_of_le_of_lt hfits (by decide)))

/-- One more string of the environment. -/
theorem Carries.addEnv {args envs : List CString} (h : v.Carries args envs)
    (hfits : v.bytesUsed ≤ execMaxVectorBytes) :
    ((v.setOffset true envs.length).append (s ++ [0])).Carries args (envs ++ [s]) := by
  obtain ⟨hused, hdata⟩ := (h.setOffset true).data_append (List.append_assoc args envs [s]).symm
  refine ⟨hused, hdata, fun i hi => ?_, fun i hi => ?_⟩
  · rw [append_fields]
    exact h.argOffsets i hi
  rw [append_fields]
  rw [List.length_append, List.length_singleton] at hi
  rcases Nat.lt_succ_iff_lt_or_eq.mp hi with hi | rfl
  · rw [List.take_append_of_le_length (Nat.le_of_lt hi)]
    exact (h.setOffset true).envOffsets i hi
  · rw [List.take_left]
    have hself : (v.setOffset true envs.length).envOffsets envs.length = v.bytesUsed % 65536 := update_self ..
    rw [← h.used]
    exact hself.trans (Nat.mod_eq_of_lt (Nat.lt_of_le_of_lt hfits (by decide)))

/-- The arguments are stored one after another. -/
theorem Carries.storeArgs {args : List CString} (h : v.Carries args [])
    (hfits : v.bytesUsed + (stringBlock strings).length ≤ execMaxVectorBytes) :
    (v.store false args.length strings).Carries (args ++ strings) [] := by
  induction strings generalizing v args with
  | nil =>
    rw [List.append_nil]
    exact h
  | cons s strings ih =>
    rw [length_stringBlock_cons] at hfits
    have hadd := h.addArg (s := s) (by omega)
    have hused : ((v.setOffset false args.length).append (s ++ [0])).bytesUsed = v.bytesUsed + (s.length + 1) := by
      rw [append_bytesUsed, setOffset_bytesUsed, List.length_append, List.length_singleton]
    have hrest := ih hadd (by rw [hused]; omega)
    rw [List.length_append, List.length_singleton, List.append_assoc] at hrest
    exact hrest

/-- And then the environment. -/
theorem Carries.storeEnvs {args envs : List CString} (h : v.Carries args envs)
    (hfits : v.bytesUsed + (stringBlock strings).length ≤ execMaxVectorBytes) :
    (v.store true envs.length strings).Carries args (envs ++ strings) := by
  induction strings generalizing v envs with
  | nil =>
    rw [List.append_nil]
    exact h
  | cons s strings ih =>
    rw [length_stringBlock_cons] at hfits
    have hadd := h.addEnv (s := s) (by omega)
    have hused : ((v.setOffset true envs.length).append (s ++ [0])).bytesUsed = v.bytesUsed + (s.length + 1) := by
      rw [append_bytesUsed, setOffset_bytesUsed, List.length_append, List.length_singleton]
    have hrest := ih hadd (by rw [hused]; omega)
    rw [List.length_append, List.length_singleton, List.append_assoc] at hrest
    exact hrest

/-- A string that is there is found at its offset. -/
theorem Carries.stringAt {args envs : List CString} (h : v.Carries args envs) (hnul : NoNul (args ++ envs))
    (hfits : v.bytesUsed ≤ execMaxVectorBytes) {i : Nat} (hi : i < (args ++ envs).length) :
    v.stringAt (stringBlock ((args ++ envs).take i)).length = (args ++ envs)[i] := by
  have hinside := length_take_add_lt hi
  have hused := h.used
  refine takeWhile_eq_string (hnul _ (List.getElem_mem hi)) fun j hj => ?_
  rw [← stringBlock_getElem? hi hj, h.data _ (by omega), List.getElem?_map, List.getElem?_range (by omega)]
  rfl

/-- What `exec_build_user_stack` reads are the strings. -/
theorem Carries.listed {args envs : List CString} (h : v.Carries args envs) (hargc : v.argc = args.length)
    (henvc : v.envc = envs.length) (hnul : NoNul (args ++ envs)) (hfits : v.bytesUsed ≤ execMaxVectorBytes) :
    v.argStrings = args ∧ v.envStrings = envs := by
  constructor
  · unfold argStrings
    rw [hargc]
    refine List.ext_getElem (by rw [List.length_map, List.length_range]) fun i _ hi => ?_
    have hstring := h.stringAt hnul hfits (i := i) (by rw [List.length_append]; omega)
    rw [List.take_append_of_le_length (Nat.le_of_lt hi), ← h.argOffsets i hi, List.getElem_append_left hi] at hstring
    rw [List.getElem_map, List.getElem_range, hstring]
  · unfold envStrings
    rw [henvc]
    refine List.ext_getElem (by rw [List.length_map, List.length_range]) fun i _ hi => ?_
    have hstring := h.stringAt hnul hfits (i := args.length + i) (by rw [List.length_append]; omega)
    rw [List.take_length_add_append, ← h.envOffsets i hi, List.getElem_append_right (Nat.le_add_right _ _)] at hstring
    rw [List.getElem_map, List.getElem_range, hstring]
    congr 1
    exact Nat.add_sub_cancel_left ..

end ExecVectors

/-! ### What `exec_copy_vector` does -/

namespace Kernel

variable {k : Kernel} {a : Word} {n index : Nat} {v v' : ExecVectors} {environment : Bool}

/-- The inner loop copies a string that is readable, short enough and fits. -/
theorem copyExecString_iff : k.copyExecString n a v = .ok v' ↔
    ∃ s, k.StringAt a s ∧ s.length < n ∧ v.bytesUsed + s.length < execMaxVectorBytes ∧ v' = v.append (s ++ [0]) := by
  induction n generalizing a v with
  | zero =>
    unfold copyExecString
    refine ⟨fun hc => (by cases hc), ?_⟩
    rintro ⟨s, -, hlt, -⟩
    exact absurd hlt (Nat.not_lt_zero _)
  | succ n ih =>
    unfold copyExecString
    by_cases hfull : execMaxVectorBytes ≤ v.bytesUsed
    · rw [if_pos hfull]
      refine ⟨fun hc => (by cases hc), ?_⟩
      rintro ⟨s, -, -, hfits, -⟩
      omega
    rw [if_neg hfull]
    rcases hbyte : k.copyByteFromUser a with _ | b
    · refine ⟨fun hc => (by cases hc), ?_⟩
      rintro ⟨s, hs, -⟩
      cases hs with
      | nil hb | cons hb => cases hbyte.symm.trans hb
    dsimp only
    by_cases hzero : b = 0
    · rw [if_pos hzero]
      subst hzero
      constructor
      · rintro ⟨⟩
        exact ⟨[], .nil hbyte, Nat.succ_pos n, Nat.not_le.mp hfull, rfl⟩
      · rintro ⟨s, hs, -, -, rfl⟩
        obtain rfl := hs.unique (.nil hbyte)
        rfl
    · rw [if_neg hzero, ih]
      have hused : (v.push b).bytesUsed = v.bytesUsed + 1 := rfl
      rw [hused]
      constructor
      · rintro ⟨s, hs, hlt, hfits, rfl⟩
        exact ⟨b :: s, .cons hbyte hzero hs, Nat.succ_lt_succ hlt, by rw [List.length_cons]; omega, rfl⟩
      · rintro ⟨s, hs, hlt, hfits, rfl⟩
        cases hs with
        | nil hb => exact absurd (Option.some.inj (hbyte.symm.trans hb)) hzero
        | @cons _ _ s hb _ hs =>
          obtain rfl := Option.some.inj (hbyte.symm.trans hb)
          rw [List.length_cons] at hlt hfits
          exact ⟨s, hs, Nat.lt_of_succ_lt_succ hlt, by omega, rfl⟩

/-- The next pointer is four bytes further. -/
theorem add_ofNat_next (a : Word) (index : Nat) :
    a + BitVec.ofNat 32 (index * 4) + 4 = a + BitVec.ofNat 32 ((index + 1) * 4) := by
  rw [Nat.succ_mul, BitVec.ofNat_add, BitVec.add_assoc]
  rfl

/-- The outer loop copies an array of pointers that is readable and short enough, if the strings fit. -/
theorem copyExecStrings_iff (hused : v.bytesUsed ≤ execMaxVectorBytes) :
    k.copyExecStrings environment n index a v = .ok v' ↔
      ∃ strings, k.PointersAt (a + BitVec.ofNat 32 (index * 4)) strings ∧ strings.length ≤ n ∧
        v.bytesUsed + (stringBlock strings).length ≤ execMaxVectorBytes ∧
        v' = (v.store environment index strings).setCount environment (index + strings.length) := by
  induction n generalizing index v with
  | zero =>
    unfold copyExecStrings
    rcases hword : k.copyWordFromUser (a + BitVec.ofNat 32 (index * 4)) with _ | p
    · refine ⟨fun hc => (by cases hc), ?_⟩
      rintro ⟨strings, hp, -⟩
      cases hp with
      | nil hp | cons hp => cases hword.symm.trans hp
    dsimp only
    by_cases hnull : p = 0
    · rw [if_pos hnull]
      subst hnull
      constructor
      · rintro ⟨⟩
        exact ⟨[], .nil hword, Nat.le_refl _, hused, rfl⟩
      · rintro ⟨strings, -, hlength, -, rfl⟩
        obtain rfl := List.length_eq_zero_iff.mp (Nat.le_zero.mp hlength)
        rfl
    · rw [if_neg hnull]
      refine ⟨fun hc => (by cases hc), ?_⟩
      rintro ⟨strings, hp, hlength, -⟩
      cases hp with
      | nil hp => exact absurd (Option.some.inj (hword.symm.trans hp)) hnull
      | cons => exact absurd hlength (Nat.not_succ_le_zero _)
  | succ n ih =>
    unfold copyExecStrings
    rcases hword : k.copyWordFromUser (a + BitVec.ofNat 32 (index * 4)) with _ | p
    · refine ⟨fun hc => (by cases hc), ?_⟩
      rintro ⟨strings, hp, -⟩
      cases hp with
      | nil hp | cons hp => cases hword.symm.trans hp
    dsimp only
    by_cases hnull : p = 0
    · rw [if_pos hnull]
      subst hnull
      constructor
      · rintro ⟨⟩
        exact ⟨[], .nil hword, Nat.zero_le _, hused, rfl⟩
      · rintro ⟨strings, hp, -, -, rfl⟩
        obtain rfl := hp.unique (.nil hword)
        rfl
    rw [if_neg hnull]
    have hset : (v.setOffset environment index).bytesUsed = v.bytesUsed := ExecVectors.setOffset_bytesUsed index
    rcases hcopy : k.copyExecString execMaxStringBytes p (v.setOffset environment index) with status | v₁
    · refine ⟨fun hc => (by cases hc), ?_⟩
      rintro ⟨strings, hp, hlength, hfits, -⟩
      cases hp with
      | nil hp => exact absurd (Option.some.inj (hword.symm.trans hp)) hnull
      | @cons _ _ s strings hp _ hs hshort =>
        obtain rfl := Option.some.inj (hword.symm.trans hp)
        rw [length_stringBlock_cons] at hfits
        have hok := copyExecString_iff.mpr ⟨s, hs, hshort, by rw [hset]; omega, rfl⟩
        cases hcopy.symm.trans hok
    obtain ⟨s, hs, hshort, hfits, rfl⟩ := copyExecString_iff.mp hcopy
    rw [hset] at hfits
    have hused₁ : ((v.setOffset environment index).append (s ++ [0])).bytesUsed = v.bytesUsed + (s.length + 1) := by
      rw [ExecVectors.append_bytesUsed, hset, List.length_append, List.length_singleton]
    dsimp only
    rw [ih (by rw [hused₁]; omega), ← add_ofNat_next, hused₁]
    constructor
    · rintro ⟨strings, hp, hlength, hfits', rfl⟩
      refine ⟨s :: strings, .cons hword hnull hs hshort hp, Nat.succ_le_succ hlength, ?_, ?_⟩
      · rw [length_stringBlock_cons]
        omega
      · rw [List.length_cons, Nat.add_right_comm, Nat.add_assoc]
        rfl
    · rintro ⟨strings, hp, hlength, hfits', rfl⟩
      cases hp with
      | nil hp => exact absurd (Option.some.inj (hword.symm.trans hp)) hnull
      | @cons _ _ s' strings hp _ hs' _ hrest =>
        obtain rfl := Option.some.inj (hword.symm.trans hp)
        obtain rfl := hs.unique hs'
        rw [length_stringBlock_cons] at hfits'
        refine ⟨strings, hrest, Nat.le_of_succ_le_succ hlength, by omega, ?_⟩
        rw [List.length_cons, Nat.add_right_comm, Nat.add_assoc]
        rfl

/-- `exec_copy_vector` copies what a pointer designates, if it fits. -/
theorem execCopyVector_iff (hused : v.bytesUsed ≤ execMaxVectorBytes) :
    k.execCopyVector v a environment = .ok v' ↔
      ∃ strings, k.Designates (if environment then execMaxEnvs else execMaxArgs) a strings ∧
        v.bytesUsed + (stringBlock strings).length ≤ execMaxVectorBytes ∧
        v' = ((v.setCount environment 0).store environment 0 strings).setCount environment strings.length := by
  have hsame : (v.setCount environment 0).bytesUsed = v.bytesUsed := by cases environment <;> rfl
  unfold execCopyVector
  dsimp only
  by_cases hnull : a = 0
  · rw [if_pos hnull]
    constructor
    · rintro ⟨⟩
      refine ⟨[], ⟨Nat.zero_le _, .inl ⟨hnull, rfl⟩⟩, hused, ?_⟩
      cases environment <;> rfl
    · rintro ⟨strings, hstrings, -, rfl⟩
      obtain ⟨-, rfl⟩ := hstrings.strings.resolve_right fun hc => hc.1 hnull
      cases environment <;> rfl
  · rw [if_neg hnull, copyExecStrings_iff (hsame ▸ hused), Nat.zero_mul, BitVec.add_zero, hsame]
    constructor
    · rintro ⟨strings, hp, hlength, hfits, rfl⟩
      exact ⟨strings, ⟨hlength, .inr ⟨hnull, hp⟩⟩, hfits, by rw [Nat.zero_add]⟩
    · rintro ⟨strings, hstrings, hfits, rfl⟩
      obtain ⟨-, hp⟩ := hstrings.strings.resolve_left fun hc => hnull hc.1
      exact ⟨strings, hp, hstrings.count, hfits, by rw [Nat.zero_add]⟩

/-- The two calls of `exec_copy_vector` in `syscall_exec`. -/
def copyVectors (k : Kernel) (argvPtr envpPtr : Word) : Except Word ExecVectors :=
  match k.execCopyVector .zero argvPtr false with
  | .error status => .error status
  | .ok vectors => k.execCopyVector vectors envpPtr true

variable {argvPtr envpPtr : Word} {args envs : List CString}

/-- What the two pointers of `SYS_EXEC` designate. -/
structure DesignatesBoth (k : Kernel) (argvPtr envpPtr : Word) (args envs : List CString) : Prop where
  args : k.Designates execMaxArgs argvPtr args
  envs : k.Designates execMaxEnvs envpPtr envs

/-- The strings of both lists have no terminators inside. -/
theorem DesignatesBoth.noNul (h : k.DesignatesBoth argvPtr envpPtr args envs) : NoNul (args ++ envs) :=
  List.forall_mem_append.mpr ⟨h.args.noNul, h.envs.noNul⟩

/-- All strings are copied if they fit. -/
theorem DesignatesBoth.copied (h : k.DesignatesBoth argvPtr envpPtr args envs)
    (hfits : (stringBlock (args ++ envs)).length ≤ execMaxVectorBytes) :
    ∃ vectors, k.copyVectors argvPtr envpPtr = .ok vectors ∧ vectors.argStrings = args ∧
      vectors.envStrings = envs := by
  have hblock := hfits
  rw [length_stringBlock_append] at hblock
  have hzero : ExecVectors.zero.bytesUsed = 0 := rfl
  have hargs : k.execCopyVector .zero argvPtr false =
      .ok (((ExecVectors.zero.setCount false 0).store false 0 args).setCount false args.length) :=
    (execCopyVector_iff (Nat.zero_le _)).mpr ⟨args, h.args, by rw [hzero]; omega, rfl⟩
  have hfirst : ((ExecVectors.zero.setCount false 0).store false 0 args).Carries args [] :=
    (ExecVectors.Carries.zero.setCount false 0).storeArgs (by show 0 + _ ≤ _; omega)
  generalize hv : ((ExecVectors.zero.setCount false 0).store false 0 args).setCount false args.length = v at hargs
  have hcarries : v.Carries args [] := hv ▸ hfirst.setCount false args.length
  have hused := hcarries.used
  rw [List.append_nil] at hused
  have henvs : k.execCopyVector v envpPtr true =
      .ok (((v.setCount true 0).store true 0 envs).setCount true envs.length) :=
    (execCopyVector_iff (by omega)).mpr ⟨envs, h.envs, by omega, rfl⟩
  have hsecond : ((v.setCount true 0).store true 0 envs).Carries args envs :=
    (hcarries.setCount true 0).storeEnvs (by show v.bytesUsed + _ ≤ _; omega)
  refine ⟨_, ?_, (hsecond.setCount true envs.length).listed ?_ rfl h.noNul ?_⟩
  · unfold copyVectors
    rw [hargs]
    exact henvs
  · show (ExecVectors.store (v.setCount true 0) true 0 envs).argc = _
    rw [(ExecVectors.store_counts 0).1, ← hv]
    rfl
  · exact hsecond.used.trans_le hfits

/-- **What `exec_copy_vector` copies**: it succeeds, first for the arguments and then for the environment, exactly
if the pointers designate strings that fit. -/
theorem copyVectors_iff : (∃ vectors, k.copyVectors argvPtr envpPtr = .ok vectors) ↔
    ∃ args envs, k.DesignatesBoth argvPtr envpPtr args envs ∧
      (stringBlock (args ++ envs)).length ≤ execMaxVectorBytes := by
  constructor
  · rintro ⟨vectors, hcopy⟩
    unfold copyVectors at hcopy
    rcases hargs : k.execCopyVector .zero argvPtr false with status | v
    · rw [hargs] at hcopy
      cases hcopy
    rw [hargs] at hcopy
    obtain ⟨args, hdesignates, hfits, rfl⟩ := (execCopyVector_iff (Nat.zero_le _)).mp hargs
    have hused : (((ExecVectors.zero.setCount false 0).store false 0 args).setCount false args.length).bytesUsed =
        0 + (stringBlock args).length := ExecVectors.store_bytesUsed 0
    have hzero : ExecVectors.zero.bytesUsed = 0 := rfl
    rw [hzero] at hfits
    obtain ⟨envs, henvs, hfits', -⟩ := (execCopyVector_iff (hused ▸ hfits)).mp hcopy
    refine ⟨args, envs, ⟨hdesignates, henvs⟩, ?_⟩
    rw [length_stringBlock_append]
    omega
  · rintro ⟨args, envs, h, hfits⟩
    obtain ⟨vectors, hcopy, -⟩ := h.copied hfits
    exact ⟨vectors, hcopy⟩

end Kernel

end AgenticOs
