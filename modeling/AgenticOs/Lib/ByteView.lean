import AgenticOs.Lib.Bytes
import Mathlib.Order.Interval.Set.Basic

/-!
# Bytes at addresses

A view says which byte is found at an address, and `none` where the address cannot be read. Bytes are put over
a view from an address on (`overlay`).

* **Bytes that are held** (`Holds`): bytes found one after another; they split where the list of bytes does
  (`holds_append`), and a view that finds more holds them too (`Holds.mono`).
* **Overlays**: what is put over a view is held by it (`holds_overlay`), and what was held at other addresses
  still is (`Holds.overlay`). Overlays next to each other are one (`overlay_overlay_behind`,
  `overlay_overlay_before`).
* **Decoding**: a reader that knows nothing of how the bytes were put there finds a word (`Holds.word`), a
  vector of words with its `NULL` (`Holds.wordsToNull`) or a string with its terminator (`Holds.string`) where
  their bytes are held.

The last three are what a round trip through memory needs: encode with `overlay`, decode with `word` and
`string`.
-/

namespace AgenticOs.Lib

/-- What is found at an address; `none` is a fault. -/
abbrev ByteView := Word → Option Byte

namespace ByteView

variable {v v' : ByteView} {a x w : Word} {b : Byte} {xs ys s : List Byte} {ws : List Word} {n : Nat}

/-- Bytes are found one after another. -/
def Holds (v : ByteView) (a : Word) (bytes : List Byte) : Prop :=
  ∀ i < bytes.length, v (a + BitVec.ofNat 32 i) = bytes[i]?

/-- A view with bytes put over it. -/
def overlay (v : ByteView) (a : Word) (bytes : List Byte) : ByteView := fun x =>
  if (x - a).toNat < bytes.length then bytes[(x - a).toNat]? else v x

/-- The word at an address. -/
def word (v : ByteView) (a : Word) : Option Word := do
  let b₀ ← v a
  let b₁ ← v (a + 1)
  let b₂ ← v (a + 2)
  let b₃ ← v (a + 3)
  return wordOfBytes (fun i => [b₀, b₁, b₂, b₃].getD i 0) 0

/-- As many words as asked for. -/
def words (v : ByteView) : Nat → Word → Option (List Word)
  | 0, _ => some []
  | n + 1, a => do
    let w ← v.word a
    let ws ← v.words n (a + 4)
    return w :: ws

/-- The words up to a `NULL`, fewer than `n`. -/
def wordsToNull (v : ByteView) : Nat → Word → Option (List Word)
  | 0, _ => none
  | n + 1, a => do
    let w ← v.word a
    if w = 0 then return []
    else
      let ws ← v.wordsToNull n (a + 4)
      return w :: ws

/-- The string up to its terminator, of less than `n` bytes. -/
def string (v : ByteView) : Nat → Word → Option (List Byte)
  | 0, _ => none
  | n + 1, a => do
    let b ← v a
    if b = 0 then return []
    else
      let s ← v.string n (a + 1)
      return b :: s

/-! ### Bytes that are held -/

/-- No bytes are always held. -/
theorem holds_nil : v.Holds a [] := fun _ hi => absurd hi (Nat.not_lt_zero _)

/-- Going on by `i` bytes and then by `j`. -/
theorem add_ofNat_add (a : Word) (i j : Nat) :
    a + BitVec.ofNat 32 i + BitVec.ofNat 32 j = a + BitVec.ofNat 32 (i + j) := by
  rw [BitVec.ofNat_add, BitVec.add_assoc]

/-- Bytes in two parts. -/
theorem holds_append :
    v.Holds a (xs ++ ys) ↔ v.Holds a xs ∧ v.Holds (a + BitVec.ofNat 32 xs.length) ys := by
  constructor
  · refine fun h => ⟨fun i hi => ?_, fun i hi => ?_⟩
    · rw [h i (by rw [List.length_append]; omega), List.getElem?_append_left hi]
    · rw [add_ofNat_add, h _ (by rw [List.length_append]; omega), List.getElem?_append_right (Nat.le_add_right _ _),
        Nat.add_sub_cancel_left]
  · rintro ⟨hxs, hys⟩ i hi
    rw [List.length_append] at hi
    by_cases hin : i < xs.length
    · rw [hxs i hin, List.getElem?_append_left hin]
    · have hrest := hys (i - xs.length) (by omega)
      rw [add_ofNat_add, Nat.add_sub_cancel' (Nat.not_lt.mp hin)] at hrest
      rw [hrest, List.getElem?_append_right (Nat.not_lt.mp hin)]

/-- The first byte, and the others. -/
theorem holds_cons : v.Holds a (b :: xs) ↔ v a = some b ∧ v.Holds (a + 1) xs := by
  rw [← List.singleton_append, holds_append]
  refine and_congr_left' ⟨fun h => ?_, fun h i hi => ?_⟩
  · have hfirst := h 0 Nat.one_pos
    rw [BitVec.add_zero] at hfirst
    exact hfirst
  · obtain rfl := Nat.lt_one_iff.mp hi
    rw [BitVec.add_zero]
    exact h

/-- What one view holds another does that finds it too. -/
theorem Holds.mono (h : v.Holds a xs) (hle : ∀ x b, v x = some b → v' x = some b) : v'.Holds a xs := fun i hi => by
  have hfound := h i hi
  rw [List.getElem?_eq_getElem hi] at hfound ⊢
  exact hle _ _ hfound

/-! ### Bytes put over a view -/

/-- Nothing is put over the view. -/
theorem overlay_nil : v.overlay a [] = v := rfl

/-- One byte is put over the view. -/
theorem overlay_one : v.overlay a [b] x = if x = a then some b else v x := by
  unfold overlay
  by_cases hx : x = a
  · subst hx
    rw [if_pos rfl, BitVec.sub_self]
    rfl
  · have hne : (x - a).toNat ≠ 0 := fun hc => hx (by
      have hzero : x - a = 0 := BitVec.eq_of_toNat_eq hc
      rw [← BitVec.sub_add_cancel x a, hzero]
      exact BitVec.zero_add a)
    rw [if_neg hx, List.length_singleton, if_neg (by omega)]

/-- The distance from an address behind `a`, where it may go around. -/
theorem toNat_sub_add_ofNat (hn : n < 4294967296) :
    (x - (a + BitVec.ofNat 32 n)).toNat =
      if n ≤ (x - a).toNat then (x - a).toNat - n else (x - a).toNat + (4294967296 - n) := by
  have hsplit : x - (a + BitVec.ofNat 32 n) = x - a - BitVec.ofNat 32 n := by rw [BitVec.sub_sub]
  have hlt := (x - a).isLt
  rw [hsplit, BitVec.toNat_sub, BitVec.toNat_ofNat, Nat.mod_eq_of_lt hn]
  split <;> omega

/-- What is put right behind other bytes continues them. -/
theorem overlay_overlay_behind (hlen : xs.length + ys.length < 4294967296) :
    (v.overlay a xs).overlay (a + BitVec.ofNat 32 xs.length) ys = v.overlay a (xs ++ ys) := by
  funext x
  unfold overlay
  rw [toNat_sub_add_ofNat (by omega), List.length_append]
  have hlt := (x - a).isLt
  by_cases hxs : (x - a).toNat < xs.length
  · rw [if_neg (Nat.not_le.mpr hxs), if_neg (by omega), if_pos hxs, if_pos (by omega),
      List.getElem?_append_left hxs]
  · rw [if_pos (Nat.not_lt.mp hxs), if_neg hxs]
    by_cases hys : (x - a).toNat < xs.length + ys.length
    · rw [if_pos (by omega), if_pos hys, List.getElem?_append_right (Nat.not_lt.mp hxs)]
    · rw [if_neg (by omega), if_neg hys]

/-- What is put right before other bytes is continued by them. -/
theorem overlay_overlay_before (hlen : xs.length + ys.length < 4294967296) :
    (v.overlay (a + BitVec.ofNat 32 xs.length) ys).overlay a xs = v.overlay a (xs ++ ys) := by
  rw [← overlay_overlay_behind hlen]
  funext x
  unfold overlay
  rw [toNat_sub_add_ofNat (by omega)]
  have hlt := (x - a).isLt
  by_cases hxs : (x - a).toNat < xs.length
  · rw [if_pos hxs, if_neg (Nat.not_le.mpr hxs), if_neg (by omega), if_pos hxs]
  · rw [if_neg hxs, if_neg hxs]

/-- Bytes put somewhere are found there. -/
theorem holds_overlay (hlen : xs.length < 4294967296) : (v.overlay a xs).Holds a xs := fun i hi => by
  unfold overlay
  have hindex : (a + BitVec.ofNat 32 i - a).toNat = i := by
    rw [BitVec.add_comm, BitVec.add_sub_cancel, BitVec.toNat_ofNat, Nat.mod_eq_of_lt (by omega)]
  rw [hindex, if_pos hi]

/-- And change nothing at other addresses. -/
theorem Holds.overlay (h : v.Holds x xs) (hother : ∀ i < xs.length, ys.length ≤ (x + BitVec.ofNat 32 i - a).toNat) :
    (v.overlay a ys).Holds x xs := fun i hi => by
  unfold ByteView.overlay
  rw [if_neg (Nat.not_lt.mpr (hother i hi)), h i hi]

/-! ### Words and strings that are held -/

/-- A word has four bytes. -/
theorem length_wordBytes (w : Word) : (wordBytes w).length = 4 := rfl

/-- The bytes of a word in their order. -/
theorem getElem?_wordBytes (w : Word) {k : Nat} (hk : k < 4) : (wordBytes w)[k]? = some (wordByte w k) := by
  unfold wordBytes
  rw [List.getElem?_map, List.getElem?_range hk]
  rfl

/-- A word is found where its bytes are held. -/
theorem Holds.word (h : v.Holds a (wordBytes w)) : v.word a = some w := by
  have hbyte (k : Nat) (hk : k < 4) : v (a + BitVec.ofNat 32 k) = some (wordByte w k) :=
    (h k hk).trans (getElem?_wordBytes w hk)
  have h₀ : v a = some (wordByte w 0) := by
    have hzero := hbyte 0 (by decide)
    rw [BitVec.add_zero] at hzero
    exact hzero
  have h₁ : v (a + 1) = some (wordByte w 1) := hbyte 1 (by decide)
  have h₂ : v (a + 2) = some (wordByte w 2) := hbyte 2 (by decide)
  have h₃ : v (a + 3) = some (wordByte w 3) := hbyte 3 (by decide)
  have hword : wordOfBytes (fun i => (wordBytes w).getD i 0) 0 = w := by
    refine wordOfBytes_eq fun k hk => ?_
    rw [Nat.zero_add, List.getD_eq_getElem?_getD, getElem?_wordBytes w hk]
    rfl
  unfold ByteView.word
  rw [h₀, h₁, h₂, h₃]
  exact congrArg some hword

/-- Words have four bytes each. -/
theorem length_flatMap_wordBytes (ws : List Word) : (ws.flatMap wordBytes).length = 4 * ws.length := by
  induction ws with
  | nil => rfl
  | cons w ws ih =>
    rw [List.flatMap_cons, List.length_append, ih, length_wordBytes, List.length_cons]
    omega

/-- The first word, and the others. -/
theorem holds_words_cons : v.Holds a ((w :: ws).flatMap wordBytes) ↔
    v.Holds a (wordBytes w) ∧ v.Holds (a + 4) (ws.flatMap wordBytes) := by
  rw [List.flatMap_cons, holds_append, length_wordBytes]
  rfl

/-- As many words as are held are found. -/
theorem Holds.words (h : v.Holds a (ws.flatMap wordBytes)) : v.words ws.length a = some ws := by
  induction ws generalizing a with
  | nil => rfl
  | cons w ws ih =>
    obtain ⟨hfirst, hrest⟩ := holds_words_cons.mp h
    rw [List.length_cons]
    unfold ByteView.words
    rw [hfirst.word, ih hrest]
    rfl

/-- Words with a `NULL` behind them are found up to it. -/
theorem Holds.wordsToNull (hne : ∀ w ∈ ws, w ≠ 0) (hn : ws.length < n)
    (h : v.Holds a ((ws ++ [0]).flatMap wordBytes)) : v.wordsToNull n a = some ws := by
  induction n generalizing a ws with
  | zero => exact absurd hn (Nat.not_lt_zero _)
  | succ n ih =>
    unfold ByteView.wordsToNull
    cases ws with
    | nil =>
      rw [(holds_words_cons.mp h).1.word]
      rfl
    | cons w ws =>
      obtain ⟨hfirst, hrest⟩ := holds_words_cons.mp h
      have hw : w ≠ 0 := hne w List.mem_cons_self
      rw [hfirst.word, Option.bind_eq_bind, Option.bind_some, if_neg hw,
        ih (fun w hw => hne w (List.mem_cons_of_mem _ hw)) (Nat.lt_of_succ_lt_succ hn) hrest]
      rfl

/-- A string with its terminator is found. -/
theorem Holds.string (hs : ∀ b ∈ s, b ≠ 0) (hn : s.length < n) (h : v.Holds a (s ++ [0])) :
    v.string n a = some s := by
  induction n generalizing a s with
  | zero => exact absurd hn (Nat.not_lt_zero _)
  | succ n ih =>
    unfold ByteView.string
    cases s with
    | nil =>
      rw [(holds_cons.mp h).1]
      rfl
    | cons b s =>
      obtain ⟨hfirst, hrest⟩ := holds_cons.mp h
      have hb : b ≠ 0 := hs b List.mem_cons_self
      rw [hfirst, Option.bind_eq_bind, Option.bind_some, if_neg hb,
        ih (fun b hb => hs b (List.mem_cons_of_mem _ hb)) (Nat.lt_of_succ_lt_succ hn) hrest]
      rfl

end ByteView

end AgenticOs.Lib
