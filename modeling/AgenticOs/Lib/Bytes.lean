import AgenticOs.Lib.Bits

/-!
# Bytes of words

A 32-bit word in memory or on a disk is four bytes, the lowest first. `wordByte` takes a word apart,
`wordOfBytes` puts one together, `setWordByte` replaces one byte.

* **Inverse of each other**: `wordOfBytes_eq` takes a word apart and puts it together again,
  `wordByte_wordOfBytes` the other way round.
* **Replacing** (`wordByte_setWordByte`): the byte that is replaced is the new one, the three others stay.
* **Frame** (`wordOfBytes_congr`): a word depends on its four bytes, so an access elsewhere does not change
  it.

A memory of bytes and a memory of words are two views of the same thing after these lemmas; which of them a
program is modelled over is a matter of what it accesses.
-/

namespace AgenticOs.Lib

/-- A byte. -/
abbrev Byte := BitVec 8

/-- Byte `k` of a word, the lowest first. -/
def wordByte (w : Word) (k : Nat) : Byte := w.extractLsb' (8 * k) 8

/-- The four bytes of a word. -/
def wordBytes (w : Word) : List Byte := (List.range 4).map (wordByte w)

/-- A word with byte `k` replaced. -/
def setWordByte (w : Word) (k : Nat) (b : Byte) : Word :=
  w &&& ~~~((0xFF : Word) <<< (8 * k)) ||| b.setWidth 32 <<< (8 * k)

/-- The halfword whose bytes are `bytes i` and `bytes (i + 1)`. -/
def halfOfBytes (bytes : Nat → Byte) (i : Nat) : BitVec 16 :=
  (bytes (i + 1) ++ bytes i : BitVec (8 + 8))

/-- The word whose bytes are `bytes i`, …, `bytes (i + 3)`. -/
def wordOfBytes (bytes : Nat → Byte) (i : Nat) : Word :=
  (bytes (i + 3) ++ bytes (i + 2) ++ bytes (i + 1) ++ bytes i : BitVec (8 + 8 + 8 + 8))

/-- The bits of a byte's mask. -/
theorem getLsbD_ff (i : Nat) : BitVec.getLsbD (0xFF : Word) i = decide (i < 8) := by
  by_cases h : i < 8
  · have : ∀ i : Fin 8, BitVec.getLsbD (0xFF : Word) i.val = true := by decide
    simpa [h] using this ⟨i, h⟩
  · rw [show (0xFF : Word) = BitVec.setWidth 32 (0xFF : BitVec 8) from rfl, BitVec.getLsbD_setWidth,
      BitVec.getLsbD_of_ge _ _ (by omega)]
    simp [h]

/-- One byte is written and the three others stay. -/
theorem wordByte_setWordByte (w : Word) {k l : Nat} (hk : k < 4) (b : Byte) (hl : l < 4) :
    wordByte (setWordByte w k b) l = if l = k then b else wordByte w l := by
  ext i hi
  unfold wordByte setWordByte
  by_cases hkk : l = k
  · subst hkk
    simp only [if_true, BitVec.getElem_extractLsb', BitVec.getLsbD_or, BitVec.getLsbD_and,
      BitVec.getLsbD_not, BitVec.getLsbD_shiftLeft, BitVec.getLsbD_setWidth, getLsbD_ff,
      show 8 * l + i < 32 by omega, show 8 * l + i - 8 * l = i by omega]
    simp [hi, show i < 32 by omega, show ¬ 8 * l + i < 8 * l by omega]
  · rw [if_neg hkk]
    simp only [BitVec.getElem_extractLsb', BitVec.getLsbD_or, BitVec.getLsbD_and,
      BitVec.getLsbD_not, BitVec.getLsbD_shiftLeft, BitVec.getLsbD_setWidth, getLsbD_ff,
      show 8 * l + i < 32 by omega]
    rcases Nat.lt_or_gt_of_ne hkk with hlt | hgt
    · simp [show 8 * l + i < 8 * k by omega]
    · simp [show ¬ 8 * l + i - 8 * k < 8 by omega,
        BitVec.getLsbD_of_ge b (8 * l + i - 8 * k) (by omega)]

/-- Taking a word apart and putting it together again. -/
theorem wordOfBytes_eq {bytes : Nat → Byte} {i : Nat} {w : Word}
    (h : ∀ k < 4, bytes (i + k) = wordByte w k) : wordOfBytes bytes i = w := by
  unfold wordOfBytes
  rw [h 3 (by decide), h 2 (by decide), h 1 (by decide), show bytes i = wordByte w 0 from
    h 0 (by decide)]
  apply BitVec.eq_of_getLsbD_eq
  intro k hk
  simp only [BitVec.getLsbD_append, wordByte, BitVec.getLsbD_extractLsb']
  by_cases h0 : k < 8
  · simp [h0]
  · by_cases h1 : k < 16
    · simp [h0, show k - 8 < 8 by omega, show 8 + (k - 8) = k by omega]
    · by_cases h2 : k < 24
      · simp [h0, show ¬ k - 8 < 8 by omega, show k - 8 - 8 < 8 by omega,
          show 16 + (k - 8 - 8) = k by omega]
      · simp [h0, show ¬ k - 8 < 8 by omega, show ¬ k - 8 - 8 < 8 by omega,
          show k - 8 - 8 - 8 < 8 by omega, show 24 + (k - 8 - 8 - 8) = k by omega]

/-- Putting bytes together and taking the word apart again. -/
theorem wordByte_wordOfBytes (bytes : Nat → Byte) (i : Nat) {k : Nat} (hk : k < 4) :
    wordByte (wordOfBytes bytes i) k = bytes (i + k) := by
  apply BitVec.eq_of_getLsbD_eq
  intro j hj
  simp only [wordByte, wordOfBytes, BitVec.getLsbD_extractLsb', BitVec.getLsbD_append, hj, decide_true, Bool.true_and]
  rcases (by omega : k = 0 ∨ k = 1 ∨ k = 2 ∨ k = 3) with rfl | rfl | rfl | rfl
  · simp [hj]
  · simp [show ¬ 8 + j < 8 by omega, show 8 + j - 8 = j by omega, hj]
  · simp [show ¬ 16 + j < 8 by omega, show ¬ 16 + j - 8 < 8 by omega, show 16 + j - 8 - 8 = j by omega, hj]
  · simp [show ¬ 24 + j < 8 by omega, show ¬ 24 + j - 8 < 8 by omega, show ¬ 24 + j - 8 - 8 < 8 by omega,
      show 24 + j - 8 - 8 - 8 = j by omega]

/-- A word depends on its four bytes. -/
theorem wordOfBytes_congr {bytes bytes' : Nat → Byte} {i j : Nat}
    (h : ∀ k < 4, bytes (i + k) = bytes' (j + k)) : wordOfBytes bytes i = wordOfBytes bytes' j := by
  unfold wordOfBytes
  rw [h 3 (by decide), h 2 (by decide), h 1 (by decide), show bytes i = bytes' j from
    h 0 (by decide)]

end AgenticOs.Lib
