import Mathlib.Data.Nat.Bitwise

/-!
# Bit tests on 32-bit words

C tests a word against a mask in two ways: `w & m` as a condition, and `(w & m) == m`. For the masks an x86
page-table entry uses, both come down to single bits (`bit i w`), and the frame number `w.toNat / 4096` of a
word depends on bits 12 to 31 only. After these lemmas a proof about entries is a proof about a few booleans
and one number.

* **Compound words**: the bits of `w ||| v`, `w &&& v`, `~~~w` and of `2^i` (`bit_or`, `bit_twoPow`); words
  with the same bits are equal (`eq_of_bits`).
* **Masks**: a test against one bit reads it (`test_twoPow`, `has_twoPow`), against several any or all of them
  (`test_or`, `has_or`).
* **Frames**: `frameOf` is the word shifted by twelve (`frameOf_eq_shift`), is below `2^20` and does not see
  the flags (`frameOf_congr`); clearing the flags leaves the address of the frame (`and_pageMask`).
* **Addresses**: what adding one does to the number of a word (`toNat_add_one`), for loops over addresses.
-/

namespace AgenticOs.Lib

/-- A 32-bit machine word. -/
abbrev Word := BitVec 32

/-- Bit `i` of a word. -/
def bit (i : Nat) (w : Word) : Bool := w.getLsbD i

/-- The truth value C gives to `w & m`. -/
def test (w m : Word) : Bool := w &&& m != 0

/-- The truth value C gives to `(w & m) == m`. -/
def has (w m : Word) : Bool := w &&& m == m

variable {v w m n : Word} {i : Nat}

/-! ### Bits of compound words -/

/-- Bits of a disjunction. -/
@[simp] theorem bit_or : bit i (v ||| w) = (bit i v || bit i w) := BitVec.getLsbD_or

/-- Bits of a conjunction. -/
@[simp] theorem bit_and : bit i (v &&& w) = (bit i v && bit i w) := BitVec.getLsbD_and

/-- Bits of a complement. -/
theorem bit_not (hi : i < 32) : bit i (~~~w) = !bit i w := by
  unfold bit
  rw [BitVec.getLsbD_not]
  simp [hi]

/-- Bits of a power of two. -/
theorem bit_twoPow (k : Nat) : bit i (BitVec.twoPow 32 k) = (decide (k < 32) && decide (k = i)) :=
  BitVec.getLsbD_twoPow ..

/-- There are 32 bits. -/
theorem bit_of_ge (hi : 32 ≤ i) : bit i w = false := BitVec.getLsbD_of_ge _ _ hi

/-- Words are their bits. -/
theorem eq_of_bits (h : ∀ i, bit i v = bit i w) : v = w :=
  BitVec.eq_of_getLsbD_eq fun i _ => h i

/-! ### Masks -/

/-- Testing one bit. -/
theorem test_twoPow (hi : i < 32) : test w (BitVec.twoPow 32 i) = bit i w := by
  unfold test bit
  rw [BitVec.and_twoPow]
  cases w.getLsbD i
  · simp
  · simp only [if_true, bne_iff_ne, ne_eq]
    intro h
    have hbit := congrArg (fun v => v.getLsbD i) h
    simp [hi] at hbit

/-- `w & (m | n)` holds when either mask is met. -/
theorem test_or : test w (m ||| n) = (test w m || test w n) := by
  unfold test
  rw [BitVec.and_or_distrib_left, Bool.eq_iff_iff]
  simp only [bne_iff_ne, ne_eq, Bool.or_eq_true]
  rw [← not_and_or, not_iff_not]
  exact BitVec.or_eq_zero_iff

/-- Two masks at once: `(w & (m | n)) == (m | n)` checks both. -/
theorem has_or : has w (m ||| n) = (has w m && has w n) := by
  have key : (w &&& (m ||| n) = m ||| n) ↔ (w &&& m = m ∧ w &&& n = n) := by
    constructor
    · intro h
      have hbit : ∀ i : Nat, (bit i w && (bit i m || bit i n)) = (bit i m || bit i n) := by
        intro i
        have := congrArg (bit i) h
        simpa using this
      constructor
      · refine eq_of_bits fun i => ?_
        have := hbit i
        rw [bit_and]
        cases hw : bit i w <;> cases hm : bit i m <;> simp_all
      · refine eq_of_bits fun i => ?_
        have := hbit i
        rw [bit_and]
        cases hw : bit i w <;> cases hn : bit i n <;> simp_all
    · rintro ⟨hm, hn⟩
      rw [BitVec.and_or_distrib_left, hm, hn]
  unfold has
  rw [Bool.eq_iff_iff]
  simp only [beq_iff_eq, Bool.and_eq_true]
  exact key

/-- `(w & m) == m` for a one-bit mask is a bit test. -/
theorem has_twoPow (hi : i < 32) : has w (BitVec.twoPow 32 i) = bit i w := by
  unfold has bit
  rw [BitVec.and_twoPow]
  cases w.getLsbD i
  · simp only [Bool.false_eq_true, if_false, beq_eq_false_iff_ne, ne_eq]
    intro h
    have hbit := congrArg (fun v => v.getLsbD i) h
    simp [hi] at hbit
  · simp

/-! ### Frames -/

/-- The page frame a word points into. -/
def frameOf (w : Word) : Nat := w.toNat / 4096

/-- The frame number is the word shifted right by twelve. -/
theorem frameOf_eq_shift (w : Word) : frameOf w = (w >>> 12).toNat := by
  simp [frameOf, Nat.shiftRight_eq_div_pow]

/-- Frame numbers are below `2^20`. -/
theorem frameOf_lt (w : Word) : frameOf w < 1048576 := by
  unfold frameOf
  have := w.isLt
  omega

/-- Words that agree on bits 12 to 31 point into the same frame. -/
theorem frameOf_congr (h : ∀ i, 12 ≤ i → bit i v = bit i w) : frameOf v = frameOf w := by
  rw [frameOf_eq_shift, frameOf_eq_shift]
  congr 1
  refine BitVec.eq_of_getLsbD_eq fun i _ => ?_
  rw [BitVec.getLsbD_ushiftRight, BitVec.getLsbD_ushiftRight]
  exact h _ (by omega)

/-- The bits of the mask `0xFFFFF000`. -/
theorem bit_pageMask (i : Nat) : bit i 0xFFFFF000 = (decide (12 ≤ i) && decide (i < 32)) := by
  by_cases h : i < 32
  · have : ∀ i < 32, bit i 0xFFFFF000 = (decide (12 ≤ i) && decide (i < 32)) := by decide
    exact this i h
  · rw [bit_of_ge (by omega)]
    simp [h]

/-- The bits of the mask `0xFFF`. -/
theorem bit_lowMask (i : Nat) : bit i 0xFFF = decide (i < 12) := by
  by_cases h : i < 32
  · have : ∀ i < 32, bit i 0xFFF = decide (i < 12) := by decide
    exact this i h
  · rw [bit_of_ge (by omega)]
    simp only [Bool.false_eq, decide_eq_false_iff_not, not_lt]
    omega

/-- The low twelve bits of an aligned address are clear. -/
theorem bit_of_aligned (h : w.toNat % 4096 = 0) (hi : i < 12) : bit i w = false := by
  have hdvd : (2 : Nat) ^ (i + 1) ∣ w.toNat :=
    (Nat.pow_dvd_pow 2 (show i + 1 ≤ 12 by omega)).trans (Nat.dvd_of_mod_eq_zero h)
  unfold bit
  rw [BitVec.getLsbD, Nat.testBit_eq_decide_div_mod_eq, decide_eq_false_iff_not]
  obtain ⟨k, hk⟩ := hdvd
  rw [hk, Nat.pow_succ, Nat.mul_assoc, Nat.mul_div_cancel_left _ (Nat.two_pow_pos i)]
  omega

/-- Masking the flags away leaves the address of the frame. -/
theorem and_pageMask (w : Word) : w &&& (0xFFFFF000 : Word) = BitVec.ofNat 32 (frameOf w * 4096) := by
  have hshift : w &&& (0xFFFFF000 : Word) = (w >>> 12) <<< 12 := by
    refine BitVec.eq_of_getLsbD_eq fun i hi => ?_
    have hmask := bit_pageMask i
    unfold bit at hmask
    rw [BitVec.getLsbD_and, hmask, BitVec.getLsbD_shiftLeft, BitVec.getLsbD_ushiftRight]
    by_cases h : 12 ≤ i
    · rw [show 12 + (i - 12) = i by omega]
      simp [h, hi, Nat.not_lt.mpr h]
    · simp [h, Nat.lt_of_not_le h]
  rw [hshift]
  apply BitVec.eq_of_toNat_eq
  unfold frameOf
  rw [BitVec.toNat_shiftLeft, BitVec.toNat_ushiftRight, BitVec.toNat_ofNat,
    Nat.shiftRight_eq_div_pow, Nat.shiftLeft_eq]

/-! ### One address after another -/

/-- The next address. -/
theorem toNat_add_one (h : w.toNat + 1 < 4294967296) : (w + 1).toNat = w.toNat + 1 := by
  rw [BitVec.toNat_add, show (1 : Word).toNat = 1 from rfl]
  omega

/-- The address before. -/
theorem toNat_sub_one (h : 0 < w.toNat) : (w - 1).toNat = w.toNat - 1 := by
  have := w.isLt
  rw [BitVec.toNat_sub, show (1 : Word).toNat = 1 from rfl]
  omega

/-- Addresses in a row. -/
theorem add_ofNat_succ (w : Word) (k : Nat) : w + BitVec.ofNat 32 (k + 1) = w + 1 + BitVec.ofNat 32 k := by
  rw [Nat.add_comm, BitVec.ofNat_add, BitVec.add_assoc]
  rfl

/-- The address of a frame points into it. -/
theorem frameOf_ofNat {f : Nat} (h : f < 1048576) : frameOf (BitVec.ofNat 32 (f * 4096)) = f := by
  unfold frameOf
  rw [BitVec.toNat_ofNat]
  omega

end AgenticOs.Lib
