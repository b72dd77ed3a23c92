import AgenticOs.Lib.Bits
import AgenticOs.Lib.StateError
import Mathlib.Data.List.Nodup
import Mathlib.Data.List.Range

/-!
# Loops that stop at an equal word

`for (x = first;; x += step) { body; if (x == last) break; }` runs until `x` is `last`, and past it forever
when it is missed.

* **Words on the way** (`steps`): those that are at most `n` steps away. If the steps do not go around they
  are told apart (`steps_injective`), so each comes up once (`steps_nodup`).
* **Traversal** (`walk_eq_forM`): when `last` is `n` steps away it is not missed, and with enough turns the
  loop is the traversal of these words.
* **Failures** (`forM_cons_ok`, `forM_cons_error`): the traversal stops at the first body that fails.

Addresses near the end of the 32-bit space need nothing of their own: words wrap.
-/

namespace AgenticOs.Lib

variable {ε σ : Type} {first step x : Word} {n turns : Nat}

/-- The loop, for at most `turns` turns; the body can end it with an error. -/
def walk (step last : Word) (body : Word → StM ε σ Unit) : Nat → Word → σ → Option (Except ε Unit × σ)
  | 0, _, _ => none
  | turns + 1, x, s =>
    match body x s with
    | (.error e, s') => some (.error e, s')
    | (.ok _, s') => if x = last then some (.ok (), s') else walk step last body turns (x + step) s'

/-- The words that are at most `n` steps away. -/
def steps (first step : Word) (n : Nat) : List Word :=
  (List.range (n + 1)).map fun i => first + BitVec.ofNat 32 (i * step.toNat)

/-- No step leads to the first word only. -/
@[simp] theorem steps_zero : steps first step 0 = [first] := by
  simp [steps]

/-- One step more. -/
theorem steps_succ : steps first step (n + 1) = first :: steps (first + step) step n := by
  unfold steps
  rw [List.range_succ_eq_map, List.map_cons, List.map_map]
  congr 1
  · simp
  · refine List.map_congr_left fun i _ => ?_
    have hadd : BitVec.ofNat 32 ((i + 1) * step.toNat) = step + BitVec.ofNat 32 (i * step.toNat) := by
      rw [Nat.add_mul, Nat.one_mul, Nat.add_comm, BitVec.ofNat_add]
      simp
    show first + BitVec.ofNat 32 ((i + 1) * step.toNat) = _
    rw [hadd, BitVec.add_assoc]

/-- The first word is always among them. -/
theorem steps_cons (first step : Word) (n : Nat) : ∃ rest, steps first step n = first :: rest := by
  cases n with
  | zero => exact ⟨[], steps_zero⟩
  | succ n => exact ⟨_, steps_succ⟩

/-- Steps that do not go around are told apart. -/
theorem steps_injective (hstep : 0 < step.toNat) {i j : Nat} (hi : i * step.toNat < 2 ^ 32)
    (hj : j * step.toNat < 2 ^ 32)
    (h : first + BitVec.ofNat 32 (i * step.toNat) = first + BitVec.ofNat 32 (j * step.toNat)) : i = j := by
  have hnat := congrArg BitVec.toNat ((BitVec.add_right_inj first).mp h)
  rw [BitVec.toNat_ofNat, BitVec.toNat_ofNat, Nat.mod_eq_of_lt hi, Nat.mod_eq_of_lt hj] at hnat
  exact Nat.eq_of_mul_eq_mul_right hstep hnat

/-- Words that are told apart come up once. -/
theorem steps_nodup (hstep : 0 < step.toNat) (hwrap : n * step.toNat < 2 ^ 32) :
    (steps first step n).Nodup := by
  refine List.Nodup.map_on (fun i hi j hj heq => ?_) List.nodup_range
  have hbound : ∀ i ∈ List.range (n + 1), i * step.toNat < 2 ^ 32 := by
    intro i hi
    have hle := Nat.mul_le_mul_right step.toNat (Nat.lt_succ_iff.mp (List.mem_range.mp hi))
    omega
  exact steps_injective hstep (hbound i hi) (hbound j hj) heq

/-- A body that succeeds, and the rest of the traversal. -/
theorem forM_cons_ok {body : Word → StM ε σ Unit} {xs : List Word} {s s' : σ} {u : Unit}
    (h : body x s = (.ok u, s')) : (x :: xs).forM body s = xs.forM body s' := StM.bind_ok h

/-- A body that fails ends the traversal. -/
theorem forM_cons_error {body : Word → StM ε σ Unit} {xs : List Word} {s s' : σ} {e : ε}
    (h : body x s = (.error e, s')) : (x :: xs).forM body s = (.error e, s') := StM.bind_error h

/-- A loop whose last word is `n` steps away is the traversal of the steps. -/
theorem walk_eq_forM (body : Word → StM ε σ Unit) (hstep : 0 < step.toNat)
    (hwrap : n * step.toNat < 2 ^ 32) (hturns : n < turns) (s : σ) :
    walk step (first + BitVec.ofNat 32 (n * step.toNat)) body turns first s =
      some ((steps first step n).forM body s) := by
  induction n generalizing first turns s with
  | zero =>
    obtain ⟨turns, rfl⟩ := Nat.exists_eq_succ_of_ne_zero (Nat.pos_iff_ne_zero.mp hturns)
    rw [walk, steps_zero]
    rcases hbody : body first s with ⟨e | _, s'⟩
    · exact congrArg some (forM_cons_error hbody).symm
    · have hdone : [first].forM body s = (.ok (), s') := forM_cons_ok hbody
      simp [hdone]
  | succ n ih =>
    obtain ⟨turns, rfl⟩ := Nat.exists_eq_succ_of_ne_zero (Nat.pos_iff_ne_zero.mp (Nat.zero_lt_of_lt hturns))
    have hnext : first ≠ first + BitVec.ofNat 32 ((n + 1) * step.toNat) := by
      intro heq
      have hzero := @steps_injective first step hstep 0 (n + 1) (by omega) hwrap (by simpa using heq)
      omega
    have hlast : first + BitVec.ofNat 32 ((n + 1) * step.toNat) =
        first + step + BitVec.ofNat 32 (n * step.toNat) := by
      rw [Nat.add_mul, Nat.one_mul, Nat.add_comm, BitVec.ofNat_add, BitVec.add_assoc]
      simp
    rw [walk, steps_succ]
    rcases hbody : body first s with ⟨e | _, s'⟩
    · exact congrArg some (forM_cons_error hbody).symm
    · dsimp only
      rw [if_neg hnext, hlast, ih (by rw [Nat.add_mul] at hwrap; omega) (by omega)]
      exact congrArg some (forM_cons_ok hbody).symm

end AgenticOs.Lib
