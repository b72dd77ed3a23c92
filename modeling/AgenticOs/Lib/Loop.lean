import Mathlib.Order.Defs.Unbundled

/-!
# Loops without a counter

A body gives the state of the next round, or none after the last one. `loop body fuel` runs at most `fuel`
rounds; it is `none` if the loop has not ended by then.

* **Total correctness** (`loop_total`): if every round keeps an invariant, stays within a relation and makes a
  variant smaller, the loop ends with enough fuel, in a state that meets the invariant and is related to the
  first one.
* **Partial correctness** (`loop_keeps`): what every round keeps holds whenever the loop ends.
* **Rounds** (`loop_last`, `loop_round`): the two equations, for loops whose number of rounds is known.

The relation has to be a preorder. The trivial one gives the invariant alone.
-/

namespace AgenticOs.Lib

variable {σ : Type*} {body : σ → Option σ} {s t : σ}

/-- `none`: the loop has not ended after `fuel` rounds. -/
def loop (body : σ → Option σ) : Nat → σ → Option σ
  | 0, _ => none
  | fuel + 1, s =>
    match body s with
    | none => some s
    | some t => loop body fuel t

/-- The last round. -/
theorem loop_last (h : body s = none) (fuel : Nat) : loop body (fuel + 1) s = some s := by
  unfold loop
  rw [h]

/-- Another round. -/
theorem loop_round (h : body s = some t) (fuel : Nat) :
    loop body (fuel + 1) s = loop body fuel t := by
  rw [loop, h]

/-- The rule of a loop: every round keeps the invariant `I`, stays within `R` and makes the variant
smaller. -/
theorem loop_total {I : σ → Prop} {R : σ → σ → Prop} [IsPreorder σ R] (variant : σ → Nat)
    (hbody : ∀ s t, I s → body s = some t → I t ∧ R s t ∧ variant t < variant s) (hs : I s) :
    ∃ t, (∀ fuel, variant s < fuel → loop body fuel s = some t) ∧ I t ∧ R s t ∧ body t = none := by
  induction hn : variant s using Nat.strongRecOn generalizing s with
  | ind n ih =>
    subst hn
    cases hround : body s with
    | none =>
      refine ⟨s, fun fuel hfuel => ?_, hs, refl_of R s, hround⟩
      obtain ⟨fuel, rfl⟩ := Nat.exists_eq_succ_of_ne_zero (Nat.ne_zero_of_lt hfuel)
      exact loop_last hround fuel
    | some t =>
      obtain ⟨ht, hst, hless⟩ := hbody s t hs hround
      obtain ⟨u, hends, hu, htu, hlast⟩ := ih _ hless ht rfl
      refine ⟨u, fun fuel hfuel => ?_, hu, trans_of R hst htu, hlast⟩
      obtain ⟨fuel, rfl⟩ := Nat.exists_eq_succ_of_ne_zero (Nat.ne_zero_of_lt hfuel)
      rw [loop_round hround]
      exact hends fuel (by omega)

/-- What every round keeps, whenever the loop ends. -/
theorem loop_keeps {I : σ → Prop} {R : σ → σ → Prop} [IsPreorder σ R]
    (hbody : ∀ s t, I s → body s = some t → I t ∧ R s t) {fuel : Nat} (hs : I s) (h : loop body fuel s = some t) :
    I t ∧ R s t := by
  induction fuel generalizing s with
  | zero => cases h
  | succ fuel ih =>
    cases hround : body s with
    | none =>
      rw [loop_last hround] at h
      obtain rfl := Option.some.inj h
      exact ⟨hs, refl_of R s⟩
    | some u =>
      rw [loop_round hround] at h
      obtain ⟨hu, hsu⟩ := hbody s u hs hround
      obtain ⟨ht, hut⟩ := ih hu h
      exact ⟨ht, trans_of R hsu hut⟩

end AgenticOs.Lib
