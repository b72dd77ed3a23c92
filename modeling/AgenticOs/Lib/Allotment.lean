import Mathlib.Data.Fintype.Card
import Mathlib.Logic.Function.Basic

/-!
# Things handed out to holders

Each holder has one thing or none. The things have numbers; a table says which numbers are free.

* **Exactness** (`Allotted`): no thing has two holders, and the free numbers are those without a holder. It
  holds where nothing has been handed out (`Allotted.init`).
* **Moves**: handing a free thing to a holder that has none (`Allotted.give`) and taking it back
  (`Allotted.takeBack`) keep it.
* **Counting**: the number of holders that have something (`occupied`) goes up and down with these moves
  (`occupied_give`, `occupied_takeBack`). With fewer of them than things, a thing is free
  (`Allotted.exists_free`), and with fewer of them than holders, somebody has none
  (`exists_none_of_occupied_lt`).

So an allocator that keeps such a table fails for lack of things only.
-/

namespace AgenticOs.Lib

open Function

variable {ι κ τ : Type*}

/-- Every holder has a thing of its own, and the free things are those without a holder. -/
structure Allotted (base : κ → τ) (holder : ι → Option τ) (free : κ → Bool) : Prop where
  owned : ∀ p t, holder p = some t → ∃ i, t = base i
  distinct : ∀ p q t, holder p = some t → holder q = some t → p = q
  free_iff : ∀ i, free i = true ↔ ∀ p, holder p ≠ some (base i)

variable {base : κ → τ} {holder : ι → Option τ} {free : κ → Bool}

namespace Allotted

/-- Nobody holds a thing. -/
theorem init : Allotted base (fun _ : ι => none) fun _ => true where
  owned := nofun
  distinct := nofun
  free_iff := fun _ => iff_of_true rfl nofun

variable [DecidableEq ι] [DecidableEq κ]

/-- A free thing is handed to a holder that has none. -/
theorem give (h : Allotted base holder free) (hinj : Injective base) {p : ι} {i : κ}
    (hp : holder p = none) (hi : free i = true) :
    Allotted base (update holder p (some (base i))) (update free i false) where
  owned := by
    intro q t hq
    by_cases hqp : q = p
    · subst hqp
      rw [update_self, Option.some_inj] at hq
      exact ⟨i, hq.symm⟩
    · rw [update_of_ne hqp] at hq
      exact h.owned q t hq
  distinct := by
    have hnew := (h.free_iff i).mp hi
    intro q r t hq hr
    by_cases hqp : q = p <;> by_cases hrp : r = p
    · exact hqp.trans hrp.symm
    · subst hqp
      rw [update_self, Option.some_inj] at hq
      rw [update_of_ne hrp, ← hq] at hr
      exact absurd hr (hnew r)
    · subst hrp
      rw [update_self, Option.some_inj] at hr
      rw [update_of_ne hqp, ← hr] at hq
      exact absurd hq (hnew q)
    · rw [update_of_ne hqp] at hq
      rw [update_of_ne hrp] at hr
      exact h.distinct q r t hq hr
  free_iff := by
    intro j
    by_cases hj : j = i
    · subst hj
      refine iff_of_false (by simp) fun hall => hall p ?_
      rw [update_self]
    · rw [update_of_ne hj, h.free_iff j]
      refine forall_congr' fun q => ?_
      by_cases hq : q = p
      · subst hq
        rw [update_self, hp]
        have : base i ≠ base j := fun hb => hj (hinj hb).symm
        simp [this]
      · rw [update_of_ne hq]

/-- A thing is taken back from its holder. -/
theorem takeBack (h : Allotted base holder free) (hinj : Injective base) {p : ι} {i : κ}
    (hp : holder p = some (base i)) :
    Allotted base (update holder p none) (update free i true) where
  owned := by
    intro q t hq
    by_cases hqp : q = p
    · subst hqp
      rw [update_self] at hq
      cases hq
    · rw [update_of_ne hqp] at hq
      exact h.owned q t hq
  distinct := by
    intro q r t hq hr
    by_cases hqp : q = p
    · subst hqp
      rw [update_self] at hq
      cases hq
    by_cases hrp : r = p
    · subst hrp
      rw [update_self] at hr
      cases hr
    rw [update_of_ne hqp] at hq
    rw [update_of_ne hrp] at hr
    exact h.distinct q r t hq hr
  free_iff := by
    intro j
    by_cases hj : j = i
    · subst hj
      rw [update_self]
      refine iff_of_true rfl fun q hq => ?_
      by_cases hqp : q = p
      · subst hqp
        rw [update_self] at hq
        cases hq
      · rw [update_of_ne hqp] at hq
        exact hqp (h.distinct q p _ hq hp)
    · rw [update_of_ne hj, h.free_iff j]
      refine forall_congr' fun q => ?_
      by_cases hq : q = p
      · subst hq
        rw [update_self, hp]
        have : base i ≠ base j := fun hb => hj (hinj hb).symm
        simp [this]
      · rw [update_of_ne hq]

end Allotted

/-! ### Counting the holders -/

variable [Fintype ι] [DecidableEq ι]

/-- The number of holders that have something. -/
def occupied (holder : ι → Option τ) : Nat := (Finset.univ.filter fun p => (holder p).isSome).card

/-- One holder more. -/
theorem occupied_give {p : ι} (hp : holder p = none) (t : τ) :
    occupied (update holder p (some t)) = occupied holder + 1 := by
  have heq : (Finset.univ.filter fun q => (update holder p (some t) q).isSome) =
      insert p (Finset.univ.filter fun q => (holder q).isSome) := by
    ext q
    by_cases hq : q = p
    · subst hq
      simp
    · simp [hq]
  unfold occupied
  rw [heq, Finset.card_insert_of_notMem (by simp [hp])]

/-- One holder less. -/
theorem occupied_takeBack {p : ι} {t : τ} (hp : holder p = some t) :
    occupied (update holder p none) = occupied holder - 1 := by
  have hnone : update holder p none p = none := update_self p none holder
  have := occupied_give hnone t
  rw [update_idem, ← hp, update_eq_self] at this
  omega

/-- With fewer holders than things, a thing is free. -/
theorem Allotted.exists_free [Fintype κ] [DecidableEq τ] (h : Allotted base holder free)
    (hinj : Injective base) (hlt : occupied holder < Fintype.card κ) : ∃ i, free i = true := by
  by_contra hnone
  push Not at hnone
  -- every thing has a holder, so there are as many holders as things
  have hheld : ∀ i, ∃ p, holder p = some (base i) := by
    intro i
    by_contra hi
    push Not at hi
    exact hnone i ((h.free_iff i).mpr hi)
  choose f hf using hheld
  have hfinj : Injective f := by
    intro i j hij
    have hi := hf i
    rw [hij, hf j, Option.some_inj] at hi
    exact hinj hi.symm
  have hsub : Finset.univ.image f ⊆ Finset.univ.filter fun p => (holder p).isSome := by
    intro p hp
    obtain ⟨i, -, rfl⟩ := Finset.mem_image.mp hp
    simp [hf i]
  have hcard := Finset.card_le_card hsub
  rw [Finset.card_image_of_injective _ hfinj, Finset.card_univ] at hcard
  unfold occupied at hlt
  omega

omit [DecidableEq ι] in
/-- Not all have something, if there are fewer than all. -/
theorem exists_none_of_occupied_lt (hlt : occupied holder < Fintype.card ι) : ∃ p, holder p = none := by
  by_contra hnone
  push Not at hnone
  have heq : (Finset.univ.filter fun p => (holder p).isSome) = Finset.univ :=
    Finset.filter_true_of_mem fun p _ => Option.isSome_iff_ne_none.mpr (hnone p)
  unfold occupied at hlt
  rw [heq, Finset.card_univ] at hlt
  omega

end AgenticOs.Lib
