import Mathlib.Data.Finset.Card
import Mathlib.Data.Finset.Prod
import Mathlib.Logic.Equiv.Basic
import Mathlib.Logic.Function.Basic

/-!
# Reference ledgers

A *ledger* is a finite set `U` of slots, each holding at most one resource: `held : ι → Option κ`.
The number of slots of `U` that hold `k` is `holders U held k`. A reference count of `k` is exact
for the ledger when it equals that number.

The three moves a reference-counting system makes are `update held o (some k)` at an empty slot
(acquire), `update held o none` at a full one (release), and overwriting a slot by the resource it
already holds (no change). `holders_acquire` and `holders_release` say what the first two do to
every count at once, so an exactness proof never counts a set again.

Nothing here names a program: `ι` and `κ` are arbitrary types with decidable equality.
-/

set_option linter.unusedSectionVars false

namespace AgenticOs.Lib

open Finset Function

variable {ι κ : Type*} [DecidableEq ι] [DecidableEq κ]

/-- The number of slots of `U` that hold `k`. -/
def holders (U : Finset ι) (held : ι → Option κ) (k : κ) : ℕ :=
  (U.filter fun o => held o = some k).card

variable {U : Finset ι} {held held' : ι → Option κ} {o : ι} {k l : κ}

/-- Counts depend on the slots of `U` only. -/
theorem holders_congr (h : ∀ o ∈ U, held o = held' o) : holders U held k = holders U held' k := by
  unfold holders
  congr 1
  refine Finset.filter_congr fun o ho => ?_
  rw [h o ho]

/-- Nothing is held iff no slot holds it. -/
theorem holders_eq_zero_iff : holders U held k = 0 ↔ ∀ o ∈ U, held o ≠ some k := by
  unfold holders
  rw [Finset.card_eq_zero, Finset.filter_eq_empty_iff]

/-- A resource with a holder has a positive count. -/
theorem holders_pos_iff : 0 < holders U held k ↔ ∃ o ∈ U, held o = some k := by
  unfold holders
  rw [Finset.card_pos]
  constructor
  · rintro ⟨o, ho⟩
    exact ⟨o, (Finset.mem_filter.mp ho).1, (Finset.mem_filter.mp ho).2⟩
  · rintro ⟨o, ho, hk⟩
    exact ⟨o, Finset.mem_filter.mpr ⟨ho, hk⟩⟩

/-- Slots that copy at most double a count: each new holder is the copy `copy o` of an old one. -/
theorem holders_le_of_copies (copy : ι → ι)
    (h : ∀ o ∈ U, held' o = some k → held o = some k ∨ ∃ p ∈ U, held p = some k ∧ copy p = o) :
    holders U held' k ≤ 2 * holders U held k := by
  have hsub : U.filter (fun o => held' o = some k) ⊆
      U.filter (fun o => held o = some k) ∪ (U.filter fun o => held o = some k).image copy := by
    intro o ho
    obtain ⟨hmem, hk⟩ := Finset.mem_filter.mp ho
    rcases h o hmem hk with hold | ⟨p, hp, hpk, rfl⟩
    · exact Finset.mem_union_left _ (Finset.mem_filter.mpr ⟨hmem, hold⟩)
    · exact Finset.mem_union_right _ (Finset.mem_image_of_mem copy (Finset.mem_filter.mpr ⟨hp, hpk⟩))
  calc holders U held' k
      ≤ (U.filter fun o => held o = some k).card + ((U.filter fun o => held o = some k).image copy).card :=
        (Finset.card_le_card hsub).trans (Finset.card_union_le ..)
    _ ≤ holders U held k + holders U held k := Nat.add_le_add_left Finset.card_image_le _
    _ = 2 * holders U held k := (Nat.two_mul _).symm

/-- With count one, two holders are the same slot. -/
theorem eq_of_holders_eq_one {p : ι} (h : holders U held k = 1) (ho : o ∈ U) (hp : p ∈ U)
    (hk : held o = some k) (hk' : held p = some k) : o = p := by
  unfold holders at h
  obtain ⟨a, ha⟩ := Finset.card_eq_one.mp h
  have h1 : o ∈ U.filter fun o => held o = some k := Finset.mem_filter.mpr ⟨ho, hk⟩
  have h2 : p ∈ U.filter fun o => held o = some k := Finset.mem_filter.mpr ⟨hp, hk'⟩
  rw [ha, Finset.mem_singleton] at h1 h2
  rw [h1, h2]

/-- **Acquire**: filling an empty slot with `k` adds one to the count of `k` and to no other. -/
theorem holders_acquire (ho : o ∈ U) (hn : held o = none) :
    holders U (update held o (some k)) l = holders U held l + if k = l then 1 else 0 := by
  unfold holders
  by_cases hkk : k = l
  · subst hkk
    have hset : (U.filter fun x => update held o (some k) x = some k) =
        insert o (U.filter fun x => held x = some k) := by
      ext x
      by_cases hx : x = o
      · subst hx; simp [ho]
      · simp [hx]
    rw [hset, Finset.card_insert_of_notMem (by simp [hn])]
    simp
  · have hset : (U.filter fun x => update held o (some k) x = some l) =
        U.filter fun x => held x = some l := by
      ext x
      by_cases hx : x = o
      · subst hx; simp [hn, hkk]
      · simp [hx]
    rw [hset]
    simp [hkk]

/-- **Release**: emptying a slot that holds `k` takes one from the count of `k` and from no
other. -/
theorem holders_release (ho : o ∈ U) (hk : held o = some k) :
    holders U (update held o none) l + (if k = l then 1 else 0) = holders U held l := by
  have hacq : holders U (update (update held o none) o (some k)) l = _ :=
    holders_acquire ho (by simp)
  rw [update_idem, ← hk, update_eq_self] at hacq
  exact hacq.symm

/-- **Hand over**: two slots that exchange what they hold change no count. -/
theorem holders_exchange {p : ι} (ho : o ∈ U) (hp : p ∈ U) (h1 : held' o = held p)
    (h2 : held' p = held o) (h3 : ∀ x, x ≠ o → x ≠ p → held' x = held x) :
    holders U held' k = holders U held k := by
  unfold holders
  refine Finset.card_equiv (Equiv.swap o p) fun x => ?_
  rw [Finset.mem_filter, Finset.mem_filter]
  by_cases hx : x = o
  · subst hx
    rw [Equiv.swap_apply_left, h1]
    exact and_congr_left fun _ => ⟨fun _ => hp, fun _ => ho⟩
  · by_cases hx' : x = p
    · subst hx'
      rw [Equiv.swap_apply_right, h2]
      exact and_congr_left fun _ => ⟨fun _ => ho, fun _ => hp⟩
    · rw [Equiv.swap_apply_of_ne_of_ne hx hx', h3 x hx hx']

end AgenticOs.Lib
