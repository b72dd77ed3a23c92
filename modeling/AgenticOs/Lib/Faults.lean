import AgenticOs.Lib.StateError

/-!
# Computations on a device that may fail

A device answers reads and writes, and a pattern fixed beforehand (`Faults`) says which of them fail. A
computation in `StM` that stops at the first failure uses up a number of reads and writes when none fails.

* **Patterns**: what is to come after some reads and writes (`Faults.after`), whether the next ones work
  (`Faults.Clear`), and the pattern of a power cut (`Faults.cutAfter`), after which no write works.
* **Specification** (`StM.Uses`): how many reads and writes the computation uses and what it does if they
  work, and what it leaves behind if one of them fails.
* **Rules**: costs add up along a sequence (`Uses.bind`), also where the result of a call is looked at before
  the error is passed on (`Uses.attempt_bind`). As with `Runs`, they follow the way programs are written.
* **Working devices** (`Uses.run`): on one that never fails, a computation runs as its specification says.

What a failure leaves behind is said of the abstract values before and at the failure, and may be weakened on
the way (`Uses.mono`).
-/

namespace AgenticOs.Lib

/-- Which of the coming reads and writes of a device fail. -/
structure Faults where
  read : Nat → Bool
  write : Nat → Bool

namespace Faults

/-- A device that works. -/
def none : Faults := ⟨fun _ => false, fun _ => false⟩

/-- A device on which all writes after the first `k` fail. -/
def cutAfter (k : Nat) : Faults := ⟨fun _ => false, fun n => decide (k ≤ n)⟩

/-- What is to come after `r` reads and `w` writes. -/
def after (f : Faults) (r w : Nat) : Faults := ⟨fun n => f.read (r + n), fun n => f.write (w + n)⟩

/-- The next `r` reads and `w` writes work. -/
def Clear (f : Faults) (r w : Nat) : Prop :=
  (∀ n < r, f.read n = false) ∧ ∀ n < w, f.write n = false

variable {f : Faults} {r r' w w' : Nat}

/-- Nothing was accessed. -/
@[simp] theorem after_zero : f.after 0 0 = f := by
  unfold after
  simp only [Nat.zero_add]

/-- Two parts of a run. -/
theorem after_after : (f.after r w).after r' w' = f.after (r + r') (w + w') := by
  unfold after
  simp only [Nat.add_assoc]

/-- A device that works goes on working. -/
@[simp] theorem none_after : none.after r w = none := rfl

/-- No access fails where there is none. -/
theorem clear_zero : f.Clear 0 0 :=
  ⟨fun _ h => absurd h (Nat.not_lt_zero _), fun _ h => absurd h (Nat.not_lt_zero _)⟩

/-- One read. -/
theorem clear_read (h : f.read 0 = false) : f.Clear 1 0 := by
  refine ⟨fun n hn => ?_, fun _ hn => absurd hn (Nat.not_lt_zero _)⟩
  obtain rfl : n = 0 := by omega
  exact h

/-- One write. -/
theorem clear_write (h : f.write 0 = false) : f.Clear 0 1 := by
  refine ⟨fun _ hn => absurd hn (Nat.not_lt_zero _), fun n hn => ?_⟩
  obtain rfl : n = 0 := by omega
  exact h

/-- A device that works. -/
theorem none_clear : none.Clear r w := ⟨fun _ _ => rfl, fun _ _ => rfl⟩

/-- Working for a while, and then for a while longer. -/
theorem clear_add : f.Clear (r + r') (w + w') ↔ f.Clear r w ∧ (f.after r w).Clear r' w' := by
  have split : ∀ (g : Nat → Bool) (a b : Nat),
      (∀ n < a + b, g n = false) ↔ (∀ n < a, g n = false) ∧ ∀ n < b, g (a + n) = false := by
    intro g a b
    constructor
    · exact fun h => ⟨fun n hn => h n (by omega), fun n hn => h (a + n) (by omega)⟩
    · rintro ⟨h1, h2⟩ n hn
      by_cases hna : n < a
      · exact h1 n hna
      · have h := h2 (n - a) (by omega)
        rw [Nat.add_sub_cancel' (by omega)] at h
        exact h
  unfold Clear
  rw [split, split]
  exact ⟨fun h => ⟨⟨h.1.1, h.2.1⟩, h.1.2, h.2.2⟩, fun h => ⟨⟨h.1.1, h.2.1⟩, h.1.2, h.2.2⟩⟩

end Faults

/-- How a state is looked at: the faults to come, the abstract value it stands for, and the error
that a failing device ends a computation with. -/
structure Observer (ε σ ν : Type) where
  faults : σ → Faults
  rel : σ → ν → Prop
  broken : ε

namespace StM

variable {ε σ α β ν : Type}

/-- From every state related to `v`, if the next `r` reads and `w` writes work then `x` uses just
these and ends with `res` in a state related to `v'`, and otherwise it ends with the error of the
device in a state whose abstract value satisfies `E`. -/
def Uses (O : Observer ε σ ν) (x : StM ε σ α) (v : ν) (r w : Nat) (res : Except ε α) (v' : ν)
    (E : ν → Prop) : Prop :=
  ∀ s, O.rel s v →
    ((O.faults s).Clear r w →
      ∃ s', x s = (res, s') ∧ O.rel s' v' ∧ O.faults s' = (O.faults s).after r w) ∧
    (¬ (O.faults s).Clear r w → ∃ s' u, x s = (.error O.broken, s') ∧ O.rel s' u ∧ E u)

namespace Uses

variable {O : Observer ε σ ν} {x : StM ε σ α} {f : α → StM ε σ β} {v v' v'' : ν} {a : α} {e : ε}
  {r m w n : Nat} {res : Except ε α} {res' : Except ε β} {E F : ν → Prop}

/-- A computation that does not touch the device. -/
theorem of_run (h : ∀ s, O.rel s v → ∃ s', x s = (res, s') ∧ O.rel s' v' ∧
    O.faults s' = O.faults s) : Uses O x v 0 0 res v' E := by
  intro s hs
  constructor
  · intro _
    rw [Faults.after_zero]
    exact h s hs
  · exact fun hc => absurd Faults.clear_zero hc

/-- A value needs no access. -/
theorem pure (a : α) : Uses O (Pure.pure a : StM ε σ α) v 0 0 (.ok a) v E :=
  of_run fun s hs => ⟨s, rfl, hs, rfl⟩

/-- Nor does an error. -/
theorem fail (e : ε) : Uses O (StM.fail e : StM ε σ α) v 0 0 (.error e) v E :=
  of_run fun s hs => ⟨s, rfl, hs, rfl⟩

/-- A change of the state that does not touch the device. -/
theorem modify {g : σ → σ} (h : ∀ s, O.rel s v → O.rel (g s) v' ∧ O.faults (g s) = O.faults s) :
    Uses O (StM.modify g : StM ε σ Unit) v 0 0 (.ok ()) v' E :=
  of_run fun s hs => ⟨g s, rfl, h s hs⟩

/-- Less is said about what a failure leaves behind. -/
theorem mono (hx : Uses O x v r w res v' E) (h : ∀ u, E u → F u) : Uses O x v r w res v' F := by
  intro s hs
  refine ⟨(hx s hs).1, fun hc => ?_⟩
  obtain ⟨s', u, hrun, hs', hu⟩ := (hx s hs).2 hc
  exact ⟨s', u, hrun, hs', h u hu⟩

/-- Costs written another way. -/
theorem cast (hx : Uses O x v r w res v' E) (hr : r = m) (hw : w = n) :
    Uses O x v m n res v' E := by
  rw [← hr, ← hw]
  exact hx

/-- A call that succeeds with a value of which `P` is known, and what follows. -/
theorem bind_value {P : α → Prop} (hx : ∀ s, O.rel s v →
      ((O.faults s).Clear r w → ∃ a s', x s = (.ok a, s') ∧ O.rel s' v' ∧
        O.faults s' = (O.faults s).after r w ∧ P a) ∧
      (¬ (O.faults s).Clear r w → ∃ s' u, x s = (.error O.broken, s') ∧ O.rel s' u ∧ E u))
    (hf : ∀ a, P a → Uses O (f a) v' m n res' v'' E) :
    Uses O (x >>= f) v (r + m) (w + n) res' v'' E := by
  intro s hs
  obtain ⟨hok, hbad⟩ := hx s hs
  rw [Faults.clear_add]
  constructor
  · rintro ⟨hc, hc'⟩
    obtain ⟨a, s', hrun, hs', hfaults, ha⟩ := hok hc
    rw [← hfaults] at hc'
    obtain ⟨s'', hrun', hs'', hfaults'⟩ := (hf a ha s' hs').1 hc'
    refine ⟨s'', (bind_ok hrun).trans hrun', hs'', ?_⟩
    rw [hfaults', hfaults, Faults.after_after]
  · intro hc
    by_cases h1 : (O.faults s).Clear r w
    · obtain ⟨a, s', hrun, hs', hfaults, ha⟩ := hok h1
      have h2 : ¬ (O.faults s').Clear m n := by
        rw [hfaults]
        exact fun h2 => hc ⟨h1, h2⟩
      obtain ⟨s'', u, hrun', hs'', hu⟩ := (hf a ha s' hs').2 h2
      exact ⟨s'', u, (bind_ok hrun).trans hrun', hs'', hu⟩
    · obtain ⟨s', u, hrun, hs', hu⟩ := hbad h1
      exact ⟨s', u, StM.bind_error hrun, hs', hu⟩

/-- A call that succeeds, and what follows. -/
theorem bind (hx : Uses O x v r w (.ok a) v' E) (hf : Uses O (f a) v' m n res' v'' E) :
    Uses O (x >>= f) v (r + m) (w + n) res' v'' E := by
  apply bind_value (P := fun b => b = a)
  · intro s hs
    refine ⟨fun hc => ?_, (hx s hs).2⟩
    obtain ⟨s', hrun, hs', hfaults⟩ := (hx s hs).1 hc
    exact ⟨a, s', hrun, hs', hfaults, rfl⟩
  · rintro b rfl
    exact hf

/-- A call that ends with an error of its own. -/
theorem bind_error (hx : Uses O x v r w (.error e) v' E) :
    Uses O (x >>= f) v r w (.error e) v' E := by
  intro s hs
  constructor
  · intro hc
    obtain ⟨s', hrun, hs', hfaults⟩ := (hx s hs).1 hc
    exact ⟨s', StM.bind_error hrun, hs', hfaults⟩
  · intro hc
    obtain ⟨s', u, hrun, hs', hu⟩ := (hx s hs).2 hc
    exact ⟨s', u, StM.bind_error hrun, hs', hu⟩

/-- What follows a look at the state, for any state with the same abstract value. -/
theorem get_bind {g : σ → StM ε σ β} (h : ∀ s, O.rel s v → Uses O (g s) v r w res' v' E) :
    Uses O (StM.get >>= g) v r w res' v' E := fun s hs => h s hs s hs

/-- Computations that agree on the related states. -/
theorem of_eq {y : StM ε σ α} (hx : Uses O x v r w res v' E) (h : ∀ s, O.rel s v → y s = x s) :
    Uses O y v r w res v' E := by
  intro s hs
  rw [h s hs]
  exact hx s hs

/-- The same where the result of the call is looked at. -/
theorem attempt_broken_after {g : Except ε α → StM ε σ β} (hx : Uses O x v r w res v' E)
    (hg : Uses O (g res) v' m n res' v'' F) {s : σ} (hs : O.rel s v)
    (hc : (O.faults s).Clear r w) (hc' : ¬ ((O.faults s).after r w).Clear m n) :
    ∃ s' u, (StM.attempt x >>= g) s = (.error O.broken, s') ∧ O.rel s' u ∧ F u := by
  obtain ⟨s', hrun, hs', hfaults⟩ := (hx s hs).1 hc
  rw [← hfaults] at hc'
  obtain ⟨s'', u, hrun', hs'', hu⟩ := (hg s' hs').2 hc'
  exact ⟨s'', u, (bind_ok (attempt_run hrun)).trans hrun', hs'', hu⟩

/-- The same where the result of the call is looked at. -/
theorem attempt_broken_first {g : Except ε α → StM ε σ β} (hx : Uses O x v r w res v' E)
    (hbroken : ∀ s, g (.error O.broken) s = (.error O.broken, s)) {s : σ} (hs : O.rel s v)
    (hc : ¬ (O.faults s).Clear r w) :
    ∃ s' u, (StM.attempt x >>= g) s = (.error O.broken, s') ∧ O.rel s' u ∧ E u := by
  obtain ⟨s', u, hrun, hs', hu⟩ := (hx s hs).2 hc
  exact ⟨s', u, (bind_ok (attempt_run hrun)).trans (hbroken s'), hs', hu⟩

/-- Looking at the result of a call, where an error of the device is passed on. -/
theorem attempt_bind {g : Except ε α → StM ε σ β} (hx : Uses O x v r w res v' E)
    (hg : Uses O (g res) v' m n res' v'' E)
    (hbroken : ∀ s, g (.error O.broken) s = (.error O.broken, s)) :
    Uses O (StM.attempt x >>= g) v (r + m) (w + n) res' v'' E := by
  intro s hs
  rw [Faults.clear_add]
  constructor
  · rintro ⟨hc, hc'⟩
    obtain ⟨s', hrun, hs', hfaults⟩ := (hx s hs).1 hc
    rw [← hfaults] at hc'
    obtain ⟨s'', hrun', hs'', hfaults'⟩ := (hg s' hs').1 hc'
    refine ⟨s'', (bind_ok (attempt_run hrun)).trans hrun', hs'', ?_⟩
    rw [hfaults', hfaults, Faults.after_after]
  · intro hc
    by_cases h1 : (O.faults s).Clear r w
    · exact hx.attempt_broken_after hg hs h1 fun h2 => hc ⟨h1, h2⟩
    · exact hx.attempt_broken_first hbroken hs h1

/-- On a device that works. -/
theorem run (hx : Uses O x v r w res v' E) {s : σ} (hs : O.rel s v) (hf : O.faults s = .none) :
    ∃ s', x s = (res, s') ∧ O.rel s' v' ∧ O.faults s' = .none := by
  obtain ⟨s', hrun, hs', hfaults⟩ := (hx s hs).1 (by rw [hf]; exact Faults.none_clear)
  refine ⟨s', hrun, hs', ?_⟩
  rw [hfaults, hf, Faults.none_after]

end Uses

end StM

end AgenticOs.Lib
