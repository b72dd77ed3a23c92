import Mathlib.Order.Defs.Unbundled

/-!
# Programs that change a state and may fail

`StM ε σ α` is a computation on a state `σ` that ends with a value or an error and leaves a state either way,
as a C function that returns a status does.

* **Simulation** (`Runs R x v r v'`): `R` relates states to abstract values, and from every state related to
  `v` the computation ends with `r` in a state related to `v'`. The rules follow the way programs are written,
  so that a proof about a function is the sequence of the specifications of its calls (`Runs.bind`,
  `Runs.bind_error`, `Runs.attempt`); what follows a look at the state is proved for any state with the same
  abstract value (`Runs.get_bind`).
* **Frames** (`Within R x`): a computation stays within a relation whatever its result. For a preorder this
  goes through a sequence (`Within.bind`), and a check before the rest changes nothing (`Within.check`).
* **Results** (`Returns P x`): what a computation returns, if it returns, has a property; what a check finds
  is known in what follows (`Returns.check`).

`attempt` runs a computation for its result, error or not: this is `status = f(...)` where the status is
looked at.
-/

namespace AgenticOs.Lib

/-- A computation with a state and errors; an error keeps the state reached. -/
def StM (ε σ α : Type) := σ → Except ε α × σ

instance {ε σ : Type} : Monad (StM ε σ) where
  pure a := fun s => (.ok a, s)
  bind x f := fun s =>
    match x s with
    | (.ok a, s) => f a s
    | (.error e, s) => (.error e, s)

namespace StM

variable {ε σ α β ν : Type}

/-- Ends with an error. -/
def fail (e : ε) : StM ε σ α := fun s => (.error e, s)

/-- The state. -/
def get : StM ε σ σ := fun s => (.ok s, s)

/-- Changes the state. -/
def modify (f : σ → σ) : StM ε σ Unit := fun s => (.ok (), f s)

/-- Runs a computation for its result, error or not. -/
def attempt (x : StM ε σ α) : StM ε σ (Except ε α) := fun s => (.ok (x s).1, (x s).2)

/-- A call that succeeds, and what follows it. -/
theorem bind_ok {x : StM ε σ α} {f : α → StM ε σ β} {s s' : σ} {a : α} (h : x s = (.ok a, s')) :
    (x >>= f) s = f a s' := by
  show (match x s with
    | (.ok a, s) => f a s
    | (.error e, s) => (.error e, s)) = _
  rw [h]

/-- A call that fails, and nothing else. -/
theorem bind_error {x : StM ε σ α} {f : α → StM ε σ β} {s s' : σ} {e : ε}
    (h : x s = (.error e, s')) : (x >>= f) s = (.error e, s') := by
  show (match x s with
    | (.ok a, s) => f a s
    | (.error e, s) => (.error e, s)) = _
  rw [h]

/-- A pure continuation does not fail. -/
theorem error_of_bind_pure {x : StM ε σ α} {f : α → β} {s s' : σ} {e : ε}
    (h : (x >>= fun a => (pure (f a) : StM ε σ β)) s = (.error e, s')) : x s = (.error e, s') := by
  rcases hx : x s with ⟨e' | a, s''⟩
  · rw [bind_error hx] at h
    cases h
    rfl
  · rw [bind_ok hx] at h
    cases h

instance : LawfulMonad (StM ε σ) := by
  refine LawfulMonad.mk' _ (fun x => ?_) (fun _ _ => rfl) fun x f g => ?_
  · funext s
    show (match x s with
      | (.ok a, s) => (Except.ok a, s)
      | (.error e, s) => (.error e, s)) = x s
    rcases x s with ⟨_ | _, _⟩ <;> rfl
  · funext s
    rcases hx : x s with ⟨e | a, s'⟩
    · rw [bind_error hx, bind_error (bind_error hx)]
    · rw [bind_ok hx]
      rcases hf : f a s' with ⟨e | b, s''⟩
      · rw [bind_error hf, bind_error ((bind_ok hx).trans hf)]
      · rw [bind_ok hf, bind_ok ((bind_ok hx).trans hf)]

/-- Nothing follows an error. -/
theorem fail_bind {f : α → StM ε σ β} (e : ε) : (fail e : StM ε σ α) >>= f = fail e := rfl

/-- A look at the state, and what follows it. -/
theorem run_get_bind {f : σ → StM ε σ β} (s : σ) : (get >>= f) s = f s s := rfl

/-- A change of the state, and what follows it. -/
theorem run_modify_bind {g : σ → σ} {f : Unit → StM ε σ β} (s : σ) :
    (modify g >>= f) s = f () (g s) := rfl

/-- A look at a result, and what follows it. -/
theorem run_attempt_bind {x : StM ε σ α} {f : Except ε α → StM ε σ β} (s : σ) :
    (attempt x >>= f) s = f (x s).1 (x s).2 := rfl

/-- Looking at a result does not fail. -/
theorem attempt_run {x : StM ε σ α} {s s' : σ} {r : Except ε α} (h : x s = (r, s')) :
    attempt x s = (.ok r, s') := by
  unfold attempt
  rw [h]

/-- From every state related to `v`, `x` ends with `r` in a state related to `v'`. -/
def Runs (R : σ → ν → Prop) (x : StM ε σ α) (v : ν) (r : Except ε α) (v' : ν) : Prop :=
  ∀ s, R s v → ∃ s', x s = (r, s') ∧ R s' v'

namespace Runs

variable {R : σ → ν → Prop} {x : StM ε σ α} {f : α → StM ε σ β} {v v' w : ν} {a : α} {e : ε}
  {r : Except ε β}

/-- A value. -/
theorem pure (a : α) : Runs R (Pure.pure a : StM ε σ α) v (.ok a) v := fun s hs => ⟨s, rfl, hs⟩

/-- An error. -/
theorem fail (e : ε) : Runs R (StM.fail e : StM ε σ α) v (.error e) v := fun s hs => ⟨s, rfl, hs⟩

/-- A call that succeeds, and what follows. -/
theorem bind (hx : Runs R x v (.ok a) v') (hf : Runs R (f a) v' r w) :
    Runs R (x >>= f) v r w := by
  intro s hs
  obtain ⟨s', hrun, hs'⟩ := hx s hs
  obtain ⟨s'', hrun', hs''⟩ := hf s' hs'
  exact ⟨s'', (bind_ok hrun).trans hrun', hs''⟩

/-- A call that fails ends the computation. -/
theorem bind_error (hx : Runs R x v (.error e) v') : Runs R (x >>= f) v (.error e) v' := by
  intro s hs
  obtain ⟨s', hrun, hs'⟩ := hx s hs
  exact ⟨s', StM.bind_error hrun, hs'⟩

/-- What follows a look at the state, for any state with the same abstract value. -/
theorem get_bind {g : σ → StM ε σ β} (h : ∀ s, R s v → Runs R (g s) v r w) :
    Runs R (StM.get >>= g) v r w := by
  intro s hs
  exact h s hs s hs

/-- A change of the state that matches a change of the abstract value. -/
theorem modify {g : σ → σ} (h : ∀ s, R s v → R (g s) v') :
    Runs R (StM.modify g : StM ε σ Unit) v (.ok ()) v' := fun s hs => ⟨g s, rfl, h s hs⟩

/-- Looking at the result of a call. -/
theorem attempt {r : Except ε α} (hx : Runs R x v r v') : Runs R (StM.attempt x) v (.ok r) v' := by
  intro s hs
  obtain ⟨s', hrun, hs'⟩ := hx s hs
  exact ⟨s', attempt_run hrun, hs'⟩

/-- Computations that agree on the related states. -/
theorem of_eq {y : StM ε σ α} {r : Except ε α} (hx : Runs R x v r v')
    (h : ∀ s, R s v → y s = x s) : Runs R y v r v' := by
  intro s hs
  rw [h s hs]
  exact hx s hs

end Runs

/-- Whatever its result, a computation stays within a relation. -/
def Within (R : σ → σ → Prop) (x : StM ε σ α) : Prop := ∀ s, R s (x s).2

namespace Within

variable {R : σ → σ → Prop} {x : StM ε σ α} {f : α → StM ε σ β}

/-- A change of the state that stays within the relation. -/
theorem modify {g : σ → σ} (h : ∀ s, R s (g s)) : Within R (StM.modify g : StM ε σ Unit) := h

/-- Looking at a result changes nothing more. -/
theorem attempt (hx : Within R x) : Within R (StM.attempt x) := hx

/-- What follows a look at the state, whatever the state is. -/
theorem get_bind {g : σ → StM ε σ β} (h : ∀ s, Within R (g s)) : Within R (StM.get >>= g) :=
  fun s => h s s

/-- Both branches stay within the relation. -/
theorem ite {c : Prop} [Decidable c] {y : StM ε σ α} (hx : Within R x) (hy : Within R y) :
    Within R (if c then x else y) := by
  split
  · exact hx
  · exact hy

variable [IsPreorder σ R]

/-- A value changes nothing. -/
theorem pure (a : α) : Within R (Pure.pure a : StM ε σ α) := refl_of R

/-- An error changes nothing. -/
theorem fail (e : ε) : Within R (StM.fail e : StM ε σ α) := refl_of R

/-- A call, and what follows it. -/
theorem bind (hx : Within R x) (hf : ∀ a, Within R (f a)) : Within R (x >>= f) := by
  intro s
  have h := hx s
  rcases hrun : x s with ⟨e | a, s'⟩
  · rw [bind_error hrun]
    rw [hrun] at h
    exact h
  · rw [bind_ok hrun]
    rw [hrun] at h
    exact trans_of R h (hf a s')

/-- What follows a call stays within the relation from where the call ends. -/
theorem after (hf : ∀ a, Within R (f a)) (s : σ) : R (x s).2 ((x >>= f) s).2 := by
  rcases hrun : x s with ⟨e | a, s'⟩
  · rw [bind_error hrun]
    exact refl_of R s'
  · rw [bind_ok hrun]
    exact hf a s'

/-- A check before the rest. -/
theorem check {c : Prop} [Decidable c] {e : ε} {g : α → StM ε σ β} {y : StM ε σ β}
    (hy : Within R y) : Within R (if c then StM.fail e >>= g else y) := by
  intro s
  split
  · exact refl_of R s
  · exact hy s

end Within

/-- What a computation returns, if it returns, has a property. -/
def Returns (P : α → Prop) (x : StM ε σ α) : Prop := ∀ s a, (x s).1 = .ok a → P a

namespace Returns

variable {P : α → Prop} {Q : β → Prop} {x y : StM ε σ α} {f : α → StM ε σ β}

/-- A value with the property. -/
theorem pure {a : α} (h : P a) : Returns P (Pure.pure a : StM ε σ α) := fun _ _ ha => Except.ok.inj ha ▸ h

/-- An error returns nothing. -/
theorem fail (e : ε) : Returns P (StM.fail e : StM ε σ α) := fun _ _ => nofun

/-- Both branches return such a value; each may use its condition. -/
theorem ite {c : Prop} [Decidable c] (hx : c → Returns P x) (hy : ¬c → Returns P y) :
    Returns P (if c then x else y) := by
  split
  · exact hx ‹_›
  · exact hy ‹_›

/-- A computation of which something is known, and then another. -/
theorem seq (hx : Returns P x) (hf : ∀ a, P a → Returns Q (f a)) : Returns Q (x >>= f) := by
  intro s b hb
  rcases hrun : x s with ⟨e | a, s'⟩
  · rw [bind_error hrun] at hb
    cases hb
  · rw [bind_ok hrun] at hb
    exact hf a (hx s a (by rw [hrun])) s' b hb

/-- What is returned in the end has the property, whatever the call returns. -/
theorem bind (hf : ∀ a, Returns Q (f a)) : Returns Q (x >>= f) :=
  seq (P := fun _ => True) (fun _ _ _ => trivial) fun a _ => hf a

/-- A check before the rest. -/
theorem check {c : Prop} [Decidable c] {e : ε} {g : β → StM ε σ α} (hy : Returns P y) :
    Returns P (if c then StM.fail e >>= g else y) := by
  split
  · exact fail_bind (f := g) e ▸ fail e
  · exact hy

end Returns

end StM

end AgenticOs.Lib
