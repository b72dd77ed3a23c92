import AgenticOs.Lib.StateError

/-!
# What a computation adds to a log

A state has a log to which computations add entries at the front. `Adds` says that all entries a computation
adds satisfy a predicate, whatever its result.

* **Values** (`Adds.pure`) add nothing.
* **Sequences** (`Adds.bind`): what follows a call that succeeds adds to what the call has added; after a call
  that fails nothing follows.
* **Changes of the state** (`bind_pure_state`): what follows a call that neither fails nor changes the state.

The log is any projection of the state to a list.
-/

namespace AgenticOs.Lib.StM

variable {ε σ α β τ : Type}

/-- From every state, `x` only adds entries that satisfy `P` to the log. -/
def Adds (log : σ → List τ) (P : τ → Prop) (x : StM ε σ α) : Prop :=
  ∀ s, ∃ l, log (x s).2 = l ++ log s ∧ ∀ a ∈ l, P a

/-- What follows a call without changing the state. -/
theorem bind_pure_state {x : StM ε σ α} {g : α → β} (s : σ) :
    ((x >>= fun a => Pure.pure (g a)) s).2 = (x s).2 := by
  rcases hrun : x s with ⟨_ | a, s'⟩
  · rw [bind_error hrun]
  · rw [bind_ok hrun]
    rfl

namespace Adds

variable {log : σ → List τ} {P : τ → Prop} {x : StM ε σ α} {f : α → StM ε σ β}

/-- A value adds nothing. -/
theorem pure (a : α) : Adds log P (Pure.pure a : StM ε σ α) :=
  fun _ => ⟨[], rfl, fun _ h => nomatch h⟩

/-- A call, and what follows it when it succeeds. -/
theorem bind (hx : Adds log P x) (hf : ∀ a, Adds log P (f a)) : Adds log P (x >>= f) := by
  intro s
  obtain ⟨l, hl, hP⟩ := hx s
  rcases hrun : x s with ⟨_ | a, s'⟩
  · rw [bind_error hrun]
    rw [hrun] at hl
    exact ⟨l, hl, hP⟩
  · rw [hrun] at hl
    obtain ⟨l', hl', hP'⟩ := hf a s'
    rw [bind_ok hrun]
    refine ⟨l' ++ l, ?_, fun a ha => ?_⟩
    · rw [hl', hl, List.append_assoc]
    · rcases List.mem_append.mp ha with h | h
      · exact hP' a h
      · exact hP a h

end Adds

end AgenticOs.Lib.StM
