import Mathlib.Order.Defs.Unbundled

/-!
# Programs that change a state

`StateM σ α` computes a value and changes a state. Nothing here is about any particular state.

* **Equations** (`run_bind`, `run_get`, `run_modify`, `run_ite`) run a program step by step. They are in the simp set.
* **Triples**: `Triple P x Q` says that `x`, run from a state that meets `P`, ends in a state and with a value that meet
  `Q`. There is one rule for each way a program is built (`Triple.pure`, `Triple.bind`, `Triple.modify`), and the rule
  of consequence (`Triple.mono`).
* **Invariants**: `Keeps I x` is the triple of an invariant. What follows a look at the state may use the invariant of
  that state (`Keeps.get_bind`), and a loop over a list keeps what its rounds keep (`Keeps.forM`).
* **Relations**: `Rel R x` relates the states before and after. Values and binds need a preorder (`Rel.pure`,
  `Rel.bind`); for one that says what stays the same, this is a frame condition. A program that stays within a relation
  keeps what the relation keeps (`Rel.keeps`).
-/

namespace AgenticOs.Lib

variable {σ α β : Type}

/-- An `if` without `else`. -/
def runIf (c : Prop) [Decidable c] (x : StateM σ PUnit) : StateM σ PUnit := if c then x else pure ⟨⟩

/-! ### Running a program -/

/-- A value. -/
@[simp] theorem run_pure (a : α) (s : σ) : (pure a : StateM σ α) s = (a, s) := rfl

/-- One program after another. -/
@[simp] theorem run_bind (x : StateM σ α) (f : α → StateM σ β) (s : σ) :
    (x >>= f) s = f (x s).1 (x s).2 := rfl

/-- The state is looked at. -/
@[simp] theorem run_get (s : σ) : (get : StateM σ σ) s = (s, s) := rfl

/-- The state is changed. -/
@[simp] theorem run_modify (f : σ → σ) (s : σ) : (modify f : StateM σ PUnit) s = (⟨⟩, f s) := rfl

/-- The state is changed, with a value. -/
@[simp] theorem run_modifyGet (f : σ → α × σ) (s : σ) : (modifyGet f : StateM σ α) s = f s := rfl

/-- A choice is made before the run. -/
@[simp] theorem run_ite (c : Prop) [Decidable c] (x y : StateM σ α) (s : σ) :
    (if c then x else y) s = if c then x s else y s := by
  split <;> rfl

/-- The state stays, unless the condition holds. -/
@[simp] theorem run_runIf (c : Prop) [Decidable c] (x : StateM σ PUnit) (s : σ) :
    runIf c x s = if c then x s else (⟨⟩, s) := run_ite c x (pure ⟨⟩) s

/-- The first round of a loop. -/
theorem run_forM_cons {γ : Type} (a : γ) (l : List γ) (f : γ → StateM σ PUnit) (s : σ) :
    (a :: l).forM f s = l.forM f (f a s).2 := rfl

/-! ### Triples -/

/-- From every state that meets `P`, the run ends in a state and with a value that meet `Q`. -/
def Triple (P : σ → Prop) (x : StateM σ α) (Q : α → σ → Prop) : Prop :=
  ∀ s, P s → Q (x s).1 (x s).2

/-- An invariant. -/
def Keeps (I : σ → Prop) (x : StateM σ α) : Prop := ∀ s, I s → I (x s).2

/-- A relation between the states before and after. -/
def Rel (R : σ → σ → Prop) (x : StateM σ α) : Prop := ∀ s, R s (x s).2

namespace Triple

variable {P P' : σ → Prop} {Q Q' : α → σ → Prop} {U : β → σ → Prop} {x : StateM σ α}
  {f : α → StateM σ β}

/-- The postcondition of a value is that of the state as it is. -/
theorem pure {a : α} (h : ∀ s, P s → Q a s) : Triple P (Pure.pure a) Q := h

/-- The postcondition of the first program is the precondition of the second. -/
theorem bind (hx : Triple P x Q) (hf : ∀ a, Triple (Q a) (f a) U) : Triple P (x >>= f) U :=
  fun s hs => hf _ _ (hx s hs)

/-- The postcondition is met by the state that is changed to. -/
theorem modify {g : σ → σ} {V : PUnit → σ → Prop} (h : ∀ s, P s → V ⟨⟩ (g s)) :
    Triple P (modify g : StateM σ PUnit) V := h

/-- The rule of consequence. -/
theorem mono (hx : Triple P x Q) (hP : ∀ s, P' s → P s) (hQ : ∀ a s, Q a s → Q' a s) :
    Triple P' x Q' := fun s hs => hQ _ _ (hx s (hP s hs))

end Triple

namespace Keeps

variable {I : σ → Prop} {x : StateM σ α} {f : α → StateM σ β}

/-- A value. -/
theorem pure {a : α} : Keeps I (Pure.pure a : StateM σ α) := fun _ h => h

/-- One program after another. -/
theorem bind (hx : Keeps I x) (hf : ∀ a, Keeps I (f a)) : Keeps I (x >>= f) :=
  fun s hs => hf _ _ (hx s hs)

/-- What follows a look at the state may use the invariant of that state. -/
theorem get_bind {f : σ → StateM σ β} (h : ∀ s, I s → I (f s s).2) :
    Keeps I (MonadState.get >>= f) := h

/-- A change that keeps the invariant. -/
theorem modify {g : σ → σ} (h : ∀ s, I s → I (g s)) : Keeps I (modify g : StateM σ PUnit) := h

/-- Either of two programs. -/
theorem ite {c : Prop} [Decidable c] {x y : StateM σ α} (hx : Keeps I x) (hy : Keeps I y) :
    Keeps I (if c then x else y) := by
  split
  · exact hx
  · exact hy

/-- A loop over a list. -/
theorem forM {γ : Type} {l : List γ} {f : γ → StateM σ PUnit} (h : ∀ a ∈ l, Keeps I (f a)) :
    Keeps I (l.forM f) := by
  induction l with
  | nil => exact pure
  | cons a l ih =>
    show Keeps I (f a >>= fun _ => l.forM f)
    exact bind (h a List.mem_cons_self) fun _ => ih fun b hb => h b (List.mem_cons_of_mem _ hb)

end Keeps

namespace Rel

variable {R : σ → σ → Prop} {x : StateM σ α} {f : α → StateM σ β}

/-- A look at the state. -/
theorem get_bind {f : σ → StateM σ β} (h : ∀ s, Rel R (f s)) : Rel R (MonadState.get >>= f) :=
  fun s => h s s

/-- A change that stays within the relation. -/
theorem modify {g : σ → σ} (h : ∀ s, R s (g s)) : Rel R (modify g : StateM σ PUnit) := h

/-- Either of two programs. -/
theorem ite {c : Prop} [Decidable c] {x y : StateM σ α} (hx : Rel R x) (hy : Rel R y) :
    Rel R (if c then x else y) := by
  split
  · exact hx
  · exact hy

/-- A program that stays within a relation keeps what the relation keeps. -/
theorem keeps {I : σ → Prop} (hx : Rel R x) (h : ∀ s t, R s t → I s → I t) : Keeps I x :=
  fun s hs => h _ _ (hx s) hs

variable [IsPreorder σ R]

/-- A value: the relation is reflexive. -/
theorem pure (a : α) : Rel R (Pure.pure a : StateM σ α) := refl_of R

/-- One program after another: the relation is transitive. -/
theorem bind (hx : Rel R x) (hf : ∀ a, Rel R (f a)) : Rel R (x >>= f) :=
  fun s => trans_of R (hx s) (hf _ _)

/-- A program that is run on a condition. -/
theorem runIf {c : Prop} [Decidable c] {x : StateM σ PUnit} (hx : Rel R x) : Rel R (runIf c x) :=
  ite hx (pure _)

/-- A loop over a list. -/
theorem forM {γ : Type} {l : List γ} {f : γ → StateM σ PUnit} (h : ∀ a ∈ l, Rel R (f a)) :
    Rel R (l.forM f) := by
  induction l with
  | nil => exact pure _
  | cons a l ih =>
    show Rel R (f a >>= fun _ => l.forM f)
    exact bind (h a List.mem_cons_self) fun _ => ih fun b hb => h b (List.mem_cons_of_mem _ hb)

end Rel

end AgenticOs.Lib
