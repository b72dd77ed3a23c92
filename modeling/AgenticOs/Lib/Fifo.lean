import Mathlib.Data.List.Basic
import Mathlib.Data.List.Pairwise

/-!
# Queues in the order of arrival

Whatever arrives joins at the tail, the first one is served, and anybody may leave.

* **Steps** (`QueueStep`): nothing happens, one arrives, one leaves, or the first one is served, perhaps with
  an arrival at the same time. `arrivals` are the times at which everybody came last.
* **Order** (`InOrder`): the queue is in the order of the arrivals, and in particular nobody is queued twice.
  A step keeps it (`InOrder.step`).
* **Fairness** (`InOrder.served_first`): who is served has waited longest.

What is in the queue is of any type, and times are numbers that go up by one with each step.
-/

namespace AgenticOs.Lib

variable {α : Type*} [DecidableEq α] {l l' : List α} {a r : α} {served : Option α} {n : Nat} {times : α → Nat}

/-- What may happen to a queue at a time: nothing, an arrival at the tail, somebody leaves, or the first one
is served, perhaps with an arrival. -/
inductive QueueStep (l : List α) : Option α → List α → Prop
  | same : QueueStep l none l
  | joined {a : α} : a ∉ l → QueueStep l none (l ++ [a])
  | left (a : α) : QueueStep l none (l.erase a)
  | next {a : α} {t : List α} : l = a :: t → QueueStep l (some a) t
  | rotated {a b : α} {t : List α} : l = a :: t → b ∉ l → QueueStep l (some a) (t ++ [b])

/-- The times of arrival after a step at time `n`. -/
def arrivals (n : Nat) (l l' : List α) (times : α → Nat) (r : α) : Nat :=
  if r ∈ l' ∧ r ∉ l then n else times r

/-- The queue is in the order of the arrivals, all of which were before time `n`. -/
structure InOrder (n : Nat) (times : α → Nat) (l : List α) : Prop where
  order : l.Pairwise fun a b => times a < times b
  past : ∀ a ∈ l, times a < n

omit [DecidableEq α] in
/-- A part of a line. -/
theorem InOrder.sublist (h : InOrder n times l) (hs : l'.Sublist l) : InOrder n times l' :=
  ⟨h.order.sublist hs, fun a ha => h.past a (hs.subset ha)⟩

/-- The arrivals of a part of the queue are the same, and the next moment comes. -/
theorem InOrder.kept (h : InOrder n times l) (hs : l'.Sublist l) :
    InOrder (n + 1) (arrivals n l l' times) l' := by
  have hsame : ∀ a ∈ l', arrivals n l l' times a = times a := fun a ha =>
    if_neg fun hnew => hnew.2 (hs.subset ha)
  have hpart := h.sublist hs
  refine ⟨hpart.order.imp_of_mem fun ha hb hlt => ?_, fun a ha => ?_⟩
  · rw [hsame _ ha, hsame _ hb]
    exact hlt
  · rw [hsame a ha]
    exact Nat.lt_succ_of_lt (hpart.past a ha)

/-- One more at the tail. -/
theorem InOrder.arrived (h : InOrder n times l) (hs : l'.Sublist l) (ha : a ∉ l) :
    InOrder (n + 1) (arrivals n l (l' ++ [a]) times) (l' ++ [a]) := by
  have hsame : ∀ b ∈ l', arrivals n l (l' ++ [a]) times b = times b := fun b hb =>
    if_neg fun hnew => hnew.2 (hs.subset hb)
  have hnew : arrivals n l (l' ++ [a]) times a = n := if_pos ⟨by simp, ha⟩
  have hpart := h.sublist hs
  refine ⟨?_, fun b hb => ?_⟩
  · rw [List.pairwise_append]
    refine ⟨hpart.order.imp_of_mem fun hb hc hlt => ?_, List.pairwise_singleton .., fun b hb c hc => ?_⟩
    · rw [hsame _ hb, hsame _ hc]
      exact hlt
    · rw [List.mem_singleton.mp hc, hnew, hsame b hb]
      exact hpart.past b hb
  · rcases List.mem_append.mp hb with hb | hb
    · rw [hsame b hb]
      exact Nat.lt_succ_of_lt (hpart.past b hb)
    · rw [List.mem_singleton.mp hb, hnew]
      exact Nat.lt_succ_self n

/-- A step keeps the queue in the order of the arrivals. -/
theorem InOrder.step (h : InOrder n times l) (hstep : QueueStep l served l') :
    InOrder (n + 1) (arrivals n l l' times) l' := by
  cases hstep with
  | same => exact h.kept (List.Sublist.refl _)
  | joined ha => exact h.arrived (List.Sublist.refl _) ha
  | left a => exact h.kept List.erase_sublist
  | next hl =>
    subst hl
    exact h.kept (List.sublist_cons_self ..)
  | rotated hl hb =>
    subst hl
    exact h.arrived (List.sublist_cons_self ..) hb

/-- Who is served has waited longest. -/
theorem InOrder.served_first (h : InOrder n times l) (hstep : QueueStep l (some a) l') :
    a ∈ l ∧ ∀ r ∈ l, r ≠ a → times a < times r := by
  obtain ⟨t, rfl⟩ : ∃ t, l = a :: t := by
    cases hstep with
    | next hl => exact ⟨_, hl⟩
    | rotated hl => exact ⟨_, hl⟩
  refine ⟨List.mem_cons_self .., fun r hr hne => ?_⟩
  exact List.rel_of_pairwise_cons h.order ((List.mem_cons.mp hr).resolve_left hne)

end AgenticOs.Lib
