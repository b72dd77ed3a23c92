import Mathlib.Data.List.Basic
import Mathlib.Logic.Function.Basic

/-!
# Ring buffers as queues

A ring buffer over `cap` cells is a function `buf : ℕ → α` read modulo `cap`. Its *contents* from position
`pos` are the next `n` cells, `contents cap buf pos n`.

* **Popping** (`contents_succ`): the front is the cell at `pos`, and the rest are the contents from the next
  position. The contents split at any point (`contents_add`), so several elements can be popped at once.
* **Pushing** (`contents_push`): a write to the cell after the last one appends the element, as long as the
  buffer is not full. The older cells are other cells, because distinct offsets below the capacity are
  (`advance_ne`).
* **Frame** (`contents_congr`): buffers that agree on the cells read have the same contents.

A program keeps `pos` and `n` in whatever form it likes; two positions with a count are the usual one.
-/

namespace AgenticOs.Lib.Ring

variable {α : Type*}

/-- The `n` elements stored from position `pos`, oldest first. -/
def contents (cap : ℕ) (buf : ℕ → α) (pos : ℕ) : ℕ → List α
  | 0 => []
  | n + 1 => buf pos :: contents cap buf ((pos + 1) % cap) n

/-- An empty ring. -/
@[simp] theorem contents_zero (cap : ℕ) (buf : ℕ → α) (pos : ℕ) : contents cap buf pos 0 = [] := rfl

/-- The number of items. -/
@[simp] theorem length_contents (cap : ℕ) (buf : ℕ → α) (pos n : ℕ) :
    (contents cap buf pos n).length = n := by
  induction n generalizing pos with
  | zero => rfl
  | succ n ih => simp [contents, ih]

/-- Popping: the front is the cell at `pos`, the rest are the contents from the next position. -/
theorem contents_succ (cap : ℕ) (buf : ℕ → α) (pos n : ℕ) :
    contents cap buf pos (n + 1) = buf pos :: contents cap buf ((pos + 1) % cap) n := rfl

/-- Advancing a position twice is advancing it by the sum. -/
theorem advance_add (cap pos m n : ℕ) : ((pos + m) % cap + n) % cap = (pos + (m + n)) % cap := by
  rw [Nat.mod_add_mod, Nat.add_assoc]

/-- The contents split at any point. -/
theorem contents_add (cap : ℕ) (buf : ℕ → α) (pos m n : ℕ) (hpos : pos < cap) :
    contents cap buf pos (m + n) =
      contents cap buf pos m ++ contents cap buf ((pos + m) % cap) n := by
  induction m generalizing pos with
  | zero => simp [Nat.mod_eq_of_lt hpos]
  | succ m ih =>
    have hcap : 0 < cap := by omega
    rw [Nat.succ_add, contents_succ, contents_succ, ih _ (Nat.mod_lt _ hcap), advance_add,
      Nat.add_comm 1 m, List.cons_append]

/-- Two buffers that agree on the cells read have the same contents. -/
theorem contents_congr (cap : ℕ) {buf buf' : ℕ → α} {pos n : ℕ} (hpos : pos < cap)
    (h : ∀ k < n, buf ((pos + k) % cap) = buf' ((pos + k) % cap)) :
    contents cap buf pos n = contents cap buf' pos n := by
  induction n generalizing pos with
  | zero => rfl
  | succ n ih =>
    have hcap : 0 < cap := by omega
    have h0 := h 0 (Nat.succ_pos n)
    rw [Nat.add_zero, Nat.mod_eq_of_lt hpos] at h0
    rw [contents_succ, contents_succ, h0, ih (Nat.mod_lt _ hcap)]
    intro k hk
    rw [advance_add, Nat.add_comm 1 k]
    exact h (k + 1) (by omega)

/-- Distinct offsets below the capacity are distinct cells. -/
theorem advance_ne {cap pos k n : ℕ} (hk : k < n) (hn : n < cap) :
    (pos + k) % cap ≠ (pos + n) % cap := by
  intro he
  have hd : (pos + n - (pos + k)) % cap = 0 := Nat.sub_mod_eq_zero_of_mod_eq he.symm
  rw [Nat.add_sub_add_left, Nat.mod_eq_of_lt (by omega)] at hd
  omega

/-- **Pushing**: writing the cell after the `n` stored ones appends the element, provided the
buffer is not full. -/
theorem contents_push {cap : ℕ} (buf : ℕ → α) {pos n : ℕ} (a : α) (hpos : pos < cap)
    (hn : n < cap) :
    contents cap (Function.update buf ((pos + n) % cap) a) pos (n + 1) =
      contents cap buf pos n ++ [a] := by
  have hold : contents cap (Function.update buf ((pos + n) % cap) a) pos n =
      contents cap buf pos n :=
    contents_congr cap hpos fun k hk => Function.update_of_ne (advance_ne hk hn) _ _
  rw [contents_add cap _ pos n 1 hpos, hold, contents_succ, Function.update_self, contents_zero]

end AgenticOs.Lib.Ring
