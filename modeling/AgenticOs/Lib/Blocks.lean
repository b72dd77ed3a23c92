import Mathlib.Algebra.BigOperators.Group.List.Basic
import Mathlib.Data.List.Chain
import Mathlib.Tactic.Ring

/-!
# Blocks side by side

A region is cut into blocks, each a header and a payload of some size, free or in use. An allocation takes a
free block, and leaves what it does not need as a block of its own if that is worth it (`taken`); giving a
block back merges it with its free neighbours (`giveBack`).

* **Coverage**: both leave the region covered (`extent_taken`, `extent_giveBack`), where headers and payloads
  together are what the blocks cover (`extent_eq`).
* **Accounts**: the bytes in use grow by the size that is taken (`used_taken`) and shrink by the size that is
  given back (`used_giveBack`).
* **No neighbours that are both free** (`Coalesced`): a taken block makes none (`Coalesced.take`), and one
  that is given back merges with those there are (`Coalesced.givesBack`). Where nothing is in use there is one
  free block (`Coalesced.eq_singleton`).
* **Addresses** (`inUse`): the blocks in use are where they were but for the one that is taken (`inUse_take`)
  or given back (`inUse_give`), and are met in the order of their addresses (`inUse_pairwise`).
* **Alignment**: sizes stay multiples of what they were multiples of (`dvd_taken`, `dvd_giveBack`).

The size of a header and the least rest that is split off are parameters.
-/

namespace AgenticOs.Lib

/-- A block: the size of its payload, and whether it is free. -/
structure Block where
  size : ℕ
  free : Bool
  deriving DecidableEq

namespace Blocks

variable (header least : ℕ) {l l₁ l₂ m : List Block} {p q r : Block} {a n : ℕ}

/-- The bytes that blocks cover, with their headers. -/
def extent (l : List Block) : ℕ := (l.map fun p => header + p.size).sum

/-- The payloads of the blocks in use. -/
def used (l : List Block) : ℕ := (l.map fun p => if p.free then 0 else p.size).sum

/-- The payloads of the free blocks. -/
def unused (l : List Block) : ℕ := (l.map fun p => if p.free then p.size else 0).sum

/-- No two neighbours are free. -/
def Coalesced (l : List Block) : Prop := l.IsChain fun p q => ¬ (p.free = true ∧ q.free = true)

/-- The addresses of the blocks in use, where the first block is at `a`. -/
def inUse : ℕ → List Block → List ℕ
  | _, [] => []
  | a, p :: l => if p.free then inUse (a + header + p.size) l else a :: inUse (a + header + p.size) l

/-- A block that is taken for `n` bytes; a rest of more than `least` bytes behind a header of its own
is split off. -/
def taken (p : Block) (n : ℕ) : List Block :=
  if p.size - n ≤ header + least then [⟨p.size, false⟩]
  else [⟨n, false⟩, ⟨p.size - n - header, true⟩]

/-- A block takes in the block behind it, if that is free. -/
def absorb (p : Block) : List Block → List Block
  | [] => [p]
  | q :: l => if q.free then ⟨p.size + (header + q.size), p.free⟩ :: l else p :: q :: l

/-- A block is given back: it takes in the block behind it, and the block before it takes in the two. -/
def giveBack (l₁ : List Block) (p : Block) (l₂ : List Block) : List Block :=
  match l₁.getLast? with
  | some r =>
    if r.free then l₁.dropLast ++ absorb header r (absorb header ⟨p.size, true⟩ l₂)
    else l₁ ++ absorb header ⟨p.size, true⟩ l₂
  | none => absorb header ⟨p.size, true⟩ l₂

variable {header least}

/-- No block covers nothing. -/
@[simp] theorem extent_nil : extent header [] = 0 := rfl

/-- A block covers its header and its payload. -/
@[simp] theorem extent_cons : extent header (p :: l) = header + p.size + extent header l := by
  simp [extent]

/-- Blocks in two parts. -/
@[simp] theorem extent_append : extent header (l₁ ++ l₂) = extent header l₁ + extent header l₂ := by
  simp [extent]

/-- No block is in use. -/
@[simp] theorem used_nil : used [] = 0 := rfl

/-- The payload of a block in use counts. -/
@[simp] theorem used_cons : used (p :: l) = (if p.free then 0 else p.size) + used l := by simp [used]

/-- Blocks in two parts. -/
@[simp] theorem used_append : used (l₁ ++ l₂) = used l₁ + used l₂ := by simp [used]

/-- No block is free. -/
@[simp] theorem unused_nil : unused [] = 0 := rfl

/-- The payload of a free block counts. -/
@[simp] theorem unused_cons : unused (p :: l) = (if p.free then p.size else 0) + unused l := by
  simp [unused]

/-- Blocks in two parts. -/
@[simp] theorem unused_append : unused (l₁ ++ l₂) = unused l₁ + unused l₂ := by simp [unused]

/-- Headers and payloads are what the blocks cover. -/
theorem extent_eq : extent header l = used l + unused l + header * l.length := by
  induction l with
  | nil => rfl
  | cons p l ih =>
    simp only [extent_cons, used_cons, unused_cons, List.length_cons, ih]
    split <;> ring

/-- The second part of some blocks lies behind the first. -/
theorem inUse_append (a : ℕ) : inUse header a (l₁ ++ l₂) =
    inUse header a l₁ ++ inUse header (a + extent header l₁) l₂ := by
  induction l₁ generalizing a with
  | nil => rfl
  | cons p l₁ ih =>
    have hstop : a + extent header (p :: l₁) = a + header + p.size + extent header l₁ := by
      rw [extent_cons]
      ring
    rw [List.cons_append, inUse, ih, inUse, hstop]
    split <;> rfl

/-- The blocks in use are those that are not free, at the addresses where the blocks before them end. -/
theorem mem_inUse {b : ℕ} : b ∈ inUse header a l ↔
    ∃ l₁ q l₂, l = l₁ ++ q :: l₂ ∧ q.free = false ∧ b = a + extent header l₁ := by
  constructor
  · intro h
    induction l generalizing a with
    | nil => cases h
    | cons p l ih =>
      have hrest (h : b ∈ inUse header (a + header + p.size) l) :
          ∃ l₁ q l₂, p :: l = l₁ ++ q :: l₂ ∧ q.free = false ∧ b = a + extent header l₁ := by
        obtain ⟨l₁, q, l₂, rfl, hq, rfl⟩ := ih h
        refine ⟨p :: l₁, q, l₂, rfl, hq, ?_⟩
        rw [extent_cons]
        ring
      rw [inUse] at h
      split at h
      · exact hrest h
      · rename_i hp
        rcases List.mem_cons.mp h with rfl | h
        · exact ⟨[], p, l, rfl, Bool.eq_false_iff.mpr hp, rfl⟩
        · exact hrest h
  · rintro ⟨l₁, q, l₂, rfl, hq, rfl⟩
    rw [inUse_append, inUse, hq]
    simp

/-- The blocks in use are met in the order of their addresses. -/
theorem inUse_pairwise (hheader : 0 < header) : (inUse header a l).Pairwise (· < ·) := by
  induction l generalizing a with
  | nil => exact List.Pairwise.nil
  | cons p l ih =>
    rw [inUse]
    split
    · exact ih
    · refine List.pairwise_cons.mpr ⟨fun b hb => ?_, ih⟩
      obtain ⟨l₁, q, l₂, rfl, -, rfl⟩ := mem_inUse.mp hb
      omega

/-! ### Taking a block -/

/-- A block that is taken covers what it covered, with or without a rest. -/
theorem extent_taken (h : n ≤ p.size) : extent header (taken header least p n) = header + p.size := by
  unfold taken
  split
  · simp
  · simp only [extent_cons, extent_nil]
    omega

/-- Of what it has become the first part is in use. -/
theorem inUse_taken : inUse header a (taken header least p n) = [a] := by
  unfold taken
  split <;> simp [inUse]

/-- The block that is taken is the only one that is now in use. -/
theorem inUse_take (hp : p.free = true) (h : n ≤ p.size) :
    (inUse header a (l₁ ++ taken header least p n ++ l₂)).Perm
      ((a + extent header l₁) :: inUse header a (l₁ ++ p :: l₂)) := by
  have hstop : a + extent header (l₁ ++ taken header least p n) =
      a + extent header l₁ + header + p.size := by
    rw [extent_append, extent_taken h]
    ring
  rw [inUse_append, inUse_append, inUse_taken, hstop, inUse_append, inUse, if_pos hp, List.append_assoc]
  exact List.perm_middle

/-- The size of a block that is taken. -/
def takenSize (header least : ℕ) (p : Block) (n : ℕ) : ℕ := if p.size - n ≤ header + least then p.size else n

/-- And it is this part that counts. -/
theorem used_taken : used (taken header least p n) = takenSize header least p n := by
  unfold taken takenSize
  split <;> simp

/-- Sizes stay multiples of a number that divides the header and the request. -/
theorem dvd_taken {d : ℕ} (hheader : d ∣ header) (hp : d ∣ p.size) (hn : d ∣ n) :
    ∀ x ∈ taken header least p n, d ∣ x.size := by
  unfold taken
  split
  · simpa using hp
  · simp only [List.mem_cons, List.not_mem_nil, or_false, forall_eq_or_imp, forall_eq]
    exact ⟨hn, Nat.dvd_sub (Nat.dvd_sub hp hn) hheader⟩

/-- Neighbours do not see a block that is replaced by others which are free at their ends only if it
was free. -/
theorem Coalesced.replace (h : Coalesced (l₁ ++ p :: l₂)) (hm : Coalesced m) (hne : m ≠ [])
    (hfree : ∀ x ∈ m, x.free = true → p.free = true) : Coalesced (l₁ ++ m ++ l₂) := by
  unfold Coalesced at h hm ⊢
  rw [List.isChain_append, List.isChain_cons] at h
  obtain ⟨h₁, ⟨hp, h₂⟩, hends⟩ := h
  rw [List.append_assoc, List.isChain_append, List.isChain_append]
  refine ⟨h₁, ⟨hm, h₂, fun x hx y hy hxy => ?_⟩, fun x hx y hy hxy => ?_⟩
  · exact hp y hy ⟨hfree x (List.mem_of_mem_getLast? hx) hxy.1, hxy.2⟩
  · obtain ⟨z, m, rfl⟩ := List.exists_cons_of_ne_nil hne
    obtain rfl := Option.some.inj hy
    exact hends x hx p rfl ⟨hxy.1, hfree z List.mem_cons_self hxy.2⟩

/-- A free block that is taken leaves no free neighbours. -/
theorem Coalesced.take (h : Coalesced (l₁ ++ p :: l₂)) (hp : p.free = true) (n : ℕ) :
    Coalesced (l₁ ++ taken header least p n ++ l₂) := by
  refine h.replace ?_ ?_ fun _ _ _ => hp <;> unfold taken <;> split
  · exact List.isChain_singleton _
  · exact List.isChain_cons_cons.mpr ⟨by simp, List.isChain_singleton _⟩
  · exact List.cons_ne_nil _ _
  · exact List.cons_ne_nil _ _

/-! ### Giving a block back -/

/-- What a block takes in. -/
theorem absorb_cons : absorb header p (q :: l) =
    if q.free then ⟨p.size + (header + q.size), p.free⟩ :: l else p :: q :: l := rfl

/-- A block that takes in another covers what both covered. -/
theorem extent_absorb : extent header (absorb header p l) = header + p.size + extent header l := by
  cases l with
  | nil => rfl
  | cons q l =>
    rw [absorb_cons]
    split
    · simp only [extent_cons]
      ring
    · simp only [extent_cons]

/-- A free block that takes in a free one uses nothing. -/
theorem used_absorb (hp : p.free = true) : used (absorb header p l) = used l := by
  cases l with
  | nil => simp [absorb, hp]
  | cons q l =>
    rw [absorb_cons]
    split <;> simp_all

/-- A free block takes in no block that is in use. -/
theorem inUse_absorb (hp : p.free = true) :
    inUse header a (absorb header p l) = inUse header (a + header + p.size) l := by
  cases l with
  | nil => simp [absorb, inUse, hp]
  | cons q l =>
    rw [absorb_cons]
    split
    · rename_i hq
      simp only [inUse, hp, hq, if_true]
      congr 1
      ring
    · simp [inUse, hp]

/-- Sizes stay multiples of a number that divides the header. -/
theorem dvd_absorb {d : ℕ} (hheader : d ∣ header) (hp : d ∣ p.size) (hl : ∀ x ∈ l, d ∣ x.size) :
    ∀ x ∈ absorb header p l, d ∣ x.size := by
  cases l with
  | nil => simpa [absorb] using hp
  | cons q l =>
    have hq := hl q List.mem_cons_self
    rw [absorb_cons]
    split
    · rintro x hx
      rcases List.mem_cons.mp hx with rfl | hx
      · exact Nat.dvd_add hp (Nat.dvd_add hheader hq)
      · exact hl x (List.mem_cons_of_mem _ hx)
    · rintro x hx
      rcases List.mem_cons.mp hx with rfl | hx
      · exact hp
      · exact hl x hx

/-- The first block after it has taken in the second. -/
theorem absorb_eq_cons (p : Block) (l : List Block) :
    ∃ size l', absorb header p l = ⟨size, p.free⟩ :: l' := by
  cases l with
  | nil => exact ⟨p.size, [], rfl⟩
  | cons q l =>
    rw [absorb_cons]
    split
    · exact ⟨_, l, rfl⟩
    · exact ⟨p.size, q :: l, rfl⟩

/-- A block that takes in the free block behind it has no free one behind it any more. -/
theorem Coalesced.absorbs (h : Coalesced l) : Coalesced (absorb header p l) := by
  unfold Coalesced at h ⊢
  cases l with
  | nil => exact List.isChain_singleton _
  | cons q l =>
    rw [absorb_cons]
    obtain ⟨hq, hl⟩ := List.isChain_cons.mp h
    split
    · rename_i hfree
      exact List.isChain_cons.mpr ⟨fun y hy hfree' => hq y hy ⟨hfree, hfree'.2⟩, hl⟩
    · rename_i hused
      exact List.isChain_cons_cons.mpr ⟨fun hfree' => hused hfree'.2, h⟩

/-- The first block is given back. -/
theorem giveBack_nil : giveBack header [] p l₂ = absorb header ⟨p.size, true⟩ l₂ := rfl

/-- A block is given back that has another one before it. -/
theorem giveBack_append : giveBack header (l₁ ++ [r]) p l₂ =
    if r.free then l₁ ++ absorb header r (absorb header ⟨p.size, true⟩ l₂)
    else l₁ ++ r :: absorb header ⟨p.size, true⟩ l₂ := by
  unfold giveBack
  rw [List.getLast?_append_of_ne_nil _ (List.cons_ne_nil _ _)]
  simp

/-- What is covered stays covered. -/
theorem extent_giveBack : extent header (giveBack header l₁ p l₂) = extent header (l₁ ++ p :: l₂) := by
  rcases List.eq_nil_or_concat l₁ with rfl | ⟨l₁, r, rfl⟩
  · rw [giveBack_nil, extent_absorb]
    simp
  · rw [List.concat_eq_append, giveBack_append]
    split <;> simp only [extent_append, extent_absorb, extent_cons, extent_nil] <;> ring

/-- The bytes in use are fewer by those that are given back. -/
theorem used_giveBack (hp : p.free = false) :
    used (giveBack header l₁ p l₂) + p.size = used (l₁ ++ p :: l₂) := by
  rcases List.eq_nil_or_concat l₁ with rfl | ⟨l₁, r, rfl⟩
  · rw [giveBack_nil, used_absorb rfl]
    simp [hp, add_comm]
  · rw [List.concat_eq_append, giveBack_append]
    split
    · rename_i hr
      rw [used_append, used_absorb hr, used_absorb rfl]
      simp only [used_append, used_cons, used_nil, hp, hr]
      simp only [if_true, Bool.false_eq_true, if_false]
      ring
    · rename_i hr
      rw [used_append, used_cons, used_absorb rfl]
      simp only [used_append, used_cons, used_nil, hp, hr]
      simp only [Bool.false_eq_true, if_false]
      ring

/-- The block that is given back is the only one that is no longer in use. -/
theorem inUse_giveBack : inUse header a (giveBack header l₁ p l₂) =
    inUse header a l₁ ++ inUse header (a + extent header l₁ + header + p.size) l₂ := by
  rcases List.eq_nil_or_concat l₁ with rfl | ⟨l₁, r, rfl⟩
  · rw [giveBack_nil, inUse_absorb rfl]
    simp [inUse]
  · rw [List.concat_eq_append, giveBack_append]
    have hend : a + extent header (l₁ ++ [r]) = a + extent header l₁ + header + r.size := by
      rw [extent_append, extent_cons, extent_nil]
      ring
    rw [hend, inUse_append]
    split
    · rename_i hr
      rw [inUse_append, inUse_absorb hr, inUse_absorb rfl]
      simp [inUse, hr]
    · rename_i hr
      rw [inUse_append, inUse, inUse_absorb rfl]
      simp [inUse, hr]

/-- The block that is given back is the only one that is no longer in use. -/
theorem inUse_give (hp : p.free = false) : (inUse header a (l₁ ++ p :: l₂)).Perm
    ((a + extent header l₁) :: inUse header a (giveBack header l₁ p l₂)) := by
  rw [inUse_giveBack, inUse_append, inUse, hp]
  exact List.perm_middle

/-- Sizes stay multiples of a number that divides the header. -/
theorem dvd_giveBack {d : ℕ} (hheader : d ∣ header) (h : ∀ x ∈ l₁ ++ p :: l₂, d ∣ x.size) :
    ∀ x ∈ giveBack header l₁ p l₂, d ∣ x.size := by
  have hp : d ∣ p.size := h p (by simp)
  have h₂ : ∀ x ∈ l₂, d ∣ x.size := fun x hx => h x (by simp [hx])
  have hl := dvd_absorb (p := ⟨p.size, true⟩) hheader hp h₂
  rcases List.eq_nil_or_concat l₁ with rfl | ⟨l₁, r, rfl⟩
  · exact hl
  · rw [List.concat_eq_append] at h ⊢
    have hr : d ∣ r.size := h r (by simp)
    rw [giveBack_append]
    split <;> intro x hx
    · rcases List.mem_append.mp hx with hx | hx
      · exact h x (by simp [hx])
      · exact dvd_absorb hheader hr hl x hx
    · rcases List.mem_append.mp hx with hx | hx
      · exact h x (by simp [hx])
      · rcases List.mem_cons.mp hx with rfl | hx
        · exact hr
        · exact hl x hx

/-- No two neighbours are free after a block has been given back. -/
theorem Coalesced.givesBack (h : Coalesced (l₁ ++ p :: l₂)) : Coalesced (giveBack header l₁ p l₂) := by
  have hsuffix : Coalesced (p :: l₂) := (List.isChain_append.mp h).2.1
  have hl : Coalesced (absorb header ⟨p.size, true⟩ l₂) :=
    Coalesced.absorbs (List.isChain_cons.mp hsuffix).2
  rcases List.eq_nil_or_concat l₁ with rfl | ⟨l₁, r, rfl⟩
  · exact hl
  · rw [List.concat_eq_append, List.append_assoc] at h
    rw [List.concat_eq_append, giveBack_append]
    obtain ⟨h₁, -, hends⟩ := List.isChain_append.mp h
    split
    · rename_i hr
      obtain ⟨size, l', heq⟩ := @absorb_eq_cons header r (absorb header ⟨p.size, true⟩ l₂)
      refine List.isChain_append.mpr ⟨h₁, hl.absorbs, fun x hx y hy hxy => ?_⟩
      rw [heq] at hy
      exact hends x hx r rfl ⟨hxy.1, hr⟩
    · rename_i hr
      refine List.isChain_append.mpr ⟨h₁, List.isChain_cons.mpr ⟨fun y _ hxy => hr hxy.1, hl⟩, ?_⟩
      intro x hx y hy hxy
      obtain rfl := Option.some.inj hy
      exact hr hxy.2

/-- Where no block is in use, there is one free block. -/
theorem Coalesced.eq_singleton (h : Coalesced l) (hne : l ≠ []) (hfree : inUse header a l = []) :
    ∃ size, l = [⟨size, true⟩] := by
  have hall : ∀ x ∈ l, x.free = true := by
    clear h hne
    induction l generalizing a with
    | nil => nofun
    | cons p l ih =>
      rw [inUse] at hfree
      split at hfree
      · rename_i hp
        intro x hx
        rcases List.mem_cons.mp hx with rfl | hx
        · exact hp
        · exact ih hfree x hx
      · cases hfree
  match l, hne with
  | [p], _ => exact ⟨p.size, by rw [← hall p List.mem_cons_self]⟩
  | p :: q :: l, _ =>
    exact absurd ⟨hall p (by simp), hall q (by simp)⟩ (List.isChain_cons_cons.mp h).1

end Blocks

end AgenticOs.Lib
