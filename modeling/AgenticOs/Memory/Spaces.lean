import AgenticOs.Memory.Entry
import Mathlib.Data.Fintype.Prod
import Mathlib.Tactic.Simps.Basic

/-!
# Who holds which frame

The state every operation of `paging.c` is followed on: `Spaces` records, for the live address
spaces, which frames are directories and tables, which entry each user page has, and what the mapped
frames contain. Two *hands* hold the frames that an operation has allocated or unmapped and not yet
placed: one for pages, one for tables and directories.

`Represents m0 m S` says that memory `m` stores `S`:

* `Accounting`: the reference count of every frame the allocator can hand out is the number of
  owners of `S` that hold it, one for a directory or table; frames in use at the start `m0` are
  untouched;
* `Layout`: the words of directories and tables in physical memory are those of `S`.

The operations only make a few *moves* on this state, one lemma each. Allocator moves take, share
and drop a frame in a hand (`Represents.take`, `.retain`, `.drop`); memory moves exchange a hand
with an entry, a directory entry or a directory (`.writePage`, `.writeDir`, `.newDir`, `.dropDir`),
and change no count because the frames only change owner.
-/

namespace AgenticOs

open Function Finset Lib

/-- The directory indices of `[0x40000000, 0xC0000000)`. -/
def inUserRange (i : TableIndex) : Prop := 256 ≤ i.val ∧ i.val < 768

instance : DecidablePred inUserRange := fun i =>
  inferInstanceAs (Decidable (256 ≤ i.val ∧ i.val < 768))

/-- A directory entry whose table belongs to its directory: entry `0` and the user entries. The
others are shared with the kernel. -/
def ownsTable (i : TableIndex) (e : Word) : Bool := isPresent e && (i == 0 || isUser e)

/-- The table a directory entry owns. -/
def ownedTable (i : TableIndex) (e : Word) : Option Nat :=
  if ownsTable i e then some (frameOf e) else none

/-- The entry of a mapped user page. -/
def userEntry (e : Word) : Option Word := if isPresent e && isUser e then some e else none

/-- The entry of a user page is a present user entry. -/
theorem userEntry_eq_some {e e' : Word} :
    userEntry e = some e' ↔ isPresent e = true ∧ isUser e = true ∧ e = e' := by
  unfold userEntry
  by_cases h : (isPresent e && isUser e) = true
  · rw [if_pos h]
    simp only [Bool.and_eq_true] at h
    simp [h]
  · rw [if_neg h]
    simp only [Bool.and_eq_true, not_and] at h
    simp only [reduceCtorEq, false_iff, not_and]
    intro h1 h2
    exact absurd h2 (h h1)

/-- There is no user page where an entry is absent or a supervisor's. -/
theorem userEntry_eq_none {e : Word} :
    userEntry e = none ↔ (isPresent e && isUser e) = false := by
  unfold userEntry
  by_cases h : (isPresent e && isUser e) = true
  · simp [h]
  · simp [h]

/-- Nor do they name a table. -/
@[simp] theorem userEntry_absent : userEntry 0x02 = none := by decide
@[simp] theorem ownedTable_absent (i : TableIndex) : ownedTable i 0x02 = none := by
  have h : isPresent 2#32 = false := by decide
  simp [ownedTable, ownsTable, h]

/-- The places that can hold a frame. -/
inductive Owner
  | dir (d : Nat)
  | table (d : Nat) (i : TableIndex)
  | page (d : Nat) (i j : TableIndex)
  | pageHand
  | tableHand
  deriving DecidableEq

/-- Directories and tables, in place or in hand: their frames have one owner. -/
def Owner.structural : Owner → Bool
  | .dir _ => true
  | .table _ _ => true
  | .page _ _ _ => false
  | .pageHand => false
  | .tableHand => true

/-- The owners of directories below frame `n`, and the hands. -/
@[irreducible] def ownersBelow (n : Nat) : Finset Owner :=
  (range n).image .dir ∪ ((range n) ×ˢ univ).image (fun p => .table p.1 p.2) ∪
    ((range n) ×ˢ univ).image (fun p : Nat × TableIndex × TableIndex =>
      .page p.1 p.2.1 p.2.2) ∪ {.pageHand, .tableHand}

/-- The directory an owner belongs to. -/
def Owner.space : Owner → Option Nat
  | .dir d => some d
  | .table d _ => some d
  | .page d _ _ => some d
  | .pageHand => none
  | .tableHand => none

/-- The owners of directories below `n` are listed. -/
theorem mem_ownersBelow {n : Nat} {o : Owner} (h : ∀ d, o.space = some d → d < n) :
    o ∈ ownersBelow n := by
  unfold ownersBelow
  cases o with
  | dir d => simp [h d rfl]
  | table d i => simp [h d rfl]
  | page d i j => simp [h d rfl]
  | pageHand => simp
  | tableHand => simp

/-- The owners of directories where `paging_alloc_frame` puts them. -/
def owners : Finset Owner := ownersBelow 1024

/-- The owners of directories below 4 MiB are. -/
theorem mem_owners {o : Owner} (h : ∀ d, o.space = some d → d < 1024) : o ∈ owners := by
  rw [owners]
  exact mem_ownersBelow h

/-- A directory. -/
theorem dir_mem_owners {d : Nat} (h : d < 1024) : Owner.dir d ∈ owners :=
  mem_owners fun _ hd => Option.some_inj.mp hd ▸ h

/-- A table. -/
theorem table_mem_owners {d : Nat} (h : d < 1024) (i : TableIndex) : Owner.table d i ∈ owners :=
  mem_owners fun _ hd => Option.some_inj.mp hd ▸ h

/-- A page. -/
theorem page_mem_owners {d : Nat} (h : d < 1024) (i j : TableIndex) : Owner.page d i j ∈ owners :=
  mem_owners fun _ hd => Option.some_inj.mp hd ▸ h

/-- The page hand. -/
theorem pageHand_mem_owners : Owner.pageHand ∈ owners := mem_owners fun _ hd => nomatch hd

/-- The table hand. -/
theorem tableHand_mem_owners : Owner.tableHand ∈ owners := mem_owners fun _ hd => nomatch hd

/-- The address spaces stored in memory, and the frames in hand. -/
@[ext] structure Spaces where
  live : Finset Nat
  table : Nat → TableIndex → Option Nat
  entry : Nat → TableIndex → TableIndex → Option Word
  content : Nat → TableIndex → Word
  pageHand : Option Nat
  tableHand : Option Nat

/-- One page entry replaced. -/
def setAt (entry : Nat → TableIndex → TableIndex → Option Word) (d : Nat) (i j : TableIndex)
    (e : Option Word) : Nat → TableIndex → TableIndex → Option Word :=
  fun d' i' j' => if d' = d ∧ i' = i ∧ j' = j then e else entry d' i' j'

namespace Spaces

/-- Another page in hand. -/
@[simps] def withPageHand (S : Spaces) (p : Option Nat) : Spaces := { S with pageHand := p }

/-- Another table in hand. -/
@[simps] def withTableHand (S : Spaces) (t : Option Nat) : Spaces := { S with tableHand := t }

/-- Other contents. -/
@[simps] def withContent (S : Spaces) (c : Nat → TableIndex → Word) : Spaces :=
  { S with content := c }

/-- Other live directories. -/
@[simps] def withLive (S : Spaces) (live : Finset Nat) : Spaces := { S with live := live }

/-- Other page entries. -/
@[simps] def withEntry (S : Spaces) (entry : Nat → TableIndex → TableIndex → Option Word) :
    Spaces := { S with entry := entry }

/-- Other tables. -/
@[simps] def withTables (S : Spaces) (table : Nat → TableIndex → Option Nat) : Spaces :=
  { S with table := table }

/-- One directory entry's table replaced. -/
@[simps] def withTable (S : Spaces) (d : Nat) (i : TableIndex) (t : Option Nat) : Spaces :=
  { S with table := fun d' i' => if d' = d ∧ i' = i then t else S.table d' i' }

/-- The frame an owner holds. -/
def held (S : Spaces) : Owner → Option Nat
  | .dir d => if d ∈ S.live then some d else none
  | .table d i => S.table d i
  | .page d i j => (S.entry d i j).map frameOf
  | .pageHand => S.pageHand
  | .tableHand => S.tableHand

/-- Only live directories have tables, and only tables have entries. -/
structure WellFormed (S : Spaces) : Prop where
  low : ∀ d ∈ S.live, d < 1024
  tables : ∀ d i t, S.table d i = some t → d ∈ S.live
  entries : ∀ d i j e, S.entry d i j = some e → ∃ t, S.table d i = some t

variable {S : Spaces}

/-- Who holds a frame is listed, because directories lie below 4 MiB. -/
theorem WellFormed.mem_owners (h : S.WellFormed) {o : Owner} {f : Nat} (ho : S.held o = some f) :
    o ∈ owners := by
  cases o with
  | dir d =>
    by_cases hd : d ∈ S.live
    · exact dir_mem_owners (h.low d hd)
    · simp [held, hd] at ho
  | table d i => exact table_mem_owners (h.low d (h.tables d i f ho)) i
  | page d i j =>
    obtain ⟨e, he, -⟩ := Option.map_eq_some_iff.mp (show (S.entry d i j).map frameOf = some f from ho)
    obtain ⟨t, ht⟩ := h.entries d i j e he
    exact page_mem_owners (h.low d (h.tables d i t ht)) i j
  | pageHand => exact pageHand_mem_owners
  | tableHand => exact tableHand_mem_owners

end Spaces

/-- The frames the allocator can hand out from `fr` on. -/
def Pool (fr : FrameState) (f : Nat) : Prop :=
  firstFrame ≤ f ∧ f < fr.totalFrames ∧ fr.frameBitmap f = false

/-- The allocator's books agree with the owners. -/
structure Accounting (fr0 fr : FrameState) (S : Spaces) : Prop where
  counted : fr.Counted
  initialized : fr.frameInitialized = true
  total : fr.totalFrames = fr0.totalFrames
  base : ∀ f, ¬ Pool fr0 f →
    fr.frameBitmap f = fr0.frameBitmap f ∧ fr.frameRefcounts f = fr0.frameRefcounts f
  wellFormed : S.WellFormed
  pool : ∀ o f, S.held o = some f → Pool fr0 f
  exact : ∀ f, Pool fr0 f → fr.frameRefcounts f = holders owners S.held f
  single : ∀ o f, o.structural = true → S.held o = some f → fr.frameRefcounts f = 1

namespace Accounting

variable {fr0 fr : FrameState} {S S' : Spaces} {o p : Owner} {f : Nat}

/-- A frame with an owner has a reference. -/
theorem refcount_pos (h : Accounting fr0 fr S) (ho : S.held o = some f) :
    0 < fr.frameRefcounts f := by
  rw [h.exact f (h.pool o f ho)]
  exact holders_pos_iff.mpr ⟨o, h.wellFormed.mem_owners ho, ho⟩

/-- A frame with an owner is tracked. -/
theorem lt_total (h : Accounting fr0 fr S) (ho : S.held o = some f) : f < fr.totalFrames := by
  rw [h.total]
  exact (h.pool o f ho).2.1

/-- So its number fits in an entry. -/
theorem lt_max (h : Accounting fr0 fr S) (ho : S.held o = some f) : f < 1048576 := by
  have h1 := h.lt_total ho
  have h2 := h.counted.total_le
  simp only [maxFrames] at h2
  omega

/-- A frame with one reference has one owner. -/
theorem unique (h : Accounting fr0 fr S) (ho : S.held o = some f) (ho' : S.held p = some f)
    (h1 : fr.frameRefcounts f = 1) : o = p := by
  rw [h.exact f (h.pool o f ho)] at h1
  exact eq_of_holders_eq_one h1 (h.wellFormed.mem_owners ho) (h.wellFormed.mem_owners ho') ho ho'

/-- The frame of a directory or table has no other owner. -/
theorem structural_unique (h : Accounting fr0 fr S) (hs : o.structural = true)
    (ho : S.held o = some f) (ho' : S.held p = some f) : o = p :=
  h.unique ho ho' (h.single o f hs ho)

/-- A free frame has no owner. -/
theorem not_held_of_free (h : Accounting fr0 fr S) (hfree : fr.frameBitmap f = false) (o : Owner) :
    S.held o ≠ some f := by
  intro ho
  have := (h.counted.live_iff f (h.lt_total ho)).mpr (h.refcount_pos ho)
  rw [hfree] at this
  cases this

/-- A free frame above the kernel image is one the allocator could hand out at the start. -/
theorem pool_of_free (h : Accounting fr0 fr S) (hlow : firstFrame ≤ f) (hf : f < fr.totalFrames)
    (hfree : fr.frameBitmap f = false) : Pool fr0 f := by
  by_contra hp
  have := (h.base f hp).1
  rw [h.total] at hf
  exact hp ⟨hlow, hf, by rw [← this]; exact hfree⟩

/-- **Take**: a free frame goes to an empty hand. -/
theorem take (h : Accounting fr0 fr S) (hlow : firstFrame ≤ f) (hf : f < fr.totalFrames)
    (hfree : fr.frameBitmap f = false) (hmem : o ∈ owners) (hnone : S.held o = none)
    (hheld : S'.held = update S.held o (some f)) (hwf : S'.WellFormed) :
    Accounting fr0 (fr.take f) S' where
  counted := h.counted.take hf hfree
  initialized := h.initialized
  total := h.total
  base := by
    intro g hg
    have hgf : g ≠ f := fun hgf => hg (hgf ▸ h.pool_of_free hlow hf hfree)
    have hb := h.base g hg
    refine ⟨(FrameState.take_bitmap_of_ne hgf).trans hb.1, ?_⟩
    show update fr.frameRefcounts f 1 g = _
    rw [update_of_ne hgf]
    exact hb.2
  wellFormed := hwf
  pool := by
    intro x g hx
    rw [hheld] at hx
    by_cases hxo : x = o
    · subst hxo
      rw [update_self, Option.some_inj] at hx
      exact hx ▸ h.pool_of_free hlow hf hfree
    · rw [update_of_ne hxo] at hx
      exact h.pool x g hx
  exact := by
    intro g hg
    have hzero : fr.frameRefcounts f = 0 := by
      have := h.counted.live_iff f hf
      rw [hfree] at this
      simp only [Bool.false_eq_true, false_iff] at this
      omega
    rw [FrameState.take_refcount hzero, h.exact g hg, hheld, holders_acquire hmem hnone]
  single := by
    intro x g hs hx
    rw [hheld] at hx
    show update fr.frameRefcounts f 1 g = 1
    by_cases hxo : x = o
    · subst hxo
      rw [update_self, Option.some_inj] at hx
      rw [hx, update_self]
    · rw [update_of_ne hxo] at hx
      by_cases hgf : g = f
      · rw [hgf, update_self]
      · rw [update_of_ne hgf]
        exact h.single x g hs hx

/-- **Drop**: a hand gives its frame back. -/
theorem drop (h : Accounting fr0 fr S) (ho : S.held o = some f)
    (hheld : S'.held = update S.held o none) (hwf : S'.WellFormed) :
    Accounting fr0 (fr.dropRef f) S' where
  counted := h.counted.dropRef (h.lt_total ho) (h.refcount_pos ho)
  initialized := h.initialized
  total := h.total
  base := by
    intro g hg
    have hgf : g ≠ f := fun hgf => hg (hgf ▸ h.pool o f ho)
    have hb := h.base g hg
    refine ⟨(FrameState.dropRef_bitmap_of_ne hgf).trans hb.1, ?_⟩
    have hrc := FrameState.dropRef_refcount (h.refcount_pos ho) g
    rw [if_neg (Ne.symm hgf), Nat.add_zero] at hrc
    rw [hrc]
    exact hb.2
  wellFormed := hwf
  pool := by
    intro x g hx
    rw [hheld] at hx
    by_cases hxo : x = o
    · subst hxo
      rw [update_self] at hx
      cases hx
    · rw [update_of_ne hxo] at hx
      exact h.pool x g hx
  exact := by
    intro g hg
    have h1 := FrameState.dropRef_refcount (h.refcount_pos ho) g
    have h2 := holders_release (l := g) (h.wellFormed.mem_owners ho) ho
    have h3 := h.exact g hg
    rw [hheld]
    omega
  single := by
    intro x g hs hx
    rw [hheld] at hx
    have hxo : x ≠ o := by
      rintro rfl
      rw [update_self] at hx
      cases hx
    rw [update_of_ne hxo] at hx
    have h1 := h.single x g hs hx
    -- the dropped frame has the hand as an owner, so it is not the frame of `x`
    have hgf : f ≠ g := by
      rintro rfl
      exact hxo (h.unique hx ho h1)
    have hrc := FrameState.dropRef_refcount (h.refcount_pos ho) g
    rw [if_neg hgf, Nat.add_zero] at hrc
    rw [hrc]
    exact h1

/-- **Retain**: a frame that a page holds also goes to an empty page hand. -/
theorem retain (h : Accounting fr0 fr S) (ho : S.held o = some f) (ho' : o.structural = false)
    (hmax : fr.frameRefcounts f ≠ 0xFFFF) (hnone : S.held .pageHand = none)
    (hheld : S'.held = update S.held .pageHand (some f)) (hwf : S'.WellFormed) :
    Accounting fr0 (fr.addRef f) S' where
  counted := h.counted.addRef (h.refcount_pos ho) hmax
  initialized := h.initialized
  total := h.total
  base := by
    intro g hg
    have hgf : f ≠ g := fun hgf => hg (hgf ▸ h.pool o f ho)
    refine ⟨(h.base g hg).1, ?_⟩
    rw [FrameState.addRef_refcount, if_neg hgf, Nat.add_zero]
    exact (h.base g hg).2
  wellFormed := hwf
  pool := by
    intro x g hx
    rw [hheld] at hx
    by_cases hxo : x = .pageHand
    · subst hxo
      rw [update_self, Option.some_inj] at hx
      exact hx ▸ h.pool o f ho
    · rw [update_of_ne hxo] at hx
      exact h.pool x g hx
  exact := by
    intro g hg
    rw [FrameState.addRef_refcount, h.exact g hg, hheld,
      holders_acquire pageHand_mem_owners hnone]
  single := by
    intro x g hs hx
    rw [hheld] at hx
    have hxo : x ≠ .pageHand := by
      rintro rfl
      cases hs
    rw [update_of_ne hxo] at hx
    have h1 := h.single x g hs hx
    have hgf : f ≠ g := by
      rintro rfl
      have := h.unique hx ho h1
      rw [this, ho'] at hs
      cases hs
    rw [FrameState.addRef_refcount, if_neg hgf, Nat.add_zero]
    exact h1

/-- **Exchange**: two owners of the same kind swap their frames. -/
theorem exchange (h : Accounting fr0 fr S) (hmem : o ∈ owners) (hmem' : p ∈ owners)
    (hkind : o.structural = p.structural) (h1 : S'.held o = S.held p) (h2 : S'.held p = S.held o)
    (h3 : ∀ x, x ≠ o → x ≠ p → S'.held x = S.held x) (hwf : S'.WellFormed) :
    Accounting fr0 fr S' where
  counted := h.counted
  initialized := h.initialized
  total := h.total
  base := h.base
  wellFormed := hwf
  pool := by
    intro x g hx
    by_cases hxo : x = o
    · subst hxo; exact h.pool p g (h1 ▸ hx)
    · by_cases hxo' : x = p
      · subst hxo'; exact h.pool o g (h2 ▸ hx)
      · exact h.pool x g (h3 x hxo hxo' ▸ hx)
  exact := by
    intro g hg
    rw [h.exact g hg]
    exact (holders_exchange hmem hmem' h1 h2 h3).symm
  single := by
    intro x g hs hx
    by_cases hxo : x = o
    · subst hxo; exact h.single p g (hkind ▸ hs) (h1 ▸ hx)
    · by_cases hxo' : x = p
      · subst hxo'; exact h.single o g (hkind ▸ hs) (h2 ▸ hx)
      · exact h.single x g hs (h3 x hxo hxo' ▸ hx)

/-- Owners that hold the same frames keep the books. -/
theorem congr (h : Accounting fr0 fr S) (hheld : S'.held = S.held) (hwf : S'.WellFormed) :
    Accounting fr0 fr S' where
  counted := h.counted
  initialized := h.initialized
  total := h.total
  base := h.base
  wellFormed := hwf
  pool := by rw [hheld]; exact h.pool
  exact := by rw [hheld]; exact h.exact
  single := by rw [hheld]; exact h.single

end Accounting

end AgenticOs
