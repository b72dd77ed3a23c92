import AgenticOs.Memory.PageOps

/-!
# Destroying an address space

`paging_destroy_address_space` and the two unwinding routines of `paging_clone_directory` share one shape: a
loop over the directory that gives back every owned table, with or without the user pages under it, and then
the directory itself.

* **The loop** (`foldl_clear`): a body that skips what the directory does not own, and gives back a table that
  it owns, clears the whole directory. Each routine supplies what its body does to one table.
* **Pages** (`freeUserPages_represents`): the inner loop releases every user page of a table.
* **Routines**: `destroyAddressSpace`, `destroyCloneWithRefs`, and `destroyCloneSkeleton` for a directory
  without user pages. The directory has to be live and not loaded; it is gone afterwards (`Spaces.destroy`).
* **Frame** (`destroy_ram`): what the allocator never had is not written.
-/

namespace AgenticOs

open Function Finset Lib

/-- The tables of `(d, i)`, for `i` in `l`, and the pages under them are gone. -/
def Spaces.clearTables (S : Spaces) (d : Nat) (l : List TableIndex) : Spaces :=
  (S.withTables fun d' i' => if d' = d ∧ i' ∈ l then none else S.table d' i').withEntry
    fun d' i' j' => if d' = d ∧ i' ∈ l then none else S.entry d' i' j'

/-- Address space `d` is gone. -/
def Spaces.destroy (S : Spaces) (d : Nat) : Spaces :=
  (S.clearTables d tableIndices).withLive (S.live.erase d)

namespace Represents

variable {m0 m : Memory} {S : Spaces} {d t f : Nat} {i j : TableIndex}

/-! ### The pages of a table -/

/-- Clearing the pages `(d, i, j)` for `j` in `l`. -/
def clearEntries (entry : Nat → TableIndex → TableIndex → Option Word) (d : Nat) (i : TableIndex)
    (l : List TableIndex) : Nat → TableIndex → TableIndex → Option Word :=
  fun d' i' j' => if d' = d ∧ i' = i ∧ j' ∈ l then none else entry d' i' j'

/-- One entry, then the others. -/
theorem clearEntries_cons (entry : Nat → TableIndex → TableIndex → Option Word) (l : List TableIndex) :
    clearEntries (setAt entry d i j none) d i l = clearEntries entry d i (j :: l) := by
  funext d' i' j'
  unfold clearEntries setAt
  by_cases h1 : d' = d ∧ i' = i
  · by_cases h2 : j' ∈ l
    · simp [h1, h2]
    · by_cases h3 : j' = j <;> simp [h1, h2, h3]
  · have h2 : ∀ p : Prop, ¬ (d' = d ∧ i' = i ∧ p) := fun p hc => h1 ⟨hc.1, hc.2.1⟩
    simp only [h2, if_false]

/-- The inner loop releases every user page of the table. -/
theorem freeUserPages_represents (h : Represents m0 m S) (ht : S.table d i = some t)
    (hhand : S.pageHand = none) :
    Represents m0 (m.freeUserPages (frameAddr t))
      (S.withEntry (clearEntries S.entry d i tableIndices)) := by
  have htlt : t < 1048576 := h.books.lt_max (o := .table d i) ht
  unfold Memory.freeUserPages
  induction tableIndices generalizing m S with
  | nil =>
    refine h.of_eq ?_
    ext1
    case entry => funext d' i' j'; simp [clearEntries]
    all_goals rfl
  | cons j l ih =>
    rw [List.foldl_cons, Memory.freeUserPage]
    have hentry : m.entry (frameAddr t) j = m.ram t j := by
      unfold Memory.entry
      rw [frameOf_frameAddr htlt]
    have hpage := h.layout.pages d i t ht j
    have step : ∀ {m' : Memory} {S' : Spaces}, Represents m0 m' S' → S'.table = S.table →
        S'.pageHand = none → S' = S.withEntry (setAt S.entry d i j none) →
        Represents m0 (l.foldl (Memory.freeUserPage (frameAddr t)) m')
          (S.withEntry (clearEntries S.entry d i (j :: l))) := by
      intro m' S' h' ht' hh' hS'
      refine (ih h' (ht' ▸ ht) hh').of_eq ?_
      rw [hS', ← clearEntries_cons]
      rfl
    rcases hu : userEntry (m.ram t j) with _ | e
    · rw [if_neg (by rw [hentry, has_presentUser_of_none hu]; decide)]
      refine step h rfl hhand ?_
      rw [setAt_self (hpage.trans hu)]
      rfl
    · obtain ⟨hp, hus, rfl⟩ := userEntry_eq_some.mp hu
      have he : S.entry d i j = some (m.ram t j) := hpage.trans hu
      rw [hentry, if_pos (by rw [has_or, has_pagePresent, has_pageUser, hp, hus]; rfl),
        and_addrMask, h.frameFree_eq (held_page he), setEntry_frameAddr htlt]
      have h1 := h.writePage (j := j) ht 0x02 (by rw [hhand, userEntry_absent]; rfl)
        (fun _ _ => by decide)
      have h2 := h1.dropPage (f := frameOf (m.ram t j)) (by rw [he]; rfl)
      refine step h2 rfl rfl ?_
      rw [userEntry_absent]
      ext1
      case pageHand => exact hhand.symm
      all_goals rfl

/-! ### The tables of a directory -/

/-- No table is cleared. -/
theorem clearTables_nil : S.clearTables d [] = S := by
  ext1
  case table => funext d' i'; simp [Spaces.clearTables]
  case entry => funext d' i' j'; simp [Spaces.clearTables]
  all_goals rfl

/-- One table, then the others. -/
theorem clearTables_cons (l : List TableIndex) :
    (S.clearTables d [i]).clearTables d l = S.clearTables d (i :: l) := by
  have key : ∀ {α : Type} (i' : TableIndex) (d' : Nat) (x : Option α),
      (if d' = d ∧ i' ∈ l then none else if d' = d ∧ i' ∈ [i] then none else x) =
        if d' = d ∧ i' ∈ i :: l then none else x := by
    intro α i' d' x
    by_cases h1 : d' = d
    · by_cases h2 : i' ∈ l
      · simp [h1, h2]
      · by_cases h3 : i' = i <;> simp [h1, h2, h3]
    · simp [h1]
  ext1
  case table => funext d' i'; exact key i' d' _
  case entry => funext d' i' j'; exact key i' d' _
  all_goals rfl

/-- Clearing a table that is not there changes nothing. -/
theorem clearTables_of_none (h : Represents m0 m S) (ht : S.table d i = none) :
    S.clearTables d [i] = S := by
  ext1
  case table =>
    funext d' i'
    show (if d' = d ∧ i' ∈ [i] then none else S.table d' i') = _
    by_cases hc : d' = d ∧ i' ∈ [i]
    · rw [if_pos hc, hc.1, List.mem_singleton.mp hc.2, ht]
    · rw [if_neg hc]
  case entry =>
    funext d' i' j'
    show (if d' = d ∧ i' ∈ [i] then none else S.entry d' i' j') = _
    by_cases hc : d' = d ∧ i' ∈ [i]
    · rw [if_pos hc, hc.1, List.mem_singleton.mp hc.2, h.entry_none_of_table_none ht]
    · rw [if_neg hc]
  all_goals rfl

/-- Giving back a table under which no page is mapped. -/
theorem freeEmptyTable (h : Represents m0 m S) (ht : S.table d i = some t)
    (hhand : S.tableHand = none) (hempty : ∀ j, S.entry d i j = none) :
    Represents m0 ((m.frameFree (frameAddr t)).setEntry (frameAddr d) i 0x02)
      (S.clearTables d [i]) := by
  obtain ⟨hd, -, -, -⟩ := h.entry_of_table ht
  have hown := ownedTable_absent i
  have habs : isPresent (0x02 : Word) = false := absent_bits.1
  have h1 := h.writeDir hd 0x02 hempty (by rw [hhand, hown])
    (fun t' ht' => by rw [hown] at ht'; cases ht') (fun t' ht' => by rw [hown] at ht'; cases ht')
    (fun hp => by rw [habs] at hp; cases hp) (fun hp => by rw [habs] at hp; cases hp)
  have h2 := h1.dropTable (f := t) ht
  rw [h.frameFree_eq (o := .table d i) ht, setEntry_frameAddr (h.live_lt hd)]
  refine h2.of_eq ?_
  rw [hown]
  ext1
  case table =>
    funext d' i'
    show (if d' = d ∧ i' = i then none else S.table d' i') = if d' = d ∧ i' ∈ [i] then none else _
    simp
  case entry =>
    funext d' i' j'
    show S.entry d' i' j' = if d' = d ∧ i' ∈ [i] then none else _
    by_cases hc : d' = d ∧ i' ∈ [i]
    · rw [if_pos hc, hc.1, List.mem_singleton.mp hc.2, hempty]
    · rw [if_neg hc]
  case tableHand => exact hhand.symm
  all_goals rfl

/-- Giving back a table and the pages under it. -/
theorem freeTable (h : Represents m0 m S) (ht : S.table d i = some t)
    (hhand : S.tableHand = none) (hpage : S.pageHand = none) :
    Represents m0
      (((m.freeUserPages (frameAddr t)).frameFree (frameAddr t)).setEntry (frameAddr d) i 0x02)
      (S.clearTables d [i]) := by
  have h1 := h.freeUserPages_represents ht hpage
  have h2 := h1.freeEmptyTable (d := d) (i := i) (t := t) ht hhand (fun j => by
    show clearEntries S.entry d i tableIndices d i j = none
    unfold clearEntries
    rw [if_pos ⟨rfl, rfl, Memory.mem_tableIndices j⟩])
  refine h2.of_eq ?_
  ext1
  case entry =>
    funext d' i' j'
    show (if d' = d ∧ i' ∈ [i] then none else clearEntries S.entry d i tableIndices d' i' j') =
      if d' = d ∧ i' ∈ [i] then none else S.entry d' i' j'
    by_cases hc : d' = d ∧ i' ∈ [i]
    · rw [if_pos hc, if_pos hc]
    · rw [if_neg hc, if_neg hc]
      unfold clearEntries
      rw [if_neg]
      rintro ⟨rfl, rfl, -⟩
      exact hc ⟨rfl, List.mem_singleton_self _⟩
  all_goals rfl

/-- **The loop over a directory**: a body that skips what the directory does not own, and gives back
a table it owns, clears the whole directory. -/
theorem foldl_clear (step : Memory → TableIndex → Memory) {P : Spaces → Prop}
    (hP : ∀ S i, P S → P (S.clearTables d [i]))
    (hskip : ∀ m S i, Represents m0 m S → P S → d ∈ S.live → S.table d i = none → step m i = m)
    (hfree : ∀ m S i t, Represents m0 m S → P S → S.table d i = some t → S.tableHand = none →
      S.pageHand = none → Represents m0 (step m i) (S.clearTables d [i]))
    (l : List TableIndex) (h : Represents m0 m S) (hp : P S) (hd : d ∈ S.live)
    (hhand : S.tableHand = none) (hpage : S.pageHand = none) :
    Represents m0 (l.foldl step m) (S.clearTables d l) := by
  induction l generalizing m S with
  | nil => exact h.of_eq clearTables_nil.symm
  | cons i l ih =>
    rw [List.foldl_cons]
    rcases ht : S.table d i with _ | t
    · rw [hskip m S i h hp hd ht]
      refine (ih h hp hd hhand hpage).of_eq ?_
      rw [← clearTables_cons, h.clearTables_of_none ht]
    · have h1 := hfree m S i t h hp ht hhand hpage
      exact (ih h1 (hP S i hp) hd hhand hpage).of_eq (clearTables_cons l)

/-- The last step of every destroy: the directory itself. -/
theorem freeDirectory (h : Represents m0 m (S.clearTables d tableIndices)) (hd : d ∈ S.live)
    (hhand : S.tableHand = none) (hactive : m.activePageDirectory ≠ frameAddr d) :
    Represents m0 (m.frameFree (frameAddr d)) (S.destroy d) := by
  have hd' : d ∈ (S.clearTables d tableIndices).live := hd
  have h1 := h.dropDir hd' hhand (fun i => by
    show (if d = d ∧ i ∈ tableIndices then none else S.table d i) = none
    rw [if_pos ⟨rfl, Memory.mem_tableIndices i⟩]) hactive
  have h2 := h1.dropTable (f := d) rfl
  rw [h.frameFree_eq (held_dir hd')]
  refine h2.of_eq ?_
  ext1
  case tableHand => exact hhand.symm
  all_goals rfl

/-- An entry the loops skip: absent, or shared with the kernel. -/
theorem skip_iff (h : Represents m0 m S) (hd : d ∈ S.live) :
    S.table d i = none ↔
      isPresent (m.ram d i) = false ∨ (i ≠ 0 ∧ isUser (m.ram d i) = false) := by
  rw [h.layout.dirs d hd i, ownedTable]
  by_cases hp : isPresent (m.ram d i) = true
  · by_cases hi : i = 0
    · simp [ownsTable, hi]
    · by_cases hu : isUser (m.ram d i) = true <;> simp [ownsTable, hp, hi, hu]
  · simp [ownsTable, hp]

/-- An entry at the address of a frame. -/
theorem entry_frameAddr (hf : f < 1048576) : m.entry (frameAddr f) i = m.ram f i := by
  unfold Memory.entry
  rw [frameOf_frameAddr hf]

/-- The tests of the three loop bodies on an entry the directory owns. -/
theorem owned_tests (h : Represents m0 m S) (ht : S.table d i = some t) :
    ¬ test (m.entry (frameAddr d) i) pagePresent = false ∧
      ¬ (i ≠ 0 ∧ test (m.entry (frameAddr d) i) pageUser = false) ∧
      m.entry (frameAddr d) i &&& addrMask = frameAddr t := by
  obtain ⟨hd, hp, hu, hf⟩ := h.entry_of_table ht
  rw [entry_frameAddr (h.live_lt hd), test_pagePresent, test_pageUser, and_addrMask, hf]
  refine ⟨by rw [hp]; decide, ?_, rfl⟩
  rintro ⟨hi, hc⟩
  rw [hu hi] at hc
  cases hc

/-- The loop body of `paging_destroy_address_space` skips what the directory does not own. -/
theorem destroyTable_skip (h : Represents m0 m S) (hd : d ∈ S.live) (ht : S.table d i = none) :
    Memory.destroyTable (frameAddr d) m i = m := by
  unfold Memory.destroyTable
  rw [entry_frameAddr (h.live_lt hd), test_pagePresent, test_pageUser]
  rcases (h.skip_iff hd).mp ht with hp | hiu
  · rw [if_pos hp]
  · dsimp only
    split
    · rfl
    · rw [if_pos (.inr hiu)]

/-- It gives back a table that the directory owns. -/
theorem destroyTable_own (h : Represents m0 m S) (ht : S.table d i = some t) :
    Memory.destroyTable (frameAddr d) m i =
      ((m.freeUserPages (frameAddr t)).frameFree (frameAddr t)).setEntry (frameAddr d) i 0x02 := by
  obtain ⟨hp, hu, ha⟩ := h.owned_tests ht
  unfold Memory.destroyTable
  rw [if_neg hp, ha]
  dsimp only
  rw [if_neg]
  rw [not_or]
  refine ⟨fun hc => ?_, hu⟩
  have h1 := congrArg frameOf hc
  rw [frameOf_frameAddr (h.books.lt_max (o := .table d i) ht)] at h1
  have h2 := h.held_ge (o := .table d i) ht
  have h3 : frameOf firstPageTable = 257 := by decide
  simp only [firstFrame] at h2
  omega

/-- `paging_destroy_address_space` of a live directory that is not loaded. -/
theorem destroyAddressSpace (h : Represents m0 m S) (hd : d ∈ S.live)
    (hhand : S.tableHand = none) (hpage : S.pageHand = none)
    (hactive : m.activePageDirectory ≠ frameAddr d) :
    Represents m0 (m.pagingDestroyAddressSpace (frameAddr d)) (S.destroy d) := by
  unfold Memory.pagingDestroyAddressSpace
  dsimp only
  have hlt := h.live_lt hd
  have hkernel : frameAddr d ≠ pageDirectory := by
    intro hc
    have := congrArg frameOf hc
    rw [frameOf_frameAddr hlt] at this
    exact h.held_ne_kernel (held_dir hd) this
  rw [frameAddr_and_addrMask hlt, if_neg (by
    rw [not_or, not_or]
    exact ⟨h.frameAddr_live_ne_zero hd, hkernel, Ne.symm hactive⟩)]
  have hloop := foldl_clear (d := d) (Memory.destroyTable (frameAddr d))
    (P := fun _ => True) (fun _ _ _ => trivial) ?_ ?_ tableIndices h trivial hd hhand hpage
  · exact hloop.freeDirectory hd hhand (by rw [Memory.destroyTables_active]; exact hactive)
  · exact fun m S i h _ hd ht => h.destroyTable_skip hd ht
  · intro m S i t h _ ht hhand hpage
    rw [h.destroyTable_own ht]
    exact h.freeTable ht hhand hpage

/-- The pages of a table are given back: no other frame is written. -/
theorem freeUserPages_ram {g : Nat} (ht : t < 1048576) (hg : g ≠ t) (m : Memory) :
    (m.freeUserPages (frameAddr t)).ram g = m.ram g := by
  have hpage (m : Memory) (j : TableIndex) : (Memory.freeUserPage (frameAddr t) m j).ram g = m.ram g := by
    unfold Memory.freeUserPage
    split
    · rw [setEntry_frameAddr ht, Memory.writeFrame_ram, update_of_ne hg, frameFree_ram]
    · rfl
  -- the list is left abstract: the loop is not to be run
  have hloop (l : List TableIndex) (m m' : Memory) (hm : m' = l.foldl (Memory.freeUserPage (frameAddr t)) m) :
      m'.ram g = m.ram g := by
    induction l generalizing m with
    | nil => rw [hm, List.foldl_nil]
    | cons j l ih => rw [ih _ hm, hpage]
  refine hloop tableIndices m _ ?_
  unfold Memory.freeUserPages
  rfl

/-- What the allocator never had is not written when an address space is destroyed. -/
theorem destroy_ram {g : Nat} (h : Represents m0 m S) (hd : d ∈ S.live) (hhand : S.tableHand = none)
    (hpage : S.pageHand = none) (hg : ¬Pool m0.frames g) :
    (m.pagingDestroyAddressSpace (frameAddr d)).ram g = m.ram g := by
  have hgd : g ≠ d := by
    rintro rfl
    exact hg (h.books.pool _ _ (held_dir hd))
  have hloop (l : List TableIndex) (m' : Memory) (hm : m' = l.foldl (Memory.destroyTable (frameAddr d)) m) :
      m'.ram g = m.ram g := by
    induction l generalizing m S with
    | nil => rw [hm, List.foldl_nil]
    | cons i l ih =>
      rw [List.foldl_cons] at hm
      rcases ht : S.table d i with _ | t
      · rw [h.destroyTable_skip hd ht] at hm
        exact ih h hd hhand hpage hm
      · have hfreed := h.freeTable ht hhand hpage
        have htlt : t < 1048576 := h.books.lt_max (o := .table d i) ht
        have hgt : g ≠ t := by
          rintro rfl
          exact hg (h.books.pool (.table d i) _ ht)
        rw [h.destroyTable_own ht] at hm
        rw [ih hfreed hd hhand hpage hm, setEntry_frameAddr (h.live_lt hd), Memory.writeFrame_ram, update_of_ne hgd,
          frameFree_ram, freeUserPages_ram htlt hgt]
  unfold Memory.pagingDestroyAddressSpace
  dsimp only
  split
  · rfl
  · rw [frameAddr_and_addrMask (h.live_lt hd), frameFree_ram]
    exact hloop tableIndices _ rfl

/-- `paging_destroy_clone_with_refs` of a live directory that is not loaded. -/
theorem destroyCloneWithRefs (h : Represents m0 m S) (hd : d ∈ S.live)
    (hhand : S.tableHand = none) (hpage : S.pageHand = none)
    (hactive : m.activePageDirectory ≠ frameAddr d) :
    Represents m0 (m.pagingDestroyCloneWithRefs (frameAddr d)) (S.destroy d) := by
  unfold Memory.pagingDestroyCloneWithRefs
  have hlt := h.live_lt hd
  rw [if_neg (h.frameAddr_live_ne_zero hd)]
  have hloop := foldl_clear (d := d) (Memory.destroyRefsTable (frameAddr d))
    (P := fun _ => True) (fun _ _ _ => trivial) ?_ ?_ tableIndices h trivial hd hhand hpage
  · exact hloop.freeDirectory hd hhand (by rw [Memory.destroyRefsTables_active]; exact hactive)
  · intro m S i h _ hd ht
    unfold Memory.destroyRefsTable
    rw [entry_frameAddr hlt, test_pagePresent, test_pageUser]
    rcases (h.skip_iff hd).mp ht with hp | hiu
    · rw [if_pos hp]
    · rw [if_pos hiu, ite_self]
  · intro m S i t h _ ht hhand hpage
    obtain ⟨hp, hu, ha⟩ := h.owned_tests ht
    unfold Memory.destroyRefsTable
    rw [if_neg hp, if_neg hu, ha]
    exact h.freeTable ht hhand hpage

/-- `paging_destroy_clone_skeleton` of a live directory that is not loaded and maps no user page. -/
theorem destroyCloneSkeleton (h : Represents m0 m S) (hd : d ∈ S.live)
    (hhand : S.tableHand = none) (hpage : S.pageHand = none)
    (hactive : m.activePageDirectory ≠ frameAddr d) (hempty : ∀ i j, S.entry d i j = none) :
    Represents m0 (m.pagingDestroyCloneSkeleton (frameAddr d)) (S.destroy d) := by
  unfold Memory.pagingDestroyCloneSkeleton
  have hlt := h.live_lt hd
  rw [if_neg (h.frameAddr_live_ne_zero hd)]
  have hloop := foldl_clear (d := d) (Memory.destroySkeletonTable (frameAddr d))
    (P := fun S => ∀ i j, S.entry d i j = none) ?_ ?_ ?_ tableIndices h hempty hd hhand hpage
  · exact hloop.freeDirectory hd hhand (by rw [Memory.destroySkeletonTables_active]; exact hactive)
  · intro S i hS i' j'
    show (if d = d ∧ i' ∈ [i] then none else S.entry d i' j') = none
    rw [hS]
    exact ite_self _
  · intro m S i h _ hd ht
    unfold Memory.destroySkeletonTable
    rw [entry_frameAddr hlt, test_pagePresent, test_pageUser]
    rcases (h.skip_iff hd).mp ht with hp | hiu
    · rw [if_pos hp]
    · rw [if_pos hiu, ite_self]
  · intro m S i t h hS ht hhand _
    obtain ⟨hp, hu, ha⟩ := h.owned_tests ht
    unfold Memory.destroySkeletonTable
    rw [if_neg hp, if_neg hu, ha]
    exact h.freeEmptyTable ht hhand (hS i)

end Represents

end AgenticOs
