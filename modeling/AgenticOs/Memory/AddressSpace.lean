import AgenticOs.Memory.Moves

/-!
# The operations on one address space

The allocator calls, the reads of directories and `paging_create_address_space` on represented memory, each
from the moves of `Moves.lean`. A failed call leaves the address spaces as they were.

* **Allocator** (`allocPage_cases`, `allocTable_cases`): `frame_alloc_below` and `allocator_alloc_page_table`
  fail and change nothing, or put a page into the one hand, a table of absent entries into the other.
* **Directories**: what an entry of a live directory says about the table under it (`user_of_present`,
  `entry_of_table`, `entry_dir`).
* **Creation** (`createAddressSpace`): it fails and changes nothing, or adds an address space without user
  pages. Its loop over the active directory copies supervisor entries and writes no table
  (`shareSupervisor_represents`).
* **Frame** (`create_ram`): what the allocator never had is not written when an address space is created.
-/

namespace AgenticOs

open Function Finset Lib

namespace Represents

variable {m0 m : Memory} {S : Spaces} {d t f : Nat} {i j : TableIndex} {o : Owner}

/-! ### The allocator calls -/

/-- **`frame_free`** of a frame that is held -/
theorem frameFree_eq (h : Represents m0 m S) (ho : S.held o = some f) :
    m.frameFree (frameAddr f) = (m.withFrames (m.frames.dropRef f)) := by
  unfold Memory.frameFree Memory.frameRelease
  rw [FrameState.frameRelease_eq h.books.counted h.books.initialized (h.held_ge ho)
    (h.books.lt_total ho) (h.books.refcount_pos ho)]

/-- **`frame_release`** of a frame that is held -/
theorem frameRelease_eq (h : Represents m0 m S) (ho : S.held o = some f) :
    m.frameRelease (frameAddr f) = (true, (m.withFrames (m.frames.dropRef f))) := by
  unfold Memory.frameRelease
  rw [FrameState.frameRelease_eq h.books.counted h.books.initialized (h.held_ge ho)
    (h.books.lt_total ho) (h.books.refcount_pos ho)]

/-- **`frame_get_refcount`** of a frame that is held -/
theorem frameGetRefcount_eq (h : Represents m0 m S) (ho : S.held o = some f) :
    m.frames.frameGetRefcount (frameAddr f) = m.frames.frameRefcounts f :=
  FrameState.frameGetRefcount_eq h.books.counted h.books.initialized (h.books.lt_total ho)

/-- Memory after `allocator_alloc_page_table` has returned frame `f`. -/
def withTable (m : Memory) (f : Nat) : Memory :=
  (m.withFrames (m.frames.take f)).writeFrame f fun _ => 0x02

/-- `allocator_alloc_page_table` fails and changes nothing, or puts a table of absent entries into
the table hand. -/
theorem allocTable_cases (h : Represents m0 m S) (hhand : S.tableHand = none) :
    m.allocatorAllocPageTable = (0, m) ∨
    ∃ f, 0 < f ∧ f < 1024 ∧ m.frames.frameBitmap f = false ∧
      m.allocatorAllocPageTable = (frameAddr f, withTable m f) ∧
      Represents m0 (withTable m f) (S.withTableHand (some f)) := by
  unfold Memory.allocatorAllocPageTable Memory.pagingAllocFrame Memory.frameAllocBelow
  rcases FrameState.frameAllocBelow_cases m.frames identityMappedLimit with
    ⟨heq, -⟩ | ⟨f, hlow, hlim, hf, hfree, -, heq⟩
  · left
    rw [heq]
    rfl
  · right
    have hlim' : f < 1024 := by
      have : identityMappedLimit / frameSize = 1024 := by decide
      omega
    have hpos : 0 < f := by
      simp only [firstFrame] at hlow
      omega
    refine ⟨f, hpos, hlim', hfree, ?_, ?_⟩
    · rw [heq]
      dsimp only
      rw [if_neg (frameAddr_ne_zero hpos (by omega)), Memory.fillTable_eq,
        frameOf_frameAddr (by omega)]
      rfl
    · have h1 := h.takeTable hlow hf hfree hhand
      exact h1.writeTableHand rfl _

/-- `frame_alloc_below` fails and changes nothing, or puts a page into the page hand. -/
theorem allocPage_cases (h : Represents m0 m S) (hhand : S.pageHand = none) (limit : Nat) :
    m.frameAllocBelow limit = (0, m) ∨
    ∃ f, 0 < f ∧ f < 1048576 ∧ m.frames.frameBitmap f = false ∧
      m.frameAllocBelow limit = (frameAddr f, (m.withFrames (m.frames.take f))) ∧
      Represents m0 (m.withFrames (m.frames.take f))
        ((S.withPageHand (some f)).withContent (update S.content f (m.ram f))) := by
  unfold Memory.frameAllocBelow
  rcases FrameState.frameAllocBelow_cases m.frames limit with
    ⟨heq, -⟩ | ⟨f, hlow, -, hf, hfree, -, heq⟩
  · left
    rw [heq]
    rfl
  · right
    refine ⟨f, ?_, ?_, hfree, ?_, h.takePage hlow hf hfree hhand⟩
    · simp only [firstFrame] at hlow
      omega
    · have := h.books.counted.total_le
      simp only [maxFrames] at this
      omega
    · rw [heq]

/-! ### Reading directories -/

/-- What a present directory entry of the user range is. -/
theorem user_of_present (h : Represents m0 m S) (hd : d ∈ S.live) (hi : inUserRange i)
    (hp : isPresent (m.ram d i) = true) :
    isUser (m.ram d i) = true ∧ S.table d i = some (frameOf (m.ram d i)) := by
  have huser : isUser (m.ram d i) = true := by
    by_contra hu
    simp only [Bool.not_eq_true] at hu
    exact (h.layout.shared d hd i hp hu).1 hi
  refine ⟨huser, ?_⟩
  rw [h.layout.dirs d hd i]
  simp [ownedTable, ownsTable, hp, huser]

/-- An absent directory entry has no table behind it. -/
theorem table_none_of_absent (h : Represents m0 m S) (hd : d ∈ S.live)
    (hp : isPresent (m.ram d i) = false) : S.table d i = none := by
  rw [h.layout.dirs d hd i]
  simp [ownedTable, ownsTable, hp]

/-- A directory that owns a table has it in its entry. -/
theorem entry_of_table (h : Represents m0 m S) (ht : S.table d i = some t) :
    d ∈ S.live ∧ isPresent (m.ram d i) = true ∧ (i ≠ 0 → isUser (m.ram d i) = true) ∧
      frameOf (m.ram d i) = t := by
  have hd := h.books.wellFormed.tables d i t ht
  rw [h.layout.dirs d hd i, ownedTable_eq_some] at ht
  simp only [ownsTable, Bool.and_eq_true, Bool.or_eq_true, beq_iff_eq] at ht
  exact ⟨hd, ht.1.1, fun hi => ht.1.2.resolve_left hi, ht.2⟩

/-- Without a table there is no page. -/
theorem entry_none_of_table_none (h : Represents m0 m S) (ht : S.table d i = none) (j : TableIndex) :
    S.entry d i j = none := by
  rcases he : S.entry d i j with _ | e
  · rfl
  · obtain ⟨t, ht'⟩ := h.books.wellFormed.entries d i j e he
    rw [ht] at ht'
    cases ht'

/-- Without a directory there is no table. -/
theorem table_none_of_not_live (h : Represents m0 m S) (hd : d ∉ S.live) (i : TableIndex) :
    S.table d i = none := by
  rcases ht : S.table d i with _ | t
  · rfl
  · exact absurd (h.books.wellFormed.tables d i t ht) hd

/-- Directories are below 4 GiB. -/
theorem live_lt (h : Represents m0 m S) (hd : d ∈ S.live) : d < 1048576 := by
  have := h.books.wellFormed.low d hd
  omega

/-- Frame 0 is no directory. -/
theorem live_pos (h : Represents m0 m S) (hd : d ∈ S.live) : 0 < d := by
  have := h.held_ge (held_dir hd)
  simp only [firstFrame] at this
  omega

/-- `directory[i]` of a live directory. -/
theorem entry_dir (h : Represents m0 m S) (hd : d ∈ S.live) :
    m.entry (frameAddr d &&& addrMask) i = m.ram d i := by
  unfold Memory.entry
  rw [frameOf_and_addrMask, frameOf_frameAddr (h.live_lt hd)]

/-- Writing an entry of a directory or table given by its address. -/
theorem setEntry_frameAddr (hf : f < 1048576) (e : Word) :
    m.setEntry (frameAddr f) i e =
      (m.writeFrame f (update (m.ram f) i e)) := by
  unfold Memory.setEntry
  rw [frameOf_frameAddr hf]

/-- A table that is set to what it was. -/
theorem withTable_self {t : Option Nat} (ht : S.table d i = t) : S.withTable d i t = S := by
  ext1
  case table =>
    funext d' i'
    dsimp only [Spaces.withTable]
    by_cases hc : d' = d ∧ i' = i
    · rw [if_pos hc, hc.1, hc.2, ht]
    · rw [if_neg hc]
  all_goals rfl

/-- Sharing a supervisor entry: no table changes hands. -/
theorem shareDir (h : Represents m0 m S) (hd : d ∈ S.live) (hnone : S.table d i = none)
    (hhand : S.tableHand = none) {e : Word} (hi : i ≠ 0) (huser : isUser e = false)
    (hrange : ¬ inUserRange i) (hker : KernelTable m0 (frameOf e)) :
    Represents m0 (m.writeFrame d (update (m.ram d) i e)) S := by
  have hown : ownedTable i e = none := by simp [ownedTable, ownsTable, hi, huser]
  have h1 := h.writeDir hd e (h.entry_none_of_table_none hnone) (by rw [hown, hhand])
    (fun t ht => by rw [hown] at ht; cases ht) (fun t ht => by rw [hown] at ht; cases ht)
    (fun _ _ => ⟨hrange, fun _ => hker⟩) (fun _ hu => by rw [huser] at hu; cases hu)
  have hS : (S.withTable d i (ownedTable i e)).withTableHand (S.table d i) = S := by
    rw [hown, hnone, withTable_self hnone]
    ext1 <;> first | rfl | exact hhand.symm
  rw [hS] at h1
  exact h1

end Represents

/-! ### `paging_create_address_space` -/

/-- The address space `paging_create_address_space` adds: a directory and its low table. -/
def Spaces.create (S : Spaces) (d t : Nat) : Spaces :=
  (S.withLive (insert d S.live)).withTable d 0 (some t)

namespace Represents

variable {m0 m : Memory} {S : Spaces} {d t f : Nat} {i j : TableIndex}

/-- A free frame is no directory. -/
theorem not_live_of_free (h : Represents m0 m S) (hfree : m.frames.frameBitmap f = false) :
    f ∉ S.live := fun hd => h.books.not_held_of_free hfree _ (held_dir hd)

/-- A directory that is not live and not the kernel's is not loaded. -/
theorem active_ne (h : Represents m0 m S) (hlt : d < 1024) (hd : d ∉ S.live)
    (hk : d ≠ frameOf pageDirectory) : m.activePageDirectory ≠ frameAddr d := by
  intro ha
  rcases h.layout.active with ha' | ⟨d', hd', ha'⟩
  · have hkd : frameOf (frameAddr d) = frameOf pageDirectory := by rw [← ha, ha']
    rw [frameOf_frameAddr (by omega)] at hkd
    exact hk hkd
  · have hdd : d' = d := frameAddr_inj (h.live_lt hd') (by omega) (ha'.symm.trans ha)
    exact hd (hdd ▸ hd')

/-- `shareSupervisor` writes no table. -/
theorem shareSupervisor_represents (h : Represents m0 m S) (hd : d ∈ S.live)
    (hhand : S.tableHand = none) (hnone : ∀ i, i ≠ 0 → S.table d i = none) :
    Represents m0 (m.shareSupervisor (frameAddr d)) S := by
  unfold Memory.shareSupervisor
  induction tableIndices generalizing m with
  | nil => exact h
  | cons i is ih =>
    rw [List.foldl_cons]
    unfold Memory.shareEntry at ih ⊢
    dsimp only
    by_cases hc : i ≠ 0 ∧ test (m.entry m.activePageDirectory i) pagePresent = true ∧
        test (m.entry m.activePageDirectory i) pageUser = false
    · rw [if_pos hc]
      obtain ⟨hi, hp, hu⟩ := hc
      rw [test_pagePresent] at hp
      rw [test_pageUser] at hu
      have hrange : ¬ inUserRange i ∧
          KernelTable m0 (frameOf (m.entry m.activePageDirectory i)) := by
        rcases h.layout.active with ha | ⟨d', hd', ha⟩
        · have hentry : m.entry m.activePageDirectory i = m0.ram (frameOf pageDirectory) i := by
            unfold Memory.entry
            rw [ha, h.layout.kernel]
          rw [hentry] at hp ⊢
          exact ⟨(h.booted.supervisor i hp).2, i, hi, hp, rfl⟩
        · have hentry : m.entry m.activePageDirectory i = m.ram d' i := by
            unfold Memory.entry
            rw [ha, frameOf_frameAddr (h.live_lt hd')]
          rw [hentry] at hp hu ⊢
          obtain ⟨h1, h2⟩ := h.layout.shared d' hd' i hp hu
          exact ⟨h1, h2 hi⟩
      rw [and_not_pageUser hu, setEntry_frameAddr (h.live_lt hd)]
      exact ih (h.shareDir hd (hnone i hi) hhand hi hu hrange.1 hrange.2)
    · rw [if_neg hc]
      exact ih h

/-- `paging_create_address_space` fails and changes nothing, or adds an address space without user
pages. -/
theorem createAddressSpace (h : Represents m0 m S) (hhand : S.tableHand = none) :
    (m.pagingCreateAddressSpace.1 = 0 ∧ Represents m0 m.pagingCreateAddressSpace.2 S) ∨
    ∃ d t, d ∉ S.live ∧ d < 1024 ∧ 0 < d ∧ m.pagingCreateAddressSpace.1 = frameAddr d ∧
      Represents m0 m.pagingCreateAddressSpace.2 (S.create d t) ∧
      m.pagingCreateAddressSpace.2.activePageDirectory = m.activePageDirectory := by
  unfold Memory.pagingCreateAddressSpace
  rcases h.allocTable_cases hhand with heq | ⟨d, hdpos, hdlt, hdfree, heq, h1⟩
  · left
    rw [heq]
    exact ⟨rfl, h⟩
  · rw [heq]
    dsimp only
    rw [if_neg (frameAddr_ne_zero hdpos (by omega))]
    have hnew : d ∉ S.live := h.not_live_of_free hdfree
    have h2 := h1.newDir (d := d) rfl hdlt (fun i => by
      show isPresent (update m.ram d (fun _ => 0x02) d i) = false
      rw [update_self]
      exact absent_bits.1)
    rcases h2.allocTable_cases rfl with heq2 | ⟨t, htpos, htlt, htfree, heq2, h3⟩
    · left
      rw [heq2]
      dsimp only
      rw [if_pos rfl]
      refine ⟨rfl, ?_⟩
      -- the directory is given back: it leaves `live` and then the hand
      have hlive : d ∈ (insert d S.live) := Finset.mem_insert_self _ _
      have hactive : (withTable m d).activePageDirectory ≠ frameAddr d :=
        h.active_ne hdlt hnew (h2.held_ne_kernel (held_dir hlive))
      have h3 := h2.dropDir hlive rfl
        (fun i => h.table_none_of_not_live hnew i) hactive
      have h4 := h3.dropTable (f := d) rfl
      rw [h2.frameFree_eq (held_dir hlive)]
      have hS : S = (((((S.withTableHand (some d)).withLive (insert d S.live)).withTableHand none
          ).withLive ((insert d S.live).erase d)).withTableHand (some d)).withTableHand none := by
        ext1
        case live => exact (Finset.erase_insert hnew).symm
        case tableHand => exact hhand
        all_goals rfl
      rw [hS]
      exact h4
    · right
      rw [heq2]
      dsimp only
      rw [if_neg (frameAddr_ne_zero htpos (by omega))]
      refine ⟨d, t, hnew, hdlt, hdpos, rfl, ?_⟩
      rw [Memory.fillTable_eq, frameOf_frameAddr (by omega : t < 1048576)]
      -- the low table, still in hand, gets its identity entries
      have h4 := h3.writeTableHand (g := t) rfl Memory.identityEntry
      have hd4 : d ∈ (insert d S.live) := Finset.mem_insert_self _ _
      obtain ⟨hframe, hpres, -, huser⟩ := supervisorEntry_facts (f := t) (by omega)
      have hown : ownedTable 0 (frameAddr t ||| pagePresent ||| pageWritable) = some t := by
        rw [ownedTable_eq_some]
        refine ⟨?_, hframe⟩
        rw [ownsTable, hpres]
        rfl
      have hold : ∀ j, S.entry d 0 j = none :=
        h.entry_none_of_table_none (h.table_none_of_not_live hnew 0)
      have hnot0 : ¬ inUserRange 0 := by simp [inUserRange]
      have h5 := h4.writeDir (i := 0) hd4 (frameAddr t ||| pagePresent ||| pageWritable) hold hown.symm
        (fun t' ht' j => by
          rw [hown, Option.some_inj] at ht'
          subst ht'
          rw [Memory.writeFrame_ram, update_self, userEntry_eq_none, identityEntry_user, Bool.and_false])
        (fun _ _ hi => absurd hi hnot0) (fun _ _ => ⟨hnot0, fun h0 => absurd rfl h0⟩)
        (fun _ hu => by rw [huser] at hu; cases hu)
      rw [setEntry_frameAddr (by omega : d < 1048576)]
      have hcreate : ((((((S.withTableHand (some d)).withLive (insert d S.live)).withTableHand none
          ).withTableHand (some t)).withTable d 0 (ownedTable 0
            (frameAddr t ||| pagePresent ||| pageWritable))).withTableHand (S.table d 0)) =
          S.create d t := by
        rw [hown, h.table_none_of_not_live hnew 0]
        ext1
        case tableHand => exact hhand.symm
        all_goals rfl
      have h6 : Represents m0 _ (S.create d t) := hcreate ▸ h5
      have hnone : ∀ i, i ≠ 0 → (S.create d t).table d i = none := by
        intro i hi
        show (if d = d ∧ i = 0 then some t else S.table d i) = none
        rw [if_neg (fun hc => hi hc.2)]
        exact h.table_none_of_not_live hnew i
      exact ⟨h6.shareSupervisor_represents hd4 hhand hnone, Memory.shareSupervisor_active _⟩

/-! ### What is not written -/

/-- The allocator writes nothing to the frames. -/
theorem frameFree_ram (m : Memory) (physAddr : Word) (g : Nat) : (m.frameFree physAddr).ram g = m.ram g := rfl

/-- The kernel's entries are copied to the directory: no other frame is written. -/
theorem shareSupervisor_ram {g : Nat} (hd : d < 1048576) (hg : g ≠ d) (m : Memory) :
    (m.shareSupervisor (frameAddr d)).ram g = m.ram g := by
  have hentry (m : Memory) (i : TableIndex) : (m.shareEntry (frameAddr d) i).ram g = m.ram g := by
    unfold Memory.shareEntry
    dsimp only
    split
    · rw [setEntry_frameAddr hd, Memory.writeFrame_ram, update_of_ne hg]
    · rfl
  -- the list is left abstract: the loop is not to be run
  have hloop (l : List TableIndex) (m m' : Memory) (hm : m' = l.foldl (Memory.shareEntry (frameAddr d)) m) :
      m'.ram g = m.ram g := by
    induction l generalizing m with
    | nil => rw [hm, List.foldl_nil]
    | cons i l ih => rw [ih _ hm, hentry]
  refine hloop tableIndices m _ ?_
  unfold Memory.shareSupervisor
  rfl

/-- Nor do its low table and its entry need another one. -/
theorem lowTable_ram {g : Nat} (hd : d < 1048576) (ht : t < 1048576) (hgd : g ≠ d) (hgt : g ≠ t) (m : Memory)
    (w : TableIndex → Word) (e : Word) :
    (((m.fillTable (frameAddr t) w).setEntry (frameAddr d) 0 e).shareSupervisor (frameAddr d)).ram g = m.ram g := by
  rw [shareSupervisor_ram hd hgd, setEntry_frameAddr hd, Memory.writeFrame_ram, update_of_ne hgd,
    Memory.fillTable_eq, frameOf_frameAddr ht, Memory.writeFrame_ram, update_of_ne hgt]

/-- What the allocator never had is not written when an address space is created. -/
theorem create_ram {g : Nat} (h : Represents m0 m S) (hhand : S.tableHand = none) (hg : ¬Pool m0.frames g) :
    m.pagingCreateAddressSpace.2.ram g = m.ram g := by
  have htable {m : Memory} {S : Spaces} {f : Nat} (h : Represents m0 (withTable m f) (S.withTableHand (some f))) :
      g ≠ f ∧ (withTable m f).ram g = m.ram g := by
    have hgf : g ≠ f := by
      rintro rfl
      exact hg (h.books.pool .tableHand _ rfl)
    exact ⟨hgf, update_of_ne hgf ..⟩
  rcases h.allocTable_cases hhand with heq | ⟨d, hdpos, hdlt, -, heq, h1⟩
  · have hmem : m.pagingCreateAddressSpace.2 = m := by
      unfold Memory.pagingCreateAddressSpace
      rw [heq]
      exact congrArg Prod.snd (if_pos rfl)
    rw [hmem]
  obtain ⟨hgd, hkept⟩ := htable h1
  have h2 := h1.newDir (d := d) rfl hdlt (fun i => by
    show isPresent (update m.ram d (fun _ => 0x02) d i) = false
    rw [update_self]
    exact absent_bits.1)
  rcases h2.allocTable_cases rfl with heq2 | ⟨t, htpos, htlt, -, heq2, h3⟩
  · have hmem : m.pagingCreateAddressSpace.2 = (withTable m d).frameFree (frameAddr d) := by
      unfold Memory.pagingCreateAddressSpace
      rw [heq]
      dsimp only
      rw [if_neg (frameAddr_ne_zero hdpos (by omega)), heq2]
      exact congrArg Prod.snd (if_pos rfl)
    rw [hmem, frameFree_ram, hkept]
  · obtain ⟨hgt, hkept2⟩ := htable h3
    have hmem : m.pagingCreateAddressSpace.2 =
        (((withTable (withTable m d) t).fillTable (frameAddr t) Memory.identityEntry).setEntry (frameAddr d) 0
          (frameAddr t ||| pagePresent ||| pageWritable)).shareSupervisor (frameAddr d) := by
      unfold Memory.pagingCreateAddressSpace
      rw [heq]
      dsimp only
      rw [if_neg (frameAddr_ne_zero hdpos (by omega)), heq2]
      exact congrArg Prod.snd (if_neg (frameAddr_ne_zero htpos (by omega)))
    rw [hmem, lowTable_ram (by omega) (by omega) hgd hgt, hkept2, hkept]

end Represents

end AgenticOs
