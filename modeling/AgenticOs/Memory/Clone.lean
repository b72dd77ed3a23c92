import AgenticOs.Memory.ActivePages
import AgenticOs.Memory.Destroy

/-!
# `paging_clone_directory`

The three loops of the clone, each as an induction over the directory entries still to come.

* **Phase 1** (`cloneTables_represents`): the child gets a table wherever the parent has one.
* **Phase 2a** (`shareTables_represents`): the child gets every entry of the parent. Counts do not more than
  double on the way (`cloning_refcount`), so a page that phase 1 found shareable can be retained.
* **Phase 2b** (`commitCow_represents`): parent and child have the same entries, and none of them is writable.
* **Outcome** (`cloneDirectory_cases`): the clone fails for a reason (`RefusesClone`) and changes nothing, or
  adds an address space with the pages of its parent. A failure in the first two phases unwinds to the address
  spaces as they were, at whatever table it occurs (`cloning_destroy`).
* **Small directories**: the memory that the clone of a directory with one page leaves, entry for entry
  (`pagingCloneDirectory_onePage`), and what happens with too few frames
  (`pagingCloneDirectory_onePage_refused`, `pagingCloneDirectory_lastFrame`). Witnesses of later files run a
  real clone with them.
-/

namespace AgenticOs

open Function Finset Lib

/-- What a clone makes of a user entry: writable and copy-on-write entries become read-only
copy-on-write, the others stay. -/
def shareCow (e : Word) : Word := if isWritable e || isCow e then cowEntry e else e

/-- A shared entry has the same frame, cannot be written and is copy-on-write if it could be. -/
theorem shareCow_facts (e : Word) :
    frameOf (shareCow e) = frameOf e ∧ isWritable (shareCow e) = false ∧
      (isWritable (shareCow e) || isCow (shareCow e)) = (isWritable e || isCow e) := by
  unfold shareCow
  obtain ⟨hf, -, hw, -, hc⟩ := cowEntry_facts e
  by_cases h : (isWritable e || isCow e) = true
  · rw [if_pos h, hw, hc, h]
    exact ⟨hf, rfl, rfl⟩
  · rw [if_neg h]
    simp only [Bool.not_eq_true, Bool.or_eq_false_iff] at h
    exact ⟨rfl, h.1, rfl⟩

namespace Represents

variable {m0 m : Memory} {S : Spaces} {s n t : Nat} {i j : TableIndex}

/-! ### Phase 1: the tables -/

/-- The state of a clone of `s` into the new directory `n`: the spaces of `S`, the directory `n`
with its tables so far, and the entries so far. -/
def cloning (S : Spaces) (n : Nat) (table : Nat → TableIndex → Option Nat)
    (entry : Nat → TableIndex → TableIndex → Option Word) : Spaces :=
  ((S.withLive (insert n S.live)).withTables table).withEntry entry

/-- Unwinding a clone at any point gives `S` back. -/
theorem cloning_destroy (h : Represents m0 m S) (hn : n ∉ S.live)
    {table : Nat → TableIndex → Option Nat} {entry : Nat → TableIndex → TableIndex → Option Word}
    (htable : ∀ d, d ≠ n → table d = S.table d) (hentry : ∀ d, d ≠ n → entry d = S.entry d) :
    (cloning S n table entry).destroy n = S := by
  ext1
  case live => exact Finset.erase_insert hn
  case table =>
    funext d i
    show (if d = n ∧ i ∈ tableIndices then none else table d i) = S.table d i
    by_cases hd : d = n
    · subst hd
      rw [if_pos ⟨rfl, Memory.mem_tableIndices i⟩, h.table_none_of_not_live hn]
    · rw [if_neg (fun hc => hd hc.1), htable d hd]
  case entry =>
    funext d i j
    show (if d = n ∧ i ∈ tableIndices then none else entry d i j) = S.entry d i j
    by_cases hd : d = n
    · subst hd
      rw [if_pos ⟨rfl, Memory.mem_tableIndices i⟩,
        h.entry_none_of_table_none (h.table_none_of_not_live hn i)]
    · rw [if_neg (fun hc => hd hc.1), hentry d hd]
  all_goals rfl

/-- No directory, no pages. -/
theorem entry_none_of_not_live (h : Represents m0 m S) (hn : n ∉ S.live) (i j : TableIndex) :
    S.entry n i j = none := h.entry_none_of_table_none (h.table_none_of_not_live hn i) j

/-- The child's directory entry for a table of its own. -/
theorem attachClone (h : Represents m0 m S) (hs : s ∈ S.live) (hn : n ∈ S.live) {ts : Nat}
    (hts : S.table s i = some ts) (htn : S.table n i = none) (hhand : S.tableHand = some t)
    (hblank : ∀ j, m.ram t j = 0x02) :
    Represents m0
      (m.setEntry (frameAddr n) i (frameAddr t &&& addrMask ||| m.ram s i &&& flagMask))
      ((S.withTable n i (some t)).withTableHand none) := by
  obtain ⟨-, hp, hu, -⟩ := h.entry_of_table hts
  obtain ⟨hframe, hpres, hwrit, huser⟩ :=
    cloneEntry_facts (h.books.lt_max (o := .tableHand) hhand) (m.ram s i)
  have hown : ownedTable i (frameAddr t &&& addrMask ||| m.ram s i &&& flagMask) = some t := by
    rw [ownedTable_eq_some]
    refine ⟨?_, hframe⟩
    rw [ownsTable, hpres, hp, huser]
    by_cases hi : i = 0
    · simp [hi]
    · simp [hu hi]
  have h1 := h.writeDir hn (frameAddr t &&& addrMask ||| m.ram s i &&& flagMask)
    (h.entry_none_of_table_none htn) (hhand.trans hown.symm)
    (fun t' ht' j => by
      rw [hown, Option.some_inj] at ht'
      rw [← ht', hblank]
      exact userEntry_absent)
    (fun t' ht' _ j => by
      rw [hown, Option.some_inj] at ht'
      rw [← ht', hblank]
      decide)
    (fun _ hu' => by
      rw [huser] at hu'
      have hi : i = 0 := by
        by_contra hi
        rw [hu hi] at hu'
        cases hu'
      subst hi
      exact ⟨by simp [inUserRange], fun h0 => absurd rfl h0⟩)
    (fun _ hu' => by
      rw [huser] at hu'
      rw [hwrit]
      exact h.layout.writable s hs i hp hu')
  rw [hown, htn] at h1
  rw [setEntry_frameAddr (h.live_lt hn)]
  exact h1

/-- `allocator_alloc_page_table` fails for lack of a frame below 4 MiB only. -/
theorem allocTable_lowest (h : Represents m0 m S) (hhand : S.tableHand = none) :
    (m.frames.freeBelow 1024 = 0 ∧ m.allocatorAllocPageTable = (0, m)) ∨
    ∃ f, 0 < m.frames.freeBelow 1024 ∧ 0 < f ∧ f < 1024 ∧ m.frames.Lowest f ∧
      m.allocatorAllocPageTable = (frameAddr f, withTable m f) ∧
      Represents m0 (withTable m f) (S.withTableHand (some f)) := by
  have hcounted := h.books.counted
  rcases Memory.allocTable_lowest h.books.initialized hcounted.total_le with hnone | ⟨t, hpos, ht, halloc⟩
  · exact .inl hnone
  · rcases h.allocTable_cases hhand with heq | ⟨f, hf0, hf, -, heq, h'⟩
    · exact absurd (congrArg Prod.fst (halloc.symm.trans heq)) (ht.frameAddr_ne_zero hcounted)
    · have hft : f = t := frameAddr_inj (by omega) (ht.lt_max hcounted) (congrArg Prod.fst (heq.symm.trans halloc))
      exact .inr ⟨f, hpos, hf0, hf, hft ▸ ht, heq, h'⟩

/-- A page of `s` that is counted so often that the count of every page could not be doubled. -/
def Crowded (S : Spaces) (s : Nat) (m : Memory) : Prop :=
  ∃ i j e, S.entry s i j = some e ∧ 0x8000 ≤ m.frames.frameRefcounts (frameOf e)

/-- Still crowded after the frame of a table. -/
theorem Crowded.of_taken {S : Spaces} (h : Crowded S s (withTable m t)) : Crowded S s m := by
  obtain ⟨i, j, e, he, hcount⟩ := h
  have hne : frameOf e ≠ t := by
    intro hf
    have hone : (withTable m t).frames.frameRefcounts (frameOf e) = 1 := hf ▸ update_self ..
    omega
  have hsame : (withTable m t).frames.frameRefcounts (frameOf e) = m.frames.frameRefcounts (frameOf e) :=
    update_of_ne hne ..
  exact ⟨i, j, e, he, hsame ▸ hcount⟩

/-- What is missing for tables under the entries `l` of a directory: frames, or room in a count. -/
def Lacking (S : Spaces) (s : Nat) (l : List TableIndex) (m : Memory) : Prop :=
  m.frames.freeBelow 1024 < l.countP (fun i => (S.table s i).isSome) ∨ Crowded S s m

/-- One table more to go. -/
theorem Lacking.cons {S : Spaces} {l : List TableIndex} (h : Lacking S s l m) (i : TableIndex) :
    Lacking S s (i :: l) m := by
  refine h.imp_left fun hfew => hfew.trans_le ?_
  rw [List.countP_cons]
  exact Nat.le_add_right ..

/-- One table has been made. -/
theorem Lacking.cons_taken {S : Spaces} {l : List TableIndex} (h : Lacking S s l (withTable m t))
    (ht : m.frames.Lowest t) (hpos : 0 < m.frames.freeBelow 1024) (hi : (S.table s i).isSome = true) :
    Lacking S s (i :: l) m := by
  refine h.imp (fun hfew => ?_) Crowded.of_taken
  have hfree : (withTable m t).frames.freeBelow 1024 = m.frames.freeBelow 1024 - 1 := ht.freeBelow_take 1024
  rw [List.countP_cons, if_pos hi]
  omega

/-- A table with a page that cannot be counted once more. -/
theorem crowded_of_unshareable (h : Represents m0 m S) {ts : Nat} (hts : S.table s i = some ts)
    (hno : m.tableShareable (frameAddr ts) ≠ true) : Crowded S s m := by
  unfold Memory.tableShareable at hno
  obtain ⟨j, -, hj⟩ := List.all_eq_false.mp (Bool.eq_false_iff.mpr hno)
  dsimp only at hj
  rw [entry_frameAddr (h.books.lt_max (o := .table s i) hts), has_or, has_pagePresent, has_pageUser] at hj
  rw [Bool.or_eq_true, not_or, Bool.not_eq_true', Bool.not_eq_false, Bool.and_eq_true, Bool.and_eq_true,
    bne_iff_ne, bne_iff_ne] at hj
  obtain ⟨⟨hp, hu⟩, hrefs⟩ := hj
  have he : S.entry s i j = some (m.ram ts j) :=
    (h.layout.pages s i ts hts j).trans (userEntry_eq_some.mpr ⟨hp, hu, rfl⟩)
  rw [and_addrMask, h.frameGetRefcount_eq (held_page he)] at hrefs
  have hpos := h.books.refcount_pos (held_page he)
  exact ⟨i, j, _, he, by omega⟩

/-- **Phase 1**: the child gets a table wherever the parent has one, or everything is unwound, since frames
ran out or a page is counted too often. -/
theorem cloneTables_represents (h0 : Represents m0 m S) (hn : n ∉ S.live) (hs : s ∈ S.live)
    (hhand : S.tableHand = none) (hpage : S.pageHand = none)
    (l : List TableIndex) (hl : l.Nodup) {m : Memory} {table : Nat → TableIndex → Option Nat}
    (h : Represents m0 m (cloning S n table S.entry)) (hactive : m.activePageDirectory ≠ frameAddr n)
    (htable : ∀ d, d ≠ n → table d = S.table d) (htodo : ∀ i ∈ l, table n i = none) :
    ((Memory.cloneTables (frameAddr s) (frameAddr n) l m).1 = false ∧
      Represents m0 (Memory.cloneTables (frameAddr s) (frameAddr n) l m).2 S ∧ Lacking S s l m) ∨
    ((Memory.cloneTables (frameAddr s) (frameAddr n) l m).1 = true ∧
      (Memory.cloneTables (frameAddr s) (frameAddr n) l m).2.activePageDirectory =
        m.activePageDirectory ∧
      ∃ table', Represents m0 (Memory.cloneTables (frameAddr s) (frameAddr n) l m).2
          (cloning S n table' S.entry) ∧
        (∀ d, d ≠ n → table' d = S.table d) ∧
        (∀ i, i ∉ l → table' n i = table n i) ∧
        ∀ i ∈ l, table' n i = none ↔ S.table s i = none) := by
  have hns : s ≠ n := fun hc => hn (hc ▸ hs)
  induction l generalizing m table with
  | nil =>
    refine .inr ⟨rfl, rfl, table, h, htable, fun _ _ => rfl, fun i hi => ?_⟩
    cases hi
  | cons i l ih =>
    have hil : i ∉ l := (List.nodup_cons.mp hl).1
    have hl' := (List.nodup_cons.mp hl).2
    have hlive : n ∈ (cloning S n table S.entry).live := Finset.mem_insert_self _ _
    have hlives : s ∈ (cloning S n table S.entry).live := Finset.mem_insert_of_mem hs
    have hnone : (cloning S n table S.entry).table n i = none := htodo i (List.mem_cons_self ..)
    have hsrc : (cloning S n table S.entry).table s i = S.table s i := congrFun (htable s hns) i
    have hempty : ∀ i j, (cloning S n table S.entry).entry n i j = none :=
      h0.entry_none_of_not_live hn
    have unwind : ∀ {m' : Memory} {table' : Nat → TableIndex → Option Nat},
        Represents m0 m' (cloning S n table' S.entry) →
        m'.activePageDirectory ≠ frameAddr n → (∀ d, d ≠ n → table' d = S.table d) →
        Represents m0 (m'.pagingDestroyCloneSkeleton (frameAddr n)) S := by
      intro m' table' h' ha ht
      exact (h'.destroyCloneSkeleton (Finset.mem_insert_self _ _) hhand hpage ha
        (h0.entry_none_of_not_live hn)).of_eq (h0.cloning_destroy hn ht fun _ _ => rfl)
    -- continuing with entry `i` done
    have continue_ : ∀ {m' : Memory} {table' : Nat → TableIndex → Option Nat},
        Represents m0 m' (cloning S n table' S.entry) →
        m'.activePageDirectory = m.activePageDirectory → (∀ d, d ≠ n → table' d = S.table d) →
        (∀ i', i' ≠ i → table' n i' = table n i') →
        (table' n i = none ↔ S.table s i = none) → (Lacking S s l m' → Lacking S s (i :: l) m) →
        ((Memory.cloneTables (frameAddr s) (frameAddr n) l m').1 = false ∧
          Represents m0 (Memory.cloneTables (frameAddr s) (frameAddr n) l m').2 S ∧ Lacking S s (i :: l) m) ∨
        ((Memory.cloneTables (frameAddr s) (frameAddr n) l m').1 = true ∧
          (Memory.cloneTables (frameAddr s) (frameAddr n) l m').2.activePageDirectory =
            m.activePageDirectory ∧
          ∃ table', Represents m0 (Memory.cloneTables (frameAddr s) (frameAddr n) l m').2
              (cloning S n table' S.entry) ∧
            (∀ d, d ≠ n → table' d = S.table d) ∧
            (∀ i', i' ∉ i :: l → table' n i' = table n i') ∧
            ∀ i' ∈ i :: l, table' n i' = none ↔ S.table s i' = none) := by
      intro m' table' h' ha ht hother hi hlack
      have htodo' : ∀ i' ∈ l, table' n i' = none := by
        intro i' hi'
        rw [hother i' (fun hc => hil (hc ▸ hi'))]
        exact htodo i' (List.mem_cons_of_mem _ hi')
      rcases ih hl' h' (ha ▸ hactive) ht htodo' with ⟨hf, hunwound, hl⟩ | ⟨ht1, ha1, table'', h2, h3, h4, h5⟩
      · exact .inl ⟨hf, hunwound, hlack hl⟩
      · refine .inr ⟨ht1, ha1.trans ha, table'', h2, h3, ?_, ?_⟩
        · intro i' hi'
          rw [List.mem_cons, not_or] at hi'
          rw [h4 i' hi'.2, hother i' hi'.1]
        · intro i' hi'
          rcases List.mem_cons.mp hi' with rfl | hi'
          · rw [h4 i' hil]
            exact hi
          · exact h5 i' hi'
    unfold Memory.cloneTables
    dsimp only
    rw [entry_frameAddr (h.live_lt hlives), test_pagePresent, test_pageUser]
    by_cases hp : isPresent (m.ram s i) = false
    · rw [if_pos hp]
      have hts := h.table_none_of_absent hlives hp
      rw [hsrc] at hts
      exact continue_ h rfl htable (fun _ _ => rfl) (by simp [hts, htodo i (List.mem_cons_self ..)])
        fun hlack => hlack.cons i
    · rw [if_neg hp]
      by_cases hshared : i ≠ 0 ∧ isUser (m.ram s i) = false
      · rw [if_pos hshared]
        have hts := (h.skip_iff hlives).mpr (.inr hshared)
        rw [hsrc] at hts
        obtain ⟨hr, hk⟩ := h.layout.shared s hlives i (by simpa using hp) hshared.2
        have h1 := h.shareDir hlive hnone hhand hshared.1 hshared.2 hr (hk hshared.1)
        rw [setEntry_frameAddr (h.live_lt hlive)]
        exact continue_ h1 rfl htable (fun _ _ => rfl)
          (by simp [hts, htodo i (List.mem_cons_self ..)]) fun hlack => hlack.cons i
      · rw [if_neg hshared]
        obtain ⟨ts, hts⟩ : ∃ ts, (cloning S n table S.entry).table s i = some ts := by
          refine Option.ne_none_iff_exists'.mp fun hc => ?_
          rcases (h.skip_iff hlives).mp hc with hc | hc
          · exact hp hc
          · exact hshared hc
        have hsome : (S.table s i).isSome = true := by
          rw [← hsrc, hts]
          rfl
        rcases h.allocTable_lowest hhand with ⟨hzero, heq⟩ | ⟨t, hpos, htpos, htlt, htlow, heq, h1⟩
        · left
          rw [heq]
          dsimp only
          rw [if_pos rfl]
          refine ⟨rfl, unwind h hactive htable, .inl ?_⟩
          rw [List.countP_cons, if_pos hsome]
          omega
        · rw [heq]
          dsimp only
          rw [if_neg (frameAddr_ne_zero htpos (by omega))]
          have hst : s ≠ t := fun hc => h.not_live_of_free htlow.free (hc ▸ hlives)
          have hram : (withTable m t).ram s = m.ram s := update_of_ne hst _ _
          rw [entry_frameAddr (h.live_lt hlives), hram]
          have h2 := h1.attachClone (s := s) (n := n) (i := i) hlives hlive hts hnone rfl
            (fun j => by rw [withTable, Memory.writeFrame_ram, update_self])
          rw [hram] at h2
          have h3 : Represents m0 ((withTable m t).setEntry (frameAddr n) i
              (frameAddr t &&& addrMask ||| m.ram s i &&& flagMask))
              (cloning S n (fun d' i' => if d' = n ∧ i' = i then some t else table d' i')
                S.entry) := by
            refine h2.of_eq ?_
            ext1
            case tableHand => exact hhand.symm
            all_goals rfl
          have htable' : ∀ d, d ≠ n →
              (fun d' i' => if d' = n ∧ i' = i then some t else table d' i') d = S.table d := by
            intro d hd
            funext i'
            dsimp only
            rw [if_neg (fun hc => hd hc.1), htable d hd]
          by_cases hshare : Memory.tableShareable ((withTable m t).setEntry (frameAddr n) i
              (frameAddr t &&& addrMask ||| m.ram s i &&& flagMask)) (m.ram s i &&& addrMask) = true
          · rw [if_pos hshare]
            refine continue_ h3 rfl htable' ?_ ?_ fun hlack => hlack.cons_taken htlow hpos hsome
            · intro i' hi'
              rw [if_neg (fun hc => hi' hc.2)]
            · rw [if_pos ⟨rfl, rfl⟩]
              rw [hsrc] at hts
              simp [hts]
          · left
            rw [if_neg hshare]
            have hts' : (cloning S n (fun d' i' => if d' = n ∧ i' = i then some t else table d' i')
                S.entry).table s i = some ts := (if_neg fun hc => hns hc.1).trans hts
            rw [and_addrMask (m.ram s i), (h.entry_of_table hts).2.2.2] at hshare
            have hcrowded : Crowded S s (withTable m t) := h3.crowded_of_unshareable hts' hshare
            exact ⟨rfl, unwind h3 hactive htable', .inr hcrowded.of_taken⟩

/-! ### Phase 2a: the shared pages -/

/-- **`frame_retain`** of a frame that is held -/
theorem frameRetain_eq {o : Owner} {f : Nat} (h : Represents m0 m S) (ho : S.held o = some f) :
    m.frameRetain (frameAddr f) =
      if m.frames.frameRefcounts f = 0xFFFF then (false, m)
      else (true, m.withFrames (m.frames.addRef f)) := by
  unfold Memory.frameRetain
  rw [FrameState.frameRetain_eq h.books.counted h.books.initialized (h.books.lt_total ho)
    (h.books.refcount_pos ho)]
  by_cases hmax : m.frames.frameRefcounts f = 0xFFFF
  · rw [if_pos hmax, if_pos hmax]
    rfl
  · rw [if_neg hmax, if_neg hmax]

/-- A page of `s` that cannot be counted once more. -/
def FullPage (S : Spaces) (s : Nat) (m : Memory) : Prop :=
  ∃ i j e, S.entry s i j = some e ∧ m.frames.frameRefcounts (frameOf e) = 0xFFFF

/-- **Phase 2a, one table**: the child's table gets the parent's entries, as far as the frames can
be retained. -/
theorem shareTable_represents {ts tn : Nat} (l : List TableIndex) (hl : l.Nodup)
    (h : Represents m0 m S) (hsn : s ≠ n) (hts : S.table s i = some ts) (htn : S.table n i = some tn)
    (hpage : S.pageHand = none) (htodo : ∀ j ∈ l, S.entry n i j = none) :
    (Memory.shareTable (frameAddr ts) (frameAddr tn) l m).2.activePageDirectory =
        m.activePageDirectory ∧
    ∃ entry, Represents m0 (Memory.shareTable (frameAddr ts) (frameAddr tn) l m).2
        (S.withEntry entry) ∧
      (∀ d, d ≠ n → entry d = S.entry d) ∧
      (∀ i' j, entry n i' j = S.entry n i' j ∨ entry n i' j = S.entry s i' j) ∧
      ((Memory.shareTable (frameAddr ts) (frameAddr tn) l m).1 = false →
        FullPage S s (Memory.shareTable (frameAddr ts) (frameAddr tn) l m).2) ∧
      ((Memory.shareTable (frameAddr ts) (frameAddr tn) l m).1 = true →
        (∀ i', i' ≠ i → entry n i' = S.entry n i') ∧
        (∀ j, j ∉ l → entry n i j = S.entry n i j) ∧
        ∀ j ∈ l, entry n i j = S.entry s i j) := by
  induction l generalizing m S with
  | nil =>
    refine ⟨rfl, S.entry, h, fun _ _ => rfl, fun _ _ => .inl rfl, nofun,
      fun _ => ⟨fun _ _ => rfl, fun _ _ => rfl, ?_⟩⟩
    intro j hj
    cases hj
  | cons j l ih =>
    have hjl : j ∉ l := (List.nodup_cons.mp hl).1
    have hl' := (List.nodup_cons.mp hl).2
    have htslt := h.books.lt_max (o := .table s i) hts
    have htnlt := h.books.lt_max (o := .table n i) htn
    have hnone := htodo j (List.mem_cons_self ..)
    have hsrc := h.layout.pages s i ts hts j
    -- continuing with entry `j` done
    have continue_ : ∀ {m' : Memory}, Represents m0 m'
          (S.withEntry (setAt S.entry n i j (S.entry s i j))) →
        m'.activePageDirectory = m.activePageDirectory →
        (Memory.shareTable (frameAddr ts) (frameAddr tn) l m').2.activePageDirectory =
            m.activePageDirectory ∧
        ∃ entry, Represents m0 (Memory.shareTable (frameAddr ts) (frameAddr tn) l m').2
            (S.withEntry entry) ∧
          (∀ d, d ≠ n → entry d = S.entry d) ∧
          (∀ i' j, entry n i' j = S.entry n i' j ∨ entry n i' j = S.entry s i' j) ∧
          ((Memory.shareTable (frameAddr ts) (frameAddr tn) l m').1 = false →
            FullPage S s (Memory.shareTable (frameAddr ts) (frameAddr tn) l m').2) ∧
          ((Memory.shareTable (frameAddr ts) (frameAddr tn) l m').1 = true →
            (∀ i', i' ≠ i → entry n i' = S.entry n i') ∧
            (∀ j', j' ∉ j :: l → entry n i j' = S.entry n i j') ∧
            ∀ j' ∈ j :: l, entry n i j' = S.entry s i j') := by
      intro m' h' ha
      have hat : ∀ d i' j', ¬ (d = n ∧ i' = i ∧ j' = j) →
          setAt S.entry n i j (S.entry s i j) d i' j' = S.entry d i' j' :=
        fun d i' j' hc => if_neg hc
      have htodo' : ∀ j' ∈ l, (S.withEntry (setAt S.entry n i j (S.entry s i j))).entry n i j' =
          none := by
        intro j' hj'
        rw [Spaces.withEntry_entry, hat _ _ _ (fun hc => hjl (hc.2.2 ▸ hj'))]
        exact htodo j' (List.mem_cons_of_mem _ hj')
      obtain ⟨ha1, entry, h1, h2, hcopied, hfull, h3⟩ := ih hl' h' hts htn hpage htodo'
      have hs' : setAt S.entry n i j (S.entry s i j) s = S.entry s := by
        funext i' j'
        exact hat _ _ _ fun hc => hsn hc.1
      refine ⟨ha1.trans ha, entry, h1, ?_, fun i' j' => ?_, fun hno => ?_, fun hok => ?_⟩
      · intro d hd
        rw [h2 d hd]
        funext i' j'
        exact hat _ _ _ (fun hc => hd hc.1)
      · rcases hcopied i' j' with hold | hnew
        · by_cases hc : i' = i ∧ j' = j
          · obtain ⟨rfl, rfl⟩ := hc
            exact .inr (hold.trans (if_pos ⟨rfl, rfl, rfl⟩))
          · exact .inl (hold.trans (hat _ _ _ fun hc' => hc hc'.2))
        · exact .inr (hnew.trans (congrFun (congrFun hs' i') j'))
      · obtain ⟨i', j', e, he, hcount⟩ := hfull hno
        exact ⟨i', j', e, (congrFun (congrFun hs' i') j').symm.trans he, hcount⟩
      · obtain ⟨h4, h5, h6⟩ := h3 hok
        refine ⟨?_, ?_, ?_⟩
        · intro i' hi'
          rw [h4 i' hi']
          funext j'
          exact hat _ _ _ (fun hc => hi' hc.2.1)
        · intro j' hj'
          rw [List.mem_cons, not_or] at hj'
          rw [h5 j' hj'.2]
          exact hat _ _ _ (fun hc => hj'.1 hc.2.2)
        · intro j' hj'
          rcases List.mem_cons.mp hj' with rfl | hj'
          · rw [h5 j' hjl]
            exact if_pos ⟨rfl, rfl, rfl⟩
          · rw [h6 j' hj']
            exact hat _ _ _ (fun hc => hsn hc.1)
    unfold Memory.shareTable
    dsimp only
    rw [entry_frameAddr htslt, test_pagePresent, test_pageUser]
    by_cases hp : isPresent (m.ram ts j) = false
    · rw [if_pos hp]
      have he : S.entry s i j = none := by
        rw [hsrc, userEntry_eq_none, hp, Bool.false_and]
      refine continue_ (h.of_eq ?_) rfl
      rw [he, setAt_self hnone]
      rfl
    · rw [if_neg hp]
      by_cases hu : isUser (m.ram ts j) = false
      · rw [if_pos hu]
        have hno : userEntry (m.ram ts j) = none := by
          rw [userEntry_eq_none, hu, Bool.and_false]
        have h1 := h.writePage (j := j) htn (m.ram ts j) (by rw [hno, hpage]; rfl)
          (fun hi _ => h.layout.blank s i ts hts hi j hno)
        rw [setEntry_frameAddr htnlt]
        refine continue_ (h1.of_eq ?_) rfl
        rw [hno, hsrc, hno, hnone]
        ext1
        case pageHand => exact hpage.symm
        all_goals rfl
      · rw [if_neg hu]
        have hpu : isPresent (m.ram ts j) = true ∧ isUser (m.ram ts j) = true := by
          simpa using And.intro hp hu
        have hsome : userEntry (m.ram ts j) = some (m.ram ts j) :=
          userEntry_eq_some.mpr ⟨hpu.1, hpu.2, rfl⟩
        have he : S.entry s i j = some (m.ram ts j) := hsrc.trans hsome
        rw [and_addrMask, h.frameRetain_eq (held_page he)]
        by_cases hmax : m.frames.frameRefcounts (frameOf (m.ram ts j)) = 0xFFFF
        · rw [if_pos hmax]
          dsimp only
          rw [if_pos rfl]
          exact ⟨rfl, S.entry, h, fun _ _ => rfl, fun _ _ => .inl rfl, fun _ => ⟨i, j, _, he, hmax⟩, nofun⟩
        · rw [if_neg hmax]
          dsimp only
          rw [if_neg (by decide : ¬ true = false)]
          have h1 := h.retainPage he hmax hpage
          have h2 := h1.writePage (d := n) (i := i) (j := j) (t := tn) htn (m.ram ts j)
            (by rw [hsome]; rfl) (fun _ hc => by rw [hsome] at hc; cases hc)
          rw [entry_frameAddr htslt, setEntry_frameAddr htnlt]
          refine continue_ (h2.of_eq ?_) rfl
          rw [hsome, he]
          ext1
          case pageHand =>
            show (S.entry n i j).map frameOf = S.pageHand
            rw [hnone, hpage]
            rfl
          all_goals rfl

/-- While the child gets the pages of its parent, no count more than doubles. -/
theorem cloning_refcount (h0 : Represents m0 m S) (hn : n ∉ S.live) {m' : Memory}
    {table : Nat → TableIndex → Option Nat} {entry : Nat → TableIndex → TableIndex → Option Word}
    (h : Represents m0 m' (cloning S n table entry)) (hentry : ∀ d, d ≠ n → entry d = S.entry d)
    (hcopied : ∀ i j, entry n i j = none ∨ entry n i j = S.entry s i j) {j : TableIndex} {e : Word}
    (he : S.entry s i j = some e) :
    m'.frames.frameRefcounts (frameOf e) ≤ 2 * m.frames.frameRefcounts (frameOf e) := by
  have hpool := h0.books.pool _ _ (held_page he)
  rw [h.books.exact _ hpool, h0.books.exact _ hpool]
  by_cases hsn : s = n
  · exact absurd he (by rw [hsn, h0.entry_none_of_not_live hn]; nofun)
  have hcur : (cloning S n table entry).entry s i j = some e := (congrFun (congrFun (hentry s hsn) i) j).trans he
  refine holders_le_of_copies (fun | .page _ i j => .page n i j | o => o) fun o _ ho => ?_
  have hpage (hs : o.structural = true) : False := h.page_ne_structural hs ho hcur rfl
  cases o with
  | dir => exact absurd rfl hpage
  | table => exact absurd rfl hpage
  | tableHand => exact absurd rfl hpage
  | pageHand => exact .inl ho
  | page d i' j' =>
    by_cases hd : d = n
    · subst hd
      obtain ⟨e', he', hf⟩ := Option.map_eq_some_iff.mp
        (show (entry d i' j').map frameOf = some (frameOf e) from ho)
      rcases hcopied i' j' with hnone | hsame
      · exact absurd (hnone.symm.trans he') nofun
      · have hheld : S.held (.page s i' j') = some (frameOf e) := hf ▸ held_page (hsame.symm.trans he')
        exact .inr ⟨_, h0.books.wellFormed.mem_owners hheld, hheld, rfl⟩
    · have hsame : entry d i' j' = S.entry d i' j' := congrFun (congrFun (hentry d hd) i') j'
      have hheld : (entry d i' j').map frameOf = some (frameOf e) := ho
      exact .inl (show (S.entry d i' j').map frameOf = _ from hsame ▸ hheld)

/-- **Phase 2a**: the child gets every entry of the parent, or everything is unwound, since a page is
counted too often. -/
theorem shareTables_represents {m₀ : Memory} (h0 : Represents m0 m₀ S) (hn : n ∉ S.live) (hs : s ∈ S.live)
    (hhand : S.tableHand = none) (hpage : S.pageHand = none)
    {table : Nat → TableIndex → Option Nat} (htable : ∀ d, d ≠ n → table d = S.table d)
    (hsame : ∀ i, table n i = none ↔ S.table s i = none)
    (l : List TableIndex) (hl : l.Nodup) {m : Memory}
    {entry : Nat → TableIndex → TableIndex → Option Word}
    (h : Represents m0 m (cloning S n table entry)) (hactive : m.activePageDirectory ≠ frameAddr n)
    (hentry : ∀ d, d ≠ n → entry d = S.entry d) (htodo : ∀ i ∈ l, ∀ j, entry n i j = none)
    (hcopied : ∀ i j, entry n i j = none ∨ entry n i j = S.entry s i j) :
    ((Memory.shareTables (frameAddr s) (frameAddr n) l m).1 = false ∧
      Represents m0 (Memory.shareTables (frameAddr s) (frameAddr n) l m).2 S ∧ Crowded S s m₀) ∨
    ((Memory.shareTables (frameAddr s) (frameAddr n) l m).1 = true ∧
      (Memory.shareTables (frameAddr s) (frameAddr n) l m).2.activePageDirectory =
        m.activePageDirectory ∧
      ∃ entry', Represents m0 (Memory.shareTables (frameAddr s) (frameAddr n) l m).2
          (cloning S n table entry') ∧
        (∀ d, d ≠ n → entry' d = S.entry d) ∧
        (∀ i, i ∉ l → entry' n i = entry n i) ∧
        ∀ i ∈ l, entry' n i = S.entry s i) := by
  have hns : s ≠ n := fun hc => hn (hc ▸ hs)
  induction l generalizing m entry with
  | nil =>
    refine .inr ⟨rfl, rfl, entry, h, hentry, fun _ _ => rfl, fun i hi => ?_⟩
    cases hi
  | cons i l ih =>
    have hil : i ∉ l := (List.nodup_cons.mp hl).1
    have hl' := (List.nodup_cons.mp hl).2
    have hlive : n ∈ (cloning S n table entry).live := Finset.mem_insert_self _ _
    have hsrc : (cloning S n table entry).table s i = S.table s i := congrFun (htable s hns) i
    -- continuing with the entries of table `i` done
    have continue_ : ∀ {m' : Memory} (entry' : Nat → TableIndex → TableIndex → Option Word),
        Represents m0 m' (cloning S n table entry') →
        m'.activePageDirectory = m.activePageDirectory → (∀ d, d ≠ n → entry' d = S.entry d) →
        (∀ i', i' ≠ i → entry' n i' = entry n i') → entry' n i = S.entry s i →
        (∀ i j, entry' n i j = none ∨ entry' n i j = S.entry s i j) →
        ((Memory.shareTables (frameAddr s) (frameAddr n) l m').1 = false ∧
          Represents m0 (Memory.shareTables (frameAddr s) (frameAddr n) l m').2 S ∧ Crowded S s m₀) ∨
        ((Memory.shareTables (frameAddr s) (frameAddr n) l m').1 = true ∧
          (Memory.shareTables (frameAddr s) (frameAddr n) l m').2.activePageDirectory =
            m.activePageDirectory ∧
          ∃ entry', Represents m0 (Memory.shareTables (frameAddr s) (frameAddr n) l m').2
              (cloning S n table entry') ∧
            (∀ d, d ≠ n → entry' d = S.entry d) ∧
            (∀ i', i' ∉ i :: l → entry' n i' = entry n i') ∧
            ∀ i' ∈ i :: l, entry' n i' = S.entry s i') := by
      intro m' entry' h' ha he hother hi hcopied'
      have htodo' : ∀ i' ∈ l, ∀ j, entry' n i' j = none := by
        intro i' hi' j
        rw [hother i' (fun hc => hil (hc ▸ hi'))]
        exact htodo i' (List.mem_cons_of_mem _ hi') j
      rcases ih hl' h' (ha ▸ hactive) he htodo' hcopied' with hf | ⟨ht1, ha1, entry'', h2, h3, h4, h5⟩
      · exact .inl hf
      · refine .inr ⟨ht1, ha1.trans ha, entry'', h2, h3, ?_, ?_⟩
        · intro i' hi'
          rw [List.mem_cons, not_or] at hi'
          rw [h4 i' hi'.2, hother i' hi'.1]
        · intro i' hi'
          rcases List.mem_cons.mp hi' with rfl | hi'
          · rw [h4 i' hil]
            exact hi
          · exact h5 i' hi'
    unfold Memory.shareTables
    dsimp only
    rw [entry_frameAddr (h.live_lt hlive), test_pagePresent, test_pageUser]
    by_cases hskip : isPresent (m.ram n i) = false ∨ (i ≠ 0 ∧ isUser (m.ram n i) = false)
    · rw [if_pos hskip]
      have htn : table n i = none := (h.skip_iff hlive).mpr hskip
      refine continue_ entry h rfl hentry (fun _ _ => rfl) ?_ hcopied
      funext j
      rw [htodo i (List.mem_cons_self ..) j,
        h0.entry_none_of_table_none ((hsame i).mp htn) j]
    · rw [if_neg hskip]
      obtain ⟨tn, htn⟩ : ∃ tn, (cloning S n table entry).table n i = some tn :=
        Option.ne_none_iff_exists'.mp fun hc => hskip ((h.skip_iff hlive).mp hc)
      obtain ⟨ts, hts⟩ : ∃ ts, (cloning S n table entry).table s i = some ts := by
        refine Option.ne_none_iff_exists'.mp fun hc => ?_
        rw [hsrc] at hc
        exact absurd ((hsame i).mpr hc) (by rw [show table n i = some tn from htn]; simp)
      obtain ⟨-, -, -, hftn⟩ := h.entry_of_table htn
      rw [(h.owned_tests hts).2.2, and_addrMask, hftn]
      obtain ⟨ha, entry', h1, h2, hshared, hfull, h3⟩ := h.shareTable_represents tableIndices
        Memory.nodup_tableIndices hns hts htn hpage
        (fun j _ => htodo i (List.mem_cons_self ..) j)
      have he' : ∀ d, d ≠ n → entry' d = S.entry d := fun d hd => (h2 d hd).trans (hentry d hd)
      have hcopied' (i' j : TableIndex) : entry' n i' j = none ∨ entry' n i' j = S.entry s i' j := by
        rcases hshared i' j with hold | hnew
        · rw [hold]
          exact hcopied i' j
        · exact .inr (hnew.trans (congrFun (congrFun (hentry s hns) i') j))
      by_cases hok : (Memory.shareTable (frameAddr ts) (frameAddr tn) tableIndices m).1 = false
      · left
        rw [if_pos hok]
        refine ⟨rfl, (Represents.destroyCloneWithRefs (d := n) h1 hlive hhand hpage
          (ha ▸ hactive)).of_eq (h0.cloning_destroy hn htable he'), ?_⟩
        obtain ⟨i', j, e, he, hcount⟩ := hfull hok
        have hpage : S.entry s i' j = some e := (congrFun (congrFun (hentry s hns) i') j).symm.trans he
        have htwice := h0.cloning_refcount hn h1 he' hcopied' hpage
        exact ⟨i', j, e, hpage, by omega⟩
      · rw [if_neg hok]
        obtain ⟨h4, -, h6⟩ := h3 (by simpa using hok)
        refine continue_ entry' h1 ha he' h4 ?_ hcopied'
        funext j
        rw [h6 j (Memory.mem_tableIndices j)]
        show entry s i j = S.entry s i j
        rw [hentry s hns]

/-! ### Phase 2b: copy-on-write -/

/-- The pages `(s, i, j)` and `(n, i, j)`, for `j` in `l`, made copy-on-write. -/
def cowEntries (entry : Nat → TableIndex → TableIndex → Option Word) (s n : Nat) (i : TableIndex)
    (l : List TableIndex) : Nat → TableIndex → TableIndex → Option Word :=
  fun d' i' j' =>
    if (d' = s ∨ d' = n) ∧ i' = i ∧ j' ∈ l then (entry d' i' j').map shareCow else entry d' i' j'

/-- **Phase 2b, one table**. -/
theorem commitCowPages_represents {ts tn : Nat} (l : List TableIndex) (hl : l.Nodup)
    (h : Represents m0 m S) (hsn : s ≠ n) (hts : S.table s i = some ts) (htn : S.table n i = some tn)
    (hsame : ∀ j ∈ l, S.entry n i j = S.entry s i j) :
    Represents m0 (l.foldl (Memory.commitCowPage (frameAddr ts) (frameAddr tn)) m)
      (S.withEntry (cowEntries S.entry s n i l)) := by
  induction l generalizing m S with
  | nil =>
    refine h.of_eq ?_
    ext1
    case entry => funext d' i' j'; simp [cowEntries]
    all_goals rfl
  | cons j l ih =>
    have hjl : j ∉ l := (List.nodup_cons.mp hl).1
    have hl' := (List.nodup_cons.mp hl).2
    have htslt := h.books.lt_max (o := .table s i) hts
    have htnlt := h.books.lt_max (o := .table n i) htn
    have hsrc := h.layout.pages s i ts hts j
    have hdst := hsame j (List.mem_cons_self ..)
    rw [List.foldl_cons]
    -- continuing with entry `j` done
    have continue_ : ∀ {m' : Memory} {S' : Spaces}, Represents m0 m' S' → S'.table = S.table →
        S' = S.withEntry (cowEntries S.entry s n i [j]) →
        Represents m0 (l.foldl (Memory.commitCowPage (frameAddr ts) (frameAddr tn)) m')
          (S.withEntry (cowEntries S.entry s n i (j :: l))) := by
      intro m' S' h' ht hS'
      have hout : ∀ d' i' j', ¬ ((d' = s ∨ d' = n) ∧ i' = i ∧ j' ∈ [j]) →
          S'.entry d' i' j' = S.entry d' i' j' := by
        intro d' i' j' hc
        rw [hS']
        exact if_neg hc
      refine (ih hl' h' (ht ▸ hts) (ht ▸ htn) fun j' hj' => ?_).of_eq ?_
      · have hne : j' ∉ [j] := fun hc => hjl (List.mem_singleton.mp hc ▸ hj')
        rw [hout n i j' (fun hc => hne hc.2.2), hout s i j' (fun hc => hne hc.2.2)]
        exact hsame j' (List.mem_cons_of_mem _ hj')
      · rw [hS']
        ext1
        case entry =>
          funext d' i' j'
          show cowEntries (cowEntries S.entry s n i [j]) s n i l d' i' j' =
            cowEntries S.entry s n i (j :: l) d' i' j'
          unfold cowEntries
          by_cases hd : (d' = s ∨ d' = n) ∧ i' = i
          · by_cases hj : j' = j
            · subst hj; simp [hd, hjl]
            · simp [hd, hj]
          · have hc : ∀ p : Prop, ¬ ((d' = s ∨ d' = n) ∧ i' = i ∧ p) :=
              fun p hp => hd ⟨hp.1, hp.2.1⟩
            simp only [hc, if_false]
        all_goals rfl
    unfold Memory.commitCowPage
    dsimp only
    rw [entry_frameAddr htslt, has_or, has_pagePresent, has_pageUser, test_or, test_pageWritable,
      test_pageCow]
    have hone : ∀ (x : Option Word), S.entry s i j = x → (∀ e, x = some e → shareCow e = e) →
        S = S.withEntry (cowEntries S.entry s n i [j]) := by
      intro x hx hid
      ext1
      case entry =>
        funext d' i' j'
        show S.entry d' i' j' = cowEntries S.entry s n i [j] d' i' j'
        unfold cowEntries
        by_cases hc : (d' = s ∨ d' = n) ∧ i' = i ∧ j' ∈ [j]
        · rw [if_pos hc]
          obtain ⟨hd, rfl, hj⟩ := hc
          obtain rfl := List.mem_singleton.mp hj
          have hx' : S.entry d' i' j' = x := by
            rcases hd with rfl | rfl
            · exact hx
            · exact hdst.trans hx
          rw [hx']
          cases x with
          | none => rfl
          | some e => rw [Option.map_some, hid e rfl]
        · rw [if_neg hc]
      all_goals rfl
    by_cases hc : (isPresent (m.ram ts j) && isUser (m.ram ts j) &&
        (isWritable (m.ram ts j) || isCow (m.ram ts j))) = true
    · rw [if_pos hc]
      simp only [Bool.and_eq_true] at hc
      obtain ⟨⟨hp, hu⟩, hwc⟩ := hc
      have he : S.entry s i j = some (m.ram ts j) :=
        hsrc.trans (userEntry_eq_some.mpr ⟨hp, hu, rfl⟩)
      obtain ⟨hf, hp', -, hu', -⟩ := cowEntry_facts (m.ram ts j)
      have hcow : userEntry (cowEntry (m.ram ts j)) = some (cowEntry (m.ram ts j)) :=
        userEntry_eq_some.mpr ⟨hp'.trans hp, hu'.trans hu, rfl⟩
      have h1 := h.writeFlags hts he hcow hf
      have he1 : (S.withEntry (setAt S.entry s i j (some (cowEntry (m.ram ts j))))).entry n i j =
          some (m.ram ts j) := by
        rw [Spaces.withEntry_entry, setAt, if_neg (fun hc => hsn hc.1.symm), hdst, he]
      have h2 := h1.writeFlags (d := n) (i := i) (j := j) (t := tn) htn he1 hcow hf
      rw [show m.ram ts j &&& ~~~pageWritable ||| pageCow = cowEntry (m.ram ts j) from rfl,
        setEntry_frameAddr htslt, setEntry_frameAddr htnlt]
      refine continue_ h2 rfl ?_
      ext1
      case entry =>
        funext d' i' j'
        show setAt (setAt S.entry s i j _) n i j _ d' i' j' = cowEntries S.entry s n i [j] d' i' j'
        unfold cowEntries setAt
        by_cases hij : i' = i ∧ j' = j
        · obtain ⟨rfl, rfl⟩ := hij
          by_cases hdn : d' = n
          · subst hdn
            simp [hdst, he, shareCow, hwc]
          · by_cases hds : d' = s
            · subst hds
              simp [hdn, he, shareCow, hwc]
            · simp [hdn, hds]
        · have hc : ∀ p : Prop, ¬ (p ∧ i' = i ∧ j' = j) := fun p hp => hij hp.2
          simp only [hc, if_false, List.mem_singleton]
      all_goals rfl
    · rw [if_neg hc]
      refine continue_ h rfl (hone _ rfl fun e he => ?_)
      obtain ⟨hp, hu, rfl⟩ := userEntry_eq_some.mp (hsrc.symm.trans he)
      unfold shareCow
      rw [if_neg]
      intro hwc
      exact hc (by rw [hp, hu, hwc]; rfl)

/-- The pages of `s` and `n` under the directory entries of `l`, made copy-on-write. -/
def cowTables (entry : Nat → TableIndex → TableIndex → Option Word) (s n : Nat)
    (l : List TableIndex) : Nat → TableIndex → TableIndex → Option Word :=
  fun d' i' j' => if (d' = s ∨ d' = n) ∧ i' ∈ l then (entry d' i' j').map shareCow else entry d' i' j'

/-- **Phase 2b**. -/
theorem commitCow_represents (l : List TableIndex) (hl : l.Nodup) (h : Represents m0 m S)
    (hsn : s ≠ n) (hs : s ∈ S.live) (hn : n ∈ S.live)
    (htable : ∀ i, S.table n i = none ↔ S.table s i = none)
    (hsame : ∀ i ∈ l, S.entry n i = S.entry s i) :
    Represents m0 (l.foldl (Memory.commitCowTable (frameAddr s) (frameAddr n)) m)
      (S.withEntry (cowTables S.entry s n l)) := by
  induction l generalizing m S with
  | nil =>
    refine h.of_eq ?_
    ext1
    case entry => funext d' i' j'; simp [cowTables]
    all_goals rfl
  | cons i l ih =>
    have hil : i ∉ l := (List.nodup_cons.mp hl).1
    have hl' := (List.nodup_cons.mp hl).2
    rw [List.foldl_cons]
    have continue_ : ∀ {m' : Memory},
        Represents m0 m' (S.withEntry (cowEntries S.entry s n i tableIndices)) →
        Represents m0 (l.foldl (Memory.commitCowTable (frameAddr s) (frameAddr n)) m')
          (S.withEntry (cowTables S.entry s n (i :: l))) := by
      intro m' h'
      have hout : ∀ d' i' j', i' ≠ i →
          cowEntries S.entry s n i tableIndices d' i' j' = S.entry d' i' j' :=
        fun d' i' j' hi => if_neg fun hc => hi hc.2.1
      refine (ih hl' h' hs hn htable fun i' hi' => ?_).of_eq ?_
      · funext j'
        have hne : i' ≠ i := fun hc => hil (hc ▸ hi')
        show cowEntries S.entry s n i tableIndices n i' j' =
          cowEntries S.entry s n i tableIndices s i' j'
        rw [hout n i' j' hne, hout s i' j' hne, hsame i' (List.mem_cons_of_mem _ hi')]
      · ext1
        case entry =>
          funext d' i' j'
          show cowTables (cowEntries S.entry s n i tableIndices) s n l d' i' j' =
            cowTables S.entry s n (i :: l) d' i' j'
          unfold cowTables
          by_cases hd : d' = s ∨ d' = n
          · by_cases hi : i' = i
            · subst hi
              simp [hd, hil, cowEntries, Memory.mem_tableIndices]
            · simp only [hd, true_and, List.mem_cons, hi, false_or, hout d' i' j' hi]
          · have hc : ∀ p : Prop, ¬ ((d' = s ∨ d' = n) ∧ p) := fun p hp => hd hp.1
            simp only [hc, if_false]
            exact if_neg (hc _)
        all_goals rfl
    unfold Memory.commitCowTable
    rw [entry_frameAddr (h.live_lt hn), test_pagePresent, test_pageUser]
    by_cases hskip : isPresent (m.ram n i) = false ∨ (i ≠ 0 ∧ isUser (m.ram n i) = false)
    · rw [if_pos hskip]
      have htn : S.table n i = none := (h.skip_iff hn).mpr hskip
      have hts := (htable i).mp htn
      refine continue_ (h.of_eq ?_)
      ext1
      case entry =>
        funext d' i' j'
        show S.entry d' i' j' = cowEntries S.entry s n i tableIndices d' i' j'
        unfold cowEntries
        by_cases hc : (d' = s ∨ d' = n) ∧ i' = i ∧ j' ∈ tableIndices
        · rw [if_pos hc]
          obtain ⟨hd, rfl, -⟩ := hc
          have hnone : S.entry d' i' j' = none := by
            rcases hd with rfl | rfl
            · exact h.entry_none_of_table_none hts j'
            · exact h.entry_none_of_table_none htn j'
          rw [hnone]
          rfl
        · rw [if_neg hc]
      all_goals rfl
    · rw [if_neg hskip]
      obtain ⟨tn, htn⟩ : ∃ tn, S.table n i = some tn :=
        Option.ne_none_iff_exists'.mp fun hc => hskip ((h.skip_iff hn).mp hc)
      obtain ⟨ts, hts⟩ : ∃ ts, S.table s i = some ts :=
        Option.ne_none_iff_exists'.mp fun hc => by
          rw [(htable i).mpr hc] at htn
          cases htn
      obtain ⟨-, -, -, hftn⟩ := h.entry_of_table htn
      rw [(h.owned_tests hts).2.2, and_addrMask, hftn]
      refine continue_ (h.commitCowPages_represents tableIndices Memory.nodup_tableIndices hsn hts
        htn fun j _ => ?_)
      rw [hsame i (List.mem_cons_self ..)]

end Represents

/-- Address space `n`, a copy-on-write clone of `s`. -/
def Spaces.clone (S : Spaces) (s n : Nat) (table : Nat → TableIndex → Option Nat) : Spaces :=
  ((S.withLive (insert n S.live)).withTables table).withEntry fun d i j =>
    if d = s ∨ d = n then (S.entry s i j).map shareCow else S.entry d i j

namespace Represents

variable {m0 m : Memory} {S : Spaces} {s : Nat}

/-- Why a clone of `s` is refused: a frame for the directory or for one of the tables is missing, a page is
counted too often, or there is no scratch table to copy pages through. -/
def RefusesClone (S : Spaces) (s : Nat) (m : Memory) : Prop :=
  m.frames.freeBelow 1024 ≤ tableIndices.countP (fun i => (S.table s i).isSome) ∨ Crowded S s m ∨
    m.kernelScratchTable = 0

/-- Who lacks a frame is refused. -/
theorem Lacking.refuses {S : Spaces} {n : Nat} (h : Lacking S s tableIndices (withTable m n))
    (hn : m.frames.Lowest n) : RefusesClone S s m := by
  refine h.imp (fun hfew => ?_) fun hcrowded => .inl hcrowded.of_taken
  have hfree : (withTable m n).frames.freeBelow 1024 = m.frames.freeBelow 1024 - 1 := hn.freeBelow_take 1024
  omega

/-- `paging_clone_directory` of a live directory fails for a reason and changes nothing, or adds a clone. -/
theorem cloneDirectory_cases (h : Represents m0 m S) (hs : s ∈ S.live)
    (hhand : S.tableHand = none) (hpage : S.pageHand = none) :
    ((m.pagingCloneDirectory (frameAddr s)).1 = 0 ∧
      Represents m0 (m.pagingCloneDirectory (frameAddr s)).2 S ∧ RefusesClone S s m) ∨
    ∃ n table, n ∉ S.live ∧ 0 < n ∧ n < 1024 ∧ (∀ d, d ≠ n → table d = S.table d) ∧
      (m.pagingCloneDirectory (frameAddr s)).1 = frameAddr n ∧
      Represents m0 (m.pagingCloneDirectory (frameAddr s)).2 (S.clone s n table) := by
  unfold Memory.pagingCloneDirectory
  dsimp only
  rw [frameAddr_and_addrMask (h.live_lt hs)]
  by_cases hz : frameAddr s = 0 ∨ m.kernelScratchTable = 0
  · rw [if_pos hz]
    exact .inl ⟨rfl, h, .inr (.inr (hz.resolve_left (h.frameAddr_live_ne_zero hs)))⟩
  · rw [if_neg hz]
    rcases h.allocTable_lowest hhand with ⟨hzero, heq⟩ | ⟨n, -, hnpos, hnlt, hnlow, heq, h1⟩
    · left
      rw [heq]
      exact ⟨rfl, h, .inl (hzero ▸ Nat.zero_le _)⟩
    · rw [heq]
      dsimp only
      rw [if_neg (frameAddr_ne_zero hnpos (by omega))]
      have hn : n ∉ S.live := h.not_live_of_free hnlow.free
      have hsn : s ≠ n := fun hc => hn (hc ▸ hs)
      have h2 : Represents m0 (withTable m n) (cloning S n S.table S.entry) := by
        refine (h1.newDir (d := n) rfl hnlt fun i => ?_).of_eq ?_
        · rw [withTable, Memory.writeFrame_ram, update_self]
          exact absent_bits.1
        · ext1
          case tableHand => exact hhand.symm
          all_goals rfl
      have hactive : (withTable m n).activePageDirectory ≠ frameAddr n := h.active_ne hnlt hn
        (h2.held_ne_kernel (held_dir (Finset.mem_insert_self _ _)))
      rcases h.cloneTables_represents hn hs hhand hpage tableIndices Memory.nodup_tableIndices h2
        hactive (fun _ _ => rfl) (fun i _ => h.table_none_of_not_live hn i) with
        ⟨hf, h3, hlack⟩ | ⟨ht, ha, table, h3, htab, -, hsame⟩
      · left
        rw [if_pos hf]
        exact ⟨rfl, h3, hlack.refuses hnlow⟩
      · rw [if_neg (by rw [ht]; decide)]
        have hsame' : ∀ i, table n i = none ↔ S.table s i = none :=
          fun i => hsame i (Memory.mem_tableIndices i)
        rcases h.shareTables_represents hn hs hhand hpage htab hsame' tableIndices
          Memory.nodup_tableIndices h3 (ha ▸ hactive) (fun _ _ => rfl)
          (fun i _ j => h.entry_none_of_not_live hn i j) (fun i j => .inl (h.entry_none_of_not_live hn i j)) with
          ⟨hf, h4, hcrowded⟩ | ⟨ht, -, entry, h4, hent, -, hshared⟩
        · left
          rw [if_pos hf]
          exact ⟨rfl, h4, .inr (.inl hcrowded)⟩
        · right
          rw [if_neg (by rw [ht]; decide)]
          refine ⟨n, table, hn, hnpos, hnlt, htab, rfl, ?_⟩
          have hentn : ∀ i, entry n i = S.entry s i :=
            fun i => hshared i (Memory.mem_tableIndices i)
          have h5 := h4.commitCow_represents (s := s) (n := n) tableIndices
            Memory.nodup_tableIndices hsn (Finset.mem_insert_of_mem hs)
            (Finset.mem_insert_self _ _) (fun i => by
              show table n i = none ↔ table s i = none
              rw [htab s hsn]
              exact hsame' i)
            (fun i _ => by
              show entry n i = entry s i
              rw [hentn i, hent s hsn])
          refine h5.of_eq ?_
          ext1
          case entry =>
            funext d i j
            show (if (d = s ∨ d = n) ∧ i ∈ tableIndices then (entry d i j).map shareCow
              else entry d i j) = if d = s ∨ d = n then (S.entry s i j).map shareCow
                else S.entry d i j
            by_cases hd : d = s ∨ d = n
            · rw [if_pos ⟨hd, Memory.mem_tableIndices i⟩, if_pos hd]
              rcases hd with rfl | rfl
              · rw [hent d hsn]
              · rw [hentn i]
            · rw [if_neg (fun hc => hd hc.1), if_neg hd, hent d (fun hc => hd (.inr hc))]
          all_goals rfl

/-- `paging_clone_directory` of a live directory fails and changes nothing, or adds a clone. -/
theorem cloneDirectory (h : Represents m0 m S) (hs : s ∈ S.live)
    (hhand : S.tableHand = none) (hpage : S.pageHand = none) :
    ((m.pagingCloneDirectory (frameAddr s)).1 = 0 ∧
      Represents m0 (m.pagingCloneDirectory (frameAddr s)).2 S) ∨
    ∃ n table, n ∉ S.live ∧ 0 < n ∧ n < 1024 ∧ (∀ d, d ≠ n → table d = S.table d) ∧
      (m.pagingCloneDirectory (frameAddr s)).1 = frameAddr n ∧
      Represents m0 (m.pagingCloneDirectory (frameAddr s)).2 (S.clone s n table) :=
  (h.cloneDirectory_cases hs hhand hpage).imp_left fun hfails => ⟨hfails.1, hfails.2.1⟩

end Represents

/-! ### Small directories -/

namespace Memory

variable {m m' : Memory} {srcDir newDir srcTable newTable srcCr3 : Word} {l l' : List TableIndex}
  {s n ts tn : Nat} {i j : TableIndex}

/-- Entries without a table are skipped. -/
theorem cloneTables_skip (h : ∀ i ∈ l, test (m.entry srcDir i) pagePresent = false) :
    cloneTables srcDir newDir (l ++ l') m = cloneTables srcDir newDir l' m := by
  induction l with
  | nil => rfl
  | cons i l ih =>
    rw [List.cons_append]
    conv_lhs => unfold cloneTables
    dsimp only
    rw [if_pos (h i List.mem_cons_self)]
    exact ih fun i' hi' => h i' (List.mem_cons_of_mem _ hi')

/-- Entries without a page are skipped. -/
theorem shareTable_skip (h : ∀ j ∈ l, test (m.entry srcTable j) pagePresent = false) :
    shareTable srcTable newTable (l ++ l') m = shareTable srcTable newTable l' m := by
  induction l with
  | nil => rfl
  | cons j l ih =>
    rw [List.cons_append]
    conv_lhs => unfold shareTable
    dsimp only
    rw [if_pos (h j List.mem_cons_self)]
    exact ih fun j' hj' => h j' (List.mem_cons_of_mem _ hj')

/-- Entries without a table are skipped. -/
theorem shareTables_skip (h : ∀ i ∈ l, test (m.entry newDir i) pagePresent = false) :
    shareTables srcDir newDir (l ++ l') m = shareTables srcDir newDir l' m := by
  induction l with
  | nil => rfl
  | cons i l ih =>
    rw [List.cons_append]
    conv_lhs => unfold shareTables
    dsimp only
    rw [if_pos (.inl (h i List.mem_cons_self))]
    exact ih fun i' hi' => h i' (List.mem_cons_of_mem _ hi')

/-- A directory without tables is cloned when there is a frame for the new one. -/
theorem pagingCloneDirectory_empty (hsrc : srcCr3 ≠ 0) (hscratch : m.kernelScratchTable ≠ 0)
    (halloc : m.allocatorAllocPageTable = (newDir, m')) (hdir : newDir ≠ 0)
    (hempty : ∀ i, m'.entry (srcCr3 &&& addrMask) i = 0)
    (hnew : ∀ i, test (m'.entry newDir i) pagePresent = false) :
    (m.pagingCloneDirectory srcCr3).1 = newDir := by
  have htables : cloneTables (srcCr3 &&& addrMask) newDir (tableIndices ++ []) m' = (true, m') :=
    cloneTables_skip fun i _ => by rw [hempty i]; decide
  have hpages : shareTables (srcCr3 &&& addrMask) newDir (tableIndices ++ []) m' = (true, m') :=
    shareTables_skip fun i _ => hnew i
  rw [List.append_nil] at htables hpages
  unfold pagingCloneDirectory
  rw [if_neg (not_or.mpr ⟨hsrc, hscratch⟩), halloc]
  dsimp only
  rw [if_neg hdir, htables]
  dsimp only
  rw [if_neg Bool.noConfusion, hpages]
  dsimp only
  rw [if_neg Bool.noConfusion]

/-- Every index comes once. -/
theorem tableIndices_split (i : TableIndex) :
    ∃ l l', tableIndices = l ++ i :: l' ∧ (∀ i' ∈ l, i' ≠ i) ∧ ∀ i' ∈ l', i' ≠ i := by
  obtain ⟨l, l', hl⟩ := List.append_of_mem (mem_tableIndices i)
  have hnodup : (i :: (l ++ l')).Nodup := List.nodup_middle.mp (hl ▸ nodup_tableIndices)
  have hnot : i ∉ l ++ l' := (List.nodup_cons.mp hnodup).1
  rw [List.mem_append, not_or] at hnot
  exact ⟨l, l', hl, fun i' hi' hc => hnot.1 (hc ▸ hi'), fun i' hi' hc => hnot.2 (hc ▸ hi')⟩

/-- A loop over the entries of a table that acts on one of them. -/
theorem foldl_tableIndices {f : Memory → TableIndex → Memory} (hskip : ∀ i', i' ≠ i → f m i' = m)
    (hstep : f m i = m') (hskip' : ∀ i', i' ≠ i → f m' i' = m') : tableIndices.foldl f m = m' := by
  obtain ⟨l, l', hl, hleft, hright⟩ := tableIndices_split i
  have hfixed {k : List TableIndex} {m : Memory} (hk : ∀ i' ∈ k, i' ≠ i) (h : ∀ i', i' ≠ i → f m i' = m) :
      k.foldl f m = m := by
    induction k with
    | nil => rfl
    | cons i' k ih =>
      rw [List.foldl_cons, h i' (hk i' List.mem_cons_self)]
      exact ih fun i'' hi'' => hk i'' (List.mem_cons_of_mem _ hi'')
  rw [hl, List.foldl_append, hfixed hleft hskip, List.foldl_cons, hstep, hfixed hright hskip']

/-- Phase 1 for a directory with one table. -/
theorem cloneTables_one {m₂ m₃ : Memory} {table : Word}
    (hskip : ∀ i', i' ≠ i → test (m.entry srcDir i') pagePresent = false)
    (hpresent : test (m.entry srcDir i) pagePresent = true) (huser : test (m.entry srcDir i) pageUser = true)
    (halloc : m.allocatorAllocPageTable = (table, m₂)) (hne : table ≠ 0)
    (hset : m₂.setEntry newDir i (table &&& addrMask ||| m₂.entry srcDir i &&& flagMask) = m₃)
    (hshare : m₃.tableShareable (m.entry srcDir i &&& addrMask) = true)
    (hskip' : ∀ i', i' ≠ i → test (m₃.entry srcDir i') pagePresent = false) :
    cloneTables srcDir newDir tableIndices m = (true, m₃) := by
  obtain ⟨l, l', hl, hleft, hright⟩ := tableIndices_split i
  have hrest : cloneTables srcDir newDir (l' ++ []) m₃ = (true, m₃) :=
    cloneTables_skip fun i' hi' => hskip' i' (hright i' hi')
  rw [List.append_nil] at hrest
  rw [hl, cloneTables_skip fun i' hi' => hskip i' (hleft i' hi')]
  conv_lhs => unfold cloneTables
  dsimp only
  rw [hpresent, huser, if_neg Bool.noConfusion, if_neg fun hc => Bool.noConfusion hc.2, halloc]
  dsimp only
  rw [if_neg hne, hset, if_pos hshare, hrest]

/-- Phase 2a for a table with one page. -/
theorem shareTable_one {m'' : Memory} (hskip : ∀ j', j' ≠ j → test (m.entry srcTable j') pagePresent = false)
    (hpresent : test (m.entry srcTable j) pagePresent = true) (huser : test (m.entry srcTable j) pageUser = true)
    (hretain : m.frameRetain (m.entry srcTable j &&& addrMask) = (true, m'))
    (hset : m'.setEntry newTable j (m'.entry srcTable j) = m'')
    (hskip' : ∀ j', j' ≠ j → test (m''.entry srcTable j') pagePresent = false) :
    shareTable srcTable newTable tableIndices m = (true, m'') := by
  obtain ⟨l, l', hl, hleft, hright⟩ := tableIndices_split j
  have hrest : shareTable srcTable newTable (l' ++ []) m'' = (true, m'') :=
    shareTable_skip fun j' hj' => hskip' j' (hright j' hj')
  rw [List.append_nil] at hrest
  rw [hl, shareTable_skip fun j' hj' => hskip j' (hleft j' hj')]
  conv_lhs => unfold shareTable
  dsimp only
  rw [hpresent, huser, if_neg Bool.noConfusion, if_neg Bool.noConfusion, hretain]
  dsimp only
  rw [if_neg Bool.noConfusion, hset, hrest]

/-- Phase 2a for a directory with one table. -/
theorem shareTables_one (hskip : ∀ i', i' ≠ i → test (m.entry newDir i') pagePresent = false)
    (hpresent : test (m.entry newDir i) pagePresent = true) (huser : test (m.entry newDir i) pageUser = true)
    (htable : shareTable (m.entry srcDir i &&& addrMask) (m.entry newDir i &&& addrMask) tableIndices m =
      (true, m'))
    (hskip' : ∀ i', i' ≠ i → test (m'.entry newDir i') pagePresent = false) :
    shareTables srcDir newDir tableIndices m = (true, m') := by
  obtain ⟨l, l', hl, hleft, hright⟩ := tableIndices_split i
  have hrest : shareTables srcDir newDir (l' ++ []) m' = (true, m') :=
    shareTables_skip fun i' hi' => hskip' i' (hright i' hi')
  rw [List.append_nil] at hrest
  conv_lhs => rw [hl, shareTables_skip fun i' hi' => hskip i' (hleft i' hi')]
  conv_lhs => unfold shareTables
  rw [hpresent, huser, if_neg (fun hc => hc.elim Bool.noConfusion fun hc => Bool.noConfusion hc.2), htable]
  dsimp only
  rw [if_neg Bool.noConfusion, hrest]

/-- Phase 2b for a directory with one table with one page. -/
theorem commitCow_one (hskip : ∀ i', i' ≠ i → test (m.entry newDir i') pagePresent = false)
    (hpresent : test (m.entry newDir i) pagePresent = true) (huser : test (m.entry newDir i) pageUser = true)
    (hsource : m.entry srcDir i &&& addrMask = srcTable) (hnew : m.entry newDir i &&& addrMask = newTable)
    (honly : ∀ j', j' ≠ j → isPresent (m.entry srcTable j') = false)
    (hpage : commitCowPage srcTable newTable m j = m')
    (honly' : ∀ j', j' ≠ j → isPresent (m'.entry srcTable j') = false)
    (hskip' : ∀ i', i' ≠ i → test (m'.entry newDir i') pagePresent = false) :
    commitCow srcDir newDir m = m' := by
  have hkeeps {m : Memory} {j' : TableIndex} (habsent : isPresent (m.entry srcTable j') = false) :
      commitCowPage srcTable newTable m j' = m := by
    unfold commitCowPage
    dsimp only
    rw [has_or, has_pagePresent, habsent, if_neg (by simp)]
  have htable : commitCowTable srcDir newDir m i = m' := by
    unfold commitCowTable
    rw [hpresent, huser, if_neg (fun hc => hc.elim Bool.noConfusion fun hc => Bool.noConfusion hc.2), hsource, hnew]
    exact foldl_tableIndices (fun j' hj' => hkeeps (honly j' hj')) hpage fun j' hj' => hkeeps (honly' j' hj')
  unfold commitCow
  refine foldl_tableIndices (fun i' hi' => ?_) htable fun i' hi' => ?_
  · unfold commitCowTable
    rw [if_pos (.inl (hskip i' hi'))]
  · unfold commitCowTable
    rw [if_pos (.inl (hskip' i' hi'))]

/-- A directory with one page: entry `i` of the directory in frame `s` is the page table in frame `ts`, and
entry `j` of that one a page that can be stored to; there is no other entry. -/
structure HasOnePage (m : Memory) (s ts : Nat) (i j : TableIndex) : Prop where
  table : has (m.ram s i) (pagePresent ||| pageUser) = true
  frame : frameOf (m.ram s i) = ts
  page : has (m.ram ts j) (pagePresent ||| pageUser) = true
  storable : test (m.ram ts j) (pageWritable ||| pageCow) = true
  onlyTable : ∀ i', i' ≠ i → isPresent (m.ram s i') = false
  onlyPage : ∀ j', j' ≠ j → isPresent (m.ram ts j') = false

instance : Decidable (m.HasOnePage s ts i j) :=
  decidable_of_iff
    ((has (m.ram s i) (pagePresent ||| pageUser) = true ∧ frameOf (m.ram s i) = ts) ∧
      (has (m.ram ts j) (pagePresent ||| pageUser) = true ∧ test (m.ram ts j) (pageWritable ||| pageCow) = true) ∧
        (∀ i', i' ≠ i → isPresent (m.ram s i') = false) ∧ ∀ j', j' ≠ j → isPresent (m.ram ts j') = false)
    ⟨fun ⟨⟨htable, hframe⟩, ⟨hpage, hstorable⟩, htables, hpages⟩ =>
        ⟨htable, hframe, hpage, hstorable, htables, hpages⟩,
      fun h => ⟨⟨h.table, h.frame⟩, ⟨h.page, h.storable⟩, h.onlyTable, h.onlyPage⟩⟩

/-- What the clone of such a directory leaves: the new directory `n` and its table `tn`, and the page read-only
and copy-on-write on both sides. -/
def clonedPage (m : Memory) (fr : FrameState) (s n ts tn : Nat) (i j : TableIndex) : Memory :=
  (((m.withFrames fr).writeFrame n
      (update (fun _ => 0x02) i (frameAddr tn &&& addrMask ||| m.ram s i &&& flagMask))).writeFrame ts
    (update (m.ram ts) j (cowEntry (m.ram ts j)))).writeFrame tn
      (update (fun _ => 0x02) j (cowEntry (m.ram ts j)))

/-- Frames that are all different. -/
structure CloneFrames (s n ts tn : Nat) : Prop where
  source : 0 < s ∧ s < 1048576
  new : 0 < n ∧ n < 1048576
  table : ts < 1048576
  newTable : 0 < tn ∧ tn < 1048576
  distinct : [s, n, ts, tn].Nodup

/-- The one page of the table can be shared. -/
theorem tableShareable_onePage (h : m.HasOnePage s ts i j) (hts : ts < 1048576)
    (hcount : m.frames.frameGetRefcount (m.ram ts j &&& addrMask) ≠ 0)
    (hcount' : m.frames.frameGetRefcount (m.ram ts j &&& addrMask) ≠ 0xFFFF) :
    m.tableShareable (frameAddr ts) = true := by
  unfold tableShareable
  refine List.all_eq_true.mpr fun j' _ => ?_
  dsimp only
  rw [Represents.entry_frameAddr hts]
  by_cases hj : j' = j
  · subst hj
    simp [hcount, hcount']
  · rw [has_or, has_pagePresent, h.onlyPage j' hj]
    rfl

open Represents in
/-- **The clone of a directory with one page**, when there are two frames and the page can be counted once
more. -/
theorem pagingCloneDirectory_onePage {fr : FrameState} (h : m.HasOnePage s ts i j) (hframes : CloneFrames s n ts tn)
    (hscratch : m.kernelScratchTable ≠ 0) (halloc : m.allocatorAllocPageTable = (frameAddr n, withTable m n))
    (halloc' : (withTable m n).allocatorAllocPageTable = (frameAddr tn, withTable (withTable m n) tn))
    (hcount : ((m.frames.take n).take tn).frameGetRefcount (m.ram ts j &&& addrMask) ≠ 0)
    (hcount' : ((m.frames.take n).take tn).frameGetRefcount (m.ram ts j &&& addrMask) ≠ 0xFFFF)
    (hretain : ((m.frames.take n).take tn).frameRetain (m.ram ts j &&& addrMask) = (true, fr)) :
    m.pagingCloneDirectory (frameAddr s) = (frameAddr n, m.clonedPage fr s n ts tn i j) := by
  obtain ⟨⟨hs0, hs⟩, ⟨hn0, hn⟩, hts, ⟨htn0, htn⟩, hdistinct⟩ := hframes
  obtain ⟨⟨hsn, hsts, hstn⟩, ⟨hnts, hntn⟩, htstn⟩ :
      (s ≠ n ∧ s ≠ ts ∧ s ≠ tn) ∧ (n ≠ ts ∧ n ≠ tn) ∧ ts ≠ tn := by
    simpa [and_assoc] using hdistinct
  have htable := h.table
  have hpage := h.page
  rw [has_or, has_pagePresent, has_pageUser, Bool.and_eq_true] at htable hpage
  have hsrc : frameAddr s &&& addrMask = frameAddr s := frameAddr_and_addrMask hs
  have haddr : m.ram s i &&& addrMask = frameAddr ts := by rw [and_addrMask, h.frame]
  obtain ⟨hframe, hpresent', -, huser'⟩ := cloneEntry_facts htn (m.ram s i)
  set dirEntry := frameAddr tn &&& addrMask ||| m.ram s i &&& flagMask
  set cow := cowEntry (m.ram ts j)
  -- the directory with its new table
  have hset₃ : (withTable (withTable m n) tn).setEntry (frameAddr n) i dirEntry =
      (withTable (withTable m n) tn).writeFrame n (update (fun _ => 0x02) i dirEntry) := by
    rw [setEntry_frameAddr hn]
    congr 2
    exact (update_of_ne hntn ..).trans (update_self ..)
  generalize hm₃ : (withTable (withTable m n) tn).writeFrame n (update (fun _ => 0x02) i dirEntry) = m₃ at hset₃
  have hrow₃ (f : Nat) (hfn : f ≠ n) (hftn : f ≠ tn) : m₃.ram f = m.ram f := by
    rw [← hm₃]
    exact (update_of_ne hfn ..).trans ((update_of_ne hftn ..).trans (update_of_ne hfn ..))
  have hnew₃ : m₃.ram n = update (fun _ => 0x02) i dirEntry := by
    rw [← hm₃]
    exact update_self ..
  have htn₃ : m₃.ram tn = fun _ => 0x02 := by
    rw [← hm₃]
    exact (update_of_ne hntn.symm ..).trans (update_self ..)
  have hframes₃ : m₃.frames = (m.frames.take n).take tn := by
    rw [← hm₃]
    rfl
  have hone₃ : m₃.HasOnePage s ts i j := by
    have hs₃ := hrow₃ s hsn hstn
    have hts₃ := hrow₃ ts hnts.symm htstn
    exact ⟨by rw [hs₃]; exact h.table, by rw [hs₃]; exact h.frame, by rw [hts₃]; exact h.page,
      by rw [hts₃]; exact h.storable, by rw [hs₃]; exact h.onlyTable, by rw [hts₃]; exact h.onlyPage⟩
  have hshare : m₃.tableShareable (frameAddr ts) = true :=
    tableShareable_onePage hone₃ hts (by rw [hframes₃, hrow₃ ts hnts.symm htstn]; exact hcount)
      (by rw [hframes₃, hrow₃ ts hnts.symm htstn]; exact hcount')
  have hs₁ : (withTable m n).ram s = m.ram s := update_of_ne hsn ..
  have hs₂ : (withTable (withTable m n) tn).ram s = m.ram s := (update_of_ne hstn ..).trans hs₁
  have hphase1 : cloneTables (frameAddr s) (frameAddr n) tableIndices (withTable m n) = (true, m₃) := by
    refine cloneTables_one (i := i) (fun i' hi' => ?_) ?_ ?_ halloc' (frameAddr_ne_zero htn0 htn) ?_ ?_
      fun i' hi' => ?_
    · rw [entry_frameAddr hs, hs₁, test_pagePresent, h.onlyTable i' hi']
    · rw [entry_frameAddr hs, hs₁, test_pagePresent, htable.1]
    · rw [entry_frameAddr hs, hs₁, test_pageUser, htable.2]
    · rw [entry_frameAddr hs, hs₂]
      exact hset₃
    · rw [entry_frameAddr hs, hs₁, haddr]
      exact hshare
    · rw [entry_frameAddr hs, test_pagePresent, hone₃.onlyTable i' hi']
  -- the table with its page
  have hretain₃ : m₃.frameRetain (m.ram ts j &&& addrMask) = (true, m₃.withFrames fr) := by
    unfold Memory.frameRetain
    rw [hframes₃, hretain]
  have hset₅ : (m₃.withFrames fr).setEntry (frameAddr tn) j (m.ram ts j) =
      (m₃.withFrames fr).writeFrame tn (update (fun _ => 0x02) j (m.ram ts j)) := by
    rw [setEntry_frameAddr htn]
    congr 2
  generalize hm₅ : (m₃.withFrames fr).writeFrame tn (update (fun _ => 0x02) j (m.ram ts j)) = m₅ at hset₅
  have hrow₅ (f : Nat) (hftn : f ≠ tn) : m₅.ram f = m₃.ram f := by
    rw [← hm₅]
    exact update_of_ne hftn ..
  have hts₅ : m₅.ram ts = m.ram ts := (hrow₅ ts htstn).trans (hrow₃ ts hnts.symm htstn)
  have hnew₅ : m₅.ram n = update (fun _ => 0x02) i dirEntry := (hrow₅ n hntn).trans hnew₃
  have habsent (i' : TableIndex) (hi' : i' ≠ i) :
      isPresent (update (fun _ => (0x02 : Word)) i dirEntry i') = false := by
    rw [update_of_ne hi']
    exact absent_bits.1
  have hphase2 : shareTables (frameAddr s) (frameAddr n) tableIndices m₃ = (true, m₅) := by
    refine shareTables_one (i := i) (fun i' hi' => ?_) ?_ ?_ ?_ fun i' hi' => ?_
    · rw [entry_frameAddr hn, hnew₃, test_pagePresent, habsent i' hi']
    · rw [entry_frameAddr hn, hnew₃, test_pagePresent, update_self, hpresent', htable.1]
    · rw [entry_frameAddr hn, hnew₃, test_pageUser, update_self, huser', htable.2]
    · rw [entry_frameAddr hs, entry_frameAddr hn, hnew₃, update_self, hrow₃ s hsn hstn, haddr,
        and_addrMask dirEntry, hframe]
      refine shareTable_one (j := j) (fun j' hj' => ?_) ?_ ?_
        (show m₃.frameRetain _ = (true, m₃.withFrames fr) from ?_) ?_ fun j' hj' => ?_
      · rw [entry_frameAddr hts, test_pagePresent, hone₃.onlyPage j' hj']
      · rw [entry_frameAddr hts, test_pagePresent, hrow₃ ts hnts.symm htstn, hpage.1]
      · rw [entry_frameAddr hts, test_pageUser, hrow₃ ts hnts.symm htstn, hpage.2]
      · rw [entry_frameAddr hts, hrow₃ ts hnts.symm htstn]
        exact hretain₃
      · rw [entry_frameAddr hts]
        show (m₃.withFrames fr).setEntry _ j (m₃.ram ts j) = m₅
        rw [hrow₃ ts hnts.symm htstn]
        exact hset₅
      · rw [entry_frameAddr hts, test_pagePresent, hts₅, h.onlyPage j' hj']
    · rw [entry_frameAddr hn, hnew₅, test_pagePresent, habsent i' hi']
  -- the page, read-only on both sides
  have hcommit : commitCowPage (frameAddr ts) (frameAddr tn) m₅ j = m.clonedPage fr s n ts tn i j := by
    unfold commitCowPage
    dsimp only
    rw [entry_frameAddr hts, hts₅, h.page, h.storable, if_pos (by decide), setEntry_frameAddr hts,
      setEntry_frameAddr htn, hts₅, show m.ram ts j &&& ~~~pageWritable ||| pageCow = cow from rfl]
    have htn₅ : (m₅.writeFrame ts (update (m.ram ts) j cow)).ram tn = update (fun _ => 0x02) j (m.ram ts j) := by
      rw [writeFrame_ram, update_of_ne htstn.symm, ← hm₅]
      exact update_self ..
    have hbase : m₃.withFrames fr =
        (((m.withFrames fr).writeFrame n fun _ => 0x02).writeFrame tn fun _ => 0x02).writeFrame n
          (update (fun _ => 0x02) i dirEntry) := by
      rw [← hm₃]
      rfl
    rw [htn₅, update_idem, ← hm₅, writeFrame_comm htstn.symm, writeFrame_writeFrame, hbase,
      writeFrame_comm hntn.symm, writeFrame_writeFrame, writeFrame_comm htstn.symm, writeFrame_writeFrame]
    rfl
  have hsame (f : Nat) (hftn : f ≠ tn) (hfts : f ≠ ts) : (m.clonedPage fr s n ts tn i j).ram f = m₅.ram f := by
    rw [← hcommit]
    unfold commitCowPage
    dsimp only
    split
    · rw [setEntry_frameAddr hts, setEntry_frameAddr htn]
      exact (update_of_ne hftn ..).trans (update_of_ne hfts ..)
    · rfl
  have htsCloned : (m.clonedPage fr s n ts tn i j).ram ts = update (m.ram ts) j cow :=
    (update_of_ne htstn ..).trans (update_self ..)
  have hphase3 : commitCow (frameAddr s) (frameAddr n) m₅ = m.clonedPage fr s n ts tn i j := by
    refine commitCow_one (i := i) (j := j) (fun i' hi' => ?_) ?_ ?_ (show _ = frameAddr ts from ?_)
      (show _ = frameAddr tn from ?_) (fun j' hj' => ?_) hcommit (fun j' hj' => ?_) fun i' hi' => ?_
    · rw [entry_frameAddr hn, hnew₅, test_pagePresent, habsent i' hi']
    · rw [entry_frameAddr hn, hnew₅, test_pagePresent, update_self, hpresent', htable.1]
    · rw [entry_frameAddr hn, hnew₅, test_pageUser, update_self, huser', htable.2]
    · rw [entry_frameAddr hs, hrow₅ s hstn, hrow₃ s hsn hstn, haddr]
    · rw [entry_frameAddr hn, hnew₅, update_self, and_addrMask, hframe]
    · rw [entry_frameAddr hts, hts₅, h.onlyPage j' hj']
    · rw [entry_frameAddr hts, htsCloned, update_of_ne hj', h.onlyPage j' hj']
    · rw [entry_frameAddr hn, hsame n hntn hnts, hnew₅, test_pagePresent, habsent i' hi']
  unfold pagingCloneDirectory
  rw [hsrc, if_neg (not_or.mpr ⟨frameAddr_ne_zero hs0 hs, hscratch⟩), halloc]
  dsimp only
  rw [if_neg (frameAddr_ne_zero hn0 hn), hphase1]
  dsimp only
  rw [if_neg Bool.noConfusion, hphase2]
  dsimp only
  rw [if_neg Bool.noConfusion, hphase3]

/-- When there is a frame for the new directory and none for its table, the directory is given back. -/
theorem pagingCloneDirectory_onePage_refused (h : m.HasOnePage s ts i j) (hs : 0 < s ∧ s < 1048576)
    (hn : 0 < n ∧ n < 1048576) (hsn : s ≠ n) (hscratch : m.kernelScratchTable ≠ 0)
    (halloc : m.allocatorAllocPageTable = (frameAddr n, Represents.withTable m n))
    (hnone : (Represents.withTable m n).allocatorAllocPageTable = (0, Represents.withTable m n)) :
    m.pagingCloneDirectory (frameAddr s) =
      (0, (Represents.withTable m n).pagingDestroyCloneSkeleton (frameAddr n)) := by
  have htable := h.table
  rw [has_or, has_pagePresent, has_pageUser, Bool.and_eq_true] at htable
  have hs₁ : (Represents.withTable m n).ram s = m.ram s := update_of_ne hsn ..
  have hphase1 : cloneTables (frameAddr s) (frameAddr n) tableIndices (Represents.withTable m n) =
      (false, (Represents.withTable m n).pagingDestroyCloneSkeleton (frameAddr n)) := by
    obtain ⟨l, l', hl, hleft, -⟩ := tableIndices_split i
    have hskip (i' : TableIndex) (hi' : i' ∈ l) :
        test ((Represents.withTable m n).entry (frameAddr s) i') pagePresent = false := by
      rw [Represents.entry_frameAddr hs.2, hs₁, test_pagePresent, h.onlyTable i' (hleft i' hi')]
    rw [hl, cloneTables_skip hskip]
    conv_lhs => unfold cloneTables
    dsimp only
    rw [Represents.entry_frameAddr hs.2, hs₁, test_pagePresent, htable.1, test_pageUser, htable.2,
      if_neg Bool.noConfusion, if_neg fun hc => Bool.noConfusion hc.2, hnone]
    dsimp only
    rw [if_pos rfl]
  unfold pagingCloneDirectory
  rw [frameAddr_and_addrMask hs.2, if_neg (not_or.mpr ⟨frameAddr_ne_zero hs.1 hs.2, hscratch⟩), halloc]
  dsimp only
  rw [if_neg (frameAddr_ne_zero hn.1 hn.2), hphase1]
  dsimp only
  rw [if_pos rfl]

/-- One frame is not enough for a clone of such a directory. -/
theorem pagingCloneDirectory_lastFrame (h : m.HasOnePage s ts i j) (hs : 0 < s ∧ s < 1048576)
    (htaken : m.frames.frameBitmap s = true) (hscratch : m.kernelScratchTable ≠ 0)
    (hinit : m.frames.frameInitialized = true) (hcounted : m.frames.Counted)
    (hone : m.frames.frameGetFreeCount ≤ 1) : (m.pagingCloneDirectory (frameAddr s)).1 = 0 := by
  have hfew : m.frames.freeBelow 1024 ≤ 1 := (hcounted.freeBelow_le 1024).trans hone
  rcases allocTable_lowest hinit hcounted.total_le with ⟨-, hnone⟩ | ⟨n, -, hn, halloc⟩
  · unfold pagingCloneDirectory
    rw [if_neg (not_or.mpr ⟨frameAddr_ne_zero hs.1 hs.2, hscratch⟩), hnone]
    rfl
  · have hsn : s ≠ n := by
      rintro rfl
      exact absurd htaken (by rw [hn.free]; exact Bool.false_ne_true)
    have hzero : (Represents.withTable m n).frames.freeBelow 1024 = 0 := by
      show (m.frames.take n).freeBelow 1024 = 0
      rw [hn.freeBelow_take]
      omega
    have hnone : (Represents.withTable m n).allocatorAllocPageTable = (0, Represents.withTable m n) := by
      rcases allocTable_lowest (m := Represents.withTable m n) hinit hcounted.total_le with
        ⟨-, hnone⟩ | ⟨t, hpos, -⟩
      · exact hnone
      · exact absurd hzero (Nat.ne_of_gt hpos)
    have hlow := hn.low
    have hpos : 0 < n := Nat.lt_of_lt_of_le (by decide) hlow
    rw [pagingCloneDirectory_onePage_refused h hs ⟨hpos, hn.lt_max hcounted⟩ hsn hscratch halloc hnone]

end Memory

end AgenticOs
