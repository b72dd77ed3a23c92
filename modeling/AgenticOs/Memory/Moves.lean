import AgenticOs.Memory.Spaces

/-!
# The moves on represented memory

`Layout` ties the words in physical memory to `Spaces`; `Represents` is `Layout` and `Accounting` together.
Each lemma below is one thing an operation of `paging.c` does to represented memory.

* **Start** (`Booted`): the states that address spaces are created from. The kernel's own directory has
  supervisor entries only, and their tables are no frames that the allocator hands out.
* **Allocator moves**: a free frame goes to a hand (`takePage`, `takeTable`), a hand gives its frame back
  (`dropPage`, `dropTable`), the frame of a page is held once more (`retainPage`).
* **Memory moves**: a word of a table (`writePage`), an entry of a directory (`writeDir`) or a directory
  (`newDir`, `dropDir`) is exchanged with what a hand holds; a frame of a page or in a hand is filled
  (`writeContent`, `writeTableHand`).

The moves that write memory first show that the frame written to is no directory, table or page of another
owner: that is what `Accounting.structural_unique` is for.
-/

namespace AgenticOs

open Function Finset Lib

/-- A table the kernel's own directory shares with every address space. -/
def KernelTable (m0 : Memory) (t : Nat) : Prop :=
  ∃ i, i ≠ 0 ∧ isPresent (m0.ram (frameOf pageDirectory) i) = true ∧
    frameOf (m0.ram (frameOf pageDirectory) i) = t

/-- A state the kernel starts address spaces from: its own directory has supervisor entries only,
all outside the user range, and their tables are no frames the allocator can hand out and map no
user page. -/
structure Booted (m0 : Memory) : Prop where
  counted : m0.frames.Counted
  initialized : m0.frames.frameInitialized = true
  active : m0.activePageDirectory = pageDirectory
  supervisor : ∀ i, isPresent (m0.ram (frameOf pageDirectory) i) = true →
    isUser (m0.ram (frameOf pageDirectory) i) = false ∧ ¬ inUserRange i
  kernelTable : ∀ t, KernelTable m0 t →
    ¬ Pool m0.frames t ∧ ∀ j, userEntry (m0.ram t j) = none
  scratch : m0.kernelScratchTable ≠ 0 →
    ¬ Pool m0.frames (frameOf m0.kernelScratchTable) ∧
      frameOf m0.kernelScratchTable ≠ frameOf pageDirectory

/-- The words of live directories and tables, and the contents of mapped frames, are as `S` says. -/
structure Layout (m0 : Memory) (ram : Nat → TableIndex → Word) (active : Word) (S : Spaces) :
    Prop where
  dirs : ∀ d ∈ S.live, ∀ i, S.table d i = ownedTable i (ram d i)
  pages : ∀ d i t, S.table d i = some t → ∀ j, S.entry d i j = userEntry (ram t j)
  contents : ∀ d i j e, S.entry d i j = some e → ram (frameOf e) = S.content (frameOf e)
  handContent : ∀ f, S.pageHand = some f → ram f = S.content f
  /-- supervisor entries are outside the user range, and shared with the kernel -/
  shared : ∀ d ∈ S.live, ∀ i, isPresent (ram d i) = true → isUser (ram d i) = false →
    ¬ inUserRange i ∧ (i ≠ 0 → KernelTable m0 (frameOf (ram d i)))
  /-- user tables are writable, so a page's own entry decides -/
  writable : ∀ d ∈ S.live, ∀ i, isPresent (ram d i) = true → isUser (ram d i) = true →
    isWritable (ram d i) = true
  /-- entries of the user range that map no page name no frame -/
  blank : ∀ d i t, S.table d i = some t → inUserRange i → ∀ j, userEntry (ram t j) = none →
    frameOf (ram t j) = 0
  kernel : ram (frameOf pageDirectory) = m0.ram (frameOf pageDirectory)
  kernelTables : ∀ t, KernelTable m0 t → ∀ j, userEntry (ram t j) = none
  active : active = pageDirectory ∨ ∃ d ∈ S.live, active = frameAddr d

/-- Memory `m`, reached from `m0`, stores the address spaces `S`. -/
structure Represents (m0 m : Memory) (S : Spaces) : Prop where
  booted : Booted m0
  books : Accounting m0.frames m.frames S
  layout : Layout m0 m.ram m.activePageDirectory S
  scratch : m.kernelScratchTable = m0.kernelScratchTable

/-- The layout does not mention the table hand, and the page hand and contents only where pages
are. -/
theorem Layout.hands {m0 : Memory} {ram : Nat → TableIndex → Word} {active : Word} {S S' : Spaces}
    (h : Layout m0 ram active S) (hlive : S'.live = S.live) (htable : S'.table = S.table)
    (hentry : S'.entry = S.entry)
    (hcont : ∀ d i j e, S.entry d i j = some e → S'.content (frameOf e) = S.content (frameOf e))
    (hhand : ∀ f, S'.pageHand = some f → ram f = S'.content f) : Layout m0 ram active S' where
  dirs := by rw [hlive, htable]; exact h.dirs
  pages := by rw [htable, hentry]; exact h.pages
  contents := by
    intro d i j e he
    rw [hentry] at he
    rw [hcont d i j e he]
    exact h.contents d i j e he
  handContent := hhand
  shared := by rw [hlive]; exact h.shared
  writable := by rw [hlive]; exact h.writable
  blank := by rw [htable]; exact h.blank
  kernel := h.kernel
  kernelTables := h.kernelTables
  active := by rw [hlive]; exact h.active

namespace Represents

variable {m0 m : Memory} {S : Spaces} {d t f g : Nat} {i j : TableIndex}

/-- An equal view. -/
theorem of_eq {S' : Spaces} (h : Represents m0 m S) (hS : S = S') : Represents m0 m S' := hS ▸ h

/-! ### Where frames are -/

/-- A directory is where it is. -/
theorem held_dir (hd : d ∈ S.live) : S.held (.dir d) = some d := by simp [Spaces.held, hd]

/-- A page is in the frame of its entry. -/
theorem held_page {e : Word} (he : S.entry d i j = some e) :
    S.held (.page d i j) = some (frameOf e) := by simp [Spaces.held, he]

/-- A directory is no table. -/
theorem dir_ne_table (h : Represents m0 m S) (hd : d ∈ S.live) {d' : Nat}
    (ht : S.table d' i = some t) : d ≠ t := by
  rintro rfl
  have := h.books.structural_unique (o := .dir d) (p := .table d' i) rfl (held_dir hd) ht
  cases this

/-- A table belongs to one directory and one index. -/
theorem table_inj (h : Represents m0 m S) {d' : Nat} {i' : TableIndex}
    (ht : S.table d i = some t) (ht' : S.table d' i' = some t) : d' = d ∧ i' = i := by
  have := h.books.structural_unique (o := .table d i) (p := .table d' i') rfl ht ht'
  cases this
  exact ⟨rfl, rfl⟩

/-- A page is no directory and no table. -/
theorem page_ne_structural (h : Represents m0 m S) {o : Owner} (hs : o.structural = true)
    (ho : S.held o = some f) {e : Word} (he : S.entry d i j = some e) : frameOf e ≠ f := by
  rintro rfl
  have := h.books.structural_unique hs ho (held_page he)
  subst this
  cases hs

/-- Nor is the page in hand. -/
theorem hand_ne_structural (h : Represents m0 m S) {o : Owner} (hs : o.structural = true)
    (ho : S.held o = some f) (hg : S.pageHand = some g) : g ≠ f := by
  rintro rfl
  have := h.books.structural_unique hs ho (p := .pageHand) hg
  subst this
  cases hs

/-- Every frame somebody holds lies above the kernel image. -/
theorem held_ge (h : Represents m0 m S) {o : Owner} (ho : S.held o = some f) : firstFrame ≤ f :=
  (h.books.pool o f ho).1

/-- The kernel's directory is not in the pool. -/
theorem pool_ne_kernel (hp : Pool m0.frames f) : f ≠ frameOf pageDirectory := by
  have h1 := hp.1
  have h2 : frameOf pageDirectory = 256 := by decide
  simp only [firstFrame] at h1
  omega

/-- It is held by nobody. -/
theorem held_ne_kernel (h : Represents m0 m S) {o : Owner} (ho : S.held o = some f) :
    f ≠ frameOf pageDirectory := pool_ne_kernel (h.books.pool o f ho)

/-- The kernel's tables are not in the pool. -/
theorem pool_ne_kernelTable (h : Represents m0 m S) (hp : Pool m0.frames f) {t : Nat}
    (ht : KernelTable m0 t) : t ≠ f := by
  rintro rfl
  exact (h.booted.kernelTable t ht).1 hp

/-! ### Allocator moves -/

/-- Well-formedness is about directories, tables and entries only. -/
theorem wf_of_eq {S' : Spaces} (h : S.WellFormed) (h1 : S'.live = S.live)
    (h2 : S'.table = S.table) (h3 : S'.entry = S.entry) : S'.WellFormed where
  low := by rw [h1]; exact h.low
  tables := by rw [h1, h2]; exact h.tables
  entries := by rw [h2, h3]; exact h.entries

/-- A free frame goes to the page hand. -/
theorem takePage (h : Represents m0 m S) (hlow : firstFrame ≤ f) (hf : f < m.frames.totalFrames)
    (hfree : m.frames.frameBitmap f = false) (hhand : S.pageHand = none) :
    Represents m0 (m.withFrames (m.frames.take f))
      ((S.withPageHand (some f)).withContent (update S.content f (m.ram f))) where
  booted := h.booted
  books := by
    refine h.books.take (o := .pageHand) hlow hf hfree pageHand_mem_owners hhand ?_
      (wf_of_eq h.books.wellFormed rfl rfl rfl)
    funext o
    cases o <;> rfl
  layout := by
    refine h.layout.hands rfl rfl rfl ?_ ?_
    · intro d i j e he
      have hne : frameOf e ≠ f := by
        rintro rfl
        exact h.books.not_held_of_free hfree _ (held_page he)
      exact update_of_ne hne _ _
    · intro g hg
      obtain rfl : f = g := Option.some_inj.mp hg
      show m.ram f = update S.content f (m.ram f) f
      rw [update_self]
  scratch := h.scratch

/-- A free frame goes to the table hand. -/
theorem takeTable (h : Represents m0 m S) (hlow : firstFrame ≤ f) (hf : f < m.frames.totalFrames)
    (hfree : m.frames.frameBitmap f = false) (hhand : S.tableHand = none) :
    Represents m0 (m.withFrames (m.frames.take f)) (S.withTableHand (some f)) where
  booted := h.booted
  books := by
    refine h.books.take (o := .tableHand) hlow hf hfree tableHand_mem_owners hhand ?_
      (wf_of_eq h.books.wellFormed rfl rfl rfl)
    funext o
    cases o <;> rfl
  layout := h.layout.hands rfl rfl rfl (fun _ _ _ _ _ => rfl) h.layout.handContent
  scratch := h.scratch

/-- The page hand is released. -/
theorem dropPage (h : Represents m0 m S) (hhand : S.pageHand = some f) :
    Represents m0 (m.withFrames (m.frames.dropRef f)) (S.withPageHand none) where
  booted := h.booted
  books := by
    refine h.books.drop (o := .pageHand) hhand ?_ (wf_of_eq h.books.wellFormed rfl rfl rfl)
    funext o
    cases o <;> rfl
  layout := h.layout.hands rfl rfl rfl (fun _ _ _ _ _ => rfl) (fun _ hf => nomatch hf)
  scratch := h.scratch

/-- The table hand is released. -/
theorem dropTable (h : Represents m0 m S) (hhand : S.tableHand = some f) :
    Represents m0 (m.withFrames (m.frames.dropRef f)) (S.withTableHand none) where
  booted := h.booted
  books := by
    refine h.books.drop (o := .tableHand) hhand ?_ (wf_of_eq h.books.wellFormed rfl rfl rfl)
    funext o
    cases o <;> rfl
  layout := h.layout.hands rfl rfl rfl (fun _ _ _ _ _ => rfl) h.layout.handContent
  scratch := h.scratch

/-- The frame of a mapped page also goes to the page hand. -/
theorem retainPage (h : Represents m0 m S) {e : Word} (he : S.entry d i j = some e)
    (hmax : m.frames.frameRefcounts (frameOf e) ≠ 0xFFFF) (hhand : S.pageHand = none) :
    Represents m0 (m.withFrames (m.frames.addRef (frameOf e)))
      (S.withPageHand (some (frameOf e))) where
  booted := h.booted
  books := by
    refine h.books.retain (o := .page d i j) (held_page he) rfl hmax hhand ?_
      (wf_of_eq h.books.wellFormed rfl rfl rfl)
    funext o
    cases o <;> rfl
  layout := by
    refine h.layout.hands rfl rfl rfl (fun _ _ _ _ _ => rfl) fun g hg => ?_
    obtain rfl : frameOf e = g := Option.some_inj.mp hg
    exact h.layout.contents d i j e he
  scratch := h.scratch

/-- The contents of frames that are no page and not in the page hand do not matter. -/
theorem recontent (h : Represents m0 m S) (c : Nat → TableIndex → Word)
    (hc : ∀ o f, o.structural = false → S.held o = some f → S.content f = c f) :
    Represents m0 m (S.withContent c) where
  booted := h.booted
  books := h.books.congr (by funext o; cases o <;> rfl) (wf_of_eq h.books.wellFormed rfl rfl rfl)
  layout := by
    refine h.layout.hands rfl rfl rfl ?_ ?_
    · intro d i j e he
      exact (hc (.page d i j) _ rfl (held_page he)).symm
    · exact fun f hf => (h.layout.handContent f hf).trans (hc .pageHand f rfl hf)
  scratch := h.scratch

/-- Loading another live directory, or the kernel's. -/
theorem switch (h : Represents m0 m S) {cr3 : Word}
    (hcr3 : cr3 = pageDirectory ∨ ∃ d ∈ S.live, cr3 = frameAddr d) :
    Represents m0 { m with activePageDirectory := cr3 } S where
  booted := h.booted
  books := h.books
  layout := { h.layout with active := hcr3 }
  scratch := h.scratch

/-! ### Memory moves -/

/-- Writing a frame that is no directory and no table changes what the mapped pages and the page
hand contain in that frame, and nothing else. -/
theorem writeContent (h : Represents m0 m S) (hdir : g ∉ S.live)
    (htab : ∀ d i, S.table d i ≠ some g) (hpool : Pool m0.frames g)
    (w : TableIndex → Word) :
    Represents m0 (m.writeFrame g w)
      (S.withContent (update S.content g w)) where
  booted := h.booted
  books := h.books.congr (by funext o; cases o <;> rfl) (wf_of_eq h.books.wellFormed rfl rfl rfl)
  layout :=
    { dirs := by
        intro d hd i
        have hne : d ≠ g := fun hdg => hdir (hdg ▸ hd)
        show S.table d i = ownedTable i (update m.ram g w d i)
        rw [update_of_ne hne]
        exact h.layout.dirs d hd i
      pages := by
        intro d i t ht j
        have hne : t ≠ g := fun htg => htab d i (htg ▸ ht)
        show S.entry d i j = userEntry (update m.ram g w t j)
        rw [update_of_ne hne]
        exact h.layout.pages d i t ht j
      contents := by
        intro d i j e he
        show update m.ram g w (frameOf e) = update S.content g w (frameOf e)
        by_cases hg : frameOf e = g
        · rw [hg, update_self, update_self]
        · rw [update_of_ne hg, update_of_ne hg]
          exact h.layout.contents d i j e he
      handContent := by
        intro f hf
        show update m.ram g w f = update S.content g w f
        by_cases hg : f = g
        · rw [hg, update_self, update_self]
        · rw [update_of_ne hg, update_of_ne hg]
          exact h.layout.handContent f hf
      shared := by
        intro d hd i
        have hne : d ≠ g := fun hdg => hdir (hdg ▸ hd)
        rw [Memory.writeFrame_ram, update_of_ne hne]
        exact h.layout.shared d hd i
      writable := by
        intro d hd i
        have hne : d ≠ g := fun hdg => hdir (hdg ▸ hd)
        show isPresent (update m.ram g w d i) = true → isUser (update m.ram g w d i) = true →
          isWritable (update m.ram g w d i) = true
        rw [update_of_ne hne]
        exact h.layout.writable d hd i
      blank := by
        intro d i t ht hi j
        have hne : t ≠ g := fun htg => htab d i (htg ▸ ht)
        show userEntry (update m.ram g w t j) = none → frameOf (update m.ram g w t j) = 0
        rw [update_of_ne hne]
        exact h.layout.blank d i t ht hi j
      kernel := by
        rw [Memory.writeFrame_ram, update_of_ne (Ne.symm (pool_ne_kernel hpool))]
        exact h.layout.kernel
      kernelTables := by
        intro t ht j
        rw [Memory.writeFrame_ram, update_of_ne (h.pool_ne_kernelTable hpool ht)]
        exact h.layout.kernelTables t ht j
      active := h.layout.active }
  scratch := h.scratch

/-- Writing the table in hand changes nothing. -/
theorem writeTableHand (h : Represents m0 m S) (hhand : S.tableHand = some g)
    (w : TableIndex → Word) : Represents m0 (m.writeFrame g w) S := by
  have hheld : S.held .tableHand = some g := hhand
  have hdir : g ∉ S.live := fun hd => by
    cases h.books.structural_unique rfl hheld (held_dir hd)
  have htab : ∀ d i, S.table d i ≠ some g := fun d i ht => by
    cases h.books.structural_unique rfl hheld (p := .table d i) ht
  have h1 := h.writeContent hdir htab (h.books.pool .tableHand g hheld) w
  refine ((h1.recontent S.content) fun o f hs ho => ?_).of_eq rfl
  have hne : f ≠ g := by
    rintro rfl
    have hS : (S.withContent (update S.content f w)).held o = S.held o := by cases o <;> rfl
    have := h.books.structural_unique rfl hheld (hS ▸ ho)
    subst this
    cases hs
  exact update_of_ne hne _ _

/-- Writing a supervisor entry into the kernel's scratch table changes nothing. -/
theorem writeScratch (h : Represents m0 m S) (hs : m0.kernelScratchTable ≠ 0) (i : TableIndex)
    {e : Word} (he : userEntry e = none) :
    Represents m0 (m.writeFrame (frameOf m0.kernelScratchTable)
      (update (m.ram (frameOf m0.kernelScratchTable)) i e)) S := by
  obtain ⟨hpool, hker⟩ := h.booted.scratch hs
  generalize frameOf m0.kernelScratchTable = g at hpool hker
  have hne : ∀ o f, S.held o = some f → update m.ram g (update (m.ram g) i e) f = m.ram f := by
    intro o f ho
    refine update_of_ne ?_ _ _
    rintro rfl
    exact hpool (h.books.pool o f ho)
  have hdirs : ∀ d ∈ S.live, update m.ram g (update (m.ram g) i e) d = m.ram d :=
    fun d hd => hne (.dir d) d (held_dir hd)
  refine ⟨h.booted, h.books, ?_, h.scratch⟩
  refine { dirs := ?_, pages := ?_, contents := ?_, handContent := ?_, shared := ?_,
           writable := ?_, blank := ?_, kernel := ?_, kernelTables := ?_,
           active := h.layout.active }
  · intro d hd i'
    rw [Memory.writeFrame_ram, hdirs d hd]
    exact h.layout.dirs d hd i'
  · intro d i' t ht j
    rw [Memory.writeFrame_ram, hne (.table d i') t ht]
    exact h.layout.pages d i' t ht j
  · intro d i' j e' he'
    rw [Memory.writeFrame_ram, hne (.page d i' j) _ (held_page he')]
    exact h.layout.contents d i' j e' he'
  · intro f hf
    rw [Memory.writeFrame_ram, hne .pageHand f hf]
    exact h.layout.handContent f hf
  · intro d hd i'
    rw [Memory.writeFrame_ram, hdirs d hd]
    exact h.layout.shared d hd i'
  · intro d hd i'
    rw [Memory.writeFrame_ram, hdirs d hd]
    exact h.layout.writable d hd i'
  · intro d i' t ht hi j
    rw [Memory.writeFrame_ram, hne (.table d i') t ht]
    exact h.layout.blank d i' t ht hi j
  · rw [Memory.writeFrame_ram, update_of_ne (Ne.symm hker)]
    exact h.layout.kernel
  · intro t ht j
    rw [Memory.writeFrame_ram]
    by_cases htg : t = g
    · subst htg
      rw [update_self]
      by_cases hj : j = i
      · rw [hj, update_self]; exact he
      · rw [update_of_ne hj]; exact h.layout.kernelTables t ht j
    · rw [update_of_ne htg]
      exact h.layout.kernelTables t ht j

end Represents

namespace Represents

variable {m0 m : Memory} {S S' : Spaces} {d t f g : Nat} {i j : TableIndex}

/-- The memory side of writing word `j` of the table `t` of `(d, i)`. -/
theorem layout_writePage (h : Represents m0 m S) (ht : S.table d i = some t) (e : Word)
    (hlive : S'.live = S.live) (htable : S'.table = S.table) (hcont : S'.content = S.content)
    (hentry : ∀ d' i' j', S'.entry d' i' j' =
      if d' = d ∧ i' = i ∧ j' = j then userEntry e else S.entry d' i' j')
    (hnew : ∀ e', userEntry e = some e' → ∃ o, o.structural = false ∧
      S.held o = some (frameOf e'))
    (hhand : ∀ f, S'.pageHand = some f → ∃ o, o.structural = false ∧ S.held o = some f)
    (hblank : inUserRange i → userEntry e = none → frameOf e = 0) :
    Layout m0 (update m.ram t (update (m.ram t) j e)) m.activePageDirectory S' := by
  have hheld : S.held (.table d i) = some t := ht
  have hpool := h.books.pool _ t hheld
  -- frames of pages and of the page hand are not the table, and contain what `S` says
  have hframe : ∀ o f, o.structural = false → S.held o = some f →
      update m.ram t (update (m.ram t) j e) f = S.content f := by
    intro o f hs ho
    have hne : f ≠ t := by
      rintro rfl
      have := h.books.structural_unique (o := .table d i) rfl hheld ho
      subst this
      cases hs
    rw [update_of_ne hne]
    cases o with
    | dir d => cases hs
    | table d i => cases hs
    | page d i j =>
      obtain ⟨e', he', rfl⟩ := Option.map_eq_some_iff.mp
        (show (S.entry d i j).map frameOf = some f from ho)
      exact h.layout.contents d i j e' he'
    | pageHand => exact h.layout.handContent f ho
    | tableHand => cases hs
  have hdirRam : ∀ d' ∈ S.live, update m.ram t (update (m.ram t) j e) d' = m.ram d' := by
    intro d' hd'
    exact update_of_ne (h.dir_ne_table hd' ht) _ _
  refine { dirs := ?_, pages := ?_, contents := ?_, handContent := ?_, shared := ?_,
           writable := ?_, blank := ?_, kernel := ?_, kernelTables := ?_, active := ?_ }
  · intro d' hd' i'
    rw [hlive] at hd'
    rw [htable, hdirRam d' hd']
    exact h.layout.dirs d' hd' i'
  · intro d' i' t' ht' j'
    rw [htable] at ht'
    rw [hentry]
    by_cases htt : t' = t
    · subst htt
      obtain ⟨rfl, rfl⟩ := h.table_inj ht ht'
      show _ = userEntry (update m.ram t' (update (m.ram t') j e) t' j')
      rw [update_self]
      by_cases hj : j' = j
      · subst hj; simp
      · rw [update_of_ne hj, if_neg (fun hc => hj hc.2.2)]
        exact h.layout.pages d' i' t' ht' j'
    · show _ = userEntry (update m.ram t (update (m.ram t) j e) t' j')
      rw [update_of_ne htt, if_neg]
      · exact h.layout.pages d' i' t' ht' j'
      · rintro ⟨rfl, rfl, -⟩
        rw [ht] at ht'
        exact htt (Option.some_inj.mp ht').symm
  · intro d' i' j' e' he'
    rw [hentry] at he'
    rw [hcont]
    by_cases hc : d' = d ∧ i' = i ∧ j' = j
    · rw [if_pos hc] at he'
      obtain ⟨o, hs, ho⟩ := hnew e' he'
      exact hframe o _ hs ho
    · rw [if_neg hc] at he'
      exact hframe (.page d' i' j') _ rfl (held_page he')
  · intro f hf
    rw [hcont]
    obtain ⟨o, hs, ho⟩ := hhand f hf
    exact hframe o f hs ho
  · intro d' hd' i'
    rw [hlive] at hd'
    rw [hdirRam d' hd']
    exact h.layout.shared d' hd' i'
  · intro d' hd' i'
    rw [hlive] at hd'
    rw [hdirRam d' hd']
    exact h.layout.writable d' hd' i'
  · intro d' i' t' ht' hi' j'
    rw [htable] at ht'
    by_cases htt : t' = t
    · subst htt
      obtain ⟨rfl, rfl⟩ := h.table_inj ht ht'
      rw [update_self]
      by_cases hj : j' = j
      · subst hj; rw [update_self]; exact hblank hi'
      · rw [update_of_ne hj]; exact h.layout.blank d' i' t' ht' hi' j'
    · rw [update_of_ne htt]
      exact h.layout.blank d' i' t' ht' hi' j'
  · rw [update_of_ne (Ne.symm (pool_ne_kernel hpool))]
    exact h.layout.kernel
  · intro t' ht' j'
    rw [update_of_ne (h.pool_ne_kernelTable hpool ht')]
    exact h.layout.kernelTables t' ht' j'
  · rw [hlive]
    exact h.layout.active

/-- Room for an entry in a table that exists. -/
theorem wf_setAt (h : S.WellFormed) (ht : S.table d i = some t) (e : Option Word)
    (p : Option Nat) : ((S.withEntry (setAt S.entry d i j e)).withPageHand p).WellFormed where
  low := h.low
  tables := h.tables
  entries := by
    intro d' i' j' e' he'
    dsimp only [Spaces.withEntry, Spaces.withPageHand, setAt] at he'
    by_cases hc : d' = d ∧ i' = i ∧ j' = j
    · obtain ⟨rfl, rfl, -⟩ := hc
      exact ⟨t, ht⟩
    · rw [if_neg hc] at he'
      exact h.entries d' i' j' e' he'

/-- **Exchange of a page**: writing word `j` of a table while the page hand holds the frame of the
new entry; the hand then holds the frame of the old one. -/
theorem writePage (h : Represents m0 m S) (ht : S.table d i = some t) (e : Word)
    (hhand : S.pageHand = (userEntry e).map frameOf)
    (hblank : inUserRange i → userEntry e = none → frameOf e = 0) :
    Represents m0 (m.writeFrame t (update (m.ram t) j e))
      ((S.withEntry (setAt S.entry d i j (userEntry e))).withPageHand
        ((S.entry d i j).map frameOf)) where
  booted := h.booted
  books := by
    have hd := h.books.wellFormed.low d (h.books.wellFormed.tables d i t ht)
    refine h.books.exchange (o := .page d i j) (p := .pageHand) (page_mem_owners hd i j)
      pageHand_mem_owners rfl ?_ ?_ ?_ (wf_setAt h.books.wellFormed ht _ _)
    · simp [Spaces.held, setAt, hhand]
    · simp [Spaces.held]
    · intro o ho ho'
      cases o with
      | page d' i' j' =>
        have hc : ¬ (d' = d ∧ i' = i ∧ j' = j) := by
          rintro ⟨rfl, rfl, rfl⟩
          exact ho rfl
        simp [Spaces.held, setAt, hc]
      | pageHand => exact absurd rfl ho'
      | dir d' => rfl
      | table d' i' => rfl
      | tableHand => rfl
  layout := by
    refine h.layout_writePage ht e rfl rfl rfl (fun _ _ _ => rfl) ?_ ?_ hblank
    · intro e' he'
      refine ⟨.pageHand, rfl, ?_⟩
      show S.pageHand = _
      rw [hhand, he']
      rfl
    · intro f hf
      exact ⟨.page d i j, rfl, hf⟩
  scratch := h.scratch

/-- Rewriting the flags of a mapped page. -/
theorem writeFlags (h : Represents m0 m S) (ht : S.table d i = some t) {e e' : Word}
    (he : S.entry d i j = some e) (he' : userEntry e' = some e') (hf : frameOf e' = frameOf e) :
    Represents m0 (m.writeFrame t (update (m.ram t) j e'))
      (S.withEntry (setAt S.entry d i j (some e'))) where
  booted := h.booted
  books := by
    refine h.books.congr ?_ ?_
    · funext o
      cases o with
      | page d' i' j' =>
        by_cases hc : d' = d ∧ i' = i ∧ j' = j
        · obtain ⟨rfl, rfl, rfl⟩ := hc
          simp [Spaces.held, setAt, he, hf]
        · simp [Spaces.held, setAt, hc]
      | _ => rfl
    · exact wf_of_eq (wf_setAt h.books.wellFormed ht (some e') none) rfl rfl rfl
  layout := by
    refine h.layout_writePage ht e' rfl rfl rfl (fun _ _ _ => by rw [he']; rfl) ?_ ?_
      (fun _ hn => by rw [he'] at hn; cases hn)
    · intro x hx
      rw [he', Option.some_inj] at hx
      subst hx
      exact ⟨.page d i j, rfl, hf ▸ held_page he⟩
    · intro f hf
      exact ⟨.pageHand, rfl, hf⟩
  scratch := h.scratch

end Represents

namespace Represents

variable {m0 m : Memory} {S : Spaces} {d t : Nat} {i : TableIndex}

/-- A table of its own. -/
theorem ownedTable_eq_some {e : Word} :
    ownedTable i e = some t ↔ ownsTable i e = true ∧ frameOf e = t := by
  unfold ownedTable
  by_cases h : ownsTable i e = true <;> simp [h]

/-- **Exchange of a table**: writing directory entry `i`, under which no page is mapped, while the
table hand holds the table of the new entry; the hand then holds the table of the old one. -/
theorem writeDir (h : Represents m0 m S) (hd : d ∈ S.live) (e : Word)
    (hold : ∀ j, S.entry d i j = none) (hhand : S.tableHand = ownedTable i e)
    (hclean : ∀ t, ownedTable i e = some t → ∀ j, userEntry (m.ram t j) = none)
    (hblank : ∀ t, ownedTable i e = some t → inUserRange i → ∀ j, frameOf (m.ram t j) = 0)
    (hshared : isPresent e = true → isUser e = false →
      ¬ inUserRange i ∧ (i ≠ 0 → KernelTable m0 (frameOf e)))
    (hwritable : isPresent e = true → isUser e = true → isWritable e = true) :
    Represents m0 (m.writeFrame d (update (m.ram d) i e))
      ((S.withTable d i (ownedTable i e)).withTableHand (S.table d i)) := by
  have hlow := h.books.wellFormed.low d hd
  have hdir : S.held (.dir d) = some d := held_dir hd
  have hpool := h.books.pool _ d hdir
  have hother : ∀ d', d' ≠ d → update m.ram d (update (m.ram d) i e) d' = m.ram d' :=
    fun d' hne => update_of_ne hne _ _
  refine ⟨h.booted, ?_, ?_, h.scratch⟩
  · refine h.books.exchange (o := .table d i) (p := .tableHand) (table_mem_owners hlow i)
      tableHand_mem_owners rfl ?_ ?_ ?_ ?_
    · simp [Spaces.held, hhand]
    · simp [Spaces.held]
    · intro o ho ho'
      cases o with
      | table d' i' =>
        have hc : ¬ (d' = d ∧ i' = i) := by
          rintro ⟨rfl, rfl⟩
          exact ho rfl
        simp [Spaces.held, hc]
      | tableHand => exact absurd rfl ho'
      | dir d' => rfl
      | page d' i' j' => rfl
      | pageHand => rfl
    · refine { low := h.books.wellFormed.low, tables := ?_, entries := ?_ }
      · intro d' i' t' ht'
        dsimp only [Spaces.withTable, Spaces.withTableHand] at ht'
        by_cases hc : d' = d ∧ i' = i
        · rw [hc.1]; exact hd
        · rw [if_neg hc] at ht'
          exact h.books.wellFormed.tables d' i' t' ht'
      · intro d' i' j' e' he'
        by_cases hc : d' = d ∧ i' = i
        · obtain ⟨rfl, rfl⟩ := hc
          exact absurd he' (by simp [hold j'])
        · dsimp only [Spaces.withTable, Spaces.withTableHand]
          rw [if_neg hc]
          exact h.books.wellFormed.entries d' i' j' e' he'
  · refine { dirs := ?_, pages := ?_, contents := ?_, handContent := ?_, shared := ?_,
             writable := ?_, blank := ?_, kernel := ?_, kernelTables := ?_,
             active := h.layout.active }
    · intro d' hd' i'
      dsimp only [Spaces.withTable, Spaces.withTableHand]
      by_cases hdd : d' = d
      · subst hdd
        rw [Memory.writeFrame_ram, update_self]
        by_cases hi : i' = i
        · subst hi; simp
        · rw [update_of_ne hi, if_neg (fun hc => hi hc.2)]
          exact h.layout.dirs d' hd' i'
      · rw [if_neg (fun hc => hdd hc.1)]
        show _ = ownedTable i' (update m.ram d _ d' i')
        rw [hother d' hdd]
        exact h.layout.dirs d' hd' i'
    · intro d' i' t' ht' j'
      dsimp only [Spaces.withTable, Spaces.withTableHand] at ht'
      show S.entry d' i' j' = userEntry (update m.ram d _ t' j')
      by_cases hc : d' = d ∧ i' = i
      · rw [if_pos hc] at ht'
        have hne : t' ≠ d := by
          rintro rfl
          have := h.books.structural_unique rfl hdir (p := .tableHand) (hhand.trans ht')
          cases this
        rw [hother t' hne, hclean t' ht' j', hc.1, hc.2, hold j']
      · rw [if_neg hc] at ht'
        rw [hother t' (Ne.symm (h.dir_ne_table hd ht'))]
        exact h.layout.pages d' i' t' ht' j'
    · intro d' i' j' e' he'
      show update m.ram d _ (frameOf e') = S.content (frameOf e')
      rw [hother _ (h.page_ne_structural (o := .dir d) rfl hdir he')]
      exact h.layout.contents d' i' j' e' he'
    · intro f hf
      show update m.ram d _ f = S.content f
      rw [hother _ (h.hand_ne_structural (o := .dir d) rfl hdir hf)]
      exact h.layout.handContent f hf
    · intro d' hd' i'
      rw [Memory.writeFrame_ram]
      by_cases hdd : d' = d
      · subst hdd
        rw [update_self]
        by_cases hi : i' = i
        · subst hi; rw [update_self]; exact hshared
        · rw [update_of_ne hi]; exact h.layout.shared d' hd' i'
      · rw [hother d' hdd]; exact h.layout.shared d' hd' i'
    · intro d' hd' i'
      rw [Memory.writeFrame_ram]
      by_cases hdd : d' = d
      · subst hdd
        rw [update_self]
        by_cases hi : i' = i
        · subst hi; rw [update_self]; exact hwritable
        · rw [update_of_ne hi]; exact h.layout.writable d' hd' i'
      · rw [hother d' hdd]; exact h.layout.writable d' hd' i'
    · intro d' i' t' ht' hi' j'
      dsimp only [Spaces.withTable, Spaces.withTableHand] at ht'
      show userEntry (update m.ram d _ t' j') = none → frameOf (update m.ram d _ t' j') = 0
      by_cases hc : d' = d ∧ i' = i
      · rw [if_pos hc] at ht'
        have hne : t' ≠ d := by
          rintro rfl
          have := h.books.structural_unique rfl hdir (p := .tableHand) (hhand.trans ht')
          cases this
        rw [hother t' hne]
        exact fun _ => hblank t' ht' (hc.2 ▸ hi') j'
      · rw [if_neg hc] at ht'
        rw [hother t' (Ne.symm (h.dir_ne_table hd ht'))]
        exact h.layout.blank d' i' t' ht' hi' j'
    · rw [Memory.writeFrame_ram, hother _ (Ne.symm (pool_ne_kernel hpool))]
      exact h.layout.kernel
    · intro t' ht' j'
      rw [Memory.writeFrame_ram, hother _ (h.pool_ne_kernelTable hpool ht')]
      exact h.layout.kernelTables t' ht' j'

/-- **A new directory**: the table hand becomes a directory without entries. -/
theorem newDir (h : Represents m0 m S) (hhand : S.tableHand = some d) (hlow : d < 1024)
    (hempty : ∀ i, isPresent (m.ram d i) = false) :
    Represents m0 m ((S.withLive (insert d S.live)).withTableHand none) := by
  have hnew : d ∉ S.live := fun hd => by
    have := h.books.structural_unique (o := .tableHand) rfl hhand (held_dir hd)
    cases this
  refine ⟨h.booted, ?_, ?_, h.scratch⟩
  · refine h.books.exchange (o := .dir d) (p := .tableHand) (dir_mem_owners hlow)
      tableHand_mem_owners rfl ?_ ?_ ?_ ?_
    · simp [Spaces.held, hhand]
    · simp [Spaces.held, hnew]
    · intro o ho ho'
      cases o with
      | dir d' =>
        have hne : d' ≠ d := fun hdd => ho (by rw [hdd])
        simp [Spaces.held, hne]
      | tableHand => exact absurd rfl ho'
      | table d' i' => rfl
      | page d' i' j' => rfl
      | pageHand => rfl
    · refine { low := ?_, tables := ?_, entries := h.books.wellFormed.entries }
      · intro d' hd'
        rcases Finset.mem_insert.mp hd' with rfl | hd'
        · exact hlow
        · exact h.books.wellFormed.low d' hd'
      · intro d' i' t' ht'
        exact Finset.mem_insert_of_mem (h.books.wellFormed.tables d' i' t' ht')
  · refine { dirs := ?_, pages := h.layout.pages, contents := h.layout.contents,
             handContent := h.layout.handContent, shared := ?_, writable := ?_,
             blank := h.layout.blank, kernel := h.layout.kernel,
             kernelTables := h.layout.kernelTables, active := ?_ }
    · intro d' hd' i'
      rcases Finset.mem_insert.mp hd' with rfl | hd'
      · have hnone : S.table d' i' = none := by
          rcases ht : S.table d' i' with _ | t
          · rfl
          · exact absurd (h.books.wellFormed.tables d' i' t ht) hnew
        show S.table d' i' = _
        rw [hnone]
        simp [ownedTable, ownsTable, hempty i']
      · exact h.layout.dirs d' hd' i'
    · intro d' hd' i' hp
      rcases Finset.mem_insert.mp hd' with rfl | hd'
      · rw [hempty i'] at hp
        cases hp
      · exact h.layout.shared d' hd' i' hp
    · intro d' hd' i' hp
      rcases Finset.mem_insert.mp hd' with rfl | hd'
      · rw [hempty i'] at hp
        cases hp
      · exact h.layout.writable d' hd' i' hp
    · rcases h.layout.active with ha | ⟨d', hd', ha⟩
      · exact .inl ha
      · exact .inr ⟨d', Finset.mem_insert_of_mem hd', ha⟩

/-- **The end of a directory** that owns no table any more: it goes to the table hand. -/
theorem dropDir (h : Represents m0 m S) (hd : d ∈ S.live) (hhand : S.tableHand = none)
    (hempty : ∀ i, S.table d i = none) (hactive : m.activePageDirectory ≠ frameAddr d) :
    Represents m0 m ((S.withLive (S.live.erase d)).withTableHand (some d)) := by
  have hlow := h.books.wellFormed.low d hd
  refine ⟨h.booted, ?_, ?_, h.scratch⟩
  · refine h.books.exchange (o := .dir d) (p := .tableHand) (dir_mem_owners hlow)
      tableHand_mem_owners rfl ?_ ?_ ?_ ?_
    · simp [Spaces.held, hhand]
    · simp [Spaces.held, hd]
    · intro o ho ho'
      cases o with
      | dir d' =>
        have hne : d' ≠ d := fun hdd => ho (by rw [hdd])
        simp [Spaces.held, hne]
      | tableHand => exact absurd rfl ho'
      | table d' i' => rfl
      | page d' i' j' => rfl
      | pageHand => rfl
    · refine { low := ?_, tables := ?_, entries := h.books.wellFormed.entries }
      · intro d' hd'
        exact h.books.wellFormed.low d' (Finset.mem_of_mem_erase hd')
      · intro d' i' t' ht'
        refine Finset.mem_erase.mpr ⟨?_, h.books.wellFormed.tables d' i' t' ht'⟩
        rintro rfl
        have ht'' : S.table d' i' = some t' := ht'
        rw [hempty i'] at ht''
        cases ht''
  · refine { dirs := ?_, pages := h.layout.pages, contents := h.layout.contents,
             handContent := h.layout.handContent, shared := ?_, writable := ?_,
             blank := h.layout.blank, kernel := h.layout.kernel,
             kernelTables := h.layout.kernelTables, active := ?_ }
    · exact fun d' hd' => h.layout.dirs d' (Finset.mem_of_mem_erase hd')
    · exact fun d' hd' => h.layout.shared d' (Finset.mem_of_mem_erase hd')
    · exact fun d' hd' => h.layout.writable d' (Finset.mem_of_mem_erase hd')
    · rcases h.layout.active with ha | ⟨d', hd', ha⟩
      · exact .inl ha
      · refine .inr ⟨d', Finset.mem_erase.mpr ⟨?_, hd'⟩, ha⟩
        rintro rfl
        exact hactive ha

end Represents

end AgenticOs
