import AgenticOs.Memory.FrameRuns
import AgenticOs.Memory.UserAccess

/-!
# The pages of the active directory

What mapping, unmapping and storing do to the pages of the directory that is loaded, a process's or the
kernel's own, and which frames they take. It is enough that the tables of the user range are frames of their
own (`ActiveSound`).

* **One write** (`Memory.install`): every change of a page is one write into a table and one into the
  directory. The page at the place is the new one, and no other page has changed (`Fits.mappedEntry`).
* **Mapping** (`ActiveSound.map_cases`): nothing can be had for the page, or for its table, or the page is
  mapped in the lowest free frame (`MapsPage`).
* **Unmapping** (`ActiveSound.unmapsPage`), **stores** (`ActiveSound.storeBytes`) and **flags**
  (`ActiveSound.setFlags`).
* **Supply**: how many pages can still be mapped depends on the tables that the directory has and on the free
  frames, since `paging_alloc_frame` takes tables below 4 MiB and `frame_alloc` starts there too.
  `Supply.takePages` computes it; two frames are enough for a page and its table (`Supply.takePages_isSome`).

The address space of a process meets `ActiveSound` when its directory is loaded (`Represents.activeSound`).
-/

namespace AgenticOs

open Function Lib

/-! ### Free frames -/

namespace FrameState

variable {s : FrameState} {f g n : Nat}

/-- The free frames below `n` that the allocator can hand out. -/
def freeBelow (s : FrameState) (n : Nat) : Nat :=
  (s.frameRange firstFrame n).countP fun f => !s.frameBitmap f

/-- The frame that the allocator hands out next. -/
structure Lowest (s : FrameState) (f : Nat) : Prop where
  low : firstFrame ≤ f
  lt : f < s.totalFrames
  free : s.frameBitmap f = false
  least : ∀ g, firstFrame ≤ g → g < f → s.frameBitmap g = true

/-- An allocation that finds a frame takes it. -/
theorem frameAllocBelow_find {limit : Nat} (hinit : s.frameInitialized = true) (hlimit : limit ≠ 0)
    (hfind : s.findFree limit = some f) : s.frameAllocBelow limit = (frameAddr f, s.take f) := by
  unfold frameAllocBelow
  rw [hfind, if_neg (by simp [hinit, hlimit])]
  rfl

/-- An allocation fails when nothing is free below the limit, or takes the lowest free frame. -/
theorem frameAllocBelow_lowest (hinit : s.frameInitialized = true) (limit : Nat) :
    s.freeBelow (limit / frameSize) = 0 ∧ s.frameAllocBelow limit = (0, s) ∨
      ∃ f, 0 < s.freeBelow (limit / frameSize) ∧ f < limit / frameSize ∧ s.Lowest f ∧
        s.frameAllocBelow limit = (frameAddr f, s.take f) := by
  rcases hfind : s.findFree limit with _ | f
  · have hzero : s.freeBelow (limit / frameSize) = 0 := by
      refine List.countP_eq_zero.mpr fun g hg => ?_
      exact List.find?_eq_none.mp hfind g hg
    refine .inl ⟨hzero, ?_⟩
    unfold frameAllocBelow
    rw [hfind]
    split <;> rfl
  · have hscan := hfind
    unfold findFree at hscan
    obtain ⟨hlow, hlimit, hlt⟩ := mem_frameRange.mp (List.mem_of_find?_eq_some hscan)
    have hfree : s.frameBitmap f = false := by simpa using List.find?_some hscan
    refine .inr ⟨f, ?_, hlimit, ⟨hlow, hlt, hfree, findFree_lowest hfind⟩, ?_⟩
    · exact List.countP_pos_iff.mpr ⟨f, List.mem_of_find?_eq_some hscan, by rw [hfree]; rfl⟩
    · refine frameAllocBelow_find hinit ?_ hfind
      rintro rfl
      exact absurd hlimit (by simp)

/-- A list without repetitions holds one free frame less when one of its frames is taken. -/
theorem countP_take {l : List Nat} (hl : l.Nodup) (hfree : s.frameBitmap f = false) :
    (l.countP fun g => !(s.take f).frameBitmap g) =
      (l.countP fun g => !s.frameBitmap g) - if f ∈ l then 1 else 0 := by
  induction l with
  | nil => rfl
  | cons g l ih =>
    obtain ⟨hg, hl⟩ := List.nodup_cons.mp hl
    have ih := ih hl
    rw [List.countP_cons, List.countP_cons, ih]
    by_cases hgf : g = f
    · subst hgf
      have hself : (s.take g).frameBitmap g = true := update_self ..
      rw [if_neg hg, if_pos List.mem_cons_self, hself, hfree]
      simp
    · rw [take_bitmap_of_ne hgf]
      by_cases hf : f ∈ l
      · have hpos : 0 < l.countP fun g => !s.frameBitmap g :=
          List.countP_pos_iff.mpr ⟨f, hf, by rw [hfree]; rfl⟩
        rw [if_pos hf, if_pos (List.mem_cons_of_mem _ hf)]
        omega
      · have hcons : f ∉ g :: l := List.not_mem_cons_of_ne_of_not_mem (Ne.symm hgf) hf
        rw [if_neg hf, if_neg hcons]
        omega

/-- One free frame less, when the lowest is taken. -/
theorem Lowest.freeBelow_take (h : s.Lowest f) (n : Nat) : (s.take f).freeBelow n = s.freeBelow n - 1 := by
  have hcount := countP_take (l := s.frameRange firstFrame n) List.nodup_range' h.free
  refine hcount.trans ?_
  split
  · rfl
  · rename_i hf
    -- the frames below `n` are all below `f`, and taken
    have hzero : s.freeBelow n = 0 := by
      refine List.countP_eq_zero.mpr fun g hg => ?_
      obtain ⟨hlow, hn, hlt⟩ := mem_frameRange.mp hg
      have hgf : g < f := by
        by_contra hc
        exact hf (mem_frameRange.mpr ⟨h.low, by omega, h.lt⟩)
      rw [h.least g hlow hgf]
      exact Bool.false_ne_true
    show s.freeBelow n - 0 = _
    rw [hzero]

/-- The lowest free frame is one. -/
theorem Lowest.freeBelow_pos (h : s.Lowest f) : 0 < s.freeBelow s.totalFrames :=
  List.countP_pos_iff.mpr ⟨f, mem_frameRange.mpr ⟨h.low, h.lt, h.lt⟩, by rw [h.free]; rfl⟩

/-- The free frames below `n` are among those that are not counted as used. -/
theorem Counted.freeBelow_le (h : s.Counted) (n : Nat) : s.freeBelow n ≤ s.frameGetFreeCount := by
  have hsub : ((s.frameRange firstFrame n).filter fun f => !s.frameBitmap f).toFinset ⊆
      (Finset.range s.totalFrames).filter fun f => ¬s.inUse f = some () := by
    intro f hf
    obtain ⟨hrange, hfree⟩ := List.mem_filter.mp (List.mem_toFinset.mp hf)
    refine Finset.mem_filter.mpr ⟨Finset.mem_range.mpr (mem_frameRange.mp hrange).2.2, ?_⟩
    unfold inUse
    rw [(Bool.not_eq_true' _).mp hfree, if_neg Bool.false_ne_true]
    exact nofun
  have hnodup : ((s.frameRange firstFrame n).filter fun f => !s.frameBitmap f).Nodup :=
    List.Nodup.filter _ List.nodup_range'
  have hcard : s.freeBelow n ≤ ((Finset.range s.totalFrames).filter fun f => ¬s.inUse f = some ()).card := by
    unfold freeBelow
    rw [List.countP_eq_length_filter, ← List.toFinset_card_of_nodup hnodup]
    exact Finset.card_le_card hsub
  have hsplit := Finset.card_filter_add_card_filter_not (s := Finset.range s.totalFrames) fun f => s.inUse f = some ()
  have hused : s.usedFrames = ((Finset.range s.totalFrames).filter fun f => s.inUse f = some ()).card := h.used_eq
  rw [Finset.card_range, ← hused] at hsplit
  unfold frameGetFreeCount
  rw [if_neg (by omega)]
  omega

/-- The lowest free frame is tracked. -/
theorem Lowest.lt_max (h : s.Lowest f) (hs : s.Counted) : f < 1048576 := by
  have hlt := h.lt
  have htotal := hs.total_le
  simp only [maxFrames] at htotal
  omega

/-- Taking a free frame and giving it back. -/
theorem dropRef_take (h : s.Counted) (hf : f < s.totalFrames) (hfree : s.frameBitmap f = false) :
    (s.take f).dropRef f = s := by
  have hzero : s.frameRefcounts f = 0 := by
    have hlive := h.live_iff f hf
    rw [hfree] at hlive
    simp only [Bool.false_eq_true, false_iff] at hlive
    omega
  have hrefs : update (update s.frameRefcounts f 1) f 0 = s.frameRefcounts := by
    rw [update_idem, ← hzero, update_eq_self]
  have hbitmap : update (update s.frameBitmap f true) f false = s.frameBitmap := by
    rw [update_idem, ← hfree, update_eq_self]
  unfold dropRef take
  simp only [update_self, Nat.sub_self, if_true, hrefs, hbitmap, Nat.add_sub_cancel]

end FrameState

/-- And it is not at address 0. -/
theorem FrameState.Lowest.frameAddr_ne_zero {s : FrameState} {f : Nat} (h : s.Lowest f) (hs : s.Counted) :
    frameAddr f ≠ 0 :=
  AgenticOs.frameAddr_ne_zero (Nat.lt_of_lt_of_le (by decide) h.low) (h.lt_max hs)

/-! ### Slots of the active directory -/

/-- A place for a page: an entry of the directory and one of its table. -/
abbrev PageSlot := TableIndex × TableIndex

/-- The place of an address. -/
def pageSlot (va : Word) : PageSlot := (dirIndex va, tableIndex va)

/-- Addresses of one page have one place. -/
theorem pageSlot_eq_iff {va va' : Word} : pageSlot va' = pageSlot va ↔ va'.toNat / 4096 = va.toNat / 4096 := by
  have := va.isLt
  have := va'.isLt
  simp only [pageSlot, dirIndex, tableIndex, Prod.mk.injEq, Fin.mk.injEq]
  omega

/-- The entry of a page that is present. -/
def presentEntry (e : Word) : Option Word := if isPresent e then some e else none

/-- The entry of a page that is present is the word of the table. -/
theorem presentEntry_eq_some {e e' : Word} (h : presentEntry e = some e') : isPresent e = true ∧ e = e' := by
  unfold presentEntry at h
  split at h
  · rename_i he
    exact ⟨he, Option.some.inj h⟩
  · cases h

namespace Memory

variable {m m' : Memory} {fr : FrameState} {t : Nat} {i : TableIndex} {p q : PageSlot}
  {w : TableIndex → Word} {dirEntry pageEntry : Word}

/-- The frame of the directory that is loaded. -/
def directory (m : Memory) : Nat := frameOf m.activePageDirectory

/-- The directory has a table at this entry. -/
def hasTable (m : Memory) (i : TableIndex) : Bool := isPresent (m.ram m.directory i)

/-- The frame of the table at an entry. -/
def tableFrame (m : Memory) (i : TableIndex) : Nat := frameOf (m.ram m.directory i)

/-- The entry of the page at a place, if one is mapped there: its frame and its flags. -/
def mappedEntry (m : Memory) (p : PageSlot) : Option Word :=
  if m.hasTable p.1 then presentEntry (m.ram (m.tableFrame p.1) p.2) else none

/-- The allocator's books are right, and the tables of the user range are frames of their own. -/
structure ActiveSound (m : Memory) : Prop where
  counted : m.frames.Counted
  initialized : m.frames.frameInitialized = true
  active : m.activePageDirectory ≠ 0
  directory : m.frames.frameBitmap m.directory = true
  tables : ∀ i, inUserRange i → m.hasTable i = true → m.frames.frameBitmap (m.tableFrame i) = true ∧
    isWritable (m.ram m.directory i) = true ∧ m.tableFrame i ≠ m.directory
  apart : ∀ i j, inUserRange i → inUserRange j → m.hasTable i = true → m.hasTable j = true →
    m.tableFrame i = m.tableFrame j → i = j

/-! ### Writing one entry -/

/-- A table with frame `t` and words `w` at the place of a page, its entry of the directory, and then the
entry of the page. -/
def install (m : Memory) (fr : FrameState) (t : Nat) (w : TableIndex → Word) (p : PageSlot)
    (dirEntry pageEntry : Word) : Memory :=
  ((m.withFrames fr).writeFrame m.directory (update (m.ram m.directory) p.1 dirEntry)).writeFrame t
    (update w p.2 pageEntry)

/-- The table is that of the place, or a new one. -/
structure Fits (m : Memory) (t : Nat) (w : TableIndex → Word) (i : TableIndex) (dirEntry : Word) : Prop where
  user : inUserRange i
  frame : frameOf dirEntry = t
  present : isPresent dirEntry = true
  writable : isWritable dirEntry = true
  notDirectory : t ≠ m.directory
  apart : ∀ j, inUserRange j → j ≠ i → m.hasTable j = true → m.tableFrame j ≠ t
  content : ∀ j, presentEntry (w j) = m.mappedEntry (i, j)

/-- The directory is where it was. -/
theorem install_directory : (m.install fr t w p dirEntry pageEntry).directory = m.directory := rfl

/-- One of its entries has changed. -/
theorem Fits.ram_directory (h : m.Fits t w p.1 dirEntry) :
    (m.install fr t w p dirEntry pageEntry).ram m.directory =
      update (m.ram m.directory) p.1 dirEntry :=
  (update_of_ne h.notDirectory.symm ..).trans (update_self ..)

/-- The place has a table then. -/
theorem Fits.hasTable (h : m.Fits t w p.1 dirEntry) :
    (m.install fr t w p dirEntry pageEntry).hasTable = update m.hasTable p.1 true := by
  funext j
  show isPresent ((m.install fr t w p dirEntry pageEntry).ram m.directory j) = _
  rw [h.ram_directory]
  by_cases hj : j = p.1
  · rw [hj, update_self, update_self, h.present]
  · rw [update_of_ne hj, update_of_ne hj]
    rfl

/-- And it is the table that was written. -/
theorem Fits.tableFrame (h : m.Fits t w p.1 dirEntry) :
    (m.install fr t w p dirEntry pageEntry).tableFrame = update m.tableFrame p.1 t := by
  funext j
  show frameOf ((m.install fr t w p dirEntry pageEntry).ram m.directory j) = _
  rw [h.ram_directory]
  by_cases hj : j = p.1
  · rw [hj, update_self, update_self, h.frame]
  · rw [update_of_ne hj, update_of_ne hj]
    rfl

/-- The page at the place is the new one, and no other page has changed. -/
theorem Fits.mappedEntry (h : m.Fits t w p.1 dirEntry) (hs : m.ActiveSound) (hq : inUserRange q.1) :
    (m.install fr t w p dirEntry pageEntry).mappedEntry q =
      if q = p then presentEntry pageEntry else m.mappedEntry q := by
  obtain ⟨j, k⟩ := q
  have hself : (m.install fr t w p dirEntry pageEntry).ram t = update w p.2 pageEntry := update_self ..
  unfold Memory.mappedEntry
  rw [h.hasTable, h.tableFrame]
  dsimp only at hq ⊢
  by_cases hj : j = p.1
  · subst hj
    rw [update_self, update_self, if_pos rfl, hself]
    by_cases hk : k = p.2
    · rw [hk, update_self, if_pos rfl]
    · rw [update_of_ne hk, if_neg fun hc => hk (congrArg Prod.snd hc), h.content]
      rfl
  · rw [update_of_ne hj, update_of_ne hj, if_neg fun hc => hj (congrArg Prod.fst hc)]
    by_cases htable : m.hasTable j = true
    · have hother : (m.install fr t w p dirEntry pageEntry).ram (m.tableFrame j) =
          m.ram (m.tableFrame j) :=
        (update_of_ne (h.apart j hq hj htable) ..).trans (update_of_ne (hs.tables j hq htable).2.2 ..)
      rw [if_pos htable, if_pos htable, hother]
    · rw [if_neg htable, if_neg htable]

/-- The books are right, if those of the allocator are and no table is written twice. -/
theorem Fits.sound (h : m.Fits t w p.1 dirEntry) (hs : m.ActiveSound) (hcounted : fr.Counted)
    (hinit : fr.frameInitialized = true) (hdirectory : fr.frameBitmap m.directory = true)
    (htable : fr.frameBitmap t = true)
    (htables : ∀ j, inUserRange j → j ≠ p.1 → m.hasTable j = true →
      fr.frameBitmap (m.tableFrame j) = true) :
    (m.install fr t w p dirEntry pageEntry).ActiveSound where
  counted := hcounted
  initialized := hinit
  active := hs.active
  directory := hdirectory
  tables := by
    intro j hj hhas
    rw [install_directory, h.ram_directory, h.tableFrame]
    rw [h.hasTable] at hhas
    by_cases hjp : j = p.1
    · subst hjp
      rw [update_self, update_self]
      exact ⟨htable, h.writable, h.notDirectory⟩
    · rw [update_of_ne hjp] at hhas ⊢
      rw [update_of_ne hjp]
      exact ⟨htables j hj hjp hhas, (hs.tables j hj hhas).2⟩
  apart := by
    intro j k hj hk hhas hhas' heq
    rw [h.hasTable] at hhas hhas'
    rw [h.tableFrame] at heq
    by_cases hjp : j = p.1 <;> by_cases hkp : k = p.1
    · rw [hjp, hkp]
    · rw [update_of_ne hkp] at hhas' heq
      rw [hjp, update_self] at heq
      exact absurd heq.symm (h.apart k hk hkp hhas')
    · rw [update_of_ne hjp] at hhas heq
      rw [hkp, update_self] at heq
      exact absurd heq (h.apart j hj hjp hhas)
    · rw [update_of_ne hjp] at hhas heq
      rw [update_of_ne hkp] at hhas' heq
      exact hs.apart j k hj hk hhas hhas' heq

/-- `PAGE_USER` is a flag. -/
theorem bit_pageUser_high {k : Nat} (hk : 12 ≤ k) : bit k pageUser = false := by
  rw [bit_pageUser, decide_eq_false (by omega)]

/-- The table of a place that has one fits, whatever flag is added to its entry of the directory. -/
theorem ActiveSound.fits (hs : m.ActiveSound) (hi : inUserRange i) (hhas : m.hasTable i = true) (flag : Word)
    (hflag : ∀ k, 12 ≤ k → bit k flag = false) :
    m.Fits (m.tableFrame i) (m.ram (m.tableFrame i)) i (m.ram m.directory i ||| flag) where
  user := hi
  frame := frameOf_congr fun k hk => by rw [bit_or, hflag k hk, Bool.or_false]
  present := bit_or.trans (by rw [show bit 0 (m.ram m.directory i) = true from hhas, Bool.true_or])
  writable := bit_or.trans (by
    rw [show bit 1 (m.ram m.directory i) = true from (hs.tables i hi hhas).2.1, Bool.true_or])
  notDirectory := (hs.tables i hi hhas).2.2
  apart := fun j hj hne hhas' heq => hne (hs.apart j i hj hi hhas' hhas heq)
  content := fun j => by
    unfold Memory.mappedEntry
    rw [if_pos hhas]

/-- The entry of a mapped page is a word of its table. -/
theorem mappedEntry_some {e : Word} (h : m.mappedEntry p = some e) :
    m.hasTable p.1 = true ∧ m.ram (m.tableFrame p.1) p.2 = e ∧ isPresent e = true := by
  unfold mappedEntry at h
  split at h
  · rename_i hhas
    obtain ⟨hpresent, heq⟩ := presentEntry_eq_some h
    exact ⟨hhas, heq, heq ▸ hpresent⟩
  · cases h

/-- An entry of the directory and then one of its table are written through the directory. -/
theorem setEntry_setEntry (hne : t ≠ m.directory) (hframe : frameOf dirEntry = t) (p : PageSlot)
    (pageEntry : Word) :
    (m.setEntry (m.activePageDirectory &&& addrMask) p.1 dirEntry).setEntry
        ((m.setEntry (m.activePageDirectory &&& addrMask) p.1 dirEntry).entry
          (m.activePageDirectory &&& addrMask) p.1 &&& addrMask) p.2 pageEntry =
      m.install m.frames t (m.ram t) p dirEntry pageEntry := by
  have hwritten : (m.setEntry (m.activePageDirectory &&& addrMask) p.1 dirEntry) =
      m.writeFrame m.directory (update (m.ram m.directory) p.1 dirEntry) := by
    unfold setEntry
    rw [frameOf_and_addrMask]
    rfl
  have hentry : frameOf ((m.setEntry (m.activePageDirectory &&& addrMask) p.1 dirEntry).entry
      (m.activePageDirectory &&& addrMask) p.1 &&& addrMask) = t := by
    unfold entry
    rw [hwritten, frameOf_and_addrMask, frameOf_and_addrMask]
    show frameOf (update m.ram m.directory _ m.directory p.1) = t
    rw [update_self, update_self, hframe]
  have htable : (m.writeFrame m.directory (update (m.ram m.directory) p.1 dirEntry)).ram t = m.ram t :=
    update_of_ne hne ..
  show writeFrame _ (frameOf _) (update (Memory.ram _ (frameOf _)) p.2 pageEntry) = _
  rw [hentry, hwritten, htable]
  rfl

/-- Two frames are written in either order. -/
theorem writeFrame_comm {f g : Nat} (hne : f ≠ g) (y z : TableIndex → Word) :
    (m.writeFrame f z).writeFrame g y = (m.writeFrame g y).writeFrame f z := by
  unfold writeFrame
  rw [update_comm hne]

/-- A new table is the last thing written into its frame. -/
theorem install_fresh (hne : t ≠ m.directory) (z : TableIndex → Word) :
    ((m.withFrames fr).writeFrame t z).install fr t w p dirEntry pageEntry =
      m.install fr t w p dirEntry pageEntry := by
  have hram : ((m.withFrames fr).writeFrame t z).ram m.directory = m.ram m.directory :=
    update_of_ne hne.symm ..
  show (((m.withFrames fr).writeFrame t z).writeFrame m.directory
    (update (((m.withFrames fr).writeFrame t z).ram m.directory) p.1 dirEntry)).writeFrame t _ = _
  rw [hram, writeFrame_comm hne, writeFrame_writeFrame]
  rfl

/-! ### How many pages can be mapped -/

/-- The tables of the directory, the free frames below 4 MiB and all free frames. -/
structure Supply where
  tables : TableIndex → Bool
  low : Nat
  all : Nat

/-- What is left when a page is mapped under an entry of the directory; `none` when memory runs out. The
page takes the lowest free frame, and then a new table the next one, below 4 MiB. -/
def Supply.takePage (s : Supply) (i : TableIndex) : Option Supply :=
  if s.all = 0 then none
  else if s.tables i then some { s with low := s.low - 1, all := s.all - 1 }
  else if s.low < 2 then none
  else some { tables := update s.tables i true, low := s.low - 2, all := s.all - 2 }

/-- What is left when pages are mapped under entries of the directory. -/
def Supply.takePages (s : Supply) : List TableIndex → Option Supply
  | [] => some s
  | i :: is => (s.takePage i).bind fun s => s.takePages is

/-- What there is. -/
def supply (m : Memory) : Supply where
  tables := m.hasTable
  low := m.frames.freeBelow 1024
  all := m.frames.freeBelow m.frames.totalFrames

/-- The tables of the directory. -/
theorem supply_tables : m.supply.tables = m.hasTable := rfl

/-- The free frames below 4 MiB. -/
theorem supply_low : m.supply.low = m.frames.freeBelow 1024 := by
  unfold supply
  dsimp only

/-- All free frames. -/
theorem supply_all : m.supply.all = m.frames.freeBelow m.frames.totalFrames := by
  unfold supply
  dsimp only

/-- First some pages are mapped and then others. -/
theorem Supply.takePages_append (s : Supply) (is js : List TableIndex) :
    s.takePages (is ++ js) = (s.takePages is).bind fun s => s.takePages js := by
  induction is generalizing s with
  | nil => rfl
  | cons i is ih =>
    show (s.takePage i).bind _ = ((s.takePage i).bind _).bind _
    rw [Option.bind_assoc]
    exact congrArg _ (funext fun s => ih s)

/-- Two frames are enough for a page and its table. -/
theorem Supply.takePages_isSome {s : Supply} {is : List TableIndex} (hlow : 2 * is.length ≤ s.low)
    (hall : 2 * is.length ≤ s.all) : (s.takePages is).isSome = true := by
  induction is generalizing s with
  | nil => rfl
  | cons i is ih =>
    rw [List.length_cons] at hlow hall
    have hpos : s.all ≠ 0 := by omega
    have hroom : ¬s.low < 2 := by omega
    show ((s.takePage i).bind _).isSome = true
    unfold takePage
    rw [if_neg hpos, if_neg hroom]
    split <;> rw [Option.bind_some] <;> apply ih <;> dsimp only <;> omega

/-! ### Mapping a page -/

/-- A frame is as free, or has as many references, as before. -/
def SameFrame (m m' : Memory) (g : Nat) : Prop :=
  m'.frames.frameBitmap g = m.frames.frameBitmap g ∧ m'.frames.frameRefcounts g = m.frames.frameRefcounts g

/-- A frame is a table of the user range. -/
def IsTable (m : Memory) (g : Nat) : Prop :=
  ∃ i, inUserRange i ∧ m.hasTable i = true ∧ m.tableFrame i = g

/-- One page is mapped, in frame `f` and with entry `e`. -/
structure MapsPage (m m' : Memory) (p : PageSlot) (f : Nat) (e : Word) : Prop where
  sound : m'.ActiveSound
  active : m'.activePageDirectory = m.activePageDirectory
  total : m'.frames.totalFrames = m.frames.totalFrames
  mapped : ∀ q, inUserRange q.1 → m'.mappedEntry q = if q = p then some e else m.mappedEntry q
  user : isUser (m'.ram m'.directory p.1) = true
  lowest : m.frames.Lowest f
  taken : m'.frames.frameBitmap f = true ∧ m'.frames.frameRefcounts f = 1
  notDirectory : f ≠ m.directory
  notTable : ¬m'.IsTable f
  kept : ∀ i, m.hasTable i = true → m'.hasTable i = true ∧ m'.tableFrame i = m.tableFrame i
  tables : ∀ g, m'.IsTable g → m.IsTable g ∨ m.frames.frameBitmap g = false
  others : ∀ g, g ≠ f → m.SameFrame m' g ∨ m.frames.frameBitmap g = false ∧ m'.IsTable g
  supply : m.supply.takePage p.1 = some m'.supply

section

variable {f : Nat} {e : Word}

/-- Frames in use are not free. -/
theorem ActiveSound.ne_of_free (hs : m.ActiveSound) (hfree : m.frames.frameBitmap f = false) :
    f ≠ m.directory ∧ ¬m.IsTable f := by
  constructor
  · rintro rfl
    exact absurd (hs.directory.symm.trans hfree) nofun
  · rintro ⟨i, hi, hhas, rfl⟩
    exact absurd ((hs.tables i hi hhas).1.symm.trans hfree) nofun

/-- A page under an entry that has a table. -/
theorem ActiveSound.mapsPage_existing (hs : m.ActiveSound) (hi : inUserRange p.1)
    (hhas : m.hasTable p.1 = true) (hf : m.frames.Lowest f) (he : isPresent e = true) :
    m.MapsPage (m.install (m.frames.take f) (m.tableFrame p.1) (m.ram (m.tableFrame p.1)) p
      (m.ram m.directory p.1 ||| pageUser) e) p f e := by
  have hfits := hs.fits hi hhas pageUser fun _ => bit_pageUser_high
  obtain ⟨hdirectory, htable⟩ := hs.ne_of_free hf.free
  have hbitmap (g : Nat) (hg : m.frames.frameBitmap g = true) :
      (m.frames.take f).frameBitmap g = true := by
    have hne : g ≠ f := by
      rintro rfl
      exact absurd (hg.symm.trans hf.free) nofun
    rw [FrameState.take_bitmap_of_ne hne, hg]
  have htables : ∀ g, (m.install (m.frames.take f) (m.tableFrame p.1) (m.ram (m.tableFrame p.1)) p
      (m.ram m.directory p.1 ||| pageUser) e).IsTable g → m.IsTable g := by
    rintro g ⟨i, hi, hhas', rfl⟩
    rw [hfits.hasTable] at hhas'
    rw [hfits.tableFrame, update_eq_self]
    by_cases hip : i = p.1
    · exact ⟨i, hi, hip ▸ hhas, rfl⟩
    · rw [update_of_ne hip] at hhas'
      exact ⟨i, hi, hhas', rfl⟩
  constructor
  · exact hfits.sound hs (hs.counted.take hf.lt hf.free) hs.initialized (hbitmap _ hs.directory)
      (hbitmap _ (hs.tables _ hi hhas).1) fun j hj _ hhas' => hbitmap _ (hs.tables j hj hhas').1
  · rfl
  · rfl
  · intro q hq
    rw [hfits.mappedEntry hs hq]
    unfold presentEntry
    rw [if_pos he]
  · rw [install_directory, hfits.ram_directory, update_self]
    exact bit_or.trans (by rw [bit_pageUser, decide_eq_true rfl, Bool.or_true])
  · exact hf
  · exact ⟨update_self .., update_self ..⟩
  · exact hdirectory
  · exact fun ht => htable (htables f ht)
  · intro i hhas'
    rw [hfits.hasTable, hfits.tableFrame, update_eq_self]
    refine ⟨?_, rfl⟩
    by_cases hip : i = p.1
    · rw [hip, update_self]
    · rw [update_of_ne hip, hhas']
  · exact fun g hg => .inl (htables g hg)
  · exact fun g hg => .inl ⟨FrameState.take_bitmap_of_ne hg, update_of_ne hg ..⟩
  · have hpos : 0 < m.supply.all := supply_all ▸ hf.freeBelow_pos
    unfold Supply.takePage
    rw [if_neg (Nat.ne_of_gt hpos), if_pos (show m.supply.tables p.1 = true from hhas)]
    congr 1
    unfold supply
    rw [hfits.hasTable]
    have hsame : update m.hasTable p.1 true = m.hasTable := by
      rw [← hhas, update_eq_self]
    rw [hsame]
    show Supply.mk _ _ _ = Supply.mk _ ((m.frames.take f).freeBelow 1024)
      ((m.frames.take f).freeBelow m.frames.totalFrames)
    rw [hf.freeBelow_take, hf.freeBelow_take]

/-- A free frame fits as a table of absent entries. -/
theorem ActiveSound.fits_new (hs : m.ActiveSound) (hi : inUserRange i) (hno : m.hasTable i = false)
    (hfree : m.frames.frameBitmap t = false) (hframe : frameOf dirEntry = t) (hpresent : isPresent dirEntry = true)
    (hwritable : isWritable dirEntry = true) : m.Fits t (fun _ => 0x02) i dirEntry := by
  obtain ⟨hdirectory, htable⟩ := hs.ne_of_free hfree
  refine ⟨hi, hframe, hpresent, hwritable, hdirectory, fun j hj _ hhas heq => htable ⟨j, hj, hhas, heq⟩,
    fun j => ?_⟩
  unfold mappedEntry
  rw [if_neg (by rw [hno]; exact Bool.false_ne_true)]
  decide

/-- A page under an entry that gets a new table. -/
theorem ActiveSound.mapsPage_new (hs : m.ActiveSound) (hi : inUserRange p.1)
    (hno : m.hasTable p.1 = false) (hf : m.frames.Lowest f) (ht : (m.frames.take f).Lowest t)
    (hlow : 2 ≤ m.frames.freeBelow 1024) (hframe : frameOf dirEntry = t)
    (hpresent : isPresent dirEntry = true) (hwritable : isWritable dirEntry = true)
    (hdirUser : isUser dirEntry = true) (he : isPresent e = true) :
    m.MapsPage (m.install ((m.frames.take f).take t) t (fun _ => 0x02) p dirEntry e) p f e := by
  have htf : t ≠ f := by
    rintro rfl
    exact absurd ((update_self ..).symm.trans ht.free) nofun
  have htfree : m.frames.frameBitmap t = false := by
    rw [← FrameState.take_bitmap_of_ne htf, ht.free]
  obtain ⟨hdirectory, htable⟩ := hs.ne_of_free hf.free
  obtain ⟨htdirectory, httable⟩ := hs.ne_of_free htfree
  have hfits := hs.fits_new hi hno htfree hframe hpresent hwritable
  have hbitmap (g : Nat) (hg : m.frames.frameBitmap g = true) :
      ((m.frames.take f).take t).frameBitmap g = true := by
    have hne {x : Nat} (hx : m.frames.frameBitmap x = false) : g ≠ x := by
      rintro rfl
      exact absurd (hg.symm.trans hx) nofun
    rw [FrameState.take_bitmap_of_ne (hne htfree), FrameState.take_bitmap_of_ne (hne hf.free), hg]
  have htables : ∀ g, (m.install ((m.frames.take f).take t) t (fun _ => 0x02) p dirEntry e).IsTable g →
      m.IsTable g ∨ g = t := by
    rintro g ⟨i, hi, hhas', rfl⟩
    rw [hfits.hasTable] at hhas'
    rw [hfits.tableFrame]
    by_cases hip : i = p.1
    · exact .inr (by rw [hip, update_self])
    · rw [update_of_ne hip] at hhas' ⊢
      exact .inl ⟨i, hi, hhas', rfl⟩
  constructor
  · refine hfits.sound hs ((hs.counted.take hf.lt hf.free).take ht.lt ht.free) hs.initialized
      (hbitmap _ hs.directory) (update_self ..) fun j hj _ hhas' => hbitmap _ (hs.tables j hj hhas').1
  · rfl
  · rfl
  · intro q hq
    rw [hfits.mappedEntry hs hq]
    unfold presentEntry
    rw [if_pos he]
  · rw [install_directory, hfits.ram_directory, update_self]
    exact hdirUser
  · exact hf
  · constructor
    · exact (FrameState.take_bitmap_of_ne htf.symm).trans (update_self ..)
    · exact (update_of_ne htf.symm ..).trans (update_self ..)
  · exact hdirectory
  · intro h
    rcases htables f h with h | h
    · exact htable h
    · exact htf h.symm
  · intro i hhas'
    have hip : i ≠ p.1 := by
      rintro rfl
      exact absurd (hhas'.symm.trans hno) nofun
    rw [hfits.hasTable, hfits.tableFrame, update_of_ne hip, update_of_ne hip]
    exact ⟨hhas', rfl⟩
  · intro g hg
    rcases htables g hg with h | rfl
    · exact .inl h
    · exact .inr htfree
  · intro g hg
    by_cases hgt : g = t
    · subst hgt
      refine .inr ⟨htfree, p.1, hi, ?_, ?_⟩
      · rw [hfits.hasTable, update_self]
      · rw [hfits.tableFrame, update_self]
    · exact .inl ⟨(FrameState.take_bitmap_of_ne hgt).trans (FrameState.take_bitmap_of_ne hg),
        (update_of_ne hgt ..).trans (update_of_ne hg ..)⟩
  · have hpos : 0 < m.supply.all := supply_all ▸ hf.freeBelow_pos
    unfold Supply.takePage
    rw [if_neg (Nat.ne_of_gt hpos), if_neg (show ¬m.supply.tables p.1 = true by
      rw [show m.supply.tables p.1 = false from hno]; exact Bool.false_ne_true),
      if_neg (by rw [supply_low]; exact Nat.not_lt.mpr hlow)]
    congr 1
    unfold supply
    rw [hfits.hasTable]
    show Supply.mk _ _ _ = Supply.mk _ (((m.frames.take f).take t).freeBelow 1024)
      (((m.frames.take f).take t).freeBelow (m.frames.take f).totalFrames)
    rw [ht.freeBelow_take, ht.freeBelow_take, hf.freeBelow_take, FrameState.take_total, hf.freeBelow_take,
      Nat.sub_sub, Nat.sub_sub]

/-- `frame_alloc` fails for lack of a free frame, or takes the lowest one. -/
theorem ActiveSound.frameAlloc_cases (hs : m.ActiveSound) :
    m.supply.all = 0 ∧ m.frameAlloc = (0, m) ∨
      ∃ f, m.frames.Lowest f ∧ m.frameAlloc = (frameAddr f, m.withFrames (m.frames.take f)) := by
  have hlimit : m.frames.totalFrames * frameSize / frameSize = m.frames.totalFrames :=
    Nat.mul_div_cancel _ (by decide)
  rcases FrameState.frameAllocBelow_lowest hs.initialized (m.frames.totalFrames * frameSize) with
    ⟨hzero, heq⟩ | ⟨f, -, -, hf, heq⟩
  · rw [hlimit] at hzero
    refine .inl ⟨by rw [supply_all, hzero], ?_⟩
    unfold frameAlloc frameAllocBelow
    rw [heq]
    rfl
  · refine .inr ⟨f, hf, ?_⟩
    unfold frameAlloc frameAllocBelow
    rw [heq]

/-- A frame taken and given back. -/
theorem ActiveSound.release_taken (hs : m.ActiveSound) (hf : m.frames.Lowest f) :
    ((m.withFrames (m.frames.take f)).frameRelease (frameAddr f)).2 = m := by
  have hself : (m.frames.take f).frameRefcounts f = 1 := update_self ..
  have hrelease := FrameState.frameRelease_eq (hs.counted.take hf.lt hf.free) hs.initialized hf.low hf.lt
    (by rw [hself]; exact Nat.one_pos)
  unfold Memory.frameRelease
  rw [withFrames_frames, hrelease, FrameState.dropRef_take hs.counted hf.lt hf.free]
  rfl

/-- `allocator_alloc_page_table` takes the frame that it finds. -/
theorem allocTable_find {t : Nat} (hinit : m.frames.frameInitialized = true) (ht : 0 < t) (hlt : t < 1048576)
    (hfind : m.frames.findFree identityMappedLimit = some t) :
    m.allocatorAllocPageTable = (frameAddr t, (m.withFrames (m.frames.take t)).writeFrame t fun _ => 0x02) := by
  unfold allocatorAllocPageTable pagingAllocFrame frameAllocBelow
  rw [FrameState.frameAllocBelow_find hinit (by decide) hfind]
  dsimp only
  rw [if_neg (frameAddr_ne_zero ht hlt), fillTable_eq, frameOf_frameAddr hlt]

/-- `allocator_alloc_page_table` fails when nothing is free below 4 MiB, or takes the lowest frame. -/
theorem allocTable_lowest (hinit : m.frames.frameInitialized = true) (htotal : m.frames.totalFrames ≤ maxFrames) :
    m.frames.freeBelow 1024 = 0 ∧ m.allocatorAllocPageTable = (0, m) ∨
      ∃ t, 0 < m.frames.freeBelow 1024 ∧ m.frames.Lowest t ∧ m.allocatorAllocPageTable =
        (frameAddr t, (m.withFrames (m.frames.take t)).writeFrame t fun _ => 0x02) := by
  have hlimit : identityMappedLimit / frameSize = 1024 := by decide
  unfold allocatorAllocPageTable pagingAllocFrame frameAllocBelow
  rcases FrameState.frameAllocBelow_lowest hinit identityMappedLimit with
    ⟨hzero, heq⟩ | ⟨t, hpos, -, ht, heq⟩
  · rw [hlimit] at hzero
    rw [heq]
    exact .inl ⟨hzero, rfl⟩
  · rw [hlimit] at hpos
    have hlt : t < 1048576 := by
      have := ht.lt
      simp only [maxFrames] at htotal
      omega
    have hne : frameAddr t ≠ 0 := frameAddr_ne_zero (Nat.lt_of_lt_of_le (by decide) ht.low) hlt
    rw [heq]
    dsimp only
    rw [if_neg hne, fillTable_eq, frameOf_frameAddr hlt]
    exact .inr ⟨t, hpos, ht, rfl⟩

/-- The entry that `paging_map_page_in_directory` writes. -/
def newEntry (f : Nat) (flags : Word) : Word := frameAddr f &&& addrMask ||| flags &&& flagMask ||| pagePresent

/-- The frame and the flags of a new page. -/
theorem newEntry_facts {f : Nat} (hf : f < 1048576) (flags : Word) :
    frameOf (newEntry f flags) = f ∧ isPresent (newEntry f flags) = true ∧
      isWritable (newEntry f flags) = isWritable flags ∧ isUser (newEntry f flags) = isUser flags := by
  obtain ⟨hframe, hpresent, hwritable, huser, -⟩ := mapEntry_facts hf flags
  exact ⟨hframe, hpresent, hwritable, huser⟩

/-- An entry of the directory is reached with or without the low bits of `cr3`. -/
theorem entry_directory (m : Memory) (i : TableIndex) :
    m.entry (m.activePageDirectory &&& addrMask) i = m.ram m.directory i := by
  unfold entry
  rw [frameOf_and_addrMask]
  rfl

/-- Mapping under an entry that has a table. -/
theorem map_existing {va flags : Word} (hactive : m.activePageDirectory ≠ 0)
    (hhas : m.hasTable (dirIndex va) = true) (hne : m.tableFrame (dirIndex va) ≠ m.directory)
    (huser : isUser flags = true) (f : Nat) :
    m.pagingMapPageInDirectory m.activePageDirectory va (frameAddr f) flags =
      (true, m.install m.frames (m.tableFrame (dirIndex va)) (m.ram (m.tableFrame (dirIndex va)))
        (pageSlot va) (m.ram m.directory (dirIndex va) ||| pageUser) (newEntry f flags)) := by
  have hframe : frameOf (m.ram m.directory (dirIndex va) ||| pageUser) = m.tableFrame (dirIndex va) :=
    frameOf_congr fun k hk => by rw [bit_or, bit_pageUser_high hk, Bool.or_false]
  have hset := setEntry_setEntry hne hframe (pageSlot va) (newEntry f flags)
  unfold pagingMapPageInDirectory
  dsimp only
  rw [if_neg (not_or_intro hactive (not_not_intro (frameAddr_aligned f))), entry_directory, test_pagePresent,
    if_neg (by rw [show isPresent _ = true from hhas]; decide), test_pageUser, if_pos huser]
  exact Prod.ext rfl hset

/-- Mapping under an entry that gets a new table. -/
theorem map_new {va : Word} (hactive : m.activePageDirectory ≠ 0)
    (hno : m.hasTable (dirIndex va) = false) {z : TableIndex → Word} (ht : 0 < t) (hlt : t < 1048576)
    (halloc : m.allocatorAllocPageTable = (frameAddr t, (m.withFrames fr).writeFrame t z))
    (hne : t ≠ m.directory) (f : Nat) (flags : Word) :
    m.pagingMapPageInDirectory m.activePageDirectory va (frameAddr f) flags =
      (true, m.install fr t z (pageSlot va)
        (frameAddr t ||| pagePresent ||| pageWritable ||| flags &&& pageUser) (newEntry f flags)) := by
  have hset := setEntry_setEntry (m := (m.withFrames fr).writeFrame t z) hne
    (newTableEntry_facts hlt flags).1 (pageSlot va) (newEntry f flags)
  have hself : ((m.withFrames fr).writeFrame t z).ram t = z := update_self ..
  rw [hself] at hset
  unfold pagingMapPageInDirectory
  dsimp only
  rw [if_neg (not_or_intro hactive (not_not_intro (frameAddr_aligned f))), entry_directory, test_pagePresent,
    if_pos (by rw [show isPresent _ = false from hno]; rfl), halloc]
  dsimp only
  rw [if_neg (frameAddr_ne_zero ht hlt)]
  exact Prod.ext rfl (hset.trans (install_fresh hne z))

/-- No table can be had. -/
theorem map_fails {va flags : Word} (hactive : m.activePageDirectory ≠ 0)
    (hno : m.hasTable (dirIndex va) = false) (halloc : m.allocatorAllocPageTable = (0, m)) (f : Nat) :
    m.pagingMapPageInDirectory m.activePageDirectory va (frameAddr f) flags = (false, m) := by
  unfold pagingMapPageInDirectory
  dsimp only
  rw [if_neg (not_or_intro hactive (not_not_intro (frameAddr_aligned f))), entry_directory, test_pagePresent,
    if_pos (by rw [show isPresent _ = false from hno]; rfl), halloc]
  rfl

/-- The table `t` that a new page in frame `f` is written into: that of the place, or a free frame. -/
structure TableFor (m : Memory) (f : Nat) (fr : FrameState) (t : Nat) (w : TableIndex → Word) (i : TableIndex)
    (dirEntry : Word) : Prop where
  fits : m.Fits t w i dirEntry
  user : isUser dirEntry = true
  place : m.hasTable i = true ∧ t = m.tableFrame i ∧ w = m.ram t ∧ fr = m.frames.take f ∨
    m.hasTable i = false ∧ Pool m.frames t ∧ t ≠ f ∧ fr = (m.frames.take f).take t ∧ w = fun _ => 0x02

/-- A page is taken from the allocator and mapped for the user: nothing can be had for it, or for its
table, or it is written into a table. -/
theorem ActiveSound.map_installs (hs : m.ActiveSound) {va flags : Word} (hi : inUserRange (dirIndex va))
    (huser : isUser flags = true) :
    m.supply.takePage (dirIndex va) = none ∧ (m.frameAlloc = (0, m) ∨ ∃ f, m.frames.Lowest f ∧
        m.frameAlloc = (frameAddr f, m.withFrames (m.frames.take f)) ∧
        (m.withFrames (m.frames.take f)).pagingMapPageInDirectory m.activePageDirectory va (frameAddr f)
          flags = (false, m.withFrames (m.frames.take f))) ∨
      ∃ f fr t w dirEntry, m.frames.Lowest f ∧ m.frameAlloc = (frameAddr f, m.withFrames (m.frames.take f)) ∧
        (m.withFrames (m.frames.take f)).pagingMapPageInDirectory m.activePageDirectory va (frameAddr f)
          flags = (true, m.install fr t w (pageSlot va) dirEntry (newEntry f flags)) ∧
        m.TableFor f fr t w (dirIndex va) dirEntry ∧
        m.MapsPage (m.install fr t w (pageSlot va) dirEntry (newEntry f flags)) (pageSlot va) f
          (newEntry f flags) := by
  rcases hs.frameAlloc_cases with ⟨hzero, halloc⟩ | ⟨f, hf, halloc⟩
  · refine .inl ⟨?_, .inl halloc⟩
    unfold Supply.takePage
    rw [if_pos hzero]
  have htotal := hs.counted.total_le
  have hlt {x : Nat} (hx : x < m.frames.totalFrames) : x < 1048576 := by
    simp only [maxFrames] at htotal
    omega
  have hpos : 0 < m.supply.all := supply_all ▸ hf.freeBelow_pos
  have hpresent : isPresent (newEntry f flags) = true := (newEntry_facts (hlt hf.lt) flags).2.1
  by_cases hhas : m.hasTable (dirIndex va) = true
  · have hfits := hs.fits hi hhas pageUser fun _ => bit_pageUser_high
    have hdirUser : isUser (m.ram m.directory (dirIndex va) ||| pageUser) = true :=
      bit_or.trans (by rw [bit_pageUser, decide_eq_true rfl, Bool.or_true])
    exact .inr ⟨f, _, _, _, _, hf, halloc, map_existing (m := m.withFrames (m.frames.take f)) hs.active hhas
      (hs.tables _ hi hhas).2.2 huser f, ⟨hfits, hdirUser, .inl ⟨hhas, rfl, rfl, rfl⟩⟩,
        hs.mapsPage_existing (p := pageSlot va) hi hhas hf hpresent⟩
  rw [Bool.not_eq_true] at hhas
  rcases allocTable_lowest (m := m.withFrames (m.frames.take f)) hs.initialized htotal with
    ⟨hzero, htable⟩ | ⟨t, hlow, ht, htable⟩
  · refine .inl ⟨?_, .inr ⟨f, hf, halloc,
      map_fails (m := m.withFrames (m.frames.take f)) hs.active hhas htable f⟩⟩
    rw [withFrames_frames, hf.freeBelow_take] at hzero
    unfold Supply.takePage
    rw [if_neg (Nat.ne_of_gt hpos), if_neg (by rw [supply_tables, hhas]; exact Bool.false_ne_true),
      if_pos (by rw [supply_low]; omega)]
  · rw [withFrames_frames, hf.freeBelow_take] at hlow
    rw [withFrames_frames] at ht
    have htf : t ≠ f := by
      rintro rfl
      exact absurd ((update_self ..).symm.trans ht.free) nofun
    have htfree : m.frames.frameBitmap t = false := by
      rw [← FrameState.take_bitmap_of_ne htf, ht.free]
    obtain ⟨hframe, hdir, hwritable, hdirUser⟩ := newTableEntry_facts (hlt ht.lt) flags
    have htwo : 2 ≤ m.frames.freeBelow 1024 := Nat.lt_of_sub_pos hlow
    have hne := (hs.ne_of_free htfree).1
    exact .inr ⟨f, _, _, _, _, hf, halloc, map_new (m := m.withFrames (m.frames.take f)) hs.active hhas
      (Nat.lt_of_lt_of_le (by decide) ht.low) (hlt ht.lt) htable hne f _,
        ⟨hs.fits_new hi hhas htfree hframe hdir hwritable, hdirUser.trans huser,
          .inr ⟨hhas, ⟨ht.low, ht.lt, htfree⟩, htf, rfl, rfl⟩⟩,
        hs.mapsPage_new (p := pageSlot va) hi hhas hf ht htwo hframe hdir hwritable
          (hdirUser.trans huser) hpresent⟩

/-- Nothing can be had for the page, or for its table, or it is mapped. -/
theorem ActiveSound.map_cases (hs : m.ActiveSound) {va flags : Word} (hi : inUserRange (dirIndex va))
    (huser : isUser flags = true) :
    m.supply.takePage (dirIndex va) = none ∧ (m.frameAlloc = (0, m) ∨ ∃ f, m.frames.Lowest f ∧
        m.frameAlloc = (frameAddr f, m.withFrames (m.frames.take f)) ∧
        (m.withFrames (m.frames.take f)).pagingMapPageInDirectory m.activePageDirectory va (frameAddr f)
          flags = (false, m.withFrames (m.frames.take f))) ∨
      ∃ f m', m.frames.Lowest f ∧ m.frameAlloc = (frameAddr f, m.withFrames (m.frames.take f)) ∧
        (m.withFrames (m.frames.take f)).pagingMapPageInDirectory m.activePageDirectory va (frameAddr f)
          flags = (true, m') ∧ m.MapsPage m' (pageSlot va) f (newEntry f flags) := by
  rcases hs.map_installs hi huser with hfails | ⟨f, fr, t, w, dirEntry, hf, halloc, hmap, -, hmaps⟩
  · exact .inl hfails
  · exact .inr ⟨f, _, hf, halloc, hmap, hmaps⟩

/-- A user page that was mapped writable can be written. -/
theorem MapsPage.isUserWritable {va : Word} (h : m.MapsPage m' (pageSlot va) f e)
    (hi : inUserRange (dirIndex va)) (hwritable : isWritable e = true) (huser : isUser e = true) :
    m'.isUserWritable m'.activePageDirectory va = true := by
  have hmapped := h.mapped (pageSlot va) hi
  rw [if_pos rfl] at hmapped
  obtain ⟨hhas, hentry, hpresent⟩ := mappedEntry_some hmapped
  have hpage : m'.entry (m'.entry m'.activePageDirectory (dirIndex va) &&& addrMask) (tableIndex va) = e := by
    unfold entry
    rw [frameOf_and_addrMask]
    exact hentry
  have hdir : m'.entry m'.activePageDirectory (dirIndex va) = m'.ram m'.directory (dirIndex va) := rfl
  have hdirPresent : isPresent (m'.ram m'.directory (dirIndex va)) = true := hhas
  have hdirWritable := (h.sound.tables _ hi hhas).2.1
  have hdirUser := h.user
  simp only [pageSlot] at hdirWritable hdirUser
  unfold Memory.isUserWritable
  rw [hpage, hdir]
  simp [has_or, hpresent, hwritable, huser, hdirPresent, hdirWritable, hdirUser]

/-! ### Unmapping a page -/

/-- A page is unmapped and its frame is given back. -/
structure UnmapsPage (m m' : Memory) (p : PageSlot) (f : Nat) : Prop where
  sound : m'.ActiveSound
  active : m'.activePageDirectory = m.activePageDirectory
  total : m'.frames.totalFrames = m.frames.totalFrames
  mapped : ∀ q, inUserRange q.1 → m'.mappedEntry q = if q = p then none else m.mappedEntry q
  freed : m'.frames.frameBitmap f = false ∧ m'.frames.frameRefcounts f = 0
  hasTable : m'.hasTable = m.hasTable
  tableFrame : m'.tableFrame = m.tableFrame
  others : ∀ g, g ≠ f → m.SameFrame m' g

/-- An entry of a table is written through the directory. -/
theorem setEntry_install (m : Memory) (p : PageSlot) (e : Word) :
    m.setEntry (m.ram m.directory p.1 &&& addrMask) p.2 e =
      m.install m.frames (m.tableFrame p.1) (m.ram (m.tableFrame p.1)) p (m.ram m.directory p.1) e := by
  have hself : m.writeFrame m.directory (update (m.ram m.directory) p.1 (m.ram m.directory p.1)) = m := by
    unfold writeFrame
    rw [update_eq_self, update_eq_self]
  unfold setEntry install
  rw [frameOf_and_addrMask]
  show m.writeFrame _ _ = (m.writeFrame m.directory (update (m.ram m.directory) p.1
    (m.ram m.directory p.1))).writeFrame _ _
  rw [hself]
  rfl

/-- Unmapping a page writes an absent entry. -/
theorem unmap_eq {va : Word} (hactive : m.activePageDirectory ≠ 0) (hhas : m.hasTable (dirIndex va) = true) :
    m.pagingUnmapPage va = m.install m.frames (m.tableFrame (dirIndex va))
      (m.ram (m.tableFrame (dirIndex va))) (pageSlot va) (m.ram m.directory (dirIndex va)) pageWritable := by
  unfold pagingUnmapPage pagingUnmapPageInDirectory
  dsimp only
  rw [if_neg (not_or_intro hactive (by
    rw [entry_directory, test_pagePresent, show isPresent _ = true from hhas]; decide)), entry_directory]
  exact m.setEntry_install (pageSlot va) pageWritable

/-- **A page is unmapped**, and its frame, which nobody else maps, is free. -/
theorem ActiveSound.unmapsPage (hs : m.ActiveSound) {va : Word} (hi : inUserRange (dirIndex va))
    (he : m.mappedEntry (pageSlot va) = some e) (hlow : firstFrame ≤ f) (hlt : f < m.frames.totalFrames)
    (hone : m.frames.frameRefcounts f = 1) (hdirectory : f ≠ m.directory) (htable : ¬m.IsTable f) :
    m.UnmapsPage ((m.pagingUnmapPage va).frameFree (frameAddr f)) (pageSlot va) f := by
  obtain ⟨hhas, -, -⟩ := mappedEntry_some he
  have hfits := hs.fits hi hhas 0#32 fun k _ => BitVec.getLsbD_zero
  rw [BitVec.or_zero] at hfits
  have hfree : (m.pagingUnmapPage va).frameFree (frameAddr f) =
      m.install (m.frames.dropRef f) (m.tableFrame (dirIndex va)) (m.ram (m.tableFrame (dirIndex va)))
        (pageSlot va) (m.ram m.directory (dirIndex va)) pageWritable := by
    rw [unmap_eq hs.active hhas]
    unfold Memory.frameFree Memory.frameRelease
    rw [show (m.install m.frames (m.tableFrame (dirIndex va)) (m.ram (m.tableFrame (dirIndex va)))
      (pageSlot va) (m.ram m.directory (dirIndex va)) pageWritable).frames = m.frames from rfl,
      FrameState.frameRelease_eq hs.counted hs.initialized hlow hlt (by omega)]
    rfl
  have hbitmap (g : Nat) (hg : g ≠ f) : (m.frames.dropRef f).frameBitmap g = m.frames.frameBitmap g :=
    FrameState.dropRef_bitmap_of_ne hg
  rw [hfree]
  constructor
  · refine hfits.sound hs (hs.counted.dropRef hlt (by omega)) hs.initialized ?_ ?_ fun j hj _ hhas' => ?_
    · rw [hbitmap _ hdirectory.symm]
      exact hs.directory
    · rw [hbitmap _ fun hc => htable ⟨_, hi, hhas, hc⟩]
      exact (hs.tables _ hi hhas).1
    · rw [hbitmap _ fun hc => htable ⟨j, hj, hhas', hc⟩]
      exact (hs.tables j hj hhas').1
  · rfl
  · rfl
  · intro q hq
    rw [hfits.mappedEntry hs hq, show presentEntry pageWritable = none by decide]
  · show (m.frames.dropRef f).frameBitmap f = false ∧ (m.frames.dropRef f).frameRefcounts f = 0
    unfold FrameState.dropRef
    dsimp only
    rw [hone, if_pos rfl, update_self, update_self]
    exact ⟨rfl, rfl⟩
  · rw [hfits.hasTable, ← hhas, update_eq_self]
  · rw [hfits.tableFrame]
    exact update_eq_self ..
  · exact fun g hg => ⟨hbitmap g hg, update_of_ne hg ..⟩

/-! ### Stores and flags -/

/-- Only contents and flags of pages have changed. -/
structure KeepsPages (m m' : Memory) : Prop where
  sound : m'.ActiveSound
  active : m'.activePageDirectory = m.activePageDirectory
  frames : m'.frames = m.frames
  hasTable : m'.hasTable = m.hasTable
  tableFrame : m'.tableFrame = m.tableFrame
  mapped : ∀ q, inUserRange q.1 → (m'.mappedEntry q).map frameOf = (m.mappedEntry q).map frameOf

/-- The page at a place is neither the directory nor one of its tables. -/
def PlainPage (m : Memory) (p : PageSlot) : Prop :=
  ∃ g, (m.mappedEntry p).map frameOf = some g ∧ g ≠ m.directory ∧ ¬m.IsTable g

/-- Nothing has changed. -/
theorem KeepsPages.refl (hs : m.ActiveSound) : m.KeepsPages m :=
  ⟨hs, rfl, rfl, rfl, rfl, fun _ _ => rfl⟩

/-- Two changes after one another. -/
theorem KeepsPages.trans {m'' : Memory} (h : m.KeepsPages m') (h' : m'.KeepsPages m'') : m.KeepsPages m'' :=
  ⟨h'.sound, h'.active.trans h.active, h'.frames.trans h.frames, h'.hasTable.trans h.hasTable,
    h'.tableFrame.trans h.tableFrame, fun q hq => (h'.mapped q hq).trans (h.mapped q hq)⟩

/-- The directory is where it was. -/
theorem KeepsPages.directory (h : m.KeepsPages m') : m'.directory = m.directory :=
  congrArg frameOf h.active

/-- What there is to map pages with is the same. -/
theorem KeepsPages.supply (h : m.KeepsPages m') : m'.supply = m.supply := by
  unfold Memory.supply
  rw [h.hasTable, h.frames]

/-- The same pages are mapped. -/
theorem KeepsPages.isSome (h : m.KeepsPages m') (hq : inUserRange q.1) :
    (m'.mappedEntry q).isSome = (m.mappedEntry q).isSome := by
  rw [← Option.isSome_map (f := frameOf), h.mapped q hq, Option.isSome_map]

/-- A page in a frame of its own stays so. -/
theorem KeepsPages.plainPage (h : m.KeepsPages m') (hq : inUserRange q.1) (hplain : m.PlainPage q) :
    m'.PlainPage q := by
  obtain ⟨g, hg, hne, htable⟩ := hplain
  refine ⟨g, (h.mapped q hq).trans hg, h.directory ▸ hne, fun hc => htable ?_⟩
  unfold IsTable at hc ⊢
  rwa [h.hasTable, h.tableFrame] at hc

/-- A byte stored in a page of its own. -/
theorem ActiveSound.storeByte (hs : m.ActiveSound) {va : Word} (hplain : m.PlainPage (pageSlot va))
    (b : Byte) : m.KeepsPages (m.storeByte va b) := by
  obtain ⟨g, hg, hne, htable⟩ := hplain
  obtain ⟨e, he, rfl⟩ := Option.map_eq_some_iff.mp hg
  obtain ⟨hhas, hentry, -⟩ := mappedEntry_some he
  have hframe : m.userFrame m.activePageDirectory va = frameOf e := by
    unfold userFrame entry
    rw [frameOf_and_addrMask]
    exact congrArg frameOf hentry
  unfold Memory.storeByte userWrite
  rw [hframe]
  generalize setPageByte (m.ram (frameOf e)) (pageOffset va) b = page
  have hdirectory : (m.writeFrame (frameOf e) page).ram m.directory = m.ram m.directory :=
    update_of_ne hne.symm ..
  have hhasTable : (m.writeFrame (frameOf e) page).hasTable = m.hasTable := by
    funext i
    exact congrArg (fun row : TableIndex → Word => isPresent (row i)) hdirectory
  have htableFrame : (m.writeFrame (frameOf e) page).tableFrame = m.tableFrame := by
    funext i
    exact congrArg (fun row : TableIndex → Word => frameOf (row i)) hdirectory
  refine ⟨⟨hs.counted, hs.initialized, hs.active, hs.directory, fun i hi hhas' => ?_,
    fun i j hi hj hi' hj' heq => ?_⟩, rfl, rfl, hhasTable, htableFrame, fun q hq => ?_⟩
  · rw [hhasTable] at hhas'
    rw [htableFrame]
    exact ⟨(hs.tables i hi hhas').1, (congrArg (fun row => isWritable (row i)) hdirectory).trans
      (hs.tables i hi hhas').2.1, (hs.tables i hi hhas').2.2⟩
  · rw [hhasTable] at hi' hj'
    rw [htableFrame] at heq
    exact hs.apart i j hi hj hi' hj' heq
  · unfold mappedEntry
    rw [hhasTable, htableFrame]
    by_cases hq' : m.hasTable q.1 = true
    · have hrow : (m.writeFrame (frameOf e) page).ram (m.tableFrame q.1) = m.ram (m.tableFrame q.1) :=
        update_of_ne (fun hc => htable ⟨q.1, hq, hq', hc⟩) ..
      rw [if_pos hq', if_pos hq', hrow]
    · rw [if_neg hq', if_neg hq']

/-- Bytes stored in pages of their own. -/
theorem ActiveSound.storeBytes (hs : m.ActiveSound) {va : Word} {bytes : List Byte}
    (hplain : ∀ k < bytes.length, inUserRange (dirIndex (va + BitVec.ofNat 32 k)) ∧
      m.PlainPage (pageSlot (va + BitVec.ofNat 32 k))) :
    m.KeepsPages (m.storeBytes va bytes) := by
  induction bytes generalizing m va with
  | nil => exact .refl hs
  | cons b bytes ih =>
    have hfirst := hplain 0 (Nat.succ_pos _)
    rw [BitVec.add_zero] at hfirst
    have hstored := hs.storeByte hfirst.2 b
    refine hstored.trans (ih hstored.sound fun k hk => ?_)
    have hnext := hplain (k + 1) (Nat.succ_lt_succ hk)
    rw [add_ofNat_succ] at hnext
    exact ⟨hnext.1, hstored.plainPage hnext.1 hnext.2⟩

/-- Setting flags writes the entry of the page. -/
theorem setFlags_eq {va flags : Word} (hactive : m.activePageDirectory ≠ 0)
    (hhas : m.hasTable (dirIndex va) = true) (hne : m.tableFrame (dirIndex va) ≠ m.directory)
    (hentry : m.ram (m.tableFrame (dirIndex va)) (tableIndex va) = e) (hpresent : isPresent e = true)
    (huser : isUser flags = true) :
    m.pagingSetPageFlagsInDirectory m.activePageDirectory va flags =
      (true, m.install m.frames (m.tableFrame (dirIndex va)) (m.ram (m.tableFrame (dirIndex va)))
        (pageSlot va) (m.ram m.directory (dirIndex va) ||| pageUser) (newEntry (frameOf e) flags)) := by
  have hnew : e &&& addrMask ||| flags &&& flagMask ||| pagePresent = newEntry (frameOf e) flags := by
    unfold newEntry
    rw [and_addrMask, frameAddr_and_addrMask (frameOf_lt e)]
  have htable : m.entry (m.ram m.directory (dirIndex va) &&& addrMask) (tableIndex va) = e := by
    unfold entry
    rw [frameOf_and_addrMask]
    exact hentry
  have hdirectory (x : Word) : (m.setEntry (m.ram m.directory (dirIndex va) &&& addrMask) (tableIndex va)
      x).entry (m.activePageDirectory &&& addrMask) (dirIndex va) = m.ram m.directory (dirIndex va) := by
    unfold setEntry
    rw [frameOf_and_addrMask]
    exact (entry_directory _ _).trans (congrFun (update_of_ne hne.symm ..) _)
  unfold pagingSetPageFlagsInDirectory
  dsimp only
  rw [if_neg (not_or_intro hactive (by
    rw [entry_directory, test_pagePresent, show isPresent _ = true from hhas]; decide)), entry_directory,
    htable, if_neg (by rw [test_pagePresent, hpresent]; decide), test_pageUser, if_pos huser, hnew, hdirectory]
  refine Prod.ext rfl ?_
  unfold setEntry
  rw [frameOf_and_addrMask, frameOf_and_addrMask]
  show (m.writeFrame (m.tableFrame (dirIndex va)) _).writeFrame m.directory
    (update (update m.ram (m.tableFrame (dirIndex va)) _ m.directory) _ _) = _
  rw [update_of_ne hne.symm, writeFrame_comm hne]
  rfl

/-- The flags of a mapped page are changed. -/
theorem ActiveSound.setFlags (hs : m.ActiveSound) {va flags : Word} (hi : inUserRange (dirIndex va))
    (hsome : (m.mappedEntry (pageSlot va)).isSome = true) (huser : isUser flags = true) :
    ∃ m', m.pagingSetPageFlagsInDirectory m.activePageDirectory va flags = (true, m') ∧
      m.KeepsPages m' := by
  obtain ⟨e, he⟩ := Option.isSome_iff_exists.mp hsome
  obtain ⟨hhas, hentry, hpresent⟩ := mappedEntry_some he
  have hfits := hs.fits hi hhas pageUser fun _ => bit_pageUser_high
  obtain ⟨hframe, hnew, -⟩ := newEntry_facts (frameOf_lt e) flags
  refine ⟨_, setFlags_eq hs.active hhas (hs.tables _ hi hhas).2.2 hentry hpresent huser, ?_⟩
  have hhasTable : update m.hasTable (dirIndex va) true = m.hasTable := by
    rw [← hhas]
    exact update_eq_self ..
  constructor
  · exact hfits.sound hs hs.counted hs.initialized hs.directory (hs.tables _ hi hhas).1
      fun j hj _ hhas' => (hs.tables j hj hhas').1
  · rfl
  · rfl
  · exact hfits.hasTable.trans hhasTable
  · exact hfits.tableFrame.trans (update_eq_self ..)
  · intro q hq
    rw [hfits.mappedEntry hs hq]
    by_cases hqp : q = pageSlot va
    · rw [if_pos hqp, hqp, he]
      unfold presentEntry
      rw [if_pos hnew]
      exact congrArg some hframe
    · rw [if_neg hqp]

end

end Memory

/-- The address space of a process, when its directory is loaded. -/
theorem Represents.activeSound {m0 m : Memory} {S : Spaces} {d : Nat} (h : Represents m0 m S)
    (hd : d ∈ S.live) (hactive : m.activePageDirectory = frameAddr d) : m.ActiveSound := by
  have hdirectory : m.directory = d := by
    unfold Memory.directory
    rw [hactive, frameOf_frameAddr (h.live_lt hd)]
  have hused {o : Owner} {f : Nat} (ho : S.held o = some f) : m.frames.frameBitmap f = true :=
    (h.books.counted.live_iff f (h.books.lt_total ho)).mpr (h.books.refcount_pos ho)
  have htable {i : TableIndex} (hi : inUserRange i) (hhas : m.hasTable i = true) :
      isUser (m.ram d i) = true ∧ S.table d i = some (m.tableFrame i) := by
    unfold Memory.hasTable Memory.tableFrame at *
    rw [hdirectory] at hhas ⊢
    exact h.user_of_present hd hi hhas
  refine ⟨h.books.counted, h.books.initialized, hactive ▸ h.frameAddr_live_ne_zero hd,
    hdirectory ▸ hused (held_dir hd), fun i hi hhas => ?_, fun i j hi hj hhas hhas' heq => ?_⟩
  · obtain ⟨huser, ht⟩ := htable hi hhas
    refine ⟨hused (o := .table d i) ht, ?_, fun hc => ?_⟩
    · unfold Memory.hasTable at hhas
      rw [hdirectory] at hhas ⊢
      exact h.layout.writable d hd i hhas huser
    · rw [hc, hdirectory] at ht
      exact nomatch h.books.structural_unique (o := .table d i) (p := .dir d) rfl ht (held_dir hd)
  · have ht := (htable hi hhas).2
    have ht' := (htable hj hhas').2
    rw [← heq] at ht'
    have howner := h.books.structural_unique (o := .table d i) (p := .table d j) rfl ht ht'
    injection howner

end AgenticOs
