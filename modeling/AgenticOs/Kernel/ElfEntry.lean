import AgenticOs.Kernel.ElfFailures
import AgenticOs.Memory.UserPages
import Mathlib.Data.Set.Finite.Lemmas
import Mathlib.Order.Bounds.Basic

/-!
# The entry point of an ELF image

The loader compares the entry point with the lowest address and the highest end of the segments, which it
gathers in its first loop.

* **Bounds** (`scanSegments_bounded`): after the loop `load_start` is the least address of a segment and
  `load_end` the greatest end. The invariant of a round is `Bounded`.
* **Gaps** (`exists_mem_or_inGap`): between the bounds of some ranges, a point that is in none of them lies
  behind one and before the next.
* **Main result** (`entry_inside_iff`): the entry point of an accepted file is inside one of its segments if
  and only if it is in no gap between two of them. No address is one of two segments
  (`Loadable.eq_of_contains`).

`gapImage` is a program of two segments with an unmapped page between them, where it begins: it is accepted
(`entry_outside_segments`).
-/

namespace AgenticOs

open Function Lib

section

variable {ι : Type} {file : List Byte} {ph : ElfProgramHeader} {phs seen : List ElfProgramHeader}
  {scan scan' : SegmentScan} {size : Nat} {info : ElfLoadInfo} {k : Kernel} {path : CString}

/-! ### Points between ranges -/

/-- `x` lies behind one of the ranges `[lo i, hi i)` and before the next one. -/
def InGap (lo hi : ι → Nat) (l : List ι) (x : Nat) : Prop :=
  ∃ i ∈ l, ∃ j ∈ l, hi i ≤ x ∧ x < lo j ∧ ∀ r ∈ l, ¬(lo i < lo r ∧ lo r < lo j)

/-- A point between the bounds of some ranges that is in none of them is in a gap. -/
theorem exists_mem_or_inGap {lo hi : ι → Nat} {l : List ι} {x : Nat} (hlow : ∃ i ∈ l, lo i ≤ x)
    (hhigh : ∃ i ∈ l, x < hi i) : (∃ i ∈ l, lo i ≤ x ∧ x < hi i) ∨ InGap lo hi l x := by
  by_cases hin : ∃ i ∈ l, lo i ≤ x ∧ x < hi i
  · exact .inl hin
  have hside {r : ι} (hr : r ∈ l) : hi r ≤ x ∨ x < lo r := by
    by_contra hc
    exact hin ⟨r, hr, by omega⟩
  obtain ⟨a, ha, hax⟩ := hlow
  obtain ⟨b, hb, hbx⟩ := hhigh
  have hbelow : {r | r ∈ l ∧ hi r ≤ x}.Nonempty := ⟨a, ha, (hside ha).resolve_right (by omega)⟩
  have habove : {r | r ∈ l ∧ x < lo r}.Nonempty := ⟨b, hb, (hside hb).resolve_left (by omega)⟩
  -- the last range below the point and the first one above it
  obtain ⟨i, ⟨hil, hix⟩, hlast⟩ := Set.exists_max_image _ lo (l.finite_toSet.subset fun r hr => hr.1) hbelow
  obtain ⟨j, ⟨hjl, hjx⟩, hfirst⟩ := Set.exists_min_image _ lo (l.finite_toSet.subset fun r hr => hr.1) habove
  refine .inr ⟨i, hil, j, hjl, hix, hjx, fun r hr hbetween => ?_⟩
  rcases hside hr with hbelow | habove
  · have := hlast r ⟨hr, hbelow⟩
    omega
  · have := hfirst r ⟨hr, habove⟩
    omega

/-! ### The bounds of the segments -/

/-- Where the segments begin. -/
def segmentStarts (phs : List ElfProgramHeader) : Set Nat := {n | ∃ ph ∈ phs, n = ph.vaddr.toNat}

/-- Where the segments end. -/
def segmentEnds (phs : List ElfProgramHeader) : Set Nat :=
  {n | ∃ ph ∈ phs, n = ph.vaddr.toNat + ph.memsz.toNat}

/-- One start more. -/
theorem segmentStarts_cons : segmentStarts (ph :: seen) = insert ph.vaddr.toNat (segmentStarts seen) := by
  ext n
  simp [segmentStarts]

/-- One end more. -/
theorem segmentEnds_cons :
    segmentEnds (ph :: seen) = insert (ph.vaddr.toNat + ph.memsz.toNat) (segmentEnds seen) := by
  ext n
  simp [segmentEnds]

/-- `load_start` and `load_end` after the segments `seen`, with the values that they begin with. -/
structure Bounded (seen : List ElfProgramHeader) (scan : SegmentScan) : Prop where
  start : IsLeast (insert 0xFFFFFFFF (segmentStarts seen)) scan.loadStart.toNat
  stop : IsGreatest (insert 0 (segmentEnds seen)) scan.loadEnd.toNat

/-- Nothing has been seen yet. -/
theorem Bounded.init : Bounded [] SegmentScan.init := by
  have hstarts : segmentStarts [] = ∅ := by simp [segmentStarts]
  have hends : segmentEnds [] = ∅ := by simp [segmentEnds]
  constructor
  · rw [hstarts, insert_empty_eq]
    exact isLeast_singleton
  · rw [hends, insert_empty_eq]
    exact isGreatest_singleton

/-- One round of the first loop. -/
theorem Bounded.step (hb : Bounded seen scan) {pages : List (Word × Word)} {loadMemory : Word}
    (hsum : (ph.vaddr + ph.memsz).toNat = ph.vaddr.toNat + ph.memsz.toNat) :
    Bounded (ph :: seen)
      { pages := pages
        loadMemory := loadMemory
        loadStart := if ph.vaddr < scan.loadStart then ph.vaddr else scan.loadStart
        loadEnd := if scan.loadEnd < ph.vaddr + ph.memsz then ph.vaddr + ph.memsz else scan.loadEnd } := by
  constructor
  · have hmin : (if ph.vaddr < scan.loadStart then ph.vaddr else scan.loadStart).toNat =
        min ph.vaddr.toNat scan.loadStart.toNat := by
      split <;> rename_i hlt <;> rw [BitVec.lt_def] at hlt <;> omega
    dsimp only
    rw [segmentStarts_cons, Set.insert_comm, hmin]
    exact hb.start.insert _
  · have hmax : (if scan.loadEnd < ph.vaddr + ph.memsz then ph.vaddr + ph.memsz else scan.loadEnd).toNat =
        max (ph.vaddr.toNat + ph.memsz.toNat) scan.loadEnd.toNat := by
      split <;> rename_i hlt <;> rw [BitVec.lt_def, hsum] at hlt <;> omega
    dsimp only
    rw [segmentEnds_cons, Set.insert_comm, hmax]
    exact hb.stop.insert _

/-- The scan keeps the bounds of what it saw. -/
theorem scanSegments_bounded (hb : Bounded seen scan) (hsize : size < 4294967296)
    (h : scanSegments size phs scan = .ok scan') :
    Bounded ((phs.filter fun ph => ph.type = elfPtLoad).reverse ++ seen) scan' := by
  induction phs generalizing seen scan with
  | nil =>
    cases h
    exact hb
  | cons ph phs ih =>
    unfold scanSegments at h
    split at h
    · cases h
    rename_i hvalid
    split at h
    · rename_i htype
      rw [List.filter_cons_of_neg (by simpa using htype)]
      exact ih hb h
    · rename_i htype
      have htype := not_not.mp htype
      have hsum := (validateSegment_safe (not_not.mp hvalid) htype hsize).2.1
      dsimp only at h
      split at h
      · cases h
      split at h
      · cases h
      have hrest := ih (hb.step hsum) h
      rw [List.filter_cons_of_pos (by simpa using htype), List.reverse_cons, List.append_assoc]
      exact hrest

/-- What an accepted file is like. -/
structure AcceptedLayout (file : List Byte) (scan : SegmentScan) : Prop where
  nonempty : loadHeaders file ≠ []
  loadable : Loadable file (loadHeaders file)
  memsz : ∀ ph ∈ loadHeaders file, 0 < ph.memsz.toNat
  start : IsLeast (segmentStarts (loadHeaders file)) scan.loadStart.toNat
  stop : IsGreatest (segmentEnds (loadHeaders file)) scan.loadEnd.toNat
  entry : scan.loadStart.toNat ≤ (elfHeader file).entry.toNat ∧
    (elfHeader file).entry.toNat < scan.loadEnd.toNat

/-- A layout that is accepted is one of a list of sound segments. -/
theorem elfLayout_accepted (h : elfLayout file = .ok scan) (hmax : file.length ≤ elfMaxImageSize) :
    AcceptedLayout file scan := by
  have hloadable := elfLayout_loadable h hmax
  have hsize : file.length < 4294967296 := by
    simp only [elfMaxImageSize] at hmax
    omega
  unfold elfLayout at h
  dsimp only at h
  split at h
  · cases h
  rcases hscan : scanSegments file.length (elfProgramHeaders file) SegmentScan.init with e | scan'
  · rw [hscan] at h
    cases h
  rw [hscan] at h
  dsimp only at h
  split at h
  · cases h
  rename_i hentry
  cases h
  simp only [not_or, BitVec.not_lt, BitVec.not_le] at hentry
  obtain ⟨hcount, hstart, hstop⟩ := hentry
  have hseen : ((elfProgramHeaders file).filter fun ph => ph.type = elfPtLoad) = loadHeaders file := rfl
  have hscanned := scanSegments_ok (Scanned.init file.length) hsize hscan
  have hbounded := scanSegments_bounded Bounded.init hsize hscan
  rw [List.append_nil, hseen] at hscanned hbounded
  have hstarts : segmentStarts (loadHeaders file).reverse = segmentStarts (loadHeaders file) := by
    simp only [segmentStarts, List.mem_reverse]
  have hends : segmentEnds (loadHeaders file).reverse = segmentEnds (loadHeaders file) := by
    simp only [segmentEnds, List.mem_reverse]
  obtain ⟨hleast, hgreatest⟩ := hbounded
  rw [hstarts] at hleast
  rw [hends] at hgreatest
  have hne : loadHeaders file ≠ [] := by
    intro hc
    rw [hscanned.pages, hc] at hcount
    exact hcount rfl
  obtain ⟨ph, phs, hcons⟩ := List.exists_cons_of_ne_nil hne
  have hmem : ph ∈ loadHeaders file := hcons ▸ List.mem_cons_self
  have hle := (hloadable.safe ph hmem).stop_le
  have hlow := hleast.2 (.inr ⟨ph, hmem, rfl⟩)
  have hstart := BitVec.le_def.mp hstart
  have hstop := BitVec.lt_def.mp hstop
  have hmemsz (q : ElfProgramHeader) (hq : q ∈ loadHeaders file) : 0 < q.memsz.toNat :=
    validateSegment_memsz (scanSegments_valid hscan q (List.mem_filter.mp hq).1) (hloadable.type q hq)
  -- the values before the loop are none of the bounds
  refine ⟨hne, hloadable, hmemsz, ⟨hleast.1.resolve_left (by omega), fun n hn => hleast.2 (.inr hn)⟩,
    ⟨hgreatest.1.resolve_left (by omega), fun n hn => hgreatest.2 (.inr hn)⟩, hstart, hstop⟩

/-- A load that succeeds. -/
theorem elfLoadFromVfs_ok (hload : (elfLoadFromVfs path k).1 = .ok info) :
    ∃ file scan, (readFileIntoBuffer path k.vfs).1 = .ok file ∧ elfLayout file = .ok scan ∧
      info = elfLoadInfo file scan ∧ (k.mem.loadSegments file (loadHeaders file)).1 = elfSuccess ∧
      (elfLoadFromVfs path k).2.mem = (k.mem.loadSegments file (loadHeaders file)).2 := by
  revert hload
  unfold elfLoadFromVfs
  rw [run_bind]
  have hcall : callVfs (readFileIntoBuffer path) k =
      ((readFileIntoBuffer path k.vfs).1, { k with vfs := (readFileIntoBuffer path k.vfs).2 }) := rfl
  rw [hcall]
  rcases (readFileIntoBuffer path k.vfs).1 with e | file
  · exact fun hload => nomatch hload
  dsimp only
  rcases hlayout : elfLayout file with e | scan
  · exact fun hload => nomatch hload
  have hfilter := @loadSegments_filter file (elfProgramHeaders file) k.mem
  dsimp only
  rw [run_bind, run_callMemory]
  dsimp only
  rw [hfilter]
  intro hload
  change (if (k.mem.loadSegments file (loadHeaders file)).1 = elfSuccess then
    Except.ok (elfLoadInfo file scan) else .error _) = .ok info at hload
  split at hload
  · rename_i hdone
    cases hload
    exact ⟨file, scan, rfl, hlayout, rfl, hdone, rfl⟩
  · cases hload

/-! ### The entry point -/

/-- The address is one of the segment's. -/
def ElfProgramHeader.Contains (ph : ElfProgramHeader) (x : Nat) : Prop :=
  ph.vaddr.toNat ≤ x ∧ x < ph.vaddr.toNat + ph.memsz.toNat

/-- The entry point lies behind a segment and before the next one. -/
def EntryInGap (file : List Byte) : Prop :=
  InGap (fun ph => ph.vaddr.toNat) (fun ph => ph.vaddr.toNat + ph.memsz.toNat) (loadHeaders file)
    (elfHeader file).entry.toNat

/-- Two segments are the same, or their pages are apart. -/
theorem Loadable.disjoint_of_ne (h : Loadable file phs) {p q : ElfProgramHeader} (hp : p ∈ phs) (hq : q ∈ phs)
    (hne : p ≠ q) : Disjoint p.pageRange q.pageRange := by
  have hsymm : Std.Symm fun p q : ElfProgramHeader => Disjoint p.pageRange q.pageRange :=
    ⟨fun _ _ hc => hc.symm⟩
  exact h.disjoint.forall hp hq hne

/-- A point of a segment is a point of its pages. -/
theorem ElfProgramHeader.Contains.mem_pageRange {x : Nat} (h : ph.Contains x) : x ∈ ph.pageRange := by
  obtain ⟨hlow, hhigh⟩ := h
  unfold pageRange pageStart pageEnd
  exact ⟨by omega, by omega⟩

/-- No address is one of two segments. -/
theorem Loadable.eq_of_contains (h : Loadable file phs) {p q : ElfProgramHeader} (hp : p ∈ phs) (hq : q ∈ phs)
    {x : Nat} (hpx : p.Contains x) (hqx : q.Contains x) : p = q := by
  by_contra hne
  exact Set.disjoint_left.mp (h.disjoint_of_ne hp hq hne) hpx.mem_pageRange hqx.mem_pageRange

/-- A segment that ends before another one begins before it. -/
theorem AcceptedLayout.ordered (h : AcceptedLayout file scan) {p q : ElfProgramHeader}
    (hp : p ∈ loadHeaders file) (hq : q ∈ loadHeaders file)
    (hstop : p.vaddr.toNat + p.memsz.toNat < q.vaddr.toNat + q.memsz.toNat) :
    p.vaddr.toNat < q.vaddr.toNat := by
  by_contra hc
  have hpos := h.memsz p hp
  have hfirst : p.Contains p.vaddr.toNat := ⟨le_rfl, by omega⟩
  have hinside : q.Contains p.vaddr.toNat := ⟨by omega, by omega⟩
  rw [h.loadable.eq_of_contains hp hq hfirst hinside] at hstop
  exact Nat.lt_irrefl _ hstop

/-- **The entry point of an accepted file** is inside one of its segments if and only if it is in no gap
between two of them. -/
theorem entry_inside_iff (k : Kernel) (path : CString) (file : List Byte) (info : ElfLoadInfo)
    (hread : (readFileIntoBuffer path k.vfs).1 = .ok file)
    (hload : (elfLoadFromVfs path k).1 = .ok info) :
    info.entry = (elfHeader file).entry ∧
      ((∃ ph ∈ loadHeaders file, ph.Contains (elfHeader file).entry.toNat) ↔ ¬EntryInGap file) := by
  obtain ⟨file', scan, hread', hlayout, rfl, -⟩ := elfLoadFromVfs_ok hload
  cases hread.symm.trans hread'
  have hfile := elfLayout_accepted hlayout (readFileIntoBuffer_length hread)
  refine ⟨rfl, ?_, fun hgap => ?_⟩
  · rintro ⟨ph, hph, hlow, hhigh⟩ ⟨p, hp, q, hq, hpx, hxq, hnext⟩
    dsimp only at hpx hxq
    -- the segment of the entry point lies between the two
    exact hnext ph hph ⟨hfile.ordered hp hph (by omega), Nat.lt_of_le_of_lt hlow hxq⟩
  · obtain ⟨p, hp, hstart⟩ := hfile.start.1
    obtain ⟨q, hq, hstop⟩ := hfile.stop.1
    obtain ⟨hlow, hhigh⟩ := hfile.entry
    exact (exists_mem_or_inGap ⟨p, hp, by omega⟩ ⟨q, hq, by omega⟩).resolve_right hgap

/-! ### A program with a gap -/

/-- Up to 128 pages can be mapped. -/
theorem blank_canMap {pages : List Word} (h : pages.length ≤ 128) : Memory.blank.CanMap pages := by
  refine ⟨fun page _ => ?_, Memory.Supply.takePages_isSome ?_ ?_⟩
  · rw [Memory.pagingIsMapped_eq, Memory.blank_mappedEntry]
    rfl
  · rw [List.length_map, Memory.blank_supply.1]
    omega
  · rw [List.length_map, Memory.blank_supply.2]
    omega

/-- The first process on a machine with a file system, and no page mapped. -/
def Kernel.blankPages (fs : SimpleFs) : Kernel :=
  { Kernel.solo.withMem .blank with vfs := { Kernel.solo.vfs with fs := fs, vfsMounted := true } }

/-- A small program of few pages is loaded there. -/
theorem blankPages_loads {file : List Byte} {scan : SegmentScan} (hpos : 0 < file.length)
    (hle : file.length ≤ sectorSize) (hlayout : elfLayout file = .ok scan)
    (hpages : (loadPages (loadHeaders file)).length ≤ 128) :
    ∃ fs, (readFileIntoBuffer [0x2F, 0x61] (Kernel.blankPages fs).vfs).1 = .ok file ∧
      (elfLoadFromVfs [0x2F, 0x61] (.blankPages fs)).1 = .ok (elfLoadInfo file scan) := by
  obtain ⟨fs, V, hw, hfile⟩ := stored_working hpos hle
  have hmax : file.length ≤ elfMaxImageSize := by
    simp only [sectorSize, elfMaxImageSize] at *
    omega
  have hadmits : (Kernel.blankPages fs).vfs.admits (some [0x2F, 0x61]) vfsORdonly =
      some ([0x2F, 0x61], 0) := Vfs.admits_eq_some.mpr ⟨rfl, by decide, by decide, rfl⟩
  have hread := readFileIntoBuffer_working hw hadmits (by decide) hfile hpos hmax
  refine ⟨fs, hread, ?_⟩
  have hdone : (Memory.blank.loadSegments file (loadHeaders file)).1 = elfSuccess :=
    ((elfLayout_accepted hlayout hmax).loadable.loadSegments Memory.blank_userPages.sound).1.mpr (blank_canMap hpages)
  have hloads : Loads (.blankPages fs) [0x2F, 0x61] file := ⟨hread, by rw [hlayout]; rfl⟩
  rcases hres : (elfLoadFromVfs [0x2F, 0x61] (.blankPages fs)).1 with e | info
  · rcases elfLoadFromVfs_cases [0x2F, 0x61] (.blankPages fs) with ⟨hnone, -⟩ | ⟨file', hfile', -, herror⟩
    · exact absurd hloads (hnone file)
    · cases hfile'.1.symm.trans hread
      exact absurd hdone (herror.mp ⟨e, hres⟩)
  · obtain ⟨file', scan', hread', hlayout', rfl, -⟩ := elfLoadFromVfs_ok hres
    cases hread.symm.trans hread'
    cases hlayout.symm.trans hlayout'
    rfl

/-- A program of two segments of a page each, with an unmapped page between them where it begins. -/
def gapImage : List Byte :=
  [0x7F, 0x45, 0x4C, 0x46, 1, 1, 1, 0, 0, 0, 0, 0, 0, 0, 0, 0,
    2, 0, 3, 0, 1, 0, 0, 0, 0, 0x10, 0, 0x40, 52, 0, 0, 0, 0, 0, 0, 0, 0, 0, 0, 0,
    52, 0, 32, 0, 2, 0, 0, 0, 0, 0, 0, 0,
    1, 0, 0, 0, 0, 0, 0, 0, 0, 0, 0, 0x40, 0, 0, 0, 0,
    116, 0, 0, 0, 0, 0x10, 0, 0, 5, 0, 0, 0, 0, 0x10, 0, 0,
    1, 0, 0, 0, 0, 0, 0, 0, 0, 0x20, 0, 0x40, 0, 0, 0, 0,
    0, 0, 0, 0, 0, 0x10, 0, 0, 6, 0, 0, 0, 0, 0x10, 0, 0]

/-- What the checks find in it. -/
def gapScan : SegmentScan where
  pages := [(0x40002000, 0x40003000), (0x40000000, 0x40001000)]
  loadMemory := 8192
  loadStart := 0x40000000
  loadEnd := 0x40003000

/-- The program with a gap is loaded. -/
theorem gapImage_loads : ∃ fs,
    (readFileIntoBuffer [0x2F, 0x61] (Kernel.blankPages fs).vfs).1 = .ok gapImage ∧
      (elfLoadFromVfs [0x2F, 0x61] (.blankPages fs)).1 = .ok (elfLoadInfo gapImage gapScan) :=
  blankPages_loads (by decide) (by decide) rfl (by decide)

/-- Its entry point is in a segment, and so not in the gap. -/
theorem entry_inside_iff_gap :
    (elfLoadInfo gapImage gapScan).entry = (elfHeader gapImage).entry ∧
      ((∃ ph ∈ loadHeaders gapImage, ph.Contains (elfHeader gapImage).entry.toNat) ↔ ¬EntryInGap gapImage) := by
  obtain ⟨fs, hread, hload⟩ := gapImage_loads
  exact entry_inside_iff (.blankPages fs) [0x2F, 0x61] gapImage _ hread hload

/-- Its entry point is in neither segment. -/
theorem entry_outside_segments : ¬∀ (k : Kernel) (path : CString) (file : List Byte) (info : ElfLoadInfo),
    (readFileIntoBuffer path k.vfs).1 = .ok file → (elfLoadFromVfs path k).1 = .ok info →
    ∃ ph ∈ loadHeaders file, ph.Contains (elfHeader file).entry.toNat := by
  intro h
  obtain ⟨fs, hread, hload⟩ := gapImage_loads
  obtain ⟨ph, hph, hinside⟩ := h (.blankPages fs) [0x2F, 0x61] gapImage _ hread hload
  have hsegments : loadHeaders gapImage = [elfProgramHeader gapImage 52, elfProgramHeader gapImage 84] := rfl
  rw [hsegments] at hph
  simp only [List.mem_cons, List.not_mem_nil, or_false] at hph
  unfold ElfProgramHeader.Contains at hinside
  rcases hph with rfl | rfl
  · exact absurd hinside.2 (by decide)
  · exact absurd hinside.1 (by decide)

end

end AgenticOs
