import AgenticOs.Kernel.Elf
import Mathlib.Algebra.BigOperators.Group.List.Lemmas
import Mathlib.Order.CompletePartialOrder
import Mathlib.Order.Interval.Set.Disjoint

/-!
# What the ELF loader admits

The loader's checks are made in 32-bit arithmetic on fields that the file chooses.

* **Safe images** (`SafeImage`): what a file that passes the checks is like, in natural numbers: each segment
  lies inside the file and its pages inside the range for programs, the page ranges do not overlap, and sizes
  are bounded (`safeImage`).
* **Checked loops** (`scanSegmentsChecked`, `mapPagesChecked`, `loadSegmentsChecked`): the loops written once
  more, with every access checked against the array, the file or the pages that it may touch; `none` is an
  access outside.
* **No access fails** (`scanSegmentsChecked_eq`, `mapPagesChecked_eq`, `loadSegmentsChecked_eq`): for an
  admitted file they do what the loops of the source do.
* **Main result** (`elf_admits_only_safe`): both for every content of a file.
-/

namespace AgenticOs

open Lib

variable {file : List Byte} {ph p q : ElfProgramHeader} {phs seen : List ElfProgramHeader}
  {scan scan' : SegmentScan} {size : Nat} {m : Memory}

/-- The segments that are loaded. -/
def loadHeaders (file : List Byte) : List ElfProgramHeader :=
  (elfProgramHeaders file).filter fun ph => ph.type = elfPtLoad

namespace ElfProgramHeader

/-- Where the first page of a segment begins. -/
def pageStart (ph : ElfProgramHeader) : Nat := ph.vaddr.toNat / 4096 * 4096

/-- Where the last page of a segment ends. -/
def pageEnd (ph : ElfProgramHeader) : Nat := (ph.vaddr.toNat + ph.memsz.toNat + 4095) / 4096 * 4096

/-- The addresses in the pages of a segment. -/
def pageRange (ph : ElfProgramHeader) : Set Nat := Set.Ico ph.pageStart ph.pageEnd

end ElfProgramHeader

/-- A segment that can be loaded from a file of `size` bytes. -/
structure SafeSegment (size : Nat) (ph : ElfProgramHeader) : Prop where
  inside : ph.offset.toNat + ph.filesz.toNat ≤ size
  filesz_le : ph.filesz.toNat ≤ ph.memsz.toNat
  start : 0x40000000 ≤ ph.pageStart
  stop : ph.pageEnd ≤ 0x90000000
  pages : ph.pageEnd - ph.pageStart ≤ 17 * 4096

/-- An image that can be loaded. -/
structure SafeImage (file : List Byte) : Prop where
  table : (elfHeader file).phoff.toNat + (elfHeader file).phnum.toNat * elfProgramHeaderBytes ≤ file.length
  segments : ∀ ph ∈ loadHeaders file, SafeSegment file.length ph
  disjoint : (loadHeaders file).Pairwise fun p q => Disjoint p.pageRange q.pageRange
  memory : ((loadHeaders file).map fun ph => ph.memsz.toNat).sum ≤ 65536

/-! ### The checks in natural numbers -/

/-- Rounding down, as a number. -/
theorem toNat_elfAlignDown (w : Word) : (elfAlignDown w).toNat = w.toNat / 4096 * 4096 := by
  unfold elfAlignDown
  rw [and_addrMask]
  unfold frameAddr frameOf
  rw [BitVec.toNat_ofNat]
  simp only [frameSize]
  have := w.isLt
  omega

/-- Rounding up, as a number that does not wrap. -/
theorem toNat_elfAlignUp {w : Word} (h : w.toNat + 4095 < 4294967296) :
    (elfAlignUp w).toNat = (w.toNat + 4095) / 4096 * 4096 := by
  have hsum : (w + 4095).toNat = w.toNat + 4095 := by
    rw [BitVec.toNat_add]
    exact Nat.mod_eq_of_lt h
  have hdown := toNat_elfAlignDown (w + 4095)
  rw [hsum] at hdown
  exact hdown

/-- A sum that passes the check does not wrap. -/
theorem addOverflows_eq_false {a b : Word} (h : addOverflows a b = false) :
    (a + b).toNat = a.toNat + b.toNat := by
  unfold addOverflows at h
  have hle : a ≤ a + b := by simpa using h
  have hle := BitVec.le_def.mp hle
  rw [BitVec.toNat_add] at hle ⊢
  have := a.isLt
  have := b.isLt
  omega

/-- What the check of a range in the file says. -/
theorem rangeInsideFile_iff {offset size fileSize : Word} (h : rangeInsideFile offset size fileSize = true) :
    offset.toNat + size.toNat ≤ fileSize.toNat := by
  unfold rangeInsideFile at h
  simp only [Bool.and_eq_true, Bool.not_eq_true', decide_eq_true_eq] at h
  rw [← addOverflows_eq_false h.1]
  exact BitVec.le_def.mp h.2

/-- What the check of a range in user space says. -/
theorem rangeInsideUserSpace_iff {start size : Word} (h : rangeInsideUserSpace start size = true) :
    (start + size).toNat = start.toNat + size.toNat ∧ 0x40000000 ≤ start.toNat ∧
      start.toNat + size.toNat ≤ 0x90000000 := by
  unfold rangeInsideUserSpace at h
  simp only [Bool.and_eq_true, Bool.not_eq_true', Bool.or_eq_false_iff, decide_eq_true_eq] at h
  obtain ⟨⟨⟨-, hover⟩, hstart⟩, hstop⟩ := h
  have hsum := addOverflows_eq_false hover
  refine ⟨hsum, BitVec.le_def.mp hstart, ?_⟩
  rw [← hsum]
  exact BitVec.le_def.mp hstop

/-- A segment that passes its checks: the sum of its address and its size does not wrap either. -/
theorem validateSegment_safe (h : validateSegment ph size = elfSuccess) (htype : ph.type = elfPtLoad)
    (hsize : size < 4294967296) :
    SafeSegment size ph ∧ (ph.vaddr + ph.memsz).toNat = ph.vaddr.toNat + ph.memsz.toNat ∧
      ph.vaddr.toNat + ph.memsz.toNat ≤ 0x90000000 := by
  unfold validateSegment at h
  rw [if_neg (not_not_intro htype)] at h
  split at h
  · cases h
  rename_i hmemsz
  split at h
  · cases h
  rename_i hlimit
  split at h
  · cases h
  rename_i hfile
  split at h
  · cases h
  rename_i huser
  clear h
  simp only [Bool.not_eq_true', Bool.not_eq_false] at hfile huser
  have hinside := rangeInsideFile_iff hfile
  obtain ⟨hsum, hstart, hstop⟩ := rangeInsideUserSpace_iff huser
  have hfilesz : ph.filesz.toNat ≤ ph.memsz.toNat := BitVec.le_def.mp (by simpa using fun h => hmemsz (.inr h))
  have hmax : ph.memsz.toNat ≤ 65536 := BitVec.le_def.mp (BitVec.not_lt.mp hlimit)
  rw [BitVec.toNat_ofNat, Nat.mod_eq_of_lt hsize] at hinside
  refine ⟨⟨hinside, hfilesz, ?_, ?_, ?_⟩, hsum, hstop⟩
  · unfold ElfProgramHeader.pageStart
    omega
  · unfold ElfProgramHeader.pageEnd
    omega
  · unfold ElfProgramHeader.pageStart ElfProgramHeader.pageEnd
    omega

/-- The page range of a segment, as the loop computes it. -/
def pageWords (ph : ElfProgramHeader) : Word × Word := (elfAlignDown ph.vaddr, elfAlignUp (ph.vaddr + ph.memsz))

/-- The variables of the first loop after the segments `seen`, the last first. -/
structure Scanned (size : Nat) (seen : List ElfProgramHeader) (scan : SegmentScan) : Prop where
  segments : ∀ ph ∈ seen, SafeSegment size ph
  pages : scan.pages = seen.map pageWords
  words : ∀ ph ∈ seen, (pageWords ph).1.toNat = ph.pageStart ∧ (pageWords ph).2.toNat = ph.pageEnd
  disjoint : seen.Pairwise fun p q => Disjoint p.pageRange q.pageRange
  loadMemory : scan.loadMemory.toNat = (seen.map fun ph => ph.memsz.toNat).sum
  memory : (seen.map fun ph => ph.memsz.toNat).sum ≤ 65536

/-- Before the first segment. -/
theorem Scanned.init (size : Nat) : Scanned size [] SegmentScan.init where
  segments := nofun
  pages := rfl
  words := nofun
  disjoint := List.Pairwise.nil
  loadMemory := rfl
  memory := Nat.zero_le _

/-- Page ranges that do not overlap as words are disjoint. -/
theorem disjoint_of_not_overlap {a b c d : Word} (h : rangesOverlap a b c d = false) :
    Disjoint (Set.Ico a.toNat b.toNat) (Set.Ico c.toNat d.toNat) := by
  unfold rangesOverlap at h
  simp only [Bool.and_eq_false_iff, decide_eq_false_iff_not, BitVec.lt_def, not_lt] at h
  refine Set.disjoint_left.mpr fun x hx hx' => ?_
  have hx₁ := hx.1
  have hx₂ := hx.2
  have hx₃ := hx'.1
  have hx₄ := hx'.2
  omega

/-- One round of the first loop. -/
theorem Scanned.step (hs : Scanned size seen scan) (hsize : size < 4294967296)
    (hvalid : validateSegment ph size = elfSuccess) (htype : ph.type = elfPtLoad)
    (hoverlap : ¬ (scan.pages.any fun s => rangesOverlap (pageWords ph).1 (pageWords ph).2 s.1 s.2) = true)
    (hmemory : ¬ elfMaxLoadMemorySize - scan.loadMemory < ph.memsz) :
    Scanned size (ph :: seen)
      { pages := pageWords ph :: scan.pages
        loadMemory := scan.loadMemory + ph.memsz
        loadStart := if ph.vaddr < scan.loadStart then ph.vaddr else scan.loadStart
        loadEnd := if scan.loadEnd < ph.vaddr + ph.memsz then ph.vaddr + ph.memsz else scan.loadEnd } := by
  obtain ⟨hsafe, hsum, hstop⟩ := validateSegment_safe hvalid htype hsize
  have hwords : (pageWords ph).1.toNat = ph.pageStart ∧ (pageWords ph).2.toNat = ph.pageEnd := by
    refine ⟨toNat_elfAlignDown _, ?_⟩
    unfold pageWords ElfProgramHeader.pageEnd
    rw [← hsum, toNat_elfAlignUp (by omega)]
  have hroom : scan.loadMemory.toNat + ph.memsz.toNat ≤ 65536 := by
    have hle := BitVec.le_def.mp (BitVec.not_lt.mp hmemory)
    have hloaded : scan.loadMemory.toNat ≤ 65536 := hs.loadMemory ▸ hs.memory
    rw [BitVec.toNat_sub] at hle
    have hmax : (elfMaxLoadMemorySize : Word).toNat = 65536 := rfl
    rw [hmax] at hle
    omega
  refine ⟨?_, ?_, ?_, List.pairwise_cons.mpr ⟨fun q hq => ?_, hs.disjoint⟩, ?_, ?_⟩
  · exact List.forall_mem_cons.mpr ⟨hsafe, hs.segments⟩
  · rw [hs.pages, List.map_cons]
  · exact List.forall_mem_cons.mpr ⟨hwords, hs.words⟩
  · have hq' : rangesOverlap (pageWords ph).1 (pageWords ph).2 (pageWords q).1 (pageWords q).2 = false := by
      simp only [List.any_eq_true, not_exists, not_and, Bool.not_eq_true] at hoverlap
      exact hoverlap (pageWords q) (hs.pages ▸ List.mem_map_of_mem hq)
    have hdisjoint := disjoint_of_not_overlap hq'
    rw [hwords.1, hwords.2, (hs.words q hq).1, (hs.words q hq).2] at hdisjoint
    exact hdisjoint
  · rw [List.map_cons, List.sum_cons, ← hs.loadMemory, BitVec.toNat_add, Nat.mod_eq_of_lt (by omega),
      Nat.add_comm]
  · rw [List.map_cons, List.sum_cons, ← hs.loadMemory]
    omega

/-- The first loop. -/
theorem scanSegments_ok (hs : Scanned size seen scan) (hsize : size < 4294967296)
    (h : scanSegments size phs scan = .ok scan') :
    Scanned size ((phs.filter fun ph => ph.type = elfPtLoad).reverse ++ seen) scan' := by
  induction phs generalizing seen scan with
  | nil =>
    cases h
    exact hs
  | cons ph phs ih =>
    unfold scanSegments at h
    split at h
    · cases h
    rename_i hvalid
    split at h
    · rename_i htype
      rw [List.filter_cons_of_neg (by simpa using htype)]
      exact ih hs h
    · rename_i htype
      have htype := not_not.mp htype
      dsimp only at h
      split at h
      · cases h
      rename_i hoverlap
      split at h
      · cases h
      rename_i hmemory
      have hrest := ih (hs.step hsize (not_not.mp hvalid) htype hoverlap hmemory) h
      rw [List.filter_cons_of_pos (by simpa using htype), List.reverse_cons, List.append_assoc]
      exact hrest

/-- What the check of the header says. -/
theorem validateHeader_ok (h : validateHeader (elfHeader file) file.length = elfSuccess)
    (hsize : file.length < 4294967296) :
    (elfHeader file).phnum.toNat ≤ elfMaxSegments ∧
      (elfHeader file).phoff.toNat + (elfHeader file).phnum.toNat * elfProgramHeaderBytes ≤ file.length := by
  unfold validateHeader at h
  split at h
  · cases h
  split at h
  · cases h
  split at h
  · cases h
  rename_i hfields
  split at h
  · cases h
  rename_i htable
  simp only [Bool.not_eq_true', Bool.not_eq_false] at htable
  have hinside := rangeInsideFile_iff htable
  have hphnum : (elfHeader file).phnum.toNat ≤ elfMaxSegments := by
    simp only [not_or, not_lt] at hfields
    exact hfields.2.2.2.2.2.2
  refine ⟨hphnum, ?_⟩
  simp only [elfMaxSegments, elfProgramHeaderBytes] at hphnum hinside ⊢
  rw [BitVec.toNat_ofNat, BitVec.toNat_ofNat] at hinside
  omega

/-- Files whose headers pass the checks have safe images. -/
theorem safeImage (hheader : validateHeader (elfHeader file) file.length = elfSuccess)
    (hsize : file.length < 4294967296)
    (hscan : scanSegments file.length (elfProgramHeaders file) SegmentScan.init = .ok scan) :
    SafeImage file := by
  have hs := scanSegments_ok (Scanned.init file.length) hsize hscan
  rw [List.append_nil] at hs
  constructor
  · exact (validateHeader_ok hheader hsize).2
  · exact fun ph hph => hs.segments ph (List.mem_reverse.mpr hph)
  · exact (List.pairwise_reverse.mp hs.disjoint).imp fun hpq => hpq.symm
  · have hsum := hs.memory
    rwa [List.map_reverse, List.sum_reverse] at hsum

/-! ### The loops with their accesses checked -/

/-- The slots of `mapped_pages` and `mapped_phys`: `ELF_MAX_LOAD_MEMORY_SIZE / FRAME_SIZE + 1` -/
abbrev mappedSlots : Nat := 17

/-- The first loop, where `none` is a store outside `segment_page_starts` and `segment_page_ends`. -/
def scanSegmentsChecked (fileSize : Nat) :
    List ElfProgramHeader → SegmentScan → Option (Except Int SegmentScan)
  | [], scan => some (.ok scan)
  | ph :: phs, scan =>
    if validateSegment ph fileSize ≠ elfSuccess then some (.error (validateSegment ph fileSize))
    else if ph.type ≠ elfPtLoad then scanSegmentsChecked fileSize phs scan
    else
      let pageStart := elfAlignDown ph.vaddr
      let pageEnd := elfAlignUp (ph.vaddr + ph.memsz)
      if scan.pages.any fun s => rangesOverlap pageStart pageEnd s.1 s.2 then some (.error elfEinval)
      else if elfMaxSegments ≤ scan.pages.length then none
      else if elfMaxLoadMemorySize - scan.loadMemory < ph.memsz then some (.error elfEinval)
      else
        scanSegmentsChecked fileSize phs
          { pages := (pageStart, pageEnd) :: scan.pages
            loadMemory := scan.loadMemory + ph.memsz
            loadStart := if ph.vaddr < scan.loadStart then ph.vaddr else scan.loadStart
            loadEnd := if scan.loadEnd < ph.vaddr + ph.memsz then ph.vaddr + ph.memsz
              else scan.loadEnd }

namespace Memory

/-- The loop of `map_segment_pages`, where `none` is a store outside `mapped_pages` and `mapped_phys`;
with the status and the memory it returns the pages that it has mapped. -/
def mapPagesChecked : List Word → List (Word × Word) → Memory → Option (Int × List (Word × Word) × Memory)
  | [], mapped, m => some (elfSuccess, mapped, m)
  | page :: pages, mapped, m =>
    if m.pagingIsMapped page then some (elfEinval, mapped, m)
    else
      let r := m.frameAlloc
      let phys := r.1
      if phys = 0 then some (elfEnospc, [], r.2.unmapPages mapped)
      else
        let s := r.2.pagingMapPageInDirectory r.2.pagingGetCurrentDirectory page phys
          (pagePresent ||| pageWritable ||| pageUser)
        if s.1 = false then some (elfEnospc, [], (s.2.frameRelease phys).2.unmapPages mapped)
        else if !s.2.isUserWritable s.2.activePageDirectory page then
          some (elfEio, [], (s.2.frameFree phys).unmapPages mapped)
        else if mappedSlots ≤ mapped.length then none
        else mapPagesChecked pages (mapped ++ [(page, phys)]) s.2

/-- The bytes of a segment, where `none` is a store outside the pages mapped for it or a read beyond
the file. -/
def fillSegmentChecked (m : Memory) (mapped : List (Word × Word)) (file : List Byte) (ph : ElfProgramHeader) :
    Option Memory :=
  if (∀ i < ph.memsz.toNat, elfAlignDown (ph.vaddr + BitVec.ofNat 32 i) ∈ mapped.map Prod.fst) ∧
      ∀ i < ph.filesz.toNat, ph.offset.toNat + i < file.length ∧
        elfAlignDown (ph.vaddr + BitVec.ofNat 32 i) ∈ mapped.map Prod.fst then
    some (m.fillSegment file ph)
  else none

/-- The second loop of `elf_load_from_vfs` over the program headers at some offsets of the file, where
`none` is a program header that does not lie in the file or an access that fails. -/
def loadSegmentsChecked (file : List Byte) : List Nat → Memory → Option (Int × Memory)
  | [], m => some (elfSuccess, m)
  | offset :: offsets, m =>
    if file.length < offset + elfProgramHeaderBytes then none
    else
      let ph := elfProgramHeader file offset
      if ph.type ≠ elfPtLoad then loadSegmentsChecked file offsets m
      else do
        let r ← mapPagesChecked (segmentPages ph.vaddr ph.memsz) [] m
        if r.1 ≠ elfSuccess then return (r.1, r.2.2)
        else
          let filled ← r.2.2.fillSegmentChecked r.2.1 file ph
          let s := filled.protectSegmentPages ph.vaddr ph.memsz ph.flags
          if s.1 ≠ elfSuccess then return s else loadSegmentsChecked file offsets s.2

end Memory

/-- The offsets of the program headers of a file. -/
def programHeaderOffsets (file : List Byte) : List Nat :=
  (List.range (elfHeader file).phnum.toNat).map fun i =>
    (elfHeader file).phoff.toNat + i * elfProgramHeaderBytes

/-- With few segments no store is outside the arrays. -/
theorem scanSegmentsChecked_eq (h : phs.length + scan.pages.length ≤ elfMaxSegments) :
    scanSegmentsChecked size phs scan = some (scanSegments size phs scan) := by
  induction phs generalizing scan with
  | nil => rfl
  | cons ph phs ih =>
    have hroom : ¬ elfMaxSegments ≤ scan.pages.length := by
      rw [List.length_cons] at h
      omega
    unfold scanSegmentsChecked scanSegments
    dsimp only
    split
    · rfl
    split
    · exact ih (by rw [List.length_cons] at h; omega)
    split
    · rfl
    split
    · rfl
    · exact ih (by rw [List.length_cons] at h ⊢; omega)

/-- Few pages are mapped into few slots; on success they are those of the segment. -/
theorem mapPagesChecked_eq (pages : List Word) (mapped : List (Word × Word)) (m : Memory)
    (h : mapped.length + pages.length ≤ mappedSlots) :
    ∃ after, Memory.mapPagesChecked pages mapped m =
        some ((Memory.mapPages pages mapped m).1, after, (Memory.mapPages pages mapped m).2) ∧
      ((Memory.mapPages pages mapped m).1 = elfSuccess → after.map Prod.fst = mapped.map Prod.fst ++ pages) := by
  induction pages generalizing mapped m with
  | nil => exact ⟨mapped, rfl, fun _ => (List.append_nil _).symm⟩
  | cons page pages ih =>
    rw [List.length_cons] at h
    have hroom : ¬ mappedSlots ≤ mapped.length := by omega
    unfold Memory.mapPagesChecked Memory.mapPages
    dsimp only
    split
    · exact ⟨_, rfl, nofun⟩
    split
    · exact ⟨_, rfl, nofun⟩
    split
    · exact ⟨_, rfl, nofun⟩
    split
    · exact ⟨_, rfl, nofun⟩
    · obtain ⟨after, heq, hpages⟩ := ih (mapped ++ [(page, m.frameAlloc.1)]) _
        (by rw [List.length_append, List.length_singleton]; omega)
      refine ⟨after, heq, fun hsuccess => ?_⟩
      rw [hpages hsuccess, List.map_append, List.append_assoc]
      rfl

/-! ### No access of an admitted file fails -/

/-- The end of a safe segment does not wrap, nor does the end of its last page. -/
theorem SafeSegment.stop_le (h : SafeSegment size ph) : ph.vaddr.toNat + ph.memsz.toNat ≤ 0x90000000 := by
  have hstop := h.stop
  unfold ElfProgramHeader.pageEnd at hstop
  omega

/-- The ends of the page range are what the loader computes. -/
theorem SafeSegment.words (h : SafeSegment size ph) :
    (elfAlignDown ph.vaddr).toNat = ph.pageStart ∧ (elfAlignUp (ph.vaddr + ph.memsz)).toNat = ph.pageEnd := by
  have hle := h.stop_le
  have hsum : (ph.vaddr + ph.memsz).toNat = ph.vaddr.toNat + ph.memsz.toNat := by
    rw [BitVec.toNat_add]
    exact Nat.mod_eq_of_lt (by omega)
  refine ⟨toNat_elfAlignDown _, ?_⟩
  rw [toNat_elfAlignUp (by omega), hsum]
  rfl

/-- A segment has at most sixteen pages and one more. -/
theorem SafeSegment.length_pages (h : SafeSegment size ph) : (segmentPages ph.vaddr ph.memsz).length ≤ 17 := by
  have hpages := h.pages
  unfold segmentPages
  rw [List.length_map, List.length_range, h.words.1, h.words.2]
  omega

/-- An address in the page range of a segment is in one of its pages. -/
theorem SafeSegment.alignDown_mem (h : SafeSegment size ph) {va : Word} (hva : va.toNat ∈ ph.pageRange) :
    elfAlignDown va ∈ segmentPages ph.vaddr ph.memsz := by
  obtain ⟨hlow, hhigh⟩ := hva
  have hstart := h.words.1
  have hstop := h.words.2
  have := va.isLt
  unfold ElfProgramHeader.pageStart at hstart hlow
  unfold ElfProgramHeader.pageEnd at hstop hhigh
  refine List.mem_map.mpr ⟨va.toNat / 4096 - ph.vaddr.toNat / 4096, ?_, BitVec.eq_of_toNat_eq ?_⟩
  · rw [List.mem_range, hstart, hstop]
    omega
  · rw [toNat_elfAlignDown, BitVec.toNat_add, BitVec.toNat_ofNat, hstart]
    omega

/-- Where a byte of a segment goes. -/
theorem SafeSegment.toNat_address (h : SafeSegment size ph) {k : Nat} (hk : k < ph.memsz.toNat) :
    (ph.vaddr + BitVec.ofNat 32 k).toNat = ph.vaddr.toNat + k := by
  have hle := h.stop_le
  rw [BitVec.toNat_add, BitVec.toNat_ofNat]
  omega

/-- A byte of a segment lies in one of its pages. -/
theorem SafeSegment.mem_pages (h : SafeSegment size ph) {i : Nat} (hi : i < ph.memsz.toNat) :
    elfAlignDown (ph.vaddr + BitVec.ofNat 32 i) ∈ segmentPages ph.vaddr ph.memsz := by
  refine h.alignDown_mem ?_
  rw [h.toNat_address hi]
  unfold ElfProgramHeader.pageRange ElfProgramHeader.pageStart ElfProgramHeader.pageEnd
  exact ⟨by omega, by omega⟩

/-- The bytes of a safe segment are in the file, and go into its pages. -/
theorem SafeSegment.fill (h : SafeSegment file.length ph) (m : Memory) {mapped : List (Word × Word)}
    (hmapped : mapped.map Prod.fst = segmentPages ph.vaddr ph.memsz) :
    m.fillSegmentChecked mapped file ph = some (m.fillSegment file ph) := by
  have hinside := h.inside
  have hfilesz := h.filesz_le
  unfold Memory.fillSegmentChecked
  rw [hmapped]
  exact if_pos ⟨fun i hi => h.mem_pages hi, fun i hi => ⟨by omega, h.mem_pages (by omega)⟩⟩

/-- **No access of the second loop is outside**, for segments that are safe. -/
theorem loadSegmentsChecked_eq (offsets : List Nat) (m : Memory)
    (hinside : ∀ o ∈ offsets, o + elfProgramHeaderBytes ≤ file.length)
    (hsafe : ∀ o ∈ offsets, (elfProgramHeader file o).type = elfPtLoad →
      SafeSegment file.length (elfProgramHeader file o)) :
    Memory.loadSegmentsChecked file offsets m =
      some (Memory.loadSegments file (offsets.map (elfProgramHeader file)) m) := by
  induction offsets generalizing m with
  | nil => rfl
  | cons o offsets ih =>
    have hrest (m : Memory) := ih m (fun x hx => hinside x (List.mem_cons_of_mem _ hx))
      fun x hx => hsafe x (List.mem_cons_of_mem _ hx)
    have hthis := hsafe o List.mem_cons_self
    rw [List.map_cons]
    unfold Memory.loadSegmentsChecked Memory.loadSegments
    rw [if_neg (Nat.not_lt.mpr (hinside o List.mem_cons_self))]
    dsimp only
    generalize elfProgramHeader file o = ph at hthis ⊢
    split
    · exact hrest m
    · rename_i htype
      have hsegment := hthis (not_not.mp htype)
      obtain ⟨after, heq, hpages⟩ := mapPagesChecked_eq (segmentPages ph.vaddr ph.memsz) [] m
        (by rw [List.length_nil, Nat.zero_add]; exact hsegment.length_pages)
      rw [heq]
      simp only [Option.bind_eq_bind, Option.bind_some]
      unfold Memory.mapSegmentPages
      generalize Memory.mapPages (segmentPages ph.vaddr ph.memsz) [] m = r at hpages ⊢
      split
      · rfl
      · rename_i hstatus
        rw [hsegment.fill r.2 (hpages (not_not.mp hstatus)), Option.bind_some]
        split
        · rfl
        · exact hrest _

/-- **The ELF validator admits only safe images**, and loading one makes no access outside the arrays, the
file and the pages of the segment. -/
theorem elf_admits_only_safe (file : List Byte) (scan : SegmentScan) (hpos : 1 ≤ file.length)
    (hmax : file.length ≤ elfMaxImageSize)
    (hheader : validateHeader (elfHeader file) file.length = elfSuccess)
    (hscan : scanSegments file.length (elfProgramHeaders file) SegmentScan.init = .ok scan) :
    SafeImage file ∧
      scanSegmentsChecked file.length (elfProgramHeaders file) SegmentScan.init = some (.ok scan) ∧
      ∀ m, Memory.loadSegmentsChecked file (programHeaderOffsets file) m =
        some (Memory.loadSegments file (elfProgramHeaders file) m) := by
  have hsize : file.length < 4294967296 := by
    simp only [elfMaxImageSize] at hmax
    omega
  have hsafe := safeImage hheader hsize hscan
  obtain ⟨hphnum, htable⟩ := validateHeader_ok hheader hsize
  have hheaders : elfProgramHeaders file = (programHeaderOffsets file).map (elfProgramHeader file) := by
    unfold elfProgramHeaders programHeaderOffsets
    rw [List.map_map]
    rfl
  refine ⟨hsafe, ?_, fun m => ?_⟩
  · rw [← hscan]
    refine scanSegmentsChecked_eq ?_
    unfold elfProgramHeaders
    rw [List.length_map, List.length_range]
    exact hphnum
  · rw [hheaders]
    refine loadSegmentsChecked_eq _ m (fun o ho => ?_) fun o ho htype => hsafe.segments _ ?_
    · obtain ⟨i, hi, rfl⟩ := List.mem_map.mp ho
      have hi := List.mem_range.mp hi
      simp only [elfProgramHeaderBytes] at htable ⊢
      omega
    · unfold loadHeaders
      rw [hheaders]
      exact List.mem_filter.mpr ⟨List.mem_map_of_mem ho, by simpa using htype⟩

/-- A program of one writable segment of two pages at `ELF_USER_LOAD_MIN`; its file is the header and one
program header. -/
def twoPageImage : List Byte :=
  [0x7F, 0x45, 0x4C, 0x46, 1, 1, 1, 0, 0, 0, 0, 0, 0, 0, 0, 0,
    2, 0, 3, 0, 1, 0, 0, 0, 0, 0, 0, 0x40, 52, 0, 0, 0, 0, 0, 0, 0, 0, 0, 0, 0,
    52, 0, 32, 0, 1, 0, 0, 0, 0, 0, 0, 0,
    1, 0, 0, 0, 0, 0, 0, 0, 0, 0, 0, 0x40, 0, 0, 0, 0,
    84, 0, 0, 0, 0, 0x20, 0, 0, 6, 0, 0, 0, 0, 0x10, 0, 0]

/-- The program of two pages is admitted, and loaded without an access outside. -/
theorem elf_admits_only_safe_two_pages :
    SafeImage twoPageImage ∧
      scanSegmentsChecked twoPageImage.length (elfProgramHeaders twoPageImage) SegmentScan.init =
        some (.ok ⟨[(0x40000000, 0x40002000)], 8192, 0x40000000, 0x40002000⟩) ∧
      ∀ m, Memory.loadSegmentsChecked twoPageImage (programHeaderOffsets twoPageImage) m =
        some (Memory.loadSegments twoPageImage (elfProgramHeaders twoPageImage) m) :=
  elf_admits_only_safe twoPageImage _ (by decide) (by decide) (by decide) rfl

end AgenticOs
