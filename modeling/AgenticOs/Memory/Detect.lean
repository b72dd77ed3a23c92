import AgenticOs.Lib.Bytes
import AgenticOs.Memory.FrameSpec

/-!
# `kernel/e820.c` and `kernel/memory.c`

What the boot sector and the CMOS say about memory, and what `frame_init` makes of it.

* **Model**: the hand-off of the boot sector (`e820Init`), the CMOS registers (`memoryInit`) and what both
  give to `frame_init` (`bootInfo`).
* **Free frames** (`frameInit_free_iff`): a frame is free after `frame_init` iff it is tracked, lies above the
  kernel and a usable entry of the map frees it; the entries of other types are not looked at.
* **Tracked memory** (`tracked_follows_detected_iff`): what `frame_init` tracks is the memory that has been
  detected, exactly where the sizes fit. They do not for 4 GiB of KiB in bytes (`four_gib_untracked`), or for
  a usable entry whose end is past `2^64`.

`highestMemoryFromE820_eq` compares the scan for the highest end, in `uint64_t`, with the highest end as a
number without bound.
-/

namespace AgenticOs

open Function Lib

/-- Source: `e820.h` `E820_MAX_ENTRIES` -/
abbrev e820MaxEntries : Nat := 32
/-- Source: `e820.h` `E820_MAGIC` -/
abbrev e820Magic : Word := 0x30323845

/-- The fields of `struct e820_entry` in memory that the kernel reads. -/
structure E820Record where
  base : BitVec 64
  length : BitVec 64
  type : Word

/-- What the boot sector leaves at `E820_HANDOFF_ADDR`. Source: `e820.h` `struct e820_handoff` -/
structure E820Handoff where
  magic : Word
  count : BitVec 16
  entries : Nat → E820Record

/-- An entry of the memory map. -/
def E820Record.entry (r : E820Record) : E820Entry where
  base := r.base.toNat
  length := r.length.toNat
  type := r.type.toNat

/-- The memory map; it is available when it has an entry. Source: `e820.c` `e820_init` -/
def e820Init (handoff : E820Handoff) : List E820Entry :=
  if handoff.magic ≠ e820Magic then []
  else (List.range (min handoff.count.toNat e820MaxEntries)).map fun i => (handoff.entries i).entry

/-- Source: `e820.c` `e820_get_total_usable_memory` -/
def e820GetTotalUsableMemory (entries : List E820Entry) : Nat :=
  entries.foldl (fun total e =>
    if e.type = e820Usable then (total + e.length) % 2 ^ 64 else total) 0

/-- The static variables of `memory.c`. -/
structure MemoryInfo where
  totalMemoryKb : Nat
  detectedFromHardware : Bool

/-- `cmos_read` of a register and the next, the low byte first. -/
def cmosWord (cmos : Nat → Byte) (reg : Nat) : Nat := (cmos reg).toNat + (cmos (reg + 1)).toNat * 256

/-- The size that the CMOS gives: the blocks of 64 KiB above 16 MiB, or the KiB above 1 MiB. -/
def cmosMemory (cmos : Nat → Byte) : MemoryInfo :=
  if 0 < cmosWord cmos 0x34 then ⟨16 * 1024 + cmosWord cmos 0x34 * 64, true⟩
  else if 0 < cmosWord cmos 0x30 then ⟨1024 + cmosWord cmos 0x30, true⟩
  else ⟨0, false⟩

/-- Source: `memory.c` `memory_init` -/
def memoryInit (cmos : Nat → Byte) (entries : List E820Entry) : MemoryInfo :=
  let total := e820GetTotalUsableMemory entries
  if entries.isEmpty = false ∧ 16 * 1024 * 1024 ≤ total then ⟨total / 1024 % wordSize, true⟩
  else cmosMemory cmos

/-- What `e820_init` and `memory_init` prepare for `frame_init`. -/
def bootInfo (handoff : E820Handoff) (cmos : Nat → Byte) (kernelEnd : Word) : BootInfo where
  entries := e820Init handoff
  totalKb := (memoryInit cmos (e820Init handoff)).totalMemoryKb
  kernelEnd := kernelEnd.toNat

/-! ### The end of the map -/

/-- An entry of usable memory. -/
abbrev E820Entry.Usable (e : E820Entry) : Prop := e.type = e820Usable

/-- The end of an entry, in `uint64_t`, as far as memory is tracked. -/
theorem E820Entry.trackedEnd_eq (e : E820Entry) :
    e.trackedEnd = min ((e.base + e.length) % 2 ^ 64) maxTrackedMemory := by
  unfold trackedEnd
  dsimp only
  split <;> omega

/-- The usable entries of a map. -/
def usableEntries (entries : List E820Entry) : List E820Entry :=
  entries.filter fun e => e.type = e820Usable

/-- The usable entries are members of the map. -/
theorem mem_usableEntries {e : E820Entry} {entries : List E820Entry} :
    e ∈ usableEntries entries ↔ e ∈ entries ∧ e.Usable := by
  unfold usableEntries
  rw [List.mem_filter, decide_eq_true_eq]

/-- The highest end of a usable entry, as a number without bound. -/
def highestUsableEnd (entries : List E820Entry) : Nat :=
  ((usableEntries entries).map fun e => e.base + e.length).foldr max 0

/-- The largest number of a list bounds the others, and is one of them or 0. -/
theorem foldr_max_spec (l : List Nat) :
    (∀ n ∈ l, n ≤ l.foldr max 0) ∧ (l.foldr max 0 = 0 ∨ l.foldr max 0 ∈ l) := by
  induction l with
  | nil => exact ⟨nofun, .inl rfl⟩
  | cons n l ih =>
    obtain ⟨hall, hattained⟩ := ih
    rw [List.foldr_cons]
    refine ⟨fun x hx => ?_, ?_⟩
    · rcases List.mem_cons.mp hx with rfl | hx
      · exact Nat.le_max_left _ _
      · exact (hall x hx).trans (Nat.le_max_right _ _)
    · rcases Nat.le_total n (l.foldr max 0) with hle | hle
      · rw [Nat.max_eq_right hle]
        exact hattained.imp_right (List.mem_cons_of_mem _)
      · rw [Nat.max_eq_left hle]
        exact .inr List.mem_cons_self

/-- `highest_memory_from_e820` is the highest end of a usable entry, as far as it is tracked. -/
theorem highestMemoryFromE820_eq (boot : BootInfo) :
    boot.highestMemoryFromE820 = ((usableEntries boot.entries).map E820Entry.trackedEnd).foldr max 0 := by
  unfold BootInfo.highestMemoryFromE820
  have hfold (l : List E820Entry) (highest : Nat) :
      l.foldl (fun highest e =>
        if e.type ≠ e820Usable then highest
        else if highest < e.trackedEnd then e.trackedEnd else highest) highest =
        max highest (((usableEntries l).map E820Entry.trackedEnd).foldr max 0) := by
    induction l generalizing highest with
    | nil => exact (Nat.max_eq_left (Nat.zero_le _)).symm
    | cons e l ih =>
      rw [List.foldl_cons, ih]
      unfold usableEntries
      by_cases hu : e.type = e820Usable
      · rw [if_neg (not_not.mpr hu), List.filter_cons_of_pos (by simpa using hu), List.map_cons,
          List.foldr_cons, ← Nat.max_assoc]
        congr 1
        split <;> omega
      · rw [if_pos hu, List.filter_cons_of_neg (by simpa using hu)]
  rw [hfold, Nat.max_eq_right (Nat.zero_le _)]

/-- No usable entry ends above the highest end that the scan finds. -/
theorem trackedEnd_le_highest {boot : BootInfo} {e : E820Entry} (he : e ∈ boot.entries)
    (hu : e.Usable) : e.trackedEnd ≤ boot.highestMemoryFromE820 := by
  rw [highestMemoryFromE820_eq]
  exact (foldr_max_spec _).1 _ (List.mem_map_of_mem (mem_usableEntries.mpr ⟨he, hu⟩))

/-- The highest end is that of a usable entry, or there is none. -/
theorem highest_attained (boot : BootInfo) : boot.highestMemoryFromE820 = 0 ∨
    ∃ e ∈ boot.entries, e.Usable ∧ boot.highestMemoryFromE820 = e.trackedEnd := by
  rw [highestMemoryFromE820_eq]
  refine (foldr_max_spec _).2.imp_right fun h => ?_
  obtain ⟨e, he, heq⟩ := List.mem_map.mp h
  obtain ⟨hmem, hu⟩ := mem_usableEntries.mp he
  exact ⟨e, hmem, hu, heq.symm⟩

/-- The same of the ends as numbers without bound: none is above the highest. -/
theorem end_le_highestUsableEnd {entries : List E820Entry} {e : E820Entry} (he : e ∈ entries)
    (hu : e.Usable) : e.base + e.length ≤ highestUsableEnd entries :=
  (foldr_max_spec _).1 _ (List.mem_map_of_mem (mem_usableEntries.mpr ⟨he, hu⟩))

/-- And the highest is one of them, or there is none. -/
theorem highestUsableEnd_attained (entries : List E820Entry) : highestUsableEnd entries = 0 ∨
    ∃ e ∈ entries, e.Usable ∧ highestUsableEnd entries = e.base + e.length := by
  refine (foldr_max_spec _).2.imp_right fun h => ?_
  obtain ⟨e, he, heq⟩ := List.mem_map.mp h
  obtain ⟨hmem, hu⟩ := mem_usableEntries.mp he
  exact ⟨e, hmem, hu, heq.symm⟩

/-! ### Tracked memory -/

/-- The number of frames that are tracked. -/
def BootInfo.trackedFrames (boot : BootInfo) : Nat := min (boot.highestMemory / frameSize) maxFrames

/-- The memory that has been detected, in bytes. -/
def BootInfo.detectedMemory (boot : BootInfo) : Nat :=
  if 16 * 1024 * 1024 ≤ highestUsableEnd boot.entries then highestUsableEnd boot.entries
  else boot.totalKb * 1024

/-- The memory map gives the size. -/
abbrev MapGivesSize (entries : List E820Entry) : Prop :=
  entries.isEmpty = false ∧ 16 * 1024 * 1024 ≤ e820GetTotalUsableMemory entries

/-- The size in KiB, from the map or from the CMOS. -/
def detectedKib (cmos : Nat → Byte) (entries : List E820Entry) : Nat :=
  if MapGivesSize entries then e820GetTotalUsableMemory entries / 1024
  else (cmosMemory cmos).totalMemoryKb

/-- The frames are those of the detected memory, and no number has been too large: the KiB that
`memory_init` takes from the map, and the bytes that `frame_init` computes of the KiB. -/
structure TracksDetected (handoff : E820Handoff) (cmos : Nat → Byte) (kernelEnd : Word) : Prop where
  frames : (frameInit (bootInfo handoff cmos kernelEnd)).totalFrames * frameSize =
    min (bootInfo handoff cmos kernelEnd).detectedMemory maxTrackedMemory / frameSize * frameSize
  kib : MapGivesSize (e820Init handoff) → e820GetTotalUsableMemory (e820Init handoff) / 1024 < wordSize
  bytes : (bootInfo handoff cmos kernelEnd).highestMemoryFromE820 < 16 * 1024 * 1024 →
    (bootInfo handoff cmos kernelEnd).totalKb * 1024 < wordSize

/-- The sizes of a machine that the computations hold: the map has less than 4 TiB; without a usable
entry that ends from 16 MiB on, the machine has less than 4 GiB; the usable entries end below `2^64`,
or one of them ends from 512 MiB on after the cut to 64 bits, or none from 16 MiB on where the machine
has 512 MiB. -/
structure SizesFit (cmos : Nat → Byte) (entries : List E820Entry) : Prop where
  map : MapGivesSize entries → e820GetTotalUsableMemory entries < 2 ^ 42
  machine : (∀ e ∈ entries, e.Usable → (e.base + e.length) % 2 ^ 64 < 16 * 1024 * 1024) →
    detectedKib cmos entries < 4 * 1024 * 1024
  ends : (∀ e ∈ entries, e.Usable → e.base + e.length < 2 ^ 64) ∨
    (∃ e ∈ entries, e.Usable ∧ maxTrackedMemory ≤ (e.base + e.length) % 2 ^ 64) ∨
    (∀ e ∈ entries, e.Usable → (e.base + e.length) % 2 ^ 64 < 16 * 1024 * 1024) ∧
      512 * 1024 ≤ detectedKib cmos entries


section

variable {boot : BootInfo}

/-- The scan does not look beyond the tracked memory. -/
theorem highest_le (boot : BootInfo) : boot.highestMemoryFromE820 ≤ maxTrackedMemory := by
  rcases highest_attained boot with h | ⟨e, -, -, h⟩
  · rw [h]
    exact Nat.zero_le _
  · rw [h, e.trackedEnd_eq]
    exact Nat.min_le_right _ _

/-- Where no usable end is past `2^64`, the highest one is found. -/
theorem highest_eq_of_ends (h : ∀ e ∈ boot.entries, e.Usable → e.base + e.length < 2 ^ 64) :
    boot.highestMemoryFromE820 = min (highestUsableEnd boot.entries) maxTrackedMemory := by
  have hend {e : E820Entry} (he : e ∈ boot.entries) (hu : e.Usable) :
      e.trackedEnd = min (e.base + e.length) maxTrackedMemory := by
    rw [e.trackedEnd_eq, Nat.mod_eq_of_lt (h e he hu)]
  apply Nat.le_antisymm
  · rcases highest_attained boot with hz | ⟨e, he, hu, heq⟩
    · rw [hz]
      exact Nat.zero_le _
    · have := end_le_highestUsableEnd he hu
      rw [heq, hend he hu]
      omega
  · rcases highestUsableEnd_attained boot.entries with hz | ⟨e, he, hu, heq⟩
    · rw [hz, Nat.min_eq_left (Nat.zero_le _)]
      exact Nat.zero_le _
    · rw [heq, ← hend he hu]
      exact trackedEnd_le_highest he hu

/-- The map is of a small machine if all usable ends, in `uint64_t`, are below 16 MiB. -/
theorem highest_small_iff : boot.highestMemoryFromE820 < 16 * 1024 * 1024 ↔
    ∀ e ∈ boot.entries, e.Usable → (e.base + e.length) % 2 ^ 64 < 16 * 1024 * 1024 := by
  refine ⟨fun h e he hu => ?_, fun h => ?_⟩
  · have := trackedEnd_le_highest he hu
    rw [e.trackedEnd_eq] at this
    simp only [maxTrackedMemory] at this
    omega
  · rcases highest_attained boot with hz | ⟨e, he, hu, heq⟩
    · omega
    · have := h e he hu
      rw [heq, e.trackedEnd_eq]
      omega

end

/-! ### The frames that are free -/

namespace FrameState

variable {s : FrameState} {f : Nat}

/-- What `mark_allocated` leaves of a frame. -/
theorem markFrames_frame (l : List Nat) (s : FrameState) (f : Nat) :
    (l.foldl markFrameAllocated s).frameBitmap f = (s.frameBitmap f || decide (f ∈ l)) ∧
      (l.foldl markFrameAllocated s).frameRefcounts f =
        if f ∈ l ∧ s.frameRefcounts f = 0 then 1 else s.frameRefcounts f := by
  induction l generalizing s with
  | nil => simp
  | cons g l ih =>
    obtain ⟨hbit, hcount⟩ := ih (s.markFrameAllocated g)
    rw [List.foldl_cons, hbit, hcount]
    have hb : (s.markFrameAllocated g).frameBitmap f = (s.frameBitmap f || decide (f = g)) := by
      show update s.frameBitmap g true f = _
      by_cases hf : f = g
      · subst hf
        simp
      · rw [update_of_ne hf, decide_eq_false hf, Bool.or_false]
    have hc : (s.markFrameAllocated g).frameRefcounts f =
        if f = g ∧ s.frameRefcounts f = 0 then 1 else s.frameRefcounts f := by
      show (if s.frameRefcounts g = 0 then update s.frameRefcounts g 1 else s.frameRefcounts) f = _
      by_cases hf : f = g
      · subst hf
        by_cases hz : s.frameRefcounts f = 0 <;> simp [hz]
      · rw [if_neg fun h : f = g ∧ _ => hf h.1]
        by_cases hz : s.frameRefcounts g = 0
        · rw [if_pos hz, update_of_ne hf]
        · rw [if_neg hz]
    rw [hb, hc]
    refine ⟨by simp [Bool.or_assoc], ?_⟩
    simp only [List.mem_cons]
    by_cases hf : f = g <;> by_cases hz : s.frameRefcounts f = 0 <;> simp [hf, hz]
    all_goals simp_all

/-- Marking frames changes no other field of the allocator. -/
theorem markFrames_kept (l : List Nat) (s : FrameState) :
    (l.foldl markFrameAllocated s).totalFrames = s.totalFrames ∧
      (l.foldl markFrameAllocated s).frameInitialized = s.frameInitialized := by
  induction l generalizing s with
  | nil => exact ⟨rfl, rfl⟩
  | cons f l ih => exact ih (s.markFrameAllocated f)

/-- What `mark_free` leaves of a frame. -/
theorem freeFrames_frame (l : List Nat) (s : FrameState) (f : Nat) :
    (l.foldl markFrameFree s).totalFrames = s.totalFrames ∧
      ((l.foldl markFrameFree s).frameBitmap f = false ↔ s.frameBitmap f = false ∨ f ∈ l) := by
  induction l generalizing s with
  | nil => simp
  | cons g l ih =>
    obtain ⟨htotal, hbit⟩ := ih (s.markFrameFree g)
    have hb : (s.markFrameFree g).frameBitmap f = false ↔ s.frameBitmap f = false ∨ f = g := by
      unfold markFrameFree
      by_cases hg : s.frameBitmap g = true
      · rw [if_pos hg]
        show update s.frameBitmap g false f = false ↔ _
        by_cases hf : f = g
        · subst hf
          simp
        · rw [update_of_ne hf]
          simp [hf]
      · rw [if_neg hg]
        refine ⟨.inl, fun h => h.elim id fun hf => ?_⟩
        rw [hf]
        exact Bool.not_eq_true _ ▸ hg
    rw [List.foldl_cons, htotal, markFrameFree_total, hbit, hb, List.mem_cons, or_assoc]
    exact ⟨rfl, Iff.rfl⟩

/-- Which frames are free after `mark_allocated`. -/
theorem markAllocated_frame (s : FrameState) (a b f : Nat) :
    (s.markAllocated a b).totalFrames = s.totalFrames ∧
      ((s.markAllocated a b).frameBitmap f = false ↔ s.frameBitmap f = false ∧
        ¬ (alignDown a / frameSize ≤ f ∧ f < alignUp b / frameSize ∧ f < s.totalFrames)) := by
  unfold markAllocated
  refine ⟨(markFrames_kept _ s).1, ?_⟩
  rw [(markFrames_frame _ s f).1, Bool.or_eq_false_iff, decide_eq_false_iff_not, mem_frameRange]

/-- Which frames are free after `mark_free`. -/
theorem markFree_frame (s : FrameState) (a b f : Nat) :
    (s.markFree a b).totalFrames = s.totalFrames ∧
      ((s.markFree a b).frameBitmap f = false ↔ s.frameBitmap f = false ∨
        alignUp a / frameSize ≤ f ∧ f < alignDown b / frameSize ∧ f < s.totalFrames) := by
  unfold markFree
  refine ⟨(freeFrames_frame _ s f).1, ?_⟩
  rw [(freeFrames_frame _ s f).2, mem_frameRange]

end FrameState

/-- An entry frees a frame: it is usable, and the frame is between its ends as the loop of `frame_init`
rounds them. -/
def E820Entry.Frees (e : E820Entry) (f : Nat) : Prop :=
  e.Usable ∧ e.base ≤ maxTrackedMemory ∧ alignUp e.base / frameSize ≤ f ∧
    f < alignDown e.trackedEnd / frameSize

/-- The frames that the memory map, if there is one, makes free. -/
def BootInfo.Frees (boot : BootInfo) (f : Nat) : Prop :=
  if boot.e820IsAvailable then ∃ e ∈ boot.entries, e.Frees f else True

open FrameState

/-- Which frames are free after the loop over the map. -/
theorem markUsable_frame (s : FrameState) (boot : BootInfo) (f : Nat) :
    (s.markUsable boot).totalFrames = s.totalFrames ∧
      ((s.markUsable boot).frameBitmap f = false ↔
        s.frameBitmap f = false ∨ f < s.totalFrames ∧ boot.Frees f) := by
  unfold FrameState.markUsable BootInfo.Frees
  split
  · induction boot.entries generalizing s with
    | nil => exact ⟨rfl, by simp⟩
    | cons e entries ih =>
      rw [List.foldl_cons]
      have hstep : (if e.type ≠ e820Usable ∨ maxTrackedMemory < e.base then s
            else s.markFree e.base e.trackedEnd).totalFrames = s.totalFrames ∧
          ((if e.type ≠ e820Usable ∨ maxTrackedMemory < e.base then s
            else s.markFree e.base e.trackedEnd).frameBitmap f = false ↔
            s.frameBitmap f = false ∨ f < s.totalFrames ∧ e.Frees f) := by
        unfold E820Entry.Frees
        split
        · rename_i hskip
          refine ⟨rfl, .inl, fun h => h.elim id ?_⟩
          rintro ⟨-, hu, hb, -⟩
          exact hskip.elim (fun h => absurd hu h) fun h => absurd hb (Nat.not_le.mpr h)
        · rename_i hused
          rw [not_or, not_not, Nat.not_lt] at hused
          obtain ⟨htotal, hbit⟩ := s.markFree_frame e.base e.trackedEnd f
          rw [htotal, hbit]
          refine ⟨rfl, or_congr_right ⟨fun ⟨h1, h2, h3⟩ => ⟨h3, hused.1, hused.2, h1, h2⟩, ?_⟩⟩
          rintro ⟨h3, -, -, h1, h2⟩
          exact ⟨h1, h2, h3⟩
      generalize (if e.type ≠ e820Usable ∨ maxTrackedMemory < e.base then s
        else s.markFree e.base e.trackedEnd) = s' at hstep
      obtain ⟨htotal, hbit⟩ := ih s'
      rw [htotal, hbit, hstep.1, hstep.2]
      refine ⟨rfl, ?_⟩
      simp only [List.mem_cons, exists_eq_or_imp]
      tauto
  · obtain ⟨htotal, hbit⟩ := s.markFree_frame 0 (s.totalFrames * frameSize) f
    refine ⟨htotal, hbit.trans (or_congr_right ?_)⟩
    have hdown : alignDown (s.totalFrames * frameSize) / frameSize = s.totalFrames := by
      unfold alignDown
      simp only [frameSize]
      omega
    have hup : alignUp 0 / frameSize = 0 := by decide
    rw [hdown, hup]
    simp

/-- The end of the kernel image, rounded up to a page. -/
def BootInfo.kernelLimit (boot : BootInfo) : Nat := alignUp boot.kernelEnd

/-- What is aligned stays as it is. -/
theorem alignUp_alignUp (n : Nat) : alignUp (alignUp n) = alignUp n := by
  unfold alignUp
  simp only [frameSize, wordSize]
  omega

/-- **What is free after `frame_init`**: the tracked frames from `RESERVED_LOW_END` on and above the
kernel image that the memory map frees. -/
theorem frameInit_free_iff (boot : BootInfo) (f : Nat) :
    (frameInit boot).totalFrames = boot.trackedFrames ∧
      ((frameInit boot).frameBitmap f = false ↔
        f < boot.trackedFrames ∧ firstFrame ≤ f ∧ boot.kernelLimit ≤ f * frameSize ∧ boot.Frees f) := by
  have htracked : (if maxFrames < boot.highestMemory / frameSize then maxFrames
      else boot.highestMemory / frameSize) = boot.trackedFrames := by
    unfold BootInfo.trackedFrames
    split <;> omega
  unfold frameInit
  dsimp only
  rw [htracked]
  generalize hs : ({ frameBitmap := fun _ => true
                     frameRefcounts := fun i => if i < boot.trackedFrames then 1 else 0
                     totalFrames := boot.trackedFrames
                     usedFrames := boot.trackedFrames
                     frameInitialized := false } : FrameState) = s
  have htotal : s.totalFrames = boot.trackedFrames := by rw [← hs]
  have hfull : s.frameBitmap f ≠ false := by
    rw [← hs]
    nofun
  obtain ⟨h0, b0⟩ := markUsable_frame s boot f
  generalize s.markUsable boot = s₀ at h0 b0
  obtain ⟨h1, b1⟩ := s₀.markAllocated_frame 0 reservedLowEnd f
  generalize s₀.markAllocated 0 reservedLowEnd = s₁ at h1 b1
  obtain ⟨h2, b2⟩ := s₁.markAllocated_frame 0x00080000 0x00081000 f
  generalize s₁.markAllocated 0x00080000 0x00081000 = s₂ at h2 b2
  obtain ⟨h3, b3⟩ := s₂.markAllocated_frame 0x00100000 0x00102000 f
  generalize s₂.markAllocated 0x00100000 0x00102000 = s₃ at h3 b3
  obtain ⟨h4, b4⟩ := s₃.markAllocated_frame 0x00200000 0x00300000 f
  generalize s₃.markAllocated 0x00200000 0x00300000 = s₄ at h4 b4
  obtain ⟨h5, b5⟩ := s₄.markAllocated_frame 0x00001000 (alignUp boot.kernelEnd) f
  rw [alignUp_alignUp] at b5
  rw [h0, htotal] at h1
  rw [h1] at h2
  rw [h2] at h3
  rw [h3] at h4
  rw [h4] at h5
  refine ⟨h5, ?_⟩
  rw [b5, b4, b3, b2, b1, b0, h0, h1, h2, h3, h4, htotal]
  have c1 : alignDown 0 / frameSize = 0 ∧ alignUp reservedLowEnd / frameSize = 768 := by decide
  have c2 : alignUp 0x00081000 / frameSize = 0x81 ∧ alignUp 0x00102000 / frameSize = 0x102 ∧
      alignDown 0x00001000 / frameSize = 1 := by decide
  rw [c1.1, c1.2, c2.1, c2.2.1, c2.2.2]
  have hlimit : f < alignUp boot.kernelEnd / frameSize ↔ ¬ boot.kernelLimit ≤ f * frameSize := by
    unfold BootInfo.kernelLimit alignUp
    simp only [frameSize]
    omega
  rw [hlimit]
  simp only [firstFrame]
  constructor
  · rintro ⟨⟨⟨⟨⟨h | ⟨hf, hfrees⟩, n1⟩, -⟩, -⟩, -⟩, n5⟩
    · exact absurd h hfull
    · refine ⟨hf, by omega, ?_, hfrees⟩
      by_contra hk
      exact n5 ⟨by omega, hk, hf⟩
  · rintro ⟨hf, hlow, hk, hfrees⟩
    exact ⟨⟨⟨⟨⟨.inr ⟨hf, hfrees⟩, by omega⟩, by omega⟩, by omega⟩, by omega⟩, fun h => h.2.1 hk⟩

/-! ### Tracked is what has been detected -/

/-- The size in KiB that `memory_init` hands on is the detected one, if it fits. -/
theorem totalKb_eq {handoff : E820Handoff} {cmos : Nat → Byte} {kernelEnd : Word}
    (h : MapGivesSize (e820Init handoff) → e820GetTotalUsableMemory (e820Init handoff) < 2 ^ 42) :
    (bootInfo handoff cmos kernelEnd).totalKb = detectedKib cmos (e820Init handoff) := by
  show (memoryInit cmos (e820Init handoff)).totalMemoryKb = _
  have hinit : memoryInit cmos (e820Init handoff) = if MapGivesSize (e820Init handoff) then
      ⟨e820GetTotalUsableMemory (e820Init handoff) / 1024 % wordSize, true⟩ else cmosMemory cmos := rfl
  rw [hinit]
  unfold detectedKib
  by_cases hm : MapGivesSize (e820Init handoff)
  · have := h hm
    rw [if_pos hm, if_pos hm]
    refine Nat.mod_eq_of_lt ?_
    simp only [wordSize]
    omega
  · rw [if_neg hm, if_neg hm]

/-- What `frame_init` takes for the size of memory. -/
theorem highestMemory_eq (boot : BootInfo) : boot.highestMemory =
    if boot.highestMemoryFromE820 < 16 * 1024 * 1024 then
      min (boot.totalKb * 1024 % wordSize) maxTrackedMemory
    else boot.highestMemoryFromE820 := by
  unfold BootInfo.highestMemory
  dsimp only
  generalize boot.totalKb * 1024 % wordSize = bytes
  split
  · split <;> omega
  · rfl

/-- The tracked frames are the whole frames of it. -/
theorem trackedFrames_eq (boot : BootInfo) :
    boot.trackedFrames * frameSize = boot.highestMemory / frameSize * frameSize := by
  have hle : boot.highestMemory ≤ maxTrackedMemory := by
    rw [highestMemory_eq]
    have := highest_le boot
    split
    · exact Nat.min_le_right _ _
    · exact this
  unfold BootInfo.trackedFrames
  rw [Nat.min_eq_left]
  simp only [maxTrackedMemory, frameSize, maxFrames] at hle ⊢
  omega

/-- **Tracked memory is detected memory** exactly where the sizes fit. -/
theorem tracked_follows_detected_iff (handoff : E820Handoff) (cmos : Nat → Byte) (kernelEnd : Word) :
    TracksDetected handoff cmos kernelEnd ↔ SizesFit cmos (e820Init handoff) := by
  have hsmall : (bootInfo handoff cmos kernelEnd).highestMemoryFromE820 < 16 * 1024 * 1024 ↔
      ∀ e ∈ e820Init handoff, e.Usable → (e.base + e.length) % 2 ^ 64 < 16 * 1024 * 1024 :=
    highest_small_iff
  have hkb := @totalKb_eq handoff cmos kernelEnd
  have hentries : (bootInfo handoff cmos kernelEnd).entries = e820Init handoff := rfl
  generalize hboot : bootInfo handoff cmos kernelEnd = boot at hsmall hkb hentries
  have hframes : (frameInit boot).totalFrames * frameSize = boot.highestMemory / frameSize * frameSize := by
    rw [(frameInit_free_iff boot 0).1, trackedFrames_eq]
  rw [highestMemory_eq] at hframes
  have htop := highest_le boot
  have hdetected : boot.detectedMemory = if 16 * 1024 * 1024 ≤ highestUsableEnd (e820Init handoff) then
      highestUsableEnd (e820Init handoff) else boot.totalKb * 1024 := by
    unfold BootInfo.detectedMemory
    rw [hentries]
  simp only [maxTrackedMemory, frameSize, wordSize] at hframes htop
  constructor
  · rintro ⟨heq, hkib, hbytes⟩
    rw [hboot] at heq hbytes
    rw [hframes, hdetected] at heq
    simp only [maxTrackedMemory, frameSize, wordSize] at heq hkib hbytes
    have hmap : MapGivesSize (e820Init handoff) →
        e820GetTotalUsableMemory (e820Init handoff) < 2 ^ 42 := fun h => by
      have := hkib h
      omega
    suffices hfit : (boot.highestMemoryFromE820 < 16 * 1024 * 1024 → boot.totalKb < 4 * 1024 * 1024) ∧
        ((∀ e ∈ e820Init handoff, e.Usable → e.base + e.length < 2 ^ 64) ∨
          (∃ e ∈ e820Init handoff, e.Usable ∧ maxTrackedMemory ≤ (e.base + e.length) % 2 ^ 64) ∨
          boot.highestMemoryFromE820 < 16 * 1024 * 1024 ∧ 512 * 1024 ≤ boot.totalKb) by
      rw [hsmall, hkb hmap] at hfit
      exact ⟨hmap, hfit.1, hfit.2⟩
    refine ⟨fun h => ?_, ?_⟩
    · have := hbytes h
      omega
    by_cases hends : ∀ e ∈ e820Init handoff, e.Usable → e.base + e.length < 2 ^ 64
    · exact .inl hends
    -- an entry is past 2^64: all of the tracked memory has been detected
    push Not at hends
    obtain ⟨e, he, hu, hpast⟩ := hends
    have hend := end_le_highestUsableEnd he hu
    have hbig : 16 * 1024 * 1024 ≤ highestUsableEnd (e820Init handoff) := by omega
    rw [if_pos hbig] at heq
    by_cases hlow : boot.highestMemoryFromE820 < 16 * 1024 * 1024
    · refine .inr (.inr ⟨hlow, ?_⟩)
      have := hbytes hlow
      rw [if_pos hlow] at heq
      omega
    · rw [if_neg hlow] at heq
      rcases highest_attained boot with hz | ⟨e', he', hu', heq'⟩
      · omega
      · refine .inr (.inl ⟨e', hentries ▸ he', hu', ?_⟩)
        rw [e'.trackedEnd_eq] at heq'
        simp only [maxTrackedMemory] at heq' ⊢
        omega
  · rintro ⟨hmap, hmachine, hends⟩
    rw [← hsmall, ← hkb hmap] at hmachine
    rw [← hsmall, ← hkb hmap] at hends
    refine ⟨?_, fun h => ?_, fun h => ?_⟩
    · rw [hboot, hframes, hdetected]
      simp only [maxTrackedMemory, frameSize]
      rcases hends with hends | ⟨e, he, hu, hpast⟩ | ⟨hlow, hkib⟩
      · -- the highest end is found
        have hfound := @highest_eq_of_ends boot (hentries ▸ hends)
        rw [hentries] at hfound
        simp only [maxTrackedMemory] at hfound
        by_cases hlow : boot.highestMemoryFromE820 < 16 * 1024 * 1024
        · have := hmachine hlow
          have hbig : ¬ 16 * 1024 * 1024 ≤ highestUsableEnd (e820Init handoff) := by omega
          rw [if_pos hlow, if_neg hbig, Nat.mod_eq_of_lt (by omega)]
        · have hbig : 16 * 1024 * 1024 ≤ highestUsableEnd (e820Init handoff) := by omega
          rw [if_neg hlow, if_pos hbig, hfound]
      · -- an entry reaches the limit of the tracked memory
        have hend := end_le_highestUsableEnd he hu
        have hreach := @trackedEnd_le_highest boot e (hentries ▸ he) hu
        rw [e.trackedEnd_eq] at hreach
        have hmod := Nat.mod_le (e.base + e.length) (2 ^ 64)
        simp only [maxTrackedMemory] at hpast hreach
        have hlow : ¬ boot.highestMemoryFromE820 < 16 * 1024 * 1024 := by omega
        have hbig : 16 * 1024 * 1024 ≤ highestUsableEnd (e820Init handoff) := by omega
        rw [if_neg hlow, if_pos hbig, Nat.min_eq_right (by omega),
          Nat.le_antisymm htop (by omega)]
      · -- the map gives no end, and the machine has more than is tracked
        have := hmachine hlow
        rw [if_pos hlow, Nat.mod_eq_of_lt (by omega)]
        by_cases hbig : 16 * 1024 * 1024 ≤ highestUsableEnd (e820Init handoff)
        · rcases highestUsableEnd_attained (e820Init handoff) with hz | ⟨e, he, hu, heq⟩
          · rw [hz] at hbig
            exact absurd hbig (by decide)
          · have := hsmall.mp hlow e he hu
            rw [if_pos hbig, Nat.min_eq_right (by omega), Nat.min_eq_right (by omega)]
        · rw [if_neg hbig]
    · have hlt := hmap h
      exact Nat.div_lt_of_lt_mul hlt
    · rw [hboot] at h ⊢
      have hlt := hmachine h
      exact Nat.mul_lt_mul_of_pos_right hlt (by decide)

/-- A machine without a memory map, whose CMOS counts the blocks of 64 KiB above 16 MiB up to 4 GiB. -/
def fourGib : Nat → Byte := fun reg => if reg = 0x35 then 0xFF else 0

/-- The bytes of 4 GiB do not fit: no frame is tracked. -/
theorem four_gib_untracked :
    ¬ ∀ (handoff : E820Handoff) (cmos : Nat → Byte) (kernelEnd : Word),
      TracksDetected handoff cmos kernelEnd := by
  intro h
  have hfit := (tracked_follows_detected_iff ⟨0, 0, fun _ => ⟨0, 0, 0⟩⟩ fourGib 0).mp (h _ _ _)
  have hkib := hfit.machine fun e he => nomatch he
  revert hkib
  decide

end AgenticOs
