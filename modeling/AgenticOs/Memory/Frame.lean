import AgenticOs.Types
import AgenticOs.Lib.Bits
import Mathlib.Logic.Function.Basic

/-!
# `kernel/frame.c`

The physical-frame allocator: a bitmap, a 16-bit reference count a frame, and the number of frames in use.
Frames are numbered; an address enters and leaves as a 32-bit word.

* **Calls**: `frame_alloc` and `frame_alloc_below` (`frameAllocBelow`, the lowest free frame of a range),
  `frame_retain`, `frame_release`, `frame_free`, `frame_reserve_range` and the queries that the kernel uses. A
  word that is no frame address, or the address of a frame that is not tracked, is refused as in the source.
* **Start** (`frameInit`): how many frames are tracked, and which of them are free, by the memory map when
  there is one and by the size of memory otherwise. The arithmetic on 64-bit ends wraps where the source's
  does.
* **Loops**: `mark_allocated` and `mark_free` are folds over the frame numbers of a range, cut at
  `total_frames`.

The self-test builds have a hook that makes the allocator fail after a given number of calls
(`frame_test_fail_after`); the model is the build without it.
-/

namespace AgenticOs

open Function Lib

/-- Source: `frame.h` `FRAME_SIZE` -/
abbrev frameSize : Nat := 4096
/-- Source: `frame.c` `MAX_TRACKED_MEMORY` -/
abbrev maxTrackedMemory : Nat := 0x20000000
/-- Source: `frame.c` `MAX_FRAMES` -/
abbrev maxFrames : Nat := 131072
/-- Source: `frame.c` `RESERVED_LOW_END` -/
abbrev reservedLowEnd : Nat := 0x00300000
/-- The first frame the allocator hands out: `RESERVED_LOW_END / FRAME_SIZE`. -/
abbrev firstFrame : Nat := 768

/-- The static variables of `frame.c`. -/
structure FrameState where
  frameBitmap : Nat → Bool
  frameRefcounts : Nat → Nat
  totalFrames : Nat
  usedFrames : Nat
  frameInitialized : Bool

/-- The frame address a frame number stands for. -/
def frameAddr (frame : Nat) : Word := BitVec.ofNat 32 (frame * frameSize)

/-- Source: `frame.c` `align_down` -/
def alignDown (value : Nat) : Nat := value / frameSize * frameSize

/-- Source: `frame.c` `align_up` -/
def alignUp (value : Nat) : Nat := (value + frameSize - 1) % wordSize / frameSize * frameSize

namespace FrameState

/-- The loop body of `mark_allocated`. -/
def markFrameAllocated (s : FrameState) (frame : Nat) : FrameState where
  frameBitmap := update s.frameBitmap frame true
  frameRefcounts :=
    if s.frameRefcounts frame = 0 then update s.frameRefcounts frame 1 else s.frameRefcounts
  totalFrames := s.totalFrames
  usedFrames := if s.frameBitmap frame then s.usedFrames else s.usedFrames + 1
  frameInitialized := s.frameInitialized

/-- The loop body of `mark_free`. -/
def markFrameFree (s : FrameState) (frame : Nat) : FrameState :=
  if s.frameBitmap frame then
    { s with
      frameBitmap := update s.frameBitmap frame false
      usedFrames := s.usedFrames - 1
      frameRefcounts := update s.frameRefcounts frame 0 }
  else s

/-- The frame numbers of `[start, end)` below `total_frames`. -/
def frameRange (s : FrameState) (start stop : Nat) : List Nat :=
  List.range' start (min stop s.totalFrames - start)

/-- Source: `frame.c` `mark_allocated` -/
def markAllocated (s : FrameState) (startAddr endAddr : Nat) : FrameState :=
  (s.frameRange (alignDown startAddr / frameSize) (alignUp endAddr / frameSize)).foldl
    markFrameAllocated s

/-- Source: `frame.c` `mark_free` -/
def markFree (s : FrameState) (startAddr endAddr : Nat) : FrameState :=
  (s.frameRange (alignUp startAddr / frameSize) (alignDown endAddr / frameSize)).foldl
    markFrameFree s

/-- The scan of `frame_alloc_below`: the first free frame of `[RESERVED_LOW_END, limit)`. -/
def findFree (s : FrameState) (limit : Nat) : Option Nat :=
  (s.frameRange (reservedLowEnd / frameSize) (limit / frameSize)).find? fun frame =>
    !s.frameBitmap frame

/-- Source: `frame.c` `frame_alloc_below` -/
def frameAllocBelow (s : FrameState) (limit : Nat) : Word × FrameState :=
  if !s.frameInitialized || limit == 0 then (0, s)
  else
    match s.findFree limit with
    | none => (0, s)
    | some frame =>
      (frameAddr frame,
        { s with
          frameBitmap := update s.frameBitmap frame true
          usedFrames := s.usedFrames + 1
          frameRefcounts := update s.frameRefcounts frame 1 })

/-- Source: `frame.c` `frame_alloc` -/
def frameAlloc (s : FrameState) : Word × FrameState :=
  s.frameAllocBelow (s.totalFrames * frameSize)

/-- Source: `frame.c` `frame_retain` -/
def frameRetain (s : FrameState) (physAddr : Word) : Bool × FrameState :=
  let frame := physAddr.toNat / frameSize
  if !s.frameInitialized || physAddr.toNat % frameSize != 0 then (false, s)
  else if decide (s.totalFrames ≤ frame) || !s.frameBitmap frame ||
      s.frameRefcounts frame == 0 || s.frameRefcounts frame == 0xFFFF then (false, s)
  else
    (true, { s with frameRefcounts := update s.frameRefcounts frame (s.frameRefcounts frame + 1) })

/-- Source: `frame.c` `frame_release` -/
def frameRelease (s : FrameState) (physAddr : Word) : Bool × FrameState :=
  let frame := physAddr.toNat / frameSize
  if !s.frameInitialized || physAddr.toNat % frameSize != 0 then (false, s)
  else if decide (s.totalFrames ≤ frame) || !s.frameBitmap frame ||
      s.frameRefcounts frame == 0 then (false, s)
  else if physAddr.toNat < reservedLowEnd then
    -- the frames of the kernel image keep their last reference
    if s.frameRefcounts frame ≤ 1 then (false, s)
    else
      (true,
        { s with frameRefcounts := update s.frameRefcounts frame (s.frameRefcounts frame - 1) })
  else
    let s' := { s with frameRefcounts := update s.frameRefcounts frame (s.frameRefcounts frame - 1) }
    if s.frameRefcounts frame - 1 = 0 then
      (true,
        { s' with
          frameBitmap := update s.frameBitmap frame false
          usedFrames := s.usedFrames - 1 })
    else (true, s')

/-- Source: `frame.c` `frame_free` -/
def frameFree (s : FrameState) (physAddr : Word) : FrameState := (s.frameRelease physAddr).2

/-- Source: `frame.c` `frame_reserve_range` -/
def frameReserveRange (s : FrameState) (startAddr endAddr : Nat) : Bool × FrameState :=
  if !s.frameInitialized || decide (endAddr ≤ startAddr) then (false, s)
  else
    let maxAddr := s.totalFrames * frameSize
    if maxAddr ≤ startAddr then (false, s)
    else (true, s.markAllocated startAddr (min endAddr maxAddr))

/-- Source: `frame.c` `frame_is_allocated` -/
def frameIsAllocated (s : FrameState) (physAddr : Word) : Bool :=
  let frame := physAddr.toNat / frameSize
  if !s.frameInitialized || decide (s.totalFrames ≤ frame) then true else s.frameBitmap frame

/-- Source: `frame.c` `frame_get_refcount` -/
def frameGetRefcount (s : FrameState) (physAddr : Word) : Nat :=
  let frame := physAddr.toNat / frameSize
  if !s.frameInitialized || physAddr.toNat % frameSize != 0 ||
      decide (s.totalFrames ≤ frame) || !s.frameBitmap frame then 0
  else s.frameRefcounts frame

/-- Source: `frame.c` `frame_get_free_count` -/
def frameGetFreeCount (s : FrameState) : Nat :=
  if s.totalFrames < s.usedFrames then 0 else s.totalFrames - s.usedFrames

end FrameState

/-! ## The memory map -/

/-- Source: `e820.h` `struct e820_entry` -/
structure E820Entry where
  base : Nat
  length : Nat
  type : Nat

/-- Source: `e820.h` `E820_USABLE` -/
abbrev e820Usable : Nat := 1

/-- What the boot code hands to `frame_init`: the memory map (`e820_get_map`, available when it has
an entry), `memory_get_total_kb` and the address of `__kernel_end`. -/
structure BootInfo where
  entries : List E820Entry
  totalKb : Nat
  kernelEnd : Nat

/-- `base + length` in `uint64_t`, cut to the tracked memory.
Source: `frame.c` `highest_memory_from_e820`, `frame_init` -/
def E820Entry.trackedEnd (e : E820Entry) : Nat :=
  let end64 := (e.base + e.length) % 2 ^ 64
  if maxTrackedMemory < end64 then maxTrackedMemory else end64

namespace BootInfo

/-- Source: `e820.c` `e820_is_available` -/
def e820IsAvailable (boot : BootInfo) : Bool := !boot.entries.isEmpty

/-- Source: `frame.c` `highest_memory_from_e820` -/
def highestMemoryFromE820 (boot : BootInfo) : Nat :=
  boot.entries.foldl
    (fun highest e =>
      if e.type ≠ e820Usable then highest
      else if highest < e.trackedEnd then e.trackedEnd else highest) 0

/-- `highest` of `frame_init`: the memory map's, or the detected size for a small one. -/
def highestMemory (boot : BootInfo) : Nat :=
  let highest := boot.highestMemoryFromE820
  if highest < 16 * 1024 * 1024 then
    let highest := boot.totalKb * 1024 % wordSize
    if maxTrackedMemory < highest then maxTrackedMemory else highest
  else highest

end BootInfo

/-- The part of `frame_init` that frees what the memory map calls usable. -/
def FrameState.markUsable (s : FrameState) (boot : BootInfo) : FrameState :=
  if boot.e820IsAvailable then
    boot.entries.foldl
      (fun s e =>
        if e.type ≠ e820Usable ∨ maxTrackedMemory < e.base then s
        else s.markFree e.base e.trackedEnd) s
  else s.markFree 0 (s.totalFrames * frameSize)

/-- Source: `frame.c` `frame_init` -/
def frameInit (boot : BootInfo) : FrameState :=
  let total := boot.highestMemory / frameSize
  let totalFrames := if maxFrames < total then maxFrames else total
  let s : FrameState :=
    { frameBitmap := fun _ => true
      frameRefcounts := fun i => if i < totalFrames then 1 else 0
      totalFrames := totalFrames
      usedFrames := totalFrames
      frameInitialized := false }
  let s := s.markUsable boot
  let s := s.markAllocated 0 reservedLowEnd
  let s := s.markAllocated 0x00080000 0x00081000
  let s := s.markAllocated 0x00100000 0x00102000
  let s := s.markAllocated 0x00200000 0x00300000
  let s := s.markAllocated 0x00001000 (alignUp boot.kernelEnd)
  { s with frameInitialized := true }

end AgenticOs
