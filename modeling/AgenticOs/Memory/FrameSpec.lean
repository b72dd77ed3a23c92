import AgenticOs.Memory.Frame
import AgenticOs.Lib.Ledger

/-!
# What the frame allocator does

`FrameState.Counted`: a frame below `total_frames` is marked in the bitmap exactly when its reference count is
positive, and `used_frames` is the number of marked frames. `frame_init` establishes it (`frameInit_counted`),
and so does every call.

* **Moves**: a call to the allocator is one of three moves on one frame, or nothing. `FrameState.take` marks a
  free frame with count one, `addRef` adds a reference, `dropRef` drops one and frees the frame with the last.
  Each keeps `Counted` (`Counted.take`, `Counted.addRef`, `Counted.dropRef`).
* **Calls**: `frameAllocBelow_cases` (an allocation takes a free frame, or there is none below the limit),
  `frameRetain_eq` (a full count is not increased), `frameRelease_eq`, `frameGetRefcount_eq`. Callers use
  these specs and never unfold the allocator.
* **Addresses** (`frameAddr_facts`): the address of a frame is aligned, and is not 0 for a frame that can be
  handed out.
-/

namespace AgenticOs

open Function Finset Lib

namespace FrameState

/-- Which frames are in use, as a ledger with the one resource `()`. -/
def inUse (s : FrameState) (frame : Nat) : Option Unit :=
  if s.frameBitmap frame then some () else none

/-- Bitmap, reference counts and `used_frames` agree. -/
structure Counted (s : FrameState) : Prop where
  total_le : s.totalFrames ≤ maxFrames
  used_eq : s.usedFrames = holders (range s.totalFrames) s.inUse ()
  live_iff : ∀ f < s.totalFrames, s.frameBitmap f = true ↔ 0 < s.frameRefcounts f
  small : ∀ f, s.frameRefcounts f ≤ 0xFFFF

/-- A free frame becomes one with a single reference. -/
def take (s : FrameState) (f : Nat) : FrameState where
  frameBitmap := update s.frameBitmap f true
  frameRefcounts := update s.frameRefcounts f 1
  totalFrames := s.totalFrames
  usedFrames := s.usedFrames + 1
  frameInitialized := s.frameInitialized

/-- One more reference to a frame. -/
def addRef (s : FrameState) (f : Nat) : FrameState :=
  { s with frameRefcounts := update s.frameRefcounts f (s.frameRefcounts f + 1) }

/-- One reference less; the last one frees the frame. -/
def dropRef (s : FrameState) (f : Nat) : FrameState where
  frameBitmap :=
    if s.frameRefcounts f - 1 = 0 then update s.frameBitmap f false else s.frameBitmap
  frameRefcounts := update s.frameRefcounts f (s.frameRefcounts f - 1)
  totalFrames := s.totalFrames
  usedFrames := if s.frameRefcounts f - 1 = 0 then s.usedFrames - 1 else s.usedFrames
  frameInitialized := s.frameInitialized

variable {s : FrameState} {f g : Nat}

/-- Nor does a reference less. -/
@[simp] theorem take_total : (s.take f).totalFrames = s.totalFrames := rfl
@[simp] theorem addRef_total : (s.addRef f).totalFrames = s.totalFrames := rfl
@[simp] theorem dropRef_total : (s.dropRef f).totalFrames = s.totalFrames := rfl
@[simp] theorem take_initialized : (s.take f).frameInitialized = s.frameInitialized := rfl
@[simp] theorem addRef_initialized : (s.addRef f).frameInitialized = s.frameInitialized := rfl
@[simp] theorem dropRef_initialized : (s.dropRef f).frameInitialized = s.frameInitialized := rfl

/-! ### Reference counts after a move -/

/-- A frame that is taken has one reference. -/
theorem take_refcount (h : s.frameRefcounts f = 0) (g : Nat) :
    (s.take f).frameRefcounts g = s.frameRefcounts g + if f = g then 1 else 0 := by
  show update s.frameRefcounts f 1 g = _
  by_cases hg : f = g
  · subst hg; simp [h]
  · rw [update_of_ne (Ne.symm hg), if_neg hg, Nat.add_zero]

/-- One more reference to a frame. -/
theorem addRef_refcount (g : Nat) :
    (s.addRef f).frameRefcounts g = s.frameRefcounts g + if f = g then 1 else 0 := by
  show update s.frameRefcounts f (s.frameRefcounts f + 1) g = _
  by_cases hg : f = g
  · subst hg; simp
  · rw [update_of_ne (Ne.symm hg), if_neg hg, Nat.add_zero]

/-- One reference less, if there is one. -/
theorem dropRef_refcount (h : 0 < s.frameRefcounts f) (g : Nat) :
    (s.dropRef f).frameRefcounts g + (if f = g then 1 else 0) = s.frameRefcounts g := by
  show update s.frameRefcounts f (s.frameRefcounts f - 1) g + _ = _
  by_cases hg : f = g
  · subst hg; simp only [update_self, if_true]; omega
  · rw [update_of_ne (Ne.symm hg), if_neg hg, Nat.add_zero]

/-- Taking a frame marks no other. -/
theorem take_bitmap_of_ne (h : g ≠ f) : (s.take f).frameBitmap g = s.frameBitmap g :=
  update_of_ne h _ _

/-- Giving up a reference frees no other frame. -/
theorem dropRef_bitmap_of_ne (h : g ≠ f) : (s.dropRef f).frameBitmap g = s.frameBitmap g := by
  unfold dropRef
  dsimp only
  split
  · exact update_of_ne h _ _
  · rfl

/-! ### `Counted` is kept -/

/-- Marking a frame, or not, is an update of the ledger. -/
theorem inUse_update (b : Bool) :
    ({ s with frameBitmap := update s.frameBitmap f b } : FrameState).inUse =
      update s.inUse f (if b then some () else none) := by
  funext x
  unfold inUse
  by_cases hx : x = f
  · subst hx; simp
  · simp [update_of_ne hx]

/-- Taking a frame fills its slot of the ledger. -/
theorem inUse_take : (s.take f).inUse = update s.inUse f (some ()) := inUse_update true

/-- A free frame is taken. -/
theorem Counted.take (h : s.Counted) (hf : f < s.totalFrames) (hfree : s.frameBitmap f = false) :
    (s.take f).Counted where
  total_le := h.total_le
  used_eq := by
    show s.usedFrames + 1 = holders (range s.totalFrames) (s.take f).inUse ()
    rw [inUse_take, holders_acquire (mem_range.mpr hf) (by simp [inUse, hfree]), ← h.used_eq]
    simp
  live_iff := by
    intro g hg
    by_cases hgf : g = f
    · subst hgf; simp [FrameState.take]
    · simpa [FrameState.take, hgf] using h.live_iff g hg
  small := by
    intro g
    show update s.frameRefcounts f 1 g ≤ _
    by_cases hgf : g = f
    · subst hgf; simp
    · rw [update_of_ne hgf]; exact h.small g

/-- A reference is added, if there is room in the count. -/
theorem Counted.addRef (h : s.Counted) (hf : 0 < s.frameRefcounts f)
    (hmax : s.frameRefcounts f ≠ 0xFFFF) : (s.addRef f).Counted where
  total_le := h.total_le
  used_eq := h.used_eq
  live_iff := by
    intro g hg
    rw [addRef_refcount]
    show s.frameBitmap g = true ↔ _
    rw [h.live_iff g hg]
    by_cases hgf : f = g
    · subst hgf; simp [hf]
    · simp [hgf]
  small := by
    intro g
    rw [addRef_refcount]
    have := h.small g
    by_cases hgf : f = g
    · subst hgf; simp only [if_true]; omega
    · simpa [hgf] using this

/-- A reference is given up. -/
theorem Counted.dropRef (h : s.Counted) (hf : f < s.totalFrames) (hpos : 0 < s.frameRefcounts f) :
    (s.dropRef f).Counted where
  total_le := h.total_le
  used_eq := by
    by_cases hlast : s.frameRefcounts f - 1 = 0
    · have hin : s.inUse f = some () := by simp [inUse, (h.live_iff f hf).mpr hpos]
      have hrel := holders_release (l := ()) (mem_range.mpr hf) hin
      have hset : (s.dropRef f).inUse = update s.inUse f none := by
        unfold FrameState.dropRef
        simp only [hlast, if_true]
        exact inUse_update false
      have hused : (s.dropRef f).usedFrames = s.usedFrames - 1 := by
        simp [FrameState.dropRef, hlast]
      rw [hset, hused, h.used_eq, dropRef_total]
      simp only [if_true] at hrel
      omega
    · have hset : (s.dropRef f).inUse = s.inUse := by
        funext x; simp [FrameState.dropRef, inUse, hlast]
      have hused : (s.dropRef f).usedFrames = s.usedFrames := by
        simp [FrameState.dropRef, hlast]
      rw [hset, hused, h.used_eq, dropRef_total]
  live_iff := by
    intro g hg
    have hrc := dropRef_refcount hpos g
    by_cases hgf : f = g
    · subst hgf
      simp only [if_true] at hrc
      by_cases hlast : s.frameRefcounts f - 1 = 0
      · have : (s.dropRef f).frameBitmap f = false := by simp [FrameState.dropRef, hlast]
        rw [this]; simp; omega
      · have : (s.dropRef f).frameBitmap f = s.frameBitmap f := by simp [FrameState.dropRef, hlast]
        rw [this, (h.live_iff f hf).mpr hpos]; simp; omega
    · rw [dropRef_bitmap_of_ne (Ne.symm hgf), h.live_iff g hg]
      simp only [hgf, if_false] at hrc
      omega
  small := by
    intro g
    have hrc := dropRef_refcount hpos g
    have := h.small g
    omega

/-! ### The calls -/

/-- Every index of the scanned range. -/
theorem mem_frameRange {start stop : Nat} :
    f ∈ s.frameRange start stop ↔ start ≤ f ∧ f < stop ∧ f < s.totalFrames := by
  unfold frameRange
  rw [List.mem_range'_1]
  omega

/-- `frame_alloc_below` fails, and then no frame below the limit is free, or takes a free one. -/
theorem frameAllocBelow_cases (s : FrameState) (limit : Nat) :
    (s.frameAllocBelow limit = (0, s) ∧
      (s.frameInitialized = true → ∀ f, firstFrame ≤ f → f < limit / frameSize →
        f < s.totalFrames → s.frameBitmap f = true)) ∨
    ∃ f, firstFrame ≤ f ∧ f < limit / frameSize ∧ f < s.totalFrames ∧ s.frameBitmap f = false ∧
      s.frameInitialized = true ∧ s.frameAllocBelow limit = (frameAddr f, s.take f) := by
  unfold frameAllocBelow
  by_cases hinit : (!s.frameInitialized || limit == 0) = true
  · rw [if_pos hinit]
    refine .inl ⟨rfl, fun hi f h1 h2 _ => ?_⟩
    simp only [hi, Bool.not_true, Bool.false_or, beq_iff_eq] at hinit
    subst hinit
    simp at h2
  · rw [if_neg hinit]
    simp only [Bool.or_eq_true, Bool.not_eq_true', beq_iff_eq, not_or,
      Bool.not_eq_false] at hinit
    have hstart : reservedLowEnd / frameSize = firstFrame := rfl
    rcases hfind : s.findFree limit with _ | f
    · refine .inl ⟨rfl, fun _ f h1 h2 h3 => ?_⟩
      unfold findFree at hfind
      rw [List.find?_eq_none] at hfind
      simpa using hfind f (mem_frameRange.mpr ⟨by rw [hstart]; exact h1, h2, h3⟩)
    · have hmem : f ∈ s.frameRange (reservedLowEnd / frameSize) (limit / frameSize) := by
        unfold findFree at hfind
        exact List.mem_of_find?_eq_some hfind
      have hfree : s.frameBitmap f = false := by
        unfold findFree at hfind
        simpa using List.find?_some hfind
      obtain ⟨h1, h2, h3⟩ := mem_frameRange.mp hmem
      rw [hstart] at h1
      exact .inr ⟨f, h1, h2, h3, hfree, hinit.1, rfl⟩

/-- Frame addresses are aligned words, different from zero for an allocatable frame. -/
theorem frameAddr_facts (hf : f < maxFrames) :
    (frameAddr f).toNat = f * frameSize ∧ frameOf (frameAddr f) = f := by
  have h : (frameAddr f).toNat = f * frameSize := by
    unfold frameAddr
    rw [BitVec.toNat_ofNat]
    simp only [maxFrames, frameSize] at hf ⊢
    omega
  refine ⟨h, ?_⟩
  unfold frameOf
  rw [h]
  exact Nat.mul_div_cancel _ (by decide)

/-- `frame_release` of an allocatable frame in use drops one reference. -/
theorem frameRelease_eq (hw : s.Counted) (hi : s.frameInitialized = true) (hlow : firstFrame ≤ f)
    (hf : f < s.totalFrames) (hpos : 0 < s.frameRefcounts f) :
    s.frameRelease (frameAddr f) = (true, s.dropRef f) := by
  have hbit := (hw.live_iff f hf).mpr hpos
  obtain ⟨haddr, -⟩ := frameAddr_facts (f := f) (by have := hw.total_le; omega)
  unfold frameRelease
  have hdiv : f * frameSize / frameSize = f := Nat.mul_div_cancel _ (by decide)
  have hmod : f * frameSize % frameSize = 0 := Nat.mul_mod_left _ _
  have hhigh : ¬ f * frameSize < reservedLowEnd := by
    simp only [frameSize, reservedLowEnd, firstFrame] at hlow ⊢
    omega
  have hne : (s.frameRefcounts f == 0) = false := by rw [beq_eq_false_iff_ne]; omega
  simp only [haddr, hdiv, hmod, hi, hbit, hne, Nat.not_le.mpr hf, hhigh, bne_self_eq_false,
    decide_false, Bool.not_true, Bool.or_false, Bool.false_eq_true, if_false]
  unfold dropRef
  by_cases hlast : s.frameRefcounts f - 1 = 0
  · simp [hlast, hi]
  · simp [hlast, hi]

/-- `frame_retain` of an allocatable frame in use adds a reference unless the count is full. -/
theorem frameRetain_eq (hw : s.Counted) (hi : s.frameInitialized = true)
    (hf : f < s.totalFrames) (hpos : 0 < s.frameRefcounts f) :
    s.frameRetain (frameAddr f) =
      if s.frameRefcounts f = 0xFFFF then (false, s) else (true, s.addRef f) := by
  have hbit := (hw.live_iff f hf).mpr hpos
  obtain ⟨haddr, -⟩ := frameAddr_facts (f := f) (by have := hw.total_le; omega)
  unfold frameRetain
  have hdiv : f * frameSize / frameSize = f := Nat.mul_div_cancel _ (by decide)
  have hmod : f * frameSize % frameSize = 0 := Nat.mul_mod_left _ _
  have hne : (s.frameRefcounts f == 0) = false := by rw [beq_eq_false_iff_ne]; omega
  simp only [haddr, hdiv, hmod, hi, hbit, hne, Nat.not_le.mpr hf, bne_self_eq_false,
    decide_false, Bool.not_true, Bool.or_false, Bool.false_or, Bool.false_eq_true, if_false,
    beq_iff_eq]
  unfold addRef
  rw [hi]

/-- `frame_get_refcount` of a frame address below `total_frames` reads its count. -/
theorem frameGetRefcount_eq (hw : s.Counted) (hi : s.frameInitialized = true)
    (hf : f < s.totalFrames) : s.frameGetRefcount (frameAddr f) = s.frameRefcounts f := by
  obtain ⟨haddr, -⟩ := frameAddr_facts (f := f) (by have := hw.total_le; omega)
  unfold frameGetRefcount
  have hdiv : f * frameSize / frameSize = f := Nat.mul_div_cancel _ (by decide)
  have hmod : f * frameSize % frameSize = 0 := Nat.mul_mod_left _ _
  simp only [haddr, hdiv, hmod, hi, Nat.not_le.mpr hf, bne_self_eq_false,
    decide_false, Bool.not_true, Bool.or_false, Bool.false_or, Bool.not_eq_true']
  by_cases hbit : s.frameBitmap f = true
  · simp [hbit]
  · have : ¬ 0 < s.frameRefcounts f := fun h => hbit ((hw.live_iff f hf).mpr h)
    simp only [Bool.not_eq_true] at hbit
    simp only [hbit, if_true]
    omega

/-! ### `frame_init` -/

/-- The loop body of `mark_allocated` keeps the books. -/
theorem Counted.markFrameAllocated (h : s.Counted) (hf : f < s.totalFrames) :
    (s.markFrameAllocated f).Counted := by
  by_cases hbit : s.frameBitmap f = true
  · have hpos := (h.live_iff f hf).mp hbit
    have heq : s.markFrameAllocated f = s := by
      have hupd : update s.frameBitmap f true = s.frameBitmap := by
        rw [← hbit, update_eq_self]
      unfold FrameState.markFrameAllocated
      rw [hupd, hbit, if_neg (by omega : ¬ s.frameRefcounts f = 0), if_pos rfl]
    rw [heq]
    exact h
  · simp only [Bool.not_eq_true] at hbit
    have hzero : s.frameRefcounts f = 0 := by
      have : ¬ 0 < s.frameRefcounts f := fun hpos => by
        rw [(h.live_iff f hf).mpr hpos] at hbit
        cases hbit
      omega
    have heq : s.markFrameAllocated f = s.take f := by
      unfold FrameState.markFrameAllocated FrameState.take
      simp [hbit, hzero]
    rw [heq]
    exact h.take hf hbit

/-- So does that of `mark_free`. -/
theorem Counted.markFrameFree (h : s.Counted) (hf : f < s.totalFrames) :
    (s.markFrameFree f).Counted := by
  unfold FrameState.markFrameFree
  by_cases hbit : s.frameBitmap f = true
  · rw [if_pos hbit]
    -- freeing at once is dropping the last reference of a frame that has one
    let t : FrameState := { s with frameRefcounts := update s.frameRefcounts f 1 }
    have ht : t.Counted :=
      { total_le := h.total_le
        used_eq := h.used_eq
        live_iff := by
          intro g hg
          by_cases hgf : g = f
          · subst hgf; simp [t, hbit]
          · simpa [t, hgf] using h.live_iff g hg
        small := by
          intro g
          show update s.frameRefcounts f 1 g ≤ _
          by_cases hgf : g = f
          · subst hgf; simp
          · rw [update_of_ne hgf]; exact h.small g }
    have hdrop := ht.dropRef (f := f) hf (by simp [t])
    have heq : t.dropRef f = { s with
        frameBitmap := update s.frameBitmap f false
        usedFrames := s.usedFrames - 1
        frameRefcounts := update s.frameRefcounts f 0 } := by
      simp [FrameState.dropRef, t]
    rw [← heq]
    exact hdrop
  · rw [if_neg hbit]
    exact h

/-- Neither changes the number of tracked frames. -/
@[simp] theorem markFrameAllocated_total :
    (s.markFrameAllocated f).totalFrames = s.totalFrames := rfl

/-- Freeing a frame does not. -/
@[simp] theorem markFrameFree_total : (s.markFrameFree f).totalFrames = s.totalFrames := by
  unfold FrameState.markFrameFree
  split <;> rfl

/-- Marking one does not set up the allocator. -/
@[simp] theorem markFrameAllocated_initialized :
    (s.markFrameAllocated f).frameInitialized = s.frameInitialized := rfl

/-- A loop over frames below `total_frames` keeps what its body keeps. -/
theorem foldl_kept {step : FrameState → Nat → FrameState} {P : FrameState → Prop} {n : Nat}
    (hstep : ∀ s f, P s → s.totalFrames = n → f < n → P (step s f) ∧ (step s f).totalFrames = n)
    (l : List Nat) (hl : ∀ f ∈ l, f < n) (h : P s) (hn : s.totalFrames = n) :
    P (l.foldl step s) ∧ (l.foldl step s).totalFrames = n := by
  induction l generalizing s with
  | nil => exact ⟨h, hn⟩
  | cons f l ih =>
    have h1 := hstep s f h hn (hl f (List.mem_cons_self ..))
    exact ih (fun g hg => hl g (List.mem_cons_of_mem _ hg)) h1.1 h1.2

/-- `mark_allocated` keeps the books. -/
theorem Counted.markAllocated (h : s.Counted) (a b : Nat) :
    (s.markAllocated a b).Counted ∧ (s.markAllocated a b).totalFrames = s.totalFrames := by
  unfold FrameState.markAllocated
  refine foldl_kept (P := Counted) (fun s f hs hn hf => ⟨hs.markFrameAllocated (hn ▸ hf), hn⟩) _
    (fun f hf => (mem_frameRange.mp hf).2.2) h rfl

/-- So does `mark_free`. -/
theorem Counted.markFree (h : s.Counted) (a b : Nat) :
    (s.markFree a b).Counted ∧ (s.markFree a b).totalFrames = s.totalFrames := by
  unfold FrameState.markFree
  refine foldl_kept (P := Counted)
    (fun s f hs hn hf => ⟨hs.markFrameFree (hn ▸ hf), (markFrameFree_total).trans hn⟩) _
    (fun f hf => (mem_frameRange.mp hf).2.2) h rfl

/-- A loop over the memory map keeps `Counted`. -/
theorem Counted.markUsable (h : s.Counted) (boot : BootInfo) : (s.markUsable boot).Counted := by
  unfold FrameState.markUsable
  by_cases hav : boot.e820IsAvailable = true
  · rw [if_pos hav]
    induction boot.entries generalizing s with
    | nil => exact h
    | cons e es ih =>
      refine ih ?_
      dsimp only
      split
      · exact h
      · exact (h.markFree _ _).1
  · rw [if_neg hav]
    exact (h.markFree _ _).1

/-- Marking frames allocated frees none. -/
theorem markAllocated_monotone (s : FrameState) (a b : Nat) :
    (s.markAllocated a b).frameInitialized = s.frameInitialized ∧
      ∀ f, s.frameBitmap f = true → (s.markAllocated a b).frameBitmap f = true := by
  unfold FrameState.markAllocated
  induction s.frameRange (alignDown a / frameSize) (alignUp b / frameSize) generalizing s with
  | nil => exact ⟨rfl, fun _ hf => hf⟩
  | cons g l ih =>
    refine ⟨(ih (s.markFrameAllocated g)).1, fun f hf => (ih (s.markFrameAllocated g)).2 f ?_⟩
    show update s.frameBitmap g true f = true
    by_cases hfg : f = g
    · subst hfg; simp
    · rw [update_of_ne hfg]
      exact hf

end FrameState

open FrameState

/-- `frame_init` leaves the bitmap, the counts and `used_frames` in agreement. -/
theorem frameInit_counted (boot : BootInfo) :
    (frameInit boot).Counted ∧ (frameInit boot).frameInitialized = true := by
  unfold frameInit
  dsimp only
  set n := boot.highestMemory / frameSize with hn
  set total := if maxFrames < n then maxFrames else n with ht
  have h0 : FrameState.Counted
      { frameBitmap := fun _ => true
        frameRefcounts := fun i => if i < total then 1 else 0
        totalFrames := total
        usedFrames := total
        frameInitialized := false } :=
    { total_le := by
        show total ≤ maxFrames
        rw [ht]
        split <;> omega
      used_eq := by
        show total = _
        unfold holders inUse
        simp
      live_iff := by
        intro f hf
        simp only [true_iff]
        have hf' : f < total := hf
        simp [hf']
      small := by
        intro f
        dsimp only
        split <;> omega }
  have h1 := h0.markUsable boot
  have h2 := (h1.markAllocated 0 reservedLowEnd).1
  have h3 := (h2.markAllocated 0x00080000 0x00081000).1
  have h4 := (h3.markAllocated 0x00100000 0x00102000).1
  have h5 := (h4.markAllocated 0x00200000 0x00300000).1
  have h6 := (h5.markAllocated 0x00001000 (alignUp boot.kernelEnd)).1
  exact ⟨⟨h6.total_le, h6.used_eq, h6.live_iff, h6.small⟩, rfl⟩

end AgenticOs
