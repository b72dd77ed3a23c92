import AgenticOs.Memory.Detect

/-!
# Runs of the frame allocator

After `frame_init`, any calls in any order, with any arguments.

* **The account is exact** (`frame_allocator_exact`): the results of the calls keep an account of every frame.
  It is 1 when the frame is handed out, a retain adds one and a release takes one away. The reference count of
  a frame is what the account says, the bitmap and the number of used frames agree with it, and an allocation
  returns the lowest free frame.
* **Reservations**: a reservation is a reference that nobody releases, unless the frame had an owner already:
  then the frame is free again when the owner has released it (`reserved_frame_allocated`). As long as no
  range is reserved that has a frame with an owner, reserved frames stay reserved (`reserved_stays_reserved`).
* **Usable memory** (`free_only_usable_iff`): only frames that the memory map calls usable are free and handed
  out, exactly where no frame of a usable entry meets an entry of another type. `frame_init` does not look at
  those.

The calls are specified for all addresses (`frameRetain_cases`, `frameRelease_cases`,
`frameReserveRange_cases`), and `FrameCall.Does` says once what a call can do; the invariants of runs are
derived from it (`FrameCall.Does.account`, `FrameCall.Does.holdsForGood`).
-/

namespace AgenticOs

open Function Finset Lib

/-- A call to the allocator. -/
inductive FrameCall
  | alloc
  | allocBelow (limit : Word)
  | retain (physAddr : Word)
  | release (physAddr : Word)
  | free (physAddr : Word)
  | reserveRange (startAddr endAddr : Word)

/-- What a call returns; `frame_free` returns nothing. -/
def FrameCall.run (s : FrameState) : FrameCall → Word × FrameState
  | .alloc => s.frameAlloc
  | .allocBelow limit => s.frameAllocBelow limit.toNat
  | .retain physAddr =>
    let r := s.frameRetain physAddr
    (if r.1 then 1 else 0, r.2)
  | .release physAddr =>
    let r := s.frameRelease physAddr
    (if r.1 then 1 else 0, r.2)
  | .free physAddr => (0, s.frameFree physAddr)
  | .reserveRange startAddr endAddr =>
    let r := s.frameReserveRange startAddr.toNat endAddr.toNat
    (if r.1 then 1 else 0, r.2)

/-- A frame that has an address in `[startAddr, endAddr)`. -/
def InRange (startAddr endAddr : Word) (frame : Nat) : Prop :=
  startAddr.toNat < (frame + 1) * frameSize ∧ frame * frameSize < endAddr.toNat

instance (startAddr endAddr : Word) (frame : Nat) : Decidable (InRange startAddr endAddr frame) :=
  inferInstanceAs (Decidable (_ ∧ _))

/-! ### The calls, for all addresses -/

namespace FrameState

variable {s s' : FrameState} {f g : Nat} {physAddr : Word}

/-- `frame_retain` of any word: it refuses, or a reference is added to a frame that has one. -/
theorem frameRetain_cases (s : FrameState) (physAddr : Word) :
    s.frameRetain physAddr = (false, s) ∨
      frameOf physAddr < s.totalFrames ∧ 0 < s.frameRefcounts (frameOf physAddr) ∧
        s.frameRefcounts (frameOf physAddr) ≠ 0xFFFF ∧
        s.frameRetain physAddr = (true, s.addRef (frameOf physAddr)) := by
  unfold frameRetain
  dsimp only
  split
  · exact .inl rfl
  split
  · exact .inl rfl
  · rename_i hcheck
    simp only [Bool.or_eq_true, decide_eq_true_eq, beq_iff_eq, not_or, Nat.not_le] at hcheck
    exact .inr ⟨hcheck.1.1.1, Nat.pos_of_ne_zero hcheck.1.2, hcheck.2, rfl⟩

/-- `frame_release` of any word: it refuses, or a reference is given up, and not the last one of a frame of low
memory. -/
theorem frameRelease_cases (s : FrameState) (physAddr : Word) :
    s.frameRelease physAddr = (false, s) ∨
      frameOf physAddr < s.totalFrames ∧ 0 < s.frameRefcounts (frameOf physAddr) ∧
        (firstFrame ≤ frameOf physAddr ∨ 1 < s.frameRefcounts (frameOf physAddr)) ∧
        s.frameRelease physAddr = (true, s.dropRef (frameOf physAddr)) := by
  unfold frameRelease
  dsimp only
  split
  · exact .inl rfl
  split
  · exact .inl rfl
  rename_i hcheck
  simp only [Bool.or_eq_true, decide_eq_true_eq, beq_iff_eq, not_or, Nat.not_le] at hcheck
  have hpos : 0 < s.frameRefcounts (frameOf physAddr) := Nat.pos_of_ne_zero hcheck.2
  split
  · split
    · exact .inl rfl
    · rename_i hlow hone
      refine .inr ⟨hcheck.1.1, hpos, .inr (Nat.not_le.mp hone), ?_⟩
      have hkept : s.frameRefcounts (frameOf physAddr) - 1 ≠ 0 :=
        Nat.sub_ne_zero_of_lt (Nat.not_le.mp hone)
      unfold dropRef
      rw [if_neg hkept, if_neg hkept]
      rfl
  · rename_i hhigh
    refine .inr ⟨hcheck.1.1, hpos, .inl ?_, ?_⟩
    · unfold frameOf
      simp only [reservedLowEnd, firstFrame] at hhigh ⊢
      omega
    · by_cases hlast : s.frameRefcounts (frameOf physAddr) - 1 = 0
      · unfold dropRef
        rw [if_pos hlast, if_pos hlast]
        exact if_pos hlast
      · unfold dropRef
        rw [if_neg hlast, if_neg hlast]
        exact if_neg hlast

/-- `frame_reserve_range` does nothing, or marks the frames of the range. -/
theorem frameReserveRange_cases (s : FrameState) (htotal : s.totalFrames ≤ maxFrames)
    (startAddr endAddr : Word) :
    s.frameReserveRange startAddr.toNat endAddr.toNat = (false, s) ∨
      ∃ l : List Nat, (∀ f, f ∈ l ↔ InRange startAddr endAddr f ∧ f < s.totalFrames) ∧
        s.frameReserveRange startAddr.toNat endAddr.toNat = (true, l.foldl markFrameAllocated s) := by
  unfold frameReserveRange
  split
  · exact .inl rfl
  rename_i hrange
  simp only [Bool.or_eq_true, Bool.not_eq_true', decide_eq_true_eq, not_or, Nat.not_le] at hrange
  dsimp only
  split
  · exact .inl rfl
  rename_i hstart
  refine .inr ⟨_, fun f => ?_, rfl⟩
  rw [mem_frameRange]
  unfold alignDown alignUp InRange
  simp only [frameSize, maxFrames, wordSize] at htotal hstart ⊢
  have hend : min endAddr.toNat (s.totalFrames * 4096) ≤ s.totalFrames * 4096 := Nat.min_le_right _ _
  have hle : min endAddr.toNat (s.totalFrames * 4096) ≤ endAddr.toNat := Nat.min_le_left _ _
  generalize hm : min endAddr.toNat (s.totalFrames * 4096) = stop at hend hle ⊢
  rw [Nat.mod_eq_of_lt (by omega : stop + 4096 - 1 < 4294967296)]
  omega

/-! ### What every call keeps -/

/-- The frames below `RESERVED_LOW_END` are in use. -/
def LowInUse (s : FrameState) : Prop := ∀ f < s.totalFrames, f < firstFrame → s.frameBitmap f = true

/-- A frame that is taken is not one of low memory. -/
theorem LowInUse.take (h : s.LowInUse) : (s.take f).LowInUse := by
  intro g hg hlow
  show update s.frameBitmap f true g = true
  by_cases hgf : g = f
  · rw [hgf, update_self]
  · rw [update_of_ne hgf]
    exact h g hg hlow

/-- A reference of low memory that is given up is not the last. -/
theorem LowInUse.dropRef (h : s.LowInUse) (hf : firstFrame ≤ f ∨ 1 < s.frameRefcounts f) :
    (s.dropRef f).LowInUse := by
  intro g hg hlow
  by_cases hgf : g = f
  · subst hgf
    have hkept : ¬ s.frameRefcounts g - 1 = 0 := by omega
    unfold FrameState.dropRef
    dsimp only
    rw [if_neg hkept]
    exact h g hg hlow
  · rw [dropRef_bitmap_of_ne hgf]
    exact h g hg hlow

/-- Bitmap, counts and `used_frames` agree, and low memory is in use. -/
structure WellFormed (s : FrameState) : Prop extends s.Counted where
  initialized : s.frameInitialized = true
  low : s.LowInUse

/-- Marking the frames of a range keeps the allocator well formed. -/
theorem WellFormed.markFrames (h : s.WellFormed) {l : List Nat} (hl : ∀ f ∈ l, f < s.totalFrames) :
    (l.foldl markFrameAllocated s).WellFormed := by
  obtain ⟨htotal, hinit⟩ := markFrames_kept l s
  have hcounted := @foldl_kept s markFrameAllocated Counted s.totalFrames
    (fun s f hs hn hf => ⟨hs.markFrameAllocated (hn ▸ hf), hn⟩) l hl h.toCounted rfl
  refine ⟨hcounted.1, hinit.trans h.initialized, fun f hf hlow => ?_⟩
  rw [(markFrames_frame l s f).1, h.low f (htotal ▸ hf) hlow, Bool.true_or]

end FrameState

open FrameState

variable {s s' : FrameState} {a b : Nat → Nat}

/-! ### The account -/

/-- A frame that is handed out has one reference. -/
def handOut (result : Word) (a : Nat → Nat) : Nat → Nat :=
  if result = 0 then a else update a (frameOf result) 1

/-- The references to each frame after a call, by its result: a frame is handed out with one, a
successful retain adds one, a successful release takes one away. -/
def FrameCall.owners (call : FrameCall) (s : FrameState) (a : Nat → Nat) : Nat → Nat :=
  match call with
  | .alloc | .allocBelow _ => handOut (call.run s).1 a
  | .retain physAddr =>
    if (s.frameRetain physAddr).1 then update a (frameOf physAddr) (a (frameOf physAddr) + 1) else a
  | .release physAddr | .free physAddr =>
    if (s.frameRelease physAddr).1 then update a (frameOf physAddr) (a (frameOf physAddr) - 1) else a
  | .reserveRange _ _ => a

/-- The same, where a reservation hands out the free frames of its range. -/
def FrameCall.account (call : FrameCall) (s : FrameState) (a : Nat → Nat) : Nat → Nat :=
  match call with
  | .reserveRange startAddr endAddr =>
    if (s.frameReserveRange startAddr.toNat endAddr.toNat).1 then fun f =>
      if InRange startAddr endAddr f ∧ f < s.totalFrames ∧ a f = 0 then 1 else a f
    else a
  | _ => call.owners s a

/-- What a call does: nothing, or a free frame is taken, the count of a frame goes up or down by one,
or the frames of a range are marked. -/
inductive FrameCall.Does (s : FrameState) (call : FrameCall) : FrameState → Prop
  | nothing (ho : ∀ a, call.owners s a = a) (ha : ∀ a, call.account s a = a) : Does s call s
  | take (f : Nat) (hhigh : firstFrame ≤ f) (hf : f < s.totalFrames) (hfree : s.frameBitmap f = false)
      (ho : ∀ a, call.owners s a = update a f 1) (ha : ∀ a, call.account s a = update a f 1) :
      Does s call (s.take f)
  | addRef (f : Nat) (hf : f < s.totalFrames) (hpos : 0 < s.frameRefcounts f)
      (hfull : s.frameRefcounts f ≠ 0xFFFF) (ho : ∀ a, call.owners s a = update a f (a f + 1))
      (ha : ∀ a, call.account s a = update a f (a f + 1)) : Does s call (s.addRef f)
  | dropRef (f : Nat) (hf : f < s.totalFrames) (hpos : 0 < s.frameRefcounts f)
      (hlast : firstFrame ≤ f ∨ 1 < s.frameRefcounts f)
      (hcall : ∃ physAddr, f = frameOf physAddr ∧ (call = .release physAddr ∨ call = .free physAddr))
      (ho : ∀ a, call.owners s a = update a f (a f - 1))
      (ha : ∀ a, call.account s a = update a f (a f - 1)) : Does s call (s.dropRef f)
  | mark (startAddr endAddr : Word) (l : List Nat) (hcall : call = .reserveRange startAddr endAddr)
      (hl : ∀ f, f ∈ l ↔ InRange startAddr endAddr f ∧ f < s.totalFrames) (ho : ∀ a, call.owners s a = a)
      (ha : ∀ a f, call.account s a f = if f ∈ l ∧ a f = 0 then 1 else a f) :
      Does s call (l.foldl markFrameAllocated s)

/-- A frame that can be handed out is not at address 0, which stands for none. -/
theorem frameAddr_pool_ne_zero {f : Nat} (hlow : firstFrame ≤ f) (hf : f < maxFrames) : frameAddr f ≠ 0 := by
  intro h
  have := (frameAddr_facts hf).1
  rw [h] at this
  simp only [firstFrame, frameSize] at hlow this
  have hz : (0 : Word).toNat = 0 := rfl
  omega

/-- What an allocation does, by its limit. -/
theorem FrameCall.does_allocBelow (htotal : s.totalFrames ≤ maxFrames) {call : FrameCall} (limit : Nat)
    (hrun : call.run s = s.frameAllocBelow limit)
    (ho : ∀ a, call.owners s a = handOut (call.run s).1 a)
    (ha : ∀ a, call.account s a = handOut (call.run s).1 a) : call.Does s (call.run s).2 := by
  rw [hrun] at ho ha ⊢
  rcases frameAllocBelow_cases s limit with ⟨hfail, -⟩ | ⟨f, hlow, -, hf, hfree, -, hsome⟩
  · rw [hfail] at ho ha ⊢
    exact .nothing ho ha
  · rw [hsome] at ho ha ⊢
    have hne := frameAddr_pool_ne_zero hlow (hf.trans_le htotal)
    have hof := (frameAddr_facts (hf.trans_le htotal)).2
    have hhand (a : Nat → Nat) : handOut (frameAddr f) a = update a f 1 := by
      unfold handOut
      rw [if_neg hne, hof]
    exact .take f hlow hf hfree (fun a => (ho a).trans (hhand a)) fun a => (ha a).trans (hhand a)

/-- Every call does one of these. -/
theorem FrameCall.does (htotal : s.totalFrames ≤ maxFrames) (call : FrameCall) :
    call.Does s (call.run s).2 := by
  have hrelease (physAddr : Word) (call : FrameCall)
      (hcall : call = .release physAddr ∨ call = .free physAddr)
      (hstate : (call.run s).2 = (s.frameRelease physAddr).2)
      (ho : ∀ a, call.owners s a = if (s.frameRelease physAddr).1 then
        update a (frameOf physAddr) (a (frameOf physAddr) - 1) else a)
      (ha : ∀ a, call.account s a = if (s.frameRelease physAddr).1 then
        update a (frameOf physAddr) (a (frameOf physAddr) - 1) else a) : call.Does s (call.run s).2 := by
    rw [hstate]
    rcases frameRelease_cases s physAddr with hfail | ⟨hf, hpos, hlast, hdone⟩
    · rw [hfail] at ho ha ⊢
      exact .nothing ho ha
    · rw [hdone] at ho ha ⊢
      exact .dropRef _ hf hpos hlast ⟨physAddr, rfl, hcall⟩ ho ha
  cases call with
  | alloc =>
    have ho (a : Nat → Nat) : FrameCall.alloc.owners s a = handOut (FrameCall.alloc.run s).1 a := rfl
    exact does_allocBelow htotal (s.totalFrames * frameSize) rfl ho ho
  | allocBelow limit =>
    have ho (a : Nat → Nat) : (FrameCall.allocBelow limit).owners s a =
        handOut ((FrameCall.allocBelow limit).run s).1 a := rfl
    exact does_allocBelow htotal limit.toNat rfl ho ho
  | retain physAddr =>
    have hstate : (FrameCall.run s (.retain physAddr)).2 = (s.frameRetain physAddr).2 := rfl
    have ho (a : Nat → Nat) : FrameCall.owners (.retain physAddr) s a = if (s.frameRetain physAddr).1 then
        update a (frameOf physAddr) (a (frameOf physAddr) + 1) else a := rfl
    have ha (a : Nat → Nat) : FrameCall.account (.retain physAddr) s a = if (s.frameRetain physAddr).1 then
        update a (frameOf physAddr) (a (frameOf physAddr) + 1) else a := rfl
    rw [hstate]
    rcases frameRetain_cases s physAddr with hfail | ⟨hf, hpos, hfull, hdone⟩
    · rw [hfail] at ho ha ⊢
      exact .nothing ho ha
    · rw [hdone] at ho ha ⊢
      exact .addRef _ hf hpos hfull ho ha
  | release physAddr => exact hrelease physAddr _ (.inl rfl) rfl (fun _ => rfl) fun _ => rfl
  | free physAddr => exact hrelease physAddr _ (.inr rfl) rfl (fun _ => rfl) fun _ => rfl
  | reserveRange startAddr endAddr =>
    have hstate : (FrameCall.run s (.reserveRange startAddr endAddr)).2 =
        (s.frameReserveRange startAddr.toNat endAddr.toNat).2 := rfl
    have ha (a : Nat → Nat) : FrameCall.account (.reserveRange startAddr endAddr) s a =
        if (s.frameReserveRange startAddr.toNat endAddr.toNat).1 then fun f =>
          if InRange startAddr endAddr f ∧ f < s.totalFrames ∧ a f = 0 then 1 else a f
        else a := rfl
    rw [hstate]
    rcases frameReserveRange_cases s htotal startAddr endAddr with hfail | ⟨l, hl, hdone⟩
    · rw [hfail] at ha ⊢
      exact .nothing (fun _ => rfl) ha
    · rw [hdone] at ha ⊢
      refine .mark startAddr endAddr l rfl hl (fun _ => rfl) fun a f => ?_
      rw [ha]
      simp only [if_true, hl, and_assoc]

/-! ### What every call keeps -/

/-- Every call keeps the allocator well formed. -/
theorem FrameCall.Does.wellFormed {call : FrameCall} (h : s.WellFormed) (hd : call.Does s s') :
    s'.WellFormed ∧ s'.totalFrames = s.totalFrames := by
  cases hd with
  | nothing => exact ⟨h, rfl⟩
  | take f _ hf hfree => exact ⟨⟨h.toCounted.take hf hfree, h.initialized, h.low.take⟩, rfl⟩
  | addRef f _ hpos hfull => exact ⟨⟨h.toCounted.addRef hpos hfull, h.initialized, h.low⟩, rfl⟩
  | dropRef f hf hpos hlast =>
    exact ⟨⟨h.toCounted.dropRef hf hpos, h.initialized, h.low.dropRef hlast⟩, rfl⟩
  | mark _ _ l _ hl =>
    exact ⟨h.markFrames fun f hf => ((hl f).mp hf).2, (markFrames_kept l s).1⟩

/-- The counts follow the account. -/
theorem FrameCall.Does.account {call : FrameCall} (hd : call.Does s s')
    (hexact : ∀ f < s.totalFrames, s.frameRefcounts f = a f) :
    ∀ f < s.totalFrames, s'.frameRefcounts f = call.account s a f := by
  intro g hg
  cases hd with
  | nothing _ ha =>
    rw [ha]
    exact hexact g hg
  | take f _ _ _ _ ha =>
    rw [ha]
    show update s.frameRefcounts f 1 g = _
    by_cases hgf : g = f
    · rw [hgf, update_self, update_self]
    · rw [update_of_ne hgf, update_of_ne hgf, hexact g hg]
  | addRef f _ _ _ _ ha =>
    rw [ha]
    show update s.frameRefcounts f (s.frameRefcounts f + 1) g = _
    by_cases hgf : g = f
    · rw [hgf, update_self, update_self, ← hexact f (hgf ▸ hg)]
    · rw [update_of_ne hgf, update_of_ne hgf, hexact g hg]
  | dropRef f _ _ _ _ _ ha =>
    rw [ha]
    show update s.frameRefcounts f (s.frameRefcounts f - 1) g = _
    by_cases hgf : g = f
    · rw [hgf, update_self, update_self, ← hexact f (hgf ▸ hg)]
    · rw [update_of_ne hgf, update_of_ne hgf, hexact g hg]
  | mark _ _ l _ _ _ ha =>
    rw [ha, (markFrames_frame l s g).2, hexact g hg]

/-- `frame_init` leaves it well formed. -/
theorem frameInit_wellFormed (boot : BootInfo) : (frameInit boot).WellFormed := by
  obtain ⟨hcounted, hinit⟩ := frameInit_counted boot
  refine ⟨hcounted, hinit, fun f hf hlow => ?_⟩
  by_contra hfree
  have := (frameInit_free_iff boot f).2.mp (Bool.not_eq_true _ ▸ hfree)
  exact absurd this.2.1 (Nat.not_le.mpr hlow)

/-- No frame has two references. -/
def FrameState.AtMostOne (s : FrameState) : Prop := ∀ f, s.frameRefcounts f ≤ 1

/-- One count becomes at most one. -/
theorem atMostOne_update {f n : Nat} {counts : Nat → Nat} (h : ∀ g, counts g ≤ 1) (hn : n ≤ 1) :
    ∀ g, update counts f n g ≤ 1 := by
  intro g
  by_cases hg : g = f
  · rw [hg, update_self]
    exact hn
  · rw [update_of_ne hg]
    exact h g

/-- `mark_allocated` gives no frame a second reference. -/
theorem FrameState.AtMostOne.markAllocated (h : s.AtMostOne) (start stop : Nat) :
    (s.markAllocated start stop).AtMostOne := by
  unfold FrameState.markAllocated
  intro f
  rw [(markFrames_frame _ s f).2]
  split
  · exact Nat.le_refl 1
  · exact h f

/-- Nor does `mark_free`. -/
theorem FrameState.AtMostOne.markFree (h : s.AtMostOne) (start stop : Nat) : (s.markFree start stop).AtMostOne := by
  unfold FrameState.markFree
  induction s.frameRange (alignUp start / frameSize) (alignDown stop / frameSize) generalizing s with
  | nil => exact h
  | cons f l ih =>
    refine ih (s := s.markFrameFree f) ?_
    unfold FrameState.markFrameFree
    split
    · exact atMostOne_update h (Nat.zero_le 1)
    · exact h

/-- Nor does the loop over the memory map. -/
theorem FrameState.AtMostOne.markUsable (h : s.AtMostOne) (boot : BootInfo) : (s.markUsable boot).AtMostOne := by
  unfold FrameState.markUsable
  split
  · induction boot.entries generalizing s with
    | nil => exact h
    | cons e entries ih =>
      refine ih ?_
      dsimp only
      split
      · exact h
      · exact h.markFree _ _
  · exact h.markFree _ _

/-- Every frame that is in use after `frame_init` has one reference. -/
theorem frameInit_refcounts (boot : BootInfo) {f : Nat} (hf : f < (frameInit boot).totalFrames) :
    (frameInit boot).frameRefcounts f = if (frameInit boot).frameBitmap f then 1 else 0 := by
  have hone : (frameInit boot).AtMostOne := by
    unfold frameInit
    refine AtMostOne.markAllocated (AtMostOne.markAllocated (AtMostOne.markAllocated
      (AtMostOne.markAllocated (AtMostOne.markAllocated (AtMostOne.markUsable ?_ boot) _ _) _ _) _ _)
      _ _) _ _
    intro f
    dsimp only
    generalize (if maxFrames < boot.highestMemory / frameSize then maxFrames
      else boot.highestMemory / frameSize) = total
    split
    · exact Nat.le_refl 1
    · exact Nat.zero_le 1
  have hlive := (frameInit_counted boot).1.live_iff f hf
  have := hone f
  split
  · rename_i hbit
    have := hlive.mp hbit
    omega
  · rename_i hbit
    have := mt hlive.mpr hbit
    omega

/-! ### The account is exact -/

/-- The states after `frame_init` and any calls, with the account of each frame; at the start it is 1
for the frames that are in use. -/
inductive FrameRun : FrameState → (Nat → Nat) → Prop
  | init (boot : BootInfo) :
      FrameRun (frameInit boot) fun f => if (frameInit boot).frameBitmap f then 1 else 0
  | call {s : FrameState} {a : Nat → Nat} (call : FrameCall) (h : FrameRun s a) :
      FrameRun (call.run s).2 (call.account s a)

/-- An allocation below a limit returns the lowest free frame from `RESERVED_LOW_END` on, or 0 if there
is none. -/
def FrameState.AllocatesLowest (s : FrameState) (limit : Nat) : Prop :=
  (∃ f, (s.frameAllocBelow limit).1 = frameAddr f ∧ firstFrame ≤ f ∧ f < limit / frameSize ∧
      f < s.totalFrames ∧ s.frameBitmap f = false ∧
      ∀ g, firstFrame ≤ g → g < f → s.frameBitmap g = true) ∨
    (s.frameAllocBelow limit).1 = 0 ∧
      ∀ f, firstFrame ≤ f → f < limit / frameSize → f < s.totalFrames → s.frameBitmap f = true

/-- Bitmap, counter and counts agree with one another and with the account. -/
structure FrameState.Exact (s : FrameState) (a : Nat → Nat) : Prop where
  used : s.usedFrames = ((range s.totalFrames).filter fun f => s.frameBitmap f = true).card
  freeCount : s.frameGetFreeCount = ((range s.totalFrames).filter fun f => s.frameBitmap f = false).card
  live : ∀ f < s.totalFrames, 0 < s.frameRefcounts f ↔ s.frameBitmap f = true
  noWrap : ∀ f, s.frameRefcounts f ≤ 0xFFFF
  low : ∀ f < s.totalFrames, f < firstFrame → s.frameBitmap f = true
  account : ∀ f < s.totalFrames, s.frameRefcounts f = a f
  lowest : ∀ limit : Word, s.AllocatesLowest limit.toNat
  alloc : s.frameAlloc = s.frameAllocBelow (s.totalFrames * frameSize) ∧
    s.AllocatesLowest (s.totalFrames * frameSize)
  handsOut : ∀ limit : Word, (s.frameAllocBelow limit.toNat).1 ≠ 0 →
    a (frameOf (s.frameAllocBelow limit.toNat).1) = 0

/-- The frames below the one that is found are in use. -/
theorem findFree_lowest {limit f : Nat} (h : s.findFree limit = some f) :
    ∀ g, firstFrame ≤ g → g < f → s.frameBitmap g = true := by
  unfold FrameState.findFree FrameState.frameRange at h
  obtain ⟨-, -, hlowest⟩ := List.find?_range'_eq_some.mp h
  intro g hlow hg
  simpa using hlowest g hlow hg

/-- An allocation finds the lowest free frame. -/
theorem FrameState.WellFormed.allocatesLowest (h : s.WellFormed) (limit : Nat) : s.AllocatesLowest limit := by
  rcases frameAllocBelow_cases s limit with ⟨hfail, hnone⟩ | ⟨f, hlow, hlimit, hf, hfree, -, hsome⟩
  · exact .inr ⟨by rw [hfail], hnone h.initialized⟩
  · refine .inl ⟨f, by rw [hsome], hlow, hlimit, hf, hfree, ?_⟩
    -- the frame is the one that the scan has found
    unfold FrameState.frameAllocBelow at hsome
    split at hsome
    · exact absurd (congrArg Prod.fst hsome).symm (frameAddr_pool_ne_zero hlow (hf.trans_le h.total_le))
    rcases hfind : s.findFree limit with _ | g
    · rw [hfind] at hsome
      exact absurd (congrArg Prod.fst hsome).symm (frameAddr_pool_ne_zero hlow (hf.trans_le h.total_le))
    · rw [hfind] at hsome
      have hg : g < maxFrames := by
        unfold FrameState.findFree at hfind
        exact (mem_frameRange.mp (List.mem_of_find?_eq_some hfind)).2.2.trans_le h.total_le
      have haddr : frameAddr g = frameAddr f := congrArg Prod.fst hsome
      have hgf : g = f := by
        rw [← (frameAddr_facts hg).2, haddr, (frameAddr_facts (hf.trans_le h.total_le)).2]
      exact hgf ▸ findFree_lowest hfind

/-- Every run keeps the allocator well formed, with the account of its frames. -/
theorem FrameRun.wellFormed (h : FrameRun s a) :
    s.WellFormed ∧ ∀ f < s.totalFrames, s.frameRefcounts f = a f := by
  induction h with
  | init boot => exact ⟨frameInit_wellFormed boot, fun f => frameInit_refcounts boot⟩
  | call call _ ih =>
    have hdoes := call.does ih.1.total_le
    obtain ⟨hwf, htotal⟩ := hdoes.wellFormed ih.1
    refine ⟨hwf, ?_⟩
    rw [htotal]
    exact hdoes.account ih.2

/-- In every state of the allocator its records agree, and the reference count of a frame is what the
calls account for. -/
theorem frame_allocator_exact (h : FrameRun s a) : s.Exact a := by
  obtain ⟨hwf, haccount⟩ := h.wellFormed
  have hused : s.usedFrames = ((range s.totalFrames).filter fun f => s.frameBitmap f = true).card := by
    rw [hwf.used_eq]
    unfold holders
    congr 1
    refine filter_congr fun f _ => ?_
    unfold FrameState.inUse
    split <;> simp_all
  have hsplit := card_filter_add_card_filter_not (s := range s.totalFrames) fun f => s.frameBitmap f = true
  rw [card_range] at hsplit
  simp only [Bool.not_eq_true] at hsplit
  refine ⟨hused, ?_, fun f hf => (hwf.live_iff f hf).symm, hwf.small, hwf.low, haccount,
    fun limit => hwf.allocatesLowest _, ⟨rfl, hwf.allocatesLowest _⟩, fun limit hne => ?_⟩
  · unfold FrameState.frameGetFreeCount
    rw [if_neg (by omega)]
    omega
  · rcases hwf.allocatesLowest limit.toNat with ⟨f, haddr, -, -, hf, hfree, -⟩ | ⟨hzero, -⟩
    · rw [haddr, (frameAddr_facts (hf.trans_le hwf.total_le)).2, ← haccount f hf]
      have := mt (hwf.live_iff f hf).mpr (by rw [hfree]; nofun)
      omega
    · exact absurd hzero hne

/-- The first allocation on a machine of 4 MiB. -/
theorem frame_allocator_exact_alloc :
    (FrameCall.alloc.run (frameInit ⟨[], 4096, 0⟩)).2.Exact
      (FrameCall.alloc.account (frameInit ⟨[], 4096, 0⟩) fun f =>
        if (frameInit ⟨[], 4096, 0⟩).frameBitmap f then 1 else 0) :=
  frame_allocator_exact (.call .alloc (.init _))

/-! ### Owners -/

/-- A release matches an allocation or a retain that it has not been matched with. -/
def FrameCall.Matched (a : Nat → Nat) : FrameCall → Prop
  | .release physAddr | .free physAddr => 0 < a (frameOf physAddr)
  | _ => True

/-- The frames that a call reserves. -/
def FrameCall.reserves (s : FrameState) : FrameCall → Set Nat
  | .reserveRange startAddr endAddr =>
    {f | (s.frameReserveRange startAddr.toNat endAddr.toNat).1 = true ∧ InRange startAddr endAddr f}
  | _ => ∅

/-- The states after `frame_init` of a map and calls whose releases match, with the allocations and
retains of each frame that are not released, and the frames that have been reserved. All the calls are
`ok`. -/
inductive OwnedRun (ok : (Nat → Nat) → FrameCall → Prop) (boot : BootInfo) :
    FrameState → (Nat → Nat) → Set Nat → Prop
  | init : OwnedRun ok boot (frameInit boot) (fun _ => 0) ∅
  | call {s : FrameState} {a : Nat → Nat} {reserved : Set Nat} (call : FrameCall)
      (h : OwnedRun ok boot s a reserved) (hmatch : call.Matched a) (hok : ok a call) :
      OwnedRun ok boot (call.run s).2 (call.owners s a) (reserved ∪ call.reserves s)

/-- No frame that a call would reserve has an owner, but for the frames of low memory, which are never
free. -/
def FrameCall.ReservesUnowned (a : Nat → Nat) : FrameCall → Prop
  | .reserveRange startAddr endAddr => ∀ f, InRange startAddr endAddr f → firstFrame ≤ f → a f = 0
  | _ => True

/-- Owners account for the references to the frames, but for one at least to each frame that is held for
good. -/
structure FrameState.HoldsForGood (s : FrameState) (a : Nat → Nat) (held : Set Nat) : Prop where
  wellFormed : s.WellFormed
  owned : ∀ f < s.totalFrames, a f ≤ s.frameRefcounts f
  held : ∀ f ∈ held, f < s.totalFrames → a f < s.frameRefcounts f

section

variable {held reserved : Set Nat} {boot : BootInfo} {ok : (Nat → Nat) → FrameCall → Prop}

/-- Every call keeps what is held for good. -/
theorem FrameCall.Does.holdsForGood {call : FrameCall} (h : s.HoldsForGood a held)
    (hmatch : call.Matched a) (hd : call.Does s s') : s'.HoldsForGood (call.owners s a) held := by
  obtain ⟨hwf, htotal⟩ := hd.wellFormed h.wellFormed
  suffices hframe : ∀ f < s.totalFrames, call.owners s a f ≤ s'.frameRefcounts f ∧
      (a f < s.frameRefcounts f → call.owners s a f < s'.frameRefcounts f) by
    refine ⟨hwf, ?_, ?_⟩ <;> rw [htotal]
    · exact fun f hf => (hframe f hf).1
    · exact fun f hheld hf => (hframe f hf).2 (h.held f hheld hf)
  intro g hg
  have hle := h.owned g hg
  cases hd with
  | nothing ho =>
    rw [ho]
    exact ⟨hle, id⟩
  | take f _ hf hfree ho =>
    rw [ho]
    show _ ≤ update s.frameRefcounts f 1 g ∧ (_ → _ < update s.frameRefcounts f 1 g)
    by_cases hgf : g = f
    · have := mt (h.wellFormed.live_iff f hf).mpr (by rw [hfree]; nofun)
      rw [hgf, update_self, update_self]
      omega
    · rw [update_of_ne hgf, update_of_ne hgf]
      exact ⟨hle, id⟩
  | addRef f _ _ _ ho =>
    rw [ho, addRef_refcount]
    by_cases hgf : g = f
    · rw [hgf, update_self, if_pos rfl]
      rw [hgf] at hle
      omega
    · rw [update_of_ne hgf, if_neg (Ne.symm hgf)]
      exact ⟨hle, id⟩
  | dropRef f _ hpos _ hcall ho =>
    rw [ho]
    have hdrop := dropRef_refcount hpos g
    by_cases hgf : g = f
    · have howner : 0 < a f := by
        obtain ⟨physAddr, rfl, rfl | rfl⟩ := hcall <;> exact hmatch
      rw [if_pos hgf.symm] at hdrop
      rw [hgf] at hle hdrop ⊢
      rw [update_self]
      omega
    · rw [if_neg (Ne.symm hgf), Nat.add_zero] at hdrop
      rw [update_of_ne hgf, hdrop]
      exact ⟨hle, id⟩
  | mark _ _ l _ _ ho =>
    rw [ho, (markFrames_frame l s g).2]
    split <;> omega

/-- Frames that are in use after `frame_init` are held for good. -/
theorem frameInit_holdsForGood (boot : BootInfo) :
    (frameInit boot).HoldsForGood (fun _ => 0) {f | (frameInit boot).frameBitmap f = true} :=
  ⟨frameInit_wellFormed boot, fun _ _ => Nat.zero_le _,
    fun f huse hf => ((frameInit_counted boot).1.live_iff f hf).mp huse⟩

/-- Every run keeps for good what `frame_init` has marked. -/
theorem OwnedRun.holdsForGood (h : OwnedRun ok boot s a reserved) :
    s.HoldsForGood a {f | (frameInit boot).frameBitmap f = true} := by
  induction h with
  | init => exact frameInit_holdsForGood boot
  | call call _ hmatch _ ih => exact (call.does ih.wellFormed.total_le).holdsForGood ih hmatch

/-- No run changes how many frames are tracked. -/
theorem OwnedRun.total (h : OwnedRun ok boot s a reserved) :
    s.totalFrames = (frameInit boot).totalFrames := by
  induction h with
  | init => rfl
  | call call h _ _ ih =>
    exact ((call.does h.holdsForGood.wellFormed.total_le).wellFormed h.holdsForGood.wellFormed).2.trans ih

/-- A frame that is reserved while it has no owner is held for good. -/
theorem FrameCall.reserves_held (h : s.HoldsForGood a held) (call : FrameCall)
    (hlow : ∀ f < s.totalFrames, f < firstFrame → a f < s.frameRefcounts f)
    (hok : call.ReservesUnowned a) {f : Nat} (hf : f < s.totalFrames) (hreserved : f ∈ call.reserves s) :
    call.owners s a f < (call.run s).2.frameRefcounts f := by
  cases call with
  | reserveRange startAddr endAddr =>
    obtain ⟨hdone, hrange⟩ := hreserved
    show a f < (s.frameReserveRange startAddr.toNat endAddr.toNat).2.frameRefcounts f
    rcases frameReserveRange_cases s h.wellFormed.total_le startAddr endAddr with hfail | ⟨l, hl, hmark⟩
    · rw [hfail] at hdone
      cases hdone
    · have hmem : f ∈ l := (hl f).mpr ⟨hrange, hf⟩
      rw [hmark, (markFrames_frame l s f).2]
      by_cases hpool : firstFrame ≤ f
      · have hnone : a f = 0 := hok f hrange hpool
        split
        · omega
        · rename_i hpos
          have : s.frameRefcounts f ≠ 0 := fun hz => hpos ⟨hmem, hz⟩
          omega
      · have := hlow f hf (Nat.not_le.mp hpool)
        split <;> omega
  | _ => exact absurd hreserved (Set.notMem_empty f)

/-- When no range is reserved that has a frame with an owner, reserved frames are held for good. -/
theorem OwnedRun.reservedHeld (h : OwnedRun FrameCall.ReservesUnowned boot s a reserved) :
    s.HoldsForGood a reserved := by
  induction h with
  | init => exact ⟨frameInit_wellFormed boot, fun _ _ => Nat.zero_le _, fun _ h => absurd h (Set.notMem_empty _)⟩
  | @call s a reserved call h hmatch hok ih =>
    have hdoes := call.does ih.wellFormed.total_le
    have hkept := hdoes.holdsForGood ih hmatch
    refine ⟨hkept.wellFormed, hkept.owned, fun f hf htotal => ?_⟩
    rcases hf with hf | hf
    · exact hkept.held f hf htotal
    · have hinit := h.holdsForGood
      rw [(hdoes.wellFormed ih.wellFormed).2] at htotal
      refine call.reserves_held ih (fun g hg hlow => hinit.held g ?_ hg) hok htotal hf
      exact (frameInit_wellFormed boot).low g (h.total ▸ hg) hlow

/-- A frame that is held for good is not handed out. -/
theorem FrameState.HoldsForGood.not_allocated (h : s.HoldsForGood a held) {call : FrameCall}
    (halloc : call = .alloc ∨ ∃ limit, call = .allocBelow limit) (hne : (call.run s).1 ≠ 0) :
    frameOf (call.run s).1 ∉ held ∧ s.frameBitmap (frameOf (call.run s).1) = false := by
  obtain ⟨limit, hrun⟩ : ∃ limit, call.run s = s.frameAllocBelow limit := by
    rcases halloc with rfl | ⟨limit, rfl⟩
    · exact ⟨s.totalFrames * frameSize, rfl⟩
    · exact ⟨limit.toNat, rfl⟩
  rw [hrun] at hne ⊢
  rcases h.wellFormed.allocatesLowest limit with ⟨f, haddr, -, -, hf, hfree, -⟩ | ⟨hzero, -⟩
  · rw [haddr, (frameAddr_facts (hf.trans_le h.wellFormed.total_le)).2]
    refine ⟨fun hheld => ?_, hfree⟩
    have := h.held f hheld hf
    have := (h.wellFormed.live_iff f hf).mpr (by omega)
    rw [hfree] at this
    cases this
  · exact absurd hzero hne

/-- As long as no range is reserved that has a frame with an owner, a reserved frame is not allocated. -/
theorem reserved_stays_reserved (h : OwnedRun FrameCall.ReservesUnowned boot s a reserved)
    {call : FrameCall} (halloc : call = .alloc ∨ ∃ limit, call = .allocBelow limit)
    (hne : (call.run s).1 ≠ 0) : frameOf (call.run s).1 ∉ reserved :=
  (h.reservedHeld.not_allocated halloc hne).1

/-- A machine of 4 MiB without a memory map: the frames from `RESERVED_LOW_END` on are free. -/
def BootInfo.small : BootInfo := ⟨[], 4096, 0⟩

/-- The frames of the pool are free. -/
theorem small_free {f : Nat} (hlow : firstFrame ≤ f) (hf : f < 1024) :
    (frameInit .small).frameBitmap f = false :=
  (frameInit_free_iff .small f).2.mpr ⟨hf, hlow, Nat.zero_le _, trivial⟩

/-- Those of low memory are not. -/
theorem small_reserved {f : Nat} (hf : f < firstFrame) : (frameInit .small).frameBitmap f = true := by
  by_contra hc
  have hfree := (frameInit_free_iff .small f).2.mp (Bool.not_eq_true _ ▸ hc)
  exact absurd hfree.2.1 (Nat.not_le.mpr hf)

/-- All of 4 MiB are tracked. -/
theorem small_total : (frameInit .small).totalFrames = 1024 := (frameInit_free_iff .small 0).1

/-- An allocation does not fail while a frame is free. -/
theorem FrameState.WellFormed.alloc_ne_zero (h : s.WellFormed) {f : Nat} (hlow : firstFrame ≤ f)
    (hf : f < s.totalFrames) (hfree : s.frameBitmap f = false) : (FrameCall.alloc.run s).1 ≠ 0 := by
  show (s.frameAllocBelow (s.totalFrames * frameSize)).1 ≠ 0
  rcases h.allocatesLowest (s.totalFrames * frameSize) with ⟨g, haddr, hlow', -, hg, -⟩ | ⟨-, hnone⟩
  · rw [haddr]
    exact frameAddr_pool_ne_zero hlow' (hg.trans_le h.total_le)
  · have := hnone f hlow (by rwa [Nat.mul_div_cancel _ (by decide)]) hf
    rw [hfree] at this
    cases this

/-- What a reservation leaves of a frame outside its range. -/
theorem reserveRange_outside (htotal : s.totalFrames ≤ maxFrames) {startAddr endAddr : Word} {f : Nat}
    (hf : ¬ InRange startAddr endAddr f) :
    ((FrameCall.reserveRange startAddr endAddr).run s).2.frameBitmap f = s.frameBitmap f := by
  have hstate : ((FrameCall.reserveRange startAddr endAddr).run s).2 =
      (s.frameReserveRange startAddr.toNat endAddr.toNat).2 := rfl
  rw [hstate]
  rcases frameReserveRange_cases s htotal startAddr endAddr with hfail | ⟨l, hl, hmark⟩
  · rw [hfail]
  · have hout : f ∉ l := fun h => hf ((hl f).mp h).1
    rw [hmark, (markFrames_frame l s f).1, decide_eq_false hout, Bool.or_false]

/-- The reservation of the lowest frame of the pool. -/
abbrev reserveLowest : FrameCall := .reserveRange 0x300000 0x301000

/-- After it the next frame can be allocated. -/
theorem alloc_after_reserveLowest (hwf : s.WellFormed) (htotal : s.totalFrames = 1024)
    (hfree : s.frameBitmap 769 = false) : (FrameCall.alloc.run (reserveLowest.run s).2).1 ≠ 0 := by
  obtain ⟨hwf', htotal'⟩ := (reserveLowest.does hwf.total_le).wellFormed hwf
  refine hwf'.alloc_ne_zero (by decide) (f := 769) (by rw [htotal', htotal]; decide) ?_
  rw [reserveRange_outside hwf.total_le (by decide), hfree]

/-- The lowest frame is reserved, and the next allocation returns another one. -/
theorem reserved_stays_reserved_small :
    frameOf (FrameCall.alloc.run (reserveLowest.run (frameInit .small)).2).1 ∉
      (∅ : Set Nat) ∪ reserveLowest.reserves (frameInit .small) := by
  have hne := alloc_after_reserveLowest (frameInit_wellFormed .small) small_total
    (small_free (by decide) (by decide))
  exact reserved_stays_reserved (.call reserveLowest .init trivial fun _ _ _ => rfl) (.inl rfl) hne

/-- A reservation adds nothing to a frame that is in use. -/
theorem reserveRange_inUse (htotal : s.totalFrames ≤ maxFrames) (startAddr endAddr : Word) {f : Nat}
    (hf : s.frameRefcounts f ≠ 0) :
    ((FrameCall.reserveRange startAddr endAddr).run s).2.frameRefcounts f = s.frameRefcounts f := by
  have hstate : ((FrameCall.reserveRange startAddr endAddr).run s).2 =
      (s.frameReserveRange startAddr.toNat endAddr.toNat).2 := rfl
  rw [hstate]
  rcases frameReserveRange_cases s htotal startAddr endAddr with hfail | ⟨l, -, hmark⟩
  · rw [hfail]
  · rw [hmark, (markFrames_frame l s f).2, if_neg fun h => hf h.2]

/-- A range that begins in the tracked memory is reserved. -/
theorem frameReserveRange_done (hinit : s.frameInitialized = true) {startAddr endAddr : Nat}
    (hlt : startAddr < endAddr) (hstart : startAddr < s.totalFrames * frameSize) :
    (s.frameReserveRange startAddr endAddr).1 = true := by
  unfold FrameState.frameReserveRange
  rw [hinit, decide_eq_false (Nat.not_le.mpr hlt)]
  dsimp only
  rw [if_neg (by decide), if_neg (Nat.not_le.mpr hstart)]

/-- The lowest frame of the pool is allocated, reserved by someone else, released and allocated again. -/
theorem reallocates_reserved {boot : BootInfo} {s₀ : FrameState} (hwf : s₀.WellFormed)
    (hfree : s₀.frameBitmap 768 = false) (htotal : s₀.totalFrames = 1024)
    (hrun : OwnedRun (fun _ _ => True) boot s₀ (fun _ => 0) ∅) :
    ∃ s a reserved, OwnedRun (fun _ _ => True) boot s a reserved ∧ (FrameCall.alloc.run s).1 ≠ 0 ∧
      frameOf (FrameCall.alloc.run s).1 ∈ reserved := by
  have haddr := frameAddr_facts (f := 768) (by decide)
  -- the frame is allocated
  have hrun₁ : (FrameCall.allocBelow 0x301000).run s₀ = (frameAddr 768, s₀.take 768) := by
    show s₀.frameAllocBelow 0x301000 = _
    rcases frameAllocBelow_cases s₀ 0x301000 with ⟨-, hnone⟩ | ⟨f, hlow, hlimit, -, -, -, hsome⟩
    · have := hnone hwf.initialized 768 (by decide) (by decide) (by omega)
      rw [hfree] at this
      cases this
    · have hf : f = 768 := by
        simp only [firstFrame] at hlow
        simp only [frameSize] at hlimit
        omega
      rw [hsome, hf]
  have hrun' := hrun.call (.allocBelow 0x301000) trivial trivial
  have howner (a : Nat → Nat) : (FrameCall.allocBelow 0x301000).owners s₀ a = update a 768 1 := by
    show handOut ((FrameCall.allocBelow 0x301000).run s₀).1 a = _
    rw [hrun₁]
    unfold handOut
    rw [if_neg (frameAddr_pool_ne_zero (by decide) (by decide)), haddr.2]
  rw [hrun₁, howner] at hrun'
  have hwf₁ : (s₀.take 768).WellFormed :=
    ⟨hwf.toCounted.take (by omega) hfree, hwf.initialized, hwf.low.take⟩
  have hcount₁ : (s₀.take 768).frameRefcounts 768 = 1 := by
    have hzero : s₀.frameRefcounts 768 = 0 := by
      have := mt (hwf.live_iff 768 (by omega)).mpr (by rw [hfree]; nofun)
      omega
    rw [take_refcount hzero, hzero, if_pos rfl]
  have htotal₁ : (s₀.take 768).totalFrames = 1024 := by rw [take_total, htotal]
  generalize s₀.take 768 = s₁ at hrun' hwf₁ hcount₁ htotal₁
  -- it is reserved
  have hrun₂ := hrun'.call reserveLowest trivial trivial
  have hreserved : 768 ∈ reserveLowest.reserves s₁ :=
    ⟨frameReserveRange_done hwf₁.initialized (by decide) (by rw [htotal₁]; decide), by decide⟩
  obtain ⟨hwf₂, htotal₂⟩ := (reserveLowest.does hwf₁.total_le).wellFormed hwf₁
  have hcount₂ := reserveRange_inUse hwf₁.total_le 0x300000 0x301000 (f := 768) (by omega)
  rw [hcount₁] at hcount₂
  rw [htotal₁] at htotal₂
  have howner₂ : reserveLowest.owners s₁ (update (fun _ => 0) 768 1) = update (fun _ => 0) 768 1 := rfl
  rw [howner₂] at hrun₂
  generalize (reserveLowest.run s₁).2 = s₂ at hrun₂ hwf₂ htotal₂ hcount₂
  -- its owner releases it
  have hmatch : FrameCall.Matched (update (fun _ => 0) 768 1) (.release (frameAddr 768)) := by
    show 0 < (update (fun _ => 0) 768 1 : Nat → Nat) (frameOf (frameAddr 768))
    rw [haddr.2, update_self]
    exact Nat.one_pos
  have hrun₃ := hrun₂.call (.release (frameAddr 768)) hmatch trivial
  have hrelease := frameRelease_eq (f := 768) hwf₂.toCounted hwf₂.initialized (by decide)
    (by rw [htotal₂]; decide) (by rw [hcount₂]; exact Nat.one_pos)
  have hstate₃ : ((FrameCall.release (frameAddr 768)).run s₂).2 = s₂.dropRef 768 := by
    show (s₂.frameRelease (frameAddr 768)).2 = _
    rw [hrelease]
  rw [hstate₃] at hrun₃
  have hwf₃ := hrun₃.holdsForGood.wellFormed
  have hfree₃ : (s₂.dropRef 768).frameBitmap 768 = false := by
    unfold FrameState.dropRef
    dsimp only
    rw [hcount₂, if_pos rfl, update_self]
  have htotal₃ : (s₂.dropRef 768).totalFrames = 1024 := htotal₂
  generalize s₂.dropRef 768 = s₃ at hrun₃ hwf₃ hfree₃ htotal₃
  -- and it is allocated again
  have hne := hwf₃.alloc_ne_zero (f := 768) (by decide) (by omega) hfree₃
  have hresult : frameOf (FrameCall.alloc.run s₃).1 = 768 := by
    show frameOf (s₃.frameAllocBelow (s₃.totalFrames * frameSize)).1 = 768
    rcases hwf₃.allocatesLowest (s₃.totalFrames * frameSize) with
      ⟨f, hf, hlow, -, hlt, -, hlowest⟩ | ⟨hzero, -⟩
    · rw [hf, (frameAddr_facts (hlt.trans_le hwf₃.total_le)).2]
      by_contra hne
      have := hlowest 768 (by decide) (by simp only [firstFrame] at hlow; omega)
      rw [hfree₃] at this
      cases this
    · exact absurd hzero hne
  refine ⟨_, _, _, hrun₃, hne, ?_⟩
  rw [hresult]
  exact .inl (.inr hreserved)

/-- **A reserved frame is allocated** in a run that reserves a frame with an owner. -/
theorem reserved_frame_allocated :
    ¬ ∀ (boot : BootInfo) (s : FrameState) (a : Nat → Nat) (reserved : Set Nat) (call : FrameCall),
      OwnedRun (fun _ _ => True) boot s a reserved → call = .alloc ∨ (∃ limit, call = .allocBelow limit) →
        (call.run s).1 ≠ 0 → frameOf (call.run s).1 ∉ reserved := by
  intro h
  obtain ⟨s, a, reserved, hrun, hne, hreserved⟩ := reallocates_reserved (frameInit_wellFormed .small)
    (small_free (by decide) (by decide)) small_total .init
  exact h .small s a reserved .alloc hrun (.inl rfl) hne hreserved

end

/-! ### What the firmware keeps -/

/-- A frame lies in an entry. -/
def E820Entry.Contains (e : E820Entry) (f : Nat) : Prop :=
  e.base ≤ f * frameSize ∧ (f + 1) * frameSize ≤ e.base + e.length

/-- A frame and an entry have an address in common. -/
def E820Entry.Meets (e : E820Entry) (f : Nat) : Prop :=
  ∃ address, f * frameSize ≤ address ∧ address < (f + 1) * frameSize ∧ e.base ≤ address ∧
    address < e.base + e.length

/-- A frame lies in an entry of usable memory, and meets no entry of another type. -/
def BootInfo.OnlyUsable (boot : BootInfo) (f : Nat) : Prop :=
  (∃ e ∈ boot.entries, e.Usable ∧ e.Contains f) ∧ ∀ e ∈ boot.entries, ¬ e.Usable → ¬ e.Meets f

/-- The frames that the machine may use, as far as one entry tells: tracked, from `RESERVED_LOW_END` on,
above the kernel image and in a usable entry that ends below `2^64`. -/
def BootInfo.Candidate (boot : BootInfo) (f : Nat) : Prop :=
  firstFrame ≤ f ∧ boot.kernelLimit ≤ f * frameSize ∧ f < boot.trackedFrames ∧
    ∃ e ∈ boot.entries, e.Usable ∧ e.base + e.length < 2 ^ 64 ∧ e.Contains f

/-- The rounding of `frame_init` loses no frame of an entry, and adds none. -/
theorem E820Entry.frees_iff {e : E820Entry} (hbase : e.base < 2 ^ 64) (hlength : e.length < 2 ^ 64)
    {f : Nat} (hf : f < maxFrames) :
    e.Frees f ↔ e.Usable ∧ e.base + e.length < 2 ^ 64 ∧ e.Contains f := by
  unfold E820Entry.Frees E820Entry.Contains alignUp alignDown
  have h64 : (2 : Nat) ^ 64 = 18446744073709551616 := by decide
  rw [e.trackedEnd_eq]
  rw [h64] at hbase hlength ⊢
  simp only [maxTrackedMemory, maxFrames, frameSize, wordSize] at hf ⊢
  constructor
  · rintro ⟨hu, hlow, hstart, hend⟩
    rw [Nat.mod_eq_of_lt (by omega)] at hstart
    by_cases hpast : e.base + e.length < 18446744073709551616
    · rw [Nat.mod_eq_of_lt hpast] at hend
      exact ⟨hu, hpast, by omega, by omega⟩
    · -- an end past `2^64` is cut to one below the base
      have hcut : (e.base + e.length) % 18446744073709551616 < e.base := by omega
      omega
  · rintro ⟨hu, hpast, hstart, hend⟩
    rw [Nat.mod_eq_of_lt hpast, Nat.mod_eq_of_lt (by omega)]
    exact ⟨hu, by omega, by omega, by omega⟩

/-- The numbers of an entry are 64-bit numbers. -/
theorem bootInfo_bounds {handoff : E820Handoff} {e : E820Entry} (he : e ∈ e820Init handoff) :
    e.base < 2 ^ 64 ∧ e.length < 2 ^ 64 := by
  unfold e820Init at he
  split at he
  · cases he
  · obtain ⟨i, -, rfl⟩ := List.mem_map.mp he
    exact ⟨(handoff.entries i).base.isLt, (handoff.entries i).length.isLt⟩

/-- With a memory map, the free frames after `frame_init` are the candidates. -/
theorem frameInit_free_iff_candidate {handoff : E820Handoff} {cmos : Nat → Byte} {kernelEnd : Word}
    (havailable : (e820Init handoff).isEmpty = false) (f : Nat) :
    (frameInit (bootInfo handoff cmos kernelEnd)).frameBitmap f = false ↔
      (bootInfo handoff cmos kernelEnd).Candidate f := by
  rw [(frameInit_free_iff _ f).2]
  unfold BootInfo.Candidate BootInfo.Frees BootInfo.e820IsAvailable
  have hentries : (bootInfo handoff cmos kernelEnd).entries = e820Init handoff := rfl
  rw [hentries, havailable]
  generalize bootInfo handoff cmos kernelEnd = boot
  have hfrees (hf : f < boot.trackedFrames) : (∃ e ∈ e820Init handoff, e.Frees f) ↔
      ∃ e ∈ e820Init handoff, e.Usable ∧ e.base + e.length < 2 ^ 64 ∧ e.Contains f := by
    have hmax : f < maxFrames := hf.trans_le (Nat.min_le_right _ _)
    refine exists_congr fun e => and_congr_right fun he => ?_
    exact E820Entry.frees_iff (bootInfo_bounds he).1 (bootInfo_bounds he).2 hmax
  constructor
  · rintro ⟨hf, hlow, hk, hfree⟩
    exact ⟨hlow, hk, hf, (hfrees hf).mp hfree⟩
  · rintro ⟨hlow, hk, hf, hfree⟩
    exact ⟨hf, hlow, hk, (hfrees hf).mpr hfree⟩

/-- The frames that are free after `frame_init`, and those that are handed out later to callers that
release what they own, are usable memory and no other. -/
structure FreeOnlyUsable (boot : BootInfo) : Prop where
  free : ∀ f, (frameInit boot).frameBitmap f = false → boot.OnlyUsable f
  allocated : ∀ s a reserved (call : FrameCall), OwnedRun (fun _ _ => True) boot s a reserved →
    call = .alloc ∨ (∃ limit, call = .allocBelow limit) → (call.run s).1 ≠ 0 →
      boot.OnlyUsable (frameOf (call.run s).1)

/-- **Memory that the firmware keeps is never allocated** exactly where no candidate meets an entry of
another type. -/
theorem free_only_usable_iff (handoff : E820Handoff) (cmos : Nat → Byte) (kernelEnd : Word)
    (havailable : (e820Init handoff).isEmpty = false) :
    FreeOnlyUsable (bootInfo handoff cmos kernelEnd) ↔
      ∀ f, (bootInfo handoff cmos kernelEnd).Candidate f →
        ∀ e ∈ e820Init handoff, ¬ e.Usable → ¬ e.Meets f := by
  have hfree := @frameInit_free_iff_candidate handoff cmos kernelEnd havailable
  have hentries : (bootInfo handoff cmos kernelEnd).entries = e820Init handoff := rfl
  constructor
  · intro h f hf e he hu
    exact (h.free f ((hfree f).mpr hf)).2 e he hu
  · intro h
    have honly (f : Nat) (hf : (frameInit (bootInfo handoff cmos kernelEnd)).frameBitmap f = false) :
        (bootInfo handoff cmos kernelEnd).OnlyUsable f := by
      obtain ⟨-, -, -, e, he, hu, -, hcontains⟩ := (hfree f).mp hf
      exact ⟨⟨e, he, hu, hcontains⟩, h f ((hfree f).mp hf)⟩
    refine ⟨honly, fun s a reserved call hrun halloc hne => honly _ ?_⟩
    have hheld := (hrun.holdsForGood.not_allocated halloc hne).1
    exact Bool.not_eq_true _ ▸ hheld

/-- A map with one entry of usable memory. -/
theorem free_only_usable_iff_page :
    FreeOnlyUsable (bootInfo ⟨e820Magic, 1, fun _ => ⟨0, 0x1000000, 1⟩⟩ (fun _ => 0) 0) ↔
      ∀ f, (bootInfo ⟨e820Magic, 1, fun _ => ⟨0, 0x1000000, 1⟩⟩ (fun _ => 0) 0).Candidate f →
        ∀ e ∈ e820Init ⟨e820Magic, 1, fun _ => ⟨0, 0x1000000, 1⟩⟩, ¬ e.Usable → ¬ e.Meets f :=
  free_only_usable_iff _ _ _ (by decide)

/-- A map of 16 MiB in which the firmware keeps one page. -/
def overlappingMap : E820Handoff where
  magic := e820Magic
  count := 2
  entries := fun i => if i = 0 then ⟨0, 0x1000000, 1⟩ else ⟨0x300000, 0x1000, 2⟩

/-- The page that the firmware keeps is free. -/
theorem firmware_page_free : ¬ ∀ (handoff : E820Handoff) (cmos : Nat → Byte) (kernelEnd : Word),
    (e820Init handoff).isEmpty = false → FreeOnlyUsable (bootInfo handoff cmos kernelEnd) := by
  intro h
  have honly := (free_only_usable_iff overlappingMap (fun _ => 0) 0 (by decide)).mp (h _ _ _ (by decide))
  refine honly 768 ⟨by decide, by decide, by decide, ⟨0, 0x1000000, 1⟩, ?_, rfl, by decide, by decide, by decide⟩
    ⟨0x300000, 0x1000, 2⟩ ?_ (by decide) ⟨0x300000, by decide, by decide, by decide, by decide⟩
  · exact List.mem_cons_self
  · exact List.mem_cons_of_mem _ List.mem_cons_self

end AgenticOs
