import AgenticOs.Memory.Moves

/-!
# The kernel's own mappings

The state address spaces start from: `frame_init`, some reserved ranges, `paging_init`, and then the
supervisor mappings and reservations of kernel start-up (the RAM disk's, for example), all outside the user
range (`bootMemory`).

* **`paging_init`** (`booting_pagingInit`): it leaves the kernel's directory with its first table and the
  scratch table.
* **Steps** (`Booting.steps`): a mapping of the kernel writes an entry into a table that is there
  (`Booting.writeTable`) or into a new one (`Booting.newTable`); a reservation only takes frames out of the
  pool (`Booting.reserve`).
* **Main result** (`bootMemory_booted`): every such state is `Booted`.

What physical memory held at power-on is arbitrary, and so are the map, the ranges and the number of steps.
-/

namespace AgenticOs

open Function Finset Lib

/-- A mapping the kernel makes for itself: no user bit, outside the user range. -/
structure SupervisorMap where
  virtualAddr : Word
  physicalAddr : Word
  flags : Word
  supervisor : isUser flags = false
  outside : ¬ inUserRange (dirIndex virtualAddr)

/-- What start-up does to memory after `paging_init`. -/
inductive BootStep
  | reserve (startAddr endAddr : Nat)
  | map (mapping : SupervisorMap)

namespace Memory

/-- `frame_reserve_range` on the allocator of this memory. -/
def frameReserveRange (m : Memory) (startAddr endAddr : Nat) : Memory :=
  m.withFrames (m.frames.frameReserveRange startAddr endAddr).2

/-- One start-up step. -/
def bootStep (m : Memory) : BootStep → Memory
  | .reserve startAddr endAddr => m.frameReserveRange startAddr endAddr
  | .map x => m.pagingMapPage x.virtualAddr x.physicalAddr x.flags

end Memory

/-- Memory when the kernel has started: `frame_init`, early reservations, `paging_init`, and the
start-up steps. `ram` is what physical memory held at power-on. -/
def bootMemory (boot : BootInfo) (ram : Nat → TableIndex → Word) (early : List (Nat × Nat))
    (steps : List BootStep) : Memory :=
  let m : Memory :=
    { frames := frameInit boot
      ram := ram
      activePageDirectory := pageDirectory
      kernelScratchTable := 0 }
  let m := early.foldl (fun m r => m.frameReserveRange r.1 r.2) m
  steps.foldl Memory.bootStep m.pagingInit

/-- What start-up keeps, on the way to `Booted`: entry 0 is the first page table, and the other
tables of the kernel directory lie in the allocator's range. -/
structure Booting (m : Memory) : Prop where
  booted : Booted m
  firstTable : frameOf (m.ram (frameOf pageDirectory) 0) = frameOf firstPageTable
  firstPresent : isPresent (m.ram (frameOf pageDirectory) 0) = true
  high : ∀ t, KernelTable m t → firstFrame ≤ t

variable {m : Memory}

/-- The frame of the kernel's directory. -/
theorem frameOf_pageDirectory : frameOf pageDirectory = 256 := by decide

/-- Reserving frames keeps `Counted` and only shrinks the pool. -/
theorem frameReserveRange_counted {s : FrameState} (h : s.Counted) (a b : Nat) :
    (s.frameReserveRange a b).2.Counted ∧
      (s.frameReserveRange a b).2.frameInitialized = s.frameInitialized ∧
      ∀ f, Pool (s.frameReserveRange a b).2 f → Pool s f := by
  unfold FrameState.frameReserveRange
  dsimp only
  split
  · exact ⟨h, rfl, fun _ hf => hf⟩
  · split
    · exact ⟨h, rfl, fun _ hf => hf⟩
    · obtain ⟨hinit, hmono⟩ := FrameState.markAllocated_monotone s a (min b (s.totalFrames * frameSize))
      have hcount := h.markAllocated a (min b (s.totalFrames * frameSize))
      refine ⟨hcount.1, hinit, ?_⟩
      rintro f ⟨hlow, hlt, hfree⟩
      refine ⟨hlow, hcount.2 ▸ hlt, ?_⟩
      by_contra hb
      rw [Bool.not_eq_false] at hb
      rw [hmono f hb] at hfree
      cases hfree

/-- Taking a frame shrinks the pool by that frame. -/
theorem pool_take {s : FrameState} {f g : Nat} (h : Pool (s.take f) g) : Pool s g ∧ g ≠ f := by
  obtain ⟨hlow, hlt, hfree⟩ := h
  have hne : g ≠ f := by
    rintro rfl
    simp [FrameState.take] at hfree
  exact ⟨⟨hlow, hlt, (FrameState.take_bitmap_of_ne hne).symm.trans hfree⟩, hne⟩

/-- `allocator_alloc_page_table` at start-up. -/
theorem allocTable_boot (m : Memory) :
    m.allocatorAllocPageTable = (0, m) ∨
    ∃ f, firstFrame ≤ f ∧ f < 1024 ∧ f < m.frames.totalFrames ∧ m.frames.frameBitmap f = false ∧
      m.allocatorAllocPageTable =
        (frameAddr f, (m.withFrames (m.frames.take f)).writeFrame f fun _ => 0x02) := by
  unfold Memory.allocatorAllocPageTable Memory.pagingAllocFrame Memory.frameAllocBelow
  rcases FrameState.frameAllocBelow_cases m.frames identityMappedLimit with
    ⟨heq, -⟩ | ⟨f, hlow, hlim, hf, hfree, -, heq⟩
  · left
    rw [heq]
    rfl
  · have hlim' : f < 1024 := by
      have : identityMappedLimit / frameSize = 1024 := by decide
      omega
    refine .inr ⟨f, hlow, hlim', hf, hfree, ?_⟩
    rw [heq]
    dsimp only
    have hpos : 0 < f := by
      simp only [firstFrame] at hlow
      omega
    rw [if_neg (frameAddr_ne_zero hpos (by omega)), Memory.fillTable_eq,
      frameOf_frameAddr (by omega)]

/-- A range is reserved. -/
theorem Booting.reserve (h : Booting m) (a b : Nat) : Booting (m.frameReserveRange a b) := by
  obtain ⟨hcount, hinit, hpool⟩ := frameReserveRange_counted h.booted.counted a b
  refine ⟨?_, h.firstTable, h.firstPresent, h.high⟩
  exact
    { counted := hcount
      initialized := hinit.trans h.booted.initialized
      active := h.booted.active
      supervisor := h.booted.supervisor
      kernelTable := fun t ht =>
        ⟨fun hp => (h.booted.kernelTable t ht).1 (hpool t hp), (h.booted.kernelTable t ht).2⟩
      scratch := fun hs =>
        ⟨fun hp => (h.booted.scratch hs).1 (hpool _ hp), (h.booted.scratch hs).2⟩ }

/-- Writing a supervisor entry into a table of the kernel. -/
theorem Booting.writeTable (h : Booting m) {i j : TableIndex}
    (hp : isPresent (m.ram (frameOf pageDirectory) i) = true) {e : Word}
    (he : userEntry e = none) :
    Booting (m.writeFrame (frameOf (m.ram (frameOf pageDirectory) i))
      (update (m.ram (frameOf (m.ram (frameOf pageDirectory) i))) j e)) := by
  set t := frameOf (m.ram (frameOf pageDirectory) i) with ht
  have hne : t ≠ frameOf pageDirectory := by
    by_cases hi : i = 0
    · rw [ht, hi, h.firstTable]; decide
    · have hk := h.high t ⟨i, hi, hp, ht.symm⟩
      rw [frameOf_pageDirectory]
      simp only [firstFrame] at hk
      omega
  have hdir : (m.writeFrame t (update (m.ram t) j e)).ram (frameOf pageDirectory) =
      m.ram (frameOf pageDirectory) := update_of_ne (Ne.symm hne) _ _
  have hkt : ∀ t', KernelTable (m.writeFrame t (update (m.ram t) j e)) t' ↔ KernelTable m t' := by
    intro t'
    unfold KernelTable
    rw [hdir]
  refine ⟨?_, ?_, ?_, ?_⟩
  · refine { counted := h.booted.counted, initialized := h.booted.initialized,
             active := h.booted.active, supervisor := ?_, kernelTable := ?_,
             scratch := h.booted.scratch }
    · rw [hdir]
      exact h.booted.supervisor
    · intro t' ht'
      obtain ⟨h1, h2⟩ := h.booted.kernelTable t' ((hkt t').mp ht')
      refine ⟨h1, fun j' => ?_⟩
      rw [Memory.writeFrame_ram]
      by_cases htt : t' = t
      · rw [htt, update_self]
        by_cases hj : j' = j
        · rw [hj, update_self]; exact he
        · rw [update_of_ne hj, ← htt]; exact h2 j'
      · rw [update_of_ne htt]; exact h2 j'
  · rw [hdir]
    exact h.firstTable
  · rw [hdir]
    exact h.firstPresent
  · exact fun t' ht' => h.high t' ((hkt t').mp ht')

/-- A new table of the kernel, and the supervisor entry that names it. -/
theorem Booting.newTable (h : Booting m) {i : TableIndex} {f : Nat} {e : Word}
    (hlow : firstFrame ≤ f) (hf : f < m.frames.totalFrames) (hfree : m.frames.frameBitmap f = false)
    (hi : i ≠ 0) (hrange : ¬ inUserRange i) (hframe : frameOf e = f) (huser : isUser e = false) :
    Booting (((m.withFrames (m.frames.take f)).writeFrame f fun _ => 0x02).writeFrame
      (frameOf pageDirectory) (update (m.ram (frameOf pageDirectory)) i e)) := by
  have hne : f ≠ frameOf pageDirectory := by
    rw [frameOf_pageDirectory]
    simp only [firstFrame] at hlow
    omega
  have hfpool : Pool m.frames f := ⟨hlow, hf, hfree⟩
  set m' := (((m.withFrames (m.frames.take f)).writeFrame f fun _ => 0x02).writeFrame
      (frameOf pageDirectory) (update (m.ram (frameOf pageDirectory)) i e)) with hm'
  have hdir : m'.ram (frameOf pageDirectory) = update (m.ram (frameOf pageDirectory)) i e := by
    rw [hm', Memory.writeFrame_ram, update_self]
  have hram : ∀ t, t ≠ frameOf pageDirectory → t ≠ f → m'.ram t = m.ram t := by
    intro t h1 h2
    rw [hm', Memory.writeFrame_ram, update_of_ne h1, Memory.writeFrame_ram, update_of_ne h2]
    rfl
  have hnew : m'.ram f = fun _ => 0x02 := by
    rw [hm', Memory.writeFrame_ram, update_of_ne hne, Memory.writeFrame_ram, update_self]
  have hkt : ∀ t, KernelTable m' t → t = f ∨ (KernelTable m t ∧ t ≠ f) := by
    rintro t ⟨i', hi', hp, ht⟩
    rw [hdir] at hp ht
    by_cases hii : i' = i
    · left
      rw [← ht, hii, update_self, hframe]
    · right
      rw [update_of_ne hii] at hp ht
      refine ⟨⟨i', hi', hp, ht⟩, ?_⟩
      rintro rfl
      exact (h.booted.kernelTable t ⟨i', hi', hp, ht⟩).1 hfpool
  refine ⟨?_, ?_, ?_, ?_⟩
  · refine { counted := h.booted.counted.take hf hfree, initialized := h.booted.initialized,
             active := h.booted.active, supervisor := ?_, kernelTable := ?_, scratch := ?_ }
    · intro i' hp
      rw [hdir] at hp ⊢
      by_cases hii : i' = i
      · rw [hii, update_self]
        exact ⟨huser, hrange⟩
      · rw [update_of_ne hii] at hp ⊢
        exact h.booted.supervisor i' hp
    · intro t ht
      rcases hkt t ht with rfl | ⟨ht', hne'⟩
      · refine ⟨fun hp => (pool_take hp).2 rfl, fun j => ?_⟩
        rw [hnew]
        exact userEntry_absent
      · obtain ⟨h1, h2⟩ := h.booted.kernelTable t ht'
        refine ⟨fun hp => h1 (pool_take hp).1, fun j => ?_⟩
        have h256 : t ≠ frameOf pageDirectory := by
          have hk := h.high t ht'
          rw [frameOf_pageDirectory]
          simp only [firstFrame] at hk
          omega
        rw [hram t h256 hne']
        exact h2 j
    · intro hs
      exact ⟨fun hp => (h.booted.scratch hs).1 (pool_take hp).1, (h.booted.scratch hs).2⟩
  · rw [hdir, update_of_ne (Ne.symm hi)]
    exact h.firstTable
  · rw [hdir, update_of_ne (Ne.symm hi)]
    exact h.firstPresent
  · intro t ht
    rcases hkt t ht with rfl | ⟨ht', -⟩
    · exact hlow
    · exact h.high t ht'

/-- A page of the kernel is mapped. -/
theorem Booting.map (h : Booting m) (x : SupervisorMap) :
    Booting (m.pagingMapPage x.virtualAddr x.physicalAddr x.flags) := by
  unfold Memory.pagingMapPage Memory.pagingMapPageInDirectory
  rw [h.booted.active]
  dsimp only
  have hdirWord : pageDirectory &&& addrMask = pageDirectory := by decide
  rw [hdirWord]
  by_cases hz : pageDirectory = 0 ∨ x.physicalAddr.toNat % 4096 ≠ 0
  · rw [if_pos hz]
    exact h
  · rw [if_neg hz]
    have hentry : ∀ m : Memory, ∀ i, m.entry pageDirectory i = m.ram (frameOf pageDirectory) i :=
      fun _ _ => rfl
    have hpte : userEntry (x.physicalAddr &&& addrMask ||| x.flags &&& flagMask ||| pagePresent) =
        none := by
      rw [and_addrMask]
      have hfacts := mapEntry_facts (frameOf_lt x.physicalAddr) x.flags
      dsimp only at hfacts
      rw [frameAddr_and_addrMask (frameOf_lt _)] at hfacts
      rw [userEntry_eq_none, hfacts.2.2.2.1, x.supervisor, Bool.and_false]
    -- the last step: an entry in a table that is there
    have setPage : ∀ {m : Memory}, Booting m →
        isPresent (m.ram (frameOf pageDirectory) (dirIndex x.virtualAddr)) = true →
        Booting (m.setEntry (m.entry pageDirectory (dirIndex x.virtualAddr) &&& addrMask)
          (tableIndex x.virtualAddr)
          (x.physicalAddr &&& addrMask ||| x.flags &&& flagMask ||| pagePresent)) := by
      intro m hm hp
      unfold Memory.setEntry
      rw [frameOf_and_addrMask, hentry]
      exact hm.writeTable hp hpte
    rw [hentry, test_pagePresent, test_pageUser, x.supervisor]
    by_cases hp : isPresent (m.ram (frameOf pageDirectory) (dirIndex x.virtualAddr)) = true
    · rw [hp, Bool.not_true, if_neg Bool.false_ne_true, if_neg Bool.false_ne_true]
      exact setPage h hp
    · rw [Bool.not_eq_true] at hp
      rw [hp, Bool.not_false, if_pos rfl]
      rcases allocTable_boot m with heq | ⟨f, hlow, hlt, hf, hfree, heq⟩
      · rw [heq]
        exact h
      · rw [heq]
        dsimp only
        have hpos : 0 < f := by
          simp only [firstFrame] at hlow
          omega
        rw [if_neg (frameAddr_ne_zero hpos (by omega))]
        obtain ⟨hframe, hpres, -, huser⟩ := newTableEntry_facts (f := f) (by omega) x.flags
        have hi : dirIndex x.virtualAddr ≠ 0 := by
          intro hi
          rw [hi, h.firstPresent] at hp
          cases hp
        have hne : frameOf pageDirectory ≠ f := by
          rw [frameOf_pageDirectory]
          simp only [firstFrame] at hlow
          omega
        have h1 := h.newTable hlow hf hfree hi x.outside hframe (huser.trans x.supervisor)
        -- the new table does not overlap the directory
        have hdirRam : ((m.withFrames (m.frames.take f)).writeFrame f fun _ => 0x02).ram
            (frameOf pageDirectory) = m.ram (frameOf pageDirectory) := update_of_ne hne _ _
        rw [← hdirRam] at h1
        refine setPage h1 ?_
        unfold Memory.setEntry
        rw [Memory.writeFrame_ram, update_self, update_self]
        exact hpres

/-! ### `paging_init` -/

/-- The kernel's directory and first table, before the scratch table. -/
theorem booting_identity (hc : m.frames.Counted) (hi : m.frames.frameInitialized = true)
    (ha : m.activePageDirectory = pageDirectory) (hs : m.kernelScratchTable = 0) :
    Booting (((m.fillTable pageDirectory fun _ => 0x02).fillTable firstPageTable
      Memory.identityEntry).setEntry pageDirectory 0
        (firstPageTable ||| pagePresent ||| pageWritable)) := by
  rw [Memory.fillTable_eq, Memory.fillTable_eq]
  unfold Memory.setEntry
  set m' := ((m.writeFrame (frameOf pageDirectory) fun _ => 0x02).writeFrame
    (frameOf firstPageTable) Memory.identityEntry).writeFrame (frameOf pageDirectory)
      (update (((m.writeFrame (frameOf pageDirectory) fun _ => 0x02).writeFrame
        (frameOf firstPageTable) Memory.identityEntry).ram (frameOf pageDirectory)) 0
          (firstPageTable ||| pagePresent ||| pageWritable)) with hm'
  have hne : frameOf pageDirectory ≠ frameOf firstPageTable := by decide
  have hdir : m'.ram (frameOf pageDirectory) =
      update (fun _ => 0x02) 0 (firstPageTable ||| pagePresent ||| pageWritable) := by
    rw [hm', Memory.writeFrame_ram, update_self, Memory.writeFrame_ram, update_of_ne hne,
      Memory.writeFrame_ram, update_self]
  have h0 : m'.ram (frameOf pageDirectory) 0 = firstPageTable ||| pagePresent ||| pageWritable := by
    rw [hdir, update_self]
  -- no other entry is present
  have habs : ∀ i, i ≠ 0 → isPresent (m'.ram (frameOf pageDirectory) i) = false := by
    intro i hi0
    rw [hdir, update_of_ne hi0]
    decide
  have hnone : ∀ t, ¬ KernelTable m' t := by
    rintro t ⟨i, hi0, hp, -⟩
    rw [habs i hi0] at hp
    cases hp
  refine ⟨?_, ?_, ?_, fun t ht => absurd ht (hnone t)⟩
  · refine { counted := hc, initialized := hi, active := ha, supervisor := ?_,
             kernelTable := fun t ht => absurd ht (hnone t), scratch := fun h => absurd hs h }
    intro i hp
    by_cases hi0 : i = 0
    · subst hi0
      rw [h0]
      exact ⟨by decide, by decide⟩
    · rw [habs i hi0] at hp
      cases hp
  · rw [h0]
    decide
  · rw [h0]
    decide

/-- `paging_init` leaves the kernel's directory with its first table and the scratch table. -/
theorem booting_pagingInit (hc : m.frames.Counted) (hi : m.frames.frameInitialized = true)
    (ha : m.activePageDirectory = pageDirectory) (hs : m.kernelScratchTable = 0) :
    Booting m.pagingInit := by
  have h := booting_identity hc hi ha hs
  unfold Memory.pagingInit
  dsimp only
  generalize ((m.fillTable pageDirectory fun _ => 0x02).fillTable firstPageTable
    Memory.identityEntry).setEntry pageDirectory 0
      (firstPageTable ||| pagePresent ||| pageWritable) = m' at h
  rcases allocTable_boot m' with heq | ⟨f, hlow, hlt, hf, hfree, heq⟩
  · rw [heq]
    dsimp only
    rw [if_neg (fun hne => hne rfl)]
    exact { booted := { h.booted with active := rfl, scratch := fun hne => absurd rfl hne },
            firstTable := h.firstTable, firstPresent := h.firstPresent, high := h.high }
  · rw [heq]
    dsimp only
    have hpos : 0 < f := by
      simp only [firstFrame] at hlow
      omega
    have hne : frameOf pageDirectory ≠ f := by
      rw [frameOf_pageDirectory]
      simp only [firstFrame] at hlow
      omega
    rw [if_pos (frameAddr_ne_zero hpos (by omega))]
    obtain ⟨hframe, hpres, -, huser⟩ := supervisorEntry_facts (f := f) (by omega)
    have h1 := h.newTable (i := scratchDirectoryIndex) hlow hf hfree (by decide) (by decide) hframe
      huser
    have hdirRam : ((m'.withFrames (m'.frames.take f)).writeFrame f fun _ => 0x02).ram
        (frameOf pageDirectory) = m'.ram (frameOf pageDirectory) := update_of_ne hne _ _
    rw [← hdirRam] at h1
    refine { booted := { h1.booted with active := rfl, scratch := fun _ => ?_ },
             firstTable := h1.firstTable, firstPresent := h1.firstPresent, high := h1.high }
    show ¬ Pool (m'.frames.take f) (frameOf (frameAddr f)) ∧
      frameOf (frameAddr f) ≠ frameOf pageDirectory
    rw [frameOf_frameAddr (by omega)]
    exact ⟨fun hp => (pool_take hp).2 rfl, Ne.symm hne⟩

/-- Reserving ranges before `paging_init`. -/
theorem booting_early (early : List (Nat × Nat)) (hc : m.frames.Counted)
    (hi : m.frames.frameInitialized = true) (ha : m.activePageDirectory = pageDirectory)
    (hs : m.kernelScratchTable = 0) :
    Booting (early.foldl (fun m r => m.frameReserveRange r.1 r.2) m).pagingInit := by
  induction early generalizing m with
  | nil => exact booting_pagingInit hc hi ha hs
  | cons r rs ih =>
    obtain ⟨h1, h2, -⟩ := frameReserveRange_counted hc r.1 r.2
    exact ih h1 (h2.trans hi) ha hs

/-- The start-up steps keep `Booting`. -/
theorem Booting.steps (h : Booting m) (steps : List BootStep) :
    Booting (steps.foldl Memory.bootStep m) := by
  induction steps generalizing m with
  | nil => exact h
  | cons x xs ih =>
    refine ih ?_
    cases x with
    | reserve a b => exact h.reserve a b
    | map x => exact h.map x

/-- **Start-up** leaves a state that address spaces can be created from. -/
theorem bootMemory_booted (boot : BootInfo) (ram : Nat → TableIndex → Word)
    (early : List (Nat × Nat)) (steps : List BootStep) :
    Booted (bootMemory boot ram early steps) := by
  obtain ⟨hc, hi⟩ := frameInit_counted boot
  exact ((booting_early early (m := ⟨frameInit boot, ram, pageDirectory, 0⟩) hc hi rfl rfl).steps
    steps).booted

end AgenticOs
