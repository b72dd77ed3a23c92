import AgenticOs.Memory.CopyOnWrite
import AgenticOs.Memory.UserPages

/-!
# When the paging code refuses

`copy_on_write_refines_copying` follows the outcome of every operation, also when the operation fails. The
operations that can be refused are the three that need frames, and this file says when they are.

* **Main result** (`refused_for_lack`): in every state that callers reach from any boot, a creation that fails
  finds fewer than two free frames below 4 MiB; a mapping that fails finds no frame below its limit, or no
  second one for a table; a clone that fails finds no frame for the new directory or for one of its tables, or
  a page that is counted 32768 times already, or no scratch table.
* **One by one**: `create_refused`, `map_refused`, `clone_refused`, where `ownedTables` counts the tables that
  a clone needs.
* **Granted** (`Tracks.clone_granted`): a clone that lacks nothing adds an address space.
* **Both together** (`create_and_clone`): with four frames to spare an address space is created and cloned,
  whatever has happened before; a machine of 4 MiB has them after its start (`create_and_clone_small`).
-/

namespace AgenticOs

open Function Finset Lib

namespace PagingState

/-- The tables that a directory owns. -/
def ownedTables (s : PagingState) (d : Nat) : Nat :=
  tableIndices.countP fun i => (ownedTable i (s.memory.entry (frameAddr d) i)).isSome

/-- A page of a directory that is counted so often that a clone of every address space might not be. -/
def CrowdedPage (s : PagingState) (d : Nat) : Prop :=
  ∃ i j f, s.mapsFrame f (d, i, j) ∧ 0x8000 ≤ s.memory.frames.frameRefcounts f

/-- What an operation lacks. -/
def Lacks (s : PagingState) : PagingOp → Prop
  | .create => s.memory.frames.freeBelow 1024 < 2
  | .map d virtualAddr _ limit =>
    s.memory.frames.freeBelow (limit / frameSize) = 0 ∨
      isPresent (s.memory.entry (frameAddr d) (dirIndex virtualAddr)) = false ∧
        s.memory.frames.freeBelow 1024 < 2
  | .clone d =>
    s.memory.frames.freeBelow 1024 ≤ s.ownedTables d ∨ s.CrowdedPage d ∨ s.memory.kernelScratchTable = 0
  | _ => False

/-- The operations that need frames. -/
def NeedsFrames : PagingOp → Prop
  | .create | .map .. | .clone _ => True
  | _ => False

end PagingState

namespace Memory

variable {m : Memory}

/-- The scratch page is not the directories'. -/
theorem shareSupervisor_scratch (directory : Word) :
    (m.shareSupervisor directory).kernelScratchTable = m.kernelScratchTable := by
  unfold shareSupervisor
  induction tableIndices generalizing m with
  | nil => rfl
  | cons i l ih =>
    refine ih.trans ?_
    unfold shareEntry
    dsimp only
    split <;> rfl

/-- A creation finds no two frames, or takes the lowest ones. -/
theorem create_cases (hinit : m.frames.frameInitialized = true) (hcounted : m.frames.Counted) :
    m.frames.freeBelow 1024 < 2 ∨
      ∃ d t, m.frames.Lowest d ∧ (m.frames.take d).Lowest t ∧ m.pagingCreateAddressSpace.1 = frameAddr d ∧
        m.pagingCreateAddressSpace.2.frames = (m.frames.take d).take t ∧
        m.pagingCreateAddressSpace.2.kernelScratchTable = m.kernelScratchTable := by
  unfold pagingCreateAddressSpace
  rcases allocTable_lowest hinit hcounted.total_le with ⟨hnone, -⟩ | ⟨d, -, hd, halloc⟩
  · exact .inl (by omega)
  rw [halloc]
  dsimp only
  rw [if_neg (hd.frameAddr_ne_zero hcounted)]
  have hcounted₁ := hcounted.take hd.lt hd.free
  rcases allocTable_lowest (m := (m.withFrames (m.frames.take d)).writeFrame d fun _ => 0x02) hinit
    hcounted₁.total_le with ⟨hnone, -⟩ | ⟨t, -, ht, halloc'⟩
  · have hfree : (m.frames.take d).freeBelow 1024 = 0 := hnone
    rw [hd.freeBelow_take] at hfree
    exact .inl (by omega)
  · rw [halloc']
    dsimp only
    rw [if_neg (ht.frameAddr_ne_zero hcounted₁), fillTable_eq]
    exact .inr ⟨d, t, hd, ht, rfl, shareSupervisor_frames _, shareSupervisor_scratch _⟩

/-- A creation takes two frames. -/
theorem create_refused (hinit : m.frames.frameInitialized = true) (hcounted : m.frames.Counted)
    (hzero : m.pagingCreateAddressSpace.1 = 0) : m.frames.freeBelow 1024 < 2 := by
  rcases create_cases hinit hcounted with hfew | ⟨d, t, hd, -, hres, -⟩
  · exact hfew
  · exact absurd (hres.symm.trans hzero) (hd.frameAddr_ne_zero hcounted)

/-- A mapping takes a frame for the page, and one for a table where there is none. -/
theorem map_refused {d limit : Nat} {va flags : Word} (hd0 : 0 < d) (hd : d < 1048576)
    (hinit : m.frames.frameInitialized = true) (hcounted : m.frames.Counted)
    (hfailed : (PagingState.mapFresh m d va flags limit).1 = .failed) :
    m.frames.freeBelow (limit / frameSize) = 0 ∨
      isPresent (m.entry (frameAddr d) (dirIndex va)) = false ∧ m.frames.freeBelow 1024 < 2 := by
  unfold PagingState.mapFresh frameAllocBelow at hfailed
  rcases FrameState.frameAllocBelow_lowest hinit limit with ⟨hnone, -⟩ | ⟨f, -, -, hf, halloc⟩
  · exact .inl hnone
  right
  have hcounted₁ := hcounted.take hf.lt hf.free
  rw [halloc] at hfailed
  dsimp only at hfailed
  rw [if_neg (hf.frameAddr_ne_zero hcounted)] at hfailed
  unfold pagingMapPageInDirectory at hfailed
  dsimp only at hfailed
  have hentry : (m.withFrames (m.frames.take f)).entry (frameAddr d) (dirIndex va) =
      m.entry (frameAddr d) (dirIndex va) := rfl
  rw [if_neg (not_or_intro (frameAddr_ne_zero hd0 hd) (not_not_intro (frameAddr_aligned f))),
    frameAddr_and_addrMask hd, hentry, test_pagePresent] at hfailed
  rcases hpresent : isPresent (m.entry (frameAddr d) (dirIndex va)) with _ | _
  · refine ⟨rfl, ?_⟩
    rw [hpresent, Bool.not_false, if_pos rfl] at hfailed
    have htable := allocTable_lowest (m := m.withFrames (m.frames.take f)) hinit hcounted₁.total_le
    rcases htable with ⟨hnone, -⟩ | ⟨t, -, ht, halloc'⟩
    · have hfree : (m.frames.take f).freeBelow 1024 = 0 := hnone
      rw [hf.freeBelow_take] at hfree
      omega
    · rw [halloc'] at hfailed
      dsimp only at hfailed
      rw [if_neg (ht.frameAddr_ne_zero hcounted₁), if_pos rfl] at hfailed
      cases hfailed
  · rw [hpresent, Bool.not_true, if_neg Bool.false_ne_true] at hfailed
    split at hfailed
    · rw [if_pos rfl] at hfailed
      cases hfailed
    · rw [if_pos rfl] at hfailed
      cases hfailed

end Memory

namespace Tracks

variable {m0 : Memory} {s : PagingState} {S : Spaces} {d : Nat}

/-- The tables that a directory owns. -/
theorem ownedTables_eq (h : Tracks m0 s S) (hd : d ∈ s.live) :
    s.ownedTables d = tableIndices.countP fun i => (S.table d i).isSome := by
  rw [← h.live] at hd
  refine List.countP_congr fun i _ => ?_
  have hentry : s.memory.entry (frameAddr d) i = s.memory.ram d i := by
    rw [← frameAddr_and_addrMask (h.represents.live_lt hd)]
    exact h.represents.entry_dir hd
  rw [hentry, h.represents.layout.dirs d hd]

/-- A clone takes a frame for the directory and one for each table. -/
theorem clone_refused (h : Tracks m0 s S) (hd : d ∈ s.live)
    (hzero : (s.memory.pagingCloneDirectory (frameAddr d)).1 = 0) : s.Lacks (.clone d) := by
  have hlive : d ∈ S.live := h.live ▸ hd
  rcases h.represents.cloneDirectory_cases hlive h.tableHand h.pageHand with
    ⟨-, -, hrefuses⟩ | ⟨n, table, -, hpos, hlt, -, hres, -⟩
  · refine hrefuses.imp (fun hfew => ?_) (.imp_left ?_)
    · rw [h.ownedTables_eq hd]
      exact hfew
    · rintro ⟨i, j, e, he, hcount⟩
      exact ⟨i, j, frameOf e, (h.mapsFrame_iff hd i j).mpr (Represents.held_page he), hcount⟩
  · exact absurd (hres.symm.trans hzero) (frameAddr_ne_zero hpos (by omega))

/-- An operation that needs frames is refused only when it lacks something. -/
theorem refused (h : Tracks m0 s S) {op : PagingOp} (hneeds : PagingState.NeedsFrames op) (henabled : s.enabled op)
    (hfailed : (s.step op).1 = .failed) : s.Lacks op := by
  have hbooks := h.represents.books
  have hcreated (r : Word × Memory) (hr : (s.created r).1 = .failed) : r.1 = 0 := by
    unfold PagingState.created at hr
    split at hr
    · assumption
    · cases hr
  unfold PagingState.step at hfailed
  rw [if_pos henabled] at hfailed
  cases op with
  | create => exact Memory.create_refused hbooks.initialized hbooks.counted (hcreated _ hfailed)
  | map d virtualAddr flags limit =>
    have hd : d ∈ S.live := h.live ▸ henabled.1
    exact Memory.map_refused (h.represents.live_pos hd) (h.represents.live_lt hd) hbooks.initialized
      hbooks.counted hfailed
  | clone d => exact h.clone_refused henabled (hcreated _ hfailed)
  | store | resolve | unmap | destroy | load | loadKernel => exact absurd hneeds id

end Tracks

/-- **What is refused is refused for lack of frames**, or of room in a count: in every state that callers
reach from any boot. -/
theorem refused_for_lack (boot : BootInfo) (ram : Nat → TableIndex → Word) (early : List (Nat × Nat))
    (steps : List BootStep) (ops : List PagingOp) {op : PagingOp} (hneeds : PagingState.NeedsFrames op) :
    let s := (startPaging boot ram early steps).exec ops
    s.enabled op → (s.step op).1 = .failed → s.Lacks op := by
  intro s henabled hfailed
  have hb : Booted (startPaging boot ram early steps).memory := bootMemory_booted boot ram early steps
  obtain ⟨S, h, -⟩ := hb.tracks.exec ops
  exact h.refused hneeds henabled hfailed

/-- A clone that lacks nothing adds an address space. -/
theorem Tracks.clone_granted {m0 : Memory} {s : PagingState} {S : Spaces} {d : Nat} (h : Tracks m0 s S)
    (hd : d ∈ s.live) (hlacks : ¬s.Lacks (.clone d)) : ∃ n, (s.step (.clone d)).1 = .created n := by
  have hstep : s.step (.clone d) = s.created (s.memory.pagingCloneDirectory (frameAddr d)) := if_pos hd
  rcases h.represents.cloneDirectory (h.live ▸ hd) h.tableHand h.pageHand with
    ⟨hzero, -⟩ | ⟨n, table, -, hpos, hlt, -, hres, -⟩
  · exact absurd (h.clone_refused hd hzero) hlacks
  · refine ⟨n, ?_⟩
    rw [hstep]
    unfold PagingState.created
    rw [hres, if_neg (frameAddr_ne_zero hpos (by omega)), frameOf_frameAddr (by omega)]

/-- A new address space has its low table only. -/
theorem countP_create {m0 m : Memory} {S : Spaces} {d t : Nat} (hd : d ∉ S.live) (h : Represents m0 m S) :
    (tableIndices.countP fun i => ((S.create d t).table d i).isSome) = 1 := by
  have hfirst (i : TableIndex) : ((S.create d t).table d i).isSome = true ↔ (i == 0) = true := by
    show (if d = d ∧ i = 0 then some t else S.table d i).isSome = true ↔ _
    rw [h.table_none_of_not_live hd]
    by_cases hi : i = 0 <;> simp [hi]
  rw [List.countP_congr fun i _ => hfirst i]
  exact List.count_eq_one_of_mem Memory.nodup_tableIndices (Memory.mem_tableIndices 0)

/-- **With four frames to spare an address space is created and cloned**, whatever has happened before. -/
theorem create_and_clone (boot : BootInfo) (ram : Nat → TableIndex → Word) (early : List (Nat × Nat))
    (steps : List BootStep) (ops : List PagingOp) :
    let s := (startPaging boot ram early steps).exec ops
    4 ≤ s.memory.frames.freeBelow 1024 → s.memory.kernelScratchTable ≠ 0 →
      ∃ d n, s.outcomes [.create, .clone d] = [(.create, .created d), (.clone d, .created n)] := by
  intro s hfree hscratch
  have hb : Booted (startPaging boot ram early steps).memory := bootMemory_booted boot ram early steps
  obtain ⟨S, h, -⟩ : ∃ S, Tracks _ s S ∧ _ := hb.tracks.exec ops
  have hbooks := h.represents.books
  rcases Memory.create_cases hbooks.initialized hbooks.counted with hfew | ⟨d, t, hd, ht, hres, hframes, hkept⟩
  · omega
  have hne := hd.frameAddr_ne_zero hbooks.counted
  rcases h.represents.createAddressSpace h.tableHand with ⟨hzero, -⟩ | ⟨d', t', hnew, hlt', -, hres', hrepresents, -⟩
  · exact absurd (hres.symm.trans hzero) hne
  obtain rfl : d' = d := frameAddr_inj (by omega) (hd.lt_max hbooks.counted) (hres'.symm.trans hres)
  have hstep : s.step .create = (.created d', ⟨s.memory.pagingCreateAddressSpace.2, insert d' s.live⟩) := by
    refine (if_pos trivial).trans ?_
    show s.created s.memory.pagingCreateAddressSpace = _
    unfold PagingState.created
    rw [hres, if_neg hne, frameOf_frameAddr (hd.lt_max hbooks.counted)]
  have hlive : (S.create d' t').live = insert d' s.live := by
    rw [← h.live]
    rfl
  have h₁ : Tracks _ ⟨s.memory.pagingCreateAddressSpace.2, insert d' s.live⟩ (S.create d' t') :=
    ⟨hrepresents, hlive, h.pageHand, h.tableHand, h.user, h.unshared⟩
  generalize hs₁ : (⟨s.memory.pagingCreateAddressSpace.2, insert d' s.live⟩ : PagingState) = s₁ at h₁ hstep
  have hd₁ : d' ∈ s₁.live := by
    rw [← hs₁]
    exact mem_insert_self ..
  have hone : s₁.ownedTables d' = 1 := by
    rw [h₁.ownedTables_eq hd₁]
    exact countP_create hnew h.represents
  have hspare : 2 ≤ s₁.memory.frames.freeBelow 1024 := by
    rw [← hs₁, hframes, ht.freeBelow_take, hd.freeBelow_take]
    omega
  have hlacks : ¬s₁.Lacks (.clone d') := by
    rintro (hfew | ⟨i, j, f, hmaps, -⟩ | hzero)
    · omega
    · have hheld := (h₁.mapsFrame_iff hd₁ i j).mp hmaps
      have hnone : (S.create d' t').entry d' i j = none := h.represents.entry_none_of_not_live hnew i j
      unfold Spaces.held at hheld
      dsimp only at hheld
      rw [hnone] at hheld
      cases hheld
    · rw [← hs₁] at hzero
      exact hscratch (hkept.symm.trans hzero)
  obtain ⟨n, hn⟩ := h₁.clone_granted hd₁ hlacks
  refine ⟨d', n, ?_⟩
  unfold PagingState.outcomes PagingState.outcomes PagingState.outcomes
  rw [hstep, hn]

/-- `paging_init` takes one frame, for the scratch table. -/
theorem Memory.pagingInit_supply {m : Memory} (hinit : m.frames.frameInitialized = true)
    (hcounted : m.frames.Counted) (hfree : 0 < m.frames.freeBelow 1024) :
    m.pagingInit.frames.freeBelow 1024 = m.frames.freeBelow 1024 - 1 ∧ m.pagingInit.kernelScratchTable ≠ 0 := by
  have hframes : (((m.fillTable pageDirectory fun _ => 0x02).fillTable firstPageTable identityEntry).setEntry
      pageDirectory 0 (firstPageTable ||| pagePresent ||| pageWritable)).frames = m.frames := by
    unfold setEntry
    rw [fillTable_eq, fillTable_eq]
    rfl
  unfold pagingInit
  dsimp only
  generalize ((m.fillTable pageDirectory fun _ => 0x02).fillTable firstPageTable identityEntry).setEntry
    pageDirectory 0 (firstPageTable ||| pagePresent ||| pageWritable) = m₁ at hframes ⊢
  rcases allocTable_lowest (m := m₁) (hframes ▸ hinit) (hframes ▸ hcounted.total_le) with
    ⟨hnone, -⟩ | ⟨t, -, ht, halloc⟩
  · rw [hframes] at hnone
    omega
  · have hne := ht.frameAddr_ne_zero (hframes ▸ hcounted)
    rw [halloc]
    dsimp only
    rw [if_pos hne]
    refine ⟨?_, hne⟩
    show (m₁.frames.take t).freeBelow 1024 = _
    rw [ht.freeBelow_take, hframes]

/-- A machine with four megabytes can fork. -/
theorem create_and_clone_small : let s := (startPaging .small (fun _ _ => 0) [] []).exec []
    ∃ d n, s.outcomes [.create, .clone d] = [(.create, .created d), (.clone d, .created n)] := by
  obtain ⟨hcounted, hinit⟩ := frameInit_counted .small
  have hmem : ((startPaging .small (fun _ _ => 0) [] []).exec []).memory =
      Memory.pagingInit ⟨frameInit .small, fun _ _ => 0, pageDirectory, 0⟩ := by
    unfold startPaging bootMemory PagingState.exec
    rw [List.foldl_nil, List.foldl_nil, List.foldl_nil]
  generalize hm : (⟨frameInit .small, fun _ _ => 0, pageDirectory, 0⟩ : Memory) = m at hmem
  have hframes : m.frames = frameInit .small := by
    rw [← hm]
  have hsmall : m.frames.freeBelow 1024 = 256 := by
    rw [hframes, Memory.small_freeBelow]
  obtain ⟨hfree, hscratch⟩ := Memory.pagingInit_supply (hframes ▸ hinit) (hframes ▸ hcounted)
    (hsmall ▸ Nat.succ_pos 255)
  refine create_and_clone .small (fun _ _ => 0) [] [] [] ?_ ?_
  · rw [hmem, hfree, hsmall]
    decide
  · rw [hmem]
    exact hscratch

end AgenticOs
