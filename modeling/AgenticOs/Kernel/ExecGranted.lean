import AgenticOs.Kernel.AllOrNothing
import AgenticOs.Kernel.ExecProgram

/-!
# When `SYS_EXEC` succeeds

A call takes a block of the heap, two frames for an address space, frames for the pages of the image and one for
the stack. This file says that it succeeds exactly if all of them can be had, the file is a program and the
pointers of the caller can be followed.

* **The image** (`Loadable.granted`): what a load that succeeds leaves of the supply of frames, and that it maps
  only the pages of the segments.
* **The stack** (`execStack_granted`): its page can be had (`Memory.HasRoom`).
* **The new address space** (`execImage_granted`): it can be created, the file is accepted, and there are frames
  for all pages (`Memory.TakesImage`). What is created depends on the allocator only (`create_congr`), and has no
  tables for the user (`Tracks.create_noTable`).
* **The call** (`syscallExec_granted`).

None of the conditions looks into a free frame: two kernels that differ in those run the same programs.
-/

namespace AgenticOs

open Function Finset Lib

/-! ### Frames for a list of pages -/

namespace Memory

variable {m m' : Memory}

/-- The answer depends on the tables of the pages and on the numbers of free frames. -/
theorem Supply.takePages_congr (s s' : Supply) (hlow : s'.low = s.low) (hall : s'.all = s.all) {is : List TableIndex}
    (htables : ∀ i ∈ is, s'.tables i = s.tables i) : (s'.takePages is).isSome = (s.takePages is).isSome := by
  induction is generalizing s s' with
  | nil => rfl
  | cons i is ih =>
    have hfirst := htables i List.mem_cons_self
    have hothers : ∀ j ∈ is, s'.tables j = s.tables j := fun j hj => htables j (List.mem_cons_of_mem _ hj)
    show ((s'.takePage i).bind _).isSome = ((s.takePage i).bind _).isSome
    unfold takePage
    rw [hall, hlow, hfirst]
    split
    · rfl
    split
    · exact ih _ _ (by dsimp only) (by dsimp only) hothers
    split
    · rfl
    · refine ih _ _ (by dsimp only) (by dsimp only) fun j hj => ?_
      show update s'.tables i true j = update s.tables i true j
      by_cases hji : j = i
      · rw [hji, update_self, update_self]
      · rw [update_of_ne hji, update_of_ne hji]
        exact hothers j hj

/-- A page table is taken from the allocator, whatever memory holds. -/
theorem allocTable_congr (hframes : m'.frames = m.frames) :
    m'.allocatorAllocPageTable.1 = m.allocatorAllocPageTable.1 ∧
      m'.allocatorAllocPageTable.2.frames = m.allocatorAllocPageTable.2.frames := by
  unfold allocatorAllocPageTable pagingAllocFrame frameAllocBelow
  dsimp only
  rw [hframes, fillTable_eq, fillTable_eq]
  split
  · exact ⟨rfl, rfl⟩
  · exact ⟨rfl, rfl⟩

/-- Loading a directory takes no frame. -/
theorem switch_frames (m : Memory) (cr3 : Word) : (m.pagingSwitchDirectory cr3).frames = m.frames := by
  unfold pagingSwitchDirectory
  split
  · rfl
  · rfl

/-- So is an address space. -/
theorem create_congr (hframes : m'.frames = m.frames) :
    m'.pagingCreateAddressSpace.1 = m.pagingCreateAddressSpace.1 ∧
      m'.pagingCreateAddressSpace.2.frames = m.pagingCreateAddressSpace.2.frames := by
  unfold pagingCreateAddressSpace
  dsimp only
  obtain ⟨haddr, hframes₁⟩ := allocTable_congr hframes
  obtain ⟨haddr', hframes₂⟩ := allocTable_congr hframes₁
  rw [haddr, haddr']
  split
  · exact ⟨rfl, hframes₁⟩
  split
  · unfold frameFree frameRelease
    rw [hframes₂]
    exact ⟨rfl, rfl⟩
  · rw [shareSupervisor_frames, shareSupervisor_frames, fillTable_eq, fillTable_eq]
    exact ⟨rfl, hframes₂⟩

end Memory

/-! ### The image -/

section

variable {file : List Byte} {phs : List ElfProgramHeader} {m : Memory}

/-- A load that succeeds takes what the pages of its segments need, and maps no other page. -/
theorem Loadable.granted (h : Loadable file phs) (hs : m.ActiveSound)
    (hload : (m.loadSegments file phs).1 = elfSuccess) :
    m.supply.takePages ((loadPages phs).map dirIndex) = some (m.loadSegments file phs).2.supply ∧
      ∀ p : PageSlot, inUserRange p.1 → p ∉ pageSlots (loadPages phs) →
        ((m.loadSegments file phs).2.mappedEntry p).isSome = (m.mappedEntry p).isSome := by
  induction phs generalizing m with
  | nil => exact ⟨rfl, fun _ _ _ => rfl⟩
  | cons ph phs ih =>
    have hrun := (h.safe ph List.mem_cons_self).loads (h.type ph List.mem_cons_self) hs phs
    generalize m.loadSegments file (ph :: phs) = r at hload hrun
    cases hrun with
    | exhausted => cases hload
    | occupied => cases hload
    | done m' m'' new hall hpages hsupply hmapping hkeeps =>
      obtain ⟨hrest, hsame⟩ := ih h.tail hkeeps.sound hload
      refine ⟨?_, fun p hp hnot => ?_⟩
      · rw [loadPages_cons, List.map_append, Memory.Supply.takePages_append, hsupply, Option.bind_some,
          ← hkeeps.supply]
        exact hrest
      · rw [loadPages_cons, pageSlots_append] at hnot
        have hmapped : (m'.mappedEntry p).isSome = (m.mappedEntry p).isSome := by
          rw [hmapping.others p hp fun q hq heq => hnot (.inl ⟨q.1, ?_, heq⟩)]
          rw [← hpages]
          exact List.mem_map_of_mem hq
        rw [hsame p hp fun hin => hnot (.inr hin), ← hmapped]
        exact hkeeps.isSome hp

end

/-! ### The stack -/

/-- A page can be had: nothing is mapped there, and there are frames for it and for its table. -/
structure Memory.HasRoom (m : Memory) (page : Word) : Prop where
  unmapped : m.pagingGetPhysicalAddressInDirectory m.activePageDirectory page = 0
  frames : (m.supply.takePage (dirIndex page)).isSome = true

/-- A stack is built exactly if its page can be had. -/
theorem execStack_granted {k : Kernel} {newCr3 : Word} {vectors : ExecVectors} {args envs : List CString}
    (hcr3 : IsDirectory newCr3) (hpages : (k.mem.pagingSwitchDirectory newCr3).UserPages)
    (hvectors : vectors.Copied args envs) : (∃ sp, (execStack newCr3 vectors k).1 = .ok sp) ↔
      (k.mem.pagingSwitchDirectory newCr3).HasRoom execStackPage := by
  have hrange : inUserRange (dirIndex execStackPage) := by decide
  have huser : isUser (pagePresent ||| pageWritable ||| pageUser) = true := by decide
  have hloaded := hcr3.switch k.mem
  have hframes := k.mem.frameAlloc_switch newCr3
  have hphys : k.mem.frameAlloc.2.pagingGetPhysicalAddressInDirectory newCr3 execStackPage =
      (k.mem.pagingSwitchDirectory newCr3).pagingGetPhysicalAddressInDirectory
        (k.mem.pagingSwitchDirectory newCr3).activePageDirectory execStackPage := by
    have hram : k.mem.frameAlloc.2.ram = (k.mem.pagingSwitchDirectory newCr3).ram := (k.mem.switch_ram newCr3).symm
    rw [hloaded]
    unfold Memory.pagingGetPhysicalAddressInDirectory Memory.entry
    rw [hram]
  have hmem : (k.withMem k.mem.frameAlloc.2).mem = k.mem.frameAlloc.2 := rfl
  unfold execStack
  rw [run_bind, run_callMemory]
  by_cases hframe : k.mem.frameAlloc.1 = 0
  · -- no frame for the page
    rw [if_pos hframe]
    refine iff_of_false (fun ⟨sp, hok⟩ => nomatch hok) fun hroom => ?_
    have hsome := hroom.frames
    rcases hpages.mapFresh hrange huser with ⟨hnone, -⟩ | ⟨f, m', hf, halloc, -⟩
    · rw [hnone] at hsome
      cases hsome
    · have haddr : k.mem.frameAlloc.1 = frameAddr f := congrArg Prod.fst (hframes.symm.trans halloc)
      exact hf.frameAddr_ne_zero hpages.sound.counted (haddr.symm.trans hframe)
  rw [if_neg hframe, run_bind, run_get, run_bind]
  dsimp only
  rw [hmem]
  by_cases hfound : k.mem.frameAlloc.2.pagingGetPhysicalAddressInDirectory newCr3 execStackPage ≠ 0
  · rw [if_pos hfound]
    exact iff_of_false (fun ⟨sp, hok⟩ => nomatch hok) fun hroom => hfound (hphys.trans hroom.unmapped)
  have hunmapped := hphys.symm.trans (not_not.mp hfound)
  rw [if_neg hfound, run_callMemory, hmem]
  rcases hpages.mapFresh hrange huser with
    ⟨hnone, hno | ⟨f, hf, halloc, hfails⟩⟩ | ⟨f, m₁, hf, halloc, hdone, -, hmaps⟩
  · exact absurd (congrArg Prod.fst (hframes.symm.trans hno)) hframe
  · -- no frame for its table
    obtain ⟨haddr, htaken⟩ := Prod.mk.inj (hframes.symm.trans halloc)
    rw [hloaded, ← htaken, ← haddr, Memory.mapPageInDirectory_switch] at hfails
    rw [(Prod.mk.inj hfails).1]
    refine iff_of_false (fun ⟨sp, hok⟩ => nomatch hok) fun hroom => ?_
    have hsome := hroom.frames
    rw [hnone] at hsome
    cases hsome
  · obtain ⟨haddr, htaken⟩ := Prod.mk.inj (hframes.symm.trans halloc)
    rw [hloaded, ← htaken, ← haddr, Memory.mapPageInDirectory_switch] at hdone
    have hdone₁ := (Prod.mk.inj hdone).1
    rcases hmap : k.mem.frameAlloc.2.pagingMapPageInDirectory newCr3 execStackPage k.mem.frameAlloc.1
      (pagePresent ||| pageWritable ||| pageUser) with ⟨done, m⟩
    rw [hmap] at hdone₁
    obtain rfl : done = true := hdone₁
    obtain ⟨hstack, -⟩ := hpages.mapStack hcr3 hrange hframe hmap
    obtain ⟨sp, m', hbuild, -⟩ := hstack.execBuildUserStack hcr3.1 hvectors.argStrings hvectors.envStrings
      hvectors.argc hvectors.envc hvectors.noNul hvectors.fits
    have hmem' : ((k.withMem k.mem.frameAlloc.2).withMem m).mem = m := rfl
    dsimp only
    rw [if_neg (Ne.symm Bool.false_ne_true), run_bind, run_callMemory, hmem', hbuild]
    refine iff_of_true ⟨sp, rfl⟩ ⟨hunmapped, ?_⟩
    have hsupply : (k.mem.pagingSwitchDirectory newCr3).supply.takePage (dirIndex execStackPage) = some m₁.supply :=
      hmaps.supply
    rw [hsupply]
    rfl

/-! ### The new address space -/

/-- What a directory without tables can take. -/
def FrameState.freshSupply (fr : FrameState) : Memory.Supply where
  tables := fun _ => false
  low := fr.freeBelow 1024
  all := fr.freeBelow fr.totalFrames

/-- There are frames for the pages of a file and the page of its stack, and for their tables. -/
def FrameState.TakesImage (fr : FrameState) (file : List Byte) : Prop :=
  (fr.freshSupply.takePages ((loadPages (loadHeaders file) ++ [execStackPage]).map dirIndex)).isSome = true

/-- A new address space has no tables for the user. -/
theorem Tracks.create_noTable {m0 m : Memory} {live : Finset Nat} {S : Spaces} (h : Tracks m0 ⟨m, live⟩ S)
    (hdone : m.pagingCreateAddressSpace.1 ≠ 0) {i : TableIndex} (hi : inUserRange i) :
    (m.pagingCreateAddressSpace.2.pagingSwitchDirectory m.pagingCreateAddressSpace.1).hasTable i = false := by
  rcases h.createAddressSpace with ⟨hzero, -⟩ | ⟨n, t, hnew, hcr3, h'⟩
  · exact absurd hzero hdone
  have hn : n ∈ (S.create n t).live := mem_insert_self n S.live
  have hnone : (S.create n t).table n i = none := by
    have hlow : ¬(n = n ∧ i = 0) := by
      rintro ⟨-, rfl⟩
      exact absurd hi (by decide)
    exact (if_neg hlow).trans (h.table_none hnew i)
  have hactive := (h'.live_isDirectory (mem_insert_self n live)).switch m.pagingCreateAddressSpace.2
  unfold Memory.hasTable Memory.directory
  rw [hcr3, hactive, frameOf_frameAddr (h'.represents.live_lt hn), Memory.switch_ram, ← Bool.not_eq_true]
  intro hpresent
  rcases h'.represents.table_cases hn hpresent with hown | ⟨hout, -⟩
  · rw [hnone] at hown
    cases hown
  · exact hout hi

/-- They are taken one after another where no table is there yet. -/
theorem Memory.takesImage_iff {m : Memory} {file : List Byte}
    (hnoTable : ∀ i, inUserRange i → m.hasTable i = false) (hfile : Loadable file (loadHeaders file)) :
    m.frames.TakesImage file ↔ ∃ s, m.supply.takePages ((loadPages (loadHeaders file)).map dirIndex) = some s ∧
      (s.takePage (dirIndex execStackPage)).isSome = true := by
  have hrange : ∀ i ∈ (loadPages (loadHeaders file) ++ [execStackPage]).map dirIndex, inUserRange i := by
    intro i hi
    obtain ⟨page, hpage, rfl⟩ := List.mem_map.mp hi
    rcases List.mem_append.mp hpage with hload | hstack
    · obtain ⟨ph, hph, hin⟩ := List.mem_flatMap.mp hload
      exact (hfile.safe ph hph).userPage hin
    · rw [List.mem_singleton.mp hstack]
      decide
  have hcongr := Supply.takePages_congr m.supply m.frames.freshSupply rfl rfl fun i hi =>
    (hnoTable i (hrange i hi)).symm
  unfold FrameState.TakesImage
  rw [hcongr, List.map_append, Supply.takePages_append, Option.isSome_bind, Option.any_eq_true]
  refine exists_congr fun s => and_congr_right fun _ => ?_
  have hone : s.takePages [dirIndex execStackPage] = s.takePage (dirIndex execStackPage) :=
    Option.bind_fun_some _
  rw [List.map_singleton, hone]

/-- A file is loaded if it is accepted and its pages can be mapped. -/
theorem elfLoadFromVfs_granted {k : Kernel} (path : CString) (hs : k.mem.ActiveSound) :
    (∃ info, (elfLoadFromVfs path k).1 = .ok info) ↔
      ∃ file, Loads k path file ∧ k.mem.CanMap (loadPages (loadHeaders file)) := by
  constructor
  · rintro ⟨info, hok⟩
    obtain ⟨file, scan, hread, hlayout, -, hdone, -⟩ := elfLoadFromVfs_ok hok
    have hloads : Loads k path file := ⟨hread, by rw [hlayout]; rfl⟩
    exact ⟨file, hloads, (hloads.loadable.loadSegments hs).1.mp hdone⟩
  · rintro ⟨file, hloads, hcan⟩
    have hdone := (hloads.loadable.loadSegments hs).1.mpr hcan
    rcases hres : (elfLoadFromVfs path k).1 with e | info
    · rcases elfLoadFromVfs_cases path k with ⟨hnone, -⟩ | ⟨file', hloads', -, herror⟩
      · exact absurd hloads (hnone file)
      · cases hloads.1.symm.trans hloads'.1
        exact absurd hdone (herror.mp ⟨e, hres⟩)
    · exact ⟨info, rfl⟩

/-- **The image of a call** can be built exactly if an address space can be created, the file is a program, and there
are frames for all its pages. -/
theorem execImage_granted {k : Kernel} {path : CString} {vectors : ExecVectors} {args envs : List CString}
    {m0 : Memory} {live : Finset Nat} {S : Spaces} (h : Tracks m0 ⟨k.mem, live⟩ S) (hm : k.mem.ScratchUnmapped)
    (hvectors : vectors.Copied args envs) : (∃ r, (execImage path vectors k).1 = .ok r) ↔
      k.mem.pagingCreateAddressSpace.1 ≠ 0 ∧
        ∃ file, Loads k path file ∧ k.mem.pagingCreateAddressSpace.2.frames.TakesImage file := by
  unfold execImage
  rw [run_bind, run_callMemory]
  by_cases hnone : k.mem.pagingCreateAddressSpace.1 = 0
  · rw [if_pos hnone]
    exact iff_of_false (fun ⟨r, hok⟩ => nomatch hok) fun hcreated => hcreated.1 hnone
  have hfresh := (h.freshSpace hm).resolve_left hnone
  have hnoTable (i : TableIndex) (hi : inUserRange i) := h.create_noTable hnone hi
  have hcr3 : IsDirectory k.mem.pagingCreateAddressSpace.1 := by
    rcases h.createAddressSpace with ⟨hzero, -⟩ | ⟨n, t, -, hcr3, h'⟩
    · exact absurd hzero hnone
    · rw [hcr3]
      exact h'.live_isDirectory (mem_insert_self n live)
  rw [if_neg hnone, run_bind]
  generalize k.mem.pagingCreateAddressSpace = created at hnone hfresh hnoTable hcr3 ⊢
  have hpages := hfresh.pages
  have hframes := created.2.switch_frames created.1
  have hload := elfLoadFromVfs_granted path
    (k := (k.withMem created.2).withMem (created.2.pagingSwitchDirectory created.1)) hpages.sound
  have hstatus : (elfLoadFromVfsInto created.1 path (k.withMem created.2)).1 = (elfLoadFromVfs path
    ((k.withMem created.2).withMem (created.2.pagingSwitchDirectory created.1))).1 :=
    (elfLoadFromVfsInto_run hcr3.1 path (k.withMem created.2)).1
  have hsegments (info : ElfLoadInfo)
      (hok : (elfLoadFromVfsInto created.1 path (k.withMem created.2)).1 = .ok info) :
      ∃ file, Loads k path file ∧ info.entry = (elfHeader file).entry ∧
        (created.2.pagingSwitchDirectory created.1).loadSegments file (loadHeaders file) = (elfSuccess,
          (elfLoadFromVfsInto created.1 path (k.withMem created.2)).2.mem.pagingSwitchDirectory created.1) :=
    elfLoadFromVfsInto_segments hcr3 hpages hok
  rw [← hstatus] at hload
  clear hstatus
  generalize elfLoadFromVfsInto created.1 path (k.withMem created.2) = loaded at hload hsegments ⊢
  generalize created.2.pagingSwitchDirectory created.1 = m₁ at hpages hframes hload hsegments hnoTable
  change _ ↔ ∃ file, Loads k path file ∧ m₁.CanMap (loadPages (loadHeaders file)) at hload
  have hunmapped (p : PageSlot) (hp : inUserRange p.1) : m₁.mappedEntry p = none := by
    rw [Memory.mappedEntry_eq, hnoTable _ hp]
    exact if_neg nofun
  rw [← hframes]
  obtain ⟨e | info, k₂⟩ := loaded
  · -- the file is not one, or there are too few frames for its pages
    refine iff_of_false (fun ⟨r, hok⟩ => nomatch hok) ?_
    rintro ⟨-, file, hfile, htakes⟩
    obtain ⟨s, hs, -⟩ := (Memory.takesImage_iff hnoTable hfile.loadable).mp htakes
    have hcan : m₁.CanMap (loadPages (loadHeaders file)) := by
      refine ⟨fun page hpage => ?_, Option.isSome_of_mem hs⟩
      obtain ⟨ph, hph, hin⟩ := List.mem_flatMap.mp hpage
      rw [Memory.pagingIsMapped_eq, hunmapped _ ((hfile.loadable.safe ph hph).userPage hin)]
      rfl
    obtain ⟨info, hok⟩ := hload.mpr ⟨file, hfile, hcan⟩
    cases hok
  · obtain ⟨file, hfile, hentry, hrun⟩ := hsegments info rfl
    dsimp only at hrun ⊢
    obtain ⟨hsupply, hothers⟩ := hfile.loadable.granted hpages.sound (congrArg Prod.fst hrun)
    obtain ⟨hpages₂, -⟩ := hfile.loadable.holds hpages hrun
    rw [hrun] at hsupply hothers
    have hstack := execStack_granted (k := k₂) hcr3 hpages₂ hvectors
    have hroom : (k₂.mem.pagingSwitchDirectory created.1).HasRoom execStackPage ↔
        ((k₂.mem.pagingSwitchDirectory created.1).supply.takePage (dirIndex execStackPage)).isSome = true := by
      refine ⟨fun hroom => hroom.frames, fun hframe => ⟨?_, hframe⟩⟩
      have hrange : inUserRange (pageSlot execStackPage).1 := by decide
      have hnot : pageSlot execStackPage ∉ pageSlots (loadPages (loadHeaders file)) := by
        rintro ⟨page, hpage, heq⟩
        obtain ⟨ph, hph, hin⟩ := List.mem_flatMap.mp hpage
        have hsafe := hfile.loadable.safe ph hph
        exact hsafe.slot_ne (hsafe.slot_mem.mp ⟨page, hin, rfl⟩) (by decide) heq
      have hnone := hothers _ hrange hnot
      rw [hunmapped _ hrange] at hnone
      have hnone' := Option.isSome_eq_false_iff.mp hnone
      rw [Option.isNone_iff_eq_none] at hnone'
      rw [Memory.physicalAddress_eq_mapped hpages₂.sound.active, hnone']
      rfl
    have htakes : m₁.frames.TakesImage file ↔
        ((k₂.mem.pagingSwitchDirectory created.1).supply.takePage (dirIndex execStackPage)).isSome = true := by
      rw [Memory.takesImage_iff hnoTable hfile.loadable, hsupply]
      simp
    rw [hroom, ← htakes] at hstack
    rw [run_bind]
    generalize execStack created.1 vectors k₂ = built at hstack
    obtain ⟨status | sp, k₃⟩ := built
    · refine iff_of_false (fun ⟨r, hok⟩ => nomatch hok) ?_
      rintro ⟨-, file', hfile', htakes'⟩
      cases hfile.1.symm.trans hfile'.1
      obtain ⟨sp, hok⟩ := hstack.mpr htakes'
      cases hok
    · exact iff_of_true ⟨_, rfl⟩ ⟨hnone, file, hfile, hstack.mp ⟨sp, rfl⟩⟩

/-- Two frames for the address space, two for each page of the file and two for the stack are enough. -/
theorem Memory.takesImage_of_free {m : Memory} {file : List Byte} (hinit : m.frames.frameInitialized = true)
    (hcounted : m.frames.Counted) (hlow : 2 * (loadPages (loadHeaders file)).length + 4 ≤ m.frames.freeBelow 1024)
    (hall : 2 * (loadPages (loadHeaders file)).length + 4 ≤ m.frames.freeBelow m.frames.totalFrames) :
    m.pagingCreateAddressSpace.1 ≠ 0 ∧ m.pagingCreateAddressSpace.2.frames.TakesImage file := by
  rcases create_cases hinit hcounted with hfew | ⟨d, t, hd, ht, hcr3, hframes, -⟩
  · exact absurd hfew (by omega)
  have hleft (n : Nat) : ((m.frames.take d).take t).freeBelow n = m.frames.freeBelow n - 1 - 1 := by
    rw [ht.freeBelow_take, hd.freeBelow_take]
  rw [hcr3, hframes]
  refine ⟨hd.frameAddr_ne_zero hcounted, Supply.takePages_isSome ?_ ?_⟩
  · rw [List.length_map, List.length_append, List.length_singleton]
    have hbelow := hleft 1024
    unfold FrameState.freshSupply
    dsimp only
    omega
  · rw [List.length_map, List.length_append, List.length_singleton]
    have htotal : ((m.frames.take d).take t).freeBelow ((m.frames.take d).take t).totalFrames =
      m.frames.freeBelow m.frames.totalFrames - 1 - 1 := hleft m.frames.totalFrames
    unfold FrameState.freshSupply
    dsimp only
    omega

/-! ### The call -/

/-- What a call needs to succeed, and what it is given: the file that is run and its strings. -/
structure Kernel.GrantsExec (k : Kernel) (pathPtr argvPtr envpPtr callerCs : Word) (file : List Byte)
    (args envs : List CString) : Prop where
  ring : isRing3 callerCs = true
  current : k.processGetCurrent.isSome = true
  readable : k.uaccessReadable pathPtr 1 = true
  path : ∃ path, k.copyStringFromUser pathPtr vfsMaxPath = some path ∧ Loads k path file
  block : (k.heap.kmalloc execVectorsBytes).1.isSome = true
  vectors : k.DesignatesBoth argvPtr envpPtr args envs
  fits : (stringBlock (args ++ envs)).length ≤ execMaxVectorBytes
  directory : k.mem.pagingCreateAddressSpace.1 ≠ 0
  frames : k.mem.pagingCreateAddressSpace.2.frames.TakesImage file

/-- A call that succeeds has been admitted. -/
theorem syscallExec_admitted {k : Kernel} {pathPtr argvPtr envpPtr callerCs frame : Word}
    (hdone : (syscallExec pathPtr argvPtr envpPtr callerCs frame k).1 = syscallSuccess) :
    isRing3 callerCs = true ∧ k.uaccessReadable pathPtr 1 = true := by
  unfold syscallExec at hdone
  rw [run_ite] at hdone
  have hperm : syscallEperm ≠ syscallSuccess := by decide
  have hinval : syscallEinval ≠ syscallSuccess := by decide
  have hfault : syscallEfault ≠ syscallSuccess := by decide
  split at hdone
  · exact absurd hdone hperm
  rename_i hring
  rw [run_bind, run_get] at hdone
  rcases hcurrent : k.processGetCurrent with _ | current
  · rw [hcurrent] at hdone
    exact absurd hdone hinval
  rw [hcurrent] at hdone
  refine ⟨by simpa using hring, ?_⟩
  by_contra hread
  dsimp only at hdone
  rw [if_neg hread] at hdone
  exact absurd hdone hfault

/-- **When `SYS_EXEC` succeeds**. -/
theorem syscallExec_granted {k : Kernel} {pathPtr argvPtr envpPtr callerCs frame : Word} {m0 : Memory}
    {live : Finset Nat} {S : Spaces} (h : Tracks m0 ⟨k.mem, live⟩ S) (hm : k.mem.ScratchUnmapped) :
    (syscallExec pathPtr argvPtr envpPtr callerCs frame k).1 = syscallSuccess ↔
      ∃ file args envs, k.GrantsExec pathPtr argvPtr envpPtr callerCs file args envs := by
  have himage (path : CString) {vectors : ExecVectors} {args envs : List CString} (heap : Heap)
      (hcopied : vectors.Copied args envs) : (∃ r, (execImage path vectors (k.withHeap heap)).1 = .ok r) ↔
        k.mem.pagingCreateAddressSpace.1 ≠ 0 ∧
          ∃ file, Loads k path file ∧ k.mem.pagingCreateAddressSpace.2.frames.TakesImage file :=
    execImage_granted (k := k.withHeap heap) h hm hcopied
  constructor
  · intro hdone
    obtain ⟨hring, hread⟩ := syscallExec_admitted hdone
    have hends := syscallExec_ends pathPtr argvPtr envpPtr callerCs frame k
    generalize syscallExec pathPtr argvPtr envpPtr callerCs frame k = r at hdone hends
    cases hends with
    | refused status hstatus => exact absurd hdone hstatus
    | uncopied block heap status _ hstatus => exact absurd hdone hstatus
    | unloaded block heap path vectors status k' _ hsmall hrun =>
      rcases execImage_spaces (k := k.withHeap heap) h path hsmall with
        ⟨status', S', herror, hne, -⟩ | ⟨n, S', entry, sp, -, hok, -⟩
      · rw [hrun] at herror
        exact absurd (hdone.symm.trans (Except.error.inj herror)).symm hne
      · rw [hrun] at hok
        cases hok
    | committed block heap path vectors current cr3 entry sp k' hcurrent hpath hblock hvectors hrun =>
      obtain ⟨args, envs, hboth, hcopied⟩ := Kernel.copyVectors_copied hvectors
      obtain ⟨hdirectory, file, hloads, hframes⟩ := (himage path heap hcopied).mp ⟨_, congrArg Prod.fst hrun⟩
      exact ⟨file, args, envs, hring, by rw [hcurrent]; rfl, hread, ⟨path, hpath, hloads⟩, by rw [hblock]; rfl,
        (k.copiesAlike_withHeap heap).designatesBoth hboth, hcopied.fits, hdirectory, hframes⟩
  · rintro ⟨file, args, envs, hgrants⟩
    obtain ⟨current, hcurrent⟩ := Option.isSome_iff_exists.mp hgrants.current
    obtain ⟨path, hpath, hloads⟩ := hgrants.path
    obtain ⟨block, hblock⟩ := Option.isSome_iff_exists.mp hgrants.block
    generalize hheap : (k.heap.kmalloc execVectorsBytes).2 = heap
    have hboth : (k.withHeap heap).DesignatesBoth argvPtr envpPtr args envs :=
      (show k.CopiesAlike (k.withHeap heap) from fun _ _ => rfl).designatesBoth hgrants.vectors
    obtain ⟨vectors, hvectors⟩ := Kernel.copyVectors_iff.mpr ⟨args, envs, hboth, hgrants.fits⟩
    obtain ⟨vectors', hvectors', hdecided⟩ := syscallExec_image frame hgrants.ring hcurrent
      (by rw [if_pos hgrants.readable]; exact hpath) (Prod.ext hblock hheap) (by rw [hvectors]; rfl)
    obtain ⟨args', envs', -, hcopied⟩ := Kernel.copyVectors_copied hvectors'
    obtain ⟨r, hok⟩ := (himage path heap hcopied).mpr ⟨hgrants.directory, file, hloads, hgrants.frames⟩
    rw [hdecided, hok]

/-! ### A machine with a program -/

section

variable {m0 m : Memory} {live : Finset Nat} {S : Spaces}

/-- A file system is mounted. -/
def Kernel.mount (k : Kernel) (fs : SimpleFs) : Kernel :=
  { k with vfs := { Kernel.solo.vfs with fs := fs, vfsMounted := true } }

/-- Processes do not notice. -/
theorem Homes.mount {k : Kernel} (h : Homes m0 k S) (fs : SimpleFs) : Homes m0 (k.mount fs) S :=
  ⟨h.tracks, h.home, h.alone, h.owned⟩

/-- Nor does the scheduler. -/
theorem AgreesIn.mount {k : Kernel} {c : Slot} (h : Agrees k c) (fs : SimpleFs) : Agrees (k.mount fs) c :=
  ⟨h.runs, h.pool⟩

/-- A call finds a program of a sector on a disk that has been formatted for it. -/
theorem Kernel.mount_granted {k : Kernel} {pathPtr argvPtr envpPtr callerCs : Word} {file : List Byte}
    {args envs : List CString} (htracks : Tracks m0 ⟨k.mem, live⟩ S) (hring : isRing3 callerCs = true)
    (hcurrent : k.processGetCurrent.isSome = true) (hpos : 0 < file.length) (hsector : file.length ≤ sectorSize)
    (hlayout : (elfLayout file).isOk = true) (hreadable : k.uaccessReadable pathPtr 1 = true)
    (hpath : k.copyStringFromUser pathPtr vfsMaxPath = some [0x2F, 0x61])
    (hblock : (k.heap.kmalloc execVectorsBytes).1.isSome = true) (hstrings : k.DesignatesBoth argvPtr envpPtr args envs)
    (hfits : (stringBlock (args ++ envs)).length ≤ execMaxVectorBytes)
    (hlow : 2 * (loadPages (loadHeaders file)).length + 4 ≤ k.mem.frames.freeBelow 1024)
    (hall : 2 * (loadPages (loadHeaders file)).length + 4 ≤ k.mem.frames.freeBelow k.mem.frames.totalFrames) :
    ∃ fs, (k.mount fs).GrantsExec pathPtr argvPtr envpPtr callerCs file args envs := by
  have hmax : file.length ≤ elfMaxImageSize := by
    simp only [sectorSize, elfMaxImageSize] at *
    omega
  obtain ⟨fs, V, hw, hfile⟩ := stored_working hpos hsector
  have hadmits : (k.mount fs).vfs.admits (some [0x2F, 0x61]) vfsORdonly = some ([0x2F, 0x61], 0) :=
    Vfs.admits_eq_some.mpr ⟨rfl, by decide, by decide, rfl⟩
  have hread := readFileIntoBuffer_working (v := (k.mount fs).vfs) hw hadmits (by decide) hfile hpos hmax
  have hcopies : k.CopiesAlike (k.mount fs) := fun _ _ => rfl
  obtain ⟨hdirectory, hframes⟩ := Memory.takesImage_of_free htracks.represents.books.initialized
    htracks.represents.books.counted hlow hall
  exact ⟨fs, hring, hcurrent, hreadable,
    ⟨_, (hcopies.copyStringFromUser pathPtr vfsMaxPath).trans hpath, hread, hlayout⟩, hblock,
    hcopies.designatesBoth hstrings, hfits, hdirectory, hframes⟩

/-- A program of one segment, with two bytes in the file. -/
def stub (vaddr memsz : Word) : List Byte :=
  [0x7F, 0x45, 0x4C, 0x46, 1, 1, 1, 0, 0, 0, 0, 0, 0, 0, 0, 0,
    2, 0, 3, 0, 1, 0, 0, 0] ++ wordBytes vaddr ++ [52, 0, 0, 0, 0, 0, 0, 0, 0, 0, 0, 0,
    52, 0, 32, 0, 1, 0, 0, 0, 0, 0, 0, 0,
    1, 0, 0, 0, 84, 0, 0, 0] ++ wordBytes vaddr ++ [0, 0, 0, 0,
    2, 0, 0, 0] ++ wordBytes memsz ++ [5, 0, 0, 0, 4, 0, 0, 0,
    0xEB, 0xFE]

/-- The page of `Kernel.calling`, with the path `/a` in it. -/
def Kernel.naming : Kernel :=
  (Kernel.calling.withMem (Kernel.calling.mem.storeByte 0x90000010 0x2F)).withMem
    ((Kernel.calling.mem.storeByte 0x90000010 0x2F).storeByte 0x90000011 0x61)

/-- The state is settled. -/
theorem settled_naming : Settled .naming := by
  have hslash : Step .calling (.store 0x90000010 0x2F)
    (Kernel.calling.withMem (Kernel.calling.mem.storeByte 0x90000010 0x2F)) := .store _ _ _ (by decide +kernel)
  have hname : Step (Kernel.calling.withMem (Kernel.calling.mem.storeByte 0x90000010 0x2F)) (.store 0x90000011 0x61)
    .naming := .store _ _ _ (by decide +kernel)
  exact (settled_calling.run (.single ⟨.store 0x90000010 0x2F, trivial, hslash⟩)).run
    (.single ⟨.store 0x90000011 0x61, trivial, hname⟩)

/-- What a memory stores is in the frames that are held, in the directory of the kernel and in its tables. -/
theorem Represents.withRam (h : Represents m0 m S) (hhand : S.pageHand = none) {ram : Nat → TableIndex → Word}
    (hheld : ∀ o f, S.held o = some f → ram f = m.ram f)
    (hkernel : ram (frameOf pageDirectory) = m.ram (frameOf pageDirectory))
    (htables : ∀ t, KernelTable m0 t → ∀ j, userEntry (ram t j) = none) :
    Represents m0 { m with ram := ram } S := by
  have hdir {d : Nat} (hd : d ∈ S.live) : ram d = m.ram d := hheld _ _ (held_dir hd)
  have htable {d t : Nat} {i : TableIndex} (ht : S.table d i = some t) : ram t = m.ram t := hheld (.table d i) t ht
  have hlayout := h.layout
  refine ⟨h.booted, h.books, ?_, h.scratch⟩
  exact {
    dirs := fun d hd i => by
      dsimp only
      rw [hdir hd]
      exact hlayout.dirs d hd i
    pages := fun d i t ht j => by
      dsimp only
      rw [htable ht]
      exact hlayout.pages d i t ht j
    contents := fun d i j e he => by
      dsimp only
      rw [hheld _ _ (Represents.held_page he)]
      exact hlayout.contents d i j e he
    handContent := fun f hf => by
      rw [hhand] at hf
      cases hf
    shared := fun d hd i => by
      dsimp only
      rw [hdir hd]
      exact hlayout.shared d hd i
    writable := fun d hd i => by
      dsimp only
      rw [hdir hd]
      exact hlayout.writable d hd i
    blank := fun d i t ht hi j => by
      dsimp only
      rw [htable ht]
      exact hlayout.blank d i t ht hi j
    kernel := hkernel.trans hlayout.kernel
    kernelTables := htables
    active := hlayout.active }

/-- The running process goes on running. -/
theorem AgreesIn.withMem {k : Kernel} {c : Slot} (h : Agrees k c) (m' : Memory)
    (hm : m'.activePageDirectory = k.mem.activePageDirectory) : Agrees (k.withMem m') c :=
  ⟨(Quiet.withMem hm).runs (.refl _) h.runs, h.pool⟩

/-- The table of the scratch page as `paging_init` leaves it. -/
def Memory.blankScratch (m : Memory) : Memory := m.writeFrame (frameOf m.kernelScratchTable) fun _ => 0x02

/-- It belongs to no address space. -/
theorem Represents.blankScratch (h : Represents m0 m S) (hhand : S.pageHand = none) (hs : m.kernelScratchTable ≠ 0) :
    Represents m0 m.blankScratch S := by
  obtain ⟨hout, hne⟩ := h.booted.scratch (h.scratch ▸ hs)
  rw [← h.scratch] at hout hne
  refine h.withRam hhand (fun o f ho => update_of_ne ?_ ..) (update_of_ne hne.symm ..) fun t ht j => ?_
  · rintro rfl
    exact hout (h.books.pool o _ ho)
  · by_cases htable : t = frameOf m.kernelScratchTable
    · rw [htable, update_self]
      decide
    · rw [update_of_ne htable]
      exact h.layout.kernelTables t ht j

/-- The same directory is loaded. -/
theorem Memory.blankScratch_active (m : Memory) : m.blankScratch.activePageDirectory = m.activePageDirectory := rfl

/-- All processes live where they lived. -/
theorem Homes.blankScratch {k : Kernel} (h : Homes m0 k S) (hs : k.mem.kernelScratchTable ≠ 0) :
    Homes m0 (k.withMem k.mem.blankScratch) S := by
  have htracks : Tracks m0 ⟨k.mem.shelved.blankScratch, S.live⟩ S :=
    ⟨h.tracks.represents.blankScratch h.tracks.pageHand hs, h.tracks.live, h.tracks.pageHand, h.tracks.tableHand,
      h.tracks.user, h.tracks.unshared⟩
  exact ⟨htracks, h.home, h.alone, h.owned⟩

/-- Nothing is mapped at the scratch addresses. -/
theorem Memory.blankScratch_unmapped (m : Memory) : m.blankScratch.ScratchUnmapped := by
  intro _
  have hwords : m.blankScratch.ram (frameOf m.blankScratch.kernelScratchTable) = fun _ => 0x02 := update_self ..
  rw [hwords]
  exact ⟨rfl, rfl⟩

/-- The machine of the call. -/
def Kernel.launching : Kernel := Kernel.naming.withMem Kernel.naming.mem.blankScratch

/-- The argument is where the pointer says. -/
theorem launching_designates : Kernel.launching.DesignatesBoth 0x90000100 0 [[0x2A]] [] := by
  have hstring : Kernel.launching.StringAt 0x90000000 [0x2A] :=
    .cons (by decide +kernel) (by decide) (.nil (by decide +kernel))
  have hargs : Kernel.launching.PointersAt 0x90000100 [[0x2A]] :=
    .cons (by decide +kernel) (by decide) hstring (by decide) (.nil (by decide +kernel))
  exact ⟨⟨by decide, .inr ⟨by decide, hargs⟩⟩, ⟨by decide, .inl ⟨rfl, rfl⟩⟩⟩

/-- A process runs there, in an address space of its own. -/
theorem launching_homes : ∃ (m0 : Memory) (S : Spaces), Homes m0 .launching S ∧ Agrees .launching 0 := by
  obtain ⟨m0, S, c, hc, hhomes, -⟩ := settled_naming.peopled
  obtain rfl : c = 0 := Option.some.inj (hc.processGetCurrent.symm.trans (by decide +kernel))
  exact ⟨m0, S, hhomes.blankScratch (by decide +kernel), hc.withMem _ (Memory.blankScratch_active _)⟩

/-- Nothing is mapped at its scratch addresses. -/
theorem launching_scratch : Kernel.launching.mem.ScratchUnmapped := Memory.blankScratch_unmapped Kernel.naming.mem

/-- It can run a program of one page. -/
theorem launching_granted (file : List Byte) (hpos : 0 < file.length) (hsector : file.length ≤ sectorSize)
    (hlayout : (elfLayout file).isOk = true) (hpages : (loadPages (loadHeaders file)).length = 1) :
    ∃ fs, (Kernel.launching.mount fs).GrantsExec 0x90000010 0x90000100 0 0x1B file [[0x2A]] [] := by
  obtain ⟨m0, S, hhomes, hc⟩ := launching_homes
  obtain ⟨d, hd, -, -, htracks⟩ := hhomes.loaded hc
  exact Kernel.mount_granted htracks rfl (by decide +kernel) hpos hsector hlayout (by decide +kernel)
    (by decide +kernel) (by decide +kernel) launching_designates (by decide) (by rw [hpages]; decide +kernel)
    (by rw [hpages]; decide +kernel)

end

/-! ### What a call does -/

/-- **`SYS_EXEC`** succeeds exactly if nothing that it needs is missing, and then the caller runs the program of the
file with the strings that it has given. -/
theorem exec_runs_program {k : Kernel} {c : Slot} {m0 : Memory} {S : Spaces} (hk : Homes m0 k S) (hc : Agrees k c)
    (hm : k.mem.ScratchUnmapped) (pathPtr argvPtr envpPtr callerCs frame : Word) :
    ((syscallExec pathPtr argvPtr envpPtr callerCs frame k).1 = syscallSuccess ↔
      ∃ file args envs, k.GrantsExec pathPtr argvPtr envpPtr callerCs file args envs) ∧
    ∀ file args envs, k.GrantsExec pathPtr argvPtr envpPtr callerCs file args envs →
      let k' := (syscallExec pathPtr argvPtr envpPtr callerCs frame k).2
      k'.mem.ProcessPages (k'.procs c) ∧ (k'.frameAt frame).eip = (elfHeader file).entry ∧
        HoldsProgram k'.mem (k'.procs c).cr3 file (k'.frameAt frame).userEsp args envs := by
  obtain ⟨d, hd, -, -, htracks⟩ := hk.loaded hc
  refine ⟨syscallExec_granted htracks hm, fun file args envs hgrants => ?_⟩
  have hdone : (syscallExec pathPtr argvPtr envpPtr callerCs frame k).1 = syscallSuccess :=
    (syscallExec_granted htracks hm).mpr ⟨file, args, envs, hgrants⟩
  obtain ⟨hpages, path, args', envs', hpath, hboth, file', hread, hentry, hprogram, -⟩ :=
    syscallExec_starts hk hc hm hdone
  obtain ⟨path', hpath', hloads⟩ := hgrants.path
  obtain rfl := Option.some.inj (hpath.symm.trans hpath')
  obtain rfl := Except.ok.inj (hread.symm.trans hloads.1)
  obtain rfl := hboth.args.unique hgrants.vectors.args
  obtain rfl := hboth.envs.unique hgrants.vectors.envs
  exact ⟨hpages, hentry, hprogram⟩

/-- A program of one page is run. -/
theorem exec_runs_program_stub : ∃ fs,
    let r := syscallExec 0x90000010 0x90000100 0 0x1B 0x400000 (Kernel.launching.mount fs)
    r.1 = syscallSuccess ∧ (r.2.frameAt 0x400000).eip = 0x40000000 ∧
      HoldsProgram r.2.mem (r.2.procs 0).cr3 (stub 0x40000000 4096) (r.2.frameAt 0x400000).userEsp [[0x2A]] [] := by
  obtain ⟨fs, hgrants⟩ := launching_granted (stub 0x40000000 4096) (by decide) (by decide) rfl (by decide)
  obtain ⟨m0, S, hhomes, hc⟩ := launching_homes
  obtain ⟨hiff, hruns⟩ := exec_runs_program (hhomes.mount fs) (hc.mount fs) launching_scratch 0x90000010 0x90000100 0
    0x1B 0x400000
  obtain ⟨-, hentry, hprogram⟩ := hruns _ _ _ hgrants
  exact ⟨fs, hiff.mpr ⟨_, _, _, hgrants⟩, hentry, hprogram⟩

end AgenticOs
