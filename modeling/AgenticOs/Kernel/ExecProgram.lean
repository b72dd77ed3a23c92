import AgenticOs.Kernel.HomeExec
import AgenticOs.Kernel.LeftoverBytes
import AgenticOs.Kernel.ProcessPages

/-!
# The program that `SYS_EXEC` starts

A call that succeeds leaves its caller in an address space that holds the program it has asked for (`HoldsProgram`), and
nothing else. The parts are put together in the order in which `syscall_exec` does its work:

* A new address space has no pages (`Tracks.freshSpace`), so that the loader makes it the image of the file
  (`elfLoadFromVfsInto_image`).
* The page of the stack lies above all segments. It is mapped beside the image (`HoldsImage.withStack`), and the strings
  that were copied before are found there: this is the success of `execStack_cases`.
* The commit loads the new directory and destroys the old one. Neither is seen from the new address space
  (`Tracks.samePages`), which has no page in common with another.

So **`syscallExec_starts`**: the file at the path is in memory, the program finds the strings that the two pointers
designated, it starts at the entry point of the file with the stack pointer that was built, and its pages are those of a
process (`ProcessPages`), which faults and `SYS_BRK` keep.
-/

namespace AgenticOs

open Function Finset Lib

variable {m0 m m' : Memory} {live live' : Finset Nat} {S S' : Spaces} {d size : Nat} {k k' : Kernel}
  {file : List Byte} {path : CString} {args envs : List CString} {cr3 sp entry e page : Word}

/-! ### A program in its address space -/

/-- The address space `cr3` holds the image of a file and a stack with its arguments, and nothing else. -/
structure HoldsProgram (m : Memory) (cr3 : Word) (file : List Byte) (sp : Word) (args envs : List CString) : Prop where
  bytes : ∀ ph ∈ loadHeaders file, ∀ k < ph.memsz.toNat, m.userLoad cr3 (ph.vaddr + BitVec.ofNat 32 k) =
    if k < ph.filesz.toNat then file[ph.offset.toNat + k]? else some 0
  pages : ∀ ph ∈ loadHeaders file, ∀ va : Word, va.toNat ∈ ph.pageRange →
    m.isUserAccessible cr3 va = true ∧ m.isUserWritable cr3 va = test ph.flags elfPfW
  stack : ProgramStack m cr3 sp args envs
  stackPage : ∀ va : Word, pageSlot va = pageSlot execStackPage → m.isUserWritable cr3 va = true
  content : m.pageView cr3 execStackPage = stackContent args envs
  others : ∀ va : Word, m.isUserAccessible cr3 va = true →
    pageSlot va = pageSlot execStackPage ∨ ∃ ph ∈ loadHeaders file, va.toNat ∈ ph.pageRange

/-- Segments lie below the heap. -/
theorem SafeSegment.slot_ne {ph : ElfProgramHeader} (h : SafeSegment size ph) {va : Word}
    (hva : va.toNat ∈ ph.pageRange) (hpage : 0x90000000 ≤ page.toNat) : pageSlot va ≠ pageSlot page := by
  intro heq
  have hdiv := pageSlot_eq_iff.mp heq
  have hstop := h.stop
  have hbelow : va.toNat < ph.pageEnd := hva.2
  omega

/-- The page of the stack is mapped beside the image, and filled. -/
theorem HoldsImage.withStack (h : HoldsImage m m.activePageDirectory file)
    (hsafe : ∀ ph ∈ loadHeaders file, SafeSegment file.length ph) (hm : m.UserPages) (huser : isUser e = true)
    (hwritable : isWritable e = true) (hpaged : m.Repaged m' (pageSlot execStackPage) e)
    (hstack : ProgramStack m' m'.activePageDirectory sp args envs)
    (hcontent : m'.pageView m'.activePageDirectory execStackPage = stackContent args envs) :
    HoldsProgram m' m'.activePageDirectory file sp args envs := by
  have hsame := hpaged.samePages hm
  have hself := hpaged.userPage_self huser
  have hslot {ph : ElfProgramHeader} (hph : ph ∈ loadHeaders file) {va : Word} (hva : va.toNat ∈ ph.pageRange) :
      pageSlot va ≠ pageSlot execStackPage := (hsafe ph hph).slot_ne hva (by decide)
  refine ⟨fun ph hph k hk => ?_, fun ph hph va hva => ?_, hstack, fun va hva => ?_, hcontent, fun va hva => ?_⟩
  · have hin := (hsafe ph hph).slot_mem.mp ((hsafe ph hph).address_slot hk)
    exact (hsame.loads _ (hslot hph hin)).trans (h.bytes ph hph k hk)
  · have hpage := hsame.entries _ (hslot hph hva)
    obtain ⟨haccess, hwrite⟩ := h.pages ph hph va hva
    rw [hm.isUserAccessible_eq] at haccess
    rw [hm.isUserWritable_eq] at hwrite
    rw [hpaged.pages.isUserAccessible_eq, hpaged.pages.isUserWritable_eq, hpage]
    exact ⟨haccess, hwrite⟩
  · rw [hpaged.pages.isUserWritable_eq, hva, hself]
    exact hwritable
  · by_cases hstackSlot : pageSlot va = pageSlot execStackPage
    · exact .inl hstackSlot
    · rw [hpaged.pages.isUserAccessible_eq, hsame.entries _ hstackSlot, ← hm.isUserAccessible_eq] at hva
      exact .inr (h.others va hva)

/-- What a program finds depends on its pages only. -/
theorem HoldsProgram.samePages (h : HoldsProgram m m.activePageDirectory file sp args envs) (hm : m.UserPages)
    (hm' : m'.UserPages) (hsame : m.SamePages m' Set.univ) :
    HoldsProgram m' m'.activePageDirectory file sp args envs := by
  have haccess (va : Word) : m'.isUserAccessible m'.activePageDirectory va =
      m.isUserAccessible m.activePageDirectory va := by
    rw [hm.isUserAccessible_eq, hm'.isUserAccessible_eq, hsame.entries _ (Set.mem_univ _)]
  have hwrite (va : Word) : m'.isUserWritable m'.activePageDirectory va =
      m.isUserWritable m.activePageDirectory va := by
    rw [hm.isUserWritable_eq, hm'.isUserWritable_eq, hsame.entries _ (Set.mem_univ _)]
  have hload : m'.userLoad m'.activePageDirectory = m.userLoad m.activePageDirectory :=
    funext fun va => hsame.loads va (Set.mem_univ _)
  refine ⟨fun ph hph k hk => ?_, fun ph hph va hva => ?_, ⟨h.stack.aligned, h.stack.inside, ?_⟩, fun va hva => ?_,
    ?_, fun va hva => ?_⟩
  · rw [hload]
    exact h.bytes ph hph k hk
  · rw [haccess, hwrite]
    exact h.pages ph hph va hva
  · rw [hload]
    exact h.stack.found
  · rw [hwrite]
    exact h.stackPage va hva
  · rw [← h.content]
    unfold Memory.pageView
    rw [hload]
  · rw [haccess] at hva
    exact h.others va hva

/-- The guard page below the stack belongs to no segment. -/
theorem HoldsProgram.guard (h : HoldsProgram m m.activePageDirectory file sp args envs)
    (hsafe : ∀ ph ∈ loadHeaders file, SafeSegment file.length ph) (hm : m.UserPages) :
    m.userPage (pageSlot userStackGuardBottom) = none := by
  have hno := h.others userStackGuardBottom
  rw [hm.isUserAccessible_eq] at hno
  rw [← Option.isNone_iff_eq_none, ← Option.isSome_eq_false_iff, ← Bool.not_eq_true]
  intro hsome
  rcases hno hsome with hstack | ⟨ph, hph, hin⟩
  · exact absurd hstack (by decide)
  · have hne : pageSlot userStackGuardBottom ≠ pageSlot userStackGuardBottom :=
      (hsafe ph hph).slot_ne hin (by decide)
    exact hne rfl

/-! ### The image and the stack -/

/-- Nothing is mapped at the scratch addresses. -/
def Memory.ScratchUnmapped (m : Memory) : Prop :=
  m.kernelScratchTable ≠ 0 → m.ram (frameOf m.kernelScratchTable) 0 = pageWritable ∧
    m.ram (frameOf m.kernelScratchTable) 1 = pageWritable

/-- The scratch page is outside the user range. -/
theorem Memory.UserPages.scratchUnmapped (h : m.UserPages) : m.ScratchUnmapped :=
  fun hs => ⟨(h.scratch hs).source, (h.scratch hs).dest⟩

namespace Tracks

/-- `paging_create_address_space` returns a fresh address space, or none. -/
theorem freshSpace (h : Tracks m0 ⟨m, live⟩ S) (hm : m.ScratchUnmapped) : m.pagingCreateAddressSpace.1 = 0 ∨
    FreshSpace m.pagingCreateAddressSpace.2 m.pagingCreateAddressSpace.1 := by
  have hscratch : m.pagingCreateAddressSpace.2.kernelScratchTable = m.kernelScratchTable := by
    rcases h.createAddressSpace with ⟨-, h'⟩ | ⟨_, _, -, -, h'⟩ <;>
      exact h'.represents.scratch.trans h.represents.scratch.symm
  refine h.represents.create_fresh h.tableHand fun hs => ?_
  rw [hscratch] at hs ⊢
  obtain ⟨hout, -⟩ := h.represents.booted.scratch (h.represents.scratch ▸ hs)
  rw [← h.represents.scratch] at hout
  rw [h.represents.create_ram h.tableHand hout]
  exact hm hs

/-- An address space that is the same shows its program the same. -/
theorem samePages (h : Tracks m0 ⟨m, live⟩ S) (h' : Tracks m0 ⟨m', live'⟩ S') (hd : d ∈ live) (hd' : d ∈ live')
    (hactive : m.activePageDirectory = frameAddr d) (hactive' : m'.activePageDirectory = frameAddr d)
    (hspace : SameSpace d S S') : m.SamePages m' Set.univ := by
  refine ⟨hactive'.trans hactive.symm, fun q _ => Option.ext fun e => ?_, fun x _ => ?_⟩
  · rw [h'.represents.userPage_iff (h'.mem_live hd') hactive', h.represents.userPage_iff (h.mem_live hd) hactive,
      hspace.entry]
  · have hview := hspace.view
    rw [hactive, hactive', h.userLoad_eq hd, h'.userLoad_eq hd']
    unfold Reference.load Reference.pageAt
    rw [hview]

/-- Another address space is destroyed, and the loaded one stays as it is. -/
theorem destroyOther {n : Nat} (h : Tracks m0 ⟨m, live⟩ S) (hn : n ∈ live) (hd : d ∈ live) (hnd : n ≠ d)
    (hactive : m.activePageDirectory = frameAddr n) (hm : m.UserPages) :
    (m.pagingDestroyAddressSpace (frameAddr d)).UserPages ∧
      m.SamePages (m.pagingDestroyAddressSpace (frameAddr d)) Set.univ := by
  have hne : m.activePageDirectory ≠ frameAddr d := by
    rw [hactive]
    intro heq
    exact hnd (frameAddr_inj (h.represents.live_lt (h.mem_live hn)) (h.represents.live_lt (h.mem_live hd)) heq)
  have h' := h.destroyed hd hne
  have hn' : n ∈ live.erase d := mem_erase.mpr ⟨hnd, hn⟩
  have hactive' := (m.pagingDestroyAddressSpace_active (frameAddr d)).trans hactive
  have hspace := Elsewhere.destroy (S := S) n hnd
  refine ⟨?_, h.samePages h' hn hn' hactive hactive' hspace⟩
  refine h.represents.userPages_of_fewer h'.represents (h.mem_live hn) (h'.mem_live hn') hactive hactive'
    (fun i j e he => ?_) (fun g hg => ?_) hm
  · rwa [← hspace.entry]
  · exact h.represents.destroy_ram (h.mem_live hd) h.tableHand h.pageHand hg

end Tracks

/-- A load that succeeds has read a file and loaded its segments into the new address space. -/
theorem elfLoadFromVfsInto_segments {info : ElfLoadInfo} (hcr3 : IsDirectory cr3)
    (hm : (k.mem.pagingSwitchDirectory cr3).UserPages) (hload : (elfLoadFromVfsInto cr3 path k).1 = .ok info) :
    ∃ file, Loads k path file ∧ info.entry = (elfHeader file).entry ∧
      (k.mem.pagingSwitchDirectory cr3).loadSegments file (loadHeaders file) =
        (elfSuccess, (elfLoadFromVfsInto cr3 path k).2.mem.pagingSwitchDirectory cr3) := by
  obtain ⟨hstatus, hmem⟩ := elfLoadFromVfsInto_run hcr3.1 path k
  obtain ⟨file, scan, hread, hlayout, rfl, hdone, hmem'⟩ := elfLoadFromVfs_ok (hstatus.symm.trans hload)
  have hloads : Loads k path file := ⟨hread, by rw [hlayout]; rfl⟩
  obtain ⟨-, hsame, -⟩ := hloads.loadable.holds hm (Prod.ext hdone rfl)
  change (elfLoadFromVfs path (k.withMem (k.mem.pagingSwitchDirectory cr3))).2.mem =
    ((k.mem.pagingSwitchDirectory cr3).loadSegments file (loadHeaders file)).2 at hmem'
  have hback : (elfLoadFromVfsInto cr3 path k).2.mem.pagingSwitchDirectory cr3 =
      ((k.mem.pagingSwitchDirectory cr3).loadSegments file (loadHeaders file)).2 := by
    rw [hmem, hmem', Memory.switch_back hcr3 (hsame.active.trans (hcr3.switch k.mem))]
  exact ⟨file, hloads, rfl, Prod.ext hdone hback.symm⟩

/-- A file is loaded into a fresh address space. -/
theorem elfLoadFromVfsInto_image {info : ElfLoadInfo} (hcr3 : IsDirectory cr3) (hfresh : FreshSpace k.mem cr3)
    (hload : (elfLoadFromVfsInto cr3 path k).1 = .ok info) :
    ∃ file, (readFileIntoBuffer path k.vfs).1 = .ok file ∧ info.entry = (elfHeader file).entry ∧
      (∀ ph ∈ loadHeaders file, SafeSegment file.length ph) ∧
      ((elfLoadFromVfsInto cr3 path k).2.mem.pagingSwitchDirectory cr3).UserPages ∧
      ((elfLoadFromVfsInto cr3 path k).2.mem.pagingSwitchDirectory cr3).activePageDirectory = cr3 ∧
      HoldsImage ((elfLoadFromVfsInto cr3 path k).2.mem.pagingSwitchDirectory cr3)
        ((elfLoadFromVfsInto cr3 path k).2.mem.pagingSwitchDirectory cr3).activePageDirectory file ∧
      k.mem.ShowsOld ((elfLoadFromVfsInto cr3 path k).2.mem.pagingSwitchDirectory cr3) file := by
  have hloaded := hcr3.switch k.mem
  obtain ⟨file, hloads, hentry, hrun⟩ := elfLoadFromVfsInto_segments hcr3 hfresh.pages hload
  have hfile := hloads.loadable
  have hempty (va : Word) : (k.mem.pagingSwitchDirectory cr3).isUserAccessible
      (k.mem.pagingSwitchDirectory cr3).activePageDirectory va = false := by
    rw [hloaded, (Memory.userViews_congr (k.mem.switch_ram cr3) rfl).1, hfresh.empty]
  obtain ⟨hpages, -⟩ := hfile.holds hfresh.pages hrun
  obtain ⟨hkept, himage⟩ := hfile.holdsImage hfresh.pages hempty hrun
  obtain ⟨-, hold⟩ := hfile.leftover hfresh.pages hrun
  exact ⟨file, hloads.1, hentry, hfile.safe, hpages, hkept.trans hloaded, himage,
    .of_spare (.switch k.mem cr3) hold⟩

/-- What `execImage` leaves in the new address space. -/
structure ImageReady (k k' : Kernel) (path : CString) (args envs : List CString) (cr3 entry sp : Word) : Prop where
  directory : IsDirectory cr3
  pages : (k'.mem.pagingSwitchDirectory cr3).UserPages
  guard : (k'.mem.pagingSwitchDirectory cr3).userPage (pageSlot userStackGuardBottom) = none
  program : ∃ file, (readFileIntoBuffer path k.vfs).1 = .ok file ∧ entry = (elfHeader file).entry ∧
    HoldsProgram (k'.mem.pagingSwitchDirectory cr3) (k'.mem.pagingSwitchDirectory cr3).activePageDirectory file sp args
      envs ∧ k.mem.ShowsOld (k'.mem.pagingSwitchDirectory cr3) file

/-- The image and the stack of a call that commits. -/
theorem execImage_ready {vectors : ExecVectors} (h : Tracks m0 ⟨k.mem, live⟩ S) (hm : k.mem.ScratchUnmapped)
    (hvectors : vectors.Copied args envs) (hrun : execImage path vectors k = (.ok (cr3, entry, sp), k')) :
    ImageReady k k' path args envs cr3 entry sp := by
  unfold execImage at hrun
  rw [run_bind, run_callMemory] at hrun
  by_cases hnone : k.mem.pagingCreateAddressSpace.1 = 0
  · rw [if_pos hnone] at hrun
    exact nomatch congrArg Prod.fst hrun
  have hfresh := (h.freshSpace hm).resolve_left hnone
  have hspare := Memory.create_spare h.represents.books.initialized h.represents.books.counted hnone
  have hdirectory : IsDirectory k.mem.pagingCreateAddressSpace.1 := by
    rcases h.createAddressSpace with ⟨hzero, -⟩ | ⟨n, t, -, hcr3, h'⟩
    · exact absurd hzero hnone
    · rw [hcr3]
      exact h'.live_isDirectory (mem_insert_self n live)
  rw [if_neg hnone, run_bind] at hrun
  generalize k.mem.pagingCreateAddressSpace = created at hrun hnone hfresh hspare hdirectory
  have himage (info : ElfLoadInfo) (hload : (elfLoadFromVfsInto created.1 path (k.withMem created.2)).1 = .ok info) :=
    elfLoadFromVfsInto_image hdirectory hfresh hload
  generalize elfLoadFromVfsInto created.1 path (k.withMem created.2) = loaded at hrun himage
  obtain ⟨e | info, k₂⟩ := loaded
  · exact nomatch congrArg Prod.fst hrun
  obtain ⟨file, hread, hentry, hsafe, hpages, hactive, hholds, hold⟩ := himage info rfl
  dsimp only at hrun hpages hactive hholds hold
  rw [run_bind] at hrun
  have hstack := execStack_cases (k := k₂) hdirectory hpages hvectors.argStrings hvectors.envStrings hvectors.argc
    hvectors.envc hvectors.noNul hvectors.fits
  generalize execStack created.1 vectors k₂ = built at hrun hstack
  obtain ⟨status | sp', k₃⟩ := built
  · exact nomatch congrArg Prod.fst hrun
  rcases hstack with hfail | hfail | ⟨sp'', e, hok, hprogram, hcontent, huser, hwritable, hpaged⟩
  · cases hfail
  · cases hfail
  cases hok
  cases hrun
  have hactive' := hpaged.active.trans hactive
  have hload : (k₃.mem.pagingSwitchDirectory created.1).userLoad created.1 = k₃.mem.userLoad created.1 :=
    funext fun va => (Memory.userViews_congr (k₃.mem.switch_ram created.1) rfl).2.2
  have hfound : ProgramStack (k₃.mem.pagingSwitchDirectory created.1)
      (k₃.mem.pagingSwitchDirectory created.1).activePageDirectory sp args envs := by
    rw [hactive']
    refine ⟨hprogram.aligned, hprogram.inside, ?_⟩
    rw [hload]
    exact hprogram.found
  have hview : (k₃.mem.pagingSwitchDirectory created.1).pageView
      (k₃.mem.pagingSwitchDirectory created.1).activePageDirectory execStackPage = stackContent args envs := by
    rw [hactive', ← hcontent]
    unfold Memory.pageView
    rw [hload]
  have hprogram' := hholds.withStack hsafe hpages huser hwritable hpaged hfound hview
  have hold' : created.2.ShowsOld (k₃.mem.pagingSwitchDirectory created.1) file := by
    refine hold.samePages (hpaged.samePages hpages) ?_
    rintro ph hph _ ⟨page, hpage, rfl⟩
    exact (hsafe ph hph).slot_ne ((hsafe ph hph).slot_mem.mp ⟨page, hpage, rfl⟩) (by decide)
  exact ⟨hdirectory, hpaged.pages, hprogram'.guard hsafe hpaged.pages, file, hread, hentry, hprogram',
    .of_spare hspare hold'⟩

/-! ### The strings of the caller -/

namespace Kernel

variable {a p argvPtr envpPtr : Word} {s : CString} {strings : List CString} {limit : Nat}

/-- What is copied from a user is the same. -/
def CopiesAlike (k k' : Kernel) : Prop := ∀ source size, k'.copyFromUser source size = k.copyFromUser source size

/-- The heap is no part of it. -/
theorem copiesAlike_withHeap (k : Kernel) (heap : Heap) : (k.withHeap heap).CopiesAlike k := fun _ _ => rfl

namespace CopiesAlike

/-- Then bytes are the same, -/
theorem copyByteFromUser (h : k.CopiesAlike k') (source : Word) :
    k'.copyByteFromUser source = k.copyByteFromUser source := by
  unfold Kernel.copyByteFromUser
  rw [h]

/-- words, -/
theorem copyWordFromUser (h : k.CopiesAlike k') (source : Word) :
    k'.copyWordFromUser source = k.copyWordFromUser source := by
  unfold Kernel.copyWordFromUser
  rw [h]

/-- strings, -/
theorem stringAt (h : k.CopiesAlike k') (hs : k.StringAt a s) : k'.StringAt a s := by
  induction hs with
  | nil hb => exact .nil ((h.copyByteFromUser _).trans hb)
  | cons hb hne _ ih => exact .cons ((h.copyByteFromUser _).trans hb) hne ih

/-- arrays of pointers, -/
theorem pointersAt (h : k.CopiesAlike k') (hp : k.PointersAt a strings) : k'.PointersAt a strings := by
  induction hp with
  | nil hw => exact .nil ((h.copyWordFromUser _).trans hw)
  | cons hw hne hs hlength _ ih => exact .cons ((h.copyWordFromUser _).trans hw) hne (h.stringAt hs) hlength ih

/-- what they designate, -/
theorem designates (h : k.CopiesAlike k') (hp : k.Designates limit p strings) : k'.Designates limit p strings :=
  ⟨hp.count, hp.strings.imp id fun ⟨hne, hptrs⟩ => ⟨hne, h.pointersAt hptrs⟩⟩

/-- both of them, -/
theorem designatesBoth (h : k.CopiesAlike k') (hp : k.DesignatesBoth argvPtr envpPtr args envs) :
    k'.DesignatesBoth argvPtr envpPtr args envs :=
  ⟨h.designates hp.args, h.designates hp.envs⟩

/-- and paths. -/
theorem copyStringFromUser (h : k.CopiesAlike k') (source : Word) (n : Nat) :
    k'.copyStringFromUser source n = k.copyStringFromUser source n := by
  induction n generalizing source with
  | zero => rfl
  | succ n ih =>
    unfold Kernel.copyStringFromUser
    rw [h.copyByteFromUser, ih]

end CopiesAlike

end Kernel

/-! ### The commit -/

/-- The commit moves the caller into the new address space. -/
theorem ImageReady.committed {k₁ : Kernel} {c : Slot} {n : Nat}
    (h : ImageReady k k₁ path args envs (frameAddr n) entry sp) (hm : Tracks m0 ⟨k₁.mem, live⟩ S) (hn : n ∈ live)
    (hd : d ∈ live) (hnd : n ≠ d) (hcr3 : (k₁.procs c).cr3 = frameAddr d) (frame : Word) (vectors : Option Nat) :
    let k' := (execCommit c frame (frameAddr n) sp entry vectors k₁).2
    k'.mem.ProcessPages (k'.procs c) ∧ ∃ file, (readFileIntoBuffer path k.vfs).1 = .ok file ∧
      (k'.frameAt frame).eip = (elfHeader file).entry ∧
      HoldsProgram k'.mem (k'.procs c).cr3 file (k'.frameAt frame).userEsp args envs ∧ k.mem.ShowsOld k'.mem file := by
  obtain ⟨hmem, hnew, hstart, hend⟩ := execCommit_memory hm c frame (frameAddr n) sp entry vectors
  obtain ⟨heip, hesp⟩ := execCommit_frame k₁ c frame (frameAddr n) sp entry vectors
  dsimp only at hmem hnew hstart hend heip hesp ⊢
  generalize (execCommit c frame (frameAddr n) sp entry vectors k₁).2 = k' at hmem hnew hstart hend heip hesp ⊢
  rw [hcr3] at hmem
  have hloaded := hm.load (.inr ⟨n, hm.mem_live hn, rfl⟩)
  have hactive := h.directory.switch k₁.mem
  obtain ⟨hpages, hsame⟩ := hloaded.destroyOther hn hd hnd hactive h.pages
  obtain ⟨file, hread, hentry, hprogram, hold⟩ := h.program
  have hprogram' := hprogram.samePages h.pages hpages hsame
  have hold' := hold.samePages hsame fun _ _ => Set.subset_univ _
  rw [← hmem] at hpages hsame hprogram' hold'
  have hactive' : k'.mem.activePageDirectory = frameAddr n := hsame.active.trans hactive
  refine ⟨⟨hpages, hnew.trans hactive'.symm, hstart, ?_, ?_⟩, file, hread, heip.trans hentry, ?_, hold'⟩
  · rw [hend]
    decide
  · exact (hsame.entries _ (Set.mem_univ _)).trans h.guard
  · rw [hnew, hesp, ← hactive']
    exact hprogram'

/-- **A `SYS_EXEC` that succeeds** starts the program of the file, with the strings its caller has designated, in pages
of a process. -/
theorem syscallExec_starts {c : Slot} {pathPtr argvPtr envpPtr callerCs frame : Word} (hk : Homes m0 k S)
    (hc : Agrees k c) (hm : k.mem.ScratchUnmapped)
    (hdone : (syscallExec pathPtr argvPtr envpPtr callerCs frame k).1 = syscallSuccess) :
    let k' := (syscallExec pathPtr argvPtr envpPtr callerCs frame k).2
    k'.mem.ProcessPages (k'.procs c) ∧
      ∃ path args envs, k.copyStringFromUser pathPtr vfsMaxPath = some path ∧
        k.DesignatesBoth argvPtr envpPtr args envs ∧ ∃ file, (readFileIntoBuffer path k.vfs).1 = .ok file ∧
          (k'.frameAt frame).eip = (elfHeader file).entry ∧
          HoldsProgram k'.mem (k'.procs c).cr3 file (k'.frameAt frame).userEsp args envs ∧
          k.mem.ShowsOld k'.mem file := by
  have hends := syscallExec_ends pathPtr argvPtr envpPtr callerCs frame k
  generalize syscallExec pathPtr argvPtr envpPtr callerCs frame k = r at hdone hends
  obtain ⟨d, hd, hdwells, -, htracks⟩ := hk.loaded hc
  cases hends with
  | refused status hstatus => exact absurd hdone hstatus
  | uncopied block heap status _ hstatus => exact absurd hdone hstatus
  | unloaded block heap path vectors status k' _ hsmall hrun =>
    rcases execImage_spaces (k := k.withHeap heap) htracks path hsmall with
      ⟨status', S', herror, hne, -⟩ | ⟨n, S', entry, sp, -, hok, -⟩
    · rw [hrun] at herror
      exact absurd (hdone.symm.trans (Except.error.inj herror)).symm hne
    · rw [hrun] at hok
      cases hok
  | committed block heap path vectors current cr3 entry sp k' hcurrent hpath _ hvectors hrun =>
    obtain rfl := Option.some.inj (hc.processGetCurrent.symm.trans hcurrent)
    obtain ⟨args, envs, hboth, hcopied⟩ := Kernel.copyVectors_copied hvectors
    have hready := execImage_ready (k := k.withHeap heap) htracks hm hcopied hrun
    have hprocs : k'.procs = k.procs := by
      have hstep := (imageRead_execImage path vectors (k.withHeap heap)).step
      rw [hrun] at hstep
      exact hstep.procs
    rcases execImage_spaces (k := k.withHeap heap) htracks path (Kernel.copyVectors_small hvectors) with
      ⟨status', S', herror, -⟩ | ⟨n, S', entry', sp', hnew, hok, hspaces, -⟩
    · rw [hrun] at herror
      cases herror
    rw [hrun] at hok hspaces
    obtain ⟨rfl, -⟩ := Prod.mk.inj (Except.ok.inj hok)
    have hnd : n ≠ d := by
      rintro rfl
      exact hnew hd
    have hcr3 : (k'.procs c).cr3 = frameAddr d := by
      rw [hprocs]
      exact hdwells.cr3
    obtain ⟨hpages, hprogram⟩ := hready.committed hspaces (mem_insert_self n S.live) (mem_insert_of_mem hd) hnd hcr3
      frame (some block)
    have hvfs : (k.withHeap heap).vfs = k.vfs := rfl
    rw [hvfs] at hprogram
    dsimp only at hpages hprogram ⊢
    exact ⟨hpages, path, args, envs, hpath, (k.copiesAlike_withHeap heap).designatesBoth hboth, hprogram⟩

end AgenticOs
