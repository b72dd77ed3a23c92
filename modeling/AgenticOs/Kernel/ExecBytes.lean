import AgenticOs.Kernel.ExecGranted

/-!
# What an image shows of old memory

Two kernels may differ in the contents of free frames and in nothing else. This file asks whether a program that is
started by `SYS_EXEC` can tell them apart.

* **Free frames** (`Memory.refill`): other words are written into all of them. Nothing that is in use changes
  (`Represents.refill`), the caller of the system call is copied alike (`Tracks.copiesAlike_refill`), and a call that
  succeeds in one kernel succeeds in the other (`ExecCall.Starts.refill`).
* **Two calls** (`ExecCall.RevealsNothing`): calls that run the same file with the same strings, and take the same
  frames, show their programs the same bytes.
* **Main result** (`exec_image_clean_iff`): so they do exactly for files whose segments begin and end at the boundary
  of a page. The stack is filled up with zeros by `exec_build_user_stack`, but the loader writes only the bytes of the
  segments (`loadHeaders`) into the pages that it maps, and `frame_alloc` clears nothing.

The program of one segment that begins 16 bytes behind the start of its page (`stub`) is one that shows old contents
(`stub_reveals`).
-/

namespace AgenticOs

open Function Finset Lib

/-! ### Other contents of free frames -/

/-- Whether a frame can be handed out is decided by the allocator. -/
instance (fr : FrameState) : DecidablePred (Pool fr) := fun f =>
  inferInstanceAs (Decidable (firstFrame ≤ f ∧ f < fr.totalFrames ∧ fr.frameBitmap f = false))

/-- All words of all free frames are `w`. -/
def Memory.refill (m : Memory) (w : Word) : Memory :=
  { m with ram := fun f => if Pool m.frames f then fun _ => w else m.ram f }

namespace Memory

variable {m : Memory} {w : Word} {f : Nat}

/-- A free frame holds the word. -/
theorem refill_ram_free (hf : Pool m.frames f) (w : Word) : (m.refill w).ram f = fun _ => w := if_pos hf

/-- The other frames hold what they held. -/
theorem refill_ram_used (hf : ¬Pool m.frames f) (w : Word) : (m.refill w).ram f = m.ram f := if_neg hf

end Memory

variable {m0 m : Memory} {live : Finset Nat} {S : Spaces} {w : Word}

/-- The same address spaces are stored. -/
theorem Represents.refill (h : Represents m0 m S) (hhand : S.pageHand = none) (w : Word) :
    Represents m0 (m.refill w) S := by
  have houtside {f : Nat} (hf : ¬Pool m0.frames f) : (m.refill w).ram f = m.ram f :=
    Memory.refill_ram_used (fun hfree => hf (h.pool_start hfree)) w
  refine h.withRam hhand (fun o f ho => ?_) (houtside fun hpool => Represents.pool_ne_kernel hpool rfl) fun t ht j => ?_
  · exact Memory.refill_ram_used (fun hf => h.books.not_held_of_free hf.2.2 o ho) w
  · have hsame : (m.refill w).ram t = m.ram t := houtside (h.booted.kernelTable t ht).1
    exact (congrArg (fun page => userEntry (page j)) hsame).trans (h.layout.kernelTables t ht j)

/-- They are stored as they were after the last call. -/
theorem Tracks.refill (h : Tracks m0 ⟨m, live⟩ S) (w : Word) : Tracks m0 ⟨m.refill w, live⟩ S :=
  ⟨h.represents.refill h.pageHand w, h.live, h.pageHand, h.tableHand, h.user, h.unshared⟩

/-- The directory of the process that is read is the one that is loaded. -/
theorem Kernel.activeProcessDirectory_cr3 {k : Kernel} {proc : Slot} (h : k.activeProcessDirectory = some proc) :
    (k.procs proc).cr3 = k.mem.activePageDirectory := by
  unfold Kernel.activeProcessDirectory at h
  split at h
  · cases h
  · split at h
    · cases h
    · rename_i hcr3
      cases h
      exact not_not.mp (not_or.mp hcr3).2

/-- A user is read alike: the pages are the same, and none of them is free. -/
theorem Tracks.copiesAlike_refill {k : Kernel} {d : Nat} (h : Tracks m0 ⟨k.mem, live⟩ S) (hd : d ∈ live)
    (hactive : k.mem.activePageDirectory = frameAddr d) (w : Word) :
    k.CopiesAlike (k.withMem (k.mem.refill w)) := by
  have h' := h.refill w
  have hlive := h.mem_live hd
  have hne : k.mem.activePageDirectory ≠ 0 := by
    rw [hactive]
    exact h.represents.frameAddr_live_ne_zero hlive
  have hpage (p : PageSlot) : (k.mem.refill w).userPage p = k.mem.userPage p := Option.ext fun e =>
    (h'.represents.userPage_iff hlive hactive).trans (h.represents.userPage_iff hlive hactive).symm
  have hflags (va : Word) :
      has ((k.mem.refill w).pagingGetPageFlagsInDirectory k.mem.activePageDirectory va) (pagePresent ||| pageUser) =
        has (k.mem.pagingGetPageFlagsInDirectory k.mem.activePageDirectory va) (pagePresent ||| pageUser) := by
    have hkind := (Memory.pageFlags_kinds (m := k.mem.refill w) hne va).2.1
    rw [(Memory.pageFlags_kinds hne va).2.1, ← hpage]
    exact hkind
  have hbyte (va : Word) (hmapped : (k.mem.userPage (pageSlot va)).isSome = true) :
      (k.mem.refill w).loadByte va = k.mem.loadByte va := by
    obtain ⟨e, he⟩ := Option.isSome_iff_exists.mp hmapped
    have he' := (hpage (pageSlot va)).trans he
    have hentry := (h.represents.userPage_iff hlive hactive).mp he
    have hframe : k.mem.userFrame k.mem.activePageDirectory va = frameOf e :=
      Memory.userFrame_eq (Memory.userPage_eq_some.mp he).1
    have hframe' : (k.mem.refill w).userFrame (k.mem.refill w).activePageDirectory va = frameOf e :=
      Memory.userFrame_eq (Memory.userPage_eq_some.mp he').1
    unfold Memory.loadByte
    rw [hframe, hframe', h.represents.layout.contents _ _ _ _ hentry, h'.represents.layout.contents _ _ _ _ hentry]
  intro source size
  have hread : (k.withMem (k.mem.refill w)).uaccessReadable source size = k.uaccessReadable source size := by
    have hdirectory : (k.withMem (k.mem.refill w)).activeProcessDirectory = k.activeProcessDirectory := rfl
    unfold Kernel.uaccessReadable
    rw [hdirectory]
    rcases hproc : k.activeProcessDirectory with _ | proc
    · rfl
    · have hprocs : (k.withMem (k.mem.refill w)).procs = k.procs := rfl
      have hmem : (k.withMem (k.mem.refill w)).mem = k.mem.refill w := rfl
      dsimp only
      rw [hprocs, hmem, Kernel.activeProcessDirectory_cr3 hproc]
      simp only [hflags]
  unfold Kernel.copyFromUser
  rw [hread]
  by_cases hok : k.uaccessReadable source size = true
  · rw [if_pos hok, if_pos hok]
    refine congrArg some (List.map_congr_left fun i hi => hbyte _ ?_)
    have hi := List.mem_range.mp hi
    have hsize : size ≠ 0 := by
      rintro rfl
      exact absurd hi (Nat.not_lt_zero i)
    have hvalid : uaccessRangeValid source size = true := by
      by_contra hno
      unfold Kernel.uaccessReadable at hok
      rw [Bool.not_eq_true] at hno
      rw [hno] at hok
      cases hok
    obtain ⟨proc, hproc, hmapped⟩ := (Kernel.uaccessReadable_iff hsize hvalid).mp hok
    rw [← (Memory.pageFlags_kinds hne _).2.1, ← Kernel.activeProcessDirectory_cr3 hproc]
    exact hmapped i hi
  · rw [if_neg hok, if_neg hok]

/-- What is admitted, is admitted. -/
theorem Kernel.CopiesAlike.uaccessReadable {k k' : Kernel} (h : k.CopiesAlike k') (source size : Word) :
    k'.uaccessReadable source size = k.uaccessReadable source size := by
  have hsome (k : Kernel) : (k.copyFromUser source size).isSome = k.uaccessReadable source size := by
    unfold Kernel.copyFromUser
    cases k.uaccessReadable source size with
    | true => rfl
    | false => rfl
  rw [← hsome, ← hsome, h]

/-- A call is granted alike: nothing that it needs is read from a free frame. -/
theorem Kernel.GrantsExec.refill {k : Kernel} {pathPtr argvPtr envpPtr callerCs : Word} {file : List Byte}
    {args envs : List CString} {d : Nat} (h : k.GrantsExec pathPtr argvPtr envpPtr callerCs file args envs)
    (htracks : Tracks m0 ⟨k.mem, live⟩ S) (hd : d ∈ live) (hactive : k.mem.activePageDirectory = frameAddr d)
    (w : Word) : (k.withMem (k.mem.refill w)).GrantsExec pathPtr argvPtr envpPtr callerCs file args envs := by
  have hcopies := htracks.copiesAlike_refill hd hactive w
  have hframes : (k.mem.refill w).frames = k.mem.frames := rfl
  obtain ⟨hdirectory, hleft⟩ := Memory.create_congr hframes
  obtain ⟨path, hpath, hloads⟩ := h.path
  refine ⟨h.ring, h.current, (hcopies.uaccessReadable _ _).trans h.readable,
    ⟨path, (hcopies.copyStringFromUser _ _).trans hpath, hloads⟩, h.block, hcopies.designatesBoth h.vectors, h.fits,
    ?_, ?_⟩
  · show (k.mem.refill w).pagingCreateAddressSpace.1 ≠ 0
    rw [hdirectory]
    exact h.directory
  · show (k.mem.refill w).pagingCreateAddressSpace.2.frames.TakesImage file
    rw [hleft]
    exact h.frames

/-- All processes live where they lived. -/
theorem Homes.refill {k : Kernel} (h : Homes m0 k S) (w : Word) : Homes m0 (k.withMem (k.mem.refill w)) S :=
  ⟨h.tracks.refill w, h.home, h.alone, h.owned⟩

/-- The scratch page is not free. -/
theorem Represents.scratchUnmapped_refill (h : Represents m0 m S) (hm : m.ScratchUnmapped) (w : Word) :
    (m.refill w).ScratchUnmapped := by
  intro hs
  obtain ⟨hout, -⟩ := h.booted.scratch (h.scratch ▸ hs)
  rw [← h.scratch] at hout
  have hsame : (m.refill w).ram (frameOf m.kernelScratchTable) = m.ram (frameOf m.kernelScratchTable) :=
    Memory.refill_ram_used (fun hfree => hout (h.pool_start hfree)) w
  show (m.refill w).ram (frameOf m.kernelScratchTable) 0 = _ ∧ (m.refill w).ram (frameOf m.kernelScratchTable) 1 = _
  rw [hsame]
  exact hm hs

/-! ### Calls -/

/-- A call of `SYS_EXEC`. -/
structure ExecCall where
  kernel : Kernel
  caller : Slot
  pathPtr : Word
  argvPtr : Word
  envpPtr : Word
  callerCs : Word
  frame : Word

namespace ExecCall

/-- What it returns, and the kernel that it leaves. -/
def result (r : ExecCall) : Word × Kernel :=
  syscallExec r.pathPtr r.argvPtr r.envpPtr r.callerCs r.frame r.kernel

/-- What a program finds in the address space of the caller after the call: the byte at each address, where there is
a page. -/
def image (r : ExecCall) : ByteView := r.result.2.mem.userLoad (r.result.2.procs r.caller).cr3

/-- The call, in a kernel with other contents of the free frames. -/
def refill (r : ExecCall) (w : Word) : ExecCall := { r with kernel := r.kernel.withMem (r.kernel.mem.refill w) }

/-- The caller runs, and its call succeeds: it runs this file, with these strings. -/
structure Starts (r : ExecCall) (file : List Byte) (args envs : List CString) : Prop where
  homes : ∃ m0 S, Homes m0 r.kernel S
  runs : Agrees r.kernel r.caller
  scratch : r.kernel.mem.ScratchUnmapped
  file : ∃ path, r.kernel.copyStringFromUser r.pathPtr vfsMaxPath = some path ∧
    (readFileIntoBuffer path r.kernel.vfs).1 = .ok file
  strings : r.kernel.DesignatesBoth r.argvPtr r.envpPtr args envs
  success : r.result.1 = syscallSuccess

/-- Calls that run the file with these strings, and have the same frames to take, show the same bytes. -/
def RevealsNothing (file : List Byte) (args envs : List CString) : Prop :=
  ∀ r r' : ExecCall, r.Starts file args envs → r'.Starts file args envs →
    r'.kernel.mem.frames = r.kernel.mem.frames → r'.image = r.image

variable {r r' : ExecCall} {file : List Byte} {args envs : List CString}

/-- What the call needed was there. -/
theorem Starts.granted (h : r.Starts file args envs) :
    r.kernel.GrantsExec r.pathPtr r.argvPtr r.envpPtr r.callerCs file args envs := by
  obtain ⟨m0, S, hhomes⟩ := h.homes
  obtain ⟨d, hd, -, -, htracks⟩ := hhomes.loaded h.runs
  obtain ⟨file', args', envs', hgrants⟩ := (syscallExec_granted htracks h.scratch).mp h.success
  obtain ⟨path, hpath, hread⟩ := h.file
  obtain ⟨path', hpath', hloads⟩ := hgrants.path
  obtain rfl := Option.some.inj (hpath.symm.trans hpath')
  obtain rfl := Except.ok.inj (hread.symm.trans hloads.1)
  obtain rfl := h.strings.args.unique hgrants.vectors.args
  obtain rfl := h.strings.envs.unique hgrants.vectors.envs
  exact hgrants

/-- The segments of the file are sound. -/
theorem Starts.safe (h : r.Starts file args envs) : ∀ ph ∈ loadHeaders file, SafeSegment file.length ph := by
  obtain ⟨path, -, hloads⟩ := h.granted.path
  exact hloads.loadable.safe

/-- The program that runs. -/
theorem Starts.program (h : r.Starts file args envs) :
    (∃ sp, HoldsProgram r.result.2.mem (r.result.2.procs r.caller).cr3 file sp args envs) ∧
      r.kernel.mem.ShowsOld r.result.2.mem file ∧
        (r.result.2.procs r.caller).cr3 = r.result.2.mem.activePageDirectory := by
  obtain ⟨m0, S, hhomes⟩ := h.homes
  obtain ⟨hpages, path, args', envs', hpath, hboth, file', hread, -, hprogram, hold⟩ :=
    syscallExec_starts hhomes h.runs h.scratch h.success
  obtain ⟨path', hpath', hread'⟩ := h.file
  obtain rfl := Option.some.inj (hpath.symm.trans hpath')
  obtain rfl := Except.ok.inj (hread.symm.trans hread')
  obtain rfl := hboth.args.unique h.strings.args
  obtain rfl := hboth.envs.unique h.strings.envs
  exact ⟨⟨_, hprogram⟩, hold, hpages.active⟩

/-- The call succeeds whatever is in the free frames. -/
theorem Starts.refill (h : r.Starts file args envs) (w : Word) : (r.refill w).Starts file args envs := by
  obtain ⟨m0, S, hhomes⟩ := h.homes
  obtain ⟨d, hd, -, hactive, htracks⟩ := hhomes.loaded h.runs
  have hcopies := htracks.copiesAlike_refill hd hactive w
  have hscratch := htracks.represents.scratchUnmapped_refill h.scratch w
  obtain ⟨path, hpath, hread⟩ := h.file
  refine ⟨⟨m0, S, hhomes.refill w⟩, ?_, hscratch, ⟨path, (hcopies.copyStringFromUser _ _).trans hpath, hread⟩,
    hcopies.designatesBoth h.strings, ?_⟩
  · exact h.runs.withMem (r.kernel.mem.refill w) rfl
  · exact (syscallExec_granted (htracks.refill w) hscratch).mpr ⟨file, args, envs, h.granted.refill htracks hd hactive w⟩

/-- Outside the segments, the pages of a segment hold what their frames held. -/
theorem Starts.shows (h : r.Starts file args envs) {ph : ElfProgramHeader} (hph : ph ∈ loadHeaders file) {x : Word}
    (hx : x.toNat ∈ ph.pageRange) (hout : ¬ph.Contains x.toNat) (w : Word) :
    (r.refill w).image x = some (pageByte (fun _ => w) (pageOffset x)) := by
  obtain ⟨-, hold, hcr3⟩ := (h.refill w).program
  obtain ⟨g, hg, hload⟩ := hold ph hph x ((h.safe ph hph).slot_mem.mpr hx) hout
  have hwords : (r.kernel.mem.refill w).ram g = fun _ => w := Memory.refill_ram_free (m := r.kernel.mem) hg w
  unfold image
  rw [hcr3, hload, ← hwords]
  rfl

/-- **A file that shows old contents**: the same call shows zeros, or ones, of memory that nobody uses. -/
theorem Starts.reveals (h : r.Starts file args envs) {ph : ElfProgramHeader} (hph : ph ∈ loadHeaders file) {x : Word}
    (hx : x.toNat ∈ ph.pageRange) (hout : ¬ph.Contains x.toNat) : ¬RevealsNothing file args envs := by
  intro hsame
  have hzeros := h.shows hph hx hout 0
  have hones := h.shows hph hx hout 0xFFFFFFFF
  rw [hsame _ _ (h.refill 0) (h.refill 0xFFFFFFFF) rfl, hzeros] at hones
  have hne : ∀ k < 4, wordByte 0 k ≠ wordByte 0xFFFFFFFF k := by decide
  exact hne _ (Nat.mod_lt _ (by decide)) (Option.some.inj hones)

end ExecCall

/-! ### Files that show nothing -/

/-- All segments begin and end at the boundary of a page. -/
def WholePages (file : List Byte) : Prop :=
  ∀ ph ∈ loadHeaders file, ph.vaddr.toNat % 4096 = 0 ∧ ph.memsz.toNat % 4096 = 0

/-- Then there is nothing else in their pages. -/
theorem WholePages.contains {file : List Byte} (h : WholePages file) {ph : ElfProgramHeader}
    (hph : ph ∈ loadHeaders file) {x : Nat} (hx : x ∈ ph.pageRange) : ph.Contains x := by
  obtain ⟨hstart, hsize⟩ := h ph hph
  unfold ElfProgramHeader.pageRange ElfProgramHeader.pageStart ElfProgramHeader.pageEnd at hx
  unfold ElfProgramHeader.Contains
  obtain ⟨hlow, hhigh⟩ := hx
  omega

/-- Otherwise there is. -/
theorem exists_outside {ph : ElfProgramHeader} (h : ¬(ph.vaddr.toNat % 4096 = 0 ∧ ph.memsz.toNat % 4096 = 0)) :
    ∃ x ∈ ph.pageRange, ¬ph.Contains x := by
  unfold ElfProgramHeader.pageRange ElfProgramHeader.pageStart ElfProgramHeader.pageEnd ElfProgramHeader.Contains
  by_cases hstart : ph.vaddr.toNat % 4096 = 0
  · -- behind the end
    refine ⟨ph.vaddr.toNat + ph.memsz.toNat, ⟨by omega, by omega⟩, by omega⟩
  · -- before the start
    refine ⟨ph.vaddr.toNat / 4096 * 4096, ⟨by omega, by omega⟩, by omega⟩

/-- A program of whole pages shows its file and its strings, and nothing else. -/
theorem HoldsProgram.userLoad_eq {m m' : Memory} {cr3 cr3' sp sp' : Word} {file : List Byte} {args envs : List CString}
    (h : HoldsProgram m cr3 file sp args envs) (h' : HoldsProgram m' cr3' file sp' args envs)
    (hfile : WholePages file) : m'.userLoad cr3' = m.userLoad cr3 := by
  funext x
  by_cases hstack : pageSlot x = pageSlot execStackPage
  · have hview := congrFun (h'.content.trans h.content.symm) x
    unfold Memory.pageView at hview
    rwa [if_pos hstack, if_pos hstack] at hview
  by_cases hsegment : ∃ ph ∈ loadHeaders file, x.toNat ∈ ph.pageRange
  · obtain ⟨ph, hph, hx⟩ := hsegment
    obtain ⟨hlow, hhigh⟩ := hfile.contains hph hx
    have hoffset : x = ph.vaddr + BitVec.ofNat 32 (x.toNat - ph.vaddr.toNat) := by
      apply BitVec.eq_of_toNat_eq
      rw [BitVec.toNat_add, BitVec.toNat_ofNat]
      omega
    have hlt : x.toNat - ph.vaddr.toNat < ph.memsz.toNat := by omega
    rw [hoffset, h.bytes ph hph _ hlt, h'.bytes ph hph _ hlt]
  · -- neither program has the page
    have hnone {m : Memory} {cr3 sp : Word} (h : HoldsProgram m cr3 file sp args envs) : m.userLoad cr3 x = none := by
      unfold Memory.userLoad
      rw [if_neg fun haccess => (h.others x haccess).elim hstack hsegment]
    rw [hnone h, hnone h']

/-- **When an image reveals nothing**: the bytes of a program that has just been started do not depend on what was in
free frames if and only if the segments of its file are whole pages. -/
theorem exec_image_clean_iff {r : ExecCall} {file : List Byte} {args envs : List CString}
    (h : r.Starts file args envs) : ExecCall.RevealsNothing file args envs ↔ WholePages file := by
  constructor
  · intro hsame ph hph
    by_contra hpartial
    obtain ⟨x, hx, hout⟩ := exists_outside hpartial
    have hlt : x < 4294967296 := by
      have hstop := (h.safe ph hph).stop
      have hend : x < ph.pageEnd := hx.2
      omega
    have hword : (BitVec.ofNat 32 x).toNat = x := by
      rw [BitVec.toNat_ofNat]
      exact Nat.mod_eq_of_lt hlt
    exact h.reveals hph (x := BitVec.ofNat 32 x) (hword.symm ▸ hx) (hword.symm ▸ hout) hsame
  · intro hfile r₁ r₂ h₁ h₂ _
    obtain ⟨⟨sp₁, hprogram₁⟩, -⟩ := h₁.program
    obtain ⟨⟨sp₂, hprogram₂⟩, -⟩ := h₂.program
    exact hprogram₁.userLoad_eq hprogram₂ hfile

/-! ### Programs of one page -/

/-- The call that runs a program of the machine. -/
def launchCall (fs : SimpleFs) : ExecCall := ⟨Kernel.launching.mount fs, 0, 0x90000010, 0x90000100, 0, 0x1B, 0x400000⟩

/-- A program of one page is started. -/
theorem launchCall_starts (file : List Byte) (hpos : 0 < file.length) (hsector : file.length ≤ sectorSize)
    (hlayout : (elfLayout file).isOk = true) (hpages : (loadPages (loadHeaders file)).length = 1) :
    ∃ fs, (launchCall fs).Starts file [[0x2A]] [] := by
  obtain ⟨fs, hgrants⟩ := launching_granted file hpos hsector hlayout hpages
  obtain ⟨m0, S, hhomes, hc⟩ := launching_homes
  obtain ⟨d, hd, -, -, htracks⟩ := hhomes.loaded hc
  obtain ⟨path, hpath, hloads⟩ := hgrants.path
  have hdone : (launchCall fs).result.1 = syscallSuccess :=
    (syscallExec_granted (k := Kernel.launching.mount fs) htracks launching_scratch).mpr ⟨_, _, _, hgrants⟩
  exact ⟨fs, ⟨m0, S, hhomes.mount fs⟩, hc.mount fs, launching_scratch, ⟨path, hpath, hloads.1⟩, hgrants.vectors, hdone⟩

/-- A program that fills its page is started, and reveals nothing. -/
theorem exec_image_clean_iff_page : ∃ fs,
    (launchCall fs).Starts (stub 0x40000000 4096) [[0x2A]] [] ∧ ExecCall.RevealsNothing (stub 0x40000000 4096) [[0x2A]] [] := by
  have hfile : WholePages (stub 0x40000000 4096) := by
    unfold WholePages
    decide
  obtain ⟨fs, hstarts⟩ := launchCall_starts (stub 0x40000000 4096) (by decide) (by decide) rfl (by decide)
  exact ⟨fs, hstarts, (exec_image_clean_iff hstarts).mpr hfile⟩

/-- A program that begins 16 bytes behind the start of its page is started, and shows what was in memory before. -/
theorem stub_reveals : ∃ fs,
    (launchCall fs).Starts (stub 0x40000010 4) [[0x2A]] [] ∧ ¬ExecCall.RevealsNothing (stub 0x40000010 4) [[0x2A]] [] := by
  obtain ⟨fs, hstarts⟩ := launchCall_starts (stub 0x40000010 4) (by decide) (by decide) rfl (by decide)
  obtain ⟨ph, hph, hvaddr, hmemsz⟩ :
    ∃ ph ∈ loadHeaders (stub 0x40000010 4), ph.vaddr = 0x40000010 ∧ ph.memsz = 4 := by decide
  refine ⟨fs, hstarts, hstarts.reveals hph (x := 0x40000000) ?_ ?_⟩
  · unfold ElfProgramHeader.pageRange ElfProgramHeader.pageStart ElfProgramHeader.pageEnd
    rw [hvaddr, hmemsz]
    exact ⟨by decide, by decide⟩
  · unfold ElfProgramHeader.Contains
    rw [hvaddr, hmemsz]
    decide

end AgenticOs
