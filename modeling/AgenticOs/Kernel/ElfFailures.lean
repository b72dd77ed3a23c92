import AgenticOs.Kernel.ElfRollback
import AgenticOs.Kernel.OpenEffects

/-!
# Failed ELF loads

A load fails before it maps a page when the file cannot be read or its headers are refused; after that it
fails when a page is mapped already or when memory runs out.

* **Two ways** (`elfLoadFromVfs_cases`): a load without a file changes no memory; the others map and fill
  segments of a file that can be loaded (`elfLayout_loadable`).
* **Main result** (`failed_load_untouched_iff`): a load that returns an error leaves the user pages of the
  active directory and the frames as they were, tables aside, if and only if it strands no pages
  (`LoadStrands`).
* **Reading** (`readFileIntoBuffer_working`): a file on a device that never fails is read whole.

The program of two pages whose second page is mapped already is loaded as far as its first page, which stays
(`failed_load_keeps_page`).
-/

namespace AgenticOs

open Function Lib

/-! ### Files that can be loaded -/

section

variable {file : List Byte} {ph : ElfProgramHeader} {phs : List ElfProgramHeader} {m : Memory}
  {scan scan' : SegmentScan} {size : Nat} {k : Kernel} {path : CString}

/-- Headers of other types are skipped. -/
theorem loadSegments_filter (phs : List ElfProgramHeader) (m : Memory) :
    m.loadSegments file phs = m.loadSegments file (phs.filter fun ph => ph.type = elfPtLoad) := by
  induction phs generalizing m with
  | nil => rfl
  | cons ph phs ih =>
    by_cases htype : ph.type = elfPtLoad
    · rw [List.filter_cons_of_pos (by simpa using htype)]
      unfold Memory.loadSegments
      dsimp only
      rw [if_neg (not_not_intro htype), if_neg (not_not_intro htype)]
      split
      · rfl
      split
      · rfl
      · exact ih _
    · rw [List.filter_cons_of_neg (by simpa using htype), ← ih]
      exact if_pos htype

/-- Every segment passes its checks. -/
theorem scanSegments_valid (h : scanSegments size phs scan = .ok scan') :
    ∀ ph ∈ phs, validateSegment ph size = elfSuccess := by
  induction phs generalizing scan with
  | nil => exact nofun
  | cons ph phs ih =>
    unfold scanSegments at h
    split at h
    · cases h
    rename_i hvalid
    have hrest : ∃ scan, scanSegments size phs scan = .ok scan' := by
      split at h
      · exact ⟨scan, h⟩
      dsimp only at h
      split at h
      · cases h
      split at h
      · cases h
      · exact ⟨_, h⟩
    obtain ⟨scan, hrest⟩ := hrest
    intro q hq
    rcases List.mem_cons.mp hq with rfl | hq
    · exact not_not.mp hvalid
    · exact ih hrest q hq

/-- No segment is empty. -/
theorem validateSegment_memsz (h : validateSegment ph size = elfSuccess) (htype : ph.type = elfPtLoad) :
    0 < ph.memsz.toNat := by
  unfold validateSegment at h
  rw [if_neg (not_not_intro htype)] at h
  split at h
  · cases h
  rename_i hmemsz
  refine Nat.pos_of_ne_zero fun hzero => hmemsz (.inl (BitVec.eq_of_toNat_eq ?_))
  exact hzero

/-- A file whose layout is accepted can be loaded. -/
theorem elfLayout_loadable (h : elfLayout file = .ok scan) (hmax : file.length ≤ elfMaxImageSize) :
    Loadable file (loadHeaders file) := by
  have hsize : file.length < 4294967296 := by
    simp only [elfMaxImageSize] at hmax
    omega
  unfold elfLayout at h
  dsimp only at h
  split at h
  · cases h
  rename_i hheader
  rcases hscan : scanSegments file.length (elfProgramHeaders file) SegmentScan.init with e | scan'
  · rw [hscan] at h
    cases h
  have hsafe := safeImage (not_not.mp hheader) hsize hscan
  have htype (ph : ElfProgramHeader) (hph : ph ∈ loadHeaders file) : ph.type = elfPtLoad := by
    simpa using (List.mem_filter.mp hph).2
  refine ⟨htype, hsafe.segments, fun ph hph hnil => ?_, hsafe.disjoint⟩
  have hvalid := scanSegments_valid hscan ph (List.mem_filter.mp hph).1
  have hfirst := (hsafe.segments ph hph).mem_pages (validateSegment_memsz hvalid (htype ph hph))
  rw [hnil] at hfirst
  cases hfirst

/-! ### Reading -/

/-- Files that are read fit into `elf_file_buffer`. -/
theorem readFileIntoBuffer_length {v : Vfs} (h : (readFileIntoBuffer path v).1 = .ok file) :
    file.length ≤ elfMaxImageSize := by
  unfold readFileIntoBuffer at h
  rw [StM.run_attempt_bind] at h
  generalize Vfs.vfsStat (some path) true v = r at h
  obtain ⟨e | stat, v⟩ := r
  · cases h
  dsimp only at h
  split at h
  · cases h
  rename_i hsize
  rw [StM.run_attempt_bind] at h
  generalize Vfs.vfsOpen (some path) vfsORdonly v = r at h
  obtain ⟨e | fd, v⟩ := r
  · cases h
  dsimp only at h
  rw [StM.run_attempt_bind] at h
  generalize readFileLoop fd.val stat.size stat.size [] v = r at h
  obtain ⟨e | bytes, v⟩ := r
  · cases h
  dsimp only at h
  rw [StM.run_attempt_bind] at h
  generalize Vfs.vfsClose fd.val v = r at h
  obtain ⟨e | done, v⟩ := r
  · cases h
  dsimp only at h
  split at h
  · rename_i hlength
    cases h
    omega
  · cases h

/-! ### The load -/

/-- The file that is loaded, once it is read and its headers are accepted. -/
def Loads (k : Kernel) (path : CString) (file : List Byte) : Prop :=
  (readFileIntoBuffer path k.vfs).1 = .ok file ∧ (elfLayout file).isOk = true

/-- A load without a file changes no memory; the others map and fill segments. -/
theorem elfLoadFromVfs_cases (path : CString) (k : Kernel) :
    ((∀ file, ¬Loads k path file) ∧ (elfLoadFromVfs path k).2.mem = k.mem) ∨
      ∃ file, Loads k path file ∧
        (elfLoadFromVfs path k).2.mem = (k.mem.loadSegments file (loadHeaders file)).2 ∧
        ((∃ e, (elfLoadFromVfs path k).1 = .error e) ↔
          (k.mem.loadSegments file (loadHeaders file)).1 ≠ elfSuccess) := by
  unfold elfLoadFromVfs Loads
  rw [run_bind]
  have hcall : callVfs (readFileIntoBuffer path) k =
      ((readFileIntoBuffer path k.vfs).1, { k with vfs := (readFileIntoBuffer path k.vfs).2 }) := rfl
  rw [hcall]
  rcases (readFileIntoBuffer path k.vfs).1 with e | file
  · exact .inl ⟨fun file h => absurd h.1 nofun, rfl⟩
  dsimp only
  rcases hlayout : elfLayout file with e | scan
  · refine .inl ⟨fun other h => ?_, rfl⟩
    cases h.1
    rw [hlayout] at h
    exact absurd h.2 Bool.false_ne_true
  · refine .inr ⟨file, ⟨rfl, by rw [hlayout]; rfl⟩, ?_⟩
    have hfilter := @loadSegments_filter file (elfProgramHeaders file) k.mem
    dsimp only
    rw [run_bind, run_callMemory]
    dsimp only
    rw [hfilter]
    refine ⟨rfl, ?_⟩
    show (∃ e, (if (k.mem.loadSegments file (loadHeaders file)).1 = elfSuccess then
      Except.ok (elfLoadInfo file scan) else .error _) = .error e) ↔ _
    split
    · rename_i hdone
      exact iff_of_false (fun ⟨_, hc⟩ => nomatch hc) (not_not_intro hdone)
    · rename_i hfailed
      exact iff_of_true ⟨_, rfl⟩ hfailed

/-- A file that is loaded can be. -/
theorem Loads.loadable (h : Loads k path file) : Loadable file (loadHeaders file) := by
  obtain ⟨hread, hlayout⟩ := h
  rcases hscan : elfLayout file with e | scan
  · rw [hscan] at hlayout
    cases hlayout
  · exact elfLayout_loadable hscan (readFileIntoBuffer_length hread)

/-- **A failed load.** A load that returns an error leaves the user pages of the active directory and the
frames as they were, tables aside, if and only if the file does not strand pages: pages of its first segment
are mapped when a later page is found mapped already, or memory runs out in a later segment. -/
theorem failed_load_untouched_iff (k : Kernel) (path : CString) (hs : k.mem.ActiveSound) :
    ((∃ e, (elfLoadFromVfs path k).1 = .error e) → k.mem.Untouched (elfLoadFromVfs path k).2.mem) ↔
      ∀ file, Loads k path file → ¬LoadStrands k.mem file := by
  rcases elfLoadFromVfs_cases path k with ⟨hnone, hmem⟩ | ⟨file, hloads, hmem, herror⟩
  · rw [hmem]
    exact iff_of_true (fun _ => .refl _) fun file h => absurd h (hnone file)
  · rw [hmem, herror, hloads.loadable.untouched_iff hs]
    refine ⟨fun h other hother => ?_, fun h => h file hloads⟩
    cases hother.1.symm.trans hloads.1
    exact h

end

/-! ### Files on a device that works -/

section

variable {d : Nat} {v : Vfs} {V : Volume} {path name : CString} {fd : Fin vfsMaxOpenFiles} {bytes : List Byte}

/-- A file that is open can be closed. -/
theorem vfsClose_used (h : (v.vfsOpenFiles fd).used = true) : (Vfs.vfsClose (fd.val : Int) v).1 = .ok () := by
  unfold Vfs.vfsClose
  rw [StM.run_get_bind, v.vfsFdValid_used h]
  dsimp only
  rw [StM.run_get_bind]
  split <;> rfl

/-- An open file is read from its beginning. -/
theorem readFileLoop_opened (hw : Working d v.fs V)
    (hname : SimpleFs.normalizePath (some path) = some name) (hfile : V.files name = some bytes)
    (hpos : 0 < bytes.length) (hopen : v.vfsOpenFiles fd = Vfs.opened path vfsORdonly) :
    ∃ fs', readFileLoop fd.val bytes.length bytes.length [] v =
      (.ok bytes, Vfs.advance fd bytes.length { v with fs := fs' }) := by
  obtain ⟨fs', hrun, -⟩ := hw.read_run (some path) 0 true bytes.length
  rw [if_neg (by simp), hname] at hrun
  dsimp only at hrun
  rw [hfile] at hrun
  dsimp only at hrun
  rw [List.drop_zero, List.take_length] at hrun
  have hvalid := v.vfsFdValid_used (i := fd) (by rw [hopen]; rfl)
  have hcall : Vfs.call (SimpleFs.simplefsRead (some path) 0 true bytes.length) v =
      (.ok bytes, { v with fs := fs' }) := by
    unfold Vfs.call
    rw [hrun]
  have hread : Vfs.vfsRead (fd.val : Int) true bytes.length v =
      (.ok bytes, Vfs.advance fd bytes.length { v with fs := fs' }) := by
    unfold Vfs.vfsRead
    rw [StM.run_get_bind, hvalid]
    dsimp only
    rw [if_neg (by simp), StM.run_get_bind, hopen]
    unfold Vfs.opened
    dsimp only
    rw [if_neg (by decide), StM.bind_ok hcall, StM.run_modify_bind]
    rfl
  refine ⟨fs', ?_⟩
  obtain ⟨n, hn⟩ := Nat.exists_eq_succ_of_ne_zero (Nat.ne_of_gt hpos)
  have hdone : readFileLoop fd.val bytes.length n bytes = pure bytes := by
    cases n with
    | zero => rfl
    | succ n => exact if_neg (Nat.lt_irrefl _)
  have hrest : readFileLoop fd.val bytes.length bytes.length [] v =
      (do
        let read ← Vfs.vfsRead fd.val true bytes.length
        if read.length = 0 then StM.fail vfsEio
          else readFileLoop fd.val bytes.length n read : VfsM (List Byte)) v := by
    nth_rewrite 2 [hn]
    exact congrFun (if_pos hpos) v
  rw [hrest, StM.bind_ok hread, if_neg (Nat.ne_of_gt hpos), hdone]
  rfl

/-- A file of a working file system is read whole. -/
theorem readFileIntoBuffer_working (hw : Working d v.fs V)
    (hadmits : v.admits (some path) vfsORdonly = some (path, fd))
    (hname : SimpleFs.normalizePath (some path) = some name) (hfile : V.files name = some bytes)
    (hpos : 0 < bytes.length) (hmax : bytes.length ≤ elfMaxImageSize) :
    (readFileIntoBuffer path v).1 = .ok bytes := by
  have hmounted := (Vfs.admits_eq_some.mp hadmits).1
  obtain ⟨j, hlookup, hbytes⟩ := Option.map_eq_some_iff.mp hfile
  have hsize : (V.entry j).info.size = bytes.length := by
    rw [← hbytes, Volume.length_fileBytes]
    rfl
  obtain ⟨fs₁, hstat, hw₁⟩ := hw.stat_run (some path) true
  rw [if_neg (by decide), hname] at hstat
  dsimp only at hstat
  rw [hlookup] at hstat
  dsimp only at hstat
  have hcall : Vfs.call (SimpleFs.simplefsStat (some path) true) v =
      (.ok (V.entry j).info, { v with fs := fs₁ }) := by
    unfold Vfs.call
    rw [hstat]
  have hvfsStat : Vfs.vfsStat (some path) true v = (.ok (V.entry j).info, { v with fs := fs₁ }) := by
    unfold Vfs.vfsStat
    rw [StM.run_get_bind, if_neg (by rw [hmounted]; decide), if_neg (by decide)]
    exact hcall
  obtain ⟨res, fs₂, V₂, hrun, hw₂, ho⟩ := hw₁.open_run hname vfsORdonly
  -- an open for reading finds the file, and leaves it as it is
  have hvolume : res.isOk = true ∧ V₂ = V := by
    cases ho with
    | missing hnone | full hnone | created _ hnone => exact absurd (hlookup.symm.trans hnone) nofun
    | emptied _ _ htrunc => exact absurd htrunc (by decide)
    | found => exact ⟨rfl, rfl⟩
  obtain ⟨hok, rfl⟩ := hvolume
  rcases res with e | info
  · cases hok
  have hvfsOpen : Vfs.vfsOpen (some path) vfsORdonly { v with fs := fs₁ } =
      (.ok fd, Vfs.setOpenFile { v with fs := fs₂ } fd (Vfs.opened path vfsORdonly)) :=
    Vfs.vfsOpen_admitted (v := { v with fs := fs₁ }) hadmits hrun
  obtain ⟨fs₃, hvfsRead⟩ := readFileLoop_opened
    (v := Vfs.setOpenFile { v with fs := fs₂ } fd (Vfs.opened path vfsORdonly)) hw₂ hname hfile hpos
    (update_self ..)
  unfold readFileIntoBuffer
  rw [StM.run_attempt_bind, hvfsStat]
  dsimp only
  rw [hsize, if_neg (by omega), StM.run_attempt_bind, hvfsOpen]
  dsimp only
  rw [StM.run_attempt_bind, hvfsRead]
  dsimp only
  rw [StM.run_attempt_bind, vfsClose_used]
  · dsimp only
    rw [if_pos rfl]
    rfl
  · simp [Vfs.advance, Vfs.setOpenFile, Vfs.opened]

/-! ### A program whose second page is mapped already -/

/-- Writing a new file. -/
theorem splice_nil (bytes : List Byte) : splice [] 0 (fun k => bytes.getD k 0) bytes.length = bytes := by
  unfold splice
  refine List.ext_getElem (by simp) fun p hp hp' => ?_
  simp [hp']

/-- A device of 4 KiB with one file, of at most a sector. -/
theorem stored_working {bytes : List Byte} (hpos : 0 < bytes.length) (hle : bytes.length ≤ sectorSize) :
    ∃ fs V, Working 0 fs V ∧ V.files [0x61] = some bytes := by
  obtain ⟨fs, V, -, hw, htotal, hempty, hcount⟩ := Working.format
    (s := .atBoot (fun _ => ⟨8, 512, true, true⟩) fun _ _ => zeroSector) (d := 0) rfl (by decide)
  have hpath : SimpleFs.normalizePath (some [0x2F, 0x61]) = some [0x61] := by decide
  have hnone : V.lookup [0x61] = none := Volume.files_eq_none.mp (by rw [hempty])
  obtain ⟨res, fs₁, V₁, -, hw₁, ho⟩ := hw.open_run hpath (vfsOCreat ||| vfsOWronly)
  have hcreated : V₁.files [0x61] = some [] ∧ V₁.used = V.used ∧ V₁.total = V.total := by
    have hfiles := (ho.next hw.consistent (normalizePath_valid hpath)).2
    cases ho with
    | missing _ hcreat => exact absurd hcreat (by decide)
    | full _ _ hfull =>
      have := Volume.freeSlot_eq_none_iff.mp hfull
      rw [hcount] at this
      cases this
    | emptied _ hl | found _ hl => exact absurd (hnone.symm.trans hl) nofun
    | created j =>
      rw [hfiles, if_pos ⟨rfl, .inl hnone⟩, update_self]
      exact ⟨rfl, rfl, rfl⟩
  obtain ⟨hfile, hused, htotal₁⟩ := hcreated
  have hfree : V₁.used 5 = false := by
    rw [hused]
    by_contra hc
    rcases (hw.consistent.bitmap 5).mp (Bool.not_eq_false _ ▸ hc) with hlow | ⟨i, hi, hlive, -⟩
    · exact absurd hlow (by decide)
    · have hmem := Finset.card_eq_zero.mp hcount ▸
        Finset.mem_filter.mpr ⟨Finset.mem_range.mpr hi, show (V.entry i).used ≠ 0 from hlive⟩
      cases hmem
  have hroom : V₁.freeRun 1 ≠ none := by
    unfold Volume.freeRun SimpleFs.findRun
    rw [htotal₁, htotal, if_neg (by decide), if_neg (by decide), if_pos]
    · exact nofun
    · unfold SimpleFs.freeRun SimpleFs.freeRun
      rw [hfree]
      rfl
  have hend : 0 + bytes.length ≤ writeLimit := by
    simp only [sectorSize, writeLimit] at *
    omega
  obtain ⟨res', fs₂, V₂, -, hw₂, hwrote⟩ := hw₁.write_run hpath (fun k => bytes.getD k 0) hpos hend
  have hnext := (hwrote.next hw₁.consistent hw₁.total_le fun _ hl => hw₁.small hl hpos hend).2.2
  rw [hfile] at hnext
  rcases hnext with ⟨hfull, -⟩ | ⟨-, hfiles⟩
  · subst hfull
    cases hwrote with
    | full j hl _ hno =>
      have hsize := congrArg List.length (Option.some.inj ((Volume.files_of_lookup hl).symm.trans hfile))
      rw [Volume.length_fileBytes, List.length_nil] at hsize
      have hrequired : Volume.required (V₁.entry j) 0 bytes.length = 1 := by
        unfold Volume.required Volume.grownSize SimpleFs.sectorsForBytes
        rw [hsize, Nat.zero_max, Nat.zero_add, if_neg (Nat.ne_of_gt hpos)]
        simp only [sectorSize, wordSize] at *
        omega
      rw [hrequired] at hno
      exact absurd hno hroom
  · refine ⟨fs₂, V₂, hw₂, ?_⟩
    rw [hfiles, update_self, splice_nil]

/-- The active directory has a table for the first 4 MiB of user space, and in it a page at `0x40001000`. -/
def Memory.secondPageMapped : Memory where
  frames := frameInit .small
  ram := fun f i =>
    if f = 256 ∧ i = 256 then 0x102007 else if f = 258 ∧ i = 1 then 0x103007 else 0
  activePageDirectory := 0x100000
  kernelScratchTable := 0x104000

/-- The directory has one table. -/
theorem secondPageMapped_hasTable {i : TableIndex} (h : Memory.secondPageMapped.hasTable i = true) :
    i = 256 := by
  unfold Memory.hasTable Memory.directory Memory.secondPageMapped at h
  by_contra hi
  dsimp only at h
  rw [if_neg fun hc => hi hc.2, if_neg fun hc => absurd hc.1 (by decide)] at h
  exact absurd h (by decide)

/-- It is sound. -/
theorem secondPageMapped_sound : Memory.secondPageMapped.ActiveSound := by
  obtain ⟨hcounted, hinit⟩ := frameInit_counted .small
  refine ⟨hcounted, hinit, by decide, small_reserved (by decide), fun i _ hhas => ?_, fun i j _ _ hi hj _ => ?_⟩
  · rw [secondPageMapped_hasTable hhas]
    exact ⟨small_reserved (by decide), by decide, by decide⟩
  · rw [secondPageMapped_hasTable hi, secondPageMapped_hasTable hj]

/-- The first page of the program can be mapped, the second cannot. -/
theorem twoPageImage_strands : LoadStrands .secondPageMapped twoPageImage := by
  let ph := elfProgramHeader twoPageImage 52
  have hheaders : loadHeaders twoPageImage = [ph] := rfl
  have hpages : segmentPages ph.vaddr ph.memsz = [0x40000000, 0x40001000] := by decide
  have hfirst : Memory.secondPageMapped.pagingIsMapped 0x40000000 = false := by decide
  have hsecond : Memory.secondPageMapped.pagingIsMapped 0x40001000 = true := by decide
  have hfresh : freshPages .secondPageMapped ph = [0x40000000] := by
    unfold freshPages
    rw [hpages, List.takeWhile_cons_of_pos (by rw [hfirst]; rfl), List.takeWhile_cons_of_neg]
    rw [hsecond]
    exact Bool.false_ne_true
  have hfree : 0 < Memory.secondPageMapped.supply.all := by
    rw [Memory.supply_all]
    refine List.countP_pos_iff.mpr ⟨firstFrame, FrameState.mem_frameRange.mpr ⟨le_rfl, ?_, ?_⟩, ?_⟩
    · exact small_total ▸ (by decide : firstFrame < 1024)
    · exact small_total ▸ (by decide : firstFrame < 1024)
    · rw [show Memory.secondPageMapped.frames = frameInit .small from rfl, small_free le_rfl (by decide)]
      rfl
  have htable : Memory.secondPageMapped.supply.tables 256 = true := by decide
  refine ⟨ph, [], hheaders, by rw [hfresh]; exact List.cons_ne_nil _ _, ?_, fun hcan => ?_⟩
  · rw [hfresh]
    refine ⟨fun page hpage => ?_, ?_⟩
    · rw [List.mem_singleton.mp hpage, hfirst]
    · show ((Memory.secondPageMapped.supply.takePage 256).bind _).isSome = true
      unfold Memory.Supply.takePage
      rw [if_neg (Nat.ne_of_gt hfree), if_pos htable]
      rfl
  · have hunmapped := hcan.1 0x40001000 (by rw [hheaders]; decide)
    rw [hsecond] at hunmapped
    cases hunmapped

/-- The first process on a machine with a file system and a page in the way of a program. -/
def Kernel.secondPageMapped (fs : SimpleFs) : Kernel :=
  { Kernel.solo.withMem .secondPageMapped with
    vfs := { Kernel.solo.vfs with fs := fs, vfsMounted := true } }

/-- The file can be read, and loading begins. -/
theorem secondPageMapped_loads : ∃ fs, Loads (.secondPageMapped fs) [0x2F, 0x61] twoPageImage := by
  obtain ⟨fs, V, hw, hfile⟩ := stored_working (show 0 < twoPageImage.length by decide) (by decide)
  have hadmits : (Kernel.secondPageMapped fs).vfs.admits (some [0x2F, 0x61]) vfsORdonly =
      some ([0x2F, 0x61], 0) := Vfs.admits_eq_some.mpr ⟨rfl, by decide, by decide, rfl⟩
  exact ⟨fs, readFileIntoBuffer_working hw hadmits (by decide) hfile (by decide) (by decide), by decide⟩

/-- The second page is taken already, the load fails and the first page is left. -/
theorem failed_load_untouched_iff_two_pages : ∃ fs,
    ((∃ e, (elfLoadFromVfs [0x2F, 0x61] (.secondPageMapped fs)).1 = .error e) →
        Memory.secondPageMapped.Untouched (elfLoadFromVfs [0x2F, 0x61] (.secondPageMapped fs)).2.mem) ↔
      ∀ file, Loads (.secondPageMapped fs) [0x2F, 0x61] file → ¬LoadStrands .secondPageMapped file := by
  obtain ⟨fs, -⟩ := secondPageMapped_loads
  exact ⟨fs, failed_load_untouched_iff (.secondPageMapped fs) [0x2F, 0x61] secondPageMapped_sound⟩

/-- The first page of the program stays mapped. -/
theorem failed_load_keeps_page : ¬∀ (k : Kernel) (path : CString), k.mem.ActiveSound →
    (∃ e, (elfLoadFromVfs path k).1 = .error e) → k.mem.Untouched (elfLoadFromVfs path k).2.mem := by
  intro h
  obtain ⟨fs, hloads⟩ := secondPageMapped_loads
  have hclean := h (.secondPageMapped fs) [0x2F, 0x61] secondPageMapped_sound
  rcases elfLoadFromVfs_cases [0x2F, 0x61] (.secondPageMapped fs) with ⟨hnone, -⟩ | ⟨file, hfile, hmem, herror⟩
  · exact hnone _ hloads
  · cases hfile.1.symm.trans hloads.1
    rw [hmem, herror] at hclean
    exact (hloads.loadable.untouched_iff secondPageMapped_sound).mp hclean twoPageImage_strands

end

end AgenticOs
