import AgenticOs.Fs.OnlyReads
import AgenticOs.Kernel.ExecSpaces
import AgenticOs.Kernel.ForkUndone

/-!
# What is undone when an exec fails

A `SYS_EXEC` that fails, wherever it fails, has read sectors and done nothing else that lasts (`ExecUndone`):
the frames, the blocks of the heap and the open file that it took are back, and all address spaces are as they
were.

* **Files** (`reads_readFileIntoBuffer`): the loader opens the file, reads it and closes it again.
* **Steps** (`ImageRead`): building an image changes memory and reads files, and nothing else.
* **How a call ends** (`syscallExec_ends`): it refuses, or it takes a block of the heap; then the vectors
  cannot be copied, the image cannot be built, or it commits. `ExecEnds` records for each of them what has
  become of memory and of the heap, and for the last one what the pointers of the caller designate
  (`copyVectors_copied`).
* **Failures** (`ImageRead.undone`): the block is given back, and the address spaces are those that there
  were.

That this holds of every failing call is `exec_all_or_nothing` in `Kernel/AllOrNothing.lean`.
-/

namespace AgenticOs

open Finset Function Lib Lib.StM

/-! ### The file of the image -/

namespace Vfs

variable {v v' v'' : Vfs} {fd : Fin vfsMaxOpenFiles}

/-- Files have been read, and the same files are open. -/
structure Reads (v v' : Vfs) : Prop where
  fs : v.fs.OnlyReads v'.fs
  rootDev : v'.vfsRootDev = v.vfsRootDev
  mounted : v'.vfsMounted = v.vfsMounted
  openFiles : ∀ i, v'.openFile i = v.openFile i

namespace Reads

/-- Nothing has been read. -/
theorem refl (v : Vfs) : Reads v v := ⟨.refl _, rfl, rfl, fun _ => rfl⟩

/-- First one thing has been read and then another. -/
theorem trans (h : Reads v v') (h' : Reads v' v'') : Reads v v'' :=
  ⟨h.fs.trans h'.fs, h'.rootDev.trans h.rootDev, h'.mounted.trans h.mounted,
    fun i => (h'.openFiles i).trans (h.openFiles i)⟩

/-- What has been read through a descriptor that is closed again. -/
theorem closed {file : VfsOpenFile} (h : ReadsThrough fd (v.setOpenFile fd file) v')
    (hunused : (v.vfsOpenFiles fd).used = false) (hused : file.used = true) (hone : file.refCount = 1) :
    (vfsClose (fd.val : Int) v').1 = .ok () ∧ Reads v (vfsClose (fd.val : Int) v').2 := by
  have hself : (v.setOpenFile fd file).vfsOpenFiles fd = file := update_self ..
  have hused' : (v'.vfsOpenFiles fd).used = true := by rw [h.used, hself, hused]
  have hlast : ¬1 < (v'.vfsOpenFiles fd).refCount := by
    rw [h.refCount, hself, hone]
    exact Nat.lt_irrefl 1
  have hrun : vfsClose (fd.val : Int) v' = (.ok (), v'.setOpenFile fd VfsOpenFile.zero) := by
    unfold vfsClose
    rw [run_get_bind, vfsFdValid_used v' hused']
    dsimp only
    rw [run_get_bind, if_neg hlast]
    rfl
  rw [hrun]
  refine ⟨rfl, h.fs, h.rootDev, h.mounted, fun i => ?_⟩
  unfold openFile
  by_cases hi : i = fd
  · have hzero : (v'.setOpenFile fd VfsOpenFile.zero).vfsOpenFiles i = VfsOpenFile.zero := by
      rw [hi]
      exact update_self ..
    rw [hzero, hi, hunused]
    rfl
  · have hother : (v'.setOpenFile fd VfsOpenFile.zero).vfsOpenFiles i = v.vfsOpenFiles i :=
      (update_of_ne hi ..).trans ((h.others i hi).trans (update_of_ne hi ..))
    rw [hother]

end Reads

/-- `vfs_stat` reads the directory. -/
theorem reads_vfsStat (path : Option CString) (out : Bool) (v : Vfs) : Reads v (vfsStat path out v).2 := by
  unfold vfsStat
  rw [run_get_bind]
  dsimp only
  split
  · exact .refl v
  split
  · exact .refl v
  · exact ⟨SimpleFs.onlyReads_stat path true v.fs, rfl, rfl, fun _ => rfl⟩

/-- An open for reading takes an unused entry, or fails. -/
theorem vfsOpen_reading (path : Option CString) (v : Vfs) :
    (∃ e v', vfsOpen path vfsORdonly v = (.error e, v') ∧ Reads v v') ∨
      ∃ fd file v', vfsOpen path vfsORdonly v = (.ok fd, v'.setOpenFile fd file) ∧ Reads v v' ∧
        (v'.vfsOpenFiles fd).used = false ∧ file.used = true ∧ file.refCount = 1 := by
  unfold vfsOpen
  rw [run_get_bind]
  dsimp only
  split
  · exact .inl ⟨_, v, rfl, .refl v⟩
  split
  · exact .inl ⟨_, v, rfl, .refl v⟩
  rcases vfsCopyPath path with _ | path
  · exact .inl ⟨_, v, rfl, .refl v⟩
  dsimp only
  rw [run_get_bind]
  rcases hfd : v.vfsAllocFd with _ | fd
  · exact .inl ⟨_, v, rfl, .refl v⟩
  have hunused : (v.vfsOpenFiles fd).used = false := by
    simpa using List.find?_some hfd
  dsimp only
  have hfs := SimpleFs.onlyReads_open (some path) vfsORdonly (by decide) (by decide) v.fs
  have hcall : call (SimpleFs.simplefsOpen (some path) vfsORdonly) v =
      ((SimpleFs.simplefsOpen (some path) vfsORdonly v.fs).1,
        { v with fs := (SimpleFs.simplefsOpen (some path) vfsORdonly v.fs).2 }) := rfl
  generalize SimpleFs.simplefsOpen (some path) vfsORdonly v.fs = r at hfs hcall
  obtain ⟨e | info, fs'⟩ := r
  · rw [bind_error hcall]
    exact .inl ⟨e, _, rfl, hfs, rfl, rfl, fun _ => rfl⟩
  · rw [bind_ok hcall, run_modify_bind]
    exact .inr ⟨fd, _, _, rfl, ⟨hfs, rfl, rfl, fun _ => rfl⟩, hunused, rfl, rfl⟩

end Vfs

/-- The loader has read a file, and closed it. -/
theorem reads_readFileIntoBuffer (path : CString) (v : Vfs) : v.Reads (readFileIntoBuffer path v).2 := by
  unfold readFileIntoBuffer
  rw [run_attempt_bind]
  have hstat := Vfs.reads_vfsStat (some path) true v
  generalize Vfs.vfsStat (some path) true v = stat at hstat
  obtain ⟨e | stat, v₁⟩ := stat
  · exact hstat
  dsimp only at hstat ⊢
  split
  · exact hstat
  rw [run_attempt_bind]
  rcases Vfs.vfsOpen_reading (some path) v₁ with ⟨e, v₂, hrun, hopen⟩ |
    ⟨fd, file, v₂, hrun, hopen, hunused, hused, hone⟩
  · rw [hrun]
    exact hstat.trans hopen
  rw [hrun]
  dsimp only
  have hloop (n : Nat) (done : List Byte) :
      Within (Vfs.ReadsThrough fd) (readFileLoop (fd.val : Int) stat.size n done) := by
    induction n generalizing done with
    | zero => exact .pure _
    | succ n ih =>
      unfold readFileLoop
      exact .ite (.bind (Vfs.readsThrough_vfsRead _ _) fun bytes => .ite (.fail _) (ih _)) (.pure _)
  have hread := hloop stat.size [] (v₂.setOpenFile fd file)
  rw [run_attempt_bind]
  generalize readFileLoop (fd.val : Int) stat.size stat.size [] (v₂.setOpenFile fd file) = r at hread
  obtain ⟨-, hclose⟩ := Vfs.Reads.closed hread hunused hused hone
  have hclosed := (hstat.trans hopen).trans hclose
  obtain ⟨e | bytes, v₃⟩ := r
  · exact hclosed
  · dsimp only at hclosed ⊢
    rw [run_attempt_bind]
    generalize Vfs.vfsClose (fd.val : Int) v₃ = closed at hclosed
    obtain ⟨e | _, v₄⟩ := closed
    · exact hclosed
    · dsimp only
      split <;> exact hclosed

/-! ### The steps of the call -/

variable {k k' k'' : Kernel} {live : Finset Nat} {d : Nat}

/-- Memory has changed, and files have been read. -/
structure ImageRead (k k' : Kernel) : Prop where
  step : ImageStep k k'
  reads : k.vfs.Reads k'.vfs

namespace ImageRead

/-- Nothing has happened. -/
theorem refl (k : Kernel) : ImageRead k k := ⟨.refl k, .refl k.vfs⟩

/-- Two such steps after one another. -/
theorem trans (h : ImageRead k k') (h' : ImageRead k' k'') : ImageRead k k'' :=
  ⟨h.step.trans h'.step, h.reads.trans h'.reads⟩

instance : IsPreorder Kernel ImageRead where
  refl := refl
  trans _ _ _ := trans

/-- A call of `paging.c` or `frame.c`. -/
theorem callMemory {α : Type} (f : Memory → α × Memory) : Rel ImageRead (callMemory f) :=
  fun k => ⟨rfl, .refl k.vfs⟩

/-- A change of memory. -/
theorem onMemory (f : Memory → Memory) : Rel ImageRead (onMemory f) := fun k => ⟨rfl, .refl k.vfs⟩

end ImageRead

/-- The loader reads the file and changes memory. -/
theorem imageRead_elfLoadFromVfsInto (cr3 : Word) (path : CString) :
    Rel ImageRead (elfLoadFromVfsInto cr3 path) := by
  have hread : Rel ImageRead (callVfs (readFileIntoBuffer path)) :=
    fun k => ⟨rfl, reads_readFileIntoBuffer path k.vfs⟩
  have hload : Rel ImageRead (elfLoadFromVfs path) := by
    unfold elfLoadFromVfs
    refine Rel.bind hread fun r => ?_
    split
    · exact Rel.pure _
    · split
      · exact Rel.pure _
      · exact Rel.bind (ImageRead.callMemory _) fun _ => Rel.pure _
  unfold elfLoadFromVfsInto
  refine Rel.ite (Rel.pure _) (Rel.get_bind fun k => ?_)
  refine Rel.bind (ImageRead.onMemory _) fun _ => Rel.bind hload fun _ => ?_
  exact Rel.bind (ImageRead.onMemory _) fun _ => Rel.pure _

/-- The stack is built in memory. -/
theorem imageRead_execStack (newCr3 : Word) (vectors : ExecVectors) :
    Rel ImageRead (execStack newCr3 vectors) := by
  have hdestroy : Rel ImageRead (onMemory (·.pagingDestroyAddressSpace newCr3)) := ImageRead.onMemory _
  unfold execStack
  refine Rel.bind (ImageRead.callMemory _) fun stackPhys => Rel.ite ?_ ?_
  · exact Rel.bind hdestroy fun _ => Rel.pure _
  refine Rel.get_bind fun k => Rel.bind (Rel.ite (Rel.pure _) (ImageRead.callMemory _)) fun mapped => Rel.ite ?_ ?_
  · exact Rel.bind (ImageRead.onMemory _) fun _ => Rel.bind hdestroy fun _ => Rel.pure _
  · refine Rel.bind (ImageRead.callMemory _) fun r => ?_
    split
    · exact Rel.bind hdestroy fun _ => Rel.pure _
    · exact Rel.pure _

/-- The new address space, the image and the stack. -/
theorem imageRead_execImage (path : CString) (vectors : ExecVectors) :
    Rel ImageRead (execImage path vectors) := by
  unfold execImage
  refine Rel.bind (ImageRead.callMemory _) fun newCr3 => Rel.ite (Rel.pure _) ?_
  refine Rel.bind (imageRead_elfLoadFromVfsInto _ _) fun r => ?_
  split
  · exact Rel.bind (ImageRead.onMemory _) fun _ => Rel.pure _
  · refine Rel.bind (imageRead_execStack _ _) fun r => ?_
    split <;> exact Rel.pure _

/-! ### What a user sees -/

/-- Address spaces that are the same, with the frames held alike, show the same bytes and let the same
stores through. -/
theorem SpacesUndone.same_user {m0 m m' : Memory} {S S' : Spaces} (h : SpacesUndone m0 live m m' S S')
    (hm : Tracks m0 ⟨m, live⟩ S) (hd : d ∈ live) (va : Word) :
    m'.userLoad (frameAddr d) va = m.userLoad (frameAddr d) va ∧
      m'.userStores (frameAddr d) va = m.userStores (frameAddr d) va := by
  have hframes : m'.frames = m.frames := hm.represents.books.frames_eq h.tracks.represents.books h.held
  have hcopy : m'.CanCopy ↔ m.CanCopy := by
    unfold Memory.CanCopy Memory.frameAlloc Memory.frameAllocBelow
    rw [hframes, h.tracks.represents.scratch, hm.represents.scratch]
  have hentry := (h.same d).entry
  constructor
  · have hload := h.tracks.userLoad_eq hd va
    have hload' := hm.userLoad_eq hd va
    dsimp only at hload hload'
    rw [hload, hload', S'.load_eq, S.load_eq, hentry]
    rcases he : S.entry d (dirIndex va) (tableIndex va) with _ | e
    · rfl
    · show some _ = some _
      exact congrArg (fun c => some (pageByte c (pageOffset va))) ((h.same d).content _ _ e he)
  · rw [Bool.eq_iff_iff]
    refine (h.tracks.userStores_iff hd).trans (Iff.trans ?_ (hm.userStores_iff hd).symm)
    dsimp only
    rw [hframes, hcopy, hentry]

/-! ### How a call ends -/

namespace Kernel

variable {v v' : ExecVectors} {environment : Bool} {status : Word}

/-- A string that cannot be copied is an error. -/
theorem copyExecString_error {n : Nat} {address : Word} (h : k.copyExecString n address v = .error status) :
    status ≠ syscallSuccess := by
  have hbig : syscallE2big ≠ syscallSuccess := by decide
  have hfault : syscallEfault ≠ syscallSuccess := by decide
  induction n generalizing address v with
  | zero => exact Except.error.inj h ▸ hbig
  | succ n ih =>
    unfold copyExecString at h
    split at h
    · exact Except.error.inj h ▸ hbig
    rcases hbyte : k.copyByteFromUser address with _ | value
    · rw [hbyte] at h
      exact Except.error.inj h ▸ hfault
    · rw [hbyte] at h
      dsimp only at h
      split at h
      · cases h
      · exact ih h

/-- An array of pointers that cannot be copied is an error. -/
theorem copyExecStrings_error {n index : Nat} {userVector : Word}
    (h : k.copyExecStrings environment n index userVector v = .error status) : status ≠ syscallSuccess := by
  have hbig : syscallE2big ≠ syscallSuccess := by decide
  have hfault : syscallEfault ≠ syscallSuccess := by decide
  induction n generalizing index v with
  | zero =>
    unfold copyExecStrings at h
    rcases hword : k.copyWordFromUser (userVector + BitVec.ofNat 32 (index * 4)) with _ | stringPtr
    · rw [hword] at h
      exact Except.error.inj h ▸ hfault
    · rw [hword] at h
      dsimp only at h
      split at h
      · cases h
      · exact Except.error.inj h ▸ hbig
  | succ n ih =>
    unfold copyExecStrings at h
    rcases hword : k.copyWordFromUser (userVector + BitVec.ofNat 32 (index * 4)) with _ | stringPtr
    · rw [hword] at h
      exact Except.error.inj h ▸ hfault
    rw [hword] at h
    dsimp only at h
    split at h
    · cases h
    rcases hstring : k.copyExecString execMaxStringBytes stringPtr (v.setOffset environment index) with e | v'
    · rw [hstring] at h
      exact Except.error.inj h ▸ copyExecString_error hstring
    · rw [hstring] at h
      exact ih h

/-- So a copy that fails does not look like a success. -/
theorem copyVectors_error {argvPtr envpPtr : Word} (h : k.copyVectors argvPtr envpPtr = .error status) :
    status ≠ syscallSuccess := by
  have hone {v : ExecVectors} {ptr : Word} {environment : Bool} {status : Word}
      (h : k.execCopyVector v ptr environment = .error status) : status ≠ syscallSuccess := by
    unfold execCopyVector at h
    dsimp only at h
    split at h
    · cases h
    · exact copyExecStrings_error h
  unfold copyVectors at h
  rcases hargs : k.execCopyVector .zero argvPtr false with e | vectors
  · rw [hargs] at h
    exact Except.error.inj h ▸ hone hargs
  · rw [hargs] at h
    exact hone h

/-- What has been copied are the strings that the two pointers designate. -/
theorem copyVectors_copied {argvPtr envpPtr : Word} (h : k.copyVectors argvPtr envpPtr = .ok v) :
    ∃ args envs, k.DesignatesBoth argvPtr envpPtr args envs ∧ v.Copied args envs := by
  obtain ⟨args, envs, hboth, hfits⟩ := copyVectors_iff.mp ⟨v, h⟩
  obtain ⟨v', hcopy, hargs, henvs⟩ := hboth.copied hfits
  obtain rfl := Except.ok.inj (h.symm.trans hcopy)
  exact ⟨args, envs, hboth, hargs, henvs, hboth.args.count, hboth.envs.count, hboth.noNul, hfits⟩

/-- What has been copied is small. -/
theorem copyVectors_small {argvPtr envpPtr : Word} (h : k.copyVectors argvPtr envpPtr = .ok v) : v.Small := by
  obtain ⟨args, envs, -, hcopied⟩ := copyVectors_copied h
  have hargc := congrArg List.length hcopied.argStrings
  have henvc := congrArg List.length hcopied.envStrings
  unfold ExecVectors.argStrings at hargc
  unfold ExecVectors.envStrings at henvc
  rw [List.length_map, List.length_range] at hargc henvc
  exact ⟨hargc.trans_le hcopied.argc, henvc.trans_le hcopied.envc⟩

/-- Another heap. -/
def withHeap (k : Kernel) (heap : Heap) : Kernel := { k with heap := heap }

end Kernel

/-- How `syscall_exec` ends: it refuses, or it takes a block of the heap, and then the vectors cannot be
copied, the image cannot be built, or it commits. -/
inductive ExecEnds (k : Kernel) (pathPtr argvPtr envpPtr frame : Word) : Word × Kernel → Prop
  | refused (status : Word) (hstatus : status ≠ syscallSuccess) :
      ExecEnds k pathPtr argvPtr envpPtr frame (status, k)
  | uncopied (block : Nat) (heap : Heap) (status : Word)
      (hblock : k.heap.kmalloc execVectorsBytes = (some block, heap)) (hstatus : status ≠ syscallSuccess) :
      ExecEnds k pathPtr argvPtr envpPtr frame (status, k.withHeap (heap.kfree (some block)))
  | unloaded (block : Nat) (heap : Heap) (path : CString) (vectors : ExecVectors) (status : Word) (k' : Kernel)
      (hblock : k.heap.kmalloc execVectorsBytes = (some block, heap)) (hsmall : vectors.Small)
      (hrun : execImage path vectors (k.withHeap heap) = (.error status, k')) :
      ExecEnds k pathPtr argvPtr envpPtr frame (status, k'.withHeap (k'.heap.kfree (some block)))
  | committed (block : Nat) (heap : Heap) (path : CString) (vectors : ExecVectors) (current : Slot)
      (newCr3 entry sp : Word) (k' : Kernel) (hcurrent : k.processGetCurrent = some current)
      (hpath : k.copyStringFromUser pathPtr vfsMaxPath = some path)
      (hblock : k.heap.kmalloc execVectorsBytes = (some block, heap))
      (hvectors : (k.withHeap heap).copyVectors argvPtr envpPtr = .ok vectors)
      (hrun : execImage path vectors (k.withHeap heap) = (.ok (newCr3, entry, sp), k')) :
      ExecEnds k pathPtr argvPtr envpPtr frame
        (syscallSuccess, (execCommit current frame newCr3 sp entry (some block) k').2)

/-- **How `SYS_EXEC` ends**, whatever its arguments. -/
theorem syscallExec_ends (pathPtr argvPtr envpPtr callerCs frame : Word) (k : Kernel) :
    ExecEnds k pathPtr argvPtr envpPtr frame (syscallExec pathPtr argvPtr envpPtr callerCs frame k) := by
  unfold syscallExec
  rw [run_ite]
  split
  · exact .refused _ (by decide)
  rw [run_bind, run_get]
  rcases hcurrent : k.processGetCurrent with _ | current
  · exact .refused _ (by decide)
  dsimp only
  rcases hpath : (if k.uaccessReadable pathPtr 1 = true then k.copyStringFromUser pathPtr vfsMaxPath else none) with
    _ | path
  · exact .refused _ (by decide)
  have hcopied : k.copyStringFromUser pathPtr vfsMaxPath = some path := by
    split at hpath
    · exact hpath
    · cases hpath
  dsimp only
  rw [run_bind]
  unfold callKmalloc
  dsimp only
  rcases hblock : k.heap.kmalloc execVectorsBytes with ⟨_ | block, heap⟩
  · obtain rfl := Heap.kmalloc_none hblock
    exact .refused _ (by decide)
  dsimp only
  rw [run_bind, run_get]
  have hheap : ({ k with heap := heap } : Kernel) = k.withHeap heap := rfl
  rw [hheap]
  have hlast (run : KernelM Unit) (status : Word) (k' : Kernel) : (do
      run
      return status : KernelM Word) k' = (status, (run k').2) := rfl
  have hfree (status : Word) (k' : Kernel) : (do
      callKfree (some block)
      return status : KernelM Word) k' = (status, k'.withHeap (k'.heap.kfree (some block))) := rfl
  rcases hargs : (k.withHeap heap).execCopyVector .zero argvPtr false with status | vectors
  · have hvectors : (k.withHeap heap).copyVectors argvPtr envpPtr = .error status := by
      unfold Kernel.copyVectors
      rw [hargs]
    dsimp only
    rw [hfree]
    exact .uncopied block heap status hblock (Kernel.copyVectors_error hvectors)
  have hvectors : (k.withHeap heap).copyVectors argvPtr envpPtr =
      (k.withHeap heap).execCopyVector vectors envpPtr true := by
    unfold Kernel.copyVectors
    rw [hargs]
  dsimp only
  rcases henvs : (k.withHeap heap).execCopyVector vectors envpPtr true with status | vectors
  · dsimp only
    rw [hfree]
    exact .uncopied block heap status hblock (Kernel.copyVectors_error (hvectors.trans henvs))
  have hboth := hvectors.trans henvs
  dsimp only
  rw [run_bind]
  rcases himage : execImage path vectors (k.withHeap heap) with ⟨status | ⟨newCr3, entry, sp⟩, k'⟩
  · dsimp only
    rw [hfree]
    exact .unloaded block heap path vectors status k' hblock (Kernel.copyVectors_small hboth) himage
  · dsimp only
    rw [hlast]
    exact .committed block heap path vectors current newCr3 entry sp k' hcurrent hcopied hblock hboth himage

/-- A call that gets as far as the image is decided there. -/
theorem syscallExec_image (frame : Word) {pathPtr argvPtr envpPtr callerCs : Word} {current : Slot} {path : CString}
    {block : Nat} {heap : Heap} (hring : isRing3 callerCs = true) (hcurrent : k.processGetCurrent = some current)
    (hpath : (if k.uaccessReadable pathPtr 1 then k.copyStringFromUser pathPtr vfsMaxPath else none) = some path)
    (hblock : k.heap.kmalloc execVectorsBytes = (some block, heap))
    (hvectors : ((k.withHeap heap).copyVectors argvPtr envpPtr).isOk = true) :
    ∃ vectors, (k.withHeap heap).copyVectors argvPtr envpPtr = .ok vectors ∧
      (syscallExec pathPtr argvPtr envpPtr callerCs frame k).1 =
        match (execImage path vectors (k.withHeap heap)).1 with
        | .error status => status
        | .ok _ => syscallSuccess := by
  rcases hcopy : (k.withHeap heap).copyVectors argvPtr envpPtr with e | vectors
  · rw [hcopy] at hvectors
    cases hvectors
  refine ⟨vectors, rfl, ?_⟩
  unfold Kernel.copyVectors at hcopy
  have hheap : ({ k with heap := heap } : Kernel) = k.withHeap heap := rfl
  unfold syscallExec
  rw [run_ite, hring, if_neg Bool.noConfusion, run_bind, run_get, hcurrent]
  dsimp only
  rw [hpath]
  dsimp only
  rw [run_bind]
  unfold callKmalloc
  rw [hblock]
  dsimp only
  rw [run_bind, run_get, hheap]
  rcases hargs : (k.withHeap heap).execCopyVector .zero argvPtr false with e | copied
  · rw [hargs] at hcopy
    cases hcopy
  rw [hargs] at hcopy
  dsimp only at hcopy ⊢
  rw [hcopy]
  dsimp only
  rw [run_bind]
  have hlast (run : KernelM Unit) (status : Word) (k' : Kernel) : (do
      run
      return status : KernelM Word) k' = (status, (run k').2) := rfl
  rcases execImage path vectors (k.withHeap heap) with ⟨status | ⟨newCr3, entry, sp⟩, k'⟩
  · dsimp only
    rw [hlast]
  · dsimp only
    rw [hlast]

/-! ### A call that fails -/

/-- What is as it was, when a `SYS_EXEC` has failed; `live` are the directories of the address spaces. -/
structure ExecUndone (live : Finset Nat) (k k' : Kernel) : Prop where
  refcounts : ∀ physAddr, k'.mem.frames.frameGetRefcount physAddr = k.mem.frames.frameGetRefcount physAddr
  freeFrames : k'.mem.frames.frameGetFreeCount = k.mem.frames.frameGetFreeCount
  loads : ∀ d ∈ live, ∀ va, k'.mem.userLoad (frameAddr d) va = k.mem.userLoad (frameAddr d) va
  stores : ∀ d ∈ live, ∀ va, k'.mem.userStores (frameAddr d) va = k.mem.userStores (frameAddr d) va
  directory : k'.mem.activePageDirectory = k.mem.activePageDirectory
  heapBlocks : k'.heap.blocks = k.heap.blocks
  heapUsed : k'.heap.heapUsed = k.heap.heapUsed
  files : k.vfs.Reads k'.vfs
  rest : k' = { k with toScheduler := { k.toScheduler with mem := k'.mem }, heap := k'.heap, vfs := k'.vfs }

/-- Without a block of the heap nothing has been touched. -/
theorem ExecUndone.refl (live : Finset Nat) (k : Kernel) : ExecUndone live k k :=
  ⟨fun _ => rfl, rfl, fun _ _ _ => rfl, fun _ _ _ => rfl, rfl, rfl, rfl, .refl _, rfl⟩

/-- The block is given back, and the address spaces are those that there were. -/
theorem ImageRead.undone {heap : Heap} {block : Nat} {H : Set Nat} (hheap : k.heap.Sound H)
    (hblock : k.heap.kmalloc execVectorsBytes = (some block, heap)) (hread : ImageRead (k.withHeap heap) k')
    {m0 : Memory} {S S' : Spaces} (h : Tracks m0 ⟨k.mem, live⟩ S)
    (hspaces : SpacesUndone m0 live k.mem k'.mem S S') :
    ExecUndone live k (k'.withHeap (k'.heap.kfree (some block))) := by
  have hstep : k' = { k.withHeap heap with
      toScheduler := { k.toScheduler with mem := k'.mem }, vfs := k'.vfs } := hread.step
  have hsame : k'.heap = heap := by rw [hstep]; rfl
  obtain ⟨-, hblocks, hused⟩ := hheap.kfree_kmalloc hblock
  have hframes : k'.mem.frames = k.mem.frames :=
    h.represents.books.frames_eq hspaces.tracks.represents.books hspaces.held
  rw [hsame]
  refine ⟨fun _ => ?_, ?_, fun d hd va => (hspaces.same_user h hd va).1,
    fun d hd va => (hspaces.same_user h hd va).2, hspaces.active, hblocks, hused, hread.reads, ?_⟩
  · show k'.mem.frames.frameGetRefcount _ = _
    rw [hframes]
  · show k'.mem.frames.frameGetFreeCount = _
    rw [hframes]
  · rw [hstep]
    rfl

end AgenticOs
