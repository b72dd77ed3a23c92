import AgenticOs.Fs.ReadLengths
import AgenticOs.Kernel.HomeKeepers
import AgenticOs.PipeFifo

/-!
# Working for the process that runs

What the kernel does for the running process may change the memory of that process, and of no other
(`WorksFor`).

* **Checked buffers** (`Opened`): a buffer that the kernel has checked is open to its stores
  (`Homes.prepareWrite`), and stays open while it stores there (`Homes.storeBytes`). So `copy_to_user` and
  what is built from it work for their caller (`worksFor_copyToUser`, `worksFor_syscallStat`,
  `worksFor_syscallPipe`).
* **Reads into a checked buffer** (`Homes.kernelVfsRead`, `Homes.kernelPipeRead`): no more is read than the
  buffer holds.
* **After a switch** (`worksFor_pendingPipeIo`): the buffer with which a process has waited for a pipe is open
  as ever, however long that was ago, because `Homes` says so of every process that waits.
-/

namespace AgenticOs

open Function Finset Lib

/-- Beside what it does to the memory of `c`, the kernel leaves homes alone. -/
structure WorksFor (c : Slot) (k k' : Kernel) : Prop where
  quiet : Quiet k k'
  homes : ∀ {m0 : Memory} {S : Spaces}, Homes m0 k S → Agrees k c → ∃ S', Homes m0 k' S' ∧ Apart {c} k k' S S'

/-- The bytes from an address on are in pages of `c` that can be written in place. -/
def Opened (k : Kernel) (c : Slot) (S : Spaces) (address : Word) (n : Nat) : Prop :=
  ∃ d ∈ S.live, Dwells S (k.procs c) d ∧ ∀ i < n, S.Writable d (pageSlot (address + BitVec.ofNat 32 i))

variable {m0 : Memory} {k k' k'' : Kernel} {S S' : Spaces} {c : Slot} {address : Word} {n : Nat} {α : Type}

namespace WorksFor

/-- Nothing has been done. -/
theorem refl (c : Slot) (k : Kernel) : WorksFor c k k :=
  ⟨.refl k, fun hk _ => ⟨_, hk, .refl _ k _⟩⟩

/-- Two services after one another. -/
theorem trans (h : WorksFor c k k') (h' : WorksFor c k' k'') : WorksFor c k k'' where
  quiet := h.quiet.trans h'.quiet
  homes := by
    intro m0 S hk hc
    obtain ⟨S', hk', hapart⟩ := h.homes hk hc
    obtain ⟨S'', hk'', hapart'⟩ := h'.homes hk' (h.quiet.serves c hc).agrees
    exact ⟨S'', hk'', hapart.trans hapart'⟩

instance : IsPreorder Kernel (WorksFor c) where
  refl := refl c
  trans _ _ _ := trans

/-- Quiet steps that leave homes alone. -/
theorem of_same (hq : Quiet k k') (hs : SameHomes k k') : WorksFor c k k' :=
  ⟨hq, fun hk _ => ⟨_, hs.homes hq.alive hk, hs.apart fun p => (hq.alive p).mp⟩⟩

/-- A function that leaves homes alone. -/
theorem ofKeeps {x : KernelM α} (hq : RunsQuietly x) (hs : KeepsHomes x) : Rel (WorksFor c) x :=
  fun k => of_same (hq k) (hs k)

end WorksFor

/-! ### Checked buffers -/

/-- Such steps leave an open buffer open. -/
theorem Opened.same (h : Opened k c S address n) (hs : SameHomes k k') : Opened k' c S address n := by
  obtain ⟨d, hd, hdwells, hopen⟩ := h
  exact ⟨d, hd, (hs.home c).dwells hdwells, hopen⟩

/-- The directory that is loaded is that of the process that runs. -/
theorem activeProcessDirectory_eq (h : Homes m0 k S) (hc : Agrees k c) : k.activeProcessDirectory = some c := by
  obtain ⟨d, hd, hdwells, -⟩ := h.loaded hc
  unfold Kernel.activeProcessDirectory
  rw [hc.processGetCurrent]
  dsimp only
  rw [if_neg]
  rintro (hzero | hne)
  · exact h.tracks.represents.frameAddr_live_ne_zero hd (hdwells.cr3.symm.trans hzero)
  · exact hne hc.runs.directory.symm

/-- `uaccess_prepare_write` opens the range, or fails. -/
theorem Homes.prepareWrite (h : Homes m0 k S) (hc : Agrees k c) (address size : Word) :
    ∃ S', Homes m0 (uaccessPrepareWrite address size k).2 S' ∧
      Apart {c} k (uaccessPrepareWrite address size k).2 S S' ∧
      ((uaccessPrepareWrite address size k).1 = uaccessSuccess →
        Opened (uaccessPrepareWrite address size k).2 c S' address size.toNat) := by
  have hfault : uaccessEfault ≠ uaccessSuccess := by decide
  obtain ⟨d, hd, hdwells, hactive, htracks⟩ := h.loaded hc
  unfold uaccessPrepareWrite
  rw [run_bind, run_get]
  dsimp only
  rw [run_ite]
  split
  · exact ⟨S, h, .refl _ k S, fun hok => absurd hok hfault⟩
  rename_i hvalid
  rw [run_ite]
  split
  · rename_i hzero
    refine ⟨S, h, .refl _ k S, fun _ => ⟨d, hd, hdwells, fun i hi => ?_⟩⟩
    rw [hzero] at hi
    exact absurd hi (Nat.not_lt_zero i)
  rename_i hsize
  have hrange := (uaccessRangeValid_iff hsize).mp (by simpa using hvalid)
  rw [activeProcessDirectory_eq h hc]
  dsimp only
  rw [run_callMemory]
  obtain ⟨S', hprepares, hwritable⟩ :=
    htracks.prepares_writePages hd hactive hdwells.toLivesIn (rangePages address size)
  obtain ⟨hhomes, hapart⟩ := h.prepared hc hd hdwells hprepares
  refine ⟨S', hhomes, hapart, fun hok => ?_⟩
  obtain ⟨d', hd', hdwells'⟩ := hhomes.home c (show k.Alive c from Homes.alive_of_runs hc)
  obtain rfl : d' = d := by
    rw [← frameOf_frameAddr (hhomes.tracks.represents.live_lt hd'), ← hdwells'.cr3]
    show frameOf (k.procs c).cr3 = d
    rw [hdwells.cr3, frameOf_frameAddr (htracks.represents.live_lt hd)]
  refine ⟨d', hd', hdwells', fun i hi => ?_⟩
  have hslot : pageSlot (pageAlignDown (address + BitVec.ofNat 32 i)) = pageSlot (address + BitVec.ofNat 32 i) :=
    Prod.ext (dirIndex_pageAlignDown _) (tableIndex_pageAlignDown _)
  rw [← hslot]
  exact hwritable hok _ (hrange.mem_rangePages.mpr ⟨i, hi, rfl⟩)

/-- Stores into an open buffer, which stays open. -/
theorem Homes.storeBytes (h : Homes m0 k S) (hc : Agrees k c) (hopen : Opened k c S address n) {bytes : List Byte}
    (hlength : bytes.length ≤ n) :
    ∃ S', Homes m0 (k.storeBytes address bytes) S' ∧ Apart {c} k (k.storeBytes address bytes) S S' ∧
      Opened (k.storeBytes address bytes) c S' address n := by
  obtain ⟨d, hd, hdwells, hwritable⟩ := hopen
  obtain ⟨d', hd', hdwells', hactive, htracks⟩ := h.loaded hc
  have hcr3 : frameAddr d' = frameAddr d := hdwells'.cr3.symm.trans hdwells.cr3
  obtain ⟨S', hprepares⟩ := htracks.prepares_storeBytes (hactive.trans hcr3) address bytes
    fun i hi => hwritable i (hi.trans_le hlength)
  obtain ⟨hk', hapart⟩ := h.prepared hc hd hdwells hprepares
  have hlive : S'.live = S.live := hprepares.tracks.live
  exact ⟨S', hk', hapart, d, hlive ▸ hd,
    ⟨hdwells.toLivesIn, fun hwait i hi => hprepares.writable _ (hdwells.buffer hwait i hi)⟩,
    fun i hi => hprepares.writable _ (hwritable i hi)⟩

/-- `uaccess_prepare_write` changes the pages of its process only. -/
theorem worksFor_uaccessPrepareWrite (address size : Word) : Rel (WorksFor c) (uaccessPrepareWrite address size) := by
  refine fun k => ⟨quiet_uaccessPrepareWrite address size k, fun hk hc => ?_⟩
  obtain ⟨S', hk', hapart, -⟩ := hk.prepareWrite hc address size
  exact ⟨S', hk', hapart⟩

/-- So does `is_user_pointer_writable`. -/
theorem worksFor_isUserPointerWritable (ptr size : Word) : Rel (WorksFor c) (isUserPointerWritable ptr size) := by
  unfold isUserPointerWritable
  exact Rel.bind (worksFor_uaccessPrepareWrite _ _) fun _ => Rel.pure _

/-- `copy_to_user` stores into what it has checked. -/
theorem worksFor_copyToUser (dest : Word) {source : List Byte} (hsource : source.length < wordSize) :
    Rel (WorksFor c) (copyToUser dest source) := by
  refine fun k => ⟨quiet_copyToUser dest source k, fun hk hc => ?_⟩
  unfold copyToUser
  obtain ⟨S₁, hk₁, hapart₁, hopen⟩ := hk.prepareWrite hc dest (BitVec.ofNat 32 source.length)
  have hc₁ := ((quiet_uaccessPrepareWrite dest (BitVec.ofNat 32 source.length) k).serves c hc).agrees
  rw [run_bind]
  generalize uaccessPrepareWrite dest (BitVec.ofNat 32 source.length) k = r at hk₁ hapart₁ hopen hc₁ ⊢
  rw [run_bind, run_runIf]
  have hlength : source.length ≤ (BitVec.ofNat 32 source.length).toNat := by
    rw [BitVec.toNat_ofNat, Nat.mod_eq_of_lt hsource]
  by_cases hok : r.1 = uaccessSuccess
  · rw [if_pos hok]
    obtain ⟨S₂, hk₂, hapart₂, -⟩ := hk₁.storeBytes hc₁ (hopen hok) hlength
    exact ⟨S₂, hk₂, hapart₁.trans hapart₂⟩
  · rw [if_neg hok]
    exact ⟨S₁, hk₁, hapart₁⟩

/-! ### Reads into a checked buffer -/

/-- The copy loop of `pipe_read` yields what it was asked for. -/
theorem Pipe.length_take (n : Nat) (p : Pipe) : (p.take n).1.length = n := by
  induction n generalizing p with
  | zero => rfl
  | succ n ih =>
    unfold Pipe.take
    exact congrArg (· + 1) (ih _)

/-- `pipe_read` returns no more than it was asked for. -/
theorem pipeRead_length {σ : Type} (wake : Pipes → Fin maxPipes → BlockReason → σ → σ) (pipes : Pipes) (s : σ)
    (handle : Int) (buffer : Bool) (count : Nat) :
    (pipeRead wake pipes s handle buffer count).bytes.length ≤ count := by
  rcases pipeRead_cases wake pipes s handle buffer count with
    ⟨⟨-, hnone, -⟩, -⟩ | ⟨i, n, -, -, -, hn, -, hbytes, -⟩
  · rw [hnone]
    exact Nat.zero_le _
  · rw [hbytes, Pipe.length_take]
    exact hn

/-- A read from a file fills part of the buffer. -/
theorem Homes.kernelVfsRead (h : Homes m0 k S) (hc : Agrees k c) {buffer count : Word}
    (hopen : Opened k c S buffer count.toNat) (handle : Int) :
    ∃ S', Homes m0 (AgenticOs.kernelVfsRead handle buffer count k).2 S' ∧
      Apart {c} k (AgenticOs.kernelVfsRead handle buffer count k).2 S S' := by
  have hlength := Vfs.vfsRead_length handle (buffer != 0) count.toNat k.vfs
  have hq : Quiet k (callVfs (Vfs.vfsRead handle (buffer != 0) count.toNat) k).2 := RunsQuietly.callVfs _ k
  have hs : SameHomes k (callVfs (Vfs.vfsRead handle (buffer != 0) count.toNat) k).2 := KeepsHomes.callVfs _ k
  have hresult : (callVfs (Vfs.vfsRead handle (buffer != 0) count.toNat) k).1 =
      (Vfs.vfsRead handle (buffer != 0) count.toNat k.vfs).1 := rfl
  unfold AgenticOs.kernelVfsRead
  rw [run_bind]
  rw [← hresult] at hlength
  generalize callVfs (Vfs.vfsRead handle (buffer != 0) count.toNat) k = r at hq hs hlength ⊢
  obtain ⟨e | bytes, k₁⟩ := r
  · exact ⟨S, hs.homes hq.alive h, hs.apart fun p => (hq.alive p).mp⟩
  · obtain ⟨S', hk', hapart, -⟩ := (hs.homes hq.alive h).storeBytes (hq.serves c hc).agrees (hopen.same hs)
      (hlength bytes rfl)
    exact ⟨S', hk', (hs.apart fun p => (hq.alive p).mp).trans hapart⟩

/-- So does a read from a pipe. -/
theorem Homes.kernelPipeRead (h : Homes m0 k S) (hc : Agrees k c) {buffer : Word} {count : Nat}
    (hopen : Opened k c S buffer count) (handle : Int) :
    ∃ S', Homes m0 (AgenticOs.kernelPipeRead handle buffer count k).2 S' ∧
      Apart {c} k (AgenticOs.kernelPipeRead handle buffer count k).2 S S' ∧
      Opened (AgenticOs.kernelPipeRead handle buffer count k).2 c S' buffer count := by
  have hstate := pipeRead_state Kernel.processWakePipeWaiter k.pipes k handle (buffer != 0) count
  have hlength := pipeRead_length Kernel.processWakePipeWaiter k.pipes k handle (buffer != 0) count
  unfold AgenticOs.kernelPipeRead
  dsimp only
  generalize pipeRead Kernel.processWakePipeWaiter k.pipes k handle (buffer != 0) count = r at hstate hlength ⊢
  have hs : SameHomes k { r.state with pipes := r.pipes } := .ofPipes hstate
  have hwoken : Quiet k r.state := by
    rcases hstate with hsame | ⟨pipes', i, reason, hwake⟩
    · rw [hsame]
      exact .refl k
    · rw [hwake]
      exact .processWakePipeWaiter ..
  have hq : Quiet k { r.state with pipes := r.pipes } := hwoken.trans (Quiet.of_procs rfl rfl fun _ => id)
  obtain ⟨S', hk', hapart, hopen'⟩ := (hs.homes hq.alive h).storeBytes (hq.serves c hc).agrees (hopen.same hs)
    ((List.length_map UInt8.toBitVec).le.trans hlength)
  exact ⟨S', hk', (hs.apart fun p => (hq.alive p).mp).trans hapart, hopen'⟩

/-! ### After a switch -/

/-- The pipe operation that `c` has waited for: its buffer is open as ever. -/
theorem worksFor_pendingPipeIo (k : Kernel) : WorksFor c k (pendingPipeIo (k.procs c) k).2 := by
  unfold pendingPipeIo
  rcases (k.procs c).processFdGet (k.procs c).blockedFd with _ | ⟨kind, handle⟩
  · exact .refl c k
  dsimp only
  rw [run_ite]
  split
  · rename_i hread
    refine ⟨quiet_kernelPipeRead _ _ _ k, fun hk hc => ?_⟩
    obtain ⟨d, hd, hdwells⟩ := hk.home c (Homes.alive_of_runs hc)
    obtain ⟨S', hk', hapart, -⟩ := hk.kernelPipeRead hc ⟨d, hd, hdwells, hdwells.buffer hread.1⟩ handle
    exact ⟨S', hk', hapart⟩
  rw [run_ite]
  split
  · exact .of_same (quiet_kernelPipeWrite _ _ _ k) (sameHomes_kernelPipeWrite _ _ _ k)
  · exact .refl c k

/-- **A pipe operation is completed** for the process that runs. -/
theorem worksFor_processCompletePipeIo (k : Kernel) : WorksFor c k (processCompletePipeIo c k).2 := by
  unfold processCompletePipeIo
  rw [run_bind, run_getProc]
  dsimp only
  rw [run_ite]
  split
  · rw [run_bind]
    refine (worksFor_pendingPipeIo k).trans ?_
    generalize pendingPipeIo (k.procs c) k = r
    have hframe : Rel (WorksFor c) (modify (·.setFrame (k.procs c).esp fun frame =>
        { frame with eax := pipeResultWord r.1 }) : KernelM PUnit) :=
      .ofKeeps (quiet_setEax _ _) (sameHomes_setFrame _ _)
    have hclear : Rel (WorksFor c) (modifyProc c fun p =>
        { p with blockReason := .none, blockedFd := -1, blockedBuffer := 0, blockedCount := 0 }) :=
      .ofKeeps (.modifyProc (fun _ => ⟨rfl, rfl, rfl, rfl, rfl, id⟩) fun _ => rfl)
        (.modifyProc fun _ => ⟨rfl, rfl, rfl, nofun⟩)
    exact Rel.bind (Rel.runIf hframe) (fun _ => hclear) r.2
  · exact .refl c k

/-- A wait is completed: the status is copied to the process. -/
theorem worksFor_processCompleteWait (proc : Slot) : Rel (WorksFor c) (processCompleteWait proc) := by
  have hword (w : Word) : (wordBytes w).length < wordSize := by
    show 4 < wordSize
    decide
  unfold processCompleteWait
  refine Rel.getProc_bind fun p => Rel.ite ?_ (Rel.pure _)
  refine Rel.bind (Rel.runIf ?_) fun _ => WorksFor.ofKeeps
    (.modifyProc (fun _ => ⟨rfl, rfl, rfl, rfl, rfl, id⟩) fun _ => rfl)
    (.modifyProc fun _ => ⟨rfl, rfl, rfl, fun h => ⟨h, rfl, rfl⟩⟩)
  refine Rel.bind (worksFor_copyToUser _ (hword _)) fun status => Rel.runIf ?_
  exact .ofKeeps (quiet_setEax _ _) (sameHomes_setFrame _ _)

/-! ### System calls -/

/-- **`SYS_STAT`** -/
theorem worksFor_syscallStat (pathPtr statPtr callerCs : Word) :
    Rel (WorksFor c) (syscallStat pathPtr statPtr callerCs) := by
  have hstat (stat : FileInfo) : (fileStatBytes stat).length < wordSize := by
    show 16 < wordSize
    decide
  unfold syscallStat
  refine Rel.ite (Rel.pure _) (Rel.bind (worksFor_isUserPointerWritable _ _) fun w => Rel.ite (Rel.pure _) ?_)
  refine Rel.get_bind fun k => ?_
  split
  · exact Rel.pure _
  · refine Rel.bind (.ofKeeps (.callVfs _) (.callVfs _)) fun r => ?_
    split
    · exact Rel.pure _
    · exact Rel.bind (worksFor_copyToUser _ (hstat _)) fun _ => Rel.pure _

/-- **`SYS_PIPE`** -/
theorem worksFor_syscallPipe (readOut writeOut callerCs : Word) :
    Rel (WorksFor c) (syscallPipe readOut writeOut callerCs) := by
  have hword (w : Word) : (wordBytes w).length < wordSize := by
    show 4 < wordSize
    decide
  have hclose (handle : Int) : Rel (WorksFor c) (kernelPipeClose handle) :=
    .ofKeeps (quiet_kernelPipeClose _) (sameHomes_kernelPipeClose _)
  have hcloseFd (proc : Slot) (fd : Int) : Rel (WorksFor c) (processFdClose proc fd) :=
    .ofKeeps (quiet_processFdClose _ _) (sameHomes_processFdClose _ _)
  have hinstall (proc : Slot) (kind : FdKind) (handle : Int) :
      Rel (WorksFor c) (processFdInstallTyped proc kind handle 0) :=
    .ofKeeps (quiet_processFdInstallTyped _ _ _ _) (sameHomes_processFdInstallTyped _ _ _ _)
  unfold syscallPipe
  refine Rel.ite (Rel.pure _) (Rel.get_bind fun k => ?_)
  split
  · exact Rel.pure _
  refine Rel.bind (Rel.ite (Rel.pure _) (worksFor_isUserPointerWritable _ _)) fun readable => ?_
  refine Rel.bind (Rel.ite (Rel.pure _) (worksFor_isUserPointerWritable _ _)) fun writable => ?_
  refine Rel.ite (Rel.pure _) (Rel.bind (.ofKeeps quiet_kernelPipeCreate sameHomes_kernelPipeCreate) fun r => ?_)
  split
  · exact Rel.pure _
  refine Rel.bind (hinstall _ _ _) fun readFd => Rel.ite ?_ ?_
  · exact Rel.bind (hclose _) fun _ => Rel.bind (hclose _) fun _ => Rel.pure _
  refine Rel.bind (hinstall _ _ _) fun writeFd => Rel.ite ?_ ?_
  · exact Rel.bind (hcloseFd _ _) fun _ => Rel.bind (hclose _) fun _ => Rel.pure _
  refine Rel.bind (worksFor_copyToUser _ (hword _)) fun status => ?_
  refine Rel.bind (Rel.ite (Rel.pure _) (worksFor_copyToUser _ (hword _))) fun status => Rel.ite ?_ (Rel.pure _)
  exact Rel.bind (hcloseFd _ _) fun _ => Rel.bind (hcloseFd _ _) fun _ => Rel.pure _

end AgenticOs
