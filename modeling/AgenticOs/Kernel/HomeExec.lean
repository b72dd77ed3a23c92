import AgenticOs.Kernel.ExecUndone
import AgenticOs.Kernel.HomeForks

/-!
# A process moves

`SYS_EXEC` builds a new address space for its caller and destroys the old one. Until it commits nobody has
moved, and when it fails nobody will.

* **Before the commit** (`Homes.unmoved`): the kernel has worked on address spaces that are all as they were.
* **The commit** (`Homes.execCommit`): the running process moves into an address space that is ready, and its
  old one is destroyed (`Homes.moved`). What it does to memory, to the table and to the frame of its caller is
  said one by one (`execCommit_memory`, `execCommit_changes`, `execCommit_frame`).
* **The call** (`confined_syscallExec`): it moves nobody but its caller.

`Kernel/ExecProgram.lean` says what the process finds in its new home.
-/

namespace AgenticOs

open Function Finset Lib Scheduler

variable {m0 : Memory} {k k' : Kernel} {S S' : Spaces} {A : Set Slot} {c : Slot} {d n : Nat} {frame : Word}

/-- The image is built beside the processes. -/
theorem ImageStep.procs (h : ImageStep k k') : k'.procs = k.procs := by
  unfold ImageStep at h
  rw [h]

/-- The kernel has worked on address spaces that are all as they were. -/
theorem Homes.unmoved (hk : Homes m0 k S) (hm : Tracks m0 ⟨k'.mem, S.live⟩ S') (hsame : ∀ d, SameSpace d S S')
    (hprocs : k'.procs = k.procs) : Homes m0 k' S' ∧ Apart A k k' S S' := by
  have hlive : S'.live = S.live := hm.live
  refine ⟨⟨?_, fun p hp => ?_, fun p q hp hq => ?_, fun d hd => ?_⟩, fun p _ hp => ?_,
    fun _ _ _ d' _ => (hsame d').view⟩
  · rw [hlive]
    exact hm.load (.inl rfl)
  · unfold Kernel.Alive at hp
    rw [hprocs] at hp ⊢
    obtain ⟨d', hd', hdwells⟩ := hk.home p hp
    exact ⟨d', hlive ▸ hd', hdwells.toLivesIn, fun hwait i hi => (hsame d').writable (hdwells.buffer hwait i hi)⟩
  · unfold Kernel.Alive at hp hq
    rw [hprocs] at hp hq ⊢
    exact hk.alone p q hp hq
  · unfold Kernel.Alive
    rw [hprocs]
    exact hk.owned d (hlive ▸ hd)
  · unfold Kernel.Alive at hp ⊢
    rw [hprocs] at hp ⊢
    exact ⟨hp, rfl⟩

/-- The running process moves into an address space that is ready, and its old one is destroyed. -/
theorem Homes.moved (hk : Homes m0 k S) (hc : k.Alive c) (hd : d ∈ S.live) (hcr3 : (k.procs c).cr3 = frameAddr d)
    (hn : n ∉ S.live) {m : Memory} (hm : Tracks m0 ⟨m, insert n S.live⟩ S') (helsewhere : Elsewhere n S S')
    (hmem : k'.mem = (m.pagingSwitchDirectory (frameAddr n)).pagingDestroyAddressSpace (frameAddr d))
    (hothers : ∀ p, p ≠ c → (k.procs p).SameHome (k'.procs p)) (halive : SameAlive k k')
    (hself : (k'.procs c).LivesIn n) (hnowait : (k'.procs c).blockReason ≠ .pipeRead) :
    Homes m0 k' (S'.destroy d) ∧ Apart {c} k k' S (S'.destroy d) := by
  have hlive : S'.live = insert n S.live := hm.live
  have hnlive : n ∈ S'.live := hlive ▸ mem_insert_self n S.live
  have hnlt := hm.represents.live_lt hnlive
  have hdlt := hk.tracks.represents.live_lt hd
  have hnd : n ≠ d := by
    rintro rfl
    exact hn hd
  have hloaded := hm.load (.inr ⟨n, hnlive, rfl⟩)
  have hactive : (m.pagingSwitchDirectory (frameAddr n)).activePageDirectory = frameAddr n := by
    unfold Memory.pagingSwitchDirectory
    rw [if_neg (hm.represents.frameAddr_live_ne_zero hnlive), frameAddr_and_addrMask hnlt]
  have hdestroyed := hloaded.destroyed (mem_insert_of_mem hd) fun hcontra =>
    hnd (frameAddr_inj hnlt hdlt (hactive.symm.trans hcontra))
  -- the others live in old address spaces, and not in that of `c`
  have hother {p : Slot} (hp : p ≠ c) (hpalive : k'.Alive p) : ∃ d' ∈ S.live, Dwells S (k.procs p) d' ∧
      SameSpace d' S (S'.destroy d) := by
    obtain ⟨d', hd', hdwells⟩ := hk.home p ((halive p).mp hpalive)
    have hdd : d' ≠ d := hk.cr3_ne ((halive p).mp hpalive) hc hp hcr3 hdwells.cr3
    have hdn : d' ≠ n := by
      rintro rfl
      exact hn hd'
    exact ⟨d', hd', hdwells, (helsewhere d' hdn).trans (Elsewhere.destroy d' hdd)⟩
  have hin {d' : Nat} : d' ∈ (S'.destroy d).live ↔ d' ≠ d ∧ (d' = n ∨ d' ∈ S.live) := by
    show d' ∈ S'.live.erase d ↔ _
    rw [mem_erase, hlive, mem_insert]
  have hapart {p : Slot} (hp : p ≠ c) (hpalive : k'.Alive p) : (k'.procs p).cr3 ≠ (k'.procs c).cr3 := by
    obtain ⟨d', hd', hdwells, -⟩ := hother hp hpalive
    rw [(hothers p hp).cr3, hdwells.cr3, hself.cr3]
    intro heq
    exact hn (frameAddr_inj (hk.tracks.represents.live_lt hd') hnlt heq ▸ hd')
  refine ⟨⟨?_, fun p hp => ?_, fun p q hp hq heq => ?_, fun d' hd' => ?_⟩, fun p hp hpalive => ?_,
    fun p hp hpalive d' hd' => ?_⟩
  · rw [hmem]
    show Tracks m0 ⟨_, S'.live.erase d⟩ _
    rw [hlive]
    exact hdestroyed.load (.inl rfl)
  · by_cases hpc : p = c
    · rw [hpc]
      exact ⟨n, hin.mpr ⟨hnd, .inl rfl⟩, hself, fun hwait => absurd hwait hnowait⟩
    · obtain ⟨d', hd', hdwells, hspace⟩ := hother hpc hp
      have hdd : d' ≠ d := hk.cr3_ne ((halive p).mp hp) hc hpc hcr3 hdwells.cr3
      have hdwells' : Dwells (S'.destroy d) (k.procs p) d' :=
        ⟨hdwells.toLivesIn, fun hwait i hi => hspace.writable (hdwells.buffer hwait i hi)⟩
      exact ⟨d', hin.mpr ⟨hdd, .inr hd'⟩, (hothers p hpc).dwells hdwells'⟩
  · by_cases hpc : p = c
    · subst hpc
      by_contra hne
      exact hapart (Ne.symm hne) hq heq.symm
    by_cases hqc : q = c
    · subst hqc
      exact absurd heq (hapart hpc hp)
    rw [(hothers p hpc).cr3, (hothers q hqc).cr3] at heq
    exact hk.alone p q ((halive p).mp hp) ((halive q).mp hq) heq
  · obtain ⟨hdd, rfl | hd'⟩ := hin.mp hd'
    · exact ⟨c, (halive c).mpr hc, hself.cr3⟩
    · obtain ⟨p, hp, hpcr3⟩ := hk.owned d' hd'
      have hpc : p ≠ c := by
        rintro rfl
        exact hdd (frameAddr_inj (hk.tracks.represents.live_lt hd') hdlt (hpcr3.symm.trans hcr3))
      exact ⟨p, (halive p).mpr hp, (hothers p hpc).cr3.trans hpcr3⟩
  · exact ⟨(halive p).mp hpalive, (hothers p hp).cr3⟩
  · obtain ⟨d'', hd'', hdwells, -⟩ := hother hp hpalive
    have hdd : d' ≠ d := hk.cr3_ne ((halive p).mp hpalive) hc hp hcr3 hd'
    have hdn : d' ≠ n := by
      rintro rfl
      exact hn (frameAddr_inj (hk.tracks.represents.live_lt hd'') hnlt (hdwells.cr3.symm.trans hd') ▸ hd'')
    exact ((helsewhere d' hdn).trans (Elsewhere.destroy d' hdd)).view

/-- What the commit does to memory and to the table. -/
theorem execCommit_changes (k : Kernel) (proc : Slot) (frame newCr3 sp entry : Word) (vectors : Option Nat) :
    let k₁ := (processFdCloseOnExec proc k).2
    let k₂ := (execCommit proc frame newCr3 sp entry vectors k).2
    k₂.mem = (k₁.mem.pagingSwitchDirectory newCr3).pagingDestroyAddressSpace (k.procs proc).cr3 ∧
      k₂.procs = update k₁.procs proc { k₁.procs proc with
        cr3 := newCr3
        heapStart := processHeapStart
        heapEnd := processHeapStart
        interruptFrame := true } := by
  unfold execCommit
  dsimp only
  rw [run_bind, run_getProc, run_bind]
  generalize (processFdCloseOnExec proc k).2 = k₁
  rw [run_bind, run_modifyProc, run_bind, callKfree, run_modify, run_bind, run_onMemory, run_bind,
    run_onMemory, run_modify]
  exact ⟨rfl, rfl⟩

/-- The caller's descriptors that do not survive are closed before the commit; memory is not touched by that. -/
theorem execCommit_memory {live : Finset Nat} (hm : Tracks m0 ⟨k.mem, live⟩ S) (proc : Slot)
    (frame newCr3 sp entry : Word) (vectors : Option Nat) :
    let k' := (AgenticOs.execCommit proc frame newCr3 sp entry vectors k).2
    k'.mem = (k.mem.pagingSwitchDirectory newCr3).pagingDestroyAddressSpace (k.procs proc).cr3 ∧
      (k'.procs proc).cr3 = newCr3 ∧ (k'.procs proc).heapStart = processHeapStart ∧
        (k'.procs proc).heapEnd = processHeapStart := by
  obtain ⟨hmem, hprocs⟩ := execCommit_changes k proc frame newCr3 sp entry vectors
  have hsame : (processFdCloseOnExec proc k).2.mem = k.mem := Memory.eq_of_shelved
    (sameHomes_processFdCloseOnExec proc k).mem ((quiet_processFdCloseOnExec proc k).active hm.isDirectory)
  rw [hsame] at hmem
  dsimp only at hprocs ⊢
  rw [hprocs, update_self]
  exact ⟨hmem, rfl, rfl, rfl⟩

/-- Where the new program starts. -/
theorem execCommit_frame (k : Kernel) (proc : Slot) (frame newCr3 sp entry : Word) (vectors : Option Nat) :
    let registers := (AgenticOs.execCommit proc frame newCr3 sp entry vectors k).2.frameAt frame
    registers.eip = entry ∧ registers.userEsp = sp := by
  unfold AgenticOs.execCommit
  dsimp only
  rw [run_bind, run_getProc, run_bind]
  generalize (processFdCloseOnExec proc k).2 = k₁
  rw [run_bind, run_modifyProc, run_bind, callKfree, run_modify, run_bind, run_onMemory, run_bind,
    run_onMemory, run_modify]
  unfold Kernel.setFrame
  dsimp only
  rw [update_self]
  exact ⟨rfl, rfl⟩

/-- The new image replaces the old one. -/
theorem Homes.execCommit (hk : Homes m0 k S) (hc : k.Alive c) (hidle : (k.procs c).blockReason ≠ .pipeRead)
    {k₁ : Kernel} (hprocs : k₁.procs = k.procs) (hn : n ∉ S.live) (hm : Tracks m0 ⟨k₁.mem, insert n S.live⟩ S')
    (helsewhere : Elsewhere n S S') (sp entry : Word) (vectors : Option Nat) :
    ∃ S'', Homes m0 (AgenticOs.execCommit c frame (frameAddr n) sp entry vectors k₁).2 S'' ∧
      Apart {c} k (AgenticOs.execCommit c frame (frameAddr n) sp entry vectors k₁).2 S S'' := by
  obtain ⟨d, hd, hdwells⟩ := hk.home c hc
  have hnlive : n ∈ S'.live := hm.live_eq ▸ mem_insert_self n S.live
  have hquiet := quiet_processFdCloseOnExec c k₁
  have hsame := sameHomes_processFdCloseOnExec c k₁
  have halive : SameAlive k (processFdCloseOnExec c k₁).2 := by
    intro p
    refine (hquiet.alive p).trans ?_
    unfold Kernel.Alive
    rw [hprocs]
  have hhome (p : Slot) : (k.procs p).SameHome ((processFdCloseOnExec c k₁).2.procs p) := by
    rw [← hprocs]
    exact hsame.home p
  have hnowait : ((processFdCloseOnExec c k₁).2.procs c).blockReason ≠ .pipeRead := fun hwait =>
    hidle ((hhome c).buffer hwait).1
  have hcr3 : (k₁.procs c).cr3 = frameAddr d := by
    rw [hprocs]
    exact hdwells.cr3
  obtain ⟨-, hprocs₃⟩ := execCommit_changes k₁ c frame (frameAddr n) sp entry vectors
  obtain ⟨hmem₃, -⟩ := execCommit_memory hm c frame (frameAddr n) sp entry vectors
  generalize (processFdCloseOnExec c k₁).2 = k₂ at hprocs₃ hhome halive hnowait
  generalize (AgenticOs.execCommit c frame (frameAddr n) sp entry vectors k₁).2 = k₃ at hmem₃ hprocs₃ ⊢
  rw [hcr3] at hmem₃
  have hlives : (k₃.procs c).LivesIn n := by
    rw [hprocs₃, update_self]
    exact ⟨rfl, BitVec.le_refl _, show processHeapStart ≤ processHeapLimit by decide⟩
  have hstate : (k₃.procs c).state = (k₂.procs c).state := by rw [hprocs₃, update_self]
  have hreason : (k₃.procs c).blockReason = (k₂.procs c).blockReason := by rw [hprocs₃, update_self]
  have hothers₃ (p : Slot) (hp : p ≠ c) : k₃.procs p = k₂.procs p := by rw [hprocs₃, update_of_ne hp]
  refine ⟨_, hk.moved hc hd hdwells.cr3 hn hm helsewhere hmem₃ (fun p hp => ?_) (fun p => ?_) hlives ?_⟩
  · rw [hothers₃ p hp]
    exact hhome p
  · refine Iff.trans ?_ (halive p)
    unfold Kernel.Alive
    by_cases hp : p = c
    · rw [hp, hstate]
    · rw [hothers₃ p hp]
  · rw [hreason]
    exact hnowait

/-- **`SYS_EXEC`** -/
theorem confined_syscallExec (h : Agrees k c) (hidle : (k.procs c).blockReason ≠ .pipeRead)
    (pathPtr argvPtr envpPtr callerCs frame : Word) :
    Confined {c} k (syscallExec pathPtr argvPtr envpPtr callerCs frame k).2 := by
  have hheap (k : Kernel) (heap : Heap) : Confined {c} k (k.withHeap heap) :=
    .of_same (.of_same rfl rfl) fun _ => Iff.rfl
  have hends := syscallExec_ends pathPtr argvPtr envpPtr callerCs frame k
  generalize syscallExec pathPtr argvPtr envpPtr callerCs frame k = r at hends
  cases hends with
  | refused status => exact .refl _ k
  | uncopied block heap status => exact hheap k _
  | unloaded block heap path vectors status k' _ hsmall hrun =>
    refine .trans (fun m0 S hk => ?_) (hheap k' _)
    have hstep := (imageRead_execImage path vectors (k.withHeap heap)).step
    obtain ⟨d, hd, -, -, htracks⟩ := hk.loaded h
    rcases execImage_spaces (k := k.withHeap heap) htracks path hsmall with
      ⟨status', S', -, -, hundone⟩ | ⟨n, S', entry, sp, -, hok, -⟩
    · rw [hrun] at hundone hstep
      have hprocs : k'.procs = k.procs := hstep.procs
      exact ⟨S', hk.unmoved hundone.tracks hundone.same hprocs⟩
    · rw [hrun] at hok
      cases hok
  | committed block heap path vectors current newCr3 entry sp k' hcurrent _ _ hvectors hrun =>
    obtain rfl := Option.some.inj (h.processGetCurrent.symm.trans hcurrent)
    intro m0 S hk
    have hstep := (imageRead_execImage path vectors (k.withHeap heap)).step
    obtain ⟨d, hd, -, -, htracks⟩ := hk.loaded h
    rcases execImage_spaces (k := k.withHeap heap) htracks path (Kernel.copyVectors_small hvectors) with
      ⟨status', S', herror, -⟩ | ⟨n, S', entry', sp', hnew, hok, hm, helsewhere, -⟩
    · rw [hrun] at herror
      cases herror
    · rw [hrun] at hok hm hstep
      obtain ⟨rfl, -⟩ := Prod.mk.inj (Except.ok.inj hok)
      have hprocs : k'.procs = k.procs := hstep.procs
      dsimp only
      exact hk.execCommit (Homes.alive_of_runs h) hidle hprocs hnew hm helsewhere sp entry (some block)

end AgenticOs
