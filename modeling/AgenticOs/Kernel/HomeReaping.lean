import AgenticOs.Kernel.ExecSpaces
import AgenticOs.Kernel.HomeCalls

/-!
# A process is reaped

`process_destroy` takes the address space of a process that has ended away, and no other. It does so for a
parent that waits, and for orphans at the end of a context switch.

* **One home** (`Homes.destroyed`, `confined_processDestroy`): the home of a process that does not run is
  destroyed.
* **Zombies** (`confines_reapZombies`): `process_complete_context_switch` destroys those that nobody waits
  for, one after another, while the current process goes on running (`Confines`).
* **Waiting** (`confined_syscallWait`, `confined_syscallWaitpid`): a parent reaps a child that has ended, or
  notes that it waits, and blocks (`confined_waitForChild`).

The process that is destroyed is not the one that runs, so the directory that is loaded stays.
-/

namespace AgenticOs

open Function Finset Lib Scheduler

variable {m0 : Memory} {k k' k'' : Kernel} {S S' : Spaces} {A : Set Slot} {c proc : Slot} {frame : Word}

/-- The home of a process that does not run is destroyed. -/
theorem Homes.destroyed (hk : Homes m0 k S) (hc : k.Alive c) (hdirectory : k.mem.activePageDirectory = (k.procs c).cr3)
    (hne : proc ≠ c) (halive : k.Alive proc) {d : Nat} (hd : d ∈ S.live) (hcr3 : (k.procs proc).cr3 = frameAddr d)
    (hmem : k'.mem = k.mem.pagingDestroyAddressSpace (frameAddr d))
    (hothers : ∀ p, p ≠ proc → k'.procs p = k.procs p) (hdead : ¬k'.Alive proc) :
    Homes m0 k' (S.destroy d) ∧ Apart A k k' S (S.destroy d) := by
  obtain ⟨dc, hdc, hdwells, hactive, htracks⟩ := hk.loadedBy hc hdirectory
  have hne' : dc ≠ d := hk.cr3_ne hc halive hne.symm hcr3 hdwells.cr3
  have hlt := hk.tracks.represents.live_lt hd
  have hdestroyed := htracks.destroyed hd fun hc =>
    hne' (frameAddr_inj (htracks.represents.live_lt hdc) hlt (hactive.symm.trans hc))
  have hkept (p : Slot) (hp : k'.Alive p) : p ≠ proc ∧ k.Alive p ∧ k'.procs p = k.procs p := by
    have hpproc : p ≠ proc := by
      rintro rfl
      exact hdead hp
    unfold Kernel.Alive at hp ⊢
    rw [← hothers p hpproc]
    exact ⟨hpproc, hp, rfl⟩
  have hspace (p : Slot) (hp : k'.Alive p) {d' : Nat} (hd' : (k.procs p).cr3 = frameAddr d') : d' ≠ d :=
    hk.cr3_ne (hkept p hp).2.1 halive (hkept p hp).1 hcr3 hd'
  refine ⟨⟨?_, fun p hp => ?_, fun p q hp hq => ?_, fun d' hd' => ?_⟩, fun p _ hp => ?_, fun p _ hp d' hd' => ?_⟩
  · rw [hmem]
    exact hdestroyed.load (.inl rfl)
  · obtain ⟨hpproc, hpalive, hprocs⟩ := hkept p hp
    obtain ⟨d', hd', hdwells'⟩ := hk.home p hpalive
    have hdd := hspace p hp hdwells'.cr3
    rw [hprocs]
    exact ⟨d', mem_erase.mpr ⟨hdd, hd'⟩, hdwells'.toLivesIn,
      fun hwait i hi => (Elsewhere.destroy d' hdd).writable (hdwells'.buffer hwait i hi)⟩
  · rw [(hkept p hp).2.2, (hkept q hq).2.2]
    exact hk.alone p q (hkept p hp).2.1 (hkept q hq).2.1
  · obtain ⟨hdd, hlive⟩ := mem_erase.mp hd'
    obtain ⟨p, hp, hcr3'⟩ := hk.owned d' hlive
    have hpproc : p ≠ proc := by
      rintro rfl
      exact hdd (frameAddr_inj (hk.tracks.represents.live_lt hlive) hlt (hcr3'.symm.trans hcr3))
    unfold Kernel.Alive at hp ⊢
    refine ⟨p, ?_, ?_⟩
    · rw [hothers p hpproc]
      exact hp
    · rw [hothers p hpproc]
      exact hcr3'
  · rw [(hkept p hp).2.2]
    exact ⟨(hkept p hp).2.1, rfl⟩
  · exact (Elsewhere.destroy d' (hspace p hp hd')).view

/-- `process_destroy` of a process that has ended. -/
theorem confined_processDestroy (h : Agrees k c) (hz : (k.procs proc).state = .zombie) :
    Confined A k (processDestroy proc k).2 := by
  have hquiet := quiet_processFdCloseAll proc k
  have hsame := sameHomes_processFdCloseAll proc k
  unfold processDestroy
  rw [run_bind, run_getProc, run_ite, if_neg (by rw [hz]; decide), run_bind]
  have hz₁ : ((processFdCloseAll proc k).2.procs proc).state = .zombie := by
    rw [hquiet.state_eq (by rw [hz]; decide), hz]
  have hcr3 := (hsame.home proc).cr3
  refine (Confined.of_same hsame hquiet.alive).trans ?_
  have h₁ := (hquiet.serves c h).agrees
  generalize (processFdCloseAll proc k).2 = k₁ at h₁ hz₁ hcr3
  rw [run_bind, run_onMemory, run_bind, run_modify, run_bind, run_modifyProc, run_setProcessCount]
  dsimp only
  rw [← hcr3]
  intro m0 S hk
  have halive : k₁.Alive proc := by
    unfold Kernel.Alive
    rw [hz₁]
    decide
  have hne : proc ≠ c := by
    rintro rfl
    have := (h₁.runs.running proc).mpr rfl
    rw [hz₁] at this
    cases this
  obtain ⟨d, hd, hdwells⟩ := hk.home proc halive
  rw [hdwells.cr3, freeStack_eq _ rfl rfl]
  refine ⟨_, hk.destroyed (Homes.alive_of_runs h₁) h₁.runs.directory hne halive hd hdwells.cr3 rfl
    (fun p hp => Kernel.setProc_of_ne _ hp _) ?_⟩
  unfold Kernel.Alive
  rw [not_not]
  exact congrArg Process.state (Kernel.setProc_self _ proc Process.destroyed)

/-! ### While a process runs -/

/-- The process goes on running, and what happens is confined. -/
def Confines (A : Set Slot) (c : Slot) (k k' : Kernel) : Prop := Agrees k c → Agrees k' c ∧ Confined A k k'

instance : IsPreorder Kernel (Confines A c) where
  refl k h := ⟨h, .refl A k⟩
  trans k k' k'' h h' hc := by
    obtain ⟨hc', hconfined⟩ := h hc
    obtain ⟨hc'', hconfined'⟩ := h' hc'
    exact ⟨hc'', hconfined.trans hconfined'⟩

/-- A zombie is destroyed while another process runs. -/
theorem confines_processDestroy (hz : (k.procs proc).state = .zombie) : Confines A c k (processDestroy proc k).2 :=
  fun h => ⟨(serves_processDestroy hz c h).agrees, confined_processDestroy h hz⟩

/-- `process_complete_context_switch` destroys the zombies that nobody waits for. -/
theorem confines_reapZombies (c : Slot) : Rel (Confines A c) (reapZombies (some c)) := by
  refine Rel.forM fun proc _ k => ?_
  rw [run_bind, run_get, run_ite]
  split
  · rename_i hreap
    have hz : (k.procs proc).state = .zombie := by
      have := hreap.2
      unfold Kernel.reapable at this
      simp only [Bool.and_eq_true, decide_eq_true_eq] at this
      exact this.1
    exact confines_processDestroy hz
  · exact refl_of (Confines A c) k

/-! ### Waiting -/

/-- A child that has ended is reaped by its parent. -/
theorem confined_reapChild {child : Slot} (h : Agrees k c) (hz : (k.procs child).state = .zombie) :
    Confined A k (reapChild child k).2 := by
  unfold reapChild
  rw [run_bind, run_modifyProc, run_bind, run_getProc, run_bind, run_pure]
  dsimp only
  have hwaited : Quiet k (k.setProc child fun p => { p with waited := true }) :=
    Quiet.setProc (fun _ => ⟨rfl, rfl, rfl, rfl, rfl, id⟩) fun _ => rfl
  have hsame : SameHomes k (k.setProc child fun p => { p with waited := true }) :=
    .setProc ⟨rfl, rfl, rfl, fun h => ⟨h, rfl, rfl⟩⟩
  refine (Confined.of_same hsame hwaited.alive).trans (confined_processDestroy (hwaited.serves c h).agrees ?_)
  rw [Kernel.setProc_self]
  exact hz

/-- The parent blocks, and another process runs. -/
theorem confined_blockOnChild (h : Agrees k c) (hframe : frame ≠ 0) :
    Confined A k (blockOnChild c frame k).2 := by
  refine .of_same (sameHomes_blockOnChild c frame k) ?_
  unfold blockOnChild
  rw [run_bind, run_callScheduler, run_ite]
  dsimp only
  have ha := sameAlive_blockCurrent h hframe
  split
  · rw [run_bind, run_modifyProc, run_pure]
    have hcancel (k : Kernel) : Quiet k (k.setProc c Process.processCancelWait) :=
      Quiet.setProc (fun _ => ⟨rfl, rfl, rfl, rfl, rfl, id⟩) fun _ => rfl
    exact ha.trans (hcancel _).alive
  · exact ha

/-- A process that notes that it waits, and blocks. -/
theorem confined_waitForChild {beginWait : KernelM Unit} (h : Agrees k c) (hframe : frame ≠ 0)
    (hsame : KeepsHomes beginWait) (hquiet : RunsQuietly beginWait) :
    Confined A k (blockOnChild c frame (beginWait k).2).2 :=
  (Confined.of_same (hsame k) (hquiet k).alive).trans
    (confined_blockOnChild ((hquiet k).serves c h).agrees hframe)

/-- **`SYS_WAIT`** -/
theorem confined_syscallWait (h : Agrees k c) (hframe : frame ≠ 0) (statusPtr callerCs : Word) :
    Confined {c} k (syscallWait statusPtr callerCs frame k).2 := by
  intro m0 S hk
  unfold syscallWait
  rw [run_ite]
  split
  · exact Confined.refl _ k hk
  rw [run_bind, run_get]
  dsimp only
  rw [h.processGetCurrent]
  dsimp only
  rw [run_bind]
  obtain ⟨hq, S₁, hk₁, hapart₁, hopen⟩ := hk.userPointerWritable h (statusPtr = 0) statusPtr 4
  have h₁ := (hq.serves c h).agrees
  generalize (if statusPtr = 0 then pure true else isUserPointerWritable statusPtr 4 : KernelM Bool) k = r
    at hk₁ hapart₁ hopen h₁ ⊢
  rw [run_ite]
  split
  · exact ⟨S₁, hk₁, hapart₁⟩
  rename_i hwritable
  rw [run_bind, run_get]
  dsimp only
  rcases hfind : r.2.processFindExitedChild (r.2.procs c).pid with _ | child
  · dsimp only
    rw [run_ite]
    split
    · exact ⟨S₁, hk₁, hapart₁⟩
    · have hquiet : RunsQuietly (modifyProc c (·.processBeginWait statusPtr)) :=
        .modifyProc (fun _ => ⟨rfl, rfl, rfl, rfl, rfl, id⟩) fun _ => rfl
      obtain ⟨S₂, hk₂, hapart₂⟩ := confined_waitForChild (A := {c}) h₁ hframe
        (sameHomes_processBeginWait c statusPtr) hquiet hk₁
      exact ⟨S₂, hk₂, hapart₁.trans hapart₂⟩
  · dsimp only
    rw [run_bind, run_runIf]
    have hz := zombie_of_findExitedChild hfind
    by_cases hnull : statusPtr = 0
    · rw [if_neg (not_not.mpr hnull)]
      obtain ⟨S₂, hk₂, hapart₂⟩ := confined_reapChild (A := {c}) h₁ hz hk₁
      exact ⟨S₂, hk₂, hapart₁.trans hapart₂⟩
    · rw [if_pos hnull, run_modify]
      dsimp only
      obtain ⟨S₂, hk₂, hapart₂, -⟩ := hk₁.storeBytes h₁ (hopen (by simpa using hwritable) hnull)
        (show (wordBytes (r.2.procs child).exitCode).length ≤ (4 : Word).toNat from le_refl 4)
      have hstore := Quiet.storeBytes r.2 statusPtr (wordBytes (r.2.procs child).exitCode)
      obtain ⟨S₃, hk₃, hapart₃⟩ := confined_reapChild (A := {c}) (hstore.serves c h₁).agrees hz hk₂
      exact ⟨S₃, hk₃, (hapart₁.trans hapart₂).trans hapart₃⟩

/-- **`SYS_WAITPID`** -/
theorem confined_syscallWaitpid (h : Agrees k c) (hframe : frame ≠ 0) (targetPid statusPtr options callerCs : Word) :
    Confined {c} k (syscallWaitpid targetPid statusPtr options callerCs frame k).2 := by
  intro m0 S hk
  unfold syscallWaitpid
  rw [run_ite]
  split
  · exact Confined.refl _ k hk
  rw [run_bind, run_get]
  dsimp only
  rw [h.processGetCurrent]
  dsimp only
  rw [run_ite]
  split
  · exact Confined.refl _ k hk
  rw [run_bind]
  obtain ⟨hq, S₁, hk₁, hapart₁, -⟩ := hk.userPointerWritable h (statusPtr = 0) statusPtr 4
  have h₁ := (hq.serves c h).agrees
  generalize (if statusPtr = 0 then pure true else isUserPointerWritable statusPtr 4 : KernelM Bool) k = r
    at hk₁ hapart₁ h₁ ⊢
  rw [run_ite]
  split
  · exact ⟨S₁, hk₁, hapart₁⟩
  rw [run_bind, run_get]
  dsimp only
  rcases hfind : r.2.processFindExitedChildByPid (r.2.procs c).pid targetPid.toNat with _ | child
  · dsimp only
    rw [run_ite]
    split
    · exact ⟨S₁, hk₁, hapart₁⟩
    rw [run_ite]
    split
    · exact ⟨S₁, hk₁, hapart₁⟩
    · have hsame : KeepsHomes (modifyProc c (·.processBeginWaitpid statusPtr targetPid.toNat) >>= fun _ =>
          modifyProc c fun p => { p with waitIsWaitpid := true }) :=
        .bind (sameHomes_processBeginWaitpid c statusPtr targetPid.toNat) fun _ =>
          .modifyProc fun _ => ⟨rfl, rfl, rfl, fun h => ⟨h, rfl, rfl⟩⟩
      have hquiet : RunsQuietly (modifyProc c (·.processBeginWaitpid statusPtr targetPid.toNat) >>= fun _ =>
          modifyProc c fun p => { p with waitIsWaitpid := true }) :=
        .bind (.modifyProc (fun _ => ⟨rfl, rfl, rfl, rfl, rfl, id⟩) fun _ => rfl) fun _ =>
          .modifyProc (fun _ => ⟨rfl, rfl, rfl, rfl, rfl, id⟩) fun _ => rfl
      obtain ⟨S₂, hk₂, hapart₂⟩ := confined_waitForChild (A := {c}) h₁ hframe hsame hquiet hk₁
      exact ⟨S₂, hk₂, hapart₁.trans hapart₂⟩
  · dsimp only
    have hz := zombie_of_findExitedChild hfind
    have hword : (wordBytes (r.2.procs child).encodedStatus).length < wordSize := by
      show 4 < wordSize
      decide
    have hcopy : WorksFor c r.2 (((if statusPtr = 0 then pure uaccessSuccess
        else copyToUser statusPtr (wordBytes (r.2.procs child).encodedStatus)) : KernelM Int) r.2).2 :=
      Rel.ite (Rel.pure _) (worksFor_copyToUser statusPtr hword) r.2
    rw [run_bind]
    generalize ((if statusPtr = 0 then pure uaccessSuccess
      else copyToUser statusPtr (wordBytes (r.2.procs child).encodedStatus)) : KernelM Int) r.2 = copied at hcopy ⊢
    obtain ⟨S₂, hk₂, hapart₂⟩ := hcopy.homes hk₁ h₁
    rw [run_ite]
    split
    · exact ⟨S₂, hk₂, hapart₁.trans hapart₂⟩
    · have hz₂ : (copied.2.procs child).state = .zombie := by
        rw [hcopy.quiet.state_eq (by rw [hz]; decide), hz]
      obtain ⟨S₃, hk₃, hapart₃⟩ := confined_reapChild (A := {c}) (hcopy.quiet.serves c h₁).agrees hz₂ hk₂
      exact ⟨S₃, hk₃, (hapart₁.trans hapart₂).trans hapart₃⟩

end AgenticOs
