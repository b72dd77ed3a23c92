import AgenticOs.Kernel.HomeReaping

/-!
# A process is born

`SYS_FORK` gives a child an address space of its own, which shows what that of its parent shows.

* **Clones** (`Spaces.view_clone`): a clone shows what its source shows, and all others show what they showed.
* **Slots** (`Homes.vacant`, `Homes.born`): a slot that nobody lives in is filled with the child; if the fork
  fails after the address space was cloned, the clone is destroyed again and the slot is free.
* **The fork** (`Homes.processFork`): `process_fork` moves nobody but the child, which sees what its parent
  sees (`SeesAs`).
* **The call** (`confined_syscallFork`).

The parent's own entries may have become copy-on-write. What it sees has not changed, and that is what `Apart`
is about.
-/

namespace AgenticOs

open Function Finset Lib Scheduler

variable {m0 : Memory} {k k' k'' : Kernel} {S S' : Spaces} {A : Set Slot} {c child : Slot} {d n : Nat}
  {table : Nat → TableIndex → Option Nat}

/-! ### Clones -/

/-- A clone shows what its source shows, and all others show what they showed. -/
theorem Spaces.view_clone (S : Spaces) (d n : Nat) (table : Nat → TableIndex → Option Nat) (d' : Nat) :
    (S.clone d n table).view.page d' = if d' = n then S.view.page d else S.view.page d' := by
  have hshare (o : Option Word) : ((o.map shareCow).map fun e =>
      (⟨pageByte (S.content (frameOf e)), isWritable e || isCow e⟩ : RefPage)) =
        o.map fun e => ⟨pageByte (S.content (frameOf e)), isWritable e || isCow e⟩ := by
    cases o with
    | none => rfl
    | some e =>
      obtain ⟨hframe, -, hshown⟩ := shareCow_facts e
      rw [Option.map_some, Option.map_some, Option.map_some, hframe, hshown]
  funext i j
  show (if d' = d ∨ d' = n then (S.entry d i j).map shareCow else S.entry d' i j).map _ =
    (if d' = n then S.view.page d else S.view.page d') i j
  by_cases hn : d' = n
  · rw [if_pos (.inr hn), if_pos hn]
    exact hshare _
  rw [if_neg hn]
  by_cases hd : d' = d
  · rw [if_pos (.inl hd), hd]
    exact hshare _
  · rw [if_neg (not_or.mpr ⟨hd, hn⟩)]
    rfl

/-- Address spaces that have no part in a clone. -/
theorem SameSpace.clone (htable : ∀ d', d' ≠ n → table d' = S.table d') {d' : Nat} (hd : d' ≠ d) (hn : d' ≠ n) :
    SameSpace d' S (S.clone d n table) := by
  refine ⟨htable d' hn, ?_, fun _ _ _ _ => rfl⟩
  funext i j
  exact if_neg (not_or.mpr ⟨hd, hn⟩)

/-! ### Slots -/

/-- A slot that nobody lives in has changed, and memory stores the same address spaces. -/
theorem Homes.vacant (hk : Homes m0 k S) (hrep : Represents m0 k'.mem S)
    (hothers : ∀ p, p ≠ child → k'.procs p = k.procs p) (hdead : ¬k.Alive child) (hdead' : ¬k'.Alive child) :
    Homes m0 k' S ∧ Apart A k k' S S := by
  have hkept (p : Slot) : (k'.Alive p → k.Alive p ∧ k'.procs p = k.procs p) ∧ (k.Alive p → k'.Alive p) := by
    by_cases hp : p = child
    · subst hp
      exact ⟨fun hc => absurd hc hdead', fun hc => absurd hc hdead⟩
    · unfold Kernel.Alive
      rw [hothers p hp]
      exact ⟨fun hc => ⟨hc, rfl⟩, id⟩
  refine ⟨⟨(hk.tracks.same hrep).load (.inl rfl), fun p hp => ?_, fun p q hp hq => ?_, fun d hd => ?_⟩,
    fun p _ hp => ?_, fun _ _ _ _ _ => rfl⟩
  · rw [((hkept p).1 hp).2]
    exact hk.home p ((hkept p).1 hp).1
  · rw [((hkept p).1 hp).2, ((hkept q).1 hq).2]
    exact hk.alone p q ((hkept p).1 hp).1 ((hkept q).1 hq).1
  · obtain ⟨p, hp, hcr3⟩ := hk.owned d hd
    have hp' := (hkept p).2 hp
    exact ⟨p, hp', by rw [((hkept p).1 hp').2]; exact hcr3⟩
  · rw [((hkept p).1 hp).2]
    exact ⟨((hkept p).1 hp).1, rfl⟩

/-- The slot of a child is filled, with a clone of the address space of its parent. -/
theorem Homes.born (hk : Homes m0 k S) (hc : k.Alive c) (hcr3 : (k.procs c).cr3 = frameAddr d)
    (hidle : (k.procs c).blockReason ≠ .pipeRead) (hn : n ∉ S.live) (hnlt : n < 1048576)
    (htable : ∀ d', d' ≠ n → table d' = S.table d') (hrep : Represents m0 k'.mem (S.clone d n table))
    (hdead : ¬k.Alive child) (hothers : ∀ p, p ≠ child → k'.procs p = k.procs p) (halive : k'.Alive child)
    (hlives : (k'.procs child).LivesIn n) (hnowait : (k'.procs child).blockReason ≠ .pipeRead) :
    Homes m0 k' (S.clone d n table) ∧ Apart {child} k k' S (S.clone d n table) := by
  have hkept (p : Slot) (hp : p ≠ child) : k'.procs p = k.procs p ∧ (k'.Alive p ↔ k.Alive p) := by
    unfold Kernel.Alive
    rw [hothers p hp]
    exact ⟨rfl, Iff.rfl⟩
  have hold {d' : Nat} (hd' : d' ∈ S.live) : d' ≠ n := by
    rintro rfl
    exact hn hd'
  -- the directory of a process that is not the child is one of the old ones
  have hdir {p : Slot} (hp : p ≠ child) (hpalive : k'.Alive p) : ∃ d' ∈ S.live, Dwells S (k'.procs p) d' := by
    rw [(hkept p hp).1]
    exact hk.home p ((hkept p hp).2.mp hpalive)
  have hapart {p : Slot} (hp : p ≠ child) (hpalive : k'.Alive p) : (k'.procs p).cr3 ≠ (k'.procs child).cr3 := by
    obtain ⟨d', hd', hdwells⟩ := hdir hp hpalive
    rw [hdwells.cr3, hlives.cr3]
    exact fun heq => hold hd' (frameAddr_inj (hk.tracks.represents.live_lt hd') hnlt heq)
  refine ⟨⟨(hk.tracks.cloned hrep).load (.inl rfl), fun p hp => ?_, fun p q hp hq heq => ?_, fun d' hd' => ?_⟩,
    fun p hp hpalive => ?_, fun p hp hpalive d' hd' => ?_⟩
  · by_cases hpc : p = child
    · rw [hpc]
      exact ⟨n, mem_insert_self n S.live, hlives, fun hwait => absurd hwait hnowait⟩
    obtain ⟨d', hd', hdwells⟩ := hdir hpc hp
    refine ⟨d', mem_insert_of_mem hd', hdwells.toLivesIn, fun hwait i hi => ?_⟩
    have hpcaller : p ≠ c := by
      rintro rfl
      rw [(hkept p hpc).1] at hwait
      exact hidle hwait
    have hdd : d' ≠ d := hk.cr3_ne ((hkept p hpc).2.mp hp) hc hpcaller hcr3 ((hkept p hpc).1 ▸ hdwells.cr3)
    exact (SameSpace.clone htable hdd (hold hd')).writable (hdwells.buffer hwait i hi)
  · by_cases hpc : p = child
    · subst hpc
      by_contra hne
      exact hapart (Ne.symm hne) hq heq.symm
    by_cases hqc : q = child
    · subst hqc
      exact absurd heq (hapart hpc hp)
    rw [(hkept p hpc).1, (hkept q hqc).1] at heq
    exact hk.alone p q ((hkept p hpc).2.mp hp) ((hkept q hqc).2.mp hq) heq
  · rcases mem_insert.mp hd' with rfl | hd'
    · exact ⟨child, halive, hlives.cr3⟩
    · obtain ⟨p, hp, hpcr3⟩ := hk.owned d' hd'
      have hpc : p ≠ child := by
        rintro rfl
        exact hdead hp
      exact ⟨p, (hkept p hpc).2.mpr hp, by rw [(hkept p hpc).1]; exact hpcr3⟩
  · rw [(hkept p hp).1]
    exact ⟨(hkept p hp).2.mp hpalive, rfl⟩
  · obtain ⟨d'', hd'', hdwells⟩ := hk.home p ((hkept p hp).2.mp hpalive)
    have hne : d' ≠ n := by
      rintro rfl
      exact hold hd'' (frameAddr_inj (hk.tracks.represents.live_lt hd'') hnlt (hdwells.cr3.symm.trans hd'))
    rw [S.view_clone, if_neg hne]

/-! ### The fork -/

/-- Two processes see the same. -/
def SeesAs (k : Kernel) (S : Spaces) (p q : Slot) : Prop :=
  ∀ d ∈ S.live, ∀ d' ∈ S.live, (k.procs p).cr3 = frameAddr d → (k.procs q).cr3 = frameAddr d' →
    S.view.page d = S.view.page d'

/-- The child sees what its parent saw for as long as both are left alone. -/
theorem SeesAs.same {p q : Slot} (h : SeesAs k S p q) (hs : SameHomes k k') : SeesAs k' S p q :=
  fun d hd d' hd' hp hq => h d hd d' hd' ((hs.home p).cr3.symm.trans hp) ((hs.home q).cr3.symm.trans hq)

/-- `process_fork` once the child has a kernel stack and an address space: it sees what its parent sees. -/
theorem Homes.forkInto (hk : Homes m0 k S) (h : Agrees k c) (hidle : (k.procs c).blockReason ≠ .pipeRead)
    (hdead : ¬k.Alive child) {k₀ : Kernel} {childCr3 : Word} (hothers : ∀ p, p ≠ child → k₀.procs p = k.procs p)
    (hmem : k₀.mem = (k.mem.pagingCloneDirectory (k.procs c).cr3).2)
    (hclone : childCr3 = (k.mem.pagingCloneDirectory (k.procs c).cr3).1) (hcr3 : childCr3 ≠ 0) (frame : Word) :
    let r := AgenticOs.forkInto child c frame childCr3 k₀
    ∃ S', Homes m0 r.2 S' ∧ Apart {child} k r.2 S S' ∧
      ∀ q, r.1 = some q → q = child ∧ r.2.Alive q ∧ SeesAs r.2 S' q c := by
  intro r
  obtain ⟨d, hd, hdwells, hactive, htracks⟩ := hk.loaded h
  have hcalive : k.Alive c := alive_of_runs h
  have hne : child ≠ c := by
    rintro rfl
    exact hdead hcalive
  rw [hdwells.cr3] at hmem hclone
  rcases htracks.represents.cloneDirectory hd htracks.tableHand htracks.pageHand with
    ⟨hzero, -⟩ | ⟨n, table, hn, hpos, hlt, htable, haddr, hrep⟩
  · exact absurd (hclone.trans hzero) hcr3
  rw [haddr] at hclone
  rw [← hmem] at hrep
  have hnlt : n < 1048576 := hlt.trans (by decide)
  have hr : r = AgenticOs.forkInto child c frame childCr3 k₀ := rfl
  clear_value r
  unfold AgenticOs.forkInto at hr
  rw [run_bind, run_getProc, run_bind, run_modify, run_bind, run_getProc, run_bind, run_takePid, run_bind,
    run_modifyProc, run_bind] at hr
  dsimp only at hr
  -- the child has its frame, its pid and its fields
  have hparent : (k₀.setFrame ((k₀.procs child).kernelStack + BitVec.ofNat 32 (kernelStackSize - frameBytes))
      fun _ => (k₀.frameAt frame).forked).procs c = k.procs c := hothers c hne.symm
  rw [hparent] at hr
  generalize hk₁ : Kernel.setProc _ child _ = k₁ at hr
  have hprocs₁ (p : Slot) (hp : p ≠ child) : k₁.procs p = k.procs p := by
    subst hk₁
    exact (Kernel.setProc_of_ne _ hp _).trans (hothers p hp)
  have hmem₁ : k₁.mem = k₀.mem := by
    subst hk₁
    rfl
  have hself₁ : (k₁.procs child).cr3 = frameAddr n ∧ (k₁.procs child).heapStart = (k.procs c).heapStart ∧
      (k₁.procs child).heapEnd = (k.procs c).heapEnd ∧ (k₁.procs child).blockReason = .none ∧
        (k₁.procs child).state = .ready := by
    subst hk₁
    rw [Kernel.setProc_self]
    exact ⟨hclone, rfl, rfl, rfl, rfl⟩
  clear hk₁
  obtain ⟨hself₁, hstart₁, hend₁, hreason₁, hstate₁⟩ := hself₁
  have halive₁ : k₁.Alive child := by
    unfold Kernel.Alive
    rw [hstate₁]
    decide
  obtain ⟨hhomes₁, hapart₁⟩ := hk.born hcalive hdwells.cr3 hidle hn hnlt htable (hmem₁ ▸ hrep) hdead hprocs₁
    halive₁
    ⟨hself₁, hstart₁ ▸ hdwells.heapStart, hend₁ ▸ hdwells.heapEnd⟩ (by rw [hreason₁]; decide)
  have hsees : SeesAs k₁ (S.clone d n table) child c := by
    intro d₁ hd₁ d₂ hd₂ hcr3₁ hcr3₂
    have hlt₁ := hhomes₁.tracks.represents.live_lt hd₁
    have hlt₂ := hhomes₁.tracks.represents.live_lt hd₂
    obtain rfl : d₁ = n := frameAddr_inj hlt₁ hnlt (hcr3₁.symm.trans hself₁)
    obtain rfl : d₂ = d := frameAddr_inj hlt₂ (hk.tracks.represents.live_lt hd)
      (hcr3₂.symm.trans ((congrArg Process.cr3 (hprocs₁ c hne.symm)).trans hdwells.cr3))
    rw [S.view_clone, S.view_clone, if_pos rfl, ite_self]
  -- the descriptors are inherited
  have hquiet : Quiet k₁ (processFdInherit child c k₁).2 := quiet_inheritFds child c (List.finRange processMaxFds) k₁
  have hsame : SameHomes k₁ (processFdInherit child c k₁).2 :=
    sameHomes_inheritFds child c (List.finRange processMaxFds) k₁
  have hactive₁ : k₁.mem.activePageDirectory = frameAddr d := by
    rw [hmem₁, hmem, Memory.pagingCloneDirectory_active, hactive]
  have hcr3₁ : (k₁.procs c).cr3 = frameAddr d := (congrArg Process.cr3 (hprocs₁ c hne.symm)).trans hdwells.cr3
  generalize processFdInherit child c k₁ = inherited at hr hquiet hsame
  have hhomes₂ := hsame.homes hquiet.alive hhomes₁
  have hapart₂ := hapart₁.trans (hsame.apart fun p => (hquiet.alive p).mp)
  have halive₂ : inherited.2.Alive child := (hquiet.alive child).mpr halive₁
  rw [run_ite] at hr
  split at hr
  · -- the clone goes again
    rw [run_bind, run_onMemory, run_bind, run_pure] at hr
    unfold abandonChild at hr
    rw [run_bind, run_getProc, run_bind, run_modify, run_modifyProc] at hr
    dsimp only at hr
    rw [freeStack_eq _ rfl rfl, hclone] at hr
    have hcr3₂ := (hsame.home c).cr3.trans hcr3₁
    have hcr3n : (inherited.2.procs child).cr3 = frameAddr n := (hsame.home child).cr3.trans hself₁
    have hactive₂ : inherited.2.mem.activePageDirectory = frameAddr d :=
      (hquiet.active (by rw [hactive₁]; exact htracks.live_isDirectory hd)).trans hactive₁
    have hcalive₁ : k₁.Alive c := by
      unfold Kernel.Alive
      rw [hprocs₁ c hne.symm]
      exact hcalive
    obtain ⟨answer, k₃⟩ := r
    obtain ⟨rfl, hk₃⟩ := Prod.mk.inj hr
    have hmem₃ : k₃.mem = inherited.2.mem.pagingDestroyAddressSpace (frameAddr n) := by
      rw [hk₃]
      rfl
    have hothers₃ (p : Slot) (hp : p ≠ child) : k₃.procs p = inherited.2.procs p := by
      rw [hk₃]
      exact Kernel.setProc_of_ne _ hp fun _ => Process.zero
    have hdead₃ : ¬k₃.Alive child := by
      unfold Kernel.Alive
      rw [not_not, hk₃]
      exact congrArg Process.state (Kernel.setProc_self _ child fun _ => Process.zero)
    obtain ⟨hhomes₃, hapart₃⟩ := hhomes₂.destroyed ((hquiet.alive c).mpr hcalive₁) (hactive₂.trans hcr3₂.symm) hne
      halive₂ (mem_insert_self n S.live) hcr3n hmem₃ hothers₃ hdead₃
    exact ⟨_, hhomes₃, hapart₂.trans hapart₃, nofun⟩
  · rw [run_bind, run_modifyProc, run_bind, run_setProcessCount, run_pure] at hr
    subst hr
    have hmark : SameHomes inherited.2 (inherited.2.setProc c fun p => { p with interruptFrame := true }) :=
      .setProc ⟨rfl, rfl, rfl, fun h => ⟨h, rfl, rfl⟩⟩
    have hmarked : Quiet inherited.2 (inherited.2.setProc c fun p => { p with interruptFrame := true }) :=
      Quiet.setProc (fun _ => ⟨rfl, rfl, rfl, rfl, rfl, fun _ => rfl⟩) fun _ => rfl
    have hcount (k : Kernel) (n : Nat) : SameHomes k { k with processCount := n } := .of_same rfl rfl
    generalize inherited.2.setProc c _ = k₃ at hmark hmarked
    have hall := hmark.trans (hcount k₃ ((k₃.processCount + 1) % wordSize))
    refine ⟨_, hall.homes hmarked.alive hhomes₂, hapart₂.trans (hall.apart fun p => (hmarked.alive p).mp), ?_⟩
    rintro q hq
    obtain rfl := Option.some.inj hq
    exact ⟨rfl, (hmarked.alive _).mpr halive₂, (hsees.same hsame).same hall⟩

/-- `process_fork` moves nobody but the child, which sees what its parent sees. -/
theorem Homes.processFork (hk : Homes m0 k S) (h : Agrees k c) (hidle : (k.procs c).blockReason ≠ .pipeRead)
    (frame : Word) :
    let r := AgenticOs.processFork c frame k
    ∃ S', Homes m0 r.2 S' ∧ Apart {p | ¬k.Alive p} k r.2 S S' ∧
      ∀ q, r.1 = some q → ¬k.Alive q ∧ r.2.Alive q ∧ SeesAs r.2 S' q c := by
  have hstay (k' : Kernel) (hk' : Homes m0 k' S ∧ Apart {p | ¬k.Alive p} k k' S S) :
      ∃ S', Homes m0 k' S' ∧ Apart {p | ¬k.Alive p} k k' S S' ∧
        ∀ q, (none : Option Slot) = some q → ¬k.Alive q ∧ k'.Alive q ∧ SeesAs k' S' q c :=
    ⟨S, hk'.1, hk'.2, nofun⟩
  intro r
  have hr : r = AgenticOs.processFork c frame k := rfl
  clear_value r
  obtain ⟨d, hd, hdwells, hactive, htracks⟩ := hk.loaded h
  rcases processFork_cases h.pool c frame with hrun | ⟨child, hdead, hrun | ⟨i, m, hbit, hm, hcase⟩⟩
  · rw [hr, hrun]
    exact hstay k ⟨hk, .refl _ k S⟩
  · rw [hr, hrun]
    refine hstay _ (hk.vacant htracks.represents (fun p hp => Kernel.setProc_of_ne _ hp _) (not_not.mpr hdead) ?_)
    unfold Kernel.Alive
    rw [Kernel.setProc_self]
    exact not_not.mpr rfl
  have hnotalive : ¬k.Alive child := not_not.mpr hdead
  have hne : child ≠ c := by
    rintro rfl
    exact hnotalive (alive_of_runs h)
  have hothers (p : Slot) (hp : p ≠ child) : ((k.housed child i).withMem m.2).procs p = k.procs p := update_of_ne hp ..
  have hparent : (k.housed child i).procs c = k.procs c := update_of_ne hne.symm ..
  rw [hparent, hdwells.cr3] at hm
  rcases hcase with ⟨hzero, hrun⟩ | ⟨hnonzero, hrun⟩
  · rw [hr, hrun]
    have hrep : Represents m0 m.2 S := by
      rcases htracks.represents.cloneDirectory hd htracks.tableHand htracks.pageHand with
        ⟨-, hrep⟩ | ⟨n, -, -, hpos, hlt, -, haddr, -⟩
      · rw [hm]
        exact hrep
      · exact absurd ((hm ▸ haddr).symm.trans hzero) (frameAddr_ne_zero hpos (by omega))
    unfold abandonChild
    rw [run_bind, run_getProc, run_bind, run_modify, run_modifyProc]
    dsimp only
    rw [freeStack_eq _ rfl rfl]
    refine hstay _ (hk.vacant hrep (fun p hp => ?_) hnotalive ?_)
    · exact (Kernel.setProc_of_ne _ hp _).trans (hothers p hp)
    · unfold Kernel.Alive
      rw [Kernel.setProc_self]
      exact not_not.mpr rfl
  · rw [hr, hrun]
    rw [← hdwells.cr3] at hm
    obtain ⟨S', hk', hapart, hchild⟩ := hk.forkInto h hidle hnotalive hothers (congrArg Prod.snd hm)
      (congrArg Prod.fst hm) hnonzero frame
    refine ⟨S', hk', hapart.mono (Set.singleton_subset_iff.mpr hnotalive), fun q hq => ?_⟩
    obtain ⟨rfl, halive, hsees⟩ := hchild q hq
    exact ⟨hnotalive, halive, hsees⟩

/-- **`SYS_FORK`** -/
theorem confined_syscallFork (h : Agrees k c) (hidle : (k.procs c).blockReason ≠ .pipeRead) (frame callerCs : Word) :
    Confined {p | ¬k.Alive p} k (syscallFork callerCs frame k).2 := by
  intro m0 S hk
  unfold syscallFork
  rw [run_ite]
  split
  · exact Confined.refl _ k hk
  rw [run_bind, run_get]
  dsimp only
  rw [h.processGetCurrent]
  dsimp only
  rw [run_bind]
  obtain ⟨S', hk', hapart, -⟩ := hk.processFork h hidle frame
  generalize processFork c frame k = r at hk' hapart ⊢
  obtain ⟨_ | child, k'⟩ := r
  · exact ⟨S', hk', hapart⟩
  · dsimp only
    rw [run_bind, run_onScheduler, run_bind, run_getProc, run_pure]
    dsimp only
    have hadd : SameHomes k' (k'.onScheduler (·.schedulerAdd child)) := .of_rescheduled (Rescheduled.enqueue _ child)
    have halive : SameAlive k' (k'.onScheduler (·.schedulerAdd child)) := fun p =>
      not_congr (iff_of_eq (congrArg (· = ProcessState.dead) (enqueue_kept k'.toScheduler child p).2))
    exact ⟨S', hadd.homes halive hk', hapart.trans (hadd.apart fun p => (halive p).mp)⟩

end AgenticOs
