import AgenticOs.Kernel.ReferenceRuns
import AgenticOs.Memory.CloneUndone

/-!
# A fork that fails

`process_fork` gives back what it has taken, whichever of its steps fails.

* **One entry** (`OnlyEntry`): of the scheduler and the process table only the child's entry has changed.
* **Descriptors** (`processFdCloseAll_shared`): those that the child had inherited are closed again. Each of
  them names something that the parent's names too, so no close is the last one, and nobody is woken
  (`pipeClose_shared`).
* **Memory** (`Memory.CloneUndone`): it is not touched, the clone fails, or the clone is destroyed again; in
  each case every frame has the owners that it had (`Tracks.of_cloneUndone`).
* **The fork** (`processFork_failed`): a fork that fails leaves the table and memory like this (`ForkFailed`).
  The steps are followed backwards: `forkInto` for the descriptors, `abandonChild` for the slot and the stack.
-/

namespace AgenticOs

open Finset Function Lib

variable {k k' : Kernel} {hand : List Object} {o : Object} {child parent p proc : Slot}

/-- Of the scheduler and the process table only one entry has changed. -/
def OnlyEntry (proc : Slot) (k k' : Kernel) : Prop :=
  ∃ q, k'.toScheduler = k.toScheduler.setProc proc fun _ => q

namespace OnlyEntry

/-- The scheduler is left alone. -/
theorem of_scheduler (h : k'.toScheduler = k.toScheduler) : OnlyEntry proc k k' := by
  refine ⟨k.procs proc, h.trans ?_⟩
  unfold Scheduler.setProc
  rw [update_eq_self]

/-- Nothing happened. -/
theorem refl (proc : Slot) (k : Kernel) : OnlyEntry proc k k := of_scheduler rfl

/-- Two steps one after another. -/
theorem trans {k'' : Kernel} (h : OnlyEntry proc k k') (h' : OnlyEntry proc k' k'') : OnlyEntry proc k k'' := by
  obtain ⟨p, hp⟩ := h
  obtain ⟨q, hq⟩ := h'
  refine ⟨q, hq.trans ?_⟩
  rw [hp]
  unfold Scheduler.setProc
  dsimp only
  rw [update_idem]

instance (proc : Slot) : IsPreorder Kernel (OnlyEntry proc) where
  refl := refl proc
  trans _ _ _ := trans

/-- One entry is set. -/
theorem setProc (k : Kernel) (proc : Slot) (f : Process → Process) : OnlyEntry proc k (k.setProc proc f) :=
  ⟨f (k.procs proc), rfl⟩

/-- The other entries. -/
theorem procs (h : OnlyEntry proc k k') (hp : p ≠ proc) : k'.procs p = k.procs p := by
  obtain ⟨q, hq⟩ := h
  rw [hq]
  exact update_of_ne hp ..

/-- The memory. -/
theorem mem (h : OnlyEntry proc k k') : k'.mem = k.mem := by
  obtain ⟨q, hq⟩ := h
  rw [hq]
  rfl

/-- The descriptors of the others are the same. -/
theorem held (h : OnlyEntry proc k k') {s : Slot × Fin processMaxFds} (hs : s.1 ≠ proc) :
    k'.held s = k.held s := by
  unfold Kernel.held
  rw [h.procs hs]

end OnlyEntry

/-! ### Descriptors that are shared -/

/-- An object that two descriptors name counts at least two. -/
theorem Kernel.Counted.two_le (h : k.Counted hand) {s s' : Slot × Fin processMaxFds} (hne : s ≠ s')
    (hs : k.held s = some o.name) (hs' : k.held s' = some o.name) : 2 ≤ k.count o := by
  have htwo : 1 < holders univ k.held o.name := Finset.one_lt_card.mpr
    ⟨s, Finset.mem_filter.mpr ⟨Finset.mem_univ s, hs⟩, s', Finset.mem_filter.mpr ⟨Finset.mem_univ s', hs'⟩,
      hne⟩
  rw [h.exact]
  omega

/-- `pipe_close` of an end that is not the last one wakes nobody. -/
theorem pipeClose_shared {σ : Type} (wake : Pipes → Fin maxPipes → BlockReason → σ → σ) {pipes : Pipes}
    (s : σ) {i : Fin maxPipes} (ho : o = .readEnd i ∨ o = .writeEnd i) (hused : (pipes i).used = true)
    (htwo : 2 ≤ if o = .readEnd i then (pipes i).readers else (pipes i).writers) :
    (pipeClose wake pipes s o.name.2).state = s := by
  have hindex := pipeHandleIndex_end ho hused
  have hisRead := pipeHandleIsRead_end ho
  rcases pipeClose_cases wake pipes s o.name.2 with ⟨-, -, hstate⟩ | ⟨j, r, w, hj, -, hcase, -⟩
  · exact hstate
  obtain rfl : i = j := Option.some.inj (hindex.symm.trans hj)
  rcases hcase with ⟨hread, hr, -, hstate⟩ | ⟨hread, -, hw, hstate⟩
  · rw [hisRead, decide_eq_true_eq] at hread
    rw [if_pos hread] at htwo
    rw [hstate, if_neg (by omega)]
  · rw [hisRead, decide_eq_false_iff_not] at hread
    rw [if_neg hread] at htwo
    rw [hstate, if_neg (by omega)]

/-- Closing a reference that is not the last one leaves the scheduler alone. -/
theorem kernelPipeClose_shared {i : Fin maxPipes} (ho : o = .readEnd i ∨ o = .writeEnd i)
    (h : k.Counted hand) (htwo : 2 ≤ k.count o) :
    (kernelPipeClose o.name.2 k).2.toScheduler = k.toScheduler := by
  have hused : (k.pipes i).used = true := (h.tables.pipe i).mpr (by
    rcases ho with rfl | rfl
    · exact .inl (by omega)
    · exact .inr (by omega))
  have hstate := pipeClose_shared Kernel.processWakePipeWaiter k ho hused (by
    rcases ho with rfl | rfl
    · rwa [if_pos rfl]
    · rwa [if_neg nofun])
  show (pipeClose Kernel.processWakePipeWaiter k.pipes k o.name.2).state.toScheduler = _
  rw [hstate]

/-- A descriptor is closed that names the same as another. -/
theorem processFdClose_shared (h : k.Counted hand) {fd : Fin processMaxFds} {s : Slot × Fin processMaxFds}
    (hne : s ≠ (proc, fd)) (hheld : k.held (proc, fd) = some o.name) (hs : k.held s = some o.name) :
    OnlyEntry proc k (processFdClose proc fd.val k).2 := by
  have hclear := h.clear hheld
  have htwo : 2 ≤ (k.setProc proc (·.setFd fd .unused)).count o := by
    have hcount : (k.setProc proc (·.setFd fd .unused)).count o = k.count o := by cases o <;> rfl
    rw [hcount]
    exact h.two_le hne hs hheld
  unfold processFdClose
  rw [run_bind, run_getProc]
  dsimp only
  rw [fdIndex_val, processFdGet_of_held (fdIndex_val fd) hheld]
  dsimp only
  rw [run_bind, run_modifyProc, run_ite]
  dsimp only
  have hset := OnlyEntry.setProc k proc (·.setFd fd .unused)
  cases o with
  | file i =>
    rw [if_neg (show ¬(Object.file i).name.1.isPipe = true from nofun), run_bind, run_pure]
    exact hset.trans (.of_scheduler rfl)
  | readEnd i =>
    have hpipe := kernelPipeClose_shared (.inl rfl) hclear htwo
    rw [if_pos (show (Object.readEnd i).name.1.isPipe = true from rfl), run_bind, run_pure]
    exact hset.trans (.of_scheduler hpipe)
  | writeEnd i =>
    have hpipe := kernelPipeClose_shared (.inr rfl) hclear htwo
    rw [if_pos (show (Object.writeEnd i).name.1.isPipe = true from rfl), run_bind, run_pure]
    exact hset.trans (.of_scheduler hpipe)

/-- The descriptors of `child` are unused or those of `parent`. -/
def Inherits (k : Kernel) (child parent : Slot) : Prop :=
  ∀ fd, k.held (child, fd) = none ∨ k.held (child, fd) = k.held (parent, fd)

/-- Closing all the descriptors that are shared with the parent. -/
theorem closeLoop_shared (h : k.Counted hand) (hne : parent ≠ child) (hinherits : Inherits k child parent)
    (l : List (Fin processMaxFds)) :
    OnlyEntry child k ((l.forM fun fd => do
      let p ← getProc child
      if (p.fds fd).kind ≠ .none then
        let _ ← processFdClose child fd.val : KernelM Unit) k).2 := by
  induction l generalizing k with
  | nil => exact .refl child k
  | cons fd l ih =>
    rw [run_forM_cons, run_bind, run_getProc, run_ite]
    dsimp only
    split
    · rename_i hkind
      obtain ⟨r, hr⟩ := Option.ne_none_iff_exists'.mp (mt ProcessFd.name_eq_none.mp hkind)
      obtain ⟨o, rfl⟩ := h.named (child, fd) r hr
      have hparent : k.held (parent, fd) = some o.name := by
        rcases hinherits fd with hnone | hsame
        · exact absurd (hnone.symm.trans hr) nofun
        · exact hsame.symm.trans hr
      have hsne : ((parent, fd) : Slot × Fin processMaxFds) ≠ (child, fd) := by simpa using hne
      have hclose := processFdClose_shared h hsne hr hparent
      obtain ⟨hcounted, hclears, -⟩ := counted_processFdClose h child (fd.val : Int)
      refine hclose.trans (ih hcounted fun fd' => ?_)
      rcases hclears.held (child, fd') with hsame | ⟨-, hnone⟩
      · rw [hsame, hclose.held (s := (parent, fd')) hne]
        exact hinherits fd'
      · exact .inl hnone
    · exact ih h hinherits

/-- The child gives its copies of the descriptors back. -/
theorem processFdCloseAll_shared (h : k.Counted hand) (hne : parent ≠ child)
    (hinherits : Inherits k child parent) : OnlyEntry child k (processFdCloseAll child k).2 := by
  unfold processFdCloseAll
  exact closeLoop_shared h hne hinherits _

/-- `process_fd_inherit` changes the child only, also when it fails. -/
theorem inheritFds_onlyEntry (h : k.Counted hand) (hne : parent ≠ child)
    (hlives : (k.procs child).state ≠ .dead) (hinherits : Inherits k child parent)
    (l : List (Fin processMaxFds)) (hl : l.Nodup) (hunused : ∀ fd ∈ l, k.held (child, fd) = none) :
    OnlyEntry child k (inheritFds child parent l k).2 := by
  induction l generalizing k with
  | nil => exact .refl child k
  | cons fd l ih =>
    obtain ⟨hfd, hl⟩ := List.nodup_cons.mp hl
    unfold inheritFds
    rw [run_bind, run_getProc, run_ite]
    dsimp only
    split
    · exact ih h hlives hinherits hl fun i hi => hunused i (List.mem_cons_of_mem _ hi)
    rename_i hkind
    have hheld : k.held (parent, fd) =
        some (((k.procs parent).fds fd).kind, ((k.procs parent).fds fd).handle) := if_neg hkind
    obtain ⟨o, ho⟩ := h.named _ _ hheld
    have hpos : 0 < k.count o := h.pos_of_held (hheld.trans (congrArg some ho))
    have hname : ((k.procs parent).fds fd).name = some o.name := ProcessFd.name_eq_some.mpr ho
    have hkind' : ((k.procs parent).fds fd).kind = o.name.1 := congrArg Prod.fst ho
    have hhandle : ((k.procs parent).fds fd).handle = o.name.2 := congrArg Prod.snd ho
    have hretain : (retainFd o.name.1 o.name.2 k).2.toScheduler = k.toScheduler := by
      unfold retainFd
      rw [run_ite]
      split <;> rfl
    rw [hkind', hhandle, run_bind]
    rcases counted_retainFd h hpos with ⟨hfail, hk⟩ | ⟨hok, hfds, hcounted⟩
    · rw [hfail, hk, run_ite, if_pos (by decide), run_bind, run_pure]
      dsimp only
      exact processFdCloseAll_shared h hne hinherits
    · rw [hok, run_ite, if_neg (by decide), run_bind, run_modifyProc]
      dsimp only
      generalize (retainFd o.name.1 o.name.2 k).2 = k₁ at hretain hfds hcounted
      have hunused₁ : k₁.held (child, fd) = none := by
        rw [hfds.held]
        exact hunused fd List.mem_cons_self
      have hlives₁ : (k₁.procs child).state ≠ .dead := fun hd => hlives (hfds.dead _ hd)
      have hinstall := hcounted.install hunused₁ hname hlives₁
      have hlives₂ : ((k₁.setProc child (·.setFd fd ((k.procs parent).fds fd))).procs child).state ≠ .dead := by
        rw [Kernel.state_setFd]
        exact hlives₁
      have hset : OnlyEntry child k (k₁.setProc child (·.setFd fd ((k.procs parent).fds fd))) :=
        (OnlyEntry.of_scheduler hretain).trans (.setProc k₁ child _)
      refine hset.trans (ih hinstall hlives₂ (fun fd' => ?_) hl fun i hi => ?_)
      · rw [hset.held (s := (parent, fd')) hne, k₁.held_setFd]
        by_cases hfd' : fd' = fd
        · rw [hfd', update_self]
          exact .inr rfl
        · rw [update_of_ne (by simpa using hfd'), hfds.held]
          exact hinherits fd'
      · have hi' : i ≠ fd := by
          rintro rfl
          exact hfd hi
        rw [k₁.held_setFd, update_of_ne (by simpa using hi'), hfds.held]
        exact hunused i (List.mem_cons_of_mem _ hi)

/-! ### The fork -/

/-- What becomes of memory when a fork fails: it is not touched, its clone fails, or its clone is
destroyed again. -/
inductive Memory.CloneUndone (m : Memory) (srcCr3 : Word) : Memory → Prop
  | untouched : CloneUndone m srcCr3 m
  | failed (h : (m.pagingCloneDirectory srcCr3).1 = 0) : CloneUndone m srcCr3 (m.pagingCloneDirectory srcCr3).2
  | destroyed (h : (m.pagingCloneDirectory srcCr3).1 ≠ 0) : CloneUndone m srcCr3
      ((m.pagingCloneDirectory srcCr3).2.pagingDestroyAddressSpace (m.pagingCloneDirectory srcCr3).1)

/-- A clone that is undone leaves every frame with its owners, and the entries of the source as they
were or copy-on-write. -/
theorem Tracks.of_cloneUndone {m0 m m' : Memory} {live : Finset Nat} {S : Spaces} {d : Nat}
    (h : Tracks m0 ⟨m, live⟩ S) (hd : d ∈ live) (hundone : m.CloneUndone (frameAddr d) m') :
    ∃ S', Tracks m0 ⟨m', live⟩ S' ∧ S'.held = S.held ∧ S'.content = S.content ∧
      ∀ i j, S'.entry d i j = S.entry d i j ∨ S'.entry d i j = (S.entry d i j).map shareCow := by
  have hdS : d ∈ S.live := h.live ▸ hd
  have hclone := h.represents.cloneDirectory hdS h.tableHand h.pageHand
  cases hundone with
  | untouched => exact ⟨S, h, rfl, rfl, fun _ _ => .inl rfl⟩
  | failed hzero =>
    rcases hclone with ⟨-, hrep⟩ | ⟨n, table, -, hpos, hlt, -, haddr, -⟩
    · exact ⟨S, h.same hrep, rfl, rfl, fun _ _ => .inl rfl⟩
    · exact absurd (haddr.symm.trans hzero) (frameAddr_ne_zero hpos (by omega))
  | destroyed hsome =>
    rcases hclone with ⟨hzero, -⟩ | ⟨n, table, hn, hpos, hlt, htable, haddr, hrep⟩
    · exact absurd hzero hsome
    have hnlive : n ∉ live := fun hc => hn (h.live ▸ hc)
    have hne : d ≠ n := fun hc => hn (hc ▸ hdS)
    -- the clone is not loaded: its directory was free
    have hkernel := hrep.held_ne_kernel (Represents.held_dir (Finset.mem_insert_self n S.live))
    have hactive : (m.pagingCloneDirectory (frameAddr d)).2.activePageDirectory ≠ frameAddr n := by
      rw [Memory.pagingCloneDirectory_active]
      exact h.represents.active_ne hlt hn hkernel
    have htracks := (h.cloned hrep).destroyed (Finset.mem_insert_self n live) hactive
    have hheld := Spaces.held_clone_destroy (s := d) h.represents.books.wellFormed hn htable
    rw [show (insert n live).erase n = live from Finset.erase_insert hnlive] at htracks
    rw [haddr]
    refine ⟨(S.clone d n table).destroy n, htracks, hheld, rfl, fun i j => .inr ?_⟩
    rw [Spaces.destroy_entry, if_neg hne]
    exact if_pos (.inl rfl)

/-- What a fork of `parent` that fails leaves of the process table and of memory. -/
structure ForkFailed (parent : Slot) (k k' : Kernel) : Prop where
  alive : ∀ p, k.Alive p → k'.procs p = k.procs p
  free : ∀ p, ¬k.Alive p → (k'.procs p).state = .dead ∧ (k'.procs p = k.procs p ∨ (k'.procs p).pid = 0)
  bitmap : k'.stackFreeBitmap = k.stackFreeBitmap
  count : k'.processCount = k.processCount
  memory : k.mem.CloneUndone (k.procs parent).cr3 k'.mem

namespace ForkFailed

/-- Nothing has been done. -/
theorem refl (parent : Slot) (k : Kernel) : ForkFailed parent k k :=
  ⟨fun _ _ => rfl, fun _ hp => ⟨not_not.mp hp, .inl rfl⟩, rfl, rfl, .untouched⟩

/-- A slot that was free is free again. -/
theorem of_slot (hdead : (k.procs child).state = .dead) (hprocs : ∀ p, p ≠ child → k'.procs p = k.procs p)
    (hzero : (k'.procs child).state = .dead ∧ (k'.procs child).pid = 0)
    (hstacks : k'.stackFreeBitmap = k.stackFreeBitmap) (hcount : k'.processCount = k.processCount)
    (hmem : k.mem.CloneUndone (k.procs parent).cr3 k'.mem) : ForkFailed parent k k' where
  alive := by
    intro p hp
    refine hprocs p ?_
    rintro rfl
    exact hp hdead
  free := by
    intro p hp
    by_cases hpc : p = child
    · rw [hpc]
      exact ⟨hzero.1, .inr hzero.2⟩
    · rw [hprocs p hpc]
      exact ⟨not_not.mp hp, .inl rfl⟩
  bitmap := hstacks
  count := hcount
  memory := hmem

/-- The slot and the stack are given back. -/
theorem abandonChild {i : Fin stackSlots} (hpool : StackPool k.stackPool)
    (hdead : (k.procs child).state = .dead) (hhold : HoldsStack k k' child i)
    (hprocs : ∀ p, p ≠ child → k'.procs p = k.procs p)
    (hmem : k.mem.CloneUndone (k.procs parent).cr3 k'.mem) :
    ForkFailed parent k (AgenticOs.abandonChild child k').2 := by
  obtain ⟨-, hafter⟩ := hhold.abandonChild hpool (Process.entry_eq_none.mpr hdead)
  obtain ⟨-, hstacks, hcount, -⟩ := ledger_eq.mp hafter
  have hfree (stack : Word) : (k'.freeStack stack).procs = k'.procs ∧ (k'.freeStack stack).mem = k'.mem := by
    unfold Kernel.freeStack
    split
    · exact ⟨rfl, rfl⟩
    · dsimp only
      split <;> exact ⟨rfl, rfl⟩
  refine of_slot hdead (fun p hp => ?_) ?_ hstacks hcount ?_
  · show update (k'.freeStack _).procs child Process.zero p = _
    rw [update_of_ne hp, (hfree _).1]
    exact hprocs p hp
  · show (update (k'.freeStack _).procs child Process.zero child).state = .dead ∧
      (update (k'.freeStack _).procs child Process.zero child).pid = 0
    rw [update_self]
    exact ⟨rfl, rfl⟩
  · show k.mem.CloneUndone _ (k'.freeStack _).mem
    rw [(hfree _).2]
    exact hmem

end ForkFailed

/-- A slot that was free has no descriptor, with a stack or without. -/
theorem balanced_housed (h : Balanced k) (hdead : (k.procs child).state = .dead) (i : Fin stackSlots)
    (m : Memory) :
    Balanced ((k.housed child i).withMem m) ∧ ∀ fd, ((k.housed child i).withMem m).held (child, fd) = none := by
  have hvacant : Balanced (k.setProc child fun _ =>
      { Process.zero.processFdTableInit with kernelStack := k.stackBase i }) :=
    h.vacant (h.dead child hdead) fun _ => rfl
  refine ⟨hvacant.same (.of_procs rfl rfl rfl), fun fd => ?_⟩
  show ((update k.procs child _ child).fds fd).name = none
  rw [update_self]
  rfl

namespace ForkFailed

/-- The last step of a fork fails: the descriptors of the parent cannot be inherited. -/
theorem forkInto {i : Fin stackSlots} {r : Word × Memory} {parentFrame : Word} (h : Balanced k)
    (hpool : StackPool k.stackPool) (hdead : (k.procs child).state = .dead) (hne : parent ≠ child)
    (hbit : k.stackFreeBitmap i = true) (hr : r = k.mem.pagingCloneDirectory (k.procs parent).cr3)
    (hclone : r.1 ≠ 0)
    (hfail : (AgenticOs.forkInto child parent parentFrame r.1 ((k.housed child i).withMem r.2)).1 = none) :
    ForkFailed parent k
      (AgenticOs.forkInto child parent parentFrame r.1 ((k.housed child i).withMem r.2)).2 := by
  obtain ⟨hbalanced, hnone⟩ := balanced_housed h hdead i r.2
  have hhold := HoldsStack.housed hbit child r.2
  have hprocs (p : Slot) (hp : p ≠ child) : ((k.housed child i).withMem r.2).procs p = k.procs p :=
    update_of_ne hp ..
  have hmem : ((k.housed child i).withMem r.2).mem = r.2 := rfl
  generalize (k.housed child i).withMem r.2 = k₀ at hbalanced hnone hhold hprocs hmem hfail ⊢
  unfold AgenticOs.forkInto at hfail ⊢
  rw [run_bind, run_getProc, run_bind, run_modify, run_bind, run_getProc, run_bind, run_takePid,
    run_bind, run_modifyProc, run_bind] at hfail ⊢
  dsimp only at hfail ⊢
  -- the child has its frame, its pid and its fields
  generalize hk₁ : ({ k₀.setFrame _ _ with nextPid := _ } : Kernel) = k₁ at hfail ⊢
  generalize ((k₀.setFrame _ _).procs parent) = q at hfail ⊢
  generalize (k₀.setFrame _ _).nextPid = pid at hfail ⊢
  generalize (k₀.procs child).kernelStack + BitVec.ofNat 32 (kernelStackSize - frameBytes) = childFrame
    at hfail ⊢
  obtain ⟨hsame, hscheduler, hledger⟩ : SameRefs k₀ k₁ ∧ k₁.toScheduler = k₀.toScheduler ∧
      k₁.ledger = (k₀.stackPool, k₀.stackFreeBitmap, k₀.processCount, k₁.nextPid) := by
    subst hk₁
    exact ⟨.of_procs rfl rfl rfl, rfl, rfl⟩
  have hforked : SameRefs k₁ (k₁.setProc child (·.forked q pid childFrame r.1)) := .setProc rfl nofun
  have hentry : OnlyEntry child k₀ (k₁.setProc child (·.forked q pid childFrame r.1)) :=
    (OnlyEntry.of_scheduler hscheduler).trans (.setProc k₁ child _)
  have hhold₂ : HoldsStack k (k₁.setProc child (·.forked q pid childFrame r.1)) child i := by
    refine ⟨hbit, fun p hp => ?_, ?_, ?_⟩
    · show Process.entry _ = Process.entry _
      rw [hentry.procs hp, hprocs p hp]
    · rw [Kernel.setProc_self, ← hhold.stack, ← hscheduler]
      rfl
    · obtain ⟨h1, h2, h3, -⟩ := ledger_eq.mp hhold.ledger
      show k₁.ledger = _
      rw [hledger, h1, h2, h3]
      rfl
  have hlives : ((k₁.setProc child (·.forked q pid childFrame r.1)).procs child).state ≠ .dead := by
    rw [Kernel.setProc_self]
    nofun
  have hmem₂ : (k₁.setProc child (·.forked q pid childFrame r.1)).mem = r.2 := hentry.mem.trans hmem
  generalize k₁.setProc child (·.forked q pid childFrame r.1) = k₂ at hforked hentry hhold₂ hlives hmem₂ hfail ⊢
  have hbalanced₂ : Balanced k₂ := hbalanced.same (hsame.trans hforked)
  have hnone₂ (fd : Fin processMaxFds) : k₂.held (child, fd) = none := by
    rw [(hsame.trans hforked).held, hnone]
  have hinherit : OnlyEntry child k₂ (processFdInherit child parent k₂).2 :=
    inheritFds_onlyEntry hbalanced₂ hne hlives (fun fd => .inl (hnone₂ fd)) _ (List.nodup_finRange _)
      fun fd _ => hnone₂ fd
  have hquiet : Quiet k₂ (processFdInherit child parent k₂).2 :=
    quiet_inheritFds child parent (List.finRange processMaxFds) k₂
  generalize processFdInherit child parent k₂ = answer at hinherit hquiet hfail ⊢
  rw [run_ite] at hfail ⊢
  split at hfail
  · rename_i hstatus
    rw [if_pos hstatus, run_bind, run_onMemory, run_bind, run_pure]
    dsimp only
    have hhold₃ : HoldsStack k (answer.2.withMem (answer.2.mem.pagingDestroyAddressSpace r.1)) child i :=
      (hhold₂.trans hquiet.sameTable (hquiet.kept child).kernelStack).trans ⟨rfl, rfl⟩ rfl
    refine ForkFailed.abandonChild hpool hdead hhold₃ (fun p hp => ?_) ?_
    · exact (hinherit.procs hp).trans ((hentry.procs hp).trans (hprocs p hp))
    · show k.mem.CloneUndone _ (answer.2.mem.pagingDestroyAddressSpace r.1)
      rw [hinherit.mem, hmem₂, hr]
      exact .destroyed (hr ▸ hclone)
  · rw [run_bind, run_modifyProc, run_bind, run_setProcessCount, run_pure] at hfail
    cases hfail

end ForkFailed

/-- A fork that fails gives back what it has taken. -/
theorem processFork_failed {parentFrame : Word} (h : Balanced k) (hpool : StackPool k.stackPool)
    (hparent : k.Alive parent) (hfail : (processFork parent parentFrame k).1 = none) :
    ForkFailed parent k (processFork parent parentFrame k).2 := by
  rcases processFork_cases hpool parent parentFrame with
    hrun | ⟨child, hdead, hrun | ⟨i, r, hbit, hr, hcase⟩⟩
  · rw [hrun]
    exact .refl parent k
  · rw [hrun]
    refine .of_slot hdead (fun p hp => k.setProc_of_ne hp _) ?_ rfl rfl .untouched
    rw [Kernel.setProc_self]
    exact ⟨rfl, rfl⟩
  have hne : parent ≠ child := by
    rintro rfl
    exact hparent hdead
  have hcr3 : (k.housed child i).procs parent = k.procs parent := update_of_ne hne ..
  rw [hcr3] at hr
  rcases hcase with ⟨hzero, hrun⟩ | ⟨hclone, hrun⟩
  · rw [hrun]
    refine .abandonChild hpool hdead (.housed hbit child r.2) (fun p hp => update_of_ne hp ..) ?_
    show k.mem.CloneUndone _ r.2
    rw [hr]
    exact .failed (hr ▸ hzero)
  · rw [hrun] at hfail ⊢
    exact .forkInto h hpool hdead hne hbit hr hclone hfail

end AgenticOs
