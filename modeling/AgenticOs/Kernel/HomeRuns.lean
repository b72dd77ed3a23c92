import AgenticOs.Kernel.ForkUndone
import AgenticOs.Kernel.HomeTraps

/-!
# Runs from home to home

In every state of a run everybody has a home.

* **Runs** (`Settled`): the machine boots with one process in an address space of its own, and every trap
  pushes what a processor pushes (`Event.Genuine`).
* **Steps** (`Peopled.step`): a step of the machine moves at most the process that runs, the one that runs
  after it, and a child that is born (`Moved`). The three kinds of step are a trap, a store where the program
  may (`confined_store`), and a key.
* **Main result** (`Settled.peopled`): the process that runs is the current one, everybody has a home, and the
  process that runs waits for no pipe (`Peopled`).

The last part is a run of a machine: a page is written, a pipe is opened, a child is forked
(`settled_couple`), the child reads and blocks (`settled_reading`), a second child is born, and the first
process writes the page that all three share (`settled_rewritten`). Later files use these states as witnesses.
-/

namespace AgenticOs

open Function Finset Lib

variable {m0 : Memory} {k k' k'' : Kernel} {S S' : Spaces} {A : Set Slot} {c n p : Slot} {d : Nat} {event : Event}

/-! ### Runs -/

/-- What a trap pushes is what the processor pushes. -/
def Event.Genuine (k : Kernel) : Event → Prop
  | .trap t => t.Genuine k
  | .store _ _ => True
  | .key _ => True

/-- The states of a machine whose first process has an address space of its own. -/
inductive Settled : Kernel → Prop
  | boot {k : Kernel} {d : Nat} (h : Boot k) (hspaces : AddressSpaces k.mem {d})
      (hcr3 : ∀ p, k.Alive p → (k.procs p).cr3 = frameAddr d) : Settled k
  | step {k k' : Kernel} {event : Event} (h : Settled k) (hgenuine : event.Genuine k)
      (hstep : Step k event k') : Settled k'

/-- The process `c` runs, everybody has a home, and `c` waits for no pipe. -/
structure Peopled (m0 : Memory) (k : Kernel) (S : Spaces) (c : Slot) : Prop where
  agrees : Agrees k c
  homes : Homes m0 k S
  idle : (k.procs c).blockReason ≠ .pipeRead

/-! ### Boot -/

/-- A new process waits for nothing, and its heap is empty. -/
theorem createProcess_fresh {interruptFrame : Bool} {words : Nat} {proc : Slot}
    (h : (createProcess interruptFrame words k).1 = some proc) :
    let p := (createProcess interruptFrame words k).2.procs proc
    p.blockReason = .none ∧ p.heapStart = processHeapStart ∧ p.heapEnd = processHeapStart := by
  unfold createProcess at h ⊢
  rw [run_bind, run_get, run_ite] at h ⊢
  dsimp only at h ⊢
  split at h
  · cases h
  rename_i hcount
  rw [if_neg hcount]
  rcases hdead : k.findDead with _ | q
  · rw [hdead] at h
    cases h
  rw [hdead] at h
  dsimp only at h ⊢
  rw [run_bind, run_takePid, run_bind, run_modifyProc, run_bind, run_callAllocateStack, run_ite] at h ⊢
  dsimp only at h ⊢
  split at h
  · rw [run_bind, run_modifyProc, run_pure] at h
    cases h
  rename_i hstack
  rw [if_neg hstack]
  rw [run_bind, run_modifyProc, run_bind, run_setProcessCount, run_pure] at h ⊢
  obtain rfl := Option.some.inj h
  have hkept (k : Kernel) : k.allocateStack.2.procs = k.procs := by
    rcases allocateStack_cases k with ⟨hnone, -⟩ | ⟨i, -, hsome⟩
    · rw [hnone]
    · rw [hsome]
  dsimp only
  rw [Kernel.setProc_self, hkept, Kernel.setProc_self]
  exact ⟨rfl, rfl, rfl⟩

/-- What a boot does to the table: the first process gets its address space and runs. -/
theorem Kernel.booted_procs (k : Kernel) (proc : Slot) (cr3 : Word) (preemption : Bool) :
    (k.booted proc cr3 preemption).procs = update k.procs proc { k.procs proc with cr3 := cr3, state := .running } := by
  show update (update k.procs proc { k.procs proc with cr3 := cr3 }) proc
    { update k.procs proc { k.procs proc with cr3 := cr3 } proc with state := .running } = _
  rw [update_idem, update_self]

/-- The machine boots with one process. -/
theorem Boot.first (h : Boot k) : ∃ c, Agrees k c ∧ (∀ p, k.Alive p → p = c) ∧
    (k.procs c).blockReason = .none ∧ (k.procs c).heapStart = processHeapStart ∧
      (k.procs c).heapEnd = processHeapStart := by
  obtain ⟨k₀, create, proc, cr3, preemption, hpool, -, -, hcr3, hkind, hcreate⟩ := h
  obtain ⟨interruptFrame, words, rfl⟩ : ∃ b w, create = createProcess b w := by
    rcases hkind with rfl | rfl
    · exact ⟨_, _, rfl⟩
    · exact ⟨_, _, rfl⟩
  obtain ⟨p, hstack, hsignals, hscheduler, hpool'⟩ := createProcess_some
    (k := (processInit k₀).onScheduler (·.schedulerInit)) hpool hcreate
  have hfresh := createProcess_fresh hcreate
  generalize (createProcess interruptFrame words _).2 = k₁ at hscheduler hpool' hfresh
  have hprocs : k₁.procs = update (fun _ => Process.zero) proc p := by
    rw [hscheduler]
    rfl
  have hstack' : p.kernelStack ∈ Set.range k₁.stackBase := by
    obtain ⟨i, hi⟩ := hstack
    refine ⟨i, hi ▸ ?_⟩
    unfold Kernel.stackBase
    rw [hpool']
  have hqueue : k₁.readyQueue = [] := by
    rw [hscheduler]
    rfl
  have hagrees := (booted_agrees preemption (hpool' ▸ hpool) hstack' hsignals hcr3 hqueue hprocs).1
  refine ⟨proc, hagrees, fun q hq => ?_, ?_⟩
  · by_contra hne
    rw [Kernel.Alive, Kernel.booted_procs, update_of_ne hne, hprocs, update_of_ne hne] at hq
    exact hq rfl
  · rw [Kernel.booted_procs, update_self]
    exact hfresh

/-- The first process has a home. -/
theorem Boot.peopled (h : Boot k) (hspaces : AddressSpaces k.mem {d})
    (hcr3 : ∀ p, k.Alive p → (k.procs p).cr3 = frameAddr d) : ∃ m0 S c, Peopled m0 k S c := by
  obtain ⟨c, hagrees, hfirst, hreason, hstart, hend⟩ := h.first
  obtain ⟨m0, S, htracks⟩ := hspaces
  have hc : k.Alive c := Homes.alive_of_runs hagrees
  have hlive : S.live = {d} := htracks.live
  have hidle : (k.procs c).blockReason ≠ .pipeRead := by
    rw [hreason]
    decide
  refine ⟨m0, S, c, hagrees, ⟨?_, fun p hp => ?_, fun p q hp hq _ => (hfirst p hp).trans (hfirst q hq).symm,
    fun d' hd' => ?_⟩, hidle⟩
  · rw [hlive]
    exact htracks.load (.inl rfl)
  · obtain rfl := hfirst p hp
    refine ⟨d, hlive ▸ mem_singleton_self d, ⟨hcr3 p hp, ?_, ?_⟩, fun hwait => absurd hwait hidle⟩
    · rw [hstart]
      exact BitVec.le_refl _
    · rw [hend]
      decide
  · rw [hlive, mem_singleton] at hd'
    rw [hd']
    exact ⟨c, hc, hcr3 c hc⟩

/-! ### Steps -/

/-- The process that is resumed has nothing left to read from a pipe. -/
theorem processCompletePipeIo_idle (k : Kernel) :
    ((processCompletePipeIo c k).2.procs c).blockReason ≠ .pipeRead := by
  unfold processCompletePipeIo
  rw [run_bind, run_getProc, run_ite]
  dsimp only
  split
  · rw [run_bind, run_bind, run_modifyProc, Kernel.setProc_self]
    exact BlockReason.noConfusion
  · rename_i hwait
    rw [not_or] at hwait
    exact hwait.1

/-- The home of one process is the same. -/
def SameHomeOf (c : Slot) (k k' : Kernel) : Prop := (k.procs c).SameHome (k'.procs c)

instance (c : Slot) : IsPreorder Kernel (SameHomeOf c) where
  refl k := .refl (k.procs c)
  trans _ _ _ h h' := Process.SameHome.trans h h'

/-- The destruction of another process leaves a process where it lives. -/
theorem sameHomeOf_processDestroy {proc : Slot} (hne : proc ≠ c) (k : Kernel) :
    SameHomeOf c k (processDestroy proc k).2 := by
  unfold processDestroy
  rw [run_bind, run_getProc, run_ite]
  split
  · exact refl_of (SameHomeOf c) k
  have hclose := (sameHomes_processFdCloseAll proc k).home c
  rw [run_bind]
  generalize (processFdCloseAll proc k).2 = k₁ at hclose
  rw [run_bind, run_onMemory, run_bind, run_modify, run_bind, run_modifyProc, run_setProcessCount]
  dsimp only
  rw [freeStack_eq _ rfl rfl]
  have hother := k₁.setProc_of_ne (Ne.symm hne) Process.destroyed
  refine hclose.trans ?_
  show (k₁.procs c).SameHome ((k₁.setProc proc Process.destroyed).procs c)
  rw [hother]
  exact .refl _

/-- So does the destruction of all zombies. -/
theorem sameHomeOf_reapZombies (n : Slot) : Rel (SameHomeOf n) (reapZombies (some n)) := by
  refine Rel.forM fun proc _ k => ?_
  rw [run_bind, run_get, run_ite]
  split
  · rename_i hreap
    exact sameHomeOf_processDestroy (fun heq => hreap.1 (congrArg some heq)) k
  · exact refl_of (SameHomeOf n) k

/-- `process_complete_context_switch` for the process that runs: its wait, its pipe, and then the zombies. -/
theorem processCompleteContextSwitch_eq (h : Agrees k n) : processCompleteContextSwitch k =
    reapZombies (some n) (processCompletePipeIo n (processCompleteWait n k).2).2 := by
  unfold processCompleteContextSwitch
  rw [run_bind, run_get, h.processGetCurrent]
  dsimp only
  rw [run_bind, run_bind]

/-- `process_complete_context_switch` moves nobody but the process that runs. -/
theorem confined_processCompleteContextSwitch (h : Agrees k n) :
    Confined {n} k (processCompleteContextSwitch k).2 := by
  have hwait := worksFor_processCompleteWait (c := n) n k
  have hpipe := worksFor_processCompletePipeIo (c := n) (processCompleteWait n k).2
  have h₁ := (hwait.quiet.serves n h).agrees
  have h₂ := (hpipe.quiet.serves n h₁).agrees
  rw [processCompleteContextSwitch_eq h]
  exact (hwait.confined h).trans ((hpipe.confined h₁).trans (confines_reapZombies n _ h₂).2)

/-- A process that runs waits for no pipe when it goes on. -/
theorem idle_processCompleteContextSwitch (h : Agrees k n) :
    ((processCompleteContextSwitch k).2.procs n).blockReason ≠ .pipeRead := by
  rw [processCompleteContextSwitch_eq h]
  have hidle := processCompletePipeIo_idle (c := n) (processCompleteWait n k).2
  generalize (processCompletePipeIo n (processCompleteWait n k).2).2 = k₁ at hidle
  have hreap := sameHomeOf_reapZombies n k₁
  exact fun hwait => hidle (hreap.buffer hwait).1

/-- Whom a step moves: the process that runs, the one that runs then, and a child that is born. -/
def Moved (k : Kernel) (c n : Slot) : Set Slot := {p | p = c ∨ p = n ∨ ¬k.Alive p}

/-- The program stores a byte where it may. -/
theorem confined_store (h : Agrees k c) {address : Word} (b : Byte)
    (hwritable : k.mem.isUserWritable k.mem.activePageDirectory address = true) :
    Confined {c} k (k.withMem (k.mem.storeByte address b)) := by
  intro m0 S hk
  obtain ⟨d, hd, hdwells, hactive, htracks⟩ := hk.loaded h
  rw [hactive] at hwritable
  have hslot : S.Writable d (pageSlot address) := by
    rcases he : S.entry d (dirIndex address) (tableIndex address) with _ | e
    · rw [(htracks.represents.translate_none hd he).2] at hwritable
      cases hwritable
    · rw [(htracks.represents.translate (htracks.user d _ _ e he) he).2.1] at hwritable
      exact ⟨e, he, hwritable⟩
  have hfirst : ∀ i < [b].length, S.Writable d (pageSlot (address + BitVec.ofNat 32 i)) := by
    intro i hi
    obtain rfl : i = 0 := Nat.lt_one_iff.mp hi
    rw [BitVec.add_zero]
    exact hslot
  obtain ⟨S', hprepares⟩ := htracks.prepares_storeBytes hactive address [b] hfirst
  have hbyte : k.mem.storeBytes address [b] = k.mem.storeByte address b := rfl
  rw [hbyte] at hprepares
  exact ⟨S', hk.prepared h hd hdwells hprepares⟩

/-- A step of the machine. -/
theorem Peopled.step (h : Peopled m0 k S c) (hgenuine : event.Genuine k) (hstep : Step k event k') :
    ∃ n S', Peopled m0 k' S' n ∧ Apart (Moved k c n) k k' S S' := by
  cases hstep with
  | trap fuel trap frameEsp hring hhandle hesp =>
    obtain ⟨n, hn, -⟩ := (handled_trap h.agrees hring hhandle).resumes.resolve_left hesp
    obtain ⟨S₁, hk₁, hapart₁⟩ := confined_trap h.agrees h.idle hring hgenuine hhandle hesp h.homes
    obtain ⟨S₂, hk₂, hapart₂⟩ := confined_processCompleteContextSwitch hn hk₁
    have hagrees := (serves_processCompleteContextSwitch n hn).agrees
    refine ⟨n, S₂, ⟨hagrees, hk₂, idle_processCompleteContextSwitch hn⟩, .trans (hapart₁.mono ?_) (hapart₂.mono ?_)⟩
    · exact fun p hp => hp.imp_right .inr
    · exact fun p hp => .inr (.inl hp)
  | store address b hwritable =>
    obtain ⟨S', hk', hapart⟩ := confined_store h.agrees b hwritable h.homes
    exact ⟨c, S', ⟨((quiet_store k address b).serves c h.agrees).agrees, hk', h.idle⟩, hapart.mono fun p hp => .inl hp⟩
  | key b =>
    have hsame : SameHomes k { k with keyBuffer := k.keyBuffer ++ [b] } := .of_same rfl rfl
    obtain ⟨S', hk', hapart⟩ := Confined.of_same (A := Moved k c c) hsame (fun _ => Iff.rfl) h.homes
    exact ⟨c, S', ⟨((quiet_key k b).serves c h.agrees).agrees, hk', h.idle⟩, hapart⟩

/-- In every state of a run, everybody has a home. -/
theorem Settled.peopled (h : Settled k) : ∃ m0 S c, Peopled m0 k S c := by
  induction h with
  | boot h hspaces hcr3 => exact h.peopled hspaces hcr3
  | step _ hgenuine hstep ih =>
    obtain ⟨m0, S, c, hpeopled⟩ := ih
    obtain ⟨n, S', hpeopled', -⟩ := hpeopled.step hgenuine hstep
    exact ⟨m0, S', n, hpeopled'⟩

/-- What a genuine step of the machine leads to. -/
def Moves (k k' : Kernel) : Prop := ∃ event, event.Genuine k ∧ Step k event k'

/-- Genuine steps lead from settled states to settled ones. -/
theorem Settled.run (h : Settled k) (hrun : Relation.ReflTransGen Moves k k') : Settled k' := by
  induction hrun with
  | refl => exact h
  | tail _ hmove ih =>
    obtain ⟨event, hgenuine, hstep⟩ := hmove
    exact ih.step hgenuine hstep

/-- And everybody keeps having a home. -/
theorem Peopled.run (h : Peopled m0 k S c) (hrun : Relation.ReflTransGen Moves k k') :
    ∃ S' n, Peopled m0 k' S' n := by
  induction hrun with
  | refl => exact ⟨S, c, h⟩
  | tail _ hmove ih =>
    obtain ⟨S', n, hpeopled⟩ := ih
    obtain ⟨event, hgenuine, hstep⟩ := hmove
    obtain ⟨n', S'', hpeopled', -⟩ := hpeopled.step hgenuine hstep
    exact ⟨S'', n', hpeopled'⟩

/-! ### A machine with two processes -/

/-- The first `n` frames are in use, and each of them once. -/
theorem FrameState.Counted.below {s : FrameState} {n : Nat} (hn : n ≤ s.totalFrames)
    (htotal : s.totalFrames ≤ maxFrames)
    (hbitmap : s.frameBitmap = fun f => decide (f < n)) (hrefs : s.frameRefcounts = fun f => if f < n then 1 else 0)
    (hused : s.usedFrames = n) : s.Counted := by
  refine ⟨htotal, ?_, fun f _ => ?_, fun f => ?_⟩
  · have hrange : (range s.totalFrames).filter (fun f => s.inUse f = some ()) = range n := by
      ext f
      rw [mem_filter, mem_range, mem_range]
      unfold FrameState.inUse
      rw [hbitmap]
      by_cases hf : f < n
      · simp only [hf, decide_true, if_true, and_true, iff_true]
        omega
      · simp [hf]
    rw [hused]
    unfold holders
    rw [hrange, card_range]
  · rw [hbitmap, hrefs]
    by_cases hf : f < n <;> simp [hf]
  · rw [hrefs]
    dsimp only
    split <;> decide

/-- The memory of the machine before its first address space is one that a kernel has booted. -/
theorem Memory.booted_vacant : Booted vacant := by
  have habsent (e : Word) (he : e = 0) : isPresent e ≠ true := by
    rw [he]
    decide
  refine ⟨FrameState.Counted.below (n := 768) (by decide) (by decide) rfl rfl rfl, rfl, rfl,
    fun i hp => absurd hp (habsent _ rfl), ?_, fun _ => ⟨?_, by decide⟩⟩
  · rintro t ⟨i, -, hp, -⟩
    exact absurd hp (habsent _ rfl)
  · exact fun hpool => absurd hpool.2.2 (by decide)

/-- One address space without a page. -/
def Spaces.bare : Spaces := { Spaces.empty with live := {768} }

/-- It stores one address space once the first process has its directory. -/
theorem Memory.tracks_leased : Tracks vacant ⟨Memory.leased, {768}⟩ .bare := by
  have hpool {f : Nat} (hf : Pool vacant.frames f) : 768 ≤ f := by
    have := hf.2.2
    have hbit : decide (f < 768) = false := this
    simpa using hbit
  have hheld (o : Owner) (f : Nat) : Spaces.bare.held o = some f ↔ o = .dir 768 ∧ f = 768 := by
    cases o with
    | dir d =>
      unfold Spaces.held Spaces.bare
      simp only [mem_singleton]
      by_cases hd : d = 768
      · simp [hd, eq_comm]
      · simp [hd]
    | table | page | pageHand | tableHand => exact iff_of_false nofun fun h => by cases h.1
  have hone (f : Nat) : holders owners Spaces.bare.held f = if f = 768 then 1 else 0 := by
    unfold holders
    split
    · rename_i hf
      rw [card_eq_one]
      refine ⟨.dir 768, eq_singleton_iff_unique_mem.mpr
        ⟨mem_filter.mpr ⟨dir_mem_owners (by decide), ?_⟩, fun o ho => ?_⟩⟩
      · exact (hheld _ f).mpr ⟨rfl, hf⟩
      · exact ((hheld o f).mp (mem_filter.mp ho).2).1
    · rename_i hf
      exact holders_eq_zero_iff.mpr fun o _ ho => hf ((hheld o f).mp ho).2
  have hrefs (f : Nat) : leased.frames.frameRefcounts f = if f < 769 then 1 else 0 := rfl
  have hpresent : isPresent (0 : Word) ≠ true := by decide
  have hbooks : Accounting vacant.frames leased.frames .bare :=
    { counted := .below (n := 769) (by decide) (by decide) rfl rfl rfl
      initialized := rfl
      total := rfl
      base := by
        intro f hf
        have hne : f ≠ 768 := by
          rintro rfl
          exact hf ⟨by decide, by decide, rfl⟩
        have hlt : f < 769 ↔ f < 768 := by omega
        refine ⟨decide_eq_decide.mpr hlt, ?_⟩
        show (if f < 769 then 1 else 0) = if f < 768 then 1 else 0
        simp only [hlt]
      wellFormed := ⟨fun d hd => by rw [mem_singleton.mp hd]; decide, nofun, nofun⟩
      pool := by
        intro o f ho
        obtain ⟨-, rfl⟩ := (hheld o f).mp ho
        exact ⟨by decide, by decide, rfl⟩
      exact := by
        intro f hf
        have hle := hpool hf
        have hlt : f < 769 ↔ f = 768 := by omega
        rw [hone, hrefs]
        simp only [hlt]
      single := by
        intro o f _ ho
        rw [((hheld o f).mp ho).2]
        rfl }
  have hlayout : Layout vacant leased.ram leased.activePageDirectory .bare :=
    { dirs := by
        intro d _ i
        show none = ownedTable i 0
        unfold ownedTable ownsTable
        rw [Bool.eq_false_iff.mpr hpresent]
        rfl
      pages := nofun
      contents := nofun
      handContent := nofun
      shared := fun _ _ _ hp => absurd hp hpresent
      writable := fun _ _ _ hp => absurd hp hpresent
      blank := nofun
      kernel := rfl
      kernelTables := fun t ht => (booted_vacant.kernelTable t ht).2
      active := .inl rfl }
  exact ⟨⟨booted_vacant, hbooks, hlayout, rfl⟩, rfl, rfl, rfl, nofun, nofun⟩

/-- The machine with one process. -/
theorem settled_alone : Settled .alone := by
  have htracks : Tracks .vacant ⟨Memory.leased.pagingSwitchDirectory 0x300000, {768}⟩ .bare :=
    Memory.tracks_leased.load (.inr ⟨768, mem_singleton_self 768, rfl⟩)
  have hfirst : ∀ p, p = 0 ∨ (Kernel.alone.procs p).state = .dead := by decide
  refine .boot (d := 768) boot_alone ⟨_, _, htracks⟩ fun p hp => ?_
  obtain rfl := (hfirst p).resolve_right hp
  rfl

/-- The process gets a heap page and writes to it. -/
theorem run_written : Relation.ReflTransGen Moves .alone .written := by
  have hgrown : Moves .alone .grown := ⟨.trap brkTrap, trivial, step_grown⟩
  have hgenuine : Event.Genuine .grown (.trap heapFault) := ⟨vmFaultWrite, .inr rfl, by decide⟩
  have hfurnished : Moves .grown .furnished := ⟨.trap heapFault, hgenuine, step_furnished⟩
  have hwritten : Moves .furnished .written := ⟨.store 0x90000000 42, trivial, step_written⟩
  exact ((Relation.ReflTransGen.single hgrown).tail hfurnished).tail hwritten

/-- Its state then. -/
theorem settled_written : Settled .written := settled_alone.run run_written

/-- It opens a pipe. -/
theorem run_piped : Relation.ReflTransGen Moves .alone .piped :=
  run_written.tail ⟨.trap pipeTrap, trivial, step_piped⟩

/-- Its state then. -/
theorem settled_piped : Settled .piped := settled_alone.run run_piped

/-- It forks. -/
theorem moves_couple : Moves .piped .couple := ⟨.trap forkTrap, trivial, step_couple⟩

/-- The machine with two processes. -/
theorem settled_couple : Settled .couple := settled_piped.run (.single moves_couple)

/-! ### What the two do -/

/-- A store to the shared page. -/
abbrev storeFault : Trap := .pageFault (ring3Registers 0 0 0) 7 0x90000000

/-- `SYS_READ` from the empty pipe into the shared page. -/
abbrev readTrap : Trap := .syscall { ring3Registers 10 0 0x90000010 with edx := 4 }

/-- The first process waits for its child to write. -/
def Kernel.reading : Kernel := Kernel.couple.after readTrap

set_option maxRecDepth 4000 in
/-- The parent waits for its child, after it got a copy of the shared page. -/
theorem settled_reading : Settled .reading :=
  settled_couple.run (.single ⟨.trap readTrap, trivial, .after rfl (by decide)⟩)

set_option maxRecDepth 4000 in
/-- In the couple, too, the first process has one page. -/
theorem Memory.couple_onePage : Kernel.couple.mem.HasOnePage 768 770 576 0 := by decide

/-- The frames once a second child has a directory, a table and a share of the page. -/
def FrameState.sharedTwice : FrameState := ((Kernel.couple.mem.frames.take 773).take 774).addRef 769

/-- Three processes share the page. -/
def Memory.sharedTwice : Memory := Kernel.couple.mem.clonedPage .sharedTwice 768 773 770 774 576 0

set_option maxRecDepth 4000 in
/-- The memory of the second clone. -/
theorem Memory.couple_clone : Kernel.couple.mem.pagingCloneDirectory 0x300000 = (0x305000, .sharedTwice) := by
  have hframes : CloneFrames 768 773 770 774 := ⟨by decide, by decide, by decide, by decide, by decide⟩
  have hpage : Kernel.couple.mem.ram 770 0 &&& addrMask = 0x301000 := by decide
  have hscratch : Kernel.couple.mem.kernelScratchTable ≠ 0 := by decide
  show Kernel.couple.mem.pagingCloneDirectory (frameAddr 768) =
    (frameAddr 773, Kernel.couple.mem.clonedPage .sharedTwice 768 773 770 774 576 0)
  refine pagingCloneDirectory_onePage couple_onePage hframes hscratch ?_ ?_ (by decide)
    (by decide) ?_
  · exact allocTable_find (by decide) (by decide) (by decide) (by decide)
  · exact allocTable_find (by decide) (by decide) (by decide) (by decide)
  · rw [hpage]
    unfold FrameState.frameRetain
    rw [if_neg (by decide), if_neg (by decide)]
    rfl

/-- The first process has a second child. -/
def Kernel.trio : Kernel := (processCompleteContextSwitch (Kernel.couple.parted 0 2 0x102000 0x305000 .sharedTwice)).2

/-- It has the page for itself again. -/
def Kernel.unshared : Kernel := Kernel.trio.after storeFault

/-- It has stored another byte there. -/
def Kernel.rewritten : Kernel := Kernel.unshared.withMem (Kernel.unshared.mem.storeByte 0x90000000 43)

set_option maxRecDepth 4000 in
/-- The second fork. -/
theorem processFork_couple : processFork 0 (forkTrap.frame .couple) (forkTrap.enter .couple).markCurrentFrame =
    Kernel.couple.forkedChild 0 2 0x102000 0x305000 .sharedTwice :=
  processFork_forkedChild (by decide) (by decide) (by decide) (by decide)
    (by decide) Memory.couple_clone (by decide)

set_option maxRecDepth 4000 in
/-- It is a step. -/
theorem step_trio : Step .couple (.trap forkTrap) .trio :=
  .fork (by decide) (by decide) processFork_couple (by decide) (by decide)
    (by decide)

set_option maxRecDepth 4000 in
/-- The parent gets a copy of the page. -/
theorem step_unshared : Step .trio (.trap storeFault) .unshared := .after rfl (by decide)

/-- And stores another byte there. -/
theorem step_rewritten : Step .unshared (.store 0x90000000 43) .rewritten := .store _ _ _ (by decide +kernel)

/-- What was stored is there, and the first process still has one page. -/
theorem Memory.rewritten_onePage : Kernel.rewritten.mem.HasOnePage 768 770 576 0 ∧
    Kernel.rewritten.mem.userLoad (Kernel.rewritten.procs 0).cr3 0x90000000 = some 43 := by decide +kernel

/-- The state after the three steps. -/
theorem reachable_rewritten : Reachable .rewritten :=
  ((reachable_couple.step trivial step_trio).step trivial step_unshared).step trivial step_rewritten

/-- The second fork is a genuine step. -/
theorem moves_trio : Moves .couple .trio := ⟨.trap forkTrap, trivial, step_trio⟩

set_option maxRecDepth 4000 in
/-- So is the fault. -/
theorem moves_unshared : Moves .trio .unshared := by
  have hgenuine : Event.Genuine .trio (.trap storeFault) := ⟨vmFaultWrite, .inr rfl, by decide⟩
  exact ⟨.trap storeFault, hgenuine, step_unshared⟩

/-- And so is the store. -/
theorem moves_rewritten : Moves .unshared .rewritten :=
  ⟨.store 0x90000000 43, trivial, step_rewritten⟩

/-- The state after them. -/
theorem settled_rewritten : Settled .rewritten :=
  settled_couple.run (((Relation.ReflTransGen.single moves_trio).tail moves_unshared).tail moves_rewritten)

end AgenticOs
