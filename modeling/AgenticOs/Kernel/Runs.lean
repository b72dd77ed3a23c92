import AgenticOs.Kernel.FaultRecovery
import AgenticOs.Kernel.Handlers
import AgenticOs.Memory.Clone

/-!
# The runs of a machine in ring 3

From the boot on, after every trap, the process table and the scheduler agree.

* **Boot** (`Boot.agrees`): the first process, made current.
* **Steps** (`Agrees.step`): a trap, a store of the program or a key keeps the agreement. Together they are
  `ReachableIf.agrees`, for runs whose steps all meet a condition.
* **Main result** (`table_agrees_with_scheduler`): after every handler that returns a stack pointer, and after
  the completion of the switch, the process of the table that is current, the scheduler's and the directory
  that is loaded are those of one process, and the ready queue holds the ready ones (`InStep`).
* **Traps as steps** (`Step.after`, `Step.fault`, `Step.fork`): how a machine goes on when its handler is
  known, for a page fault and for a fork that succeed.

The last two sections are machines that later files use: a process with a page and a pipe (`Kernel.piped`),
and its child, which shares both (`Kernel.couple`).
-/

namespace AgenticOs

open Function Lib Scheduler

variable {k k' : Kernel} {c n : Slot}

/-! ### Boot -/

/-- A new process gets a slot that was dead and a stack of the pool. -/
theorem createProcess_some {interruptFrame : Bool} {words : Nat} {proc : Slot}
    (hpool : StackPool k.stackPool) (h : (createProcess interruptFrame words k).1 = some proc) :
    ∃ p : Process, p.kernelStack ∈ Set.range k.stackBase ∧ p.pendingSignals = 0 ∧
      (createProcess interruptFrame words k).2.toScheduler = k.toScheduler.setProc proc (fun _ => p) ∧
        (createProcess interruptFrame words k).2.stackPool = k.stackPool := by
  unfold createProcess at h ⊢
  rw [run_bind, run_get, run_ite] at h ⊢
  dsimp only at h ⊢
  split at h
  · cases h
  rename_i hcount
  rw [if_neg hcount]
  rcases hdead : k.findDead with _ | q
  · rw [hdead] at h
    cases h
  rw [hdead] at h
  dsimp only at h ⊢
  rw [run_bind, run_takePid, run_bind, run_modifyProc, run_bind, run_callAllocateStack] at h ⊢
  dsimp only at h ⊢
  generalize hk' : ({ k with nextPid := (k.nextPid + 1) % wordSize } : Kernel).setProc q _ = k' at h ⊢
  have hself : k'.procs q = (k.procs q).created k.nextPid k.mem.pagingGetCurrentDirectory
      interruptFrame := by
    subst hk'
    exact Kernel.setProc_self ..
  have hscheduler : k'.toScheduler = k.toScheduler.setProc q fun _ => k'.procs q := by
    rw [hself]
    subst hk'
    rfl
  have hpool' : k'.stackPool = k.stackPool := by
    subst hk'
    rfl
  have hbase (i : Fin stackSlots) : k'.stackBase i = k.stackBase i :=
    congrArg (· + BitVec.ofNat 32 (i * (stackSlotSize * 4))) hpool'
  rcases allocateStack_cases k' with ⟨hnone, -⟩ | ⟨i, hbit, hsome⟩
  · rw [hnone] at h
    dsimp only at h
    rw [run_ite, if_pos rfl, run_bind, run_modifyProc, run_pure] at h
    cases h
  · rw [hsome, hbase] at h ⊢
    dsimp only at h ⊢
    rw [run_ite, if_neg (stackBase_ne_zero hpool i), run_bind, run_modifyProc, run_bind,
      run_setProcessCount, run_pure] at h ⊢
    obtain rfl := Option.some.inj h
    refine ⟨{ k'.procs q with
      kernelStack := k.stackBase i
      esp := k.stackBase i + BitVec.ofNat 32 (kernelStackSize - words * 4) }, ⟨i, rfl⟩, ?_, ?_, hpool'⟩
    · rw [hself]
      rfl
    · refine (show _ = k'.toScheduler.setProc q fun p =>
        { p with
          kernelStack := k.stackBase i
          esp := k.stackBase i + BitVec.ofNat 32 (kernelStackSize - words * 4) } from rfl).trans ?_
      rw [hscheduler]
      unfold Scheduler.setProc
      simp only [update_self, update_idem]

/-- The first process, made current. -/
theorem booted_agrees {proc : Slot} {p : Process} {cr3 : Word} (preemption : Bool)
    (hpool : StackPool k.stackPool) (hstack : p.kernelStack ∈ Set.range k.stackBase)
    (hsignals : p.pendingSignals = 0) (hcr3 : IsDirectory cr3) (hqueue : k.readyQueue = [])
    (hprocs : k.procs = update (fun _ => Process.zero) proc p) :
    Agrees (k.booted proc cr3 preemption) proc ∧
      ∀ q, ((k.booted proc cr3 preemption).procs q).state ≠ .blocked ∧
        ((k.booted proc cr3 preemption).procs q).fatalPending = false := by
  obtain ⟨i, hi⟩ := hstack
  -- the last two steps of the boot are a change of the process and the load of its address space
  obtain ⟨s, hbooted, hs, hqueue', hcurrent, hmem⟩ : ∃ s : Scheduler Slot,
      (k.booted proc cr3 preemption).toScheduler =
        { s.switchAddressSpace proc with preemptionEnabled := preemption } ∧
      s.procs = update (fun _ => Process.zero) proc { p with cr3 := cr3, state := .running } ∧
      s.readyQueue = [] ∧ s.current = some proc ∧ s.mem = k.mem := by
    refine ⟨_, rfl, ?_, hqueue, rfl, rfl⟩
    unfold Kernel.setProc Scheduler.setProc
    simp only [hprocs, update_self, update_idem]
  have hself : s.procs proc = { p with cr3 := cr3, state := .running } := by
    rw [hs, update_self]
  have hother (q : Slot) (hq : q ≠ proc) : s.procs q = Process.zero := by
    rw [hs, update_of_ne hq]
  have hactive : (s.switchAddressSpace proc).mem.activePageDirectory = cr3 := by
    have hd : IsDirectory (s.procs proc).cr3 := by
      rw [hself]
      exact hcr3
    rw [switchAddressSpace_active hd, hself]
  have hstack : (k.booted proc cr3 preemption).view.stack p.kernelStack := ⟨i, i.isLt, hi.symm⟩
  have hstate (q : Slot) : (s.procs q).state = if q = proc then .running else .dead := by
    split
    · rename_i hq
      rw [hq, hself]
    · rename_i hq
      rw [hother q hq]
      rfl
  refine ⟨⟨?_, hpool⟩, fun q => ?_⟩
  · rw [hbooted]
    refine ⟨⟨fun q => ?_, ?_, nofun, fun q hq => ?_, fun q hq => ?_, ?_, ?_⟩, hcurrent, fun q => ?_, ?_⟩
    · show q ∈ s.readyQueue ↔ (s.procs q).state = _ ∧ _
      rw [hqueue', hstate]
      split <;> simp
    · show s.readyQueue.Nodup
      rw [hqueue']
      exact List.nodup_nil
    · have hq' : (s.procs q).state = .ready ∨ (s.procs q).state = .blocked := hq
      rw [hstate] at hq'
      split at hq' <;> simp at hq'
    · have hqp : q = proc := by
        by_contra hne
        have hdead : (s.procs q).state = .dead := by
          rw [hstate, if_neg hne]
        exact hq hdead
      rw [hqp]
      show Housed _ (s.procs proc)
      rw [hself]
      exact ⟨hcr3, hstack⟩
    · show IsDirectory (s.switchAddressSpace proc).mem.activePageDirectory
      rw [hactive]
      exact hcr3
    · refine ⟨p.kernelStack, hstack, ?_⟩
      show (s.switchAddressSpace proc).tssEsp0 = _
      unfold Scheduler.switchAddressSpace
      dsimp only
      rw [hself, if_pos (hi ▸ stackBase_ne_zero hpool i)]
    · show (s.procs q).state = .running ↔ _
      rw [hstate]
      split <;> simp_all
    · show (s.switchAddressSpace proc).mem.activePageDirectory = (s.procs proc).cr3
      rw [hactive, hself]
  · have hprocs' : (k.booted proc cr3 preemption).procs q = s.procs q :=
      congrFun (congrArg Scheduler.procs hbooted) q
    rw [hprocs']
    by_cases hq : q = proc
    · rw [hq, hself]
      refine ⟨nofun, ?_⟩
      unfold Process.fatalPending
      dsimp only
      rw [hsignals]
      decide
    · rw [hother q hq]
      exact ⟨nofun, by decide⟩

/-- The machine boots in agreement, with no signal pending. -/
theorem Boot.agrees (h : Boot k) :
    ∃ c, Agrees k c ∧ ∀ p, (k.procs p).state ≠ .blocked ∧ (k.procs p).fatalPending = false := by
  obtain ⟨k₀, create, proc, cr3, preemption, hpool, -, -, hcr3, hkind, hcreate⟩ := h
  obtain ⟨interruptFrame, words, rfl⟩ : ∃ b w, create = createProcess b w := by
    rcases hkind with rfl | rfl
    · exact ⟨_, _, rfl⟩
    · exact ⟨_, _, rfl⟩
  obtain ⟨p, hstack, hsignals, hscheduler, hpool'⟩ := createProcess_some
    (k := (processInit k₀).onScheduler (·.schedulerInit)) hpool hcreate
  generalize (createProcess interruptFrame words _).2 = k₁ at hscheduler hpool'
  refine ⟨proc, booted_agrees preemption (hpool' ▸ hpool) ?_ hsignals hcr3 ?_ ?_⟩
  · obtain ⟨i, hi⟩ := hstack
    refine ⟨i, hi ▸ ?_⟩
    unfold Kernel.stackBase
    rw [hpool']
  · rw [hscheduler]
    rfl
  · rw [hscheduler]
    rfl

/-! ### Runs -/

/-- A store of the program. -/
theorem quiet_store (k : Kernel) (address : Word) (b : Byte) :
    Quiet k (k.withMem (k.mem.storeByte address b)) := Quiet.withMem rfl

/-- A key that is pressed. -/
theorem quiet_key (k : Kernel) (b : Byte) : Quiet k { k with keyBuffer := k.keyBuffer ++ [b] } :=
  Quiet.of_procs rfl rfl fun _ => id

/-- A step of the machine keeps the agreement. -/
theorem Agrees.step {event : Event} (h : Agrees k c) (hstep : Step k event k') : ∃ n, Agrees k' n := by
  cases hstep with
  | trap fuel trap frameEsp hring hhandle hesp =>
    obtain ⟨n, hn, -⟩ := (handled_trap h hring hhandle).resumes.resolve_left hesp
    exact ⟨n, (serves_processCompleteContextSwitch n hn).agrees⟩
  | store address b => exact ⟨c, ((quiet_store k address b).serves c h).agrees⟩
  | key b => exact ⟨c, ((quiet_key k b).serves c h).agrees⟩

/-- **Every run keeps the agreement**; the induction is on the run. -/
theorem ReachableIf.agrees {ok : Kernel → Event → Prop} (h : ReachableIf ok k) : ∃ c, Agrees k c := by
  induction h with
  | boot h =>
    obtain ⟨c, hc, -⟩ := h.agrees
    exact ⟨c, hc⟩
  | step _ _ hstep ih =>
    obtain ⟨c, hc⟩ := ih
    exact hc.step hstep

/-- Process table and scheduler agree that process `c` runs, and on who is ready. -/
structure InStep (k : Kernel) (c : Slot) : Prop where
  running : ∀ p, (k.procs p).state = .running ↔ p = c
  tableCurrent : k.processGetCurrent = some c
  schedulerCurrent : k.current = some c
  directory : k.mem.activePageDirectory = (k.procs c).cr3
  nodup : k.readyQueue.Nodup
  queue : ∀ p, p ∈ k.readyQueue ↔ (k.procs p).state = .ready

/-- The agreement, as far as the table and the scheduler show it. -/
theorem AgreesIn.inStep {v : View} (h : AgreesIn v k c) : InStep k c where
  running := h.runs.running
  tableCurrent := h.processGetCurrent
  schedulerCurrent := h.runs.current
  directory := h.runs.directory
  nodup := h.runs.ordered.nodup
  queue := fun p => (h.runs.ordered.mem p).trans (and_iff_left (Set.notMem_empty p))

/-! ### A fork -/

/-- A fork whose clone succeeds. -/
theorem processFork_of_clone {parent child : Slot} {frame newDir stack cr3 : Word} {m : Memory}
    (hguard : ¬(frame = 0 ∨ isRing3 (k.frameAt frame).cs = false ∨ (k.procs parent).cr3 = 0 ∨
      k.processCount ≥ maxProcesses))
    (hdead : k.findDead = some child)
    (hstack : (k.setProc child fun _ => Process.zero.processFdTableInit).allocateStack.1 = stack)
    (hne : stack ≠ 0)
    (hk' : (k.setProc child fun _ => Process.zero.processFdTableInit).allocateStack.2.setProc child
      (fun p => { p with kernelStack := stack }) = k')
    (hm : k'.mem = m) (hcr3 : (k'.procs parent).cr3 = cr3)
    (hclone : (m.pagingCloneDirectory cr3).1 = newDir) (hdir : newDir ≠ 0) :
    processFork parent frame k =
      forkInto child parent frame newDir (k'.withMem (m.pagingCloneDirectory cr3).2) := by
  unfold processFork
  rw [run_bind, run_get, run_ite, if_neg hguard]
  dsimp only
  rw [hdead]
  dsimp only
  rw [run_bind, run_modifyProc, run_bind, run_callAllocateStack]
  dsimp only
  rw [hstack, run_bind, run_modifyProc, run_ite, if_neg hne, run_bind, run_getProc, run_bind,
    run_callMemory]
  dsimp only
  rw [hk', hm, hcr3, run_ite, hclone, if_neg hdir]

/-- `SYS_FORK` puts the child on the queue and answers with its pid. -/
theorem syscallDispatch_fork {r : Option Slot × Kernel} {fuel : Nat} {frame : Word} {child : Slot}
    (hframe : frame ≠ 0) (heax : (k.markCurrentFrame.frameAt frame).eax.toNat = 17)
    (hring : isRing3 (k.markCurrentFrame.frameAt frame).cs = true)
    (hcurrent : k.markCurrentFrame.processGetCurrent = some c)
    (hfork : processFork c frame k.markCurrentFrame = r) (hchild : r.1 = some child) :
    syscallDispatch fuel frame k = processDeliverSignals fuel frame
      ((r.2.onScheduler (·.schedulerAdd child)).setFrame frame fun f =>
        { f with eax := BitVec.ofNat 32 ((r.2.onScheduler (·.schedulerAdd child)).procs child).pid }) := by
  obtain ⟨r, k'⟩ := r
  obtain rfl : r = some child := hchild
  have hanswer : syscallHandle frame k.markCurrentFrame =
      (some (.reply (BitVec.ofNat 32 ((k'.onScheduler (·.schedulerAdd child)).procs child).pid)),
        k'.onScheduler (·.schedulerAdd child)) := by
    unfold syscallHandle
    rw [run_bind, run_get]
    dsimp only
    rw [heax]
    show replying (syscallFork _ frame) k.markCurrentFrame = _
    unfold replying syscallFork
    rw [run_bind, run_ite, hring, if_neg Bool.noConfusion, run_bind, run_get]
    dsimp only
    rw [hcurrent]
    dsimp only
    rw [run_bind, hfork]
    rfl
  unfold syscallDispatch
  rw [if_neg hframe, hanswer]
  rfl

/-- Nothing is delivered to a process without signals. -/
theorem processDeliverSignals_clean {fuel : Nat} {frame : Word} (hcurrent : k.processGetCurrent = some c)
    (h : (k.procs c).pendingSignals = 0) :
    processDeliverSignals (fuel + 1) frame k = some (frame, k) := by
  unfold processDeliverSignals
  rw [hcurrent]
  dsimp only
  split
  · rfl
  · rw [h, if_neg (by decide), if_neg (by decide), if_neg (by decide)]

/-! ### Traps as steps -/

/-- The registers of a program in ring 3. -/
def ring3Registers (eax ebx ecx : Word) : InterruptFrame where
  edi := 0
  esi := 0
  ebp := 0
  savedEsp := 0
  ebx := ebx
  edx := 0
  ecx := ecx
  eax := eax
  gs := 0x23
  fs := 0x23
  es := 0x23
  ds := 0x23
  eip := 0x40000000
  cs := 0x1B
  eflags := 0x202
  userEsp := 0xB0000000
  userSs := 0x23

abbrev forkTrap : Trap := .syscall (ring3Registers 17 0 0)

/-- A load from address 0, where there is no page. -/
abbrev faultTrap : Trap := .pageFault (ring3Registers 0 0 0) 4 0

/-- What the handler of a trap leaves. -/
def Kernel.handled (k : Kernel) (trap : Trap) : Word × Kernel := (trap.handle 4 k).getD (0, k)

/-- The machine after a trap. -/
def Kernel.after (k : Kernel) (trap : Trap) : Kernel := (processCompleteContextSwitch (k.handled trap).2).2

/-- The handler of a trap, where it resumes somebody. Its loop has at most two rounds. -/
theorem handle_handled {trap : Trap} (h : (k.handled trap).1 ≠ 0) :
    trap.handle 4 k = some ((k.handled trap).1, (k.handled trap).2) := by
  unfold Kernel.handled at h ⊢
  rcases hhandle : trap.handle 4 k with _ | r
  · rw [hhandle] at h
    exact absurd rfl h
  · rfl

/-- A trap whose handler resumes somebody leads on. -/
theorem ReachableIf.after {ok : Kernel → Event → Prop} {trap : Trap} (h : ReachableIf ok k)
    (hok : ok k (.trap trap)) (hring : isRing3 trap.registers.cs = true)
    (hesp : (k.handled trap).1 ≠ 0) : ReachableIf ok (k.after trap) :=
  .step h hok (.trap 4 trap _ hring (handle_handled hesp) hesp)

/-- A trap whose handler returns is a step. -/
theorem Step.after {trap : Trap} (hring : isRing3 trap.registers.cs = true) (hesp : (k.handled trap).1 ≠ 0) :
    Step k (.trap trap) (k.after trap) :=
  .trap 4 trap _ hring (handle_handled hesp) hesp

/-- A page fault that the memory policy handles is a step. -/
theorem Step.fault {registers : InterruptFrame} {errorCode faultAddr : Word} {m : Memory}
    (hring : isRing3 registers.cs = true) (huser : test errorCode vmFaultUser = true)
    (hframe : k.tssEsp0 - 72 ≠ 0) (hcurrent : k.current = some c)
    (hfault : k.mem.vmHandlePageFault (k.procs c) faultAddr errorCode = (.handled, m)) :
    Step k (.trap (.pageFault registers errorCode faultAddr))
      (processCompleteContextSwitch (((Trap.pageFault registers errorCode faultAddr).enter k).withMem m)).2 := by
  refine .trap 1 _ (k.tssEsp0 - 72) hring ?_ hframe
  generalize hk₁ : (Trap.pageFault registers errorCode faultAddr).enter k = k₁
  have hpushed : isRing3 (k₁.frameAt (k.tssEsp0 - 72)).cs = true := hk₁ ▸ ring_enter k hring
  have hcurrent₁ : k₁.current = some c := hk₁ ▸ hcurrent
  have hfault₁ : k₁.mem.vmHandlePageFault (k₁.procs c) faultAddr errorCode = (.handled, m) := hk₁ ▸ hfault
  have hguard : ¬(k.tssEsp0 - 72 = 0 ∨ isRing3 (k₁.frameAt (k.tssEsp0 - 72)).cs = false ∨
      test errorCode vmFaultUser = false) := by
    rw [hpushed, huser]
    exact fun h => h.elim hframe (·.elim Bool.noConfusion Bool.noConfusion)
  have hdispatch : pageFaultDispatch (k.tssEsp0 - 72) errorCode faultAddr k₁ = (k.tssEsp0 - 72, k₁.withMem m) := by
    unfold pageFaultDispatch
    rw [if_neg hguard, hcurrent₁]
    dsimp only
    rw [hfault₁, if_pos rfl]
  rw [← hk₁] at hdispatch ⊢
  exact congrArg some hdispatch

/-- The handler of a fork that succeeds returns to the parent. -/
theorem handle_fork {r : Option Slot × Kernel} {child : Slot} (hframe : forkTrap.frame k ≠ 0)
    (hcurrent : (forkTrap.enter k).markCurrentFrame.processGetCurrent = some c)
    (hfork : processFork c (forkTrap.frame k) (forkTrap.enter k).markCurrentFrame = r) (hchild : r.1 = some child)
    (hreturn : (r.2.onScheduler (·.schedulerAdd child)).setFrame (forkTrap.frame k) (fun f =>
      { f with eax := BitVec.ofNat 32 ((r.2.onScheduler (·.schedulerAdd child)).procs child).pid }) = k')
    (hgoes : k'.processGetCurrent = some c) (hclean : (k'.procs c).pendingSignals = 0) :
    forkTrap.handle 1 k = some (forkTrap.frame k, k') := by
  have hpushed : (forkTrap.enter k).markCurrentFrame.frameAt (forkTrap.frame k) = ring3Registers 17 0 0 := by
    rw [markCurrentFrame_frameAt]
    exact update_self ..
  refine (syscallDispatch_fork hframe ?_ ?_ hcurrent hfork hchild).trans ?_
  · rw [hpushed]
    rfl
  · rw [hpushed]
    rfl
  · rw [hreturn]
    exact processDeliverSignals_clean hgoes hclean

/-- The machine of a fork once the child has a stack. -/
def Kernel.making (k : Kernel) (child : Slot) (stack : Word) : Kernel :=
  (k.setProc child fun _ => Process.zero.processFdTableInit).allocateStack.2.setProc child
    fun p => { p with kernelStack := stack }

/-- Memory is as it was before the trap. -/
theorem Kernel.making_mem (k : Kernel) (child : Slot) (stack : Word) :
    ((forkTrap.enter k).markCurrentFrame.making child stack).mem = k.mem := by
  have hmark (k₁ : Kernel) : k₁.markCurrentFrame.mem = k₁.mem := by
    unfold Kernel.markCurrentFrame
    split <;> rfl
  have hstack (k₁ : Kernel) : k₁.allocateStack.2.mem = k₁.mem := by
    rcases allocateStack_cases k₁ with ⟨hnone, -⟩ | ⟨i, -, hsome⟩
    · rw [hnone]
    · rw [hsome]
  exact (hstack _).trans (hmark _)

/-- What a fork makes of a machine whose clone of memory is `m`. -/
def Kernel.forkedChild (k : Kernel) (c child : Slot) (stack newDir : Word) (m : Memory) : Option Slot × Kernel :=
  forkInto child c (forkTrap.frame k) newDir (((forkTrap.enter k).markCurrentFrame.making child stack).withMem m)

/-- A fork whose clone succeeds, with all that it looks at. -/
theorem processFork_forkedChild {child : Slot} {stack newDir cr3 : Word} {m : Memory}
    (hguard : ¬(forkTrap.frame k = 0 ∨
      isRing3 ((forkTrap.enter k).markCurrentFrame.frameAt (forkTrap.frame k)).cs = false ∨
      ((forkTrap.enter k).markCurrentFrame.procs c).cr3 = 0 ∨
      (forkTrap.enter k).markCurrentFrame.processCount ≥ maxProcesses))
    (hdead : (forkTrap.enter k).markCurrentFrame.findDead = some child)
    (hstack : ((forkTrap.enter k).markCurrentFrame.setProc child
      fun _ => Process.zero.processFdTableInit).allocateStack.1 = stack) (hne : stack ≠ 0)
    (hcr3 : (((forkTrap.enter k).markCurrentFrame.making child stack).procs c).cr3 = cr3)
    (hclone : k.mem.pagingCloneDirectory cr3 = (newDir, m)) (hdir : newDir ≠ 0) :
    processFork c (forkTrap.frame k) (forkTrap.enter k).markCurrentFrame = k.forkedChild c child stack newDir m := by
  have hfirst : (k.mem.pagingCloneDirectory cr3).1 = newDir := by rw [hclone]
  have hfork := processFork_of_clone hguard hdead hstack hne rfl (k.making_mem child stack) hcr3 hfirst hdir
  rw [hclone] at hfork
  exact hfork

/-- The machine to which such a fork returns. -/
def Kernel.parted (k : Kernel) (c child : Slot) (stack newDir : Word) (m : Memory) : Kernel :=
  let k' := (k.forkedChild c child stack newDir m).2.onScheduler (·.schedulerAdd child)
  k'.setFrame (forkTrap.frame k) fun f => { f with eax := BitVec.ofNat 32 (k'.procs child).pid }

/-- A fork that succeeds is a step. -/
theorem Step.fork {child : Slot} {stack newDir : Word} {m : Memory} (hframe : forkTrap.frame k ≠ 0)
    (hcurrent : (forkTrap.enter k).markCurrentFrame.processGetCurrent = some c)
    (hfork : processFork c (forkTrap.frame k) (forkTrap.enter k).markCurrentFrame =
      k.forkedChild c child stack newDir m)
    (hchild : (k.forkedChild c child stack newDir m).1 = some child)
    (hgoes : (k.parted c child stack newDir m).processGetCurrent = some c)
    (hclean : ((k.parted c child stack newDir m).procs c).pendingSignals = 0) :
    Step k (.trap forkTrap) (processCompleteContextSwitch (k.parted c child stack newDir m)).2 :=
  .trap 1 forkTrap (forkTrap.frame k) rfl (handle_fork hframe hcurrent hfork hchild rfl hgoes hclean) hframe

/-! ### Small machines -/

/-- Four megabytes without a page table, the page directory of the first process in a frame of its
own. -/
def Memory.bare : Memory where
  frames :=
    { frameBitmap := fun i => i < 770
      frameRefcounts := fun _ => 1
      totalFrames := 1024
      usedFrames := 770
      frameInitialized := true }
  ram := fun _ _ => 0
  activePageDirectory := 0x300000
  kernelScratchTable := 0x103000

/-- The first clone succeeds. -/
theorem Memory.bare_clone : (bare.pagingCloneDirectory 0x300000).1 = 0x302000 := by
  have haddr : bare.pagingAllocFrame.1 = 0x302000 := by decide
  have hram : bare.pagingAllocFrame.2.ram = fun _ _ => 0 := rfl
  have hframe : frameOf (0x302000 : Word) = 770 := by decide
  have halloc : bare.allocatorAllocPageTable =
      (0x302000, bare.pagingAllocFrame.2.writeFrame 770 fun _ => 0x02) := by
    unfold allocatorAllocPageTable
    dsimp only
    rw [haddr, if_neg (by decide), fillTable_eq, hframe]
  refine pagingCloneDirectory_empty (by decide) (by decide) halloc (by decide) (fun i => ?_) fun i => ?_
  · unfold entry writeFrame
    dsimp only
    rw [update_of_ne (by decide), hram]
  · unfold entry writeFrame
    dsimp only
    rw [hframe, update_self]
    decide

/-- The machine with one process. -/
def Kernel.solo : Kernel :=
  let fs := SimpleFs.atBoot (fun _ => ⟨0, 0, false, false⟩) fun _ _ => zeroSector
  let k := (processInit (.atBoot .bare fs 0x100000)).onScheduler (·.schedulerInit)
  (processCreate true k).2.booted 0 0x300000 false

/-- The machine with one process is one that boots. -/
theorem boot_solo : Boot .solo :=
  .intro _ (processCreate true) 0 0x300000 false ⟨by decide, by decide⟩ rfl rfl ⟨by decide, by decide⟩
    (.inl rfl) rfl

/-- The machine with two processes: the first runs, its child is ready. -/
def Kernel.pair : Kernel :=
  (processCompleteContextSwitch
    (Kernel.solo.parted 0 1 0x101000 0x302000 (Memory.bare.pagingCloneDirectory 0x300000).2)).2

/-- The fork is a step. -/
theorem step_pair : Step .solo (.trap forkTrap) .pair := by
  have hmem : Kernel.solo.mem = Memory.bare := rfl
  have hclone : Memory.bare.pagingCloneDirectory 0x300000 =
      ((Memory.bare.pagingCloneDirectory 0x300000).1, (Memory.bare.pagingCloneDirectory 0x300000).2) :=
    Prod.mk.eta.symm
  rw [Memory.bare_clone, ← hmem] at hclone
  exact .fork (c := 0) (by decide) (by decide) (processFork_forkedChild (by decide) (by decide) (by decide)
    (by decide) (by decide) hclone (by decide)) (by decide) (by decide) (by decide)

/-- The machine with two processes is reached. -/
theorem reachable_pair {ok : Kernel → Event → Prop} (hok : ok .solo (.trap forkTrap)) : ReachableIf ok .pair :=
  .step (.boot boot_solo) hok step_pair

/-! ### A machine with a page and a pipe -/

/-- Memory with nine free frames, before there is an address space. -/
def Memory.vacant : Memory where
  frames :=
    { frameBitmap := fun f => f < 768
      frameRefcounts := fun f => if f < 768 then 1 else 0
      totalFrames := 777
      usedFrames := 768
      frameInitialized := true }
  ram := fun _ _ => 0
  activePageDirectory := pageDirectory
  kernelScratchTable := 0x103000

/-- The first frame is the directory of an address space without a page. -/
def Memory.leased : Memory :=
  { Memory.vacant with
    frames :=
      { frameBitmap := fun f => f < 769
        frameRefcounts := fun f => if f < 769 then 1 else 0
        totalFrames := 777
        usedFrames := 769
        frameInitialized := true } }

/-- The machine with one process that has an address space of its own. -/
def Kernel.alone : Kernel :=
  let fs := SimpleFs.atBoot (fun _ => ⟨0, 0, false, false⟩) fun _ _ => zeroSector
  let k := Kernel.atBoot .leased fs 0x100000
  let k := (processInit { k with heap := k.heap.allocatorInit }).onScheduler (·.schedulerInit)
  (processCreate true k).2.booted 0 0x300000 false

/-- The machine boots. -/
theorem boot_alone : Boot .alone :=
  .intro _ (processCreate true) 0 0x300000 false ⟨by decide, by decide⟩ rfl rfl ⟨by decide, by decide⟩
    (.inl rfl) rfl

/-- `SYS_BRK`: a heap of one page. -/
abbrev brkTrap : Trap := .syscall (ring3Registers 19 0x90001000 0)

/-- The first process has a heap. -/
def Kernel.grown : Kernel := Kernel.alone.after brkTrap

/-- The call is a step. -/
theorem step_grown : Step .alone (.trap brkTrap) .grown := .after rfl (by decide)

/-- A store to the heap page, which is not there yet. -/
abbrev heapFault : Trap := .pageFault (ring3Registers 0 0 0) 6 0x90000000

/-- The heap page is mapped: frame 769, in the table in frame 770. -/
def Memory.furnished : Memory :=
  ((Memory.leased.pagingSwitchDirectory 0x300000).install ((Memory.leased.frames.take 769).take 770) 770
    (fun _ => 0x02) (576, 0) 0x302007 0x301007).writeFrame 769 fun _ => 0

/-- The heap page is mapped when it is touched. -/
theorem Memory.furnished_fault :
    Kernel.grown.mem.vmHandlePageFault (Kernel.grown.procs 0) 0x90000000 6 = (.handled, .furnished) := by
  have hmem : Kernel.grown.mem = leased.pagingSwitchDirectory 0x300000 := rfl
  have hcr3 : (Kernel.grown.procs 0).cr3 = (leased.pagingSwitchDirectory 0x300000).activePageDirectory := by decide
  have hdemand := demandMapHeapPage_new (m := leased.pagingSwitchDirectory 0x300000) 0x90000000
    (f := 769) (t := 770) rfl (by decide) (by decide) (by decide) (by decide) (by decide) (by decide) (by decide)
    (by decide) (by decide) (by decide)
  unfold vmHandlePageFault
  dsimp only
  rw [if_neg (by decide), if_neg (by decide), if_pos (by decide), if_neg (by decide), if_pos (by decide), hmem,
    hcr3, show pageAlignDown 0x90000000 = 0x90000000 by decide, hdemand]
  rfl

/-- The first process has a page. -/
def Kernel.furnished : Kernel := (processCompleteContextSwitch ((heapFault.enter .grown).withMem .furnished)).2

/-- The fault is a step. -/
theorem step_furnished : Step .grown (.trap heapFault) .furnished :=
  .fault rfl (by decide) (by decide) (by decide) Memory.furnished_fault

/-- It has stored a byte there. -/
def Kernel.written : Kernel := Kernel.furnished.withMem (Kernel.furnished.mem.storeByte 0x90000000 42)

/-- So is the store. -/
theorem step_written : Step .furnished (.store 0x90000000 42) .written := .store _ _ _ (by decide)

/-- `SYS_PIPE`, with the descriptors to the page. -/
abbrev pipeTrap : Trap := .syscall (ring3Registers 23 0x90000004 0x90000008)

/-- It has a pipe. -/
def Kernel.piped : Kernel := Kernel.written.after pipeTrap

/-- And so is the opening of the pipe. -/
theorem step_piped : Step .written (.trap pipeTrap) .piped := .after rfl (by decide)

/-- The first process has one page, and can store to it. -/
theorem Memory.piped_onePage : Kernel.piped.mem.HasOnePage 768 770 576 0 := by decide +kernel

/-- The frames once the child has a directory, a table and a share of the page. -/
def FrameState.shared : FrameState := ((Kernel.piped.mem.frames.take 771).take 772).addRef 769

/-- Parent and child share the page. -/
def Memory.shared : Memory := Kernel.piped.mem.clonedPage .shared 768 771 770 772 576 0

/-- The memory of the clone, in full. -/
theorem Memory.piped_clone : Kernel.piped.mem.pagingCloneDirectory 0x300000 = (0x303000, .shared) := by
  have hframes : CloneFrames 768 771 770 772 := ⟨by decide, by decide, by decide, by decide, by decide⟩
  have hpage : Kernel.piped.mem.ram 770 0 &&& addrMask = 0x301000 := by decide +kernel
  refine pagingCloneDirectory_onePage piped_onePage hframes (by decide) ?_ ?_ (by decide +kernel)
    (by decide +kernel) ?_
  · exact allocTable_find (by decide) (by decide) (by decide) (by decide +kernel)
  · exact allocTable_find (by decide) (by decide) (by decide) (by decide +kernel)
  · rw [hpage]
    unfold FrameState.frameRetain
    rw [if_neg (by decide +kernel), if_neg (by decide +kernel)]
    rfl

/-- The machine with two processes that share a page and a pipe: the first runs, its child is ready. -/
def Kernel.couple : Kernel := (processCompleteContextSwitch (Kernel.piped.parted 0 1 0x101000 0x303000 .shared)).2

/-- The fork, in full. -/
theorem processFork_piped : processFork 0 (forkTrap.frame .piped) (forkTrap.enter .piped).markCurrentFrame =
    Kernel.piped.forkedChild 0 1 0x101000 0x303000 .shared :=
  processFork_forkedChild (by decide) (by decide) (by decide) (by decide) (by decide) Memory.piped_clone (by decide)

/-- It is a step. -/
theorem step_couple : Step .piped (.trap forkTrap) .couple :=
  .fork (by decide) (by decide) processFork_piped (by decide) (by decide) (by decide)

/-- The machine with two processes is reached. -/
theorem reachable_couple : Reachable .couple :=
  ((((ReachableIf.boot boot_alone).step trivial step_grown |>.step trivial step_furnished).step trivial
    step_written).step trivial step_piped).step trivial step_couple

/-! ### Agreement -/

/-- After every handler that returns a stack pointer, and after the completion of the switch, table
and scheduler agree; the pointer is that of the interrupted frame, if the process goes on, or the one
saved for the process that runs now. -/
theorem table_agrees_with_scheduler (h : Reachable k) {fuel : Nat} {trap : Trap} {esp : Word}
    (hring : isRing3 trap.registers.cs = true) (hhandle : trap.handle fuel k = some (esp, k'))
    (hesp : esp ≠ 0) :
    ∃ c n, InStep k c ∧ InStep k' n ∧ InStep (processCompleteContextSwitch k').2 n ∧
      (esp = trap.frame k ∧ n = c ∨ esp = (k'.procs n).esp) := by
  obtain ⟨c, hc⟩ := h.agrees
  obtain ⟨n, hn, -, -, hfrom⟩ := (handled_trap hc hring hhandle).resumes.resolve_left hesp
  exact ⟨c, n, hc.inStep, hn.inStep, (serves_processCompleteContextSwitch n hn).agrees.inStep, hfrom⟩

/-- The fault of the parent, which dies of it: its child is resumed. -/
theorem table_agrees_with_scheduler_pair :
    ∃ c n, InStep .pair c ∧ InStep (Kernel.pair.handled faultTrap).2 n ∧
      InStep (Kernel.pair.after faultTrap) n ∧
      ((Kernel.pair.handled faultTrap).1 = faultTrap.frame .pair ∧ n = c ∨
        (Kernel.pair.handled faultTrap).1 = ((Kernel.pair.handled faultTrap).2.procs n).esp) :=
  table_agrees_with_scheduler (reachable_pair trivial) rfl (handle_handled (by decide))
    (by decide)

end AgenticOs
