import AgenticOs.Kernel.Answers

/-!
# What a trap leads to

The three handlers for the process that runs, and `process_complete_context_switch` after them: they keep the
table and the scheduler in agreement (`Handled`).

* **System calls** (`handled_syscallDispatch`), **ticks** (`handled_timerInterrupt`) and **page faults**
  (`handled_pageFaultDispatch`): the handler returns no stack pointer when nobody can run, and otherwise a
  saved frame of ring 3 of the process that runs then.
* **Fatal signals**: the first two deliver signals before they return. A page fault that kills its process
  does not, and hands over to the next one as it is (`pageFaultDispatch_kills`), so that process has none only
  if it had none before (`Kernel.FaultLeavesClean`).
* **After a switch** (`serves_processCompleteContextSwitch`): zombies are destroyed and a wait is completed.
* **Traps** (`handled_trap`): all of it for one trap of the process that runs.
-/

namespace AgenticOs

open Function Lib Scheduler

variable {awake sleeps : Prop} {k k' : Kernel} {c n : Slot} {frame esp : Word}

/-- The handler of a trap of process `c` returns the stack pointer `esp`. The process that runs then
has no fatal signal, provided that the handler lets none through (`clean`). -/
structure Handled (awake sleeps clean : Prop) (k k' : Kernel) (c : Slot) (frame esp : Word) : Prop
    extends Answered awake sleeps k k' c frame esp where
  clean : clean → esp ≠ 0 → ∀ p, (k'.procs p).state = .running → (k'.procs p).fatalPending = false

/-- The delivery of signals after the answer of a call. -/
theorem Answered.deliver {k'' : Kernel} {fuel : Nat} {esp' : Word}
    (h : Answered awake sleeps k k' c frame esp)
    (hrun : processDeliverSignals fuel esp k' = some (esp', k'')) :
    Handled awake sleeps True k k'' c frame esp' := by
  rcases h.resumes with rfl | ⟨n, hagrees, hesp, hring, hfrom⟩
  · obtain ⟨rfl, rfl⟩ := Prod.mk.inj (processDeliverSignals_zero hrun)
    exact ⟨h, fun _ hz => absurd rfl hz⟩
  have hd := processDeliverSignals_delivers fuel hagrees hesp hring hrun
  have hblocked : awake → ∀ p, (k''.procs p).state = .blocked →
      ((k.procs p).state = .blocked ∨ p = c ∧ sleeps) ∧
        (k''.procs p).fatalPending = (k.procs p).fatalPending := by
    intro ha p hp
    obtain ⟨hb, hf⟩ := hd.blocked p hp
    exact ⟨(h.blocked ha p hb).1, hf.trans (h.blocked ha p hb).2⟩
  have hview := h.view.trans hd.view
  rcases hd.returns with ⟨rfl, -⟩ | ⟨m, hm⟩
  · exact ⟨⟨hview, .inl rfl, hblocked⟩, fun _ hz => absurd rfl hz⟩
  have hring' := hd.view.ring _ hm.ring
  refine ⟨⟨hview, .inr ⟨m, hm.agrees.mono hd.view, hm.nonzero, hring', ?_⟩, hblocked⟩, fun _ _ p hp => ?_⟩
  · rcases hm.resumed with ⟨rfl, rfl, hsaved⟩ | hsaved
    · rw [hsaved]
      exact hfrom
    · exact .inr hsaved
  · obtain rfl := (hm.agrees.runs.running p).mp hp
    exact hm.clean hring'

/-! ### The handlers -/

/-- Marking the current frame is quiet. -/
theorem quiet_markCurrentFrame (k : Kernel) : Quiet k k.markCurrentFrame := by
  unfold Kernel.markCurrentFrame
  split
  · exact .refl k
  · exact Quiet.setProc (fun _ => ⟨rfl, rfl, rfl, rfl, rfl, fun _ => rfl⟩) fun _ => rfl

/-- No frame changes. -/
theorem markCurrentFrame_frameAt (k : Kernel) : k.markCurrentFrame.frameAt = k.frameAt := by
  unfold Kernel.markCurrentFrame
  split <;> rfl

/-- Nor does a process, but for its kind. -/
theorem markCurrentFrame_procs (k : Kernel) (p : Slot) :
    ∃ b, k.markCurrentFrame.procs p = { k.procs p with interruptFrame := b } := by
  unfold Kernel.markCurrentFrame
  split
  · exact ⟨_, rfl⟩
  · rename_i current _
    by_cases hp : p = current
    · subst hp
      exact ⟨true, Kernel.setProc_self ..⟩
    · exact ⟨_, Kernel.setProc_of_ne _ hp _⟩

/-- The search for a pid reads the pids and the states. -/
theorem processGetByPid_congr {k k' : Kernel} (hpid : ∀ p, (k'.procs p).pid = (k.procs p).pid)
    (hstate : ∀ p, (k'.procs p).state = (k.procs p).state) (pid : Nat) :
    k'.processGetByPid pid = k.processGetByPid pid := by
  unfold Kernel.processGetByPid
  simp only [hpid, hstate]

/-- It does not matter to whom `SYS_KILL` is sent. -/
theorem Kernel.KillsAwake.mark (h : k.KillsAwake frame) : k.markCurrentFrame.KillsAwake frame := by
  have hpid (p : Slot) : (k.markCurrentFrame.procs p).pid = (k.procs p).pid := by
    obtain ⟨b, hb⟩ := markCurrentFrame_procs k p
    rw [hb]
  have hstate (p : Slot) : (k.markCurrentFrame.procs p).state = (k.procs p).state := by
    obtain ⟨b, hb⟩ := markCurrentFrame_procs k p
    rw [hb]
  unfold Kernel.KillsAwake at h ⊢
  rw [markCurrentFrame_frameAt]
  intro heax hfatal target htarget
  rw [processGetByPid_congr hpid hstate] at htarget
  rw [hstate]
  exact h heax hfatal target htarget

/-- **The handler of system calls.** -/
theorem handled_syscallDispatch {fuel : Nat} (h : Agrees k c) (hframe : frame ≠ 0)
    (hring : k.view.ring frame) (hrun : syscallDispatch fuel frame k = some (esp, k')) :
    Handled (k.KillsAwake frame) True True k k' c frame esp := by
  have hmark := quiet_markCurrentFrame k
  have hs := hmark.serves c h
  have hans := answering_syscallHandle hs.agrees hframe (hmark.view.ring _ hring)
  have hawake : k.KillsAwake frame → k.markCurrentFrame.KillsAwake frame := .mark
  unfold syscallDispatch at hrun
  rw [if_neg hframe] at hrun
  generalize k.markCurrentFrame = k₁ at hs hans hawake hrun
  generalize syscallHandle frame k₁ = r at hans hrun
  obtain ⟨_ | answer, k₂⟩ := r
  · cases hrun
  · have hanswer := ((hans answer rfl).mono hawake).after hs.toCalm
    have heax : Quiet k₂ (k₂.setFrame frame fun f => { f with eax := answer.result }) :=
      Quiet.setFrame id
    exact (hanswer.quiet heax).deliver hrun

/-- `timer_interrupt` before it delivers signals. -/
def Kernel.tick (k : Kernel) (interruptedEsp : Word) : Word × Kernel :=
  callScheduler (·.schedulerPreempt interruptedEsp)
    { k with timerTicks := (k.timerTicks + 1) % wordSize }

/-- A tick, and then the delivery of signals. -/
theorem timerInterrupt_eq (fuel : Nat) (interruptedEsp : Word) (k : Kernel) :
    timerInterrupt fuel interruptedEsp k =
      processDeliverSignals fuel (k.tick interruptedEsp).1 (k.tick interruptedEsp).2 := rfl

/-- A tick of the timer: another process may take the place of the running one. -/
theorem preempted_tick {v : View} (h : AgreesIn v k c) (hframe : frame ≠ 0) (hring : v.ring frame) :
    ∃ n, Preempted v k.toScheduler (k.tick frame).2.toScheduler c n frame (k.tick frame).1 :=
  h.runs.preempt hframe hring

/-- **The handler of the timer.** -/
theorem handled_timerInterrupt {fuel : Nat} (h : Agrees k c) (hframe : frame ≠ 0)
    (hring : k.view.ring frame) (hrun : timerInterrupt fuel frame k = some (esp, k')) :
    Handled True False True k k' c frame esp := by
  obtain ⟨n, hn⟩ := preempted_tick h hframe hring
  have hview : (k.tick frame).2.view = k.view := rfl
  have hpool : (k.tick frame).2.stackPool = k.stackPool := rfl
  rw [timerInterrupt_eq] at hrun
  generalize k.tick frame = r at hn hview hpool hrun
  have hagrees : Agrees r.2 n := by
    rw [Agrees, hview]
    exact ⟨hn.runs, hpool ▸ h.pool⟩
  refine Answered.deliver ⟨hview ▸ .refl _, .inr ⟨n, hagrees, hn.nonzero, hview ▸ hn.ring, ?_⟩,
    fun _ p hp => ⟨.inl ?_, hn.fatal p⟩⟩ hrun
  · exact hn.returns.imp_left id
  · rcases hn.state p with hs | ⟨-, hnew⟩
    · exact hs.symm.trans hp
    · exact absurd (hnew.symm.imp (·.symm.trans hp) (·.symm.trans hp)) (by simp)

/-- Where a page fault kills the process that runs, the ready process that the scheduler dispatches
next has no fatal signal pending. -/
def Kernel.FaultLeavesClean (k : Kernel) (errorCode faultAddr : Word) : Prop :=
  ∀ c, k.current = some c →
    let r := k.mem.vmHandlePageFault (k.procs c) faultAddr errorCode
    r.1 ≠ .handled → ∀ n,
      (processMarkExit c (faultExitCode r.1) (k.withMem r.2)).2.findBestReady = some n →
        (k.procs n).fatalPending = false

/-- A page fault that kills the process that runs: another process runs as it is, without a delivery
of signals. -/
theorem pageFaultDispatch_kills {errorCode faultAddr : Word} (h : Agrees k c) (hframe : frame ≠ 0)
    (hring : k.view.ring frame)
    (hkills : (k.mem.vmHandlePageFault (k.procs c) faultAddr errorCode).1 ≠ .handled)
    (hesp : (pageFaultDispatch frame errorCode faultAddr k).1 ≠ 0) :
    let r := k.mem.vmHandlePageFault (k.procs c) faultAddr errorCode
    ∃ n, (processMarkExit c (faultExitCode r.1) (k.withMem r.2)).2.findBestReady = some n ∧
      Resumed (pageFaultDispatch frame errorCode faultAddr k).2 n
        (pageFaultDispatch frame errorCode faultAddr k).1 ∧
      ((pageFaultDispatch frame errorCode faultAddr k).2.procs n).fatalPending =
        (k.procs n).fatalPending := by
  have hmem : Quiet k (k.withMem (k.mem.vmHandlePageFault (k.procs c) faultAddr errorCode).2) :=
    Quiet.withMem (k.mem.vmHandlePageFault_active _ _ _)
  unfold pageFaultDispatch at hesp ⊢
  split at hesp
  · exact absurd rfl hesp
  rename_i huser
  rw [if_neg huser]
  rw [h.runs.current] at hesp ⊢
  dsimp only at hesp ⊢
  generalize k.mem.vmHandlePageFault (k.procs c) faultAddr errorCode = r at hkills hmem hesp ⊢
  rw [if_neg hkills] at hesp ⊢
  have hs := hmem.serves c h
  have hfatal (p : Slot) : ((k.withMem r.2).procs p).fatalPending = (k.procs p).fatalPending := rfl
  generalize k.withMem r.2 = k₁ at hs hfatal hesp ⊢
  obtain ⟨hleft, hresumed⟩ := dieOfFault_left hs.agrees hframe (hs.view.ring _ hring) (faultExitCode r.1)
  rcases hresumed with ⟨-, hzero⟩ | ⟨n, ⟨hbest, hnc⟩, hn⟩
  · exact absurd hzero hesp
  · exact ⟨n, hbest, hn, (hleft.fatal n hnc).trans (hfatal n)⟩

/-- A page fault blocks nobody, and gives nobody a fatal signal. -/
theorem answered_pageFaultDispatch (errorCode faultAddr : Word) (h : Agrees k c) (hframe : frame ≠ 0)
    (hring : k.view.ring frame) :
    Answered True False k (pageFaultDispatch frame errorCode faultAddr k).2 c frame
      (pageFaultDispatch frame errorCode faultAddr k).1 := by
  have hstay : Answered True False k k c frame frame := Served.answered ⟨.refl k c, h⟩ hframe hring
  have hmem : Quiet k (k.withMem (k.mem.vmHandlePageFault (k.procs c) faultAddr errorCode).2) :=
    Quiet.withMem (k.mem.vmHandlePageFault_active _ _ _)
  unfold pageFaultDispatch
  split
  · exact ⟨.refl _, .inl rfl, hstay.blocked⟩
  rw [h.runs.current]
  dsimp only
  generalize k.mem.vmHandlePageFault (k.procs c) faultAddr errorCode = r at hmem
  have hs := hmem.serves c h
  split
  · exact hs.answered hframe hring
  generalize k.withMem r.2 = k₁ at hs
  obtain ⟨hleft, hresumed⟩ := dieOfFault_left hs.agrees hframe (hs.view.ring _ hring) (faultExitCode r.1)
  refine ⟨hs.view.trans hleft.view, ?_, fun _ p hp => ?_⟩
  · rcases hresumed with ⟨-, hzero⟩ | ⟨n, -, hn⟩
    · exact .inl hzero
    · exact .inr hn.resumes
  · obtain ⟨hb, hpc⟩ := hleft.blocked hp
    exact ⟨.inl (hs.blocked p hb).1, (hleft.fatal p hpc).trans (hs.blocked p hb).2⟩

/-- **The handler of page faults.** -/
theorem handled_pageFaultDispatch (errorCode faultAddr : Word) (h : Agrees k c) (hframe : frame ≠ 0)
    (hring : k.view.ring frame) :
    Handled True False ((k.procs c).fatalPending = false ∧ k.FaultLeavesClean errorCode faultAddr) k
      (pageFaultDispatch frame errorCode faultAddr k).2 c frame
      (pageFaultDispatch frame errorCode faultAddr k).1 := by
  refine ⟨answered_pageFaultDispatch errorCode faultAddr h hframe hring, fun hc hesp p hp => ?_⟩
  by_cases hkills : (k.mem.vmHandlePageFault (k.procs c) faultAddr errorCode).1 = .handled
  · have hmem : Quiet k (k.withMem (k.mem.vmHandlePageFault (k.procs c) faultAddr errorCode).2) :=
      Quiet.withMem (k.mem.vmHandlePageFault_active _ _ _)
    have heq : (pageFaultDispatch frame errorCode faultAddr k).2 =
        k.withMem (k.mem.vmHandlePageFault (k.procs c) faultAddr errorCode).2 := by
      unfold pageFaultDispatch at hesp ⊢
      split at hesp
      · exact absurd rfl hesp
      rename_i huser
      rw [if_neg huser, h.runs.current]
      dsimp only
      rw [if_pos hkills]
    rw [heq] at hp ⊢
    have hs := hmem.serves c h
    obtain rfl := (hs.agrees.runs.running p).mp hp
    exact hs.fatal.trans hc.1
  · obtain ⟨n, hbest, hn, hfatal⟩ := pageFaultDispatch_kills h hframe hring hkills hesp
    obtain rfl := (hn.agrees.runs.running p).mp hp
    exact hfatal.trans (hc.2 c h.runs.current hkills p hbest)

/-! ### After a switch -/

/-- A zombie that is not the current process is destroyed. -/
theorem serves_reapZombies (c : Slot) : Rel (Serves c) (reapZombies (some c)) := by
  refine Rel.forM fun proc _ k => ?_
  rw [run_bind, run_get, run_ite]
  split
  · rename_i hreap
    have hz : (k.procs proc).state = .zombie := by
      have := hreap.2
      unfold Kernel.reapable at this
      simp only [Bool.and_eq_true, decide_eq_true_eq] at this
      exact this.1
    exact serves_processDestroy hz c
  · exact .refl c k

/-- `process_complete_context_switch` serves the process that runs. -/
theorem serves_processCompleteContextSwitch (c : Slot) :
    Serves c k (processCompleteContextSwitch k).2 := by
  intro h
  unfold processCompleteContextSwitch
  rw [run_bind, run_get, h.processGetCurrent]
  dsimp only
  rw [run_bind, run_bind]
  have hquiet := (quiet_processCompleteWait c k).trans (quiet_processCompletePipeIo c _)
  exact ((hquiet.serves c).trans (serves_reapZombies c _)) h

/-! ### Traps -/

/-- The frame of a trap lies on a kernel stack. -/
theorem trap_frame_ne_zero (h : Agrees k c) (trap : Trap) : trap.frame k ≠ 0 := by
  obtain ⟨stack, hstack, htss⟩ := h.runs.ordered.tss
  have hframe : trap.frame k = stack + BitVec.ofNat 32 4028 ∨
      trap.frame k = stack + BitVec.ofNat 32 4024 := by
    unfold Trap.frame
    rw [htss, show ((kernelStackSize : Nat) : Word) = 4096 from rfl]
    cases trap with
    | pageFault => exact .inr (by bv_omega)
    | syscall | timer => exact .inl (by bv_omega)
  rcases hframe with hf | hf <;> rw [hf] <;> exact stack_add_ne_zero h.pool hstack (by decide)

/-- A trap from ring 3 pushes a frame of ring 3. -/
theorem quiet_enter (k : Kernel) {trap : Trap} (hring : isRing3 trap.registers.cs = true) :
    Quiet k (trap.enter k) := Quiet.setFrame fun _ => hring

/-- The frame that a trap from ring 3 pushes is of ring 3. -/
theorem ring_enter (k : Kernel) {t : Trap} (hring : isRing3 t.registers.cs = true) :
    (t.enter k).view.ring (t.frame k) := by
  show isRing3 (update k.frameAt (t.frame k) t.registers (t.frame k)).cs = true
  rw [update_self]
  exact hring

/-- The process that runs kills nobody who sleeps. -/
def Trap.KillsAwake (trap : Trap) (k : Kernel) : Prop :=
  match trap with
  | .syscall _ => (trap.enter k).KillsAwake (trap.frame k)
  | _ => True

/-- The trap of a system call. -/
def Trap.IsSyscall : Trap → Prop
  | .syscall _ => True
  | _ => False

/-- A page fault that kills the process that runs hands over to a process without a fatal signal. -/
def Trap.FaultLeavesClean (trap : Trap) (k : Kernel) : Prop :=
  match trap with
  | .pageFault _ errorCode faultAddr => (trap.enter k).FaultLeavesClean errorCode faultAddr
  | _ => True

/-- The handler of a trap of the process that runs. -/
theorem handled_trap {fuel : Nat} {trap : Trap} (h : Agrees k c)
    (hring : isRing3 trap.registers.cs = true) (hrun : trap.handle fuel k = some (esp, k')) :
    Handled (trap.KillsAwake k) trap.IsSyscall ((k.procs c).fatalPending = false ∧ trap.FaultLeavesClean k) k k' c
      (trap.frame k) esp := by
  have hframe := trap_frame_ne_zero h trap
  have hs := (quiet_enter k hring).serves c h
  have hpushed := ring_enter k hring
  have hprocs : (trap.enter k).procs = k.procs := rfl
  have hafter {awake sleeps clean : Prop}
      (hh : Handled awake sleeps clean (trap.enter k) k' c (trap.frame k) esp) :
      Handled awake sleeps clean k k' c (trap.frame k) esp := ⟨hh.toAnswered.after hs.toCalm, hh.clean⟩
  cases trap with
  | syscall registers =>
    have hh := hafter (handled_syscallDispatch hs.agrees hframe hpushed hrun)
    exact ⟨hh.toAnswered, fun _ => hh.clean trivial⟩
  | timer registers =>
    have hh := hafter (handled_timerInterrupt hs.agrees hframe hpushed hrun)
    exact ⟨hh.toAnswered, fun _ => hh.clean trivial⟩
  | pageFault registers errorCode faultAddr =>
    obtain ⟨rfl, rfl⟩ := Prod.mk.inj (Option.some.inj hrun)
    exact hafter (handled_pageFaultDispatch errorCode faultAddr hs.agrees hframe hpushed)

end AgenticOs
