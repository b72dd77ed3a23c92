import AgenticOs.Kernel.Runs
import AgenticOs.Kernel.SignalDelivery

/-!
# Fatal signals

`process_deliver_signals` runs at the end of `syscall_dispatch` and of `timer_interrupt`, so a process
that a system call or a tick returns to has neither `SIGKILL` nor `SIGTERM` pending. A page fault that
kills a process hands over to the next one without it. `process_send_signal` sets a bit and wakes
nobody, so a process that sleeps goes on sleeping.

* **Back to user mode** (`returns_clean_iff`). In a run in which no page fault has handed over to a process
  with a fatal signal (`FaultsLeaveClean`), the process that runs is clean (`ReachableIf.runsClean`), and a
  handler returns to a clean process unless it is such a fault. `returns_with_fatal_signal` is a run in
  which one does not.
* **Sleepers** (`sleepers_clean`). A process that sleeps has no fatal signal, in a run in which no sleeper is
  killed and no process sleeps that has been (`SleepersSpared`). `sleeper_with_fatal_signal` kills one.
* **The timer** (`timer_returns_stack`). A tick returns a stack pointer if some process that runs or is ready
  is clean, and so it does in every run of the first kind (`timer_stack_of_clean_run`). It returns 0 if all
  that live have a fatal signal (`timerInterrupt_zero`). The two meet where no clean process sleeps
  (`timer_returns_stack_iff`); `timer_returns_zero` is a run that comes to the second.
-/

namespace AgenticOs

open Function Lib Scheduler

variable {k k' : Kernel} {c n : Slot} {esp : Word}

/-! ### Back to user mode -/

/-- No page fault hands over to a process with a fatal signal. -/
def FaultsLeaveClean (k : Kernel) (event : Event) : Prop :=
  ∀ trap, event = .trap trap → trap.FaultLeavesClean k

/-- The process that runs has no fatal signal. -/
def RunsClean (k : Kernel) : Prop := ∀ p, (k.procs p).state = .running → (k.procs p).fatalPending = false

/-- The current process is the running one. -/
theorem RunsClean.of_agrees (h : Agrees k c) (hc : (k.procs c).fatalPending = false) : RunsClean k := by
  intro p hp
  obtain rfl := (h.runs.running p).mp hp
  exact hc

/-- The handlers keep the running process clean, and so does the completion of the switch. -/
theorem RunsClean.step {event : Event} (h : Agrees k c) (hclean : RunsClean k)
    (hok : FaultsLeaveClean k event) (hstep : Step k event k') : RunsClean k' := by
  have hc := hclean c ((h.runs.running c).mpr rfl)
  cases hstep with
  | trap fuel trap frameEsp hring hhandle hesp =>
    have hh := handled_trap h hring hhandle
    obtain ⟨n, hn, -⟩ := hh.resumes.resolve_left hesp
    have hs := serves_processCompleteContextSwitch n hn
    have hclean' := hh.clean ⟨hc, hok trap rfl⟩ hesp n ((hn.runs.running n).mpr rfl)
    exact .of_agrees hs.agrees (hs.fatal.trans hclean')
  | store address b =>
    have hs := (quiet_store k address b).serves c h
    exact .of_agrees hs.agrees (hs.fatal.trans hc)
  | key b =>
    have hs := (quiet_key k b).serves c h
    exact .of_agrees hs.agrees (hs.fatal.trans hc)

/-- Where faults leave the current process clean, runs do. -/
theorem ReachableIf.runsClean (h : ReachableIf FaultsLeaveClean k) : RunsClean k := by
  induction h with
  | boot h =>
    obtain ⟨c, -, hclean⟩ := h.agrees
    exact fun p _ => (hclean p).2
  | step h hok hstep ih =>
    obtain ⟨c, hc⟩ := h.agrees
    exact ih.step hc hok hstep

/-- The process that a page fault hands over to is the one that the scheduler finds once the fault has
killed the running one. -/
theorem faultLeavesClean_of_runsClean {fuel : Nat} {trap : Trap} (h : Agrees k c)
    (hring : isRing3 trap.registers.cs = true) (hhandle : trap.handle fuel k = some (esp, k'))
    (hesp : esp ≠ 0) (hclean : RunsClean k') : trap.FaultLeavesClean k := by
  cases trap with
  | syscall | timer => trivial
  | pageFault registers errorCode faultAddr =>
    have hframe := trap_frame_ne_zero h (.pageFault registers errorCode faultAddr)
    have hs := (quiet_enter k hring).serves c h
    have hpushed := ring_enter k (t := .pageFault registers errorCode faultAddr) hring
    obtain ⟨rfl, rfl⟩ := Prod.mk.inj (Option.some.inj hhandle)
    intro c' hc' r hkills n hbest
    obtain rfl : c = c' := Option.some.inj (hs.agrees.runs.current.symm.trans hc')
    obtain ⟨m, hbest', hm, hfatal⟩ := pageFaultDispatch_kills hs.agrees hframe hpushed hkills hesp
    obtain rfl : n = m := Option.some.inj (hbest.symm.trans hbest')
    exact hfatal.symm.trans (hclean n ((hm.agrees.runs.running n).mpr rfl))

/-- In a run in which no page fault has handed over to a process with a fatal signal, a handler
returns to ring 3 in a process without one if and only if it is not such a page fault. -/
theorem returns_clean_iff (h : ReachableIf FaultsLeaveClean k) {fuel : Nat} {trap : Trap}
    (hring : isRing3 trap.registers.cs = true) (hhandle : trap.handle fuel k = some (esp, k'))
    (hesp : esp ≠ 0) :
    (isRing3 (k'.frameAt esp).cs = true →
      ∀ p, (k'.procs p).state = .running → (k'.procs p).fatalPending = false) ↔
      trap.FaultLeavesClean k := by
  obtain ⟨c, hc⟩ := h.agrees
  have hh := handled_trap hc hring hhandle
  constructor
  · intro hclean
    obtain ⟨n, -, -, hreturned, -⟩ := hh.resumes.resolve_left hesp
    exact faultLeavesClean_of_runsClean hc hring hhandle hesp (hclean hreturned)
  · intro hleaves _
    have hrun := h.runsClean c ((hc.runs.running c).mpr rfl)
    exact hh.clean ⟨hrun, hleaves⟩ hesp

/-- A fork is no fault. -/
theorem faultsLeaveClean_fork : FaultsLeaveClean k (.trap forkTrap) := by
  rintro _ ⟨⟩
  trivial

/-- The first process dies of a fault, and the one that runs on is clean. -/
theorem returns_clean_iff_pair :
    (isRing3 ((Kernel.pair.handled faultTrap).2.frameAt (Kernel.pair.handled faultTrap).1).cs = true →
      ∀ p, ((Kernel.pair.handled faultTrap).2.procs p).state = .running →
        ((Kernel.pair.handled faultTrap).2.procs p).fatalPending = false) ↔
      faultTrap.FaultLeavesClean .pair :=
  returns_clean_iff (reachable_pair faultsLeaveClean_fork) rfl (handle_handled (by decide))
    (by decide)

/-- The child is killed while its parent runs. -/
def Kernel.killed : Kernel := Kernel.pair.after (.syscall (ring3Registers 21 2 9))

/-- The kernel after the kill is reachable. -/
theorem reachable_killed : Reachable .killed :=
  (reachable_pair trivial).after trivial rfl (by decide)

/-- The parent dies of a page fault, and the child that has been killed goes on. -/
theorem returns_with_fatal_signal :
    ¬∀ k, Reachable k → ∀ (fuel : Nat) (trap : Trap) (esp : Word) (k' : Kernel),
      isRing3 trap.registers.cs = true → trap.handle fuel k = some (esp, k') → esp ≠ 0 →
        isRing3 (k'.frameAt esp).cs = true →
          ∀ p, (k'.procs p).state = .running → (k'.procs p).fatalPending = false := by
  intro h
  have hclean := h .killed reachable_killed 4 faultTrap _ _ rfl (handle_handled (by decide))
    (by decide) (by decide) 1 (by decide)
  exact absurd hclean (by decide)

/-! ### Processes that sleep -/

/-- No process that sleeps is killed, and no system call is made by a process that has been. -/
def SleepersSpared (k : Kernel) (event : Event) : Prop :=
  ∀ trap, event = .trap trap → trap.KillsAwake k ∧ (trap.IsSyscall → RunsClean k)

/-- No process that sleeps has a fatal signal. -/
def SleepersClean (k : Kernel) : Prop :=
  ∀ p, (k.procs p).state = .blocked → (k.procs p).fatalPending = false

/-- A step that leaves the sleepers alone. -/
theorem SleepersClean.calm (h : SleepersClean k) (hb : BlockedSame k k') : SleepersClean k' := by
  intro p hp
  obtain ⟨hold, hf⟩ := hb p hp
  exact hf.trans (h p hold)

/-- One step, if no sleeper is sent a fatal signal. -/
theorem SleepersClean.step {event : Event} (h : Agrees k c) (hclean : SleepersClean k)
    (hok : SleepersSpared k event) (hstep : Step k event k') : SleepersClean k' := by
  cases hstep with
  | @trap k₁ fuel trap frameEsp hring hhandle hesp =>
    obtain ⟨hawake, hcaller⟩ := hok trap rfl
    have hh := handled_trap h hring hhandle
    obtain ⟨n, hn, -⟩ := hh.resumes.resolve_left hesp
    have hafter : SleepersClean k₁ := by
      intro p hp
      obtain ⟨hold | ⟨rfl, hcall⟩, hf⟩ := hh.blocked hawake p hp
      · exact hf.trans (hclean p hold)
      · exact hf.trans (hcaller hcall p ((h.runs.running p).mpr rfl))
    exact hafter.calm (serves_processCompleteContextSwitch n hn).blocked
  | store address b => exact hclean.calm (quiet_store k address b).blockedSame
  | key b => exact hclean.calm (quiet_key k b).blockedSame

/-- A process that sleeps has no fatal signal, in a run in which it has been sent none and in which it
had none when it went to sleep. -/
theorem sleepers_clean (h : ReachableIf SleepersSpared k) (p : Slot)
    (hp : (k.procs p).state = .blocked) : (k.procs p).fatalPending = false := by
  induction h generalizing p with
  | boot h =>
    obtain ⟨c, -, hclean⟩ := h.agrees
    exact (hclean p).2
  | step h hok hstep ih =>
    obtain ⟨c, hc⟩ := h.agrees
    exact SleepersClean.step hc ih hok hstep p hp

/-- The parent waits for the child. -/
abbrev waitTrap : Trap := .syscall (ring3Registers 16 0 0)

/-- The parent sleeps and the child runs. -/
def Kernel.waiting : Kernel := Kernel.pair.after waitTrap

/-- A trap other than `SYS_KILL` spares the sleepers. -/
theorem sleepersSpared_of_current {trap : Trap} (hcall : trap.registers.eax ≠ 21)
    (hrun : RunsClean k) : SleepersSpared k (.trap trap) := by
  rintro _ ⟨⟩
  refine ⟨?_, fun _ => hrun⟩
  cases trap with
  | syscall registers =>
    intro heax
    have hself : ((Trap.syscall registers).enter k).frameAt ((Trap.syscall registers).frame k) =
        registers := update_self ..
    rw [hself] at heax
    exact absurd heax hcall
  | timer | pageFault => trivial

/-- The process that waits has no fatal signal. -/
theorem sleepers_clean_waiting :
    (Kernel.waiting.procs 0).state = .blocked ∧ (Kernel.waiting.procs 0).fatalPending = false := by
  have hfork : SleepersSpared .solo (.trap forkTrap) :=
    sleepersSpared_of_current (by decide) (by unfold RunsClean; decide)
  have hwait : SleepersSpared .pair (.trap waitTrap) :=
    sleepersSpared_of_current (by decide) (by unfold RunsClean; decide)
  have hblocked : (Kernel.waiting.procs 0).state = .blocked := by decide
  exact ⟨hblocked, sleepers_clean
    ((reachable_pair hfork).after hwait rfl (by decide)) 0 hblocked⟩

/-- The child kills its parent, which sleeps. -/
theorem sleeper_with_fatal_signal :
    ¬∀ k, Reachable k → ∀ p, (k.procs p).state = .blocked → (k.procs p).fatalPending = false := by
  intro h
  have hwaiting : Reachable .waiting := (reachable_pair trivial).after trivial rfl (by decide)
  have hkilled : Reachable (Kernel.waiting.after (.syscall (ring3Registers 21 1 9))) :=
    hwaiting.after trivial rfl (by decide)
  exact absurd (h _ hkilled 0 (by decide)) (by decide)

/-! ### The timer -/

/-- The frames of every ring, and the kernel stacks. -/
def Kernel.anyFrame (k : Kernel) : View where
  ring _ := True
  stack := k.view.stack

/-- Every frame is allowed in the second view. -/
theorem Kernel.view_le_anyFrame (k : Kernel) : k.view.Le k.anyFrame := ⟨fun _ _ => trivial, fun _ => id⟩

/-- After a tick, a process that could run and has no fatal signal still can. -/
theorem exists_clean_of_preempted {v : View} {s s' : Scheduler Slot} {frame : Word}
    (h : Preempted v s s' c n frame esp)
    (hclean : ∃ p, s.canRun p ∧ (s.procs p).fatalPending = false) :
    ∃ p, s'.canRun p ∧ (s'.procs p).fatalPending = false := by
  obtain ⟨p, hp, hf⟩ := hclean
  refine ⟨p, ?_, (h.fatal p).trans hf⟩
  rcases h.state p with hs | ⟨-, hp'⟩
  · unfold Scheduler.canRun at hp ⊢
    rw [hs]
    exact hp
  · exact hp'

/-- A tick may preempt the running process, and then signals are delivered to the one that runs. -/
theorem timerInterrupt_outcome {v : View} (h : AgreesIn v k c) {interruptedEsp : Word} (hne : interruptedEsp ≠ 0)
    (hring : v.ring interruptedEsp) {fuel : Nat} (hfuel : signalRoundsMax ≤ fuel) :
    ∃ r tick n, timerInterrupt fuel interruptedEsp k = some r ∧
      Preempted v k.toScheduler tick.2.toScheduler c n interruptedEsp tick.1 ∧
      Delivers v tick.2 r.2 n tick.1 r.1 ∧ Settles tick r ∧ k.view.Le tick.2.view := by
  obtain ⟨n, hn⟩ := preempted_tick h hne hring
  have hpool : (k.tick interruptedEsp).2.stackPool = k.stackPool := rfl
  have hview : (k.tick interruptedEsp).2.view = k.view := rfl
  rw [timerInterrupt_eq]
  generalize k.tick interruptedEsp = tick at hn hpool hview
  have hagrees : AgreesIn v tick.2 n := ⟨hn.runs, hpool ▸ h.pool⟩
  obtain ⟨r, hends, -, hsettles, -⟩ := processDeliverSignals_total hn.runs.queued tick.1
  have hr := hends fuel ((roundsLeft_lt_max tick.2).trans_le hfuel)
  exact ⟨r, tick, n, hr, hn, processDeliverSignals_delivers fuel hagrees hn.nonzero hn.ring hr, hsettles,
    hview ▸ .refl _⟩

/-- A tick in which some process that runs or is ready has no fatal signal ends with a stack pointer. -/
theorem timerInterrupt_stack (h : Reachable k) (hclean : ∃ p, k.canRun p ∧ (k.procs p).fatalPending = false)
    {interruptedEsp : Word} (hne : interruptedEsp ≠ 0) (interrupted : InterruptFrame) {fuel : Nat}
    (hfuel : signalRoundsMax ≤ fuel) :
    ∃ r, timerInterrupt fuel interruptedEsp (k.setFrame interruptedEsp fun _ => interrupted) = some r ∧
      r.1 ≠ 0 := by
  obtain ⟨c, hc⟩ := h.agrees
  have hc' : AgreesIn k.anyFrame (k.setFrame interruptedEsp fun _ => interrupted) c :=
    ⟨(hc.mono k.view_le_anyFrame).runs, hc.pool⟩
  have hclean' : ∃ p, (k.setFrame interruptedEsp fun _ => interrupted).canRun p ∧
    ((k.setFrame interruptedEsp fun _ => interrupted).procs p).fatalPending = false := hclean
  generalize k.setFrame interruptedEsp _ = k₁ at hc' hclean'
  obtain ⟨r, tick, n, hr, hn, hdelivers, -, -⟩ := timerInterrupt_outcome hc' hne trivial hfuel
  refine ⟨r, hr, fun hzero => ?_⟩
  obtain ⟨p, hp, hf⟩ := exists_clean_of_preempted hn hclean'
  rcases hdelivers.returns with ⟨-, hall⟩ | ⟨m, hm⟩
  · have hfatal := hall p (hp.imp_left fun hrun => (hn.runs.running p).mp hrun)
    rw [hf] at hfatal
    cases hfatal
  · exact hm.nonzero hzero

/-- At a tick in which some process that runs or is ready has no fatal signal, `timer_interrupt` ends
and returns a stack pointer, whatever it has interrupted. -/
theorem timer_returns_stack (h : Reachable k)
    (hclean : ∃ p, k.canRun p ∧ (k.procs p).fatalPending = false) {interruptedEsp : Word}
    (hne : interruptedEsp ≠ 0) (interrupted : InterruptFrame) {fuel : Nat}
    (hfuel : signalRoundsMax ≤ fuel) :
    ∃ r, timerInterrupt fuel interruptedEsp (k.setFrame interruptedEsp fun _ => interrupted) = some r ∧
      r.1 ≠ 0 :=
  timerInterrupt_stack h hclean hne interrupted hfuel

/-- A tick comes back with a stack. -/
theorem timer_returns_stack_solo :
    ∃ r, timerInterrupt signalRoundsMax 4 (Kernel.solo.setFrame 4 fun _ => ring3Registers 0 0 0) = some r ∧
      r.1 ≠ 0 :=
  timer_returns_stack (.boot boot_solo) ⟨0, .inl (by decide), by decide⟩ (by decide) _ le_rfl

/-- In a run in which no page fault has handed over to a process with a fatal signal, every tick returns a stack
pointer: the process that runs is a clean one. -/
theorem timer_stack_of_clean_run (h : ReachableIf FaultsLeaveClean k) {interruptedEsp : Word}
    (hne : interruptedEsp ≠ 0) (interrupted : InterruptFrame) {fuel : Nat} (hfuel : signalRoundsMax ≤ fuel) :
    ∃ r, timerInterrupt fuel interruptedEsp (k.setFrame interruptedEsp fun _ => interrupted) = some r ∧
      r.1 ≠ 0 := by
  obtain ⟨c, hc⟩ := h.agrees
  have hrun : (k.procs c).state = .running := (hc.runs.running c).mpr rfl
  exact timerInterrupt_stack (h.mono fun _ _ _ => trivial) ⟨c, .inl hrun, h.runsClean c hrun⟩ hne interrupted hfuel

/-- A process that has died of a signal or lives on had the signals that it has now. -/
theorem Process.Settled.fatal_of_lives {p q : Process} (h : p.Settled q) (hq : q.Lives) :
    q.fatalPending = p.fatalPending := by
  rcases h with h | h
  · exact fatalPending_congr h.signals
  · exact absurd hq h.not_lives

/-- A tick that interrupts ring 3 returns 0 if every process that lives has a fatal signal: they die one after the
other. -/
theorem timerInterrupt_zero (h : Reachable k) (hfatal : ∀ p, (k.procs p).Lives → (k.procs p).fatalPending = true)
    {interruptedEsp : Word} (hne : interruptedEsp ≠ 0) {interrupted : InterruptFrame}
    (hring : isRing3 interrupted.cs = true) {fuel : Nat} (hfuel : signalRoundsMax ≤ fuel) :
    ∃ r, timerInterrupt fuel interruptedEsp (k.setFrame interruptedEsp fun _ => interrupted) = some r ∧
      r.1 = 0 := by
  obtain ⟨c, hc⟩ := h.agrees
  have hquiet : Quiet k (k.setFrame interruptedEsp fun _ => interrupted) := .setFrame fun _ => hring
  have hc' := (hquiet.serves c hc).agrees
  have hpushed : (k.setFrame interruptedEsp fun _ => interrupted).view.ring interruptedEsp := by
    show isRing3 (update k.frameAt interruptedEsp interrupted interruptedEsp).cs = true
    rw [update_self]
    exact hring
  have hfatal' : ∀ p, ((k.setFrame interruptedEsp fun _ => interrupted).procs p).Lives →
    ((k.setFrame interruptedEsp fun _ => interrupted).procs p).fatalPending = true := hfatal
  generalize k.setFrame interruptedEsp _ = k₁ at hc' hpushed hfatal'
  obtain ⟨r, tick, n, hr, hn, hdelivers, hsettles, hview⟩ := timerInterrupt_outcome hc' hne hpushed hfuel
  refine ⟨r, hr, ?_⟩
  rcases hdelivers.returns with ⟨hzero, -⟩ | ⟨m, hm⟩
  · exact hzero
  -- the process returned to would have had a signal at the tick, and has it still
  exfalso
  have hrun : (r.2.procs m).state = .running := (hm.agrees.runs.running m).mpr rfl
  have hlives : (r.2.procs m).Lives := by
    unfold Process.Lives
    rw [hrun]
    decide
  have hclean : (r.2.procs m).fatalPending = false :=
    hm.clean (hdelivers.view.ring _ (hview.ring _ hm.ring))
  have hlives₁ : (k₁.procs m).Lives := by
    rcases hn.state m with hstate | ⟨hcan, -⟩
    · have htick := (hsettles m).lives hlives
      unfold Process.Lives at htick ⊢
      rw [← hstate]
      exact htick
    · unfold Process.Lives
      rcases hcan with hstate | hstate
      · rw [hstate]
        decide
      · rw [hstate]
        decide
  rw [(hsettles m).fatal_of_lives hlives, hn.fatal m, hfatal' m hlives₁] at hclean
  cases hclean

/-- Where no process sleeps without a fatal signal, a tick that interrupts ring 3 returns a stack pointer if and only
if some process that runs or is ready has none. (A sleeper without one may be woken by the deaths.) -/
theorem timer_returns_stack_iff (h : Reachable k)
    (hasleep : ∀ p, (k.procs p).state = .blocked → (k.procs p).fatalPending = true) {interruptedEsp : Word}
    (hne : interruptedEsp ≠ 0) {interrupted : InterruptFrame} (hring : isRing3 interrupted.cs = true) {fuel : Nat}
    (hfuel : signalRoundsMax ≤ fuel) :
    (∃ r, timerInterrupt fuel interruptedEsp (k.setFrame interruptedEsp fun _ => interrupted) = some r ∧
      r.1 ≠ 0) ↔ ∃ p, k.canRun p ∧ (k.procs p).fatalPending = false := by
  constructor
  · rintro ⟨r, hr, hstack⟩
    by_contra hnone
    have hfatal : ∀ p, (k.procs p).Lives → (k.procs p).fatalPending = true := by
      intro p hp
      have hawake (hcan : k.canRun p) : (k.procs p).fatalPending = true := by
        by_contra hclean
        exact hnone ⟨p, hcan, Bool.eq_false_iff.mpr hclean⟩
      cases hstate : (k.procs p).state with
      | dead => exact absurd hstate hp.2
      | zombie => exact absurd hstate hp.1
      | running => exact hawake (.inl hstate)
      | ready => exact hawake (.inr hstate)
      | blocked => exact hasleep p hstate
    obtain ⟨r', hr', hzero⟩ := timerInterrupt_zero h hfatal hne hring hfuel
    rw [hr] at hr'
    exact hstack (Option.some.inj hr' ▸ hzero)
  · intro hclean
    exact timerInterrupt_stack h hclean hne interrupted hfuel

/-- The last process has been killed, and dies at the tick. -/
theorem timer_returns_zero :
    ¬∀ k, Reachable k → (∃ p, (k.procs p).state = .running) → ∀ interruptedEsp : Word,
      interruptedEsp ≠ 0 → ∀ (interrupted : InterruptFrame) (fuel : Nat) (r : Word × Kernel),
        timerInterrupt fuel interruptedEsp (k.setFrame interruptedEsp fun _ => interrupted) = some r →
          r.1 ≠ 0 := by
  intro h
  have hfaulted : Reachable (Kernel.killed.after faultTrap) :=
    reachable_killed.after trivial rfl (by decide)
  have hzero : (timerInterrupt 4 4 ((Kernel.killed.after faultTrap).setFrame 4 fun _ =>
      ring3Registers 0 0 0)).map (·.1) = some 0 := by decide
  obtain ⟨r, hr, hr0⟩ := Option.map_eq_some_iff.mp hzero
  exact h _ hfaulted ⟨1, by decide⟩ 4 (by decide) _ 4 r hr hr0

end AgenticOs
