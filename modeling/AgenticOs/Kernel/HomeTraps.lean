import AgenticOs.Kernel.HomeExec
import AgenticOs.Kernel.SignalDelivery

/-!
# Traps of one process

A trap comes from the process that runs. Its handler is `Confined` to that process and to the slots in which nobody
lives (`Kernel.Movable`): a `SYS_FORK` puts a child there, and nobody else is moved, whatever the handler does.

* **System calls** (`confined_syscallHandle`): one case for each number. Calls that leave homes alone come from
  `HomeKeepers`, those that store into their caller from `HomeServices`, `SYS_BRK` and `SYS_EXEC` from `HomeCalls` and
  `HomeExec`, fork and wait from `HomeForks` and `HomeReaping`.
* **Signals** (`confined_processDeliverSignals`): any number of processes may die before one is found that lives on, and
  all of them stay where they are, as zombies.
* **Handlers** (`confined_syscallDispatch`, `confined_timerInterrupt`, `confined_pageFaultDispatch`): the tick of the
  timer moves nobody at all, a page fault at most the process itself.
* **Traps** (`confined_trap`): the handler with the frame that the processor has pushed. It is asked that the fault of a
  page is one that the processor reports (`Trap.Genuine`), and that the handler returns to somebody.
-/

namespace AgenticOs

open Function Lib Scheduler

variable {m0 : Memory} {k k' : Kernel} {S S' : Spaces} {A : Set Slot} {c n : Slot} {frame esp : Word}

/-! ### System calls -/

/-- Whom a step of process `c` may move: itself, and a child that is not born yet. -/
def Kernel.Movable (k : Kernel) (c : Slot) : Set Slot := {p | p = c ∨ ¬k.Alive p}

/-- A step that moves nobody but its process moves none of the others that live. -/
theorem Kernel.self_movable (k : Kernel) (c : Slot) : {c} ⊆ k.Movable c := fun _ hp => .inl hp

/-- What a call returns is put into `eax`. -/
theorem Confined.replying {call : KernelM Word} (h : Confined A k (call k).2) :
    Confined A k (AgenticOs.replying call k).2 := h

/-- A call that may have stopped its process returns the stack pointer of the next one. -/
theorem Confined.switching {call : KernelM SyscallResult} (h : Confined A k (call k).2) :
    Confined A k (AgenticOs.switching call k).2 := h

/-- **The dispatch of system calls**: one case for each number. -/
theorem confined_syscallHandle (h : Agrees k c) (hframe : frame ≠ 0) (hring : k.view.ring frame)
    (hidle : (k.procs c).blockReason ≠ .pipeRead) : Confined (k.Movable c) k (syscallHandle frame k).2 := by
  have hsame {call : KernelM Word} (hq : RunsQuietly call) (hs : KeepsHomes call) :
      Confined (k.Movable c) k (replying call k).2 := .of_same (hs k) (hq k).alive
  have hwork {call : KernelM Word} (hw : Rel (WorksFor c) call) : Confined (k.Movable c) k (replying call k).2 :=
    ((hw k).confined h).mono (k.self_movable c)
  have hself {k' : Kernel} (hc : Confined {c} k k') : Confined (k.Movable c) k k' := hc.mono (k.self_movable c)
  unfold syscallHandle
  rw [run_bind, run_get]
  dsimp only
  generalize (k.frameAt frame).eax.toNat = number
  split
  · exact hsame (quiet_syscallPuts _ _) (sameHomes_syscallPuts _ _)
  · rw [run_bind, run_pure]
    exact .of_same (sameHomes_syscallGetchar _ k) (quiet_syscallGetchar _ k).alive
  · exact .refl _ k
  · exact hsame (quiet_syscallUptime _) (sameHomes_syscallUptime _)
  · exact .refl _ k
  · exact hsame (quiet_syscallOpen _ _ _) (sameHomes_syscallOpen _ _ _)
  · exact .switching (hself (confined_syscallRead h hframe _ _ _ _))
  · exact .switching (hself (confined_syscallWrite h hframe _ _ _ _))
  · exact hsame (quiet_syscallClose _ _) (sameHomes_syscallClose _ _)
  · exact hwork (worksFor_syscallStat _ _ _)
  · exact hsame (quiet_currentField _ _ _) (sameHomes_currentField _ _ _)
  · exact .switching (confined_syscallExit h hframe hring _ _)
  · exact .switching (hself (confined_syscallWait h hframe _ _))
  · exact .replying ((confined_syscallFork h hidle _ _).mono fun _ hp => .inr hp)
  · exact .replying (hself (confined_syscallExec h hidle _ _ _ _ _))
  · exact .replying (hself (confined_syscallBrk h hidle _ _))
  · exact .switching (hself (confined_syscallWaitpid h hframe _ _ _ _))
  · exact .replying (confined_syscallKill _ _ _ k)
  · exact hsame (quiet_currentField _ _ _) (sameHomes_currentField _ _ _)
  · exact hwork (worksFor_syscallPipe _ _ _)
  · exact .refl _ k

/-! ### Signals -/

/-- One round of `process_deliver_signals`: the process dies of its signal, or a pending `SIGCHLD` is cleared. -/
theorem sameHomes_deliverRound {s t : Word × Kernel} (hround : deliverRound s = some t) : SameHomes s.2 t.2 := by
  unfold deliverRound at hround
  split at hround
  · cases hround
  rename_i current _
  have hclear : SameHomes s.2 (s.2.setProc current fun p =>
      { p with pendingSignals := p.pendingSignals &&& ~~~signalBit sigChld }) :=
    .setProc ⟨rfl, rfl, rfl, fun hwait => ⟨hwait, rfl, rfl⟩⟩
  split at hround
  · cases hround
  split at hround
  · obtain rfl := Option.some.inj hround
    exact sameHomes_dieOfSignal _ _ _ s.2
  split at hround
  · obtain rfl := Option.some.inj hround
    exact hclear
  · cases hround

/-- Who dies of a signal stays where he is until he is reaped. -/
theorem Process.Settled.dead_iff {p q : Process} (h : p.Settled q) : q.state = .dead ↔ p.state = .dead := by
  rcases h with h | h
  · rcases h.state with hs | ⟨hp, hq⟩
    · rw [hs]
    · exact iff_of_false hq.2 hp.2
  · rw [h.zombie]
    exact iff_of_false nofun h.lives.2

/-- The loop of `process_deliver_signals`, however many processes die in it. -/
theorem confined_processDeliverSignals {fuel : Nat} {r : Word × Kernel} (h : k.Queued)
    (hrun : processDeliverSignals fuel esp k = some r) : Confined A k r.2 := by
  rw [processDeliverSignals_eq] at hrun
  obtain ⟨⟨-, hsame⟩, hsettles⟩ := loop_keeps (I := fun s : Word × Kernel => s.2.Queued ∧ SameHomes k s.2)
    (R := Settles) (fun s t hs hround => by
      obtain ⟨hqueued, hsettles, -⟩ := deliverRound_some hs.1 hround
      exact ⟨⟨hqueued, hs.2.trans (sameHomes_deliverRound hround)⟩, hsettles⟩) ⟨h, .refl k⟩ hrun
  exact .of_same hsame fun p => not_congr (hsettles p).dead_iff

/-! ### The handlers -/

/-- What is done before a step and leaves homes alone does not change whom the step may move. -/
theorem Confined.after {k₀ : Kernel} (hs : SameHomes k₀ k) (ha : SameAlive k₀ k) (h : Confined (k.Movable c) k k') :
    Confined (k₀.Movable c) k₀ k' :=
  (Confined.of_same hs ha).trans (h.mono fun p hp => hp.imp_right fun hdead => fun halive => hdead ((ha p).mpr halive))

/-- `syscall_dispatch`: the call, the mark of the frame and the signals. -/
theorem confined_syscallDispatch {fuel : Nat} {r : Word × Kernel} (h : Agrees k c) (hframe : frame ≠ 0)
    (hring : k.view.ring frame) (hidle : (k.procs c).blockReason ≠ .pipeRead)
    (hrun : syscallDispatch fuel frame k = some r) (hesp : r.1 ≠ 0) : Confined (k.Movable c) k r.2 := by
  have hmark := quiet_markCurrentFrame k
  have hsame := SameHomes.markCurrentFrame k
  have hs := hmark.serves c h
  have hans := answering_syscallHandle hs.agrees hframe (hmark.view.ring _ hring)
  have hconfined := confined_syscallHandle hs.agrees hframe (hmark.view.ring _ hring) fun hwait =>
    hidle ((hsame.home c).buffer hwait).1
  unfold syscallDispatch at hrun
  rw [if_neg hframe] at hrun
  refine .after hsame hmark.alive ?_
  generalize k.markCurrentFrame = k₁ at hans hconfined hrun
  generalize syscallHandle frame k₁ = answered at hans hconfined hrun
  obtain ⟨_ | answer, k₂⟩ := answered
  · cases hrun
  have hfill := sameHomes_setFrame frame (fun f => { f with eax := answer.result }) k₂
  have hfilled := quiet_setEax frame answer.result k₂
  have hanswer := (hans answer rfl).quiet hfilled
  refine hconfined.trans (.trans (.of_same hfill hfilled.alive) ?_)
  rcases hanswer.resumes with hzero | ⟨n, hagrees, -⟩
  · dsimp only at hrun
    rw [hzero] at hrun
    exact absurd (congrArg Prod.fst (processDeliverSignals_zero hrun)) hesp
  · exact confined_processDeliverSignals hagrees.runs.queued hrun

/-- `timer_interrupt`: preemption and signals, and nobody moves at all. -/
theorem confined_timerInterrupt {fuel : Nat} {r : Word × Kernel} (h : Agrees k c) (hframe : frame ≠ 0)
    (hring : k.view.ring frame) (hrun : timerInterrupt fuel frame k = some r) : Confined A k r.2 := by
  obtain ⟨n, hn⟩ := preempted_tick h hframe hring
  have hclock : SameHomes k { k with timerTicks := (k.timerTicks + 1) % wordSize } := .of_same rfl rfl
  have hsame : SameHomes k (k.tick frame).2 := hclock.trans (.of_rescheduled (Rescheduled.schedulerPreempt _ _))
  have halive : SameAlive k (k.tick frame).2 := by
    intro p
    refine not_congr ?_
    rcases hn.state p with hs | ⟨hold, hnew⟩
    · exact iff_of_eq (congrArg (· = ProcessState.dead) hs)
    · refine iff_of_false (fun hdead => ?_) fun hdead => ?_
      · rcases hnew with hs | hs <;> cases hs.symm.trans hdead
      · rcases hold with hs | hs <;> cases hs.symm.trans hdead
  rw [timerInterrupt_eq] at hrun
  exact (Confined.of_same hsame halive).trans (confined_processDeliverSignals hn.runs.queued hrun)

/-- `page_fault_dispatch`: a page of the process is mapped or copied, or the process dies. -/
theorem confined_pageFaultDispatch {errorCode faultAddr : Word} (h : Agrees k c) (hframe : frame ≠ 0)
    (hring : k.view.ring frame) (hfault : k.mem.GenuineFault errorCode faultAddr) :
    Confined {c} k (pageFaultDispatch frame errorCode faultAddr k).2 := by
  unfold pageFaultDispatch
  split
  · exact .refl _ k
  rw [h.runs.current]
  dsimp only
  have hmem : Quiet k (k.withMem (k.mem.vmHandlePageFault (k.procs c) faultAddr errorCode).2) :=
    Quiet.withMem (k.mem.vmHandlePageFault_active _ _ _)
  have hhelped : Confined {c} k (k.withMem (k.mem.vmHandlePageFault (k.procs c) faultAddr errorCode).2) := by
    intro m0 S hk
    obtain ⟨d, hd, hdwells, hactive, htracks⟩ := hk.loaded h
    obtain ⟨S', hprepared⟩ := htracks.prepares_fault hd hactive hdwells.toLivesIn hfault
    exact ⟨S', hk.prepared h hd hdwells hprepared⟩
  generalize k.mem.vmHandlePageFault (k.procs c) faultAddr errorCode = r at hmem hhelped
  split
  · exact hhelped
  · have hs := hmem.serves c h
    obtain ⟨hleft, -⟩ := dieOfFault_left hs.agrees hframe (hs.view.ring _ hring) (faultExitCode r.1)
    exact hhelped.trans (.of_same (sameHomes_dieOfFault c _ _ _) (hleft.sameAlive (Homes.alive_of_runs hs.agrees)))

/-! ### Traps -/

/-- What a trap pushes is what the processor pushes for the program that runs. -/
def Trap.Genuine (trap : Trap) (k : Kernel) : Prop :=
  match trap with
  | .pageFault _ errorCode faultAddr => k.mem.GenuineFault errorCode faultAddr
  | _ => True

/-- **A trap** moves its process, and into slots in which nobody lives. -/
theorem confined_trap {fuel : Nat} {trap : Trap} (h : Agrees k c) (hidle : (k.procs c).blockReason ≠ .pipeRead)
    (hring : isRing3 trap.registers.cs = true) (hgenuine : trap.Genuine k)
    (hrun : trap.handle fuel k = some (esp, k')) (hesp : esp ≠ 0) : Confined (k.Movable c) k k' := by
  have hframe := trap_frame_ne_zero h trap
  have henter := quiet_enter k hring
  have hsame : SameHomes k (trap.enter k) := .of_same rfl rfl
  have hs := henter.serves c h
  have hpushed := ring_enter k hring
  refine .after hsame henter.alive ?_
  cases trap with
  | syscall registers =>
    exact confined_syscallDispatch hs.agrees hframe hpushed
      (fun hwait => hidle ((hsame.home c).buffer hwait).1) hrun hesp
  | timer registers => exact confined_timerInterrupt hs.agrees hframe hpushed hrun
  | pageFault registers errorCode faultAddr =>
    obtain ⟨rfl, rfl⟩ := Prod.mk.inj (Option.some.inj hrun)
    exact (confined_pageFaultDispatch hs.agrees hframe hpushed hgenuine).mono (Kernel.self_movable _ c)

end AgenticOs
