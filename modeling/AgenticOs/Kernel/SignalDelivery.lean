import AgenticOs.Kernel.Bystanders
import AgenticOs.Kernel.Runs
import AgenticOs.Lib.Loop

/-!
# The loop of `process_deliver_signals`

A round ends the running process by a fatal signal, or clears its `SIGCHLD`.

* **Processes** (`Process.Settled`): what the delivery does to a process. It is spared, with its fatal signals
  and the record of its death, or it has died of the fatal signal that is looked for first (`Process.Slain`).
* **Rounds** (`Kernel.signalRounds`): the first kind leaves one process less alive, whatever the end of a
  process does to the others; the second clears a bit. Nobody gets a fatal signal on the way.
* **Termination** (`processDeliverSignals_total`): so the loop ends, in every state whose ready queue is in
  order. It is the loop rule of `Lib/Loop.lean` with the rounds that are left as the variant.
* **Main result** (`signals_delivered`): the delivery ends, whoever it returns to has no signal left, and who
  has died has died of `SIGKILL` if that was pending, and of `SIGTERM` otherwise.
-/

namespace AgenticOs

open Function Lib

/-- The fatal signal that `process_deliver_signals` looks for first. -/
def Process.killer (p : Process) : Nat := if p.fatalSignals.1 then sigKill else sigTerm

/-- A process goes on to live, or to be dead, with its fatal signals and the record of its death. -/
structure Process.Spared (p q : Process) : Prop where
  state : q.state = p.state ∨ p.Lives ∧ q.Lives
  death : q.death = p.death
  signals : q.fatalSignals = p.fatalSignals

/-- A process has died of its pending signal. -/
structure Process.Slain (p q : Process) : Prop where
  lives : p.Lives
  pending : p.fatalSignals ≠ (false, false)
  zombie : q.state = .zombie
  killed : q.killedBySignal = BitVec.ofNat 32 p.killer

/-- What the delivery of signals does to a process. -/
def Process.Settled (p q : Process) : Prop := p.Spared q ∨ p.Slain q

namespace Process

variable {p q r : Process}

/-- Nothing has happened to the process. -/
theorem Spared.refl (p : Process) : p.Spared p := ⟨.inl rfl, rfl, rfl⟩

/-- A process that is spared lives as it did. -/
theorem Spared.lives (h : p.Spared q) : q.Lives ↔ p.Lives := by
  rcases h.state with hs | ⟨hp, hq⟩
  · unfold Lives
    rw [hs]
  · exact iff_of_true hq hp

/-- Spared twice. -/
theorem Spared.trans (h : p.Spared q) (h' : q.Spared r) : p.Spared r where
  state := by
    rcases h'.state with hs | ⟨hq, hr⟩
    · rcases h.state with hs' | ⟨hp, hq⟩
      · exact .inl (hs.trans hs')
      · refine .inr ⟨hp, ?_⟩
        unfold Lives
        rw [hs]
        exact hq
    · exact .inr ⟨h.lives.mp hq, hr⟩
  death := h'.death.trans h.death
  signals := h'.signals.trans h.signals

/-- The signal that it would die of is the same. -/
theorem Spared.killer (h : p.Spared q) : q.killer = p.killer := by
  unfold Process.killer
  rw [h.signals]

/-- A process that has been slain does not live. -/
theorem Slain.not_lives (h : p.Slain q) : ¬ q.Lives := fun hq => hq.1 h.zombie

/-- A process that has been slain stays so. -/
theorem Slain.spared (h : p.Slain q) (h' : q.Spared r) : p.Slain r where
  lives := h.lives
  pending := h.pending
  zombie := (h'.state.resolve_right fun hq => h.not_lives hq.1).trans h.zombie
  killed := (congrArg Prod.snd h'.death).trans h.killed

/-- Two rounds after one another. -/
theorem Settled.trans (h : p.Settled q) (h' : q.Settled r) : p.Settled r := by
  rcases h with h | h
  · rcases h' with h' | h'
    · exact .inl (h.trans h')
    · refine .inr ⟨h.lives.mp h'.lives, ?_, h'.zombie, ?_⟩
      · rw [← h.signals]
        exact h'.pending
      · rw [← h.killer]
        exact h'.killed
  · rcases h' with h' | h'
    · exact .inr (h.spared h')
    · exact absurd h'.lives h.not_lives

/-- Nobody is born while signals are delivered. -/
theorem Settled.lives (h : p.Settled q) (hq : q.Lives) : p.Lives := by
  rcases h with h | h
  · exact h.lives.mp hq
  · exact h.lives

end Process

/-! ### The queue, when the current process ends -/

namespace Scheduler

variable {ι : Type*} [DecidableEq ι] {s : Scheduler ι} {c n : ι} {esp : Word}

/-- A process that has been dequeued and cannot be resumed goes to the end of the queue. -/
theorem Queued.requeue (h : s.Queued) (hn : n ∈ s.readyQueue) :
    ({ s with readyQueue := s.readyQueue.erase n }.enqueue n).Queued := by
  obtain ⟨s', hsame, -, heq⟩ := ({ s with readyQueue := s.readyQueue.erase n } : Scheduler ι).enqueue_eq n
  have hqueue : s'.readyQueue = s.readyQueue.erase n := hsame.queue
  have hstate (p : ι) : (s'.procs p).state = (s.procs p).state := hsame.state p
  rw [heq]
  constructor
  · intro p
    show p ∈ s'.readyQueue ++ [n] ↔ _
    rw [List.mem_append, List.mem_singleton, hqueue, hstate p, ← h.mem p]
    by_cases hp : p = n
    · subst hp
      exact iff_of_true (.inr rfl) hn
    · rw [List.mem_erase_of_ne hp]
      exact or_iff_left hp
  · show (s'.readyQueue ++ [n]).Nodup
    rw [hqueue]
    exact List.nodup_append.mpr ⟨h.nodup.erase n, List.nodup_singleton n, fun a ha b hb hab =>
      h.nodup.not_mem_erase (List.mem_singleton.mp hb ▸ hab ▸ ha)⟩
  · intro p hp
    exact hsame.current.trans (h.running p ((hstate p).symm.trans hp))

/-- A process that has been dequeued runs. -/
theorem Queued.dispatch (h : s.Queued) (hn : n ∈ s.readyQueue)
    (hrun : ∀ p, (s.procs p).state ≠ .running) :
    ({ s with readyQueue := s.readyQueue.erase n }.ageReadyQueue.dispatch n).Queued := by
  have hsame := sameStates_ageReadyQueue ({ s with readyQueue := s.readyQueue.erase n } : Scheduler ι)
  generalize ({ s with readyQueue := s.readyQueue.erase n } : Scheduler ι).ageReadyQueue = s' at hsame
  have hqueue : s'.readyQueue = s.readyQueue.erase n := hsame.queue
  have hother (p : ι) (hp : p ≠ n) : ((s'.dispatch n).procs p).state = (s.procs p).state := by
    rw [dispatch_of_ne hp]
    exact hsame.state p
  have hself := (s'.dispatch_self n).2
  constructor
  · intro p
    show p ∈ s'.readyQueue ↔ _
    rw [hqueue]
    by_cases hp : p = n
    · subst hp
      refine iff_of_false h.nodup.not_mem_erase ?_
      rw [hself]
      decide
    · rw [List.mem_erase_of_ne hp, hother p hp, h.mem p]
  · show s'.readyQueue.Nodup
    rw [hqueue]
    exact h.nodup.erase n
  · intro p hp
    by_cases hpn : p = n
    · subst hpn
      rfl
    · rw [hother p hpn] at hp
      exact absurd hp (hrun p)

/-- What `scheduler_exit_current` does to the states, where the current process has ended. -/
structure Exited (s s' : Scheduler ι) (c : ι) : Prop where
  queued : s'.Queued
  zombie : (s'.procs c).state = .zombie
  state : ∀ p, p ≠ c → (s'.procs p).state = (s.procs p).state ∨
    (s.procs p).state = .ready ∧ (s'.procs p).state = .running

/-- The current process leaves, and the best ready one runs, if there is one. -/
theorem Queued.exitCurrent (h : s.Queued) (hc : s.current = some c)
    (hz : (s.procs c).state = .zombie) (hesp : esp ≠ 0) :
    Exited s (s.schedulerExitCurrent esp).2 c := by
  unfold schedulerExitCurrent schedulerStopCurrentLocked
  rw [hc]
  dsimp only
  rw [if_neg hesp]
  have hstop : (s.setProc c fun p =>
      { p with esp := esp, interruptFrame := true, state := .zombie }).Queued :=
    h.setOther (by rw [hz]; decide) nofun nofun
  have hzombie : ((s.setProc c fun p =>
      { p with esp := esp, interruptFrame := true, state := .zombie }).procs c).state = .zombie := by
    rw [setProc_self]
  have hother (p : ι) (hp : p ≠ c) : ((s.setProc c fun p =>
      { p with esp := esp, interruptFrame := true, state := .zombie }).procs p).state =
        (s.procs p).state := by
    rw [setProc_of_ne hp]
  have hcurrent : (s.setProc c fun p =>
      { p with esp := esp, interruptFrame := true, state := .zombie }).current = some c := hc
  generalize s.setProc c _ = s' at hstop hzombie hother hcurrent
  cases hbest : s'.findBestReady with
  | none =>
    rw [dequeueBest_none hbest]
    exact ⟨hstop, hzombie, fun p hp => .inl (hother p hp)⟩
  | some n =>
    rw [dequeueBest_some hbest]
    dsimp only
    have hn := findBestReady_mem hbest
    have hready := (hstop.mem n).mp hn
    split
    · have hkept (p : ι) : (({ s' with readyQueue := s'.readyQueue.erase n } : Scheduler ι).enqueue n
          |>.procs p).state = (s'.procs p).state := (enqueue_kept _ n p).2
      exact ⟨hstop.requeue hn, (hkept c).trans hzombie, fun p hp => .inl ((hkept p).trans (hother p hp))⟩
    · have hne : c ≠ n := by
        rintro rfl
        rw [hzombie] at hready
        cases hready
      have hrun (p : ι) : (s'.procs p).state ≠ .running := by
        intro hp
        obtain rfl : c = p := Option.some.inj (hcurrent.symm.trans (hstop.running p hp))
        rw [hzombie] at hp
        cases hp
      have haged := sameStates_ageReadyQueue
        ({ s' with readyQueue := s'.readyQueue.erase n } : Scheduler ι)
      refine ⟨hstop.dispatch hn hrun, ?_, fun p hp => ?_⟩
      · show ((Scheduler.dispatch _ n).procs c).state = .zombie
        rw [dispatch_of_ne hne]
        exact (haged.state c).trans hzombie
      · by_cases hpn : p = n
        · subst hpn
          exact .inr ⟨(hother p hp).symm.trans hready, (dispatch_self _ p).2⟩
        · refine .inl ?_
          show ((Scheduler.dispatch _ n).procs p).state = _
          rw [dispatch_of_ne hpn]
          exact (haged.state p).trans (hother p hp)

end Scheduler

/-! ### The end of the running process -/

variable {k k' : Kernel} {c p : Slot} {frameEsp : Word}

/-- A quiet step that leaves deaths alone spares everybody. -/
theorem spared_of_quiet (hq : Quiet k k') (hu : Undisturbed k k') (p : Slot) :
    (k.procs p).Spared (k'.procs p) where
  state := by
    refine (hq.state p).imp_right fun ⟨hb, hr⟩ => ?_
    unfold Process.Lives
    rw [hb, hr]
    decide
  death := hu.death p
  signals := hu.signals p

/-- A change of one process that keeps its state. -/
theorem queued_setProc (h : k.Queued) {f : Process → Process}
    (hf : (f (k.procs c)).state = (k.procs c).state) : (k.setProc c f).Queued := by
  refine h.same (fun p => ?_) rfl rfl
  show ((k.setProc c f).procs p).state = _
  by_cases hp : p = c
  · subst hp
    rw [Kernel.setProc_self]
    exact hf
  · rw [k.setProc_of_ne hp]

/-- The current process has ended, and the others are spared. -/
structure Ends (k k' : Kernel) (c : Slot) : Prop where
  queued : k'.Queued
  current : k'.current = some c
  zombie : (k'.procs c).state = .zombie
  spared : ∀ p, p ≠ c → (k.procs p).Spared (k'.procs p)

/-- A quiet step after the end. -/
theorem Ends.quiet {k'' : Kernel} (h : Ends k k' c) (hq : Quiet k' k'') (hu : Undisturbed k' k'') :
    Ends k k'' c where
  queued := hu.queued h.queued
  current := hq.current.trans h.current
  zombie := by
    rw [hq.state_eq (by rw [h.zombie]; decide)]
    exact h.zombie
  spared := fun p hp => (h.spared p hp).trans (spared_of_quiet hq hu p)

/-- `endProcess` ends the current process. -/
theorem endProcess_ends (h : k.Queued) (hrun : (k.procs c).state = .running) (exitCode : Word) :
    Ends k (endProcess c exitCode k).2 c := by
  have hremove : k.onScheduler (·.schedulerRemove c) = k := by
    have hsched : k.toScheduler.schedulerRemove c = k.toScheduler := h.remove_running hrun
    unfold Kernel.onScheduler
    dsimp only
    rw [hsched]
  unfold endProcess
  rw [run_bind, run_onScheduler, hremove, run_bind, run_modifyProc, run_bind, run_modifyProc]
  dsimp only
  have hqueued₁ : (k.setProc c fun p =>
      { p with exitCode := if exitCode.msb then exitCode else exitCode &&& 0xFF, exited := true }).Queued :=
    queued_setProc h rfl
  generalize hk₁ : k.setProc c _ = k₁ at hqueued₁ ⊢
  have hother₁ (p : Slot) (hp : p ≠ c) : k₁.procs p = k.procs p := by
    rw [← hk₁]
    exact k.setProc_of_ne hp _
  have hrun₁ : (k₁.procs c).state = .running := by
    rw [← hk₁, Kernel.setProc_self]
    exact hrun
  have hquiet := quiet_processFdCloseAll c k₁
  have hnear := undisturbed_processFdCloseAll c k₁
  generalize (processFdCloseAll c k₁).2 = k₂ at hquiet hnear ⊢
  have hrun₂ : (k₂.procs c).state = .running := (hquiet.state_running c).mpr hrun₁
  have hended : (k₂.toScheduler.setProc c fun p =>
      { p with state := .zombie, blockReason := .none }).Queued :=
    (hnear.queued hqueued₁).setOther (by rw [hrun₂]; decide) nofun nofun
  refine ⟨hended, ?_, ?_, fun p hp => ?_⟩
  · exact (hnear.queued hqueued₁).running c hrun₂
  · rw [Kernel.setProc_self]
  · have hspared := spared_of_quiet hquiet hnear p
    rw [hother₁ p hp] at hspared
    rw [k₂.setProc_of_ne hp]
    exact hspared

/-- So does `process_mark_exit`; the others are told, and spared. -/
theorem processMarkExit_ends (h : k.Queued) (hrun : (k.procs c).state = .running) (exitCode : Word) :
    Ends k (processMarkExit c exitCode k).2 c := by
  unfold processMarkExit
  rw [run_bind, run_getProc, run_ite, if_neg (by rw [hrun]; decide), run_bind]
  exact (endProcess_ends h hrun exitCode).quiet (quiet_tellFamily c _) (undisturbed_tellFamily c _)

/-- The running process has died of a signal, and the others are spared. -/
structure DiesOf (k k' : Kernel) (c : Slot) (signum : Nat) : Prop where
  queued : k'.Queued
  zombie : (k'.procs c).state = .zombie
  killed : (k'.procs c).killedBySignal = BitVec.ofNat 32 signum
  spared : ∀ p, p ≠ c → (k.procs p).Spared (k'.procs p)

/-- A process that has ended by a signal is left by the scheduler. -/
theorem Ends.exitCurrent {signum : Nat} (h : Ends k k' c) (hesp : frameEsp ≠ 0)
    (hkilled : (k'.procs c).killedBySignal = BitVec.ofNat 32 signum) :
    DiesOf k (k'.onScheduler fun s => (s.schedulerExitCurrent frameEsp).2) c signum := by
  have hexit := h.queued.exitCurrent h.current h.zombie hesp
  have hsame := Rescheduled.schedulerExitCurrent k'.toScheduler frameEsp
  refine ⟨hexit.queued, hexit.zombie, ?_, fun p hp => (h.spared p hp).trans ⟨?_, ?_, ?_⟩⟩
  · exact (congrArg Prod.snd (hsame.procs c).death).trans hkilled
  · refine (hexit.state p hp).imp_right fun ⟨hready, hnext⟩ => ?_
    show (k'.toScheduler.procs p).Lives ∧ ((k'.toScheduler.schedulerExitCurrent frameEsp).2.procs p).Lives
    unfold Process.Lives
    rw [hready, hnext]
    decide
  · exact (hsame.procs p).death
  · exact (hsame.procs p).fatalSignals

/-- **A process dies of a signal.** -/
theorem dieOfSignal_dies (h : k.Queued) (hrun : (k.procs c).state = .running) (hesp : frameEsp ≠ 0)
    (signum : Nat) : DiesOf k (dieOfSignal c signum frameEsp k).2 c signum := by
  unfold dieOfSignal
  rw [run_bind, run_modifyProc, run_bind, run_callScheduler]
  dsimp only
  have hqueued : (k.setProc c fun p =>
      { p with
        pendingSignals := p.pendingSignals &&& ~~~signalBit signum
        killedBySignal := BitVec.ofNat 32 signum }).Queued := queued_setProc h rfl
  generalize hk₁ : k.setProc c _ = k₁ at hqueued ⊢
  have hother (p : Slot) (hp : p ≠ c) : k₁.procs p = k.procs p := by
    rw [← hk₁]
    exact k.setProc_of_ne hp _
  have hself : (k₁.procs c).state = .running ∧ (k₁.procs c).killedBySignal = BitVec.ofNat 32 signum := by
    rw [← hk₁, Kernel.setProc_self]
    exact ⟨hrun, rfl⟩
  have hends := processMarkExit_ends hqueued hself.1 0
  have hdeath := processMarkExit_death 0 (k := k₁) (p := c) (by rw [hself.1]; decide)
    (by rw [hself.1]; decide)
  have hdies := hends.exitCurrent hesp ((congrArg Prod.snd hdeath).trans hself.2)
  refine ⟨hdies.queued, hdies.zombie, hdies.killed, fun p hp => ?_⟩
  rw [← hother p hp]
  exact hdies.spared p hp

/-- It has died of the signal that was looked for first, and the others are spared. -/
theorem DiesOf.settled {signum : Nat} (h : DiesOf k k' c signum) (hlives : (k.procs c).Lives)
    (hpending : (k.procs c).fatalSignals ≠ (false, false)) (hsignum : signum = (k.procs c).killer)
    (p : Slot) : (k.procs p).Settled (k'.procs p) := by
  by_cases hp : p = c
  · subst hp
    exact .inr ⟨hlives, hpending, h.zombie, hsignum ▸ h.killed⟩
  · exact .inl (h.spared p hp)

/-! ### How many rounds are left -/

/-- The number of processes that have not ended. -/
def Kernel.livingCount (k : Kernel) : Nat := (Finset.univ.filter fun p => (k.procs p).Lives).card

/-- At most all processes live. -/
theorem livingCount_le (k : Kernel) : k.livingCount ≤ maxProcesses :=
  (Finset.card_filter_le _ _).trans (Finset.card_fin maxProcesses).le

/-- One process less lives. -/
theorem livingCount_lt (h : ∀ p, (k'.procs p).Lives → (k.procs p).Lives) (hc : (k.procs c).Lives)
    (hc' : ¬ (k'.procs c).Lives) : k'.livingCount < k.livingCount := by
  refine Finset.card_lt_card (Finset.ssubset_iff_of_subset ?_ |>.mpr ⟨c, ?_, ?_⟩)
  · exact Finset.monotone_filter_right _ fun p _ => h p
  · exact Finset.mem_filter.mpr ⟨Finset.mem_univ c, hc⟩
  · exact fun hm => hc' (Finset.mem_filter.mp hm).2

/-- The rounds that `process_deliver_signals` has left: one for each process that may still die, one
for each `SIGCHLD` to clear. -/
def Kernel.signalRounds (k : Kernel) (c : Slot) : Nat :=
  2 * k.livingCount + if test (k.procs c).pendingSignals (signalBit sigChld) then 1 else 0

/-- Clearing `SIGCHLD` is one round. -/
theorem signalRounds_clearChld (h : test (k.procs c).pendingSignals (signalBit sigChld) = true) :
    (k.setProc c fun p => { p with pendingSignals := p.pendingSignals &&& ~~~signalBit sigChld }
      ).signalRounds c < k.signalRounds c := by
  generalize hk' : k.setProc c _ = k'
  have hself : (k'.procs c).pendingSignals =
      (k.procs c).pendingSignals &&& ~~~signalBit sigChld := by
    subst hk'
    rw [Kernel.setProc_self]
  have hcleared : test (k'.procs c).pendingSignals (signalBit sigChld) = false := by
    rw [hself]
    unfold signalBit
    rw [test_twoPow (by decide), bit_and, bit_not (by decide), bit_twoPow]
    simp [sigChld]
  have hcount : k'.livingCount = k.livingCount := by
    unfold Kernel.livingCount
    congr 1
    refine Finset.filter_congr fun p _ => ?_
    subst hk'
    by_cases hp : p = c
    · subst hp
      rw [Kernel.setProc_self]
      rfl
    · rw [k.setProc_of_ne hp]
  unfold Kernel.signalRounds
  rw [hcount, hcleared, h]
  exact Nat.lt_succ_self _

/-- The rounds that are left, for the process that runs. -/
def Kernel.roundsLeft (k : Kernel) : Nat :=
  match k.processGetCurrent with
  | none => 0
  | some current => k.signalRounds current

/-- The rounds of `process_deliver_signals` never exceed this bound. -/
def signalRoundsMax : Nat := 2 * maxProcesses + 2

/-- Two rounds for each living process, and one more, are enough. -/
theorem signalRounds_le (k : Kernel) (c : Slot) : k.signalRounds c ≤ 2 * k.livingCount + 1 := by
  unfold Kernel.signalRounds
  split <;> omega

/-- And so they are for the process that runs. -/
theorem roundsLeft_le (k : Kernel) : k.roundsLeft ≤ 2 * k.livingCount + 1 := by
  unfold Kernel.roundsLeft
  split
  · exact Nat.zero_le _
  · exact signalRounds_le k _

/-- So the bound of the loop is never reached. -/
theorem roundsLeft_lt_max (k : Kernel) : k.roundsLeft < signalRoundsMax := by
  have hrounds := roundsLeft_le k
  have hliving := livingCount_le k
  unfold signalRoundsMax
  omega

/-! ### The loop -/

/-- A process that runs is the one that `process_get_current` finds. -/
theorem processGetCurrent_of_running (h : k.Queued) (hrun : (k.procs c).state = .running) :
    k.processGetCurrent = some c := by
  unfold Kernel.processGetCurrent
  rcases hf : slots.find? fun i => (k.procs i).state = .running with _ | i
  · have hnone := List.find?_eq_none.mp hf c (List.mem_finRange c)
    rw [hrun] at hnone
    exact absurd rfl hnone
  · have hi := List.find?_some hf
    have hcurrent := h.running i (by simpa using hi)
    exact hcurrent.symm.trans (h.running c hrun)

/-- The current process runs. -/
theorem running_of_processGetCurrent (h : k.processGetCurrent = some c) :
    (k.procs c).state = .running := by
  simpa using List.find?_some h

/-- The body of the loop: none after the last round. -/
def deliverRound (s : Word × Kernel) : Option (Word × Kernel) :=
  match s.2.processGetCurrent with
  | none => none
  | some current =>
    if s.1 = 0 ∨ isRing3 (s.2.frameAt s.1).cs = false then none
    else if (s.2.procs current).fatalSignals ≠ (false, false) then
      some (dieOfSignal current (s.2.procs current).killer s.1 s.2)
    else if test (s.2.procs current).pendingSignals (signalBit sigChld) then
      some (s.1, s.2.setProc current fun p =>
        { p with pendingSignals := p.pendingSignals &&& ~~~signalBit sigChld })
    else none

/-- `process_deliver_signals` is the loop of its rounds. -/
theorem processDeliverSignals_eq (fuel : Nat) (frameEsp : Word) (k : Kernel) :
    processDeliverSignals fuel frameEsp k = loop deliverRound fuel (frameEsp, k) := by
  induction fuel generalizing frameEsp k with
  | zero => rfl
  | succ fuel ih =>
    unfold processDeliverSignals
    cases hcurrent : k.processGetCurrent with
    | none =>
      have hround : deliverRound (frameEsp, k) = none := by
        simp only [deliverRound, hcurrent]
      exact (loop_last hround fuel).symm
    | some current =>
      dsimp only
      by_cases hframe : frameEsp = 0 ∨ isRing3 (k.frameAt frameEsp).cs = false
      · have hround : deliverRound (frameEsp, k) = none := by
          simp only [deliverRound, hcurrent, if_pos hframe]
        rw [if_pos hframe, loop_last hround]
      rw [if_neg hframe]
      by_cases hkill : test (k.procs current).pendingSignals (signalBit sigKill) = true
      · have hround : deliverRound (frameEsp, k) = some (dieOfSignal current sigKill frameEsp k) := by
          simp only [deliverRound, hcurrent, if_neg hframe]
          simp [Process.killer, Process.fatalSignals, hkill]
        rw [if_pos hkill, loop_round hround]
        exact ih _ _
      by_cases hterm : test (k.procs current).pendingSignals (signalBit sigTerm) = true
      · have hround : deliverRound (frameEsp, k) = some (dieOfSignal current sigTerm frameEsp k) := by
          simp only [deliverRound, hcurrent, if_neg hframe]
          simp [Process.killer, Process.fatalSignals, hkill, hterm]
        rw [if_neg hkill, if_pos hterm, loop_round hround]
        exact ih _ _
      rw [if_neg hkill, if_neg hterm]
      by_cases hchld : test (k.procs current).pendingSignals (signalBit sigChld) = true
      · have hround : deliverRound (frameEsp, k) = some (frameEsp, k.setProc current fun p =>
            { p with pendingSignals := p.pendingSignals &&& ~~~signalBit sigChld }) := by
          simp only [deliverRound, hcurrent, if_neg hframe]
          simp [Process.fatalSignals, hkill, hterm, hchld]
        rw [if_pos hchld, loop_round hround]
        exact ih _ _
      · have hround : deliverRound (frameEsp, k) = none := by
          simp only [deliverRound, hcurrent, if_neg hframe]
          simp [Process.fatalSignals, hkill, hterm, hchld]
        rw [if_neg hchld, loop_last hround]

/-- Clearing `SIGCHLD` spares everybody. -/
theorem noted_clearChld (p : Process) :
    p.Noted { p with pendingSignals := p.pendingSignals &&& ~~~signalBit sigChld } :=
  ⟨rfl, rfl, fatalSignals_clearChld p⟩

/-- What the delivery of signals does to all processes. -/
def Settles (s t : Word × Kernel) : Prop := ∀ p, (s.2.procs p).Settled (t.2.procs p)

instance : IsPreorder (Word × Kernel) Settles where
  refl _ _ := .inl (.refl _)
  trans _ _ _ h h' p := (h p).trans (h' p)

/-- One round. -/
theorem deliverRound_some {s t : Word × Kernel} (h : s.2.Queued) (hround : deliverRound s = some t) :
    t.2.Queued ∧ Settles s t ∧ t.2.roundsLeft < s.2.roundsLeft := by
  unfold deliverRound at hround
  split at hround
  · cases hround
  rename_i c hcurrent
  have hrun := running_of_processGetCurrent hcurrent
  have hlives : (s.2.procs c).Lives := by
    unfold Process.Lives
    rw [hrun]
    decide
  have hleft : s.2.roundsLeft = s.2.signalRounds c := by
    unfold Kernel.roundsLeft
    rw [hcurrent]
  split at hround
  · cases hround
  rename_i hframe
  split at hround
  · rename_i hpending
    obtain rfl := Option.some.inj hround
    have hdies := dieOfSignal_dies h hrun (fun hz => hframe (.inl hz)) (s.2.procs c).killer
    have hsettled := hdies.settled hlives hpending rfl
    refine ⟨hdies.queued, hsettled, ?_⟩
    have hless := livingCount_lt (fun p => (hsettled p).lives) hlives fun hc => hc.1 hdies.zombie
    have hnext := roundsLeft_le (dieOfSignal c (s.2.procs c).killer s.1 s.2).2
    rw [hleft]
    unfold Kernel.signalRounds
    omega
  split at hround
  · rename_i hchld
    obtain rfl := Option.some.inj hround
    have hqueued : (s.2.setProc c fun p =>
        { p with pendingSignals := p.pendingSignals &&& ~~~signalBit sigChld }).Queued :=
      queued_setProc h rfl
    refine ⟨hqueued, fun p => .inl ?_, ?_⟩
    · by_cases hp : p = c
      · subst hp
        have hnoted := noted_clearChld (s.2.procs p)
        rw [s.2.setProc_self]
        exact ⟨.inl hnoted.state, hnoted.death, hnoted.signals⟩
      · rw [s.2.setProc_of_ne hp]
        exact .refl _
    · have hself : ((s.2.setProc c fun p =>
          { p with pendingSignals := p.pendingSignals &&& ~~~signalBit sigChld }).procs c).state =
            .running := by
        rw [s.2.setProc_self]
        exact hrun
      have hless := signalRounds_clearChld hchld
      rw [hleft]
      unfold Kernel.roundsLeft
      rw [processGetCurrent_of_running hqueued hself]
      exact hless
  · cases hround

/-- `SIGKILL`, `SIGTERM` and `SIGCHLD` are not pending. -/
def Process.NothingPending (p : Process) : Prop :=
  ∀ signum ∈ [sigKill, sigTerm, sigChld], test p.pendingSignals (signalBit signum) = false

/-- After the last round. -/
theorem deliverRound_none {s : Word × Kernel} (h : s.2.Queued) (hround : deliverRound s = none)
    (hframe : s.1 ≠ 0) (hring : isRing3 (s.2.frameAt s.1).cs = true)
    (hrun : (s.2.procs p).state = .running) : (s.2.procs p).NothingPending := by
  unfold deliverRound at hround
  rw [processGetCurrent_of_running h hrun] at hround
  dsimp only at hround
  have hready : ¬ (s.1 = 0 ∨ isRing3 (s.2.frameAt s.1).cs = false) := by
    rintro (hz | hz)
    · exact hframe hz
    · rw [hring] at hz
      cases hz
  rw [if_neg hready] at hround
  split at hround
  · cases hround
  rename_i hfatal
  split at hround
  · cases hround
  rename_i hchld
  have hnone := not_not.mp hfatal
  intro signum hsignum
  simp only [List.mem_cons, List.not_mem_nil, or_false] at hsignum
  rcases hsignum with rfl | rfl | rfl
  · exact congrArg Prod.fst hnone
  · exact congrArg Prod.snd hnone
  · exact Bool.eq_false_iff.mpr hchld

/-- The loop ends, whatever the signals and whoever is woken. -/
theorem processDeliverSignals_total (h : k.Queued) (frameEsp : Word) :
    ∃ r : Word × Kernel,
      (∀ fuel, k.roundsLeft < fuel → processDeliverSignals fuel frameEsp k = some r) ∧
      r.2.Queued ∧ Settles (frameEsp, k) r ∧ deliverRound r = none := by
  obtain ⟨r, hends, hqueued, hsettles, hlast⟩ :=
    loop_total (I := fun s : Word × Kernel => s.2.Queued) (R := Settles) (fun s => s.2.roundsLeft)
      (fun s t hs hround => deliverRound_some hs hround) (s := (frameEsp, k)) h
  refine ⟨r, fun fuel hfuel => ?_, hqueued, hsettles, hlast⟩
  rw [processDeliverSignals_eq]
  exact hends fuel hfuel

/-- **The delivery of signals ends**, and whoever it returns to has no signal left; who has died has
died of `SIGKILL`, if that was pending, and of `SIGTERM` otherwise. -/
theorem signals_delivered (h : k.toScheduler.Queued) (frameEsp : Word) :
    ∃ r : Word × Kernel,
      (∀ fuel, signalRoundsMax ≤ fuel → processDeliverSignals fuel frameEsp k = some r) ∧
      (r.1 ≠ 0 → isRing3 (r.2.frameAt r.1).cs = true →
        ∀ p, (r.2.procs p).state = .running → (r.2.procs p).NothingPending) ∧
      ∀ p, (k.procs p).Lives → ¬ (r.2.procs p).Lives →
        (k.procs p).fatalPending = true ∧ (r.2.procs p).state = .zombie ∧
          (r.2.procs p).killedBySignal =
            if test (k.procs p).pendingSignals (signalBit sigKill) then BitVec.ofNat 32 sigKill
            else BitVec.ofNat 32 sigTerm := by
  obtain ⟨r, hends, hqueued, hsettles, hlast⟩ := processDeliverSignals_total h frameEsp
  refine ⟨r, fun fuel hfuel => hends fuel ((roundsLeft_lt_max k).trans_le hfuel), ?_, fun p hp hr => ?_⟩
  · intro hframe hring p hrun
    exact deliverRound_none hqueued hlast hframe hring hrun
  · rcases hsettles p with hspared | hslain
    · exact absurd (hspared.lives.mpr hp) hr
    refine ⟨?_, hslain.zombie, ?_⟩
    · have hpending := hslain.pending
      unfold Process.fatalSignals at hpending
      unfold Process.fatalPending
      grind
    · rw [hslain.killed]
      unfold Process.killer
      split <;> rename_i hkill
      · exact (if_pos hkill).symm
      · exact (if_neg hkill).symm

/-- The only process has been sent both fatal signals. -/
def Kernel.doomed : Kernel :=
  (Kernel.solo.setFrame 4 fun _ => ring3Registers 0 0 0).setProc 0 fun p =>
    { p with pendingSignals := signalBit sigKill ||| signalBit sigTerm }

/-- The queue of the one process is in order. -/
theorem queued_doomed : Kernel.doomed.Queued := by
  obtain ⟨c, hc, -⟩ := boot_solo.agrees
  have hsolo : (Kernel.solo.setFrame 4 fun _ => ring3Registers 0 0 0).Queued := hc.runs.queued
  exact queued_setProc hsolo rfl

/-- It dies of `SIGKILL`. -/
theorem signals_delivered_doomed :
    ∃ r : Word × Kernel,
      (∀ fuel, signalRoundsMax ≤ fuel → processDeliverSignals fuel 4 .doomed = some r) ∧
      (r.2.procs 0).killedBySignal = BitVec.ofNat 32 sigKill := by
  obtain ⟨r, hends, -, hkilled⟩ := signals_delivered queued_doomed 4
  have hzombie : (processDeliverSignals signalRoundsMax 4 .doomed).map (fun r => (r.2.procs 0).state) =
      some .zombie := by decide
  rw [hends _ le_rfl] at hzombie
  have hdead : ¬ (r.2.procs 0).Lives := fun hlives => hlives.1 (Option.some.inj hzombie)
  exact ⟨r, hends, (hkilled 0 (by decide) hdead).2.2⟩

end AgenticOs
