import AgenticOs.Kernel.Quiet
import AgenticOs.Kernel.Rescheduled

/-!
# The others, when a process ends

`process_mark_exit` closes the descriptors of a process and tells its family, which wakes sleepers and raises
`SIGCHLD`.

* **The others** (`Undisturbed`): what the end of a process leaves alone in every other one: the record of its
  death, its fatal signals, and that the ready queue holds the ready processes. Closing descriptors
  (`undisturbed_processFdCloseAll`) and telling the family (`undisturbed_tellFamily`) are such steps.
* **The queue** (`Queued`): each ready process is in it once and nobody else, and only the current process
  runs. A process that becomes ready goes to its end (`Queued.enqueue`), and a process that runs is not in it.
* **The record of a death** (`processMarkExit_death`): the exit code, the reason and the signal are those that
  the call was given, and no other record has changed (`SameDeaths`). An exit code that was there before is
  kept (`keptCode`).
-/

namespace AgenticOs

open Function Lib

/-- What `process_mark_exit` records of a way to die. -/
def Process.death (p : Process) : Word × Word := (p.exitCode, p.killedBySignal)

/-- Rescheduling records no death. -/
theorem Process.Rescheduled.death {p q : Process} (h : p.Rescheduled q) : q.death = p.death := by
  rw [h]
  rfl

/-- Rescheduling sends no signal. -/
theorem Process.Rescheduled.fatalSignals {p q : Process} (h : p.Rescheduled q) :
    q.fatalSignals = p.fatalSignals := by
  rw [h]
  rfl

namespace Scheduler

variable {ι : Type*} {s s' : Scheduler ι} {p : ι}

/-- The ready queue holds each ready process once and no other, and only the current process runs. -/
structure Queued (s : Scheduler ι) : Prop where
  mem : ∀ p, p ∈ s.readyQueue ↔ (s.procs p).state = .ready
  nodup : s.readyQueue.Nodup
  running : ∀ p, (s.procs p).state = .running → s.current = some p

/-- A step that keeps the states keeps the queue. -/
theorem Queued.same (h : s.Queued) (hstate : ∀ p, (s'.procs p).state = (s.procs p).state)
    (hqueue : s'.readyQueue = s.readyQueue) (hcurrent : s'.current = s.current) : s'.Queued where
  mem := by
    intro p
    rw [hqueue, hstate p]
    exact h.mem p
  nodup := by
    rw [hqueue]
    exact h.nodup
  running := by
    intro p hp
    rw [hcurrent]
    exact h.running p ((hstate p).symm.trans hp)

/-- A scheduler that runs a process has its queue in order. -/
theorem Runs.queued {v : View} {c : ι} (h : s.Runs v c) : s.Queued where
  mem := by
    intro p
    rw [h.ordered.mem p]
    exact and_iff_left (Set.notMem_empty p)
  nodup := h.ordered.nodup
  running := by
    intro p hp
    rw [h.current, (h.running p).mp hp]

variable [DecidableEq ι]

/-- A process that is not in the queue gets a state in which it need not be. -/
theorem Queued.setOther (h : s.Queued) {f : Process → Process}
    (hold : (s.procs p).state ≠ .ready) (hready : (f (s.procs p)).state ≠ .ready)
    (hrun : (f (s.procs p)).state ≠ .running) : (s.setProc p f).Queued where
  mem := by
    intro q
    show q ∈ s.readyQueue ↔ _
    rw [h.mem q]
    by_cases hq : q = p
    · subst hq
      rw [setProc_self]
      exact iff_of_false hold hready
    · rw [setProc_of_ne hq]
  nodup := h.nodup
  running := by
    intro q hq
    by_cases hqp : q = p
    · subst hqp
      rw [setProc_self] at hq
      exact absurd hq hrun
    · rw [setProc_of_ne hqp] at hq
      exact h.running q hq

/-- A process that becomes ready goes to the end of the queue. -/
theorem Queued.enqueue (h : s.Queued) {f : Process → Process}
    (hready : (f (s.procs p)).state = .ready) (hp : (s.procs p).state ≠ .ready) :
    ((s.setProc p f).enqueue p).Queued := by
  obtain ⟨s', hsame, -, heq⟩ := (s.setProc p f).enqueue_eq p
  have hqueue : s'.readyQueue = s.readyQueue := hsame.queue
  have hother (q : ι) (hq : q ≠ p) : (s'.procs q).state = (s.procs q).state := by
    rw [hsame.state q, setProc_of_ne hq]
  have hself : (s'.procs p).state = .ready := by
    rw [hsame.state p, setProc_self]
    exact hready
  have hout : p ∉ s.readyQueue := fun hm => hp ((h.mem p).mp hm)
  rw [heq]
  constructor
  · intro q
    show q ∈ s'.readyQueue ++ [p] ↔ _
    rw [List.mem_append, List.mem_singleton, hqueue, h.mem q]
    by_cases hq : q = p
    · subst hq
      exact iff_of_true (.inr rfl) hself
    · rw [hother q hq]
      exact or_iff_left hq
  · show (s'.readyQueue ++ [p]).Nodup
    rw [hqueue]
    exact List.nodup_append.mpr ⟨h.nodup, List.nodup_singleton p, fun a ha b hb hab =>
      hout (List.mem_singleton.mp hb ▸ hab ▸ ha)⟩
  · intro q hq
    have hne : q ≠ p := by
      rintro rfl
      have hq' : (s'.procs q).state = .running := hq
      rw [hself] at hq'
      cases hq'
    have hrun : (s.procs q).state = .running := (hother q hne).symm.trans hq
    exact hsame.current.trans (h.running q hrun)

/-- Waking a process puts it into the queue, if it was blocked. -/
theorem Queued.wake (h : s.Queued) (p : ι) : (s.schedulerWake p).Queued := by
  unfold schedulerWake
  split
  · rename_i hblocked
    refine h.enqueue rfl ?_
    rw [hblocked]
    decide
  · exact h

/-- A process that runs is not in the queue. -/
theorem Queued.remove_running (h : s.Queued) (hp : (s.procs p).state = .running) :
    s.schedulerRemove p = s := by
  have hq : p ∉ s.readyQueue := fun hm => by
    have hready := (h.mem p).mp hm
    rw [hp] at hready
    cases hready
  unfold schedulerRemove
  rw [List.erase_of_not_mem hq]

end Scheduler

variable {k k' : Kernel} {p proc : Slot}

/-- A change of a process that concerns neither its state nor its death nor a fatal signal. -/
structure Process.Noted (p q : Process) : Prop where
  state : q.state = p.state
  death : q.death = p.death
  signals : q.fatalSignals = p.fatalSignals

/-- What the end of a process leaves alone in the others. -/
structure Undisturbed (k k' : Kernel) : Prop where
  death : ∀ p, (k'.procs p).death = (k.procs p).death
  signals : ∀ p, (k'.procs p).fatalSignals = (k.procs p).fatalSignals
  queued : k.Queued → k'.Queued

namespace Undisturbed

/-- Nothing has happened. -/
theorem refl (k : Kernel) : Undisturbed k k := ⟨fun _ => rfl, fun _ => rfl, id⟩

/-- Two such steps after one another. -/
theorem trans {k'' : Kernel} (h : Undisturbed k k') (h' : Undisturbed k' k'') : Undisturbed k k'' where
  death := fun p => (h'.death p).trans (h.death p)
  signals := fun p => (h'.signals p).trans (h.signals p)
  queued := fun hq => h'.queued (h.queued hq)

instance : IsPreorder Kernel Undisturbed where
  refl := refl
  trans _ _ _ := trans

/-- All processes have changed by such a change at most, and the queue is the same. -/
theorem of_noted (h : ∀ p, (k.procs p).Noted (k'.procs p)) (hqueue : k'.readyQueue = k.readyQueue)
    (hcurrent : k'.current = k.current) : Undisturbed k k' where
  death := fun p => (h p).death
  signals := fun p => (h p).signals
  queued := fun hq => hq.same (fun p => (h p).state) hqueue hcurrent

/-- The scheduler and the table are the same. -/
theorem of_scheduler (h : k'.toScheduler = k.toScheduler) : Undisturbed k k' :=
  of_noted (fun p => by rw [h]; exact ⟨rfl, rfl, rfl⟩) (by rw [h]) (by rw [h])

/-- One process has changed by such a change. -/
theorem modifyProc {f : Process → Process} (hf : ∀ p : Process, p.Noted (f p)) :
    Rel Undisturbed (modifyProc proc f) := by
  intro k
  refine of_noted (fun p => ?_) rfl rfl
  show (k.procs p).Noted ((k.setProc proc f).procs p)
  by_cases hp : p = proc
  · subst hp
    rw [Kernel.setProc_self]
    exact hf _
  · rw [k.setProc_of_ne hp]
    exact ⟨rfl, rfl, rfl⟩

/-- A process is woken. -/
theorem wake (k : Kernel) (proc : Slot) : Undisturbed k (k.onScheduler (·.schedulerWake proc)) := by
  have hprocs (p : Slot) := (Rescheduled.schedulerWake k.toScheduler proc).procs p
  exact ⟨fun p => (hprocs p).death, fun p => (hprocs p).fatalSignals,
    fun hq => Scheduler.Queued.wake hq proc⟩

/-- The processes that wait for a pipe are woken. -/
theorem processWakePipeWaiter (pipes : Pipes) (pipeIndex : Fin maxPipes) (reason : BlockReason)
    (k : Kernel) : Undisturbed k (Kernel.processWakePipeWaiter pipes pipeIndex reason k) := by
  unfold Kernel.processWakePipeWaiter
  split
  · exact refl k
  · exact wake _ _

end Undisturbed

/-- Closing an end of a pipe. -/
theorem undisturbed_kernelPipeClose (handle : Int) : Rel Undisturbed (kernelPipeClose handle) := by
  intro k
  have h : Undisturbed k (pipeClose Kernel.processWakePipeWaiter k.pipes k handle).state := by
    rcases pipeClose_state Kernel.processWakePipeWaiter k.pipes k handle with
      h | ⟨pipes', i, reason, -, h⟩
    · rw [h]
      exact .refl k
    · rw [h]
      exact .processWakePipeWaiter _ _ _ k
  exact h.trans (.of_scheduler rfl)

/-- Closing all descriptors of a process. -/
theorem undisturbed_processFdCloseAll (proc : Slot) : Rel Undisturbed (processFdCloseAll proc) := by
  have hclose (fd : Int) : Rel Undisturbed (processFdClose proc fd) := by
    unfold processFdClose
    refine .getProc_bind fun p => ?_
    split
    · refine .bind (.modifyProc fun _ => ⟨rfl, rfl, rfl⟩) fun _ => .ite ?_ ?_
      · exact .bind (undisturbed_kernelPipeClose _) fun _ => .pure _
      · exact .bind (fun _ => .of_scheduler rfl) fun _ => .pure _
    · exact .pure _
  exact .forM fun fd _ => .getProc_bind fun p => .ite (.bind (hclose _) fun _ => .pure _) (.pure _)

/-- `SIGCHLD` is not a fatal signal. -/
theorem noted_sigChld (p : Process) :
    p.Noted { p with pendingSignals := p.pendingSignals ||| signalBit sigChld } :=
  ⟨rfl, rfl, fatalSignals_sigChld p⟩

/-- The children and the parent of a process are told that it has ended. -/
theorem undisturbed_tellFamily (proc : Slot) : Rel Undisturbed (tellFamily proc) := by
  have hwaited : Rel Undisturbed (modifyProc proc fun p => { p with waited := true }) :=
    .modifyProc fun _ => ⟨rfl, rfl, rfl⟩
  unfold tellFamily
  refine .getProc_bind fun p => .bind (.modify fun k => .of_noted (fun q => ?_) rfl rfl) fun _ => ?_
  · unfold Kernel.orphanChildren
    dsimp only
    split <;> exact ⟨rfl, rfl, rfl⟩
  refine .getProc_bind fun p => .get_bind fun k => ?_
  split
  · exact hwaited
  refine .ite hwaited (.bind ?_ fun _ => ?_)
  · unfold processSendSignal
    exact .getProc_bind fun p =>
      .ite (.pure _) (.bind (.modifyProc noted_sigChld) fun _ => .pure _)
  · unfold handToWaiter
    refine .getProc_bind fun p => .getProc_bind fun q => .ite ?_ (.pure _)
    refine .bind (.modifyProc fun _ => ⟨rfl, rfl, rfl⟩) fun _ => ?_
    exact .bind (.runIf fun _ => .of_scheduler rfl) fun _ =>
      .bind hwaited fun _ => fun k => .wake k _

/-! ### The record of a death -/

/-- No record of a death has changed. -/
def SameDeaths (k k' : Kernel) : Prop := ∀ p, (k'.procs p).death = (k.procs p).death

/-- Rescheduling records no death. -/
theorem SameDeaths.of_rescheduled (h : Rescheduled k.toScheduler k'.toScheduler) : SameDeaths k k' :=
  fun p => (h.procs p).death

/-- The exit code that `process_mark_exit` keeps. -/
def keptCode (exitCode : Word) : Word := if exitCode.msb then exitCode else exitCode &&& 0xFF

/-- What `endProcess` records: the code that is kept, and the signal that was noted before. -/
theorem endProcess_death (exitCode : Word) :
    ((endProcess p exitCode k).2.procs p).death = (keptCode exitCode, (k.procs p).killedBySignal) := by
  have hremove : SameDeaths k (k.onScheduler (·.schedulerRemove p)) :=
    .of_rescheduled (.schedulerRemove _ p)
  have hkilled := congrArg Prod.snd (hremove p)
  unfold endProcess
  rw [run_bind, run_onScheduler]
  dsimp only
  generalize k.onScheduler (·.schedulerRemove p) = k₁ at hkilled
  rw [run_bind, run_modifyProc, run_bind, run_modifyProc]
  dsimp only
  have hclosed := (undisturbed_processFdCloseAll p (k₁.setProc p fun p =>
    { p with exitCode := if exitCode.msb then exitCode else exitCode &&& 0xFF, exited := true })).death p
  generalize (processFdCloseAll p _).2 = k₂ at hclosed
  rw [Kernel.setProc_self] at hclosed ⊢
  exact hclosed.trans (Prod.ext rfl hkilled)

/-- `process_mark_exit` of a process that has not ended is its two halves. -/
theorem processMarkExit_run (hdead : (k.procs p).state ≠ .dead) (hzombie : (k.procs p).state ≠ .zombie)
    (exitCode : Word) : (processMarkExit p exitCode k).2 = (tellFamily p (endProcess p exitCode k).2).2 := by
  unfold processMarkExit
  rw [run_bind, run_getProc, run_ite, if_neg (not_or.mpr ⟨hdead, hzombie⟩), run_bind]

/-- What `process_mark_exit` records of a death. -/
theorem processMarkExit_death (exitCode : Word) (hdead : (k.procs p).state ≠ .dead)
    (hzombie : (k.procs p).state ≠ .zombie) :
    ((processMarkExit p exitCode k).2.procs p).death = (keptCode exitCode, (k.procs p).killedBySignal) := by
  rw [processMarkExit_run hdead hzombie]
  exact ((undisturbed_tellFamily p _).death p).trans (endProcess_death exitCode)

end AgenticOs
