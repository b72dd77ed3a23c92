import AgenticOs.Kernel.WaitStatus

/-!
# The status a sleeping parent is handed

A parent that calls `SYS_WAIT` or `SYS_WAITPID` before its child has ended goes to sleep. When the child dies,
`process_mark_exit` works out the status and stores it in the entry of the parent. What the child records of its
death is `Death.recorded` (`Dying.death`); this module follows it to the parent.

* **Who sleeps on** (`StillWait`). Nobody is made or removed, and a parent that sleeps until a child ends sleeps
  on with the same request. Closing the descriptors of the dying process wakes processes, but only those that wait
  for a pipe (`stillWait_processFdCloseAll`); and so the parent sleeps when the child has become a zombie
  (`stillWait_endProcess`) and is found by its pid (`StillWait.processGetByPid`).
* **What it is handed** (`handToWaiter_waitStatus`). The status of the zombie, in the form that the parent asked
  for.
* **The whole death** (`Dying.handed`). After an exit, a page fault or a signal, the parent has been handed the
  status of what is recorded of the death. A parent thus tells an exit from the other ways to die for the same
  exit arguments as one that calls when the child has ended (`Dying.handed_identified`).
-/

namespace AgenticOs

open Function Lib

variable {k k' : Kernel} {p q proc parent : Slot}

/-! ### Who sleeps on -/

/-- A process with its pid, alive as before, and asleep with the same request if it slept until a child ends. -/
structure Process.StillWaits (p q : Process) : Prop where
  pid : q.pid = p.pid
  parentPid : q.parentPid = p.parentPid
  dead : q.state = .dead ↔ p.state = .dead
  asleep : p.state = .blocked → p.blockReason = .waitChild → q.state = .blocked ∧ q.blockReason = .waitChild
  request : q.waitingForChild = p.waitingForChild ∧ q.waitTargetPid = p.waitTargetPid ∧
    q.waitIsWaitpid = p.waitIsWaitpid

namespace Process.StillWaits

/-- Nothing happened. -/
theorem refl (p : Process) : p.StillWaits p := ⟨rfl, rfl, .rfl, fun h h' => ⟨h, h'⟩, rfl, rfl, rfl⟩

/-- Two changes one after another. -/
theorem trans {p q r : Process} (h : p.StillWaits q) (h' : q.StillWaits r) : p.StillWaits r where
  pid := h'.pid.trans h.pid
  parentPid := h'.parentPid.trans h.parentPid
  dead := h'.dead.trans h.dead
  asleep := by
    intro hstate hreason
    obtain ⟨hstate', hreason'⟩ := h.asleep hstate hreason
    exact h'.asleep hstate' hreason'
  request := by
    obtain ⟨h₁, h₂, h₃⟩ := h.request
    obtain ⟨h₁', h₂', h₃'⟩ := h'.request
    exact ⟨h₁'.trans h₁, h₂'.trans h₂, h₃'.trans h₃⟩

end Process.StillWaits

/-- Scheduling does not concern what a process waits for. -/
theorem Process.Rescheduled.request {p q : Process} (h : p.Rescheduled q) :
    q.pid = p.pid ∧ q.parentPid = p.parentPid ∧ q.blockReason = p.blockReason ∧
      q.waitingForChild = p.waitingForChild ∧ q.waitTargetPid = p.waitTargetPid ∧
      q.waitIsWaitpid = p.waitIsWaitpid := by
  rw [h]
  exact ⟨rfl, rfl, rfl, rfl, rfl, rfl⟩

/-- Every process still waits. -/
def StillWait (k k' : Kernel) : Prop := ∀ p, (k.procs p).StillWaits (k'.procs p)

namespace StillWait

/-- Nothing happened. -/
theorem refl (k : Kernel) : StillWait k k := fun _ => .refl _

/-- Two steps one after another. -/
theorem trans {k'' : Kernel} (h : StillWait k k') (h' : StillWait k' k'') : StillWait k k'' :=
  fun p => (h p).trans (h' p)

instance : IsPreorder Kernel StillWait where
  refl := refl
  trans _ _ _ := trans

/-- No process was touched. -/
theorem of_procs (h : k'.procs = k.procs) : StillWait k k' := by
  intro p
  rw [h]
  exact .refl _

/-- One process was, and it sleeps on. -/
theorem setProc {f : Process → Process} (hf : (k.procs proc).StillWaits (f (k.procs proc))) :
    StillWait k (k.setProc proc f) := by
  intro p
  by_cases hp : p = proc
  · rw [hp, Kernel.setProc_self]
    exact hf
  · rw [k.setProc_of_ne hp]
    exact .refl _

/-- A process that does not wait for a child is woken. -/
theorem wake (hproc : (k.procs proc).blockReason ≠ .waitChild) :
    StillWait k (k.onScheduler (·.schedulerWake proc)) := by
  intro p
  have hsame := (Rescheduled.schedulerWake k.toScheduler proc).procs p
  have hstate : ((k.toScheduler.schedulerWake proc).procs p).state = (k.procs p).state ∨
      (k.procs p).state = .blocked ∧ ((k.toScheduler.schedulerWake proc).procs p).state = .ready :=
    (Quiet.schedulerWake (k := k) proc).state p
  have hother : p ≠ proc → ((k.toScheduler.schedulerWake proc).procs p).state = (k.procs p).state := by
    intro hp
    unfold Scheduler.schedulerWake
    split
    · have hkept := (Scheduler.enqueue_kept (k.toScheduler.setProc proc fun p => { p with state := .ready }) proc p).2
      rw [hkept, Scheduler.setProc_of_ne hp]
    · rfl
  show (k.procs p).StillWaits ((k.toScheduler.schedulerWake proc).procs p)
  generalize (k.toScheduler.schedulerWake proc).procs p = q at hsame hstate hother
  obtain ⟨hpid, hparent, hreason, hrequest⟩ := hsame.request
  refine ⟨hpid, hparent, ?_, fun hblocked hchild => ?_, hrequest⟩
  · rcases hstate with hq | ⟨hblocked, hready⟩
    · rw [hq]
    · rw [hblocked, hready]
      decide
  · have hp : p ≠ proc := fun hp => hproc (hp ▸ hchild)
    exact ⟨(hother hp).trans hblocked, hreason.trans hchild⟩

/-- One process is changed by a call that lets sleepers be. -/
theorem modifyProc {f : Process → Process} (hf : ∀ p : Process, p.StillWaits (f p)) :
    Rel StillWait (modifyProc proc f) := fun _ => .setProc (hf _)

/-- A process is found by its pid as before. -/
theorem processGetByPid (h : StillWait k k') (pid : Nat) : k'.processGetByPid pid = k.processGetByPid pid := by
  have hfound (i : Slot) : ((k'.procs i).pid = pid && (k'.procs i).state ≠ .dead : Bool) =
      ((k.procs i).pid = pid && (k.procs i).state ≠ .dead) := by
    rw [(h i).pid, decide_eq_decide.mpr (not_congr (h i).dead)]
  unfold Kernel.processGetByPid
  rw [funext hfound]

end StillWait

/-- Closing an end of a pipe wakes nobody who waits for a child. -/
theorem stillWait_kernelPipeClose (handle : Int) : Rel StillWait (kernelPipeClose handle) := by
  intro k
  have hwoken : StillWait k (pipeClose Kernel.processWakePipeWaiter k.pipes k handle).state := by
    rcases pipeClose_state Kernel.processWakePipeWaiter k.pipes k handle with h | ⟨pipes', i, reason, hreason, h⟩
    · rw [h]
      exact .refl k
    · rw [h]
      unfold Kernel.processWakePipeWaiter
      split
      · exact .refl k
      · rename_i waiter hwaiter
        have hwaits := List.find?_some hwaiter
        unfold Kernel.waitsForPipe at hwaits
        simp only [Bool.and_eq_true, decide_eq_true_eq] at hwaits
        exact .wake (hwaits.1.2 ▸ hreason)
  exact hwoken.trans (.of_procs rfl)

/-- **`process_fd_close_all`** -/
theorem stillWait_processFdCloseAll (proc : Slot) : Rel StillWait (processFdCloseAll proc) := by
  have hclose (fd : Int) : Rel StillWait (processFdClose proc fd) := by
    unfold processFdClose
    refine .getProc_bind fun p => ?_
    split
    · have hfds (p : Process) (i : Fin processMaxFds) : p.StillWaits (p.setFd i ProcessFd.unused) :=
        ⟨rfl, rfl, .rfl, fun h h' => ⟨h, h'⟩, rfl, rfl, rfl⟩
      refine .bind (.modifyProc fun p => hfds p _) fun _ => .ite ?_ ?_
      · exact .bind (stillWait_kernelPipeClose _) fun _ => .pure _
      · exact .bind (fun _ => .of_procs rfl) fun _ => .pure _
    · exact .pure _
  exact .forM fun fd _ => .getProc_bind fun p => .ite (.bind (hclose _) fun _ => .pure _) (.pure _)

/-- While a process that runs becomes a zombie, the others wait. -/
theorem stillWait_endProcess (hrun : (k.procs p).state = .running) (exitCode : Word) :
    StillWait k (endProcess p exitCode k).2 := by
  unfold endProcess
  rw [run_bind, run_onScheduler, run_bind, run_modifyProc, run_bind]
  dsimp only
  have hremove : StillWait k (k.onScheduler (·.schedulerRemove p)) := .of_procs rfl
  have hstate₁ : ((k.onScheduler (·.schedulerRemove p)).procs p).state = .running := hrun
  generalize k.onScheduler (·.schedulerRemove p) = k₁ at hremove hstate₁
  have hexited : StillWait k₁ (k₁.setProc p fun p =>
      { p with exitCode := if exitCode.msb then exitCode else exitCode &&& 0xFF, exited := true }) :=
    .setProc ⟨rfl, rfl, .rfl, fun h h' => ⟨h, h'⟩, rfl, rfl, rfl⟩
  have hstate₂ : ((k₁.setProc p fun p =>
      { p with exitCode := if exitCode.msb then exitCode else exitCode &&& 0xFF, exited := true }).procs p).state =
        .running := by
    rw [Kernel.setProc_self]
    exact hstate₁
  generalize k₁.setProc p _ = k₂ at hexited hstate₂
  have hclosed := stillWait_processFdCloseAll p k₂
  have hstate₃ : ((processFdCloseAll p k₂).2.procs p).state = .running := by
    rw [(quiet_processFdCloseAll p k₂).state_eq (by rw [hstate₂]; decide), hstate₂]
  generalize (processFdCloseAll p k₂).2 = k₃ at hclosed hstate₃
  have hzombie : StillWait k₃ (k₃.setProc p fun p => { p with state := .zombie, blockReason := .none }) := by
    refine .setProc ⟨rfl, rfl, ?_, fun hblocked => ?_, rfl, rfl, rfl⟩
    · rw [hstate₃]
      have hzombie : ProcessState.zombie ≠ .dead := by decide
      exact iff_of_false hzombie (by decide)
    · rw [hstate₃] at hblocked
      cases hblocked
  exact ((hremove.trans hexited).trans hclosed).trans hzombie

/-- Noting a signal does not concern what anybody waits for. -/
theorem Death.marked_stillWait (d : Death) (k : Kernel) : StillWait k (d.marked p k) := by
  cases d with
  | signal signum => exact .setProc ⟨rfl, rfl, .rfl, fun h h' => ⟨h, h'⟩, rfl, rfl, rfl⟩
  | _ => exact .refl k

/-! ### What the parent is handed -/

/-- A parent that waits is handed the status that it would have read. -/
theorem handToWaiter_waitStatus (hne : parent ≠ proc)
    (hwaits : (k.procs parent).waitsForChild (k.procs proc).pid = true) :
    ((handToWaiter proc parent k).2.procs parent).waitResultStatus =
      (k.procs proc).waitStatus (k.procs parent).waitIsWaitpid := by
  unfold handToWaiter
  rw [run_bind, run_getProc, run_bind, run_getProc, run_ite, if_pos hwaits, run_bind, run_modifyProc]
  dsimp only
  rw [run_bind, run_runIf, run_bind, run_modifyProc, run_onScheduler]
  generalize hset : k.setProc parent _ = k₁
  have hstatus : (k₁.procs parent).waitResultStatus =
      (k.procs proc).waitStatus (k.procs parent).waitIsWaitpid := by
    rw [← hset, Kernel.setProc_self]
    rfl
  generalize hframe : (if (k.procs parent).esp ≠ 0 then _ else _ : PUnit × Kernel).2 = k₂
  have hprocs : k₂.procs = k₁.procs := by
    rw [← hframe]
    split <;> rfl
  have hwoken := (Rescheduled.schedulerWake (k₂.setProc proc fun p =>
    { p with waited := true }).toScheduler parent).procs parent
  refine Eq.trans ?_ hstatus
  rw [← hprocs, ← k₂.setProc_of_ne hne (fun p => { p with waited := true })]
  unfold Process.Rescheduled at hwoken
  have hstatus := congrArg Process.waitResultStatus hwoken
  exact hstatus

/-- A process that has become a zombie tells its parent. -/
theorem tellFamily_waitStatus (hparent : k.processGetByPid (k.procs p).parentPid = some parent)
    (hself : (k.procs p).parentPid ≠ (k.procs p).pid) (hne : parent ≠ p)
    (hwaits : (k.procs parent).waitsForChild (k.procs p).pid = true) :
    ((tellFamily p k).2.procs parent).waitResultStatus =
      (k.procs p).waitStatus (k.procs parent).waitIsWaitpid := by
  have hblocked : (k.procs parent).state = .blocked := by
    unfold Process.waitsForChild at hwaits
    simp only [Bool.and_eq_true, decide_eq_true_eq] at hwaits
    exact hwaits.1.1
  -- the children of the zombie lose their parent, which concerns neither the zombie nor the sleep of the parent
  have hprocs (i : Slot) : ∃ parentPid waited, (k.orphanChildren (k.procs p).pid).procs i =
      { k.procs i with parentPid := parentPid, waited := waited } := by
    unfold Kernel.orphanChildren
    dsimp only
    split
    · exact ⟨_, _, rfl⟩
    · exact ⟨_, _, rfl⟩
  have hzombie : (k.orphanChildren (k.procs p).pid).procs p = k.procs p := if_neg fun h => hself h.2
  have hget : (k.orphanChildren (k.procs p).pid).processGetByPid (k.procs p).parentPid = some parent := by
    have hfound (i : Slot) :
        (((k.orphanChildren (k.procs p).pid).procs i).pid = (k.procs p).parentPid &&
          ((k.orphanChildren (k.procs p).pid).procs i).state ≠ .dead : Bool) =
        ((k.procs i).pid = (k.procs p).parentPid && (k.procs i).state ≠ .dead) := by
      obtain ⟨parentPid, waited, hi⟩ := hprocs i
      rw [hi]
    rw [← hparent]
    unfold Kernel.processGetByPid
    rw [funext hfound]
  obtain ⟨parentPid, waited, hq⟩ := hprocs parent
  unfold tellFamily
  rw [run_bind, run_getProc, run_bind, run_modify, run_bind, run_getProc, run_bind, run_get]
  dsimp only
  generalize k.orphanChildren (k.procs p).pid = k₁ at hzombie hget hq
  rw [hzombie, hget]
  dsimp only
  have hstate₁ : (k₁.procs parent).state = .blocked := by
    rw [hq]
    exact hblocked
  have hsent : (processSendSignal parent sigChld k₁).2 =
      k₁.setProc parent fun p => { p with pendingSignals := p.pendingSignals ||| signalBit sigChld } := by
    unfold processSendSignal
    rw [run_bind, run_getProc, run_ite, if_neg]
    · rfl
    · rw [hstate₁]
      decide
  rw [run_ite, if_neg (by rw [hstate₁]; decide), run_bind, hsent]
  generalize hset : k₁.setProc parent _ = k₂
  have hp₂ : k₂.procs p = k.procs p := by
    rw [← hset, k₁.setProc_of_ne hne.symm, hzombie]
  have hq₂ : (k₂.procs parent).waitsForChild (k₂.procs p).pid = true := by
    rw [hp₂, ← hset, Kernel.setProc_self, hq]
    exact hwaits
  have hpid₂ : (k₂.procs parent).waitIsWaitpid = (k.procs parent).waitIsWaitpid := by
    rw [← hset, Kernel.setProc_self, hq]
  rw [handToWaiter_waitStatus hne hq₂, hp₂, hpid₂]

/-- The parent of a process sleeps until the process has ended. -/
structure Kernel.WaitedFor (k : Kernel) (p parent : Slot) : Prop where
  found : k.processGetByPid (k.procs p).parentPid = some parent
  other : (k.procs p).parentPid ≠ (k.procs p).pid
  asleep : (k.procs parent).blockReason = .waitChild
  waits : (k.procs parent).waitsForChild (k.procs p).pid = true

/-- **What a sleeping parent is handed**: the status of the record of the death, whichever way the child died. -/
theorem Dying.handed (h : Dying k p) (hw : k.WaitedFor p parent) (d : Death) {cs : Word} (hring : isRing3 cs = true)
    (frame : Word) : ((d.run p cs frame k).procs parent).waitResultStatus =
      statusOf d.recorded (k.procs parent).waitIsWaitpid := by
  obtain ⟨hparent, hself, hasleep, hwaits⟩ := hw
  have hblocked : (k.procs parent).state = .blocked := by
    unfold Process.waitsForChild at hwaits
    simp only [Bool.and_eq_true, decide_eq_true_eq] at hwaits
    exact hwaits.1.1
  have hne : parent ≠ p := by
    rintro rfl
    rw [h.running] at hblocked
    cases hblocked
  -- a signal is noted in the entry of the process before it ends
  have hmarked : StillWait k (d.marked p k) := d.marked_stillWait k
  have hrunning : ((d.marked p k).procs p).state = .running := (d.marked_state k).trans h.running
  have hended : StillWait k (endProcess p d.exitCode (d.marked p k)).2 :=
    hmarked.trans (stillWait_endProcess hrunning _)
  have hdeath : ((endProcess p d.exitCode (d.marked p k)).2.procs p).death = d.recorded := by
    rw [endProcess_death, h.marked_killed]
  have hrun : d.run p cs frame k = (tellFamily p (endProcess p d.exitCode (d.marked p k)).2).2.onScheduler
      fun s => (s.schedulerExitCurrent frame).2 := by
    rw [h.run_eq d hring, processMarkExit_run (by rw [hrunning]; decide) (by rw [hrunning]; decide)]
  rw [hrun]
  generalize (endProcess p d.exitCode (d.marked p k)).2 = k₁ at hended hdeath
  have hparent₁ : k₁.processGetByPid (k₁.procs p).parentPid = some parent := by
    rw [(hended p).parentPid, hended.processGetByPid, hparent]
  have hself₁ : (k₁.procs p).parentPid ≠ (k₁.procs p).pid := by
    rw [(hended p).parentPid, (hended p).pid]
    exact hself
  obtain ⟨hstate₁, -⟩ := (hended parent).asleep hblocked hasleep
  obtain ⟨hwaiting, htarget, hform⟩ := (hended parent).request
  have hwaits₁ : (k₁.procs parent).waitsForChild (k₁.procs p).pid = true := by
    unfold Process.waitsForChild at hwaits ⊢
    rw [hstate₁, hwaiting, htarget, (hended p).pid]
    rw [hblocked] at hwaits
    exact hwaits
  have hhanded := tellFamily_waitStatus hparent₁ hself₁ hne hwaits₁
  rw [Process.waitStatus_eq, hdeath, hform] at hhanded
  rw [← hhanded]
  have hexit := (Rescheduled.schedulerExitCurrent (tellFamily p k₁).2.toScheduler frame).procs parent
  unfold Process.Rescheduled at hexit
  have hstatus := congrArg Process.waitResultStatus hexit
  exact hstatus

/-- Parents that sleep in the same call tell an exit from a page fault, and in `SYS_WAITPID` from a signal, unless
the low byte of the exit argument is that of a page-fault death. -/
theorem Dying.handed_identified {c : Word} (hlow : c &&& 0xFF ∉ [(0x0E : Word), 0x1E, 0x2E]) {p' parent' : Slot}
    (h : Dying k p) (hw : k.WaitedFor p parent) (h' : Dying k' p') (hw' : k'.WaitedFor p' parent')
    (hcall : (k'.procs parent').waitIsWaitpid = (k.procs parent).waitIsWaitpid) {cs : Word}
    (hring : isRing3 cs = true) (frame frame' : Word) :
    (∀ result, (((Death.exit c).run p cs frame k).procs parent).waitResultStatus ≠
      (((Death.fault result).run p' cs frame' k').procs parent').waitResultStatus) ∧
    ((k.procs parent).waitIsWaitpid = true → ∀ signum, signum = sigKill ∨ signum = sigTerm →
      (((Death.exit c).run p cs frame k).procs parent).waitResultStatus ≠
        (((Death.signal signum).run p' cs frame' k').procs parent').waitResultStatus) := by
  have hexit := h.handed hw (.exit c) hring frame
  constructor
  · intro result
    rw [hexit, h'.handed hw' (.fault result) hring frame', hcall]
    exact statusOf_exit_ne_fault hlow result _
  · intro hwaitpid signum hsignum
    rw [hexit, h'.handed hw' (.signal signum) hring frame', hcall, hwaitpid]
    exact statusOf_exit_ne_signal c hsignum

end AgenticOs
