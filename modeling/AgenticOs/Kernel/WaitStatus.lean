import AgenticOs.Kernel.Bystanders
import AgenticOs.Kernel.References
import AgenticOs.Kernel.Runs

/-!
# Wait statuses

A process dies of `SYS_EXIT`, of a page fault that the kernel cannot help, or of a signal (`Death`). What
`SYS_WAIT` and `SYS_WAITPID` store of it is read from two fields, `exit_code` and `killed_by_signal`.

* **Records** (`Dying.death`): what is recorded is a matter of the way to die alone. A death is a call of
  `process_mark_exit` and a switch to another process (`Dying.run_eq`).
* **Statuses** (`statusOf`): what `SYS_WAIT` and `SYS_WAITPID` make of a record (`Process.waitStatus_eq`). The
  status of `SYS_WAITPID` is a matter of the low byte of the code (`wExitcode_eq_iff`), and no exit looks like
  a signal to it (`statusOf_exit_ne_signal`).
* **Main result** (`exit_status_distinct_iff`): the status tells a voluntary exit from the other ways to die
  exactly if its argument has none of the low bytes of `VM_EXIT_PAGE_FAULT`, `VM_EXIT_GUARD_PAGE` and
  `VM_EXIT_OOM`. `forged_page_fault` is an exit that looks like a page fault.

That a parent gets this status, also one that is blocked in the call, is in `Kernel/WaitingParent.lean`.
-/

namespace AgenticOs

open Function Lib

variable {k k' : Kernel} {p q proc parent : Slot}

/-- The status that `SYS_WAIT` stores of a process that has died, or the one of `SYS_WAITPID`. -/
def Process.waitStatus (p : Process) (isWaitpid : Bool) : Word :=
  if isWaitpid then p.encodedStatus else p.exitCode

/-- The ways to die. -/
inductive Death
  /-- `SYS_EXIT` with an argument -/
  | exit (c : Word)
  /-- a page fault that the kernel could not help -/
  | fault (result : VmFaultResult)
  /-- a signal that is delivered -/
  | signal (signum : Nat)

/-- The current process dies. -/
def Death.run (current : Slot) (callerCs frame : Word) : Death → Kernel → Kernel
  | .exit c, k => (syscallExit c callerCs frame k).2
  | .fault result, k => (dieOfFault current (faultExitCode result) frame k).2
  | .signal signum, k => (dieOfSignal current signum frame k).2

/-! ### The record of a death -/

/-- A process that runs: no signal has killed it. -/
structure Dying (k : Kernel) (p : Slot) : Prop where
  current : k.processGetCurrent = some p
  unkilled : (k.procs p).killedBySignal = 0

/-- Who dies was running. -/
theorem Dying.running (h : Dying k p) : (k.procs p).state = .running := by
  simpa using List.find?_some h.current

/-- What is recorded of a death. -/
def Death.recorded : Death → Word × Word
  | .exit c => (keptCode c, 0)
  | .fault result => (keptCode (faultExitCode result), 0)
  | .signal signum => (keptCode 0, BitVec.ofNat 32 signum)

/-- The code that `process_mark_exit` is called with. -/
def Death.exitCode : Death → Word
  | .exit c => c
  | .fault result => faultExitCode result
  | .signal _ => 0

/-- The state in which it is called: a signal has been noted. -/
def Death.marked (p : Slot) : Death → Kernel → Kernel
  | .signal signum, k => k.setProc p fun p =>
    { p with
      pendingSignals := p.pendingSignals &&& ~~~signalBit signum
      killedBySignal := BitVec.ofNat 32 signum }
  | _, k => k

/-- A death is a call of `process_mark_exit` and a switch to another process. -/
theorem Dying.run_eq (h : Dying k p) (d : Death) {cs : Word} (hring : isRing3 cs = true) (frame : Word) :
    d.run p cs frame k = (processMarkExit p d.exitCode (d.marked p k)).2.onScheduler fun s =>
      (s.schedulerExitCurrent frame).2 := by
  cases d with
  | exit c =>
    have hnot : ¬ (!isRing3 cs) = true := by rw [hring]; decide
    show (syscallExit c cs frame k).2 = _
    unfold syscallExit
    rw [run_ite, if_neg hnot, run_bind, run_get]
    dsimp only
    rw [h.current]
    rfl
  | fault result => rfl
  | signal signum => rfl

/-- The mark of a death leaves the state. -/
theorem Death.marked_state (d : Death) (k : Kernel) : ((d.marked p k).procs p).state = (k.procs p).state := by
  cases d with
  | signal signum =>
    unfold marked
    dsimp only
    rw [Kernel.setProc_self]
  | _ => rfl

/-- The record of a death is what it says. -/
theorem Dying.marked_killed (h : Dying k p) (d : Death) :
    (keptCode d.exitCode, ((d.marked p k).procs p).killedBySignal) = d.recorded := by
  cases d with
  | signal signum =>
    unfold Death.marked
    dsimp only
    rw [Kernel.setProc_self]
    rfl
  | exit c =>
    show (keptCode c, (k.procs p).killedBySignal) = _
    rw [h.unkilled]
    rfl
  | fault result =>
    show (keptCode (faultExitCode result), (k.procs p).killedBySignal) = _
    rw [h.unkilled]
    rfl

/-- The record is a matter of the way to die alone. -/
theorem Dying.death (h : Dying k p) (d : Death) {cs : Word} (hring : isRing3 cs = true) (frame : Word) :
    ((d.run p cs frame k).procs p).death = d.recorded := by
  have hexit (k : Kernel) : SameDeaths k (k.onScheduler fun s => (s.schedulerExitCurrent frame).2) :=
    .of_rescheduled (.schedulerExitCurrent _ _)
  have hrunning : ((d.marked p k).procs p).state = .running := (d.marked_state k).trans h.running
  rw [h.run_eq d hring, hexit, processMarkExit_death _ (by rw [hrunning]; decide) (by rw [hrunning]; decide)]
  exact h.marked_killed d

/-! ### Which exits can be told from other deaths -/

/-- The status that a record of a death gives. -/
def statusOf (death : Word × Word) (isWaitpid : Bool) : Word :=
  if isWaitpid then if death.2 ≠ 0 then wExitcode 0 death.2 else wExitcode death.1 0 else death.1

/-- The status that is handed over is that of the record. -/
theorem Process.waitStatus_eq (p : Process) (isWaitpid : Bool) :
    p.waitStatus isWaitpid = statusOf p.death isWaitpid := rfl

/-- The status of an exit with argument `c` is never the one of another death. -/
def ExitDistinct (c : Word) : Prop :=
  ∀ (k k' : Kernel) (p p' : Slot) (cs frame frame' : Word), isRing3 cs = true → Dying k p → Dying k' p' →
    (∀ result, result ≠ .handled → ∀ isWaitpid,
      (((Death.exit c).run p cs frame k).procs p).waitStatus isWaitpid ≠
        (((Death.fault result).run p' cs frame' k').procs p').waitStatus isWaitpid) ∧
    ∀ signum, signum = sigKill ∨ signum = sigTerm →
      (((Death.exit c).run p cs frame k).procs p).waitStatus true ≠
        (((Death.signal signum).run p' cs frame' k').procs p').waitStatus true

/-- The exit code keeps its low byte. -/
theorem keptCode_and (c : Word) : keptCode c &&& 0xFF = c &&& 0xFF := by
  unfold keptCode
  split
  · rfl
  · rw [BitVec.and_assoc, BitVec.and_self]

/-- The low byte of the code stands in the second byte of the status. -/
theorem wExitcode_toNat (code : Word) : (wExitcode code 0).toNat = code.toNat % 256 * 256 := by
  have hlow : (code &&& 0xFF).toNat = code.toNat % 256 := by
    rw [BitVec.toNat_and]
    exact Nat.and_two_pow_sub_one_eq_mod _ 8
  have hsignal (w : Word) : w ||| 0 &&& 0x7F = w := by
    have hzero : (0 : Word) &&& 0x7F = 0#32 := by decide
    rw [hzero, BitVec.or_zero]
  unfold wExitcode
  rw [hsignal, BitVec.toNat_shiftLeft, hlow, Nat.shiftLeft_eq]
  exact Nat.mod_eq_of_lt (by omega)

/-- The status of `SYS_WAITPID` is a matter of the low byte of the code. -/
theorem wExitcode_eq_iff {c d : Word} : wExitcode c 0 = wExitcode d 0 ↔ c &&& 0xFF = d &&& 0xFF := by
  have hlow (x : Word) : (x &&& 0xFF).toNat = x.toNat % 256 := by
    rw [BitVec.toNat_and]
    exact Nat.and_two_pow_sub_one_eq_mod _ 8
  rw [← BitVec.toNat_inj, ← BitVec.toNat_inj, wExitcode_toNat, wExitcode_toNat, hlow, hlow]
  omega

/-- The code of a page-fault death is kept, and its low byte is one of three. -/
theorem faultExitCode_kept (result : VmFaultResult) :
    keptCode (faultExitCode result) = faultExitCode result ∧
      faultExitCode result &&& 0xFF ∈ [(0x0E : Word), 0x1E, 0x2E] := by
  cases result <;> decide

/-- An exit whose argument has another low byte than these does not look like a page fault. -/
theorem statusOf_exit_ne_fault {c : Word} (hlow : c &&& 0xFF ∉ [(0x0E : Word), 0x1E, 0x2E]) (result : VmFaultResult)
    (isWaitpid : Bool) :
    statusOf (Death.exit c).recorded isWaitpid ≠ statusOf (Death.fault result).recorded isWaitpid := by
  obtain ⟨-, hmem⟩ := faultExitCode_kept result
  have hne : c &&& 0xFF ≠ faultExitCode result &&& 0xFF := fun heq => hlow (heq ▸ hmem)
  cases isWaitpid with
  | false =>
    intro heq
    have hcode : keptCode c = keptCode (faultExitCode result) := heq
    exact hne (by rw [← keptCode_and c, hcode, keptCode_and])
  | true =>
    intro heq
    have hcode : keptCode c &&& 0xFF = keptCode (faultExitCode result) &&& 0xFF := wExitcode_eq_iff.mp heq
    rw [keptCode_and, keptCode_and] at hcode
    exact hne hcode

/-- No exit looks like a signal to `SYS_WAITPID`: its status is a multiple of 256. -/
theorem statusOf_exit_ne_signal (c : Word) {signum : Nat} (hsignum : signum = sigKill ∨ signum = sigTerm) :
    statusOf (Death.exit c).recorded true ≠ statusOf (Death.signal signum).recorded true := by
  intro heq
  have hstatus : wExitcode (keptCode c) 0 = statusOf (Death.signal signum).recorded true := heq
  have hnat := congrArg BitVec.toNat hstatus
  rw [wExitcode_toNat] at hnat
  have hsignal : (statusOf (Death.signal signum).recorded true).toNat % 2 = 1 := by
    rcases hsignum with rfl | rfl <;> decide
  omega

/-- The process of the machine that has one. -/
theorem dying_solo : Dying .solo 0 := ⟨rfl, rfl⟩

/-- **Which voluntary exits the wait status identifies**: those whose argument has none of the low bytes
of `VM_EXIT_PAGE_FAULT`, `VM_EXIT_GUARD_PAGE` and `VM_EXIT_OOM`. -/
theorem exit_status_distinct_iff (c : Word) :
    ExitDistinct c ↔ c &&& 0xFF ∉ [(0x0E : Word), 0x1E, 0x2E] := by
  constructor
  · intro h hlow
    obtain ⟨result, hresult, hbyte⟩ : ∃ result, result ≠ .handled ∧ c &&& 0xFF = faultExitCode result &&& 0xFF := by
      simp only [List.mem_cons, List.not_mem_nil, or_false] at hlow
      rcases hlow with hlow | hlow | hlow
      · exact ⟨.fatal, by decide, hlow⟩
      · exact ⟨.guard, by decide, hlow⟩
      · exact ⟨.oom, by decide, hlow⟩
    refine (h .solo .solo 0 0 0x1B 0 0 (by decide) dying_solo dying_solo).1 result hresult true ?_
    rw [Process.waitStatus_eq, Process.waitStatus_eq, dying_solo.death _ (by decide),
      dying_solo.death _ (by decide)]
    have hcode : wExitcode (keptCode c) 0 = wExitcode (keptCode (faultExitCode result)) 0 :=
      wExitcode_eq_iff.mpr (by rw [keptCode_and, keptCode_and, hbyte])
    exact hcode
  · intro hlow k k' p p' cs frame frame' hring hp hp'
    refine ⟨fun result _ isWaitpid => ?_, fun signum hsignum => ?_⟩
    · rw [Process.waitStatus_eq, Process.waitStatus_eq, hp.death _ hring, hp'.death _ hring]
      exact statusOf_exit_ne_fault hlow result isWaitpid
    · rw [Process.waitStatus_eq, Process.waitStatus_eq, hp.death _ hring, hp'.death _ hring]
      exact statusOf_exit_ne_signal c hsignum

/-- `SYS_EXIT` with the code of a page fault gives the status of one. -/
theorem forged_page_fault : ¬ ∀ c, ExitDistinct c := by
  intro h
  refine (h 0x8000000E .solo .solo 0 0 0x1B 0 0 (by decide) dying_solo dying_solo).1 .fatal (by decide) false ?_
  rw [Process.waitStatus_eq, Process.waitStatus_eq, dying_solo.death _ (by decide),
    dying_solo.death _ (by decide)]
  decide

end AgenticOs
