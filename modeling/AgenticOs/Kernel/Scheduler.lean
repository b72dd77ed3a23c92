import AgenticOs.Kernel.Process
import AgenticOs.Memory.Paging

/-!
# `kernel/scheduler.c`

The ready queue and the process on the processor, over any type `ι` of process table entries.

* **Queue**: the list of the entries linked by `next`. Linking an entry that is linked already would close the
  list to a ring, so the model is of runs that enqueue an entry only while it is not in the queue; that the
  kernel's are is proved in `Kernel/RunQueue.lean`.
* **Choice** (`findBestReady`): a scan for the best ready entry, the first among equals; `ageReadyQueue`
  raises those that wait.
* **Entries of the file**: add, schedule, preempt, block, exit, wake, remove and `yield`, which answers with
  the process whose saved stack pointer `context_switch` loads.

A process pointer is never `NULL` here: the functions that are given `NULL` return at once. Saving and
restoring the interrupt flag has no counterpart.
-/

namespace AgenticOs

open Function Lib

/-- The process table as the scheduler sees it, the static variables of `scheduler.c`, the memory
whose directory a switch loads, and the `esp0` of the task state segment. -/
structure Scheduler (ι : Type*) where
  procs : ι → Process
  readyQueue : List ι
  current : Option ι
  scheduleCount : Nat
  schedulerInitialized : Bool
  preemptionEnabled : Bool
  mem : Memory
  tssEsp0 : Word

namespace Scheduler

variable {ι : Type*} [DecidableEq ι] (s : Scheduler ι)

/-- `*proc = f(*proc)` -/
def setProc (proc : ι) (f : Process → Process) : Scheduler ι :=
  { s with procs := update s.procs proc (f (s.procs proc)) }

/-- Source: `scheduler.c` `switch_address_space` -/
def switchAddressSpace (proc : ι) : Scheduler ι :=
  let p := s.procs proc
  { s with
    mem :=
      if p.cr3 ≠ 0 ∧ p.cr3 ≠ s.mem.activePageDirectory then s.mem.pagingSwitchDirectory p.cr3
      else s.mem
    tssEsp0 := if p.kernelStack ≠ 0 then p.kernelStack + kernelStackSize else s.tssEsp0 }

/-- Source: `scheduler.c` `enqueue` -/
def enqueue (proc : ι) : Scheduler ι :=
  let s :=
    if (s.procs proc).dynamicPriority = 0 then
      s.setProc proc fun p => { p with dynamicPriority := p.basePriority }
    else s
  { s with readyQueue := s.readyQueue ++ [proc] }

/-- One step of the scan of `find_best_ready`. -/
def better (best : Option ι) (proc : ι) : Option ι :=
  match best with
  | none => some proc
  | some b =>
    if (s.procs proc).dynamicPriority > (s.procs b).dynamicPriority then some proc else some b

/-- Source: `scheduler.c` `find_best_ready` -/
def findBestReady : Option ι := s.readyQueue.foldl s.better none

/-- Source: `scheduler.c` `dequeue_best` -/
def dequeueBest : Option ι × Scheduler ι :=
  match s.findBestReady with
  | none => (none, s)
  | some best => (some best, { s with readyQueue := s.readyQueue.erase best })

/-- The loop body of `age_ready_queue`. -/
def age (proc : ι) : Scheduler ι :=
  if (s.procs proc).dynamicPriority < processMaxPriority then
    s.setProc proc fun p => { p with dynamicPriority := p.dynamicPriority + 1 }
  else s

/-- Source: `scheduler.c` `age_ready_queue` -/
def ageReadyQueue : Scheduler ι := s.readyQueue.foldl age s

/-- The end of `scheduler_schedule_locked` and of `scheduler_stop_current_locked`: `next` runs. -/
def dispatch (next : ι) : Scheduler ι :=
  let s := s.setProc next fun p =>
    { p with
      dynamicPriority := p.basePriority
      state := .running
      runCount := (p.runCount + 1) % wordSize }
  let s := { s with current := some next }
  let s := s.switchAddressSpace next
  { s with scheduleCount := (s.scheduleCount + 1) % wordSize }

/-- The running process goes back into the queue. -/
def requeueCurrent : Scheduler ι :=
  match s.current with
  | none => s
  | some current =>
    if (s.procs current).state = .running then
      (s.setProc current fun p => { p with state := .ready }).enqueue current
    else s

/-- Source: `scheduler.c` `scheduler_schedule_locked` -/
def schedulerScheduleLocked : Scheduler ι :=
  match s.dequeueBest with
  | (none, _) => s
  | (some next, s) => s.requeueCurrent.ageReadyQueue.dispatch next

/-- Source: `scheduler.c` `scheduler_init` -/
def schedulerInit : Scheduler ι :=
  { s with
    readyQueue := []
    current := none
    scheduleCount := 0
    schedulerInitialized := true
    preemptionEnabled := false }

/-- Source: `scheduler.c` `scheduler_add` -/
def schedulerAdd (proc : ι) : Scheduler ι := s.enqueue proc

/-- Source: `scheduler.c` `scheduler_schedule` -/
def schedulerSchedule : Scheduler ι := s.schedulerScheduleLocked

/-- What `scheduler_preempt` does once the frame of the running process is saved. -/
def preemptTo (interruptedEsp : Word) : Word × Scheduler ι :=
  match s.findBestReady with
  | none => (interruptedEsp, s)
  | some next =>
    if !(s.procs next).interruptFrame then (interruptedEsp, s)
    else
      let s := s.schedulerScheduleLocked
      match s.current with
      | none => (interruptedEsp, s)
      | some current =>
        if !(s.procs current).interruptFrame ∨ (s.procs current).esp = 0 then (interruptedEsp, s)
        else ((s.procs current).esp, s)

/-- Source: `scheduler.c` `scheduler_preempt` -/
def schedulerPreempt (interruptedEsp : Word) : Word × Scheduler ι :=
  if !s.schedulerInitialized ∨ !s.preemptionEnabled ∨ s.readyQueue = [] then (interruptedEsp, s)
  else
    match s.current with
    | none => s.preemptTo interruptedEsp
    | some current =>
      if !(s.procs current).interruptFrame then (interruptedEsp, s)
      else (s.setProc current fun p => { p with esp := interruptedEsp }).preemptTo interruptedEsp

/-- A process that an interrupt stub can resume. -/
def dispatchable (proc : ι) : Bool := (s.procs proc).interruptFrame && (s.procs proc).esp != 0

/-- `scheduler_stop_current_locked` found nothing to dispatch. -/
def stopWithoutNext (stopped : ι) (interruptedEsp : Word) (resumeIfNoNext : Bool) :
    Word × Scheduler ι :=
  if resumeIfNoNext then (interruptedEsp, s.setProc stopped fun p => { p with state := .running })
  else (0, s)

/-- Source: `scheduler.c` `scheduler_stop_current_locked` -/
def schedulerStopCurrentLocked (interruptedEsp : Word) (stoppedState : ProcessState)
    (resumeIfNoNext : Bool) : Word × Scheduler ι :=
  match s.current with
  | none => (0, s)
  | some stopped =>
    if interruptedEsp = 0 then (0, s)
    else
      let s := s.setProc stopped fun p =>
        { p with esp := interruptedEsp, interruptFrame := true, state := stoppedState }
      match s.dequeueBest with
      | (none, s) => s.stopWithoutNext stopped interruptedEsp resumeIfNoNext
      | (some next, s) =>
        if !s.dispatchable next then
          (s.enqueue next).stopWithoutNext stopped interruptedEsp resumeIfNoNext
        else
          let s := s.ageReadyQueue.dispatch next
          ((s.procs next).esp, s)

/-- Source: `scheduler.c` `scheduler_block_current` -/
def schedulerBlockCurrent (interruptedEsp : Word) : Word × Scheduler ι :=
  s.schedulerStopCurrentLocked interruptedEsp .blocked true

/-- Source: `scheduler.c` `scheduler_exit_current` -/
def schedulerExitCurrent (interruptedEsp : Word) : Word × Scheduler ι :=
  s.schedulerStopCurrentLocked interruptedEsp .zombie false

/-- Source: `scheduler.c` `scheduler_set_preemption_enabled` -/
def schedulerSetPreemptionEnabled (enabled : Bool) : Scheduler ι :=
  { s with preemptionEnabled := enabled }

/-- Source: `scheduler.c` `scheduler_set_priority` -/
def schedulerSetPriority (proc : ι) (priority : Nat) : Scheduler ι :=
  let priority := if priority = 0 then processDefaultPriority else priority
  let priority := if priority > processMaxPriority then processMaxPriority else priority
  s.setProc proc fun p => { p with priority := priority, dynamicPriority := priority }

/-- Source: `scheduler.c` `scheduler_set_current` -/
def schedulerSetCurrent (proc : ι) : Scheduler ι :=
  let s := { s with current := some proc }
  (s.setProc proc fun p => { p with state := .running }).switchAddressSpace proc

/-- Source: `scheduler.c` `scheduler_wake` -/
def schedulerWake (proc : ι) : Scheduler ι :=
  if (s.procs proc).state = .blocked then
    (s.setProc proc fun p => { p with state := .ready }).enqueue proc
  else s

/-- Source: `scheduler.c` `scheduler_remove` -/
def schedulerRemove (proc : ι) : Scheduler ι :=
  { s with readyQueue := s.readyQueue.erase proc }

/-- The process whose saved stack pointer `context_switch` loads, if it is called; `esp` is the
stack pointer that it saves. Source: `scheduler.c` `yield` -/
def yield (esp : Word) : Option ι × Scheduler ι :=
  if !s.schedulerInitialized then (none, s)
  else
    match s.current with
    | none => (none, s.schedulerSchedule)
    | some prev =>
      if (s.procs prev).interruptFrame then (none, s)
      else
        let s := s.schedulerSchedule
        match s.current with
        | none => (none, s)
        | some current =>
          if prev ≠ current ∧ (s.procs prev).state = .ready then
            (some current, s.setProc prev fun p => { p with esp := esp })
          else (none, s)

end Scheduler

end AgenticOs
