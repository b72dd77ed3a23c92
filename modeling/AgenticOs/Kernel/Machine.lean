import AgenticOs.Kernel.ActiveDirectory

/-!
# Traps

The three handlers of `isr.asm`, and the runs of a machine whose processor is in ring 3 between two traps.

* **Signals** (`processDeliverSignals`): a loop whose rounds are bounded by `fuel`: `none` is a loop that has
  not ended. A handler takes the bound, and a run may take any bound at each trap.
* **Handlers** (`syscallDispatch`, `timerInterrupt`, `pageFaultDispatch`): what they do for the process that
  runs, and the stack pointer that they return.
* **Traps** (`Trap.enter`, `Trap.handle`): a trap pushes the frame of the running process at `esp0` and calls
  its handler; when the handler returns a stack pointer, `process_complete_context_switch` runs on it and the
  frame there is resumed.
* **Runs** (`Step`, `Reachable`): steps are traps that return, stores of the program, and keys. `ReachableIf`
  are the states reached by steps that all meet a condition on the state before, which is how a result about
  runs names the steps that it excludes.
-/

namespace AgenticOs

open Function Lib

/-! ### `process_deliver_signals` -/

/-- A process dies of a signal. -/
def dieOfSignal (current : Slot) (signum : Nat) (frameEsp : Word) : KernelM Word := do
  modifyProc current fun p =>
    { p with
      pendingSignals := p.pendingSignals &&& ~~~signalBit signum
      killedBySignal := BitVec.ofNat 32 signum }
  processMarkExit current 0
  callScheduler (·.schedulerExitCurrent frameEsp)

/-- `none`: the loop has not ended after `fuel` rounds.
Source: `process.c` `process_deliver_signals` -/
def processDeliverSignals : Nat → Word → Kernel → Option (Word × Kernel)
  | 0, _, _ => none
  | fuel + 1, frameEsp, k =>
    match k.processGetCurrent with
    | none => some (frameEsp, k)
    | some current =>
      if frameEsp = 0 ∨ isRing3 (k.frameAt frameEsp).cs = false then some (frameEsp, k)
      else
        let pending := (k.procs current).pendingSignals
        if test pending (signalBit sigKill) then
          let r := dieOfSignal current sigKill frameEsp k
          processDeliverSignals fuel r.1 r.2
        else if test pending (signalBit sigTerm) then
          let r := dieOfSignal current sigTerm frameEsp k
          processDeliverSignals fuel r.1 r.2
        else if test pending (signalBit sigChld) then
          processDeliverSignals fuel frameEsp
            (k.setProc current fun p =>
              { p with pendingSignals := p.pendingSignals &&& ~~~signalBit sigChld })
        else some (frameEsp, k)

/-! ### The handlers -/

/-- `process_get_current()->interrupt_frame = 1`, if there is a current process. -/
def Kernel.markCurrentFrame (k : Kernel) : Kernel :=
  match k.processGetCurrent with
  | none => k
  | some current => k.setProc current fun p => { p with interruptFrame := true }

/-- `none`: a loop that has not ended, or a call that does not return.
Source: `syscall.c` `syscall_dispatch` -/
def syscallDispatch (fuel : Nat) (frameEsp : Word) (k : Kernel) : Option (Word × Kernel) :=
  if frameEsp = 0 then some (0, k)
  else
    match syscallHandle frameEsp k.markCurrentFrame with
    | (none, _) => none
    | (some answer, k) =>
      processDeliverSignals fuel (answer.resumeEsp.getD frameEsp)
        (k.setFrame frameEsp fun f => { f with eax := answer.result })

/-- Source: `timer.c` `timer_interrupt` -/
def timerInterrupt (fuel : Nat) (interruptedEsp : Word) (k : Kernel) : Option (Word × Kernel) :=
  let k := { k with timerTicks := (k.timerTicks + 1) % wordSize }
  let r := callScheduler (·.schedulerPreempt interruptedEsp) k
  processDeliverSignals fuel r.1 r.2

/-- The exit code of a process that `vm_handle_page_fault` could not help. -/
def faultExitCode : VmFaultResult → Word
  | .guard => vmExitGuardPage
  | .oom => vmExitOom
  | _ => vmExitPageFault

/-- A process dies of a page fault. -/
def dieOfFault (current : Slot) (exitCode frameEsp : Word) : KernelM Word := do
  processMarkExit current exitCode
  callScheduler (·.schedulerExitCurrent frameEsp)

/-- `fault_addr` is read from `cr2`; `exception_handler` does not return.
Source: `idt.c` `page_fault_dispatch` -/
def pageFaultDispatch (frameEsp errorCode faultAddr : Word) (k : Kernel) : Word × Kernel :=
  if frameEsp = 0 ∨ isRing3 (k.frameAt frameEsp).cs = false ∨ test errorCode vmFaultUser = false then
    (0, k)
  else
    match k.current with
    | none => (0, k)
    | some current =>
      let r := k.mem.vmHandlePageFault (k.procs current) faultAddr errorCode
      let k := k.withMem r.2
      if r.1 = .handled then (frameEsp, k) else dieOfFault current (faultExitCode r.1) frameEsp k

/-! ### Runs -/

/-- What makes the processor leave ring 3, with the registers it had. -/
inductive Trap
  | syscall (registers : InterruptFrame)
  | timer (registers : InterruptFrame)
  | pageFault (registers : InterruptFrame) (errorCode faultAddr : Word)

/-- The registers at a trap. -/
def Trap.registers : Trap → InterruptFrame
  | .syscall registers => registers
  | .timer registers => registers
  | .pageFault registers _ _ => registers

/-- The address of the frame that a trap pushes; a page fault leaves a free word above its frame,
where the error code was. -/
def Trap.frame (k : Kernel) : Trap → Word
  | .pageFault _ _ _ => k.tssEsp0 - 72
  | _ => k.tssEsp0 - 68

/-- The kernel as the handler of a trap finds it. -/
def Trap.enter (trap : Trap) (k : Kernel) : Kernel := k.setFrame (trap.frame k) fun _ => trap.registers

/-- The handler of a trap: the stack pointer it returns. -/
def Trap.handle (fuel : Nat) (trap : Trap) (k : Kernel) : Option (Word × Kernel) :=
  match trap with
  | .syscall _ => syscallDispatch fuel (trap.frame k) (trap.enter k)
  | .timer _ => timerInterrupt fuel (trap.frame k) (trap.enter k)
  | .pageFault _ errorCode faultAddr =>
    some (pageFaultDispatch (trap.frame k) errorCode faultAddr (trap.enter k))

/-- A process gets its address space and is made current. -/
def Kernel.booted (k : Kernel) (proc : Slot) (cr3 : Word) (preemption : Bool) : Kernel :=
  ((k.setProc proc fun p => { p with cr3 := cr3 }).onScheduler
    (·.schedulerSetCurrent proc)).onScheduler (·.schedulerSetPreemptionEnabled preemption)

/-- One process, made current by the kernel that starts, runs in ring 3. -/
inductive Boot : Kernel → Prop
  | intro (k : Kernel) (create : KernelM (Option Slot)) (proc : Slot) (cr3 : Word)
      (preemption : Bool) (hpool : StackPool k.stackPool) (hpipes : k.pipes = pipeInit)
      (hfiles : k.vfs.vfsOpenFiles = fun _ => VfsOpenFile.zero) (hcr3 : IsDirectory cr3)
      (hkind : create = processCreate true ∨ create = processCreatePreemptive)
      (hcreate : (create ((processInit k).onScheduler (·.schedulerInit))).1 = some proc) :
      Boot ((create ((processInit k).onScheduler (·.schedulerInit))).2.booted proc cr3 preemption)

/-- What happens to a machine in ring 3: a trap, a store of the program, a key. -/
inductive Event
  | trap (trap : Trap)
  | store (address : Word) (b : Byte)
  | key (c : Byte)

/-- One step of a machine in ring 3. A trap has to return, and a program stores where it may. -/
inductive Step : Kernel → Event → Kernel → Prop
  | trap {k k' : Kernel} (fuel : Nat) (trap : Trap) (frameEsp : Word)
      (hring : isRing3 trap.registers.cs = true) (hhandle : trap.handle fuel k = some (frameEsp, k'))
      (hesp : frameEsp ≠ 0) : Step k (.trap trap) (processCompleteContextSwitch k').2
  | store (k : Kernel) (address : Word) (b : Byte)
      (hwritable : k.mem.isUserWritable k.mem.activePageDirectory address = true) :
      Step k (.store address b) (k.withMem (k.mem.storeByte address b))
  | key (k : Kernel) (c : Byte) : Step k (.key c) { k with keyBuffer := k.keyBuffer ++ [c] }

/-- The states of a machine in ring 3 that are reached by steps which are all `ok`. -/
inductive ReachableIf (ok : Kernel → Event → Prop) : Kernel → Prop
  | boot {k : Kernel} (h : Boot k) : ReachableIf ok k
  | step {k k' : Kernel} {event : Event} (h : ReachableIf ok k) (hok : ok k event)
      (hstep : Step k event k') : ReachableIf ok k'

/-- The states of a machine in ring 3. -/
abbrev Reachable : Kernel → Prop := ReachableIf fun _ _ => True

/-- A weaker condition lets more steps be taken. -/
theorem ReachableIf.mono {ok ok' : Kernel → Event → Prop} (hok : ∀ k event, ok k event → ok' k event)
    {k : Kernel} (h : ReachableIf ok k) : ReachableIf ok' k := by
  induction h with
  | boot h => exact .boot h
  | step _ ho hstep ih => exact .step ih (hok _ _ ho) hstep

end AgenticOs
