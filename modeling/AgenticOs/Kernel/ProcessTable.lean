import AgenticOs.Kernel.Descriptors

/-!
# `kernel/process.c`: the process table

Creation, fork, exit, waiting, signals, destruction. A process pointer that a function gets is never `NULL`
here: for `NULL` it returns at once.

* **Searches** (`processGetByPid`, `processFindExitedChild`, `processHasChild`): the first slot from the
  lowest that matches.
* **Kernel stacks** (`allocateStack`, `freeStack`): a pool with a bitmap; a stack is freed by its address.
* **Creation** (`createProcess`): of the words that `process_create` lays out on a new kernel stack only the
  number matters, which decides the stack pointer; the frame that `process_fork` builds is modelled.
* **Fork** (`processFork`, `forkInto`): a slot, a stack, a clone, the descriptors; what fails gives back what
  was taken.
* **Exit** (`processMarkExit`): the process becomes a zombie and closes its descriptors (`endProcess`), then
  its children and its parent are told (`tellFamily`), and a parent that waits is handed the status
  (`handToWaiter`).
* **After a switch** (`processCompletePipeIo`, `reapZombies`): what `process_complete_context_switch` is made
  of.
-/

namespace AgenticOs

open Function Lib

/-- Source: `process.c` `STACK_SLOTS` -/
abbrev stackSlots : Nat := 16
/-- Source: `process.c` `STACK_SLOT_SIZE` -/
abbrev stackSlotSize : Nat := 1024
/-- Source: `process.h` `USER_STACK_TOP` -/
abbrev userStackTop : Word := 0xB0000000
/-- Source: `process.h` `USER_STACK_SIZE` -/
abbrev userStackSize : Nat := 4096
/-- Source: `syscall.h` `SYSCALL_SUCCESS` -/
abbrev syscallSuccess : Word := 0
/-- Source: `syscall.h` `SYSCALL_EINVAL` -/
abbrev syscallEinval : Word := -1
/-- Source: `syscall.h` `SYSCALL_EFAULT` -/
abbrev syscallEfault : Word := -2
/-- Source: `syscall.h` `SYSCALL_EPERM` -/
abbrev syscallEperm : Word := -3
/-- Source: `syscall.h` `SYSCALL_ENOSYS` -/
abbrev syscallEnosys : Word := -4
/-- Source: `syscall.h` `SYSCALL_ENOENT` -/
abbrev syscallEnoent : Word := -5
/-- Source: `syscall.h` `SYSCALL_ENOSPC` -/
abbrev syscallEnospc : Word := -6
/-- Source: `syscall.h` `SYSCALL_EIO` -/
abbrev syscallEio : Word := -7
/-- Source: `syscall.h` `SYSCALL_EMFILE` -/
abbrev syscallEmfile : Word := -8
/-- Source: `syscall.h` `SYSCALL_EBADF` -/
abbrev syscallEbadf : Word := -9
/-- Source: `syscall.h` `SYSCALL_EEXIST` -/
abbrev syscallEexist : Word := -10
/-- Source: `syscall.h` `SYSCALL_ECHILD` -/
abbrev syscallEchild : Word := -11
/-- Source: `syscall.h` `SYSCALL_ENOMEM` -/
abbrev syscallEnomem : Word := -12
/-- Source: `syscall.h` `SYSCALL_EAGAIN` -/
abbrev syscallEagain : Word := -13
/-- Source: `syscall.h` `SYSCALL_E2BIG` -/
abbrev syscallE2big : Word := -14
/-- Source: `syscall.h` `SYSCALL_EPIPE` -/
abbrev syscallEpipe : Word := -15
/-- Source: `syscall.h` `SYSCALL_ESRCH` -/
abbrev syscallEsrch : Word := -16
/-- Source: `syscall.h` `SIGKILL` -/
abbrev sigKill : Nat := 9
/-- Source: `syscall.h` `SIGTERM` -/
abbrev sigTerm : Nat := 15
/-- Source: `syscall.h` `SIGCHLD` -/
abbrev sigChld : Nat := 17
/-- Source: `syscall.h` `NSIG` -/
abbrev nsig : Nat := 32

/-- `1u << signum` -/
def signalBit (signum : Nat) : Word := BitVec.twoPow 32 signum

/-- Source: `syscall.h` `W_EXITCODE` -/
def wExitcode (code sig : Word) : Word := (code &&& 0xFF) <<< 8 ||| sig &&& 0x7F

/-- The slots of the table in their order. -/
def slots : List Slot := List.finRange maxProcesses

namespace Process

/-- Source: `process.c` `process_signal_init` -/
def processSignalInit (p : Process) : Process := { p with pendingSignals := 0, killedBySignal := 0 }

/-- The status of `waitpid` for a process that has ended. -/
def encodedStatus (p : Process) : Word :=
  if p.killedBySignal ≠ 0 then wExitcode 0 p.killedBySignal else wExitcode p.exitCode 0

/-- The process waits for the end of a child with this pid. -/
def waitsForChild (p : Process) (pid : Nat) : Bool :=
  p.state = .blocked && p.waitingForChild && (p.waitTargetPid = uint32Max || p.waitTargetPid = pid)

/-- Source: `process.c` `process_begin_waitpid` -/
def processBeginWaitpid (p : Process) (statusPtr : Word) (targetPid : Nat) : Process :=
  { p with
    waitingForChild := true
    waitTargetPid := targetPid
    waitStatusPtr := statusPtr
    waitResultStatus := 0
    waitCompletionPending := false
    waitIsWaitpid := false
    blockReason := .waitChild }

/-- Source: `process.c` `process_begin_wait` -/
def processBeginWait (p : Process) (statusPtr : Word) : Process :=
  p.processBeginWaitpid statusPtr uint32Max

/-- Source: `process.c` `process_cancel_wait` -/
def processCancelWait (p : Process) : Process :=
  { p with
    waitingForChild := false
    waitTargetPid := 0
    waitStatusPtr := 0
    waitResultStatus := 0
    waitCompletionPending := false
    blockReason := .none }

/-- `reason` is that of a pipe in every call. Source: `process.c` `process_begin_pipe_wait` -/
def processBeginPipeWait (p : Process) (reason : BlockReason) (fd : Int) (buffer : Word)
    (count : Nat) : Process :=
  { p with blockReason := reason, blockedFd := fd, blockedBuffer := buffer, blockedCount := count }

/-- The entry that `process_destroy` leaves behind: `wait_is_waitpid` alone survives. -/
def destroyed (p : Process) : Process :=
  ({ p with
    state := .dead
    pid := 0
    kernelStack := 0
    esp := 0
    cr3 := 0
    interruptFrame := false
    priority := 0
    dynamicPriority := 0
    runCount := 0
    parentPid := 0
    exitCode := 0
    exited := false
    waited := false
    waitingForChild := false
    waitStatusPtr := 0
    waitResultStatus := 0
    waitCompletionPending := false
    waitTargetPid := 0
    blockReason := .none
    blockedFd := -1
    blockedBuffer := 0
    blockedCount := 0
    heapStart := 0
    heapEnd := 0 }).processSignalInit.processFdTableInit

/-- The entry of a new process, but for its kernel stack. -/
def created (p : Process) (pid : Nat) (cr3 : Word) (interruptFrame : Bool) : Process :=
  ({ p with
    pid := pid
    state := .ready
    cr3 := cr3
    interruptFrame := interruptFrame
    priority := processDefaultPriority
    dynamicPriority := processDefaultPriority
    runCount := 0
    parentPid := 0
    exitCode := 0
    exited := false
    waited := false
    waitingForChild := false
    waitTargetPid := 0
    waitStatusPtr := 0
    waitResultStatus := 0
    waitCompletionPending := false
    waitIsWaitpid := false
    blockReason := .none
    blockedFd := -1
    blockedBuffer := 0
    blockedCount := 0
    heapStart := processHeapStart
    heapEnd := processHeapStart }).processSignalInit.processFdTableInit

end Process

namespace Kernel

variable (k : Kernel)

/-! ### Searches of the table -/

/-- Source: `process.c` `process_get_current` -/
def processGetCurrent : Option Slot := slots.find? fun i => (k.procs i).state = .running

/-- Source: `process.c` `process_get_by_pid` -/
def processGetByPid (pid : Nat) : Option Slot :=
  if pid = 0 then none
  else slots.find? fun i => (k.procs i).pid = pid && (k.procs i).state ≠ .dead

/-- Source: `process.c` `process_find_exited_child_by_pid` -/
def processFindExitedChildByPid (parentPid targetPid : Nat) : Option Slot :=
  if parentPid = 0 then none
  else
    slots.find? fun i =>
      let p := k.procs i
      p.pid ≠ 0 && p.parentPid = parentPid && p.state = .zombie && p.exited && !p.waited &&
        (targetPid = uint32Max || p.pid = targetPid)

/-- Source: `process.c` `process_find_exited_child` -/
def processFindExitedChild (parentPid : Nat) : Option Slot :=
  k.processFindExitedChildByPid parentPid uint32Max

/-- Source: `process.c` `process_has_child_by_pid` -/
def processHasChildByPid (parentPid targetPid : Nat) : Bool :=
  parentPid ≠ 0 &&
    slots.any fun i =>
      let p := k.procs i
      p.state ≠ .dead && p.parentPid = parentPid && !p.waited &&
        (targetPid = uint32Max || p.pid = targetPid)

/-- Source: `process.c` `process_has_child` -/
def processHasChild (parentPid : Nat) : Bool := k.processHasChildByPid parentPid uint32Max

/-- The first unused slot. -/
def findDead : Option Slot := slots.find? fun i => (k.procs i).state = .dead

/-! ### Kernel stacks -/

/-- `NULL` when no slot is free. Source: `process.c` `allocate_stack` -/
def allocateStack : Word × Kernel :=
  match (List.finRange stackSlots).find? k.stackFreeBitmap with
  | none => (0, k)
  | some i =>
    (k.stackPool + BitVec.ofNat 32 (i * (stackSlotSize * 4)),
      { k with stackFreeBitmap := update k.stackFreeBitmap i false })

/-- Source: `process.c` `free_stack` -/
def freeStack (stack : Word) : Kernel :=
  if stack = 0 then k
  else
    let offset := (stack - k.stackPool).toNat / 4
    if h : offset / stackSlotSize < stackSlots then
      { k with stackFreeBitmap := update k.stackFreeBitmap ⟨offset / stackSlotSize, h⟩ true }
    else k

/-! ### Exit -/

/-- The children of a process that ends lose their parent; those that have ended need no wait. -/
def orphanChildren (pid : Nat) : Kernel :=
  { k with
    procs := fun i =>
      let p := k.procs i
      if p.state ≠ .dead ∧ p.parentPid = pid then
        { p with parentPid := 0, waited := p.waited || p.state = .zombie }
      else p }

end Kernel

/-- `allocate_stack` as a call. -/
def callAllocateStack : KernelM Word := fun k => k.allocateStack

/-- Source: `process.c` `process_init` -/
def processInit (k : Kernel) : Kernel :=
  { k with
    procs := fun _ => Process.zero
    nextPid := 1
    processCount := 0
    stackFreeBitmap := fun _ => true }

/-- Source: `process.c` `process_set_address_space` -/
def processSetAddressSpace (proc : Slot) (cr3 : Word) : KernelM Unit :=
  modifyProc proc fun p => { p with cr3 := cr3 }

/-- The next pid. -/
def takePid : KernelM Nat := fun k =>
  (k.nextPid, { k with nextPid := (k.nextPid + 1) % wordSize })

/-- `process_count` changes. -/
def setProcessCount (f : Nat → Nat) : KernelM Unit :=
  modify fun k => { k with processCount := f k.processCount }

/-- `allocate_stack` as a step of a program. -/
@[simp] theorem run_callAllocateStack (k : Kernel) : callAllocateStack k = k.allocateStack := rfl

/-- A pid is taken from the counter. -/
@[simp] theorem run_takePid (k : Kernel) :
    takePid k = (k.nextPid, { k with nextPid := (k.nextPid + 1) % wordSize }) := rfl

/-- The count of processes changes. -/
@[simp] theorem run_setProcessCount (f : Nat → Nat) (k : Kernel) :
    setProcessCount f k = (⟨⟩, { k with processCount := f k.processCount }) := rfl

/-- `process_create` and `process_create_preemptive`: they differ in `interrupt_frame` and in the
number of words on the initial stack. -/
def createProcess (interruptFrame : Bool) (words : Nat) : KernelM (Option Slot) := do
  let k ← get
  if k.processCount ≥ maxProcesses then return none
  else
    match k.findDead with
    | none => return none
    | some proc =>
      let pid ← takePid
      modifyProc proc (·.created pid k.mem.pagingGetCurrentDirectory interruptFrame)
      let stack ← callAllocateStack
      if stack = 0 then
        modifyProc proc fun p => { p with kernelStack := 0, state := .dead, pid := 0 }
        return none
      else
        modifyProc proc fun p =>
          { p with kernelStack := stack, esp := stack + BitVec.ofNat 32 (kernelStackSize - words * 4) }
        setProcessCount fun n => (n + 1) % wordSize
        return some proc

/-- The initial stack has 13 words for a user process, 5 for a kernel task.
Source: `process.c` `process_create` -/
def processCreate (isUser : Bool) : KernelM (Option Slot) :=
  createProcess false (if isUser then 13 else 5)

/-- Source: `process.c` `process_create_preemptive` -/
def processCreatePreemptive : KernelM (Option Slot) := createProcess true 15

/-! ### Fork -/

/-- Source: `syscall.c` `is_ring3` -/
def isRing3 (callerCs : Word) : Bool := callerCs &&& 0x03 = 0x03

/-- `memset(child, 0, sizeof(*child))` and `free_stack` on a failed fork. -/
def abandonChild (child : Slot) : KernelM Unit := do
  let p ← getProc child
  modify (·.freeStack p.kernelStack)
  modifyProc child fun _ => Process.zero

/-- The fields of a child that are those of its parent or fixed. -/
def Process.forked (child parent : Process) (pid : Nat) (childFrame childCr3 : Word) : Process :=
  ({ child with
    pid := pid
    esp := childFrame
    cr3 := childCr3
    interruptFrame := true
    priority := parent.priority
    dynamicPriority := parent.priority
    runCount := 0
    state := .ready
    parentPid := parent.pid
    blockReason := .none
    blockedFd := -1
    heapStart := parent.heapStart
    heapEnd := parent.heapEnd }).processSignalInit

/-- The frame a child resumes: that of its parent with result zero and interrupts enabled. -/
def InterruptFrame.forked (frame : InterruptFrame) : InterruptFrame :=
  { frame with eax := 0, eflags := frame.eflags ||| 0x200 }

/-- `process_fork` once the child has a kernel stack and an address space. -/
def forkInto (child parent : Slot) (parentFrame childCr3 : Word) : KernelM (Option Slot) := do
  let p ← getProc child
  let childFrame := p.kernelStack + BitVec.ofNat 32 (kernelStackSize - frameBytes)
  modify fun k => k.setFrame childFrame fun _ => (k.frameAt parentFrame).forked
  let q ← getProc parent
  let pid ← takePid
  modifyProc child (·.forked q pid childFrame childCr3)
  let status ← processFdInherit child parent
  if status ≠ vfsSuccess then
    onMemory (·.pagingDestroyAddressSpace childCr3)
    abandonChild child
    return none
  else
    modifyProc parent fun p => { p with interruptFrame := true }
    setProcessCount fun n => (n + 1) % wordSize
    return some child

/-- Source: `process.c` `process_fork` -/
def processFork (parent : Slot) (parentFrame : Word) : KernelM (Option Slot) := do
  let k ← get
  if parentFrame = 0 ∨ isRing3 (k.frameAt parentFrame).cs = false ∨ (k.procs parent).cr3 = 0 ∨
      k.processCount ≥ maxProcesses then
    return none
  else
    match k.findDead with
    | none => return none
    | some child =>
      modifyProc child fun _ => Process.zero.processFdTableInit
      let stack ← callAllocateStack
      modifyProc child fun p => { p with kernelStack := stack }
      if stack = 0 then return none
      else
        let q ← getProc parent
        let childCr3 ← callMemory (·.pagingCloneDirectory q.cr3)
        if childCr3 = 0 then
          abandonChild child
          return none
        else forkInto child parent parentFrame childCr3

/-! ### Destruction, exit, signals -/

/-- Source: `process.c` `process_destroy` -/
def processDestroy (proc : Slot) : KernelM Unit := do
  let p ← getProc proc
  if p.state = .dead then return ()
  else
    processFdCloseAll proc
    onMemory (·.pagingDestroyAddressSpace p.cr3)
    modify (·.freeStack p.kernelStack)
    modifyProc proc Process.destroyed
    setProcessCount fun n => n - 1

/-- Source: `process.c` `process_send_signal` -/
def processSendSignal (proc : Slot) (signum : Nat) : KernelM Int := do
  let p ← getProc proc
  if (signum ≠ sigKill ∧ signum ≠ sigTerm ∧ signum ≠ sigChld) ∨ p.state = .dead ∨
      p.state = .zombie then
    return -1
  else
    modifyProc proc fun p => { p with pendingSignals := p.pendingSignals ||| signalBit signum }
    return 0

/-- The parent of a process that has ended, if it waits for it, is handed its status and woken. -/
def handToWaiter (proc parent : Slot) : KernelM Unit := do
  let p ← getProc proc
  let q ← getProc parent
  if q.waitsForChild p.pid then
    modifyProc parent fun q =>
      { q with
        waitResultStatus := if q.waitIsWaitpid then p.encodedStatus else p.exitCode
        waitCompletionPending := true
        waitingForChild := false
        blockReason := .none }
    runIf (q.esp ≠ 0)
      (modify (·.setFrame q.esp fun frame => { frame with eax := BitVec.ofNat 32 p.pid }))
    modifyProc proc fun p => { p with waited := true }
    onScheduler (·.schedulerWake parent)

/-- The first half of `process_mark_exit`: the process becomes a zombie. -/
def endProcess (proc : Slot) (exitCode : Word) : KernelM Unit := do
  onScheduler (·.schedulerRemove proc)
  modifyProc proc fun p =>
    { p with exitCode := if exitCode.msb then exitCode else exitCode &&& 0xFF, exited := true }
  processFdCloseAll proc
  modifyProc proc fun p => { p with state := .zombie, blockReason := .none }

/-- The second half of `process_mark_exit`: its children and its parent are told. -/
def tellFamily (proc : Slot) : KernelM Unit := do
  let p ← getProc proc
  modify (·.orphanChildren p.pid)
  let p ← getProc proc
  let k ← get
  match k.processGetByPid p.parentPid with
  | none => modifyProc proc fun p => { p with waited := true }
  | some parent =>
    if (k.procs parent).state = .zombie then modifyProc proc fun p => { p with waited := true }
    else
      let _ ← processSendSignal parent sigChld
      handToWaiter proc parent

/-- Source: `process.c` `process_mark_exit` -/
def processMarkExit (proc : Slot) (exitCode : Word) : KernelM Unit := do
  let p ← getProc proc
  if p.state = .dead ∨ p.state = .zombie then return ()
  else
    endProcess proc exitCode
    tellFamily proc

/-! ### After a switch -/

/-- The value of `eax` for the result of a pipe operation. -/
def pipeResultWord (result : Int) : Word :=
  if result = pipeBroken then syscallEpipe
  else if result = pipeWouldBlock then syscallEagain
  else if result < 0 then syscallEbadf
  else BitVec.ofInt 32 result

/-- `pipe_read` into the caller's buffer. -/
def kernelPipeRead (handle : Int) (buffer : Word) (count : Nat) : KernelM Int := fun k =>
  let r := pipeRead Kernel.processWakePipeWaiter k.pipes k handle (buffer != 0) count
  (r.status, ({ r.state with pipes := r.pipes }).storeBytes buffer (r.bytes.map UInt8.toBitVec))

/-- `pipe_write` from the caller's buffer. -/
def kernelPipeWrite (handle : Int) (buffer : Word) (count : Nat) : KernelM Int := fun k =>
  let bytes := fun i => UInt8.ofBitVec (k.loadByte (buffer + BitVec.ofNat 32 i))
  let r := pipeWrite Kernel.processWakePipeWaiter k.pipes k handle
    (if buffer = 0 then none else some bytes) count
  (r.status, { r.state with pipes := r.pipes })

/-- The pipe operation that a woken process asked for. -/
def pendingPipeIo (p : Process) : KernelM Int :=
  match p.processFdGet p.blockedFd with
  | none => return pipeEbadf
  | some (kind, handle) =>
    if p.blockReason = .pipeRead ∧ kind = .pipeRead then
      kernelPipeRead handle p.blockedBuffer p.blockedCount
    else if p.blockReason = .pipeWrite ∧ kind = .pipeWrite then
      kernelPipeWrite handle p.blockedBuffer p.blockedCount
    else return pipeEbadf

/-- Source: `process.c` `process_complete_pipe_io` -/
def processCompletePipeIo (proc : Slot) : KernelM Unit := do
  let p ← getProc proc
  if p.blockReason = .pipeRead ∨ p.blockReason = .pipeWrite then
    let result ← pendingPipeIo p
    runIf (p.esp ≠ 0)
      (modify (·.setFrame p.esp fun frame => { frame with eax := pipeResultWord result }))
    modifyProc proc fun p =>
      { p with blockReason := .none, blockedFd := -1, blockedBuffer := 0, blockedCount := 0 }

/-- A zombie that nobody will wait for. -/
def Kernel.reapable (k : Kernel) (proc : Slot) : Bool :=
  let p := k.procs proc
  p.state = .zombie &&
    (p.waited || p.parentPid = 0 ||
      match k.processGetByPid p.parentPid with
      | none => true
      | some parent => (k.procs parent).state = .zombie)

/-- The last loop of `process_complete_context_switch`. -/
def reapZombies (current : Option Slot) : KernelM Unit :=
  slots.forM fun proc => do
    let k ← get
    if some proc ≠ current ∧ k.reapable proc then processDestroy proc

end AgenticOs
