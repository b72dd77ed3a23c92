import AgenticOs.Types
import AgenticOs.Lib.Bits
import Mathlib.Logic.Function.Basic

/-!
# `include/process.h`

One entry of the process table.

* **Fields** (`Process`): `next`, the link of the ready queue, is not one of them: the queue is a list of its
  members (`Kernel/Scheduler.lean`). Nor are those that nothing in the model reads.
* **Descriptors** (`ProcessFd`): sixteen for each process, each with a kind, a handle of `vfs.c` or `pipe.c`,
  and flags.
* **Empty entries**: `Process.zero` is what `memset` leaves, `ProcessFd.unused` what `process_fd_table_init`
  does.

The functions of `process.c` are in `Kernel/Descriptors.lean` and `Kernel/ProcessTable.lean`.
-/

namespace AgenticOs

open Lib

/-- Source: `process.h` `MAX_PROCESSES` -/
abbrev maxProcesses : Nat := 16
/-- Source: `process.h` `KERNEL_STACK_SIZE` -/
abbrev kernelStackSize : Nat := 4096
/-- Source: `process.h` `PROCESS_DEFAULT_PRIORITY` -/
abbrev processDefaultPriority : Nat := 1
/-- Source: `process.h` `PROCESS_MAX_PRIORITY` -/
abbrev processMaxPriority : Nat := 16
/-- Source: `process.h` `PROCESS_MAX_FDS` -/
abbrev processMaxFds : Nat := 16
/-- Source: `process.h` `PROCESS_FD_CLOEXEC` -/
abbrev processFdCloexec : Nat := 1
/-- Source: `process.h` `PROCESS_HEAP_START` -/
abbrev processHeapStart : Word := 0x90000000
/-- Source: `process.h` `PROCESS_HEAP_LIMIT` -/
abbrev processHeapLimit : Word := 0xA0000000

/-- Source: `process.h` `struct process_fd` -/
structure ProcessFd where
  kind : FdKind
  handle : Int
  flags : Nat
  deriving DecidableEq

/-- An unused descriptor. Source: `process.c` `process_fd_table_init` -/
def ProcessFd.unused : ProcessFd where
  kind := .none
  handle := -1
  flags := 0

/-- Source: `process.h` `struct process` -/
structure Process where
  pid : Nat
  esp : Word
  cr3 : Word
  interruptFrame : Bool
  priority : Nat
  dynamicPriority : Nat
  runCount : Nat
  state : ProcessState
  kernelStack : Word
  parentPid : Nat
  exitCode : Word
  exited : Bool
  waited : Bool
  waitingForChild : Bool
  waitTargetPid : Nat
  waitStatusPtr : Word
  waitResultStatus : Word
  waitCompletionPending : Bool
  waitIsWaitpid : Bool
  blockReason : BlockReason
  blockedFd : Int
  blockedBuffer : Word
  blockedCount : Nat
  pendingSignals : Word
  killedBySignal : Word
  heapStart : Word
  heapEnd : Word
  fds : Fin processMaxFds → ProcessFd

/-- The all-zero entry left by `memset`. -/
def Process.zero : Process where
  pid := 0
  esp := 0
  cr3 := 0
  interruptFrame := false
  priority := 0
  dynamicPriority := 0
  runCount := 0
  state := .dead
  kernelStack := 0
  parentPid := 0
  exitCode := 0
  exited := false
  waited := false
  waitingForChild := false
  waitTargetPid := 0
  waitStatusPtr := 0
  waitResultStatus := 0
  waitCompletionPending := false
  waitIsWaitpid := false
  blockReason := .none
  blockedFd := 0
  blockedBuffer := 0
  blockedCount := 0
  pendingSignals := 0
  killedBySignal := 0
  heapStart := 0
  heapEnd := 0
  fds := fun _ => { kind := .none, handle := 0, flags := 0 }

/-- The priority a dispatched process falls back to.
Source: `scheduler.c` `priority ? priority : PROCESS_DEFAULT_PRIORITY` -/
def Process.basePriority (p : Process) : Nat :=
  if p.priority ≠ 0 then p.priority else processDefaultPriority

end AgenticOs
