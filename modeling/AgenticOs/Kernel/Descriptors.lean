import AgenticOs.Kernel.State

/-!
# `kernel/process.c`: descriptors

The descriptor table of a process, over the open files of `vfs.c` and the pipes of `pipe.c`.

* **Wake-ups** (`processWakePipeWaiter`): closing the last end of a pipe wakes a process that waits at the
  other, so the calls of `pipe.c` are made with `process_wake_pipe_waiter` as their wake-up.
* **Tables**: a descriptor is installed in the lowest place that is unused, closed one by one, all at once, or
  those with `PROCESS_FD_CLOEXEC` (`processFdInstallTyped`, `processFdClose`, `processFdCloseAll`,
  `processFdCloseOnExec`).
* **Fork** (`processFdInherit`): a child retains what its parent has, descriptor by descriptor; when one
  cannot be retained, those before it are given back.
-/

namespace AgenticOs

open Function Lib

/-- The descriptor an `int` names. -/
def fdIndex (fd : Int) : Option (Fin processMaxFds) :=
  if h : 0 ≤ fd ∧ fd.toNat < processMaxFds then some ⟨fd.toNat, h.2⟩ else none

/-- Source: `process.c` `process_fd_get` -/
def Process.processFdGet (p : Process) (fd : Int) : Option (FdKind × Int) :=
  match fdIndex fd with
  | none => none
  | some i =>
    if (p.fds i).kind = .none ∨ (p.fds i).handle < 0 then none
    else some ((p.fds i).kind, (p.fds i).handle)

/-- `kind == PROCESS_FD_PIPE_READ || kind == PROCESS_FD_PIPE_WRITE` -/
def FdKind.isPipe : FdKind → Bool
  | .pipeRead => true
  | .pipeWrite => true
  | _ => false

/-- `proc->fds[fd] = entry` -/
def Process.setFd (p : Process) (fd : Fin processMaxFds) (entry : ProcessFd) : Process :=
  { p with fds := update p.fds fd entry }

/-- Source: `process.c` `process_fd_table_init` -/
def Process.processFdTableInit (p : Process) : Process := { p with fds := fun _ => ProcessFd.unused }

namespace Kernel

/-- The process waits for the pipe at an end that `reason` names: the test in
`process_wake_pipe_waiter`. -/
def waitsForPipe (k : Kernel) (pipes : Pipes) (pipeIndex : Fin maxPipes) (reason : BlockReason)
    (proc : Slot) : Bool :=
  let p := k.procs proc
  p.state = .blocked && p.blockReason = reason &&
    match p.processFdGet p.blockedFd with
    | none => false
    | some (kind, handle) => kind.isPipe && pipeHandleIndex pipes handle = some pipeIndex

/-- Source: `process.c` `process_wake_pipe_waiter` -/
def processWakePipeWaiter (pipes : Pipes) (pipeIndex : Fin maxPipes) (reason : BlockReason)
    (k : Kernel) : Kernel :=
  match (List.finRange maxProcesses).find? (k.waitsForPipe pipes pipeIndex reason) with
  | none => k
  | some proc => k.onScheduler (·.schedulerWake proc)

end Kernel

/-- A call of `pipe.c` that returns a status. -/
def callPipe (f : Pipes → Kernel → PipeResult Kernel) : KernelM Int := fun k =>
  let r := f k.pipes k
  (r.status, { r.state with pipes := r.pipes })

/-- `pipe_close` in the kernel. -/
def kernelPipeClose (handle : Int) : KernelM Int :=
  callPipe fun pipes k => pipeClose Kernel.processWakePipeWaiter pipes k handle

/-- `pipe_retain` in the kernel. -/
def kernelPipeRetain (handle : Int) : KernelM Int := fun k =>
  ((pipeRetain k.pipes handle).1, { k with pipes := (pipeRetain k.pipes handle).2 })

/-- `pipe_create` in the kernel. -/
def kernelPipeCreate : KernelM (Except Int (Int × Int)) := fun k =>
  ((pipeCreate k.pipes).1, { k with pipes := (pipeCreate k.pipes).2 })

/-- The status of a call of `vfs.c`. -/
def vfsStatus {α : Type} : Except Int α → Int
  | .ok _ => vfsSuccess
  | .error e => e

/-- Source: `process.c` `process_fd_install_typed` -/
def processFdInstallTyped (proc : Slot) (kind : FdKind) (handle : Int) (flags : Nat) :
    KernelM Int := do
  if kind = .none ∨ handle < 0 ∨ processFdCloexec < flags then return vfsEinval
  let p ← getProc proc
  match (List.finRange processMaxFds).find? fun fd => (p.fds fd).kind = .none with
  | none => return vfsEmfile
  | some fd =>
    modifyProc proc (·.setFd fd { kind := kind, handle := handle, flags := flags })
    return (fd : Nat)

/-- Source: `process.c` `process_fd_install` -/
def processFdInstall (proc : Slot) (handle : Int) (flags : Nat) : KernelM Int :=
  processFdInstallTyped proc .vfs handle flags

/-- Source: `process.c` `process_fd_close` -/
def processFdClose (proc : Slot) (fd : Int) : KernelM Int := do
  let p ← getProc proc
  match fdIndex fd, p.processFdGet fd with
  | some i, some (kind, handle) =>
    modifyProc proc (·.setFd i ProcessFd.unused)
    if kind.isPipe then
      let status ← kernelPipeClose handle
      return if status = pipeSuccess then vfsSuccess else vfsEio
    else
      let r ← callVfs (Vfs.vfsClose handle)
      return vfsStatus r
  | _, _ => return vfsEbadf

/-- Source: `process.c` `process_fd_close_on_exec` -/
def processFdCloseOnExec (proc : Slot) : KernelM Unit :=
  (List.finRange processMaxFds).forM fun fd => do
    let p ← getProc proc
    if (p.fds fd).kind ≠ .none ∧ (p.fds fd).flags % 2 = processFdCloexec then
      let _ ← processFdClose proc fd.val

/-- Source: `process.c` `process_fd_close_all` -/
def processFdCloseAll (proc : Slot) : KernelM Unit :=
  (List.finRange processMaxFds).forM fun fd => do
    let p ← getProc proc
    if (p.fds fd).kind ≠ .none then
      let _ ← processFdClose proc fd.val

/-- Retains what a descriptor of the parent names; whether that succeeded. -/
def retainFd (kind : FdKind) (handle : Int) : KernelM Bool := do
  if kind.isPipe then
    let status ← kernelPipeRetain handle
    return status = pipeSuccess
  else
    let r ← callVfs (Vfs.vfsRetain handle)
    return vfsStatus r = vfsSuccess

/-- The loop of `process_fd_inherit` over the descriptors `fds`. -/
def inheritFds (child parent : Slot) : List (Fin processMaxFds) → KernelM Int
  | [] => return vfsSuccess
  | fd :: fds => do
    let p ← getProc parent
    let entry := p.fds fd
    if entry.kind = .none then inheritFds child parent fds
    else if !(← retainFd entry.kind entry.handle) then
      processFdCloseAll child
      return vfsEbadf
    else
      modifyProc child (·.setFd fd entry)
      inheritFds child parent fds

/-- Source: `process.c` `process_fd_inherit` -/
def processFdInherit (child parent : Slot) : KernelM Int :=
  inheritFds child parent (List.finRange processMaxFds)

end AgenticOs
