import AgenticOs.Kernel.Exec

/-!
# `kernel/syscall.c`: the system calls

`syscall_handle` as `syscall_dispatch` calls it: the control structure is there and holds the frame of the
caller. The calls that the self-test builds add are not part of it.

* **Answers** (`SyscallResult`): a call answers with a status, and with a stack pointer when another process
  is to run (`control->switch_requested`).
* **Calls**: each has its own definition (`syscallOpen`, `syscallWait`, `syscallFork`, `syscallBrk`, …), with
  its checks of user pointers and its statuses. `syscallHandle` chooses by the number in `eax`; `SYS_EXEC` is
  in `Kernel/Exec.lean`.
* **Blocking** (`blockOnPipe`, `blockOnChild`): the caller is blocked, and another process resumed if there is
  one.
* **Keyboard**: `keyboard_getchar` halts until a key arrives, with interrupts off: on an empty buffer it does
  not return, and `syscallHandle` has no answer.

Text output has no counterpart.
-/

namespace AgenticOs

open Function Lib

/-- Source: `syscall.h` `WNOHANG` -/
abbrev wnohang : Word := 0x0001
/-- Source: `syscall.h` `SYS_O_CREAT` -/
abbrev sysOCreat : Word := 0x0100
/-- Source: `syscall.h` `SYS_O_TRUNC` -/
abbrev sysOTrunc : Word := 0x0200
/-- Source: `syscall.h` `SYS_O_CLOEXEC` -/
abbrev sysOCloexec : Word := 0x0400
/-- Source: `syscall.h` `SYS_O_RDWR` -/
abbrev sysORdwr : Word := 0x0003

/-- The answer of a call. -/
structure SyscallResult where
  result : Word
  resumeEsp : Option Word

/-- A call that returns to its caller. -/
def SyscallResult.reply (result : Word) : SyscallResult where
  result := result
  resumeEsp := none

open SyscallResult

/-- Source: `syscall.c` `syscall_from_vfs_status` -/
def syscallFromVfsStatus (status : Int) : Word :=
  if status = vfsSuccess then syscallSuccess
  else if status = vfsEinval then syscallEinval
  else if status = vfsEnoent then syscallEnoent
  else if status = vfsEnospc then syscallEnospc
  else if status = vfsEio then syscallEio
  else if status = vfsEmfile then syscallEmfile
  else if status = vfsEbadf then syscallEbadf
  else if status = vfsEexist then syscallEexist
  else syscallEio

/-- `status < 0 ? error : (uint32_t)status` for a call of `pipe.c`. -/
def syscallFromPipeStatus (status : Int) : Word :=
  if status < 0 then syscallEbadf else BitVec.ofInt 32 status

/-- Source: `syscall.c` `is_user_pointer_writable` -/
def isUserPointerWritable (ptr size : Word) : KernelM Bool := do
  let status ← uaccessPrepareWrite ptr size
  return status = uaccessSuccess

/-! ## Files -/

/-- The flags of `vfs_open` for those of `SYS_OPEN`. -/
def vfsFlagsOf (flags : Word) : Word :=
  (if test flags vfsORdonly then vfsORdonly else 0) |||
    (if test flags vfsOWronly then vfsOWronly else 0) |||
    (if test flags sysOCreat then vfsOCreat else 0) |||
    (if test flags sysOTrunc then vfsOTrunc else 0)

/-- Source: `syscall.c` `syscall_open` -/
def syscallOpen (pathPtr flags callerCs : Word) : KernelM Word := do
  if !isRing3 callerCs then return syscallEperm
  else if test flags (~~~(sysORdwr ||| sysOCreat ||| sysOTrunc ||| sysOCloexec)) then
    return syscallEinval
  else
    let k ← get
    match k.processGetCurrent with
    | none => return syscallEinval
    | some current =>
      match k.copyStringFromUser pathPtr vfsMaxPath with
      | none => return syscallEfault
      | some path =>
        match ← callVfs (Vfs.vfsOpen (some path) (vfsFlagsOf flags)) with
        | .error status => return syscallFromVfsStatus status
        | .ok handle => do
          let fd ← processFdInstall current handle.val
            (if test flags sysOCloexec then processFdCloexec else 0)
          if fd < 0 then
            let _ ← callVfs (Vfs.vfsClose handle.val)
            return syscallFromVfsStatus fd
          else return BitVec.ofInt 32 fd

/-- `vfs_read` into the caller's buffer. -/
def kernelVfsRead (handle : Int) (buffer count : Word) : KernelM Word := do
  match ← callVfs (Vfs.vfsRead handle (buffer != 0) count.toNat) with
  | .error status => return syscallFromVfsStatus status
  | .ok bytes => do
    modify (·.storeBytes buffer bytes)
    return BitVec.ofNat 32 bytes.length

/-- `vfs_write` from the caller's buffer. -/
def kernelVfsWrite (handle : Int) (buffer count : Word) : KernelM Word := do
  let k ← get
  let bytes := fun i => k.loadByte (buffer + BitVec.ofNat 32 i)
  match ← callVfs (Vfs.vfsWrite handle (if buffer = 0 then none else some bytes) count.toNat) with
  | .error status => return syscallFromVfsStatus status
  | .ok written => return BitVec.ofNat 32 written

/-- A pipe operation that cannot go on: the caller is blocked, and another process resumed. -/
def blockOnPipe (proc : Slot) (frame : Word) (reason : BlockReason) (fd buffer count : Word) :
    KernelM SyscallResult := do
  modifyProc proc (·.processBeginPipeWait reason fd.toInt buffer count.toNat)
  let resumeEsp ← callScheduler (·.schedulerBlockCurrent frame)
  if resumeEsp = frame then
    modifyProc proc fun p => { p with blockReason := .none }
    return reply syscallEagain
  else return { result := syscallSuccess, resumeEsp := some resumeEsp }

/-- The descriptor of the current process, if there is one. -/
def Kernel.currentFd (k : Kernel) (fd : Word) : Option (Slot × FdKind × Int) :=
  match k.processGetCurrent with
  | none => none
  | some current => ((k.procs current).processFdGet fd.toInt).map fun d => (current, d)

/-- Source: `syscall.c` `syscall_read` -/
def syscallRead (fd buffer count callerCs frame : Word) : KernelM SyscallResult := do
  if !isRing3 callerCs then return reply syscallEperm
  else
    let writable ← (if count = 0 then pure true else isUserPointerWritable buffer count)
    if !writable then return reply syscallEfault
    else
      let k ← get
      match k.currentFd fd with
      | none => return reply syscallEbadf
      | some (current, kind, handle) =>
        if kind = .vfs then return reply (← kernelVfsRead handle buffer count)
        else if kind ≠ .pipeRead then return reply syscallEbadf
        else
          let status ← kernelPipeRead handle buffer count.toNat
          if status ≠ pipeWouldBlock then return reply (syscallFromPipeStatus status)
          else blockOnPipe current frame .pipeRead fd buffer count

/-- Source: `syscall.c` `syscall_write` -/
def syscallWrite (fd buffer count callerCs frame : Word) : KernelM SyscallResult := do
  if !isRing3 callerCs then return reply syscallEperm
  else
    let k ← get
    if count ≠ 0 ∧ k.uaccessReadable buffer count = false then return reply syscallEfault
    else
      match k.currentFd fd with
      | none => return reply syscallEbadf
      | some (current, kind, handle) =>
        if kind = .vfs then return reply (← kernelVfsWrite handle buffer count)
        else if kind ≠ .pipeWrite then return reply syscallEbadf
        else
          let status ← kernelPipeWrite handle buffer count.toNat
          if status = pipeBroken then return reply syscallEpipe
          else if status ≠ pipeWouldBlock then return reply (syscallFromPipeStatus status)
          else blockOnPipe current frame .pipeWrite fd buffer count

/-- Source: `syscall.c` `syscall_close` -/
def syscallClose (fd callerCs : Word) : KernelM Word := do
  if !isRing3 callerCs then return syscallEperm
  else
    let k ← get
    match k.processGetCurrent with
    | none => return syscallFromVfsStatus vfsEbadf
    | some current => return syscallFromVfsStatus (← processFdClose current fd.toInt)

/-- The bytes of `struct syscall_file_stat`. -/
def fileStatBytes (stat : FileInfo) : List Byte :=
  [stat.size, stat.startSector, stat.allocatedSectors, stat.flags].flatMap fun n =>
    wordBytes (BitVec.ofNat 32 n)

/-- Source: `syscall.c` `syscall_stat` -/
def syscallStat (pathPtr statPtr callerCs : Word) : KernelM Word := do
  if !isRing3 callerCs then return syscallEperm
  else if !(← isUserPointerWritable statPtr 16) then return syscallEfault
  else
    let k ← get
    match k.copyStringFromUser pathPtr vfsMaxPath with
    | none => return syscallEfault
    | some path =>
      match ← callVfs (Vfs.vfsStat (some path) true) with
      | .error status => return syscallFromVfsStatus status
      | .ok stat => do
        let status ← copyToUser statPtr (fileStatBytes stat)
        return if status = uaccessSuccess then syscallSuccess else syscallEfault

/-- Source: `syscall.c` `SYS_PIPE` -/
def syscallPipe (readOut writeOut callerCs : Word) : KernelM Word := do
  if !isRing3 callerCs then return syscallEperm
  else
    let k ← get
    match k.processGetCurrent with
    | none => return syscallEinval
    | some current =>
      let readable ← (if readOut = 0 then pure false else isUserPointerWritable readOut 4)
      let writable ← (if !readable || writeOut = 0 then pure false
        else isUserPointerWritable writeOut 4)
      if !writable then return syscallEfault
      else
        match ← kernelPipeCreate with
        | .error _ => return syscallEmfile
        | .ok (readHandle, writeHandle) => do
          let readFd ← processFdInstallTyped current .pipeRead readHandle 0
          if readFd < 0 then
            let _ ← kernelPipeClose readHandle
            let _ ← kernelPipeClose writeHandle
            return syscallEmfile
          else
            let writeFd ← processFdInstallTyped current .pipeWrite writeHandle 0
            if writeFd < 0 then
              let _ ← processFdClose current readFd
              let _ ← kernelPipeClose writeHandle
              return syscallEmfile
            else
              let status ← copyToUser readOut (wordBytes (BitVec.ofInt 32 readFd))
              let status ← (if status ≠ uaccessSuccess then pure status
                else copyToUser writeOut (wordBytes (BitVec.ofInt 32 writeFd)))
              if status ≠ uaccessSuccess then
                let _ ← processFdClose current readFd
                let _ ← processFdClose current writeFd
                return syscallEfault
              else return syscallSuccess

/-! ## Processes -/

/-- The loop of `SYS_PUTS`: a terminator within `n` readable bytes. -/
def Kernel.putsReadable (k : Kernel) : Nat → Word → Bool
  | 0, _ => false
  | n + 1, str =>
    match k.copyByteFromUser str with
    | none => false
    | some b => b = 0 || k.putsReadable n (str + 1)

/-- Source: `syscall.c` `SYS_PUTS` -/
def syscallPuts (str callerCs : Word) : KernelM Word := do
  if !isRing3 callerCs then return syscallEperm
  else
    let k ← get
    return if k.putsReadable 4096 str then syscallSuccess else syscallEfault

/-- Source: `syscall.c` `SYS_GETCHAR` -/
def syscallGetchar (callerCs : Word) : KernelM (Option Word) := do
  if !isRing3 callerCs then return some syscallEperm
  else
    let k ← get
    match k.keyBuffer with
    | [] => return none
    | c :: rest => do
      set { k with keyBuffer := rest }
      return some (c.signExtend 32)

/-- Source: `syscall.c` `SYS_EXIT` -/
def syscallExit (exitCode callerCs frame : Word) : KernelM SyscallResult := do
  if !isRing3 callerCs then return reply syscallEperm
  else
    let k ← get
    match k.processGetCurrent with
    | none => return reply syscallEinval
    | some current => do
      processMarkExit current exitCode
      let resumeEsp ← callScheduler (·.schedulerExitCurrent frame)
      return { result := syscallSuccess, resumeEsp := some resumeEsp }

/-- The caller has begun to wait for a child, and another process is resumed. -/
def blockOnChild (proc : Slot) (frame : Word) : KernelM SyscallResult := do
  let resumeEsp ← callScheduler (·.schedulerBlockCurrent frame)
  if resumeEsp = frame then
    modifyProc proc Process.processCancelWait
    return reply syscallEagain
  else return { result := syscallSuccess, resumeEsp := some resumeEsp }

/-- A child that has ended is handed to its parent. -/
def reapChild (child : Slot) : KernelM SyscallResult := do
  modifyProc child fun p => { p with waited := true }
  let p ← getProc child
  processDestroy child
  return reply (BitVec.ofNat 32 p.pid)

/-- Source: `syscall.c` `SYS_WAIT` -/
def syscallWait (statusPtr callerCs frame : Word) : KernelM SyscallResult := do
  if !isRing3 callerCs then return reply syscallEperm
  else
    let k ← get
    match k.processGetCurrent with
    | none => return reply syscallEinval
    | some current =>
      let writable ← (if statusPtr = 0 then pure true else isUserPointerWritable statusPtr 4)
      if !writable then return reply syscallEfault
      else
        let k ← get
        let pid := (k.procs current).pid
        match k.processFindExitedChild pid with
        | some child => do
          runIf (statusPtr ≠ 0)
            (modify (·.storeBytes statusPtr (wordBytes (k.procs child).exitCode)))
          reapChild child
        | none =>
          if !k.processHasChild pid then return reply syscallEchild
          else do
            modifyProc current (·.processBeginWait statusPtr)
            blockOnChild current frame

/-- The child that `SYS_WAITPID` names is one of the caller. -/
def Kernel.isWaitTarget (k : Kernel) (current : Slot) (targetPid : Nat) : Bool :=
  let pid := (k.procs current).pid
  if targetPid ≠ uint32Max then
    match k.processGetByPid targetPid with
    | none => false
    | some target => (k.procs target).parentPid = pid
  else k.processHasChild pid

/-- Source: `syscall.c` `SYS_WAITPID` -/
def syscallWaitpid (targetPid statusPtr options callerCs frame : Word) :
    KernelM SyscallResult := do
  if !isRing3 callerCs then return reply syscallEperm
  else
    let k ← get
    match k.processGetCurrent with
    | none => return reply syscallEinval
    | some current =>
      if test options (~~~wnohang) then return reply syscallEinval
      else
        let writable ← (if statusPtr = 0 then pure true else isUserPointerWritable statusPtr 4)
        if !writable then return reply syscallEfault
        else
          let k ← get
          match k.processFindExitedChildByPid (k.procs current).pid targetPid.toNat with
          | some child => do
            let status ← (if statusPtr = 0 then pure uaccessSuccess
              else copyToUser statusPtr (wordBytes (k.procs child).encodedStatus))
            if status ≠ uaccessSuccess then return reply syscallEfault
            else reapChild child
          | none =>
            if !k.isWaitTarget current targetPid.toNat then return reply syscallEchild
            else if test options wnohang then return reply 0
            else do
              modifyProc current (·.processBeginWaitpid statusPtr targetPid.toNat)
              modifyProc current fun p => { p with waitIsWaitpid := true }
              blockOnChild current frame

/-- Source: `syscall.c` `SYS_FORK` -/
def syscallFork (callerCs frame : Word) : KernelM Word := do
  if !isRing3 callerCs then return syscallEperm
  else
    let k ← get
    match k.processGetCurrent with
    | none => return syscallEinval
    | some current =>
      match ← processFork current frame with
      | none => return syscallEnomem
      | some child => do
        onScheduler (·.schedulerAdd child)
        let p ← getProc child
        return BitVec.ofNat 32 p.pid

/-- The pages from the one that ends a heap at `newEnd` to the one that ends it at `oldEnd`. -/
def brkPages (newEnd oldEnd : Word) : List Word :=
  let start := (newEnd + 0xFFF) &&& addrMask
  let stop := (oldEnd + 0xFFF) &&& addrMask
  (List.range ((stop.toNat - start.toNat) / 4096)).map fun i => start + BitVec.ofNat 32 (i * 4096)

/-- A page of the heap is unmapped and its frame released. -/
def Memory.dropPage (m : Memory) (cr3 page : Word) : Memory :=
  let r := m.pagingUnmapPageInDirectory cr3 page
  if r.1 ≠ 0 then (r.2.frameRelease r.1).2 else r.2

/-- Source: `syscall.c` `SYS_BRK` -/
def syscallBrk (requestedBrk callerCs : Word) : KernelM Word := do
  if !isRing3 callerCs then return syscallEperm
  else
    let k ← get
    match k.processGetCurrent with
    | none => return syscallEinval
    | some current =>
      let p := k.procs current
      if requestedBrk = 0 ∨ requestedBrk < p.heapStart ∨ processHeapLimit < requestedBrk then
        return p.heapEnd
      else
        onMemory fun m =>
          (brkPages requestedBrk p.heapEnd).foldl (fun m page => m.dropPage p.cr3 page) m
        modifyProc current fun p => { p with heapEnd := requestedBrk }
        return requestedBrk

/-- Source: `syscall.c` `SYS_KILL` -/
def syscallKill (pid signum callerCs : Word) : KernelM Word := do
  if !isRing3 callerCs then return syscallEperm
  else
    let k ← get
    match k.processGetByPid pid.toNat with
    | none => return syscallEsrch
    | some target =>
      if signum.toNat = 0 ∨ nsig ≤ signum.toNat then return syscallEinval
      else
        let status ← processSendSignal target signum.toNat
        return if status = 0 then syscallSuccess else syscallEsrch

/-- A field of the current process. -/
def currentField (f : Process → Word) (absent callerCs : Word) : KernelM Word := do
  if !isRing3 callerCs then return syscallEperm
  else
    let k ← get
    match k.processGetCurrent with
    | none => return absent
    | some current => return f (k.procs current)

/-- Source: `syscall.c` `SYS_GETPID` -/
def syscallGetpid (callerCs : Word) : KernelM Word :=
  currentField (fun p => BitVec.ofNat 32 p.pid) 0 callerCs

/-- Source: `syscall.c` `SYS_SIGPENDING` -/
def syscallSigpending (callerCs : Word) : KernelM Word :=
  currentField (·.pendingSignals) syscallEinval callerCs

/-- Source: `syscall.c` `SYS_UPTIME` -/
def syscallUptime (callerCs : Word) : KernelM Word := do
  if !isRing3 callerCs then return syscallEperm
  else
    let k ← get
    return BitVec.ofNat 32 k.timerTicks

/-- A call that always returns to its caller. -/
def replying (call : KernelM Word) : KernelM (Option SyscallResult) := do
  return some (reply (← call))

/-- A call that may resume another process. -/
def switching (call : KernelM SyscallResult) : KernelM (Option SyscallResult) := do
  return some (← call)

/-- The call that a frame asks for. Source: `syscall.c` `syscall_handle` -/
def syscallHandle (frame : Word) : KernelM (Option SyscallResult) := do
  let k ← get
  let f := k.frameAt frame
  let cs := f.cs
  match f.eax.toNat with
  | 1 => replying (syscallPuts f.ebx cs)
  | 2 => return (← syscallGetchar cs).map reply
  | 3 => replying (pure (if isRing3 cs then syscallSuccess else syscallEperm))
  | 4 => replying (syscallUptime cs)
  | 5 => replying (pure (if isRing3 cs then f.ebx else syscallEperm))
  | 9 => replying (syscallOpen f.ebx f.ecx cs)
  | 10 => switching (syscallRead f.ebx f.ecx f.edx cs frame)
  | 11 => switching (syscallWrite f.ebx f.ecx f.edx cs frame)
  | 12 => replying (syscallClose f.ebx cs)
  | 13 => replying (syscallStat f.ebx f.ecx cs)
  | 14 => replying (syscallGetpid cs)
  | 15 => switching (syscallExit f.ebx cs frame)
  | 16 => switching (syscallWait f.ebx cs frame)
  | 17 => replying (syscallFork cs frame)
  | 18 => replying (syscallExec f.ebx f.ecx f.edx cs frame)
  | 19 => replying (syscallBrk f.ebx cs)
  | 20 => switching (syscallWaitpid f.ebx f.ecx f.edx cs frame)
  | 21 => replying (syscallKill f.ebx f.ecx cs)
  | 22 => replying (syscallSigpending cs)
  | 23 => replying (syscallPipe f.ebx f.ecx cs)
  | _ => replying (pure syscallEnosys)

end AgenticOs
