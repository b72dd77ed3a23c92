import AgenticOs.Kernel.ProcessTable

/-!
# `kernel/vm.c` and `kernel/uaccess.c`

Page faults of a user program, and the kernel's checked access to user memory.

* **Faults** (`vmHandlePageFault`): a fault at the guard page or at an address that the process does not have
  is fatal, an absent page of the heap is mapped, a store to a copy-on-write page gets a page of its own.
* **Preparation** (`vmPrepareUserWritePage`): the same for a page that the kernel is going to write.
* **Access** (`copyFromUser`, `copyToUser`, `copyStringFromUser`): a range is checked page by page, each
  before the first byte is copied; a string is checked as it is read.

The functions of `vm.c` read a process and change memory. A loop over the pages of a range is a recursion over
the list of the pages (`rangePages`).
-/

namespace AgenticOs

open Function Lib

/-- Source: `syscall.h` `USER_SPACE_START` -/
abbrev userSpaceStart : Word := 0x40000000
/-- Source: `syscall.h` `USER_SPACE_END` -/
abbrev userSpaceEnd : Word := 0xC0000000
/-- Source: `process.h` `USER_STACK_BOTTOM` -/
abbrev userStackBottom : Word := 0xAFFFF000
/-- Source: `process.h` `USER_STACK_GUARD_BOTTOM` -/
abbrev userStackGuardBottom : Word := 0xAFFFE000
/-- Source: `vm.h` `VM_FAULT_PRESENT` -/
abbrev vmFaultPresent : Word := 0x01
/-- Source: `vm.h` `VM_FAULT_WRITE` -/
abbrev vmFaultWrite : Word := 0x02
/-- Source: `vm.h` `VM_FAULT_USER` -/
abbrev vmFaultUser : Word := 0x04
/-- Source: `vm.h` `VM_EXIT_PAGE_FAULT` -/
abbrev vmExitPageFault : Word := 0x8000000E
/-- Source: `vm.h` `VM_EXIT_GUARD_PAGE` -/
abbrev vmExitGuardPage : Word := 0x8000001E
/-- Source: `vm.h` `VM_EXIT_OOM` -/
abbrev vmExitOom : Word := 0x8000002E
/-- Source: `uaccess.h` `UACCESS_SUCCESS` -/
abbrev uaccessSuccess : Int := 0
/-- Source: `uaccess.h` `UACCESS_EFAULT` -/
abbrev uaccessEfault : Int := -1
/-- Source: `uaccess.h` `UACCESS_ENOMEM` -/
abbrev uaccessEnomem : Int := -2

/-- Source: `vm.h` `enum vm_fault_result` -/
inductive VmFaultResult
  | fatal
  | handled
  | guard
  | oom
  deriving DecidableEq, Repr

/-! ## `kernel/vm.c` -/

/-- Source: `vm.c` `page_align_down` -/
def pageAlignDown (value : Word) : Word := value &&& addrMask

/-- Source: `vm.c` `is_stack_guard_fault` -/
def isStackGuardFault (faultAddr : Word) : Bool :=
  userStackGuardBottom ≤ faultAddr && faultAddr < userStackBottom

namespace Memory

/-- `*proc` is given by its `cr3`. Source: `vm.c` `demand_map_heap_page` -/
def demandMapHeapPage (m : Memory) (cr3 page : Word) : VmFaultResult × Memory :=
  let r := m.frameAlloc
  if r.1 = 0 then (.oom, r.2)
  else
    let s := r.2.pagingMapPageInDirectory cr3 page r.1 (pagePresent ||| pageWritable ||| pageUser)
    if s.1 = false then (.oom, (s.2.frameRelease r.1).2)
    else (.handled, s.2.clearPage page)

/-- Source: `vm.c` `vm_prepare_user_write_page` -/
def vmPrepareUserWritePage (m : Memory) (proc : Process) (page : Word) : VmFaultResult × Memory :=
  if proc.cr3 = 0 ∨ page.toNat % 4096 ≠ 0 ∨ page < userSpaceStart ∨ userSpaceEnd ≤ page ∨
      isStackGuardFault page = true then
    (.fatal, m)
  else
    let flags := m.pagingGetPageFlagsInDirectory proc.cr3 page
    if has flags (pagePresent ||| pageUser ||| pageWritable) then (.handled, m)
    else if has flags (pagePresent ||| pageUser ||| pageCow) then
      let r := m.pagingResolveCowFault proc.cr3 page
      (if r.1 then .handled else .oom, r.2)
    else if test flags pagePresent = false ∧ proc.heapStart ≤ page ∧ page < proc.heapEnd then
      m.demandMapHeapPage proc.cr3 page
    else (.fatal, m)

/-- Source: `vm.c` `vm_handle_page_fault` -/
def vmHandlePageFault (m : Memory) (proc : Process) (faultAddr errorCode : Word) :
    VmFaultResult × Memory :=
  if proc.cr3 = 0 ∨ test errorCode vmFaultUser = false then (.fatal, m)
  else
    let page := pageAlignDown faultAddr
    if has errorCode (vmFaultPresent ||| vmFaultWrite) then
      let r := m.pagingResolveCowFault proc.cr3 page
      if r.1 then (.handled, r.2)
      else if test (r.2.pagingGetPageFlagsInDirectory proc.cr3 page) pageCow then (.oom, r.2)
      else (.fatal, r.2)
    else if test errorCode vmFaultPresent = false then
      if isStackGuardFault faultAddr then (.guard, m)
      else if proc.heapStart ≤ faultAddr ∧ faultAddr < proc.heapEnd then
        m.demandMapHeapPage proc.cr3 page
      else (.fatal, m)
    else (.fatal, m)

/-- `vm_prepare_user_write_page` for the pages of a range, until one fails. -/
def prepareWritePages (proc : Process) : List Word → Memory → Int × Memory
  | [], m => (uaccessSuccess, m)
  | page :: pages, m =>
    let r := m.vmPrepareUserWritePage proc page
    match r.1 with
    | .handled => prepareWritePages proc pages r.2
    | .oom => (uaccessEnomem, r.2)
    | _ => (uaccessEfault, r.2)

end Memory

/-! ## `kernel/uaccess.c` -/

/-- Source: `uaccess.c` `uaccess_range_valid` -/
def uaccessRangeValid (address size : Word) : Bool :=
  if size = 0 then address = 0 || (userSpaceStart ≤ address && address < userSpaceEnd)
  else if address < userSpaceStart ∨ userSpaceEnd ≤ address then false
  else
    let stop := address + size
    !(stop < address || userSpaceEnd < stop)

/-- The pages from the one of `address` to the one of the last byte of the range. -/
def rangePages (address size : Word) : List Word :=
  let first := pageAlignDown address
  let last := pageAlignDown (address + size - 1)
  (List.range ((last - first).toNat / 4096 + 1)).map fun i => first + BitVec.ofNat 32 (i * 4096)

namespace Kernel

variable (k : Kernel)

/-- Source: `uaccess.c` `active_process_directory` -/
def activeProcessDirectory : Option Slot :=
  match k.processGetCurrent with
  | none => none
  | some proc =>
    if (k.procs proc).cr3 = 0 ∨ (k.procs proc).cr3 ≠ k.mem.pagingGetCurrentDirectory then none
    else some proc

/-- Source: `uaccess.c` `uaccess_readable` -/
def uaccessReadable (address size : Word) : Bool :=
  if !uaccessRangeValid address size then false
  else if size = 0 then true
  else
    match k.activeProcessDirectory with
    | none => false
    | some proc =>
      (rangePages address size).all fun page =>
        has (k.mem.pagingGetPageFlagsInDirectory (k.procs proc).cr3 page) (pagePresent ||| pageUser)

/-- The bytes copied, if the range is readable. Source: `uaccess.c` `copy_from_user` -/
def copyFromUser (source size : Word) : Option (List Byte) :=
  if k.uaccessReadable source size then some (k.loadBytes source size.toNat) else none

/-- The `uint32_t` at a user address. -/
def copyWordFromUser (source : Word) : Option Word :=
  (k.copyFromUser source 4).map fun bytes => wordOfBytes (fun i => bytes.getD i 0) 0

/-- The byte at a user address. -/
def copyByteFromUser (source : Word) : Option Byte :=
  (k.copyFromUser source 1).map fun bytes => bytes.getD 0 0

/-- The string up to its terminator; `none` is `UACCESS_EFAULT`.
Source: `uaccess.c` `copy_string_from_user` -/
def copyStringFromUser (source : Word) : Nat → Option CString
  | 0 => none
  | n + 1 =>
    match k.copyByteFromUser source with
    | none => none
    | some b => if b = 0 then some [] else (copyStringFromUser (source + 1) n).map (b :: ·)

end Kernel

/-- Source: `uaccess.c` `uaccess_prepare_write` -/
def uaccessPrepareWrite (address size : Word) : KernelM Int := do
  let k ← get
  if !uaccessRangeValid address size then return uaccessEfault
  else if size = 0 then return uaccessSuccess
  else
    match k.activeProcessDirectory with
    | none => return uaccessEfault
    | some proc => callMemory (Memory.prepareWritePages (k.procs proc) (rangePages address size))

/-- Source: `uaccess.c` `copy_to_user` -/
def copyToUser (dest : Word) (source : List Byte) : KernelM Int := do
  let status ← uaccessPrepareWrite dest (BitVec.ofNat 32 source.length)
  runIf (status = uaccessSuccess) (modify (·.storeBytes dest source))
  return status

/-- A wait that an exit has completed: the status is stored for the process that waited. -/
def processCompleteWait (proc : Slot) : KernelM Unit := do
  let p ← getProc proc
  if p.waitCompletionPending then
    runIf (p.waitStatusPtr ≠ 0) do
      let status ← copyToUser p.waitStatusPtr (wordBytes p.waitResultStatus)
      runIf (status ≠ uaccessSuccess ∧ p.esp ≠ 0)
        (modify (·.setFrame p.esp fun frame => { frame with eax := syscallEfault }))
    modifyProc proc fun p =>
      { p with waitStatusPtr := 0, waitResultStatus := 0, waitCompletionPending := false }

/-- Source: `process.c` `process_complete_context_switch` -/
def processCompleteContextSwitch : KernelM Unit := do
  let k ← get
  let current := k.processGetCurrent
  match current with
  | none => pure ()
  | some proc => do
    processCompleteWait proc
    processCompletePipeIo proc
  reapZombies current

end AgenticOs
