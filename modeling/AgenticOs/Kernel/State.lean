import AgenticOs.Fs.Vfs
import AgenticOs.Kernel.Heap
import AgenticOs.Kernel.Scheduler
import AgenticOs.Lib.Program
import AgenticOs.Memory.UserAccess
import AgenticOs.Pipe

/-!
# The state of the kernel

The static variables of `process.c`, `timer.c` and `keyboard.c` beside the state of the subsystems. The
process table is that of the scheduler with its sixteen entries.

* **Frames**: interrupt frames lie on the kernel stacks of the processes. `frameAt` is the frame at an
  address; frames at different addresses do not overlap, since a trap from ring 3 always pushes its frame at
  the top of the stack of the process that runs.
* **Subsystems**: a function of the kernel is a program in `KernelM`, and calls of the scheduler, of memory
  and of the file system are lifted to it (`KernelM.onScheduler`, `KernelM.callMemory`, `KernelM.callVfs`).
* **Start**: `Kernel.atBoot` are the static variables before the kernel starts, for any memory, any devices
  and any place of `stack_pool`.
* **Running the calls** (`run_onScheduler`, `run_getProc`, `run_modifyProc`): the simp set that runs a program
  of the kernel step by step.
-/

namespace AgenticOs

open Function Lib

/-- Source: `interrupt_frame.h` `struct interrupt_frame` -/
structure InterruptFrame where
  edi : Word
  esi : Word
  ebp : Word
  savedEsp : Word
  ebx : Word
  edx : Word
  ecx : Word
  eax : Word
  gs : Word
  fs : Word
  es : Word
  ds : Word
  eip : Word
  cs : Word
  eflags : Word
  userEsp : Word
  userSs : Word

/-- `sizeof(struct interrupt_frame)` -/
abbrev frameBytes : Nat := 68

/-- An entry of the process table. -/
abbrev Slot := Fin maxProcesses

instance Slot.neZero : NeZero maxProcesses := ⟨by decide⟩

/-- The state of the kernel. -/
structure Kernel extends Scheduler Slot where
  nextPid : Nat
  processCount : Nat
  /-- the address of `stack_pool` -/
  stackPool : Word
  stackFreeBitmap : Fin 16 → Bool
  frameAt : Word → InterruptFrame
  pipes : Pipes
  vfs : Vfs
  heap : Heap
  timerTicks : Nat
  keyBuffer : List Byte

/-- `stack_pool` lies in memory, and not at its beginning. -/
def StackPool (pool : Word) : Prop := 0 < pool.toNat ∧ pool.toNat + 65536 ≤ wordSize

/-- The static variables before the kernel starts: all zero, but for what memory and the devices
hold and where the linker puts `stack_pool`. -/
def Kernel.atBoot (mem : Memory) (fs : SimpleFs) (stackPool : Word) : Kernel where
  procs := fun _ => Process.zero
  readyQueue := []
  current := none
  scheduleCount := 0
  schedulerInitialized := false
  preemptionEnabled := false
  mem := mem
  tssEsp0 := 0
  nextPid := 1
  processCount := 0
  stackPool := stackPool
  stackFreeBitmap := fun _ => true
  frameAt := fun _ => ⟨0, 0, 0, 0, 0, 0, 0, 0, 0, 0, 0, 0, 0, 0, 0, 0, 0⟩
  pipes := pipeInit
  vfs :=
    { fs := fs
      vfsRootDev := none
      vfsMounted := false
      vfsOpenFiles := fun _ => VfsOpenFile.zero }
  heap :=
    { block := fun _ => ⟨0, false, none, none⟩
      heapHead := none
      heapUsed := 0 }
  timerTicks := 0
  keyBuffer := []

/-- A kernel without memory and without files. -/
def Kernel.blank : Kernel :=
  .atBoot ⟨⟨fun _ => false, fun _ => 0, 0, 0, false⟩, fun _ _ => 0, 0, 0⟩
    (.atBoot (fun _ => ⟨0, 0, false, false⟩) fun _ _ => zeroSector) 0x100000

/-- A function of the kernel. -/
abbrev KernelM (α : Type) := StateM Kernel α

namespace Kernel

variable (k : Kernel)

/-- `*proc = f(*proc)` -/
def setProc (proc : Slot) (f : Process → Process) : Kernel :=
  { k with procs := update k.procs proc (f (k.procs proc)) }

/-- The process that is changed. -/
@[simp] theorem setProc_self (proc : Slot) (f : Process → Process) :
    (k.setProc proc f).procs proc = f (k.procs proc) := update_self ..

/-- The other processes. -/
theorem setProc_of_ne {proc p : Slot} (h : p ≠ proc) (f : Process → Process) :
    (k.setProc proc f).procs p = k.procs p := update_of_ne h ..

/-- A new state of the scheduler. -/
def onScheduler (f : Scheduler Slot → Scheduler Slot) : Kernel :=
  { k with toScheduler := f k.toScheduler }

/-- A new state of memory. -/
def withMem (mem : Memory) : Kernel := { k with mem := mem }

/-- `*frame = f(*frame)` -/
def setFrame (frame : Word) (f : InterruptFrame → InterruptFrame) : Kernel :=
  { k with frameAt := update k.frameAt frame (f (k.frameAt frame)) }

/-! ### Bytes of the active address space -/

/-- The byte the kernel loads from an address. -/
def loadByte (address : Word) : Byte := k.mem.loadByte address

/-- The bytes the kernel loads from an address on. -/
def loadBytes (address : Word) (size : Nat) : List Byte :=
  (List.range size).map fun i => k.loadByte (address + BitVec.ofNat 32 i)

/-- The kernel stores bytes from an address on. -/
def storeBytes (address : Word) (bytes : List Byte) : Kernel :=
  k.withMem (k.mem.storeBytes address bytes)

end Kernel

/-- The scheduler's part of a call. -/
def onScheduler (f : Scheduler Slot → Scheduler Slot) : KernelM Unit :=
  modify (·.onScheduler f)

/-- A call of the scheduler that returns a stack pointer. -/
def callScheduler (f : Scheduler Slot → Word × Scheduler Slot) : KernelM Word := fun k =>
  ((f k.toScheduler).1, k.onScheduler fun s => (f s).2)

/-- `*proc` -/
def getProc (proc : Slot) : KernelM Process := fun k => (k.procs proc, k)

/-- `*proc = f(*proc)` -/
def modifyProc (proc : Slot) (f : Process → Process) : KernelM Unit := modify (·.setProc proc f)

/-- A call of `paging.c` or `frame.c`. -/
def callMemory {α : Type} (f : Memory → α × Memory) : KernelM α := fun k =>
  ((f k.mem).1, k.withMem (f k.mem).2)

/-- A call of `paging.c` that returns nothing. -/
def onMemory (f : Memory → Memory) : KernelM Unit := modify fun k => k.withMem (f k.mem)

/-- A call of `vfs.c`. -/
def callVfs {α : Type} (f : VfsM α) : KernelM (Except Int α) := fun k =>
  ((f k.vfs).1, { k with vfs := (f k.vfs).2 })

/-! ### Running the calls -/

section

variable (k : Kernel)

/-- A step of the scheduler. -/
@[simp] theorem run_onScheduler (f : Scheduler Slot → Scheduler Slot) :
    onScheduler f k = (⟨⟩, k.onScheduler f) := rfl

/-- A call of the scheduler that returns a stack pointer. -/
@[simp] theorem run_callScheduler (f : Scheduler Slot → Word × Scheduler Slot) :
    callScheduler f k = ((f k.toScheduler).1, k.onScheduler fun s => (f s).2) := rfl

/-- A look at a process. -/
@[simp] theorem run_getProc (proc : Slot) : getProc proc k = (k.procs proc, k) := rfl

/-- A change of a process. -/
@[simp] theorem run_modifyProc (proc : Slot) (f : Process → Process) :
    modifyProc proc f k = (⟨⟩, k.setProc proc f) := rfl

/-- A call of `paging.c` or `frame.c`. -/
@[simp] theorem run_callMemory {α : Type} (f : Memory → α × Memory) :
    callMemory f k = ((f k.mem).1, k.withMem (f k.mem).2) := rfl

/-- A change of memory. -/
@[simp] theorem run_onMemory (f : Memory → Memory) :
    onMemory f k = (⟨⟩, k.withMem (f k.mem)) := rfl

end

/-- What follows a look at a process keeps the invariant, whatever the process is. -/
theorem Lib.Keeps.getProc_bind {I : Kernel → Prop} {β : Type} {proc : Slot} {f : Process → KernelM β}
    (hf : ∀ p, Keeps I (f p)) : Keeps I (getProc proc >>= f) := fun k => hf _ k

/-- What follows a look at a process stays within the relation, whatever the process is. -/
theorem Lib.Rel.getProc_bind {R : Kernel → Kernel → Prop} {β : Type} {proc : Slot}
    {f : Process → KernelM β} (hf : ∀ p, Rel R (f p)) : Rel R (getProc proc >>= f) := fun k => hf _ k

end AgenticOs
