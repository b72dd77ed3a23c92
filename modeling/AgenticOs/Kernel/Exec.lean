import AgenticOs.Kernel.Elf

/-!
# `kernel/syscall.c`: `SYS_EXEC`

The argument and environment vectors are copied into kernel memory, the new image and its stack are built in a
new address space, and only then the process is changed.

* **Vectors** (`execCopyVector`): `struct exec_vectors` lies in a block of the kernel heap; its contents are a
  value here, its block is taken from and given back to the heap.
* **Image** (`execImage`, `execStack`): an address space is created, the file loaded into it, one page mapped
  for the stack and the strings put there with the tables that point to them (`execBuildUserStack`). What
  fails takes back what was done before, as in the source.
* **Commit** (`execCommit`): the process gets the new directory, descriptors with `PROCESS_FD_CLOEXEC` are
  closed, and the old address space is destroyed.
* **The call** (`syscallExec`): its checks and the order of its steps.
-/

namespace AgenticOs

open Function Lib

/-- Source: `syscall.h` `EXEC_MAX_ARGS` -/
abbrev execMaxArgs : Nat := 16
/-- Source: `syscall.h` `EXEC_MAX_ENVS` -/
abbrev execMaxEnvs : Nat := 16
/-- Source: `syscall.h` `EXEC_MAX_STRING_BYTES` -/
abbrev execMaxStringBytes : Nat := 256
/-- Source: `syscall.h` `EXEC_MAX_VECTOR_BYTES` -/
abbrev execMaxVectorBytes : Nat := 3072
/-- `sizeof(struct exec_vectors)` -/
abbrev execVectorsBytes : Nat := 3148

/-- Source: `syscall.c` `struct exec_vectors` -/
structure ExecVectors where
  argc : Nat
  envc : Nat
  bytesUsed : Nat
  argvOffsets : Nat → Nat
  envOffsets : Nat → Nat
  data : Nat → Byte

/-- `memset(vectors, 0, sizeof(*vectors))` -/
def ExecVectors.zero : ExecVectors where
  argc := 0
  envc := 0
  bytesUsed := 0
  argvOffsets := fun _ => 0
  envOffsets := fun _ => 0
  data := fun _ => 0

namespace ExecVectors

/-- `*count = n` -/
def setCount (v : ExecVectors) (environment : Bool) (n : Nat) : ExecVectors :=
  if environment then { v with envc := n } else { v with argc := n }

/-- `offsets[index] = (uint16_t)vectors->bytes_used` -/
def setOffset (v : ExecVectors) (environment : Bool) (index : Nat) : ExecVectors :=
  if environment then { v with envOffsets := update v.envOffsets index (v.bytesUsed % 65536) }
  else { v with argvOffsets := update v.argvOffsets index (v.bytesUsed % 65536) }

/-- `vectors->data[vectors->bytes_used++] = value` -/
def push (v : ExecVectors) (value : Byte) : ExecVectors :=
  { v with data := update v.data v.bytesUsed value, bytesUsed := v.bytesUsed + 1 }

/-- The string at an offset of `data`. -/
def stringAt (v : ExecVectors) (offset : Nat) : CString :=
  ((List.range (execMaxVectorBytes - offset)).map fun i => v.data (offset + i)).takeWhile (· ≠ 0)

/-- The argument strings. -/
def argStrings (v : ExecVectors) : List CString :=
  (List.range v.argc).map fun i => v.stringAt (v.argvOffsets i)

/-- The environment strings. -/
def envStrings (v : ExecVectors) : List CString :=
  (List.range v.envc).map fun i => v.stringAt (v.envOffsets i)

end ExecVectors

/-! ## `exec_copy_vector` -/

namespace Kernel

variable (k : Kernel)

/-- The inner loop of `exec_copy_vector`, with `n` rounds to go: a string with its terminator. -/
def copyExecString : Nat → Word → ExecVectors → Except Word ExecVectors
  | 0, _, _ => .error syscallE2big
  | n + 1, address, v =>
    if execMaxVectorBytes ≤ v.bytesUsed then .error syscallE2big
    else
      match k.copyByteFromUser address with
      | none => .error syscallEfault
      | some value =>
        if value = 0 then .ok (v.push value) else copyExecString n (address + 1) (v.push value)

/-- The outer loop of `exec_copy_vector`, with `n` strings to go before the limit. -/
def copyExecStrings (environment : Bool) : Nat → Nat → Word → ExecVectors →
    Except Word ExecVectors
  | n, index, userVector, v =>
    match k.copyWordFromUser (userVector + BitVec.ofNat 32 (index * 4)) with
    | none => .error syscallEfault
    | some stringPtr =>
      if stringPtr = 0 then .ok (v.setCount environment index)
      else
        match n with
        | 0 => .error syscallE2big
        | n + 1 =>
          match k.copyExecString execMaxStringBytes stringPtr (v.setOffset environment index) with
          | .error status => .error status
          | .ok v => copyExecStrings environment n (index + 1) userVector v

/-- Source: `syscall.c` `exec_copy_vector` -/
def execCopyVector (v : ExecVectors) (userVector : Word) (environment : Bool) :
    Except Word ExecVectors :=
  let v := v.setCount environment 0
  if userVector = 0 then .ok v
  else
    k.copyExecStrings environment (if environment then execMaxEnvs else execMaxArgs) 0 userVector v

end Kernel

/-! ## `exec_build_user_stack` -/

namespace Memory

/-- The two loops that put strings on the stack, the last string first; `pointers` are the addresses
of those already there. -/
def pushStrings (stackPage : Word) : List CString → Word → List Word → Memory →
    Option (Word × List Word) × Memory
  | [], sp, pointers, m => (some (sp, pointers), m)
  | value :: values, sp, pointers, m =>
    let length := BitVec.ofNat 32 (value.length + 1)
    if sp - stackPage < length then (none, m)
    else
      pushStrings stackPage values (sp - length) ((sp - length) :: pointers)
        (m.storeBytes (sp - length) (value ++ [0]))

/-- `exec_build_user_stack` once the strings are on the stack. -/
def pushTable (m : Memory) (stackPage sp : Word) (argv env : List Word) : Option Word × Memory :=
  let table := BitVec.ofNat 32 argv.length :: argv ++ 0 :: env ++ [0]
  let tableBytes := BitVec.ofNat 32 (table.length * 4)
  if sp - stackPage < tableBytes then (none, m)
  else
    let tableSp := (sp - tableBytes) &&& ~~~0x0F
    if tableSp < stackPage then (none, m)
    else (some tableSp, m.storeBytes tableSp (table.flatMap wordBytes))

/-- `exec_build_user_stack` in the new address space. -/
def buildUserStack (m : Memory) (vectors : ExecVectors) (stackPage : Word) : Option Word × Memory :=
  if !m.isUserWritable m.activePageDirectory stackPage then (none, m)
  else
    let m := m.clearPage stackPage
    match m.pushStrings stackPage vectors.envStrings.reverse userStackTop [] with
    | (none, m) => (none, m)
    | (some (sp, env), m) =>
      match m.pushStrings stackPage vectors.argStrings.reverse sp [] with
      | (none, m) => (none, m)
      | (some (sp, argv), m) => m.pushTable stackPage sp argv env

/-- The stack pointer of the new image. Source: `syscall.c` `exec_build_user_stack` -/
def execBuildUserStack (m : Memory) (newCr3 : Word) (vectors : ExecVectors) (stackPage : Word) :
    Option Word × Memory :=
  let oldCr3 := m.pagingGetCurrentDirectory
  let r := (m.pagingSwitchDirectory newCr3).buildUserStack vectors stackPage
  (r.1, r.2.pagingSwitchDirectory oldCr3)

end Memory

/-! ## `syscall_exec` -/

/-- `kmalloc` -/
def callKmalloc (size : Nat) : KernelM (Option Nat) := fun k =>
  ((k.heap.kmalloc size).1, { k with heap := (k.heap.kmalloc size).2 })

/-- `kfree` -/
def callKfree (ptr : Option Nat) : KernelM Unit := modify fun k => { k with heap := k.heap.kfree ptr }

/-- The new image replaces the old one. -/
def execCommit (proc : Slot) (frame newCr3 newStackPointer entry : Word) (vectors : Option Nat) :
    KernelM Unit := do
  let p ← getProc proc
  let oldProcessCr3 := p.cr3
  processFdCloseOnExec proc
  modifyProc proc fun p =>
    { p with
      cr3 := newCr3
      heapStart := processHeapStart
      heapEnd := processHeapStart
      interruptFrame := true }
  callKfree vectors
  onMemory (·.pagingSwitchDirectory newCr3)
  onMemory (·.pagingDestroyAddressSpace oldProcessCr3)
  modify (·.setFrame frame fun f =>
    { f with
      edi := 0
      esi := 0
      ebp := 0
      ebx := 0
      edx := 0
      ecx := 0
      gs := 0x23
      fs := 0x23
      es := 0x23
      ds := 0x23
      eip := entry
      cs := 0x1B
      eflags := 0x202
      userEsp := newStackPointer
      userSs := 0x23 })

/-- The status of `syscall_exec` for a status of the loader. -/
def execStatus (elfStatus : Int) : Word :=
  if elfStatus = elfEnoent then syscallEnoent
  else if elfStatus = elfEinval then syscallEinval
  else if elfStatus = elfEnospc then syscallEnospc
  else syscallEio

/-- The page of the stack of a new image. -/
def execStackPage : Word := userStackTop - BitVec.ofNat 32 userStackSize

/-- `syscall_exec` once the image is loaded: the stack is mapped and built. -/
def execStack (newCr3 : Word) (vectors : ExecVectors) : KernelM (Except Word Word) := do
  let stackPhys ← callMemory (·.frameAlloc)
  if stackPhys = 0 then
    onMemory (·.pagingDestroyAddressSpace newCr3)
    return .error syscallEnomem
  else
    let k ← get
    let mapped ←
      (if k.mem.pagingGetPhysicalAddressInDirectory newCr3 execStackPage ≠ 0 then pure false
      else
        callMemory (·.pagingMapPageInDirectory newCr3 execStackPage stackPhys
          (pagePresent ||| pageWritable ||| pageUser)))
    if mapped = false then
      onMemory fun m => (m.frameRelease stackPhys).2
      onMemory (·.pagingDestroyAddressSpace newCr3)
      return .error syscallEio
    else
      match ← callMemory (·.execBuildUserStack newCr3 vectors execStackPage) with
      | none => do
        onMemory (·.pagingDestroyAddressSpace newCr3)
        return .error syscallE2big
      | some sp => return .ok sp

/-- `syscall_exec` once the vectors are copied: the new address space, the image, the stack. The
result is the directory, the entry point and the stack pointer. -/
def execImage (path : CString) (vectors : ExecVectors) : KernelM (Except Word (Word × Word × Word)) :=
  do
  let newCr3 ← callMemory (·.pagingCreateAddressSpace)
  if newCr3 = 0 then return .error syscallEnomem
  else
    match ← elfLoadFromVfsInto newCr3 path with
    | .error elfStatus => do
      onMemory (·.pagingDestroyAddressSpace newCr3)
      return .error (execStatus elfStatus)
    | .ok info => do
      match ← execStack newCr3 vectors with
      | .error status => return .error status
      | .ok sp => return .ok (newCr3, info.entry, sp)

/-- `control` and `frame_ptr` are those of `syscall_dispatch`: the frame of the caller, never `NULL`.
Source: `syscall.c` `syscall_exec` -/
def syscallExec (pathPtr argvPtr envpPtr callerCs frame : Word) : KernelM Word := do
  if !isRing3 callerCs then return syscallEperm
  else
    let k ← get
    match k.processGetCurrent with
    | none => return syscallEinval
    | some current =>
      match if k.uaccessReadable pathPtr 1 then k.copyStringFromUser pathPtr vfsMaxPath else none with
      | none => return syscallEfault
      | some path =>
        match ← callKmalloc execVectorsBytes with
        | none => return syscallEnomem
        | some block =>
          let k ← get
          match k.execCopyVector ExecVectors.zero argvPtr false with
          | .error status => do
            callKfree (some block)
            return status
          | .ok vectors =>
            match k.execCopyVector vectors envpPtr true with
            | .error status => do
              callKfree (some block)
              return status
            | .ok vectors =>
              match ← execImage path vectors with
              | .error status => do
                callKfree (some block)
                return status
              | .ok (newCr3, entry, sp) => do
                execCommit current frame newCr3 sp entry (some block)
                return syscallSuccess

end AgenticOs
