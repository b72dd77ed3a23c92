import AgenticOs.Types
import Mathlib.Logic.Function.Basic

/-!
# `kernel/pipe.c`

The pipe table and its six operations: `pipe_init`, `pipe_create`, `pipe_read`, `pipe_write`, `pipe_close` and
`pipe_retain`.

* **Wake-ups**: `pipe_read`, `pipe_write` and `pipe_close` call `process_wake_pipe_waiter` in the middle of
  their work. The process table is not this file's business, so they take the wake-up as a parameter `wake :
  Pipes → Fin maxPipes → BlockReason → σ → σ` on a state `σ`, and call it where the source calls it (in
  `pipe_close` before the reclaiming `memset`). `Process.lean` instantiates it with the scan of the process
  table.
* **Handles**: a handle is a number from `pipeHandleBase` on, two for each pipe. `pipeHandleIndex` is `none`
  where the source returns `-1`: outside the table, and for a pipe that is not in use.
* **Buffers**: a buffer argument is `none` for `NULL` and otherwise the bytes from the address on. The copy
  loops are `Pipe.take` and `Pipe.put`, which go round the ring as the source's index arithmetic does.

The proofs about pipes are in `PipeFifo.lean`.
-/

namespace AgenticOs

/-- Source: `pipe.h` `MAX_PIPES` -/
abbrev maxPipes : Nat := 8
/-- Source: `pipe.h` `PIPE_CAPACITY` -/
abbrev pipeCapacity : Nat := 4096
/-- Source: `pipe.h` `PIPE_BUF` -/
abbrev pipeBuf : Nat := 512
/-- Source: `pipe.c` `PIPE_HANDLE_BASE` -/
abbrev pipeHandleBase : Int := 256

/-- Source: `pipe.h` `struct pipe` -/
structure Pipe where
  buffer : Nat → UInt8
  readPos : Nat
  writePos : Nat
  count : Nat
  readers : Nat
  writers : Nat
  used : Bool

/-- The all-zero pipe left by `memset`. -/
def Pipe.zero : Pipe where
  buffer := fun _ => 0
  readPos := 0
  writePos := 0
  count := 0
  readers := 0
  writers := 0
  used := false

/-- Source: `pipe.c` `pipes` -/
abbrev Pipes := Fin maxPipes → Pipe

/-- Source: `pipe.c` `pipe_init` -/
def pipeInit : Pipes := fun _ => Pipe.zero

/-- The pipe a handle names, if it is in use; `none` is the source's `-1`.
Source: `pipe.c` `pipe_handle_index` -/
def pipeHandleIndex (pipes : Pipes) (handle : Int) : Option (Fin maxPipes) :=
  if handle < pipeHandleBase then none
  else
    if h : (handle - pipeHandleBase).toNat / 2 < maxPipes then
      if (pipes ⟨_, h⟩).used then some ⟨_, h⟩ else none
    else none

/-- Source: `pipe.c` `pipe_handle_is_read` -/
def pipeHandleIsRead (handle : Int) : Bool :=
  decide (pipeHandleBase ≤ handle) && (handle - pipeHandleBase) % 2 == 0

/-- The handle of the read end of pipe `i`. Source: `pipe.c` `pipe_create` -/
def pipeReadHandle (i : Fin maxPipes) : Int := pipeHandleBase + i * 2
/-- The handle of the write end of pipe `i`. Source: `pipe.c` `pipe_create` -/
def pipeWriteHandle (i : Fin maxPipes) : Int := pipeHandleBase + i * 2 + 1

/-- Finds the first unused pipe and opens one reader and one writer on it; the two handles are
returned on success.
Source: `pipe.c` `pipe_create` -/
def pipeCreate (pipes : Pipes) : Except Int (Int × Int) × Pipes :=
  match (List.finRange maxPipes).find? fun i => !(pipes i).used with
  | none => (.error pipeEbadf, pipes)
  | some i =>
    (.ok (pipeReadHandle i, pipeWriteHandle i),
      Function.update pipes i { Pipe.zero with used := true, readers := 1, writers := 1 })

/-- The copy loop of `pipe_read`: `n` bytes out of the ring. -/
def Pipe.take : Nat → Pipe → List UInt8 × Pipe
  | 0, p => ([], p)
  | n + 1, p =>
    let rest := Pipe.take n { p with readPos := (p.readPos + 1) % pipeCapacity }
    (p.buffer p.readPos :: rest.1, rest.2)

/-- The copy loop of `pipe_write`: the bytes into the ring. -/
def Pipe.put : List UInt8 → Pipe → Pipe
  | [], p => p
  | b :: bs, p =>
    Pipe.put bs { p with
      buffer := Function.update p.buffer p.writePos b
      writePos := (p.writePos + 1) % pipeCapacity }

/-- What `pipe_read` leaves behind: its return value, the bytes it stored through `buffer`, the
pipe table and the state of the wake-up. -/
structure PipeReadResult (σ : Type*) where
  status : Int
  bytes : List UInt8
  pipes : Pipes
  state : σ

/-- What `pipe_write`, `pipe_close` leave behind. -/
structure PipeResult (σ : Type*) where
  status : Int
  pipes : Pipes
  state : σ

variable {σ : Type*} (wake : Pipes → Fin maxPipes → BlockReason → σ → σ)

/-- Source: `pipe.c` `pipe_read` -/
def pipeRead (pipes : Pipes) (s : σ) (handle : Int) (buffer : Bool) (count : Nat) :
    PipeReadResult σ :=
  match pipeHandleIndex pipes handle with
  | none => ⟨pipeEbadf, [], pipes, s⟩
  | some index =>
    if !pipeHandleIsRead handle || (!buffer && decide (0 < count)) then
      ⟨pipeEbadf, [], pipes, s⟩
    else if count = 0 then ⟨0, [], pipes, s⟩
    else
      let pipe := pipes index
      if pipe.count = 0 then
        ⟨if pipe.writers = 0 then 0 else pipeWouldBlock, [], pipes, s⟩
      else
        let copied := if count < pipe.count then count else pipe.count
        let out := pipe.take copied
        let pipes' := Function.update pipes index { out.2 with count := out.2.count - copied }
        ⟨copied, out.1, pipes', wake pipes' index .pipeWrite s⟩

/-- Source: `pipe.c` `pipe_write` -/
def pipeWrite (pipes : Pipes) (s : σ) (handle : Int) (buffer : Option (Nat → UInt8))
    (count : Nat) : PipeResult σ :=
  match pipeHandleIndex pipes handle with
  | none => ⟨pipeEbadf, pipes, s⟩
  | some index =>
    if pipeHandleIsRead handle || (buffer.isNone && decide (0 < count)) then
      ⟨pipeEbadf, pipes, s⟩
    else if count = 0 then ⟨0, pipes, s⟩
    else
      let pipe := pipes index
      if pipe.readers = 0 then ⟨pipeBroken, pipes, s⟩
      else
        let space := pipeCapacity - pipe.count
        if space = 0 ∨ (count ≤ pipeBuf ∧ space < count) then ⟨pipeWouldBlock, pipes, s⟩
        else
          let copied := if count < space then count else space
          let stored := pipe.put ((List.range copied).map (buffer.getD fun _ => 0))
          let pipes' := Function.update pipes index { stored with count := stored.count + copied }
          ⟨copied, pipes', wake pipes' index .pipeRead s⟩

/-- Drops one reference of an end; the last one of an end wakes the other side, the last one of the
pipe reclaims it.
Source: `pipe.c` `pipe_close` -/
def pipeClose (pipes : Pipes) (s : σ) (handle : Int) : PipeResult σ :=
  match pipeHandleIndex pipes handle with
  | none => ⟨pipeEbadf, pipes, s⟩
  | some index =>
    let reclaim (pipes' : Pipes) (s' : σ) : PipeResult σ :=
      if (pipes' index).readers = 0 ∧ (pipes' index).writers = 0 then
        ⟨pipeSuccess, Function.update pipes' index Pipe.zero, s'⟩
      else ⟨pipeSuccess, pipes', s'⟩
    let pipe := pipes index
    if pipeHandleIsRead handle then
      if pipe.readers = 0 then ⟨pipeEbadf, pipes, s⟩
      else
        let pipes' := Function.update pipes index { pipe with readers := pipe.readers - 1 }
        reclaim pipes' (if pipe.readers - 1 = 0 then wake pipes' index .pipeWrite s else s)
    else
      if pipe.writers = 0 then ⟨pipeEbadf, pipes, s⟩
      else
        let pipes' := Function.update pipes index { pipe with writers := pipe.writers - 1 }
        reclaim pipes' (if pipe.writers - 1 = 0 then wake pipes' index .pipeRead s else s)

/-- Source: `pipe.c` `pipe_retain` -/
def pipeRetain (pipes : Pipes) (handle : Int) : Int × Pipes :=
  match pipeHandleIndex pipes handle with
  | none => (pipeEbadf, pipes)
  | some index =>
    let pipe := pipes index
    if pipeHandleIsRead handle then
      if pipe.readers = uint32Max then (pipeEbadf, pipes)
      else (pipeSuccess, Function.update pipes index { pipe with readers := pipe.readers + 1 })
    else
      if pipe.writers = uint32Max then (pipeEbadf, pipes)
      else (pipeSuccess, Function.update pipes index { pipe with writers := pipe.writers + 1 })

end AgenticOs
