import AgenticOs.Pipe
import AgenticOs.Lib.Ring

/-!
# The pipe store is a set of lossless FIFO channels

* **Abstraction**: `Pipe.buffered p` is the queue a pipe stands for, read off the ring buffer
  (`Lib/Ring.lean`). `Pipe.take` pops its front (`take_eq`) and `Pipe.put` appends (`Channel.buffered_put`).
* **Calls**: one lemma says what each operation does to the table and returns (`pipeRead_cases`,
  `pipeWrite_cases`, `pipeClose_cases`), whatever the wake-up is.
* **History**: a `PipeTrace` is the pipe table together with, for every pipe, the bytes accepted by
  `pipe_write` and the bytes returned by `pipe_read` since it was created. `PipeTrace.step` makes one call of
  the interface; the logs are computed from the calls' results only.
* **Invariant**: `Channel` says that one pipe's logs and ring agree. A call keeps it of its target
  (`channels_step`) and touches no other pipe (`step_frame`), so every run keeps it (`channels_run`), whatever
  the wake-up does to the process table.
* **Main result** (`pipe_store_fifo`): after any sequence of calls with any arguments, what writers put into a
  pipe is what readers got followed by what is buffered, and no more than the capacity is buffered; a write of
  at most `PIPE_BUF` bytes is accepted as a whole or not at all.
-/

namespace AgenticOs

open Function Lib

/-! ### The ring of a pipe -/

/-- The bytes waiting in a pipe, oldest first. -/
def Pipe.buffered (p : Pipe) : List UInt8 := Ring.contents pipeCapacity p.buffer p.readPos p.count

/-- As many bytes are buffered as are counted. -/
@[simp] theorem Pipe.length_buffered (p : Pipe) : p.buffered.length = p.count :=
  Ring.length_contents _ _ _ _

/-- The copy loop of `pipe_read` returns the front of the queue and advances `read_pos`. -/
theorem Pipe.take_eq (n : ℕ) (p : Pipe) (hpos : p.readPos < pipeCapacity) :
    p.take n = (Ring.contents pipeCapacity p.buffer p.readPos n,
      { p with readPos := (p.readPos + n) % pipeCapacity }) := by
  induction n generalizing p with
  | zero => simp [Pipe.take, Nat.mod_eq_of_lt hpos]
  | succ n ih =>
    rw [Pipe.take, ih _ (Nat.mod_lt _ (by decide)), Ring.contents_succ]
    simp only [Ring.advance_add, Nat.add_comm 1 n]

/-- The copy loop of `pipe_read` touches `read_pos` only. -/
theorem Pipe.take_frame (n : ℕ) (p : Pipe) :
    (p.take n).2 = { p with readPos := (p.take n).2.readPos } := by
  induction n generalizing p with
  | zero => rfl
  | succ n ih => exact ih _

/-- The copy loop of `pipe_write` touches the buffer and `write_pos` only. -/
theorem Pipe.put_frame (bs : List UInt8) (p : Pipe) :
    (p.put bs).readPos = p.readPos ∧ (p.put bs).count = p.count ∧
      (p.put bs).readers = p.readers ∧ (p.put bs).writers = p.writers ∧
        (p.put bs).used = p.used := by
  induction bs generalizing p with
  | nil => exact ⟨rfl, rfl, rfl, rfl, rfl⟩
  | cons b bs ih => exact ih _

/-- The copy loop of `pipe_write` advances `write_pos` by the number of bytes. -/
theorem Pipe.put_writePos (bs : List UInt8) (p : Pipe) (hpos : p.writePos < pipeCapacity) :
    (p.put bs).writePos = (p.writePos + bs.length) % pipeCapacity := by
  induction bs generalizing p with
  | nil => simp [Pipe.put, Nat.mod_eq_of_lt hpos]
  | cons b bs ih =>
    rw [Pipe.put, ih _ (Nat.mod_lt _ (by decide))]
    simp only [Ring.advance_add, Nat.add_comm 1 bs.length, List.length_cons]

/-- **The copy loop of `pipe_write` appends**: as long as the bytes fit, the ring read from
`read_pos` gains exactly them, in order. -/
theorem Pipe.contents_put (bs : List UInt8) (p : Pipe) (n : ℕ) (hpos : p.readPos < pipeCapacity)
    (hw : p.writePos = (p.readPos + n) % pipeCapacity) (hfit : n + bs.length ≤ pipeCapacity) :
    Ring.contents pipeCapacity (p.put bs).buffer p.readPos (n + bs.length) =
      Ring.contents pipeCapacity p.buffer p.readPos n ++ bs := by
  induction bs generalizing p n with
  | nil => simp [Pipe.put]
  | cons b bs ih =>
    simp only [List.length_cons] at hfit
    have hstep := ih { p with
        buffer := update p.buffer p.writePos b
        writePos := (p.writePos + 1) % pipeCapacity } (n + 1) hpos
      (by rw [hw, Ring.advance_add]) (by omega)
    simp only [hw] at hstep
    rw [Ring.contents_push p.buffer b hpos (by omega)] at hstep
    rw [Pipe.put, hw, List.length_cons, show n + (bs.length + 1) = n + 1 + bs.length by omega,
      hstep, List.append_assoc, List.singleton_append]

/-! ### One channel -/

/-- A pipe's ring agrees with what was accepted from writers and returned to readers. -/
structure Channel (p : Pipe) (accepted returned : List UInt8) : Prop where
  /-- Every accepted byte was returned, in order, or is still waiting. -/
  fifo : accepted = returned ++ p.buffered
  count_le : p.count ≤ pipeCapacity
  readPos_lt : p.readPos < pipeCapacity
  writePos_eq : p.writePos = (p.readPos + p.count) % pipeCapacity

namespace Channel

variable {p : Pipe} {accepted returned : List UInt8}

/-- The writer is inside the ring. -/
theorem writePos_lt (h : Channel p accepted returned) : p.writePos < pipeCapacity := by
  rw [h.writePos_eq]
  exact Nat.mod_lt _ (by decide)

/-- A new pipe is an empty channel. -/
theorem fresh (r w : ℕ) : Channel { Pipe.zero with used := true, readers := r, writers := w } [] [] :=
  ⟨rfl, Nat.zero_le _, Nat.zero_lt_succ _, rfl⟩

/-- Changing the reference counts leaves the channel alone. -/
theorem of_counts (h : Channel p accepted returned) (r w : ℕ) :
    Channel { p with readers := r, writers := w } accepted returned :=
  ⟨h.fifo, h.count_le, h.readPos_lt, h.writePos_eq⟩

/-- Reading `n` buffered bytes moves them from the ring to the returned log. -/
theorem read (h : Channel p accepted returned) {n : ℕ} (hn : n ≤ p.count) :
    Channel { (p.take n).2 with count := (p.take n).2.count - n } accepted
      (returned ++ (p.take n).1) := by
  have hsplit : p.buffered = Ring.contents pipeCapacity p.buffer p.readPos n ++
      Ring.contents pipeCapacity p.buffer ((p.readPos + n) % pipeCapacity) (p.count - n) := by
    rw [Pipe.buffered, ← Ring.contents_add _ _ _ _ _ h.readPos_lt, Nat.add_sub_cancel' hn]
  rw [Pipe.take_eq n p h.readPos_lt]
  refine ⟨?_, Nat.le_trans (Nat.sub_le _ _) h.count_le, Nat.mod_lt _ (by decide), ?_⟩
  · rw [h.fifo, hsplit, List.append_assoc]
    rfl
  · show p.writePos = ((p.readPos + n) % pipeCapacity + (p.count - n)) % pipeCapacity
    rw [h.writePos_eq, Ring.advance_add, Nat.add_sub_cancel' hn]

/-- Storing bytes that fit appends them to the queue. -/
theorem buffered_put (h : Channel p accepted returned) (bs : List UInt8)
    (hfit : p.count + bs.length ≤ pipeCapacity) :
    Pipe.buffered { p.put bs with count := (p.put bs).count + bs.length } = p.buffered ++ bs := by
  obtain ⟨hr, hc, -⟩ := Pipe.put_frame bs p
  have := Pipe.contents_put bs p p.count h.readPos_lt h.writePos_eq hfit
  simpa only [Pipe.buffered, hr, hc] using this

/-- Writing bytes that fit moves them from the caller to the ring. -/
theorem write (h : Channel p accepted returned) (bs : List UInt8)
    (hfit : p.count + bs.length ≤ pipeCapacity) :
    Channel { p.put bs with count := (p.put bs).count + bs.length } (accepted ++ bs) returned := by
  obtain ⟨hr, hc, -⟩ := Pipe.put_frame bs p
  refine ⟨?_, ?_, ?_, ?_⟩
  · rw [h.buffered_put bs hfit, h.fifo, List.append_assoc]
  · simpa only [hc] using hfit
  · simpa only [hr] using h.readPos_lt
  · show (p.put bs).writePos = ((p.put bs).readPos + ((p.put bs).count + bs.length)) % pipeCapacity
    rw [Pipe.put_writePos bs p h.writePos_lt, hr, hc, h.writePos_eq, Ring.advance_add]

end Channel

/-! ### What each call does

One lemma per call: either the table is unchanged, or the call ran on the pipe its handle names and
changed that pipe as stated. Everything below reads these and never unfolds a call. -/

section calls

variable {σ : Type*} (wake : Pipes → Fin maxPipes → BlockReason → σ → σ) (pipes : Pipes) (s : σ)

/-- A pipe named by a handle is in use. -/
theorem used_of_pipeHandleIndex {pipes : Pipes} {handle : Int} {i : Fin maxPipes}
    (h : pipeHandleIndex pipes handle = some i) : (pipes i).used = true := by
  unfold pipeHandleIndex at h
  split_ifs at h with h1 h2 h3
  cases h
  exact h3

/-- The read handle of a pipe in use names it. -/
theorem pipeHandleIndex_readHandle {pipes : Pipes} {i : Fin maxPipes} (h : (pipes i).used = true) :
    pipeHandleIndex pipes (pipeReadHandle i) = some i := by
  have hi : (pipeReadHandle i - pipeHandleBase).toNat / 2 = i := by
    unfold pipeReadHandle; omega
  unfold pipeHandleIndex
  rw [if_neg (by unfold pipeReadHandle; omega), dif_pos (by rw [hi]; exact i.2)]
  simp only [hi, h, if_true, Fin.eta]

/-- So does the write handle. -/
theorem pipeHandleIndex_writeHandle {pipes : Pipes} {i : Fin maxPipes} (h : (pipes i).used = true) :
    pipeHandleIndex pipes (pipeWriteHandle i) = some i := by
  have hi : (pipeWriteHandle i - pipeHandleBase).toNat / 2 = i := by
    unfold pipeWriteHandle; omega
  unfold pipeHandleIndex
  rw [if_neg (by unfold pipeWriteHandle; omega), dif_pos (by rw [hi]; exact i.2)]
  simp only [hi, h, if_true, Fin.eta]

/-- The handle of a read end. -/
theorem pipeHandleIsRead_readHandle (i : Fin maxPipes) : pipeHandleIsRead (pipeReadHandle i) = true := by
  unfold pipeHandleIsRead pipeReadHandle
  simp only [Bool.and_eq_true, decide_eq_true_eq, beq_iff_eq]
  omega

/-- The handle of a write end. -/
theorem pipeHandleIsRead_writeHandle (i : Fin maxPipes) :
    pipeHandleIsRead (pipeWriteHandle i) = false := by
  unfold pipeHandleIsRead pipeWriteHandle
  simp only [Bool.and_eq_false_imp, decide_eq_true_eq, beq_eq_false_iff_ne]
  intro _
  omega

/-- What `pipe_create` does. -/
theorem pipeCreate_cases :
    (pipeCreate pipes = (.error pipeEbadf, pipes) ∧ ∀ i, (pipes i).used = true) ∨
    ∃ i, (pipes i).used = false ∧
      pipeCreate pipes = (.ok (pipeReadHandle i, pipeWriteHandle i),
        update pipes i { Pipe.zero with used := true, readers := 1, writers := 1 }) := by
  unfold pipeCreate
  split
  · rename_i h
    left
    refine ⟨rfl, fun i => ?_⟩
    have := List.find?_eq_none.mp h i (List.mem_finRange i)
    simpa using this
  · rename_i i h
    right
    exact ⟨i, by simpa using List.find?_some h, rfl⟩

/-- What `pipe_read` does to the table and returns. -/
theorem pipeRead_cases (handle : Int) (buffer : Bool) (count : ℕ) :
    (((pipeRead wake pipes s handle buffer count).pipes = pipes ∧
        (pipeRead wake pipes s handle buffer count).bytes = [] ∧
        (pipeRead wake pipes s handle buffer count).state = s) ∧
      ((pipeRead wake pipes s handle buffer count).status < 0 ∨
        (pipeRead wake pipes s handle buffer count).status = 0 ∧
          (count = 0 ∨ ∃ i, pipeHandleIndex pipes handle = some i ∧ (pipes i).count = 0 ∧
            (pipes i).writers = 0))) ∨
    ∃ i n, pipeHandleIndex pipes handle = some i ∧ 0 < n ∧ n ≤ (pipes i).count ∧ n ≤ count ∧
      (pipeRead wake pipes s handle buffer count).status = n ∧
      (pipeRead wake pipes s handle buffer count).bytes = ((pipes i).take n).1 ∧
      (pipeRead wake pipes s handle buffer count).pipes =
        update pipes i { ((pipes i).take n).2 with count := ((pipes i).take n).2.count - n } ∧
      (pipeRead wake pipes s handle buffer count).state =
        wake (pipeRead wake pipes s handle buffer count).pipes i .pipeWrite s := by
  unfold pipeRead
  split
  · exact .inl ⟨⟨rfl, rfl, rfl⟩, .inl (by simp)⟩
  rename_i i hi
  dsimp only
  by_cases hbad : (!pipeHandleIsRead handle || (!buffer && decide (0 < count))) = true
  · rw [if_pos hbad]
    exact .inl ⟨⟨rfl, rfl, rfl⟩, .inl (by simp)⟩
  by_cases h0 : count = 0
  · rw [if_neg hbad, if_pos h0]
    exact .inl ⟨⟨rfl, rfl, rfl⟩, .inr ⟨rfl, .inl h0⟩⟩
  by_cases hc : (pipes i).count = 0
  · rw [if_neg hbad, if_neg h0, if_pos hc]
    by_cases hw : (pipes i).writers = 0
    · exact .inl ⟨⟨rfl, rfl, rfl⟩, .inr ⟨if_pos hw, .inr ⟨i, hi, hc, hw⟩⟩⟩
    · exact .inl ⟨⟨rfl, rfl, rfl⟩, .inl (by simp [hw])⟩
  rw [if_neg hbad, if_neg h0, if_neg hc]
  obtain ⟨n, hn⟩ : ∃ n, (if count < (pipes i).count then count else (pipes i).count) = n := ⟨_, rfl⟩
  rw [hn]
  refine .inr ⟨i, n, hi, ?_, ?_, ?_, rfl, rfl, rfl, rfl⟩ <;> split_ifs at hn <;> omega

/-- What `pipe_write` does to the table and returns. -/
theorem pipeWrite_cases (handle : Int) (buffer : Option (ℕ → UInt8)) (count : ℕ) :
    (((pipeWrite wake pipes s handle buffer count).pipes = pipes ∧
        (pipeWrite wake pipes s handle buffer count).state = s) ∧
      ((pipeWrite wake pipes s handle buffer count).status < 0 ∨
        (pipeWrite wake pipes s handle buffer count).status = 0 ∧ count = 0)) ∨
    ∃ i n, pipeHandleIndex pipes handle = some i ∧ 0 < n ∧ n ≤ count ∧
      (pipes i).count + n ≤ max pipeCapacity (pipes i).count ∧
      (count ≤ pipeBuf → n = count) ∧ 0 < (pipes i).readers ∧
      (pipeWrite wake pipes s handle buffer count).status = n ∧
      (pipeWrite wake pipes s handle buffer count).pipes =
        update pipes i { (pipes i).put ((List.range n).map (buffer.getD fun _ => 0)) with
          count := ((pipes i).put ((List.range n).map (buffer.getD fun _ => 0))).count + n } ∧
      (pipeWrite wake pipes s handle buffer count).state =
        wake (pipeWrite wake pipes s handle buffer count).pipes i .pipeRead s := by
  unfold pipeWrite
  split
  · exact .inl ⟨⟨rfl, rfl⟩, .inl (by simp)⟩
  rename_i i hi
  dsimp only
  by_cases hbad : (pipeHandleIsRead handle || (buffer.isNone && decide (0 < count))) = true
  · rw [if_pos hbad]
    exact .inl ⟨⟨rfl, rfl⟩, .inl (by simp)⟩
  by_cases h0 : count = 0
  · rw [if_neg hbad, if_pos h0]
    exact .inl ⟨⟨rfl, rfl⟩, .inr ⟨rfl, h0⟩⟩
  by_cases hr : (pipes i).readers = 0
  · rw [if_neg hbad, if_neg h0, if_pos hr]
    exact .inl ⟨⟨rfl, rfl⟩, .inl (by simp)⟩
  by_cases hfull : pipeCapacity - (pipes i).count = 0 ∨
      (count ≤ pipeBuf ∧ pipeCapacity - (pipes i).count < count)
  · rw [if_neg hbad, if_neg h0, if_neg hr, if_pos hfull]
    exact .inl ⟨⟨rfl, rfl⟩, .inl (by simp)⟩
  rw [if_neg hbad, if_neg h0, if_neg hr, if_neg hfull]
  obtain ⟨n, hn⟩ : ∃ n, (if count < pipeCapacity - (pipes i).count then count
      else pipeCapacity - (pipes i).count) = n := ⟨_, rfl⟩
  rw [hn]
  refine .inr ⟨i, n, hi, ?_, ?_, ?_, ?_, by omega, rfl, rfl, rfl⟩ <;> split_ifs at hn <;> omega

/-- `pipe_write` with a buffer on a write handle reports a broken pipe iff there is no reader. -/
theorem pipeWrite_broken_iff {handle : Int} {i : Fin maxPipes} (buffer : ℕ → UInt8) {count : ℕ}
    (hi : pipeHandleIndex pipes handle = some i) (hw : pipeHandleIsRead handle = false)
    (hcount : count ≠ 0) :
    (pipeWrite wake pipes s handle (some buffer) count).status = pipeBroken ↔
      (pipes i).readers = 0 := by
  unfold pipeWrite
  simp only [hi, hw, Option.isNone_some, Bool.false_and, Bool.or_false, Bool.false_eq_true,
    if_false, hcount]
  by_cases hr : (pipes i).readers = 0
  · simp [hr]
  · have hne : ∀ n : ℕ, (n : Int) ≠ pipeBroken := fun n => by simp only [pipeBroken]; omega
    simp only [hr, if_false, iff_false]
    by_cases hfull : pipeCapacity - (pipes i).count = 0 ∨
        (count ≤ pipeBuf ∧ pipeCapacity - (pipes i).count < count)
    · rw [if_pos hfull]
      show ¬ pipeWouldBlock = pipeBroken
      decide
    · rw [if_neg hfull]
      exact hne _

/-- What `pipe_close` does to the table: nothing, or it drops one reference of the named pipe and
reclaims the pipe when that was the last one. -/
theorem pipeClose_cases (handle : Int) :
    ((pipeClose wake pipes s handle).pipes = pipes ∧
      (pipeClose wake pipes s handle).status = pipeEbadf ∧
      (pipeClose wake pipes s handle).state = s) ∨
    ∃ i r w, pipeHandleIndex pipes handle = some i ∧
      (pipeClose wake pipes s handle).status = pipeSuccess ∧
      (pipeHandleIsRead handle = true ∧ r + 1 = (pipes i).readers ∧ w = (pipes i).writers ∧
          (pipeClose wake pipes s handle).state = (if r = 0 then
            wake (update pipes i { pipes i with readers := r, writers := w }) i .pipeWrite s
              else s) ∨
        pipeHandleIsRead handle = false ∧ r = (pipes i).readers ∧ w + 1 = (pipes i).writers ∧
          (pipeClose wake pipes s handle).state = (if w = 0 then
            wake (update pipes i { pipes i with readers := r, writers := w }) i .pipeRead s
              else s)) ∧
      (pipeClose wake pipes s handle).pipes = update pipes i
        (if r = 0 ∧ w = 0 then Pipe.zero else { pipes i with readers := r, writers := w }) := by
  unfold pipeClose
  split
  · exact .inl ⟨rfl, rfl, rfl⟩
  rename_i i hi
  by_cases hread : pipeHandleIsRead handle = true
  · by_cases hr : (pipes i).readers = 0
    · left; simp [hread, hr]
    · right
      refine ⟨i, (pipes i).readers - 1, (pipes i).writers, hi, ?_, .inl ⟨hread, by omega, rfl, ?_⟩, ?_⟩
      all_goals simp only [hread, if_true, hr, if_false, update_self]
      all_goals split_ifs <;> simp_all
  · have hwrite : pipeHandleIsRead handle = false := by simpa using hread
    by_cases hw : (pipes i).writers = 0
    · left; simp [hwrite, hw]
    · right
      refine ⟨i, (pipes i).readers, (pipes i).writers - 1, hi, ?_,
        .inr ⟨hwrite, rfl, by omega, ?_⟩, ?_⟩
      all_goals simp only [hwrite, Bool.false_eq_true, hw, if_false, update_self]
      all_goals split_ifs <;> simp_all

/-- What `pipe_retain` does to the table. -/
theorem pipeRetain_cases (handle : Int) :
    pipeRetain pipes handle = (pipeEbadf, pipes) ∨
    ∃ i r w, pipeHandleIndex pipes handle = some i ∧
      (pipeHandleIsRead handle = true ∧ r = (pipes i).readers + 1 ∧ w = (pipes i).writers ∨
        pipeHandleIsRead handle = false ∧ r = (pipes i).readers ∧ w = (pipes i).writers + 1) ∧
      pipeRetain pipes handle =
        (pipeSuccess, update pipes i { pipes i with readers := r, writers := w }) := by
  unfold pipeRetain
  split
  · exact .inl rfl
  rename_i i hi
  by_cases hread : pipeHandleIsRead handle = true
  · by_cases hr : (pipes i).readers = uint32Max
    · left; simp [hread, hr]
    · right
      exact ⟨i, (pipes i).readers + 1, (pipes i).writers, hi, .inl ⟨hread, rfl, rfl⟩,
        by simp [hread, hr]⟩
  · have hwrite : pipeHandleIsRead handle = false := by simpa using hread
    by_cases hw : (pipes i).writers = uint32Max
    · left; simp [hwrite, hw]
    · right
      exact ⟨i, (pipes i).readers, (pipes i).writers + 1, hi, .inr ⟨hwrite, rfl, rfl⟩,
        by simp [hwrite, hw]⟩

end calls

/-! ### Runs with their history -/

/-- A call of the pipe interface, with arbitrary arguments. -/
inductive PipeCall
  | create
  | read (handle : Int) (buffer : Bool) (count : ℕ)
  | write (handle : Int) (buffer : Option (ℕ → UInt8)) (count : ℕ)
  | retain (handle : Int)
  | close (handle : Int)

/-- The pipe table, the state of the wake-ups, and per pipe the bytes accepted by `pipe_write` and
returned by `pipe_read` since its creation. -/
structure PipeTrace (σ : Type*) where
  pipes : Pipes
  state : σ
  accepted : Fin maxPipes → List UInt8
  returned : Fin maxPipes → List UInt8

/-- Appends `bs` to the log of the pipe a handle names. -/
def logBytes (log : Fin maxPipes → List UInt8) (index : Option (Fin maxPipes)) (bs : List UInt8) :
    Fin maxPipes → List UInt8 :=
  match index with
  | none => log
  | some i => update log i (log i ++ bs)

namespace PipeTrace

variable {σ : Type*} (wake : Pipes → Fin maxPipes → BlockReason → σ → σ)

/-- The pipe a call works on: the one its handle names, or the one it creates. -/
def target (t : PipeTrace σ) : PipeCall → Option (Fin maxPipes)
  | .create =>
    match pipeCreate t.pipes with
    | (.ok (readHandle, _), pipes') => pipeHandleIndex pipes' readHandle
    | (.error _, _) => none
  | .read handle _ _ => pipeHandleIndex t.pipes handle
  | .write handle _ _ => pipeHandleIndex t.pipes handle
  | .retain handle => pipeHandleIndex t.pipes handle
  | .close handle => pipeHandleIndex t.pipes handle

/-- One call, with its effect on the logs. -/
def step (t : PipeTrace σ) (call : PipeCall) : PipeTrace σ :=
  match call with
  | .create =>
    { t with
      pipes := (pipeCreate t.pipes).2
      accepted := match t.target .create with
        | none => t.accepted
        | some i => update t.accepted i []
      returned := match t.target .create with
        | none => t.returned
        | some i => update t.returned i [] }
  | .read handle buffer count =>
    let r := pipeRead wake t.pipes t.state handle buffer count
    { t with
      pipes := r.pipes
      state := r.state
      returned := logBytes t.returned (pipeHandleIndex t.pipes handle) r.bytes }
  | .write handle buffer count =>
    let r := pipeWrite wake t.pipes t.state handle buffer count
    { t with
      pipes := r.pipes
      state := r.state
      accepted := logBytes t.accepted (pipeHandleIndex t.pipes handle)
        ((List.range r.status.toNat).map (buffer.getD fun _ => 0)) }
  | .retain handle => { t with pipes := (pipeRetain t.pipes handle).2 }
  | .close handle =>
    let r := pipeClose wake t.pipes t.state handle
    { t with pipes := r.pipes, state := r.state }

/-- The history of a sequence of calls made after `pipe_init`. -/
def run (s : σ) (calls : List PipeCall) : PipeTrace σ :=
  calls.foldl (step wake) ⟨pipeInit, s, fun _ => [], fun _ => []⟩

/-- Every pipe in use is a channel for its logs. -/
def Channels (t : PipeTrace σ) : Prop :=
  ∀ i, (t.pipes i).used = true → Channel (t.pipes i) (t.accepted i) (t.returned i)

/-- A pipe that was created is the one that is counted. -/
theorem target_create {t : PipeTrace σ} {i : Fin maxPipes}
    (h : pipeCreate t.pipes = (.ok (pipeReadHandle i, pipeWriteHandle i),
      update t.pipes i { Pipe.zero with used := true, readers := 1, writers := 1 })) :
    t.target .create = some i := by
  simp only [target, h]
  exact pipeHandleIndex_readHandle (by simp)

/-- Replacing one pipe and its logs by a channel keeps the rest. -/
theorem Channels.update {t t' : PipeTrace σ} (h : t.Channels) {i : Fin maxPipes}
    (hi : (t'.pipes i).used = true → Channel (t'.pipes i) (t'.accepted i) (t'.returned i))
    (hne : ∀ j ≠ i, t'.pipes j = t.pipes j ∧ t'.accepted j = t.accepted j ∧
      t'.returned j = t.returned j) : t'.Channels := by
  intro j hj
  by_cases hji : j = i
  · rw [hji] at hj ⊢; exact hi hj
  · obtain ⟨h1, h2, h3⟩ := hne j hji
    rw [h1] at hj ⊢
    rw [h2, h3]
    exact h j hj

/-- **Frame**: a call changes no pipe and no log but its target's. -/
theorem step_frame (t : PipeTrace σ) (call : PipeCall) (j : Fin maxPipes)
    (hj : t.target call ≠ some j) :
    (t.step wake call).pipes j = t.pipes j ∧ (t.step wake call).accepted j = t.accepted j ∧
      (t.step wake call).returned j = t.returned j := by
  have hlog : ∀ log handle bs, t.target call = pipeHandleIndex t.pipes handle →
      logBytes log (pipeHandleIndex t.pipes handle) bs j = log j := by
    intro log handle bs ht
    rcases hi : pipeHandleIndex t.pipes handle with _ | i
    · rfl
    · exact update_of_ne (fun he => hj (by rw [ht, hi, he])) _ _
  cases call with
  | create =>
    rcases pipeCreate_cases t.pipes with ⟨h, -⟩ | ⟨i, -, h⟩
    · simp only [step, target, h, and_self]
    · have hi := target_create h
      have hne : j ≠ i := fun he => hj (by rw [hi, he])
      simp only [step, hi]
      exact ⟨by rw [h]; exact update_of_ne hne _ _, update_of_ne hne _ _, update_of_ne hne _ _⟩
  | read handle buffer count =>
    refine ⟨?_, rfl, hlog _ _ _ rfl⟩
    rcases pipeRead_cases wake t.pipes t.state handle buffer count with
      ⟨⟨hp, -⟩, -⟩ | ⟨i, n, hi, -, -, -, -, -, hp, -⟩
    · simp only [step, hp]
    · have hne : j ≠ i := fun he => hj (by rw [target, hi, he])
      simp only [step, hp, update_of_ne hne]
  | write handle buffer count =>
    refine ⟨?_, hlog _ _ _ rfl, rfl⟩
    rcases pipeWrite_cases wake t.pipes t.state handle buffer count with
      ⟨⟨hp, -⟩, -⟩ | ⟨i, n, hi, -, -, -, -, -, -, hp, -⟩
    · simp only [step, hp]
    · have hne : j ≠ i := fun he => hj (by rw [target, hi, he])
      simp only [step, hp, update_of_ne hne]
  | retain handle =>
    refine ⟨?_, rfl, rfl⟩
    rcases pipeRetain_cases t.pipes handle with hp | ⟨i, r, w, hi, -, hp⟩
    · simp only [step, hp]
    · have hne : j ≠ i := fun he => hj (by rw [target, hi, he])
      simp only [step, hp, update_of_ne hne]
  | close handle =>
    refine ⟨?_, rfl, rfl⟩
    rcases pipeClose_cases wake t.pipes t.state handle with
      ⟨hp, -⟩ | ⟨i, r, w, hi, -, -, hp⟩
    · simp only [step, hp]
    · have hne : j ≠ i := fun he => hj (by rw [target, hi, he])
      simp only [step, hp, update_of_ne hne]

/-- Every call keeps every channel. -/
theorem channels_step (t : PipeTrace σ) (h : t.Channels) (call : PipeCall) :
    (t.step wake call).Channels := by
  rcases htarget : t.target call with _ | i
  · intro j hj
    obtain ⟨h1, h2, h3⟩ := step_frame wake t call j (by simp [htarget])
    rw [h1] at hj ⊢
    rw [h2, h3]
    exact h j hj
  refine h.update (i := i) (fun hi => ?_)
    fun j hji => step_frame wake t call j (by rw [htarget]; simpa using Ne.symm hji)
  cases call with
  | create =>
    rcases pipeCreate_cases t.pipes with ⟨hp, -⟩ | ⟨i', -, hp⟩
    · simp [target, hp] at htarget
    · obtain rfl : i' = i := by rw [target_create hp] at htarget; exact Option.some.inj htarget
      simp only [step, htarget, hp, update_self]
      exact Channel.fresh 1 1
  | read handle buffer count =>
    have hch := h i (used_of_pipeHandleIndex htarget)
    simp only [target] at htarget
    simp only [step, htarget, logBytes, update_self]
    rcases pipeRead_cases wake t.pipes t.state handle buffer count with
      ⟨⟨hp, hb, -⟩, -⟩ | ⟨i', n, hi', -, hn, -, -, hb, hp, -⟩
    · rw [hp, hb, List.append_nil]
      exact hch
    · obtain rfl : i' = i := by rw [htarget] at hi'; exact (Option.some.inj hi').symm
      rw [hp, hb, update_self]
      exact hch.read hn
  | write handle buffer count =>
    have hch := h i (used_of_pipeHandleIndex htarget)
    simp only [target] at htarget
    simp only [step, htarget, logBytes, update_self]
    rcases pipeWrite_cases wake t.pipes t.state handle buffer count with
      ⟨⟨hp, -⟩, hstat⟩ | ⟨i', n, hi', -, -, hfit, -, -, hstat, hp, -⟩
    · have hnil : (pipeWrite wake t.pipes t.state handle buffer count).status.toNat = 0 := by omega
      rw [hp, hnil, List.range_zero, List.map_nil, List.append_nil]
      exact hch
    · obtain rfl : i' = i := by rw [htarget] at hi'; exact (Option.some.inj hi').symm
      have hlen : ((List.range n).map (buffer.getD fun _ => 0)).length = n := by simp
      have hfit' : (t.pipes i').count + n ≤ pipeCapacity := by
        have := hch.count_le
        rwa [Nat.max_eq_left this] at hfit
      have := hch.write ((List.range n).map (buffer.getD fun _ => 0)) (by rw [hlen]; exact hfit')
      rw [hlen] at this
      rw [hp, update_self, hstat, Int.toNat_natCast]
      exact this
  | retain handle =>
    have hch := h i (used_of_pipeHandleIndex htarget)
    simp only [target] at htarget
    simp only [step]
    rcases pipeRetain_cases t.pipes handle with hp | ⟨i', r, w, hi', -, hp⟩
    · rw [hp]; exact hch
    · obtain rfl : i' = i := by rw [htarget] at hi'; exact (Option.some.inj hi').symm
      simp only [hp, update_self]
      exact hch.of_counts r w
  | close handle =>
    have hch := h i (used_of_pipeHandleIndex htarget)
    simp only [target] at htarget
    simp only [step] at hi ⊢
    rcases pipeClose_cases wake t.pipes t.state handle with ⟨hp, -⟩ | ⟨i', r, w, hi', -, -, hp⟩
    · rw [hp]; exact hch
    · obtain rfl : i' = i := by rw [htarget] at hi'; exact (Option.some.inj hi').symm
      rw [hp, update_self] at hi ⊢
      -- a reclaimed pipe is not in use, so only the surviving one matters
      split_ifs at hi ⊢ with hlast
      · exact absurd hi (by decide)
      · exact hch.of_counts r w

/-- Every run keeps every channel. -/
theorem channels_run (s : σ) (calls : List PipeCall) : (run wake s calls).Channels := by
  unfold run
  have hinit : PipeTrace.Channels (σ := σ) ⟨pipeInit, s, fun _ => [], fun _ => []⟩ := by
    intro i hi
    exact absurd hi (by simp [pipeInit, Pipe.zero])
  generalize (⟨pipeInit, s, fun _ => [], fun _ => []⟩ : PipeTrace σ) = t at hinit ⊢
  induction calls generalizing t with
  | nil => exact hinit
  | cons call calls ih => exact ih _ (channels_step wake t hinit call)

/-- **The pipe store is a set of lossless FIFO channels.** After any sequence of calls with any
arguments: for every pipe in use, what readers got is a prefix of what writers put in, the rest is
exactly the `count` buffered bytes, and the ring positions are in range; a write of `1..512` bytes
is all or nothing; a read returns `0` for a non-zero count only at end-of-file; a write with a
buffer on a write handle reports a broken pipe iff there is no reader; and a call changes no pipe
but its own. -/
theorem pipe_store_fifo (s : σ) (calls : List PipeCall) :
    (∀ i, ((run wake s calls).pipes i).used = true →
      (run wake s calls).returned i <+: (run wake s calls).accepted i ∧
      (run wake s calls).accepted i =
        (run wake s calls).returned i ++ ((run wake s calls).pipes i).buffered ∧
      ((run wake s calls).pipes i).buffered.length = ((run wake s calls).pipes i).count ∧
      ((run wake s calls).pipes i).count ≤ 4096 ∧ ((run wake s calls).pipes i).readPos < 4096 ∧
      ((run wake s calls).pipes i).writePos < 4096 ∧
      ((run wake s calls).pipes i).writePos =
        (((run wake s calls).pipes i).readPos + ((run wake s calls).pipes i).count) % 4096) ∧
    (∀ handle buffer count, 0 < count → count ≤ 512 →
      let r := pipeWrite wake (run wake s calls).pipes (run wake s calls).state handle buffer count
      (r.status = count ∧ ∃ i, pipeHandleIndex (run wake s calls).pipes handle = some i ∧
        (r.pipes i).buffered = ((run wake s calls).pipes i).buffered ++
          (List.range count).map (buffer.getD fun _ => 0)) ∨
      (r.status < 0 ∧ r.pipes = (run wake s calls).pipes)) ∧
    (∀ handle buffer count, count ≠ 0 →
      (pipeRead wake (run wake s calls).pipes (run wake s calls).state handle buffer count).status
        = 0 →
      ∃ i, pipeHandleIndex (run wake s calls).pipes handle = some i ∧
        ((run wake s calls).pipes i).count = 0 ∧ ((run wake s calls).pipes i).writers = 0) ∧
    (∀ handle buffer count i, count ≠ 0 →
      pipeHandleIndex (run wake s calls).pipes handle = some i →
      pipeHandleIsRead handle = false →
      ((pipeWrite wake (run wake s calls).pipes (run wake s calls).state handle (some buffer)
          count).status = pipeBroken ↔ ((run wake s calls).pipes i).readers = 0)) ∧
    (∀ call j, (run wake s calls).target call ≠ some j →
      ((run wake s calls).step wake call).pipes j = (run wake s calls).pipes j ∧
      ((run wake s calls).step wake call).accepted j = (run wake s calls).accepted j ∧
      ((run wake s calls).step wake call).returned j = (run wake s calls).returned j) := by
  have hch := channels_run wake s calls
  generalize run wake s calls = t at hch
  refine ⟨fun i hi => ?_, fun handle buffer count hpos hle => ?_,
    fun handle buffer count hcount hzero => ?_, fun handle buffer count i hcount hi hw => ?_,
    fun call j hj => step_frame wake t call j hj⟩
  · have h := hch i hi
    exact ⟨⟨_, h.fifo.symm⟩, h.fifo, Pipe.length_buffered _, h.count_le, h.readPos_lt,
      h.writePos_lt, h.writePos_eq⟩
  · rcases pipeWrite_cases wake t.pipes t.state handle buffer count with
      ⟨⟨hp, -⟩, hstat⟩ | ⟨i, n, hi, -, -, hfit, hall, -, hstat, hp, -⟩
    · right
      exact ⟨by omega, hp⟩
    · left
      obtain rfl := hall hle
      have h := hch i (used_of_pipeHandleIndex hi)
      rw [Nat.max_eq_left h.count_le] at hfit
      have hput := h.buffered_put ((List.range n).map (buffer.getD fun _ => 0))
        (by simpa using hfit)
      refine ⟨hstat, i, hi, ?_⟩
      simp only [List.length_map, List.length_range] at hput
      rw [hp, update_self]
      exact hput
  · rcases pipeRead_cases wake t.pipes t.state handle buffer count with
      ⟨-, hstat | ⟨-, h0 | heof⟩⟩ | ⟨i, n, -, hn, -, -, hstat, -⟩
    · omega
    · exact absurd h0 hcount
    · exact heof
    · omega
  · exact pipeWrite_broken_iff wake t.pipes t.state buffer hi hw hcount

end PipeTrace

end AgenticOs
