import AgenticOs.Kernel.Machine
import AgenticOs.Kernel.RunQueue

/-!
# What the kernel does beside scheduling

Most of what a system call does leaves the scheduler alone but for waking blocked processes: it opens, reads and closes
files and pipes, copies to user memory, builds an address space. `Quiet` says so of two states: the fields that the
scheduler owns are `Kept`, a process changes its state at most from blocked to ready, the same process runs with the
same directory loaded, and whatever was `Ordered` for the scheduler still is.

* **Changes of one kind**: of a process (`Quiet.setProc`), of memory (`Quiet.withMem`), of a frame (`Quiet.setFrame`),
  of what the scheduler never sees (`Quiet.of_procs`), and the wake of a process (`Quiet.schedulerWake`).
* **Rules** (`RunsQuietly`): they follow the way a function is written, so that the lemma of a function cites those of
  the functions that it calls.
* **Functions**: descriptors and pipes (`quiet_processFdCloseAll`, `quiet_kernelPipeRead`), what is done for a process
  when it runs again (`quiet_processCompleteWait`), the family of a process that ends (`quiet_tellFamily`), and the
  system calls that neither block nor end their caller (`quiet_syscallOpen`, `quiet_syscallBrk`).
* **The image of `SYS_EXEC`**: while it is built the new directory is loaded and the old one again, and only memory and
  the files have changed in between (`ImageStep`, `quiet_execImage`).

The invariant of the running process passes over all of them (`Quiet.runs`), so that the lemmas about handlers need to
look at the calls of the scheduler only.
-/

namespace AgenticOs

open Function Lib Scheduler

/-- The addresses of the frames of ring 3, and of the kernel stacks. -/
def Kernel.view (k : Kernel) : View where
  ring a := isRing3 (k.frameAt a).cs = true
  stack a := ∃ i < stackSlots, a = k.stackPool + BitVec.ofNat 32 (i * (stackSlotSize * 4))

/-- The static variables of `process.c` beside the table. -/
def Kernel.ledger (k : Kernel) : Word × (Fin stackSlots → Bool) × Nat × Nat :=
  (k.stackPool, k.stackFreeBitmap, k.processCount, k.nextPid)

/-- Only blocked processes have changed their state, and only by waking up. -/
structure Quiet (k k' : Kernel) : Prop where
  kept : ∀ p, Kept (k.procs p) (k'.procs p)
  state : ∀ p, (k'.procs p).state = (k.procs p).state ∨
    ((k.procs p).state = .blocked ∧ (k'.procs p).state = .ready)
  current : k'.current = k.current
  active : IsDirectory k.mem.activePageDirectory →
    k'.mem.activePageDirectory = k.mem.activePageDirectory
  ledger : k'.ledger = k.ledger
  view : k.view.Le k'.view
  ordered : ∀ {v v' : View}, v.Le v' → ∀ out, k.toScheduler.Ordered v out →
    k'.toScheduler.Ordered v' out

namespace Quiet

variable {k k' : Kernel}

/-- The pool of kernel stacks does not move. -/
theorem pool (h : Quiet k k') : k'.stackPool = k.stackPool := congrArg Prod.fst h.ledger

/-- The kernel stacks are where they were, and a frame of ring 3 is still one. -/
theorem view_le (hp : k'.stackPool = k.stackPool) (hr : ∀ a, k.view.ring a → k'.view.ring a) :
    k.view.Le k'.view where
  ring := hr
  stack := by
    rintro a ⟨i, hi, rfl⟩
    exact ⟨i, hi, by rw [hp]⟩

/-- A step that keeps the states. -/
theorem of_same (hs : SameStates k.toScheduler k'.toScheduler) (hp : k'.ledger = k.ledger)
    (hr : ∀ a, k.view.ring a → k'.view.ring a) : Quiet k k' where
  kept := hs.kept
  state := fun p => .inl (hs.state p)
  current := hs.current
  active := fun _ => hs.active
  ledger := hp
  view := view_le (congrArg Prod.fst hp) hr
  ordered := fun hv _ h => h.same hs hv

/-- Nothing has happened. -/
theorem refl (k : Kernel) : Quiet k k := of_same (SameStates.refl _) rfl fun _ => id

/-- A process that one step has woken is not blocked at the next, so its state changes once. -/
theorem trans {k'' : Kernel} (h : Quiet k k') (h' : Quiet k' k'') : Quiet k k'' where
  kept := fun p => (h.kept p).trans (h'.kept p)
  state := by
    intro p
    rcases h.state p with hs | ⟨hb, hr⟩
    · rw [← hs]
      exact h'.state p
    · rcases h'.state p with hs' | ⟨hb', -⟩
      · exact .inr ⟨hb, hs'.trans hr⟩
      · rw [hr] at hb'
        cases hb'
  current := h'.current.trans h.current
  active := by
    intro ha
    have heq := h.active ha
    rw [← heq] at ha
    exact (h'.active ha).trans heq
  ledger := h'.ledger.trans h.ledger
  view := h.view.trans h'.view
  ordered := fun hv out ho => h'.ordered hv out (h.ordered (.refl _) out ho)

instance : IsPreorder Kernel Quiet where
  refl := refl
  trans _ _ _ := trans

/-- A process that is not blocked keeps its state. -/
theorem state_eq (h : Quiet k k') {p : Slot} (hp : (k.procs p).state ≠ .blocked) :
    (k'.procs p).state = (k.procs p).state :=
  (h.state p).resolve_right fun hb => hp hb.1

/-- The running process is the same. -/
theorem state_running (h : Quiet k k') (p : Slot) :
    (k'.procs p).state = .running ↔ (k.procs p).state = .running := by
  rcases h.state p with hs | ⟨hb, hr⟩
  · rw [hs]
  · rw [hb, hr]
    decide

/-- A kernel that runs a process goes on running it. -/
theorem runs (h : Quiet k k') {v v' : View} (hv : v.Le v') {c : Slot}
    (hk : k.toScheduler.Runs v c) : k'.toScheduler.Runs v' c where
  ordered := h.ordered hv ∅ hk.ordered
  current := h.current.trans hk.current
  running := fun p => (h.state_running p).trans (hk.running p)
  directory := by
    rw [h.active hk.ordered.active, (h.kept c).cr3]
    exact hk.directory

/-! ### Changes of one kind -/

/-- A change of the parts that scheduling does not see. -/
theorem of_procs (hs : k'.toScheduler = k.toScheduler) (hp : k'.ledger = k.ledger)
    (hr : ∀ a, k.view.ring a → k'.view.ring a) : Quiet k k' :=
  of_same (hs ▸ SameStates.refl _) hp hr

/-- A process changes where the scheduler does not look. -/
theorem setProc {proc : Slot} {f : Process → Process} (hk : ∀ q, Kept q (f q))
    (hs : ∀ q, (f q).state = q.state) : Quiet k (k.setProc proc f) :=
  of_same (SameStates.setProc hk hs) rfl fun _ => id

/-- Memory changes, and the same directory is loaded. -/
theorem withMem {m : Memory} (hm : m.activePageDirectory = k.mem.activePageDirectory) :
    Quiet k (k.withMem m) :=
  of_same ⟨fun _ => Kept.refl _, fun _ => rfl, rfl, rfl, hm, rfl⟩ rfl fun _ => id

/-- A frame that is of ring 3 stays so. -/
theorem setFrame {frame : Word} {f : InterruptFrame → InterruptFrame}
    (hf : isRing3 (k.frameAt frame).cs = true → isRing3 (f (k.frameAt frame)).cs = true) :
    Quiet k (k.setFrame frame f) := by
  refine of_procs rfl rfl fun a ha => ?_
  show isRing3 (update k.frameAt frame (f (k.frameAt frame)) a).cs = true
  by_cases h : a = frame
  · subst h
    rw [update_self]
    exact hf ha
  · rw [update_of_ne h]
    exact ha

/-- `scheduler_wake`: the one thing that is done to the scheduler, and only to a process that is blocked. -/
theorem schedulerWake (proc : Slot) : Quiet k (k.onScheduler (·.schedulerWake proc)) := by
  have hprocs : ∀ p, Kept (k.procs p) ((k.toScheduler.schedulerWake proc).procs p) ∧
      (((k.toScheduler.schedulerWake proc).procs p).state = (k.procs p).state ∨
        ((k.procs p).state = .blocked ∧
          ((k.toScheduler.schedulerWake proc).procs p).state = .ready)) := by
    intro p
    unfold Scheduler.schedulerWake
    split
    · rename_i hb
      have he := enqueue_kept (k.toScheduler.setProc proc fun p => { p with state := .ready }) proc p
      by_cases hp : p = proc
      · subst hp
        rw [setProc_self] at he
        exact ⟨(Kept.setState (k.procs p) .ready).trans he.1, .inr ⟨hb, he.2⟩⟩
      · rw [setProc_of_ne hp] at he
        exact ⟨he.1, .inl he.2⟩
    · exact ⟨Kept.refl _, .inl rfl⟩
  have hrest : (k.toScheduler.schedulerWake proc).current = k.current ∧
      (k.toScheduler.schedulerWake proc).mem = k.mem := by
    unfold Scheduler.schedulerWake
    split
    · have he := enqueue_current (k.toScheduler.setProc proc fun p => { p with state := .ready }) proc
      exact he
    · exact ⟨rfl, rfl⟩
  exact {
    kept := fun p => (hprocs p).1
    state := fun p => (hprocs p).2
    current := hrest.1
    active := fun _ => congrArg Memory.activePageDirectory hrest.2
    ledger := rfl
    view := .refl _
    ordered := fun hv _ h => (h.wake proc).same (SameStates.refl _) hv }

end Quiet

/-! ### The rules -/

/-- A function that leaves the scheduler alone. -/
abbrev RunsQuietly {α : Type} (x : KernelM α) : Prop := Rel Quiet x

namespace RunsQuietly

variable {α β : Type} {x y : KernelM α} {f : α → KernelM β}

/-- A result, and nothing done. -/
theorem pure (a : α) : RunsQuietly (Pure.pure a : KernelM α) := Rel.pure a

/-- One function after another. -/
theorem bind (hx : RunsQuietly x) (hf : ∀ a, RunsQuietly (f a)) : RunsQuietly (x >>= f) :=
  Rel.bind hx hf

/-- The state is read. -/
theorem get_bind {f : Kernel → KernelM β} (hf : ∀ k, RunsQuietly (f k)) :
    RunsQuietly (get >>= f) := Rel.get_bind hf

/-- A process is read. -/
theorem getProc_bind {proc : Slot} {f : Process → KernelM β} (hf : ∀ p, RunsQuietly (f p)) :
    RunsQuietly (getProc proc >>= f) := Rel.getProc_bind hf

/-- Any change of the state that is quiet. -/
theorem modify {g : Kernel → Kernel} (h : ∀ k, Quiet k (g k)) :
    RunsQuietly (modify g : KernelM PUnit) := h

/-- A loop whose rounds are quiet. -/
theorem forM {γ : Type} {l : List γ} {f : γ → KernelM PUnit} (h : ∀ a ∈ l, RunsQuietly (f a)) :
    RunsQuietly (l.forM f) := Rel.forM h

/-- Either of two functions. -/
theorem ite {c : Prop} [Decidable c] (hx : RunsQuietly x) (hy : RunsQuietly y) :
    RunsQuietly (if c then x else y) := Rel.ite hx hy

/-- A function that is called on a condition. -/
theorem runIf {c : Prop} [Decidable c] {x : KernelM PUnit} (hx : RunsQuietly x) :
    RunsQuietly (runIf c x) := Rel.runIf hx

/-- A process changes where the scheduler does not look. -/
theorem modifyProc {proc : Slot} {f : Process → Process} (hk : ∀ q, Kept q (f q))
    (hs : ∀ q, (f q).state = q.state) : RunsQuietly (modifyProc proc f) :=
  fun _ => Quiet.setProc hk hs

/-- The file system is no part of the scheduler. -/
theorem callVfs (f : VfsM α) : RunsQuietly (callVfs f) := fun _ => Quiet.of_procs rfl rfl fun _ => id

/-- A function of memory with a result, which loads no directory. -/
theorem callMemory {f : Memory → α × Memory}
    (hf : ∀ m, (f m).2.activePageDirectory = m.activePageDirectory) : RunsQuietly (callMemory f) :=
  fun k => Quiet.withMem (hf k.mem)

/-- A function of memory without a result, which loads no directory. -/
theorem onMemory {f : Memory → Memory}
    (hf : ∀ m, (f m).activePageDirectory = m.activePageDirectory) : RunsQuietly (onMemory f) :=
  fun k => Quiet.withMem (hf k.mem)

/-- A process is woken. -/
theorem wake (proc : Slot) : RunsQuietly (onScheduler (·.schedulerWake proc)) :=
  fun _ => Quiet.schedulerWake proc

end RunsQuietly

/-! ### Descriptors -/

/-- The first process that waits for this end of the pipe is woken, if there is one. -/
theorem Quiet.processWakePipeWaiter (pipes : Pipes) (pipeIndex : Fin maxPipes) (reason : BlockReason)
    (k : Kernel) : Quiet k (Kernel.processWakePipeWaiter pipes pipeIndex reason k) := by
  unfold Kernel.processWakePipeWaiter
  split
  · exact Quiet.refl k
  · exact Quiet.schedulerWake _

/-- Closing an end wakes at most one waiter, and none that waits for a child. -/
theorem pipeClose_state {σ : Type} (wake : Pipes → Fin maxPipes → BlockReason → σ → σ)
    (pipes : Pipes) (s : σ) (handle : Int) :
    (pipeClose wake pipes s handle).state = s ∨
      ∃ pipes' i reason, reason ≠ .waitChild ∧ (pipeClose wake pipes s handle).state = wake pipes' i reason s := by
  unfold pipeClose
  split
  · exact .inl rfl
  · dsimp only
    split
    · split
      · exact .inl rfl
      · split
        · split
          · exact .inr ⟨_, _, _, by decide, rfl⟩
          · exact .inl rfl
        · split
          · exact .inr ⟨_, _, _, by decide, rfl⟩
          · exact .inl rfl
    · split
      · exact .inl rfl
      · split
        · split
          · exact .inr ⟨_, _, _, by decide, rfl⟩
          · exact .inl rfl
        · split
          · exact .inr ⟨_, _, _, by decide, rfl⟩
          · exact .inl rfl

/-- The end of a pipe is closed, and those who wait for the other end are woken. -/
theorem quiet_kernelPipeClose (handle : Int) : RunsQuietly (kernelPipeClose handle) := by
  intro k
  have h : Quiet k (pipeClose Kernel.processWakePipeWaiter k.pipes k handle).state := by
    rcases pipeClose_state Kernel.processWakePipeWaiter k.pipes k handle with
      h | ⟨pipes', i, reason, -, h⟩
    · rw [h]
      exact Quiet.refl k
    · rw [h]
      exact Quiet.processWakePipeWaiter _ _ _ k
  exact h.trans (Quiet.of_procs rfl rfl fun _ => id)

/-- An end of a pipe gets another reference. -/
theorem quiet_kernelPipeRetain (handle : Int) : RunsQuietly (kernelPipeRetain handle) :=
  fun _ => Quiet.of_procs rfl rfl fun _ => id

/-- A pipe is created. -/
theorem quiet_kernelPipeCreate : RunsQuietly kernelPipeCreate :=
  fun _ => Quiet.of_procs rfl rfl fun _ => id

/-- A descriptor is written. -/
theorem quiet_setFd (proc : Slot) (fd : Fin processMaxFds) (entry : ProcessFd) :
    RunsQuietly (modifyProc proc (·.setFd fd entry)) :=
  .modifyProc (fun _ => ⟨rfl, rfl, rfl, rfl, rfl, id⟩) fun _ => rfl

/-- A descriptor is installed in the first place that is free, if there is one. -/
theorem quiet_processFdInstallTyped (proc : Slot) (kind : FdKind) (handle : Int) (flags : Nat) :
    RunsQuietly (processFdInstallTyped proc kind handle flags) := by
  unfold processFdInstallTyped
  refine .ite (.pure _) (.getProc_bind fun p => ?_)
  split
  · exact .pure _
  · exact .bind (quiet_setFd _ _ _) fun _ => .pure _

/-- A descriptor of any kind is closed. -/
theorem quiet_processFdClose (proc : Slot) (fd : Int) : RunsQuietly (processFdClose proc fd) := by
  unfold processFdClose
  refine .getProc_bind fun p => ?_
  split
  · refine .bind (quiet_setFd _ _ _) fun _ => .ite ?_ ?_
    · exact .bind (quiet_kernelPipeClose _) fun _ => .pure _
    · exact .bind (.callVfs _) fun _ => .pure _
  · exact .pure _

/-- The descriptors that do not survive `SYS_EXEC` are closed. -/
theorem quiet_processFdCloseOnExec (proc : Slot) : RunsQuietly (processFdCloseOnExec proc) := by
  refine .forM fun fd _ => .getProc_bind fun p => .ite ?_ (.pure _)
  exact .bind (quiet_processFdClose _ _) fun _ => .pure _

/-- All descriptors of a process are closed. -/
theorem quiet_processFdCloseAll (proc : Slot) : RunsQuietly (processFdCloseAll proc) := by
  refine .forM fun fd _ => .getProc_bind fun p => .ite ?_ (.pure _)
  exact .bind (quiet_processFdClose _ _) fun _ => .pure _

/-- What a descriptor of any kind stands for gets another reference. -/
theorem quiet_retainFd (kind : FdKind) (handle : Int) : RunsQuietly (retainFd kind handle) := by
  unfold retainFd
  refine .ite ?_ ?_
  · exact .bind (quiet_kernelPipeRetain _) fun _ => .pure _
  · exact .bind (.callVfs _) fun _ => .pure _

/-- The descriptors of a parent are inherited, one after another. -/
theorem quiet_inheritFds (child parent : Slot) (fds : List (Fin processMaxFds)) :
    RunsQuietly (inheritFds child parent fds) := by
  induction fds with
  | nil => exact .pure _
  | cons fd fds ih =>
    unfold inheritFds
    refine .getProc_bind fun p => .ite ih (.bind (quiet_retainFd _ _) fun kept => .ite ?_ ?_)
    · exact .bind (quiet_processFdCloseAll _) fun _ => .pure _
    · exact .bind (quiet_setFd _ _ _) fun _ => ih

/-! ### User memory and pipes -/

/-- The pages of a range are prepared in the address space that is loaded. -/
theorem quiet_uaccessPrepareWrite (address size : Word) :
    RunsQuietly (uaccessPrepareWrite address size) := by
  unfold uaccessPrepareWrite
  refine .get_bind fun k => .ite (.pure _) (.ite (.pure _) ?_)
  split
  · exact .pure _
  · exact .callMemory fun m => m.prepareWritePages_active _ _

/-- Bytes are stored through the loaded directory. -/
theorem Quiet.storeBytes (k : Kernel) (address : Word) (bytes : List Byte) :
    Quiet k (k.storeBytes address bytes) := Quiet.withMem (k.mem.storeBytes_active _ _)

/-- Bytes are copied to the caller, if it may write there. -/
theorem quiet_copyToUser (dest : Word) (source : List Byte) :
    RunsQuietly (copyToUser dest source) := by
  unfold copyToUser
  refine .bind (quiet_uaccessPrepareWrite _ _) fun status => ?_
  exact .bind (.runIf (.modify fun k => Quiet.storeBytes k _ _)) fun _ => .pure _

/-- A frame whose result register is set stays one of ring 3. -/
theorem quiet_setEax (frame : Word) (result : Word) :
    RunsQuietly (modify (·.setFrame frame fun f => { f with eax := result })) :=
  .modify fun _ => Quiet.setFrame id

/-- `pipe_read` wakes at most once, whatever the call that wakes is. -/
theorem pipeRead_state {σ : Type} (wake : Pipes → Fin maxPipes → BlockReason → σ → σ)
    (pipes : Pipes) (s : σ) (handle : Int) (buffer : Bool) (count : Nat) :
    (pipeRead wake pipes s handle buffer count).state = s ∨
      ∃ pipes' i reason,
        (pipeRead wake pipes s handle buffer count).state = wake pipes' i reason s := by
  unfold pipeRead
  split
  · exact .inl rfl
  · split
    · exact .inl rfl
    · split
      · exact .inl rfl
      · dsimp only
        split
        · exact .inl rfl
        · exact .inr ⟨_, _, _, rfl⟩

/-- `pipe_write` wakes at most once. -/
theorem pipeWrite_state {σ : Type} (wake : Pipes → Fin maxPipes → BlockReason → σ → σ)
    (pipes : Pipes) (s : σ) (handle : Int) (buffer : Option (Nat → UInt8)) (count : Nat) :
    (pipeWrite wake pipes s handle buffer count).state = s ∨
      ∃ pipes' i reason,
        (pipeWrite wake pipes s handle buffer count).state = wake pipes' i reason s := by
  unfold pipeWrite
  split
  · exact .inl rfl
  · split
    · exact .inl rfl
    · split
      · exact .inl rfl
      · dsimp only
        split
        · exact .inl rfl
        · split
          · exact .inl rfl
          · exact .inr ⟨_, _, _, rfl⟩

/-- Bytes of a pipe are stored into the caller's buffer, and a writer may be woken. -/
theorem quiet_kernelPipeRead (handle : Int) (buffer : Word) (count : Nat) :
    RunsQuietly (kernelPipeRead handle buffer count) := by
  intro k
  have h : Quiet k (pipeRead Kernel.processWakePipeWaiter k.pipes k handle (buffer != 0)
      count).state := by
    rcases pipeRead_state Kernel.processWakePipeWaiter k.pipes k handle (buffer != 0) count with
      h | ⟨pipes', i, reason, h⟩
    · rw [h]
      exact Quiet.refl k
    · rw [h]
      exact Quiet.processWakePipeWaiter _ _ _ k
  have hpipes : Quiet k { (pipeRead Kernel.processWakePipeWaiter k.pipes k handle (buffer != 0)
      count).state with
        pipes := (pipeRead Kernel.processWakePipeWaiter k.pipes k handle (buffer != 0) count).pipes } :=
    h.trans (Quiet.of_procs rfl rfl fun _ => id)
  exact hpipes.trans (Quiet.storeBytes _ _ _)

/-- Bytes of the caller's buffer are put into a pipe, and a reader may be woken. -/
theorem quiet_kernelPipeWrite (handle : Int) (buffer : Word) (count : Nat) :
    RunsQuietly (kernelPipeWrite handle buffer count) := by
  intro k
  have h (b : Option (Nat → UInt8)) : Quiet k
      (pipeWrite Kernel.processWakePipeWaiter k.pipes k handle b count).state := by
    rcases pipeWrite_state Kernel.processWakePipeWaiter k.pipes k handle b count with
      h | ⟨pipes', i, reason, h⟩
    · rw [h]
      exact Quiet.refl k
    · rw [h]
      exact Quiet.processWakePipeWaiter _ _ _ k
  exact (h _).trans (Quiet.of_procs rfl rfl fun _ => id)

/-- The transfer that a process has waited for is made once it runs again. -/
theorem quiet_processCompletePipeIo (proc : Slot) : RunsQuietly (processCompletePipeIo proc) := by
  unfold processCompletePipeIo
  refine .getProc_bind fun p => .ite ?_ (.pure _)
  refine .bind ?_ fun result => .bind ?_ fun _ => ?_
  · unfold pendingPipeIo
    split
    · exact .pure _
    · exact .ite (quiet_kernelPipeRead _ _ _) (.ite (quiet_kernelPipeWrite _ _ _) (.pure _))
  · exact .runIf (quiet_setEax _ _)
  · exact .modifyProc (fun _ => ⟨rfl, rfl, rfl, rfl, rfl, id⟩) fun _ => rfl

/-- The status and the pid that a parent has waited for are stored once it runs again. -/
theorem quiet_processCompleteWait (proc : Slot) : RunsQuietly (processCompleteWait proc) := by
  unfold processCompleteWait
  refine .getProc_bind fun p => .ite ?_ (.pure _)
  refine .bind (.runIf ?_) fun _ =>
    .modifyProc (fun _ => ⟨rfl, rfl, rfl, rfl, rfl, id⟩) fun _ => rfl
  exact .bind (quiet_copyToUser _ _) fun status => .runIf (quiet_setEax _ _)

/-! ### Telling the family of a process that ends -/

/-- The parent of a process that ends is told and may be woken. `SIGCHLD` is not fatal, so no signal is pending that
ends a process and was not. -/
theorem quiet_tellFamily (proc : Slot) : RunsQuietly (tellFamily proc) := by
  have hwaited : RunsQuietly (modifyProc proc fun p => { p with waited := true }) :=
    .modifyProc (fun _ => ⟨rfl, rfl, rfl, rfl, rfl, id⟩) fun _ => rfl
  unfold tellFamily
  refine .getProc_bind fun p => .bind (.modify fun k => ?_) fun _ => ?_
  · refine Quiet.of_same ⟨fun q => ?_, fun q => ?_, rfl, rfl, rfl, rfl⟩ rfl fun _ => id
    · show Kept (k.procs q) ((k.orphanChildren p.pid).procs q)
      unfold Kernel.orphanChildren
      dsimp only
      split
      · exact ⟨rfl, rfl, rfl, rfl, rfl, id⟩
      · exact Kept.refl _
    · show ((k.orphanChildren p.pid).procs q).state = _
      unfold Kernel.orphanChildren
      dsimp only
      split <;> rfl
  refine .getProc_bind fun p => .get_bind fun k => ?_
  split
  · exact hwaited
  · refine .ite hwaited (.bind ?_ fun _ => ?_)
    · unfold processSendSignal
      refine .getProc_bind fun p => .ite (.pure _) (.bind ?_ fun _ => .pure _)
      exact .modifyProc (fun p => ⟨rfl, rfl, rfl, rfl, fatalPending_congr (fatalSignals_sigChld p), id⟩) fun _ => rfl
    · unfold handToWaiter
      refine .getProc_bind fun p => .getProc_bind fun q => .ite ?_ (.pure _)
      refine .bind (.modifyProc (fun _ => ⟨rfl, rfl, rfl, rfl, rfl, id⟩) fun _ => rfl) fun _ => ?_
      exact .bind (.runIf (quiet_setEax _ _)) fun _ => .bind hwaited fun _ => .wake _

/-! ### System calls -/

/-- A range of the caller is prepared for a store. -/
theorem quiet_isUserPointerWritable (ptr size : Word) :
    RunsQuietly (isUserPointerWritable ptr size) := by
  unfold isUserPointerWritable
  exact .bind (quiet_uaccessPrepareWrite _ _) fun _ => .pure _

/-- `SYS_OPEN` -/
theorem quiet_syscallOpen (pathPtr flags callerCs : Word) :
    RunsQuietly (syscallOpen pathPtr flags callerCs) := by
  unfold syscallOpen
  refine .ite (.pure _) (.ite (.pure _) (.get_bind fun k => ?_))
  split
  · exact .pure _
  · split
    · exact .pure _
    · refine .bind (.callVfs _) fun r => ?_
      split
      · exact .pure _
      · refine .bind (quiet_processFdInstallTyped _ _ _ _) fun fd => .ite ?_ (.pure _)
        exact .bind (.callVfs _) fun _ => .pure _

/-- A file is read into the caller's buffer. -/
theorem quiet_kernelVfsRead (handle : Int) (buffer count : Word) :
    RunsQuietly (kernelVfsRead handle buffer count) := by
  unfold kernelVfsRead
  refine .bind (.callVfs _) fun r => ?_
  split
  · exact .pure _
  · exact .bind (.modify fun k => Quiet.storeBytes k _ _) fun _ => .pure _

/-- A file is written from the caller's buffer. -/
theorem quiet_kernelVfsWrite (handle : Int) (buffer count : Word) :
    RunsQuietly (kernelVfsWrite handle buffer count) := by
  unfold kernelVfsWrite
  refine .get_bind fun k => .bind (.callVfs _) fun r => ?_
  split <;> exact .pure _

/-- `SYS_CLOSE` -/
theorem quiet_syscallClose (fd callerCs : Word) : RunsQuietly (syscallClose fd callerCs) := by
  unfold syscallClose
  refine .ite (.pure _) (.get_bind fun k => ?_)
  split
  · exact .pure _
  · exact .bind (quiet_processFdClose _ _) fun _ => .pure _

/-- `SYS_STAT`: the record is stored into the caller's memory. -/
theorem quiet_syscallStat (pathPtr statPtr callerCs : Word) :
    RunsQuietly (syscallStat pathPtr statPtr callerCs) := by
  unfold syscallStat
  refine .ite (.pure _) (.bind (quiet_isUserPointerWritable _ _) fun w => .ite (.pure _) ?_)
  refine .get_bind fun k => ?_
  split
  · exact .pure _
  · refine .bind (.callVfs _) fun r => ?_
    split
    · exact .pure _
    · exact .bind (quiet_copyToUser _ _) fun _ => .pure _

/-- `SYS_PIPE`: both descriptors are stored into the caller's memory, or both ends are closed again. -/
theorem quiet_syscallPipe (readOut writeOut callerCs : Word) :
    RunsQuietly (syscallPipe readOut writeOut callerCs) := by
  unfold syscallPipe
  refine .ite (.pure _) (.get_bind fun k => ?_)
  split
  · exact .pure _
  refine .bind (.ite (.pure _) (quiet_isUserPointerWritable _ _)) fun readable => ?_
  refine .bind (.ite (.pure _) (quiet_isUserPointerWritable _ _)) fun writable => ?_
  refine .ite (.pure _) (.bind quiet_kernelPipeCreate fun r => ?_)
  split
  · exact .pure _
  refine .bind (quiet_processFdInstallTyped _ _ _ _) fun readFd => .ite ?_ ?_
  · exact .bind (quiet_kernelPipeClose _) fun _ => .bind (quiet_kernelPipeClose _) fun _ => .pure _
  refine .bind (quiet_processFdInstallTyped _ _ _ _) fun writeFd => .ite ?_ ?_
  · exact .bind (quiet_processFdClose _ _) fun _ => .bind (quiet_kernelPipeClose _) fun _ => .pure _
  refine .bind (quiet_copyToUser _ _) fun status => ?_
  refine .bind (.ite (.pure _) (quiet_copyToUser _ _)) fun status => .ite ?_ (.pure _)
  exact .bind (quiet_processFdClose _ _) fun _ => .bind (quiet_processFdClose _ _) fun _ => .pure _

/-- `SYS_PUTS` -/
theorem quiet_syscallPuts (str callerCs : Word) : RunsQuietly (syscallPuts str callerCs) := by
  unfold syscallPuts
  exact .ite (.pure _) (.get_bind fun _ => .pure _)

/-- `SYS_GETCHAR`: a key is taken, or there is none. -/
theorem quiet_syscallGetchar (callerCs : Word) : RunsQuietly (syscallGetchar callerCs) := by
  unfold syscallGetchar
  refine .ite (.pure _) fun k => ?_
  rcases hk : k.keyBuffer with _ | ⟨c, rest⟩
  · simp only [run_bind, run_get, hk]
    exact Quiet.refl k
  · simp only [run_bind, run_get, hk]
    exact Quiet.of_procs rfl rfl fun _ => id

/-- `SYS_BRK`: pages of the caller are given back, and its directory stays loaded. -/
theorem quiet_syscallBrk (requestedBrk callerCs : Word) :
    RunsQuietly (syscallBrk requestedBrk callerCs) := by
  unfold syscallBrk
  refine .ite (.pure _) (.get_bind fun k => ?_)
  split
  · exact .pure _
  refine .ite (.pure _) (.bind (.onMemory fun m => m.dropPages_active _ _) fun _ => ?_)
  exact .bind (.modifyProc (fun _ => ⟨rfl, rfl, rfl, rfl, rfl, id⟩) fun _ => rfl) fun _ => .pure _

/-- The calls that return a field of the running process. -/
theorem quiet_currentField (f : Process → Word) (absent callerCs : Word) :
    RunsQuietly (currentField f absent callerCs) := by
  unfold currentField
  refine .ite (.pure _) (.get_bind fun k => ?_)
  split <;> exact .pure _

/-- `SYS_UPTIME` -/
theorem quiet_syscallUptime (callerCs : Word) : RunsQuietly (syscallUptime callerCs) := by
  unfold syscallUptime
  exact .ite (.pure _) (.get_bind fun _ => .pure _)

/-! ### The new image of `SYS_EXEC` -/

/-- Only memory and the files have changed. -/
def ImageStep (k k' : Kernel) : Prop :=
  k' = { k with toScheduler := { k.toScheduler with mem := k'.mem }, vfs := k'.vfs }

namespace ImageStep

variable {α : Type}

/-- Nothing has happened. -/
theorem refl (k : Kernel) : ImageStep k k := rfl

/-- One step after another. -/
theorem trans {k k' k'' : Kernel} (h : ImageStep k k') (h' : ImageStep k' k'') : ImageStep k k'' := by
  unfold ImageStep at h h'
  rw [h] at h'
  exact h'

instance : IsPreorder Kernel ImageStep where
  refl := refl
  trans _ _ _ := trans

/-- The file system is called. -/
theorem callVfs (f : VfsM α) : Rel ImageStep (callVfs f) := fun _ => rfl

/-- Memory is changed, with a result. -/
theorem callMemory (f : Memory → α × Memory) : Rel ImageStep (callMemory f) := fun _ => rfl

/-- Memory is changed, without a result; another directory may be loaded. -/
theorem onMemory (f : Memory → Memory) : Rel ImageStep (onMemory f) := fun _ => rfl

/-- The scheduler is left alone, if the active directory is. -/
theorem quiet {k k' : Kernel} (h : ImageStep k k') (ha : IsDirectory k.mem.activePageDirectory →
    k'.mem.activePageDirectory = k.mem.activePageDirectory) : Quiet k k' := by
  unfold ImageStep at h
  have hs : k'.toScheduler = { k.toScheduler with mem := k'.mem } := by
    rw [h]
  have hp : k'.ledger = k.ledger := by
    rw [h]
    rfl
  have hv : k.view.Le k'.view := Quiet.view_le (congrArg Prod.fst hp) (by
    intro a hr
    rw [h]
    exact hr)
  refine ⟨?_, ?_, ?_, ha, hp, hv, ?_⟩
  · intro p
    rw [hs]
    exact Kept.refl _
  · intro p
    rw [hs]
    exact .inl rfl
  · rw [hs]
  · intro v v' hv out ho
    refine ho.same ⟨?_, ?_, ?_, ?_, ha ho.active, ?_⟩ hv
    · intro p
      rw [hs]
      exact Kept.refl _
    · intro p
      rw [hs]
    · rw [hs]
    · rw [hs]
    · rw [hs]

end ImageStep

/-- A file is read and its segments are loaded, and nothing else is changed. -/
theorem imageStep_elfLoadFromVfs (path : CString) : Rel ImageStep (elfLoadFromVfs path) := by
  unfold elfLoadFromVfs
  refine Rel.bind (ImageStep.callVfs _) fun r => ?_
  split
  · exact Rel.pure _
  · split
    · exact Rel.pure _
    · exact Rel.bind (ImageStep.callMemory _) fun _ => Rel.pure _

/-- The same with the new directory loaded for a while. -/
theorem imageStep_elfLoadFromVfsInto (cr3 : Word) (path : CString) :
    Rel ImageStep (elfLoadFromVfsInto cr3 path) := by
  unfold elfLoadFromVfsInto
  refine Rel.ite (Rel.pure _) (Rel.get_bind fun k => ?_)
  refine Rel.bind (ImageStep.onMemory _) fun _ => ?_
  refine Rel.bind (imageStep_elfLoadFromVfs path) fun _ => ?_
  exact Rel.bind (ImageStep.onMemory _) fun _ => Rel.pure _

/-- Once the old directory is loaded again, the scheduler has not noticed. -/
theorem quiet_elfLoadFromVfsInto (cr3 : Word) (path : CString) :
    RunsQuietly (elfLoadFromVfsInto cr3 path) := by
  intro k
  refine (imageStep_elfLoadFromVfsInto cr3 path k).quiet fun ha => ?_
  unfold elfLoadFromVfsInto
  rw [run_ite]
  split
  · rfl
  · exact ha.switch _

/-- The page of the stack is mapped and filled, or the new address space is destroyed. -/
theorem quiet_execStack (newCr3 : Word) (vectors : ExecVectors) :
    RunsQuietly (execStack newCr3 vectors) := by
  have hdestroy : RunsQuietly (onMemory (·.pagingDestroyAddressSpace newCr3)) :=
    .onMemory fun m => m.pagingDestroyAddressSpace_active _
  unfold execStack
  refine .bind (.callMemory fun m => m.frameAlloc_active) fun stackPhys => .ite ?_ ?_
  · exact .bind hdestroy fun _ => .pure _
  refine .get_bind fun k => .bind (.ite (.pure _) ?_) fun mapped => .ite ?_ ?_
  · exact .callMemory fun m => m.pagingMapPageInDirectory_active _ _ _ _
  · exact .bind (.onMemory fun m => m.frameRelease_active _) fun _ =>
      .bind hdestroy fun _ => .pure _
  · have hbuild : RunsQuietly (callMemory (·.execBuildUserStack newCr3 vectors execStackPage)) := by
      intro k
      refine ImageStep.quiet rfl fun ha => ?_
      exact k.mem.execBuildUserStack_active ha _ _ _
    refine .bind hbuild fun r => ?_
    split
    · exact .bind hdestroy fun _ => .pure _
    · exact .pure _

/-- A new image is built, or its address space is destroyed; its caller runs in the old one. -/
theorem quiet_execImage (path : CString) (vectors : ExecVectors) :
    RunsQuietly (execImage path vectors) := by
  unfold execImage
  refine .bind (.callMemory fun m => m.pagingCreateAddressSpace_active) fun newCr3 => ?_
  refine .ite (.pure _) (.bind (quiet_elfLoadFromVfsInto _ _) fun r => ?_)
  split
  · exact .bind (.onMemory fun m => m.pagingDestroyAddressSpace_active _) fun _ => .pure _
  · refine .bind (quiet_execStack _ _) fun r => ?_
    split <;> exact .pure _

/-- A block of the heap is taken. -/
theorem quiet_callKmalloc (size : Nat) : RunsQuietly (callKmalloc size) :=
  fun _ => Quiet.of_procs rfl rfl fun _ => id

/-- A block of the heap is given back. -/
theorem quiet_callKfree (ptr : Option Nat) : RunsQuietly (callKfree ptr) :=
  fun _ => Quiet.of_procs rfl rfl fun _ => id

end AgenticOs
