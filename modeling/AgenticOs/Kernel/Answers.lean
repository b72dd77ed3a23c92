import AgenticOs.Kernel.Agreement

/-!
# What a system call answers

A system call serves the process that runs, or it resumes another one because its caller has ended or been
blocked (`Answered`).

* **Rules** (`Answers.bind`, `Answers.get_bind`, `ServesCaller.bind`): they follow the way a call is written;
  what comes first is quiet, and what follows a look at the state may use that its caller is the process that
  runs.
* **Calls that block** (`answers_blockOnPipe`, `answers_blockOnChild`): the caller goes on when nobody else is
  ready.
* **Calls that end or reap** (`answers_syscallExit`, `answers_syscallWait`): a process that has ended is
  destroyed once its pid is read.
* **Calls that build** (`serves_syscallFork`, `serves_syscallExec`): they return to their caller whether they
  fail or not.
* **`SYS_KILL`** (`answered_syscallKill`): a fatal signal is sent to a process that does not sleep, if the
  call is to keep sleepers clean (`Kernel.KillsAwake`).
* **Main result** (`answering_syscallHandle`): the system call of the process that runs, whichever it is.
-/

namespace AgenticOs

open Function Lib Scheduler

variable {awake sleeps : Prop} {k k' : Kernel} {c n : Slot} {frame esp : Word}

/-- A call of process `c` that answers with the stack pointer `esp` to resume: `0` when nobody can
run. Only `c` may have been blocked, if it is a call that may do so (`sleeps`), and no blocked process
has got a fatal signal, provided that the call kills nobody who is (`awake`). -/
structure Answered (awake sleeps : Prop) (k k' : Kernel) (c : Slot) (frame esp : Word) : Prop where
  view : k.view.Le k'.view
  resumes : esp = 0 ∨ Resumes k' c frame esp
  blocked : awake → ∀ p, (k'.procs p).state = .blocked →
    ((k.procs p).state = .blocked ∨ p = c ∧ sleeps) ∧ (k'.procs p).fatalPending = (k.procs p).fatalPending

/-- Work for the running process, which goes on. -/
theorem Served.answered (h : Served k k' c) (hframe : frame ≠ 0) (hring : k.view.ring frame) :
    Answered awake sleeps k k' c frame frame where
  view := h.view
  resumes := .inr ⟨c, h.agrees, hframe, h.view.ring _ hring, .inl ⟨rfl, rfl⟩⟩
  blocked := fun _ p hp => ⟨.inl (h.blocked p hp).1, (h.blocked p hp).2⟩

/-- The answer of a call under a stronger assumption. -/
theorem Answered.mono {awake' : Prop} (h : Answered awake sleeps k k' c frame esp)
    (ha : awake' → awake) : Answered awake' sleeps k k' c frame esp :=
  ⟨h.view, h.resumes, fun hw => h.blocked (ha hw)⟩

/-- A calm step before the answer. -/
theorem Answered.after {k'' : Kernel} (h : Answered awake sleeps k' k'' c frame esp) (hs : Calm k k' c) :
    Answered awake sleeps k k'' c frame esp where
  view := hs.view.trans h.view
  resumes := h.resumes
  blocked := by
    intro ha p hp
    obtain ⟨hb | ⟨rfl, hsleeps⟩, hf⟩ := h.blocked ha p hp
    · exact ⟨.inl (hs.blocked p hb).1, hf.trans (hs.blocked p hb).2⟩
    · exact ⟨.inr ⟨rfl, hsleeps⟩, hf.trans hs.fatal⟩

/-- Quiet steps do not change who is resumed. -/
theorem Resumes.quiet (h : Resumes k c frame esp) (hq : Quiet k k') : Resumes k' c frame esp := by
  obtain ⟨n, hagrees, hne, hring, hesp⟩ := h
  refine ⟨n, (hq.serves n hagrees).agrees, hne, hq.view.ring _ hring, ?_⟩
  rw [(hq.kept n).esp]
  exact hesp

/-- Quiet steps after the answer. -/
theorem Answered.quiet {k'' : Kernel} (h : Answered awake sleeps k k' c frame esp) (hq : Quiet k' k'') :
    Answered awake sleeps k k'' c frame esp where
  view := h.view.trans hq.view
  resumes := h.resumes.imp_right fun hr => hr.quiet hq
  blocked := by
    intro ha p hp
    obtain ⟨hb, hf⟩ := hq.blockedSame p hp
    exact ⟨(h.blocked ha p hb).1, hf.trans (h.blocked ha p hb).2⟩

/-- A switch is an answer of a call that may block its caller. -/
theorem Switched.answered {stopped : ProcessState} (h : Switched k.view k k' c n stopped) (frame : Word)
    (hsleeps : sleeps) :
    Answered awake sleeps k k' c frame (k'.procs n).esp where
  view := h.view ▸ .refl _
  resumes := .inr (h.resumes (h.view ▸ .refl _) c frame)
  blocked := by
    intro _ p hp
    refine ⟨?_, h.fatal p⟩
    have hs := h.state p
    rw [hp] at hs
    split at hs
    · cases hs
    · split at hs
      · exact .inr ⟨‹_›, hsleeps⟩
      · exact .inl hs.symm

/-- Blocking the running process: it goes on when nobody else is ready. -/
theorem blockCurrent_cases (h : Agrees k c) (hframe : frame ≠ 0) (hring : k.view.ring frame) :
    ((k.toScheduler.schedulerBlockCurrent frame).1 = frame ∧
        Served k (k.onScheduler fun s => (s.schedulerBlockCurrent frame).2) c) ∨
      ∃ n, Switched k.view k (k.onScheduler fun s => (s.schedulerBlockCurrent frame).2) c n .blocked ∧
        (k.toScheduler.schedulerBlockCurrent frame).1 =
          ((k.toScheduler.schedulerBlockCurrent frame).2.procs n).esp := by
  rcases hbest : k.findBestReady with _ | n
  · left
    have heq : k.toScheduler.schedulerBlockCurrent frame = _ :=
      h.runs.stoppable.stop_none hframe hbest
    have hruns := h.runs.goOn frame
    have hprocs : (k.toScheduler.schedulerBlockCurrent frame).2 =
        k.toScheduler.setProc c fun p => { Stoppable.saved frame .blocked p with state := .running } := by
      rw [heq]
      unfold Scheduler.stopWithoutNext
      rw [if_pos rfl]
      unfold Scheduler.setProc
      simp only [update_self, update_idem]
    refine ⟨?_, ⟨.refl _, fun p hp => ?_, ?_⟩, ?_, h.pool⟩
    · rw [heq]
      rfl
    · have hpc : p ≠ c := by
        rintro rfl
        have hself := congrArg Process.state ((congrArg (fun s => s.procs p) hprocs).trans
          (setProc_self ..))
        cases hp.symm.trans hself
      have hother := (congrArg (fun s => s.procs p) hprocs).trans (setProc_of_ne hpc _)
      exact ⟨(congrArg Process.state hother).symm.trans hp, congrArg Process.fatalPending hother⟩
    · have hself := (congrArg (fun s => s.procs c) hprocs).trans (setProc_self ..)
      exact (congrArg Process.fatalPending hself).trans rfl
    · show (k.toScheduler.schedulerBlockCurrent frame).2.Runs k.view c
      rw [heq]
      exact hruns
  · right
    obtain ⟨hswitched, hesp⟩ := switched_of_stop h.runs.stoppable h.pool hframe hring
      (.inl rfl) true hbest
    exact ⟨n, hswitched, hesp⟩

/-- A process that is blocked and undoes it when it goes on. -/
theorem blocked_answered (undo : Process → Process) (h : Agrees k c) (hframe : frame ≠ 0)
    (hring : k.view.ring frame) (hk : ∀ q, Kept q (undo q)) (hs : ∀ q, (undo q).state = q.state)
    (r : SyscallResult × Kernel)
    (hr : r = (do
      let resumeEsp ← callScheduler (·.schedulerBlockCurrent frame)
      if resumeEsp = frame then
        modifyProc c undo
        return SyscallResult.reply syscallEagain
      else return { result := syscallSuccess, resumeEsp := some resumeEsp } :
        KernelM SyscallResult) k) :
    Answered True True k r.2 c frame (r.1.resumeEsp.getD frame) := by
  subst hr
  rw [run_bind, run_callScheduler, run_ite]
  dsimp only
  rcases blockCurrent_cases h hframe hring with ⟨hesp, hserved⟩ | ⟨n, hswitched, hesp⟩
  · rw [if_pos hesp, run_bind, run_modifyProc, run_pure]
    exact (hserved.answered hframe hring).quiet (Quiet.setProc hk hs)
  · have hans : Answered True True k _ c frame _ := hswitched.answered frame trivial
    split
    · -- the stack pointer of the next process is the frame itself
      rename_i heq
      rw [run_bind, run_modifyProc, run_pure]
      have hsame : ((k.onScheduler fun s => (s.schedulerBlockCurrent frame).2).procs n).esp = frame :=
        hesp.symm.trans heq
      rw [hsame] at hans
      exact hans.quiet (Quiet.setProc hk hs)
    · rw [run_pure]
      show Answered True True k _ c frame (k.toScheduler.schedulerBlockCurrent frame).1
      rw [hesp]
      exact hans

/-- A call that serves the running process `c`, or resumes another one, or nobody. -/
def Answers (c : Slot) (frame : Word) (x : KernelM SyscallResult) : Prop :=
  ∀ k, Agrees k c → frame ≠ 0 → k.view.ring frame →
    Answered True True k (x k).2 c frame ((x k).1.resumeEsp.getD frame)

namespace Answers

variable {α : Type}

/-- A call that replies at once. -/
theorem reply (result : Word) :
    Answers c frame (return SyscallResult.reply result : KernelM SyscallResult) :=
  fun k h hframe hring => Served.answered ⟨.refl k c, h⟩ hframe hring

/-- A quiet call, and what follows it. -/
theorem bind {x : KernelM α} {f : α → KernelM SyscallResult} (hx : RunsQuietly x)
    (hf : ∀ a, Answers c frame (f a)) : Answers c frame (x >>= f) := by
  intro k h hframe hring
  have hs := (hx k).serves c h
  exact (hf _ _ hs.agrees hframe (hs.view.ring _ hring)).after hs.toCalm

/-- What follows a look at the state may use that `c` is the process that runs. -/
theorem get_bind {f : Kernel → KernelM SyscallResult}
    (hf : ∀ k, k.processGetCurrent = some c → Answers c frame (f k)) :
    Answers c frame (get >>= f) :=
  fun k h hframe hring => hf k h.processGetCurrent k h hframe hring

/-- Both branches answer. -/
theorem ite {p : Prop} [Decidable p] {x y : KernelM SyscallResult} (hx : Answers c frame x)
    (hy : Answers c frame y) : Answers c frame (if p then x else y) := by
  split
  · exact hx
  · exact hy

/-- A call that always returns to its caller. -/
theorem quiet {x : KernelM α} (hx : RunsQuietly x) (f : α → Word) :
    Answers c frame (do
      let a ← x
      return SyscallResult.reply (f a)) := .bind hx fun _ => .reply _

end Answers

/-- A caller that waits for a pipe. -/
theorem answers_blockOnPipe (reason : BlockReason) (fd buffer count : Word) :
    Answers c frame (blockOnPipe c frame reason fd buffer count) := by
  unfold blockOnPipe
  refine .bind (.modifyProc (fun _ => ⟨rfl, rfl, rfl, rfl, rfl, id⟩) fun _ => rfl) fun _ => ?_
  intro k h hframe hring
  exact blocked_answered (fun p => { p with blockReason := .none }) h hframe hring
    (fun _ => ⟨rfl, rfl, rfl, rfl, rfl, id⟩) (fun _ => rfl) _ rfl

/-- A caller that waits for a child. -/
theorem answers_blockOnChild : Answers c frame (blockOnChild c frame) := by
  unfold blockOnChild
  intro k h hframe hring
  exact blocked_answered Process.processCancelWait h hframe hring
    (fun _ => ⟨rfl, rfl, rfl, rfl, rfl, id⟩) (fun _ => rfl) _ rfl

/-- The descriptor of the current process is one of the process that runs. -/
theorem currentFd_some {fd : Word} {proc : Slot} {d : FdKind × Int}
    (hc : k.processGetCurrent = some c) (h : k.currentFd fd = some (proc, d)) : proc = c := by
  unfold Kernel.currentFd at h
  rw [hc] at h
  dsimp only at h
  obtain ⟨d', -, heq⟩ := Option.map_eq_some_iff.mp h
  exact (Prod.mk.inj heq).1.symm

/-- **`SYS_READ`** -/
theorem answers_syscallRead (fd buffer count callerCs : Word) :
    Answers c frame (syscallRead fd buffer count callerCs frame) := by
  unfold syscallRead
  refine .ite (.reply _) (.bind (.ite (.pure _) (quiet_isUserPointerWritable _ _)) fun w => ?_)
  refine .ite (.reply _) (.get_bind fun k hc => ?_)
  split
  · exact .reply _
  · rename_i current kind handle hfd
    obtain rfl := currentFd_some hc hfd
    refine .ite (.quiet (quiet_kernelVfsRead _ _ _) id) (.ite (.reply _) ?_)
    refine .bind (quiet_kernelPipeRead _ _ _) fun status => .ite (.reply _) ?_
    exact answers_blockOnPipe _ _ _ _

/-- **`SYS_WRITE`** -/
theorem answers_syscallWrite (fd buffer count callerCs : Word) :
    Answers c frame (syscallWrite fd buffer count callerCs frame) := by
  unfold syscallWrite
  refine .ite (.reply _) (.get_bind fun k hc => .ite (.reply _) ?_)
  split
  · exact .reply _
  · rename_i current kind handle hfd
    obtain rfl := currentFd_some hc hfd
    refine .ite (.quiet (quiet_kernelVfsWrite _ _ _) id) (.ite (.reply _) ?_)
    refine .bind (quiet_kernelPipeWrite _ _ _) fun status => .ite (.reply _) (.ite (.reply _) ?_)
    exact answers_blockOnPipe _ _ _ _

/-! ### Calls that end or reap a process -/

/-- **`SYS_EXIT`** -/
theorem answers_syscallExit (exitCode callerCs : Word) :
    Answers c frame (syscallExit exitCode callerCs frame) := by
  unfold syscallExit
  refine .ite (.reply _) (.get_bind fun k hc => ?_)
  rw [hc]
  dsimp only
  intro k h hframe hring
  obtain ⟨hleft, hnext⟩ := dieOfFault_left h hframe hring exitCode
  refine ⟨hleft.view, ?_, fun _ p hp => ?_⟩
  · rcases hnext with ⟨-, hzero⟩ | ⟨n, -, hn⟩
    · exact .inl hzero
    · exact .inr hn.resumes
  · exact ⟨.inl (hleft.blocked hp).1, hleft.fatal p (hleft.blocked hp).2⟩

/-- A process that has ended is destroyed once its pid is read. -/
theorem reapChild_answered {child : Slot} (h : Agrees k c) (hframe : frame ≠ 0)
    (hring : k.view.ring frame) (hz : (k.procs child).state = .zombie) :
    Answered True True k (reapChild child k).2 c frame ((reapChild child k).1.resumeEsp.getD frame) := by
  unfold reapChild
  rw [run_bind, run_modifyProc, run_bind, run_getProc, run_bind, run_pure]
  dsimp only
  have hwaited : Quiet k (k.setProc child fun p => { p with waited := true }) :=
    Quiet.setProc (fun _ => ⟨rfl, rfl, rfl, rfl, rfl, id⟩) fun _ => rfl
  have hz' : ((k.setProc child fun p => { p with waited := true }).procs child).state = .zombie := by
    rw [Kernel.setProc_self]
    exact hz
  generalize k.setProc child _ = k₁ at hwaited hz'
  exact (((hwaited.serves c).trans (serves_processDestroy hz' c)) h).answered hframe hring

/-- A child that is found has ended. -/
theorem zombie_of_findExitedChild {parentPid targetPid : Nat} {child : Slot}
    (h : k.processFindExitedChildByPid parentPid targetPid = some child) :
    (k.procs child).state = .zombie := by
  unfold Kernel.processFindExitedChildByPid at h
  split at h
  · cases h
  · have := List.find?_some h
    simp only [Bool.and_eq_true, decide_eq_true_eq] at this
    exact this.1.1.1.2

/-- What a call does first is quiet, and then it reaps a process that has ended before. -/
theorem reap_answered {α : Type} {x : KernelM α} {f : α → KernelM SyscallResult} {child : Slot}
    (hx : RunsQuietly x) (hz : (k.procs child).state = .zombie)
    (hf : ∀ a, f a = reapChild child ∨ Answers c frame (f a)) (h : Agrees k c) (hframe : frame ≠ 0)
    (hring : k.view.ring frame) :
    Answered True True k ((x >>= f) k).2 c frame (((x >>= f) k).1.resumeEsp.getD frame) := by
  have hq := hx k
  have hs := hq.serves c h
  rw [run_bind]
  generalize x k = r at hq hs
  have hz' : (r.2.procs child).state = .zombie := by
    rw [hq.state_eq (by rw [hz]; decide), hz]
  refine Answered.after ?_ hs.toCalm
  rcases hf r.1 with heq | ha
  · rw [heq]
    exact reapChild_answered hs.agrees hframe (hs.view.ring _ hring) hz'
  · exact ha r.2 hs.agrees hframe (hs.view.ring _ hring)

/-- **`SYS_WAIT`** -/
theorem answers_syscallWait (statusPtr callerCs : Word) :
    Answers c frame (syscallWait statusPtr callerCs frame) := by
  unfold syscallWait
  refine .ite (.reply _) (.get_bind fun k hc => ?_)
  rw [hc]
  refine .bind (.ite (.pure _) (quiet_isUserPointerWritable _ _)) fun w => .ite (.reply _) ?_
  intro k h hframe hring
  rw [run_bind, run_get]
  dsimp only
  rcases hfind : k.processFindExitedChild (k.procs c).pid with _ | child
  · have hwait : Answers c frame (do modifyProc c (·.processBeginWait statusPtr); blockOnChild c frame) :=
      .bind (.modifyProc (fun _ => ⟨rfl, rfl, rfl, rfl, rfl, id⟩) fun _ => rfl) fun _ => answers_blockOnChild
    exact Answers.ite (.reply _) hwait k h hframe hring
  · exact reap_answered (.runIf (.modify fun _ => Quiet.storeBytes _ _ _))
      (zombie_of_findExitedChild hfind) (fun _ => .inl rfl) h hframe hring

/-- **`SYS_WAITPID`** -/
theorem answers_syscallWaitpid (targetPid statusPtr options callerCs : Word) :
    Answers c frame (syscallWaitpid targetPid statusPtr options callerCs frame) := by
  unfold syscallWaitpid
  refine .ite (.reply _) (.get_bind fun k hc => ?_)
  rw [hc]
  refine .ite (.reply _) (.bind (.ite (.pure _) (quiet_isUserPointerWritable _ _)) fun w => ?_)
  refine .ite (.reply _) ?_
  intro k h hframe hring
  rw [run_bind, run_get]
  dsimp only
  rcases hfind : k.processFindExitedChildByPid (k.procs c).pid targetPid.toNat with _ | child
  · have hmark : Answers c frame (do
        modifyProc c fun p => { p with waitIsWaitpid := true }
        blockOnChild c frame) :=
      .bind (.modifyProc (fun _ => ⟨rfl, rfl, rfl, rfl, rfl, id⟩) fun _ => rfl) fun _ => answers_blockOnChild
    have hwait : Answers c frame (do
        modifyProc c (·.processBeginWaitpid statusPtr targetPid.toNat)
        modifyProc c fun p => { p with waitIsWaitpid := true }
        blockOnChild c frame) :=
      .bind (.modifyProc (fun _ => ⟨rfl, rfl, rfl, rfl, rfl, id⟩) fun _ => rfl) fun _ => hmark
    exact Answers.ite (.reply _) (.ite (.reply _) hwait) k h hframe hring
  · refine reap_answered (.ite (.pure _) (quiet_copyToUser _ _)) (zombie_of_findExitedChild hfind)
      (fun status => ?_) h hframe hring
    by_cases hs : status ≠ uaccessSuccess
    · rw [if_pos hs]
      exact .inr (.reply _)
    · rw [if_neg hs]
      exact .inl rfl

/-! ### Calls that change other entries of the table -/

/-- A call that keeps its caller running. -/
def ServesCaller {α : Type} (c : Slot) (frame : Word) (x : KernelM α) : Prop :=
  ∀ k, Agrees k c → k.view.ring frame → Served k (x k).2 c

namespace ServesCaller

variable {α β : Type}

/-- A quiet call, and what follows it. -/
theorem bind {x : KernelM α} {f : α → KernelM β} (hx : RunsQuietly x)
    (hf : ∀ a, ServesCaller c frame (f a)) : ServesCaller c frame (x >>= f) := by
  intro k h hring
  have hs := (hx k).serves c h
  have hs' := hf (x k).1 (x k).2 hs.agrees (hs.view.ring _ hring)
  exact ⟨hs.toCalm.trans hs'.toCalm, hs'.agrees⟩

/-- Quiet calls keep their caller running. -/
theorem quiet {x : KernelM α} (hx : RunsQuietly x) : ServesCaller c frame x :=
  fun k h _ => (hx k).serves c h

/-- A value. -/
theorem pure (a : α) : ServesCaller c frame (Pure.pure a : KernelM α) := .quiet (.pure a)

/-- What follows a look at the state may use that `c` is the process that runs. -/
theorem get_bind {f : Kernel → KernelM β}
    (hf : ∀ k, k.processGetCurrent = some c → ServesCaller c frame (f k)) :
    ServesCaller c frame (get >>= f) := fun k h hring => hf k h.processGetCurrent k h hring

/-- Both branches keep the caller running. -/
theorem ite {p : Prop} [Decidable p] {x y : KernelM α} (hx : ServesCaller c frame x)
    (hy : ServesCaller c frame y) : ServesCaller c frame (if p then x else y) := by
  split
  · exact hx
  · exact hy

end ServesCaller

/-- **`SYS_FORK`** -/
theorem serves_syscallFork (callerCs : Word) :
    ServesCaller c frame (syscallFork callerCs frame) := by
  intro k h hring
  unfold syscallFork
  rw [run_ite]
  split
  · exact ⟨.refl k c, h⟩
  rw [run_bind, run_get]
  dsimp only
  rw [h.processGetCurrent]
  dsimp only
  rw [run_bind]
  rcases processFork_forking h hring with ⟨hnone, hserved⟩ | ⟨child, hsome, hforking, hcalm⟩
  · rw [hnone]
    exact hserved
  · rw [hsome]
    dsimp only
    rw [run_bind, run_onScheduler, run_bind, run_getProc, run_pure]
    dsimp only
    refine ⟨hcalm.trans ?_, hforking.add⟩
    have hkept := fun p => enqueue_kept (processFork c frame k).2.toScheduler child p
    exact ⟨.refl _, fun p hp => ⟨(hkept p).2.symm.trans hp, (hkept p).1.fatal⟩, (hkept c).1.fatal⟩

/-- The address space of a new image is a new one. -/
theorem execImage_directory {path : CString} {vectors : ExecVectors} {newCr3 entry sp : Word}
    (h : (execImage path vectors k).1 = .ok (newCr3, entry, sp)) : IsDirectory newCr3 := by
  unfold execImage at h
  rw [run_bind, run_callMemory] at h
  dsimp only at h
  have haligned := k.mem.pagingCreateAddressSpace_aligned
  generalize k.mem.pagingCreateAddressSpace = r at h haligned
  rw [run_ite] at h
  split at h
  · cases h
  · rename_i hne
    rw [run_bind] at h
    generalize elfLoadFromVfsInto r.1 path (k.withMem r.2) = loaded at h
    rcases loaded with ⟨_ | info, k₁⟩
    · cases h
    · dsimp only at h
      rw [run_bind] at h
      generalize execStack r.1 vectors k₁ = built at h
      rcases built with ⟨_ | newSp, k₂⟩
      · cases h
      · obtain ⟨rfl, -⟩ := Prod.mk.inj (Except.ok.inj h)
        exact ⟨hne, haligned⟩

/-- The running process gets another address space, which is loaded. -/
theorem Served.load (h : Agrees k c) {f : Process → Process} {m : Memory}
    (hs : (f (k.procs c)).state = .running) (hcr3 : IsDirectory (f (k.procs c)).cr3)
    (hstack : (f (k.procs c)).kernelStack = (k.procs c).kernelStack)
    (hfatal : (f (k.procs c)).fatalPending = (k.procs c).fatalPending)
    (hm : m.activePageDirectory = (f (k.procs c)).cr3) :
    Served k ((k.setProc c f).withMem m) c := by
  refine ⟨⟨.refl _, fun p hp => ?_, ?_⟩, h.runs.load hs hcr3 hstack hm, h.pool⟩
  · have hpc : p ≠ c := by
      rintro rfl
      have hself : ((k.setProc p f).procs p).state = .blocked := hp
      rw [Kernel.setProc_self, hs] at hself
      cases hself
    have hother : ((k.setProc c f).withMem m).procs p = k.procs p := k.setProc_of_ne hpc f
    rw [hother] at hp ⊢
    exact ⟨hp, rfl⟩
  · have hself : ((k.setProc c f).withMem m).procs c = f (k.procs c) := k.setProc_self c f
    rw [hself]
    exact hfatal

/-- The new image replaces the old one. -/
theorem serves_execCommit {newCr3 : Word} (hd : IsDirectory newCr3) (sp entry : Word)
    (vectors : Option Nat) : ServesCaller c frame (execCommit c frame newCr3 sp entry vectors) := by
  intro k h hring
  have hs := (quiet_processFdCloseOnExec c k).serves c h
  unfold execCommit
  rw [run_bind, run_getProc, run_bind]
  generalize (processFdCloseOnExec c k).2 = k₁ at hs
  rw [run_bind, run_modifyProc, run_bind, callKfree, run_modify, run_bind, run_onMemory, run_bind,
    run_onMemory, run_modify]
  dsimp only
  have hheap : Unseen k₁ { k₁ with heap := k₁.heap.kfree vectors } := ⟨rfl, rfl, rfl⟩
  have hs₂ := hheap.serves c hs.agrees
  have hload := Served.load (m := k₁.mem.pagingSwitchDirectory newCr3) (f := fun p =>
    { p with
      cr3 := newCr3
      heapStart := processHeapStart
      heapEnd := processHeapStart
      interruptFrame := true }) hs₂.agrees ((hs₂.agrees.runs.running c).mpr rfl) hd rfl rfl
    (hd.switch _)
  have hcalm := (hs.toCalm.trans hs₂.toCalm).trans hload.toCalm
  -- the old address space goes away, and the frame is that of the new image
  have hrest (k₃ : Kernel) (g : InterruptFrame → InterruptFrame)
      (hg : isRing3 (g (k₃.frameAt frame)).cs = true) :
      Quiet k₃ ((k₃.withMem (k₃.mem.pagingDestroyAddressSpace (k.procs c).cr3)).setFrame frame g) :=
    (Quiet.withMem (k₃.mem.pagingDestroyAddressSpace_active _)).trans (Quiet.setFrame fun _ => hg)
  refine hcalm.served ((hrest _ _ ?_).serves c hload.agrees)
  show isRing3 0x1B = true
  decide

/-- **`SYS_EXEC`** -/
theorem serves_syscallExec (pathPtr argvPtr envpPtr callerCs : Word) :
    ServesCaller c frame (syscallExec pathPtr argvPtr envpPtr callerCs frame) := by
  unfold syscallExec
  refine .ite (.pure _) (.get_bind fun k hc => ?_)
  rw [hc]
  dsimp only
  split
  · exact .pure _
  rename_i path _
  refine .bind (quiet_callKmalloc _) fun allocated => ?_
  rcases allocated with _ | block
  · exact .pure _
  refine .get_bind fun k _ => ?_
  split
  · exact .bind (quiet_callKfree _) fun _ => .pure _
  split
  · exact .bind (quiet_callKfree _) fun _ => .pure _
  rename_i vectors _
  intro k h hring
  have hs := (quiet_execImage path vectors k).serves c h
  have hdirectory (cr3 entry sp : Word) (hok : (execImage path vectors k).1 = .ok (cr3, entry, sp)) :
      IsDirectory cr3 := execImage_directory hok
  rw [run_bind]
  generalize execImage path vectors k = r at hs hdirectory
  obtain ⟨status | ⟨newCr3, entry, sp⟩, k₁⟩ := r
  · refine hs.toCalm.served ?_
    exact (ServesCaller.quiet (.bind (quiet_callKfree _) fun _ => .pure _)) _ hs.agrees
      (hs.view.ring _ hring)
  · refine hs.toCalm.served ?_
    dsimp only
    rw [run_bind, run_pure]
    dsimp only
    exact serves_execCommit (hdirectory newCr3 entry sp rfl) sp entry (some block) k₁ hs.agrees
      (hs.view.ring _ hring)

/-- `SIGKILL` or `SIGTERM`. -/
def isFatal (signum : Nat) : Prop := signum = sigKill ∨ signum = sigTerm

/-- A process is sent a signal; a fatal one only if it does not sleep. -/
theorem answered_processSendSignal {target : Slot} {signum : Nat} (h : Agrees k c)
    (hframe : frame ≠ 0) (hring : k.view.ring frame) :
    Answered (isFatal signum → (k.procs target).state ≠ .blocked) True k
      (processSendSignal target signum k).2 c frame frame := by
  unfold processSendSignal
  rw [run_bind, run_getProc, run_ite]
  split
  · exact (Served.answered ⟨.refl k c, h⟩ hframe hring).mono fun _ => trivial
  rename_i hvalid
  rw [run_bind, run_modifyProc, run_pure]
  dsimp only
  refine ⟨.refl _, .inr ⟨c, ⟨h.runs.signal target _, h.pool⟩, hframe, hring, .inl ⟨rfl, rfl⟩⟩,
    fun hawake p hp => ?_⟩
  by_cases hpt : p = target
  · subst hpt
    rw [Kernel.setProc_self] at hp ⊢
    have hb : (k.procs p).state = .blocked := hp
    refine ⟨.inl hb, ?_⟩
    have hsig : signum = sigChld := by
      by_contra hne
      have hnf : ¬isFatal signum := fun hf => hawake hf hb
      exact hvalid (.inl ⟨fun he => hnf (.inl he), fun he => hnf (.inr he), hne⟩)
    rw [hsig]
    exact fatalPending_congr (fatalSignals_sigChld _)
  · rw [k.setProc_of_ne hpt] at hp ⊢
    exact ⟨.inl hp, rfl⟩

/-- **`SYS_KILL`** -/
theorem answered_syscallKill {pid signum : Word} (callerCs : Word) (h : Agrees k c)
    (hframe : frame ≠ 0) (hring : k.view.ring frame) :
    Answered (isFatal signum.toNat → ∀ target, k.processGetByPid pid.toNat = some target →
      (k.procs target).state ≠ .blocked) True k (syscallKill pid signum callerCs k).2 c frame frame := by
  have hstay : Answered True True k k c frame frame := Served.answered ⟨.refl k c, h⟩ hframe hring
  unfold syscallKill
  rw [run_ite]
  split
  · exact hstay.mono fun _ => trivial
  rw [run_bind, run_get]
  dsimp only
  rcases hfind : k.processGetByPid pid.toNat with _ | target
  · exact hstay.mono fun _ => trivial
  dsimp only
  rw [run_ite]
  split
  · exact hstay.mono fun _ => trivial
  · rw [run_bind, run_pure]
    exact (answered_processSendSignal h hframe hring).mono fun ha hf => ha hf target rfl

/-! ### Every call -/

/-- The system call of `frame`, if it is `SYS_KILL`, sends no fatal signal to a process that sleeps. -/
def Kernel.KillsAwake (k : Kernel) (frame : Word) : Prop :=
  (k.frameAt frame).eax = 21 → isFatal (k.frameAt frame).ecx.toNat →
    ∀ target, k.processGetByPid (k.frameAt frame).ebx.toNat = some target →
      (k.procs target).state ≠ .blocked

/-- A system call that answers. -/
def Answering (c : Slot) (frame : Word) (k : Kernel) (r : Option SyscallResult × Kernel) : Prop :=
  ∀ answer, r.1 = some answer →
    Answered (k.KillsAwake frame) True k r.2 c frame (answer.resumeEsp.getD frame)

/-- A call that always returns to its caller, with its answer in the frame. -/
theorem answering_replying {call : KernelM Word} (h : Agrees k c) (hframe : frame ≠ 0)
    (hring : k.view.ring frame) (hcall : ServesCaller c frame call) :
    Answering c frame k (replying call k) := by
  rintro answer hanswer
  obtain rfl := Option.some.inj hanswer
  exact (hcall k h hring).answered hframe hring

/-- A call that may resume another process. -/
theorem answering_switching {call : KernelM SyscallResult} (h : Agrees k c) (hframe : frame ≠ 0)
    (hring : k.view.ring frame) (hcall : Answers c frame call) :
    Answering c frame k (switching call k) := by
  rintro answer hanswer
  obtain rfl := Option.some.inj hanswer
  exact (hcall k h hframe hring).mono fun _ => trivial

/-- The system call of the process that runs. -/
theorem answering_syscallHandle (h : Agrees k c) (hframe : frame ≠ 0) (hring : k.view.ring frame) :
    Answering c frame k (syscallHandle frame k) := by
  have hserve {call : KernelM Word} (hcall : RunsQuietly call) :
      Answering c frame k (replying call k) :=
    answering_replying h hframe hring (.quiet hcall)
  have hswitch {call : KernelM SyscallResult} (hcall : Answers c frame call) :
      Answering c frame k (switching call k) := answering_switching h hframe hring hcall
  have hcs : isRing3 (k.frameAt frame).cs = true := hring
  unfold syscallHandle
  rw [run_bind, run_get]
  dsimp only
  rw [if_pos hcs, if_pos hcs]
  generalize heax : (k.frameAt frame).eax.toNat = number
  split
  · exact hserve (quiet_syscallPuts _ _)
  · have hq := quiet_syscallGetchar (k.frameAt frame).cs k
    rw [run_bind, run_pure]
    generalize syscallGetchar (k.frameAt frame).cs k = r at hq
    rintro answer hanswer
    obtain ⟨w, -, rfl⟩ := Option.map_eq_some_iff.mp hanswer
    exact (hq.serves c h).answered hframe hring
  · exact hserve (.pure _)
  · exact hserve (quiet_syscallUptime _)
  · exact hserve (.pure _)
  · exact hserve (quiet_syscallOpen _ _ _)
  · exact hswitch (answers_syscallRead _ _ _ _)
  · exact hswitch (answers_syscallWrite _ _ _ _)
  · exact hserve (quiet_syscallClose _ _)
  · exact hserve (quiet_syscallStat _ _ _)
  · exact hserve (quiet_currentField _ _ _)
  · exact hswitch (answers_syscallExit _ _)
  · exact hswitch (answers_syscallWait _ _)
  · exact answering_replying h hframe hring (serves_syscallFork _)
  · exact answering_replying h hframe hring (serves_syscallExec _ _ _ _)
  · exact hserve (quiet_syscallBrk _ _)
  · exact hswitch (answers_syscallWaitpid _ _ _ _)
  · rename_i heax
    rintro answer hanswer
    obtain rfl := Option.some.inj hanswer
    refine (answered_syscallKill (k.frameAt frame).cs h hframe hring).mono fun ha => ha ?_
    exact BitVec.eq_of_toNat_eq heax
  · exact hserve (quiet_currentField _ _ _)
  · exact hserve (quiet_syscallPipe _ _ _)
  · exact hserve (.pure _)

end AgenticOs
