import AgenticOs.Kernel.Quiet
import AgenticOs.Lib.Allotment

/-!
# The bookkeeping of the process table

`process_count`, the kernel stacks and `stack_free_bitmap` under creation, fork, exit and destruction.

* **Steps** (`TableStep`): what a call can do to the table: nothing, hand out a stack and a pid to a slot that
  was free, or free a slot with its stack. Every call is one of them (`TableCall.step`); a failed fork is the
  first (`abandonChild`).
* **Invariant** (`Bookkeeping`): the number of slots that are not `DEAD` is the count, each has a stack of its
  own, and the bitmap marks those that are free. Each of the three steps keeps it (`Bookkeeping.step`).
* **Room** (`Bookkeeping.room`, `createProcess_ne_none`): with a slot that is `DEAD`, neither a slot nor a
  stack is lacking, and creation does not fail.
* **Main result** (`process_table_bookkeeping`): after every sequence of calls from `process_init` on, with
  anything in between that leaves the table alone.
-/

namespace AgenticOs

open Function Lib

/-- The pid and the kernel stack of a process that is not `DEAD`. -/
def Process.entry (p : Process) : Option (Nat × Word) :=
  if p.state = .dead then none else some (p.pid, p.kernelStack)

/-- Only a `DEAD` process has no entry. -/
theorem Process.entry_eq_none {p : Process} : p.entry = none ↔ p.state = .dead := by
  unfold Process.entry
  split <;> simp_all

/-- The entry of a process that is not `DEAD`. -/
theorem Process.entry_eq_some {p : Process} {e : Nat × Word} :
    p.entry = some e ↔ p.state ≠ .dead ∧ (p.pid, p.kernelStack) = e := by
  unfold Process.entry
  split <;> simp_all

namespace Kernel

variable (k : Kernel)

/-- What the table says of a slot. -/
def entry (p : Slot) : Option (Nat × Word) := (k.procs p).entry

/-- The slot is not `DEAD`. -/
def Alive (p : Slot) : Prop := (k.procs p).state ≠ .dead

instance (p : Slot) : Decidable (k.Alive p) := inferInstanceAs (Decidable (_ ≠ _))

/-- The number of slots that are not `DEAD`. -/
def aliveCount : Nat := (Finset.univ.filter fun p => k.Alive p).card

/-- The base of a slot of the pool. -/
def stackBase (i : Fin stackSlots) : Word := k.stackPool + BitVec.ofNat 32 (i * (stackSlotSize * 4))

end Kernel

/-! ### Calls -/

/-- The table and the variables beside it are the same; everything else may have changed. -/
def SameTable (k k' : Kernel) : Prop := k'.entry = k.entry ∧ k'.ledger = k.ledger

/-- The calls that change the table, and anything that leaves it alone. -/
inductive TableCall
  | create (isUser : Bool)
  | createPreemptive
  | fork (parent : Slot) (parentFrame : Word)
  | markExit (proc : Slot) (exitCode : Word)
  | destroy (proc : Slot)
  | rest (f : Kernel → Kernel) (same : ∀ k, SameTable k (f k))

/-- Makes the call; the process that it created. -/
def TableCall.run : TableCall → KernelM (Option Slot)
  | create isUser => processCreate isUser
  | createPreemptive => processCreatePreemptive
  | fork parent parentFrame => processFork parent parentFrame
  | markExit proc exitCode => do
    processMarkExit proc exitCode
    return none
  | destroy proc => do
    processDestroy proc
    return none
  | rest f _ => do
    modify f
    return none

/-- The kernel after a sequence of calls. -/
def afterCalls (k : Kernel) (calls : List TableCall) : Kernel :=
  calls.foldl (fun k call => (call.run k).2) k

/-! ### What a call does -/

/-- What a call that creates `created` does to the table. -/
inductive TableStep (k k' : Kernel) : Option Slot → Prop
  | same (hentry : k'.entry = k.entry)
      (hledger : k'.ledger = (k.stackPool, k.stackFreeBitmap, k.processCount, k'.nextPid))
      (hpid : k'.nextPid = k.nextPid ∨ k'.nextPid = (k.nextPid + 1) % wordSize) : TableStep k k' none
  | created (p : Slot) (i : Fin stackSlots) (hfree : k.entry p = none)
      (hbit : k.stackFreeBitmap i = true)
      (hentry : k'.entry = update k.entry p (some (k.nextPid, k.stackBase i)))
      (hledger : k'.ledger = (k.stackPool, update k.stackFreeBitmap i false,
        (k.processCount + 1) % wordSize, (k.nextPid + 1) % wordSize)) : TableStep k k' (some p)
  | destroyed (p : Slot) (e : Nat × Word) (hlive : k.entry p = some e)
      (hentry : k'.entry = update k.entry p none)
      (hledger : k'.ledger = (k.stackPool, (k.freeStack e.2).stackFreeBitmap, k.processCount - 1,
        k.nextPid)) : TableStep k k' none

variable {k k' : Kernel}

namespace SameTable

/-- Nothing has happened. -/
theorem refl (k : Kernel) : SameTable k k := ⟨rfl, rfl⟩

/-- Two such steps after one another. -/
theorem trans {k'' : Kernel} (h : SameTable k k') (h' : SameTable k' k'') : SameTable k k'' :=
  ⟨h'.1.trans h.1, h'.2.trans h.2⟩

/-- A call that leaves the table alone is the first kind of step. -/
theorem step (h : SameTable k k') : TableStep k k' none :=
  .same h.1 (h.2.trans (by rw [show k'.nextPid = k.nextPid from
    congrArg (fun l => l.2.2.2) h.2]; rfl)) (.inl (congrArg (fun l => l.2.2.2) h.2))

end SameTable

/-- What is quiet leaves the table alone. -/
theorem Quiet.sameTable (h : Quiet k k') : SameTable k k' := by
  refine ⟨funext fun p => ?_, h.ledger⟩
  unfold Kernel.entry Process.entry
  rw [(h.kept p).pid, (h.kept p).kernelStack]
  rcases h.state p with hs | ⟨hb, hr⟩
  · rw [hs]
  · rw [hb, hr, if_neg (by decide), if_neg (by decide)]

/-- One process has another entry. -/
@[simp] theorem entry_setProc (k : Kernel) (p : Slot) (f : Process → Process) :
    (k.setProc p f).entry = update k.entry p (f (k.procs p)).entry := by
  funext q
  by_cases hq : q = p
  · subst hq
    rw [update_self]
    exact congrArg Process.entry (k.setProc_self q f)
  · rw [update_of_ne hq]
    exact congrArg Process.entry (k.setProc_of_ne hq f)

/-- A process whose pid, stack and `DEAD`-ness stay. -/
theorem SameTable.setProc {p : Slot} {f : Process → Process}
    (h : (f (k.procs p)).entry = (k.procs p).entry) : SameTable k (k.setProc p f) := by
  refine ⟨?_, rfl⟩
  rw [entry_setProc, h]
  exact update_eq_self p k.entry

/-! ### Kernel stacks -/

/-- The slots of the pool lie one after another, a page each. -/
theorem stackBase_toNat (hpool : StackPool k.stackPool) (i : Fin stackSlots) :
    (k.stackBase i).toNat = k.stackPool.toNat + i * 4096 := by
  have hi := i.isLt
  unfold StackPool at hpool
  unfold Kernel.stackBase
  simp only [stackSlots, stackSlotSize, wordSize, BitVec.toNat_add, BitVec.toNat_ofNat] at *
  omega

/-- No slot of the pool is at `NULL`. -/
theorem stackBase_ne_zero (hpool : StackPool k.stackPool) (i : Fin stackSlots) :
    k.stackBase i ≠ 0 := by
  intro h
  have := stackBase_toNat hpool i
  rw [h] at this
  unfold StackPool at hpool
  simp at this
  omega

/-- Slots of the pool are told apart by their addresses. -/
theorem stackBase_inj (hpool : StackPool k.stackPool) {i j : Fin stackSlots}
    (h : k.stackBase i = k.stackBase j) : i = j := by
  have hi := stackBase_toNat hpool i
  rw [h, stackBase_toNat hpool j] at hi
  omega

/-- `free_stack` of a stack of the pool. -/
theorem freeStack_stackBase (hpool : StackPool k.stackPool) (i : Fin stackSlots) :
    k.freeStack (k.stackBase i) = { k with stackFreeBitmap := update k.stackFreeBitmap i true } := by
  have hi := i.isLt
  have hslot : (k.stackBase i - k.stackPool).toNat / 4 / stackSlotSize = i := by
    have hbase := stackBase_toNat hpool i
    unfold StackPool at hpool
    rw [BitVec.toNat_sub, hbase]
    simp only [stackSlots, stackSlotSize, wordSize] at *
    omega
  unfold Kernel.freeStack
  rw [if_neg (stackBase_ne_zero hpool i)]
  dsimp only
  rw [dif_pos (by rw [hslot]; exact hi)]
  simp only [hslot]

/-- `free_stack` depends on the pool and the bitmap alone, and changes only the bitmap. -/
theorem freeStack_eq (k' : Kernel) (hpool : k'.stackPool = k.stackPool)
    (hbits : k'.stackFreeBitmap = k.stackFreeBitmap) (stack : Word) :
    k'.freeStack stack = { k' with stackFreeBitmap := (k.freeStack stack).stackFreeBitmap } := by
  unfold Kernel.freeStack
  split
  · rw [← hbits]
  · dsimp only
    rw [hpool]
    split
    · rw [hbits]
    · rw [← hbits, ← hpool]

/-- `allocate_stack` finds no free slot, or hands one out. -/
theorem allocateStack_cases (k : Kernel) :
    (k.allocateStack = (0, k) ∧ ∀ i, k.stackFreeBitmap i = false) ∨
      ∃ i, k.stackFreeBitmap i = true ∧ k.allocateStack =
        (k.stackBase i, { k with stackFreeBitmap := update k.stackFreeBitmap i false }) := by
  unfold Kernel.allocateStack
  rcases hf : (List.finRange stackSlots).find? k.stackFreeBitmap with _ | i
  · refine .inl ⟨rfl, fun i => ?_⟩
    simpa using List.find?_eq_none.mp hf i (List.mem_finRange i)
  · exact .inr ⟨i, List.find?_some hf, rfl⟩

/-- What the bookkeeping says beside the table, field by field. -/
theorem ledger_eq {pool : Word} {bitmap : Fin stackSlots → Bool} {count next : Nat} :
    k.ledger = (pool, bitmap, count, next) ↔
      k.stackPool = pool ∧ k.stackFreeBitmap = bitmap ∧ k.processCount = count ∧ k.nextPid = next := by
  simp [Kernel.ledger]

/-- A slot that is found is `DEAD`. -/
theorem findDead_some {p : Slot} (h : k.findDead = some p) : k.entry p = none := by
  have := List.find?_some h
  exact Process.entry_eq_none.mpr (by simpa using this)

/-! ### Creation and fork -/

/-- Creation is a step that creates, or nothing. -/
theorem createProcess_step (hpool : StackPool k.stackPool) (interruptFrame : Bool) (words : Nat) :
    TableStep k (createProcess interruptFrame words k).2 (createProcess interruptFrame words k).1 := by
  unfold createProcess
  rw [run_bind, run_get, run_ite]
  dsimp only
  split
  · exact (SameTable.refl k).step
  rcases hdead : k.findDead with _ | p
  · exact (SameTable.refl k).step
  have hfree := findDead_some hdead
  dsimp only
  rw [run_bind, run_takePid, run_bind, run_modifyProc, run_bind, run_callAllocateStack]
  dsimp only
  generalize hk' : ({ k with nextPid := (k.nextPid + 1) % wordSize } : Kernel).setProc p _ = k'
  have hself : k'.procs p = (k.procs p).created k.nextPid k.mem.pagingGetCurrentDirectory
      interruptFrame := by
    subst hk'
    exact Kernel.setProc_self ..
  have hentry : k'.entry = update k.entry p (some (k.nextPid, (k.procs p).kernelStack)) := by
    subst hk'
    rw [entry_setProc]
    rfl
  obtain ⟨hk'pool, hbits, hcount, hnext⟩ : k'.stackPool = k.stackPool ∧
      k'.stackFreeBitmap = k.stackFreeBitmap ∧ k'.processCount = k.processCount ∧
      k'.nextPid = (k.nextPid + 1) % wordSize := by
    subst hk'
    exact ⟨rfl, rfl, rfl, rfl⟩
  have hbase (i : Fin stackSlots) : k'.stackBase i = k.stackBase i :=
    congrArg (· + BitVec.ofNat 32 (i * (stackSlotSize * 4))) hk'pool
  rcases allocateStack_cases k' with ⟨hnone, -⟩ | ⟨i, hbit, hsome⟩
  · -- no stack: the slot is `DEAD` again
    rw [hnone]
    dsimp only
    rw [run_ite, if_pos rfl, run_bind, run_modifyProc, run_pure]
    refine .same ?_ (ledger_eq.mpr ⟨hk'pool, hbits, hcount, rfl⟩) (.inr hnext)
    rw [entry_setProc, hentry, update_idem]
    exact (congrArg (update k.entry p) hfree.symm).trans (update_eq_self p k.entry)
  · rw [hsome, hbase]
    dsimp only
    rw [run_ite, if_neg (stackBase_ne_zero hpool i), run_bind, run_modifyProc, run_bind,
      run_setProcessCount, run_pure]
    have hstack : (k'.setProc p fun q => { q with
        kernelStack := k.stackBase i
        esp := k.stackBase i + BitVec.ofNat 32 (kernelStackSize - words * 4) }).entry =
          update k.entry p (some (k.nextPid, k.stackBase i)) := by
      rw [entry_setProc, hentry, update_idem, hself]
      rfl
    refine .created p i hfree (hbits ▸ hbit) hstack (ledger_eq.mpr ⟨hk'pool, ?_, ?_, hnext⟩)
    · show update k'.stackFreeBitmap i false = _
      rw [hbits]
    · show (k'.processCount + 1) % wordSize = _
      rw [hcount]

/-- In the midst of a fork: the slot `child` has got the stack `i`, and is not counted yet. -/
structure HoldsStack (k k' : Kernel) (child : Slot) (i : Fin stackSlots) : Prop where
  bit : k.stackFreeBitmap i = true
  entry : ∀ p, p ≠ child → k'.entry p = k.entry p
  stack : (k'.procs child).kernelStack = k.stackBase i
  ledger : k'.ledger = (k.stackPool, update k.stackFreeBitmap i false, k.processCount, k'.nextPid)

namespace HoldsStack

variable {child : Slot} {i : Fin stackSlots}

/-- What leaves the table alone goes on holding the stack. -/
theorem trans {k'' : Kernel} (h : HoldsStack k k' child i) (hs : SameTable k' k'')
    (hstack : (k''.procs child).kernelStack = (k'.procs child).kernelStack) :
    HoldsStack k k'' child i where
  bit := h.bit
  entry := by
    intro p hp
    rw [hs.1]
    exact h.entry p hp
  stack := hstack.trans h.stack
  ledger := by
    obtain ⟨h1, h2, h3, -⟩ := ledger_eq.mp (hs.2.trans h.ledger)
    exact ledger_eq.mpr ⟨h1, h2, h3, rfl⟩

/-- A failed fork leaves the table as it was. -/
theorem abandonChild (h : HoldsStack k k' child i) (hpool : StackPool k.stackPool)
    (hfree : k.entry child = none) :
    (abandonChild child k').2.entry = k.entry ∧ (AgenticOs.abandonChild child k').2.ledger =
      (k.stackPool, k.stackFreeBitmap, k.processCount, k'.nextPid) := by
  obtain ⟨hk'pool, hbits, hcount, -⟩ := ledger_eq.mp h.ledger
  have hbase : k'.stackBase i = k.stackBase i :=
    congrArg (· + BitVec.ofNat 32 (i * (stackSlotSize * 4))) hk'pool
  unfold AgenticOs.abandonChild
  rw [run_bind, run_getProc, run_bind, run_modify, run_modifyProc, h.stack, ← hbase,
    freeStack_stackBase (hk'pool ▸ hpool)]
  constructor
  · rw [entry_setProc]
    funext p
    by_cases hp : p = child
    · subst hp
      rw [update_self, hfree]
      rfl
    · rw [update_of_ne hp]
      exact h.entry p hp
  · refine ledger_eq.mpr ⟨hk'pool, ?_, hcount, rfl⟩
    show update k'.stackFreeBitmap i true = _
    rw [hbits, update_idem, ← h.bit, update_eq_self]

end HoldsStack

/-- The end of a fork: the child is counted, or its slot and its stack are given back. -/
theorem forkInto_step {child parent : Slot} {i : Fin stackSlots} (h : HoldsStack k k' child i)
    (hpool : StackPool k.stackPool) (hfree : k.entry child = none) (hnext : k'.nextPid = k.nextPid)
    (parentFrame childCr3 : Word) :
    TableStep k (forkInto child parent parentFrame childCr3 k').2
      (forkInto child parent parentFrame childCr3 k').1 := by
  obtain ⟨hk'pool, hbits, hcount, -⟩ := ledger_eq.mp h.ledger
  unfold forkInto
  rw [run_bind, run_getProc, run_bind, run_modify, run_bind, run_getProc, run_bind, run_takePid,
    run_bind, run_modifyProc, run_bind]
  dsimp only
  generalize hk₂ : Kernel.setProc _ child _ = k₂
  -- the child is in the table now, with the next pid
  have hentry : k₂.entry = update k.entry child (some (k.nextPid, k.stackBase i)) := by
    subst hk₂
    rw [entry_setProc]
    funext p
    by_cases hp : p = child
    · subst hp
      rw [update_self, update_self, ← h.stack, ← hnext]
      rfl
    · rw [update_of_ne hp, update_of_ne hp]
      exact h.entry p hp
  have hledger : k₂.ledger = (k.stackPool, update k.stackFreeBitmap i false, k.processCount,
      (k.nextPid + 1) % wordSize) := by
    subst hk₂
    refine ledger_eq.mpr ⟨hk'pool, hbits, hcount, ?_⟩
    show (k'.nextPid + 1) % wordSize = _
    rw [hnext]
  have hstack : (k₂.procs child).kernelStack = k.stackBase i := by
    have := (Process.entry_eq_some.mp ((congrFun hentry child).trans (update_self ..))).2
    exact congrArg Prod.snd this
  have hinherit : Quiet k₂ (processFdInherit child parent k₂).2 :=
    quiet_inheritFds child parent (List.finRange processMaxFds) k₂
  generalize processFdInherit child parent k₂ = r at hinherit
  have hsame := hinherit.sameTable
  have hr := hsame.2.trans hledger
  rw [run_ite]
  split
  · rw [run_bind, run_onMemory, run_bind, run_pure]
    have hhold : HoldsStack k (r.2.withMem (r.2.mem.pagingDestroyAddressSpace childCr3)) child i := by
      refine ⟨h.bit, fun p hp => ?_, (hinherit.kept child).kernelStack.trans hstack, ?_⟩
      · show r.2.entry p = _
        rw [hsame.1, hentry, update_of_ne hp]
      · obtain ⟨h1, h2, h3, -⟩ := ledger_eq.mp hr
        exact ledger_eq.mpr ⟨h1, h2, h3, rfl⟩
    obtain ⟨habandon, hafter⟩ := hhold.abandonChild hpool hfree
    refine .same habandon ?_ (.inr ?_)
    · obtain ⟨h1, h2, h3, -⟩ := ledger_eq.mp hafter
      exact ledger_eq.mpr ⟨h1, h2, h3, rfl⟩
    · exact ((ledger_eq.mp hafter).2.2.2).trans (ledger_eq.mp hr).2.2.2
  · rw [run_bind, run_modifyProc, run_bind, run_setProcessCount, run_pure]
    have hparent : (r.2.setProc parent fun p => { p with interruptFrame := true }).entry = r.2.entry :=
      (SameTable.setProc rfl).1
    obtain ⟨h1, h2, h3, h4⟩ := ledger_eq.mp hr
    refine .created child i hfree h.bit ?_ (ledger_eq.mpr ⟨h1, h2, ?_, h4⟩)
    · exact hparent.trans (hsame.1.trans hentry)
    · show (r.2.processCount + 1) % wordSize = _
      rw [h3]

/-- The kernel once the slot `child` has been cleared and has got the stack `i`. -/
def Kernel.housed (k : Kernel) (child : Slot) (i : Fin stackSlots) : Kernel :=
  { k.setProc child fun _ => { Process.zero.processFdTableInit with kernelStack := k.stackBase i } with
    stackFreeBitmap := update k.stackFreeBitmap i false }

/-- How far `process_fork` comes: nowhere, to a slot, to a stack, or to a new directory. -/
theorem processFork_cases (hpool : StackPool k.stackPool) (parent : Slot) (parentFrame : Word) :
    processFork parent parentFrame k = (none, k) ∨
      ∃ child, (k.procs child).state = .dead ∧
        (processFork parent parentFrame k =
            (none, k.setProc child fun _ => Process.zero.processFdTableInit) ∨
          ∃ i r, k.stackFreeBitmap i = true ∧
            r = (k.housed child i).mem.pagingCloneDirectory ((k.housed child i).procs parent).cr3 ∧
              (r.1 = 0 ∧ processFork parent parentFrame k =
                  (none, (abandonChild child ((k.housed child i).withMem r.2)).2) ∨
                r.1 ≠ 0 ∧ processFork parent parentFrame k =
                  forkInto child parent parentFrame r.1 ((k.housed child i).withMem r.2))) := by
  unfold processFork
  rw [run_bind, run_get, run_ite]
  dsimp only
  split
  · exact .inl rfl
  rcases hfind : k.findDead with _ | child
  · exact .inl rfl
  have hdead : (k.procs child).state = .dead := by simpa using List.find?_some hfind
  refine .inr ⟨child, hdead, ?_⟩
  dsimp only
  rw [run_bind, run_modifyProc, run_bind, run_callAllocateStack]
  dsimp only
  have hset (k₁ : Kernel) (stack : Word)
      (h : k₁.procs = update k.procs child Process.zero.processFdTableInit) :
      k₁.setProc child (fun p => { p with kernelStack := stack }) = { k₁ with
        procs := update k.procs child { Process.zero.processFdTableInit with kernelStack := stack } } := by
    unfold Kernel.setProc
    rw [h, update_self, update_idem]
  have hbase (i : Fin stackSlots) :
      (k.setProc child fun _ => Process.zero.processFdTableInit).stackBase i = k.stackBase i := rfl
  rcases allocateStack_cases (k.setProc child fun _ => Process.zero.processFdTableInit) with
    ⟨hnone, -⟩ | ⟨i, hbit, hsome⟩
  · left
    rw [hnone]
    dsimp only
    rw [run_bind, run_modifyProc, run_ite, if_pos rfl, run_pure, hset _ _ rfl]
    rfl
  · right
    rw [hsome, hbase]
    dsimp only
    rw [run_bind, run_modifyProc, run_ite, if_neg (stackBase_ne_zero hpool i), hset _ _ rfl]
    refine ⟨i, _, hbit, rfl, ?_⟩
    rw [run_bind, run_getProc, run_bind, run_callMemory, run_ite]
    by_cases hzero : ((k.housed child i).mem.pagingCloneDirectory
        ((k.housed child i).procs parent).cr3).1 = 0
    · exact .inl ⟨hzero, if_pos hzero⟩
    · exact .inr ⟨hzero, if_neg hzero⟩

/-- A slot that was free holds the stack that it has got. -/
theorem HoldsStack.housed {i : Fin stackSlots} (hbit : k.stackFreeBitmap i = true) (child : Slot) (m : Memory) :
    HoldsStack k ((k.housed child i).withMem m) child i := by
  refine ⟨hbit, fun p hp => ?_, ?_, rfl⟩
  · show ((update k.procs child _ p).entry) = (k.procs p).entry
    rw [update_of_ne hp]
  · show (update k.procs child _ child).kernelStack = _
    rw [update_self]

/-- A fork is a step that creates, or nothing. -/
theorem processFork_step (hpool : StackPool k.stackPool) (parent : Slot) (parentFrame : Word) :
    TableStep k (processFork parent parentFrame k).2 (processFork parent parentFrame k).1 := by
  rcases processFork_cases hpool parent parentFrame with
    hrun | ⟨child, hdead, hrun | ⟨i, r, hbit, -, ⟨-, hrun⟩ | ⟨-, hrun⟩⟩⟩
  all_goals rw [hrun]
  · exact (SameTable.refl k).step
  · have hsame : SameTable k (k.setProc child fun _ => Process.zero.processFdTableInit) :=
      SameTable.setProc ((Process.entry_eq_none.mpr rfl).trans (Process.entry_eq_none.mpr hdead).symm)
    exact hsame.step
  · have hfree : k.entry child = none := Process.entry_eq_none.mpr hdead
    obtain ⟨habandon, hafter⟩ := (HoldsStack.housed hbit child r.2).abandonChild hpool hfree
    obtain ⟨h1, h2, h3, h4⟩ := ledger_eq.mp hafter
    exact .same habandon (ledger_eq.mpr ⟨h1, h2, h3, rfl⟩) (.inl h4)
  · have hfree : k.entry child = none := Process.entry_eq_none.mpr hdead
    exact forkInto_step (HoldsStack.housed hbit child r.2) hpool hfree rfl parentFrame r.1

/-! ### Exit and destruction -/

/-- A process that ends keeps its slot and its stack. -/
theorem sameTable_processMarkExit (proc : Slot) (exitCode : Word) (k : Kernel) :
    SameTable k (processMarkExit proc exitCode k).2 := by
  unfold processMarkExit
  rw [run_bind, run_getProc, run_ite]
  split
  · exact SameTable.refl k
  · rename_i hlive
    have hclose := quiet_processFdCloseAll proc ((k.onScheduler (·.schedulerRemove proc)).setProc proc
      fun p => { p with
        exitCode := if exitCode.msb then exitCode else exitCode &&& 0xFF
        exited := true })
    have hremove : SameTable k (k.onScheduler (·.schedulerRemove proc)) := ⟨rfl, rfl⟩
    have hsame := (hremove.trans (SameTable.setProc rfl)).trans hclose.sameTable
    rw [run_bind]
    refine SameTable.trans ?_ (quiet_tellFamily proc _).sameTable
    unfold endProcess
    rw [run_bind, run_onScheduler, run_bind, run_modifyProc, run_bind, run_modifyProc]
    dsimp only
    generalize (processFdCloseAll proc _).2 = k₁ at hsame
    refine hsame.trans (SameTable.setProc ?_)
    have hentry : k₁.entry proc = some ((k.procs proc).pid, (k.procs proc).kernelStack) := by
      rw [hsame.1]
      exact Process.entry_eq_some.mpr ⟨fun hd => hlive (.inl hd), rfl⟩
    rw [show (k₁.procs proc).entry = _ from hentry]
    exact Process.entry_eq_some.mpr ⟨nofun, (Process.entry_eq_some.mp hentry).2⟩

/-- A process that is not `DEAD` loses its slot and its stack. -/
theorem processDestroy_live {proc : Slot} (hlive : (k.procs proc).state ≠ .dead) :
    (processDestroy proc k).2.entry = update k.entry proc none ∧
      (processDestroy proc k).2.ledger = (k.stackPool,
        (k.freeStack (k.procs proc).kernelStack).stackFreeBitmap, k.processCount - 1, k.nextPid) := by
  unfold processDestroy
  rw [run_bind, run_getProc, run_ite, if_neg hlive]
  have hclose := (quiet_processFdCloseAll proc k).sameTable
  rw [run_bind]
  generalize (processFdCloseAll proc k).2 = k₁ at hclose
  rw [run_bind, run_onMemory, run_bind, run_modify, run_bind, run_modifyProc, run_setProcessCount]
  dsimp only
  obtain ⟨h1, h2, h3, h4⟩ := ledger_eq.mp hclose.2
  generalize (k.procs proc).kernelStack = stack
  generalize k₁.mem.pagingDestroyAddressSpace _ = m
  have hfreed : (k₁.withMem m).freeStack stack =
      { k₁.withMem m with stackFreeBitmap := (k.freeStack stack).stackFreeBitmap } :=
    freeStack_eq (k₁.withMem m) h1 h2 stack
  rw [hfreed]
  constructor
  · have hgone : (k₁.setProc proc Process.destroyed).entry = update k.entry proc none := by
      rw [entry_setProc, hclose.1]
      rfl
    exact hgone
  · refine ledger_eq.mpr ⟨h1, rfl, ?_, h4⟩
    show k₁.processCount - 1 = _
    rw [h3]

/-- Destruction is a step that frees a slot, or nothing. -/
theorem processDestroy_step (proc : Slot) (k : Kernel) :
    TableStep k (processDestroy proc k).2 none := by
  by_cases hlive : (k.procs proc).state = .dead
  · unfold processDestroy
    rw [run_bind, run_getProc, run_ite, if_pos hlive]
    exact (SameTable.refl k).step
  · obtain ⟨hentry, hledger⟩ := processDestroy_live hlive
    exact .destroyed proc _ (Process.entry_eq_some.mpr ⟨hlive, rfl⟩) hentry hledger

/-- **Every call is a step.** -/
theorem TableCall.step (hpool : StackPool k.stackPool) (call : TableCall) :
    TableStep k (call.run k).2 (call.run k).1 := by
  cases call with
  | create isUser => exact createProcess_step hpool _ _
  | createPreemptive => exact createProcess_step hpool _ _
  | fork parent parentFrame => exact processFork_step hpool parent parentFrame
  | markExit proc exitCode => exact (sameTable_processMarkExit proc exitCode k).step
  | destroy proc => exact processDestroy_step proc k
  | rest f same => exact (same k).step

/-- The pool of kernel stacks does not move. -/
theorem TableStep.pool {created : Option Slot} (h : TableStep k k' created) :
    k'.stackPool = k.stackPool := by
  cases h with
  | same _ hledger _ => exact (ledger_eq.mp hledger).1
  | created _ _ _ _ _ hledger => exact (ledger_eq.mp hledger).1
  | destroyed _ _ _ _ hledger => exact (ledger_eq.mp hledger).1

/-! ### The invariant -/

/-- The count, the stacks and the bitmap say the same of the table. -/
structure Bookkeeping (k : Kernel) : Prop where
  count : k.processCount = k.aliveCount
  owned : ∀ p, k.Alive p → ∃ i, (k.procs p).kernelStack = k.stackBase i
  distinct : ∀ p q, k.Alive p → k.Alive q → (k.procs p).kernelStack = (k.procs q).kernelStack → p = q
  free : ∀ i, k.stackFreeBitmap i = true ↔
    ∀ p, k.Alive p → (k.procs p).kernelStack ≠ k.stackBase i

/-- The kernel stack of a slot that is not `DEAD`. -/
def Kernel.stackOf (k : Kernel) (p : Slot) : Option Word := (k.entry p).map Prod.snd

/-- The stack of a process that is not `DEAD`. -/
theorem stackOf_eq_some {p : Slot} {stack : Word} :
    k.stackOf p = some stack ↔ k.Alive p ∧ (k.procs p).kernelStack = stack := by
  unfold Kernel.stackOf
  rw [Option.map_eq_some_iff]
  constructor
  · rintro ⟨e, he, rfl⟩
    obtain ⟨hlive, rfl⟩ := Process.entry_eq_some.mp he
    exact ⟨hlive, rfl⟩
  · rintro ⟨hlive, rfl⟩
    exact ⟨_, Process.entry_eq_some.mpr ⟨hlive, rfl⟩, rfl⟩

/-- As many stacks are in use as slots are not `DEAD`. -/
theorem occupied_stackOf (k : Kernel) : occupied k.stackOf = k.aliveCount := by
  unfold occupied Kernel.aliveCount
  congr 1
  refine Finset.filter_congr fun p _ => ?_
  rw [Option.isSome_iff_exists]
  constructor
  · rintro ⟨stack, hs⟩
    exact (stackOf_eq_some.mp hs).1
  · exact fun hlive => ⟨_, stackOf_eq_some.mpr ⟨hlive, rfl⟩⟩

/-- The bookkeeping, in the terms of `Lib/Allotment.lean`. -/
theorem bookkeeping_iff : Bookkeeping k ↔
    k.processCount = occupied k.stackOf ∧ Allotted k.stackBase k.stackOf k.stackFreeBitmap := by
  rw [occupied_stackOf]
  constructor
  · intro h
    refine ⟨h.count, ?_, ?_, fun i => (h.free i).trans ?_⟩
    · intro p stack hs
      obtain ⟨hlive, rfl⟩ := stackOf_eq_some.mp hs
      exact h.owned p hlive
    · intro p q stack hp hq
      obtain ⟨hlive, rfl⟩ := stackOf_eq_some.mp hp
      obtain ⟨hlive', heq⟩ := stackOf_eq_some.mp hq
      exact h.distinct p q hlive hlive' heq.symm
    · simp only [ne_eq, stackOf_eq_some, not_and]
  · rintro ⟨hcount, h⟩
    refine ⟨hcount, ?_, ?_, fun i => (h.free_iff i).trans ?_⟩
    · exact fun p hlive => h.owned p _ (stackOf_eq_some.mpr ⟨hlive, rfl⟩)
    · intro p q hp hq heq
      exact h.distinct p q _ (stackOf_eq_some.mpr ⟨hp, rfl⟩) (stackOf_eq_some.mpr ⟨hq, heq.symm⟩)
    · simp only [ne_eq, stackOf_eq_some, not_and]

/-- Different slots of the pool are different things. -/
theorem stackBase_injective (hpool : StackPool k.stackPool) : Injective k.stackBase :=
  fun _ _ => stackBase_inj hpool

/-- There are no more processes than slots. -/
theorem Kernel.aliveCount_le (k : Kernel) : k.aliveCount ≤ maxProcesses := by
  have := Finset.card_filter_le (Finset.univ : Finset Slot) k.Alive
  rwa [Finset.card_univ, Fintype.card_fin] at this

/-- Every call keeps the bookkeeping. -/
theorem Bookkeeping.step (h : Bookkeeping k) (hpool : StackPool k.stackPool)
    {created : Option Slot} (hstep : TableStep k k' created) : Bookkeeping k' := by
  obtain ⟨hcount, hall⟩ := bookkeeping_iff.mp h
  have hinj := stackBase_injective hpool
  have hbase : k'.stackBase = k.stackBase :=
    funext fun i => congrArg (· + BitVec.ofNat 32 (i * (stackSlotSize * 4))) hstep.pool
  refine bookkeeping_iff.mpr ?_
  rw [hbase]
  cases hstep with
  | same hentry hledger _ =>
    obtain ⟨-, hbits, hcount', -⟩ := ledger_eq.mp hledger
    have hstack : k'.stackOf = k.stackOf := by
      unfold Kernel.stackOf
      rw [hentry]
    rw [hstack, hbits, hcount']
    exact ⟨hcount, hall⟩
  | created p i hfree hbit hentry hledger =>
    obtain ⟨-, hbits, hcount', -⟩ := ledger_eq.mp hledger
    have hnone : k.stackOf p = none := by
      unfold Kernel.stackOf
      rw [hfree]
      rfl
    have hstack : k'.stackOf = update k.stackOf p (some (k.stackBase i)) := by
      unfold Kernel.stackOf
      rw [hentry]
      funext q
      by_cases hq : q = p
      · subst hq
        rw [update_self, update_self]
        rfl
      · rw [update_of_ne hq, update_of_ne hq]
    rw [hstack, hbits, hcount', occupied_give hnone, hcount]
    refine ⟨Nat.mod_eq_of_lt ?_, hall.give hinj hnone hbit⟩
    have := k.aliveCount_le
    rw [occupied_stackOf]
    simp only [maxProcesses, wordSize] at *
    omega
  | destroyed p e hlive hentry hledger =>
    obtain ⟨-, hbits, hcount', -⟩ := ledger_eq.mp hledger
    have hsome : k.stackOf p = some e.2 := by
      unfold Kernel.stackOf
      rw [hlive]
      rfl
    have hstack : k'.stackOf = update k.stackOf p none := by
      unfold Kernel.stackOf
      rw [hentry]
      funext q
      by_cases hq : q = p
      · subst hq
        rw [update_self, update_self]
        rfl
      · rw [update_of_ne hq, update_of_ne hq]
    obtain ⟨i, hi⟩ := hall.owned p e.2 hsome
    rw [hstack, hbits, hcount', occupied_takeBack hsome, hcount, hi, freeStack_stackBase hpool]
    exact ⟨rfl, hall.takeBack hinj (hi ▸ hsome)⟩

/-- `process_init` leaves no process and all stacks free. -/
theorem processInit_bookkeeping (k : Kernel) : Bookkeeping (processInit k) := by
  refine bookkeeping_iff.mpr ⟨?_, Allotted.init⟩
  exact (Finset.card_eq_zero.mpr (Finset.filter_false_of_mem fun _ _ => nofun)).symm

/-- One call more. -/
theorem afterCalls_append (k : Kernel) (calls : List TableCall) (call : TableCall) :
    afterCalls k (calls ++ [call]) = (call.run (afterCalls k calls)).2 := by
  unfold afterCalls
  rw [List.foldl_append]
  rfl

/-- The bookkeeping after every sequence of calls. -/
theorem afterCalls_bookkeeping (hpool : StackPool k.stackPool) (calls : List TableCall) :
    StackPool (afterCalls (processInit k) calls).stackPool ∧
      Bookkeeping (afterCalls (processInit k) calls) := by
  induction calls using List.reverseRecOn with
  | nil => exact ⟨hpool, processInit_bookkeeping k⟩
  | append_singleton calls call ih =>
    have hstep := call.step ih.1
    rw [afterCalls_append]
    refine ⟨?_, ih.2.step ih.1 hstep⟩
    rw [hstep.pool]
    exact ih.1

/-- With a slot that is `DEAD`, neither a slot nor a stack is lacking. -/
theorem Bookkeeping.room (h : Bookkeeping k) (hpool : StackPool k.stackPool)
    (hlt : k.aliveCount < maxProcesses) :
    k.processCount < maxProcesses ∧ k.findDead ≠ none ∧ k.allocateStack.1 ≠ 0 := by
  obtain ⟨-, hall⟩ := bookkeeping_iff.mp h
  have hocc : occupied k.stackOf < Fintype.card (Fin maxProcesses) := by
    rwa [occupied_stackOf, Fintype.card_fin]
  refine ⟨h.count ▸ hlt, fun hnone => ?_, fun hzero => ?_⟩
  · obtain ⟨p, hp⟩ := exists_none_of_occupied_lt hocc
    have hdead : ¬ k.Alive p := fun hlive => by
      rw [stackOf_eq_some.mpr ⟨hlive, rfl⟩] at hp
      cases hp
    have := List.find?_eq_none.mp hnone p (List.mem_finRange p)
    exact hdead fun hd => this (by simpa using hd)
  · obtain ⟨i, hi⟩ := hall.exists_free (stackBase_injective hpool) hocc
    rcases allocateStack_cases k with ⟨-, hfull⟩ | ⟨j, -, hsome⟩
    · rw [hfull i] at hi
      cases hi
    · rw [hsome] at hzero
      exact stackBase_ne_zero hpool j hzero

/-- Creation does not fail then. -/
theorem createProcess_ne_none (hcount : k.processCount < maxProcesses) (hdead : k.findDead ≠ none)
    (hstack : k.allocateStack.1 ≠ 0) (interruptFrame : Bool) (words : Nat) :
    (createProcess interruptFrame words k).1 ≠ none := by
  obtain ⟨p, hp⟩ := Option.ne_none_iff_exists'.mp hdead
  unfold createProcess
  rw [run_bind, run_get, run_ite]
  dsimp only
  rw [if_neg (by omega), hp]
  dsimp only
  rw [run_bind, run_takePid, run_bind, run_modifyProc, run_bind, run_callAllocateStack]
  dsimp only
  generalize hk' : ({ k with nextPid := (k.nextPid + 1) % wordSize } : Kernel).setProc p _ = k'
  have hsame : k'.allocateStack.1 = k.allocateStack.1 := by
    subst hk'
    unfold Kernel.allocateStack
    dsimp only [Kernel.setProc]
    split <;> rfl
  rw [run_ite, if_neg (by rw [hsame]; exact hstack)]
  exact nofun

/-- **The bookkeeping is exact.** After every sequence of calls from `process_init` on,
`process_count`, the kernel stacks and `stack_free_bitmap` agree with the table, and a creation
lacks a slot or a stack only when all sixteen processes are alive. -/
theorem process_table_bookkeeping (k : Kernel) (hpool : StackPool k.stackPool)
    (calls : List TableCall) :
    let k' := afterCalls (processInit k) calls
    Bookkeeping k' ∧
      (k'.aliveCount < maxProcesses →
        (k'.processCount < maxProcesses ∧ k'.findDead ≠ none ∧ k'.allocateStack.1 ≠ 0) ∧
          (∀ isUser, (processCreate isUser k').1 ≠ none) ∧ (processCreatePreemptive k').1 ≠ none) := by
  intro k'
  obtain ⟨hpool', h⟩ := afterCalls_bookkeeping hpool calls
  refine ⟨h, fun hlt => ?_⟩
  obtain ⟨hcount, hdead, hstack⟩ := h.room hpool' hlt
  exact ⟨⟨hcount, hdead, hstack⟩, fun isUser => createProcess_ne_none hcount hdead hstack _ _,
    createProcess_ne_none hcount hdead hstack _ _⟩

/-- Three calls. -/
theorem process_table_bookkeeping_small :
    Bookkeeping (afterCalls (processInit Kernel.blank)
      [.create false, .createPreemptive, .destroy 0]) :=
  (process_table_bookkeeping Kernel.blank ⟨by decide, by decide⟩ _).1

end AgenticOs
