import AgenticOs.Kernel.Bookkeeping

/-!
# Process identifiers

`next_pid` is a counter of 32 bits that nothing resets. As long as it has not wrapped, the pids in the table
are the numbers handed out so far and distinct; then it hands out `-1`, `0`, and numbers that old processes
may still have.

* **Steps** (`PidsUnique.step_iff`): a call keeps the pids unique (`PidsUnique`) exactly if it creates nothing
  or the next pid is fresh (`PidFresh`): neither "no process" nor "any child", and no process has it.
* **Before the wrap** (`below_nextPid`): the counter is one more than the number of pids taken, and the pids
  in the table are below it.
* **Main result** (`pids_unique_iff`): in a run from `process_init` on the pids are always unique exactly if
  each creation finds the next pid fresh, and in particular while no more than `2^32 - 2` of them have been
  taken.
* **The wrap** (`pids_not_unique`): the process created after that many has the pid `-1`.
-/

namespace AgenticOs

open Function Lib

/-- The pids of the processes that are not `DEAD` are distinct, and neither "no process" nor "any
child". -/
structure PidsUnique (k : Kernel) : Prop where
  distinct : ∀ p q, k.Alive p → k.Alive q → (k.procs p).pid = (k.procs q).pid → p = q
  nonzero : ∀ p, k.Alive p → (k.procs p).pid ≠ 0
  specific : ∀ p, k.Alive p → (k.procs p).pid ≠ uint32Max

/-- The next pid is neither "no process" nor "any child", and no process has it. -/
structure PidFresh (k : Kernel) : Prop where
  nonzero : k.nextPid ≠ 0
  specific : k.nextPid ≠ uint32Max
  unused : ∀ p, k.Alive p → (k.procs p).pid ≠ k.nextPid

/-- How many pids a sequence of calls takes. -/
def pidsTaken (k : Kernel) : List TableCall → Nat
  | [] => 0
  | call :: calls =>
    (if (call.run k).2.nextPid = k.nextPid then 0 else 1) + pidsTaken (call.run k).2 calls

/-- The pid of a slot that is not `DEAD`. -/
def Kernel.pidOf (k : Kernel) (p : Slot) : Option Nat := (k.entry p).map Prod.fst

variable {k k' : Kernel} {created : Option Slot}

/-- Who has a pid is alive. -/
theorem pidOf_eq_some {p : Slot} {n : Nat} :
    k.pidOf p = some n ↔ k.Alive p ∧ (k.procs p).pid = n := by
  unfold Kernel.pidOf
  rw [Option.map_eq_some_iff]
  constructor
  · rintro ⟨e, he, rfl⟩
    obtain ⟨hlive, rfl⟩ := Process.entry_eq_some.mp he
    exact ⟨hlive, rfl⟩
  · rintro ⟨hlive, rfl⟩
    exact ⟨_, Process.entry_eq_some.mpr ⟨hlive, rfl⟩, rfl⟩

/-- Pids are unique if no two living processes share one and none is reserved. -/
theorem pidsUnique_iff : PidsUnique k ↔
    (∀ p q n, k.pidOf p = some n → k.pidOf q = some n → p = q) ∧
      ∀ p n, k.pidOf p = some n → n ≠ 0 ∧ n ≠ uint32Max := by
  constructor
  · intro h
    constructor
    · intro p q n hp hq
      obtain ⟨hlive, rfl⟩ := pidOf_eq_some.mp hp
      obtain ⟨hlive', heq⟩ := pidOf_eq_some.mp hq
      exact h.distinct p q hlive hlive' heq.symm
    · intro p n hp
      obtain ⟨hlive, rfl⟩ := pidOf_eq_some.mp hp
      exact ⟨h.nonzero p hlive, h.specific p hlive⟩
  · rintro ⟨hdistinct, hvalid⟩
    constructor
    · intro p q hp hq heq
      exact hdistinct p q _ (pidOf_eq_some.mpr ⟨hp, rfl⟩) (pidOf_eq_some.mpr ⟨hq, heq.symm⟩)
    · exact fun p hp => (hvalid p _ (pidOf_eq_some.mpr ⟨hp, rfl⟩)).1
    · exact fun p hp => (hvalid p _ (pidOf_eq_some.mpr ⟨hp, rfl⟩)).2

/-! ### What a call does to the pids -/

/-- A call that creates nothing hands out no pid. -/
theorem TableStep.pidOf_none (h : TableStep k k' none) (p : Slot) :
    k'.pidOf p = k.pidOf p ∨ k'.pidOf p = none := by
  unfold Kernel.pidOf
  cases h with
  | same hentry _ _ =>
    rw [hentry]
    exact .inl rfl
  | destroyed q e _ hentry _ =>
    rw [hentry]
    by_cases hp : p = q
    · subst hp
      rw [update_self]
      exact .inr rfl
    · rw [update_of_ne hp]
      exact .inl rfl

/-- A creation gives its process the next pid. -/
theorem TableStep.pidOf_some {p : Slot} (h : TableStep k k' (some p)) :
    k.pidOf p = none ∧ k'.pidOf = update k.pidOf p (some k.nextPid) := by
  unfold Kernel.pidOf
  cases h with
  | created _ i hfree _ hentry _ =>
    rw [hfree, hentry]
    refine ⟨rfl, funext fun q => ?_⟩
    by_cases hq : q = p
    · subst hq
      rw [update_self, update_self]
      rfl
    · rw [update_of_ne hq, update_of_ne hq]

/-- The counter moves by at most one, and by one at a creation. -/
theorem TableStep.nextPid (h : TableStep k k' created) :
    k'.nextPid = (k.nextPid + 1) % wordSize ∨ k'.nextPid = k.nextPid ∧ created = none := by
  cases h with
  | same _ _ hpid =>
    rcases hpid with hp | hp
    · exact .inr ⟨hp, rfl⟩
    · exact .inl hp
  | created _ _ _ _ _ hledger => exact .inl (ledger_eq.mp hledger).2.2.2
  | destroyed _ _ _ _ hledger => exact .inr ⟨(ledger_eq.mp hledger).2.2.2, rfl⟩

/-- A call keeps the pids unique exactly if it creates nothing or the next pid is fresh. -/
theorem PidsUnique.step_iff (h : PidsUnique k) (hstep : TableStep k k' created) :
    PidsUnique k' ↔ (created ≠ none → PidFresh k) := by
  obtain ⟨hdistinct, hvalid⟩ := pidsUnique_iff.mp h
  rcases created with _ | p
  · refine iff_of_true (pidsUnique_iff.mpr ⟨?_, ?_⟩) fun hne => absurd rfl hne
    · intro q r n hq hr
      rcases hstep.pidOf_none q with hq' | hq' <;> rw [hq'] at hq
      · rcases hstep.pidOf_none r with hr' | hr' <;> rw [hr'] at hr
        · exact hdistinct q r n hq hr
        · cases hr
      · cases hq
    · intro q n hq
      rcases hstep.pidOf_none q with hq' | hq' <;> rw [hq'] at hq
      · exact hvalid q n hq
      · cases hq
  obtain ⟨hnone, hpids⟩ := hstep.pidOf_some
  constructor
  · intro hunique _
    obtain ⟨hdistinct', hvalid'⟩ := pidsUnique_iff.mp hunique
    rw [hpids] at hdistinct' hvalid'
    have hnew := hvalid' p k.nextPid (update_self ..)
    refine ⟨hnew.1, hnew.2, fun q hq heq => ?_⟩
    have hqpid : k.pidOf q = some k.nextPid := pidOf_eq_some.mpr ⟨hq, heq⟩
    have hqp : q ≠ p := by
      rintro rfl
      rw [hnone] at hqpid
      cases hqpid
    exact hqp (hdistinct' q p k.nextPid ((update_of_ne hqp ..).trans hqpid) (update_self ..))
  · intro hfresh
    have hf := hfresh (by simp)
    have hunused (q : Slot) : k.pidOf q ≠ some k.nextPid := fun hq =>
      hf.unused q (pidOf_eq_some.mp hq).1 (pidOf_eq_some.mp hq).2
    refine pidsUnique_iff.mpr ?_
    rw [hpids]
    constructor
    · intro q r n hq hr
      by_cases hqp : q = p <;> by_cases hrp : r = p
      · exact hqp.trans hrp.symm
      · subst hqp
        rw [update_self, Option.some_inj] at hq
        rw [update_of_ne hrp, ← hq] at hr
        exact absurd hr (hunused r)
      · subst hrp
        rw [update_self, Option.some_inj] at hr
        rw [update_of_ne hqp, ← hr] at hq
        exact absurd hq (hunused q)
      · rw [update_of_ne hqp] at hq
        rw [update_of_ne hrp] at hr
        exact hdistinct q r n hq hr
    · intro q n hq
      by_cases hqp : q = p
      · subst hqp
        rw [update_self, Option.some_inj] at hq
        subst hq
        exact ⟨hf.nonzero, hf.specific⟩
      · rw [update_of_ne hqp] at hq
        exact hvalid q n hq

/-- **`process_init`** -/
theorem processInit_pidsUnique (k : Kernel) : PidsUnique (processInit k) :=
  ⟨fun _ _ hp => absurd rfl hp, fun _ hp => absurd rfl hp, fun _ hp => absurd rfl hp⟩

/-! ### Runs -/

/-- Each creation of a run finds the next pid fresh. -/
def CreatesFresh (k : Kernel) (calls : List TableCall) : Prop :=
  ∀ pre call, pre ++ [call] <+: calls →
    (call.run (afterCalls k pre)).1 ≠ none → PidFresh (afterCalls k pre)

/-- In a run, pids stay unique exactly if the creations are fresh. -/
theorem unique_iff_createsFresh (hpool : StackPool k.stackPool) (calls : List TableCall) :
    (∀ pre, pre <+: calls → PidsUnique (afterCalls (processInit k) pre)) ↔
      CreatesFresh (processInit k) calls := by
  constructor
  · intro hall pre call hpre hcreated
    have hstep := call.step (afterCalls_bookkeeping hpool pre).1
    have hnext := hall (pre ++ [call]) hpre
    rw [afterCalls_append] at hnext
    exact ((hall pre ((List.prefix_append pre [call]).trans hpre)).step_iff hstep).mp hnext hcreated
  · intro hfresh pre
    induction pre using List.reverseRecOn with
    | nil => exact fun _ => processInit_pidsUnique k
    | append_singleton pre call ih =>
      intro hpre
      have hstep := call.step (afterCalls_bookkeeping hpool pre).1
      rw [afterCalls_append]
      have hunique := ih ((List.prefix_append pre [call]).trans hpre)
      exact (hunique.step_iff hstep).mpr fun hcreated => hfresh pre call hpre hcreated

/-- A creation takes a pid. -/
theorem pidsTaken_append (k : Kernel) (calls : List TableCall) (call : TableCall) :
    pidsTaken k (calls ++ [call]) = pidsTaken k calls +
      if (call.run (afterCalls k calls)).2.nextPid = (afterCalls k calls).nextPid then 0 else 1 := by
  induction calls generalizing k with
  | nil => exact (Nat.zero_add _).symm
  | cons first rest ih =>
    have hih := ih (first.run k).2
    show _ + pidsTaken (first.run k).2 (rest ++ [call]) = _ + pidsTaken (first.run k).2 rest + _
    rw [hih, Nat.add_assoc]
    rfl

/-- A longer run takes more. -/
theorem pidsTaken_mono {calls pre : List TableCall} (h : pre <+: calls) (k : Kernel) :
    pidsTaken k pre ≤ pidsTaken k calls := by
  obtain ⟨rest, rfl⟩ := h
  induction pre generalizing k with
  | nil => exact Nat.zero_le _
  | cons call pre ih => exact Nat.add_le_add_left (ih _) _

/-- Before the counter wraps it is one more than the number of pids taken, and the pids in the table
are below it. -/
theorem below_nextPid (hpool : StackPool k.stackPool) (calls : List TableCall)
    (hfew : pidsTaken (processInit k) calls ≤ wordSize - 2) :
    (afterCalls (processInit k) calls).nextPid = pidsTaken (processInit k) calls + 1 ∧
      ∀ p n, (afterCalls (processInit k) calls).pidOf p = some n →
        n < (afterCalls (processInit k) calls).nextPid := by
  induction calls using List.reverseRecOn with
  | nil => exact ⟨rfl, nofun⟩
  | append_singleton calls call ih =>
    have hstep := call.step (afterCalls_bookkeeping hpool calls).1
    rw [pidsTaken_append] at hfew ⊢
    rw [afterCalls_append]
    obtain ⟨hnext, hbelow⟩ := ih (by omega)
    rcases hstep.nextPid with hmoved | ⟨hkept, hnone⟩
    · have hne : (call.run (afterCalls (processInit k) calls)).2.nextPid ≠
          (afterCalls (processInit k) calls).nextPid := by
        rw [hmoved]
        simp only [wordSize] at *
        omega
      rw [if_neg hne] at hfew ⊢
      have hlt : (afterCalls (processInit k) calls).nextPid + 1 < wordSize := by
        simp only [wordSize] at *
        omega
      rw [Nat.mod_eq_of_lt hlt] at hmoved
      refine ⟨by omega, fun p n hp => ?_⟩
      rw [hmoved]
      rcases hc : (call.run (afterCalls (processInit k) calls)).1 with _ | q
      · rw [hc] at hstep
        rcases hstep.pidOf_none p with h | h <;> rw [h] at hp
        · exact Nat.lt_succ_of_lt (hbelow p n hp)
        · cases hp
      · rw [hc] at hstep
        rw [hstep.pidOf_some.2] at hp
        by_cases hpq : p = q
        · subst hpq
          rw [update_self, Option.some_inj] at hp
          omega
        · rw [update_of_ne hpq] at hp
          exact Nat.lt_succ_of_lt (hbelow p n hp)
    · rw [if_pos hkept, hkept]
      refine ⟨hnext, fun p n hp => ?_⟩
      rw [hnone] at hstep
      rcases hstep.pidOf_none p with h | h <;> rw [h] at hp
      · exact hbelow p n hp
      · cases hp

/-- A run that takes few pids finds each of them fresh. -/
theorem createsFresh_of_few (hpool : StackPool k.stackPool) {calls : List TableCall}
    (hfew : pidsTaken (processInit k) calls ≤ wordSize - 2) :
    CreatesFresh (processInit k) calls := by
  intro pre call hpre hcreated
  have htaken := (pidsTaken_mono hpre (processInit k)).trans hfew
  have hstep := call.step (afterCalls_bookkeeping hpool pre).1
  rw [pidsTaken_append] at htaken
  obtain ⟨hnext, hbelow⟩ := below_nextPid hpool pre (by omega)
  have hmoved := hstep.nextPid.resolve_right fun h => hcreated h.2
  have hne : (call.run (afterCalls (processInit k) pre)).2.nextPid ≠
      (afterCalls (processInit k) pre).nextPid := by
    rw [hmoved]
    simp only [wordSize] at *
    omega
  rw [if_neg hne] at htaken
  refine ⟨by omega, ?_, fun p hp heq => ?_⟩
  · simp only [uint32Max, wordSize] at *
    omega
  · have := hbelow p _ (pidOf_eq_some.mpr ⟨hp, rfl⟩)
    omega

/-- **Pids are unique until the counter wraps.** In a run from `process_init` on the pids of the
processes that are not `DEAD` are always distinct, never `0` and never `-1` exactly if each creation
finds a fresh pid; a run that takes at most `2^32 - 2` pids does. -/
theorem pids_unique_iff (k : Kernel) (hpool : StackPool k.stackPool) (calls : List TableCall) :
    ((∀ pre, pre <+: calls → PidsUnique (afterCalls (processInit k) pre)) ↔
        CreatesFresh (processInit k) calls) ∧
      (pidsTaken (processInit k) calls ≤ wordSize - 2 → CreatesFresh (processInit k) calls) :=
  ⟨unique_iff_createsFresh hpool calls, createsFresh_of_few hpool⟩

/-! ### The wrap -/

/-- A process is created and destroyed again. -/
theorem afterCalls_createDestroy (hpool : StackPool k.stackPool) (h : Bookkeeping k)
    (hdead : ∀ p, ¬ k.Alive p) :
    ∃ p, (∀ q, ¬ (afterCalls k [.create false, .destroy p]).Alive q) ∧
      (afterCalls k [.create false, .destroy p]).nextPid = (k.nextPid + 1) % wordSize := by
  have hcount : k.aliveCount = 0 :=
    Finset.card_eq_zero.mpr (Finset.filter_false_of_mem fun p _ => hdead p)
  obtain ⟨hlt, hslot, hstack⟩ := h.room hpool (by rw [hcount]; decide)
  obtain ⟨p, hp⟩ := Option.ne_none_iff_exists'.mp (createProcess_ne_none hlt hslot hstack false 5)
  have hstep := TableCall.step hpool (.create false)
  rw [show (TableCall.run (.create false) k).1 = some p from hp] at hstep
  have hnext := hstep.nextPid.resolve_right nofun
  have hpids := hstep.pidOf_some.2
  generalize hk' : (TableCall.run (.create false) k).2 = k' at hstep hnext hpids
  have halive : k'.Alive p := (pidOf_eq_some.mp ((congrFun hpids p).trans (update_self ..))).1
  obtain ⟨hentry, hledger⟩ := processDestroy_live halive
  have hrun : afterCalls k [.create false, .destroy p] = (processDestroy p k').2 := by
    rw [← hk']
    rfl
  refine ⟨p, fun q hq => ?_, ?_⟩
  · have hpid := pidOf_eq_some.mpr ⟨hq, rfl⟩
    rw [hrun] at hpid
    unfold Kernel.pidOf at hpid
    rw [hentry] at hpid
    by_cases hqp : q = p
    · subst hqp
      rw [update_self] at hpid
      cases hpid
    · rw [update_of_ne hqp] at hpid
      have hq' := (congrFun hpids q).trans (update_of_ne hqp ..)
      rw [show k'.pidOf q = (k'.entry q).map Prod.fst from rfl, hpid] at hq'
      exact hdead q (pidOf_eq_some.mp hq'.symm).1
  · rw [hrun, (ledger_eq.mp hledger).2.2.2, hnext]

/-- The counter reaches every value with no process alive. -/
theorem exists_calls_nextPid (hpool : StackPool k.stackPool) (n : Nat) :
    ∃ calls, (∀ p, ¬ (afterCalls (processInit k) calls).Alive p) ∧
      (afterCalls (processInit k) calls).nextPid = (n + 1) % wordSize := by
  induction n with
  | zero => exact ⟨[], fun p hp => hp rfl, rfl⟩
  | succ n ih =>
    obtain ⟨calls, hdead, hnext⟩ := ih
    obtain ⟨hpool', hbook⟩ := afterCalls_bookkeeping hpool calls
    obtain ⟨p, hdead', hnext'⟩ := afterCalls_createDestroy hpool' hbook hdead
    refine ⟨calls ++ [.create false, .destroy p], ?_, ?_⟩
    · unfold afterCalls at hdead' ⊢
      rw [List.foldl_append]
      exact hdead'
    · unfold afterCalls at hnext' hnext ⊢
      rw [List.foldl_append, hnext', hnext]
      simp only [wordSize]
      omega

/-- `2^32 - 2` processes are created and destroyed; the next one gets the pid `-1`. -/
theorem pids_not_unique :
    ∃ calls, ¬ PidsUnique (afterCalls (processInit Kernel.blank) calls) := by
  have hpool : StackPool Kernel.blank.stackPool := ⟨by decide, by decide⟩
  obtain ⟨calls, hdead, hnext⟩ := exists_calls_nextPid hpool (uint32Max - 1)
  obtain ⟨hpool', hbook⟩ := afterCalls_bookkeeping hpool calls
  have hcount : (afterCalls (processInit Kernel.blank) calls).aliveCount = 0 :=
    Finset.card_eq_zero.mpr (Finset.filter_false_of_mem fun p _ => hdead p)
  obtain ⟨hlt, hslot, hstack⟩ := hbook.room hpool' (by rw [hcount]; decide)
  refine ⟨calls ++ [.create false], fun hunique => ?_⟩
  rw [afterCalls_append] at hunique
  have hstep := TableCall.step hpool' (.create false)
  have hempty : PidsUnique (afterCalls (processInit Kernel.blank) calls) :=
    ⟨fun p _ hp => absurd hp (hdead p), fun p hp => absurd hp (hdead p),
      fun p hp => absurd hp (hdead p)⟩
  have hfresh := (hempty.step_iff hstep).mp hunique
    (createProcess_ne_none hlt hslot hstack false 5)
  exact hfresh.specific hnext

/-- Two processes; the first goes, and a third one gets its slot and a pid of its own. -/
theorem pids_unique_iff_small :
    let calls : List TableCall := [.create false, .createPreemptive, .destroy 0, .create true]
    (∀ pre, pre <+: calls → PidsUnique (afterCalls (processInit Kernel.blank) pre)) ∧
      ((afterCalls (processInit Kernel.blank) calls).procs 0).pid = 3 ∧
        ((afterCalls (processInit Kernel.blank) calls).procs 1).pid = 2 := by
  intro calls
  have hpids := pids_unique_iff Kernel.blank ⟨by decide, by decide⟩ calls
  exact ⟨hpids.1.mpr (hpids.2 (by decide)), by decide, by decide⟩

end AgenticOs
