import AgenticOs.Kernel.HomeServices
import AgenticOs.Kernel.MemoryPolicy

/-!
# Calls that stay at home

A call of the running process is `Confined` to a set of processes if it moves nobody else.

* **One address space** (`Sheds`): memory has changed in one address space only, which may have lost pages.
  `SYS_BRK` drops pages of the heap like this (`Tracks.dropPages`, `syscallBrk_cases`), and a page fault
  changes the page that it is about.
* **Rules**: confined calls compose (`Confined.trans`), and work for the running process is confined to it
  (`WorksFor.confined`).
* **Stopping** (`sameAlive_blockCurrent`): the scheduler stops a process and resumes another, and nobody is
  gone. A process that ends leaves its home to whoever reaps it.
* **System calls**: `SYS_BRK` (`confined_syscallBrk`); `SYS_READ` and `SYS_WRITE`, which may put their caller
  to sleep with a buffer that stays open (`Homes.blockOnPipe`); `SYS_EXIT` and `SYS_KILL`.
-/

namespace AgenticOs

open Function Finset Lib Scheduler

/-! ### One address space -/

/-- An error code that the processor pushes for a program in ring 3. -/
def Memory.GenuineFault (m : Memory) (errorCode faultAddr : Word) : Prop :=
  ∃ access, (access = 0 ∨ access = vmFaultWrite) ∧
    errorCode = m.userFaultCode m.activePageDirectory faultAddr access

/-- Every entry was there before. -/
def Fewer (entry entry' : Nat → TableIndex → TableIndex → Option Word) : Prop :=
  ∀ d i j e, entry' d i j = some e → entry d i j = some e

/-- The same entries. -/
theorem Fewer.refl (entry : Nat → TableIndex → TableIndex → Option Word) : Fewer entry entry := fun _ _ _ _ => id

/-- First some entries are gone and then others. -/
theorem Fewer.trans {entry entry' entry'' : Nat → TableIndex → TableIndex → Option Word} (h : Fewer entry entry')
    (h' : Fewer entry' entry'') : Fewer entry entry'' := fun d i j e he => h d i j e (h' d i j e he)

/-- Memory has changed in the address space of `d` only, which may have lost pages. Nothing has been written but
frames of the allocator. -/
structure Sheds (m0 : Memory) (live : Finset Nat) (d : Nat) (m m' : Memory) (S S' : Spaces) : Prop
    extends InSpace m0 live d m m' S S' where
  fewer : Fewer S.entry S'.entry
  outside : ∀ g, ¬Pool m0.frames g → m'.ram g = m.ram g

/-- Two such steps after one another. -/
theorem Sheds.trans {m0 m m' m'' : Memory} {live : Finset Nat} {d : Nat} {S S' S'' : Spaces}
    (h : Sheds m0 live d m m' S S') (h' : Sheds m0 live d m' m'' S' S'') : Sheds m0 live d m m'' S S'' :=
  ⟨h.toInSpace.trans h'.toInSpace, h.fewer.trans h'.fewer, fun g hg => (h'.outside g hg).trans (h.outside g hg)⟩

namespace Tracks

variable {m0 m : Memory} {live : Finset Nat} {S : Spaces} {d : Nat} {page faultAddr errorCode : Word} {proc : Process}

/-- A page of the heap is dropped, if it is there. -/
theorem dropPage (h : Tracks m0 ⟨m, live⟩ S) (hd : d ∈ live) (hi : inUserRange (dirIndex page)) :
    ∃ S', Sheds m0 live d m (m.dropPage (frameAddr d) page) S S' := by
  obtain ⟨hres, h'⟩ := h.represents.unmapPage (h.mem_live hd) h.pageHand hi
  have hram (g : Nat) (hg : ¬Pool m0.frames g) := h.represents.unmapPage_ram (h.mem_live hd) hi hg
  have hfewer : Fewer S.entry (setAt S.entry d (dirIndex page) (tableIndex page) none) := fun d' i' j' e' he' => by
    by_cases hx : d' = d ∧ i' = dirIndex page ∧ j' = tableIndex page
    · cases (if_pos hx).symm.trans he'
    · exact (if_neg hx).symm.trans he'
  unfold Memory.dropPage
  dsimp only
  rcases he : S.entry d (dirIndex page) (tableIndex page) with _ | e
  · rw [he] at hres h'
    rw [if_neg (not_not.mpr hres)]
    refine ⟨_, ⟨⟨⟨h', h.live, rfl, h.tableHand, h.user_setAt hi none, h.unshared.mono rfl hfewer⟩, ?_,
      m.pagingUnmapPageInDirectory_active _ _⟩, hfewer, hram⟩⟩
    exact .setAt (fun _ _ => rfl) rfl fun _ _ _ _ _ _ => rfl
  · obtain ⟨S', hunmapped, hentry⟩ := h.unmapFrame hd he
    have hpos : 0 < frameOf e := by
      have := h.represents.held_ge (Represents.held_page he)
      simp only [firstFrame] at this
      omega
    rw [he] at hres h'
    rw [hres, if_pos (frameAddr_ne_zero hpos (frameOf_lt e)), h'.frameRelease_eq (o := .pageHand) rfl,
      ← h'.frameFree_eq (o := .pageHand) rfl]
    exact ⟨S', hunmapped, hentry ▸ hfewer, fun g hg => (Represents.frameFree_ram _ _ g).trans (hram g hg)⟩

/-- The loop of `SYS_BRK`. -/
theorem dropPages {pages : List Word} (h : Tracks m0 ⟨m, live⟩ S) (hd : d ∈ live)
    (hpages : ∀ page ∈ pages, inUserRange (dirIndex page)) :
    ∃ S', Sheds m0 live d m (pages.foldl (fun m page => m.dropPage (frameAddr d) page) m) S S' := by
  induction pages generalizing m S with
  | nil => exact ⟨S, h.self, .refl _, fun _ _ => rfl⟩
  | cons page pages ih =>
    obtain ⟨S₁, h₁⟩ := h.dropPage hd (hpages page List.mem_cons_self)
    obtain ⟨S₂, h₂⟩ := ih h₁.tracks fun p hp => hpages p (List.mem_cons_of_mem _ hp)
    exact ⟨S₂, h₁.trans h₂⟩

/-- The flags of a page of which the processor says that it is not there. -/
theorem pageFlags_of_fault (h : Tracks m0 ⟨m, live⟩ S) (hd : d ∈ live) (hactive : m.activePageDirectory = frameAddr d)
    (hfault : m.GenuineFault errorCode faultAddr) (hcode : test errorCode vmFaultPresent = false) :
    test (m.pagingGetPageFlagsInDirectory (frameAddr d) (pageAlignDown faultAddr)) pagePresent = false := by
  obtain ⟨access, haccess, rfl⟩ := hfault
  have hlt := h.represents.live_lt (h.mem_live hd)
  rw [hactive] at hcode
  unfold Memory.userFaultCode at hcode
  unfold Memory.pagingGetPageFlagsInDirectory
  dsimp only
  rw [frameAddr_and_addrMask hlt, dirIndex_pageAlignDown, tableIndex_pageAlignDown]
  split
  · decide
  rename_i hthere
  rw [not_or, Bool.not_eq_false] at hthere
  rw [hthere.2, Bool.true_and] at hcode
  rw [test_pagePresent, (Memory.flag_and_flagMask _).1, ← test_pagePresent]
  by_contra hpresent
  rw [Bool.not_eq_false] at hpresent
  rw [hpresent, if_pos rfl] at hcode
  rcases haccess with rfl | rfl
  · exact absurd hcode (by decide)
  · exact absurd hcode (by decide)

/-- `vm_handle_page_fault` -/
theorem prepares_fault (h : Tracks m0 ⟨m, live⟩ S) (hd : d ∈ live) (hactive : m.activePageDirectory = frameAddr d)
    (hproc : proc.LivesIn d) (hfault : m.GenuineFault errorCode faultAddr) :
    ∃ S', Prepares m0 live d m (m.vmHandlePageFault proc faultAddr errorCode).2 S S' := by
  unfold Memory.vmHandlePageFault
  rw [hproc.cr3]
  split
  · exact ⟨S, h.unprepared⟩
  dsimp only
  split
  · obtain ⟨S', h', -⟩ := h.prepares_resolve hd (pageAlignDown faultAddr)
    split
    · exact ⟨S', h'⟩
    · split <;> exact ⟨S', h'⟩
  split
  · rename_i hcode
    split
    · exact ⟨S, h.unprepared⟩
    split
    · rename_i hheap
      have hi : inUserRange (dirIndex (pageAlignDown faultAddr)) := by
        rw [dirIndex_pageAlignDown]
        exact hproc.inUserRange hheap.1 hheap.2
      obtain ⟨S', h', -⟩ := h.prepares_demandMap hd hactive hi
        (h.represents.entry_none_of_flags (h.pageFlags_of_fault hd hactive hfault hcode))
      exact ⟨S', h'⟩
    · exact ⟨S, h.unprepared⟩
  · exact ⟨S, h.unprepared⟩

end Tracks

/-- The pages between two ends of a heap lie in the heap. -/
theorem inUserRange_brkPages {newEnd oldEnd page : Word} (hstart : processHeapStart ≤ newEnd)
    (hnew : newEnd ≤ processHeapLimit) (hold : oldEnd ≤ processHeapLimit) (hpage : page ∈ brkPages newEnd oldEnd) :
    inUserRange (dirIndex page) := by
  have h₁ : (processHeapStart : Word).toNat = 0x90000000 := rfl
  have h₂ : (processHeapLimit : Word).toNat = 0xA0000000 := rfl
  unfold brkPages at hpage
  obtain ⟨i, hi, rfl⟩ := List.mem_map.mp hpage
  rw [List.mem_range] at hi
  rw [BitVec.le_def] at hstart hnew hold
  have hmask (w : Word) : (w &&& addrMask).toNat = w.toNat / 4096 * 4096 := by
    have hlt := w.isLt
    rw [and_addrMask]
    unfold frameAddr frameOf
    rw [BitVec.toNat_ofNat, Nat.mod_eq_of_lt (by simp only [frameSize]; omega)]
  rw [hmask, hmask, BitVec.toNat_add, BitVec.toNat_add] at hi
  have hlow : ((newEnd + 0xFFF) &&& addrMask).toNat = (newEnd + 0xFFF).toNat / 4096 * 4096 := hmask _
  rw [BitVec.toNat_add] at hlow
  have hstep : (BitVec.ofNat 32 (i * 4096)).toNat = i * 4096 % 4294967296 := BitVec.toNat_ofNat ..
  have hfff : (0xFFF : Word).toNat = 4095 := rfl
  unfold inUserRange
  simp only [dirIndex, BitVec.toNat_add, hlow, hstep, hfff] at hi ⊢
  omega

/-! ### Confined calls -/

variable {m0 : Memory} {k k' k'' : Kernel} {S S' : Spaces} {A B : Set Slot} {c : Slot} {frame : Word}

/-- Nobody is born, and nobody is gone. -/
def SameAlive (k k' : Kernel) : Prop := ∀ p, k'.Alive p ↔ k.Alive p

/-- Two steps after one another. -/
theorem SameAlive.trans (h : SameAlive k k') (h' : SameAlive k' k'') : SameAlive k k'' :=
  fun p => (h' p).trans (h p)

/-- Whoever is not in `A` lives where he lived, and sees what he saw. -/
def Confined (A : Set Slot) (k k' : Kernel) : Prop :=
  ∀ ⦃m0 : Memory⦄ ⦃S : Spaces⦄, Homes m0 k S → ∃ S', Homes m0 k' S' ∧ Apart A k k' S S'

namespace Confined

/-- Nothing has happened. -/
theorem refl (A : Set Slot) (k : Kernel) : Confined A k k := fun _ S hk => ⟨S, hk, .refl A k S⟩

/-- Two calls after one another. -/
theorem trans (h : Confined A k k') (h' : Confined A k' k'') : Confined A k k'' := by
  intro m0 S hk
  obtain ⟨S', hk', hapart⟩ := h hk
  obtain ⟨S'', hk'', hapart'⟩ := h' hk'
  exact ⟨S'', hk'', hapart.trans hapart'⟩

/-- Less is said of more processes. -/
theorem mono (h : Confined A k k') (hAB : A ⊆ B) : Confined B k k' := by
  intro m0 S hk
  obtain ⟨S', hk', hapart⟩ := h hk
  exact ⟨S', hk', hapart.mono hAB⟩

/-- Steps that leave homes alone, and everybody alive. -/
theorem of_same (hs : SameHomes k k') (ha : SameAlive k k') : Confined A k k' :=
  fun _ S hk => ⟨S, hs.homes ha hk, hs.apart fun p => (ha p).mp⟩

end Confined

/-- Work for the running process is confined to it. -/
theorem WorksFor.confined (h : WorksFor c k k') (hc : Agrees k c) : Confined {c} k k' := fun _ _ hk => h.homes hk hc

/-! ### Stopping a process -/

/-- The scheduler stops a process and resumes another, and nobody is gone. -/
theorem Scheduler.Stoppable.dead_iff {v : View} {s : Scheduler Slot} (h : s.Stoppable v c) (hframe : frame ≠ 0)
    {stopped : ProcessState} (hst : stopped = .blocked ∨ stopped = .zombie) (resume : Bool) (p : Slot) :
    ((s.schedulerStopCurrentLocked frame stopped resume).2.procs p).state = .dead ↔ (s.procs p).state = .dead := by
  have hc : (s.procs c).state ≠ .dead := by
    rcases h.state with hs | hs <;> rw [hs] <;> decide
  have hstopped : stopped ≠ .dead := by
    rcases hst with rfl | rfl <;> decide
  rcases hbest : s.findBestReady with _ | n
  · rw [h.stop_none hframe hbest]
    unfold stopWithoutNext
    by_cases hp : p = c
    · subst hp
      refine iff_of_false ?_ hc
      split
      · rw [setProc_self]
        exact nofun
      · rw [setProc_self]
        exact hstopped
    · split
      · rw [setProc_of_ne hp, setProc_of_ne hp]
      · rw [setProc_of_ne hp]
  · have hready : (s.procs n).state = .ready := ((h.ordered.mem n).mp (findBestReady_mem hbest)).1
    have hne : n ≠ c := by
      rintro rfl
      rcases h.state with hs | hs <;> rw [hready] at hs <;> cases hs
    have hprocs := (Stoppable.stop_procs s hne p frame stopped).2.2
    rw [h.stop_some hframe hbest]
    dsimp only
    rw [hprocs]
    split
    · rename_i hpn
      rw [hpn, hready]
      decide
    split
    · rename_i hpc
      rw [hpc]
      exact iff_of_false hstopped hc
    · exact Iff.rfl

/-- The running process is blocked, and another one runs. -/
theorem sameAlive_blockCurrent (h : Agrees k c) (hframe : frame ≠ 0) :
    SameAlive k (k.onScheduler fun s => (s.schedulerBlockCurrent frame).2) :=
  fun p => not_congr (h.runs.stoppable.dead_iff hframe (.inl rfl) true p)

/-- A process that ends leaves its home, and nobody moves in. -/
theorem Left.sameAlive (h : Left k k' c) (hc : k.Alive c) : SameAlive k k' := by
  intro p
  unfold Kernel.Alive
  by_cases hp : p = c
  · subst hp
    rw [h.zombie]
    exact iff_of_true nofun hc
  · rcases h.state p hp with hs | ⟨hold, hnew⟩
    · rw [hs]
    · refine iff_of_true ?_ ?_
      · rcases hnew with hn | hn <;> rw [hn] <;> decide
      · rcases hold with ho | ho <;> rw [ho] <;> decide

/-! ### System calls -/

/-- `SYS_BRK` refuses, or it drops the pages between the new end of the heap and the old one, and moves the end. -/
theorem syscallBrk_cases (h : Agrees k c) (requestedBrk callerCs : Word) :
    (syscallBrk requestedBrk callerCs k).2 = k ∨
      (k.procs c).heapStart ≤ requestedBrk ∧ requestedBrk ≤ processHeapLimit ∧
        (syscallBrk requestedBrk callerCs k).2 =
          (k.withMem ((brkPages requestedBrk (k.procs c).heapEnd).foldl
            (fun m page => m.dropPage (k.procs c).cr3 page) k.mem)).setProc c
              fun p => { p with heapEnd := requestedBrk } := by
  unfold syscallBrk
  rw [run_ite]
  split
  · exact .inl rfl
  rw [run_bind, run_get]
  dsimp only
  rw [h.processGetCurrent]
  dsimp only
  rw [run_ite]
  split
  · exact .inl rfl
  rename_i hbounds
  rw [not_or, not_or, BitVec.not_lt, BitVec.not_lt] at hbounds
  rw [run_bind, run_onMemory, run_bind, run_modifyProc, run_pure]
  exact .inr ⟨hbounds.2.1, hbounds.2.2, rfl⟩

/-- **`SYS_BRK`** -/
theorem confined_syscallBrk (h : Agrees k c) (hidle : (k.procs c).blockReason ≠ .pipeRead)
    (requestedBrk callerCs : Word) : Confined {c} k (syscallBrk requestedBrk callerCs k).2 := by
  rcases syscallBrk_cases h requestedBrk callerCs with hrefused | ⟨hlow, hhigh, hdone⟩
  · rw [hrefused]
    exact .refl _ k
  rw [hdone]
  intro m0 S hk
  obtain ⟨d, hd, hdwells, -, htracks⟩ := hk.loaded h
  obtain ⟨S', hdropped⟩ := htracks.dropPages hd fun page hpage =>
    inUserRange_brkPages (BitVec.le_trans hdwells.heapStart hlow) hhigh hdwells.heapEnd hpage
  rw [← hdwells.cr3] at hdropped
  refine ⟨S', hk.inSpace h hdwells.cr3 hdropped.toInSpace (fun p hp => Kernel.setProc_of_ne _ hp _) hd ?_ ?_⟩
  · rw [Kernel.setProc_self]
    exact ⟨⟨hdwells.cr3, hdwells.heapStart, hhigh⟩, fun hwait => absurd hwait hidle⟩
  · unfold Kernel.Alive
    rw [Kernel.setProc_self]
    exact (Homes.alive_of_runs h : k.Alive c)

/-- A process waits for a pipe with a buffer that is open. -/
theorem Homes.blockOnPipe (hk : Homes m0 k S) (h : Agrees k c) (hframe : frame ≠ 0) {reason : BlockReason}
    {buffer count : Word} (hopen : reason = .pipeRead → Opened k c S buffer count.toNat) (fd : Word) :
    Homes m0 (AgenticOs.blockOnPipe c frame reason fd buffer count k).2 S ∧
      Apart {c} k (AgenticOs.blockOnPipe c frame reason fd buffer count k).2 S S := by
  obtain ⟨d, hd, hdwells, -, htracks⟩ := hk.loaded h
  unfold AgenticOs.blockOnPipe
  rw [run_bind, run_modifyProc]
  dsimp only
  have hwait : Quiet k (k.setProc c (·.processBeginPipeWait reason fd.toInt buffer count.toNat)) :=
    Quiet.setProc (fun _ => ⟨rfl, rfl, rfl, rfl, rfl, id⟩) fun _ => rfl
  have hbuffer : reason = .pipeRead → ∀ i < count.toNat, S.Writable d (pageSlot (buffer + BitVec.ofNat 32 i)) := by
    intro hreason
    obtain ⟨d', hd', hdwells', hwritable⟩ := hopen hreason
    obtain rfl : d' = d := frameAddr_inj (htracks.represents.live_lt hd') (htracks.represents.live_lt hd)
      (hdwells'.cr3.symm.trans hdwells.cr3)
    exact hwritable
  have hself : Dwells S ((k.setProc c (·.processBeginPipeWait reason fd.toInt buffer count.toNat)).procs c) d := by
    rw [Kernel.setProc_self]
    exact ⟨⟨hdwells.cr3, hdwells.heapStart, hdwells.heapEnd⟩, hbuffer⟩
  have h₁ := (hwait.serves c h).agrees
  generalize hk₁ : k.setProc c _ = k₁ at hwait hself h₁
  have hothers (p : Slot) (hp : p ≠ c) : k₁.procs p = k.procs p := by
    rw [← hk₁]
    exact Kernel.setProc_of_ne _ hp _
  have hmem : InSpace m0 S.live d k.mem k₁.mem S S := by
    rw [← hk₁]
    exact htracks.self
  obtain ⟨hk₁, hapart₁⟩ := hk.inSpace h hdwells.cr3 hmem hothers hd hself (Homes.alive_of_runs h₁)
  rw [run_bind, run_callScheduler, run_ite]
  dsimp only
  have hs : SameHomes k₁ (k₁.onScheduler fun s => (s.schedulerBlockCurrent frame).2) :=
    .of_rescheduled (Rescheduled.schedulerBlockCurrent _ _)
  have ha := sameAlive_blockCurrent h₁ hframe
  generalize k₁.onScheduler _ = k₂ at hs ha
  split
  · rw [run_bind, run_modifyProc, run_pure]
    have hundo : SameHomes k₂ (k₂.setProc c fun p => { p with blockReason := .none }) :=
      .setProc ⟨rfl, rfl, rfl, nofun⟩
    have hundone : Quiet k₂ (k₂.setProc c fun p => { p with blockReason := .none }) :=
      Quiet.setProc (fun _ => ⟨rfl, rfl, rfl, rfl, rfl, id⟩) fun _ => rfl
    have hboth := ha.trans hundone.alive
    exact ⟨(hs.trans hundo).homes hboth hk₁, hapart₁.trans ((hs.trans hundo).apart fun p => (hboth p).mp)⟩
  · exact ⟨hs.homes ha hk₁, hapart₁.trans (hs.apart fun p => (ha p).mp)⟩

/-- A range of no byte is open. -/
theorem Homes.opened_zero (hk : Homes m0 k S) (h : Agrees k c) (address : Word) : Opened k c S address 0 := by
  obtain ⟨d, hd, hdwells, -⟩ := hk.loaded h
  exact ⟨d, hd, hdwells, fun i hi => absurd hi (Nat.not_lt_zero i)⟩

/-- `is_user_pointer_writable`, unless there is nothing to write. -/
theorem Homes.userPointerWritable (hk : Homes m0 k S) (h : Agrees k c) (nothing : Prop) [Decidable nothing]
    (ptr size : Word) :
    let r := (if nothing then pure true else isUserPointerWritable ptr size) k
    Quiet k r.2 ∧ ∃ S', Homes m0 r.2 S' ∧ Apart {c} k r.2 S S' ∧
      (r.1 = true → ¬nothing → Opened r.2 c S' ptr size.toNat) := by
  intro r
  by_cases hnothing : nothing
  · have hr : r = (true, k) := by
      show (if nothing then pure true else isUserPointerWritable ptr size) k = _
      rw [if_pos hnothing]
      rfl
    rw [hr]
    exact ⟨.refl k, S, hk, .refl _ k S, fun _ hc => absurd hnothing hc⟩
  · have hr : r = (decide ((uaccessPrepareWrite ptr size k).1 = uaccessSuccess),
        (uaccessPrepareWrite ptr size k).2) := by
      show (if nothing then pure true else isUserPointerWritable ptr size) k = _
      rw [if_neg hnothing]
      rfl
    rw [hr]
    obtain ⟨S', hk', hapart, hopen⟩ := hk.prepareWrite h ptr size
    exact ⟨quiet_uaccessPrepareWrite ptr size k, S', hk', hapart, fun hok _ => hopen (of_decide_eq_true hok)⟩

/-- **`SYS_READ`** -/
theorem confined_syscallRead (h : Agrees k c) (hframe : frame ≠ 0) (fd buffer count callerCs : Word) :
    Confined {c} k (syscallRead fd buffer count callerCs frame k).2 := by
  intro m0 S hk
  unfold syscallRead
  rw [run_ite]
  split
  · exact Confined.refl _ k hk
  rw [run_bind]
  obtain ⟨hq, S₁, hk₁, hapart₁, hopen⟩ := hk.userPointerWritable h (count = 0) buffer count
  have h₁ := (hq.serves c h).agrees
  generalize (if count = 0 then pure true else isUserPointerWritable buffer count : KernelM Bool) k = r
    at hk₁ hapart₁ hopen h₁ ⊢
  rw [run_ite]
  split
  · exact ⟨S₁, hk₁, hapart₁⟩
  rename_i hwritable
  have hopen : Opened r.2 c S₁ buffer count.toNat := by
    by_cases hcount : count = 0
    · rw [hcount]
      exact hk₁.opened_zero h₁ buffer
    · exact hopen (by simpa using hwritable) hcount
  rw [run_bind, run_get]
  dsimp only
  rcases hfd : r.2.currentFd fd with _ | ⟨current, kind, handle⟩
  · exact ⟨S₁, hk₁, hapart₁⟩
  obtain rfl := currentFd_some h₁.processGetCurrent hfd
  dsimp only
  rw [run_ite]
  split
  · rw [run_bind, run_pure]
    obtain ⟨S₂, hk₂, hapart₂⟩ := hk₁.kernelVfsRead h₁ hopen handle
    exact ⟨S₂, hk₂, hapart₁.trans hapart₂⟩
  rw [run_ite]
  split
  · exact ⟨S₁, hk₁, hapart₁⟩
  rw [run_bind]
  have h₂ := ((quiet_kernelPipeRead handle buffer count.toNat r.2).serves current h₁).agrees
  obtain ⟨S₂, hk₂, hapart₂, hopen₂⟩ := hk₁.kernelPipeRead h₁ hopen handle
  generalize AgenticOs.kernelPipeRead handle buffer count.toNat r.2 = read at h₂ hk₂ hapart₂ hopen₂ ⊢
  rw [run_ite]
  split
  · exact ⟨S₂, hk₂, hapart₁.trans hapart₂⟩
  · obtain ⟨hk₃, hapart₃⟩ := hk₂.blockOnPipe h₂ hframe (fun _ => hopen₂) fd
    exact ⟨S₂, hk₃, (hapart₁.trans hapart₂).trans hapart₃⟩

/-- **`SYS_WRITE`** -/
theorem confined_syscallWrite (h : Agrees k c) (hframe : frame ≠ 0) (fd buffer count callerCs : Word) :
    Confined {c} k (syscallWrite fd buffer count callerCs frame k).2 := by
  intro m0 S hk
  unfold syscallWrite
  rw [run_ite]
  split
  · exact Confined.refl _ k hk
  rw [run_bind, run_get, run_ite]
  split
  · exact Confined.refl _ k hk
  dsimp only
  rcases hfd : k.currentFd fd with _ | ⟨current, kind, handle⟩
  · exact Confined.refl _ k hk
  obtain rfl := currentFd_some h.processGetCurrent hfd
  dsimp only
  rw [run_ite]
  split
  · rw [run_bind, run_pure]
    exact Confined.of_same (sameHomes_kernelVfsWrite handle buffer count k)
      (quiet_kernelVfsWrite handle buffer count k).alive hk
  rw [run_ite]
  split
  · exact Confined.refl _ k hk
  rw [run_bind]
  have hq := quiet_kernelPipeWrite handle buffer count.toNat k
  have hs := sameHomes_kernelPipeWrite handle buffer count.toNat k
  generalize AgenticOs.kernelPipeWrite handle buffer count.toNat k = written at hq hs ⊢
  have hk₁ := hs.homes hq.alive hk
  have hapart₁ : Apart {current} k written.2 S S := hs.apart fun p => (hq.alive p).mp
  rw [run_ite]
  split
  · exact ⟨S, hk₁, hapart₁⟩
  rw [run_ite]
  split
  · exact ⟨S, hk₁, hapart₁⟩
  · have hwrite : BlockReason.pipeWrite = .pipeRead → Opened written.2 current S buffer count.toNat := nofun
    obtain ⟨hk₂, hapart₂⟩ := hk₁.blockOnPipe (hq.serves current h).agrees hframe hwrite fd
    exact ⟨S, hk₂, hapart₁.trans hapart₂⟩

/-- `SYS_EXIT` -/
theorem confined_syscallExit (h : Agrees k c) (hframe : frame ≠ 0) (hring : k.view.ring frame)
    (exitCode callerCs : Word) : Confined A k (syscallExit exitCode callerCs frame k).2 := by
  refine .of_same (sameHomes_syscallExit exitCode callerCs frame k) ?_
  unfold syscallExit
  rw [run_ite]
  split
  · exact fun _ => Iff.rfl
  rw [run_bind, run_get]
  dsimp only
  rw [h.processGetCurrent]
  dsimp only
  exact (dieOfFault_left h hframe hring exitCode).1.sameAlive (Homes.alive_of_runs h)

/-- `SYS_KILL` -/
theorem confined_syscallKill (pid signum callerCs : Word) (k : Kernel) :
    Confined A k (syscallKill pid signum callerCs k).2 := by
  have hsend (target : Slot) (n : Nat) : SameAlive k (processSendSignal target n k).2 := by
    unfold processSendSignal
    rw [run_bind, run_getProc, run_ite]
    split
    · exact fun _ => Iff.rfl
    · rw [run_bind, run_modifyProc, run_pure]
      intro p
      unfold Kernel.Alive
      by_cases hp : p = target
      · subst hp
        rw [Kernel.setProc_self]
      · rw [Kernel.setProc_of_ne _ hp]
  refine .of_same (sameHomes_syscallKill pid signum callerCs k) ?_
  unfold syscallKill
  rw [run_ite]
  split
  · exact fun _ => Iff.rfl
  rw [run_bind, run_get]
  dsimp only
  rcases k.processGetByPid pid.toNat with _ | target
  · exact fun _ => Iff.rfl
  dsimp only
  rw [run_ite]
  split
  · exact fun _ => Iff.rfl
  · rw [run_bind, run_pure]
    exact hsend target signum.toNat

end AgenticOs
