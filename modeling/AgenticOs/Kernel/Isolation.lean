import AgenticOs.Kernel.HomeRuns

/-!
# Processes are isolated

In every run, whatever is interleaved.

* `sleeper_untouched`: a process that does not run keeps its address space, loads what it loaded, and may
  store where it might, however often the others run and whatever they store, map, fork, execute and leave
  behind.
* `writable_private`: a page that a process can write in place is mapped once, by no other process and at no
  other page of its own.
* `frames_conserved`: over any run the count of a frame changes by what living processes take and give up of
  it, and a frame is free exactly if nobody uses it.
* `pipe_buffer_writable`: a process that waits for a pipe keeps a buffer that the kernel can fill;
  `process_complete_pipe_io` stores there without a check.
* `fork_copies`: a child gets a copy of what its parent sees, and an address space of its own; nobody else,
  and not the parent either, sees a difference.

Each follows from the homes of the processes in every state of a run (`Settled.peopled`) and from what one
step does to those who do not run (`Peopled.untouched`).
-/

namespace AgenticOs

open Function Finset Lib

variable {m0 : Memory} {k k' k'' : Kernel} {S S' : Spaces} {A : Set Slot} {c p : Slot} {d : Nat}

/-! ### What a process sees -/

/-- A page that can be stored to, in place or once it is copied. -/
def Memory.allowsStore (m : Memory) (cr3 virtualAddr : Word) : Bool :=
  let flags := m.pagingGetPageFlagsInDirectory cr3 virtualAddr
  has flags (pagePresent ||| pageUser) && (isWritable flags || isCow flags)

/-- Where a program may store, by what it sees. -/
theorem Represents.allowsStore_eq {m : Memory} (h : Represents m0 m S) (hd : d ∈ S.live) (va : Word) :
    m.allowsStore (frameAddr d) va = (S.view.pageAt d va).any RefPage.storable := by
  have hpage : S.view.pageAt d va = (S.entry d (dirIndex va) (tableIndex va)).map fun e =>
      ⟨pageByte (S.content (frameOf e)), isWritable e || isCow e⟩ := rfl
  unfold Memory.allowsStore
  rw [hpage]
  dsimp only
  rcases he : S.entry d (dirIndex va) (tableIndex va) with _ | e
  · rw [h.pageFlags_none hd he]
    rfl
  · obtain ⟨hflags, hpresent, huser⟩ := h.pageFlags_some he
    obtain ⟨hp, hu, hw, hcow⟩ := Memory.flag_and_flagMask e
    rw [hflags, has_or, has_pagePresent, has_pageUser, hp, hu, hpresent, huser, hw, hcow]
    rfl

/-- Process `p` lives where it lived, loads what it loaded, and may store where it might. -/
structure Untouched (p : Slot) (k k' : Kernel) : Prop where
  directory : (k'.procs p).cr3 = (k.procs p).cr3
  loads : ∀ va, k'.mem.userLoad (k'.procs p).cr3 va = k.mem.userLoad (k.procs p).cr3 va
  stores : ∀ va, k'.mem.allowsStore (k'.procs p).cr3 va = k.mem.allowsStore (k.procs p).cr3 va

/-- Nothing has happened. -/
theorem Untouched.refl (p : Slot) (k : Kernel) : Untouched p k k := ⟨rfl, fun _ => rfl, fun _ => rfl⟩

/-- Two steps after one another. -/
theorem Untouched.trans (h : Untouched p k k') (h' : Untouched p k' k'') : Untouched p k k'' :=
  ⟨h'.directory.trans h.directory, fun va => (h'.loads va).trans (h.loads va),
    fun va => (h'.stores va).trans (h.stores va)⟩

/-- Memory shows a program the pages of its address space. -/
theorem Homes.shows (hk : Homes m0 k S) (hd : d ∈ S.live) (va : Word) :
    k.mem.userLoad (frameAddr d) va = S.view.load d va ∧
      k.mem.allowsStore (frameAddr d) va = (S.view.pageAt d va).any RefPage.storable :=
  ⟨hk.tracks.userLoad_eq hd va, hk.tracks.represents.allowsStore_eq hd va⟩

/-- A process that is not moved is untouched. -/
theorem Homes.untouched (hk : Homes m0 k S) (hk' : Homes m0 k' S') (hapart : Apart A k k' S S') (hp : p ∉ A)
    (halive : k'.Alive p) : Untouched p k k' := by
  obtain ⟨halive₀, hcr3⟩ := hapart.origin p hp halive
  obtain ⟨d, hd, hdwells⟩ := hk.home p halive₀
  obtain ⟨d', hd', hdwells'⟩ := hk'.home p halive
  obtain rfl : d' = d := frameAddr_inj (hk'.tracks.represents.live_lt hd') (hk.tracks.represents.live_lt hd)
    (hdwells'.cr3.symm.trans (hcr3.trans hdwells.cr3))
  have hpage : S'.view.page d' = S.view.page d' := hapart.page p hp halive d' hdwells.cr3
  refine ⟨hcr3, fun va => ?_, fun va => ?_⟩
  · rw [hdwells'.cr3, hdwells.cr3, (hk.shows hd va).1, (hk'.shows hd' va).1]
    unfold Reference.load Reference.pageAt
    rw [hpage]
  · rw [hdwells'.cr3, hdwells.cr3, (hk.shows hd va).2, (hk'.shows hd' va).2]
    unfold Reference.pageAt
    rw [hpage]

/-! ### Isolation -/

/-- A process that lives and does not run. -/
def Kernel.Sleeps (k : Kernel) (p : Slot) : Prop := k.Alive p ∧ (k.procs p).state ≠ .running

/-- A step over which `p` sleeps. -/
def Passes (p : Slot) (k k' : Kernel) : Prop := k.Sleeps p ∧ Moves k k' ∧ k'.Sleeps p

/-- **A step leaves a sleeper untouched**, and everybody keeps having a home. -/
theorem Peopled.untouched (h : Peopled m0 k S c) (hpass : Passes p k k') :
    ∃ S' n, Peopled m0 k' S' n ∧ Untouched p k k' := by
  obtain ⟨⟨halive, hsleeps⟩, ⟨event, hgenuine, hstep⟩, halive', hsleeps'⟩ := hpass
  obtain ⟨n, S', h', hapart⟩ := h.step hgenuine hstep
  refine ⟨S', n, h', h.homes.untouched h'.homes hapart ?_ halive'⟩
  rintro (rfl | rfl | hdead)
  · exact hsleeps ((h.agrees.runs.running p).mpr rfl)
  · exact hsleeps' ((h'.agrees.runs.running p).mpr rfl)
  · exact hdead halive

/-- **Processes are isolated.** However often the others run while a process sleeps, and whatever they
store, map, fork, execute and leave behind: it lives where it lived, every load finds the byte it found,
and every page allows the stores it allowed. -/
theorem sleeper_untouched (h : Settled k) (hrun : Relation.ReflTransGen (Passes p) k k') : Untouched p k k' := by
  obtain ⟨m0, S, c, hpeopled⟩ := h.peopled
  suffices hall : ∃ S' n, Peopled m0 k' S' n ∧ Untouched p k k' from hall.choose_spec.choose_spec.2
  induction hrun with
  | refl => exact ⟨S, c, hpeopled, .refl p k⟩
  | tail _ hpass ih =>
    obtain ⟨S', n, hpeopled', huntouched⟩ := ih
    obtain ⟨S'', n', hpeopled'', huntouched'⟩ := hpeopled'.untouched hpass
    exact ⟨S'', n', hpeopled'', huntouched.trans huntouched'⟩

instance (k : Kernel) (p : Slot) : Decidable (k.Sleeps p) :=
  inferInstanceAs (Decidable ((k.procs p).state ≠ .dead ∧ (k.procs p).state ≠ .running))

set_option maxRecDepth 4000 in
/-- The three steps of the parent, over which its child sleeps. -/
theorem passes_rewritten : Relation.ReflTransGen (Passes 1) .couple .rewritten := by
  have htrio : Passes 1 .couple .trio := ⟨by decide, moves_trio, by decide⟩
  have hunshared : Passes 1 .trio .unshared := ⟨by decide, moves_unshared, by decide⟩
  have hrewritten : Passes 1 .unshared .rewritten := ⟨by decide, moves_rewritten, by decide⟩
  exact ((Relation.ReflTransGen.single htrio).tail hunshared).tail hrewritten

/-- The parent forks again, gets the shared page for itself and stores 43 there: the child still loads 42. -/
theorem sleeper_untouched_couple :
    Untouched 1 .couple .rewritten ∧
      Kernel.rewritten.mem.userLoad (Kernel.rewritten.procs 0).cr3 0x90000000 = some 43 ∧
      Kernel.couple.mem.userLoad (Kernel.couple.procs 1).cr3 0x90000000 = some 42 :=
  ⟨sleeper_untouched settled_couple passes_rewritten, Memory.rewritten_onePage.2, by decide +kernel⟩

/-! ### Ownership -/

/-- A page that a process can write in place is mapped once: by no other process, and at no other
page of its own. -/
def Kernel.WritablePrivate (k : Kernel) : Prop :=
  ∀ p q va va', k.Alive p → k.Alive q → k.mem.isUserWritable (k.procs p).cr3 va = true →
    k.mem.isUserAccessible (k.procs q).cr3 va' = true →
      k.mem.userFrame (k.procs q).cr3 va' = k.mem.userFrame (k.procs p).cr3 va →
        q = p ∧ pageSlot va' = pageSlot va

/-- The entry of a page that a program can access. -/
theorem Homes.entry (hk : Homes m0 k S) (hd : d ∈ S.live) {va : Word}
    (haccess : k.mem.isUserAccessible (frameAddr d) va = true) :
    ∃ e, S.entry d (dirIndex va) (tableIndex va) = some e ∧ k.mem.isUserWritable (frameAddr d) va = isWritable e ∧
      k.mem.userFrame (frameAddr d) va = frameOf e := by
  rcases he : S.entry d (dirIndex va) (tableIndex va) with _ | e
  · have hnone : k.mem.isUserAccessible (frameAddr d) va = false := (hk.tracks.represents.translate_none hd he).1
    rw [hnone] at haccess
    cases haccess
  · exact ⟨e, rfl, (hk.tracks.represents.translate (hk.tracks.user d _ _ e he) he).2⟩

/-- **A writable page is private**: by the books, an entry that can be written holds the only reference to its
frame. -/
theorem writable_private (h : Settled k) : k.WritablePrivate := by
  obtain ⟨m0, S, c, -, hk, -⟩ := h.peopled
  intro p q va va' hp hq hwritable haccess hframe
  obtain ⟨d, hd, hdwells⟩ := hk.home p hp
  obtain ⟨d', hd', hdwells'⟩ := hk.home q hq
  rw [hdwells.cr3] at hwritable hframe
  rw [hdwells'.cr3] at haccess hframe
  obtain ⟨e, he, hw, hf⟩ := hk.entry hd (Memory.isUserAccessible_of_writable hwritable)
  obtain ⟨e', he', -, hf'⟩ := hk.entry hd' haccess
  rw [hw] at hwritable
  rw [hf, hf'] at hframe
  obtain ⟨rfl, hdir, htable⟩ := hk.tracks.unshared d _ _ e he hwritable d' _ _ e' he' hframe
  exact ⟨hk.alone q p hq hp (hdwells'.cr3.trans hdwells.cr3.symm), Prod.ext hdir htable⟩

/-- The parent can write its copy of the page in place, the children still share the page they have. -/
theorem writable_private_rewritten :
    Kernel.rewritten.WritablePrivate ∧
      Kernel.rewritten.mem.isUserWritable (Kernel.rewritten.procs 0).cr3 0x90000000 = true ∧
      ∀ p ∈ [1, 2], Kernel.rewritten.mem.isUserAccessible (Kernel.rewritten.procs p).cr3 0x90000000 = true ∧
        Kernel.rewritten.mem.isUserWritable (Kernel.rewritten.procs p).cr3 0x90000000 = false :=
  ⟨writable_private settled_rewritten, by decide +kernel, by decide +kernel⟩

/-- The directories of the processes that live. -/
def Kernel.directories (k : Kernel) : Finset Nat :=
  (univ.filter fun p => (k.procs p).state ≠ .dead).image fun p => frameOf (k.procs p).cr3

/-- Memory with the directories of the processes that live. -/
def Kernel.paging (k : Kernel) : PagingState := ⟨k.mem, k.directories⟩

/-- How often living processes use a frame: as a page, a page table or a directory. -/
def Kernel.uses (k : Kernel) (f : Nat) : Nat := k.paging.userMappings f + if k.paging.isStructure f then 1 else 0

/-- The directories of those who live are those that memory stores. -/
theorem Homes.directories (hk : Homes m0 k S) : k.directories = S.live := by
  ext d
  unfold Kernel.directories
  rw [mem_image]
  constructor
  · rintro ⟨p, hp, rfl⟩
    obtain ⟨d, hd, hdwells⟩ := hk.home p (mem_filter.mp hp).2
    rw [hdwells.cr3, frameOf_frameAddr (hk.tracks.represents.live_lt hd)]
    exact hd
  · intro hd
    obtain ⟨p, hp, hcr3⟩ := hk.owned d hd
    refine ⟨p, mem_filter.mpr ⟨mem_univ p, hp⟩, ?_⟩
    rw [hcr3, frameOf_frameAddr (hk.tracks.represents.live_lt hd)]

/-- The books name who uses a frame; frames that the allocator never had stay as they were. -/
theorem Homes.uses (hk : Homes m0 k S) (f : Nat) : (Pool m0.frames f → k.mem.frames.frameRefcounts f = k.uses f) ∧
    (¬Pool m0.frames f → k.mem.frames.frameRefcounts f = m0.frames.frameRefcounts f ∧ k.uses f = 0) := by
  have hpaging : k.paging = ⟨k.mem, S.live⟩ := by
    unfold Kernel.paging
    rw [hk.directories]
  unfold Kernel.uses
  rw [hpaging]
  have htracks := hk.tracks
  refine ⟨fun hpool => htracks.refcount_exact hpool, fun hpool => ⟨(htracks.represents.books.base f hpool).2, ?_⟩⟩
  have hunused :
      ¬(0 < (⟨k.mem, S.live⟩ : PagingState).userMappings f ∨ (⟨k.mem, S.live⟩ : PagingState).isStructure f) :=
    fun hused => hpool (htracks.allocated_of_live hused).1
  rw [not_or, Nat.pos_iff_ne_zero, not_not] at hunused
  rw [hunused.1, if_neg hunused.2]

/-- **No frame leaks.** Over any run the count of a frame changes by what living processes take and
give up of it, and a frame is free exactly when it is not counted. -/
theorem frames_conserved (h : Settled k) (hrun : Relation.ReflTransGen Moves k k') (f : Nat) :
    k'.mem.frames.frameRefcounts f + k.uses f = k.mem.frames.frameRefcounts f + k'.uses f ∧
      (f < k'.mem.frames.totalFrames →
        (k'.mem.frames.frameBitmap f = true ↔ 0 < k'.mem.frames.frameRefcounts f)) := by
  obtain ⟨m0, S, c, hpeopled⟩ := h.peopled
  obtain ⟨S', n, hpeopled'⟩ := hpeopled.run hrun
  obtain ⟨hpool, hbase⟩ := hpeopled.homes.uses f
  obtain ⟨hpool', hbase'⟩ := hpeopled'.homes.uses f
  refine ⟨?_, hpeopled'.homes.tracks.represents.books.counted.live_iff f⟩
  by_cases hf : Pool m0.frames f
  · rw [hpool hf, hpool' hf, Nat.add_comm]
  · rw [(hbase hf).1, (hbase hf).2, (hbase' hf).1, (hbase' hf).2]

/-- Frame 769 is the directory of the child: its count goes up by one with the fork. -/
theorem frames_conserved_couple :
    Kernel.couple.mem.frames.frameRefcounts 769 + Kernel.alone.uses 769 =
        Kernel.alone.mem.frames.frameRefcounts 769 + Kernel.couple.uses 769 ∧
      (769 < Kernel.couple.mem.frames.totalFrames →
        (Kernel.couple.mem.frames.frameBitmap 769 = true ↔ 0 < Kernel.couple.mem.frames.frameRefcounts 769)) :=
  frames_conserved settled_alone (run_piped.tail moves_couple) 769

/-! ### Waiting for a pipe -/

/-- The buffer of a process that waits to read from a pipe can be written in place. -/
def Kernel.BuffersWritable (k : Kernel) : Prop :=
  ∀ p, k.Alive p → (k.procs p).blockReason = .pipeRead → ∀ i < (k.procs p).blockedCount,
    k.mem.isUserWritable (k.procs p).cr3 ((k.procs p).blockedBuffer + BitVec.ofNat 32 i) = true

/-- `process_complete_pipe_io` stores without a check: whatever has happened since the check of
`SYS_READ`, the buffer is still there. -/
theorem pipe_buffer_writable (h : Settled k) : k.BuffersWritable := by
  obtain ⟨m0, S, c, -, hk, -⟩ := h.peopled
  intro p hp hwait i hi
  obtain ⟨d, hd, hdwells⟩ := hk.home p hp
  obtain ⟨e, he, hw⟩ := hdwells.buffer hwait i hi
  rw [hdwells.cr3]
  exact (hk.tracks.represents.translate (hk.tracks.user d _ _ e he) he).2.1.trans hw

set_option maxRecDepth 4000 in
/-- The parent waits for four bytes; the page it shared with its child until then has been copied. -/
theorem pipe_buffer_writable_reading :
    Kernel.reading.BuffersWritable ∧ (Kernel.reading.procs 0).blockReason = .pipeRead ∧
      (Kernel.reading.procs 0).blockedBuffer = 0x90000010 ∧ (Kernel.reading.procs 0).blockedCount = 4 :=
  ⟨pipe_buffer_writable settled_reading, by decide, by decide, by decide⟩

/-! ### Fork -/

/-- Process `q` sees after a step what process `p` saw before. -/
structure SeesCopy (p q : Slot) (k k' : Kernel) : Prop where
  loads : ∀ va, k'.mem.userLoad (k'.procs q).cr3 va = k.mem.userLoad (k.procs p).cr3 va
  stores : ∀ va, k'.mem.allowsStore (k'.procs q).cr3 va = k.mem.allowsStore (k.procs p).cr3 va

/-- A process that sees what an untouched one sees has a copy. -/
theorem Untouched.seesCopy (h : Untouched p k k') {q : Slot} {m0 : Memory} {S' : Spaces} (hk' : Homes m0 k' S')
    (hp : k'.Alive p) (hq : k'.Alive q) (hsees : SeesAs k' S' q p) : SeesCopy p q k k' := by
  obtain ⟨d, hd, hdwells⟩ := hk'.home p hp
  obtain ⟨d', hd', hdwells'⟩ := hk'.home q hq
  have hpage := hsees d' hd' d hd hdwells'.cr3 hdwells.cr3
  refine ⟨fun va => ?_, fun va => ?_⟩
  · rw [← h.loads va, hdwells.cr3, hdwells'.cr3, (hk'.shows hd va).1, (hk'.shows hd' va).1]
    unfold Reference.load Reference.pageAt
    rw [hpage]
  · rw [← h.stores va, hdwells.cr3, hdwells'.cr3, (hk'.shows hd va).2, (hk'.shows hd' va).2]
    unfold Reference.pageAt
    rw [hpage]

/-- Steps that leave homes alone leave everybody untouched. -/
theorem SameHomes.untouched (h : SameHomes k k') (p : Slot) : Untouched p k k' := by
  have hcr3 := (h.home p).cr3
  refine ⟨hcr3, fun va => ?_, fun va => ?_⟩
  · show k'.mem.shelved.userLoad _ va = k.mem.shelved.userLoad _ va
    rw [h.mem, hcr3]
  · show k'.mem.shelved.allowsStore _ va = k.mem.shelved.allowsStore _ va
    rw [h.mem, hcr3]

/-- **A child gets a copy of its parent's memory**, and an address space of its own; nobody else, and not
the parent either, sees a difference. -/
theorem fork_copies (trap : Trap) {child : Slot} (h : Settled k) (hring : isRing3 trap.registers.cs = true)
    (hcurrent : k.processGetCurrent = some c)
    (hfork : (processFork c (trap.frame k) (trap.enter k).markCurrentFrame).1 = some child) :
    let k' := (processFork c (trap.frame k) (trap.enter k).markCurrentFrame).2
    ¬k.Alive child ∧ SeesCopy c child k k' ∧ (k'.procs child).cr3 ≠ (k'.procs c).cr3 ∧
      ∀ p, k.Alive p → k'.Alive p → Untouched p k k' := by
  obtain ⟨m0, S, c', hagrees, hk, hidle⟩ := h.peopled
  obtain rfl : c' = c := Option.some.inj (hagrees.processGetCurrent.symm.trans hcurrent)
  have henter := quiet_enter k hring
  have hmark := quiet_markCurrentFrame (trap.enter k)
  have hquiet := henter.trans hmark
  have hentered : SameHomes k (trap.enter k) := .of_same rfl rfl
  have hsame := hentered.trans (.markCurrentFrame (trap.enter k))
  have hpushed := hmark.view.ring _ (ring_enter k hring)
  generalize (trap.enter k).markCurrentFrame = k₁ at hfork hquiet hsame hpushed
  have h₁ := (hquiet.serves c' hagrees).agrees
  have hk₁ := hsame.homes hquiet.alive hk
  have hidle₁ : (k₁.procs c').blockReason ≠ .pipeRead := fun hwait => hidle ((hsame.home c').buffer hwait).1
  obtain ⟨S', hk', hapart, hchild⟩ := hk₁.processFork h₁ hidle₁ (trap.frame k)
  obtain ⟨hnew, hborn, hsees⟩ := hchild child hfork
  have hc : (processFork c' (trap.frame k) k₁).2.Alive c' := by
    rcases processFork_forking h₁ hpushed with ⟨hnone, -⟩ | ⟨q, -, hforking, -⟩
    · rw [hfork] at hnone
      cases hnone
    · unfold Kernel.Alive
      rw [(hforking.running c').mpr rfl]
      decide
  generalize (processFork c' (trap.frame k) k₁).2 = k' at hk' hapart hborn hsees hc
  have hkept (p : Slot) (hp : k.Alive p) (hp' : k'.Alive p) : Untouched p k k' :=
    (hsame.untouched p).trans (hk₁.untouched hk' hapart (not_not.mpr ((hquiet.alive p).mpr hp)) hp')
  have hcalive : k.Alive c' := Homes.alive_of_runs hagrees
  refine ⟨fun halive => hnew ((hquiet.alive child).mpr halive), (hkept c' hcalive hc).seesCopy hk' hc hborn hsees,
    fun heq => ?_, hkept⟩
  have hchildc := hk'.alone child c' hborn hc heq
  rw [hchildc] at hnew
  exact hnew (Homes.alive_of_runs h₁)

/-- The child of a parent that has stored 42 loads 42. -/
theorem fork_copies_piped :
    let k' := (processFork 0 (forkTrap.frame .piped) (forkTrap.enter .piped).markCurrentFrame).2
    (¬Kernel.piped.Alive 1 ∧ SeesCopy 0 1 .piped k' ∧ (k'.procs 1).cr3 ≠ (k'.procs 0).cr3 ∧
      ∀ p, Kernel.piped.Alive p → k'.Alive p → Untouched p .piped k') ∧
    Kernel.piped.mem.userLoad (Kernel.piped.procs 0).cr3 0x90000000 = some 42 ∧
      Kernel.piped.mem.allowsStore (Kernel.piped.procs 0).cr3 0x90000000 = true :=
  ⟨fork_copies forkTrap settled_piped rfl (by decide) (by rw [processFork_piped]; decide +kernel), by decide +kernel,
    by decide +kernel⟩

end AgenticOs
