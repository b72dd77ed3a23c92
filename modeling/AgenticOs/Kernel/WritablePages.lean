import AgenticOs.Kernel.ImageSpace
import AgenticOs.Kernel.PageWalk
import AgenticOs.Memory.UserPages

/-!
# Pages are made writable

Before the kernel stores into a range of a process it makes the pages of the range writable, one by one: a
shared page is copied, a page of the heap that is not there is mapped.

* **Flags** (`pageFlags_some`, `pageFlags_none`): what the flags that the kernel reads say about the entry of
  the page.
* **One page** (`Prepares`): all of it happens in one address space, and no page of it loses its permission.
  Resolving a copy-on-write fault (`prepares_resolve`), mapping a heap page (`prepares_demandMap`) and storing
  bytes (`prepares_storeBytes`) are such steps.
* **A range** (`prepares_writePages`): for a process that lives in an address space with its heap where heaps
  lie (`Process.LivesIn`), the loop of `uaccess_prepare_write` is one too.
-/

namespace AgenticOs

open Function Finset Lib

/-! ### Flags -/

namespace Represents

variable {m0 m : Memory} {S : Spaces} {d : Nat} {va : Word} {e : Word}

/-- The flags that are read at the address of a user page. -/
theorem pageFlags_some (h : Represents m0 m S) (he : S.entry d (dirIndex va) (tableIndex va) = some e) :
    m.pagingGetPageFlagsInDirectory (frameAddr d) va = e &&& flagMask ∧ isPresent e = true ∧ isUser e = true := by
  obtain ⟨t, ht⟩ := h.books.wellFormed.entries d _ _ e he
  obtain ⟨hd, hp, -, -⟩ := h.entry_of_table ht
  have hpage := h.layout.pages d _ t ht (tableIndex va)
  rw [he] at hpage
  obtain ⟨hpe, hue, heq⟩ := userEntry_eq_some.mp hpage.symm
  rw [heq] at hpe hue
  refine ⟨?_, hpe, hue⟩
  unfold Memory.pagingGetPageFlagsInDirectory
  dsimp only
  rw [if_neg (by
    rw [not_or, h.entry_dir hd, test_pagePresent, hp]
    exact ⟨h.frameAddr_live_ne_zero hd, by decide⟩), h.entry_table ht, heq]

/-- Where there is no user page, the flags are not those of one. -/
theorem pageFlags_none (h : Represents m0 m S) (hd : d ∈ S.live)
    (he : S.entry d (dirIndex va) (tableIndex va) = none) :
    has (m.pagingGetPageFlagsInDirectory (frameAddr d) va) (pagePresent ||| pageUser) = false := by
  unfold Memory.pagingGetPageFlagsInDirectory
  dsimp only
  split
  · decide
  rename_i hthere
  rw [not_or, Bool.not_eq_false, test_pagePresent, h.entry_dir hd] at hthere
  have hmask (e : Word) : has (e &&& flagMask) (pagePresent ||| pageUser) = has e (pagePresent ||| pageUser) := by
    obtain ⟨hp, hu, -⟩ := Memory.flag_and_flagMask e
    rw [has_or, has_or, has_pagePresent, has_pageUser, has_pagePresent, has_pageUser, hp, hu]
  rw [hmask]
  rcases ht : S.table d (dirIndex va) with _ | t
  · rw [h.entry_dir hd]
    unfold Memory.entry
    rw [frameOf_and_addrMask]
    exact has_presentUser_of_none (h.kernelTable_of_shared hd hthere.2 ht (tableIndex va))
  · rw [h.entry_table ht]
    refine has_presentUser_of_none ?_
    rw [← he]
    exact (h.layout.pages d _ t ht (tableIndex va)).symm

/-- Flags of a user page that can be written in place. -/
theorem writable_of_flags (h : Represents m0 m S) (hd : d ∈ S.live)
    (hflags : has (m.pagingGetPageFlagsInDirectory (frameAddr d) va)
      (pagePresent ||| pageUser ||| pageWritable) = true) :
    S.Writable d (pageSlot va) := by
  rw [has_or, Bool.and_eq_true] at hflags
  rcases he : S.entry d (dirIndex va) (tableIndex va) with _ | e
  · rw [h.pageFlags_none hd he] at hflags
    cases hflags.1
  · have hw := hflags.2
    obtain ⟨-, -, hmask, -⟩ := Memory.flag_and_flagMask e
    rw [(h.pageFlags_some he).1, has_pageWritable, hmask] at hw
    exact ⟨e, he, hw⟩

/-- Flags of no page. -/
theorem entry_none_of_flags (h : Represents m0 m S)
    (hflags : test (m.pagingGetPageFlagsInDirectory (frameAddr d) va) pagePresent = false) :
    S.entry d (dirIndex va) (tableIndex va) = none := by
  rcases he : S.entry d (dirIndex va) (tableIndex va) with _ | e
  · rfl
  · obtain ⟨heq, hp, -⟩ := h.pageFlags_some he
    rw [heq, test_pagePresent, (Memory.flag_and_flagMask e).1, hp] at hflags
    cases hflags

end Represents

/-! ### One page -/

/-- Memory has changed in the address space of `d` only, and its pages that could be written in place still
can. -/
structure Prepares (m0 : Memory) (live : Finset Nat) (d : Nat) (m m' : Memory) (S S' : Spaces) : Prop
    extends InSpace m0 live d m m' S S' where
  writable : ∀ q, S.Writable d q → S'.Writable d q

/-- Two pages one after another. -/
theorem Prepares.trans {m0 m m' m'' : Memory} {live : Finset Nat} {d : Nat} {S S' S'' : Spaces}
    (h : Prepares m0 live d m m' S S') (h' : Prepares m0 live d m' m'' S' S'') : Prepares m0 live d m m'' S S'' :=
  ⟨h.toInSpace.trans h'.toInSpace, fun q hq => h'.writable q (h.writable q hq)⟩

/-- An entry that can be written in place takes the place of another. -/
theorem Spaces.Writable.setAt {S S' : Spaces} {d : Nat} {va e : Word}
    (hentry : S'.entry = AgenticOs.setAt S.entry d (dirIndex va) (tableIndex va) (some e))
    (hw : isWritable e = true) :
    S'.Writable d (pageSlot va) ∧ ∀ q, S.Writable d q → S'.Writable d q := by
  have hself : S'.Writable d (pageSlot va) := by
    refine ⟨e, ?_, hw⟩
    rw [hentry]
    exact if_pos ⟨rfl, rfl, rfl⟩
  refine ⟨hself, fun q hq => ?_⟩
  by_cases hslot : q = pageSlot va
  · exact hslot ▸ hself
  · exact hq.other hentry hslot

namespace Tracks

variable {m0 m : Memory} {live : Finset Nat} {S : Spaces} {d : Nat} {va page : Word}

/-- Nothing was prepared. -/
theorem unprepared (h : Tracks m0 ⟨m, live⟩ S) : Prepares m0 live d m m S S := ⟨h.self, fun _ hq => hq⟩

/-- `paging_resolve_cow_fault` in one address space. -/
theorem prepares_resolve (h : Tracks m0 ⟨m, live⟩ S) (hd : d ∈ live) (va : Word) :
    ∃ S', Prepares m0 live d m (m.pagingResolveCowFault (frameAddr d) va).2 S S' ∧
      ((m.pagingResolveCowFault (frameAddr d) va).1 = true → S'.Writable d (pageSlot va)) := by
  have hactive := m.pagingResolveCowFault_active (frameAddr d) va
  rcases h.represents.resolveCowFault (h.mem_live hd) h.pageHand va with
    ⟨hfail, h'⟩ | ⟨e, he, -, -, -, ⟨hone, h'⟩ | ⟨f, hfree, hlt, h'⟩⟩
  · exact ⟨S, ⟨⟨h.same h', .refl d S, hactive⟩, fun _ hq => hq⟩, fun hok => by rw [hfail] at hok; cases hok⟩
  · -- the only mapping: the frame stays
    obtain ⟨hframe, -, hw, -, -⟩ := reuseEntry_facts e
    refine ⟨_, ⟨⟨⟨h', h.live, h.pageHand, h.tableHand, h.user_setAt (h.user d _ _ e he) _, ?_⟩,
      .setAt (fun _ _ => rfl) rfl fun _ _ _ _ _ _ => rfl, hactive⟩, (Spaces.Writable.setAt rfl hw).2⟩,
      fun _ => (Spaces.Writable.setAt rfl hw).1⟩
    refine h.unshared.setAt rfl fun d' i' j' e' he' hf => ?_
    exact only_mapper h.represents he hone d' i' j' e' he' (hf.trans hframe)
  · -- a private copy
    obtain ⟨hframe, -, hw, -, -⟩ := copyEntry_facts hlt e
    refine ⟨_, ⟨⟨⟨h', h.live, h.pageHand, h.tableHand, h.user_setAt (h.user d _ _ e he) _, ?_⟩,
      .setAt (fun _ _ => rfl) rfl fun d' i j e' _ he' => ?_, hactive⟩, (Spaces.Writable.setAt rfl hw).2⟩,
      fun _ => (Spaces.Writable.setAt rfl hw).1⟩
    · refine h.unshared.setAt rfl fun d' i' j' e' he' hf => ?_
      exact absurd (hf.trans hframe) (not_mapped h.represents hfree he')
    · exact update_of_ne (not_mapped h.represents hfree he') ..

/-- `demand_map_heap_page` of a page that is not there, in the loaded address space. -/
theorem prepares_demandMap (h : Tracks m0 ⟨m, live⟩ S) (hd : d ∈ live) (hactive : m.activePageDirectory = frameAddr d)
    (hi : inUserRange (dirIndex page)) (hnone : S.entry d (dirIndex page) (tableIndex page) = none) :
    ∃ S', Prepares m0 live d m (m.demandMapHeapPage (frameAddr d) page).2 S S' ∧
      ((m.demandMapHeapPage (frameAddr d) page).1 = .handled → S'.Writable d (pageSlot page)) := by
  have huser : isUser (pagePresent ||| pageWritable ||| pageUser) = true := by decide
  unfold Memory.demandMapHeapPage Memory.frameAlloc
  dsimp only
  rcases h.mapFrame hd hi huser (m.frames.totalFrames * frameSize) with
    heq | ⟨f, m₁, hpos, hlt, heq, -, -, hback, hmap⟩
  · rw [heq, if_pos rfl]
    exact ⟨S, h.unprepared, nofun⟩
  rw [heq]
  dsimp only
  rw [if_neg (frameAddr_ne_zero hpos hlt)]
  rcases hmap hnone with hfail | ⟨m₂, S₂, e, hdone, h₂, hentry₂, -, hw⟩
  · rw [hfail, if_pos rfl]
    exact ⟨S, ⟨hback, fun _ hq => hq⟩, nofun⟩
  rw [hdone, if_neg (Ne.symm Bool.false_ne_true)]
  obtain ⟨hself, hall⟩ := Spaces.Writable.setAt hentry₂ (hw.trans (by decide))
  obtain ⟨S₃, h₃, hentry₃⟩ := h₂.tracks.clearPage (h₂.active.trans hactive) hself
  exact ⟨S₃, ⟨h₂.trans h₃, fun q hq => (hall q hq).congr hentry₃⟩, fun _ => hself.congr hentry₃⟩

/-- Bytes are stored. -/
theorem prepares_storeBytes (h : Tracks m0 ⟨m, live⟩ S) (hactive : m.activePageDirectory = frameAddr d) (va : Word)
    (bytes : List Byte) (hwritable : ∀ k < bytes.length, S.Writable d (pageSlot (va + BitVec.ofNat 32 k))) :
    ∃ S', Prepares m0 live d m (m.storeBytes va bytes) S S' := by
  obtain ⟨S', h', hentry⟩ := h.storeBytes hactive va bytes hwritable
  exact ⟨S', h', fun _ hq => hq.congr hentry⟩

end Tracks

/-! ### A range of a process -/

/-- A process lives in the address space of `d`, and its heap lies where heaps lie. -/
structure Process.LivesIn (p : Process) (d : Nat) : Prop where
  cr3 : p.cr3 = frameAddr d
  heapStart : processHeapStart ≤ p.heapStart
  heapEnd : p.heapEnd ≤ processHeapLimit

/-- The heap is in the user range. -/
theorem Process.LivesIn.inUserRange {p : Process} {d : Nat} (h : p.LivesIn d) {va : Word} (hlow : p.heapStart ≤ va)
    (hhigh : va < p.heapEnd) : inUserRange (dirIndex va) := by
  have hstart := h.heapStart
  have hend := h.heapEnd
  rw [BitVec.le_def] at hstart hend hlow
  rw [BitVec.lt_def] at hhigh
  have h₁ : (processHeapStart : Word).toNat = 0x90000000 := rfl
  have h₂ : (processHeapLimit : Word).toNat = 0xA0000000 := rfl
  unfold AgenticOs.inUserRange
  simp only [dirIndex]
  omega

namespace Tracks

variable {m0 m : Memory} {live : Finset Nat} {S : Spaces} {d : Nat} {proc : Process}

/-- `vm_prepare_user_write_page` -/
theorem prepares_writePage (h : Tracks m0 ⟨m, live⟩ S) (hd : d ∈ live) (hactive : m.activePageDirectory = frameAddr d)
    (hproc : proc.LivesIn d) (page : Word) :
    ∃ S', Prepares m0 live d m (m.vmPrepareUserWritePage proc page).2 S S' ∧
      ((m.vmPrepareUserWritePage proc page).1 = .handled → S'.Writable d (pageSlot page)) := by
  unfold Memory.vmPrepareUserWritePage
  rw [hproc.cr3]
  split
  · exact ⟨S, h.unprepared, nofun⟩
  dsimp only
  split
  · rename_i hflags
    exact ⟨S, h.unprepared, fun _ => h.represents.writable_of_flags (h.mem_live hd) hflags⟩
  split
  · obtain ⟨S', h', hw⟩ := h.prepares_resolve hd page
    refine ⟨S', h', fun hok => hw ?_⟩
    by_contra hno
    rw [if_neg hno] at hok
    cases hok
  split
  · rename_i hheap
    exact h.prepares_demandMap hd hactive (hproc.inUserRange hheap.2.1 hheap.2.2)
      (h.represents.entry_none_of_flags hheap.1)
  · exact ⟨S, h.unprepared, nofun⟩

/-- The loop of `uaccess_prepare_write`. -/
theorem prepares_writePages (h : Tracks m0 ⟨m, live⟩ S) (hd : d ∈ live) (hactive : m.activePageDirectory = frameAddr d)
    (hproc : proc.LivesIn d) (pages : List Word) :
    ∃ S', Prepares m0 live d m (Memory.prepareWritePages proc pages m).2 S S' ∧
      ((Memory.prepareWritePages proc pages m).1 = uaccessSuccess → ∀ page ∈ pages, S'.Writable d (pageSlot page)) := by
  have hoom : uaccessEnomem ≠ uaccessSuccess := by decide
  have hfault : uaccessEfault ≠ uaccessSuccess := by decide
  induction pages generalizing m S with
  | nil => exact ⟨S, h.unprepared, nofun⟩
  | cons page pages ih =>
    obtain ⟨S₁, h₁, hw₁⟩ := h.prepares_writePage hd hactive hproc page
    unfold Memory.prepareWritePages
    dsimp only
    generalize m.vmPrepareUserWritePage proc page = r at h₁ hw₁
    rcases hr : r.1 with _ | _ | _ | _
    · exact ⟨S₁, h₁, fun hc => absurd hc hfault⟩
    · obtain ⟨S₂, h₂, hw₂⟩ := ih h₁.tracks (h₁.active.trans hactive)
      refine ⟨S₂, h₁.trans h₂, fun hok p hp => ?_⟩
      rcases List.mem_cons.mp hp with rfl | hp
      · exact h₂.writable _ (hw₁ hr)
      · exact hw₂ hok p hp
    · exact ⟨S₁, h₁, fun hc => absurd hc hfault⟩
    · exact ⟨S₁, h₁, fun hc => absurd hc hoom⟩

end Tracks

end AgenticOs
