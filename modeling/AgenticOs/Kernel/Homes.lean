import AgenticOs.Kernel.Rescheduled
import AgenticOs.Kernel.Runs
import AgenticOs.Kernel.WritablePages

/-!
# Where processes live

* **Homes** (`Homes`): each process that is not dead has an address space of its own. No two share a
  directory, no directory is without its process, and the buffer of a process that waits for a pipe can be
  written in place (`Dwells`).
* **The others** (`Apart`): what a step does to all processes but some: they live where they lived, and see
  what they saw. It is a preorder, and grows with the set that is left out (`Apart.mono`).
* **Steps that leave homes alone** (`SameHomes`): memory and the homes of all processes are the same. They
  keep `Homes` (`SameHomes.homes`).
* **The process that runs** (`Homes.inSpace`, `Homes.prepared`): memory has changed in its address space, and
  so may have its entry in the table.

Which directory is loaded does not matter to who lives where (`Memory.shelved`).
-/

namespace AgenticOs

open Function Finset Lib

/-- Memory with the directory of the kernel loaded. Which directory is loaded does not matter to who lives
where. -/
def Memory.shelved (m : Memory) : Memory := m.pagingSwitchDirectory pageDirectory

/-- Only the directory that is loaded is another one. -/
theorem Memory.shelved_eq (m : Memory) : m.shelved = { m with activePageDirectory := pageDirectory } := rfl

/-- Memory is known by its shelved form and the directory that is loaded. -/
theorem Memory.eq_of_shelved {m m' : Memory} (h : m'.shelved = m.shelved)
    (hactive : m'.activePageDirectory = m.activePageDirectory) : m' = m := by
  have hall := congrArg (fun m : Memory => { m with activePageDirectory := m'.activePageDirectory }) h
  calc m' = { m'.shelved with activePageDirectory := m'.activePageDirectory } := rfl
    _ = { m.shelved with activePageDirectory := m'.activePageDirectory } := hall
    _ = m := by
      rw [hactive]
      rfl

/-- A process in the address space of `d`, with its buffer. -/
structure Dwells (S : Spaces) (p : Process) (d : Nat) : Prop extends p.LivesIn d where
  buffer : p.blockReason = .pipeRead →
    ∀ i < p.blockedCount, S.Writable d (pageSlot (p.blockedBuffer + BitVec.ofNat 32 i))

/-- Every process has an address space of its own. -/
structure Homes (m0 : Memory) (k : Kernel) (S : Spaces) : Prop where
  tracks : Tracks m0 ⟨k.mem.shelved, S.live⟩ S
  home : ∀ p, k.Alive p → ∃ d ∈ S.live, Dwells S (k.procs p) d
  alone : ∀ p q, k.Alive p → k.Alive q → (k.procs p).cr3 = (k.procs q).cr3 → p = q
  owned : ∀ d ∈ S.live, ∃ p, k.Alive p ∧ (k.procs p).cr3 = frameAddr d

/-- All processes but those in `A` live where they lived, and see what they saw. -/
structure Apart (A : Set Slot) (k k' : Kernel) (S S' : Spaces) : Prop where
  origin : ∀ p ∉ A, k'.Alive p → k.Alive p ∧ (k'.procs p).cr3 = (k.procs p).cr3
  page : ∀ p ∉ A, k'.Alive p → ∀ d, (k.procs p).cr3 = frameAddr d → S'.view.page d = S.view.page d

namespace Apart

variable {A B : Set Slot} {k k' k'' : Kernel} {S S' S'' : Spaces}

/-- Nothing has happened. -/
theorem refl (A : Set Slot) (k : Kernel) (S : Spaces) : Apart A k k S S :=
  ⟨fun _ _ hp => ⟨hp, rfl⟩, fun _ _ _ _ _ => rfl⟩

/-- Two steps after one another. -/
theorem trans (h : Apart A k k' S S') (h' : Apart A k' k'' S' S'') : Apart A k k'' S S'' where
  origin := by
    intro p hp halive
    obtain ⟨halive', hcr3'⟩ := h'.origin p hp halive
    obtain ⟨halive₀, hcr3⟩ := h.origin p hp halive'
    exact ⟨halive₀, hcr3'.trans hcr3⟩
  page := by
    intro p hp halive d hd
    obtain ⟨halive', -⟩ := h'.origin p hp halive
    obtain ⟨-, hcr3⟩ := h.origin p hp halive'
    exact (h'.page p hp halive d (hcr3.trans hd)).trans (h.page p hp halive' d hd)

/-- Less is said of more processes left out. -/
theorem mono (h : Apart A k k' S S') (hAB : A ⊆ B) : Apart B k k' S S' :=
  ⟨fun p hp => h.origin p fun hc => hp (hAB hc), fun p hp => h.page p fun hc => hp (hAB hc)⟩

end Apart

/-- What is elsewhere shows the same. -/
theorem SameSpace.view {d : Nat} {S S' : Spaces} (h : SameSpace d S S') : S'.view.page d = S.view.page d := by
  funext i j
  show (S'.entry d i j).map _ = (S.entry d i j).map _
  rw [h.entry]
  refine Option.map_congr fun e he => ?_
  rw [h.content i j e he]

/-- Pages of an address space that is the same can be written as before. -/
theorem SameSpace.writable {d : Nat} {S S' : Spaces} (h : SameSpace d S S') {q : PageSlot} (hq : S.Writable d q) :
    S'.Writable d q := by
  unfold Spaces.Writable
  rw [h.entry]
  exact hq

/-! ### Steps that leave homes alone -/

/-- The fields of a process that have to do with its home; a wait for a pipe may end. -/
structure Process.SameHome (p q : Process) : Prop where
  cr3 : q.cr3 = p.cr3
  heapStart : q.heapStart = p.heapStart
  heapEnd : q.heapEnd = p.heapEnd
  buffer : q.blockReason = .pipeRead →
    p.blockReason = .pipeRead ∧ q.blockedBuffer = p.blockedBuffer ∧ q.blockedCount = p.blockedCount

namespace Process.SameHome

variable {p q r : Process}

/-- The same process. -/
theorem refl (p : Process) : p.SameHome p := ⟨rfl, rfl, rfl, fun h => ⟨h, rfl, rfl⟩⟩

/-- Two changes after one another. -/
theorem trans (h : p.SameHome q) (h' : q.SameHome r) : p.SameHome r where
  cr3 := h'.cr3.trans h.cr3
  heapStart := h'.heapStart.trans h.heapStart
  heapEnd := h'.heapEnd.trans h.heapEnd
  buffer := by
    intro hr
    obtain ⟨hq, hbuffer', hcount'⟩ := h'.buffer hr
    obtain ⟨hp, hbuffer, hcount⟩ := h.buffer hq
    exact ⟨hp, hbuffer'.trans hbuffer, hcount'.trans hcount⟩

/-- Rescheduling moves nobody; a process that is woken waits for a pipe no longer. -/
theorem of_rescheduled (h : p.Rescheduled q) : p.SameHome q := by
  unfold Process.Rescheduled at h
  rw [h]
  exact ⟨rfl, rfl, rfl, fun h => ⟨h, rfl, rfl⟩⟩

/-- The process lives in the same address space. -/
theorem livesIn (h : p.SameHome q) {d : Nat} (hd : p.LivesIn d) : q.LivesIn d :=
  ⟨h.cr3.trans hd.cr3, h.heapStart ▸ hd.heapStart, h.heapEnd ▸ hd.heapEnd⟩

/-- And its buffer is as good as before. -/
theorem dwells (h : p.SameHome q) {d : Nat} {S : Spaces} (hd : Dwells S p d) : Dwells S q d := by
  refine ⟨h.livesIn hd.toLivesIn, fun hq => ?_⟩
  obtain ⟨hp, hbuffer, hcount⟩ := h.buffer hq
  rw [hbuffer, hcount]
  exact hd.buffer hp

end Process.SameHome

/-- Memory and the homes of all processes are the same. -/
structure SameHomes (k k' : Kernel) : Prop where
  mem : k'.mem.shelved = k.mem.shelved
  home : ∀ p, (k.procs p).SameHome (k'.procs p)

namespace SameHomes

variable {k k' k'' : Kernel} {m0 : Memory} {S : Spaces} {A : Set Slot}

/-- Nothing has changed. -/
theorem refl (k : Kernel) : SameHomes k k := ⟨rfl, fun _ => .refl _⟩

/-- Two steps after one another. -/
theorem trans (h : SameHomes k k') (h' : SameHomes k' k'') : SameHomes k k'' :=
  ⟨h'.mem.trans h.mem, fun p => (h.home p).trans (h'.home p)⟩

instance : IsPreorder Kernel SameHomes where
  refl := refl
  trans _ _ _ := trans

/-- Neither memory nor the table has changed. -/
theorem of_same (hmem : k'.mem = k.mem) (hprocs : k'.procs = k.procs) : SameHomes k k' :=
  ⟨congrArg Memory.shelved hmem, fun p => by rw [hprocs]; exact .refl _⟩

/-- A process has changed, and not where it lives. -/
theorem setProc {proc : Slot} {f : Process → Process} (hf : (k.procs proc).SameHome (f (k.procs proc))) :
    SameHomes k (k.setProc proc f) := by
  refine ⟨rfl, fun p => ?_⟩
  by_cases hp : p = proc
  · subst hp
    rw [Kernel.setProc_self]
    exact hf
  · rw [Kernel.setProc_of_ne _ hp]
    exact .refl _

/-- The scheduler has rescheduled. -/
theorem of_rescheduled (h : Rescheduled k.toScheduler k'.toScheduler) : SameHomes k k' := by
  refine ⟨?_, fun p => .of_rescheduled (h.procs p)⟩
  have hmem := h.mem
  rw [Memory.shelved_eq, Memory.shelved_eq, hmem]

/-- Such a step keeps the homes, if nobody is born or gone. -/
theorem homes (h : SameHomes k k') (halive : ∀ p, k'.Alive p ↔ k.Alive p) (hk : Homes m0 k S) : Homes m0 k' S where
  tracks := by
    rw [h.mem]
    exact hk.tracks
  home := by
    intro p hp
    obtain ⟨d, hd, hdwells⟩ := hk.home p ((halive p).mp hp)
    exact ⟨d, hd, (h.home p).dwells hdwells⟩
  alone := by
    intro p q hp hq hcr3
    rw [(h.home p).cr3, (h.home q).cr3] at hcr3
    exact hk.alone p q ((halive p).mp hp) ((halive q).mp hq) hcr3
  owned := by
    intro d hd
    obtain ⟨p, hp, hcr3⟩ := hk.owned d hd
    exact ⟨p, (halive p).mpr hp, (h.home p).cr3.trans hcr3⟩

/-- And nobody sees a difference. -/
theorem apart (h : SameHomes k k') (halive : ∀ p, k'.Alive p → k.Alive p) : Apart A k k' S S :=
  ⟨fun p _ hp => ⟨halive p hp, (h.home p).cr3⟩, fun _ _ _ _ _ => rfl⟩

end SameHomes

/-- Nobody dies, and nobody is born. -/
theorem Quiet.alive {k k' : Kernel} (h : Quiet k k') (p : Slot) : k'.Alive p ↔ k.Alive p := by
  unfold Kernel.Alive
  rcases h.state p with hs | ⟨hb, hr⟩
  · rw [hs]
  · rw [hb, hr]
    decide

/-! ### The process that runs -/

namespace Homes

variable {m0 : Memory} {k k' : Kernel} {S S' : Spaces} {c : Slot}

/-- The process that runs is alive. -/
theorem alive_of_runs (h : Agrees k c) : k.Alive c := by
  unfold Kernel.Alive
  rw [(h.runs.running c).mpr rfl]
  decide

/-- Memory with the address space of a process loaded. -/
theorem loadedBy (h : Homes m0 k S) (hc : k.Alive c) (hdirectory : k.mem.activePageDirectory = (k.procs c).cr3) :
    ∃ d ∈ S.live, Dwells S (k.procs c) d ∧ k.mem.activePageDirectory = frameAddr d ∧ Tracks m0 ⟨k.mem, S.live⟩ S := by
  obtain ⟨d, hd, hdwells⟩ := h.home c hc
  have hactive : k.mem.activePageDirectory = frameAddr d := hdirectory.trans hdwells.cr3
  refine ⟨d, hd, hdwells, hactive, ?_⟩
  have htracks := h.tracks.load (.inr ⟨d, hd, rfl⟩)
  have hlt := h.tracks.represents.live_lt hd
  have hmem : k.mem.shelved.pagingSwitchDirectory (frameAddr d) = k.mem := by
    unfold Memory.pagingSwitchDirectory
    rw [if_neg (h.tracks.represents.frameAddr_live_ne_zero hd), frameAddr_and_addrMask hlt, ← hactive]
    rfl
  rwa [hmem] at htracks

/-- Memory with the address space of the running process loaded. -/
theorem loaded (h : Homes m0 k S) (hc : Agrees k c) : ∃ d ∈ S.live, Dwells S (k.procs c) d ∧
    k.mem.activePageDirectory = frameAddr d ∧ Tracks m0 ⟨k.mem, S.live⟩ S :=
  h.loadedBy (alive_of_runs hc) hc.runs.directory

/-- A directory belongs to one process. -/
theorem cr3_ne (h : Homes m0 k S) {p q : Slot} (hp : k.Alive p) (hq : k.Alive q) (hne : p ≠ q) {d : Nat}
    (hd : (k.procs q).cr3 = frameAddr d) {d' : Nat} (hd' : (k.procs p).cr3 = frameAddr d') : d' ≠ d := by
  rintro rfl
  exact hne (h.alone p q hp hq (hd'.trans hd.symm))

/-- Memory has changed in the address space of the running process, and so may have its entry. -/
theorem inSpace (h : Homes m0 k S) (hc : Agrees k c) {d : Nat} (hd : (k.procs c).cr3 = frameAddr d)
    (hm : InSpace m0 S.live d k.mem k'.mem S S') (hothers : ∀ p, p ≠ c → k'.procs p = k.procs p)
    (hlive : d ∈ S.live) (hself : Dwells S' (k'.procs c) d) (halive : k'.Alive c) :
    Homes m0 k' S' ∧ Apart {c} k k' S S' := by
  have hsame : S'.live = S.live := hm.tracks.live
  have htracks : Tracks m0 ⟨k'.mem.shelved, S'.live⟩ S' := by
    rw [hsame]
    exact hm.tracks.load (.inl rfl)
  have hkept (p : Slot) : (k'.Alive p ↔ k.Alive p) ∧ (k'.procs p).cr3 = (k.procs p).cr3 := by
    by_cases hp : p = c
    · subst hp
      exact ⟨iff_of_true halive (alive_of_runs hc), hself.cr3.trans hd.symm⟩
    · unfold Kernel.Alive
      rw [hothers p hp]
      exact ⟨Iff.rfl, rfl⟩
  have hspace (p : Slot) (hp : p ≠ c) (hpalive : k.Alive p) {d' : Nat} (hd' : (k.procs p).cr3 = frameAddr d') :
      SameSpace d' S S' := hm.elsewhere d' (h.cr3_ne hpalive (alive_of_runs hc) hp hd hd')
  refine ⟨⟨htracks, fun p hp => ?_, fun p q hp hq hcr3 => ?_, fun d hd => ?_⟩,
    fun p _ hp => ⟨(hkept p).1.mp hp, (hkept p).2⟩,
    fun p hp hpalive d' hd' => (hspace p hp ((hkept p).1.mp hpalive) hd').view⟩
  · by_cases hpc : p = c
    · subst hpc
      exact ⟨d, hsame ▸ hlive, hself⟩
    · have hpalive := (hkept p).1.mp hp
      obtain ⟨d', hd', hdwells⟩ := h.home p hpalive
      rw [hothers p hpc]
      exact ⟨d', hsame ▸ hd', hdwells.toLivesIn,
        fun hwait i hi => (hspace p hpc hpalive hdwells.cr3).writable (hdwells.buffer hwait i hi)⟩
  · exact h.alone p q ((hkept p).1.mp hp) ((hkept q).1.mp hq)
      ((hkept p).2.symm.trans (hcr3.trans (hkept q).2))
  · obtain ⟨p, hp, hcr3⟩ := h.owned d (hsame ▸ hd)
    exact ⟨p, (hkept p).1.mpr hp, (hkept p).2.trans hcr3⟩

/-- The pages of the running process have been made writable, or stored into. -/
theorem prepared (h : Homes m0 k S) (hc : Agrees k c) {d : Nat} (hlive : d ∈ S.live)
    (hd : Dwells S (k.procs c) d) {m' : Memory} (hm : Prepares m0 S.live d k.mem m' S S') :
    Homes m0 (k.withMem m') S' ∧ Apart {c} k (k.withMem m') S S' :=
  h.inSpace hc hd.cr3 hm.toInSpace (fun _ _ => rfl) hlive
    ⟨hd.toLivesIn, fun hwait i hi => hm.writable _ (hd.buffer hwait i hi)⟩ (show k.Alive c from alive_of_runs hc)

end Homes

end AgenticOs
