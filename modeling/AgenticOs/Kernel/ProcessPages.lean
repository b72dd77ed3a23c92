import AgenticOs.Kernel.HomeCalls

/-!
# The pages of a process

The address space of a process that runs is one of user pages, and its heap lies where heaps lie (`ProcessPages`). What
a program does to its own pages keeps that:

* **Page faults** (`ProcessPages.faulted`): whatever `vm_handle_page_fault` answers, a page that it has mapped or
  copied is not the guard page, and the others are as they were.
* **`SYS_BRK`** (`processPages_syscallBrk`): the pages behind the new end of the heap are given back, and no page is
  mapped. That is read off the entries of the address space (`Represents.userPages_of_fewer`): an address space that
  has lost pages is one of user pages still, if nothing but frames of the allocator has been written.
* **Stores** (`ProcessPages.stored`): a byte that is stored lies in a page, and no page is a table.

`SYS_EXEC` sets it up.
-/

namespace AgenticOs

open Function Lib

namespace Memory.ProcessPages

variable {m : Memory} {proc : Process} {va e faultAddr errorCode : Word}

/-! ### Page faults -/

/-- A copy-on-write page of the process is made writable, or nothing happens. -/
theorem resolved (h : m.ProcessPages proc) (page : Word) :
    (m.pagingResolveCowFault m.activePageDirectory page).2.ProcessPages proc := by
  rcases hrun : m.pagingResolveCowFault m.activePageDirectory page with ⟨_ | _, m'⟩
  · have hcow := h.pages.resolveCow page
    rw [hrun] at hcow
    cases hcow with
    | unresolvable => exact h
    | exhausted => exact h
  · obtain ⟨e, e', hpage, huser, hwritable, hpaged⟩ := resolve_handled h.pages hrun
    refine (h.readied hpaged huser hwritable fun hc => ?_).process
    rw [hc, h.guard] at hpage
    cases hpage

/-- A page of the heap is mapped, or nothing happens. -/
theorem demandMapped (h : m.ProcessPages proc) (hlow : proc.heapStart ≤ va) (hhigh : pageAlignDown va < proc.heapEnd) :
    (m.demandMapHeapPage m.activePageDirectory (pageAlignDown va)).2.ProcessPages proc := by
  obtain ⟨hi, -, hguard⟩ := h.heap_page hlow hhigh
  rw [← dirIndex_pageAlignDown] at hi
  rcases hrun : m.demandMapHeapPage m.activePageDirectory (pageAlignDown va) with ⟨res, m'⟩
  have hdemand := h.pages.demandMap hi
  rw [hrun] at hdemand
  cases hdemand with
  | oom => exact h
  | mapped =>
    obtain ⟨e, huser, hwritable, hpaged⟩ := demandMap_handled h.pages hi hrun
    rw [pageSlot_pageAlignDown] at hpaged
    exact (h.readied hpaged huser hwritable hguard).process

/-- **A page fault** of the program keeps its pages, whether it is handled or not. -/
theorem faulted (h : m.ProcessPages proc) (hfault : m.GenuineFault errorCode faultAddr) :
    (m.vmHandlePageFault proc faultAddr errorCode).2.ProcessPages proc := by
  obtain ⟨access, haccess, rfl⟩ := hfault
  by_cases hmapped : (m.mappedEntry (pageSlot faultAddr)).isSome = true
  · rcases haccess with rfl | rfl
    · rw [h.loadFault_eq hmapped]
      exact h
    · obtain ⟨res, -, hrun⟩ := h.storeFault_eq hmapped
      rw [hrun]
      exact h.resolved (pageAlignDown faultAddr)
  · rw [Bool.not_eq_true, Option.isSome_eq_false_iff, Option.isNone_iff_eq_none] at hmapped
    obtain ⟨res, -, hrun⟩ := h.absentFault_eq hmapped haccess
    rw [hrun]
    split
    · rename_i hheap
      refine h.demandMapped hheap.1 (BitVec.lt_def.mpr ?_)
      exact (pageAlignDown_le faultAddr).trans_lt (BitVec.lt_def.mp hheap.2)
    · exact h

/-- A byte is stored in a page of the process. -/
theorem stored (h : m.ProcessPages proc) (hpage : m.userPage (pageSlot va) = some e) (b : Byte) :
    (m.storeByte va b).ProcessPages proc := by
  rw [storeByte_eq hpage]
  exact h.writeFrame (h.pages.frames _ e hpage).toPlain _

end Memory.ProcessPages

/-! ### `SYS_BRK` -/

namespace Represents

variable {m0 m m' : Memory} {S S' : Spaces} {d : Nat}

/-- An address space of user pages that has lost pages is one of user pages. -/
theorem userPages_of_fewer (h : Represents m0 m S) (h' : Represents m0 m' S') (hd : d ∈ S.live) (hd' : d ∈ S'.live)
    (hactive : m.activePageDirectory = frameAddr d) (hactive' : m'.activePageDirectory = frameAddr d)
    (hfewer : ∀ i j e, S'.entry d i j = some e → S.entry d i j = some e)
    (houtside : ∀ g, ¬Pool m0.frames g → m'.ram g = m.ram g) (hpages : m.UserPages) : m'.UserPages := by
  have hold {p : PageSlot} {e : Word} (he : S'.entry d p.1 p.2 = some e) : m.userPage p = some e :=
    (h.userPage_iff hd hactive).mpr (hfewer p.1 p.2 e he)
  refine h'.userPages hd' hactive' (fun i j e he => ?_) (fun p q e e' he he' => ?_) fun hs => ?_
  · exact hpages.inRange (i, j) e (hold he)
  · exact hpages.distinct p q e e' (hold he) (hold he')
  · -- the scratch table was never the allocator's
    have hscratch : m'.kernelScratchTable = m.kernelScratchTable := h'.scratch.trans h.scratch.symm
    rw [hscratch] at hs ⊢
    obtain ⟨hout, -⟩ := h.booted.scratch (h.scratch ▸ hs)
    rw [← h.scratch] at hout
    rw [houtside _ hout]
    exact ⟨(hpages.scratch hs).source, (hpages.scratch hs).dest⟩

end Represents

section

variable {m0 : Memory} {k : Kernel} {S : Spaces} {c : Slot}

/-- **`SYS_BRK`** keeps the pages of its caller. -/
theorem processPages_syscallBrk (hk : Homes m0 k S) (hc : Agrees k c) (h : k.mem.ProcessPages (k.procs c))
    (requestedBrk callerCs : Word) :
    (syscallBrk requestedBrk callerCs k).2.mem.ProcessPages ((syscallBrk requestedBrk callerCs k).2.procs c) := by
  rcases syscallBrk_cases hc requestedBrk callerCs with hrefused | ⟨hlow, hhigh, hdone⟩
  · rw [hrefused]
    exact h
  obtain ⟨d, hd, hdwells, hactive, htracks⟩ := hk.loaded hc
  obtain ⟨S', hdropped⟩ := htracks.dropPages hd fun page hpage =>
    inUserRange_brkPages (BitVec.le_trans hdwells.heapStart hlow) hhigh hdwells.heapEnd hpage
  rw [← hdwells.cr3] at hdropped
  rw [hdone]
  generalize (brkPages requestedBrk (k.procs c).heapEnd).foldl (fun m page => m.dropPage (k.procs c).cr3 page)
    k.mem = m' at hdropped ⊢
  have hactive' := hdropped.active.trans hactive
  have hd' := hdropped.tracks.mem_live hd
  have hpages := htracks.represents.userPages_of_fewer hdropped.tracks.represents hd hd' hactive hactive'
    (fun i j e => hdropped.fewer d i j e) hdropped.outside h.pages
  have hguard : m'.userPage (pageSlot userStackGuardBottom) = none := by
    rw [Option.eq_none_iff_forall_ne_some]
    intro e hpage
    have hentry := (hdropped.tracks.represents.userPage_iff hd' hactive').mp hpage
    have hbefore := (htracks.represents.userPage_iff hd hactive).mpr (hdropped.fewer d _ _ e hentry)
    rw [h.guard] at hbefore
    cases hbefore
  refine ⟨hpages, ?_, ?_, ?_, hguard⟩
  · rw [Kernel.setProc_self]
    exact h.active.trans hdropped.active.symm
  · rw [Kernel.setProc_self]
    exact h.heapStart
  · rw [Kernel.setProc_self]
    exact hhigh

end

end AgenticOs
