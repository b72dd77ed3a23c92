import AgenticOs.Kernel.ForkRollback
import AgenticOs.Kernel.DeadSlots
import AgenticOs.Memory.ActivePages

/-!
# What is undone when a fork fails

After `process_fork` has returned `NULL`, for whatever reason, nothing that it counts or hands out has
changed, and the parent sees its memory as before (`ForkUndone`).

* **Address spaces** (`AddressSpaces`): memory that holds some address spaces. Every run of the paging
  operations leads to one (`Booted.addressSpaces`).
* **The table** (`ForkFailed.slots`): the slots have the same states and pids.
* **References** (`ForkFailed.refs`): both before and after the fork the counts of pipes and open files are
  those of the descriptors, and these are the same.
* **All together** (`ForkFailed.undone`).

That this holds of every failing call is `fork_all_or_nothing` in `Kernel/AllOrNothing.lean`.
-/

namespace AgenticOs

open Finset Function Lib

variable {k k' : Kernel} {parent : Slot} {live : Finset Nat} {d : Nat}

/-- Memory holds the address spaces with the directories `live`: the allocator's books name what uses
a frame, and a page that can be written in place is mapped once. Every run of the paging operations
leads to such a memory (`Booted.addressSpaces`). -/
def AddressSpaces (m : Memory) (live : Finset Nat) : Prop := ∃ m0 S, Tracks m0 ⟨m, live⟩ S

/-- What is as it was, when a fork of `parent` has failed. -/
structure ForkUndone (parent : Slot) (k k' : Kernel) : Prop where
  refcounts : ∀ physAddr, k'.mem.frames.frameGetRefcount physAddr = k.mem.frames.frameGetRefcount physAddr
  freeFrames : k'.mem.frames.frameGetFreeCount = k.mem.frames.frameGetFreeCount
  processCount : k'.processCount = k.processCount
  slots : ∀ p, (k'.procs p).state = (k.procs p).state ∧ (k'.procs p).pid = (k.procs p).pid
  freeStacks : k'.stackFreeBitmap = k.stackFreeBitmap
  files : ∀ i, (k'.vfs.vfsOpenFiles i).refCount = (k.vfs.vfsOpenFiles i).refCount
  pipes : ∀ i, (k'.pipes i).readers = (k.pipes i).readers ∧ (k'.pipes i).writers = (k.pipes i).writers
  loads : ∀ va, k'.mem.userLoad (k'.procs parent).cr3 va = k.mem.userLoad (k.procs parent).cr3 va
  stores : ∀ va, k'.mem.userStores (k'.procs parent).cr3 va = k.mem.userStores (k.procs parent).cr3 va

/-- Every run of the paging operations leads to address spaces. -/
theorem Booted.addressSpaces {m0 : Memory} (h : Booted m0) (ops : List PagingOp) :
    AddressSpaces ((⟨m0, ∅⟩ : PagingState).exec ops).memory ((⟨m0, ∅⟩ : PagingState).exec ops).live := by
  obtain ⟨S, htracks, -⟩ := h.tracks.exec ops
  exact ⟨m0, S, htracks⟩

namespace ForkFailed

/-- The slots have the same states and pids. -/
theorem slots (h : ForkFailed parent k k') (hname : DeadNameless k) (p : Slot) :
    (k'.procs p).state = (k.procs p).state ∧ (k'.procs p).pid = (k.procs p).pid := by
  by_cases halive : k.Alive p
  · rw [h.alive p halive]
    exact ⟨rfl, rfl⟩
  · have hdead : (k.procs p).state = .dead := not_not.mp halive
    obtain ⟨hdead', hsame | hzero⟩ := h.free p halive
    · rw [hsame]
      exact ⟨rfl, rfl⟩
    · exact ⟨hdead'.trans hdead.symm, hzero.trans (hname p hdead).symm⟩

/-- Both before and after the fork the counts are those of the descriptors, and these are the same. -/
theorem refs (h : ForkFailed parent k k') (hk : Balanced k) (hk' : Balanced k') (o : Object) :
    k'.count o = k.count o := by
  have hheld : k'.held = k.held := by
    funext ⟨p, fd⟩
    by_cases halive : k.Alive p
    · unfold Kernel.held
      rw [h.alive p halive]
    · rw [hk.dead p (not_not.mp halive) fd, hk'.dead p (h.free p halive).1 fd]
  rw [hk.exact, hk'.exact, hheld]

/-- Once the child is given back, everything is as it was before the fork. -/
theorem undone (h : ForkFailed parent k k') (hk : Balanced k) (hk' : Balanced k') (hname : DeadNameless k)
    (hspaces : AddressSpaces k.mem live) (hd : d ∈ live) (hcr3 : (k.procs parent).cr3 = frameAddr d)
    (hparent : k.Alive parent) : ForkUndone parent k k' := by
  obtain ⟨m0, S, htracks⟩ := hspaces
  obtain ⟨S', htracks', hheld, hcontent, hentry⟩ := htracks.of_cloneUndone hd (hcr3 ▸ h.memory)
  have hframes : k'.mem.frames = k.mem.frames :=
    htracks.represents.books.frames_eq htracks'.represents.books hheld
  have huser (va : Word) : k'.mem.userLoad (frameAddr d) va = k.mem.userLoad (frameAddr d) va ∧
      k'.mem.userStores (frameAddr d) va = k.mem.userStores (frameAddr d) va :=
    htracks.same_user htracks' hd hd hheld hcontent hentry
  have hcr3' : (k'.procs parent).cr3 = frameAddr d := by
    rw [h.alive parent hparent]
    exact hcr3
  refine ⟨fun _ => ?_, ?_, h.count, h.slots hname, h.bitmap, fun i => ?_, fun i => ⟨?_, ?_⟩,
    fun va => ?_, fun va => ?_⟩
  · rw [hframes]
  · rw [hframes]
  · exact h.refs hk hk' (.file i)
  · exact h.refs hk hk' (.readEnd i)
  · exact h.refs hk hk' (.writeEnd i)
  · rw [hcr3, hcr3']
    exact (huser va).1
  · rw [hcr3, hcr3']
    exact (huser va).2

end ForkFailed

end AgenticOs
