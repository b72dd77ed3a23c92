import AgenticOs.Memory.Ownership

/-!
# Copy-on-write is invisible

What a user program loads through any live directory is what it would load in the reference system, where a
clone copies every page at once and no frame is ever shared.

* **Loads** (`userLoad_eq`): a load finds the byte that the view of the address spaces shows.
* **Stores** (`Reference.step_store_other`): in the reference system a store reaches one address space only.
* **Main result** (`copy_on_write_refines_copying`): after any sequence of operations from any boot, every
  load through a live directory finds the byte of the reference system, and a store through one directory
  changes no byte that is loaded through another.

The simulation itself is `Tracks.exec`.
-/

namespace AgenticOs

open Function Finset Lib

namespace Tracks

variable {m0 : Memory} {s : PagingState} {S : Spaces} {d : Nat}

/-- A load finds the byte the view shows. -/
theorem userLoad_eq (h : Tracks m0 s S) (hd : d ∈ s.live) (va : Word) :
    s.memory.userLoad (frameAddr d) va = S.view.load d va := by
  have hpage : S.view.pageAt d va = (S.entry d (dirIndex va) (tableIndex va)).map fun e =>
      ⟨pageByte (S.content (frameOf e)), isWritable e || isCow e⟩ := rfl
  unfold Memory.userLoad Reference.load
  rw [hpage]
  rcases he : S.entry d (dirIndex va) (tableIndex va) with _ | e
  · rw [(h.represents.translate_none (h.live ▸ hd) he).1, if_neg Bool.false_ne_true]
    rfl
  · obtain ⟨hacc, -, hframe⟩ := h.represents.translate (h.user d _ _ e he) he
    rw [if_pos hacc, hframe, h.represents.layout.contents d _ _ e he]
    rfl

end Tracks

/-- In the reference system a store reaches one address space only. -/
theorem Reference.step_store_other (R : Reference) {d d' : Nat} (hne : d' ≠ d) (va : Word)
    (b : Byte) (o : Outcome) (va' : Word) :
    (R.step (.store d va b) o).load d' va' = R.load d' va' := by
  have key : (R.store d va b).load d' va' = R.load d' va' := by
    unfold Reference.store
    rcases hp : R.pageAt d va with _ | p
    · rfl
    · by_cases hs : p.storable = true
      · simp only [hs, if_true]
        unfold Reference.load Reference.pageAt Reference.setPage
        simp only [hne, false_and, if_false]
      · simp only [hs, if_false, Bool.false_eq_true]
  cases o with
  | done => exact key
  | failed => rfl
  | created n => rfl
  | mapped page => rfl

/-- **Copy-on-write fork is indistinguishable from eager copying.** After any sequence of
operations, every load through a live directory finds the byte of the reference system, and a store
through one directory changes no load through another. -/
theorem copy_on_write_refines_copying (boot : BootInfo) (ram : Nat → TableIndex → Word)
    (early : List (Nat × Nat)) (steps : List BootStep) (ops : List PagingOp) :
    let s0 := startPaging boot ram early steps
    let s := s0.exec ops
    let R := Reference.empty.exec (s0.outcomes ops)
    R.live = s.live ∧
    (∀ d ∈ s.live, ∀ va, s.memory.userLoad (frameAddr d) va = R.load d va) ∧
    (∀ d d', d' ∈ s.live → d' ≠ d → ∀ va b va',
      (s.step (.store d va b)).2.memory.userLoad (frameAddr d') va' =
        s.memory.userLoad (frameAddr d') va') := by
  intro s0 s R
  have hb : Booted s0.memory := bootMemory_booted boot ram early steps
  obtain ⟨S, h, hview⟩ : ∃ S, Tracks s0.memory s S ∧ S.view = R := hb.tracks.exec ops
  refine ⟨?_, fun d hd va => ?_, fun d d' hd' hne va b va' => ?_⟩
  · rw [← hview, ← h.live]
    rfl
  · rw [h.userLoad_eq hd, hview]
  · obtain ⟨S', h', hview'⟩ := h.step (.store d va b)
    have hlive : (s.step (.store d va b)).2.live = s.live := by
      unfold PagingState.step
      split <;> rfl
    rw [h'.userLoad_eq (hlive ▸ hd'), h.userLoad_eq hd', hview',
      Reference.step_store_other _ hne]

end AgenticOs
