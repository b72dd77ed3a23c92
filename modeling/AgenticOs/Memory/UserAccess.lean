import AgenticOs.Memory.PageOps
import AgenticOs.Lib.Bytes

/-!
# Loads and stores of a user program

A user program reads a byte when both levels of the translation carry `PAGE_PRESENT` and `PAGE_USER`. It
writes a byte when they carry `PAGE_WRITABLE` too; otherwise the processor faults, the kernel tries
`paging_resolve_cow_fault`, and the store is run again.

* **Processor**: `userLoad` is what a program finds at an address, or a fault (`none`); `userStore` is what it
  does to memory when it stores. `loadByte` and `storeByte` are what the kernel does in the address space that
  is loaded.
* **Bytes of a page** (`pageByte_setPageByte`): a store changes one byte of the page.
* **Represented memory**: what the processor finds at a mapped address (`translate`) and at one without a page
  (`translate_none`); a byte stored in a page that one entry maps changes that page and no other
  (`userWrite_represents`).
-/

namespace AgenticOs

open Function Finset Lib

/-! ### Bytes of a page -/

/-- A byte of a page. -/
abbrev PageOffset := Fin 4096

/-- The offset of an address in its page. -/
def pageOffset (virtualAddr : Word) : PageOffset :=
  ⟨virtualAddr.toNat % 4096, Nat.mod_lt _ (by decide)⟩

/-- The word of a page that holds a byte. -/
def wordIndex (o : PageOffset) : TableIndex := ⟨o / 4, by omega⟩

/-- A byte of a page. -/
def pageByte (page : TableIndex → Word) (o : PageOffset) : Byte :=
  wordByte (page (wordIndex o)) (o % 4)

/-- A page with one byte replaced. -/
def setPageByte (page : TableIndex → Word) (o : PageOffset) (b : Byte) : TableIndex → Word :=
  update page (wordIndex o) (setWordByte (page (wordIndex o)) (o % 4) b)

/-- A store changes one byte of the page. -/
theorem pageByte_setPageByte (page : TableIndex → Word) (o : PageOffset) (b : Byte) :
    pageByte (setPageByte page o b) = update (pageByte page) o b := by
  funext o'
  unfold pageByte setPageByte
  by_cases hw : wordIndex o' = wordIndex o
  · have hdiv : o'.val / 4 = o.val / 4 := congrArg Fin.val hw
    rw [hw, update_self, wordByte_setWordByte _ (by omega) b (by omega)]
    by_cases ho : o' = o
    · subst ho
      rw [if_pos rfl, update_self]
    · have hne : ¬ o'.val % 4 = o.val % 4 := fun hmod => ho (Fin.ext (by omega))
      rw [if_neg hne, update_of_ne ho, hw]
  · have ho : o' ≠ o := fun h => hw (congrArg wordIndex h)
    rw [update_of_ne hw, update_of_ne ho]

namespace Memory

/-! ### The processor's view -/

/-- The frame an address translates to. -/
def userFrame (m : Memory) (directory virtualAddr : Word) : Nat :=
  frameOf (m.entry (m.entry directory (dirIndex virtualAddr) &&& addrMask)
    (tableIndex virtualAddr))

/-- A load of a user program; `none` is a fault. -/
def userLoad (m : Memory) (directory virtualAddr : Word) : Option (Byte) :=
  if m.isUserAccessible directory virtualAddr then
    some (pageByte (m.ram (m.userFrame directory virtualAddr)) (pageOffset virtualAddr))
  else none

/-- A byte is written to the frame an address translates to. -/
def userWrite (m : Memory) (directory virtualAddr : Word) (b : Byte) : Memory :=
  m.writeFrame (m.userFrame directory virtualAddr)
    (setPageByte (m.ram (m.userFrame directory virtualAddr)) (pageOffset virtualAddr) b)

/-- The byte the kernel loads from an address of the active address space. -/
def loadByte (m : Memory) (address : Word) : Byte :=
  pageByte (m.ram (m.userFrame m.activePageDirectory address)) (pageOffset address)

/-- The kernel stores a byte. -/
def storeByte (m : Memory) (address : Word) (b : Byte) : Memory :=
  m.userWrite m.activePageDirectory address b

/-- The kernel stores bytes from an address on. -/
def storeBytes (m : Memory) (address : Word) : List Byte → Memory
  | [] => m
  | b :: bytes => (m.storeByte address b).storeBytes (address + 1) bytes

/-- The kernel clears the page of an address. -/
def clearPage (m : Memory) (address : Word) : Memory :=
  m.writeFrame (m.userFrame m.activePageDirectory address) fun _ => 0

/-- A store that must not fault. -/
def userStoreDirect (m : Memory) (directory virtualAddr : Word) (b : Byte) : Memory :=
  if m.isUserWritable directory virtualAddr then m.userWrite directory virtualAddr b else m

/-- A store of a user program: a write fault runs `paging_resolve_cow_fault`, and when that has
handled it the store is run again.
Source: `vm.c` `vm_handle_page_fault` -/
def userStore (m : Memory) (directory virtualAddr : Word) (b : Byte) : Memory :=
  if m.isUserWritable directory virtualAddr then m.userWrite directory virtualAddr b
  else
    let r := m.pagingResolveCowFault directory virtualAddr
    if r.1 then r.2.userStoreDirect directory virtualAddr b else r.2

/-- A store to a copy-on-write page that is dropped because the fault cannot be resolved. -/
def userStoreDropped (m : Memory) (directory virtualAddr : Word) : Bool :=
  has (m.pagingGetPageFlagsInDirectory directory virtualAddr)
      (pagePresent ||| pageUser ||| pageCow) &&
    !m.isUserWritable directory virtualAddr &&
    !(m.pagingResolveCowFault directory virtualAddr).1

end Memory

/-! ### The same, on represented memory -/

namespace Represents

variable {m0 m : Memory} {S : Spaces} {d : Nat} {va : Word}

/-- What the processor finds at a mapped address of the user range. -/
theorem translate (h : Represents m0 m S) {e : Word} (hi : inUserRange (dirIndex va))
    (he : S.entry d (dirIndex va) (tableIndex va) = some e) :
    m.isUserAccessible (frameAddr d) va = true ∧
      m.isUserWritable (frameAddr d) va = isWritable e ∧
      m.userFrame (frameAddr d) va = frameOf e := by
  obtain ⟨t, ht⟩ := h.books.wellFormed.entries d _ _ e he
  obtain ⟨hd, hp, hu, -⟩ := h.entry_of_table ht
  have hi0 : dirIndex va ≠ 0 := by
    intro h0
    rw [h0] at hi
    exact absurd hi (by decide)
  have hentry : m.entry (m.entry (frameAddr d) (dirIndex va) &&& addrMask) (tableIndex va) = e := by
    have := h.entry_table (j := tableIndex va) ht
    rw [frameAddr_and_addrMask (h.live_lt hd)] at this
    rw [this]
    have hpage := h.layout.pages d _ t ht (tableIndex va)
    rw [he] at hpage
    exact (userEntry_eq_some.mp hpage.symm).2.2
  have hdir : m.entry (frameAddr d) (dirIndex va) = m.ram d (dirIndex va) := by
    rw [← frameAddr_and_addrMask (h.live_lt hd)]
    exact h.entry_dir hd
  have hpage := h.layout.pages d _ t ht (tableIndex va)
  rw [he] at hpage
  obtain ⟨hpe, hue, heq⟩ := userEntry_eq_some.mp hpage.symm
  rw [heq] at hpe hue
  refine ⟨?_, ?_, ?_⟩
  · unfold Memory.isUserAccessible
    rw [hentry, hdir]
    simp [has_or, hp, hu hi0, hpe, hue]
  · unfold Memory.isUserWritable
    rw [hentry, hdir]
    simp [has_or, hp, hu hi0, hpe, hue, h.layout.writable d hd _ hp (hu hi0)]
  · unfold Memory.userFrame
    rw [hentry]

/-- An address without a user page is not accessible. -/
theorem translate_none (h : Represents m0 m S) (hd : d ∈ S.live)
    (he : S.entry d (dirIndex va) (tableIndex va) = none) :
    m.isUserAccessible (frameAddr d) va = false ∧ m.isUserWritable (frameAddr d) va = false := by
  have hdir : m.entry (frameAddr d) (dirIndex va) = m.ram d (dirIndex va) := by
    rw [← frameAddr_and_addrMask (h.live_lt hd)]
    exact h.entry_dir hd
  unfold Memory.isUserAccessible Memory.isUserWritable
  rw [hdir]
  by_cases hc : isPresent (m.ram d (dirIndex va)) = true ∧ isUser (m.ram d (dirIndex va)) = true
  · have ht : S.table d (dirIndex va) = some (frameOf (m.ram d (dirIndex va))) := by
      rw [h.layout.dirs d hd]
      simp [ownedTable, ownsTable, hc.1, hc.2]
    have hpage := h.layout.pages d _ _ ht (tableIndex va)
    rw [he] at hpage
    have hno := has_presentUser_of_none hpage.symm
    unfold Memory.entry
    rw [frameOf_and_addrMask, has_or (n := pageWritable), has_or (n := pageWritable), hno]
    simp
  · have hno : has (m.ram d (dirIndex va)) (pagePresent ||| pageUser) = false := by
      rw [has_or, has_pagePresent, has_pageUser, ← Bool.not_eq_true, Bool.and_eq_true]
      exact hc
    rw [has_or (n := pageWritable), hno]
    simp

/-- A byte stored in a page that one entry maps changes that page and no other. -/
theorem userWrite_represents (h : Represents m0 m S) {e : Word} (hi : inUserRange (dirIndex va))
    (he : S.entry d (dirIndex va) (tableIndex va) = some e) (b : Byte) :
    Represents m0 (m.userWrite (frameAddr d) va b)
      (S.withContent (update S.content (frameOf e)
        (setPageByte (S.content (frameOf e)) (pageOffset va) b))) := by
  unfold Memory.userWrite
  rw [(h.translate hi he).2.2, h.layout.contents d _ _ e he]
  refine h.writeContent ?_ ?_ (h.books.pool _ _ (held_page he)) _
  · exact fun hd => h.page_ne_structural rfl (held_dir hd) he rfl
  · exact fun d' i' ht => h.page_ne_structural (o := .table d' i') rfl ht he rfl

/-- The flags `paging_get_page_flags_in_directory` reads at a mapped address. -/
theorem pageFlags (h : Represents m0 m S) {e : Word}
    (he : S.entry d (dirIndex va) (tableIndex va) = some e) :
    has (m.pagingGetPageFlagsInDirectory (frameAddr d) va) (pagePresent ||| pageUser ||| pageCow) =
      isCow e := by
  obtain ⟨t, ht⟩ := h.books.wellFormed.entries d _ _ e he
  obtain ⟨hd, hp, -, -⟩ := h.entry_of_table ht
  have hpage := h.layout.pages d _ t ht (tableIndex va)
  rw [he] at hpage
  obtain ⟨hpe, hue, heq⟩ := userEntry_eq_some.mp hpage.symm
  unfold Memory.pagingGetPageFlagsInDirectory
  dsimp only
  rw [if_neg (by
    rw [not_or, h.entry_dir hd, test_pagePresent, hp]
    exact ⟨h.frameAddr_live_ne_zero hd, by decide⟩)]
  rw [h.entry_table ht, has_or, has_or, has_pagePresent, has_pageUser, has_pageCow]
  simp only [bit_and, bit_flagMask]
  rw [heq] at hpe hue ⊢
  simp [hpe, hue]

end Represents

end AgenticOs
