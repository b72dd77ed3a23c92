import AgenticOs.Memory.UserPages

/-!
# The bytes of user pages

What the kernel stores at addresses of user pages is what the processor finds there afterwards.

* **Pages found as before** (`SamePages`): a set of pages at which the processor finds the same bytes, and may
  do the same. A page that gets another entry changes no other page (`Repaged.samePages`), since no two pages
  have one frame.
* **Stores** (`UserPages.storeBytes`): after the kernel has stored bytes from an address on, they are found
  there, and every other byte of a user page is as before (`Stored.load_at`, `Stored.load_other`).
* **Flags** (`UserPages.setFlags`): other flags of a page change none of its bytes.

A store may cross from one page to the next; the induction is on the bytes (`storeByte_load` is the step).
-/

namespace AgenticOs

open Function Lib

namespace Memory

variable {m m' m'' : Memory} {p q : PageSlot} {P Q : Set PageSlot} {va e : Word} {b : Byte} {bytes : List Byte}

/-- A user program finds the pages `P` as before. -/
structure SamePages (m m' : Memory) (P : Set PageSlot) : Prop where
  active : m'.activePageDirectory = m.activePageDirectory
  entries : ∀ q ∈ P, m'.userPage q = m.userPage q
  loads : ∀ x, pageSlot x ∈ P → m'.userLoad m'.activePageDirectory x = m.userLoad m.activePageDirectory x

/-- The same memory. -/
theorem SamePages.refl (m : Memory) (P : Set PageSlot) : m.SamePages m P := ⟨rfl, fun _ _ => rfl, fun _ _ => rfl⟩

/-- Two changes after one another. -/
theorem SamePages.trans (h : m.SamePages m' P) (h' : m'.SamePages m'' P) : m.SamePages m'' P :=
  ⟨h'.active.trans h.active, fun q hq => (h'.entries q hq).trans (h.entries q hq),
    fun x hx => (h'.loads x hx).trans (h.loads x hx)⟩

/-- Fewer pages. -/
theorem SamePages.mono (h : m.SamePages m' P) (hQ : Q ⊆ P) : m.SamePages m' Q :=
  ⟨h.active, fun q hq => h.entries q (hQ hq), fun x hx => h.loads x (hQ hx)⟩

/-- The pages that have not changed are found as before. -/
theorem Repaged.samePages (h : m.UserPages) (hpaged : m.Repaged m' p e) : m.SamePages m' {q | q ≠ p} := by
  refine ⟨hpaged.active, fun q hq => hpaged.userPage_other hq, fun x hx => ?_⟩
  rw [hpaged.pages.userLoad_eq, h.userLoad_eq, hpaged.userPage_other hx]
  rcases hpage : m.userPage (pageSlot x) with _ | e'
  · rfl
  · rw [Option.map_some, Option.map_some, hpaged.content _ e' hx hpage]

/-! ### Stores of the kernel -/

/-- A store of the kernel writes the frame of the page. -/
theorem storeByte_eq (hpage : m.userPage (pageSlot va) = some e) (b : Byte) :
    m.storeByte va b = m.writeFrame (frameOf e) (setPageByte (m.ram (frameOf e)) (pageOffset va) b) := by
  unfold storeByte userWrite
  rw [userFrame_eq (userPage_eq_some.mp hpage).1]

/-- `m'` is `m` with some bytes stored at the addresses from `va` on. -/
structure Stored (m m' : Memory) (va : Word) (bytes : List Byte) : Prop where
  pages : m'.UserPages
  active : m'.activePageDirectory = m.activePageDirectory
  entries : m'.userPage = m.userPage
  loads : ∀ x : Word, m'.userLoad m'.activePageDirectory x =
    if va.toNat ≤ x.toNat ∧ x.toNat < va.toNat + bytes.length then bytes[x.toNat - va.toNat]?
    else m.userLoad m.activePageDirectory x

/-- A byte that was stored is found. -/
theorem Stored.load_at (h : m.Stored m' va bytes) {k : Nat} (hk : k < bytes.length) {x : Word}
    (hx : x.toNat = va.toNat + k) : m'.userLoad m'.activePageDirectory x = bytes[k]? := by
  rw [h.loads, hx, if_pos (by omega), Nat.add_sub_cancel_left]

/-- The other bytes are found as before. -/
theorem Stored.load_other (h : m.Stored m' va bytes) {x : Word}
    (hx : x.toNat < va.toNat ∨ va.toNat + bytes.length ≤ x.toNat) :
    m'.userLoad m'.activePageDirectory x = m.userLoad m.activePageDirectory x := by
  rw [h.loads, if_neg (by omega)]

/-- The pages of other addresses are found as before. -/
theorem Stored.samePages (h : m.Stored m' va bytes)
    (hother : ∀ x : Word, va.toNat ≤ x.toNat → x.toNat < va.toNat + bytes.length → pageSlot x ∉ P) :
    m.SamePages m' P := by
  refine ⟨h.active, fun q _ => congrFun h.entries q, fun x hx => h.load_other ?_⟩
  by_contra hc
  exact hother x (by omega) (by omega) hx

/-- One address is what its page and its offset say. -/
theorem eq_of_slot_of_offset {x : Word} (hslot : pageSlot x = pageSlot va) (hoffset : pageOffset x = pageOffset va) :
    x = va := by
  have hdiv := pageSlot_eq_iff.mp hslot
  have hmod : x.toNat % 4096 = va.toNat % 4096 := congrArg Fin.val hoffset
  exact BitVec.eq_of_toNat_eq (by omega)

namespace UserPages

/-- A store to a user page changes one byte: no other page has the frame that is written. -/
theorem storeByte_load (h : m.UserPages) (hpage : m.userPage (pageSlot va) = some e) (b : Byte) (x : Word) :
    (m.storeByte va b).userLoad (m.storeByte va b).activePageDirectory x =
      if x = va then some b else m.userLoad m.activePageDirectory x := by
  have hplain := (h.frames _ e hpage).toPlain
  rw [storeByte_eq hpage, (h.writeFrame hplain _).userLoad_eq, hplain.userPage, h.userLoad_eq, writeFrame_ram]
  by_cases hslot : pageSlot x = pageSlot va
  · rw [hslot, hpage, Option.map_some, Option.map_some, update_self, pageByte_setPageByte]
    by_cases hx : x = va
    · rw [if_pos hx, hx, update_self]
    · have hoffset : pageOffset x ≠ pageOffset va := fun hc => hx (eq_of_slot_of_offset hslot hc)
      rw [if_neg hx, update_of_ne hoffset]
  · rw [if_neg fun hc : x = va => hslot (congrArg pageSlot hc)]
    rcases hother : m.userPage (pageSlot x) with _ | e'
    · rfl
    · have hne : frameOf e' ≠ frameOf e := fun hc => hslot (h.distinct _ _ e' e hother hpage hc)
      rw [Option.map_some, Option.map_some, update_of_ne hne]

/-- A store keeps the pages, and their entries. -/
theorem storeByte (h : m.UserPages) (hpage : m.userPage (pageSlot va) = some e) (b : Byte) :
    (m.storeByte va b).UserPages ∧ (m.storeByte va b).userPage = m.userPage := by
  have hplain := (h.frames _ e hpage).toPlain
  rw [storeByte_eq hpage]
  exact ⟨h.writeFrame hplain _, hplain.userPage⟩

/-- The stores to a range of user pages. -/
theorem storeBytes (h : m.UserPages) (hwrap : va.toNat + bytes.length < 4294967296)
    (hpages : ∀ k < bytes.length, (m.userPage (pageSlot (va + BitVec.ofNat 32 k))).isSome = true) :
    m.Stored (m.storeBytes va bytes) va bytes := by
  induction bytes generalizing m va with
  | nil =>
    refine ⟨h, rfl, rfl, fun x => (if_neg ?_).symm⟩
    rw [List.length_nil]
    omega
  | cons b bytes ih =>
    rw [List.length_cons] at hwrap hpages
    have hfirst := hpages 0 (Nat.succ_pos _)
    rw [BitVec.add_zero] at hfirst
    obtain ⟨e, hpage⟩ := Option.isSome_iff_exists.mp hfirst
    obtain ⟨hstored, hentries⟩ := h.storeByte hpage b
    have hnext : (va + 1).toNat = va.toNat + 1 := toNat_add_one (by omega)
    have hothers : ∀ k < bytes.length,
        ((m.storeByte va b).userPage (pageSlot (va + 1 + BitVec.ofNat 32 k))).isSome = true := fun k hk => by
      rw [hentries, ← add_ofNat_succ]
      exact hpages (k + 1) (Nat.succ_lt_succ hk)
    have hrest := ih hstored (by rw [hnext]; omega) hothers
    refine ⟨hrest.pages, hrest.active, hrest.entries.trans hentries, fun x => (hrest.loads x).trans ?_⟩
    rw [hnext, h.storeByte_load hpage, List.length_cons]
    by_cases hx : x = va
    · subst hx
      rw [if_neg (by omega), if_pos rfl, if_pos (by omega), Nat.sub_self]
      rfl
    have hne : x.toNat ≠ va.toNat := fun hc => hx (BitVec.eq_of_toNat_eq hc)
    rw [if_neg hx]
    by_cases hin : va.toNat + 1 ≤ x.toNat ∧ x.toNat < va.toNat + 1 + bytes.length
    · have hindex : x.toNat - va.toNat = x.toNat - (va.toNat + 1) + 1 := by omega
      rw [if_pos hin, if_pos (by omega), hindex, List.getElem?_cons_succ]
    · rw [if_neg hin, if_neg (by omega)]

/-- The flags of a user page are changed: its bytes are found as before. -/
theorem setFlags (h : m.UserPages) {flags : Word} (hpage : m.userPage (pageSlot va) = some e)
    (huser : isUser flags = true) :
    ∃ m', m.pagingSetPageFlagsInDirectory m.activePageDirectory va flags = (true, m') ∧
      m.Repaged m' (pageSlot va) (newEntry (frameOf e) flags) ∧
      ∀ x, m'.userLoad m'.activePageDirectory x = m.userLoad m.activePageDirectory x := by
  obtain ⟨hhas, hentry, hpresent, -⟩ := userPage_some hpage
  have hi := h.inRange _ e hpage
  obtain ⟨hframe, hnew, -, huser'⟩ := newEntry_facts (frameOf_lt e) flags
  have hpaged := h.changeFlags hpage hframe hnew pageUser fun k => bit_pageUser_high
  refine ⟨_, setFlags_eq h.sound.active hhas (h.sound.tables _ hi hhas).2.2 hentry hpresent huser, hpaged,
    fun x => ?_⟩
  by_cases hx : pageSlot x = pageSlot va
  · have hself := hpaged.userPage_self (huser'.trans huser)
    refine (hpaged.pages.userLoad_eq x).trans ?_
    rw [h.userLoad_eq, hx, hpage, hself, Option.map_some, Option.map_some, hframe,
      h.install_content (.inl ⟨_, hi, hhas, rfl⟩) hpage]
  · exact (hpaged.samePages h).loads x hx

end UserPages

end Memory

end AgenticOs
