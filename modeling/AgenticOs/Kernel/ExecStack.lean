import AgenticOs.Kernel.ElfLoaded
import AgenticOs.Kernel.ExecVectors
import AgenticOs.Lib.ByteView

/-!
# The stack that `exec_build_user_stack` builds

A program that follows the table from its stack pointer finds the strings that `exec_copy_vector` has copied.

* **One page** (`StackPage`): all stores go to one writable page, which is neither the directory nor a table.
  A store changes its bytes and nothing else (`PageWritten`), and loading another directory changes nothing of
  it.
* **Strings** (`pushStrings_run`): they lie one behind the other at the top of the page, and no two overlap
  (`placeStrings_disjoint`).
* **Table** (`pushTable_run`): `argc` and the pointers to the arguments and the environment lie below, at an
  aligned address, each list with its `NULL`. What a program reads there is `programArguments`.
* **Both** (`StackPage.execBuildUserStack`): what `exec_copy_vector` admits fits in the page, so the stack is
  built.
* **The page** (`execStack_cases`): in an address space of user pages, frames can run out, or a page of the
  image is in the way; otherwise `syscall_exec` has such a page and builds the stack there.
* **Main result** (`exec_arguments_round_trip`): the vectors are copied exactly if the pointers designate
  strings that fit, and from the stack that is built a program reads these strings, in their order.
-/

namespace AgenticOs

open Function Lib

/-! ### A page for the stack -/

namespace Memory

variable {m m' m'' : Memory} {directory page va x a : Word} {b : Byte} {bytes xs ys : List Byte}

/-- A user-writable page. Neither the directory nor the table of the page lies in its frame. -/
structure StackPage (m : Memory) (directory page : Word) : Prop where
  writable : m.isUserWritable directory page = true
  notDirectory : m.userFrame directory page ≠ frameOf directory
  notTable : m.userFrame directory page ≠ frameOf (m.entry directory (dirIndex page))

/-- What a program finds in a page. -/
def pageView (m : Memory) (directory page : Word) : ByteView := fun x =>
  if pageSlot x = pageSlot page then m.userLoad directory x else none

/-- What the kernel sees of a page, the program can load. -/
theorem pageView_le (h : m.pageView directory page x = some b) : m.userLoad directory x = some b := by
  unfold pageView at h
  split at h
  · exact h
  · cases h

/-- A page that is writable can be read. -/
theorem isUserAccessible_of_writable (h : m.isUserWritable directory va = true) :
    m.isUserAccessible directory va = true := by
  unfold isUserWritable at h
  rw [has_or (n := pageWritable), has_or (n := pageWritable)] at h
  simp only [Bool.and_eq_true] at h
  unfold isUserAccessible
  rw [h.1.1, h.2.1]
  rfl

/-- Addresses of one page are translated alike. -/
theorem translate_congr (m : Memory) (directory : Word) (hx : pageSlot x = pageSlot page) :
    m.userFrame directory x = m.userFrame directory page ∧
      m.isUserAccessible directory x = m.isUserAccessible directory page := by
  have hdir : dirIndex x = dirIndex page := congrArg Prod.fst hx
  have htable : tableIndex x = tableIndex page := congrArg Prod.snd hx
  unfold userFrame isUserAccessible
  rw [hdir, htable]
  exact ⟨rfl, rfl⟩

/-- `m'` is `m` with another content in the frame of a page, which is found there as before. -/
structure WrittenAt (m m' : Memory) (page : Word) : Prop where
  frame : m'.userFrame m.activePageDirectory page = m.userFrame m.activePageDirectory page
  written : ∃ w, m' = m.writeFrame (m.userFrame m.activePageDirectory page) w

/-- Nothing was written. -/
theorem WrittenAt.refl (m : Memory) (page : Word) : m.WrittenAt m page :=
  ⟨rfl, m.ram (m.userFrame m.activePageDirectory page), by
    unfold writeFrame
    rw [update_eq_self]⟩

/-- Two writes one after another. -/
theorem WrittenAt.trans (h : m.WrittenAt m' page) (h' : m'.WrittenAt m'' page) : m.WrittenAt m'' page := by
  obtain ⟨w, rfl⟩ := h.written
  obtain ⟨w', rfl⟩ := h'.written
  refine ⟨h'.frame.trans h.frame, w', ?_⟩
  have hframe : (m.writeFrame (m.userFrame m.activePageDirectory page) w).userFrame
      (m.writeFrame (m.userFrame m.activePageDirectory page) w).activePageDirectory page =
        m.userFrame m.activePageDirectory page := h.frame
  rw [hframe]
  unfold writeFrame
  rw [update_idem]

namespace StackPage

/-- The kernel sees the page and nothing else. -/
theorem pageView_eq (h : m.StackPage directory page) (x : Word) :
    m.pageView directory page x =
      if pageSlot x = pageSlot page then some (pageByte (m.ram (m.userFrame directory page)) (pageOffset x))
      else none := by
  unfold pageView userLoad
  by_cases hx : pageSlot x = pageSlot page
  · obtain ⟨hframe, haccessible⟩ := m.translate_congr directory hx
    rw [if_pos hx, if_pos hx, hframe, haccessible, if_pos (isUserAccessible_of_writable h.writable)]
  · rw [if_neg hx, if_neg hx]

/-- What is written to the frame of the page does not change how the page is found. -/
theorem writeFrame (h : m.StackPage directory page) (w : TableIndex → Word) :
    (m.writeFrame (m.userFrame directory page) w).StackPage directory page ∧
      (m.writeFrame (m.userFrame directory page) w).userFrame directory page = m.userFrame directory page := by
  generalize hm' : m.writeFrame (m.userFrame directory page) w = m'
  have hother (t : Word) (ht : m.userFrame directory page ≠ frameOf t) : m'.entry t = m.entry t := by
    rw [← hm']
    exact update_of_ne ht.symm w m.ram
  have hdir := hother _ h.notDirectory
  have htable := hother (m.entry directory (dirIndex page) &&& addrMask) (by
    rw [frameOf_and_addrMask]
    exact h.notTable)
  have hframe : m'.userFrame directory page = m.userFrame directory page := by
    unfold userFrame
    rw [hdir, htable]
  refine ⟨⟨?_, ?_, ?_⟩, hframe⟩
  · rw [← h.writable]
    unfold isUserWritable
    rw [hdir, htable]
  · rw [hframe]
    exact h.notDirectory
  · rw [hframe, hdir]
    exact h.notTable

/-- A store to the page changes one byte of it. -/
theorem storeByte (h : m.StackPage m.activePageDirectory page) (hva : pageSlot va = pageSlot page) (b : Byte) :
    (m.storeByte va b).StackPage m.activePageDirectory page ∧
      (m.storeByte va b).pageView m.activePageDirectory page =
        (m.pageView m.activePageDirectory page).overlay va [b] ∧
      m.WrittenAt (m.storeByte va b) page := by
  have hstore : m.storeByte va b = m.writeFrame (m.userFrame m.activePageDirectory page)
      (setPageByte (m.ram (m.userFrame m.activePageDirectory page)) (pageOffset va) b) := by
    unfold Memory.storeByte userWrite
    rw [(m.translate_congr _ hva).1]
  obtain ⟨hpage, hframe⟩ := h.writeFrame
    (setPageByte (m.ram (m.userFrame m.activePageDirectory page)) (pageOffset va) b)
  rw [hstore]
  refine ⟨hpage, funext fun x => ?_, hframe, _, rfl⟩
  rw [hpage.pageView_eq, ByteView.overlay_one, h.pageView_eq, hframe, writeFrame_ram, update_self,
    pageByte_setPageByte]
  by_cases hx : x = va
  · subst hx
    rw [if_pos hva, if_pos rfl, update_self]
  rw [if_neg hx]
  by_cases hslot : pageSlot x = pageSlot page
  · have hoffset : pageOffset x ≠ pageOffset va := fun hc => hx (eq_of_slot_of_offset (hslot.trans hva.symm) hc)
    rw [if_pos hslot, if_pos hslot, update_of_ne hoffset]
  · rw [if_neg hslot, if_neg hslot]

end StackPage

/-- `m'` is `m` with some bytes stored in the page of the stack, from an address on. -/
structure PageWritten (m m' : Memory) (page a : Word) (bytes : List Byte) : Prop where
  stack : m'.StackPage m'.activePageDirectory page
  active : m'.activePageDirectory = m.activePageDirectory
  view : m'.pageView m'.activePageDirectory page = (m.pageView m.activePageDirectory page).overlay a bytes
  written : m.WrittenAt m' page

/-- What is stored right before other bytes. -/
theorem PageWritten.before (h : m.PageWritten m' page (a + BitVec.ofNat 32 xs.length) ys)
    (h' : m'.PageWritten m'' page a xs) (hlen : xs.length + ys.length < 4294967296) :
    m.PageWritten m'' page a (xs ++ ys) := by
  refine ⟨h'.stack, h'.active.trans h.active, ?_, h.written.trans h'.written⟩
  rw [h'.view, h.view, ByteView.overlay_overlay_before hlen]

/-- The stores to a range of the page. -/
theorem StackPage.storeBytes (h : m.StackPage m.activePageDirectory page) (hlen : bytes.length < 4294967296)
    (hin : ∀ k < bytes.length, pageSlot (a + BitVec.ofNat 32 k) = pageSlot page) :
    m.PageWritten (m.storeBytes a bytes) page a bytes := by
  induction bytes generalizing m a with
  | nil => exact ⟨h, rfl, ByteView.overlay_nil.symm, .refl m page⟩
  | cons b bytes ih =>
    rw [List.length_cons] at hlen hin
    have hfirst := hin 0 (Nat.succ_pos _)
    rw [BitVec.add_zero] at hfirst
    obtain ⟨hpage, hview, hwritten⟩ := h.storeByte hfirst b
    have hothers : ∀ k < bytes.length, pageSlot (a + 1 + BitVec.ofNat 32 k) = pageSlot page := fun k hk => by
      rw [← add_ofNat_succ]
      exact hin (k + 1) (Nat.succ_lt_succ hk)
    have hrest := ih hpage (by omega) hothers
    refine ⟨hrest.stack, hrest.active, hrest.view.trans ?_, hwritten.trans hrest.written⟩
    have hone : ([b] : List Byte).length + bytes.length < 4294967296 := by
      rw [List.length_singleton]
      omega
    have hbehind := ByteView.overlay_overlay_behind (v := m.pageView m.activePageDirectory page) (a := a) hone
    rw [← hview] at hbehind
    exact hbehind

end Memory

/-! ### Strings with their addresses -/

/-- A string and its address. -/
structure PlacedString where
  address : Word
  value : CString
  deriving DecidableEq

/-- The bytes of a string and of its terminator. -/
def PlacedString.bytes (p : PlacedString) : Set Nat :=
  Set.Ico p.address.toNat (p.address.toNat + p.value.length + 1)

/-- Strings one behind the other. -/
def placeStrings (base : Word) : List CString → List PlacedString
  | [] => []
  | s :: strings => ⟨base, s⟩ :: placeStrings (base + BitVec.ofNat 32 (s.length + 1)) strings

section

variable {base : Word} {s : CString} {strings strings' : List CString} {v : ByteView} {n : Nat}

/-- The first string is at the base. -/
theorem placeStrings_cons : placeStrings base (s :: strings) =
    ⟨base, s⟩ :: placeStrings (base + BitVec.ofNat 32 (s.length + 1)) strings := rfl

/-- The strings after the first ones begin where these end. -/
theorem placeStrings_append : placeStrings base (strings ++ strings') =
    placeStrings base strings ++ placeStrings (base + BitVec.ofNat 32 (stringBlock strings).length) strings' := by
  induction strings generalizing base with
  | nil =>
    rw [stringBlock_nil, List.length_nil, BitVec.add_zero]
    rfl
  | cons s strings ih =>
    rw [List.cons_append, placeStrings_cons, ih, ByteView.add_ofNat_add, ← length_stringBlock_cons]
    rfl

/-- The strings are those that were placed. -/
theorem map_value_placeStrings (base : Word) (strings : List CString) :
    (placeStrings base strings).map PlacedString.value = strings := by
  induction strings generalizing base with
  | nil => rfl
  | cons s strings ih => rw [placeStrings_cons, List.map_cons, ih]

/-- One place for each string. -/
theorem length_placeStrings : (placeStrings base strings).length = strings.length := by
  conv_rhs => rw [← map_value_placeStrings base strings, List.length_map]

/-- The pointers to them. -/
def stringPointers (base : Word) (strings : List CString) : List Word :=
  (placeStrings base strings).map PlacedString.address

/-- One pointer for each string. -/
theorem length_stringPointers : (stringPointers base strings).length = strings.length := by
  unfold stringPointers
  rw [List.length_map, length_placeStrings]

/-- The pointers to the strings after the first ones. -/
theorem stringPointers_append : stringPointers base (strings ++ strings') =
    stringPointers base strings ++ stringPointers (base + BitVec.ofNat 32 (stringBlock strings).length) strings' := by
  unfold stringPointers
  rw [placeStrings_append, List.map_append]

/-- Each string lies in the block of them all. -/
theorem placeStrings_inside (hwrap : base.toNat + (stringBlock strings).length < 4294967296) :
    ∀ p ∈ placeStrings base strings, base.toNat ≤ p.address.toNat ∧
      p.address.toNat + p.value.length + 1 ≤ base.toNat + (stringBlock strings).length := by
  induction strings generalizing base with
  | nil => exact List.forall_mem_nil _
  | cons s strings ih =>
    rw [length_stringBlock_cons] at hwrap ⊢
    have hnext : (base + BitVec.ofNat 32 (s.length + 1)).toNat = base.toNat + (s.length + 1) := by
      rw [BitVec.toNat_add, BitVec.toNat_ofNat]
      omega
    refine List.forall_mem_cons.mpr ⟨⟨Nat.le_refl _, by dsimp only; omega⟩, fun p hp => ?_⟩
    have hrest := ih (by rw [hnext]; omega) p hp
    rw [hnext] at hrest
    omega

/-- Ranges one after another have nothing in common. -/
theorem disjoint_of_end_le {a b c d : Nat} (h : b ≤ c) : Disjoint (Set.Ico a b) (Set.Ico c d) :=
  Set.Ico_disjoint_Ico.mpr ((min_le_left _ _).trans (h.trans (le_max_right _ _)))

/-- No string overlaps another. -/
theorem placeStrings_disjoint (hwrap : base.toNat + (stringBlock strings).length < 4294967296) :
    ((placeStrings base strings).map PlacedString.bytes).Pairwise Disjoint := by
  induction strings generalizing base with
  | nil => exact List.Pairwise.nil
  | cons s strings ih =>
    rw [length_stringBlock_cons] at hwrap
    have hnext : (base + BitVec.ofNat 32 (s.length + 1)).toNat = base.toNat + (s.length + 1) := by
      rw [BitVec.toNat_add, BitVec.toNat_ofNat]
      omega
    rw [placeStrings_cons, List.map_cons]
    refine List.Pairwise.cons (fun r hr => ?_) (ih (by rw [hnext]; omega))
    obtain ⟨p, hp, rfl⟩ := List.mem_map.mp hr
    have hinside := (placeStrings_inside (by rw [hnext]; omega) p hp).1
    rw [hnext] at hinside
    exact disjoint_of_end_le (by dsimp only; omega)

/-- The strings a program finds at some addresses. -/
def placedAt (v : ByteView) (n : Nat) (addresses : List Word) : Option (List PlacedString) :=
  addresses.mapM fun a => (v.string n a).map (PlacedString.mk a)

/-- Where a block of strings is held, they are found at their addresses. -/
theorem placedAt_eq (hnul : NoNul strings) (hn : (stringBlock strings).length ≤ n)
    (h : v.Holds base (stringBlock strings)) :
    placedAt v n (stringPointers base strings) = some (placeStrings base strings) := by
  induction strings generalizing base with
  | nil => rfl
  | cons s strings ih =>
    rw [length_stringBlock_cons] at hn
    have hsplit : stringBlock (s :: strings) = (s ++ [0]) ++ stringBlock strings := by
      rw [stringBlock_cons, List.append_assoc]
      rfl
    rw [hsplit, ByteView.holds_append, List.length_append, List.length_singleton] at h
    have hfirst := h.1.string (hnul s List.mem_cons_self) (n := n) (by omega)
    have hrest := ih (fun s hs => hnul s (List.mem_cons_of_mem _ hs)) (by omega) h.2
    unfold placedAt stringPointers at hrest ⊢
    rw [placeStrings_cons, List.map_cons, List.mapM_cons, hfirst, hrest]
    rfl

end

/-! ### What a program finds at its stack pointer -/

/-- `argc`, as many pointers to strings, `NULL`, and pointers to strings up to `NULL`. -/
def programArguments (v : ByteView) (sp : Word) : Option (List PlacedString × List PlacedString) := do
  let argc ← v.word sp
  let argv ← v.words argc.toNat (sp + 4)
  let null ← v.word (sp + 4 + BitVec.ofNat 32 (4 * argc.toNat))
  if null ≠ 0 then none
  else
    let envp ← v.wordsToNull userStackSize (sp + 4 + BitVec.ofNat 32 (4 * argc.toNat) + 4)
    let args ← placedAt v userStackSize argv
    let envs ← placedAt v userStackSize envp
    return (args, envs)

/-- The words of the table. -/
def argumentTable (argv envp : List Word) : List Word :=
  BitVec.ofNat 32 argv.length :: argv ++ 0 :: envp ++ [0]

/-- The words of the table. -/
theorem length_argumentTable (argv envp : List Word) :
    (argumentTable argv envp).length = argv.length + envp.length + 3 := by
  unfold argumentTable
  rw [List.length_append, List.length_append, List.length_cons, List.length_cons, List.length_singleton]
  omega

/-- The bytes of the table. -/
theorem length_argumentTable_bytes (argv envp : List Word) :
    ((argumentTable argv envp).flatMap wordBytes).length = 4 * (argv.length + envp.length + 3) := by
  rw [ByteView.length_flatMap_wordBytes, length_argumentTable]

/-- A program that follows the table finds what lies at its pointers. -/
theorem programArguments_eq {v : ByteView} {sp : Word} {argv envp : List Word} {args envs : List PlacedString}
    (hargc : argv.length < 4294967296) (henvc : envp.length < userStackSize) (hne : ∀ a ∈ envp, a ≠ 0)
    (hargs : placedAt v userStackSize argv = some args) (henvs : placedAt v userStackSize envp = some envs)
    (htable : v.Holds sp ((argumentTable argv envp).flatMap wordBytes)) :
    programArguments v sp = some (args, envs) := by
  have hwords : argumentTable argv envp = BitVec.ofNat 32 argv.length :: (argv ++ 0 :: (envp ++ [0])) := by
    unfold argumentTable
    rw [List.append_assoc]
    rfl
  rw [hwords, ByteView.holds_words_cons, List.flatMap_append, ByteView.holds_append, ByteView.length_flatMap_wordBytes,
    ByteView.holds_words_cons] at htable
  obtain ⟨hcount, hargv, hnull, henvp⟩ := htable
  have hcountNat : (BitVec.ofNat 32 argv.length).toNat = argv.length := by
    rw [BitVec.toNat_ofNat]
    omega
  unfold programArguments
  rw [hcount.word]
  simp only [Option.bind_eq_bind, Option.bind_some, hcountNat, hargv.words, hnull.word, ne_eq, not_true_eq_false,
    if_false, henvp.wordsToNull hne henvc, hargs, henvs]
  rfl

/-! ### What `exec_build_user_stack` stores -/

/-- The stack pointer when `n` bytes of the page are in use. -/
def stackAt (n : Nat) : Word := userStackTop - BitVec.ofNat 32 n

section

variable {n k : Nat}

/-- The address of the stack pointer. -/
theorem stackAt_toNat (hn : n ≤ 4096) : (stackAt n).toNat = 2952790016 - n := by
  have htop : userStackTop.toNat = 2952790016 := rfl
  unfold stackAt
  rw [BitVec.toNat_sub, BitVec.toNat_ofNat, htop]
  omega

/-- Down by `k` bytes. -/
theorem stackAt_sub (n k : Nat) : stackAt n - BitVec.ofNat 32 k = stackAt (n + k) := by
  unfold stackAt
  rw [BitVec.ofNat_add, BitVec.sub_sub]

/-- Up by `k` bytes. -/
theorem stackAt_add (n k : Nat) : stackAt (n + k) + BitVec.ofNat 32 k = stackAt n := by
  rw [← stackAt_sub, BitVec.sub_add_cancel]

/-- The address of the stack page. -/
theorem execStackPage_toNat : execStackPage.toNat = 2952785920 := rfl

/-- What is left of the page. -/
theorem stackAt_room (hn : n ≤ 4096) : (stackAt n - execStackPage).toNat = 4096 - n := by
  rw [BitVec.toNat_sub, stackAt_toNat hn, execStackPage_toNat]
  omega

/-- The bytes in use lie in the page. -/
theorem stackAt_slot (hn : n ≤ 4096) (hk : k < n) :
    pageSlot (stackAt n + BitVec.ofNat 32 k) = pageSlot execStackPage := by
  rw [pageSlot_eq_iff, BitVec.toNat_add, stackAt_toNat hn, BitVec.toNat_ofNat, execStackPage_toNat]
  omega

/-- The stack pointer is aligned downwards. -/
theorem stackAt_align (hn : n ≤ 4080) : stackAt n &&& ~~~(0x0F : Word) = stackAt ((n + 15) / 16 * 16) := by
  have hmask : ∀ i < 32, bit i (~~~(0x0F : Word)) = decide (4 ≤ i) := by decide
  have hshift : stackAt n &&& ~~~(0x0F : Word) = (stackAt n >>> 4) <<< 4 := by
    refine BitVec.eq_of_getLsbD_eq fun i hi => ?_
    have hbit := hmask i hi
    unfold bit at hbit
    rw [BitVec.getLsbD_and, hbit, BitVec.getLsbD_shiftLeft, BitVec.getLsbD_ushiftRight]
    by_cases h : 4 ≤ i
    · rw [Nat.add_sub_cancel' h]
      simp [h, hi, Nat.not_lt.mpr h]
    · simp [h, Nat.lt_of_not_le h]
  refine BitVec.eq_of_toNat_eq ?_
  rw [hshift, BitVec.toNat_shiftLeft, BitVec.toNat_ushiftRight, Nat.shiftRight_eq_div_pow, Nat.shiftLeft_eq,
    stackAt_toNat (by omega), stackAt_toNat (by omega)]
  omega

end

namespace Memory

variable {m : Memory} {strings args envs : List CString} {pointers argv envp : List Word} {n : Nat}

/-- A store at the stack pointer. -/
theorem StackPage.storeAt (h : m.StackPage m.activePageDirectory execStackPage) (bytes : List Byte) (hn : n ≤ 4096)
    (hlen : bytes.length ≤ n) : m.PageWritten (m.storeBytes (stackAt n) bytes) execStackPage (stackAt n) bytes :=
  h.storeBytes (by omega) fun _ hk => stackAt_slot hn (Nat.lt_of_lt_of_le hk hlen)

/-- The strings are put on the stack one before another. -/
theorem pushStrings_run (h : m.StackPage m.activePageDirectory execStackPage) (pointers : List Word)
    (hfits : n + (stringBlock strings).length ≤ 4096) :
    ∃ m', m.pushStrings execStackPage strings.reverse (stackAt n) pointers =
        (some (stackAt (n + (stringBlock strings).length),
          stringPointers (stackAt (n + (stringBlock strings).length)) strings ++ pointers), m') ∧
      m.PageWritten m' execStackPage (stackAt (n + (stringBlock strings).length)) (stringBlock strings) := by
  induction strings using List.reverseRecOn generalizing m n pointers with
  | nil => exact ⟨m, rfl, h, rfl, ByteView.overlay_nil.symm, .refl m execStackPage⟩
  | append_singleton strings s ih =>
    have hblock : stringBlock (strings ++ [s]) = stringBlock strings ++ (s ++ [0]) := by
      rw [stringBlock_append, stringBlock_cons, stringBlock_nil]
    have hlength : n + (stringBlock (strings ++ [s])).length =
        n + (s.length + 1) + (stringBlock strings).length := by
      rw [hblock, List.length_append, List.length_append, List.length_singleton]
      omega
    rw [hlength] at hfits ⊢
    have hroom : ¬stackAt n - execStackPage < BitVec.ofNat 32 (s.length + 1) := by
      rw [BitVec.lt_def, stackAt_room (by omega), BitVec.toNat_ofNat]
      omega
    have hfirst := h.storeAt (n := n + (s.length + 1)) (s ++ [0]) (by omega) (by
      rw [List.length_append, List.length_singleton]
      omega)
    generalize hm₁ : m.storeBytes (stackAt (n + (s.length + 1))) (s ++ [0]) = m₁ at hfirst
    obtain ⟨m', hrun, hrest⟩ := ih hfirst.stack (stackAt (n + (s.length + 1)) :: pointers) (by omega)
    refine ⟨m', ?_, ?_⟩
    · rw [List.reverse_append, List.reverse_singleton, List.singleton_append]
      unfold pushStrings
      dsimp only
      rw [if_neg hroom, stackAt_sub, hm₁, hrun, stringPointers_append, List.append_assoc, stackAt_add]
      rfl
    · rw [← stackAt_add (n + (s.length + 1)) (stringBlock strings).length] at hfirst
      rw [hblock]
      exact hfirst.before hrest (by rw [List.length_append, List.length_singleton]; omega)

/-- And then the table, at an aligned address. -/
theorem pushTable_run (h : m.StackPage m.activePageDirectory execStackPage)
    (hfits : n + 4 * (argv.length + envp.length + 3) ≤ 4080) :
    ∃ m', m.pushTable execStackPage (stackAt n) argv envp =
        (some (stackAt ((n + 4 * (argv.length + envp.length + 3) + 15) / 16 * 16)), m') ∧
      m.PageWritten m' execStackPage (stackAt ((n + 4 * (argv.length + envp.length + 3) + 15) / 16 * 16))
        ((argumentTable argv envp).flatMap wordBytes) := by
  have hbytes : (argumentTable argv envp).length * 4 = 4 * (argv.length + envp.length + 3) := by
    rw [length_argumentTable, Nat.mul_comm]
  generalize hN : (n + 4 * (argv.length + envp.length + 3) + 15) / 16 * 16 = N
  have hroom : ¬stackAt n - execStackPage < BitVec.ofNat 32 (4 * (argv.length + envp.length + 3)) := by
    rw [BitVec.lt_def, stackAt_room (by omega), BitVec.toNat_ofNat]
    omega
  have habove : ¬stackAt N < execStackPage := by
    rw [BitVec.lt_def, stackAt_toNat (by omega), execStackPage_toNat]
    omega
  refine ⟨m.storeBytes (stackAt N) ((argumentTable argv envp).flatMap wordBytes), ?_, h.storeAt _ (by omega) ?_⟩
  · have htable : BitVec.ofNat 32 argv.length :: argv ++ 0 :: envp ++ [0] = argumentTable argv envp := rfl
    unfold pushTable
    dsimp only
    rw [htable, hbytes, if_neg hroom, stackAt_sub, stackAt_align (by omega), hN, if_neg habove]
  · rw [length_argumentTable_bytes]
    omega

end Memory

/-! ### The whole page -/

/-- The bytes of the page that strings and table take up. -/
def stackDepth (args envs : List CString) : Nat :=
  ((stringBlock (args ++ envs)).length + 4 * (args.length + envs.length + 3) + 15) / 16 * 16

/-- The table of a program with these arguments. -/
def stackTable (args envs : List CString) : List Byte :=
  (argumentTable (stringPointers (stackAt (stringBlock (args ++ envs)).length) args)
    (stringPointers (stackAt (stringBlock envs).length) envs)).flatMap wordBytes

/-- What is found in the page of the stack: strings at its top, the table below them, and zeros. -/
def stackContent (args envs : List CString) : ByteView :=
  (ByteView.overlay (fun x => if pageSlot x = pageSlot execStackPage then some 0 else none)
    (stackAt (stringBlock (args ++ envs)).length) (stringBlock (args ++ envs))).overlay
      (stackAt (stackDepth args envs)) (stackTable args envs)

/-- The table has a word for each string, and three more. -/
theorem length_stackTable (args envs : List CString) :
    (stackTable args envs).length = 4 * (args.length + envs.length + 3) := by
  unfold stackTable
  rw [length_argumentTable_bytes, length_stringPointers, length_stringPointers]

/-- Strings and table are where they were put. -/
theorem stackContent_holds {args envs : List CString}
    (hfits : (stringBlock (args ++ envs)).length + 4 * (args.length + envs.length + 3) ≤ 4080) :
    (stackContent args envs).Holds (stackAt (stringBlock (args ++ envs)).length) (stringBlock (args ++ envs)) ∧
      (stackContent args envs).Holds (stackAt (stackDepth args envs)) (stackTable args envs) := by
  have hdepth : stackDepth args envs =
      ((stringBlock (args ++ envs)).length + 4 * (args.length + envs.length + 3) + 15) / 16 * 16 := rfl
  have htable := length_stackTable args envs
  constructor
  · -- the table lies below the strings
    refine (ByteView.holds_overlay (by omega)).overlay fun i hi => ?_
    rw [htable, BitVec.toNat_sub, BitVec.toNat_add, stackAt_toNat (by omega), stackAt_toNat (by omega),
      BitVec.toNat_ofNat]
    omega
  · exact ByteView.holds_overlay (by omega)

namespace Memory

variable {m : Memory} {args envs : List CString}

/-- Strings at the top of the page, and the table below them. -/
theorem buildUserStack_run (h : m.StackPage m.activePageDirectory execStackPage) {vectors : ExecVectors}
    (hargs : vectors.argStrings = args) (henvs : vectors.envStrings = envs)
    (hfits : (stringBlock (args ++ envs)).length + 4 * (args.length + envs.length + 3) ≤ 4080) :
    ∃ m', m.buildUserStack vectors execStackPage = (some (stackAt (stackDepth args envs)), m') ∧
      m'.activePageDirectory = m.activePageDirectory ∧
      m'.pageView m'.activePageDirectory execStackPage = stackContent args envs ∧ m.WrittenAt m' execStackPage := by
  have hlength : (stringBlock (args ++ envs)).length = (stringBlock envs).length + (stringBlock args).length := by
    rw [length_stringBlock_append, Nat.add_comm]
  rw [hlength] at hfits
  obtain ⟨hpage, hkept⟩ := h.writeFrame fun _ => 0
  have hclear : (m.clearPage execStackPage).StackPage (m.clearPage execStackPage).activePageDirectory execStackPage :=
    hpage
  have hzero : (m.clearPage execStackPage).pageView (m.clearPage execStackPage).activePageDirectory execStackPage =
      fun x => if pageSlot x = pageSlot execStackPage then some 0 else none := by
    have hram : (m.clearPage execStackPage).ram ((m.clearPage execStackPage).userFrame
        (m.clearPage execStackPage).activePageDirectory execStackPage) = fun _ => 0 := by
      have hframe : (m.clearPage execStackPage).userFrame (m.clearPage execStackPage).activePageDirectory
          execStackPage = m.userFrame m.activePageDirectory execStackPage := hkept
      rw [hframe]
      exact update_self ..
    funext x
    rw [hclear.pageView_eq, hram, pageByte_zero]
  have hcleared : m.WrittenAt (m.clearPage execStackPage) execStackPage := ⟨hkept, fun _ => 0, rfl⟩
  have hfitsEnvs : 0 + (stringBlock envs).length ≤ 4096 := by omega
  have hfitsArgs : (stringBlock envs).length + (stringBlock args).length ≤ 4096 := by omega
  obtain ⟨m₁, hrun₁, hstored₁⟩ := pushStrings_run hclear [] hfitsEnvs
  rw [Nat.zero_add, List.append_nil] at hrun₁
  rw [Nat.zero_add] at hstored₁
  obtain ⟨m₂, hrun₂, hstored₂⟩ := pushStrings_run hstored₁.stack [] hfitsArgs
  rw [List.append_nil] at hrun₂
  have hstrings : (m.clearPage execStackPage).PageWritten m₂ execStackPage (stackAt (stringBlock (args ++ envs)).length)
      (stringBlock (args ++ envs)) := by
    rw [hlength, stringBlock_append]
    rw [← stackAt_add _ (stringBlock args).length] at hstored₁
    exact hstored₁.before hstored₂ (by omega)
  rw [← hlength] at hrun₂ hfits
  unfold stackContent stackDepth stackTable
  generalize hargv : stringPointers (stackAt (stringBlock (args ++ envs)).length) args = argv at hrun₂ ⊢
  generalize henvp : stringPointers (stackAt (stringBlock envs).length) envs = envp at hrun₁ ⊢
  have hargc : argv.length = args.length := by rw [← hargv, length_stringPointers]
  have henvc : envp.length = envs.length := by rw [← henvp, length_stringPointers]
  rw [← hargc, ← henvc] at hfits ⊢
  obtain ⟨m', hrun, hstored⟩ := pushTable_run hstrings.stack hfits
  refine ⟨m', ?_, hstored.active.trans hstrings.active, ?_, (hcleared.trans hstrings.written).trans hstored.written⟩
  · have htop₀ : userStackTop = stackAt 0 := rfl
    unfold buildUserStack
    rw [h.writable, hargs, henvs, htop₀, Bool.not_true, if_neg Bool.false_ne_true]
    dsimp only
    rw [hrun₁]
    dsimp only
    rw [hrun₂]
    exact hrun
  · rw [hstored.view, hstrings.view, hzero]

end Memory

/-! ### The arguments of the new program -/

/-- A stack from which a program finds its arguments and its environment. -/
structure ProgramStack (m : Memory) (directory sp : Word) (args envs : List CString) : Prop where
  aligned : sp.toNat % 16 = 0
  inside : execStackPage ≤ sp ∧ sp < userStackTop
  /-- no string overlaps another one or the table -/
  found : ∃ argv envp, programArguments (m.userLoad directory) sp = some (argv, envp) ∧
    argv.map PlacedString.value = args ∧ envp.map PlacedString.value = envs ∧
    (Set.Ico sp.toNat (sp.toNat + 4 * (argv.length + envp.length + 3)) ::
      (argv ++ envp).map PlacedString.bytes).Pairwise Disjoint

/-- Strings at the top of the page and the table below them are such a stack. -/
theorem ProgramStack.of_holds {m : Memory} {directory : Word} {args envs : List CString} {N : Nat}
    (hnul : NoNul (args ++ envs))
    (hroom : (stringBlock (args ++ envs)).length + 4 * (args.length + envs.length + 3) ≤ N)
    (htop : N ≤ 4096) (halign : N % 16 = 0)
    (hblock : ByteView.Holds (m.userLoad directory) (stackAt (stringBlock (args ++ envs)).length)
      (stringBlock (args ++ envs)))
    (htable : ByteView.Holds (m.userLoad directory) (stackAt N)
      ((argumentTable (stringPointers (stackAt (stringBlock (args ++ envs)).length) args)
        (stringPointers (stackAt (stringBlock envs).length) envs)).flatMap wordBytes)) :
    ProgramStack m directory (stackAt N) args envs := by
  have hlength : (stringBlock (args ++ envs)).length = (stringBlock envs).length + (stringBlock args).length := by
    rw [length_stringBlock_append, Nat.add_comm]
  have hsp : (stackAt N).toNat = 2952790016 - N := stackAt_toNat htop
  have hbase : (stackAt (stringBlock (args ++ envs)).length).toNat = 2952790016 - (stringBlock (args ++ envs)).length :=
    stackAt_toNat (by omega)
  have hbehind : stackAt (stringBlock (args ++ envs)).length + BitVec.ofNat 32 (stringBlock args).length =
      stackAt (stringBlock envs).length := by
    rw [hlength, stackAt_add]
  have hwrap :
      (stackAt (stringBlock (args ++ envs)).length).toNat + (stringBlock (args ++ envs)).length < 4294967296 := by
    omega
  have hinside := placeStrings_inside hwrap
  have hdisjoint := placeStrings_disjoint hwrap
  rw [placeStrings_append, hbehind] at hinside hdisjoint
  have hsize : userStackSize = 4096 := rfl
  have hparts : ByteView.Holds (m.userLoad directory) (stackAt (stringBlock (args ++ envs)).length) (stringBlock args) ∧
      ByteView.Holds (m.userLoad directory) (stackAt (stringBlock envs).length) (stringBlock envs) := by
    rw [← hbehind, ← ByteView.holds_append, ← stringBlock_append]
    exact hblock
  have hargs := placedAt_eq (n := userStackSize) (fun s hs => hnul s (List.mem_append_left _ hs)) (by omega) hparts.1
  have henvs := placedAt_eq (n := userStackSize) (fun s hs => hnul s (List.mem_append_right _ hs)) (by omega) hparts.2
  refine ⟨by omega, ?_, placeStrings _ args, placeStrings _ envs, programArguments_eq ?_ ?_ ?_ hargs henvs htable,
    map_value_placeStrings _ _, map_value_placeStrings _ _, List.Pairwise.cons ?_ hdisjoint⟩
  · rw [BitVec.le_def, BitVec.lt_def, hsp, execStackPage_toNat]
    have htopNat : userStackTop.toNat = 2952790016 := rfl
    omega
  · rw [length_stringPointers]
    omega
  · rw [length_stringPointers]
    omega
  · intro a ha
    obtain ⟨p, hp, rfl⟩ := List.mem_map.mp ha
    have hlow := (hinside p (List.mem_append_right _ hp)).1
    intro hzero
    rw [hzero, hbase] at hlow
    have hnat : (0 : Word).toNat = 0 := rfl
    omega
  · -- the table ends below the first string
    intro r hr
    obtain ⟨p, hp, rfl⟩ := List.mem_map.mp hr
    have hlow := (hinside p hp).1
    rw [length_placeStrings, length_placeStrings]
    exact disjoint_of_end_le (by omega)

namespace Memory

variable {m m' : Memory} {newCr3 page : Word} {vectors : ExecVectors} {args envs : List CString}

/-- A page is found alike in memory with the same contents. -/
theorem StackPage.congr {directory directory' : Word} (h : m.StackPage directory page) (hram : m'.ram = m.ram)
    (hframe : frameOf directory' = frameOf directory) : m'.StackPage directory' page := by
  have hentry (t : Word) : m'.entry t = m.entry t := by
    unfold entry
    rw [hram]
  have hdir : m.entry directory' = m.entry directory := by
    unfold entry
    rw [hframe]
  have huser : m'.userFrame directory' page = m.userFrame directory page := by
    unfold userFrame
    rw [hentry, hentry, hdir]
  refine ⟨?_, ?_, ?_⟩
  · rw [(userViews_congr hram hdir).2.1]
    exact h.writable
  · rw [huser, hframe]
    exact h.notDirectory
  · rw [huser, hentry, hdir]
    exact h.notTable

/-- Its directory is loaded. -/
theorem StackPage.switch (h : m.StackPage newCr3 page) (hcr3 : newCr3 ≠ 0) :
    (m.pagingSwitchDirectory newCr3).StackPage (m.pagingSwitchDirectory newCr3).activePageDirectory page := by
  refine h.congr (m.switch_ram newCr3) ?_
  unfold pagingSwitchDirectory
  rw [if_neg hcr3]
  exact frameOf_and_addrMask newCr3

/-- `exec_build_user_stack` builds it, and nothing else is in the page. -/
theorem StackPage.execBuildUserStack (h : m.StackPage newCr3 execStackPage) (hcr3 : newCr3 ≠ 0)
    (hargs : vectors.argStrings = args) (henvs : vectors.envStrings = envs) (hargc : args.length ≤ execMaxArgs)
    (henvc : envs.length ≤ execMaxEnvs) (hnul : NoNul (args ++ envs))
    (hfits : (stringBlock (args ++ envs)).length ≤ execMaxVectorBytes) :
    ∃ sp m', m.execBuildUserStack newCr3 vectors execStackPage =
        (some sp, m'.pagingSwitchDirectory m.pagingGetCurrentDirectory) ∧
      ProgramStack (m'.pagingSwitchDirectory m.pagingGetCurrentDirectory) newCr3 sp args envs ∧
      (m'.pagingSwitchDirectory m.pagingGetCurrentDirectory).pageView newCr3 execStackPage = stackContent args envs ∧
        (m.pagingSwitchDirectory newCr3).WrittenAt m' execStackPage := by
  have hargsMax : execMaxArgs = 16 := rfl
  have henvsMax : execMaxEnvs = 16 := rfl
  have hbytesMax : execMaxVectorBytes = 3072 := rfl
  obtain ⟨m', hrun, hactive, hview, hwritten⟩ := buildUserStack_run (h.switch hcr3) hargs henvs (by omega)
  have hdirectory : m'.activePageDirectory = newCr3 &&& addrMask := by
    rw [hactive]
    unfold pagingSwitchDirectory
    rw [if_neg hcr3]
  -- what is found does not depend on the directory that is loaded
  have hloads (x : Word) : (m'.pagingSwitchDirectory m.pagingGetCurrentDirectory).userLoad newCr3 x =
      m'.userLoad m'.activePageDirectory x := by
    rw [hdirectory, (userViews_congr rfl (m'.entry_aligned newCr3)).2.2]
    exact (userViews_congr (m'.switch_ram _) rfl).2.2
  have hpage : (m'.pagingSwitchDirectory m.pagingGetCurrentDirectory).pageView newCr3 execStackPage =
      stackContent args envs := by
    rw [← hview]
    funext x
    unfold pageView
    rw [hloads]
  have hdepth : stackDepth args envs =
      ((stringBlock (args ++ envs)).length + 4 * (args.length + envs.length + 3) + 15) / 16 * 16 := rfl
  have hle (x : Word) (b : Byte) (hx : stackContent args envs x = some b) :
      (m'.pagingSwitchDirectory m.pagingGetCurrentDirectory).userLoad newCr3 x = some b := by
    rw [← hpage] at hx
    exact pageView_le hx
  have hroom : (stringBlock (args ++ envs)).length + 4 * (args.length + envs.length + 3) ≤ 4080 := by omega
  obtain ⟨hblock, htable⟩ := stackContent_holds hroom
  refine ⟨stackAt (stackDepth args envs), m', ?_, .of_holds hnul (by omega) (by omega) (by omega) (hblock.mono hle)
    (htable.mono hle), hpage, hwritten⟩
  unfold Memory.execBuildUserStack
  rw [hrun]

end Memory

/-! ### The page of the stack of a new image -/

namespace Memory

variable {m m' m'' : Memory} {cr3 page e : Word}

/-- A writable page of a user is such a page. -/
theorem UserPages.stackPage (h : m.UserPages) (hpage : m.userPage (pageSlot page) = some e)
    (hwritable : isWritable e = true) : m.StackPage m.activePageDirectory page := by
  have hframe := userFrame_eq (userPage_eq_some.mp hpage).1
  have hplain := h.frames _ e hpage
  refine ⟨?_, ?_, ?_⟩
  · rw [h.isUserWritable_eq, hpage]
    exact hwritable
  · rw [hframe]
    exact hplain.notDirectory
  · rw [hframe]
    exact (hplain.notTable _ (userPage_some hpage).1).symm

/-- Tables and pages are had alike whichever directory is loaded. -/
theorem allocatorAllocPageTable_switch (m : Memory) (loaded : Word) :
    (m.pagingSwitchDirectory loaded).allocatorAllocPageTable =
      (m.allocatorAllocPageTable.1, m.allocatorAllocPageTable.2.pagingSwitchDirectory loaded) := by
  unfold pagingSwitchDirectory
  by_cases hzero : loaded = 0
  · rw [if_pos hzero, if_pos hzero]
  rw [if_neg hzero, if_neg hzero]
  unfold allocatorAllocPageTable
  dsimp only
  rw [fillTable_eq, fillTable_eq]
  by_cases hnone : m.pagingAllocFrame.1 = 0
  · rw [if_pos hnone]
    exact if_pos hnone
  · rw [if_neg hnone]
    exact if_neg hnone

/-- **`frame_alloc`** does not ask which directory is loaded. -/
theorem frameAlloc_switch (m : Memory) (loaded : Word) :
    (m.pagingSwitchDirectory loaded).frameAlloc =
      (m.frameAlloc.1, m.frameAlloc.2.pagingSwitchDirectory loaded) := by
  unfold pagingSwitchDirectory
  by_cases hzero : loaded = 0
  · rw [if_pos hzero, if_pos hzero]
  · rw [if_neg hzero, if_neg hzero]
    rfl

/-- Entries are read at physical addresses. -/
theorem entry_switch (m : Memory) (loaded t : Word) : (m.pagingSwitchDirectory loaded).entry t = m.entry t := by
  unfold entry
  rw [switch_ram]

/-- And written there. -/
theorem setEntry_switch (m : Memory) (loaded t : Word) (i : TableIndex) (e : Word) :
    (m.pagingSwitchDirectory loaded).setEntry t i e = (m.setEntry t i e).pagingSwitchDirectory loaded := by
  unfold pagingSwitchDirectory
  by_cases hzero : loaded = 0
  · rw [if_pos hzero, if_pos hzero]
  · rw [if_neg hzero, if_neg hzero]
    rfl

/-- **`paging_map_page_in_directory`** does not ask which directory is loaded. -/
theorem mapPageInDirectory_switch (m : Memory) (loaded cr3 va pa flags : Word) :
    (m.pagingSwitchDirectory loaded).pagingMapPageInDirectory cr3 va pa flags =
      ((m.pagingMapPageInDirectory cr3 va pa flags).1,
        (m.pagingMapPageInDirectory cr3 va pa flags).2.pagingSwitchDirectory loaded) := by
  unfold pagingMapPageInDirectory
  dsimp only
  rw [m.allocatorAllocPageTable_switch loaded]
  simp only [entry_switch, setEntry_switch]
  split_ifs <;> rfl

/-- A new page of the address space is such a page. -/
theorem UserPages.mapStack (h : (m.pagingSwitchDirectory cr3).UserPages) (hcr3 : IsDirectory cr3)
    (hi : inUserRange (dirIndex page)) (hframe : m.frameAlloc.1 ≠ 0)
    (hmap : (m.frameAlloc.2.pagingMapPageInDirectory cr3 page m.frameAlloc.1
      (pagePresent ||| pageWritable ||| pageUser)) = (true, m')) :
    m'.StackPage cr3 page ∧ ∃ e, isUser e = true ∧ isWritable e = true ∧
      (m.pagingSwitchDirectory cr3).Repaged (m'.pagingSwitchDirectory cr3) (pageSlot page) e := by
  have hloaded := hcr3.switch m
  have hframes := m.frameAlloc_switch cr3
  have huser : isUser (pagePresent ||| pageWritable ||| pageUser) = true := by decide
  rcases h.mapFresh hi huser with
    ⟨-, hnone | ⟨f, -, halloc, hfails⟩⟩ | ⟨f, m₁, hf, halloc, hdone, hpaged, -⟩
  · exact absurd (congrArg Prod.fst (hframes.symm.trans hnone)) hframe
  · obtain ⟨haddr, htaken⟩ := Prod.mk.inj (hframes.symm.trans halloc)
    rw [hloaded, ← htaken, ← haddr, mapPageInDirectory_switch, hmap] at hfails
    cases (Prod.mk.inj hfails).1
  · obtain ⟨haddr, htaken⟩ := Prod.mk.inj (hframes.symm.trans halloc)
    rw [hloaded, ← htaken, ← haddr, mapPageInDirectory_switch, hmap] at hdone
    obtain rfl : m'.pagingSwitchDirectory cr3 = m₁ := (Prod.mk.inj hdone).2
    obtain ⟨-, -, hwritable, huser'⟩ := newEntry_facts (hf.lt_max h.sound.counted)
      (pagePresent ||| pageWritable ||| pageUser)
    have hstack := hpaged.pages.stackPage (hpaged.userPage_self (huser'.trans huser))
      (hwritable.trans (by decide))
    rw [hcr3.switch m'] at hstack
    exact ⟨hstack.congr (switch_ram _ _).symm rfl, _, huser'.trans huser, hwritable.trans (by decide), hpaged⟩

/-- Loading another directory and the first one again. -/
theorem switch_back (hcr3 : IsDirectory cr3) (hactive : m.activePageDirectory = cr3) (other : Word) :
    (m.pagingSwitchDirectory other).pagingSwitchDirectory cr3 = m := by
  have hmask : cr3 &&& addrMask = m.activePageDirectory := by
    rw [and_addrMask_of_aligned hcr3.2, hactive]
  have hloaded (w : Word) : ({ m with activePageDirectory := w } : Memory).pagingSwitchDirectory cr3 = m := by
    unfold pagingSwitchDirectory
    rw [if_neg hcr3.1, hmask]
  show (if other = 0 then m else { m with activePageDirectory := other &&& addrMask }).pagingSwitchDirectory cr3 = m
  split
  · exact hloaded m.activePageDirectory
  · exact hloaded _

/-- What is written to a page of the address space changes nothing but its bytes. -/
theorem Repaged.writtenAt (h : m.Repaged m' (pageSlot page) e) (huser : isUser e = true)
    (hwritten : m'.WrittenAt m'' page) : m.Repaged m'' (pageSlot page) e := by
  obtain ⟨w, rfl⟩ := hwritten.written
  rw [userFrame_eq (userPage_eq_some.mp (h.userPage_self huser)).1]
  exact h.write huser w

end Memory

/-- **The stack of a new image**: in an address space of user pages, frames can run out, or a page of the image is in
the way; otherwise the strings are there, in a page of their own, and the other pages are as before. What has been
copied is never too big. -/
theorem execStack_cases {k : Kernel} {newCr3 : Word} {vectors : ExecVectors} {args envs : List CString}
    (hcr3 : IsDirectory newCr3) (hpages : (k.mem.pagingSwitchDirectory newCr3).UserPages)
    (hargs : vectors.argStrings = args) (henvs : vectors.envStrings = envs) (hargc : args.length ≤ execMaxArgs)
    (henvc : envs.length ≤ execMaxEnvs) (hnul : NoNul (args ++ envs))
    (hfits : (stringBlock (args ++ envs)).length ≤ execMaxVectorBytes) :
    (execStack newCr3 vectors k).1 = .error syscallEnomem ∨ (execStack newCr3 vectors k).1 = .error syscallEio ∨
      ∃ sp e, (execStack newCr3 vectors k).1 = .ok sp ∧
        ProgramStack (execStack newCr3 vectors k).2.mem newCr3 sp args envs ∧
        (execStack newCr3 vectors k).2.mem.pageView newCr3 execStackPage = stackContent args envs ∧
        isUser e = true ∧ isWritable e = true ∧ (k.mem.pagingSwitchDirectory newCr3).Repaged
          ((execStack newCr3 vectors k).2.mem.pagingSwitchDirectory newCr3) (pageSlot execStackPage) e := by
  unfold execStack
  rw [run_bind, run_callMemory]
  by_cases hframe : k.mem.frameAlloc.1 = 0
  · rw [if_pos hframe]
    exact .inl rfl
  rw [if_neg hframe, run_bind, run_get, run_bind]
  dsimp only
  by_cases hfound : (k.withMem k.mem.frameAlloc.2).mem.pagingGetPhysicalAddressInDirectory newCr3 execStackPage ≠ 0
  · rw [if_pos hfound]
    exact .inr (.inl rfl)
  rw [if_neg hfound, run_callMemory]
  have hmem : (k.withMem k.mem.frameAlloc.2).mem = k.mem.frameAlloc.2 := rfl
  have hrange : inUserRange (dirIndex execStackPage) := by decide
  rw [hmem]
  rcases hmap : k.mem.frameAlloc.2.pagingMapPageInDirectory newCr3 execStackPage k.mem.frameAlloc.1
    (pagePresent ||| pageWritable ||| pageUser) with ⟨_ | _, m⟩
  · exact .inr (.inl rfl)
  · obtain ⟨hstack, e, huser, hwritable, hpaged⟩ := hpages.mapStack hcr3 hrange hframe hmap
    obtain ⟨sp, m', hbuild, hprogram, hcontent, hwritten⟩ :=
      hstack.execBuildUserStack hcr3.1 hargs henvs hargc henvc hnul hfits
    have hmem' : ((k.withMem k.mem.frameAlloc.2).withMem m).mem = m := rfl
    have hfull := hpaged.writtenAt huser hwritten
    refine .inr (.inr ⟨sp, e, ?_⟩)
    dsimp only
    rw [if_neg (Ne.symm Bool.false_ne_true), run_bind, run_callMemory, hmem', hbuild]
    refine ⟨rfl, hprogram, hcontent, huser, hwritable, ?_⟩
    have hactive : m'.activePageDirectory = newCr3 := hfull.active.trans (hcr3.switch k.mem)
    show (k.mem.pagingSwitchDirectory newCr3).Repaged
      ((m'.pagingSwitchDirectory m.pagingGetCurrentDirectory).pagingSwitchDirectory newCr3) (pageSlot execStackPage) e
    rw [Memory.switch_back hcr3 hactive]
    exact hfull

/-! ### What the caller of `SYS_EXEC` gives, and what its program finds -/

/-- **The arguments of a program**: `exec_copy_vector` copies them exactly if the pointers designate strings that fit,
and from the stack that `exec_build_user_stack` then builds, on any page that can be written, the new program finds
those strings. -/
theorem exec_arguments_round_trip (k : Kernel) (argvPtr envpPtr : Word) :
    ((∃ vectors, k.copyVectors argvPtr envpPtr = .ok vectors) ↔
      ∃ args envs, k.DesignatesBoth argvPtr envpPtr args envs ∧
        (stringBlock (args ++ envs)).length ≤ execMaxVectorBytes) ∧
    ∀ vectors args envs, k.copyVectors argvPtr envpPtr = .ok vectors →
      k.DesignatesBoth argvPtr envpPtr args envs →
      ∀ (m : Memory) (newCr3 : Word), newCr3 ≠ 0 → m.StackPage newCr3 execStackPage →
        ∃ sp m', m.execBuildUserStack newCr3 vectors execStackPage = (some sp, m') ∧
          ProgramStack m' newCr3 sp args envs := by
  refine ⟨Kernel.copyVectors_iff, fun vectors args envs hcopy hboth m newCr3 hcr3 hpage => ?_⟩
  obtain ⟨args', envs', hboth', hfits⟩ := Kernel.copyVectors_iff.mp ⟨vectors, hcopy⟩
  obtain rfl := hboth.args.unique hboth'.args
  obtain rfl := hboth.envs.unique hboth'.envs
  obtain ⟨vectors', hcopy', hargs, henvs⟩ := hboth.copied hfits
  obtain rfl := Except.ok.inj (hcopy.symm.trans hcopy')
  obtain ⟨sp, m', hrun, hprogram, -⟩ :=
    hpage.execBuildUserStack hcr3 hargs henvs hboth.args.count hboth.envs.count hboth.noNul hfits
  exact ⟨sp, _, hrun, hprogram⟩

/-- The words of a user page with two argument strings and one of the environment. -/
def argumentWord (i : TableIndex) : Word :=
  match i.val with
  | 0 => 0x40000020
  | 1 => 0x40000024
  | 4 => 0x40000028
  | 8 => 0x736C
  | 9 => 0x612D
  | 10 => 0x313D41
  | _ => 0

/-- The first page of the user range holds `"ls"`, `"-a"` and `"A=1"`, and an array of pointers to the first two and one
of a pointer to the third. -/
def Memory.withArguments : Memory :=
  { Memory.bare with
    ram := fun f i => if f = 768 then 0x301007 else if f = 769 then 0x302007 else argumentWord i }

/-- The first process is given them. -/
theorem withArguments_designates :
    (Kernel.solo.withMem .withArguments).DesignatesBoth 0x40000000 0x40000010 [[0x6C, 0x73], [0x2D, 0x61]]
      [[0x41, 0x3D, 0x31]] := by
  have hls : (Kernel.solo.withMem .withArguments).StringAt 0x40000020 [0x6C, 0x73] :=
    .cons (by decide) (by decide) (.cons (by decide) (by decide) (.nil (by decide)))
  have ha : (Kernel.solo.withMem .withArguments).StringAt 0x40000024 [0x2D, 0x61] :=
    .cons (by decide) (by decide) (.cons (by decide) (by decide) (.nil (by decide)))
  have hA : (Kernel.solo.withMem .withArguments).StringAt 0x40000028 [0x41, 0x3D, 0x31] :=
    .cons (by decide) (by decide) (.cons (by decide) (by decide)
      (.cons (by decide) (by decide) (.nil (by decide))))
  have hargs : (Kernel.solo.withMem .withArguments).PointersAt 0x40000000 [[0x6C, 0x73], [0x2D, 0x61]] :=
    .cons (by decide) (by decide) hls (by decide)
      (.cons (by decide) (by decide) ha (by decide) (.nil (by decide)))
  have henvs : (Kernel.solo.withMem .withArguments).PointersAt 0x40000010 [[0x41, 0x3D, 0x31]] :=
    .cons (by decide) (by decide) hA (by decide) (.nil (by decide))
  exact ⟨⟨by decide, .inr ⟨by decide, hargs⟩⟩, ⟨by decide, .inr ⟨by decide, henvs⟩⟩⟩

/-- `ls -a` with an environment of `A=1`. -/
theorem exec_arguments_round_trip_ls : ∃ vectors sp m',
    (Kernel.solo.withMem .withArguments).copyVectors 0x40000000 0x40000010 = .ok vectors ∧
      Memory.withArguments.execBuildUserStack 0x300000 vectors execStackPage = (some sp, m') ∧
      ProgramStack m' 0x300000 sp [[0x6C, 0x73], [0x2D, 0x61]] [[0x41, 0x3D, 0x31]] := by
  obtain ⟨hiff, hstack⟩ := exec_arguments_round_trip (Kernel.solo.withMem .withArguments) 0x40000000 0x40000010
  obtain ⟨vectors, hcopy⟩ := hiff.mpr ⟨_, _, withArguments_designates, by decide⟩
  obtain ⟨sp, m', hrun, hfound⟩ := hstack vectors _ _ hcopy withArguments_designates .withArguments 0x300000
    (by decide) ⟨by decide, by decide, by decide⟩
  exact ⟨vectors, sp, m', hcopy, hrun, hfound⟩

end AgenticOs
