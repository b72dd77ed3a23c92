import AgenticOs.Kernel.ImageSpace
import AgenticOs.Kernel.ExecStack

/-!
# The address space of a new image

`syscall_exec` builds the image in an address space of its own. Until it commits, all others are as they were,
and when it gives up the frames that it took are back.

* **Address spaces that are as they were** (`SpacesUndone`): memory stores the same ones, and the allocator
  has what it had. A space that was created and is destroyed is one case (`createUndone`); what is done with
  another directory loaded, before the old one is loaded again, is the next (`inDirectory`).
* **Image** (`elfLoadFromVfsInto`) and **stack** (`execBuildUserStack`, `execStack`): each works in the new
  space only, whether it succeeds or not.
* **Main result** (`execImage_spaces`): a new address space beside those that there were, or a failure and
  every address space as it was.

`ExecVectors.Copied` says that vectors are a copy of given strings; no more than sixteen of each kind are.
-/

namespace AgenticOs

open Function Finset Lib

variable {m0 m m' : Memory} {live : Finset Nat} {S S' : Spaces} {d t : Nat}

/-- What `exec_copy_vector` copies has at most sixteen strings of each kind. -/
def ExecVectors.Small (v : ExecVectors) : Prop := v.argc ≤ execMaxArgs ∧ v.envc ≤ execMaxEnvs

/-- The vectors are a copy of these strings, which keep to the bounds. -/
structure ExecVectors.Copied (v : ExecVectors) (args envs : List CString) : Prop where
  argStrings : v.argStrings = args
  envStrings : v.envStrings = envs
  argc : args.length ≤ execMaxArgs
  envc : envs.length ≤ execMaxEnvs
  noNul : NoNul (args ++ envs)
  fits : (stringBlock (args ++ envs)).length ≤ execMaxVectorBytes

namespace ExecVectors

/-- Strings that were copied in are bounded. -/
theorem length_stringAt (v : ExecVectors) (offset : Nat) : (v.stringAt offset).length ≤ execMaxVectorBytes := by
  unfold stringAt
  refine (List.takeWhile_prefix _).length_le.trans ?_
  rw [List.length_map, List.length_range]
  exact Nat.sub_le _ _

/-- Those of the arguments are. -/
theorem length_argString (v : ExecVectors) {s : CString} (hs : s ∈ v.argStrings) :
    s.length ≤ execMaxVectorBytes := by
  obtain ⟨i, -, rfl⟩ := List.mem_map.mp hs
  exact v.length_stringAt _

/-- Those of the environment are. -/
theorem length_envString (v : ExecVectors) {s : CString} (hs : s ∈ v.envStrings) :
    s.length ≤ execMaxVectorBytes := by
  obtain ⟨i, -, rfl⟩ := List.mem_map.mp hs
  exact v.length_stringAt _

end ExecVectors

namespace Memory

/-- One round of the loop of `exec_build_user_stack`. -/
theorem pushStrings_cons (stackPage sp : Word) (value : CString) (values : List CString) (pointers : List Word)
    (m : Memory) : m.pushStrings stackPage (value :: values) sp pointers =
      if sp - stackPage < BitVec.ofNat 32 (value.length + 1) then (none, m)
      else
        (m.storeBytes (sp - BitVec.ofNat 32 (value.length + 1)) (value ++ [0])).pushStrings stackPage values
          (sp - BitVec.ofNat 32 (value.length + 1)) ((sp - BitVec.ofNat 32 (value.length + 1)) :: pointers) := rfl

/-- **`exec_push_table`**, with the table as one list of words -/
theorem pushTable_eq (m : Memory) (stackPage sp : Word) (argv env : List Word) :
    m.pushTable stackPage sp argv env =
      if sp - stackPage < BitVec.ofNat 32 ((argumentTable argv env).length * 4) then (none, m)
      else if (sp - BitVec.ofNat 32 ((argumentTable argv env).length * 4)) &&& ~~~0x0F < stackPage then (none, m)
      else
        (some ((sp - BitVec.ofNat 32 ((argumentTable argv env).length * 4)) &&& ~~~0x0F),
          m.storeBytes ((sp - BitVec.ofNat 32 ((argumentTable argv env).length * 4)) &&& ~~~0x0F)
            ((argumentTable argv env).flatMap wordBytes)) := rfl

end Memory

/-! ### An address space for a while -/

/-- A new directory is elsewhere. -/
theorem Elsewhere.create : Elsewhere d S (S.create d t) := by
  refine fun d' hd' => ⟨?_, rfl, fun _ _ _ _ => rfl⟩
  funext i
  exact if_neg fun hc => hd' hc.1

/-- So is one that is given back. -/
theorem Elsewhere.destroy : Elsewhere d S (S.destroy d) := by
  refine fun d' hd' => ⟨?_, ?_, fun _ _ _ _ => rfl⟩
  · funext i
    exact if_neg fun hc => hd' hc.1
  · funext i j
    rw [S.destroy_entry, if_neg hd']

/-- Memory `m'` stores the address spaces that `m` stores, and the allocator has what it had. -/
structure SpacesUndone (m0 : Memory) (live : Finset Nat) (m m' : Memory) (S S' : Spaces) : Prop where
  tracks : Tracks m0 ⟨m', live⟩ S'
  held : S'.held = S.held
  same : ∀ d, SameSpace d S S'
  active : m'.activePageDirectory = m.activePageDirectory

namespace Tracks

/-- The loaded directory is one. -/
theorem isDirectory (h : Tracks m0 ⟨m, live⟩ S) : IsDirectory m.activePageDirectory := by
  rcases h.represents.layout.active with ha | ⟨d, hd, ha⟩
  · rw [show m.activePageDirectory = pageDirectory from ha]
    exact ⟨by decide, by decide⟩
  · rw [show m.activePageDirectory = frameAddr d from ha]
    exact ⟨h.represents.frameAddr_live_ne_zero hd, frameAddr_aligned d⟩

/-- The directories that exist are directories. -/
theorem live_isDirectory (h : Tracks m0 ⟨m, live⟩ S) (hd : d ∈ live) : IsDirectory (frameAddr d) :=
  ⟨h.represents.frameAddr_live_ne_zero (h.mem_live hd), frameAddr_aligned d⟩

/-- The frame of a directory. -/
theorem frameOf_live (h : Tracks m0 ⟨m, live⟩ S) (hd : d ∈ live) : frameOf (frameAddr d) = d :=
  frameOf_frameAddr (h.represents.live_lt (h.mem_live hd))

/-- A directory that is not alive has no table. -/
theorem table_none (h : Tracks m0 ⟨m, live⟩ S) (hd : d ∉ live) (i : TableIndex) : S.table d i = none :=
  h.represents.table_none_of_not_live (fun hc => hd (h.live_eq ▸ hc)) i

/-- The loaded directory is loaded again. -/
theorem reload (h : Tracks m0 ⟨m, live⟩ S) {loaded : Memory} (hloaded : Tracks m0 ⟨loaded, live⟩ S') :
    Tracks m0 ⟨m.pagingSwitchDirectory loaded.activePageDirectory, live⟩ S ∧
      (m.pagingSwitchDirectory loaded.activePageDirectory).activePageDirectory = loaded.activePageDirectory := by
  refine ⟨h.load (hloaded.represents.layout.active.imp id fun ⟨d, hd, ha⟩ => ⟨d, ?_, ha⟩),
    hloaded.isDirectory.switch m⟩
  rw [h.live, ← hloaded.live_eq]
  exact hd

/-- What is done with another directory loaded, and the directory from before loaded again. -/
theorem inDirectory (h : Tracks m0 ⟨m, live⟩ S)
    (hrun : InSpace m0 live d (m.pagingSwitchDirectory (frameAddr d)) m' S S') :
    InSpace m0 live d m (m'.pagingSwitchDirectory m.activePageDirectory) S S' := by
  obtain ⟨htracks, hactive⟩ := hrun.tracks.reload h
  exact ⟨htracks, hrun.elsewhere, hactive⟩

/-- `paging_create_address_space`. -/
theorem createAddressSpace (h : Tracks m0 ⟨m, live⟩ S) :
    m.pagingCreateAddressSpace.1 = 0 ∧ Tracks m0 ⟨m.pagingCreateAddressSpace.2, live⟩ S ∨
      ∃ d t, d ∉ live ∧ m.pagingCreateAddressSpace.1 = frameAddr d ∧
        Tracks m0 ⟨m.pagingCreateAddressSpace.2, insert d live⟩ (S.create d t) := by
  rcases h.represents.createAddressSpace h.tableHand with ⟨hzero, h'⟩ | ⟨d, t, hnew, -, -, hcr3, h', -⟩
  · exact .inl ⟨hzero, h.same h'⟩
  · rw [h.live_eq] at hnew
    refine .inr ⟨d, t, hnew, hcr3, h', ?_, h.pageHand, h.tableHand, h.user, h.unshared⟩
    show insert d S.live = insert d live
    rw [h.live_eq]

/-- An address space that was created and is destroyed. -/
theorem createUndone (h : Tracks m0 ⟨m, live⟩ S) (hnew : d ∉ live)
    (hS : InSpace m0 (insert d live) d m m' (S.create d t) S') :
    SpacesUndone m0 live m (m'.pagingDestroyAddressSpace (frameAddr d)) S (S'.destroy d) := by
  have hnone (i : TableIndex) : S.table d i = none := h.table_none hnew i
  have hentry (i j : TableIndex) : S.entry d i j = none := h.represents.entry_none_of_table_none (hnone i) j
  have hdS : d ∉ S.live := by
    rw [h.live_eq]
    exact hnew
  have hactive : m'.activePageDirectory ≠ frameAddr d := by
    rw [hS.active]
    rcases h.represents.layout.active with ha | ⟨d', hd', ha⟩
    · rw [show m.activePageDirectory = pageDirectory from ha]
      intro heq
      have hkernel :=
        hS.tracks.represents.held_ne_kernel (Represents.held_dir (hS.tracks.mem_live (mem_insert_self _ _)))
      rw [← hS.tracks.frameOf_live (mem_insert_self _ _), ← heq] at hkernel
      exact hkernel rfl
    · rw [show m.activePageDirectory = frameAddr d' from ha]
      intro heq
      have hframe := congrArg frameOf heq
      rw [hS.tracks.frameOf_live (mem_insert_self _ _), frameOf_frameAddr (h.represents.live_lt hd')] at hframe
      exact hdS (hframe ▸ hd')
  have htracks := hS.tracks.destroyed (mem_insert_self _ _) hactive
  rw [show (⟨m', insert d live⟩ : PagingState).live = insert d live from rfl, erase_insert hnew] at htracks
  refine ⟨htracks, ?_, fun d' => ?_, (m'.pagingDestroyAddressSpace_active _).trans hS.active⟩
  · have hlive : S'.live = (S.create d t).live := by
      rw [hS.tracks.live_eq]
      show insert d live = insert d S.live
      rw [h.live_eq]
    rw [hS.elsewhere.held_destroy hlive (hS.tracks.pageHand.trans h.pageHand.symm)
      (hS.tracks.tableHand.trans h.tableHand.symm)]
    funext o
    cases o with
    | dir d' =>
      show (if d' ∈ (insert d S.live).erase d then some d' else none) = if d' ∈ S.live then some d' else none
      rw [erase_insert hdS]
    | table d' i =>
      show (if d' = d ∧ i ∈ tableIndices then none else if d' = d ∧ i = 0 then some t else S.table d' i) =
        S.table d' i
      by_cases hd : d' = d
      · rw [if_pos ⟨hd, Memory.mem_tableIndices i⟩, hd, hnone]
      · rw [if_neg fun hc => hd hc.1, if_neg fun hc => hd hc.1]
    | page d' i j =>
      show (((S.create d t).destroy d).entry d' i j).map frameOf = (S.entry d' i j).map frameOf
      rw [Spaces.destroy_entry]
      by_cases hd : d' = d
      · rw [if_pos hd, hd, hentry]
      · rw [if_neg hd]
        rfl
    | pageHand | tableHand => rfl
  · by_cases hd : d' = d
    · subst hd
      refine ⟨?_, ?_, fun i j e he => ?_⟩
      · funext i
        exact (if_pos ⟨rfl, Memory.mem_tableIndices i⟩).trans (hnone i).symm
      · funext i j
        rw [S'.destroy_entry, if_pos rfl, hentry]
      · rw [hentry] at he
        cases he
    · exact (Elsewhere.create d' hd).trans ((hS.elsewhere d' hd).trans (Elsewhere.destroy d' hd))

/-! ### The image -/

/-- `elf_load_from_vfs_into`, whether it succeeds or not. -/
theorem elfLoadFromVfsInto {k : Kernel} (h : Tracks m0 ⟨k.mem, live⟩ S) (hd : d ∈ live) (path : CString) :
    ∃ S', InSpace m0 live d k.mem (AgenticOs.elfLoadFromVfsInto (frameAddr d) path k).2.mem S S' := by
  have hcr3 := h.live_isDirectory hd
  obtain ⟨-, hmem⟩ := elfLoadFromVfsInto_run hcr3.1 path k
  have hloaded := h.load (.inr ⟨d, h.mem_live hd, rfl⟩)
  rw [hmem]
  rcases elfLoadFromVfs_cases path (k.withMem (k.mem.pagingSwitchDirectory (frameAddr d))) with
    ⟨-, hsame⟩ | ⟨file, hloads, hrun, -⟩
  · rw [hsame]
    exact ⟨S, h.inDirectory hloaded.self⟩
  · rw [hrun]
    obtain ⟨S', h'⟩ := hloaded.loadSegments hd (hcr3.switch k.mem) hloads.loadable.safe
    exact ⟨S', h.inDirectory h'⟩

/-! ### The stack -/

/-- Bytes are stored in the page of the stack. -/
theorem storeInPage (h : Tracks m0 ⟨m, live⟩ S) (hactive : m.activePageDirectory = frameAddr d)
    (hwritable : S.Writable d (pageSlot execStackPage)) (sp : Word) (bytes : List Byte)
    (hin : ∀ k < bytes.length, pageSlot (sp + BitVec.ofNat 32 k) = pageSlot execStackPage) :
    ∃ S', InSpace m0 live d m (m.storeBytes sp bytes) S S' ∧ S'.entry = S.entry :=
  h.storeBytes hactive sp bytes fun k hk => hin k hk ▸ hwritable

/-- The two loops that put strings on the stack. -/
theorem pushStrings {values : List CString} {n : Nat} (h : Tracks m0 ⟨m, live⟩ S)
    (hactive : m.activePageDirectory = frameAddr d) (hwritable : S.Writable d (pageSlot execStackPage))
    (hlength : ∀ s ∈ values, s.length ≤ execMaxVectorBytes) (hn : n ≤ 4096) (pointers : List Word) :
    ∃ S', InSpace m0 live d m (m.pushStrings execStackPage values (stackAt n) pointers).2 S S' ∧
      S'.entry = S.entry ∧ ∀ r, (m.pushStrings execStackPage values (stackAt n) pointers).1 = some r →
        (∃ n' ≤ 4096, r.1 = stackAt n') ∧ r.2.length = values.length + pointers.length := by
  induction values generalizing m S n pointers with
  | nil =>
    refine ⟨S, h.self, rfl, fun r hr => ?_⟩
    obtain rfl := Option.some.inj hr
    exact ⟨⟨n, hn, rfl⟩, (Nat.zero_add _).symm⟩
  | cons value values ih =>
    have hvalue := hlength value List.mem_cons_self
    have hmax : execMaxVectorBytes = 3072 := rfl
    rw [Memory.pushStrings_cons]
    by_cases hroom : stackAt n - execStackPage < BitVec.ofNat 32 (value.length + 1)
    · rw [if_pos hroom]
      exact ⟨S, h.self, rfl, fun r hr => absurd hr nofun⟩
    rw [if_neg hroom, stackAt_sub]
    rw [BitVec.lt_def, stackAt_room hn, BitVec.toNat_ofNat] at hroom
    have hbytes : (value ++ [0]).length = value.length + 1 := by
      rw [List.length_append, List.length_singleton]
    obtain ⟨S₁, h₁, hentry₁⟩ := h.storeInPage hactive hwritable _ (value ++ [0]) fun k hk =>
      stackAt_slot (n := n + (value.length + 1)) (by omega) (by omega)
    obtain ⟨S₂, h₂, hentry₂, hresult⟩ := ih h₁.tracks (h₁.active.trans hactive) (hwritable.congr hentry₁)
      (fun s hs => hlength s (List.mem_cons_of_mem _ hs)) (n := n + (value.length + 1)) (by omega)
      (stackAt (n + (value.length + 1)) :: pointers)
    refine ⟨S₂, h₁.trans h₂, hentry₂.trans hentry₁, fun r hr => ?_⟩
    obtain ⟨hsp, hcount⟩ := hresult r hr
    refine ⟨hsp, hcount.trans ?_⟩
    rw [List.length_cons, List.length_cons]
    omega

/-- The table below the strings. -/
theorem pushTable {argv env : List Word} {n : Nat} (h : Tracks m0 ⟨m, live⟩ S)
    (hactive : m.activePageDirectory = frameAddr d) (hwritable : S.Writable d (pageSlot execStackPage))
    (hn : n ≤ 4096) (hcount : argv.length + env.length ≤ 32) :
    ∃ S', InSpace m0 live d m (m.pushTable execStackPage (stackAt n) argv env).2 S S' := by
  have hlength := length_argumentTable argv env
  rw [Memory.pushTable_eq]
  by_cases hroom : stackAt n - execStackPage < BitVec.ofNat 32 ((argumentTable argv env).length * 4)
  · rw [if_pos hroom]
    exact ⟨S, h.self⟩
  rw [if_neg hroom, stackAt_sub]
  rw [BitVec.lt_def, stackAt_room hn, BitVec.toNat_ofNat] at hroom
  generalize hsp : stackAt (n + (argumentTable argv env).length * 4) &&& ~~~0x0F = sp
  have hle : sp.toNat ≤ (stackAt (n + (argumentTable argv env).length * 4)).toNat := by
    rw [← hsp, BitVec.toNat_and]
    exact Nat.and_le_left
  rw [stackAt_toNat (by omega)] at hle
  split
  · exact ⟨S, h.self⟩
  rename_i habove
  rw [BitVec.lt_def, execStackPage_toNat] at habove
  have hbytes := length_argumentTable_bytes argv env
  obtain ⟨S', h', -⟩ := h.storeInPage hactive hwritable sp ((argumentTable argv env).flatMap wordBytes)
    fun k hk => by
      rw [pageSlot_eq_iff, BitVec.toNat_add, BitVec.toNat_ofNat, execStackPage_toNat]
      omega
  exact ⟨S', h'⟩

/-- `exec_build_user_stack`, whether the strings fit or not. -/
theorem execBuildUserStack (h : Tracks m0 ⟨m, live⟩ S) (hd : d ∈ live)
    (hwritable : S.Writable d (pageSlot execStackPage)) {vectors : ExecVectors} (hsmall : vectors.Small) :
    ∃ S', InSpace m0 live d m (m.execBuildUserStack (frameAddr d) vectors execStackPage).2 S S' := by
  have hloaded := h.load (.inr ⟨d, h.mem_live hd, rfl⟩)
  have hactive := (h.live_isDirectory hd).switch m
  suffices hbuild : ∃ S', InSpace m0 live d (m.pagingSwitchDirectory (frameAddr d))
      ((m.pagingSwitchDirectory (frameAddr d)).buildUserStack vectors execStackPage).2 S S' by
    obtain ⟨S', h'⟩ := hbuild
    exact ⟨S', h.inDirectory h'⟩
  change Tracks m0 ⟨m.pagingSwitchDirectory (frameAddr d), live⟩ S at hloaded
  generalize m.pagingSwitchDirectory (frameAddr d) = m₁ at hloaded hactive ⊢
  have htop : userStackTop = stackAt 0 := rfl
  unfold Memory.buildUserStack
  split
  · exact ⟨S, hloaded.self⟩
  dsimp only
  obtain ⟨S₁, h₁, hentry₁⟩ := hloaded.clearPage hactive hwritable
  have hwritable₁ := hwritable.congr hentry₁
  rw [htop]
  obtain ⟨S₂, h₂, hentry₂, hrun₂⟩ := h₁.tracks.pushStrings (h₁.active.trans hactive) hwritable₁
    (fun s hs => vectors.length_envString (List.mem_reverse.mp hs)) (Nat.zero_le _) []
  have h₁₂ := h₁.trans h₂
  generalize (m₁.clearPage execStackPage).pushStrings execStackPage _ (stackAt 0) [] = r at h₂ hrun₂ h₁₂ ⊢
  obtain ⟨_ | ⟨sp, env⟩, m₂⟩ := r
  · exact ⟨S₂, h₁₂⟩
  obtain ⟨⟨n, hn, rfl⟩, henv⟩ := hrun₂ _ rfl
  obtain ⟨S₃, h₃, hentry₃, hrun₃⟩ := h₂.tracks.pushStrings (h₁₂.active.trans hactive) (hwritable₁.congr hentry₂)
    (fun s hs => vectors.length_argString (List.mem_reverse.mp hs)) hn []
  have h₁₃ := h₁₂.trans h₃
  dsimp only
  generalize m₂.pushStrings execStackPage _ (stackAt n) [] = r at h₃ hrun₃ h₁₃ ⊢
  obtain ⟨_ | ⟨sp, argv⟩, m₃⟩ := r
  · exact ⟨S₃, h₁₃⟩
  obtain ⟨⟨n', hn', rfl⟩, hargv⟩ := hrun₃ _ rfl
  have hcount : argv.length + env.length ≤ 32 := by
    have hargs : vectors.argStrings.length = vectors.argc := by
      unfold ExecVectors.argStrings
      rw [List.length_map, List.length_range]
    have henvs : vectors.envStrings.length = vectors.envc := by
      unfold ExecVectors.envStrings
      rw [List.length_map, List.length_range]
    have hmax : execMaxArgs + execMaxEnvs = 32 := rfl
    rw [List.length_reverse, List.length_nil] at hargv henv
    obtain ⟨hargc, henvc⟩ := hsmall
    dsimp only at hargv henv
    omega
  obtain ⟨S₄, h₄⟩ :=
    h₃.tracks.pushTable (h₁₃.active.trans hactive) ((hwritable₁.congr hentry₂).congr hentry₃) hn' hcount
  exact ⟨S₄, h₁₃.trans h₄⟩

/-- `syscall_exec` once the image is loaded: the stack is there, or the address space is destroyed. -/
theorem execStack {k : Kernel} (h : Tracks m0 ⟨k.mem, live⟩ S) (hd : d ∈ live) {vectors : ExecVectors}
    (hsmall : vectors.Small) : ∃ S' m', InSpace m0 live d k.mem m' S S' ∧
      ((∃ sp, (AgenticOs.execStack (frameAddr d) vectors k).1 = .ok sp) ∧
          (AgenticOs.execStack (frameAddr d) vectors k).2.mem = m' ∨
        (∃ status, (AgenticOs.execStack (frameAddr d) vectors k).1 = .error status ∧ status ≠ syscallSuccess) ∧
          (AgenticOs.execStack (frameAddr d) vectors k).2.mem = m'.pagingDestroyAddressSpace (frameAddr d)) := by
  have hrange : inUserRange (dirIndex execStackPage) := by decide
  have huser : isUser (pagePresent ||| pageWritable ||| pageUser) = true := by decide
  have hnomem : syscallEnomem ≠ syscallSuccess := by decide
  have hio : syscallEio ≠ syscallSuccess := by decide
  have hbig : syscallE2big ≠ syscallSuccess := by decide
  unfold AgenticOs.execStack
  rw [run_bind, run_callMemory]
  unfold Memory.frameAlloc
  rcases h.mapFrame hd hrange huser (k.mem.frames.totalFrames * frameSize) with
    heq | ⟨f, m₁, hpos, hlt, heq, hram, -, hback, hmap⟩
  · rw [heq, if_pos rfl]
    exact ⟨S, k.mem, h.self, .inr ⟨⟨_, rfl, hnomem⟩, rfl⟩⟩
  rw [heq]
  dsimp only
  rw [if_neg (frameAddr_ne_zero hpos hlt), run_bind, run_get, run_bind]
  dsimp only
  by_cases hfound : (k.withMem m₁).mem.pagingGetPhysicalAddressInDirectory (frameAddr d) execStackPage ≠ 0
  · rw [if_pos hfound]
    exact ⟨S, _, hback, .inr ⟨⟨_, rfl, hio⟩, rfl⟩⟩
  rw [if_neg hfound, run_callMemory]
  have hphys : k.mem.pagingGetPhysicalAddressInDirectory (frameAddr d) execStackPage = 0 := by
    have hzero : m₁.pagingGetPhysicalAddressInDirectory (frameAddr d) execStackPage = 0 := not_not.mp hfound
    unfold Memory.pagingGetPhysicalAddressInDirectory Memory.entry at hzero ⊢
    rwa [hram] at hzero
  have hrun : (k.withMem m₁).mem = m₁ := rfl
  rw [hrun]
  rcases hmap (h.entry_of_unmapped ⟨hrange, hphys⟩) with hfail | ⟨m₂, S₂, e, hdone, h₂, hentry₂, -, hw⟩
  · rw [hfail]
    exact ⟨S, _, hback, .inr ⟨⟨_, rfl, hio⟩, rfl⟩⟩
  rw [hdone]
  dsimp only
  rw [if_neg (Ne.symm Bool.false_ne_true), run_bind, run_callMemory]
  have hrun₂ : ((k.withMem m₁).withMem m₂).mem = m₂ := rfl
  have hwritable : S₂.Writable d (pageSlot execStackPage) := by
    refine ⟨e, ?_, hw.trans (by decide)⟩
    rw [hentry₂]
    exact if_pos ⟨rfl, rfl, rfl⟩
  obtain ⟨S₃, h₃⟩ := h₂.tracks.execBuildUserStack hd hwritable hsmall
  rw [hrun₂]
  generalize m₂.execBuildUserStack (frameAddr d) vectors execStackPage = r at h₃ ⊢
  obtain ⟨_ | sp, m₃⟩ := r
  · exact ⟨S₃, m₃, h₂.trans h₃, .inr ⟨⟨_, rfl, hbig⟩, rfl⟩⟩
  · exact ⟨S₃, m₃, h₂.trans h₃, .inl ⟨⟨sp, rfl⟩, rfl⟩⟩

end Tracks

/-- **The address space of a new image**: `syscall_exec` leaves a new one beside those that there were, or it fails, and
every address space and the allocator are as before. -/
theorem execImage_spaces {k : Kernel} (h : Tracks m0 ⟨k.mem, live⟩ S) (path : CString) {vectors : ExecVectors}
    (hsmall : vectors.Small) :
    (∃ status S', (execImage path vectors k).1 = .error status ∧ status ≠ syscallSuccess ∧
        SpacesUndone m0 live k.mem (execImage path vectors k).2.mem S S') ∨
      ∃ d S' entry sp, d ∉ live ∧ (execImage path vectors k).1 = .ok (frameAddr d, entry, sp) ∧
        Tracks m0 ⟨(execImage path vectors k).2.mem, insert d live⟩ S' ∧ Elsewhere d S S' ∧
          (execImage path vectors k).2.mem.activePageDirectory = k.mem.activePageDirectory := by
  have hnomem : syscallEnomem ≠ syscallSuccess := by decide
  have hstatus (e : Int) : execStatus e ≠ syscallSuccess := by
    unfold execStatus
    repeat' split
    all_goals decide
  unfold execImage
  rw [run_bind, run_callMemory]
  have hactive := k.mem.pagingCreateAddressSpace_active
  rcases h.createAddressSpace with ⟨hzero, h'⟩ | ⟨d, t, hnew, hcr3, h₁⟩
  · rw [if_pos hzero]
    exact .inl ⟨_, S, rfl, hnomem, h', rfl, fun d => .refl d S, hactive⟩
  have hd : d ∈ insert d live := mem_insert_self d live
  rw [if_neg (hcr3 ▸ (h₁.live_isDirectory hd).1), hcr3, run_bind]
  generalize hm : k.mem.pagingCreateAddressSpace.2 = m at h₁ hactive ⊢
  obtain ⟨S₂, h₂⟩ := Tracks.elfLoadFromVfsInto (k := k.withMem m) h₁ hd path
  generalize elfLoadFromVfsInto (frameAddr d) path (k.withMem m) = r at h₂ ⊢
  have h₂' : InSpace m0 (insert d live) d k.mem r.2.mem (S.create d t) S₂ :=
    ⟨h₂.tracks, h₂.elsewhere, h₂.active.trans hactive⟩
  obtain ⟨e | info, k₂⟩ := r
  · exact .inl ⟨_, _, rfl, hstatus e, h.createUndone hnew h₂'⟩
  dsimp only
  rw [run_bind]
  obtain ⟨S₃, m₃, h₃, hrun⟩ := Tracks.execStack (k := k₂) h₂.tracks hd hsmall
  have h₃' := h₂'.trans h₃
  generalize execStack (frameAddr d) vectors k₂ = r at hrun ⊢
  obtain ⟨status | sp, k₃⟩ := r
  · rcases hrun with ⟨⟨sp, hok⟩, -⟩ | ⟨⟨status', herror, hne⟩, hmem⟩
    · cases hok
    · obtain rfl := Except.error.inj herror
      have hundone := h.createUndone hnew h₃'
      rw [← hmem] at hundone
      exact .inl ⟨status, _, rfl, hne, hundone⟩
  · rcases hrun with ⟨-, rfl⟩ | ⟨⟨status', herror, -⟩, -⟩
    · exact .inr ⟨d, S₃, info.entry, sp, hnew, rfl, h₃'.tracks, Elsewhere.create.trans h₃'.elsewhere, h₃'.active⟩
    · cases herror

end AgenticOs
