import AgenticOs.Kernel.Quiet
import AgenticOs.Kernel.Rescheduled
import AgenticOs.Lib.Ledger
import AgenticOs.PipeFifo

/-!
# References

A descriptor names an open file or an end of a pipe, and the file or the end counts the descriptors that name
it. A call that opens, passes on or closes has references *in hand*: they are counted, but no descriptor has
them.

* **Balance** (`Counted`): every object counts the descriptors that name it and the references in hand.
  Installing a descriptor takes a reference out of the hand (`Kernel.Counted.install`), clearing one puts it
  there (`Kernel.Counted.clear`).
* **Open files** (`counted_vfsOpen`, `counted_vfsClose`, `counted_vfsRetain`) and **pipes**
  (`counted_kernelPipeCreate`, `counted_kernelPipeClose`, `counted_kernelPipeRetain`): what these calls leave
  in hand.
* **Descriptors** (`counted_processFdClose`, `counted_processFdCloseAll`, `counted_processFdInstall`): closing
  gives the reference back, installing uses the one in hand or keeps it.
* **Inheritance** (`counted_inheritFds`): the child of a fork gets the descriptors of its parent, or none.

The counting is that of `Lib/Ledger.lean`, with descriptors as slots.
-/

namespace AgenticOs

open Finset Function Lib

/-- What a descriptor can name. -/
inductive Object
  | file (i : Fin vfsMaxOpenFiles)
  | readEnd (i : Fin maxPipes)
  | writeEnd (i : Fin maxPipes)
  deriving DecidableEq

/-- The kind and the handle of the descriptors of an object. -/
def Object.name : Object → FdKind × Int
  | .file i => (.vfs, (i.val : Int))
  | .readEnd i => (.pipeRead, pipeReadHandle i)
  | .writeEnd i => (.pipeWrite, pipeWriteHandle i)

/-- Objects are told apart by their names. -/
theorem Object.name_injective : Injective Object.name := by
  rintro (i | i | i) (j | j | j) h <;> unfold Object.name at h <;>
    simp only [Prod.mk.injEq, pipeReadHandle, pipeWriteHandle, reduceCtorEq, false_and, true_and] at h
  · rw [Fin.ext (by omega : i.val = j.val)]
  · rw [Fin.ext (by omega : i.val = j.val)]
  · rw [Fin.ext (by omega : i.val = j.val)]

/-- The handle of an object is not negative. -/
theorem Object.name_handle (o : Object) : 0 ≤ o.name.2 := by
  cases o <;> simp only [Object.name, pipeReadHandle, pipeWriteHandle, pipeHandleBase] <;> omega

/-- Nor is its kind that of an unused descriptor. -/
theorem Object.name_kind (o : Object) : o.name.1 ≠ .none := by
  cases o <;> nofun

/-- What a descriptor names. -/
def ProcessFd.name (fd : ProcessFd) : Option (FdKind × Int) :=
  if fd.kind = .none then none else some (fd.kind, fd.handle)

/-- An unused descriptor names nothing. -/
@[simp] theorem ProcessFd.name_unused : ProcessFd.unused.name = none := rfl

/-- Only unused descriptors name nothing. -/
theorem ProcessFd.name_eq_none {fd : ProcessFd} : fd.name = none ↔ fd.kind = .none := by
  unfold ProcessFd.name
  split <;> simp_all

/-- What a descriptor names is told by its kind and its handle. -/
theorem ProcessFd.name_eq_some {fd : ProcessFd} {o : Object} :
    fd.name = some o.name ↔ (fd.kind, fd.handle) = o.name := by
  unfold ProcessFd.name
  split
  · rename_i hk
    refine ⟨nofun, fun h => absurd ?_ o.name_kind⟩
    rw [← h]
    exact hk
  · exact Option.some_inj

namespace Kernel

variable (k : Kernel)

/-- What the descriptors of the table name. -/
def held (s : Slot × Fin processMaxFds) : Option (FdKind × Int) := ((k.procs s.1).fds s.2).name

/-- The count that an object keeps. -/
def count : Object → Nat
  | .file i => (k.vfs.vfsOpenFiles i).refCount
  | .readEnd i => (k.pipes i).readers
  | .writeEnd i => (k.pipes i).writers

/-- An object in use has a reference, and one that is not has none. -/
structure TablesUsed : Prop where
  file : ∀ i, (k.vfs.vfsOpenFiles i).used = true ↔ 0 < k.count (.file i)
  pipe : ∀ i, (k.pipes i).used = true ↔ 0 < k.count (.readEnd i) ∨ 0 < k.count (.writeEnd i)

/-- Every object counts the descriptors that name it and the references in hand. -/
structure Counted (hand : List Object) : Prop where
  exact : ∀ o, k.count o = holders univ k.held o.name + hand.count o
  named : ∀ s r, k.held s = some r → ∃ o : Object, r = o.name
  tables : k.TablesUsed
  dead : ∀ p, (k.procs p).state = .dead → ∀ fd, k.held (p, fd) = none

end Kernel

/-- The descriptors are the same, and no process is dead that was not. -/
structure SameFds (k k' : Kernel) : Prop where
  fds : ∀ p, (k'.procs p).fds = (k.procs p).fds
  dead : ∀ p, (k'.procs p).state = .dead → (k.procs p).state = .dead

/-- So are the counts. -/
structure SameRefs (k k' : Kernel) : Prop extends SameFds k k' where
  count : ∀ o, k'.count o = k.count o
  file : ∀ i, (k'.vfs.vfsOpenFiles i).used = (k.vfs.vfsOpenFiles i).used
  pipe : ∀ i, (k'.pipes i).used = (k.pipes i).used

variable {k k' k'' : Kernel} {hand : List Object} {o : Object} {proc p : Slot}

namespace SameFds

/-- Nothing has happened. -/
theorem refl (k : Kernel) : SameFds k k := ⟨fun _ => rfl, fun _ => id⟩

/-- Two steps after one another. -/
theorem trans (h : SameFds k k') (h' : SameFds k' k'') : SameFds k k'' :=
  ⟨fun p => (h'.fds p).trans (h.fds p), fun p hp => h.dead p (h'.dead p hp)⟩

/-- The same objects are named. -/
theorem held (h : SameFds k k') : k'.held = k.held := by
  funext s
  unfold Kernel.held
  rw [h.fds]

/-- Rescheduling changes no descriptor. -/
theorem of_rescheduled (h : Rescheduled k.toScheduler k'.toScheduler) : SameFds k k' := by
  refine ⟨fun p => ?_, h.dead⟩
  rw [h.procs p]

end SameFds

namespace SameRefs

/-- Nothing has happened. -/
theorem refl (k : Kernel) : SameRefs k k := ⟨.refl k, fun _ => rfl, fun _ => rfl, fun _ => rfl⟩

/-- Two steps after one another. -/
theorem trans (h : SameRefs k k') (h' : SameRefs k' k'') : SameRefs k k'' where
  toSameFds := h.toSameFds.trans h'.toSameFds
  count := fun o => (h'.count o).trans (h.count o)
  file := fun i => (h'.file i).trans (h.file i)
  pipe := fun i => (h'.pipe i).trans (h.pipe i)

instance : IsPreorder Kernel SameRefs where
  refl := refl
  trans _ _ _ := trans

/-- A change of the scheduler. -/
theorem of_rescheduled (h : Rescheduled k.toScheduler k'.toScheduler) (hp : k'.pipes = k.pipes)
    (hv : k'.vfs = k.vfs) : SameRefs k k' := by
  refine ⟨.of_rescheduled h, fun o => ?_, fun i => ?_, fun i => ?_⟩
  · unfold Kernel.count
    rw [hp, hv]
  · rw [hv]
  · rw [hp]

/-- A change of what no descriptor is about. -/
theorem of_procs (hs : k'.procs = k.procs) (hp : k'.pipes = k.pipes) (hv : k'.vfs = k.vfs) :
    SameRefs k k' := by
  refine ⟨⟨fun p => ?_, fun p => ?_⟩, fun o => ?_, fun i => ?_, fun i => ?_⟩
  · rw [hs]
  · rw [hs]
    exact id
  · unfold Kernel.count
    rw [hp, hv]
  · rw [hv]
  · rw [hp]

/-- A process changes, but not its descriptors, and does not die. -/
theorem setProc {f : Process → Process} (hf : (f (k.procs proc)).fds = (k.procs proc).fds)
    (hd : (f (k.procs proc)).state = .dead → (k.procs proc).state = .dead) :
    SameRefs k (k.setProc proc f) := by
  refine ⟨⟨fun p => ?_, fun p => ?_⟩, fun o => by cases o <;> rfl, fun _ => rfl, fun _ => rfl⟩
  · by_cases hp : p = proc
    · subst hp
      rw [Kernel.setProc_self]
      exact hf
    · rw [k.setProc_of_ne hp]
  · by_cases hp : p = proc
    · subst hp
      rw [Kernel.setProc_self]
      exact hd
    · rw [k.setProc_of_ne hp]
      exact id

end SameRefs

namespace Kernel

/-- What is in use stays in use. -/
theorem TablesUsed.same (h : k.TablesUsed) (hs : SameRefs k k') : k'.TablesUsed := by
  refine ⟨fun i => ?_, fun i => ?_⟩
  · rw [hs.file, hs.count]
    exact h.file i
  · rw [hs.pipe, hs.count, hs.count]
    exact h.pipe i

namespace Counted

/-- A balance stays one where neither descriptors nor counts have changed. -/
theorem same (h : k.Counted hand) (hs : SameRefs k k') : k'.Counted hand where
  exact := fun o => by rw [hs.count, hs.held, h.exact]
  named := fun s r hr => h.named s r (by rwa [hs.held] at hr)
  tables := h.tables.same hs
  dead := fun p hp fd => by rw [hs.held, h.dead p (hs.dead p hp)]

/-- New references. -/
theorem gainAll {l : List Object} (h : k.Counted hand) (hs : SameFds k k') (ht : k'.TablesUsed)
    (hcount : ∀ o, k'.count o = k.count o + l.count o) : k'.Counted (l ++ hand) where
  exact := fun o => by
    rw [hcount, hs.held, h.exact, List.count_append, add_assoc, add_comm (hand.count o)]
  named := fun s r hr => h.named s r (by rwa [hs.held] at hr)
  tables := ht
  dead := fun p hp fd => by rw [hs.held, h.dead p (hs.dead p hp)]

/-- A new reference. -/
theorem gain (h : k.Counted hand) (hs : SameFds k k') (ht : k'.TablesUsed)
    (hcount : ∀ o', k'.count o' = k.count o' + if o = o' then 1 else 0) : k'.Counted (o :: hand) := by
  refine gainAll (l := [o]) h hs ht fun o' => ?_
  rw [hcount, List.count_singleton]
  simp only [beq_iff_eq]

/-- A reference is given back. -/
theorem drop (h : k.Counted (o :: hand)) (hs : SameFds k k') (ht : k'.TablesUsed)
    (hcount : ∀ o', k'.count o' + (if o = o' then 1 else 0) = k.count o') : k'.Counted hand where
  exact := fun o' => by
    have h₁ := hcount o'
    have h₂ := h.exact o'
    rw [List.count_cons] at h₂
    simp only [beq_iff_eq] at h₂
    rw [hs.held]
    omega
  named := fun s r hr => h.named s r (by rwa [hs.held] at hr)
  tables := ht
  dead := fun p hp fd => by rw [hs.held, h.dead p (hs.dead p hp)]

/-- A reference in hand is counted. -/
theorem pos (h : k.Counted (o :: hand)) : 0 < k.count o := by
  rw [h.exact, List.count_cons_self]
  omega

/-- So is one of a descriptor. -/
theorem pos_of_held {s : Slot × Fin processMaxFds} (h : k.Counted hand)
    (hs : k.held s = some o.name) : 0 < k.count o := by
  have hpos : 0 < holders univ k.held o.name := holders_pos_iff.mpr ⟨s, mem_univ s, hs⟩
  rw [h.exact]
  omega

end Counted

end Kernel

/-! ### Descriptors -/

/-- One descriptor names something else. -/
theorem Kernel.held_setFd (k : Kernel) (proc : Slot) (fd : Fin processMaxFds) (entry : ProcessFd) :
    (k.setProc proc (·.setFd fd entry)).held = update k.held (proc, fd) entry.name := by
  funext ⟨p, i⟩
  unfold Kernel.held
  dsimp only
  by_cases hp : p = proc
  · subst hp
    rw [Kernel.setProc_self]
    show (update (k.procs p).fds fd entry i).name = _
    by_cases hi : i = fd
    · subst hi
      rw [update_self, update_self]
    · rw [update_of_ne hi, update_of_ne (by simpa using hi)]
  · rw [k.setProc_of_ne hp, update_of_ne (by simp [hp])]

/-- A change of a process is no change of the tables. -/
theorem Kernel.TablesUsed.setProc (h : k.TablesUsed) (f : Process → Process) :
    (k.setProc proc f).TablesUsed := ⟨h.file, h.pipe⟩

/-- A reference goes from the hand to an unused descriptor. -/
theorem Kernel.Counted.install (h : k.Counted (o :: hand)) {fd : Fin processMaxFds} {entry : ProcessFd}
    (hunused : k.held (proc, fd) = none) (hname : entry.name = some o.name)
    (hlives : (k.procs proc).state ≠ .dead) : (k.setProc proc (·.setFd fd entry)).Counted hand where
  exact := fun o' => by
    have hcount : (k.setProc proc (·.setFd fd entry)).count o' = k.count o' := by cases o' <;> rfl
    rw [hcount, h.exact, k.held_setFd, hname, holders_acquire (mem_univ _) hunused, List.count_cons,
      add_assoc, add_comm (hand.count o')]
    simp only [beq_iff_eq, Object.name_injective.eq_iff]
  named := fun s r hr => by
    rw [k.held_setFd] at hr
    by_cases hs : s = (proc, fd)
    · rw [hs, update_self, hname] at hr
      exact ⟨o, (Option.some.inj hr).symm⟩
    · rw [update_of_ne hs] at hr
      exact h.named s r hr
  tables := h.tables.setProc _
  dead := fun p hp i => by
    have hne : p ≠ proc := by
      rintro rfl
      rw [Kernel.setProc_self] at hp
      exact hlives hp
    rw [k.setProc_of_ne hne] at hp
    rw [k.held_setFd, update_of_ne (by simp [hne]), h.dead p hp]

/-- A descriptor is cleared, and its reference is in hand. -/
theorem Kernel.Counted.clear (h : k.Counted hand) {fd : Fin processMaxFds}
    (hheld : k.held (proc, fd) = some o.name) :
    (k.setProc proc (·.setFd fd .unused)).Counted (o :: hand) where
  exact := fun o' => by
    have hcount : (k.setProc proc (·.setFd fd .unused)).count o' = k.count o' := by cases o' <;> rfl
    have hrelease := holders_release (l := o'.name) (mem_univ _) hheld
    rw [hcount, h.exact, k.held_setFd, ProcessFd.name_unused, ← hrelease, List.count_cons, add_assoc,
      add_comm (hand.count o')]
    simp only [beq_iff_eq, Object.name_injective.eq_iff]
  named := fun s r hr => by
    rw [k.held_setFd, ProcessFd.name_unused] at hr
    by_cases hs : s = (proc, fd)
    · rw [hs, update_self] at hr
      cases hr
    · rw [update_of_ne hs] at hr
      exact h.named s r hr
  tables := h.tables.setProc _
  dead := fun p hp i => by
    have hdead : (k.procs p).state = .dead := by
      by_cases hpp : p = proc
      · subst hpp
        rwa [Kernel.setProc_self] at hp
      · rwa [k.setProc_of_ne hpp] at hp
    rw [k.held_setFd, ProcessFd.name_unused]
    by_cases hs : (p, i) = (proc, fd)
    · rw [hs, update_self]
    · rw [update_of_ne hs, h.dead p hdead]

/-! ### Open files -/

/-- The same entries are in use, with the same counts. -/
structure Vfs.SameTable (v v' : Vfs) : Prop where
  used : ∀ i, (v'.vfsOpenFiles i).used = (v.vfsOpenFiles i).used
  refCount : ∀ i, (v'.vfsOpenFiles i).refCount = (v.vfsOpenFiles i).refCount

namespace Vfs

variable {v v' v'' : Vfs}

/-- The same table. -/
theorem SameTable.refl (v : Vfs) : SameTable v v := ⟨fun _ => rfl, fun _ => rfl⟩

/-- Two steps after one another. -/
theorem SameTable.trans (h : SameTable v v') (h' : SameTable v' v'') : SameTable v v'' :=
  ⟨fun i => (h'.used i).trans (h.used i), fun i => (h'.refCount i).trans (h.refCount i)⟩

instance : IsPreorder Vfs SameTable where
  refl := .refl
  trans _ _ _ := .trans

/-- Nothing of it has changed. -/
theorem SameTable.of_eq (h : v'.vfsOpenFiles = v.vfsOpenFiles) : SameTable v v' := by
  constructor <;> intro i <;> rw [h]

/-- A call of the file system. -/
theorem within_call {α : Type} (x : FsM α) : StM.Within SameTable (call x) :=
  fun _ => .of_eq rfl

/-- The offset of an open file is no count. -/
theorem sameTable_advance (i : Fin vfsMaxOpenFiles) (count : Nat) (v : Vfs) :
    SameTable v (advance i count v) := by
  constructor <;> intro j <;> unfold advance setOpenFile <;> dsimp only <;>
    by_cases hj : j = i
  · rw [hj, update_self]
  · rw [update_of_ne hj]
  · rw [hj, update_self]
  · rw [update_of_ne hj]

/-- `vfs_read` -/
theorem within_vfsRead (fd : Int) (buffer : Bool) (count : Nat) :
    StM.Within SameTable (vfsRead fd buffer count) := by
  unfold vfsRead
  refine .get_bind fun v => ?_
  split
  · exact .fail _
  · refine .check (.get_bind fun v => .check (.bind (within_call _) fun bytes => ?_))
    exact .bind (.modify (sameTable_advance _ _)) fun _ => .pure _

/-- `vfs_write` -/
theorem within_vfsWrite (fd : Int) (buffer : Option (Nat → Byte)) (count : Nat) :
    StM.Within SameTable (vfsWrite fd buffer count) := by
  unfold vfsWrite
  refine .get_bind fun v => ?_
  split
  · exact .fail _
  · refine .check (.get_bind fun v => .check (.bind (within_call _) fun written => .check ?_))
    exact .bind (.modify (sameTable_advance _ _)) fun _ => .pure _

/-- `vfs_stat` -/
theorem within_vfsStat (path : Option CString) (out : Bool) :
    StM.Within SameTable (vfsStat path out) := by
  unfold vfsStat
  exact .get_bind fun v => .check (.check (within_call _))

/-- An entry in use is named by its number. -/
theorem vfsFdValid_used (v : Vfs) {i : Fin vfsMaxOpenFiles} (h : (v.vfsOpenFiles i).used = true) :
    v.vfsFdValid (i.val : Int) = some i := by
  unfold vfsFdValid
  have hi : 0 ≤ (i.val : Int) ∧ (i.val : Int).toNat < vfsMaxOpenFiles :=
    ⟨Int.natCast_nonneg _, by rw [Int.toNat_natCast]; exact i.isLt⟩
  rw [dif_pos hi]
  exact if_pos h

/-- `vfs_open` takes an unused entry, or leaves the table alone. -/
theorem vfsOpen_cases (path : Option CString) (flags : Word) (v : Vfs) :
    (∃ e, (vfsOpen path flags v).1 = .error e ∧ SameTable v (vfsOpen path flags v).2) ∨
      ∃ fd file, (vfsOpen path flags v).1 = .ok fd ∧ (v.vfsOpenFiles fd).used = false ∧
        file.used = true ∧ file.refCount = 1 ∧
          (vfsOpen path flags v).2.vfsOpenFiles = update v.vfsOpenFiles fd file := by
  unfold vfsOpen
  rw [StM.run_get_bind]
  dsimp only
  split
  · exact .inl ⟨_, rfl, .refl v⟩
  split
  · exact .inl ⟨_, rfl, .refl v⟩
  rcases vfsCopyPath path with _ | path
  · exact .inl ⟨_, rfl, .refl v⟩
  dsimp only
  rw [StM.run_get_bind]
  rcases hfd : v.vfsAllocFd with _ | fd
  · exact .inl ⟨_, rfl, .refl v⟩
  have hunused : (v.vfsOpenFiles fd).used = false := by
    simpa using List.find?_some hfd
  dsimp only
  have hfiles := within_call (SimpleFs.simplefsOpen (some path) flags) v
  have htable : (call (SimpleFs.simplefsOpen (some path) flags) v).2.vfsOpenFiles = v.vfsOpenFiles :=
    rfl
  rcases hrun : call (SimpleFs.simplefsOpen (some path) flags) v with ⟨e | r, v'⟩
  · rw [StM.bind_error hrun]
    rw [hrun] at hfiles
    exact .inl ⟨e, rfl, hfiles⟩
  · rw [StM.bind_ok hrun, StM.run_modify_bind]
    rw [hrun] at htable
    refine .inr ⟨fd, { used := true, refCount := 1, path := path, flags := flags, offset := 0 }, rfl,
      hunused, rfl, rfl, ?_⟩
    unfold setOpenFile
    rw [← htable]
    rfl

/-- `vfs_close` of an entry in use drops a reference, the last of which frees the entry. -/
theorem vfsClose_file {v : Vfs} {i : Fin vfsMaxOpenFiles} (hused : (v.vfsOpenFiles i).used = true)
    (hpos : 0 < (v.vfsOpenFiles i).refCount) :
    ∃ file : VfsOpenFile, file.refCount + 1 = (v.vfsOpenFiles i).refCount ∧
      (file.used = true ↔ 0 < file.refCount) ∧
        (vfsClose (i.val : Int) v).2.vfsOpenFiles = update v.vfsOpenFiles i file := by
  have hvalid := v.vfsFdValid_used hused
  unfold vfsClose
  rw [StM.run_get_bind, hvalid]
  dsimp only
  rw [StM.run_get_bind]
  split
  · rename_i hshared
    refine ⟨{ v.vfsOpenFiles i with refCount := (v.vfsOpenFiles i).refCount - 1 }, ?_, ?_, rfl⟩
    · dsimp only
      omega
    · exact iff_of_true hused (by dsimp only; omega)
  · refine ⟨VfsOpenFile.zero, ?_, iff_of_false nofun nofun, rfl⟩
    show 0 + 1 = _
    omega

/-- `vfs_retain` of an entry in use adds a reference, or fails. -/
theorem vfsRetain_file {v : Vfs} {i : Fin vfsMaxOpenFiles} (hused : (v.vfsOpenFiles i).used = true) :
    (∃ e, vfsRetain (i.val : Int) v = (.error e, v) ∧ e ≠ vfsSuccess) ∨
      vfsRetain (i.val : Int) v = (.ok (), v.setOpenFile i
        { v.vfsOpenFiles i with refCount := (v.vfsOpenFiles i).refCount + 1 }) := by
  have hvalid := v.vfsFdValid_used hused
  unfold vfsRetain
  rw [StM.run_get_bind, hvalid]
  dsimp only
  rw [StM.run_get_bind]
  split
  · exact .inl ⟨_, rfl, by decide⟩
  · exact .inr rfl

end Vfs

/-- A call of `vfs.c` that leaves its table alone leaves the counts alone. -/
theorem SameRefs.callVfs {α : Type} {f : VfsM α} (hf : k.vfs.SameTable (f k.vfs).2) :
    SameRefs k (callVfs f k).2 := by
  refine ⟨⟨fun _ => rfl, fun _ => id⟩, fun o => ?_, hf.used, fun _ => rfl⟩
  cases o with
  | file i => exact hf.refCount i
  | readEnd i | writeEnd i => rfl

/-- A new entry of the table of open files. -/
theorem Kernel.Counted.setFile (h : k.Counted hand) {i : Fin vfsMaxOpenFiles} {file : VfsOpenFile}
    {v : Vfs} (hv : v.vfsOpenFiles = update k.vfs.vfsOpenFiles i file)
    (hused : file.used = true ↔ 0 < file.refCount) :
    SameFds k { k with vfs := v } ∧ ({ k with vfs := v } : Kernel).TablesUsed ∧
      ∀ o, ({ k with vfs := v } : Kernel).count o =
        if .file i = o then file.refCount else k.count o := by
  have hcount (o : Object) : ({ k with vfs := v } : Kernel).count o =
      if .file i = o then file.refCount else k.count o := by
    cases o with
    | file j =>
      show (v.vfsOpenFiles j).refCount = _
      rw [hv]
      by_cases hj : j = i
      · rw [hj, update_self, if_pos rfl]
      · rw [update_of_ne hj, if_neg (by simpa using Ne.symm hj)]
        rfl
    | readEnd j | writeEnd j => rw [if_neg nofun]; rfl
  refine ⟨⟨fun _ => rfl, fun _ => id⟩, ⟨fun j => ?_, fun j => ?_⟩, hcount⟩
  · rw [hcount]
    show (v.vfsOpenFiles j).used = true ↔ _
    rw [hv]
    by_cases hj : j = i
    · rw [hj, update_self, if_pos rfl]
      exact hused
    · rw [update_of_ne hj, if_neg (by simpa using Ne.symm hj)]
      exact h.tables.file j
  · rw [hcount, hcount, if_neg nofun, if_neg nofun]
    exact h.tables.pipe j

/-- Opening a file leaves a reference in hand, or nothing. -/
theorem counted_vfsOpen (h : k.Counted hand) (path : Option CString) (flags : Word) :
    (∃ e, (callVfs (Vfs.vfsOpen path flags) k).1 = .error e ∧
        SameRefs k (callVfs (Vfs.vfsOpen path flags) k).2) ∨
      ∃ fd, (callVfs (Vfs.vfsOpen path flags) k).1 = .ok fd ∧
        SameFds k (callVfs (Vfs.vfsOpen path flags) k).2 ∧
          (callVfs (Vfs.vfsOpen path flags) k).2.Counted (.file fd :: hand) := by
  rcases Vfs.vfsOpen_cases path flags k.vfs with ⟨e, herror, htable⟩ |
    ⟨fd, file, hok, hunused, hused, hone, htable⟩
  · exact .inl ⟨e, herror, .callVfs htable⟩
  · obtain ⟨hfds, htables, hcount⟩ := h.setFile htable (iff_of_true hused (by omega))
    have hzero : k.count (.file fd) = 0 := by
      have := h.tables.file fd
      rw [hunused] at this
      simpa using this
    refine .inr ⟨fd, hok, hfds, h.gain hfds htables fun o => ?_⟩
    refine (hcount o).trans ?_
    split
    · rename_i ho
      rw [← ho, hzero, hone]
    · rw [add_zero]

/-- Closing a file gives a reference back. -/
theorem counted_vfsClose {i : Fin vfsMaxOpenFiles} (h : k.Counted (.file i :: hand)) :
    SameFds k (callVfs (Vfs.vfsClose (i.val : Int)) k).2 ∧
      (callVfs (Vfs.vfsClose (i.val : Int)) k).2.Counted hand := by
  have hpos := h.pos
  obtain ⟨file, hcount, hused, htable⟩ := Vfs.vfsClose_file ((h.tables.file i).mpr hpos) hpos
  obtain ⟨hfds, htables, hcounts⟩ := h.setFile htable hused
  refine ⟨hfds, h.drop hfds htables fun o => ?_⟩
  rw [show (callVfs (Vfs.vfsClose (i.val : Int)) k).2.count o = _ from hcounts o]
  split
  · rename_i ho
    rw [← ho]
    exact hcount
  · rfl

/-- Retaining a file adds a reference, or fails. -/
theorem counted_vfsRetain {i : Fin vfsMaxOpenFiles} (h : k.Counted hand) (hpos : 0 < k.count (.file i)) :
    (∃ e, callVfs (Vfs.vfsRetain (i.val : Int)) k = (.error e, k) ∧ e ≠ vfsSuccess) ∨
      (callVfs (Vfs.vfsRetain (i.val : Int)) k).1 = .ok () ∧
        SameFds k (callVfs (Vfs.vfsRetain (i.val : Int)) k).2 ∧
          (callVfs (Vfs.vfsRetain (i.val : Int)) k).2.Counted (.file i :: hand) := by
  have hused := (h.tables.file i).mpr hpos
  rcases Vfs.vfsRetain_file hused with ⟨e, herror, he⟩ | hok
  · left
    refine ⟨e, ?_, he⟩
    unfold callVfs
    rw [herror]
  · right
    have htable : (Vfs.vfsRetain (i.val : Int) k.vfs).2.vfsOpenFiles = update k.vfs.vfsOpenFiles i
        { k.vfs.vfsOpenFiles i with refCount := (k.vfs.vfsOpenFiles i).refCount + 1 } := by
      rw [hok]
      rfl
    obtain ⟨hfds, htables, hcount⟩ := h.setFile htable (iff_of_true hused (Nat.succ_pos _))
    refine ⟨congrArg Prod.fst hok, hfds, h.gain hfds htables fun o => ?_⟩
    refine (hcount o).trans ?_
    split
    · rename_i ho
      rw [← ho]
      rfl
    · rw [add_zero]

/-! ### Pipes -/

/-- The scheduler has run, and nothing else. -/
def SchedulerRan (k k' : Kernel) : Prop :=
  Rescheduled k.toScheduler k'.toScheduler ∧ k' = { k with toScheduler := k'.toScheduler }

/-- Nothing has happened. -/
theorem SchedulerRan.refl (k : Kernel) : SchedulerRan k k := ⟨.refl _, rfl⟩

/-- The scheduler changes neither descriptors nor counts. -/
theorem SchedulerRan.sameRefs (h : SchedulerRan k k') : SameRefs k k' :=
  .of_rescheduled h.1 (by rw [h.2]) (by rw [h.2])

/-- Waking who waits for a pipe is the scheduler's work. -/
theorem schedulerRan_wake (pipes : Pipes) (i : Fin maxPipes) (reason : BlockReason) (k : Kernel) :
    SchedulerRan k (Kernel.processWakePipeWaiter pipes i reason k) := by
  unfold Kernel.processWakePipeWaiter
  split
  · exact .refl k
  · exact ⟨.schedulerWake _ _, rfl⟩

/-- A new entry of the table of pipes. -/
theorem Kernel.Counted.setPipe (h : k.Counted hand) {i : Fin maxPipes} {pipe : Pipe}
    (hv : k'.vfs = k.vfs) (hp : k'.pipes = update k.pipes i pipe)
    (hused : pipe.used = true ↔ 0 < pipe.readers ∨ 0 < pipe.writers) :
    k'.TablesUsed ∧ ∀ o, k'.count o =
      if .readEnd i = o then pipe.readers else if .writeEnd i = o then pipe.writers else k.count o := by
  have hcount (o : Object) : k'.count o =
      if .readEnd i = o then pipe.readers else if .writeEnd i = o then pipe.writers else k.count o := by
    cases o with
    | file j =>
      rw [if_neg nofun, if_neg nofun]
      unfold Kernel.count
      rw [hv]
    | readEnd j =>
      rw [if_neg (by nofun : ¬Object.writeEnd i = .readEnd j)]
      unfold Kernel.count
      dsimp only
      rw [hp]
      by_cases hj : j = i
      · rw [hj, update_self, if_pos rfl]
      · rw [update_of_ne hj, if_neg (by simpa using Ne.symm hj)]
    | writeEnd j =>
      rw [if_neg nofun]
      unfold Kernel.count
      dsimp only
      rw [hp]
      by_cases hj : j = i
      · rw [hj, update_self, if_pos rfl]
      · rw [update_of_ne hj, if_neg (by simpa using Ne.symm hj)]
  refine ⟨⟨fun j => ?_, fun j => ?_⟩, hcount⟩
  · rw [hcount, if_neg nofun, if_neg nofun, hv]
    exact h.tables.file j
  · rw [hcount, hcount, hp, if_neg (by nofun : ¬Object.readEnd i = .writeEnd j),
      if_neg (by nofun : ¬Object.writeEnd i = .readEnd j)]
    by_cases hj : j = i
    · rw [hj, update_self, if_pos rfl, if_pos rfl]
      exact hused
    · rw [update_of_ne hj, if_neg (by simpa using Ne.symm hj), if_neg (by simpa using Ne.symm hj)]
      exact h.tables.pipe j

/-- The handle of an end names its pipe. -/
theorem pipeHandleIndex_end {pipes : Pipes} {i : Fin maxPipes} (ho : o = .readEnd i ∨ o = .writeEnd i)
    (hused : (pipes i).used = true) : pipeHandleIndex pipes o.name.2 = some i := by
  rcases ho with rfl | rfl
  · exact pipeHandleIndex_readHandle hused
  · exact pipeHandleIndex_writeHandle hused

/-- The handle of the read end is that of a read end. -/
theorem pipeHandleIsRead_end {i : Fin maxPipes} (ho : o = .readEnd i ∨ o = .writeEnd i) :
    pipeHandleIsRead o.name.2 = decide (o = .readEnd i) := by
  rcases ho with rfl | rfl
  · rw [decide_eq_true rfl]
    exact pipeHandleIsRead_readHandle i
  · rw [decide_eq_false nofun]
    exact pipeHandleIsRead_writeHandle i

/-- `pipe_close` of an end that has a reference drops one. -/
theorem pipeClose_end {σ : Type} (wake : Pipes → Fin maxPipes → BlockReason → σ → σ) {pipes : Pipes}
    (s : σ) {i : Fin maxPipes} (ho : o = .readEnd i ∨ o = .writeEnd i) (hused : (pipes i).used = true)
    (hpos : 0 < if o = .readEnd i then (pipes i).readers else (pipes i).writers) :
    ∃ pipe : Pipe, (pipeClose wake pipes s o.name.2).pipes = update pipes i pipe ∧
      (pipe.used = true ↔ 0 < pipe.readers ∨ 0 < pipe.writers) ∧
        pipe.readers + (if o = .readEnd i then 1 else 0) = (pipes i).readers ∧
          pipe.writers + (if o = .readEnd i then 0 else 1) = (pipes i).writers := by
  have hindex := pipeHandleIndex_end ho hused
  have hisRead := pipeHandleIsRead_end ho
  rcases pipeClose_cases wake pipes s o.name.2 with ⟨-, hbad, -⟩ | ⟨j, r, w, hj, -, hcase, hpipes⟩
  · exfalso
    unfold pipeClose at hbad
    rw [hindex] at hbad
    dsimp only at hbad
    rw [hisRead] at hbad
    by_cases hread : o = .readEnd i
    · rw [if_pos hread] at hpos
      rw [if_pos (decide_eq_true hread), if_neg (by omega)] at hbad
      split at hbad <;> cases hbad
    · rw [if_neg hread] at hpos
      rw [if_neg (by simpa using hread), if_neg (by omega)] at hbad
      split at hbad <;> cases hbad
  · obtain rfl : i = j := Option.some.inj (hindex.symm.trans hj)
    have hcounts : r + (if o = .readEnd i then 1 else 0) = (pipes i).readers ∧
        w + (if o = .readEnd i then 0 else 1) = (pipes i).writers := by
      rcases hcase with ⟨hread, hr, hw, -⟩ | ⟨hread, hr, hw, -⟩
      · rw [hisRead, decide_eq_true_eq] at hread
        rw [if_pos hread, if_pos hread]
        omega
      · rw [hisRead, decide_eq_false_iff_not] at hread
        rw [if_neg hread, if_neg hread]
        omega
    refine ⟨_, hpipes, ?_, ?_, ?_⟩ <;> split
    · exact iff_of_false nofun nofun
    · exact iff_of_true hused (by dsimp only; omega)
    · rename_i hzero
      rw [← hcounts.1, hzero.1]
      rfl
    · exact hcounts.1
    · rename_i hzero
      rw [← hcounts.2, hzero.2]
      rfl
    · exact hcounts.2

/-- Closing an end of a pipe changes the process table only by waking. -/
theorem kernelPipeClose_schedulerRan (handle : Int) (k : Kernel) :
    SchedulerRan k (pipeClose Kernel.processWakePipeWaiter k.pipes k handle).state := by
  rcases pipeClose_state Kernel.processWakePipeWaiter k.pipes k handle with h | ⟨pipes, i, reason, -, h⟩
  · rw [h]
    exact .refl k
  · rw [h]
    exact schedulerRan_wake pipes i reason k

/-- Closing an end gives a reference back. -/
theorem counted_kernelPipeClose {i : Fin maxPipes} (ho : o = .readEnd i ∨ o = .writeEnd i)
    (h : k.Counted (o :: hand)) :
    SameFds k (kernelPipeClose o.name.2 k).2 ∧ (kernelPipeClose o.name.2 k).2.Counted hand := by
  have hpos : 0 < if o = .readEnd i then (k.pipes i).readers else (k.pipes i).writers := by
    have := h.pos
    rcases ho with rfl | rfl
    · rwa [if_pos rfl]
    · rwa [if_neg nofun]
  have hused : (k.pipes i).used = true := (h.tables.pipe i).mpr (by
    rcases ho with rfl | rfl
    · exact .inl h.pos
    · exact .inr h.pos)
  have hran := kernelPipeClose_schedulerRan o.name.2 k
  obtain ⟨pipe, hpipes, hpipe, hreaders, hwriters⟩ :=
    pipeClose_end Kernel.processWakePipeWaiter k ho hused hpos
  have hvfs : (kernelPipeClose o.name.2 k).2.vfs = k.vfs := (congrArg Kernel.vfs hran.2 :)
  have hfds : SameFds k (kernelPipeClose o.name.2 k).2 := .of_rescheduled hran.1
  obtain ⟨htables, hcount⟩ := h.setPipe hvfs hpipes hpipe
  refine ⟨hfds, h.drop hfds htables fun o' => ?_⟩
  rw [hcount]
  rcases ho with rfl | rfl
  · rw [if_pos rfl] at hreaders hwriters
    by_cases hr : Object.readEnd i = o'
    · rw [if_pos hr, if_pos hr, ← hr]
      exact hreaders
    · rw [if_neg hr, if_neg hr, add_zero]
      split
      · rename_i hw
        rw [← hw]
        exact hwriters
      · rfl
  · rw [if_neg nofun] at hreaders hwriters
    by_cases hr : Object.readEnd i = o'
    · rw [if_pos hr, if_neg (by rintro rfl; cases hr), ← hr]
      exact hreaders
    · rw [if_neg hr]
      by_cases hw : Object.writeEnd i = o'
      · rw [if_pos hw, if_pos hw, ← hw]
        exact hwriters
      · rw [if_neg hw, if_neg hw, add_zero]

/-- The read end, if it is in hand. -/
theorem counted_closeRead {i : Fin maxPipes} (h : k.Counted (.readEnd i :: hand)) :
    (kernelPipeClose (pipeReadHandle i) k).2.Counted hand := (counted_kernelPipeClose (.inl rfl) h).2

/-- And the write end. -/
theorem counted_closeWrite {i : Fin maxPipes} (h : k.Counted (.writeEnd i :: hand)) :
    (kernelPipeClose (pipeWriteHandle i) k).2.Counted hand := (counted_kernelPipeClose (.inr rfl) h).2

/-- A new pipe leaves its two ends in hand. -/
theorem counted_kernelPipeCreate (h : k.Counted hand) :
    (∃ e, kernelPipeCreate k = (.error e, k)) ∨
      ∃ i, (kernelPipeCreate k).1 = .ok (pipeReadHandle i, pipeWriteHandle i) ∧
        SameFds k (kernelPipeCreate k).2 ∧
          (kernelPipeCreate k).2.Counted (.readEnd i :: .writeEnd i :: hand) := by
  rcases pipeCreate_cases k.pipes with ⟨herror, -⟩ | ⟨i, hunused, hok⟩
  · left
    refine ⟨pipeEbadf, ?_⟩
    unfold kernelPipeCreate
    rw [herror]
  · right
    have hfds : SameFds k (kernelPipeCreate k).2 := ⟨fun _ => rfl, fun _ => id⟩
    have hpipes : (kernelPipeCreate k).2.pipes =
        update k.pipes i { Pipe.zero with used := true, readers := 1, writers := 1 } :=
      congrArg Prod.snd hok
    have hvfs : (kernelPipeCreate k).2.vfs = k.vfs := rfl
    obtain ⟨htables, hcount⟩ := h.setPipe hvfs hpipes (iff_of_true rfl (.inl Nat.one_pos))
    have hzero : k.count (.readEnd i) = 0 ∧ k.count (.writeEnd i) = 0 := by
      have := h.tables.pipe i
      rw [hunused] at this
      simpa using this
    refine ⟨i, congrArg Prod.fst hok, hfds, h.gainAll (l := [.readEnd i, .writeEnd i]) hfds htables
      fun o => ?_⟩
    rw [hcount, List.count_cons, List.count_singleton]
    simp only [beq_iff_eq]
    by_cases hr : Object.readEnd i = o
    · rw [if_pos hr, if_pos hr, if_neg (by rintro rfl; cases hr), ← hr, hzero.1]
    · rw [if_neg hr, if_neg hr]
      by_cases hw : Object.writeEnd i = o
      · rw [if_pos hw, if_pos hw, ← hw, hzero.2]
      · rw [if_neg hw, if_neg hw, add_zero, add_zero]

/-- Retaining an end adds a reference, or fails. -/
theorem counted_kernelPipeRetain {i : Fin maxPipes} (ho : o = .readEnd i ∨ o = .writeEnd i)
    (h : k.Counted hand) (hpos : 0 < k.count o) :
    (kernelPipeRetain o.name.2 k).1 ≠ pipeSuccess ∧ (kernelPipeRetain o.name.2 k).2 = k ∨
      (kernelPipeRetain o.name.2 k).1 = pipeSuccess ∧ SameFds k (kernelPipeRetain o.name.2 k).2 ∧
        (kernelPipeRetain o.name.2 k).2.Counted (o :: hand) := by
  have hused : (k.pipes i).used = true := (h.tables.pipe i).mpr (by
    rcases ho with rfl | rfl
    · exact .inl hpos
    · exact .inr hpos)
  have hindex := pipeHandleIndex_end ho hused
  rcases pipeRetain_cases k.pipes o.name.2 with herror | ⟨j, r, w, hj, hcase, hok⟩
  · left
    unfold kernelPipeRetain
    rw [herror]
    exact ⟨(by decide : pipeEbadf ≠ pipeSuccess), rfl⟩
  · right
    obtain rfl : i = j := Option.some.inj (hindex.symm.trans hj)
    rw [pipeHandleIsRead_end ho] at hcase
    have hfds : SameFds k (kernelPipeRetain o.name.2 k).2 := ⟨fun _ => rfl, fun _ => id⟩
    have hpipes : (kernelPipeRetain o.name.2 k).2.pipes =
        update k.pipes i { k.pipes i with readers := r, writers := w } := congrArg Prod.snd hok
    have hsome : 0 < r ∨ 0 < w := by
      rcases hcase with ⟨-, hr, -⟩ | ⟨-, -, hw⟩
      · exact .inl (by omega)
      · exact .inr (by omega)
    have hvfs : (kernelPipeRetain o.name.2 k).2.vfs = k.vfs := rfl
    obtain ⟨htables, hcount⟩ := h.setPipe hvfs hpipes (iff_of_true hused hsome)
    refine ⟨congrArg Prod.fst hok, hfds, h.gain hfds htables fun o' => ?_⟩
    rw [hcount]
    dsimp only
    rcases ho with rfl | rfl
    · obtain ⟨-, hr, hw⟩ := hcase.resolve_right (by simp)
      by_cases hro : Object.readEnd i = o'
      · rw [if_pos hro, if_pos hro, ← hro]
        exact hr
      · rw [if_neg hro, if_neg hro, add_zero]
        split
        · rename_i hwo
          rw [← hwo]
          exact hw
        · rfl
    · obtain ⟨-, hr, hw⟩ := hcase.resolve_left (by simp)
      by_cases hro : Object.readEnd i = o'
      · rw [if_pos hro, if_neg (by rintro rfl; cases hro), ← hro]
        exact hr
      · rw [if_neg hro]
        by_cases hwo : Object.writeEnd i = o'
        · rw [if_pos hwo, if_pos hwo, ← hwo]
          exact hw
        · rw [if_neg hwo, if_neg hwo, add_zero]

/-! ### Descriptors -/

/-- A descriptor is no state. -/
theorem Kernel.state_setFd (k : Kernel) (proc : Slot) (fd : Fin processMaxFds) (entry : ProcessFd) (p : Slot) :
    ((k.setProc proc (·.setFd fd entry)).procs p).state = (k.procs p).state := by
  by_cases hp : p = proc
  · subst hp
    rw [Kernel.setProc_self]
    rfl
  · rw [k.setProc_of_ne hp]

/-- Only descriptors of `proc` have changed, and only by being cleared; nothing else has died. -/
structure Clears (proc : Slot) (k k' : Kernel) : Prop where
  held : ∀ s, k'.held s = k.held s ∨ s.1 = proc ∧ k'.held s = none
  dead : ∀ p, (k'.procs p).state = .dead → (k.procs p).state = .dead

namespace Clears

/-- The same descriptors. -/
theorem of_sameFds (h : SameFds k k') : Clears proc k k' := ⟨fun s => .inl (by rw [h.held]), h.dead⟩

/-- Nothing has happened. -/
theorem refl (proc : Slot) (k : Kernel) : Clears proc k k := of_sameFds (.refl k)

/-- Two steps after one another. -/
theorem trans (h : Clears proc k k') (h' : Clears proc k' k'') : Clears proc k k'' := by
  refine ⟨fun s => ?_, fun p hp => h.dead p (h'.dead p hp)⟩
  rcases h'.held s with hs | hs
  · rw [hs]
    exact h.held s
  · exact .inr hs

instance (proc : Slot) : IsPreorder Kernel (Clears proc) where
  refl := refl proc
  trans _ _ _ := trans

/-- What names nothing goes on naming nothing. -/
theorem none (h : Clears proc k k') {s : Slot × Fin processMaxFds} (hs : k.held s = none) :
    k'.held s = none := by
  rcases h.held s with h' | h'
  · rw [h', hs]
  · exact h'.2

/-- One descriptor is cleared. -/
theorem setFd (k : Kernel) (proc : Slot) (fd : Fin processMaxFds) :
    Clears proc k (k.setProc proc (·.setFd fd .unused)) := by
  refine ⟨fun s => ?_, fun p hp => by rwa [Kernel.state_setFd] at hp⟩
  rw [k.held_setFd, ProcessFd.name_unused]
  by_cases hs : s = (proc, fd)
  · rw [hs, update_self]
    exact .inr ⟨rfl, rfl⟩
  · rw [update_of_ne hs]
    exact .inl rfl

end Clears

/-- The last half of `process_fd_close`, for a descriptor that names `o`. -/
theorem counted_closeObject (h : k.Counted (o :: hand)) :
    ∃ kind handle, o.name = (kind, handle) ∧
      if kind.isPipe then SameFds k (kernelPipeClose handle k).2 ∧ (kernelPipeClose handle k).2.Counted hand
      else SameFds k (callVfs (Vfs.vfsClose handle) k).2 ∧
        (callVfs (Vfs.vfsClose handle) k).2.Counted hand := by
  refine ⟨o.name.1, o.name.2, rfl, ?_⟩
  cases o with
  | file i =>
    rw [if_neg (show ¬(Object.file i).name.1.isPipe = true from nofun)]
    exact counted_vfsClose h
  | readEnd i =>
    rw [if_pos (show (Object.readEnd i).name.1.isPipe = true from rfl)]
    exact counted_kernelPipeClose (.inl rfl) h
  | writeEnd i =>
    rw [if_pos (show (Object.writeEnd i).name.1.isPipe = true from rfl)]
    exact counted_kernelPipeClose (.inr rfl) h

/-- A descriptor of the table is named by its number. -/
theorem fdIndex_val (fd : Fin processMaxFds) : fdIndex (fd.val : Int) = some fd := by
  unfold fdIndex
  rw [dif_pos ⟨Int.natCast_nonneg _, by rw [Int.toNat_natCast]; exact fd.isLt⟩]
  rfl

/-- What `process_fd_get` finds in a descriptor that names `o`. -/
theorem processFdGet_of_held {fd : Int} {i : Fin processMaxFds} (hi : fdIndex fd = some i)
    (hheld : k.held (proc, i) = some o.name) : (k.procs proc).processFdGet fd = some o.name := by
  have hname := ProcessFd.name_eq_some.mp hheld
  have hkind := congrArg Prod.fst hname
  have hhandle := congrArg Prod.snd hname
  unfold Process.processFdGet
  rw [hi]
  dsimp only at hkind hhandle ⊢
  rw [hkind, hhandle, if_neg]
  rintro (hk | hk)
  · exact o.name_kind hk
  · exact absurd o.name_handle (by omega)

/-- `process_fd_close` gives back the reference of the descriptor it clears. -/
theorem counted_processFdClose (h : k.Counted hand) (proc : Slot) (fd : Int) :
    (processFdClose proc fd k).2.Counted hand ∧ Clears proc k (processFdClose proc fd k).2 ∧
      ∀ i, fdIndex fd = some i → (processFdClose proc fd k).2.held (proc, i) = none := by
  unfold processFdClose
  rw [run_bind, run_getProc]
  dsimp only
  rcases hi : fdIndex fd with _ | i
  · exact ⟨h, .refl proc k, nofun⟩
  rcases hheld : k.held (proc, i) with _ | r
  · -- an unused descriptor
    have hget : (k.procs proc).processFdGet fd = none := by
      unfold Process.processFdGet
      rw [hi]
      exact if_pos (.inl (ProcessFd.name_eq_none.mp hheld))
    rw [hget]
    refine ⟨h, .refl proc k, fun j hj => ?_⟩
    obtain rfl := Option.some.inj hj
    exact hheld
  obtain ⟨o, rfl⟩ := h.named _ r hheld
  have hget := processFdGet_of_held hi hheld
  have hclear := h.clear hheld
  have hclears := Clears.setFd k proc i
  have hnone : (k.setProc proc (·.setFd i .unused)).held (proc, i) = none := by
    rw [k.held_setFd, update_self, ProcessFd.name_unused]
  obtain ⟨kind, handle, ho, hclose⟩ := counted_closeObject hclear
  rw [hget, ho]
  dsimp only
  rw [run_bind, run_modifyProc, run_ite]
  dsimp only
  split at hclose <;> rename_i hpipe
  · rw [if_pos hpipe, run_bind, run_pure]
    refine ⟨hclose.2, hclears.trans (.of_sameFds hclose.1), fun j hj => ?_⟩
    obtain rfl := Option.some.inj hj
    have hsame : Clears proc _ _ := .of_sameFds hclose.1
    exact hsame.none hnone
  · rw [if_neg hpipe, run_bind, run_pure]
    refine ⟨hclose.2, hclears.trans (.of_sameFds hclose.1), fun j hj => ?_⟩
    obtain rfl := Option.some.inj hj
    have hsame : Clears proc _ _ := .of_sameFds hclose.1
    exact hsame.none hnone

/-- So does a loop that closes some of the descriptors of a process. -/
theorem counted_closeLoop (h : k.Counted hand) (proc : Slot) (l : List (Fin processMaxFds))
    (c : ProcessFd → Prop) [DecidablePred c] :
    let loop : KernelM Unit := l.forM fun fd => do
      let p ← getProc proc
      if c (p.fds fd) then
        let _ ← processFdClose proc fd.val
    (loop k).2.Counted hand ∧ Clears proc k (loop k).2 ∧
      ((∀ entry : ProcessFd, entry.kind ≠ .none → c entry) → ∀ fd ∈ l, (loop k).2.held (proc, fd) = none) := by
  induction l generalizing k with
  | nil => exact ⟨h, .refl proc k, fun _ _ => nofun⟩
  | cons fd l ih =>
    have hindex := fdIndex_val fd
    intro loop
    rw [show loop k = _ from run_forM_cons fd l _ k, run_bind, run_getProc, run_ite]
    dsimp only
    split
    · obtain ⟨hcounted, hclears, hnone⟩ := counted_processFdClose h proc (fd.val : Int)
      obtain ⟨hcounted', hclears', hnone'⟩ := ih hcounted
      refine ⟨hcounted', hclears.trans hclears', fun hall fd' hfd' => ?_⟩
      rcases List.mem_cons.mp hfd' with rfl | hmem
      · exact hclears'.none (hnone _ hindex)
      · exact hnone' hall fd' hmem
    · rename_i hkeep
      obtain ⟨hcounted', hclears', hnone'⟩ := ih h
      refine ⟨hcounted', hclears', fun hall fd' hfd' => ?_⟩
      rcases List.mem_cons.mp hfd' with rfl | hmem
      · refine hclears'.none (ProcessFd.name_eq_none.mpr ?_)
        by_contra hkind
        exact hkeep (hall _ hkind)
      · exact hnone' hall fd' hmem

/-- `process_fd_close_all` leaves no descriptor. -/
theorem counted_processFdCloseAll (h : k.Counted hand) (proc : Slot) :
    (processFdCloseAll proc k).2.Counted hand ∧ Clears proc k (processFdCloseAll proc k).2 ∧
      ∀ fd, (processFdCloseAll proc k).2.held (proc, fd) = none := by
  obtain ⟨hcounted, hclears, hnone⟩ :=
    counted_closeLoop h proc (List.finRange processMaxFds) fun entry => entry.kind ≠ .none
  exact ⟨hcounted, hclears, fun fd => hnone (fun _ => id) fd (List.mem_finRange fd)⟩

/-- The descriptors that are closed on exec give their references back. -/
theorem counted_processFdCloseOnExec (h : k.Counted hand) (proc : Slot) :
    (processFdCloseOnExec proc k).2.Counted hand ∧ Clears proc k (processFdCloseOnExec proc k).2 := by
  obtain ⟨hcounted, hclears, -⟩ := counted_closeLoop h proc (List.finRange processMaxFds)
    fun entry => entry.kind ≠ .none ∧ entry.flags % 2 = processFdCloexec
  exact ⟨hcounted, hclears⟩

/-- `process_fd_install_typed` puts the reference in hand into an unused descriptor, or keeps it. -/
theorem counted_processFdInstallTyped (h : k.Counted (o :: hand)) (hlives : (k.procs proc).state ≠ .dead)
    (flags : Nat) :
    (processFdInstallTyped proc o.name.1 o.name.2 flags k).1 < 0 ∧
        (processFdInstallTyped proc o.name.1 o.name.2 flags k).2 = k ∨
      0 ≤ (processFdInstallTyped proc o.name.1 o.name.2 flags k).1 ∧
        (processFdInstallTyped proc o.name.1 o.name.2 flags k).2.Counted hand := by
  unfold processFdInstallTyped
  rw [run_ite]
  split
  · exact .inl ⟨(by decide : vfsEinval < 0), rfl⟩
  rw [run_bind, run_getProc]
  dsimp only
  rcases hfd : (List.finRange processMaxFds).find? fun fd => ((k.procs proc).fds fd).kind = .none
    with _ | fd
  · exact .inl ⟨(by decide : vfsEmfile < 0), rfl⟩
  have hunused : k.held (proc, fd) = none :=
    ProcessFd.name_eq_none.mpr (by simpa using List.find?_some hfd)
  have hname : ({ kind := o.name.1, handle := o.name.2, flags := flags } : ProcessFd).name =
      some o.name := ProcessFd.name_eq_some.mpr rfl
  dsimp only
  rw [run_bind, run_modifyProc, run_pure]
  exact .inr ⟨Int.natCast_nonneg _, h.install hunused hname hlives⟩

/-- Installing a descriptor changes no state. -/
theorem state_processFdInstallTyped (proc : Slot) (kind : FdKind) (handle : Int) (flags : Nat)
    (k : Kernel) (p : Slot) :
    ((processFdInstallTyped proc kind handle flags k).2.procs p).state = (k.procs p).state := by
  unfold processFdInstallTyped
  rw [run_ite]
  split
  · rfl
  rw [run_bind, run_getProc]
  dsimp only
  rcases (List.finRange processMaxFds).find? fun fd => ((k.procs proc).fds fd).kind = .none with _ | fd
  · rfl
  · exact k.state_setFd proc fd _ p

/-- `process_fd_install` of an open file in hand. -/
theorem counted_processFdInstall {i : Fin vfsMaxOpenFiles} (h : k.Counted (.file i :: hand))
    (hlives : (k.procs proc).state ≠ .dead) (flags : Nat) :
    (processFdInstall proc (i.val : Int) flags k).1 < 0 ∧
        (processFdInstall proc (i.val : Int) flags k).2 = k ∨
      0 ≤ (processFdInstall proc (i.val : Int) flags k).1 ∧
        (processFdInstall proc (i.val : Int) flags k).2.Counted hand :=
  counted_processFdInstallTyped h hlives flags

/-- A descriptor for the read end in hand. -/
theorem counted_installRead {i : Fin maxPipes} (h : k.Counted (.readEnd i :: hand))
    (hlives : (k.procs proc).state ≠ .dead) (flags : Nat) :
    (processFdInstallTyped proc .pipeRead (pipeReadHandle i) flags k).1 < 0 ∧
        (processFdInstallTyped proc .pipeRead (pipeReadHandle i) flags k).2 = k ∨
      0 ≤ (processFdInstallTyped proc .pipeRead (pipeReadHandle i) flags k).1 ∧
        (processFdInstallTyped proc .pipeRead (pipeReadHandle i) flags k).2.Counted hand :=
  counted_processFdInstallTyped h hlives flags

/-- And one for the write end. -/
theorem counted_installWrite {i : Fin maxPipes} (h : k.Counted (.writeEnd i :: hand))
    (hlives : (k.procs proc).state ≠ .dead) (flags : Nat) :
    (processFdInstallTyped proc .pipeWrite (pipeWriteHandle i) flags k).1 < 0 ∧
        (processFdInstallTyped proc .pipeWrite (pipeWriteHandle i) flags k).2 = k ∨
      0 ≤ (processFdInstallTyped proc .pipeWrite (pipeWriteHandle i) flags k).1 ∧
        (processFdInstallTyped proc .pipeWrite (pipeWriteHandle i) flags k).2.Counted hand :=
  counted_processFdInstallTyped h hlives flags

/-! ### Inheritance -/

/-- What a descriptor names is retained, or not. -/
theorem counted_retainFd (h : k.Counted hand) (hpos : 0 < k.count o) :
    (retainFd o.name.1 o.name.2 k).1 = false ∧ (retainFd o.name.1 o.name.2 k).2 = k ∨
      (retainFd o.name.1 o.name.2 k).1 = true ∧ SameFds k (retainFd o.name.1 o.name.2 k).2 ∧
        (retainFd o.name.1 o.name.2 k).2.Counted (o :: hand) := by
  have hend {i : Fin maxPipes} (ho : o = .readEnd i ∨ o = .writeEnd i) (hpipe : o.name.1.isPipe = true) :
      (retainFd o.name.1 o.name.2 k).1 = false ∧ (retainFd o.name.1 o.name.2 k).2 = k ∨
        (retainFd o.name.1 o.name.2 k).1 = true ∧ SameFds k (retainFd o.name.1 o.name.2 k).2 ∧
          (retainFd o.name.1 o.name.2 k).2.Counted (o :: hand) := by
    unfold retainFd
    rw [run_ite, if_pos hpipe, run_bind, run_pure]
    rcases counted_kernelPipeRetain ho h hpos with ⟨hfail, hk⟩ | ⟨hok, hfds, hcounted⟩
    · exact .inl ⟨decide_eq_false hfail, hk⟩
    · exact .inr ⟨decide_eq_true hok, hfds, hcounted⟩
  cases o with
  | file i =>
    unfold retainFd
    rw [run_ite, if_neg (show ¬(Object.file i).name.1.isPipe = true from nofun), run_bind, run_pure]
    rcases counted_vfsRetain h hpos with ⟨e, hfail, he⟩ | ⟨hok, hfds, hcounted⟩
    · left
      rw [show callVfs (Vfs.vfsRetain (Object.file i).name.2) k = _ from hfail]
      exact ⟨decide_eq_false he, rfl⟩
    · refine .inr ⟨?_, hfds, hcounted⟩
      rw [show (callVfs (Vfs.vfsRetain (Object.file i).name.2) k).1 = _ from hok]
      rfl
  | readEnd i => exact hend (.inl rfl) rfl
  | writeEnd i => exact hend (.inr rfl) rfl

/-- Only descriptors of `proc` have changed, and nothing else has died. -/
structure FdsElsewhere (proc : Slot) (k k' : Kernel) : Prop where
  held : ∀ s, s.1 ≠ proc → k'.held s = k.held s
  dead : ∀ p, (k'.procs p).state = .dead → (k.procs p).state = .dead

/-- Two steps after one another. -/
theorem FdsElsewhere.trans (h : FdsElsewhere proc k k') (h' : FdsElsewhere proc k' k'') :
    FdsElsewhere proc k k'' :=
  ⟨fun s hs => (h'.held s hs).trans (h.held s hs), fun p hp => h.dead p (h'.dead p hp)⟩

/-- No descriptor has changed. -/
theorem SameFds.elsewhere (h : SameFds k k') : FdsElsewhere proc k k' :=
  ⟨fun s _ => congrFun h.held s, h.dead⟩

/-- Descriptors of the process have been cleared. -/
theorem Clears.elsewhere (h : Clears proc k k') : FdsElsewhere proc k k' :=
  ⟨fun s hs => (h.held s).resolve_right fun hr => hs hr.1, h.dead⟩

/-- A descriptor of the process is set. -/
theorem FdsElsewhere.setFd (k : Kernel) (proc : Slot) (fd : Fin processMaxFds) (entry : ProcessFd) :
    FdsElsewhere proc k (k.setProc proc (·.setFd fd entry)) := by
  refine ⟨fun s hs => ?_, fun p hp => by rwa [Kernel.state_setFd] at hp⟩
  rw [k.held_setFd, update_of_ne (by rintro rfl; exact hs rfl)]

/-- The child of a fork gets the descriptors of its parent, or none. -/
theorem counted_inheritFds {child parent : Slot} (h : k.Counted hand)
    (hlives : (k.procs child).state ≠ .dead) (l : List (Fin processMaxFds)) (hl : l.Nodup)
    (hunused : ∀ fd ∈ l, k.held (child, fd) = none) :
    (inheritFds child parent l k).2.Counted hand ∧
      FdsElsewhere child k (inheritFds child parent l k).2 ∧
        ((inheritFds child parent l k).1 ≠ vfsSuccess →
          ∀ fd, (inheritFds child parent l k).2.held (child, fd) = none) := by
  induction l generalizing k with
  | nil => exact ⟨h, (SameFds.refl k).elsewhere, fun hs => absurd rfl hs⟩
  | cons fd l ih =>
    obtain ⟨hfd, hl⟩ := List.nodup_cons.mp hl
    unfold inheritFds
    rw [run_bind, run_getProc, run_ite]
    dsimp only
    split
    · exact ih h hlives hl fun i hi => hunused i (List.mem_cons_of_mem _ hi)
    · rename_i hkind
      have hheld : k.held (parent, fd) =
          some (((k.procs parent).fds fd).kind, ((k.procs parent).fds fd).handle) := if_neg hkind
      obtain ⟨o, ho⟩ := h.named _ _ hheld
      have hpos : 0 < k.count o := h.pos_of_held (hheld.trans (congrArg some ho))
      have hname : ((k.procs parent).fds fd).name = some o.name := ProcessFd.name_eq_some.mpr ho
      have hkind' : ((k.procs parent).fds fd).kind = o.name.1 := congrArg Prod.fst ho
      have hhandle : ((k.procs parent).fds fd).handle = o.name.2 := congrArg Prod.snd ho
      rw [hkind', hhandle, run_bind]
      rcases counted_retainFd h hpos with ⟨hfail, hk⟩ | ⟨hok, hfds, hcounted⟩
      · rw [hfail, hk, run_ite, if_pos (by decide), run_bind, run_pure]
        dsimp only
        obtain ⟨hc, hclears, hnone⟩ := counted_processFdCloseAll h child
        exact ⟨hc, hclears.elsewhere, fun _ => hnone⟩
      · rw [hok, run_ite, if_neg (by decide), run_bind, run_modifyProc]
        dsimp only
        generalize (retainFd o.name.1 o.name.2 k).2 = k₁ at hfds hcounted
        have hunused₁ : k₁.held (child, fd) = none := by
          rw [hfds.held]
          exact hunused fd List.mem_cons_self
        have hlives₁ : (k₁.procs child).state ≠ .dead := fun hd => hlives (hfds.dead _ hd)
        have hinstall := hcounted.install hunused₁ hname hlives₁
        have helse : FdsElsewhere child k _ :=
          hfds.elsewhere.trans (.setFd k₁ child fd ((k.procs parent).fds fd))
        have hrest (i : Fin processMaxFds) (hi : i ∈ l) :
            (k₁.setProc child (·.setFd fd ((k.procs parent).fds fd))).held (child, i) = none := by
          have hne' : i ≠ fd := by
            rintro rfl
            exact hfd hi
          rw [k₁.held_setFd, update_of_ne (by simpa using hne'), hfds.held]
          exact hunused i (List.mem_cons_of_mem _ hi)
        obtain ⟨hc, helse', hnone⟩ := ih hinstall (fun hd => hlives (helse.dead _ hd)) hl hrest
        exact ⟨hc, helse.trans helse', hnone⟩

/-- A process without descriptors is replaced by one without. -/
theorem Kernel.Counted.vacant (h : k.Counted hand) {f : Process → Process}
    (hnone : ∀ fd, k.held (proc, fd) = none) (hf : ∀ fd, ((f (k.procs proc)).fds fd).name = none) :
    (k.setProc proc f).Counted hand := by
  have hheld : (k.setProc proc f).held = k.held := by
    funext ⟨p, fd⟩
    unfold Kernel.held
    dsimp only
    by_cases hp : p = proc
    · subst hp
      rw [Kernel.setProc_self, hf]
      exact (hnone fd).symm
    · rw [k.setProc_of_ne hp]
  refine ⟨fun o => ?_, fun s r hr => h.named s r (by rwa [hheld] at hr), h.tables.setProc f,
    fun p hp fd => ?_⟩
  · rw [hheld, ← h.exact]
    cases o <;> rfl
  · rw [hheld]
    by_cases hpp : p = proc
    · rw [hpp, hnone]
    · rw [k.setProc_of_ne hpp] at hp
      exact h.dead p hp fd

end AgenticOs
