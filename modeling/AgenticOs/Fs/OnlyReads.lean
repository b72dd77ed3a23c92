import AgenticOs.Fs.OtherDevices
import AgenticOs.Fs.Vfs

/-!
# Calls that only read

* **Files** (`OnlyReads`): `simplefs_stat`, `simplefs_read` and a `simplefs_open` that neither creates nor
  truncates read sectors and change nothing else, whichever of the reads fail (`onlyReads_stat`,
  `onlyReads_read`, `onlyReads_open`). Every device keeps its sectors and the static variables stay; only the
  log and the faults to come differ.
* **Descriptors** (`ReadsThrough`): through a descriptor, `vfs_read` changes the offset of its open file
  besides (`readsThrough_vfsRead`).

Both are preorders, so a program built from such calls only reads (`Within` of `Lib/StateError.lean`).
-/

namespace AgenticOs

open Function Lib Lib.StM

namespace SimpleFs

/-- Sectors have been read. -/
def OnlyReads (s s' : SimpleFs) : Prop := s' = { s with faults := s'.faults, log := s'.log }

/-- Nothing has been read. -/
theorem OnlyReads.refl (s : SimpleFs) : OnlyReads s s := rfl

/-- First one thing has been read and then another. -/
theorem OnlyReads.trans {s s' s'' : SimpleFs} (h : OnlyReads s s') (h' : OnlyReads s' s'') : OnlyReads s s'' := by
  unfold OnlyReads at h h'
  rw [h] at h'
  exact h'

instance : IsPreorder SimpleFs OnlyReads where
  refl := .refl
  trans _ _ _ := .trans

/-- A sector is read, or cannot be. -/
theorem onlyReads_readSector (lba : Nat) : Within OnlyReads (readSector lba) := by
  intro s
  unfold readSector
  rcases hdev : s.simplefsDev with _ | dev
  · exact .refl s
  · unfold OnlyReads
    dsimp only
    split <;> rw [hdev]

/-- An entry of the directory is read. -/
theorem onlyReads_readEntry (i : Nat) : Within OnlyReads (readEntry i) :=
  .get_bind fun _ => .check ((onlyReads_readSector _).bind fun _ => .pure _)

/-- The directory is searched; the induction is on the entries to come. -/
theorem onlyReads_findFrom (test : DirEntry → Bool) (status : Int) (n i : Nat) :
    Within OnlyReads (findFrom test status i n) := by
  induction n generalizing i with
  | zero => exact .fail _
  | succ n ih => exact (onlyReads_readEntry i).bind fun entry => .ite (.pure _) (ih (i + 1))

/-- The check that a file system is mounted reads nothing. -/
theorem onlyReads_requireMounted : Within OnlyReads requireMounted :=
  .get_bind fun _ => .ite (.fail _) (.pure _)

/-- Nor does the check of a path. -/
theorem onlyReads_normalize (path : Option CString) : Within OnlyReads (normalize path) := by
  unfold normalize
  split
  · exact .fail _
  · exact .pure _

/-- The loop of `simplefs_read`, sector by sector. -/
theorem onlyReads_readLoop (entry : DirEntry) (offset count done : Nat) :
    Within OnlyReads (readLoop entry offset count done) := by
  induction done using readLoop.induct offset count with
  | case1 done hlt absolute sectorOffset chunk ih =>
    rw [readLoop, if_pos hlt]
    exact (onlyReads_readSector _).bind fun _ => ih.bind fun _ => .pure _
  | case2 done hlt =>
    rw [readLoop, if_neg hlt]
    exact .pure _

/-- An open that can neither create nor truncate. -/
theorem onlyReads_open (path : Option CString) (flags : Word) (hcreat : test flags vfsOCreat = false)
    (htrunc : test flags vfsOTrunc = false) : Within OnlyReads (simplefsOpen path flags) := by
  refine onlyReads_requireMounted.bind fun _ => (onlyReads_normalize path).bind fun _ =>
    (Within.attempt (onlyReads_findFrom _ _ _ _)).bind fun found => ?_
  rcases found with status | ⟨index, entry⟩
  · dsimp only
    refine .ite ?_ (.fail _)
    rw [hcreat]
    exact fun s => .refl s
  · dsimp only
    rw [htrunc, if_neg Bool.false_ne_true]
    exact .pure _

/-- `simplefs_read`, whatever its arguments. -/
theorem onlyReads_read (path : Option CString) (offset : Nat) (buffer : Bool) (count : Nat) :
    Within OnlyReads (simplefsRead path offset buffer count) :=
  onlyReads_requireMounted.bind fun _ => .check ((onlyReads_normalize path).bind fun _ =>
    (onlyReads_findFrom _ _ _ _).bind fun _ => .ite (.pure _) (onlyReads_readLoop _ _ _ _))

/-- `simplefs_stat`, whatever its arguments. -/
theorem onlyReads_stat (path : Option CString) (out : Bool) : Within OnlyReads (simplefsStat path out) :=
  onlyReads_requireMounted.bind fun _ => .check ((onlyReads_normalize path).bind fun _ =>
    (onlyReads_findFrom _ _ _ _).bind fun _ => .pure _)

end SimpleFs

namespace Vfs

variable {v v' v'' : Vfs} {fd : Fin vfsMaxOpenFiles}

/-- Files have been read, through the descriptor `fd` if at all. -/
structure ReadsThrough (fd : Fin vfsMaxOpenFiles) (v v' : Vfs) : Prop where
  fs : v.fs.OnlyReads v'.fs
  rootDev : v'.vfsRootDev = v.vfsRootDev
  mounted : v'.vfsMounted = v.vfsMounted
  others : ∀ i, i ≠ fd → v'.vfsOpenFiles i = v.vfsOpenFiles i
  used : (v'.vfsOpenFiles fd).used = (v.vfsOpenFiles fd).used
  refCount : (v'.vfsOpenFiles fd).refCount = (v.vfsOpenFiles fd).refCount

namespace ReadsThrough

/-- Nothing has been read. -/
theorem refl (v : Vfs) : ReadsThrough fd v v := ⟨.refl _, rfl, rfl, fun _ _ => rfl, rfl, rfl⟩

/-- First one thing has been read and then another. -/
theorem trans (h : ReadsThrough fd v v') (h' : ReadsThrough fd v' v'') : ReadsThrough fd v v'' :=
  ⟨h.fs.trans h'.fs, h'.rootDev.trans h.rootDev, h'.mounted.trans h.mounted,
    fun i hi => (h'.others i hi).trans (h.others i hi), h'.used.trans h.used, h'.refCount.trans h.refCount⟩

instance : IsPreorder Vfs (ReadsThrough fd) where
  refl := refl
  trans _ _ _ := trans

end ReadsThrough

/-- A call of the file system that only reads. -/
theorem readsThrough_call {α : Type} {x : FsM α} (hx : Within SimpleFs.OnlyReads x) :
    Within (ReadsThrough fd) (call x) :=
  fun v => ⟨hx v.fs, rfl, rfl, fun _ _ => rfl, rfl, rfl⟩

/-- The offset of the open file moves. -/
theorem readsThrough_advance (count : Nat) (v : Vfs) : ReadsThrough fd v (advance fd count v) := by
  have hself : (advance fd count v).vfsOpenFiles fd =
      { v.vfsOpenFiles fd with offset := ((v.vfsOpenFiles fd).offset + count) % wordSize } := update_self ..
  refine ⟨.refl _, rfl, rfl, fun i hi => update_of_ne hi .., ?_, ?_⟩ <;> rw [hself]

/-- A descriptor names its own open file, or none. -/
theorem vfsFdValid_eq (v : Vfs) (fd : Fin vfsMaxOpenFiles) :
    v.vfsFdValid (fd.val : Int) = if (v.vfsOpenFiles fd).used then some fd else none := by
  have hfd : 0 ≤ (fd.val : Int) ∧ (fd.val : Int).toNat < vfsMaxOpenFiles :=
    ⟨Int.natCast_nonneg _, by rw [Int.toNat_natCast]; exact fd.isLt⟩
  unfold vfsFdValid
  rw [dif_pos hfd]
  rfl

/-- `vfs_read` through a descriptor. -/
theorem readsThrough_vfsRead (buffer : Bool) (count : Nat) :
    Within (ReadsThrough fd) (vfsRead (fd.val : Int) buffer count) := by
  unfold vfsRead
  refine .get_bind fun v => ?_
  rw [v.vfsFdValid_eq]
  split
  · exact .fail _
  · rename_i i hi
    split at hi
    · obtain rfl := Option.some.inj hi
      refine .check (.get_bind fun v => .check
        (.bind (readsThrough_call (SimpleFs.onlyReads_read _ _ _ _)) fun bytes => ?_))
      exact .bind (.modify (readsThrough_advance _)) fun _ => .pure _
    · cases hi

end Vfs

end AgenticOs
