import AgenticOs.Fs.MountErrors
import AgenticOs.Fs.Names
import AgenticOs.Fs.StoreRefinement

/-!
# The names of a file system have no aliases

Runs of `vfs.c` over `simplefs.c`, with any number of devices that are formatted, mounted, left and mounted
again.

* **Calls** (`FsCall`): formats, mounts, and calls that are given a path, on `vfs.c` or directly on
  `simplefs.c`. A call comes to an entry of the directory if its other arguments let it (`Reaches`,
  `Admitted`).
* **Error-free runs** (`Produced`): no call of a device fails. A device fails a sector that it does not have
  (`ramdisk_range_valid`), so no such sector is asked for.
* **Invariant** (`SimpleFs.Sound`): all devices that have been formatted hold file systems, and the mounted
  one is among them. A call that meets no error keeps it (`ErrorFree.continues`) and keeps the names on every
  device that it does not format (`Since.names`).
* **Main result** (`namespace_without_aliases`): the accepted paths are a slash and the name of a file,
  nothing is written behind the array of the name, a name on a device stays with its entry until the device is
  formatted, and the calls that come to an entry in use are those that are given its name.
-/

namespace AgenticOs

open Function Lib Lib.StM Volume

/-! ### Calls -/

/-- A call that is given a path. -/
inductive PathCall
  | vfsOpen (path : Option CString) (flags : Word)
  | vfsStat (path : Option CString) (out : Bool)
  | simplefsOpen (path : Option CString) (flags : Word)
  | simplefsRead (path : Option CString) (offset : Word) (buffer : Bool) (count : Word)
  | simplefsWrite (path : Option CString) (offset : Word) (buffer : Option (Nat → Byte)) (count : Word)
  | simplefsStat (path : Option CString) (out : Bool)

/-- A call of `vfs.c` or `simplefs.c`. -/
inductive FsCall
  | path (call : PathCall)
  | vfsInit (dev : Option Nat)
  | vfsFormat
  | vfsMount
  | vfsRead (fd : Int) (buffer : Bool) (count : Word)
  | vfsWrite (fd : Int) (buffer : Option (Nat → Byte)) (count : Word)
  | vfsRetain (fd : Int)
  | vfsClose (fd : Int)
  | vfsCloseAll
  | simplefsFormat (dev : Option Nat)
  | simplefsMount (dev : Option Nat)

namespace PathCall

/-- The path a call is given. -/
def path : PathCall → Option CString
  | .vfsOpen path _ => path
  | .vfsStat path _ => path
  | .simplefsOpen path _ => path
  | .simplefsRead path _ _ _ => path
  | .simplefsWrite path _ _ _ => path
  | .simplefsStat path _ => path

/-- The function that a call runs. -/
def run : PathCall → VfsM Unit
  | .vfsOpen path flags => do let _ ← Vfs.vfsOpen path flags
  | .vfsStat path out => do let _ ← Vfs.vfsStat path out
  | .simplefsOpen path flags => do let _ ← Vfs.call (SimpleFs.simplefsOpen path flags)
  | .simplefsRead path offset buffer count => do
    let _ ← Vfs.call (SimpleFs.simplefsRead path offset.toNat buffer count.toNat)
  | .simplefsWrite path offset buffer count => do
    let _ ← Vfs.call (SimpleFs.simplefsWrite path offset.toNat buffer count.toNat)
  | .simplefsStat path out => do let _ ← Vfs.call (SimpleFs.simplefsStat path out)

/-- The call of `simplefs.c` that a call comes to, if its own checks let it. -/
def op (v : Vfs) : PathCall → Option FsOp
  | .vfsOpen path flags =>
    if v.vfsMounted = true ∧ Vfs.vfsFlagsValid flags = true ∧ v.vfsAllocFd.isSome = true then
      (Vfs.vfsCopyPath path).map fun copied => .open (some copied) flags
    else none
  | .vfsStat path out => if v.vfsMounted = true ∧ out = true then some (.stat path true) else none
  | .simplefsOpen path flags => some (.open path flags)
  | .simplefsRead path offset buffer count => some (.read path offset.toNat buffer count.toNat)
  | .simplefsWrite path offset buffer count => some (.write path offset.toNat buffer count.toNat)
  | .simplefsStat path out => some (.stat path out)

/-- A call comes to an entry of the directory. -/
def Reaches (v : Vfs) (call : PathCall) (i : Nat) : Prop := ∃ op, call.op v = some op ∧ op.Reaches v.fs i

/-- What a call checks apart from its path. -/
def Admitted (v : Vfs) : PathCall → Prop
  | .vfsOpen _ flags => v.vfsMounted = true ∧ Vfs.vfsFlagsValid flags = true ∧ v.vfsAllocFd.isSome = true
  | .vfsStat _ out => v.vfsMounted = true ∧ out = true
  | .simplefsOpen _ _ => True
  | .simplefsRead _ _ buffer count => buffer = true ∨ count = 0
  | .simplefsWrite _ offset buffer count =>
    buffer ≠ none ∧ count ≠ 0 ∧ offset.toNat + count.toNat < wordSize
  | .simplefsStat _ out => out = true

end PathCall

namespace FsCall

/-- The function that a call runs. -/
def run : FsCall → VfsM Unit
  | .path call => call.run
  | .vfsInit dev => Vfs.vfsInit dev
  | .vfsFormat => Vfs.vfsFormat
  | .vfsMount => Vfs.vfsMount
  | .vfsRead fd buffer count => do let _ ← Vfs.vfsRead fd buffer count.toNat
  | .vfsWrite fd buffer count => do let _ ← Vfs.vfsWrite fd buffer count.toNat
  | .vfsRetain fd => Vfs.vfsRetain fd
  | .vfsClose fd => Vfs.vfsClose fd
  | .vfsCloseAll => modify Vfs.vfsClearOpenFiles
  | .simplefsFormat dev => Vfs.call (SimpleFs.simplefsFormat dev)
  | .simplefsMount dev => Vfs.call (SimpleFs.simplefsMount dev)

/-- The device that a call formats. -/
def formats (v : Vfs) : FsCall → Option Nat
  | .vfsFormat => v.vfsRootDev
  | .simplefsFormat dev => dev
  | _ => none

/-- The device that a call mounts. -/
def mounts (v : Vfs) : FsCall → Option Nat
  | .vfsMount => v.vfsRootDev
  | .simplefsMount dev => dev
  | _ => none

/-- The call of `simplefs.c` that a call comes to, apart from formatting and mounting. -/
def op (v : Vfs) : FsCall → Option FsOp
  | .path call => call.op v
  | .vfsRead fd buffer count =>
    match v.vfsFdValid fd with
    | none => none
    | some i =>
      if (!buffer ∧ 0 < count.toNat) ∨ !test (v.vfsOpenFiles i).flags vfsORdonly then none
      else some (.read (some (v.vfsOpenFiles i).path) (v.vfsOpenFiles i).offset buffer count.toNat)
  | .vfsWrite fd buffer count =>
    match v.vfsFdValid fd with
    | none => none
    | some i =>
      if (buffer.isNone ∧ 0 < count.toNat) ∨ !test (v.vfsOpenFiles i).flags vfsOWronly then none
      else some (.write (some (v.vfsOpenFiles i).path) (v.vfsOpenFiles i).offset buffer count.toNat)
  | _ => none

end FsCall

variable {v : Vfs} {call : PathCall} {op : FsOp} {d i : Nat} {name : List Byte} {F : Set Nat} {s s' : SimpleFs}
  {V : Volume}

/-- A call of the file system, and changes of the open table. -/
theorem call_fs {α β : Type} (x : FsM α) (f : α → VfsM β) (hf : ∀ a v, (f a v).2.fs = v.fs) (v : Vfs) :
    ((Vfs.call x >>= f) v).2.fs = (x v.fs).2 := by
  rcases hx : x v.fs with ⟨e | a, fs⟩
  · rw [bind_error (call_run hx)]
  · rw [bind_ok (call_run hx), hf]

/-- What a call does to the file system. -/
def stepped (s : SimpleFs) : Option FsOp → SimpleFs
  | none => s
  | some op => op.step s

/-- What a call with a path does to the file system is a call of `simplefs.c`, or nothing. -/
theorem PathCall.run_fs (v : Vfs) (call : PathCall) : (call.run v).2.fs = stepped v.fs (call.op v) := by
  cases call with
  | vfsOpen path flags =>
    unfold PathCall.run PathCall.op Vfs.vfsOpen
    simp only [bind_assoc]
    rw [run_get_bind]
    by_cases hmounted : v.vfsMounted = true
    · by_cases hvalid : Vfs.vfsFlagsValid flags = true
      · rw [hmounted, hvalid, if_neg (by decide), if_neg (by decide)]
        rcases Vfs.vfsCopyPath path with _ | copied
        · rw [Option.map_none, ite_self]
          rfl
        · dsimp only
          simp only [bind_assoc]
          rw [run_get_bind]
          rcases v.vfsAllocFd with _ | fd
          · rfl
          · simp only [bind_assoc]
            exact call_fs _ _ (fun _ _ => rfl) v
      · have hno : ¬(v.vfsMounted = true ∧ Vfs.vfsFlagsValid flags = true ∧ v.vfsAllocFd.isSome = true) :=
          fun h => hvalid h.2.1
        rw [if_neg (by simpa using hmounted), if_pos (by simpa using hvalid), if_neg hno]
        rfl
    · have hno : ¬(v.vfsMounted = true ∧ Vfs.vfsFlagsValid flags = true ∧ v.vfsAllocFd.isSome = true) :=
        fun h => hmounted h.1
      rw [if_pos (by simpa using hmounted), if_neg hno]
      rfl
  | vfsStat path out =>
    unfold PathCall.run PathCall.op Vfs.vfsStat
    simp only [bind_assoc]
    rw [run_get_bind]
    by_cases hmounted : v.vfsMounted = true
    · rw [hmounted, if_neg (by decide)]
      rcases out with _ | _
      · rfl
      · exact call_fs _ _ (fun _ _ => rfl) v
    · have hno : ¬(v.vfsMounted = true ∧ out = true) := fun h => hmounted h.1
      rw [if_pos (by simpa using hmounted), if_neg hno]
      rfl
  | simplefsOpen path flags => exact call_fs _ _ (fun _ _ => rfl) v
  | simplefsRead path offset buffer count => exact call_fs _ _ (fun _ _ => rfl) v
  | simplefsWrite path offset buffer count => exact call_fs _ _ (fun _ _ => rfl) v
  | simplefsStat path out => exact call_fs _ _ (fun _ _ => rfl) v

/-- Calls that neither format nor mount a device. -/
theorem FsCall.run_fs (v : Vfs) (call : FsCall) (hformats : call.formats v = none) (hmounts : call.mounts v = none) :
    (call.run v).2.fs = stepped v.fs (call.op v) := by
  cases call with
  | path call => exact call.run_fs v
  | vfsInit dev =>
    show (Vfs.vfsInit dev v).2.fs = v.fs
    unfold Vfs.vfsInit
    rcases dev with _ | d
    · rfl
    · dsimp only
      rw [run_get_bind]
      split
      · rfl
      · rfl
  | vfsFormat =>
    show (Vfs.vfsFormat v).2.fs = v.fs
    unfold Vfs.vfsFormat
    rw [run_get_bind, if_pos (by rw [show v.vfsRootDev = none from hformats]; rfl)]
    rfl
  | vfsMount =>
    show (Vfs.vfsMount v).2.fs = v.fs
    unfold Vfs.vfsMount
    rw [run_get_bind, if_pos (by rw [show v.vfsRootDev = none from hmounts]; rfl)]
    rfl
  | vfsRead fd buffer count =>
    unfold FsCall.run FsCall.op Vfs.vfsRead
    simp only [bind_assoc]
    rw [run_get_bind]
    rcases v.vfsFdValid fd with _ | i
    · rfl
    · dsimp only
      by_cases hbuffer : !buffer ∧ 0 < count.toNat
      · rw [if_pos hbuffer, if_pos (.inl hbuffer)]
        rfl
      · rw [if_neg hbuffer]
        simp only [bind_assoc]
        rw [run_get_bind]
        by_cases hflags : (!test (v.vfsOpenFiles i).flags vfsORdonly) = true
        · rw [if_pos hflags, if_pos (.inr hflags)]
          rfl
        · rw [if_neg hflags, if_neg (not_or.mpr ⟨hbuffer, hflags⟩)]
          simp only [bind_assoc]
          exact call_fs _ _ (fun _ _ => rfl) v
  | vfsWrite fd buffer count =>
    unfold FsCall.run FsCall.op Vfs.vfsWrite
    simp only [bind_assoc]
    rw [run_get_bind]
    rcases v.vfsFdValid fd with _ | i
    · rfl
    · dsimp only
      by_cases hbuffer : buffer.isNone ∧ 0 < count.toNat
      · rw [if_pos hbuffer, if_pos (.inl hbuffer)]
        rfl
      · rw [if_neg hbuffer]
        simp only [bind_assoc]
        rw [run_get_bind]
        by_cases hflags : (!test (v.vfsOpenFiles i).flags vfsOWronly) = true
        · rw [if_pos hflags, if_pos (.inr hflags)]
          rfl
        · rw [if_neg hflags, if_neg (not_or.mpr ⟨hbuffer, hflags⟩)]
          simp only [bind_assoc]
          refine call_fs _ _ (fun written v => ?_) v
          split
          · rfl
          · rfl
  | vfsRetain fd =>
    show (Vfs.vfsRetain fd v).2.fs = v.fs
    unfold Vfs.vfsRetain
    rw [run_get_bind]
    rcases v.vfsFdValid fd with _ | i
    · rfl
    · dsimp only
      rw [run_get_bind]
      split
      · rfl
      · rfl
  | vfsClose fd =>
    show (Vfs.vfsClose fd v).2.fs = v.fs
    unfold Vfs.vfsClose
    rw [run_get_bind]
    rcases v.vfsFdValid fd with _ | i
    · rfl
    · dsimp only
      rw [run_get_bind]
      split
      · rfl
      · rfl
  | vfsCloseAll => rfl
  | simplefsFormat dev =>
    obtain rfl : dev = none := hformats
    rfl
  | simplefsMount dev =>
    obtain rfl : dev = none := hmounts
    rfl

/-- A mount that succeeds. -/
theorem FsCall.mount_fs {call : FsCall} (hmounts : call.mounts v = some d) (hok : (call.run v).1 = .ok ()) :
    SimpleFs.simplefsMount (some d) v.fs = (.ok (), (call.run v).2.fs) := by
  cases call with
  | vfsMount =>
    have hroot : v.vfsRootDev = some d := hmounts
    show SimpleFs.simplefsMount (some d) v.fs = (.ok (), (Vfs.vfsMount v).2.fs)
    rcases hmount : SimpleFs.simplefsMount (some d) v.fs with ⟨e | _, fs⟩
    · have hrun : (FsCall.run .vfsMount v).1 = .error e := congrArg Prod.fst (vfsMount_error hroot hmount)
      rw [hrun] at hok
      cases hok
    · rw [vfsMount_ok hroot hmount]
  | simplefsMount dev =>
    obtain rfl : dev = some d := hmounts
    exact Prod.ext hok rfl
  | _ => cases hmounts

/-- A format that succeeds. -/
theorem FsCall.format_fs {call : FsCall} (hformats : call.formats v = some d) (hok : (call.run v).1 = .ok ()) :
    SimpleFs.simplefsFormat (some d) v.fs = (.ok (), (call.run v).2.fs) := by
  cases call with
  | vfsFormat =>
    have hroot : v.vfsRootDev = some d := hformats
    have hrun : FsCall.run .vfsFormat v =
        Vfs.call (SimpleFs.simplefsFormat (some d)) { v.vfsClearOpenFiles with vfsMounted := false } := by
      unfold FsCall.run Vfs.vfsFormat
      dsimp only
      rw [run_get_bind, hroot, if_neg nofun]
      rfl
    rw [hrun] at hok ⊢
    exact Prod.ext hok rfl
  | simplefsFormat dev =>
    obtain rfl : dev = some d := hformats
    exact Prod.ext hok rfl
  | _ => cases hformats

/-- The count of a write is a 32-bit word. -/
theorem PathCall.op_counted (hop : call.op v = some op) : op.Counted := by
  cases call with
  | vfsOpen path flags =>
    unfold PathCall.op at hop
    dsimp only at hop
    split at hop
    · obtain ⟨_, -, rfl⟩ := Option.map_eq_some_iff.mp hop
      trivial
    · cases hop
  | vfsStat path out =>
    unfold PathCall.op at hop
    dsimp only at hop
    split at hop
    · cases hop
      trivial
    · cases hop
  | simplefsWrite path offset buffer count =>
    cases hop
    exact count.isLt
  | _ =>
    cases hop
    trivial

/-- The count of a write is a 32-bit word, whichever file of the source the call is of. -/
theorem FsCall.op_counted {call : FsCall} (hop : call.op v = some op) : op.Counted := by
  cases call with
  | path call => exact PathCall.op_counted hop
  | vfsRead fd buffer count =>
    unfold FsCall.op at hop
    dsimp only at hop
    split at hop
    · cases hop
    · split at hop
      · cases hop
      · cases hop
        trivial
  | vfsWrite fd buffer count =>
    unfold FsCall.op at hop
    dsimp only at hop
    split at hop
    · cases hop
    · split at hop
      · cases hop
      · cases hop
        exact count.isLt
  | _ => cases hop

/-! ### What the devices hold -/

/-- Entry `i` of the directory of a device is in use and has this name. -/
def SimpleFs.Names (s : SimpleFs) (d i : Nat) (name : List Byte) : Prop :=
  i < simplefsMaxFiles ∧ (s.dirEntry d i).Live ∧ (s.dirEntry d i).nameBytes = name

/-- A device holds a volume, mounted or not. -/
structure Stored (d : Nat) (s : SimpleFs) (V : Volume) : Prop where
  device : SimpleFs.validateDev (s.devices d) = true
  total : (s.devices d).sectorCount = V.total
  bytes : OnDisk d s V
  consistent : V.Consistent
  rooted : V.Rooted

/-- The names on a device are those of the volume that it holds. -/
theorem Stored.names_iff (h : Stored d s V) : s.Names d i name ↔ V.Has i name := by
  unfold SimpleFs.Names Volume.Has
  rw [dirEntry_of_bytes h.bytes]

/-- A working file system is stored on its device. -/
theorem Working.stored (h : Working d s V) (hroot : V.Rooted) : Stored d s V where
  device := h.holds.device
  total := h.holds.total
  bytes := h.holds.bytes
  consistent := h.consistent
  rooted := hroot

/-- A device that has not changed holds what it held. -/
theorem Stored.of_same (h : Stored d s V) (hdevices : s'.devices = s.devices) (hdisk : s'.disk d = s.disk d) :
    Stored d s' V where
  device := hdevices ▸ h.device
  total := hdevices ▸ h.total
  bytes := fun lba k hk => by rw [hdisk, h.bytes lba k hk]
  consistent := h.consistent
  rooted := h.rooted

/-- Mounting a device. -/
theorem Stored.mount (h : Stored d s V) (hworks : s.faults = .none) :
    ∃ s' used top, SimpleFs.simplefsMount (some d) s = (.ok (), s') ∧ Working d s' (V.remounted used top) := by
  have hlaid : V.Laid simplefsMaxFiles := ⟨h.consistent.extent, h.consistent.disjoint⟩
  obtain ⟨s', used, top, hrun, hf, hs', hm, hlow, hhigh⟩ := SimpleFs.mount_run hworks h.device h.total h.bytes
    h.consistent.super hlaid
  exact ⟨s', used, top, hrun, hs', h.consistent.remounted hm hlow hhigh, rfl, hf⟩

/-- No file, so none starts anywhere. -/
theorem Volume.rooted_of_empty (h : V.fileCount = 0) : V.Rooted := by
  unfold Volume.fileCount at h
  rw [Finset.card_eq_zero, Finset.filter_eq_empty_iff] at h
  exact fun i hi hlive => absurd hlive (h (Finset.mem_range.mpr hi))

/-- All devices of `F` hold file systems, and the mounted one is among them. -/
structure SimpleFs.Sound (F : Set Nat) (s : SimpleFs) : Prop where
  works : s.faults = .none
  stored : ∀ d ∈ F, ∃ V, Stored d s V
  mounted : s.simplefsMounted = true → ∃ d ∈ F, ∃ V, Working d s V ∧ V.Rooted

/-- What a call keeps that formats the devices of `R`. -/
structure SimpleFs.Continues (F R : Set Nat) (s s' : SimpleFs) : Prop where
  sound : s'.Sound (R ∪ F)
  mounted : s.simplefsMounted = true → s'.simplefsMounted = true
  names : ∀ d ∈ F, d ∉ R → ∀ i name, s.Names d i name → s'.Names d i name

/-- Nothing has happened. -/
theorem SimpleFs.Sound.refl (h : s.Sound F) : SimpleFs.Continues F ∅ s s :=
  ⟨by rw [Set.empty_union]; exact h, id, fun _ _ _ _ _ => id⟩

/-- One device has changed, and is mounted. -/
theorem SimpleFs.Sound.attached (h : s.Sound F) {R : Set Nat} (hR : ∀ d' ∈ R, d' = d) (hd : d ∈ R ∪ F)
    (hattaches : SimpleFs.Attaches d s s') (hw : Working d s' V) (hroot : V.Rooted)
    (hnames : d ∉ R → ∀ i name, s.Names d i name → V.Has i name) : SimpleFs.Continues F R s s' := by
  have hstored := hw.stored hroot
  refine ⟨⟨hw.faults, fun d' hd' => ?_, fun _ => ⟨d, hd, V, hw, hroot⟩⟩,
    fun _ => hw.holds.mounted.trans hw.mounted, fun d' hd' hkept i name hname => ?_⟩
  · by_cases heq : d' = d
    · exact ⟨V, heq ▸ hstored⟩
    · obtain ⟨W, hW⟩ := h.stored d' (hd'.resolve_left fun hc => heq (hR d' hc))
      exact ⟨W, hW.of_same hattaches.devices (hattaches.disk d' heq)⟩
  · by_cases heq : d' = d
    · subst heq
      exact hstored.names_iff.mpr (hnames hkept i name hname)
    · obtain ⟨W, hW⟩ := h.stored d' hd'
      exact (hW.of_same hattaches.devices (hattaches.disk d' heq)).names_iff.mpr (hW.names_iff.mp hname)

/-- A mount changes no name. -/
theorem SimpleFs.Sound.mount (h : s.Sound F) (hd : d ∈ F) (hrun : SimpleFs.simplefsMount (some d) s = (.ok (), s')) :
    SimpleFs.Continues F ∅ s s' := by
  obtain ⟨U, hU⟩ := h.stored d hd
  obtain ⟨s'', used, top, hrun', hw⟩ := hU.mount h.works
  obtain rfl : s' = s'' := congrArg Prod.snd (hrun.symm.trans hrun')
  have hkeeps : U.Keeps (U.remounted used top) := .of_entries fun i hi => remounted_entry hi
  exact h.attached nofun (.inr hd) (SimpleFs.mount_attaches hU.device hrun) hw (hkeeps.rooted hU.rooted)
    fun _ i name hname => hkeeps.has i name (hU.names_iff.mp hname)

/-- A format keeps the names on the other devices. -/
theorem SimpleFs.Sound.format (h : s.Sound F) (hrun : SimpleFs.simplefsFormat (some d) s = (.ok (), s')) :
    SimpleFs.Continues F {d} s s' := by
  have hv : SimpleFs.validateDev (s.devices d) = true := by
    by_contra hno
    rw [SimpleFs.format_refused (Bool.eq_false_iff.mpr hno)] at hrun
    cases hrun
  obtain ⟨s'', V, hrun', hw, -, -, hcount⟩ := Working.format h.works hv
  obtain rfl : s' = s'' := congrArg Prod.snd (hrun.symm.trans hrun')
  exact h.attached (fun _ => id) (.inl rfl) (SimpleFs.format_attaches hv hrun) hw (rooted_of_empty hcount)
    fun hc => absurd rfl hc

/-! ### Calls on the mounted device -/

/-- A call on the mounted device touches no other one. -/
theorem FsOp.othersKept (op : FsOp) (s : SimpleFs) : SimpleFs.OthersKept s (op.step s) := by
  cases op with
  | «open» path flags => exact SimpleFs.othersKept_open path flags s
  | read path offset buffer count => exact SimpleFs.othersKept_read path offset buffer count s
  | write path offset buffer count => exact SimpleFs.othersKept_write path offset buffer count s
  | stat path out => exact SimpleFs.othersKept_stat path out s

/-- Nothing happens before a mount. -/
theorem requireMounted_error (h : s.simplefsMounted = false) :
    SimpleFs.requireMounted s = (.error vfsEio, s) := by
  unfold SimpleFs.requireMounted
  rw [run_get_bind, h]
  rfl

/-- Without a mounted file system calls do nothing. -/
theorem FsOp.step_unmounted (op : FsOp) (h : s.simplefsMounted = false) : op.step s = s := by
  have hno := requireMounted_error h
  cases op with
  | «open» => exact congrArg Prod.snd (bind_error hno)
  | read => exact congrArg Prod.snd (bind_error hno)
  | write => exact congrArg Prod.snd (bind_error hno)
  | stat => exact congrArg Prod.snd (bind_error hno)

/-- A call comes to an entry of a mounted file system only. -/
theorem FsOp.Reaches.mounted (h : op.Reaches s i) : s.simplefsMounted = true := by
  by_contra hno
  have hno := requireMounted_error (Bool.eq_false_iff.mpr hno)
  unfold FsOp.Reaches at h
  cases op with
  | «open» => exact nomatch (congrArg Prod.fst (bind_error (bind_error hno))).symm.trans h
  | read => exact nomatch (congrArg Prod.fst (bind_error (bind_error hno))).symm.trans h
  | write => exact nomatch (congrArg Prod.fst (bind_error (bind_error hno))).symm.trans h
  | stat => exact nomatch (congrArg Prod.fst (bind_error (bind_error hno))).symm.trans h

/-- The sectors asked for between two states are sectors of the device. -/
def SimpleFs.InDevice (s s' : SimpleFs) : Prop :=
  ∀ a ∈ s.accessesSince s', ∀ d, s'.simplefsDev = some d → a.lba < (s'.devices d).sectorCount

/-- A call on the mounted device: names stay, and the entry it comes to has the name of its path. -/
theorem SimpleFs.Sound.step (h : s.Sound F) (op : FsOp) (hcount : op.Counted) (hrange : s.InDevice (op.step s)) :
    SimpleFs.Continues F ∅ s (op.step s) ∧ ∀ d i, s.simplefsDev = some d → op.Reaches s i →
      d ∈ F ∧ ∃ name, SimpleFs.normalizePath op.path = some name ∧ (op.step s).Names d i name := by
  by_cases hmounted : s.simplefsMounted = true
  · obtain ⟨d, hd, V, hw, hroot⟩ := h.mounted hmounted
    have hkept := op.othersKept s
    obtain ⟨V', hw', hkeeps, hreaches⟩ := hw.op_keeps hroot op hcount fun a ha => by
      have hin := hrange a ha d (hkept.dev.trans hw.holds.dev)
      rw [hkept.devices, hw.holds.total] at hin
      exact hin
    have hstored' := hw'.stored (hkeeps.rooted hroot)
    refine ⟨h.attached nofun (.inr hd) (hkept.attaches rfl hw.holds.dev rfl) hw' (hkeeps.rooted hroot)
      fun _ i name hname => hkeeps.has i name ((hw.stored hroot).names_iff.mp hname), fun d' i hdev hreach => ?_⟩
    obtain rfl : d = d' := Option.some.inj (hw.holds.dev.symm.trans hdev)
    obtain ⟨name, hpath, hhas⟩ := hreaches i hreach
    exact ⟨hd, name, hpath, hstored'.names_iff.mpr hhas⟩
  · rw [op.step_unmounted (Bool.eq_false_iff.mpr hmounted)]
    exact ⟨h.refl, fun _ _ _ hreach => absurd hreach.mounted hmounted⟩

/-! ### Runs -/

/-- A state, and the devices that have been formatted on the way to it. -/
structure FsHistory where
  formatted : Set Nat
  vfs : Vfs

namespace FsHistory

variable {h h' : FsHistory}

/-- After a call. -/
def after (h : FsHistory) (call : FsCall) : FsHistory where
  formatted := {d | call.formats h.vfs = some d} ∪ h.formatted
  vfs := (call.run h.vfs).2

/-- No sector fails, formats and mounts succeed, and what is mounted has been formatted before. -/
structure ErrorFree (h : FsHistory) (call : FsCall) : Prop where
  sectors : h.vfs.fs.InDevice (h.after call).vfs.fs
  succeeds : call.formats h.vfs ≠ none ∨ call.mounts h.vfs ≠ none → (call.run h.vfs).1 = .ok ()
  known : ∀ d, call.mounts h.vfs = some d → d ∈ h.formatted

/-- The states that error-free calls produce, from a device that works and no file system. -/
inductive Produced : FsHistory → Prop
  | start (v : Vfs) : v.fs.faults = .none → v.fs.simplefsMounted = false → Produced ⟨∅, v⟩
  | call {h : FsHistory} (call : FsCall) : Produced h → h.ErrorFree call → Produced (h.after call)

/-- Error-free calls that do not format device `d`. -/
inductive Since (d : Nat) (h : FsHistory) : FsHistory → Prop
  | here : Since d h h
  | call {h' : FsHistory} (call : FsCall) : Since d h h' → h'.ErrorFree call → call.formats h'.vfs ≠ some d →
      Since d h (h'.after call)

/-- **A call that meets no error** keeps the file systems sound. -/
theorem ErrorFree.continues {call : FsCall} (hsound : h.vfs.fs.Sound h.formatted) (herr : h.ErrorFree call) :
    SimpleFs.Continues h.formatted {d | call.formats h.vfs = some d} h.vfs.fs (h.after call).vfs.fs := by
  rcases hformats : call.formats h.vfs with _ | d
  · have hempty : {d | (none : Option Nat) = some d} = ∅ := Set.eq_empty_of_forall_notMem fun _ => nofun
    rw [hempty]
    rcases hmounts : call.mounts h.vfs with _ | d
    · have hfs : (h.after call).vfs.fs = stepped h.vfs.fs (call.op h.vfs) := call.run_fs h.vfs hformats hmounts
      have hrange := herr.sectors
      rw [hfs] at hrange ⊢
      rcases hop : call.op h.vfs with _ | op
      · exact hsound.refl
      · rw [hop] at hrange
        exact (hsound.step op (FsCall.op_counted hop) hrange).1
    · have hok := herr.succeeds (.inr (by rw [hmounts]; nofun))
      exact hsound.mount (herr.known d hmounts) (FsCall.mount_fs hmounts hok)
  · have hsingle : {d' | some d = some d'} = {d} := by
      ext d'
      exact Option.some_inj.trans eq_comm
    have hok := herr.succeeds (.inl (by rw [hformats]; nofun))
    rw [hsingle]
    exact hsound.format (FsCall.format_fs hformats hok)

/-- **Every error-free run leaves sound file systems.** -/
theorem Produced.sound (hp : h.Produced) : h.vfs.fs.Sound h.formatted := by
  induction hp with
  | start v hworks hmounted =>
    refine ⟨hworks, fun _ => False.elim, fun hm => ?_⟩
    rw [hmounted] at hm
    cases hm
  | call call hp herr ih => exact (herr.continues ih).sound

/-- Names stay as long as the device is not formatted. -/
theorem Since.names (hs : Since d h h') (hsound : h.vfs.fs.Sound h.formatted) (hd : d ∈ h.formatted)
    (hname : h.vfs.fs.Names d i name) (hmounted : h.vfs.fs.simplefsMounted = true) :
    h'.vfs.fs.Sound h'.formatted ∧ d ∈ h'.formatted ∧ h'.vfs.fs.Names d i name ∧
      h'.vfs.fs.simplefsMounted = true := by
  induction hs with
  | here => exact ⟨hsound, hd, hname, hmounted⟩
  | call call _ herr hkept ih =>
    obtain ⟨hsound, hd, hname, hmounted⟩ := ih
    have hcontinues := herr.continues hsound
    exact ⟨hcontinues.sound, .inr hd, hcontinues.names d hd hkept i name hname, hcontinues.mounted hmounted⟩

/-- A call with a path touches no other device. -/
theorem after_path (h : FsHistory) (call : PathCall) :
    SimpleFs.OthersKept h.vfs.fs (h.after (.path call)).vfs.fs := by
  have hfs : (h.after (.path call)).vfs.fs = stepped h.vfs.fs (call.op h.vfs) := call.run_fs h.vfs
  rw [hfs]
  rcases call.op h.vfs with _ | op
  · exact refl h.vfs.fs
  · exact op.othersKept h.vfs.fs

/-- A format that succeeds attaches its device. -/
theorem after_format (hok : (FsCall.run (.simplefsFormat (some d)) h.vfs).1 = .ok ())
    (hdev : SimpleFs.validateDev (h.vfs.fs.devices d) = true) :
    SimpleFs.Attaches d h.vfs.fs (h.after (.simplefsFormat (some d))).vfs.fs :=
  SimpleFs.format_attaches hdev (FsCall.format_fs rfl hok)

/-- A call with a path meets no error if it asks for sectors of its device. -/
theorem ErrorFree.path (hdev : h.vfs.fs.simplefsDev = some d)
    (hsectors : ∀ a ∈ h.vfs.fs.accessesSince (h.after (.path call)).vfs.fs,
      a.lba < (h.vfs.fs.devices d).sectorCount) : h.ErrorFree (.path call) := by
  refine ⟨fun a ha d' hd' => ?_, nofun, fun _ => nofun⟩
  rw [(h.after_path call).dev, hdev] at hd'
  obtain rfl := Option.some.inj hd'
  rw [(h.after_path call).devices]
  exact hsectors a ha

/-- And so does a format that succeeds. -/
theorem ErrorFree.format (hok : (FsCall.run (.simplefsFormat (some d)) h.vfs).1 = .ok ())
    (hdev : SimpleFs.validateDev (h.vfs.fs.devices d) = true)
    (hsectors : ∀ a ∈ h.vfs.fs.accessesSince (h.after (.simplefsFormat (some d))).vfs.fs,
      a.lba < (h.vfs.fs.devices d).sectorCount) : h.ErrorFree (.simplefsFormat (some d)) := by
  refine ⟨fun a ha d' hd' => ?_, fun _ => hok, fun _ => nofun⟩
  rw [(after_format hok hdev).dev] at hd'
  obtain rfl := Option.some.inj hd'
  rw [(after_format hok hdev).devices]
  exact hsectors a ha

end FsHistory

/-! ### Which calls come to an entry -/

namespace PathCall

/-- The path is handed on. -/
theorem op_path (hop : call.op v = some op) :
    SimpleFs.normalizePath op.path = some name ↔ SimpleFs.normalizePath call.path = some name := by
  cases call with
  | vfsOpen path flags =>
    unfold PathCall.op at hop
    dsimp only at hop
    split at hop
    · obtain ⟨copied, hcopy, rfl⟩ := Option.map_eq_some_iff.mp hop
      unfold Vfs.vfsCopyPath at hcopy
      rcases path with _ | path
      · cases hcopy
      · dsimp only at hcopy
        split at hcopy
        · cases hcopy
        · obtain rfl := Option.some.inj hcopy
          show SimpleFs.normalizePath (some (cstr path)) = some name ↔ SimpleFs.normalizePath (some path) = some name
          rw [SimpleFs.normalizePath_iff, SimpleFs.normalizePath_iff, SimpleFs.cstr_cstr]
    · cases hop
  | vfsStat path out =>
    unfold PathCall.op at hop
    dsimp only at hop
    split at hop
    · cases hop
      exact Iff.rfl
    · cases hop
  | _ =>
    cases hop
    exact Iff.rfl

/-- The call of `simplefs.c` looks for its path. -/
theorem Admitted.looks (h : call.Admitted v) (hop : call.op v = some op) : op.Looks := by
  cases call with
  | vfsOpen path flags =>
    unfold PathCall.op at hop
    dsimp only at hop
    rw [if_pos (show v.vfsMounted = true ∧ Vfs.vfsFlagsValid flags = true ∧ v.vfsAllocFd.isSome = true from h)] at hop
    obtain ⟨_, -, rfl⟩ := Option.map_eq_some_iff.mp hop
    trivial
  | vfsStat path out =>
    unfold PathCall.op at hop
    dsimp only at hop
    rw [if_pos (show v.vfsMounted = true ∧ out = true from h)] at hop
    cases hop
    rfl
  | simplefsOpen path flags =>
    cases hop
    trivial
  | simplefsRead path offset buffer count =>
    cases hop
    exact h.imp_right fun hzero => by rw [hzero]; rfl
  | simplefsWrite path offset buffer count =>
    cases hop
    obtain ⟨hbuffer, hzero, hsum⟩ := h
    refine ⟨hbuffer, fun hc => hzero (BitVec.eq_of_toNat_eq hc), ?_⟩
    rw [Nat.mod_eq_of_lt hsum]
    exact Nat.le_add_right _ _
  | simplefsStat path out =>
    cases hop
    exact h

/-- And there is one if the path is accepted. -/
theorem Admitted.exists_op (h : call.Admitted v) (hpath : SimpleFs.normalizePath call.path = some name) :
    ∃ op, call.op v = some op := by
  cases call with
  | vfsOpen path flags =>
    unfold PathCall.op
    dsimp only
    rw [if_pos (show v.vfsMounted = true ∧ Vfs.vfsFlagsValid flags = true ∧ v.vfsAllocFd.isSome = true from h)]
    obtain ⟨path, rfl⟩ : ∃ path', path = some path' := by
      rcases path with _ | path'
      · cases hpath
      · exact ⟨path', rfl⟩
    obtain ⟨hname, hcstr⟩ := SimpleFs.normalizePath_iff.mp hpath
    have hshort : ¬vfsMaxPath ≤ (cstr path).length := by
      have hlength := hname.short
      rw [hcstr, List.length_cons]
      simp only [vfsMaxPath]
      omega
    unfold Vfs.vfsCopyPath
    dsimp only
    rw [if_neg hshort]
    exact ⟨_, rfl⟩
  | vfsStat path out =>
    unfold PathCall.op
    dsimp only
    rw [if_pos (show v.vfsMounted = true ∧ out = true from h)]
    exact ⟨_, rfl⟩
  | _ => exact ⟨_, rfl⟩

end PathCall

/-- An entry in use is come to by the calls that are given its name. -/
theorem Working.comes_iff (hw : Working d v.fs V) (hhas : V.Has i name) (hadm : call.Admitted v) :
    call.Reaches v i ↔ SimpleFs.normalizePath call.path = some name := by
  constructor
  · rintro ⟨op, hop, hreach⟩
    exact (PathCall.op_path hop).mp ((hw.reaches_iff_name (PathCall.Admitted.looks hadm hop) hhas).mp hreach)
  · intro hpath
    obtain ⟨op, hop⟩ := PathCall.Admitted.exists_op hadm hpath
    have hname := (PathCall.op_path hop).mpr hpath
    exact ⟨op, hop, (hw.reaches_iff_name (PathCall.Admitted.looks hadm hop) hhas).mpr hname⟩

/-- And found by the search for its name. -/
theorem Working.finds_iff (hw : Working d s V) (hhas : V.Has i name) (name' : List Byte) :
    (∃ entry s', SimpleFs.findEntry name' s = (.ok (i, entry), s')) ↔ name' = name := by
  constructor
  · rintro ⟨entry, s', hfind⟩
    exact (lookup_lt (findEntry_ok hw.holds hfind).1).2.2.symm.trans hhas.2.2
  · rintro rfl
    obtain ⟨s', hfind, -⟩ := findEntry_works hw.holds hw.faults (hw.consistent.lookup_eq_some.mpr hhas)
    exact ⟨_, s', hfind⟩

/-- An open that succeeds has come to an entry. -/
theorem open_reaches {path : Option CString} {flags : Word} {info : FileInfo}
    (h : (SimpleFs.simplefsOpen path flags v.fs).1 = .ok info) :
    ∃ i, (PathCall.simplefsOpen path flags).Reaches v i := by
  rw [SimpleFs.simplefsOpen_parts] at h
  rcases hrun : SimpleFs.openTarget path flags v.fs with ⟨e | entry, s'⟩
  · rw [bind_error hrun] at h
    cases h
  · refine ⟨entry.index, _, rfl, ?_⟩
    unfold FsOp.Reaches FsOp.target
    dsimp only
    rw [bind_ok hrun]
    rfl

/-- **The names of a file system have no aliases.** `simplefs_normalize_path` accepts a slash and the name of a
file, writes this name and its terminator, and writes nothing behind the 32 bytes of its array, whatever the
path. In every state that error-free calls produce, an open that succeeds has come to an entry; and an entry
that a call has come to has the name of its path, and is found again as long as its device is not formatted: by
the search for this path and no other, and by the calls that are given this path and no others. -/
theorem namespace_without_aliases :
    (∀ (path : CString) (memory : Nat → Byte),
      ((SimpleFs.simplefsNormalizePath (some path) true memory).1 = .ok () ↔
        ∃ name, SimpleFs.FileName name ∧ cstr path = 0x2F :: name) ∧
      (∀ name, SimpleFs.FileName name → cstr path = 0x2F :: name →
        (SimpleFs.simplefsNormalizePath (some path) true memory).2 =
          memcpy memory 0 ((name ++ [0]).getD · 0) (name.length + 1)) ∧
      ∀ k, simplefsNameMax ≤ k → (SimpleFs.simplefsNormalizePath (some path) true memory).2 k = memory k) ∧
    ∀ h : FsHistory, h.Produced →
      (∀ path flags info, (SimpleFs.simplefsOpen path flags h.vfs.fs).1 = .ok info →
        ∃ i, (PathCall.simplefsOpen path flags).Reaches h.vfs i) ∧
      ∀ (call : PathCall) (d i : Nat) (h' : FsHistory), call.Reaches h.vfs i → h.vfs.fs.simplefsDev = some d →
        h.ErrorFree (.path call) → (h.after (.path call)).Since d h' → h'.vfs.fs.simplefsDev = some d →
        ∃ path name, call.path = some path ∧ cstr path = 0x2F :: name ∧ h'.vfs.fs.Names d i name ∧
          (∀ other name, SimpleFs.normalizePath (some other) = some name →
            ((∃ entry s, SimpleFs.findEntry name h'.vfs.fs = (.ok (i, entry), s)) ↔ cstr other = cstr path)) ∧
          ∀ other : PathCall, other.Admitted h'.vfs →
            (other.Reaches h'.vfs i ↔ other.path.map cstr = some (cstr path)) := by
  refine ⟨fun path memory => ?_, fun h hproduced => ⟨fun path flags info => open_reaches, ?_⟩⟩
  · rcases hpath : SimpleFs.normalizePath (some path) with _ | name
    · obtain ⟨memory', hrun, hsame⟩ :
          ∃ memory', SimpleFs.simplefsNormalizePath (some path) true memory = (.error vfsEinval, memory') ∧ _ :=
        SimpleFs.simplefsNormalizePath_error hpath
      have hno : ¬∃ name, SimpleFs.FileName name ∧ cstr path = 0x2F :: name := by
        rintro ⟨name, hname⟩
        rw [SimpleFs.normalizePath_iff.mpr hname] at hpath
        cases hpath
      rw [hrun]
      exact ⟨⟨nofun, fun hname => absurd hname hno⟩, fun name hname hcstr => absurd ⟨name, hname, hcstr⟩ hno, hsame⟩
    · rw [SimpleFs.simplefsNormalizePath_ok hpath]
      have hname := SimpleFs.normalizePath_iff.mp hpath
      refine ⟨⟨fun _ => ⟨name, hname⟩, fun _ => rfl⟩, fun name' _ hcstr => ?_, fun k hk => if_neg ?_⟩
      · obtain rfl : name = name' := (List.cons.inj (hname.2.symm.trans hcstr)).2
        rfl
      · have hshort := hname.1.short
        simp only [simplefsNameMax] at hk
        omega
  · rintro call d i h' ⟨op, hop, hreach⟩ hdev herr hsince hdev'
    have hsound := hproduced.sound
    have hfs : (h.after (.path call)).vfs.fs = op.step h.vfs.fs := by
      have hrun := call.run_fs h.vfs
      rw [hop] at hrun
      exact hrun
    have hrange := herr.sectors
    rw [hfs] at hrange
    obtain ⟨hcontinues, hreaches⟩ := hsound.step op (PathCall.op_counted hop) hrange
    obtain ⟨hd, name, hpath, hnames⟩ := hreaches d i hdev hreach
    rw [← hfs] at hnames
    have hmounted : (h.after (.path call)).vfs.fs.simplefsMounted = true := by
      rw [hfs]
      exact hcontinues.mounted hreach.mounted
    obtain ⟨hsound', hd', hnames', hmounted'⟩ := hsince.names (herr.continues hsound).sound (.inr hd) hnames hmounted
    obtain ⟨d₀, -, V, hw, hroot⟩ := hsound'.mounted hmounted'
    obtain rfl : d₀ = d := Option.some.inj (hw.holds.dev.symm.trans hdev')
    have hhas := (hw.stored hroot).names_iff.mp hnames'
    rw [PathCall.op_path hop] at hpath
    obtain ⟨path, hcall⟩ : ∃ path, call.path = some path := by
      rcases hcall : call.path with _ | path
      · rw [hcall] at hpath
        cases hpath
      · exact ⟨path, rfl⟩
    rw [hcall] at hpath
    refine ⟨path, name, hcall, (SimpleFs.normalizePath_iff.mp hpath).2, hnames', fun other name' hother => ?_,
      fun other hadm => ?_⟩
    · have hiff : SimpleFs.normalizePath (some other) = some name ↔ (some other).map cstr = some (cstr path) :=
        SimpleFs.normalizePath_iff_cstr hpath
      rw [hother, Option.some.injEq, Option.map_some, Option.some.injEq] at hiff
      rw [hw.finds_iff hhas, hiff]
    · rw [hw.comes_iff hhas hadm, SimpleFs.normalizePath_iff_cstr hpath]

namespace FsHistory

/-- A device of 4 KiB is formatted. -/
def formattedAtBoot : FsHistory := FsHistory.after ⟨∅, .atBoot⟩ (.simplefsFormat (some 0))

/-- The device can be formatted. -/
theorem format_atBoot_ok : (FsCall.run (.simplefsFormat (some 0)) .atBoot).1 = .ok () := by decide +kernel

/-- And is attached. -/
theorem formattedAtBoot_attaches : SimpleFs.Attaches 0 Vfs.atBoot.fs formattedAtBoot.vfs.fs :=
  FsHistory.after_format (h := ⟨∅, .atBoot⟩) format_atBoot_ok (by decide)

/-- The state is one that error-free calls produce. -/
theorem formattedAtBoot_produced : formattedAtBoot.Produced :=
  .call _ (.start .atBoot rfl rfl) (.format format_atBoot_ok (by decide) (by decide +kernel))

end FsHistory

/-- A file is created. -/
def creation : PathCall := .simplefsOpen (some [0x2F, 0x61]) vfsOCreat

/-- The new file gets the first entry. -/
theorem creation_reaches : creation.Reaches FsHistory.formattedAtBoot.vfs 0 := by
  refine ⟨.open (some [0x2F, 0x61]) vfsOCreat, rfl, ?_⟩
  unfold FsOp.Reaches
  decide +kernel

/-- Its creation meets no error. -/
theorem creation_errorFree : FsHistory.formattedAtBoot.ErrorFree (.path creation) := by
  refine .path FsHistory.formattedAtBoot_attaches.dev ?_
  rw [FsHistory.formattedAtBoot_attaches.devices]
  decide +kernel

/-- The name of the new file, and who comes to its entry. -/
theorem namespace_without_aliases_small :
    ∃ path name, creation.path = some path ∧ cstr path = 0x2F :: name ∧
      (FsHistory.formattedAtBoot.after (.path creation)).vfs.fs.Names 0 0 name ∧
      (∀ other name, SimpleFs.normalizePath (some other) = some name →
        ((∃ entry s, SimpleFs.findEntry name (FsHistory.formattedAtBoot.after (.path creation)).vfs.fs =
          (.ok (0, entry), s)) ↔ cstr other = cstr path)) ∧
      ∀ other : PathCall, other.Admitted (FsHistory.formattedAtBoot.after (.path creation)).vfs →
        (other.Reaches (FsHistory.formattedAtBoot.after (.path creation)).vfs 0 ↔
          other.path.map cstr = some (cstr path)) :=
  (namespace_without_aliases.2 _ FsHistory.formattedAtBoot_produced).2 creation 0 0 _ creation_reaches
    FsHistory.formattedAtBoot_attaches.dev creation_errorFree .here
    ((FsHistory.formattedAtBoot.after_path creation).dev.trans FsHistory.formattedAtBoot_attaches.dev)

end AgenticOs
