import AgenticOs.Fs.Working
import AgenticOs.Kernel.References
import AgenticOs.Kernel.Runs

/-!
# What a failed `SYS_OPEN` leaves behind

On a device that never fails. `vfs_open` creates or truncates the file before `syscall_open` looks for a
descriptor, and the file stays that way when the process has none: `vfs_close` gives back the entry of the
open table only. Every other failure comes before the file system is changed.

* **Effects** (`NoSideEffects`): the files, the open table and the descriptors of all processes are as before.
* **The file system** (`Volume.Opened.altered`, `Volume.Opened.unaltered`): `simplefs_open` alters files
  exactly if it creates one or truncates one that is not empty (`Volume.Alters`).
* **The call** (`open_clean_or_strands`): a call that fails has no effect, or a file stays behind that the
  process has no descriptor for (`OpenStrands`).
* **Main result** (`failed_open_clean_iff`): a call that returns an error is without effect if and only if it
  strands no file. `failed_open_creates` is a process that holds the ends of all pipes.
-/

namespace AgenticOs

open Function Lib

/-! ### Effects -/

/-- Every read of every file gives the same. -/
def SimpleFs.SameFiles (s s' : SimpleFs) : Prop :=
  ∀ (path : CString) (offset count : Nat),
    (SimpleFs.simplefsRead (some path) offset true count s').1 =
      (SimpleFs.simplefsRead (some path) offset true count s).1

/-- The open file of an entry in use. -/
def Vfs.openFile (v : Vfs) (i : Fin vfsMaxOpenFiles) : Option VfsOpenFile :=
  if (v.vfsOpenFiles i).used then some (v.vfsOpenFiles i) else none

/-- The files, the open table and the descriptors of all processes are as before. -/
structure NoSideEffects (k k' : Kernel) : Prop where
  files : k.vfs.fs.SameFiles k'.vfs.fs
  openFiles : ∀ i, k'.vfs.openFile i = k.vfs.openFile i
  fds : ∀ proc, (k'.procs proc).fds = (k.procs proc).fds

/-- A negative `int`: an error code of a system call. -/
def IsError (result : Word) : Prop := result.msb = true

/-- `simplefs_open` creates the file, or truncates one that is not empty. -/
inductive Volume.Alters (V : Volume) (name : List Byte) (flags : Word) : Prop
  | creates : V.files name = none → test flags vfsOCreat = true → V.freeSlot ≠ none →
      Alters V name flags
  | empties (bytes : List Byte) : V.files name = some bytes → bytes ≠ [] →
      test flags vfsOTrunc = true → Alters V name flags

/-- The process has no descriptor left for a file that `vfs_open` opens, and creates or truncates. -/
def OpenStrands (k : Kernel) (V : Volume) (pathPtr flags callerCs : Word) : Prop :=
  isRing3 callerCs = true ∧
    test flags (~~~(sysORdwr ||| sysOCreat ||| sysOTrunc ||| sysOCloexec)) = false ∧
    ∃ current path copied name, k.processGetCurrent = some current ∧
      k.copyStringFromUser pathPtr vfsMaxPath = some path ∧
      (∀ fd, ((k.procs current).fds fd).kind ≠ .none) ∧
      k.vfs.vfsMounted = true ∧ Vfs.vfsFlagsValid (vfsFlagsOf flags) = true ∧
      Vfs.vfsCopyPath (some path) = some copied ∧ k.vfs.vfsAllocFd ≠ none ∧
      SimpleFs.normalizePath (some copied) = some name ∧ V.Alters name (vfsFlagsOf flags)

/-! ### The file system -/

section

variable {d : Nat} {s s' : SimpleFs} {V V' : Volume} {name : List Byte}

/-- Nothing was written. -/
theorem SimpleFs.SameFiles.refl (s : SimpleFs) : s.SameFiles s := fun _ _ _ => rfl

/-- What a read answers. -/
theorem Working.read_answer (h : Working d s V) (path : CString) (offset count : Nat) :
    (SimpleFs.simplefsRead (some path) offset true count s).1 =
      match SimpleFs.normalizePath (some path) with
      | none => .error vfsEinval
      | some name => match V.files name with
        | none => .error vfsEnoent
        | some bytes => .ok ((bytes.drop offset).take count) := by
  obtain ⟨s', hrun, -⟩ := h.read_run (some path) offset true count
  have hanswer := congrArg Prod.fst hrun
  rw [if_neg fun hc => Bool.false_ne_true hc.1] at hanswer
  exact hanswer

/-- The same files are read. -/
theorem Working.sameFiles (h : Working d s V) (h' : Working d s' V') (hfiles : V'.files = V.files) :
    s.SameFiles s' := fun path offset count => by
  rw [h.read_answer, h'.read_answer, hfiles]

/-- Whole files are read. -/
theorem Working.files_of_sameFiles (h : Working d s V) (h' : Working d s' V') {path : CString}
    (hpath : SimpleFs.normalizePath (some path) = some name) (hsame : s.SameFiles s') :
    V'.files name = V.files name := by
  have hread (offset count : Nat) := hsame path offset count
  simp only [h.read_answer, h'.read_answer, hpath] at hread
  rcases hold : V.files name with _ | bytes <;> rcases hnew : V'.files name with _ | bytes' <;>
    simp only [hold, hnew] at hread
  · rfl
  · exact absurd (hread 0 0) nofun
  · exact absurd (hread 0 0) nofun
  · have hall := Except.ok.inj (hread 0 (max bytes.length bytes'.length))
    rw [List.drop_zero, List.drop_zero, List.take_of_length_le (le_max_right ..),
      List.take_of_length_le (le_max_left ..)] at hall
    rw [hall]

/-- An open that alters the files succeeds, and the file it names is then empty. -/
theorem Volume.Opened.altered {flags : Word} {res : Except Int FileInfo}
    (ho : V.Opened name flags res V') (h : V.Consistent) (hn : ValidName name)
    (ha : V.Alters name flags) : res.isOk = true ∧ V'.files name ≠ V.files name := by
  have hfiles := (ho.next h hn).2
  have hempty (hok : res.isOk = true ∧ (V.lookup name = none ∨ test flags vfsOTrunc = true))
      (hne : V.files name ≠ some []) : V'.files name ≠ V.files name := by
    rw [hfiles, if_pos hok, update_self]
    exact hne.symm
  cases ha with
  | creates hnone hcreat hslot =>
    have hl := Volume.files_eq_none.mp hnone
    have hok : res.isOk = true := by
      cases ho with
      | missing _ hc => exact absurd (hc.symm.trans hcreat) nofun
      | full _ _ hfull => exact absurd hfull hslot
      | created => rfl
      | emptied _ hj => exact absurd (hl.symm.trans hj) nofun
      | found _ hj => exact absurd (hl.symm.trans hj) nofun
    exact ⟨hok, hempty ⟨hok, .inl hl⟩ (by rw [hnone]; exact nofun)⟩
  | empties bytes hsome hne htrunc =>
    have hl : V.lookup name ≠ none := fun hl => by
      rw [Volume.files_eq_none.mpr hl] at hsome
      cases hsome
    have hok : res.isOk = true := by
      cases ho with
      | missing hc => exact absurd hc hl
      | full hc => exact absurd hc hl
      | created | emptied | found => rfl
    refine ⟨hok, hempty ⟨hok, .inr htrunc⟩ ?_⟩
    rw [hsome]
    exact fun hc => hne (Option.some.inj hc)

/-- An open that alters nothing leaves the files alone. -/
theorem Volume.Opened.unaltered {flags : Word} {res : Except Int FileInfo}
    (ho : V.Opened name flags res V') (h : V.Consistent) (hn : ValidName name)
    (ha : ¬V.Alters name flags) : V'.files = V.files := by
  rw [(ho.next h hn).2]
  cases ho with
  | missing | full => exact if_neg fun hc => Bool.false_ne_true hc.1
  | created j hl hcreat hslot =>
    exact absurd (.creates (Volume.files_eq_none.mpr hl) hcreat (by rw [hslot]; exact nofun)) ha
  | emptied j hl htrunc =>
    rw [if_pos ⟨rfl, .inr htrunc⟩]
    have hsome := Volume.files_of_lookup hl
    by_cases hbytes : V.fileBytes (V.entry j) = []
    · rw [hbytes] at hsome
      rw [← hsome, update_eq_self]
    · exact absurd (.empties _ hsome hbytes htrunc) ha
  | found j hl htrunc =>
    refine if_neg ?_
    rintro ⟨-, hc | hc⟩
    · exact absurd (hl.symm.trans hc) nofun
    · exact absurd (htrunc.symm.trans hc) nofun

end

/-! ### The open table -/

namespace Vfs

variable {v : Vfs} {flags : Word}

/-- The checks of `vfs_open` before it calls the file system. -/
def admits (v : Vfs) (path : Option CString) (flags : Word) : Option (CString × Fin vfsMaxOpenFiles) :=
  if v.vfsMounted = true ∧ vfsFlagsValid flags = true then
    match vfsCopyPath path, v.vfsAllocFd with
    | some copied, some fd => some (copied, fd)
    | _, _ => none
  else none

/-- An open is admitted by four tests. -/
theorem admits_eq_some {path : Option CString} {copied : CString} {fd : Fin vfsMaxOpenFiles} :
    v.admits path flags = some (copied, fd) ↔ v.vfsMounted = true ∧ vfsFlagsValid flags = true ∧
      vfsCopyPath path = some copied ∧ v.vfsAllocFd = some fd := by
  unfold admits
  split
  · rename_i hc
    rcases vfsCopyPath path with _ | copied' <;> rcases v.vfsAllocFd with _ | fd' <;> simp [hc]
  · rename_i hc
    exact iff_of_false nofun fun h => hc ⟨h.1, h.2.1⟩

/-- An open that the checks refuse changes nothing. -/
theorem vfsOpen_refused {path : Option CString} (h : v.admits path flags = none) :
    ∃ e, vfsOpen path flags v = (.error e, v) := by
  unfold vfsOpen
  rw [StM.run_get_bind]
  dsimp only
  split
  · exact ⟨_, rfl⟩
  split
  · exact ⟨_, rfl⟩
  rename_i hmounted hflags
  unfold admits at h
  rw [if_pos ⟨by simpa using hmounted, by simpa using hflags⟩] at h
  rcases hcopy : vfsCopyPath path with _ | copied
  · exact ⟨_, rfl⟩
  dsimp only
  rw [StM.run_get_bind]
  rcases halloc : v.vfsAllocFd with _ | fd
  · exact ⟨_, rfl⟩
  · rw [hcopy, halloc] at h
    cases h

/-- The others are those of the file system. -/
theorem vfsOpen_admitted {path : Option CString} {copied : CString} {fd : Fin vfsMaxOpenFiles}
    (h : v.admits path flags = some (copied, fd)) {res : Except Int FileInfo} {fs' : SimpleFs}
    (hrun : SimpleFs.simplefsOpen (some copied) flags v.fs = (res, fs')) :
    vfsOpen path flags v = match res with
      | .error e => (.error e, { v with fs := fs' })
      | .ok _ => (.ok fd, { v with fs := fs' }.setOpenFile fd
          { used := true, refCount := 1, path := copied, flags := flags, offset := 0 }) := by
  obtain ⟨hmounted, hflags, hcopy, halloc⟩ := admits_eq_some.mp h
  unfold vfsOpen
  rw [StM.run_get_bind, if_neg (by rw [hmounted]; exact nofun), if_neg (by rw [hflags]; exact nofun),
    hcopy]
  dsimp only
  rw [StM.run_get_bind, halloc]
  dsimp only
  have hcall : call (SimpleFs.simplefsOpen (some copied) flags) v = (res, { v with fs := fs' }) := by
    unfold call
    rw [hrun]
  rcases res with e | info
  · rw [StM.bind_error hcall]
  · rw [StM.bind_ok hcall, StM.run_modify_bind]
    rfl

/-- The entry of a file just opened. -/
def opened (path : CString) (flags : Word) : VfsOpenFile where
  used := true
  refCount := 1
  path := path
  flags := flags
  offset := 0

/-- `vfs_open` fails and changes nothing that can be seen, or it opens a file. -/
theorem vfsOpen_working {d : Nat} {V : Volume} (hfs : v.vfsMounted = true → Working d v.fs V)
    (path : Option CString) (flags : Word) :
    (∃ e fs', vfsOpen path flags v = (.error e, { v with fs := fs' }) ∧ v.fs.SameFiles fs') ∨
      ∃ copied fd name info fs' V', v.admits path flags = some (copied, fd) ∧
        SimpleFs.normalizePath (some copied) = some name ∧ Working d v.fs V ∧ Working d fs' V' ∧
        V.Opened name flags (.ok info) V' ∧
        vfsOpen path flags v = (.ok fd, { v with fs := fs' }.setOpenFile fd (opened copied flags)) := by
  rcases hadmits : v.admits path flags with _ | ⟨copied, fd⟩
  · obtain ⟨e, hrun⟩ := vfsOpen_refused hadmits
    exact .inl ⟨e, v.fs, hrun, .refl _⟩
  have hw := hfs (admits_eq_some.mp hadmits).1
  rcases hname : SimpleFs.normalizePath (some copied) with _ | name
  · exact .inl ⟨_, v.fs, vfsOpen_admitted hadmits (hw.open_invalid hname flags), .refl _⟩
  obtain ⟨res, fs', V', hrun, hw', ho⟩ := hw.open_run hname flags
  have hvfs := vfsOpen_admitted hadmits hrun
  rcases res with e | info
  · refine .inl ⟨e, fs', hvfs, hw.sameFiles hw' ?_⟩
    rw [(ho.next hw.consistent (normalizePath_valid hname)).2]
    exact if_neg fun hc => Bool.false_ne_true hc.1
  · exact .inr ⟨copied, fd, name, info, fs', V', rfl, hname, hw, hw', ho, hvfs⟩

/-- Opening a file and closing it again frees its entry. -/
theorem openFile_reclosed {fd : Fin vfsMaxOpenFiles} {file : VfsOpenFile} (hused : file.used = true)
    (hone : file.refCount = 1) (i : Fin vfsMaxOpenFiles) :
    (vfsClose (fd.val : Int) (v.setOpenFile fd file)).2.openFile i =
      if i = fd then none else v.openFile i := by
  have hself : (v.setOpenFile fd file).vfsOpenFiles fd = file := update_self ..
  obtain ⟨file', hcount, hused', htable⟩ := vfsClose_file (v := v.setOpenFile fd file) (i := fd)
    (by rw [hself, hused]) (by rw [hself, hone]; exact Nat.one_pos)
  rw [hself, hone] at hcount
  have hclosed : ¬file'.used = true := fun hc => by
    have := hused'.mp hc
    omega
  unfold openFile
  rw [htable]
  by_cases hi : i = fd
  · subst hi
    rw [update_self, if_neg hclosed, if_pos rfl]
  · have hother : (v.setOpenFile fd file).vfsOpenFiles i = v.vfsOpenFiles i := update_of_ne hi ..
    rw [update_of_ne hi, if_neg hi, hother]

/-- **`vfs_close`** leaves the file system alone. -/
theorem fs_vfsClose (fd : Int) (v : Vfs) : (vfsClose fd v).2.fs = v.fs := by
  unfold vfsClose
  rw [StM.run_get_bind]
  rcases v.vfsFdValid fd with _ | i
  · rfl
  · dsimp only
    rw [StM.run_get_bind]
    split <;> rfl

end Vfs

/-! ### The call -/

section

variable {d : Nat} {V : Volume} {k : Kernel} {current : Slot} {pathPtr flags callerCs : Word}

/-- The first free descriptor, if there is one. -/
def Process.freeFd (p : Process) : Option (Fin processMaxFds) :=
  (List.finRange processMaxFds).find? fun fd => (p.fds fd).kind = .none

/-- No descriptor is free. -/
theorem Process.freeFd_eq_none {p : Process} : p.freeFd = none ↔ ∀ fd, (p.fds fd).kind ≠ .none := by
  unfold freeFd
  rw [List.find?_eq_none]
  constructor
  · intro h fd
    simpa using h fd (List.mem_finRange fd)
  · intro h fd _
    simpa using h fd

/-- `process_fd_install` for an entry of the open table. -/
theorem processFdInstall_run (current : Slot) (handle : Fin vfsMaxOpenFiles) {cloexec : Nat}
    (hflags : cloexec ≤ processFdCloexec) (k : Kernel) :
    processFdInstall current (handle.val : Int) cloexec k = match (k.procs current).freeFd with
      | none => (vfsEmfile, k)
      | some fd => ((fd.val : Int), k.setProc current
          (·.setFd fd { kind := .vfs, handle := handle.val, flags := cloexec })) := by
  unfold processFdInstall processFdInstallTyped Process.freeFd
  rw [run_ite, if_neg, run_bind, run_getProc]
  · dsimp only
    rcases (List.finRange processMaxFds).find? fun fd => ((k.procs current).fds fd).kind = .none
      with _ | fd
    · rfl
    · rfl
  · rintro (hc | hc | hc)
    · cases hc
    · omega
    · omega

/-- A descriptor is no error code. -/
theorem not_isError_fd (fd : Fin processMaxFds) : ¬IsError (BitVec.ofInt 32 (fd.val : Int)) := by
  revert fd
  unfold IsError
  decide

/-- The flag of a new descriptor. -/
def openFdFlags (flags : Word) : Nat := if test flags sysOCloexec then processFdCloexec else 0

/-- The call once the arguments are checked and the path is copied. -/
theorem syscallOpen_copied {path : CString} (hring : isRing3 callerCs = true)
    (hflags : test flags (~~~(sysORdwr ||| sysOCreat ||| sysOTrunc ||| sysOCloexec)) = false)
    (hcurrent : k.processGetCurrent = some current)
    (hpath : k.copyStringFromUser pathPtr vfsMaxPath = some path) :
    syscallOpen pathPtr flags callerCs k =
      match Vfs.vfsOpen (some path) (vfsFlagsOf flags) k.vfs with
      | (.error status, v) => (syscallFromVfsStatus status, { k with vfs := v })
      | (.ok handle, v) => match (k.procs current).freeFd with
        | none => (syscallEmfile, { k with vfs := (Vfs.vfsClose (handle.val : Int) v).2 })
        | some fd => (BitVec.ofInt 32 (fd.val : Int), { k with vfs := v }.setProc current
            (·.setFd fd { kind := .vfs, handle := handle.val, flags := openFdFlags flags })) := by
  unfold syscallOpen
  rw [run_ite, if_neg (by rw [hring]; exact nofun), run_ite, if_neg (by rw [hflags]; exact nofun),
    run_bind, run_get, hcurrent]
  dsimp only
  rw [hpath]
  dsimp only
  rw [run_bind]
  unfold callVfs
  rcases Vfs.vfsOpen (some path) (vfsFlagsOf flags) k.vfs with ⟨status | handle, v⟩
  · rfl
  · dsimp only
    have hcloexec : openFdFlags flags ≤ processFdCloexec := by
      unfold openFdFlags
      split <;> decide
    have hinstall := processFdInstall_run current handle hcloexec { k with vfs := v }
    unfold openFdFlags at hinstall
    rw [run_bind]
    rcases hfree : (k.procs current).freeFd with _ | fd <;> simp only [hfree] at hinstall <;>
      rw [hinstall]
    · rfl
    · dsimp only
      rw [run_ite, if_neg (by omega)]
      rfl

/-- The checks before `vfs_open`. -/
theorem syscallOpen_checked (k : Kernel) (pathPtr flags callerCs : Word) :
    (∃ r, syscallOpen pathPtr flags callerCs k = (r, k)) ∨ ∃ current path, isRing3 callerCs = true ∧
      test flags (~~~(sysORdwr ||| sysOCreat ||| sysOTrunc ||| sysOCloexec)) = false ∧
      k.processGetCurrent = some current ∧ k.copyStringFromUser pathPtr vfsMaxPath = some path := by
  unfold syscallOpen
  rw [run_ite, run_ite, run_bind, run_get]
  split
  · exact .inl ⟨_, rfl⟩
  split
  · exact .inl ⟨_, rfl⟩
  rename_i hring hflags
  rcases k.processGetCurrent with _ | current
  · exact .inl ⟨_, rfl⟩
  dsimp only
  rcases k.copyStringFromUser pathPtr vfsMaxPath with _ | path
  · exact .inl ⟨_, rfl⟩
  · exact .inr ⟨current, path, by simpa using hring, by simpa using hflags, rfl, rfl⟩

/-- A call that fails has no effect, or a file stays behind that the process has no descriptor for. -/
theorem open_clean_or_strands (hfs : k.vfs.vfsMounted = true → Working d k.vfs.fs V)
    (herror : IsError (syscallOpen pathPtr flags callerCs k).1) :
    NoSideEffects k (syscallOpen pathPtr flags callerCs k).2 ∨
      OpenStrands k V pathPtr flags callerCs := by
  rcases syscallOpen_checked k pathPtr flags callerCs with ⟨r, hr⟩ |
    ⟨current, path, hring, hflags, hcurrent, hpath⟩
  · rw [hr]
    exact .inl ⟨.refl _, fun _ => rfl, fun _ => rfl⟩
  have hcall := syscallOpen_copied hring hflags hcurrent hpath
  rcases Vfs.vfsOpen_working hfs (some path) (vfsFlagsOf flags) with ⟨e, fs', hrun, hsame⟩ |
    ⟨copied, fd, name, info, fs', V', hadmits, hname, hw, hw', ho, hrun⟩
  · rw [hrun] at hcall
    rw [hcall]
    exact .inl ⟨hsame, fun _ => rfl, fun _ => rfl⟩
  rw [hrun] at hcall
  dsimp only at hcall
  rcases hfree : (k.procs current).freeFd with _ | i
  · rw [hfree] at hcall
    obtain ⟨hmounted, hvalid, hcopy, halloc⟩ := Vfs.admits_eq_some.mp hadmits
    by_cases ha : V.Alters name (vfsFlagsOf flags)
    · exact .inr ⟨hring, hflags, current, path, copied, name, hcurrent, hpath,
        Process.freeFd_eq_none.mp hfree, hmounted, hvalid, hcopy, by rw [halloc]; exact nofun, hname, ha⟩
    · have hfiles := ho.unaltered hw.consistent (normalizePath_valid hname) ha
      have hunused : (k.vfs.vfsOpenFiles fd).used = false := by simpa using List.find?_some halloc
      rw [hcall]
      refine .inl ⟨?_, fun j => ?_, fun _ => rfl⟩
      · show k.vfs.fs.SameFiles (Vfs.vfsClose _ _).2.fs
        rw [Vfs.fs_vfsClose]
        exact hw.sameFiles hw' hfiles
      · show (Vfs.vfsClose _ _).2.openFile j = _
        rw [Vfs.openFile_reclosed rfl rfl]
        split
        · rename_i hj
          unfold Vfs.openFile
          rw [hj, hunused]
          rfl
        · rfl
  · rw [hfree] at hcall
    rw [hcall] at herror
    exact absurd herror (not_isError_fd i)

/-- The file stays behind. -/
theorem OpenStrands.not_clean (hfs : k.vfs.vfsMounted = true → Working d k.vfs.fs V)
    (h : OpenStrands k V pathPtr flags callerCs) :
    IsError (syscallOpen pathPtr flags callerCs k).1 ∧
      ¬NoSideEffects k (syscallOpen pathPtr flags callerCs k).2 := by
  obtain ⟨hring, hflags, current, path, copied, name, hcurrent, hpath, hfull, hmounted, hvalid, hcopy,
    halloc, hname, ha⟩ := h
  obtain ⟨fd, hfd⟩ := Option.ne_none_iff_exists'.mp halloc
  have hadmits := Vfs.admits_eq_some.mpr ⟨hmounted, hvalid, hcopy, hfd⟩
  have hw := hfs hmounted
  obtain ⟨res, fs', V', hopen, hw', ho⟩ := hw.open_run hname (vfsFlagsOf flags)
  obtain ⟨hok, hne⟩ := ho.altered hw.consistent (normalizePath_valid hname) ha
  have hrun := Vfs.vfsOpen_admitted hadmits hopen
  have hcall := syscallOpen_copied hring hflags hcurrent hpath
  rcases res with e | info
  · cases hok
  rw [hrun] at hcall
  dsimp only at hcall
  rw [Process.freeFd_eq_none.mpr hfull] at hcall
  dsimp only at hcall
  rw [hcall]
  refine ⟨(by decide : syscallEmfile.msb = true), fun hclean => hne ?_⟩
  have hfiles := hclean.files
  dsimp only at hfiles
  rw [Vfs.fs_vfsClose] at hfiles
  exact hw.files_of_sameFiles hw' hname hfiles

/-- **A failed open.** On a device that never fails, a `SYS_OPEN` that returns an error leaves the files,
the open table and the descriptors as they were if and only if it does not create a file, or truncate
one that is not empty, for a process whose descriptors are all in use. -/
theorem failed_open_clean_iff (d : Nat) (V : Volume) (k : Kernel) (pathPtr flags callerCs : Word)
    (hfs : k.vfs.vfsMounted = true → Working d k.vfs.fs V) :
    (IsError (syscallOpen pathPtr flags callerCs k).1 →
        NoSideEffects k (syscallOpen pathPtr flags callerCs k).2) ↔
      ¬OpenStrands k V pathPtr flags callerCs :=
  ⟨fun hclean hstrands => (hstrands.not_clean hfs).2 (hclean (hstrands.not_clean hfs).1),
    fun hstrands herror => (open_clean_or_strands hfs herror).resolve_right hstrands⟩

end

/-! ### A process with the ends of all pipes -/

/-- A page of paths `"/a"` for the first process. -/
def Memory.withPath : Memory :=
  { Memory.bare with
    ram := fun f _ => if f = 768 then 0x301007 else if f = 769 then 0x302007 else 0x612F }

/-- The descriptors of the first process are the two ends of eight pipes; a file system is mounted. -/
def Kernel.outOfDescriptors (fs : SimpleFs) : Kernel :=
  let k := Kernel.solo.setProc 0 fun p =>
    { p with fds := fun i =>
        { kind := if i.val % 2 = 0 then .pipeRead else .pipeWrite
          handle := pipeHandleBase + i.val
          flags := 0 } }
  { k.withMem Memory.withPath with
    vfs := { k.vfs with fs := fs, vfsMounted := true }
    pipes := fun _ => { Pipe.zero with used := true, readers := 1, writers := 1 } }

/-- What is copied from the user depends on the processes and on memory. -/
theorem Kernel.copyStringFromUser_congr {k k' : Kernel} (hprocs : k'.procs = k.procs)
    (hmem : k'.mem = k.mem) (source : Word) (n : Nat) :
    k'.copyStringFromUser source n = k.copyStringFromUser source n := by
  have hbyte (source : Word) : k'.copyByteFromUser source = k.copyByteFromUser source := by
    unfold copyByteFromUser copyFromUser uaccessReadable activeProcessDirectory processGetCurrent
      loadBytes loadByte
    rw [hprocs, hmem]
  induction n generalizing source with
  | zero => rfl
  | succ n ih =>
    unfold copyStringFromUser
    rw [hbyte, ih]

/-- The file is left behind on an empty disk. -/
theorem outOfDescriptors_strands {fs : SimpleFs} {V : Volume}
    (hempty : V.files = fun _ => none) (hcount : V.fileCount = 0) :
    OpenStrands (.outOfDescriptors fs) V 0x40000000 (sysOCreat ||| vfsOWronly) 0x1B := by
  refine ⟨by decide, by decide, 0, [0x2F, 0x61], [0x2F, 0x61], [0x61], rfl, ?_, fun i => ?_, rfl,
    by decide, by decide, ?_, by decide, .creates (by rw [hempty]) (by decide) fun hc => ?_⟩
  · refine (Kernel.copyStringFromUser_congr (k := .outOfDescriptors (.atBoot
      (fun _ => ⟨0, 0, false, false⟩) fun _ _ => zeroSector)) ?_ ?_ _ _).trans (by decide)
    · rfl
    · rfl
  · show (if i.val % 2 = 0 then FdKind.pipeRead else FdKind.pipeWrite) ≠ .none
    split <;> decide
  · rw [show (Kernel.outOfDescriptors fs).vfs.vfsAllocFd = some 0 from rfl]
    exact nofun
  · have := Volume.freeSlot_eq_none_iff.mp hc
    rw [hcount] at this
    cases this

/-- There is such a disk. -/
theorem outOfDescriptors_working : ∃ fs V, Working 0 fs V ∧
    OpenStrands (.outOfDescriptors fs) V 0x40000000 (sysOCreat ||| vfsOWronly) 0x1B := by
  obtain ⟨fs, V, -, hw, -, hempty, hcount⟩ := Working.format
    (s := .atBoot (fun _ => ⟨8, 512, true, true⟩) fun _ _ => zeroSector) (d := 0) rfl (by decide)
  exact ⟨fs, V, hw, outOfDescriptors_strands hempty hcount⟩

/-- The open fails and the file is there. -/
theorem failed_open_clean_iff_descriptors : ∃ fs V,
    (IsError (syscallOpen 0x40000000 (sysOCreat ||| vfsOWronly) 0x1B (.outOfDescriptors fs)).1 →
        NoSideEffects (.outOfDescriptors fs)
          (syscallOpen 0x40000000 (sysOCreat ||| vfsOWronly) 0x1B (.outOfDescriptors fs)).2) ↔
      ¬OpenStrands (.outOfDescriptors fs) V 0x40000000 (sysOCreat ||| vfsOWronly) 0x1B := by
  obtain ⟨fs, V, hw, -⟩ := outOfDescriptors_working
  exact ⟨fs, V, failed_open_clean_iff 0 V (.outOfDescriptors fs) 0x40000000
    (sysOCreat ||| vfsOWronly) 0x1B fun _ => hw⟩

/-- `"/a"` is created for a process with no descriptor left, and the call fails. -/
theorem failed_open_creates : ¬∀ (d : Nat) (V : Volume) (k : Kernel) (pathPtr flags callerCs : Word),
    (k.vfs.vfsMounted = true → Working d k.vfs.fs V) →
    IsError (syscallOpen pathPtr flags callerCs k).1 →
      NoSideEffects k (syscallOpen pathPtr flags callerCs k).2 := by
  intro h
  obtain ⟨fs, V, hw, hstrands⟩ := outOfDescriptors_working
  obtain ⟨herror, hdirty⟩ := hstrands.not_clean fun _ => hw
  exact hdirty (h 0 V _ _ _ _ (fun _ => hw) herror)

end AgenticOs
