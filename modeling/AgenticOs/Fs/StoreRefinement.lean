import AgenticOs.Fs.FileStore
import AgenticOs.Fs.Remount

/-!
# `vfs.c` over `simplefs.c` is a store of files

On a device that works.

* **Relation** (`Refines d v S`): the files of the volume on the device are those of the store, and every
  entry of the open table says what the store says of the descriptor.
* **Calls** (`Refines.open`, `Refines.read`, `Refines.write`, `Refines.close`, `Refines.retain`,
  `Refines.stat`): each keeps the relation and answers as the store does (`Refines.step`). What is left open
  by the store is only whether a file has room to grow, which depends on how the sectors are used.
* **Runs** (`Refines.answers`): calls one after another answer as the store does.
* **Main result** (`file_store_refined`): once a device that works has been formatted and mounted, every
  bounded list of calls is answered as by the store that starts without files.

`Volume.Consistent` gives what is known of the files; no proof here looks at sectors.
-/

namespace AgenticOs

open Function Lib

variable {d : Nat} {v v' : Vfs} {S S' : FileStore} {V V' : Volume} {s : SimpleFs} {name : List Byte}

/-- The largest size of a file: all sectors that the bitmap tracks. -/
abbrev maxFileBytes : Nat := 2 ^ 21

/-- An entry of the open table and what it stands for. -/
inductive Describes (f : VfsOpenFile) : Option OpenDescription → Prop
  | unused : f.used = false → Describes f none
  | opened {D : OpenDescription} : f.used = true → SimpleFs.normalizePath (some f.path) = some D.name →
      f.flags = D.flags → f.offset = D.offset → f.refCount = D.refCount → Describes f (some D)

/-- The open table and the device hold the store. -/
structure Refines (d : Nat) (v : Vfs) (S : FileStore) : Prop where
  mounted : v.vfsMounted = true
  volume : ∃ V, Working d v.fs V ∧ V.files = S.files
  describes : ∀ i, Describes (v.vfsOpenFiles i) (S.descriptions i)
  named : ∀ i D, S.descriptions i = some D → S.files D.name ≠ none ∧ D.offset ≤ maxFileBytes

/-! ### Files -/

/-- Files are not longer than all sectors. -/
theorem Working.length_le (h : Working d s V) {bytes : List Byte} (hfile : V.files name = some bytes) :
    bytes.length ≤ maxFileBytes := by
  obtain ⟨j, hl, rfl⟩ := Option.map_eq_some_iff.mp hfile
  obtain ⟨hj, hlive, -⟩ := Volume.lookup_lt hl
  have hsize := h.consistent.size j hj hlive
  rw [Volume.length_fileBytes]
  rcases h.consistent.toAgrees.size_bound h.consistent.size h.total_le hj hlive with ⟨-, hz⟩ | hb
  · omega
  · simp only [sectorSize, simplefsMaxTrackedSectors, maxFileBytes] at hb hsize ⊢
    omega

/-- The entries in use are the files. -/
theorem Volume.Consistent.fileCount_eq (h : V.Consistent) :
    V.fileCount = {name | V.files name ≠ none}.ncard := by
  have himage : {name | V.files name ≠ none} = (fun i => (V.entry i).nameBytes) ''
      ((Finset.range simplefsMaxFiles).filter fun i => (V.entry i).used ≠ 0 : Finset Nat) := by
    ext name
    constructor
    · intro hfile
      obtain ⟨j, hl⟩ := Option.ne_none_iff_exists'.mp fun hl => hfile (Volume.files_eq_none.mpr hl)
      obtain ⟨hj, hlive, hname⟩ := Volume.lookup_lt hl
      exact ⟨j, Finset.mem_coe.mpr (Finset.mem_filter.mpr ⟨Finset.mem_range.mpr hj, hlive⟩), hname⟩
    · rintro ⟨j, hj, rfl⟩ hnone
      obtain ⟨hj, hlive⟩ := Finset.mem_filter.mp (Finset.mem_coe.mp hj)
      exact Volume.lookup_none (Volume.files_eq_none.mp hnone) (Finset.mem_range.mp hj) hlive rfl
  rw [himage, Set.InjOn.ncard_image, Set.ncard_coe_finset]
  · rfl
  · intro i hi j hj heq
    obtain ⟨hi, hlive⟩ := Finset.mem_filter.mp (Finset.mem_coe.mp hi)
    obtain ⟨hj, hlive'⟩ := Finset.mem_filter.mp (Finset.mem_coe.mp hj)
    exact h.unique i (Finset.mem_range.mp hi) j (Finset.mem_range.mp hj) hlive hlive' heq

/-- The directory is full when there are 32 files. -/
theorem Volume.Consistent.freeSlot_iff (h : V.Consistent) (hfiles : V.files = S.files) :
    V.freeSlot = none ↔ simplefsMaxFiles ≤ S.fileCount := by
  have hcount : V.fileCount = S.fileCount := by
    rw [h.fileCount_eq, hfiles]
    rfl
  have hle : V.fileCount ≤ simplefsMaxFiles :=
    (Finset.card_filter_le ..).trans (Finset.card_range simplefsMaxFiles).le
  rw [Volume.freeSlot_eq_none_iff, ← hcount]
  exact ⟨Eq.ge, hle.antisymm⟩

/-- The contents after a store. -/
theorem FileStore.store_files (S : FileStore) (name bytes name' : List Byte) :
    (S.store name bytes).files name' = if name' = name then some bytes else S.files name' :=
  update_apply ..

/-- Files do not go away. -/
theorem FileStore.store_ne_none {bytes name' : List Byte} (hfile : S.files name' ≠ none) :
    (S.store name bytes).files name' ≠ none := by
  rw [store_files]
  split
  · exact nofun
  · exact hfile

/-- An open answers as the store does. -/
theorem Volume.Opened.openFile {flags : Word} {res : Except Int FileInfo} (ho : V.Opened name flags res V')
    (h : V.Consistent) (hn : ValidName name) (hfiles : V.files = S.files) :
    (∃ e, res = .error e ∧ S.openFile name flags = .error e ∧ V'.files = S.files) ∨
      ∃ info S', res = .ok info ∧ S.openFile name flags = .ok S' ∧ V'.files = S'.files ∧
        (S' = S ∨ S' = S.store name []) ∧ S'.files name ≠ none := by
  have hnext := (ho.next h hn).2
  have hnew : (S.store name []).files name ≠ none := by
    rw [FileStore.store_files, if_pos rfl]
    exact nofun
  unfold FileStore.openFile
  rw [hfiles] at hnext
  cases ho with
  | missing hl hcreat =>
    rw [← hfiles, Volume.files_eq_none.mpr hl]
    exact .inl ⟨_, rfl, if_pos hcreat, rfl⟩
  | full hl hcreat hfull =>
    rw [← hfiles, Volume.files_eq_none.mpr hl]
    dsimp only
    rw [if_neg (by rw [hcreat]; exact nofun), if_pos ((h.freeSlot_iff hfiles).mp hfull)]
    exact .inl ⟨_, rfl, rfl, rfl⟩
  | created j hl hcreat hslot =>
    have hroom : ¬simplefsMaxFiles ≤ S.fileCount := fun hc => by
      rw [(h.freeSlot_iff hfiles).mpr hc] at hslot
      cases hslot
    rw [if_pos ⟨rfl, .inl hl⟩] at hnext
    rw [← hfiles, Volume.files_eq_none.mpr hl]
    dsimp only
    rw [if_neg (by rw [hcreat]; exact nofun), if_neg hroom]
    exact .inr ⟨_, _, rfl, rfl, hnext, .inr rfl, hnew⟩
  | emptied j hl htrunc =>
    rw [if_pos ⟨rfl, .inr htrunc⟩] at hnext
    rw [← hfiles, Volume.files_of_lookup hl]
    dsimp only
    rw [if_pos htrunc]
    exact .inr ⟨_, _, rfl, rfl, hnext, .inr rfl, hnew⟩
  | found j hl htrunc =>
    have hfile := Volume.files_of_lookup hl
    rw [hfiles] at hfile
    rw [hfile]
    dsimp only
    rw [if_neg (by rw [htrunc]; exact nofun)]
    exact .inr ⟨_, _, rfl, rfl, hfiles, .inl rfl, by rw [hfile]; exact nofun⟩

/-! ### The open table -/

/-- A descriptor is valid for both or for neither. -/
theorem Refines.fd_cases (h : Refines d v S) (fd : Int) :
    v.vfsFdValid fd = none ∧ S.description fd = none ∨
      ∃ i D, v.vfsFdValid fd = some i ∧ S.description fd = some (i, D) ∧ S.descriptions i = some D ∧
        Describes (v.vfsOpenFiles i) (some D) := by
  unfold Vfs.vfsFdValid FileStore.description
  by_cases hrange : 0 ≤ fd ∧ fd.toNat < vfsMaxOpenFiles
  · rw [dif_pos hrange, dif_pos hrange]
    have hd := h.describes ⟨fd.toNat, hrange.2⟩
    rcases hD : S.descriptions ⟨fd.toNat, hrange.2⟩ with _ | D
    · rw [hD] at hd
      cases hd with
      | unused hunused => exact .inl ⟨if_neg (by rw [hunused]; exact nofun), rfl⟩
    · rw [hD] at hd
      refine .inr ⟨_, D, if_pos ?_, rfl, hD, hd⟩
      cases hd with
      | opened hused => exact hused
  · rw [dif_neg hrange, dif_neg hrange]
    exact .inl ⟨rfl, rfl⟩

/-- Both hand out the same descriptor. -/
theorem Refines.allocFd (h : Refines d v S) : v.vfsAllocFd = S.freeDescriptor := by
  refine List.find?_congr fun i _ => ?_
  have hd := h.describes i
  generalize S.descriptions i = D at hd
  cases hd with
  | unused hunused => rw [hunused]; rfl
  | opened hused => rw [hused]; rfl

/-- The file system has changed, and no file. -/
theorem Refines.sameFiles (h : Refines d v S) {fs : SimpleFs} (hw : Working d fs V) (hfiles : V.files = S.files) :
    Refines d { v with fs := fs } S :=
  ⟨h.mounted, ⟨V, hw, hfiles⟩, h.describes, h.named⟩

/-- An entry has changed, and perhaps a file. -/
theorem Refines.setOpenFile (h : Refines d v S) {fs : SimpleFs} (hw : Working d fs V) (hfiles : V.files = S'.files)
    (hsame : S'.descriptions = S.descriptions) (hkept : ∀ name, S.files name ≠ none → S'.files name ≠ none)
    (i : Fin vfsMaxOpenFiles) {f : VfsOpenFile} {D : Option OpenDescription} (hf : Describes f D)
    (hnamed : ∀ D', D = some D' → S'.files D'.name ≠ none ∧ D'.offset ≤ maxFileBytes) :
    Refines d (Vfs.setOpenFile { v with fs := fs } i f) (S'.describe i D) := by
  refine ⟨h.mounted, ⟨V, hw, hfiles⟩, fun j => ?_, fun j D' hD' => ?_⟩
  · show Describes (update v.vfsOpenFiles i f j) (update S'.descriptions i D j)
    by_cases hj : j = i
    · rw [hj, update_self, update_self]
      exact hf
    · rw [update_of_ne hj, update_of_ne hj, hsame]
      exact h.describes j
  · change update S'.descriptions i D j = some D' at hD'
    by_cases hj : j = i
    · rw [hj, update_self] at hD'
      exact hnamed D' hD'
    · rw [update_of_ne hj, hsame] at hD'
      obtain ⟨hfile, hoffset⟩ := h.named j D' hD'
      exact ⟨hkept _ hfile, hoffset⟩

/-! ### The calls -/

/-- A call answers as the store does, and keeps the relation. -/
def Simulates (d : Nat) (v : Vfs) (S : FileStore) (full : Bool) (call : VfsCall) : Prop :=
  (call.run v).1 = (S.step full call).1 ∧ Refines d (call.run v).2 (S.step full call).2

/-- A call answers what its body answers. -/
theorem run_answer {α : Type} {x : VfsM α} {r : Except Int α} (hrun : x v = (r, v')) (f : α → VfsAnswer) :
    (do
      let a ← x
      return f a : VfsM VfsAnswer) v = (r.map f, v') := by
  rcases r with e | a
  · exact StM.bind_error hrun
  · exact StM.bind_ok hrun

/-- The file table leaves the open table to its callers. -/
theorem call_run {α : Type} {x : FsM α} {r : Except Int α} {fs : SimpleFs} (h : x v.fs = (r, fs)) :
    Vfs.call x v = (r, { v with fs := fs }) := by
  unfold Vfs.call
  rw [h]

/-- **`vfs_retain`** -/
theorem Refines.retain (h : Refines d v S) (full : Bool) (fd : Int) : Simulates d v S full (.retain fd) := by
  unfold Simulates VfsCall.run FileStore.step
  dsimp only
  rcases h.fd_cases fd with ⟨hnone, hnone'⟩ | ⟨i, D, hsome, hsome', hD, hdescribes⟩
  · have hrun : Vfs.vfsRetain fd v = (.error vfsEbadf, v) := by
      unfold Vfs.vfsRetain
      rw [StM.run_get_bind, hnone]
      rfl
    rw [run_answer hrun, hnone']
    exact ⟨rfl, h⟩
  obtain ⟨V, hw, hfiles⟩ := h.volume
  rw [hsome']
  dsimp only
  cases hdescribes with
  | opened hused hname hflags hoffset hcount =>
    by_cases hmax : D.refCount = uint32Max
    · have hrun : Vfs.vfsRetain fd v = (.error vfsEbadf, v) := by
        unfold Vfs.vfsRetain
        rw [StM.run_get_bind, hsome]
        dsimp only
        rw [StM.run_get_bind, if_pos (hcount.trans hmax)]
        rfl
      rw [run_answer hrun, if_pos hmax]
      exact ⟨rfl, h⟩
    · have hrun : Vfs.vfsRetain fd v = (.ok (), v.setOpenFile i
          { v.vfsOpenFiles i with refCount := (v.vfsOpenFiles i).refCount + 1 }) := by
        unfold Vfs.vfsRetain
        rw [StM.run_get_bind, hsome]
        dsimp only
        rw [StM.run_get_bind, if_neg (by rw [hcount]; exact hmax)]
        rfl
      rw [run_answer hrun, if_neg hmax]
      refine ⟨rfl, h.setOpenFile hw hfiles rfl (fun _ => id) i
        (.opened hused hname hflags hoffset (by dsimp only; rw [hcount])) ?_⟩
      rintro D' hD'
      cases hD'
      exact h.named i D hD

/-- **`vfs_close`** -/
theorem Refines.close (h : Refines d v S) (full : Bool) (fd : Int) : Simulates d v S full (.close fd) := by
  unfold Simulates VfsCall.run FileStore.step
  dsimp only
  rcases h.fd_cases fd with ⟨hnone, hnone'⟩ | ⟨i, D, hsome, hsome', hD, hdescribes⟩
  · have hrun : Vfs.vfsClose fd v = (.error vfsEbadf, v) := by
      unfold Vfs.vfsClose
      rw [StM.run_get_bind, hnone]
      rfl
    rw [run_answer hrun, hnone']
    exact ⟨rfl, h⟩
  obtain ⟨V, hw, hfiles⟩ := h.volume
  rw [hsome']
  dsimp only
  cases hdescribes with
  | opened hused hname hflags hoffset hcount =>
    by_cases hshared : 1 < D.refCount
    · have hrun : Vfs.vfsClose fd v = (.ok (), v.setOpenFile i
          { v.vfsOpenFiles i with refCount := (v.vfsOpenFiles i).refCount - 1 }) := by
        unfold Vfs.vfsClose
        rw [StM.run_get_bind, hsome]
        dsimp only
        rw [StM.run_get_bind, if_pos (hcount ▸ hshared)]
        rfl
      rw [run_answer hrun, if_pos hshared]
      refine ⟨rfl, h.setOpenFile hw hfiles rfl (fun _ => id) i
        (.opened hused hname hflags hoffset (by dsimp only; rw [hcount])) ?_⟩
      rintro D' hD'
      cases hD'
      exact h.named i D hD
    · have hrun : Vfs.vfsClose fd v = (.ok (), v.setOpenFile i VfsOpenFile.zero) := by
        unfold Vfs.vfsClose
        rw [StM.run_get_bind, hsome]
        dsimp only
        rw [StM.run_get_bind, if_neg (hcount ▸ hshared)]
        rfl
      rw [run_answer hrun, if_neg hshared]
      exact ⟨rfl, h.setOpenFile hw hfiles rfl (fun _ => id) i (.unused rfl) nofun⟩

/-- **`vfs_stat`** -/
theorem Refines.stat (h : Refines d v S) (full : Bool) (path : Option CString) (out : Bool) :
    Simulates d v S full (.stat path out) := by
  unfold Simulates VfsCall.run FileStore.step
  dsimp only
  obtain ⟨V, hw, hfiles⟩ := h.volume
  have hmounted : ¬(!v.vfsMounted) = true := by rw [h.mounted]; exact nofun
  rcases out with _ | _
  · have hrun : Vfs.vfsStat path false v = (.error vfsEinval, v) := by
      unfold Vfs.vfsStat
      rw [StM.run_get_bind, if_neg hmounted]
      rfl
    rw [run_answer hrun]
    exact ⟨rfl, h⟩
  obtain ⟨fs, hstat, hw'⟩ := hw.stat_run path true
  rw [if_neg (by decide)] at hstat
  have hrun : Vfs.vfsStat path true v = ((SimpleFs.simplefsStat path true v.fs).1, { v with fs := fs }) := by
    unfold Vfs.vfsStat
    rw [StM.run_get_bind, if_neg hmounted, if_neg (by decide)]
    have hfs : (SimpleFs.simplefsStat path true v.fs).2 = fs := by rw [hstat]
    exact call_run (Prod.ext rfl hfs)
  rw [run_answer hrun, hstat, if_neg (by decide)]
  dsimp only
  rcases SimpleFs.normalizePath path with _ | name
  · exact ⟨rfl, h.sameFiles hw' hfiles⟩
  dsimp only
  rw [← hfiles]
  rcases hl : V.lookup name with _ | j
  · rw [Volume.files_eq_none.mpr hl]
    exact ⟨rfl, h.sameFiles hw' hfiles⟩
  · rw [Volume.files_of_lookup hl]
    dsimp only
    rw [Volume.length_fileBytes]
    exact ⟨rfl, h.sameFiles hw' hfiles⟩

/-- The file of a description. -/
theorem Refines.content (h : Refines d v S) (hfiles : V.files = S.files) {i : Fin vfsMaxOpenFiles}
    {D : OpenDescription} (hD : S.descriptions i = some D) : V.files D.name = some (S.content D.name) := by
  obtain ⟨bytes, hfile⟩ := Option.ne_none_iff_exists'.mp (h.named i D hD).1
  unfold FileStore.content
  rw [hfiles, hfile, Option.getD_some]

/-- Reads that begin in a file end in it. -/
theorem offset_le {bytes : List Byte} {offset : Nat} (count : Nat) (hoffset : offset ≤ maxFileBytes)
    (hbytes : bytes.length ≤ maxFileBytes) :
    offset + ((bytes.drop offset).take count).length ≤ maxFileBytes := by
  rw [List.length_take, List.length_drop]
  omega

/-- **`vfs_read`** -/
theorem Refines.read (h : Refines d v S) (full : Bool) (fd : Int) (buffer : Bool) (count : Nat) :
    Simulates d v S full (.read fd buffer count) := by
  unfold Simulates VfsCall.run FileStore.step
  dsimp only
  rcases h.fd_cases fd with ⟨hnone, hnone'⟩ | ⟨i, D, hsome, hsome', hD, hdescribes⟩
  · have hrun : Vfs.vfsRead fd buffer count v = (.error vfsEbadf, v) := by
      unfold Vfs.vfsRead
      rw [StM.run_get_bind, hnone]
      rfl
    rw [run_answer hrun, hnone']
    exact ⟨rfl, h⟩
  obtain ⟨V, hw, hfiles⟩ := h.volume
  obtain ⟨hfile, hoffsetLe⟩ := h.named i D hD
  rw [hsome']
  dsimp only
  cases hdescribes with
  | opened hused hname hflags hoffset hcount =>
    by_cases hbuffer : !buffer ∧ 0 < count
    · have hrun : Vfs.vfsRead fd buffer count v = (.error vfsEinval, v) := by
        unfold Vfs.vfsRead
        rw [StM.run_get_bind, hsome]
        dsimp only
        rw [if_pos hbuffer]
        rfl
      rw [run_answer hrun, if_pos hbuffer]
      exact ⟨rfl, h⟩
    by_cases hreads : test D.flags vfsORdonly = false
    · have hrun : Vfs.vfsRead fd buffer count v = (.error vfsEbadf, v) := by
        unfold Vfs.vfsRead
        rw [StM.run_get_bind, hsome]
        dsimp only
        rw [if_neg hbuffer, StM.run_get_bind, hflags, hreads]
        rfl
      rw [run_answer hrun, if_neg hbuffer, if_pos hreads]
      exact ⟨rfl, h⟩
    have hcontent := h.content hfiles hD
    have hlength := offset_le count hoffsetLe (hw.length_le hcontent)
    obtain ⟨fs, hread, hw'⟩ := hw.read_run (some (v.vfsOpenFiles i).path) (v.vfsOpenFiles i).offset buffer count
    rw [if_neg hbuffer, hname] at hread
    dsimp only at hread
    rw [hcontent, hoffset] at hread
    dsimp only at hread
    generalize ((S.content D.name).drop D.offset).take count = bytes at hread hlength ⊢
    have hrun : Vfs.vfsRead fd buffer count v =
        (.ok bytes, Vfs.setOpenFile { v with fs := fs } i
          { v.vfsOpenFiles i with offset := ((v.vfsOpenFiles i).offset + bytes.length) % wordSize }) := by
      have hcall := call_run hread
      rw [← hoffset] at hcall
      unfold Vfs.vfsRead
      rw [StM.run_get_bind, hsome]
      dsimp only
      rw [if_neg hbuffer, StM.run_get_bind, if_neg (by rw [hflags]; simpa using hreads), StM.bind_ok hcall]
      rfl
    rw [run_answer hrun, if_neg hbuffer, if_neg hreads]
    refine ⟨rfl, h.setOpenFile hw' hfiles rfl (fun _ => id) i (.opened hused hname hflags ?_ hcount) ?_⟩
    · dsimp only
      rw [hoffset, Nat.mod_eq_of_lt]
      exact Nat.lt_of_le_of_lt hlength (by decide)
    · rintro D' hD'
      cases hD'
      exact ⟨hfile, hlength⟩

/-- A write within the file finds room. -/
theorem Volume.Wrote.longer {offset count : Nat} {input : Nat → Byte} (h : Working d s V)
    (hw : V.Wrote name offset input count (.error vfsEnospc) V') {bytes : List Byte}
    (hfile : V.files name = some bytes) : bytes.length < offset + count := by
  have hmax := h.length_le hfile
  cases hw with
  | full j hl hgrows =>
    obtain ⟨hj, hlive, -⟩ := Volume.lookup_lt hl
    have hsize := h.consistent.size j hj hlive
    obtain rfl := Option.some.inj ((Volume.files_of_lookup hl).symm.trans hfile)
    rw [Volume.length_fileBytes] at hmax ⊢
    unfold Volume.required Volume.grownSize SimpleFs.sectorsForBytes at hgrows
    by_contra hle
    rw [Nat.max_eq_left (Nat.not_lt.mp hle)] at hgrows
    split at hgrows
    · omega
    · simp only [sectorSize, wordSize, maxFileBytes] at hgrows hsize hmax
      omega

/-- A write through a good descriptor is a write to the file behind it. -/
theorem vfsWrite_call {fd : Int} {i : Fin vfsMaxOpenFiles} {buffer : Option (Nat → Byte)} {count : Nat}
    (hfd : v.vfsFdValid fd = some i) (hbuffer : ¬(buffer.isNone ∧ 0 < count))
    (hwrites : ¬(!test (v.vfsOpenFiles i).flags vfsOWronly) = true) :
    Vfs.vfsWrite fd buffer count v = (do
      let written ← Vfs.call (SimpleFs.simplefsWrite (some (v.vfsOpenFiles i).path) (v.vfsOpenFiles i).offset
        buffer count)
      if wordSize / 2 ≤ written then StM.fail ((written : Int) - wordSize)
      StM.modify (Vfs.advance i written)
      return written : VfsM Nat) v := by
  unfold Vfs.vfsWrite
  rw [StM.run_get_bind, hfd]
  dsimp only
  rw [if_neg hbuffer, StM.run_get_bind, if_neg hwrites]

/-- **`vfs_write`** The store learns from the answer whether the device was full. -/
theorem Refines.write (h : Refines d v S) (fd : Int) (buffer : Option (Nat → Byte)) {count : Nat}
    (hbound : count ≤ 2 ^ 31) : ∃ full, Simulates d v S full (.write fd buffer count) := by
  unfold Simulates VfsCall.run FileStore.step
  dsimp only
  rcases h.fd_cases fd with ⟨hnone, hnone'⟩ | ⟨i, D, hsome, hsome', hD, hdescribes⟩
  · have hrun : Vfs.vfsWrite fd buffer count v = (.error vfsEbadf, v) := by
      unfold Vfs.vfsWrite
      rw [StM.run_get_bind, hnone]
      rfl
    rw [run_answer hrun, hnone']
    exact ⟨false, rfl, h⟩
  obtain ⟨V, hw, hfiles⟩ := h.volume
  obtain ⟨hfile, hoffsetLe⟩ := h.named i D hD
  rw [hsome']
  dsimp only
  cases hdescribes with
  | opened hused hname hflags hoffset hcount =>
    by_cases hbuffer : buffer.isNone ∧ 0 < count
    · have hrun : Vfs.vfsWrite fd buffer count v = (.error vfsEinval, v) := by
        unfold Vfs.vfsWrite
        rw [StM.run_get_bind, hsome]
        dsimp only
        rw [if_pos hbuffer]
        rfl
      refine ⟨false, ?_⟩
      rw [run_answer hrun, if_pos hbuffer]
      exact ⟨rfl, h⟩
    by_cases hwrites : test D.flags vfsOWronly = false
    · have hrun : Vfs.vfsWrite fd buffer count v = (.error vfsEbadf, v) := by
        unfold Vfs.vfsWrite
        rw [StM.run_get_bind, hsome]
        dsimp only
        rw [if_neg hbuffer, StM.run_get_bind, hflags, hwrites]
        rfl
      refine ⟨false, ?_⟩
      rw [run_answer hrun, if_neg hbuffer, if_pos hwrites]
      exact ⟨rfl, h⟩
    have hcalls := vfsWrite_call hsome hbuffer (by rw [hflags]; simpa using hwrites)
    have hrun {n : Nat} {fs : SimpleFs} (hcall : SimpleFs.simplefsWrite (some (v.vfsOpenFiles i).path)
        (v.vfsOpenFiles i).offset buffer count v.fs = (.ok n, fs)) (hsmall : n < wordSize / 2) :
        Vfs.vfsWrite fd buffer count v = (.ok n, Vfs.setOpenFile { v with fs := fs } i
          { v.vfsOpenFiles i with offset := ((v.vfsOpenFiles i).offset + n) % wordSize }) := by
      rw [hcalls, StM.bind_ok (call_run hcall), if_neg (Nat.not_le.mpr hsmall)]
      rfl
    have hend : (v.vfsOpenFiles i).offset + count ≤ writeLimit := by
      rw [hoffset]
      simp only [maxFileBytes, writeLimit] at *
      omega
    have hsum : (v.vfsOpenFiles i).offset + count < wordSize := Nat.lt_of_le_of_lt hend (by decide)
    by_cases hzero : count = 0
    · have htrivial := Working.write_trivial hw.holds hw.mounted (some (v.vfsOpenFiles i).path) buffer hsum
        (.inr (.inl hzero))
      rw [if_pos hzero] at htrivial
      have hrun := hrun htrivial (by decide)
      refine ⟨false, ?_⟩
      rw [run_answer hrun, if_neg hbuffer, if_neg hwrites, if_pos hzero]
      have hsame : S.describe i (some D) = S := by
        unfold FileStore.describe
        rw [← hD, update_eq_self]
      refine ⟨rfl, hsame ▸ h.setOpenFile hw hfiles rfl (fun _ => id) i
        (.opened hused hname hflags ?_ hcount) ?_⟩
      · dsimp only
        rw [Nat.add_zero, Nat.mod_eq_of_lt (Nat.lt_of_le_of_lt (Nat.le_add_right _ _) hsum), hoffset]
      · rintro D' hD'
        cases hD'
        exact ⟨hfile, hoffsetLe⟩
    have hpos := Nat.pos_of_ne_zero hzero
    obtain ⟨input, rfl⟩ : ∃ input, buffer = some input := by
      rcases buffer with _ | input
      · exact absurd ⟨rfl, hpos⟩ hbuffer
      · exact ⟨input, rfl⟩
    obtain ⟨res, fs, V', hwrite, hw', hwrote⟩ := hw.write_run hname input hpos hend
    have hcontent := h.content hfiles hD
    have hnext := (hwrote.next hw.consistent hw.total_le fun _ hl => hw.small hl hpos hend).2.2
    rw [hcontent] at hnext
    rcases hnext with ⟨hfull, hvolume⟩ | ⟨hok, hfiles'⟩
    · -- no room
      subst hfull hvolume
      have hlonger := hwrote.longer hw hcontent
      rw [hoffset] at hlonger
      refine ⟨true, ?_⟩
      rw [run_answer (hcalls.trans (StM.bind_error (call_run hwrite))), if_neg hbuffer, if_neg hwrites,
        if_neg hzero, if_pos ⟨rfl, hlonger⟩]
      exact ⟨rfl, h.sameFiles hw' hfiles⟩
    · subst hok
      rw [hfiles, hoffset] at hfiles'
      have hstored : V'.files = (S.store D.name (splice (S.content D.name) D.offset input count)).files := hfiles'
      have hlength : D.offset + count ≤ maxFileBytes := by
        have hnew := hw'.length_le ((congrFun hfiles' D.name).trans (update_self ..))
        rw [length_splice] at hnew
        omega
      have hsmall : count < wordSize / 2 :=
        Nat.lt_of_le_of_lt (Nat.le_trans (Nat.le_add_left ..) hlength) (by decide)
      refine ⟨false, ?_⟩
      rw [run_answer (hrun hwrite hsmall), if_neg hbuffer, if_neg hwrites, if_neg hzero, if_neg nofun]
      have hnew : Describes
          { v.vfsOpenFiles i with offset := ((v.vfsOpenFiles i).offset + count) % wordSize }
          (some { D with offset := D.offset + count }) := by
        refine .opened hused hname hflags ?_ hcount
        dsimp only
        rw [hoffset, Nat.mod_eq_of_lt (hoffset ▸ hsum)]
      refine ⟨rfl, h.setOpenFile hw' hstored rfl (fun _ => FileStore.store_ne_none) i hnew ?_⟩
      · rintro D' hD'
        cases hD'
        exact ⟨FileStore.store_ne_none hfile, hlength⟩

/-- A path that is copied, and the entry for it. -/
theorem Refines.open (h : Refines d v S) (full : Bool) (path : Option CString) (flags : Word) :
    Simulates d v S full (.open path flags) := by
  unfold Simulates VfsCall.run FileStore.step
  dsimp only
  obtain ⟨V, hw, hfiles⟩ := h.volume
  have hmounted : ¬(!v.vfsMounted) = true := by rw [h.mounted]; exact nofun
  by_cases hvalid : Vfs.vfsFlagsValid flags = false
  · have hrun : Vfs.vfsOpen path flags v = (.error vfsEinval, v) := by
      unfold Vfs.vfsOpen
      rw [StM.run_get_bind, if_neg hmounted, if_pos (by rw [hvalid]; rfl)]
      rfl
    rw [run_answer hrun, if_pos hvalid]
    exact ⟨rfl, h⟩
  have hflags : ¬(!Vfs.vfsFlagsValid flags) = true := by simpa using hvalid
  rw [if_neg hvalid]
  rcases hcopy : Vfs.vfsCopyPath path with _ | copied
  · have hrun : Vfs.vfsOpen path flags v = (.error vfsEinval, v) := by
      unfold Vfs.vfsOpen
      rw [StM.run_get_bind, if_neg hmounted, if_neg hflags, hcopy]
      rfl
    rw [run_answer hrun]
    exact ⟨rfl, h⟩
  dsimp only
  rw [← h.allocFd]
  rcases halloc : v.vfsAllocFd with _ | fd
  · have hrun : Vfs.vfsOpen path flags v = (.error vfsEmfile, v) := by
      unfold Vfs.vfsOpen
      rw [StM.run_get_bind, if_neg hmounted, if_neg hflags, hcopy]
      dsimp only
      rw [StM.run_get_bind, halloc]
      rfl
    rw [run_answer hrun]
    exact ⟨rfl, h⟩
  dsimp only
  have hopens : Vfs.vfsOpen path flags v = (do
      let _ ← Vfs.call (SimpleFs.simplefsOpen (some copied) flags)
      StM.modify fun v => v.setOpenFile fd
        { used := true, refCount := 1, path := copied, flags := flags, offset := 0 }
      return fd : VfsM (Fin vfsMaxOpenFiles)) v := by
    unfold Vfs.vfsOpen
    rw [StM.run_get_bind, if_neg hmounted, if_neg hflags, hcopy]
    dsimp only
    rw [StM.run_get_bind, halloc]
  rcases hname : SimpleFs.normalizePath (some copied) with _ | name
  · have hrun := hopens.trans (StM.bind_error (call_run (hw.open_invalid hname flags)))
    rw [run_answer hrun]
    exact ⟨rfl, h⟩
  dsimp only
  obtain ⟨res, fs, V', hopen, hw', ho⟩ := hw.open_run hname flags
  rcases ho.openFile hw.consistent (normalizePath_valid hname) hfiles with
    ⟨e, rfl, hstore, hfiles'⟩ | ⟨info, S', rfl, hstore, hfiles', hsame, hnew⟩
  · rw [run_answer (hopens.trans (StM.bind_error (call_run hopen))), hstore]
    exact ⟨rfl, h.sameFiles hw' hfiles'⟩
  · have hrun := hopens.trans (StM.bind_ok (call_run hopen))
    have hkept (other : List Byte) (hfile : S.files other ≠ none) : S'.files other ≠ none := by
      rcases hsame with rfl | rfl
      · exact hfile
      · exact FileStore.store_ne_none hfile
    have hdescriptions : S'.descriptions = S.descriptions := by rcases hsame with rfl | rfl <;> rfl
    rw [run_answer hrun, hstore]
    refine ⟨rfl, h.setOpenFile hw' hfiles' hdescriptions hkept fd (.opened rfl hname rfl rfl rfl) ?_⟩
    rintro D hD
    cases hD
    exact ⟨hnew, Nat.zero_le _⟩

/-! ### Runs -/

/-- Every call is simulated. -/
theorem Refines.step (h : Refines d v S) (call : VfsCall) (hbound : call.Bounded) :
    ∃ full, Simulates d v S full call :=
  match call, hbound with
  | .open path flags, _ => ⟨false, h.open false path flags⟩
  | .read fd buffer count, _ => ⟨false, h.read false fd buffer count⟩
  | .write fd buffer _, hbound => h.write fd buffer hbound
  | .retain fd, _ => ⟨false, h.retain false fd⟩
  | .close fd, _ => ⟨false, h.close false fd⟩
  | .stat path out, _ => ⟨false, h.stat false path out⟩

/-- Calls one after another answer as the store does. -/
theorem Refines.answers (h : Refines d v S) (calls : List VfsCall) (hbound : ∀ call ∈ calls, call.Bounded) :
    ∃ full : List Bool, full.length = calls.length ∧ VfsCall.answers v calls = S.answers (full.zip calls) := by
  induction calls generalizing v S with
  | nil => exact ⟨[], rfl, rfl⟩
  | cons call calls ih =>
    obtain ⟨first, hanswer, hnext⟩ := h.step call (hbound call List.mem_cons_self)
    obtain ⟨full, hlength, hanswers⟩ := ih hnext fun other hother => hbound other (List.mem_cons_of_mem _ hother)
    refine ⟨first :: full, congrArg Nat.succ hlength, ?_⟩
    rw [List.zip_cons_cons]
    unfold VfsCall.answers FileStore.answers
    rw [hanswer, hanswers]

/-- The device is formatted and mounted. -/
def Vfs.setUp (dev : Nat) : VfsM Unit := do
  Vfs.vfsInit (some dev)
  Vfs.vfsFormat
  Vfs.vfsMount

/-- A mount that succeeds. -/
theorem vfsMount_ok {fs : SimpleFs} (hroot : v.vfsRootDev = some d)
    (hmount : SimpleFs.simplefsMount (some d) v.fs = (.ok (), fs)) :
    Vfs.vfsMount v = (.ok (), { v with fs := fs, vfsMounted := true }) := by
  rw [← hroot] at hmount
  unfold Vfs.vfsMount
  rw [StM.run_get_bind, if_neg (by rw [hroot]; exact Bool.false_ne_true)]
  exact StM.bind_ok (StM.attempt_run (call_run hmount))

/-- And one that does not. -/
theorem vfsMount_error {fs : SimpleFs} {e : Int} (hroot : v.vfsRootDev = some d)
    (hmount : SimpleFs.simplefsMount (some d) v.fs = (.error e, fs)) :
    Vfs.vfsMount v = (.error e, { v with fs := fs, vfsMounted := false }) := by
  rw [← hroot] at hmount
  unfold Vfs.vfsMount
  rw [StM.run_get_bind, if_neg (by rw [hroot]; exact Bool.false_ne_true)]
  exact StM.bind_ok (StM.attempt_run (call_run hmount))

/-- A format and a mount set up the empty store. -/
theorem setUp_run (v : Vfs) (hdev : SimpleFs.validateDev (v.fs.devices d) = true) (hworks : v.fs.faults = .none) :
    ∃ v', Vfs.setUp d v = (.ok (), v') ∧ Refines d v' .empty := by
  obtain ⟨fs₁, V, hformat, hw, -, hfiles, -⟩ := Working.format hworks hdev
  obtain ⟨fs₂, top, hmount, hw'⟩ := hw.mount ⟨rfl, rfl, rfl⟩
  have hlaid : V.Laid simplefsMaxFiles := ⟨hw.consistent.extent, hw.consistent.disjoint⟩
  have hsector : ¬(v.fs.devices d).sectorSize ≠ sectorSize := by
    unfold SimpleFs.validateDev at hdev
    simp only [Bool.and_eq_true, beq_iff_eq] at hdev
    exact not_not_intro hdev.1.1.2
  have hinit : Vfs.vfsInit (some d) v =
      (.ok (), { v with vfsRootDev := some d, vfsMounted := false }.vfsClearOpenFiles) := by
    unfold Vfs.vfsInit
    dsimp only
    rw [StM.run_get_bind, if_neg hsector]
    rfl
  -- the file system, before and after the mount
  let clear (mounted : Bool) (fs : SimpleFs) : Vfs :=
    { fs := fs, vfsRootDev := some d, vfsMounted := mounted, vfsOpenFiles := fun _ => VfsOpenFile.zero }
  have hformatted : Vfs.vfsFormat (clear false v.fs) = (.ok (), clear false fs₁) := by
    have hcall : Vfs.call (SimpleFs.simplefsFormat (some d)) (clear false v.fs) = (.ok (), clear false fs₁) :=
      call_run hformat
    unfold Vfs.vfsFormat
    rw [StM.run_get_bind, if_neg nofun]
    exact hcall
  have hmounted : Vfs.vfsMount (clear false fs₁) = (.ok (), clear true fs₂) := vfsMount_ok rfl hmount
  refine ⟨clear true fs₂, ?_, rfl, ⟨_, hw', ?_⟩, fun _ => .unused rfl, fun _ _ hD => nomatch hD⟩
  · unfold Vfs.setUp
    rw [StM.bind_ok hinit]
    exact (StM.bind_ok hformatted).trans hmounted
  · exact (Volume.remounted_files hlaid hw.consistent.size).trans hfiles

/-- **`vfs.c` over `simplefs.c` is a store of files.** Once a device that works is set up, all calls answer
as the store does; whether a file can grow is all that the store leaves open. -/
theorem file_store_refined (v : Vfs) (d : Nat) (hdev : SimpleFs.validateDev (v.fs.devices d) = true)
    (hworks : v.fs.faults = .none) (calls : List VfsCall) (hbound : ∀ call ∈ calls, call.Bounded) :
    ∃ v', Vfs.setUp d v = (.ok (), v') ∧ ∃ full : List Bool, full.length = calls.length ∧
      VfsCall.answers v' calls = FileStore.empty.answers (full.zip calls) := by
  obtain ⟨v', hrun, hrefines⟩ := setUp_run v hdev hworks
  exact ⟨v', hrun, hrefines.answers calls hbound⟩

/-- The kernel's file system before it is set up, with a device of 4 KiB. -/
def Vfs.atBoot : Vfs where
  fs := .atBoot (fun _ => ⟨8, 512, true, true⟩) fun _ _ => zeroSector
  vfsRootDev := none
  vfsMounted := false
  vfsOpenFiles := fun _ => .zero

/-- A file is created and written, and read through another descriptor. -/
def createWriteRead : List VfsCall :=
  [.open (some [0x2F, 0x61]) (vfsOCreat ||| vfsORdwr), .write 0 (some fun _ => 7) 600, .retain 0, .close 0,
    .open (some [0x2F, 0x61]) vfsORdonly, .read 1 true 5]

/-- The calls are within the bound. -/
theorem createWriteRead_bounded : ∀ call ∈ createWriteRead, call.Bounded := by
  intro call hcall
  unfold createWriteRead at hcall
  simp only [List.mem_cons, List.not_mem_nil, or_false] at hcall
  rcases hcall with rfl | rfl | rfl | rfl | rfl | rfl
  case inr.inl => exact (by decide : 600 ≤ 2 ^ 31)
  all_goals trivial

/-- The answers of the three calls are those of the empty store. -/
theorem file_store_refined_small :
    ∃ v', Vfs.setUp 0 .atBoot = (.ok (), v') ∧ ∃ full : List Bool, full.length = createWriteRead.length ∧
      VfsCall.answers v' createWriteRead = FileStore.empty.answers (full.zip createWriteRead) :=
  file_store_refined .atBoot 0 (by decide) rfl createWriteRead createWriteRead_bounded

end AgenticOs
