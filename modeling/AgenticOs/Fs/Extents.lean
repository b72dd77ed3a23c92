import AgenticOs.Fs.Volume

/-!
# Allocating, clearing, copying, reading and writing extents

The loops of `simplefs.c` over the sectors of an extent, each as one change to the bytes of the volume.

* **Writes** (`write_append`): two writes side by side are one, and so a loop that writes sector by sector
  comes to one write. `Smeared` is what is known of a loop that failed on the way: some bytes have been
  written to its range.
* **Sizes** (`sectorsForBytes_eq`): the sectors that a size needs, when the sum in it does not wrap.
* **Free runs** (`findRun_some`): the search for free sectors finds a run of them, inside its bounds.
* **Loops**: clearing a run (`zeroRun`), copying to sectors that do not overlap (`copySectors`) or anywhere
  (`copySectors_any`), and the data loops of `simplefs_read` and `simplefs_write` (`readLoop`, `writeLoop`),
  which go from chunk to chunk of a byte range.
-/

namespace AgenticOs

open Function Lib Lib.StM

namespace Volume

variable {V : Volume} {a b n m p : Nat} {src src' : Nat → Byte}

/-- Volumes by their bytes. -/
theorem ext_bytes {V' : Volume} (ht : V'.total = V.total) (hn : V'.nextFree = V.nextFree)
    (hu : V'.used = V.used) (hm : V'.mounted = V.mounted) (hb : ∀ p, V'.bytes p = V.bytes p) :
    V' = V := by
  cases V
  cases V'
  cases ht
  cases hn
  cases hu
  cases hm
  congr 1
  exact funext hb

/-- Writing nothing. -/
theorem write_zero : V.write a src 0 = V := by
  refine ext_bytes rfl rfl rfl rfl fun p => ?_
  apply write_bytes_of_not
  omega

/-- Two writes side by side are one. -/
theorem write_append (h : ∀ k < m, src' k = src (n + k)) :
    (V.write a src n).write (a + n) src' m = V.write a src (n + m) := by
  refine ext_bytes rfl rfl rfl rfl fun p => ?_
  rw [write_bytes, write_bytes, write_bytes]
  by_cases h1 : a + n ≤ p ∧ p < a + n + m
  · rw [if_pos h1, if_pos (by omega), h _ (by omega)]
    congr 1
    omega
  · rw [if_neg h1]
    by_cases h2 : a ≤ p ∧ p < a + n
    · rw [if_pos h2, if_pos (by omega)]
    · rw [if_neg h2, if_neg (by omega)]

/-- A write depends on the bytes written. -/
theorem write_congr (h : ∀ k < n, src k = src' k) : V.write a src n = V.write a src' n := by
  refine ext_bytes rfl rfl rfl rfl fun p => ?_
  rw [write_bytes, write_bytes]
  by_cases h1 : a ≤ p ∧ p < a + n
  · rw [if_pos h1, if_pos h1, h _ (by omega)]
  · rw [if_neg h1, if_neg h1]

/-- `U` is `V` with some bytes written to `n` bytes from `a` on. -/
def Smeared (V : Volume) (a n : Nat) (U : Volume) : Prop := ∃ src, U = V.write a src n

/-- Nothing was written. -/
theorem Smeared.refl : V.Smeared a n V := by
  refine ⟨fun k => V.bytes (a + k), ?_⟩
  symm
  refine ext_bytes rfl rfl rfl rfl fun p => ?_
  rw [write_bytes]
  by_cases h : a ≤ p ∧ p < a + n
  · rw [if_pos h]
    congr 1
    omega
  · rw [if_neg h]

/-- After a write to part of the bytes. -/
theorem Smeared.write_prefix {U : Volume} (h : (V.write a src n).Smeared (a + n) m U) :
    V.Smeared a (n + m) U := by
  obtain ⟨src', rfl⟩ := h
  refine ⟨fun k => if k < n then src k else src' (k - n), ?_⟩
  have hsame : V.write a src n = V.write a (fun k => if k < n then src k else src' (k - n)) n :=
    write_congr fun k hk => by rw [if_pos hk]
  rw [hsame]
  refine write_append fun k _ => ?_
  rw [if_neg (by omega), Nat.add_sub_cancel_left]

end Volume

/-! ### Sector numbers of a size -/

/-- The sectors a size needs, when the sum in it does not wrap. -/
theorem sectorsForBytes_eq {n : Nat} (h : n + sectorSize ≤ wordSize) :
    SimpleFs.sectorsForBytes n = (n + 511) / 512 := by
  unfold SimpleFs.sectorsForBytes
  simp only [sectorSize, wordSize] at *
  by_cases hz : n = 0
  · rw [if_pos hz, hz]
  · rw [if_neg hz, Nat.mod_eq_of_lt (by omega)]
    rfl

/-! ### The chunks of a data loop -/

/-- The chunk of the data loops at `done` of `count` bytes from `offset` on. -/
def chunkAt (offset count done : Nat) : Nat :=
  min (count - done) (sectorSize - (offset + done) % wordSize % sectorSize)

/-- A chunk is not empty. -/
theorem chunkAt_pos (offset : Nat) {count done : Nat} (h : done < count) :
    0 < chunkAt offset count done := by
  have := Nat.mod_lt ((offset + done) % wordSize) (show 0 < sectorSize by decide)
  unfold chunkAt
  omega

/-- How many sectors the data loops come to. -/
def chunks (offset count done : Nat) : Nat :=
  if done < count then 1 + chunks offset count (done + chunkAt offset count done) else 0
termination_by count - done
decreasing_by
  have := chunkAt_pos offset ‹done < count›
  omega

/-- How many of them are only written in part. -/
def partChunks (offset count done : Nat) : Nat :=
  if done < count then
    (if chunkAt offset count done ≠ sectorSize then 1 else 0) +
      partChunks offset count (done + chunkAt offset count done)
  else 0
termination_by count - done
decreasing_by
  have := chunkAt_pos offset ‹done < count›
  omega

/-! ### Free runs -/

/-- The search for free sectors finds a run of them, inside its bounds. -/
theorem findRun_some {used : Nat → Bool} {count last start r : Nat}
    (h : SimpleFs.findRun used count last start = some r) :
    start ≤ r ∧ r ≤ last ∧ ∀ i, Holds.inRun r count i → used i = false := by
  have hrun : ∀ n sector, SimpleFs.freeRun used sector n ≤ n ∧
      (SimpleFs.freeRun used sector n = n → ∀ i, Holds.inRun sector n i → used i = false) := by
    intro n
    induction n with
    | zero => exact fun sector => ⟨Nat.le_refl _, fun _ i hi => by unfold Holds.inRun at hi; omega⟩
    | succ n ih =>
      intro sector
      obtain ⟨hle, hall⟩ := ih (sector + 1)
      unfold SimpleFs.freeRun
      by_cases hu : used sector = true
      · rw [if_pos hu]
        exact ⟨Nat.zero_le _, fun hc => by omega⟩
      · rw [if_neg hu]
        refine ⟨by omega, fun hc i hi => ?_⟩
        unfold Holds.inRun at hi
        by_cases his : i = sector
        · rw [his]
          simpa using hu
        · exact hall (by omega) i ⟨by omega, by omega⟩
  induction start using SimpleFs.findRun.induct used count last with
  | case1 start hlt =>
    rw [SimpleFs.findRun, if_pos hlt] at h
    cases h
  | case2 start hlt hfull =>
    rw [SimpleFs.findRun, if_neg hlt, if_pos hfull] at h
    cases h
    exact ⟨Nat.le_refl _, by omega, (hrun count r).2 hfull⟩
  | case3 start hlt hfull ih =>
    rw [SimpleFs.findRun, if_neg hlt, if_neg hfull] at h
    obtain ⟨h1, h2, h3⟩ := ih h
    exact ⟨by omega, h2, h3⟩

namespace Holds

variable {d : Nat} {V : Volume} {E : Volume → Prop}

/-! ### The loops -/

/-- **`zero_run`** -/
theorem zeroRun (n start : Nat) :
    Uses (onVolume d) (SimpleFs.zeroRun start n) V 0 n (.ok ())
      (V.write (sectorSize * start) zeroSector (sectorSize * n))
      (V.Smeared (sectorSize * start) (sectorSize * n)) := by
  induction n generalizing start V with
  | zero =>
    rw [Nat.mul_zero, Volume.write_zero]
    exact Uses.pure ()
  | succ n ih =>
    have happ : (V.write (sectorSize * start) zeroSector sectorSize).write
        (sectorSize * (start + 1)) zeroSector (sectorSize * n) =
        V.write (sectorSize * start) zeroSector (sectorSize * (n + 1)) := by
      rw [Nat.mul_succ, Nat.mul_succ, Nat.add_comm (sectorSize * n)]
      exact Volume.write_append fun _ _ => rfl
    rw [← happ]
    have hrest := (ih (V := V.write (sectorSize * start) zeroSector sectorSize) (start + 1)).mono
      (F := V.Smeared (sectorSize * start) (sectorSize * (n + 1))) fun u hu => by
        rw [Nat.mul_succ] at hu
        rw [Nat.mul_succ, Nat.add_comm]
        exact hu.write_prefix
    apply Uses.cast _ (Nat.zero_add 0) (Nat.add_comm 1 n)
    unfold SimpleFs.zeroRun
    exact Uses.bind (writeZero start Volume.Smeared.refl) hrest

/-- Copying sectors to others that do not overlap them. -/
theorem copySectors (n source target : Nat)
    (hdisj : source + n ≤ target ∨ target + n ≤ source) :
    Uses (onVolume d) (SimpleFs.copySectors source target n) V n n (.ok ())
      (V.write (sectorSize * target) (fun k => V.bytes (sectorSize * source + k))
        (sectorSize * n)) (V.Smeared (sectorSize * target) (sectorSize * n)) := by
  induction n generalizing source target V with
  | zero =>
    rw [Nat.mul_zero, Volume.write_zero]
    exact Uses.pure ()
  | succ n ih =>
    unfold SimpleFs.copySectors
    apply Uses.cast _ (Nat.add_comm 1 n) ((Nat.zero_add (1 + n)).trans (Nat.add_comm 1 n))
    apply readSector (r := n) (w := 1 + n) source Volume.Smeared.refl
    intro sector hsector
    have hwrite := writeSector (d := d) (V := V) target sector
      (fun k => V.bytes (sectorSize * source + k)) (i := 0) (n := sectorSize) (Nat.le_refl _)
      (fun k hk => by
        rw [if_pos ⟨Nat.zero_le _, by omega⟩]
        exact hsector k hk)
      (E := V.Smeared (sectorSize * target) (sectorSize * (n + 1))) Volume.Smeared.refl
    have happ : (V.write (sectorSize * target) (fun k => V.bytes (sectorSize * source + k))
        sectorSize).write (sectorSize * (target + 1)) (fun k =>
          (V.write (sectorSize * target) (fun k => V.bytes (sectorSize * source + k))
            sectorSize).bytes (sectorSize * (source + 1) + k)) (sectorSize * n) =
        V.write (sectorSize * target) (fun k => V.bytes (sectorSize * source + k))
          (sectorSize * (n + 1)) := by
      rw [Nat.mul_succ, Nat.mul_succ, Nat.mul_succ, Nat.add_comm (sectorSize * n)]
      refine Volume.write_append fun k hk => ?_
      rw [Volume.write_bytes_of_not]
      · congr 1
        omega
      · simp only [sectorSize] at hk ⊢
        omega
    rw [← happ]
    have hrest := (ih (V := V.write (sectorSize * target)
      (fun k => V.bytes (sectorSize * source + k)) sectorSize) (source + 1) (target + 1)
      (by omega)).mono (F := V.Smeared (sectorSize * target) (sectorSize * (n + 1)))
      fun u hu => by
        rw [Nat.mul_succ] at hu
        rw [Nat.mul_succ, Nat.add_comm]
        exact hu.write_prefix
    exact (hwrite.bind hrest).cast (Nat.zero_add n) rfl

/-- Copying sectors anywhere. -/
theorem copySectors_any (n source target : Nat) :
    ∃ src, Uses (onVolume d) (SimpleFs.copySectors source target n) V n n (.ok ())
      (V.write (sectorSize * target) src (sectorSize * n))
      (V.Smeared (sectorSize * target) (sectorSize * n)) := by
  induction n generalizing source target V with
  | zero =>
    refine ⟨zeroSector, ?_⟩
    rw [Nat.mul_zero, Volume.write_zero]
    exact Uses.pure ()
  | succ n ih =>
    obtain ⟨src, hrest⟩ := ih (V := V.write (sectorSize * target)
      (fun k => V.bytes (sectorSize * source + k)) sectorSize) (source + 1) (target + 1)
    have hnext : sectorSize * (target + 1) = sectorSize * target + sectorSize := Nat.mul_succ _ _
    have hlen : sectorSize * (n + 1) = sectorSize + sectorSize * n := by
      rw [Nat.mul_succ, Nat.add_comm]
    refine ⟨fun k => if k < sectorSize then V.bytes (sectorSize * source + k)
      else src (k - sectorSize), ?_⟩
    have happ : (V.write (sectorSize * target) (fun k => V.bytes (sectorSize * source + k))
        sectorSize).write (sectorSize * (target + 1)) src (sectorSize * n) =
        V.write (sectorSize * target) (fun k => if k < sectorSize
          then V.bytes (sectorSize * source + k) else src (k - sectorSize))
          (sectorSize * (n + 1)) := by
      have hfirst : V.write (sectorSize * target) (fun k => V.bytes (sectorSize * source + k))
          sectorSize = V.write (sectorSize * target) (fun k => if k < sectorSize
            then V.bytes (sectorSize * source + k) else src (k - sectorSize)) sectorSize :=
        Volume.write_congr fun k hk => by rw [if_pos hk]
      rw [hnext, hlen, hfirst]
      refine Volume.write_append fun k _ => ?_
      rw [if_neg (by omega), Nat.add_sub_cancel_left]
    rw [happ] at hrest
    unfold SimpleFs.copySectors
    apply Uses.cast _ (Nat.add_comm 1 n) ((Nat.zero_add (1 + n)).trans (Nat.add_comm 1 n))
    apply readSector (r := n) (w := 1 + n) source Volume.Smeared.refl
    intro sector hsector
    have hwrite := writeSector (d := d) (V := V) target sector
      (fun k => V.bytes (sectorSize * source + k)) (i := 0) (n := sectorSize) (Nat.le_refl _)
      (fun k hk => by
        rw [if_pos ⟨Nat.zero_le _, by omega⟩]
        exact hsector k hk)
      (E := V.Smeared (sectorSize * target) (sectorSize * (n + 1))) Volume.Smeared.refl
    have hrest' := hrest.mono (F := V.Smeared (sectorSize * target) (sectorSize * (n + 1)))
      fun u hu => by
        rw [hnext] at hu
        rw [hlen]
        exact hu.write_prefix
    exact (hwrite.bind hrest').cast (Nat.zero_add n) rfl

/-- The position of byte `x` of a file whose sector numbers do not leave the 32-bit range. -/
theorem position_eq (start x : Nat) (hx : x < wordSize)
    (hstart : start + wordSize / sectorSize ≤ wordSize) :
    sectorSize * ((start + x % wordSize / sectorSize) % wordSize) + x % wordSize % sectorSize =
      sectorSize * start + x := by
  simp only [sectorSize, wordSize] at *
  rw [Nat.mod_eq_of_lt hx,
    Nat.mod_eq_of_lt (by omega : start + x / 512 < 4294967296)]
  omega

/-- The bytes of a range, one chunk after another. -/
theorem map_range_append {α : Type} (f : Nat → α) (m n : Nat) :
    (List.range m).map f ++ (List.range n).map (fun k => f (m + k)) =
      (List.range (m + n)).map f := by
  rw [List.range_add, List.map_append, List.map_map]
  rfl

/-- **`simplefs_read`**, the loop -/
theorem readLoop {e : DirEntry} {offset count : Nat}
    (hsum : offset + count ≤ wordSize)
    (hstart : e.startSector + wordSize / sectorSize ≤ wordSize) (done : Nat) (hE : E V) :
    Uses (onVolume d) (SimpleFs.readLoop e offset count done) V (chunks offset count done) 0
      (.ok ((List.range (count - done)).map fun k =>
        V.bytes (sectorSize * e.startSector + (offset + done + k)))) V E := by
  induction hn : count - done using Nat.strong_induction_on generalizing done with
  | _ n ih =>
    subst hn
    rw [SimpleFs.readLoop]
    by_cases hlt : done < count
    · rw [if_pos hlt]
      have hpos := position_eq e.startSector (offset + done) (by omega) hstart
      have hmod := Nat.mod_lt ((offset + done) % wordSize) (show 0 < sectorSize by decide)
      have hchunkAt : chunkAt offset count done =
          min (count - done) (sectorSize - (offset + done) % wordSize % sectorSize) := rfl
      rw [chunks, if_pos hlt, hchunkAt]
      set o := (offset + done) % wordSize % sectorSize with ho
      set chunk := min (count - done) (sectorSize - o) with hchunk
      apply readSector (w := 0) _ hE
      intro sector hsector
      apply (ih (count - (done + chunk)) (by omega) (done + chunk) rfl).bind (m := 0) (n := 0)
      have hlist : (List.range chunk).map (fun k => sector (o + k)) ++
          (List.range (count - (done + chunk))).map (fun k =>
            V.bytes (sectorSize * e.startSector + (offset + (done + chunk) + k))) =
          (List.range (count - done)).map fun k =>
            V.bytes (sectorSize * e.startSector + (offset + done + k)) := by
        rw [show count - done = chunk + (count - (done + chunk)) by omega, ← map_range_append]
        congr 1
        · apply List.map_congr_left
          intro k hk
          rw [List.mem_range] at hk
          rw [hsector _ (by omega)]
          congr 1
          omega
        · apply List.map_congr_left
          intro k _
          congr 1
          omega
      rw [hlist]
      exact Uses.pure _
    · rw [if_neg hlt, show count - done = 0 by omega, chunks, if_neg hlt]
      exact Uses.pure _

/-- **`simplefs_write`**, the loop -/
theorem writeLoop {e : DirEntry} {offset count : Nat} (input : Nat → Byte)
    (hsum : offset + count ≤ wordSize)
    (hstart : e.startSector + wordSize / sectorSize ≤ wordSize) (done : Nat) :
    Uses (onVolume d) (SimpleFs.writeLoop e offset input count done) V
      (partChunks offset count done) (chunks offset count done) (.ok ())
      (V.write (sectorSize * e.startSector + (offset + done)) (fun k => input (done + k))
        (count - done))
      (V.Smeared (sectorSize * e.startSector + (offset + done)) (count - done)) := by
  induction hn : count - done using Nat.strong_induction_on generalizing done V with
  | _ n ih =>
    subst hn
    rw [SimpleFs.writeLoop]
    by_cases hlt : done < count
    · rw [if_pos hlt]
      have hpos := position_eq e.startSector (offset + done) (by omega) hstart
      have hmod := Nat.mod_lt ((offset + done) % wordSize) (show 0 < sectorSize by decide)
      have hchunkAt : chunkAt offset count done =
          min (count - done) (sectorSize - (offset + done) % wordSize % sectorSize) := rfl
      rw [chunks, partChunks, if_pos hlt, if_pos hlt, hchunkAt]
      dsimp only
      set o := (offset + done) % wordSize % sectorSize with ho
      set lba := (e.startSector + (offset + done) % wordSize / sectorSize) % wordSize with hlba
      set chunk := min (count - done) (sectorSize - o) with hchunk
      have hat : sectorSize * lba + o = sectorSize * e.startSector + (offset + done) := hpos
      set at' := sectorSize * e.startSector + (offset + done)
      have hnext : sectorSize * e.startSector + (offset + (done + chunk)) = at' + chunk := by omega
      have hlen : count - done = chunk + (count - (done + chunk)) := by omega
      have hrest := (ih (count - (done + chunk)) (by omega)
        (V := V.write at' (fun k => input (done + k)) chunk) (done + chunk) rfl).mono
        (F := V.Smeared at' (count - done)) fun u hu => by
          rw [hnext] at hu
          rw [hlen]
          exact hu.write_prefix
      have happ : (V.write at' (fun k => input (done + k)) chunk).write (at' + chunk)
          (fun k => input (done + chunk + k)) (count - (done + chunk)) =
          V.write at' (fun k => input (done + k)) (count - done) := by
        rw [hlen]
        refine Volume.write_append fun k _ => ?_
        rw [Nat.add_assoc]
      rw [hnext, happ] at hrest
      -- the chunk, over a sector that holds the old bytes outside it
      have hchunkRun : ∀ sector : Sector,
          (∀ k < sectorSize, ¬ (o ≤ k ∧ k < o + chunk) →
            sector k = V.bytes (sectorSize * lba + k)) →
          Uses (onVolume d) (SimpleFs.writeSector lba
            (memcpy sector o (fun k => input (done + k)) chunk)) V 0 1 (.ok ())
            (V.write at' (fun k => input (done + k)) chunk) (V.Smeared at' (count - done)) := by
        intro sector hsector
        rw [← hat]
        apply writeSector
        · omega
        · intro k hk
          show (if _ then _ else _) = _
          by_cases hc : o ≤ k ∧ k < o + chunk
          · rw [if_pos hc, if_pos hc]
          · rw [if_neg hc, if_neg hc]
            exact hsector k hk hc
        · exact .refl
      by_cases hwhole : chunk ≠ sectorSize
      · rw [if_pos hwhole, if_pos hwhole]
        apply Uses.cast _ rfl (Nat.zero_add (1 + chunks offset count (done + chunk)))
        apply readSector lba Volume.Smeared.refl
        intro sector hsector
        exact ((hchunkRun sector fun k hk _ => hsector k hk).bind hrest).cast (Nat.zero_add _) rfl
      · rw [if_neg hwhole, if_neg hwhole]
        exact (hchunkRun zeroSector fun k hk hc => by omega).bind hrest
    · rw [if_neg hlt, show count - done = 0 by omega, Volume.write_zero, chunks, partChunks,
        if_neg hlt, if_neg hlt]
      exact Uses.pure _

end Holds

end AgenticOs
