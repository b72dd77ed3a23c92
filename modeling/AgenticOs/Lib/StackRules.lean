import AgenticOs.Lib.Processor

/-!
# Rules for code on a stack

Assertions are of the registers and of the words from the stack pointer up (`Shows`).

* **Preconditions** (`pre`, `pres`): what has to hold before an instruction for an assertion to hold behind
  it. They compute, so that the precondition of a stub is found by `simp`.
* **Soundness** (`exec_pre`, `execs_pres`): what `pres` promises of lists of words happens in memory, and
  nothing changes but the part of the stack that the code may use (`SameBut`).
* **Calls** (`Shows.called`): behind a callee that returns with the stack pointer and its caller's words as
  they were (`Returned`), the stack is as it was, but for the arguments.
* **Interrupts** (`interrupt_brings`, `interrupt_brings_inner`): the words that the processor pushes, from an
  outer level and from the same one.
* **Returns** (`iretd_inner`, `iretd_outer`): what `iretd` finds in the words at the stack pointer.

`Brings` puts them one after another: from one state the processor has come to another, with given registers
and with given words on its stack (`Brings.trans`).
-/

namespace AgenticOs.Lib

open ByteView

variable {low : Word} {room : Nat} {c c' c'' : Cpu} {s s' : Core} {ws ws' : List Word} {w : Word}

/-! ### The stack in memory -/

/-- The words from the stack pointer up are `ws`, at the upper end of `room` words from `low` on. -/
structure Shows (low : Word) (room : Nat) (c : Cpu) (ws : List Word) : Prop where
  fits : 4 * room ≤ 4294967296
  length : ws.length ≤ room
  top : c.esp = low + BitVec.ofNat 32 (4 * (room - ws.length))
  holds : (viewOf c.mem).Holds c.esp (ws.flatMap wordBytes)

/-- Memory is the same but for `room` words from `low` on. -/
def SameBut (low : Word) (room : Nat) (mem mem' : Word → Byte) : Prop :=
  ∀ x, 4 * room ≤ (x - low).toNat → mem' x = mem x

/-- Nothing was stored. -/
theorem SameBut.refl (low : Word) (room : Nat) (mem : Word → Byte) : SameBut low room mem mem := fun _ _ => rfl

/-- Two steps one after another. -/
theorem SameBut.trans {mem mem' mem'' : Word → Byte} (h : SameBut low room mem mem')
    (h' : SameBut low room mem' mem'') : SameBut low room mem mem'' := fun x hx => (h' x hx).trans (h x hx)

/-- From `c` the processor has come to `c'`, with registers `s` and with `ws` on its stack. -/
structure Brings (low : Word) (room : Nat) (c : Cpu) (s : Core) (ws : List Word) (c' : Cpu) : Prop where
  core : c'.toCore = s
  shows : Shows low room c' ws
  same : SameBut low room c.mem c'.mem

/-- Two runs one after another. -/
theorem Brings.trans (h : Brings low room c s ws c') (h' : Brings low room c' s' ws' c'') :
    Brings low room c s' ws' c'' :=
  ⟨h'.core, h'.shows, h.same.trans h'.same⟩

/-- A store, seen as a partial memory. -/
theorem viewOf_storeAt (mem : Word → Byte) (a : Word) (bytes : List Byte) :
    viewOf (storeAt mem a bytes) = (viewOf mem).overlay a bytes := by
  funext x
  unfold viewOf storeAt ByteView.overlay
  rw [List.getD_eq_getElem?_getD]
  by_cases hx : (x - a).toNat < bytes.length
  · rw [if_pos hx, List.getElem?_eq_getElem hx]
    rfl
  · rw [if_neg hx, List.getElem?_eq_none (Nat.le_of_not_lt hx)]
    rfl

/-- A store to some of the words from `low` on. -/
theorem sameBut_storeAt (mem : Word → Byte) {n : Nat} {bytes : List Byte} (hfits : 4 * room ≤ 4294967296)
    (hn : n + bytes.length ≤ 4 * room) : SameBut low room mem (storeAt mem (low + BitVec.ofNat 32 n) bytes) := by
  intro x hx
  unfold storeAt
  rw [List.getD_eq_getElem?_getD]
  rcases Nat.eq_zero_or_pos bytes.length with hzero | hpos
  · rw [List.eq_nil_of_length_eq_zero hzero]
    rfl
  · have hat : (x - (low + BitVec.ofNat 32 n)).toNat = (x - low).toNat - n := by
      rw [toNat_sub_add_ofNat (by omega), if_pos (by omega)]
    rw [hat, List.getElem?_eq_none (by omega)]
    rfl

/-- Every word of memory is found where it is. -/
theorem Cpu.holds_wordAt (c : Cpu) (a : Word) : (viewOf c.mem).Holds a (wordBytes (c.wordAt a)) := by
  intro i hi
  rw [length_wordBytes] at hi
  rw [getElem?_wordBytes _ hi]
  unfold Cpu.wordAt ByteView.word viewOf
  dsimp only [Option.bind_eq_bind, Option.bind_some, Option.pure_def, Option.getD_some]
  rw [wordByte_wordOfBytes _ _ hi]
  rcases (by omega : i = 0 ∨ i = 1 ∨ i = 2 ∨ i = 3) with rfl | rfl | rfl | rfl
  · rw [BitVec.add_zero]
    rfl
  · rfl
  · rfl
  · rfl

namespace Shows

/-- The address of a word above the stack pointer. -/
theorem addr (h : Shows low room c ws) (n : Nat) :
    c.esp + BitVec.ofNat 32 n = low + BitVec.ofNat 32 (4 * (room - ws.length) + n) := by
  rw [h.top, add_ofNat_add]

/-- A word on the stack can be read. -/
theorem word (h : Shows low room c ws) {i : Nat} (hi : ws[i]? = some w) :
    c.wordAt (c.esp + BitVec.ofNat 32 (4 * i)) = w := by
  obtain ⟨hlt, rfl⟩ := List.getElem?_eq_some_iff.mp hi
  have hword : (viewOf c.mem).Holds (c.esp + BitVec.ofNat 32 (4 * i)) (wordBytes ws[i]) := by
    intro j hj
    rw [length_wordBytes] at hj
    have hbound : 4 * i + j < (ws.flatMap wordBytes).length := by
      rw [length_flatMap_wordBytes]
      omega
    rw [add_ofNat_add, h.holds _ hbound, getElem?_flatMap_wordBytes, getElem?_wordBytes _ hj,
      show (4 * i + j) / 4 = i by omega, show (4 * i + j) % 4 = j by omega, List.getElem?_eq_getElem hlt]
    rfl
  unfold Cpu.wordAt
  rw [hword.word]
  rfl

/-- The word at the stack pointer. -/
theorem first (h : Shows low room c (w :: ws)) : c.wordAt c.esp = w := by
  have hword := h.word (i := 0) rfl
  rw [Nat.mul_zero, BitVec.add_zero] at hword
  exact hword

/-- A new state of the registers that keeps the stack pointer. -/
theorem withCore (h : Shows low room c ws) {s : Core} (hs : s.esp = c.esp) : Brings low room c s ws (c.withCore s) where
  core := rfl
  shows :=
    { fits := h.fits
      length := h.length
      top := hs.trans h.top
      holds := by
        show (viewOf c.mem).Holds s.esp _
        rw [hs]
        exact h.holds }
  same := .refl low room c.mem

/-- The stack pointer moves down over a word that is there. -/
theorem lower (h : Shows low room c ws) (hroom : ws.length < room) {s : Core} (hs : s.esp = c.esp - 4) :
    Brings low room c s (c.wordAt s.esp :: ws) (c.withCore s) where
  core := rfl
  shows :=
    { fits := h.fits
      length := hroom
      top := by
        have hsplit : 4 * (room - ws.length) = 4 * (room - (ws.length + 1)) + 4 := by omega
        show s.esp = _
        rw [hs, h.top, hsplit, BitVec.ofNat_add, ← BitVec.add_assoc]
        exact BitVec.add_sub_cancel _ 4
      holds := by
        have hback : s.esp + 4 = c.esp := by
          rw [hs]
          exact BitVec.sub_add_cancel c.esp 4
        refine holds_words_cons.mpr ⟨c.holds_wordAt s.esp, ?_⟩
        show (viewOf c.mem).Holds (s.esp + 4) _
        rw [hback]
        exact h.holds }
  same := .refl low room c.mem

/-- The stack pointer moves up over some words. -/
theorem raise (h : Shows low room c ws) {n : Nat} (hn : n ≤ ws.length) {s : Core}
    (hs : s.esp = c.esp + BitVec.ofNat 32 (4 * n)) : Brings low room c s (ws.drop n) (c.withCore s) where
  core := rfl
  shows :=
    { fits := h.fits
      length := by
        have hlength := h.length
        rw [List.length_drop]
        omega
      top := by
        have hlength := h.length
        show s.esp = _
        rw [hs, h.addr, List.length_drop]
        congr 2
        omega
      holds := by
        have hsplit := h.holds
        rw [← List.take_append_drop n ws, List.flatMap_append, holds_append, length_flatMap_wordBytes,
          List.length_take_of_le hn] at hsplit
        show (viewOf c.mem).Holds s.esp _
        rw [hs]
        exact hsplit.2 }
  same := .refl low room c.mem

/-- Bytes are put into one of the words on the stack. -/
theorem put (h : Shows low room c ws) {i o : Nat} {bytes : List Byte} (hi : i < ws.length) (hlt : o < 4)
    (ho : o + bytes.length ≤ 4) (hw : ∀ k < 4, some (wordByte w k) =
      if o ≤ k ∧ k < o + bytes.length then bytes[k - o]? else some (wordByte ws[i] k)) :
    Brings low room c c.toCore (ws.set i w) (c.put (c.esp + BitVec.ofNat 32 (4 * i + o)) bytes) where
  core := rfl
  shows :=
    { fits := h.fits
      length := by
        rw [List.length_set]
        exact h.length
      top := by
        rw [List.length_set]
        exact h.top
      holds := by
        have hlength := h.length
        have hfits := h.fits
        show (viewOf (storeAt c.mem _ bytes)).Holds c.esp _
        rw [viewOf_storeAt]
        exact h.holds.putInto (by omega) hi hlt ho hw }
  same := by
    have hlength := h.length
    rw [h.addr]
    exact sameBut_storeAt _ h.fits (by omega)

/-- A word is put into one of the words on the stack. -/
theorem putWord (h : Shows low room c ws) {i : Nat} (hi : i < ws.length) (w : Word) :
    Brings low room c c.toCore (ws.set i w) (c.put (c.esp + BitVec.ofNat 32 (4 * i)) (wordBytes w)) := by
  have hput : Brings low room c c.toCore (ws.set i w) (c.put (c.esp + BitVec.ofNat 32 (4 * i + 0)) (wordBytes w)) := by
    refine h.put hi (by decide) (Nat.le_of_eq (length_wordBytes w)) fun k hk => ?_
    rw [length_wordBytes, if_pos ⟨Nat.zero_le k, by omega⟩, Nat.sub_zero, getElem?_wordBytes w hk]
  rw [Nat.add_zero] at hput
  exact hput

/-- Half of a word is put into one of the words on the stack. -/
theorem putHalf (h : Shows low room c ws) {i : Nat} (hi : i < ws.length) (half : BitVec 16) (upper : Bool) :
    Brings low room c c.toCore
      (ws.set i (if upper then ofHalves (lowHalf ws[i]) half else ofHalves half (highHalf ws[i])))
      (c.put (c.esp + BitVec.ofNat 32 (4 * i + if upper then 2 else 0)) (halfBytes half)) := by
  have hhalves (k : Nat) (hk : k < 4) : wordByte ws[i] k = if k < 2 then (lowHalf ws[i]).extractLsb' (8 * k) 8
      else (highHalf ws[i]).extractLsb' (8 * (k - 2)) 8 := by
    have hbyte := wordByte_ofHalves (lowHalf ws[i]) (highHalf ws[i]) hk
    rw [ofHalves_halves] at hbyte
    exact hbyte
  cases upper with
  | false =>
    refine h.put hi (by decide) (show 0 + 2 ≤ 4 by decide) fun k hk => ?_
    show some (wordByte (ofHalves half (highHalf ws[i])) k) = if 0 ≤ k ∧ k < 0 + 2 then _ else _
    rw [wordByte_ofHalves _ _ hk, hhalves k hk]
    rcases (by omega : k = 0 ∨ k = 1 ∨ k = 2 ∨ k = 3) with rfl | rfl | rfl | rfl <;> rfl
  | true =>
    refine h.put hi (by decide) (show 2 + 2 ≤ 4 by decide) fun k hk => ?_
    show some (wordByte (ofHalves (lowHalf ws[i]) half) k) = if 2 ≤ k ∧ k < 2 + 2 then _ else _
    rw [wordByte_ofHalves _ _ hk, hhalves k hk]
    rcases (by omega : k = 0 ∨ k = 1 ∨ k = 2 ∨ k = 3) with rfl | rfl | rfl | rfl <;> rfl

/-- A word is pushed. -/
theorem push (h : Shows low room c ws) (hroom : ws.length < room) (w : Word) :
    Brings low room c (c.set .esp (c.esp - 4)) (w :: ws) (c.push w) := by
  have hlower := h.lower hroom (s := c.set .esp (c.esp - 4)) rfl
  have hput := hlower.shows.putWord (i := 0) (Nat.succ_pos _) w
  rw [Nat.mul_zero, BitVec.add_zero] at hput
  exact hlower.trans hput

end Shows

/-! ### Preconditions -/

/-- What has to hold before an instruction for `Q` to hold behind it. The code uses at most `room` words of the
stack; what a word holds that the stack pointer is moved down to is not known. -/
def pre (room : Nat) (Q : Core → List Word → Prop) : Instr → Core → List Word → Prop
  | .push r, s, ws => ws.length < room ∧ Q (s.set .esp (s.esp - 4)) (s.get r :: ws)
  | .pushImm w, s, ws => ws.length < room ∧ Q (s.set .esp (s.esp - 4)) (w :: ws)
  | .pop r, s, ws => r ≠ .esp ∧ ws[0]?.elim False fun w => Q ((s.set .esp (s.esp + 4)).set r w) (ws.drop 1)
  | .pusha, s, ws => ws.length + 8 ≤ room ∧
      Q (s.set .esp (s.esp - 32)) ([s.edi, s.esi, s.ebp, s.esp, s.ebx, s.edx, s.ecx, s.eax] ++ ws)
  | .popa, s, ws => match ws with
    | edi :: esi :: ebp :: _ :: ebx :: edx :: ecx :: eax :: ws =>
      Q { s with
        edi := edi, esi := esi, ebp := ebp, esp := s.esp + 32, ebx := ebx, edx := edx, ecx := ecx, eax := eax } ws
    | _ => False
  | .mov dst src, s, ws => dst ≠ .esp ∧ Q (s.set dst (s.get src)) ws
  | .load dst base disp, s, ws => base = .esp ∧ dst ≠ .esp ∧ disp.toNat % 4 = 0 ∧
      ws[disp.toNat / 4]?.elim False fun w => Q (s.set dst w) ws
  | .store base disp src, s, ws => base = .esp ∧ disp.toNat % 4 = 0 ∧ disp.toNat / 4 < ws.length ∧
      Q s (ws.set (disp.toNat / 4) (s.get src))
  | .loadHalf dst base disp, s, ws => base = .esp ∧ dst ≠ .esp ∧ disp.toNat % 4 = 0 ∧
      ws[disp.toNat / 4]?.elim False fun w => Q (s.setLow dst (lowHalf w)) ws
  | .storeHalf base disp h, s, ws => base = .esp ∧ disp.toNat % 2 = 0 ∧ ws[disp.toNat / 4]?.elim False fun w =>
      Q s (ws.set (disp.toNat / 4)
        (if disp.toNat % 4 = 2 then ofHalves (lowHalf w) h else ofHalves h (highHalf w)))
  | .storeSeg base disp src, s, ws => base = .esp ∧ disp.toNat % 2 = 0 ∧ ws[disp.toNat / 4]?.elim False fun w =>
      Q s (ws.set (disp.toNat / 4)
        (if disp.toNat % 4 = 2 then ofHalves (lowHalf w) (s.getSeg src) else ofHalves (s.getSeg src) (highHalf w)))
  | .movHalf dst h, s, ws => dst ≠ .esp ∧ Q (s.setLow dst h) ws
  | .movByte dst b, s, ws => dst ≠ .esp ∧ Q (s.set dst (s.get dst &&& ~~~0xFF ||| b.setWidth 32)) ws
  | .setSeg dst src, s, ws => Q (s.setSeg dst (lowHalf (s.get src))) ws
  | .add r n, s, ws => r = .esp ∧ n.toNat % 4 = 0 ∧ n.toNat / 4 ≤ ws.length ∧ Q (s.add r n) (ws.drop (n.toNat / 4))
  | .sub r n, s, ws => r = .esp ∧ n = 4 ∧ ws.length < room ∧ ∀ w, Q (s.sub r n) (w :: ws)
  | .test r r', s, ws => Q (s.test (s.get r &&& s.get r')) ws
  | .testByte r b, s, ws => Q (s.test ((s.get r).setWidth 8 &&& b)) ws
  | .out port, s, ws => Q { s with ports := s.ports ++ [(port, s.eax.setWidth 8)] } ws
  | .cli, s, ws => Q { s with eflags := setFlag s.eflags 9 false } ws

/-- The same of instructions one after another. -/
def pres (room : Nat) (Q : Core → List Word → Prop) (code : List Instr) : Core → List Word → Prop :=
  code.foldr (fun i R => pre room R i) Q

section

variable {Q : Core → List Word → Prop}

/-- One piece of code after another. -/
theorem pres_append (code code' : List Instr) : pres room Q (code ++ code') = pres room (pres room Q code') code :=
  List.foldr_append ..

/-- Other registers are not the stack pointer. -/
@[simp] theorem Core.set_esp_of_ne (s : Core) {r : Reg} (hr : r ≠ .esp) (w : Word) : (s.set r w).esp = s.esp := by
  cases r <;> first | rfl | exact absurd rfl hr

/-- Nor are segment registers. -/
@[simp] theorem Core.setSeg_esp (s : Core) (r : Seg) (h : BitVec 16) : (s.setSeg r h).esp = s.esp := by
  cases r <;> rfl

/-- A displacement is a multiple of four. -/
theorem disp_eq {disp : Word} (h : disp.toNat % 4 = 0) : disp = BitVec.ofNat 32 (4 * (disp.toNat / 4)) := by
  apply BitVec.eq_of_toNat_eq
  have hlt := disp.isLt
  rw [BitVec.toNat_ofNat, Nat.mod_eq_of_lt (by omega)]
  omega

/-- A value with a property is one. -/
theorem elim_False {P : Word → Prop} {o : Option Word} (h : o.elim False P) : ∃ w, o = some w ∧ P w := by
  cases o with
  | none => exact h.elim
  | some w => exact ⟨w, rfl, h⟩

/-- A push. -/
theorem Brings.pushed (h : Brings low room c s ws c') (hroom : ws.length < room) (w : Word) :
    Brings low room c (s.set .esp (s.esp - 4)) (w :: ws) (c'.push w) := by
  have hpush := h.trans (h.shows.push hroom w)
  rw [h.core] at hpush
  exact hpush

/-- The top word is dropped. -/
theorem Brings.raised (h : Brings low room c s (w :: ws) c') :
    Brings low room c (s.set .esp (s.esp + 4)) ws (c'.withCore (c'.set .esp (c'.esp + 4))) := by
  have hraise := h.trans (h.shows.raise (n := 1) (Nat.succ_pos _) (s := c'.set .esp (c'.esp + 4)) rfl)
  rw [h.core] at hraise ⊢
  exact hraise

/-- A pop. -/
theorem Brings.popped (h : Brings low room c s (w :: ws) c') {r : Reg} (hr : r ≠ .esp) :
    Brings low room c ((s.set .esp (s.esp + 4)).set r w) ws (c'.pop r) := by
  have hword : c'.wordAt c'.esp = w := h.shows.first
  have hraised := h.trans (h.shows.raise (n := 1) (Nat.succ_pos _) (s := (c'.set .esp (c'.esp + 4)).set r w)
    (Core.set_esp_of_ne _ hr _))
  unfold Cpu.pop
  rw [hword]
  rw [h.core] at hraised ⊢
  exact hraised

/-- A run that begins here. -/
theorem Shows.brings (h : Shows low room c ws) : Brings low room c c.toCore ws c := ⟨rfl, h, .refl low room c.mem⟩

/-- `pusha` pushes eight registers, the stack pointer as it was among them. -/
theorem brings_pusha (h : Shows low room c ws) (hroom : ws.length + 8 ≤ room) :
    Brings low room c (c.set .esp (c.esp - 32)) ([c.edi, c.esi, c.ebp, c.esp, c.ebx, c.edx, c.ecx, c.eax] ++ ws)
      (exec .pusha c) := by
  have h₁ := h.brings.pushed (by omega) c.eax
  have h₂ := h₁.pushed (by rw [List.length_cons]; omega) c.ecx
  have h₃ := h₂.pushed (by simp only [List.length_cons]; omega) c.edx
  have h₄ := h₃.pushed (by simp only [List.length_cons]; omega) c.ebx
  have h₅ := h₄.pushed (by simp only [List.length_cons]; omega) c.esp
  have h₆ := h₅.pushed (by simp only [List.length_cons]; omega) c.ebp
  have h₇ := h₆.pushed (by simp only [List.length_cons]; omega) c.esi
  have h₈ := h₇.pushed (by simp only [List.length_cons]; omega) c.edi
  have hesp : c.esp - 4 - 4 - 4 - 4 - 4 - 4 - 4 - 4 = c.esp - 32 := by bv_omega
  simp only [Core.set] at h₈
  rw [hesp] at h₈
  exact h₈

/-- `popa` pops them again, but not the stack pointer. -/
theorem brings_popa {edi esi ebp skipped ebx edx ecx eax : Word}
    (h : Shows low room c (edi :: esi :: ebp :: skipped :: ebx :: edx :: ecx :: eax :: ws)) :
    Brings low room c { c.toCore with
      edi := edi, esi := esi, ebp := ebp, esp := c.esp + 32, ebx := ebx, edx := edx, ecx := ecx, eax := eax } ws
      (exec .popa c) := by
  have h₁ := h.brings.popped (r := .edi) (by decide)
  have h₂ := h₁.popped (r := .esi) (by decide)
  have h₃ := h₂.popped (r := .ebp) (by decide)
  have h₄ := h₃.raised
  have h₅ := h₄.popped (r := .ebx) (by decide)
  have h₆ := h₅.popped (r := .edx) (by decide)
  have h₇ := h₆.popped (r := .ecx) (by decide)
  have h₈ := h₇.popped (r := .eax) (by decide)
  have hesp : c.esp + 4 + 4 + 4 + 4 + 4 + 4 + 4 + 4 = c.esp + 32 := by bv_omega
  simp only [Core.set] at h₈
  rw [hesp] at h₈
  exact h₈

/-- Half of a word is put at an even displacement. -/
theorem brings_putHalf (h : Shows low room c ws) {disp : Word} (hdisp : disp.toNat % 2 = 0)
    (hw : ws[disp.toNat / 4]? = some w) (half : BitVec 16) :
    Brings low room c c.toCore
      (ws.set (disp.toNat / 4) (if disp.toNat % 4 = 2 then ofHalves (lowHalf w) half else ofHalves half (highHalf w)))
      (c.put (c.esp + disp) (halfBytes half)) := by
  obtain ⟨hlt, rfl⟩ := List.getElem?_eq_some_iff.mp hw
  have hput := h.putHalf hlt half (disp.toNat % 4 = 2)
  have hat : disp = BitVec.ofNat 32 (4 * (disp.toNat / 4) + if decide (disp.toNat % 4 = 2) = true then 2 else 0) := by
    apply BitVec.eq_of_toNat_eq
    have hdlt := disp.isLt
    rw [BitVec.toNat_ofNat]
    by_cases htwo : disp.toNat % 4 = 2
    · rw [if_pos (decide_eq_true htwo), Nat.mod_eq_of_lt (by omega)]
      omega
    · rw [if_neg (by simpa using htwo), Nat.mod_eq_of_lt (by omega)]
      omega
  rw [← hat] at hput
  simpa only [decide_eq_true_eq] using hput

/-- An instruction does what its precondition says. -/
theorem exec_pre (h : Shows low room c ws) (i : Instr) (hpre : pre room Q i c.toCore ws) :
    ∃ s ws', Q s ws' ∧ Brings low room c s ws' (exec i c) := by
  cases i with
  | push r => exact ⟨_, _, hpre.2, h.push hpre.1 _⟩
  | pushImm w => exact ⟨_, _, hpre.2, h.push hpre.1 _⟩
  | pop r =>
    obtain ⟨hr, hQ⟩ := hpre
    cases ws with
    | nil => exact hQ.elim
    | cons w ws => exact ⟨_, _, hQ, h.brings.popped hr⟩
  | pusha => exact ⟨_, _, hpre.2, brings_pusha h hpre.1⟩
  | popa =>
    match ws, hpre with
    | _ :: _ :: _ :: _ :: _ :: _ :: _ :: _ :: _, hQ => exact ⟨_, _, hQ, brings_popa h⟩
  | mov dst src => exact ⟨_, _, hpre.2, h.withCore (c.set_esp_of_ne hpre.1 _)⟩
  | load dst base disp =>
    obtain ⟨rfl, hdst, hdisp, hQ⟩ := hpre
    obtain ⟨w, hw, hQ⟩ := elim_False hQ
    have hword := h.word hw
    rw [← disp_eq hdisp] at hword
    refine ⟨_, _, hQ, ?_⟩
    rw [← hword]
    exact h.withCore (c.set_esp_of_ne hdst _)
  | store base disp src =>
    obtain ⟨rfl, hdisp, hlength, hQ⟩ := hpre
    have hput := h.putWord hlength (c.get src)
    rw [← disp_eq hdisp] at hput
    exact ⟨_, _, hQ, hput⟩
  | loadHalf dst base disp =>
    obtain ⟨rfl, hdst, hdisp, hQ⟩ := hpre
    obtain ⟨w, hw, hQ⟩ := elim_False hQ
    have hword := h.word hw
    rw [← disp_eq hdisp] at hword
    refine ⟨_, _, hQ, ?_⟩
    rw [← hword]
    exact h.withCore (c.set_esp_of_ne hdst _)
  | storeHalf base disp half =>
    obtain ⟨rfl, hdisp, hQ⟩ := hpre
    obtain ⟨w, hw, hQ⟩ := elim_False hQ
    exact ⟨_, _, hQ, brings_putHalf h hdisp hw half⟩
  | storeSeg base disp src =>
    obtain ⟨rfl, hdisp, hQ⟩ := hpre
    obtain ⟨w, hw, hQ⟩ := elim_False hQ
    exact ⟨_, _, hQ, brings_putHalf h hdisp hw (c.getSeg src)⟩
  | movHalf dst half => exact ⟨_, _, hpre.2, h.withCore (c.set_esp_of_ne hpre.1 _)⟩
  | movByte dst b => exact ⟨_, _, hpre.2, h.withCore (c.set_esp_of_ne hpre.1 _)⟩
  | setSeg dst src => exact ⟨_, _, hpre, h.withCore (c.setSeg_esp dst _)⟩
  | add r n =>
    obtain ⟨rfl, hn, hlength, hQ⟩ := hpre
    refine ⟨_, _, hQ, h.raise hlength ?_⟩
    rw [← disp_eq hn]
    rfl
  | sub r n =>
    obtain ⟨rfl, rfl, hroom, hQ⟩ := hpre
    exact ⟨_, _, hQ _, h.lower hroom rfl⟩
  | test r r' => exact ⟨_, _, hpre, h.withCore rfl⟩
  | testByte r b => exact ⟨_, _, hpre, h.withCore rfl⟩
  | out port => exact ⟨_, _, hpre, h.withCore rfl⟩
  | cli => exact ⟨_, _, hpre, h.withCore rfl⟩

/-- Code does what its precondition says, and touches nothing but the part of the stack that it may use. -/
theorem execs_pres (h : Shows low room c ws) (code : List Instr) (hpres : pres room Q code c.toCore ws) :
    ∃ s ws', Q s ws' ∧ Brings low room c s ws' (execs code c) := by
  induction code generalizing c ws with
  | nil => exact ⟨_, _, hpres, h.brings⟩
  | cons i code ih =>
    obtain ⟨s, ws', hrest, hfirst⟩ := exec_pre h i hpres
    rw [← hfirst.core] at hrest
    obtain ⟨s', ws'', hQ, hlast⟩ := ih hfirst.shows hrest
    exact ⟨s', ws'', hQ, hfirst.trans hlast⟩

end

/-! ### Calls -/

/-- A function has returned: with the stack pointer and the segments as they were, and with the words above its `n`
arguments as they were, up to `size` words from the stack pointer. -/
structure Returned (size n : Nat) (c c' : Cpu) : Prop where
  esp : c'.esp = c.esp
  segments : c'.cs = c.cs ∧ c'.ss = c.ss ∧ c'.ds = c.ds ∧ c'.es = c.es ∧ c'.fs = c.fs ∧ c'.gs = c.gs
  stack : ∀ x, 4 * n ≤ (x - c.esp).toNat → (x - c.esp).toNat < 4 * size → c'.mem x = c.mem x

/-- There is always something in memory. -/
theorem Cpu.exists_words (c : Cpu) (a : Word) (n : Nat) :
    ∃ ws : List Word, ws.length = n ∧ (viewOf c.mem).Holds a (ws.flatMap wordBytes) := by
  induction n generalizing a with
  | zero => exact ⟨[], rfl, holds_nil⟩
  | succ n ih =>
    obtain ⟨ws, hlength, hholds⟩ := ih (a + 4)
    exact ⟨c.wordAt a :: ws, congrArg (· + 1) hlength, holds_words_cons.mpr ⟨c.holds_wordAt a, hholds⟩⟩

/-- Behind a call the stack is as it was, but for the arguments. -/
theorem Shows.called {args : List Word} (h : Shows low room c (args ++ ws))
    (hreturned : Returned room args.length c c') :
    ∃ args' : List Word, args'.length = args.length ∧ Shows low room c' (args' ++ ws) := by
  obtain ⟨args', hargs, hfirst⟩ := c'.exists_words c.esp args.length
  have hlength : (args' ++ ws).length = (args ++ ws).length := by
    rw [List.length_append, List.length_append, hargs]
  have hroom := h.length
  have hfits := h.fits
  have hlast := h.holds
  rw [List.flatMap_append, holds_append, length_flatMap_wordBytes] at hlast
  refine ⟨args', hargs, hfits, hlength ▸ hroom, ?_, ?_⟩
  · rw [hreturned.esp, hlength]
    exact h.top
  · rw [hreturned.esp, List.flatMap_append, holds_append, length_flatMap_wordBytes, hargs]
    refine ⟨hfirst, fun j hj => ?_⟩
    rw [← hlast.2 j hj]
    rw [length_flatMap_wordBytes] at hj
    rw [List.length_append] at hroom
    have hat : (c.esp + BitVec.ofNat 32 (4 * args.length) + BitVec.ofNat 32 j - c.esp).toNat = 4 * args.length + j := by
      rw [add_ofNat_add, BitVec.add_comm, BitVec.add_sub_cancel, BitVec.toNat_ofNat, Nat.mod_eq_of_lt (by omega)]
    exact congrArg some (hreturned.stack _ (by omega) (by omega))

/-! ### Interrupts -/

/-- An empty stack. -/
theorem shows_nil {esp0 : Word} (hfits : 4 * room ≤ 4294967296) (hesp : c.esp = esp0) :
    Shows (esp0 - BitVec.ofNat 32 (4 * room)) room c [] where
  fits := hfits
  length := Nat.zero_le room
  top := by
    rw [hesp, List.length_nil, Nat.sub_zero]
    exact (BitVec.sub_add_cancel _ _).symm
  holds := holds_nil

/-- What an interrupt gate does on the stack where it pushes: the flags and the instruction pointer with its segment,
and last the error code. -/
theorem Brings.entered (h : Brings low room c s ws c') (hroom : ws.length + 4 ≤ room) (selector : BitVec 16)
    (offset flags cs eip : Word) (error : Option Word) :
    let pushed := ((c'.push flags).push cs).push eip
    let pushed := error.elim pushed pushed.push
    Brings low room c
      { s with
        esp := s.esp - (if error.isSome then 16 else 12), eip := offset, cs := selector
        eflags := s.eflags &&& ~~~interruptMask }
      (error.toList ++ (eip :: cs :: flags :: ws))
      (pushed.withCore
        { pushed.toCore with eip := offset, cs := selector, eflags := pushed.eflags &&& ~~~interruptMask }) := by
  have h₁ := h.pushed (by omega) flags
  have h₂ := h₁.pushed (by rw [List.length_cons]; omega) cs
  have h₃ := h₂.pushed (by simp only [List.length_cons]; omega) eip
  have hgate {s : Core} {ws : List Word} {c' : Cpu} (h : Brings low room c s ws c') :
      Brings low room c { s with eip := offset, cs := selector, eflags := s.eflags &&& ~~~interruptMask } ws
        (c'.withCore { c'.toCore with eip := offset, cs := selector, eflags := c'.eflags &&& ~~~interruptMask }) := by
    have hgated := h.trans (h.shows.withCore
      (s := { c'.toCore with eip := offset, cs := selector, eflags := c'.eflags &&& ~~~interruptMask }) rfl)
    rw [h.core] at hgated ⊢
    exact hgated
  cases error with
  | none =>
    have hesp : s.esp - 4 - 4 - 4 = s.esp - 12 := by bv_omega
    have hgated := hgate h₃
    simp only [Core.set, hesp] at hgated
    exact hgated
  | some code =>
    have h₄ := h₃.pushed (by simp only [List.length_cons]; omega) code
    have hesp : s.esp - 4 - 4 - 4 - 4 = s.esp - 16 := by bv_omega
    have hgated := hgate h₄
    simp only [Core.set, hesp] at hgated
    exact hgated

/-- An interrupt of an outer level pushes the stack pointer, the flags and the instruction pointer, with their
segments, and last its error code. -/
theorem interrupt_brings {selector ss0 : BitVec 16} {offset esp0 : Word} (error : Option Word)
    (hfits : 4 * room ≤ 4294967296) (hroom : 6 ≤ room) (hring : ringOf c.cs ≠ ringOf selector) :
    Brings (esp0 - BitVec.ofNat 32 (4 * room)) room c
      { c.toCore with
        esp := esp0 - (if error.isSome then 24 else 20), ss := ss0, eip := offset, cs := selector
        eflags := c.eflags &&& ~~~interruptMask }
      (error.toList ++ [c.eip, c.cs.setWidth 32, c.eflags, c.esp, c.ss.setWidth 32])
      (interrupt selector offset ss0 esp0 error c) := by
  have hempty : Brings (esp0 - BitVec.ofNat 32 (4 * room)) room c { c.toCore with esp := esp0, ss := ss0 } []
      (c.withCore { c.toCore with esp := esp0, ss := ss0 }) := ⟨rfl, shows_nil hfits rfl, .refl _ _ c.mem⟩
  have h₁ := hempty.pushed (by rw [List.length_nil]; omega) (c.ss.setWidth 32)
  have h₂ := h₁.pushed (by rw [List.length_singleton]; omega) c.esp
  have hentered := h₂.entered (by simp only [List.length_cons, List.length_nil]; omega) selector offset c.eflags
    (c.cs.setWidth 32) c.eip error
  have hesp : esp0 - 4 - 4 - (if error.isSome then 16 else 12) = esp0 - (if error.isSome then 24 else 20) := by
    split <;> bv_omega
  simp only [Core.set, hesp] at hentered
  unfold interrupt
  rw [if_neg hring]
  exact hentered

/-- An interrupt of the same level stays on its stack. -/
theorem interrupt_brings_inner {selector ss0 : BitVec 16} {offset esp0 : Word} (error : Option Word)
    (hfits : 4 * room ≤ 4294967296) (hroom : 4 ≤ room) (hring : ringOf c.cs = ringOf selector) :
    Brings (c.esp - BitVec.ofNat 32 (4 * room)) room c
      { c.toCore with
        esp := c.esp - (if error.isSome then 16 else 12), eip := offset, cs := selector
        eflags := c.eflags &&& ~~~interruptMask }
      (error.toList ++ [c.eip, c.cs.setWidth 32, c.eflags]) (interrupt selector offset ss0 esp0 error c) := by
  have hempty : Brings (c.esp - BitVec.ofNat 32 (4 * room)) room c c.toCore [] c := (shows_nil hfits rfl).brings
  have hentered := hempty.entered (by rw [List.length_nil]; omega) selector offset c.eflags (c.cs.setWidth 32) c.eip
    error
  unfold interrupt
  rw [if_pos hring]
  exact hentered

/-! ### Returns from interrupts -/

variable {fit : BitVec 16 → Bool} {eip cs eflags esp ss : Word}

/-- A return to the same level. -/
theorem iretd_inner (h : Shows low room c (eip :: cs :: eflags :: ws)) (hring : ringOf (lowHalf cs) = ringOf c.cs) :
    iretd fit c = c.withCore
      { c.toCore with eip := eip, cs := lowHalf cs, eflags := eflags, esp := c.esp + 12 } := by
  have heip : c.wordAt c.esp = eip := h.first
  have hcs : c.wordAt (c.esp + 4) = cs := h.word (i := 1) rfl
  have heflags : c.wordAt (c.esp + 8) = eflags := h.word (i := 2) rfl
  unfold iretd
  rw [heip, hcs, heflags]
  dsimp only
  rw [if_pos hring]

/-- A return to an outer level. -/
theorem iretd_outer (h : Shows low room c (eip :: cs :: eflags :: esp :: ss :: ws))
    (hring : ringOf (lowHalf cs) ≠ ringOf c.cs) :
    iretd fit c = c.withCore
      { c.toCore with
        eip := eip, cs := lowHalf cs, eflags := eflags, esp := esp, ss := lowHalf ss
        ds := if fit c.ds then c.ds else 0, es := if fit c.es then c.es else 0
        fs := if fit c.fs then c.fs else 0, gs := if fit c.gs then c.gs else 0 } := by
  have heip : c.wordAt c.esp = eip := h.first
  have hcs : c.wordAt (c.esp + 4) = cs := h.word (i := 1) rfl
  have heflags : c.wordAt (c.esp + 8) = eflags := h.word (i := 2) rfl
  have hesp : c.wordAt (c.esp + 12) = esp := h.word (i := 3) rfl
  have hss : c.wordAt (c.esp + 16) = ss := h.word (i := 4) rfl
  unfold iretd
  rw [heip, hcs, heflags, hesp, hss]
  dsimp only
  rw [if_neg hring]

end AgenticOs.Lib
