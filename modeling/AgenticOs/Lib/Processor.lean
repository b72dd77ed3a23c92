import AgenticOs.Lib.ByteView

/-!
# A 32-bit processor and its stack

The instructions that interrupt stubs are made of, over registers and a memory of bytes.

* **Words**: a word of memory may be written by halves (`wordByte_ofHalves`), and bytes put into one of
  several words that follow one another change this word only (`Holds.putInto`).
* **Instructions** (`exec`): moves, pushes, pops, arithmetic with its flags, port output. `Core` is the
  processor without memory, so that what does not touch memory can be said without it.
* **Interrupts** (`interrupt`, `iretd`): what the processor pushes when it is interrupted, from an outer level
  on the stack of the task state segment, and what it takes back; on a return to an outer level data segments
  that do not fit become null.
* **Stubs** (`runStub`): lines with labels and calls. A callee is a parameter, a function from the processor
  at the call to the processor behind it, or to nothing when it does not return. Jumps go forward, so that a
  run is as long as the stub at most.

The rules of proof are in `Lib/StackRules.lean`.
-/

namespace AgenticOs.Lib

/-! ### Halves of words -/

/-- The lower half of a word. -/
def lowHalf (w : Word) : BitVec 16 := w.extractLsb' 0 16

/-- The upper half of a word. -/
def highHalf (w : Word) : BitVec 16 := w.extractLsb' 16 16

/-- A word from its halves. -/
def ofHalves (low high : BitVec 16) : Word := (high ++ low : BitVec (16 + 16))

/-- The two bytes of a halfword. -/
def halfBytes (h : BitVec 16) : List Byte := [h.extractLsb' 0 8, h.extractLsb' 8 8]

/-- The lower half of a word is the lower one of its halves. -/
@[simp] theorem lowHalf_ofHalves (low high : BitVec 16) : lowHalf (ofHalves low high) = low := by
  apply BitVec.eq_of_getLsbD_eq
  intro i hi
  simp only [lowHalf, ofHalves, BitVec.getLsbD_extractLsb', BitVec.getLsbD_append, Nat.zero_add]
  simp [hi]

/-- A halfword with zeros above it. -/
theorem ofHalves_zero (h : BitVec 16) : ofHalves h 0 = h.setWidth 32 := by
  apply BitVec.eq_of_getLsbD_eq
  intro i hi
  simp only [ofHalves, BitVec.getLsbD_append, BitVec.getLsbD_setWidth]
  by_cases hlow : i < 16
  · simp [hlow, hi]
  · simp [hlow, BitVec.getLsbD_of_ge h i (Nat.le_of_not_lt hlow)]

/-- The lower half of a halfword with zeros above it is the halfword. -/
@[simp] theorem lowHalf_setWidth (h : BitVec 16) : lowHalf (h.setWidth 32) = h := by
  rw [← ofHalves_zero, lowHalf_ofHalves]

/-- The bytes of a word are those of its halves. -/
theorem wordByte_ofHalves (low high : BitVec 16) {k : Nat} (hk : k < 4) :
    wordByte (ofHalves low high) k = if k < 2 then low.extractLsb' (8 * k) 8 else high.extractLsb' (8 * (k - 2)) 8 := by
  apply BitVec.eq_of_getLsbD_eq
  intro i hi
  unfold wordByte ofHalves
  by_cases hlow : k < 2
  · rw [if_pos hlow]
    simp only [BitVec.getLsbD_extractLsb', BitVec.getLsbD_append]
    simp [show 8 * k + i < 16 by omega]
  · rw [if_neg hlow]
    simp only [BitVec.getLsbD_extractLsb', BitVec.getLsbD_append]
    simp [show ¬ 8 * k + i < 16 by omega, show 8 * k + i - 16 = 8 * (k - 2) + i by omega]

/-- A word is made of its halves. -/
theorem ofHalves_halves (w : Word) : ofHalves (lowHalf w) (highHalf w) = w := by
  apply BitVec.eq_of_getLsbD_eq
  intro i hi
  simp only [lowHalf, highHalf, ofHalves, BitVec.getLsbD_append, BitVec.getLsbD_extractLsb']
  by_cases hlow : i < 16
  · simp [hlow]
  · simp [hlow, show i - 16 < 16 by omega, show 16 + (i - 16) = i by omega]

/-! ### Words one after another -/

namespace ByteView

variable {v : ByteView} {a w : Word} {ws : List Word} {i : Nat}

/-- A byte of words one after another is a byte of one of them. -/
theorem getElem?_flatMap_wordBytes (ws : List Word) (j : Nat) :
    (ws.flatMap wordBytes)[j]? = ws[j / 4]?.map fun w => wordByte w (j % 4) := by
  induction ws generalizing j with
  | nil => rfl
  | cons w ws ih =>
    rw [List.flatMap_cons]
    by_cases hj : j < 4
    · rw [List.getElem?_append_left hj, getElem?_wordBytes w hj, Nat.div_eq_of_lt hj, Nat.mod_eq_of_lt hj]
      rfl
    · rw [List.getElem?_append_right (Nat.le_of_not_lt hj), length_wordBytes, ih]
      have hdiv : j / 4 = (j - 4) / 4 + 1 := by omega
      have hmod : j % 4 = (j - 4) % 4 := by omega
      rw [hdiv, hmod, List.getElem?_cons_succ]

/-- Bytes that are put into one of the words change this word. -/
theorem Holds.putInto (h : v.Holds a (ws.flatMap wordBytes)) (hlen : 4 * ws.length ≤ 4294967296) (hi : i < ws.length)
    {o : Nat} {bytes : List Byte} (hlt : o < 4) (ho : o + bytes.length ≤ 4)
    (hw : ∀ k < 4, some (wordByte w k) =
      if o ≤ k ∧ k < o + bytes.length then bytes[k - o]? else some (wordByte ws[i] k)) :
    (v.overlay (a + BitVec.ofNat 32 (4 * i + o)) bytes).Holds a ((ws.set i w).flatMap wordBytes) := by
  intro j hj
  rw [length_flatMap_wordBytes, List.length_set] at hj
  have hfound := h j (by rw [length_flatMap_wordBytes]; exact hj)
  rw [getElem?_flatMap_wordBytes] at hfound ⊢
  have hat : (a + BitVec.ofNat 32 j - (a + BitVec.ofNat 32 (4 * i + o))).toNat =
      if 4 * i + o ≤ j then j - (4 * i + o) else j + (4294967296 - (4 * i + o)) := by
    rw [toNat_sub_add_ofNat (by omega), BitVec.add_comm, BitVec.add_sub_cancel, BitVec.toNat_ofNat,
      Nat.mod_eq_of_lt (by omega)]
  unfold ByteView.overlay
  rw [hat]
  by_cases hword : j / 4 = i
  · subst hword
    rw [List.getElem?_set_self hi, Option.map_some, hw _ (Nat.mod_lt _ (by decide))]
    by_cases hin : o ≤ j % 4 ∧ j % 4 < o + bytes.length
    · have hat' : (if 4 * (j / 4) + o ≤ j then j - (4 * (j / 4) + o) else j + (4294967296 - (4 * (j / 4) + o))) =
          j % 4 - o := by
        rw [if_pos (by omega)]
        omega
      rw [if_pos hin, hat', if_pos (by omega)]
    · rw [if_neg hin]
      have hout : ¬ (if 4 * (j / 4) + o ≤ j then j - (4 * (j / 4) + o) else j + (4294967296 - (4 * (j / 4) + o))) <
          bytes.length := by
        split <;> omega
      rw [if_neg hout, hfound, List.getElem?_eq_getElem hi]
      rfl
  · have hout : ¬ (if 4 * i + o ≤ j then j - (4 * i + o) else j + (4294967296 - (4 * i + o))) < bytes.length := by
      split <;> omega
    rw [if_neg hout, hfound, List.getElem?_set_ne (Ne.symm hword)]

end ByteView

/-! ### Registers and memory -/

/-- A general register. -/
inductive Reg
  | eax | ecx | edx | ebx | esp | ebp | esi | edi
deriving DecidableEq

/-- A segment register. -/
inductive Seg
  | cs | ss | ds | es | fs | gs
deriving DecidableEq

/-- The processor without memory: its registers, and what it has sent to which port. -/
structure Core where
  eax : Word
  ecx : Word
  edx : Word
  ebx : Word
  esp : Word
  ebp : Word
  esi : Word
  edi : Word
  cs : BitVec 16
  ss : BitVec 16
  ds : BitVec 16
  es : BitVec 16
  fs : BitVec 16
  gs : BitVec 16
  eip : Word
  eflags : Word
  ports : List (Byte × Byte)

/-! ### Flags -/

/-- `flags` with one bit set or cleared. -/
def setFlag (flags : Word) (i : Nat) (b : Bool) : Word :=
  if b then flags ||| BitVec.twoPow 32 i else flags &&& ~~~BitVec.twoPow 32 i

/-- Parity, zero and sign of a result. -/
def resultFlags (flags : Word) {n : Nat} (result : BitVec n) : Word :=
  let parity := (List.range 8).foldl (fun even i => even ^^ result.getLsbD i) true
  setFlag (setFlag (setFlag flags 2 parity) 6 (result = 0)) 7 result.msb

/-- The flags behind a logical operation; the adjust flag, which it leaves undefined, stays. -/
def testFlags (flags : Word) {n : Nat} (result : BitVec n) : Word :=
  resultFlags (setFlag (setFlag flags 0 false) 11 false) result

/-- The flags behind `a + b`. -/
def addFlags (flags a b : Word) : Word :=
  let carry := decide (4294967296 ≤ a.toNat + b.toNat)
  let adjust := decide (16 ≤ a.toNat % 16 + b.toNat % 16)
  let overflow := decide (a.msb = b.msb ∧ (a + b).msb ≠ a.msb)
  resultFlags (setFlag (setFlag (setFlag flags 0 carry) 4 adjust) 11 overflow) (a + b)

/-- The flags behind `a - b`. -/
def subFlags (flags a b : Word) : Word :=
  let borrow := decide (a.toNat < b.toNat)
  let adjust := decide (a.toNat % 16 < b.toNat % 16)
  let overflow := decide (a.msb ≠ b.msb ∧ (a - b).msb ≠ a.msb)
  resultFlags (setFlag (setFlag (setFlag flags 0 borrow) 4 adjust) 11 overflow) (a - b)

/-- Setting one flag changes this flag. -/
theorem getLsbD_setFlag (flags : Word) {i : Nat} (hi : i < 32) (b : Bool) (j : Nat) :
    (setFlag flags i b).getLsbD j = if j = i then b else flags.getLsbD j := by
  unfold setFlag
  by_cases hj : j = i
  · subst hj
    cases b <;> simp [hi]
  · cases b with
    | true => simp [hj, Ne.symm hj, BitVec.getLsbD_twoPow]
    | false =>
      simp only [Bool.false_eq_true, if_false, if_neg hj, BitVec.getLsbD_and, BitVec.getLsbD_not, BitVec.getLsbD_twoPow]
      rcases Nat.lt_or_ge j 32 with hlt | hge
      · simp [hlt, Ne.symm hj]
      · simp [BitVec.getLsbD_of_ge flags j hge]

/-- The zero flag behind a logical operation. -/
theorem zero_testFlags (flags : Word) {n : Nat} (result : BitVec n) :
    (testFlags flags result).getLsbD 6 = decide (result = 0) := by
  unfold testFlags resultFlags
  rw [getLsbD_setFlag _ (by decide), if_neg (by decide), getLsbD_setFlag _ (by decide), if_pos rfl]

namespace Core

variable (s : Core)

def get : Reg → Word
  | .eax => s.eax
  | .ecx => s.ecx
  | .edx => s.edx
  | .ebx => s.ebx
  | .esp => s.esp
  | .ebp => s.ebp
  | .esi => s.esi
  | .edi => s.edi

def set (r : Reg) (w : Word) : Core :=
  match r with
  | .eax => { s with eax := w }
  | .ecx => { s with ecx := w }
  | .edx => { s with edx := w }
  | .ebx => { s with ebx := w }
  | .esp => { s with esp := w }
  | .ebp => { s with ebp := w }
  | .esi => { s with esi := w }
  | .edi => { s with edi := w }

def getSeg : Seg → BitVec 16
  | .cs => s.cs
  | .ss => s.ss
  | .ds => s.ds
  | .es => s.es
  | .fs => s.fs
  | .gs => s.gs

def setSeg (r : Seg) (h : BitVec 16) : Core :=
  match r with
  | .cs => { s with cs := h }
  | .ss => { s with ss := h }
  | .ds => { s with ds := h }
  | .es => { s with es := h }
  | .fs => { s with fs := h }
  | .gs => { s with gs := h }

/-- The lower half of a register is replaced. -/
def setLow (r : Reg) (h : BitVec 16) : Core := s.set r (ofHalves h (highHalf (s.get r)))

/-- The zero flag. -/
def zero : Bool := s.eflags.getLsbD 6

/-- `add r, w` -/
def add (r : Reg) (w : Word) : Core := { s.set r (s.get r + w) with eflags := addFlags s.eflags (s.get r) w }

/-- `sub r, w` -/
def sub (r : Reg) (w : Word) : Core := { s.set r (s.get r - w) with eflags := subFlags s.eflags (s.get r) w }

/-- The flags behind a logical operation. -/
def test {n : Nat} (result : BitVec n) : Core := { s with eflags := testFlags s.eflags result }

end Core

/-- A processor with its memory. -/
structure Cpu extends Core where
  mem : Word → Byte

/-- An instruction. The address operands are `[base + disp]`. -/
inductive Instr
  | push (r : Reg)
  | pushImm (w : Word)
  | pop (r : Reg)
  | pusha
  | popa
  | mov (dst src : Reg)
  | load (dst base : Reg) (disp : Word)
  | store (base : Reg) (disp : Word) (src : Reg)
  | loadHalf (dst base : Reg) (disp : Word)
  | storeHalf (base : Reg) (disp : Word) (h : BitVec 16)
  | storeSeg (base : Reg) (disp : Word) (src : Seg)
  | movHalf (dst : Reg) (h : BitVec 16)
  | movByte (dst : Reg) (b : Byte)
  | setSeg (dst : Seg) (src : Reg)
  | add (r : Reg) (w : Word)
  | sub (r : Reg) (w : Word)
  | test (r r' : Reg)
  | testByte (r : Reg) (b : Byte)
  | out (port : Byte)
  | cli

/-- What memory shows. -/
def viewOf (mem : Word → Byte) : ByteView := fun x => some (mem x)

/-- Bytes are stored from an address on. -/
def storeAt (mem : Word → Byte) (a : Word) (bytes : List Byte) : Word → Byte := fun x =>
  bytes.getD (x - a).toNat (mem x)

namespace Cpu

variable (c : Cpu)

/-- The word at an address. -/
def wordAt (a : Word) : Word := ((viewOf c.mem).word a).getD 0

/-- Bytes are stored from an address on. -/
def put (a : Word) (bytes : List Byte) : Cpu := { c with mem := storeAt c.mem a bytes }

/-- Another state of the registers. -/
def withCore (s : Core) : Cpu := { c with toCore := s }

/-- A word is pushed. -/
def push (w : Word) : Cpu := (c.withCore (c.set .esp (c.esp - 4))).put (c.esp - 4) (wordBytes w)

/-- The words popped into registers from the top of the stack on. -/
def pop (r : Reg) : Cpu := c.withCore ((c.set .esp (c.esp + 4)).set r (c.wordAt c.esp))

end Cpu

/-- One instruction. `popa` skips the word where `pusha` left the stack pointer. -/
def exec : Instr → Cpu → Cpu
  | .push r, c => c.push (c.get r)
  | .pushImm w, c => c.push w
  | .pop r, c => c.pop r
  | .pusha, c => [c.eax, c.ecx, c.edx, c.ebx, c.esp, c.ebp, c.esi, c.edi].foldl Cpu.push c
  | .popa, c =>
    let c := ((c.pop .edi).pop .esi).pop .ebp
    (((c.withCore (c.set .esp (c.esp + 4))).pop .ebx |>.pop .edx).pop .ecx).pop .eax
  | .mov dst src, c => c.withCore (c.set dst (c.get src))
  | .load dst base disp, c => c.withCore (c.set dst (c.wordAt (c.get base + disp)))
  | .store base disp src, c => c.put (c.get base + disp) (wordBytes (c.get src))
  | .loadHalf dst base disp, c => c.withCore (c.setLow dst (lowHalf (c.wordAt (c.get base + disp))))
  | .storeHalf base disp h, c => c.put (c.get base + disp) (halfBytes h)
  | .storeSeg base disp src, c => c.put (c.get base + disp) (halfBytes (c.getSeg src))
  | .movHalf dst h, c => c.withCore (c.setLow dst h)
  | .movByte dst b, c => c.withCore (c.set dst (c.get dst &&& ~~~0xFF ||| b.setWidth 32))
  | .setSeg dst src, c => c.withCore (c.toCore.setSeg dst (lowHalf (c.get src)))
  | .add r w, c => c.withCore (c.toCore.add r w)
  | .sub r w, c => c.withCore (c.toCore.sub r w)
  | .test r r', c => c.withCore (c.toCore.test (c.get r &&& c.get r'))
  | .testByte r b, c => c.withCore (c.toCore.test ((c.get r).setWidth 8 &&& b))
  | .out port, c => c.withCore { c.toCore with ports := c.ports ++ [(port, c.eax.setWidth 8)] }
  | .cli, c => c.withCore { c.toCore with eflags := setFlag c.eflags 9 false }

/-- One instruction after another. -/
def execs (code : List Instr) (c : Cpu) : Cpu := code.foldl (fun c i => exec i c) c

/-- No instruction. -/
theorem execs_nil (c : Cpu) : execs [] c = c := rfl

/-- An instruction and the others. -/
theorem execs_cons (i : Instr) (code : List Instr) (c : Cpu) : execs (i :: code) c = execs code (exec i c) := rfl

/-- Code in two parts. -/
theorem execs_append (code code' : List Instr) (c : Cpu) : execs (code ++ code') c = execs code' (execs code c) :=
  List.foldl_append ..

/-! ### Interrupts -/

/-- The privilege level of a selector. -/
def ringOf (selector : BitVec 16) : Nat := selector.toNat % 4

/-- What an interrupt clears in `eflags`: `TF`, `IF`, `NT`, `RF` and `VM`. -/
def interruptMask : Word := 0x34300

/-- An interrupt gate is taken: from an outer level, on the stack of the task state segment. The upper halves of
the words that hold selectors are zero. -/
def interrupt (selector : BitVec 16) (offset : Word) (ss0 : BitVec 16) (esp0 : Word) (error : Option Word)
    (c : Cpu) : Cpu :=
  let outer := if ringOf c.cs = ringOf selector then c
    else ((c.withCore { c.toCore with esp := esp0, ss := ss0 }).push (c.ss.setWidth 32)).push c.esp
  let pushed := ((outer.push c.eflags).push (c.cs.setWidth 32)).push c.eip
  let pushed := error.elim pushed pushed.push
  pushed.withCore { pushed.toCore with eip := offset, cs := selector, eflags := pushed.eflags &&& ~~~interruptMask }

/-- The return from an interrupt. On a return to an outer level the data segments that are not of this level
become null; `fit` are those that are. -/
def iretd (fit : BitVec 16 → Bool) (c : Cpu) : Cpu :=
  let cs := lowHalf (c.wordAt (c.esp + 4))
  let inner := { c.toCore with eip := c.wordAt c.esp, cs := cs, eflags := c.wordAt (c.esp + 8), esp := c.esp + 12 }
  let keep := fun selector => if fit selector then selector else 0
  c.withCore <| if ringOf cs = ringOf c.cs then inner
    else { inner with
      esp := c.wordAt (c.esp + 12), ss := lowHalf (c.wordAt (c.esp + 16))
      ds := keep c.ds, es := keep c.es, fs := keep c.fs, gs := keep c.gs }

/-! ### Stubs -/

/-- A line of a stub, with calls of `F` and labels of `L`. -/
inductive Line (F L : Type)
  | op (i : Instr)
  | call (f : F)
  | jz (label : L)
  | jmp (label : L)
  | label (label : L)
  | iretd
  | hlt

/-- Instructions as lines. -/
def ops {F L : Type} (code : List Instr) : List (Line F L) := code.map .op

/-- How a stub ends. -/
inductive StubEnd
  | resumed (c : Cpu)
  | halted

section Stubs

variable {F L : Type} [DecidableEq L] (fit : BitVec 16 → Bool) (callee : F → Cpu → Option Cpu)

/-- The run of a stub from a label on, or from its first line. A callee gets the processor at the call and leaves
it behind the call, or it does not return. `hlt` with interrupts off stops the processor for good. -/
def runStub : Option L → List (Line F L) → Cpu → Option StubEnd
  | _, [], _ => none
  | some l, .label m :: lines, c => runStub (if m = l then none else some l) lines c
  | some l, _ :: lines, c => runStub (some l) lines c
  | none, .op i :: lines, c => runStub none lines (exec i c)
  | none, .call f :: lines, c => (callee f c).bind (runStub none lines)
  | none, .jz l :: lines, c => runStub (if c.zero then some l else none) lines c
  | none, .jmp l :: lines, c => runStub (some l) lines c
  | none, .label _ :: lines, c => runStub none lines c
  | none, .iretd :: _, c => some (.resumed (iretd fit c))
  | none, .hlt :: _, c => if c.eflags.getLsbD 9 then none else some .halted

/-- The instructions of a stub up to its next line of another kind. -/
theorem runStub_ops (code : List Instr) (lines : List (Line F L)) (c : Cpu) :
    runStub fit callee none (ops code ++ lines) c = runStub fit callee none lines (execs code c) := by
  induction code generalizing c with
  | nil => rfl
  | cons i code ih => exact ih (exec i c)

/-- A call, and what follows it if it returns. -/
theorem runStub_call (f : F) (lines : List (Line F L)) (c : Cpu) :
    runStub fit callee none (.call f :: lines) c = (callee f c).bind (runStub fit callee none lines) := rfl

/-- A jump that is taken. -/
theorem runStub_jz_of_zero (l : L) (lines : List (Line F L)) {c : Cpu} (hzero : c.zero = true) :
    runStub fit callee none (.jz l :: lines) c = runStub fit callee (some l) lines c := by
  show runStub fit callee (if c.zero then some l else none) lines c = _
  rw [if_pos hzero]

/-- A jump that is not taken. -/
theorem runStub_jz_of_not (l : L) (lines : List (Line F L)) {c : Cpu} (hzero : c.zero = false) :
    runStub fit callee none (.jz l :: lines) c = runStub fit callee none lines c := by
  show runStub fit callee (if c.zero then some l else none) lines c = _
  rw [hzero, if_neg Bool.false_ne_true]

/-- The end of a stub that returns from the interrupt. -/
theorem runStub_iretd (lines : List (Line F L)) (c : Cpu) :
    runStub fit callee none (.iretd :: lines) c = some (.resumed (iretd fit c)) := rfl

end Stubs

end AgenticOs.Lib
