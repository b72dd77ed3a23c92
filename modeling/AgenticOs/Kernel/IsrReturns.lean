import AgenticOs.Kernel.IsrStubs

/-!
# The stubs of `kernel/isr.asm` that are no traps of the kernel

The stubs of the keyboard and of the exceptions that no process survives save the general registers, with the
segments as they are, on the stack where the interrupt pushed. They take interrupts from the programs and from the
kernel itself.

* **The stack of a stub** (`Saved`): whatever was interrupted, and in whichever ring, its registers lie on the stack
  behind `pusha` (`saved_pusha`), under the arguments that the stub pushes (`Saved.pushImm`, `Saved.pushError`), and
  are still there when a function has returned (`Saved.called`).
* **The exceptions** (`exception_reports`): `isr_stub_0`, `isr_stub_6` and `isr_stub_13` call `exception_handler`
  with the vector and the error code, and do nothing else before. `exception_handler` does not return, and so
  nothing is resumed (`exception_stops`).
* **The keyboard** (`keyboard_passes`): `isr_stub_33` calls `keyboard_handler`, and `isr_handler` with its vector.
  When these return as functions in C do, what was interrupted goes on with all its registers.
* `other_interrupts_answered` puts the two together.
-/

namespace AgenticOs

open Lib

/-! ### The code -/

/-- Source: `isr.asm` `ISR_NOERRCODE` -/
def isrNoErrCode (vector : Word) : StubCode :=
  ops [.pusha, .pushImm 0, .pushImm vector] ++ [.call .exceptionHandler] ++ ops [.add .esp 8, .popa] ++ [.iretd]

/-- Source: `isr.asm` `ISR_ERRCODE` -/
def isrErrCode (vector : Word) : StubCode :=
  ops [.pusha, .load .eax .esp 32, .push .eax, .pushImm vector] ++ [.call .exceptionHandler] ++
    ops [.add .esp 8, .popa, .add .esp 4] ++ [.iretd]

/-- Source: `isr.asm` `isr_stub_0` -/
def isrStub0 : StubCode := isrNoErrCode 0

/-- Source: `isr.asm` `isr_stub_6` -/
def isrStub6 : StubCode := isrNoErrCode 6

/-- Source: `isr.asm` `isr_stub_13` -/
def isrStub13 : StubCode := isrErrCode 13

/-- Source: `isr.asm` `isr_stub_33` -/
def isrStub33 : StubCode :=
  ops [.pusha] ++ [.call .keyboardHandler] ++ ops [.pushImm 33] ++ [.call .isrHandler] ++
    ops [.add .esp 4, .popa] ++ [.iretd]

/-- The exceptions that no process survives, but for the page fault. -/
inductive Exception
  | divideError
  | invalidOpcode
  | generalProtection (errorCode : Word)

/-- The stub of an exception. -/
def Exception.stub : Exception → StubCode
  | .divideError => isrStub0
  | .invalidOpcode => isrStub6
  | .generalProtection _ => isrStub13

/-- The error code that the processor pushes. -/
def Exception.errorCode : Exception → Option Word
  | .generalProtection errorCode => some errorCode
  | _ => none

/-- The vector and the error code, as `exception_handler` gets them. -/
def Exception.arguments : Exception → List Word
  | .divideError => [0, 0]
  | .invalidOpcode => [6, 0]
  | .generalProtection errorCode => [13, errorCode]

/-! ### The stack of a stub -/

/-- What an interrupt pushes but for its error code. From the code segment of the kernel it stays on its stack. -/
def Lib.Cpu.pushed (c : Cpu) : List Word :=
  [c.eip, c.cs.setWidth 32, c.eflags] ++ if ringOf c.cs = 0 then [] else [c.esp, c.ss.setWidth 32]

/-- The lower end of 16 words where an interrupt pushes. -/
def Lib.Cpu.bottom (c : Cpu) (esp0 : Word) : Word := (if ringOf c.cs = 0 then c.esp else esp0) - 64

/-- The segments behind an interrupt gate of the kernel. -/
def Lib.Core.EnteredFrom (s s₀ : Core) : Prop :=
  s.cs = 0x08 ∧ (ringOf s₀.cs = 0 → s.ss = s₀.ss) ∧ s.ds = s₀.ds ∧ s.es = s₀.es ∧ s.fs = s₀.fs ∧ s.gs = s₀.gs

/-- The data segments that are loaded are of the level of the code. -/
def Lib.Core.Fits (fit : BitVec 16 → Bool) (s : Core) : Prop :=
  ringOf s.cs = 0 ∨ fit s.ds ∧ fit s.es ∧ fit s.fs ∧ fit s.gs

/-- The registers of what is interrupted lie on the stack, with some words below them. -/
structure Saved (c : Cpu) (esp0 : Word) (error : Option Word) (words : List Word) (c' : Cpu) : Prop where
  entered : c'.EnteredFrom c.toCore
  stack : ∃ skipped, Shows (c.bottom esp0) 16 c'
    (words ++ ([c.edi, c.esi, c.ebp, skipped, c.ebx, c.edx, c.ecx, c.eax] ++ (error.toList ++ c.pushed)))

variable {fit : BitVec 16 → Bool} {callee : CFunction → Cpu → Option Cpu} {c c' c'' : Cpu} {offset esp0 : Word}
  {error : Option Word} {words : List Word}

variable (offset) in
/-- An interrupt saves the instruction pointer and the flags; every other register is still there. -/
theorem trapped_shows (c : Cpu) (esp0 : Word) (error : Option Word) :
    ∃ esp ss eflags, (ringOf c.cs = 0 → ss = c.ss) ∧ Brings (c.bottom esp0) 16 c
      { c.toCore with esp := esp, ss := ss, eip := offset, cs := 0x08, eflags := eflags } (error.toList ++ c.pushed)
      (c.trapped offset esp0 error) := by
  have hfits : 4 * 16 ≤ 4294967296 := by decide
  unfold Cpu.bottom Cpu.pushed
  by_cases hring : ringOf c.cs = 0
  · rw [if_pos hring, if_pos hring]
    exact ⟨_, _, _, fun _ => rfl, interrupt_brings_inner error hfits (by decide) hring⟩
  · rw [if_neg hring, if_neg hring]
    exact ⟨_, _, _, fun hzero => absurd hzero hring, interrupt_brings error hfits (by decide) hring⟩

/-- What is pushed is short. -/
theorem length_pushed_le (c : Cpu) (error : Option Word) : (error.toList ++ c.pushed).length ≤ 6 := by
  have hpushed : c.pushed.length ≤ 5 := by
    unfold Cpu.pushed
    split
    · exact show 3 ≤ 5 by decide
    · exact Nat.le_refl 5
  rw [List.length_append]
  cases error with
  | none => exact show 0 + c.pushed.length ≤ 6 by omega
  | some code => exact show 1 + c.pushed.length ≤ 6 by omega

/-- `pusha` behind the gate. -/
theorem saved_pusha : Saved c esp0 error [] (exec .pusha (c.trapped offset esp0 error)) := by
  obtain ⟨esp, ss, eflags, hss, htrap⟩ := trapped_shows offset c esp0 error
  have hlength := length_pushed_le c error
  have hbrings := brings_pusha htrap.shows (by omega)
  have hcore := hbrings.core
  have hshows := hbrings.shows
  rw [htrap.core] at hcore hshows
  refine ⟨?_, _, hshows⟩
  rw [hcore]
  exact ⟨rfl, hss, rfl, rfl, rfl, rfl⟩

namespace Saved

/-- The words of a frame are fewer than sixteen. -/
theorem length_lt (words : List Word) (hwords : words.length ≤ 1) (skipped : Word) :
    (words ++ ([c.edi, c.esi, c.ebp, skipped, c.ebx, c.edx, c.ecx, c.eax] ++ (error.toList ++ c.pushed))).length <
      16 := by
  have hlength := length_pushed_le c error
  rw [List.length_append, List.length_append]
  exact show words.length + (8 + (error.toList ++ c.pushed).length) < 16 by omega

/-- An argument is pushed. -/
theorem pushImm (h : Saved c esp0 error words c') (hwords : words.length ≤ 1) (w : Word) :
    Saved c esp0 error (w :: words) (exec (.pushImm w) c') := by
  obtain ⟨skipped, hshows⟩ := h.stack
  have hbrings := hshows.push (length_lt words hwords skipped) w
  exact ⟨h.entered, skipped, hbrings.shows⟩

/-- The error code is pushed. -/
theorem pushError {code : Word} (h : Saved c esp0 (some code) [] c') :
    Saved c esp0 (some code) [code] (execs [.load .eax .esp 32, .push .eax] c') := by
  obtain ⟨skipped, hshows⟩ := h.stack
  have hcode : c'.wordAt (c'.esp + 32) = code := hshows.word (i := 8) rfl
  have hloaded := hshows.withCore (s := c'.set .eax (c'.wordAt (c'.esp + 32))) rfl
  have hbrings := hloaded.shows.push (length_lt [] (Nat.zero_le 1) skipped) (c'.wordAt (c'.esp + 32))
  have hstack : Shows (c.bottom esp0) 16 (execs [.load .eax .esp 32, .push .eax] c') (c'.wordAt (c'.esp + 32) :: _) :=
    hbrings.shows
  rw [hcode] at hstack
  exact ⟨h.entered, skipped, hstack⟩

/-- A function is called and returns. -/
theorem called (h : Saved c esp0 error words c') (hreturned : Returned 16 words.length c' c'') :
    ∃ words' : List Word, words'.length = words.length ∧ Saved c esp0 error words' c'' := by
  obtain ⟨skipped, hshows⟩ := h.stack
  obtain ⟨words', hlength, hshows'⟩ := hshows.called hreturned
  obtain ⟨hcs, hss, hds, hes, hfs, hgs⟩ := hreturned.segments
  obtain ⟨hcs', hss', hds', hes', hfs', hgs'⟩ := h.entered
  exact ⟨words', hlength, ⟨hcs.trans hcs', fun hring => hss.trans (hss' hring), hds.trans hds', hes.trans hes',
    hfs.trans hfs', hgs.trans hgs'⟩, skipped, hshows'⟩

/-- The arguments are dropped. -/
theorem drop (h : Saved c esp0 error words c') {size : Word} (hsize : size = BitVec.ofNat 32 (4 * words.length)) :
    Saved c esp0 error [] (exec (.add .esp size) c') := by
  obtain ⟨skipped, hshows⟩ := h.stack
  have hle : words.length ≤ (words ++ ([c.edi, c.esi, c.ebp, skipped, c.ebx, c.edx, c.ecx, c.eax] ++
      (error.toList ++ c.pushed))).length := by
    rw [List.length_append]
    exact Nat.le_add_right ..
  have hbrings := hshows.raise hle (s := c'.toCore.add .esp size) (congrArg (c'.esp + ·) hsize)
  have hstack := hbrings.shows
  rw [List.drop_left] at hstack
  exact ⟨h.entered, skipped, hstack⟩

/-- The registers come back, and the processor returns. -/
theorem resumes (h : Saved c esp0 error [] c') (hfit : c.Fits fit) :
    (iretd fit (execs (.popa :: error.elim [] fun _ => [.add .esp 4]) c')).toCore =
      { c.toCore with ports := c'.ports } := by
  obtain ⟨skipped, hshows⟩ := h.stack
  obtain ⟨hcs, hss, hds, hes, hfs, hgs⟩ := h.entered
  have hpopped := brings_popa hshows
  obtain ⟨eflags, hbrings⟩ : ∃ eflags, Brings (c.bottom esp0) 16 c'
      { c'.toCore with
        edi := c.edi, esi := c.esi, ebp := c.ebp, esp := c'.esp + 32 + BitVec.ofNat 32 (4 * error.toList.length)
        ebx := c.ebx, edx := c.edx, ecx := c.ecx, eax := c.eax, eflags := eflags }
      c.pushed (execs (.popa :: error.elim [] fun _ => [.add .esp 4]) c') := by
    cases error with
    | none =>
      refine ⟨c'.eflags, ?_⟩
      rw [show (none : Option Word).toList.length = 0 from rfl, Nat.mul_zero, BitVec.add_zero]
      exact hpopped
    | some code =>
      have hdropped := hpopped.shows.raise (n := 1) (Nat.succ_pos _) (s := (exec .popa c').toCore.add .esp 4) rfl
      refine ⟨addFlags c'.eflags (c'.esp + 32) 4, ?_, hdropped.shows, hpopped.same.trans hdropped.same⟩
      show (exec .popa c').toCore.add .esp 4 = _
      rw [hpopped.core]
      rfl
  generalize execs (.popa :: error.elim [] fun _ => [.add .esp 4]) c' = c'' at hbrings ⊢
  have hcore := hbrings.core
  have hcs' : c''.cs = 0x08 := (congrArg Core.cs hcore).trans hcs
  have hstack := hbrings.shows
  unfold Cpu.pushed at hstack
  by_cases hring : ringOf c.cs = 0
  · have hlow : ringOf (lowHalf (c.cs.setWidth 32)) = ringOf c''.cs := by
      rw [lowHalf_setWidth, hring, hcs']
      rfl
    rw [if_pos hring] at hstack
    have htop : c''.esp + 12 = c.esp := by
      have htop := hstack.top
      unfold Cpu.bottom at htop
      rw [htop, if_pos hring]
      show c.esp - 64 + 52 + 12 = c.esp
      bv_omega
    rw [iretd_inner hstack hlow]
    show ({ c''.toCore with eip := c.eip, cs := lowHalf (c.cs.setWidth 32), eflags := c.eflags, esp := c''.esp + 12 } :
      Core) = _
    rw [htop, hcore, lowHalf_setWidth]
    show ({ c.toCore with ss := c'.ss, ds := c'.ds, es := c'.es, fs := c'.fs, gs := c'.gs, ports := c'.ports } :
      Core) = _
    rw [hss hring, hds, hes, hfs, hgs]
  · have hlow : ringOf (lowHalf (c.cs.setWidth 32)) ≠ ringOf c''.cs := by
      rw [lowHalf_setWidth, hcs']
      exact hring
    obtain ⟨hfds, hfes, hffs, hfgs⟩ := hfit.resolve_left hring
    rw [if_neg hring] at hstack
    rw [iretd_outer hstack hlow]
    show ({ c''.toCore with
      eip := c.eip, cs := lowHalf (c.cs.setWidth 32), eflags := c.eflags, esp := c.esp, ss := lowHalf (c.ss.setWidth 32)
      ds := if fit c''.ds then c''.ds else 0, es := if fit c''.es then c''.es else 0
      fs := if fit c''.fs then c''.fs else 0, gs := if fit c''.gs then c''.gs else 0 } : Core) = _
    rw [hcore, lowHalf_setWidth, lowHalf_setWidth]
    show ({ c.toCore with
      ds := if fit c'.ds then c'.ds else 0, es := if fit c'.es then c'.es else 0
      fs := if fit c'.fs then c'.fs else 0, gs := if fit c'.gs then c'.gs else 0, ports := c'.ports } : Core) = _
    rw [hds, hes, hfs, hgs, if_pos hfds, if_pos hfes, if_pos hffs, if_pos hfgs]

end Saved

/-! ### The runs of the stubs -/

/-- A function returns when it is called with these arguments. -/
def ReturnsOn (callee : CFunction → Cpu → Option Cpu) (call : CFunction × List Word) : Prop :=
  ∀ c, c.cs = 0x08 → (viewOf c.mem).Holds c.esp (call.2.flatMap wordBytes) →
    ∃ c', callee call.1 c = some c' ∧ Returned 16 call.2.length c c'

/-- A call in a stub. -/
theorem Saved.call {f : CFunction} (h : Saved c esp0 error words c') (hreturns : ReturnsOn callee (f, words)) :
    ∃ c'' words', callee f c' = some c'' ∧ words'.length = words.length ∧ Saved c esp0 error words' c'' := by
  obtain ⟨skipped, hshows⟩ := h.stack
  have hholds := hshows.holds
  rw [List.flatMap_append, ByteView.holds_append] at hholds
  obtain ⟨c'', hcall, hreturned⟩ := hreturns c' h.entered.1 hholds.1
  obtain ⟨words', hlength, hsaved⟩ := h.called hreturned
  exact ⟨c'', words', hcall, hlength, hsaved⟩

/-- The processor goes on with the registers of what was interrupted. -/
def GoesOn (c : Cpu) (outcome : Option StubEnd) : Prop :=
  ∃ c₄, outcome = some (.resumed c₄) ∧ c₄.toCore = { c.toCore with ports := c₄.ports }

/-- The lines of a stub behind its last call, with an argument list of this size. -/
def returnLines (size : Word) (error : Option Word) : StubCode :=
  ops (.add .esp size :: .popa :: error.elim [] fun _ => [.add .esp 4]) ++ [.iretd]

variable (callee) in
/-- The run of a stub behind its last call. -/
theorem Saved.leaves (h : Saved c esp0 error words c') {size : Word} (hsize : size = BitVec.ofNat 32 (4 * words.length))
    (hfit : c.Fits fit) : GoesOn c (runStub fit callee none (returnLines size error) c') := by
  have hresumes := (h.drop hsize).resumes hfit
  unfold returnLines
  rw [runStub_ops, runStub_iretd, execs_cons]
  generalize iretd fit (execs (.popa :: error.elim [] fun _ => [.add .esp 4]) (exec (.add .esp size) c')) = c₄
    at hresumes ⊢
  have hports := congrArg Core.ports hresumes
  refine ⟨c₄, rfl, ?_⟩
  rw [hports]
  exact hresumes

/-- A stub comes to the call of a function at this state of the processor, whatever its callees do. -/
def CallsAt (fit : BitVec 16 → Bool) (stub : StubCode) (c : Cpu) (f : CFunction) (c₁ : Cpu) : Prop :=
  ∃ rest : StubCode, ∀ callee, runStub fit callee none stub c = (callee f c₁).bind (runStub fit callee none rest)

/-- The stub of an exception without an error code. -/
theorem noErrCode_calls (vector : Word) : ∃ c₁, Saved c esp0 none [vector, 0] c₁ ∧
    CallsAt fit (isrNoErrCode vector) (c.trapped offset esp0 none) .exceptionHandler c₁ := by
  have hsaved : Saved c esp0 none [] (exec .pusha (c.trapped offset esp0 none)) := saved_pusha
  have hpushed := (hsaved.pushImm (Nat.zero_le 1) 0).pushImm (Nat.le_refl 1) vector
  refine ⟨_, hpushed, ops [.add .esp 8, .popa] ++ [.iretd], fun callee => ?_⟩
  unfold isrNoErrCode
  rw [List.append_assoc, List.append_assoc, runStub_ops]
  rfl

/-- The stub of an exception with an error code. -/
theorem errCode_calls (vector code : Word) : ∃ c₁, Saved c esp0 (some code) [vector, code] c₁ ∧
    CallsAt fit (isrErrCode vector) (c.trapped offset esp0 (some code)) .exceptionHandler c₁ := by
  have hsaved : Saved c esp0 (some code) [] (exec .pusha (c.trapped offset esp0 (some code))) := saved_pusha
  have hpushed := hsaved.pushError.pushImm (Nat.le_refl 1) vector
  refine ⟨_, hpushed, ops [.add .esp 8, .popa, .add .esp 4] ++ [.iretd], fun callee => ?_⟩
  unfold isrErrCode
  rw [List.append_assoc, List.append_assoc, runStub_ops]
  rfl

variable (fit c offset esp0) in
/-- An exception is reported: `exception_handler` is called with its vector and its error code, on a stack that holds
the registers of what was interrupted. -/
theorem exception_reports (e : Exception) : ∃ c₁, Saved c esp0 e.errorCode e.arguments c₁ ∧
    CallsAt fit e.stub (c.trapped offset esp0 e.errorCode) .exceptionHandler c₁ := by
  cases e with
  | divideError => exact noErrCode_calls 0
  | invalidOpcode => exact noErrCode_calls 6
  | generalProtection errorCode => exact errCode_calls 13 errorCode

/-- `exception_handler` does not return: it writes the vector and the error code to the serial port and halts with
interrupts off. So nothing is resumed. -/
theorem exception_stops (e : Exception) (hpanics : ∀ c, callee .exceptionHandler c = none) :
    runStub fit callee none e.stub (c.trapped offset esp0 e.errorCode) = none := by
  obtain ⟨c₁, -, rest, hrun⟩ := exception_reports fit c offset esp0 e
  rw [hrun, hpanics, Option.bind_none]

/-- The stub of the keyboard. -/
theorem keyboard_passes (hhandler : ReturnsOn callee (.keyboardHandler, []))
    (hisr : ReturnsOn callee (.isrHandler, [33])) (hfit : c.Fits fit) :
    GoesOn c (runStub fit callee none isrStub33 (c.trapped offset esp0 none)) := by
  have hsaved : Saved c esp0 none [] (exec .pusha (c.trapped offset esp0 none)) := saved_pusha
  obtain ⟨c₁, words, hcall, hlength, hsaved₁⟩ := hsaved.call hhandler
  rw [List.eq_nil_of_length_eq_zero hlength] at hsaved₁
  obtain ⟨c₂, words', hcall', hlength', hsaved₂⟩ := (hsaved₁.pushImm (Nat.zero_le 1) 33).call hisr
  have hcode : isrStub33 = ops [.pusha] ++ (.call .keyboardHandler ::
      (ops [.pushImm 33] ++ (.call .isrHandler :: returnLines 4 none))) := rfl
  have hrun : runStub fit callee none isrStub33 (c.trapped offset esp0 none) =
      runStub fit callee none (returnLines 4 none) c₂ := calc
    _ = (callee .keyboardHandler (exec .pusha (c.trapped offset esp0 none))).bind
        (runStub fit callee none (ops [.pushImm 33] ++ (.call .isrHandler :: returnLines 4 none))) := by
      rw [hcode, runStub_ops, runStub_call, execs_cons, execs_nil]
    _ = (callee .isrHandler (exec (.pushImm 33) c₁)).bind (runStub fit callee none (returnLines 4 none)) := by
      rw [hcall, Option.bind_some, runStub_ops, runStub_call, execs_cons, execs_nil]
    _ = runStub fit callee none (returnLines 4 none) c₂ := by
      rw [hcall', Option.bind_some]
  rw [hrun]
  exact hsaved₂.leaves callee (by rw [hlength']; rfl) hfit

variable (offset esp0) in
/-- **What the stubs do that are no traps of the kernel**, from a program or from the kernel itself. When
`keyboard_handler`, and `isr_handler` with the vector 33, return with the stack as the calling convention has it, then
a key leaves no trace in the registers of what it interrupts. An exception is reported with its vector and its error
code, and when `exception_handler` does not return nothing is resumed. -/
theorem other_interrupts_answered (hkeyboard : ReturnsOn callee (.keyboardHandler, []))
    (hisr : ReturnsOn callee (.isrHandler, [33])) (hpanics : ∀ c, callee .exceptionHandler c = none)
    (hfit : c.Fits fit) :
    GoesOn c (runStub fit callee none isrStub33 (c.trapped offset esp0 none)) ∧
      ∀ e : Exception, (∃ c₁, Saved c esp0 e.errorCode e.arguments c₁ ∧
        CallsAt fit e.stub (c.trapped offset esp0 e.errorCode) .exceptionHandler c₁) ∧
          runStub fit callee none e.stub (c.trapped offset esp0 e.errorCode) = none :=
  ⟨keyboard_passes hkeyboard hisr hfit,
    fun e => ⟨exception_reports fit c offset esp0 e, exception_stops e hpanics⟩⟩

/-- A key is released: `keyboard_handler` has nothing to do, and `isr_handler` acknowledges the interrupt.
`exception_handler` halts. -/
def releasedKey : CFunction → Cpu → Option Cpu
  | .isrHandler, c => some (c.withCore { c.toCore with ports := c.ports ++ [(0x20, 0x20)] })
  | .exceptionHandler, _ => none
  | _, c => some c

/-- The keyboard from ring 3. -/
theorem other_interrupts_answered_ring3 :
    let fit := fun selector => decide (selector = 0x23)
    GoesOn .ring3 (runStub fit releasedKey none isrStub33 (Cpu.ring3.trapped 0 0 none)) ∧
      ∀ e : Exception, (∃ c₁, Saved .ring3 0 e.errorCode e.arguments c₁ ∧
        CallsAt fit e.stub (Cpu.ring3.trapped 0 0 e.errorCode) .exceptionHandler c₁) ∧
          runStub fit releasedKey none e.stub (Cpu.ring3.trapped 0 0 e.errorCode) = none := by
  have hkeyboard : ReturnsOn releasedKey (.keyboardHandler, []) := fun c _ _ =>
    ⟨c, rfl, rfl, ⟨rfl, rfl, rfl, rfl, rfl, rfl⟩, fun _ _ _ => rfl⟩
  have hisr : ReturnsOn releasedKey (.isrHandler, [33]) := fun c _ _ =>
    ⟨_, rfl, rfl, ⟨rfl, rfl, rfl, rfl, rfl, rfl⟩, fun _ _ _ => rfl⟩
  exact other_interrupts_answered 0 0 hkeyboard hisr (fun _ => rfl) (.inr ⟨rfl, rfl, rfl, rfl⟩)

end AgenticOs
