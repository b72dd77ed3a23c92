import AgenticOs.Kernel.Machine
import AgenticOs.Lib.StackRules

/-!
# `kernel/isr.asm`

The stubs of the system call, the timer and the page fault. Each saves the registers of the program in a
`struct interrupt_frame` on the kernel stack of the process, calls its handler with the address of the frame,
and resumes from the frame whose address the handler returns, of this process or of another. The functions in
C are a parameter.

* **Code** (`isrStub128`, `isrStub32`, `isrStub14`): the lines of the file. The first two differ in what
  follows their handler: `isr_stub_32` does not test what it returns. `isr_stub_14` takes the error code out
  of its frame first.
* **Into the kernel** (`trap_enters`): up to the call of its handler a stub builds the frame that `Trap.enter`
  puts into the state of the kernel. The words above the error code of a page fault move down over it
  (`dropErrorCode_run`).
* **Out of the kernel** (`restore_run`, `afterHandler_leaves`): from a frame of ring 3 the processor goes on
  with the registers of the frame.
* **Main result** (`trap_round_trip`): both together. `isr_stub_14` and `isr_stub_128` halt when there is no
  process to resume; `isr_stub_32` resumes from whatever is returned.
-/

namespace AgenticOs

open Function Lib

/-! ### The code -/

/-- What the stubs call. -/
inductive CFunction
  | exceptionHandler | pageFaultDispatch | timerInterrupt | syscallDispatch | processCompleteContextSwitch
  | keyboardHandler | isrHandler

/-- The labels of the stubs. -/
inductive StubLabel
  | frameReady | noRunnableProcess | halt
deriving DecidableEq

/-- The code of a stub. -/
abbrev StubCode := List (Line CFunction StubLabel)

/-- A segment register is pushed, with zeros above it. -/
def saveSegment (seg : Seg) : List Instr := [.sub .esp 4, .storeSeg .esp 0 seg, .storeHalf .esp 2 0]

/-- The first lines of a stub. -/
def saveContext : List Instr :=
  saveSegment .ds ++ saveSegment .es ++ saveSegment .fs ++ saveSegment .gs ++ [.pusha]

/-- The data segments of the kernel are loaded. -/
def loadKernelSegments : List Instr :=
  [.movHalf .eax 0x10, .setSeg .ds .eax, .setSeg .es .eax, .setSeg .fs .eax, .setSeg .gs .eax]

/-- The last lines of a stub. -/
def restoreContext : List Instr :=
  [.popa, .push .eax, .loadHalf .eax .esp 4, .setSeg .gs .eax, .loadHalf .eax .esp 8, .setSeg .fs .eax,
    .loadHalf .eax .esp 12, .setSeg .es .eax, .loadHalf .eax .esp 16, .setSeg .ds .eax, .pop .eax, .add .esp 16]

/-- `.no_runnable_process` -/
def noRunnableProcess : StubCode :=
  [.label .noRunnableProcess, .op .cli, .label .halt, .hlt, .jmp .halt]

/-- A stub resumes from the frame that its handler has returned. -/
def resumeFrame : StubCode :=
  ops [.mov .esp .eax] ++ [.call .processCompleteContextSwitch] ++ ops restoreContext ++ [.iretd]

/-- What follows the call of a handler whose arguments take so many bytes. -/
def afterDispatch (size : Word) : StubCode :=
  ops [.add .esp size, .test .eax .eax] ++ [.jz .noRunnableProcess] ++ resumeFrame ++ noRunnableProcess

/-- Source: `isr.asm` `isr_stub_128` -/
def isrStub128 : StubCode :=
  ops (saveContext ++ loadKernelSegments ++ [.push .esp]) ++ [.call .syscallDispatch] ++ afterDispatch 4

/-- What follows the call of `timer_interrupt`. -/
def afterTimer : StubCode :=
  ops [.add .esp 4, .mov .esp .eax] ++ [.call .processCompleteContextSwitch] ++
    ops ([.movByte .eax 0x20, .out 0x20] ++ restoreContext) ++ [.iretd]

/-- Source: `isr.asm` `isr_stub_32` -/
def isrStub32 : StubCode :=
  ops (saveContext ++ loadKernelSegments ++ [.push .esp]) ++ [.call .timerInterrupt] ++ afterTimer

/-- The error code of a page fault is taken out of the frame, and the words above it move down. -/
def dropErrorCode : StubCode :=
  ops [.load .eax .esp 48, .load .edx .esp 52, .store .esp 48 .edx, .load .edx .esp 56, .store .esp 52 .edx,
    .testByte .edx 3, .load .edx .esp 60, .store .esp 56 .edx] ++ [.jz .frameReady] ++
  ops [.load .edx .esp 64, .store .esp 60 .edx, .load .edx .esp 68, .store .esp 64 .edx] ++ [.label .frameReady]

/-- Source: `isr.asm` `isr_stub_14` -/
def isrStub14 : StubCode :=
  ops saveContext ++ dropErrorCode ++
    ops ([.mov .ebp .eax] ++ loadKernelSegments ++ [.mov .edx .esp, .push .ebp, .push .edx]) ++
    [.call .pageFaultDispatch] ++ afterDispatch 8

/-! ### Frames in memory -/

/-- The fields of a frame, in memory order. -/
def InterruptFrame.words (f : InterruptFrame) : List Word :=
  [f.edi, f.esi, f.ebp, f.savedEsp, f.ebx, f.edx, f.ecx, f.eax, f.gs, f.fs, f.es, f.ds, f.eip, f.cs, f.eflags,
    f.userEsp, f.userSs]

/-- The registers of a program, as a frame has them. -/
def frameOfCore (s : Core) (savedEsp : Word) : InterruptFrame where
  edi := s.edi
  esi := s.esi
  ebp := s.ebp
  savedEsp := savedEsp
  ebx := s.ebx
  edx := s.edx
  ecx := s.ecx
  eax := s.eax
  gs := s.gs.setWidth 32
  fs := s.fs.setWidth 32
  es := s.es.setWidth 32
  ds := s.ds.setWidth 32
  eip := s.eip
  cs := s.cs.setWidth 32
  eflags := s.eflags
  userEsp := s.esp
  userSs := s.ss.setWidth 32

/-- The registers with which a program resumes from a frame of ring 3. -/
def InterruptFrame.core (fit : BitVec 16 → Bool) (f : InterruptFrame) (ports : List (Byte × Byte)) : Core :=
  let keep := fun word => if fit (lowHalf word) then lowHalf word else 0
  { eax := f.eax, ecx := f.ecx, edx := f.edx, ebx := f.ebx, esp := f.userEsp, ebp := f.ebp, esi := f.esi, edi := f.edi
    cs := lowHalf f.cs, ss := lowHalf f.userSs, ds := keep f.ds, es := keep f.es, fs := keep f.fs, gs := keep f.gs
    eip := f.eip, eflags := f.eflags, ports := ports }

/-- A frame lies at an address. -/
def HoldsFrame (mem : Word → Byte) (a : Word) (f : InterruptFrame) : Prop :=
  (viewOf mem).Holds a (f.words.flatMap wordBytes)

/-- The segments of the kernel are loaded. -/
def Lib.Core.InKernel (s : Core) : Prop :=
  s.cs = 0x08 ∧ s.ss = 0x10 ∧ s.ds = 0x10 ∧ s.es = 0x10 ∧ s.fs = 0x10 ∧ s.gs = 0x10

/-! ### Into the kernel -/

section

variable {room : Nat} {Q : Core → List Word → Prop} {s : Core} {ws : List Word}

/-- A segment register is pushed. -/
theorem saveSegment_pres (seg : Seg) (hroom : ws.length < room)
    (hQ : ∀ flags, Q { s with esp := s.esp - 4, eflags := flags } ((s.getSeg seg).setWidth 32 :: ws)) :
    pres room Q (saveSegment seg) s ws := by
  refine ⟨rfl, rfl, hroom, fun w => ⟨rfl, rfl, rfl, rfl, ?_⟩⟩
  have hword : ofHalves (lowHalf (ofHalves (s.getSeg seg) (highHalf w))) 0 = (s.getSeg seg).setWidth 32 := by
    rw [lowHalf_ofHalves, ofHalves_zero]
  have hseg : (s.sub .esp 4).getSeg seg = s.getSeg seg := by cases seg <;> rfl
  show Q (s.sub .esp 4) (ofHalves (lowHalf (ofHalves ((s.sub .esp 4).getSeg seg) (highHalf w))) 0 :: ws)
  rw [hseg, hword]
  exact hQ _

/-- The registers and the segments are pushed. -/
theorem saveContext_pres (hroom : ws.length + 12 ≤ room)
    (hQ : ∀ flags, Q { s with esp := s.esp - 48, eflags := flags }
      ([s.edi, s.esi, s.ebp, s.esp - 16, s.ebx, s.edx, s.ecx, s.eax, s.gs.setWidth 32, s.fs.setWidth 32,
        s.es.setWidth 32, s.ds.setWidth 32] ++ ws)) : pres room Q saveContext s ws := by
  unfold saveContext
  simp only [pres_append]
  apply saveSegment_pres .ds (by omega)
  intro _
  apply saveSegment_pres .es (by rw [List.length_cons]; omega)
  intro _
  apply saveSegment_pres .fs (by simp only [List.length_cons]; omega)
  intro _
  apply saveSegment_pres .gs (by simp only [List.length_cons]; omega)
  intro flags
  have hesp : s.esp - 4 - 4 - 4 - 4 = s.esp - 16 := by bv_omega
  have hesp' : s.esp - 16 - 32 = s.esp - 48 := by bv_omega
  refine ⟨by simp only [List.length_cons]; omega, ?_⟩
  simp only [Core.set, hesp, hesp']
  exact hQ flags

/-- The kernel's segments are loaded. -/
theorem loadKernelSegments_pres
    (hQ : ∀ eax, Q { s with eax := eax, ds := 0x10, es := 0x10, fs := 0x10, gs := 0x10 } ws) :
    pres room Q loadKernelSegments s ws := by
  refine ⟨Reg.noConfusion, ?_⟩
  have hsel : lowHalf (ofHalves 0x10 (highHalf s.eax)) = 0x10 := lowHalf_ofHalves _ _
  show Q { s with
    eax := ofHalves 0x10 (highHalf s.eax)
    ds := lowHalf (ofHalves 0x10 (highHalf s.eax)), es := lowHalf (ofHalves 0x10 (highHalf s.eax))
    fs := lowHalf (ofHalves 0x10 (highHalf s.eax)), gs := lowHalf (ofHalves 0x10 (highHalf s.eax)) } ws
  rw [hsel]
  exact hQ _

end

/-- The interrupt gates of the kernel: they enter its code segment, on the stack that the task state segment names. -/
def Lib.Cpu.trapped (c : Cpu) (offset esp0 : Word) (error : Option Word) : Cpu :=
  interrupt 0x08 offset 0x10 esp0 error c

/-- The processor where a stub calls its handler: with its arguments on the stack, and with the registers of the
program in a frame above them. -/
structure AtHandler (c c₁ : Cpu) (esp0 frame : Word) (arguments : List Word) : Prop where
  segments : c₁.InKernel
  arguments : (viewOf c₁.mem).Holds c₁.esp (arguments.flatMap wordBytes)
  frame : HoldsFrame c₁.mem frame (frameOfCore c.toCore (frame + 32))
  others : SameBut (esp0 - 80) 20 c.mem c₁.mem
  ports : c₁.ports = c.ports

variable {fit : BitVec 16 → Bool} {callee : CFunction → Cpu → Option Cpu} {c c₁ c₂ c₃ : Cpu} {offset esp0 frame : Word}

/-- A frame between other words of the stack. -/
theorem holdsFrame_of_shows {low : Word} {room : Nat} {f : InterruptFrame} {arguments rest : List Word}
    (h : Shows low room c (arguments ++ (f.words ++ rest)))
    (hframe : c.esp + BitVec.ofNat 32 (4 * arguments.length) = frame) :
    (viewOf c.mem).Holds c.esp (arguments.flatMap wordBytes) ∧ HoldsFrame c.mem frame f := by
  have hholds := h.holds
  rw [List.flatMap_append, List.flatMap_append, ByteView.holds_append, ByteView.length_flatMap_wordBytes, hframe,
    ByteView.holds_append] at hholds
  exact ⟨hholds.1, hholds.2.1⟩

/-- The room of a stub on the kernel stack. -/
theorem trapped_brings (hring : ringOf c.cs = 3) (error : Option Word) :
    Brings (esp0 - 80) 20 c
      { c.toCore with
        esp := esp0 - (if error.isSome then 24 else 20), ss := 0x10, eip := offset, cs := 0x08
        eflags := c.eflags &&& ~~~interruptMask }
      (error.toList ++ [c.eip, c.cs.setWidth 32, c.eflags, c.esp, c.ss.setWidth 32]) (c.trapped offset esp0 error) := by
  have hne : ringOf c.cs ≠ ringOf 0x08 := by
    rw [hring]
    decide
  exact interrupt_brings error (show 4 * 20 ≤ 4294967296 by decide) (by decide) hne

variable (offset) in
/-- A trap without an error code, up to the call of the handler. -/
theorem trap_entry (hring : ringOf c.cs = 3) :
    AtHandler c (execs (saveContext ++ loadKernelSegments ++ [.push .esp]) (c.trapped offset esp0 none)) esp0
      (esp0 - 68) [esp0 - 68] := by
  have htrap : Brings (esp0 - 80) 20 c _ _ (c.trapped offset esp0 none) := trapped_brings hring none
  have hpres : pres 20 (fun s ws => (s.InKernel ∧ s.ports = c.ports ∧ s.esp = esp0 - 72) ∧
      ws = [esp0 - 68] ++ ((frameOfCore c.toCore (esp0 - 68 + 32)).words ++ []))
      (saveContext ++ loadKernelSegments ++ [.push .esp]) (c.trapped offset esp0 none).toCore
      [c.eip, c.cs.setWidth 32, c.eflags, c.esp, c.ss.setWidth 32] := by
    rw [htrap.core]
    simp only [pres_append]
    apply saveContext_pres (show 5 + 12 ≤ 20 by decide)
    intro flags
    apply loadKernelSegments_pres
    intro eax
    have hframe : esp0 - 20 - 48 = esp0 - 68 := by bv_omega
    have hsaved : esp0 - 20 - 16 = esp0 - 68 + 32 := by bv_omega
    have hesp : esp0 - 20 - 48 - 4 = esp0 - 72 := by bv_omega
    refine ⟨show 17 < 20 by decide, ⟨⟨rfl, rfl, rfl, rfl, rfl, rfl⟩, rfl, hesp⟩, ?_⟩
    show (esp0 - 20 - 48) :: c.edi :: c.esi :: c.ebp :: (esp0 - 20 - 16) :: _ = _
    rw [hframe, hsaved]
    rfl
  obtain ⟨s, ws, ⟨⟨hsegments, hports, hesp⟩, rfl⟩, hbrings⟩ := execs_pres htrap.shows _ hpres
  rw [← hbrings.core] at hsegments hports hesp
  have hat : (execs (saveContext ++ loadKernelSegments ++ [.push .esp]) (c.trapped offset esp0 none)).esp +
      BitVec.ofNat 32 (4 * [esp0 - 68].length) = esp0 - 68 := by
    rw [hesp]
    show esp0 - 72 + 4 = esp0 - 68
    bv_omega
  obtain ⟨harguments, hframe⟩ := holdsFrame_of_shows hbrings.shows hat
  exact ⟨hsegments, harguments, hframe, htrap.same.trans hbrings.same, hports⟩

section

variable {low : Word} {room : Nat}
  {edi esi ebp saved ebx edx ecx eax gs fs es ds error eip cs eflags userEsp userSs : Word}

variable (fit callee) in
/-- The words above the error code of a page fault move down; the first of them stays behind as well. -/
theorem dropErrorCode_run (lines : StubCode) (hcs : cs.setWidth 8 &&& 3 ≠ (0 : Byte))
    (hc : Shows low room c [edi, esi, ebp, saved, ebx, edx, ecx, eax, gs, fs, es, ds, error, eip, cs, eflags, userEsp,
      userSs]) :
    ∃ c' edx' flags, runStub fit callee none (dropErrorCode ++ lines) c = runStub fit callee none lines c' ∧
      Brings low room c { c.toCore with eax := error, edx := edx', eflags := flags }
        [edi, esi, ebp, saved, ebx, edx, ecx, eax, gs, fs, es, ds, eip, cs, eflags, userEsp, userSs, userSs] c' := by
  have hfirst : pres room (fun s ws => s.zero = false ∧ (∃ edx' flags, s = { c.toCore with
      eax := error, edx := edx', eflags := flags }) ∧
      ws = [edi, esi, ebp, saved, ebx, edx, ecx, eax, gs, fs, es, ds, eip, cs, eflags, eflags, userEsp, userSs])
      [.load .eax .esp 48, .load .edx .esp 52, .store .esp 48 .edx, .load .edx .esp 56, .store .esp 52 .edx,
        .testByte .edx 3, .load .edx .esp 60, .store .esp 56 .edx] c.toCore
      [edi, esi, ebp, saved, ebx, edx, ecx, eax, gs, fs, es, ds, error, eip, cs, eflags, userEsp, userSs] := by
    refine ⟨rfl, Reg.noConfusion, rfl, rfl, Reg.noConfusion, rfl, rfl, rfl, show 12 < 18 by decide, rfl,
      Reg.noConfusion, rfl, rfl, rfl, show 13 < 18 by decide, rfl, Reg.noConfusion, rfl, rfl, rfl,
      show 14 < 18 by decide, ?_, ⟨_, _, rfl⟩, rfl⟩
    have hzero := zero_testFlags c.eflags (cs.setWidth 8 &&& 3)
    rw [decide_eq_false hcs] at hzero
    exact hzero
  obtain ⟨s, ws, ⟨hzero, ⟨edx', flags, rfl⟩, rfl⟩, hbrings⟩ := execs_pres hc _ hfirst
  have hsecond (s : Core) : pres room (fun s' ws => (∃ edx', s' = { s with edx := edx' }) ∧
      ws = [edi, esi, ebp, saved, ebx, edx, ecx, eax, gs, fs, es, ds, eip, cs, eflags, userEsp, userSs, userSs])
      [.load .edx .esp 64, .store .esp 60 .edx, .load .edx .esp 68, .store .esp 64 .edx] s
      [edi, esi, ebp, saved, ebx, edx, ecx, eax, gs, fs, es, ds, eip, cs, eflags, eflags, userEsp, userSs] :=
    ⟨rfl, Reg.noConfusion, rfl, rfl, rfl, show 15 < 18 by decide, rfl, Reg.noConfusion, rfl, rfl, rfl,
      show 16 < 18 by decide, ⟨_, rfl⟩, rfl⟩
  obtain ⟨s, ws, ⟨⟨edx'', rfl⟩, rfl⟩, hbrings'⟩ := execs_pres hbrings.shows _ (hsecond _)
  have htrans := hbrings.trans hbrings'
  rw [hbrings.core] at htrans
  refine ⟨_, edx'', flags, ?_, htrans⟩
  rw [← hbrings.core] at hzero
  unfold dropErrorCode
  simp only [List.append_assoc, runStub_ops]
  refine (runStub_jz_of_not fit callee StubLabel.frameReady _ hzero).trans ?_
  exact runStub_ops fit callee [.load .edx .esp 64, .store .esp 60 .edx, .load .edx .esp 68, .store .esp 64 .edx]
    (.label .frameReady :: lines) _

end

/-- The test of the low bits of `cs`. -/
theorem cs_mask (hring : ringOf c.cs = 3) : (c.cs.setWidth 32).setWidth 8 &&& 3 ≠ (0 : Byte) := by
  intro hzero
  have hmod : c.cs.toNat % 4 = 3 := hring
  have hnat := congrArg BitVec.toNat hzero
  rw [BitVec.toNat_and, BitVec.toNat_setWidth, BitVec.toNat_setWidth, show (3 : Byte).toNat = 2 ^ 2 - 1 from rfl,
    Nat.and_two_pow_sub_one_eq_mod] at hnat
  have hlt := c.cs.isLt
  have hzero' : (0 : Byte).toNat = 0 := rfl
  omega

/-- A page fault, up to the call of the handler. -/
theorem pageFault_entry (hring : ringOf c.cs = 3) (error : Word) :
    ∃ c₁, AtHandler c c₁ esp0 (esp0 - 72) [esp0 - 72, error] ∧
      runStub fit callee none isrStub14 (c.trapped offset esp0 (some error)) =
        (callee .pageFaultDispatch c₁).bind (runStub fit callee none (afterDispatch 8)) := by
  have htrap : Brings (esp0 - 80) 20 c _ _ (c.trapped offset esp0 (some error)) := trapped_brings hring (some error)
  have hesp : esp0 - 24 - 48 = esp0 - 72 := by bv_omega
  have hsaved : esp0 - 24 - 16 = esp0 - 72 + 32 := by bv_omega
  have hsave : pres 20 (fun s ws => (∃ flags, s = { c.toCore with
      esp := esp0 - 72, ss := 0x10, eip := offset, cs := 0x08, eflags := flags }) ∧
      ws = [c.edi, c.esi, c.ebp, esp0 - 72 + 32, c.ebx, c.edx, c.ecx, c.eax, c.gs.setWidth 32, c.fs.setWidth 32,
        c.es.setWidth 32, c.ds.setWidth 32, error, c.eip, c.cs.setWidth 32, c.eflags, c.esp, c.ss.setWidth 32])
      saveContext (c.trapped offset esp0 (some error)).toCore
      [error, c.eip, c.cs.setWidth 32, c.eflags, c.esp, c.ss.setWidth 32] := by
    rw [htrap.core]
    apply saveContext_pres (show 6 + 12 ≤ 20 by decide)
    intro flags
    refine ⟨⟨flags, ?_⟩, ?_⟩
    · show ({ c.toCore with esp := esp0 - 24 - 48, ss := 0x10, eip := offset, cs := 0x08, eflags := flags } : Core) = _
      rw [hesp]
    · show c.edi :: c.esi :: c.ebp :: (esp0 - 24 - 16) :: _ = _
      rw [hsaved]
      rfl
  obtain ⟨s, ws, ⟨⟨flags, rfl⟩, rfl⟩, hbrings⟩ := execs_pres htrap.shows _ hsave
  obtain ⟨c', edx', flags', hrun, hbrings'⟩ := dropErrorCode_run fit callee
    (ops ([.mov .ebp .eax] ++ loadKernelSegments ++ [.mov .edx .esp, .push .ebp, .push .edx]) ++
      ([.call .pageFaultDispatch] ++ afterDispatch 8)) (cs_mask hring) hbrings.shows
  have hpush (s : Core) (ws : List Word) (hs : s.esp = esp0 - 72) (hroom : ws.length + 2 ≤ 20) :
      pres 20 (fun s' ws' => (s'.ss = s.ss ∧ s'.cs = s.cs ∧ s'.ds = 0x10 ∧ s'.es = 0x10 ∧ s'.fs = 0x10 ∧ s'.gs = 0x10) ∧
        s'.ports = s.ports ∧ s'.esp = esp0 - 80 ∧ ws' = [esp0 - 72, s.eax] ++ ws)
        ([.mov .ebp .eax] ++ loadKernelSegments ++ [.mov .edx .esp, .push .ebp, .push .edx]) s ws := by
    simp only [pres_append]
    refine ⟨Reg.noConfusion, ?_⟩
    apply loadKernelSegments_pres
    intro eax
    refine ⟨Reg.noConfusion, show ws.length < 20 by omega, show ws.length + 1 < 20 by omega,
      ⟨rfl, rfl, rfl, rfl, rfl, rfl⟩, rfl, ?_, ?_⟩
    · show s.esp - 4 - 4 = esp0 - 80
      rw [hs]
      bv_omega
    · show s.esp :: s.eax :: ws = _
      rw [hs]
      rfl
  rw [hbrings.core] at hbrings'
  have hc' := hbrings'.core
  obtain ⟨s, ws, ⟨⟨hss, hcs, hdata⟩, hports, hesp', rfl⟩, hbrings''⟩ := execs_pres hbrings'.shows _
    (hpush _ _ (congrArg Core.esp hc') (show 18 + 2 ≤ 20 by decide))
  rw [congrArg Core.eax hc'] at hbrings''
  rw [← hbrings''.core] at hss hcs hdata hports hesp'
  have hat : (execs ([.mov .ebp .eax] ++ loadKernelSegments ++ [.mov .edx .esp, .push .ebp, .push .edx]) c').esp +
      BitVec.ofNat 32 (4 * [esp0 - 72, error].length) = esp0 - 72 := by
    rw [hesp']
    show esp0 - 80 + 8 = esp0 - 72
    bv_omega
  obtain ⟨harguments, hframe⟩ := holdsFrame_of_shows (f := frameOfCore c.toCore (esp0 - 72 + 32)) hbrings''.shows hat
  have hcs' := hcs.trans (congrArg Core.cs hc')
  have hss' := hss.trans (congrArg Core.ss hc')
  have hports' := hports.trans (congrArg Core.ports hc')
  refine ⟨_, ⟨⟨hcs', hss', hdata⟩, harguments, hframe,
    ((htrap.same.trans hbrings.same).trans hbrings'.same).trans hbrings''.same, hports'⟩, ?_⟩
  unfold isrStub14
  simp only [List.append_assoc, runStub_ops] at hrun ⊢
  rw [hrun]
  rfl

/-! ### Out of the kernel -/

/-- The registers are popped. -/
theorem restoreContext_pres {room : Nat} {Q : Core → List Word → Prop} {s : Core} (f : InterruptFrame)
    (hroom : 17 ≤ room) (hQ : ∀ flags, Q { s with
      eax := f.eax, ecx := f.ecx, edx := f.edx, ebx := f.ebx, esp := s.esp + 48
      ebp := f.ebp, esi := f.esi, edi := f.edi
      ds := lowHalf f.ds, es := lowHalf f.es, fs := lowHalf f.fs, gs := lowHalf f.gs, eflags := flags }
      [f.eip, f.cs, f.eflags, f.userEsp, f.userSs]) : pres room Q restoreContext s f.words := by
  refine ⟨show 9 < room by omega, rfl, Reg.noConfusion, rfl, rfl, Reg.noConfusion, rfl, rfl, Reg.noConfusion, rfl, rfl,
    Reg.noConfusion, rfl, Reg.noConfusion, rfl, rfl, show 4 ≤ 9 by decide, ?_⟩
  have hesp : s.esp + 32 - 4 + 4 + 16 = s.esp + 48 := by bv_omega
  have hq := hQ (addFlags s.eflags (s.esp + 32 - 4 + 4) 16)
  rw [← hesp] at hq
  simp only [Core.add, Core.set, Core.get, Core.setSeg, Core.setLow, lowHalf_ofHalves]
  exact hq

variable (fit) in
/-- From a frame of ring 3 the processor goes on with the registers of the frame. -/
theorem restore_run {f : InterruptFrame} (hframe : HoldsFrame c.mem c.esp f) (hkernel : ringOf c.cs = 0)
    (hring : ringOf (lowHalf f.cs) = 3) :
    (iretd fit (execs restoreContext c)).toCore = f.core fit c.ports ∧
      SameBut c.esp 17 c.mem (iretd fit (execs restoreContext c)).mem := by
  have hshows : Shows c.esp 17 c f.words :=
    ⟨by decide, Nat.le_refl 17, (BitVec.add_zero c.esp).symm, hframe⟩
  have hpres : pres 17 (fun s ws => (∃ flags, s = { c.toCore with
      eax := f.eax, ecx := f.ecx, edx := f.edx, ebx := f.ebx, esp := c.esp + 48
      ebp := f.ebp, esi := f.esi, edi := f.edi
      ds := lowHalf f.ds, es := lowHalf f.es, fs := lowHalf f.fs, gs := lowHalf f.gs, eflags := flags }) ∧
      ws = [f.eip, f.cs, f.eflags, f.userEsp, f.userSs]) restoreContext c.toCore f.words :=
    restoreContext_pres f (Nat.le_refl 17) fun flags => ⟨⟨flags, rfl⟩, rfl⟩
  obtain ⟨s, ws, ⟨⟨flags, rfl⟩, rfl⟩, hbrings⟩ := execs_pres hshows _ hpres
  generalize execs restoreContext c = c' at hbrings ⊢
  have hcore := hbrings.core
  have hinner := congrArg Core.cs hcore
  have houter : ringOf (lowHalf f.cs) ≠ ringOf c'.cs := by
    rw [hinner, hring, show ringOf c.cs = 0 from hkernel]
    decide
  rw [iretd_outer hbrings.shows houter]
  refine ⟨?_, hbrings.same⟩
  show ({ c'.toCore with
    eip := f.eip, cs := lowHalf f.cs, eflags := f.eflags, esp := f.userEsp, ss := lowHalf f.userSs
    ds := if fit c'.ds then c'.ds else 0, es := if fit c'.es then c'.es else 0
    fs := if fit c'.fs then c'.fs else 0, gs := if fit c'.gs then c'.gs else 0 } : Core) = _
  rw [hcore]
  rfl

/-! ### The stubs and the traps -/

/-- The stub of a trap. -/
def Trap.stub : Trap → StubCode
  | .syscall _ => isrStub128
  | .timer _ => isrStub32
  | .pageFault _ _ _ => isrStub14

/-- The function that the stub of a trap calls. -/
def Trap.handler : Trap → CFunction
  | .syscall _ => .syscallDispatch
  | .timer _ => .timerInterrupt
  | .pageFault _ _ _ => .pageFaultDispatch

/-- The error code that the processor pushes. -/
def Trap.errorCode : Trap → Option Word
  | .pageFault _ errorCode _ => some errorCode
  | _ => none

/-- What the stub of a trap does when its handler has returned. -/
def Trap.afterHandler : Trap → StubCode
  | .syscall _ => afterDispatch 4
  | .timer _ => afterTimer
  | .pageFault _ _ _ => afterDispatch 8

/-- What a stub sends to the interrupt controller. -/
def Trap.acknowledged : Trap → List (Byte × Byte)
  | .timer _ => [(0x20, 0x20)]
  | _ => []

/-- `process_complete_context_switch`, called with the memory that a handler leaves and with the stack pointer it
returns, returns and leaves a frame at this address. -/
def Completes (callee : CFunction → Cpu → Option Cpu) (c₂ : Cpu) (f : InterruptFrame) : Prop :=
  ∀ c, c.mem = c₂.mem → c.esp = c₂.eax → c.InKernel → ∃ c₃, callee .processCompleteContextSwitch c = some c₃ ∧
    c₃.esp = c.esp ∧ c₃.InKernel ∧ HoldsFrame c₃.mem c₃.esp f

/-- The processor leaves the kernel with the registers of a frame. -/
def Leaves (fit : BitVec 16 → Bool) (f : InterruptFrame) (acknowledged : List (Byte × Byte))
    (outcome : Option StubEnd) : Prop :=
  ∃ c₄, outcome = some (.resumed c₄) ∧ c₄.toCore = f.core fit c₄.ports ∧ acknowledged <:+ c₄.ports

/-- The kernel runs in ring 0. -/
theorem Lib.Core.InKernel.ring {s : Core} (h : s.InKernel) : ringOf s.cs = 0 := by
  rw [h.1]
  rfl

/-- A stub resumes from the frame at the stack pointer. -/
theorem leaves_of_frame {f : InterruptFrame} {acknowledged : List (Byte × Byte)} (lines : StubCode)
    (hframe : HoldsFrame c.mem c.esp f) (hkernel : c.InKernel) (hring : ringOf (lowHalf f.cs) = 3)
    (hports : acknowledged <:+ c.ports) :
    Leaves fit f acknowledged (runStub fit callee none (ops restoreContext ++ (.iretd :: lines)) c) := by
  obtain ⟨hcore, -⟩ := restore_run fit hframe hkernel.ring hring
  have hsame := congrArg Core.ports hcore
  refine ⟨iretd fit (execs restoreContext c), runStub_ops .., ?_, ?_⟩
  · rw [hsame]
    exact hcore
  · rw [hsame]
    exact hports

/-- The end-of-interrupt byte is sent, and nothing else changes but `eax`. -/
theorem acknowledge_run (c : Cpu) : ∃ eax, execs [.movByte .eax 0x20, .out 0x20] c =
    c.withCore { c.toCore with eax := eax, ports := c.ports ++ [(0x20, 0x20)] } := by
  have hbyte : (c.eax &&& ~~~0xFF ||| (0x20 : Byte).setWidth 32).setWidth 8 = (0x20 : Byte) := by
    apply BitVec.eq_of_getLsbD_eq
    intro i hi
    rw [BitVec.getLsbD_setWidth, BitVec.getLsbD_or, BitVec.getLsbD_and, BitVec.getLsbD_not, BitVec.getLsbD_setWidth,
      getLsbD_ff]
    simp [hi, show i < 32 by omega]
  refine ⟨c.eax &&& ~~~0xFF ||| (0x20 : Byte).setWidth 32, ?_⟩
  have hport : ((0x20 : Byte), (0x20 : Byte)) =
      (0x20, (c.eax &&& ~~~0xFF ||| (0x20 : Byte).setWidth 32).setWidth 8) := by
    rw [hbyte]
  rw [hport]
  rfl

/-- `test eax, eax` in a stub. -/
theorem test_zero (c : Cpu) (size : Word) :
    (execs [.add .esp size, .test .eax .eax] c).zero = decide (c.eax = 0) := by
  have hzero : (execs [.add .esp size, .test .eax .eax] c).zero = decide (c.eax &&& c.eax = 0) :=
    zero_testFlags (addFlags c.eflags c.esp size) (c.eax &&& c.eax)
  rw [BitVec.and_self] at hzero
  exact hzero

/-- When there is no process to resume the processor stops. -/
theorem afterDispatch_halts (size : Word) (hzero : c₂.eax = 0) :
    runStub fit callee none (afterDispatch size) c₂ = some .halted := by
  have htest := test_zero c₂ size
  rw [decide_eq_true hzero] at htest
  unfold afterDispatch
  simp only [List.append_assoc, runStub_ops]
  refine (runStub_jz_of_zero fit callee StubLabel.noRunnableProcess _ htest).trans ?_
  have hflag (flags : Word) : (setFlag flags 9 false).getLsbD 9 = false := by
    rw [getLsbD_setFlag _ (by decide), if_pos rfl]
  show (if (setFlag _ 9 false).getLsbD 9 then none else some StubEnd.halted) = _
  rw [hflag]
  rfl

/-- When there is one, its context switch is completed. -/
theorem afterDispatch_run (size : Word) (hne : c₂.eax ≠ 0) :
    runStub fit callee none (afterDispatch size) c₂ =
      (callee .processCompleteContextSwitch (execs [.add .esp size, .test .eax .eax, .mov .esp .eax] c₂)).bind
        (runStub fit callee none (ops restoreContext ++ (.iretd :: noRunnableProcess))) := by
  have hcode : afterDispatch size = ops [.add .esp size, .test .eax .eax] ++ (.jz .noRunnableProcess ::
      (ops [.mov .esp .eax] ++ (.call .processCompleteContextSwitch ::
        (ops restoreContext ++ (.iretd :: noRunnableProcess))))) := rfl
  have htest := test_zero c₂ size
  rw [decide_eq_false hne] at htest
  rw [hcode, runStub_ops, runStub_jz_of_not fit callee _ _ htest, runStub_ops, runStub_call, ← execs_append]
  rfl

/-- The stub of the timer completes it, and acknowledges the interrupt. -/
theorem afterTimer_run (c₂ : Cpu) :
    runStub fit callee none afterTimer c₂ =
      (callee .processCompleteContextSwitch (execs [.add .esp 4, .mov .esp .eax] c₂)).bind fun c₃ =>
        runStub fit callee none (ops restoreContext ++ (.iretd :: []) : StubCode)
          (execs [.movByte .eax 0x20, .out 0x20] c₃) := by
  have hcode : afterTimer = ops [.add .esp 4, .mov .esp .eax] ++ (.call .processCompleteContextSwitch ::
      (ops [.movByte .eax 0x20, .out 0x20] ++ (ops restoreContext ++ [.iretd]))) := rfl
  rw [hcode, runStub_ops, runStub_call]
  exact congrArg _ (funext fun c₃ => runStub_ops ..)

/-- The stub of a trap resumes from the frame that is left for it. The stub of the timer does so whatever
`timer_interrupt` returns. -/
theorem afterHandler_leaves (trap : Trap) {f : InterruptFrame} (hkernel : c₂.InKernel)
    (hsome : trap.acknowledged = [] → c₂.eax ≠ 0) (hcomplete : Completes callee c₂ f)
    (hring : ringOf (lowHalf f.cs) = 3) :
    Leaves fit f trap.acknowledged (runStub fit callee none trap.afterHandler c₂) := by
  have hdispatch (size : Word) (hne : c₂.eax ≠ 0) :
      Leaves fit f [] (runStub fit callee none (afterDispatch size) c₂) := by
    obtain ⟨c₃, hcall, -, hkernel', hframe⟩ :=
      hcomplete (execs [.add .esp size, .test .eax .eax, .mov .esp .eax] c₂) rfl rfl hkernel
    rw [afterDispatch_run size hne, hcall, Option.bind_some]
    exact leaves_of_frame noRunnableProcess hframe hkernel' hring List.nil_suffix
  cases trap with
  | syscall registers => exact hdispatch 4 (hsome rfl)
  | pageFault registers errorCode faultAddr => exact hdispatch 8 (hsome rfl)
  | timer registers =>
    obtain ⟨c₃, hcall, hesp, hkernel', hframe⟩ := hcomplete (execs [.add .esp 4, .mov .esp .eax] c₂) rfl rfl hkernel
    obtain ⟨eax, hack⟩ := acknowledge_run c₃
    show Leaves fit f [(0x20, 0x20)] (runStub fit callee none afterTimer c₂)
    rw [afterTimer_run, hcall, Option.bind_some, hack]
    exact leaves_of_frame [] hframe hkernel' hring (List.suffix_append ..)

/-- The arguments of the handler of a trap. -/
def Trap.arguments (trap : Trap) (k : Kernel) : List Word := trap.frame k :: trap.errorCode.toList

variable (fit callee offset) in
/-- A trap up to the call of its handler. -/
theorem trap_enters (k : Kernel) (trap : Trap) (hring : ringOf c.cs = 3) :
    ∃ c₁, AtHandler c c₁ k.tssEsp0 (trap.frame k) (trap.arguments k) ∧
      runStub fit callee none trap.stub (c.trapped offset k.tssEsp0 trap.errorCode) =
        (callee trap.handler c₁).bind (runStub fit callee none trap.afterHandler) := by
  cases trap with
  | syscall registers =>
    refine ⟨_, trap_entry offset hring, ?_⟩
    exact runStub_ops fit callee (saveContext ++ loadKernelSegments ++ [.push .esp])
      (.call .syscallDispatch :: afterDispatch 4) _
  | timer registers =>
    refine ⟨_, trap_entry offset hring, ?_⟩
    exact runStub_ops fit callee (saveContext ++ loadKernelSegments ++ [.push .esp])
      (.call .timerInterrupt :: afterTimer) _
  | pageFault registers errorCode faultAddr => exact pageFault_entry hring errorCode

/-- The ring of a saved `cs`. -/
theorem ringOf_lowHalf (w : Word) : ringOf (lowHalf w) = 3 ↔ isRing3 w = true := by
  have hmask : (w &&& 0x03).toNat = w.toNat % 4 := by
    rw [BitVec.toNat_and, show (0x03 : Word).toNat = 2 ^ 2 - 1 from rfl, Nat.and_two_pow_sub_one_eq_mod]
  have hlow : (lowHalf w).toNat % 4 = w.toNat % 4 := by
    unfold lowHalf
    rw [BitVec.extractLsb'_toNat, Nat.shiftRight_zero]
    omega
  unfold ringOf isRing3
  rw [hlow, decide_eq_true_eq, ← BitVec.toNat_inj, hmask]
  rfl

variable (fit callee offset) in
/-- **The stubs carry out the traps.** From ring 3 the stub of a trap calls its handler with the frame that
`Trap.enter` puts into the state of the kernel, at its address; the rest of memory is as it was, but for the top of
the kernel stack. When the handler returns 0, the stubs that test for it stop the processor. Otherwise the processor
returns to ring 3 with the registers of the frame that the handler and `process_complete_context_switch` leave. -/
theorem trap_round_trip (k : Kernel) (trap : Trap) (hring : ringOf c.cs = 3)
    (hregisters : trap.registers = frameOfCore c.toCore (trap.frame k + 32)) :
    ∃ c₁, AtHandler c c₁ k.tssEsp0 (trap.frame k) (trap.arguments k) ∧
      HoldsFrame c₁.mem (trap.frame k) ((trap.enter k).frameAt (trap.frame k)) ∧
      ∀ c₂, callee trap.handler c₁ = some c₂ → c₂.InKernel →
        (trap.acknowledged = [] → c₂.eax = 0 →
          runStub fit callee none trap.stub (c.trapped offset k.tssEsp0 trap.errorCode) = some .halted) ∧
        ∀ f, (trap.acknowledged = [] → c₂.eax ≠ 0) → Completes callee c₂ f → isRing3 f.cs = true →
          Leaves fit f trap.acknowledged
            (runStub fit callee none trap.stub (c.trapped offset k.tssEsp0 trap.errorCode)) := by
  obtain ⟨c₁, hat, hrun⟩ := trap_enters fit callee offset k trap hring
  refine ⟨c₁, hat, ?_, fun c₂ hcall hkernel => ⟨fun hack hzero => ?_, fun f hsome hcomplete hring3 => ?_⟩⟩
  · have hframe : (trap.enter k).frameAt (trap.frame k) = trap.registers := update_self ..
    rw [hframe, hregisters]
    exact hat.frame
  · rw [hrun, hcall]
    cases trap with
    | timer registers => exact absurd hack (List.cons_ne_nil _ _)
    | syscall registers => exact afterDispatch_halts 4 hzero
    | pageFault registers errorCode faultAddr => exact afterDispatch_halts 8 hzero
  · rw [hrun, hcall]
    exact afterHandler_leaves trap hkernel hsome hcomplete ((ringOf_lowHalf f.cs).mpr hring3)

/-- A frame that has not changed gives the program its registers back. -/
theorem core_frameOfCore {s : Core} (savedEsp : Word) (ports : List (Byte × Byte)) (hds : fit s.ds = true)
    (hes : fit s.es = true) (hfs : fit s.fs = true) (hgs : fit s.gs = true) :
    (frameOfCore s savedEsp).core fit ports = { s with ports := ports } := by
  unfold InterruptFrame.core frameOfCore
  simp only [lowHalf_setWidth, hds, hes, hfs, hgs, if_true]

/-- A program in ring 3. -/
def Lib.Cpu.ring3 : Cpu where
  eax := 1
  ecx := 2
  edx := 3
  ebx := 4
  esp := 0x7FF000
  ebp := 5
  esi := 6
  edi := 7
  cs := 0x1B
  ss := 0x23
  ds := 0x23
  es := 0x23
  fs := 0x23
  gs := 0x23
  eip := 0x400000
  eflags := 0x202
  ports := []
  mem := fun _ => 0

/-- A kernel that has nothing to do returns to the frame it is called with. -/
def idleCalls : CFunction → Cpu → Option Cpu
  | .processCompleteContextSwitch, c => some c
  | _, c => some (c.withCore (c.set .eax (c.wordAt c.esp)))

/-- The idle round trip through the timer. -/
theorem trap_round_trip_idle : ∃ c₄,
    runStub (fun selector => selector = 0x23) idleCalls none isrStub32 (Cpu.ring3.trapped 0 0 none) =
      some (.resumed c₄) ∧ c₄.toCore = { Cpu.ring3.toCore with ports := c₄.ports } := by
  let trap : Trap := .timer (frameOfCore Cpu.ring3.toCore (0 - 68 + 32))
  obtain ⟨c₁, hat, hframe, hrun⟩ :=
    trap_round_trip (fun selector => selector = 0x23) idleCalls 0 (c := .ring3) .blank trap rfl rfl
  have heax : c₁.wordAt c₁.esp = trap.frame .blank := by
    have hargument := ByteView.holds_words_cons.mp hat.arguments
    unfold Cpu.wordAt
    rw [hargument.1.word]
    rfl
  have hcomplete : Completes idleCalls (c₁.withCore (c₁.set .eax (c₁.wordAt c₁.esp))) trap.registers := by
    intro c hmem hesp hkernel
    refine ⟨c, rfl, rfl, hkernel, ?_⟩
    rw [hesp, hmem]
    show HoldsFrame c₁.mem (c₁.wordAt c₁.esp) trap.registers
    rw [heax]
    exact hframe
  have hacknowledged : trap.acknowledged ≠ [] := List.cons_ne_nil _ _
  obtain ⟨c₄, hresumed, hcore, -⟩ := (hrun _ rfl hat.segments).2 trap.registers (fun h => absurd h hacknowledged)
    hcomplete (show isRing3 ((0x1B : BitVec 16).setWidth 32) = true by decide)
  refine ⟨c₄, hresumed, hcore.trans ?_⟩
  exact core_frameOfCore (0 - 68 + 32) c₄.ports rfl rfl rfl rfl

end AgenticOs
