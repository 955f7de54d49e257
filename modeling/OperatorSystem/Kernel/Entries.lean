import OperatorSystem.Kernel.ForkContext
import OperatorSystem.Kernel.Idt

/-!
# The entries for exceptions, page faults and devices (`int.asm`)

An entry that returns must leave no trace in the interrupted program:
`hwint_transparent` and `pageFault_transparent` say so for any program and any
handler that keeps to the C convention. The entries for the other exceptions do
not return, and `exception_reported` says what they tell `syserrHandler`.
-/

namespace OperatorSystem.Kernel.Cpu

/-! ### Exceptions -/

/-- An exception for which the processor pushes no error code. -/
def withoutCode (vector : Word) (s : Cpu) : Cpu := (s.useRing0.push 0xFFFFFFFF).push vector

def withCode (vector : Word) (s : Cpu) : Cpu := s.useRing0.push vector

/-- The entries that call `syserrHandler` and then stay in `jmp $`, up to that call. -/
def exception : Entry → Option (Cpu → Cpu)
  | .divideError => some (withoutCode 0x0)
  | .singleStepException => some (withoutCode 0x1)
  | .nmi => some (withoutCode 0x2)
  | .breakpointException => some (withoutCode 0x3)
  | .overflow => some (withoutCode 0x4)
  | .boundsCheck => some (withoutCode 0x5)
  | .invalOpcode => some (withoutCode 0x6)
  | .coprNotAvailable => some (withoutCode 0x7)
  | .doubleFault => some (withCode 0x8)
  | .coprSegOverrun => some (withoutCode 0x9)
  | .invalTss => some (withCode 0xA)
  | .segmentNotPresent => some (withCode 0xB)
  | .stackException => some (withCode 0xC)
  | .generalProtection => some (withCode 0xD)
  | .coprError => some (withoutCode 0xF)
  | .pageFault | .hwint _ | .sysCall => none

/-- The parameters of `syserrHandler`. -/
structure Report where
  errNo : Word
  errCode : Word
  eip : Word
  cs : Word
  eflags : Word
  deriving DecidableEq

def report (s : Cpu) : Option Report :=
  match s.stack with
  | errNo :: errCode :: eip :: cs :: eflags :: _ => some { errNo, errCode, eip, cs, eflags }
  | _ => none

/-- The exceptions for which the processor pushes an error code. -/
def pushesCode (vector : BitVec 8) : Bool := vector = 8 || (10 ≤ vector && vector ≤ 14) || vector = 17

/-- An exception at a vector: the processor pushes `eflags`, `cs` and `eip`, and its code where it has one. -/
def fault (s : Cpu) (vector : BitVec 8) (eflags cs eip code : Word) : Cpu :=
  let s := ((s.push eflags).push cs).push eip
  if pushesCode vector then s.push code else s

/-- What the entry at a vector pushes as the number of the exception. -/
def numberOf (vector : BitVec 8) : Word := if vector = 0x10 then 0xF else vector.setWidth 32

/-- Each entry fits what the processor pushes at its vector. -/
theorem exception_fits : ∀ row ∈ idtRows, ∀ run, exception row.2.1 = some run →
    run = if pushesCode row.1 then withCode (numberOf row.1) else withoutCode (numberOf row.1) := by
  simp only [idtRows, List.forall_mem_cons, exception]
  and_intros
  all_goals first
    | rintro run ⟨⟩
      rfl
    | simp

theorem row_mem {vector : BitVec 8} {entry : Entry} {privilege : BitVec 16}
    (row : rowOf vector = some (entry, privilege)) : (vector, entry, privilege) ∈ idtRows := by
  obtain ⟨before, after, split, _⟩ := List.lookup_eq_some_iff.mp row
  rw [split]
  simp

/-- The entry of an exception calls `syserrHandler` with the number of its vector, with the error
code or -1, and with the place of the exception, on data segments of the kernel. Only the
entry for vector 0x10 gives another number, 0xF. -/
theorem exception_reported {vector : BitVec 8} {entry : Entry} {privilege : BitVec 16} {run : Cpu → Cpu}
    (row : rowOf vector = some (entry, privilege)) (stub : exception entry = some run) (s : Cpu)
    (eflags cs eip code : Word) :
    (run (s.fault vector eflags cs eip code)).report = some
      { errNo := if vector = 0x10 then 0xF else vector.setWidth 32
        errCode := if pushesCode vector then code else -1
        eip, cs, eflags } ∧
      let t := run (s.fault vector eflags cs eip code)
      t.ds = s.ss ∧ t.es = s.ss ∧ t.fs = s.ss ∧ t.gs = s.ss ∧ t.ss = s.ss := by
  have fits := exception_fits _ (row_mem row) run stub
  dsimp only at fits
  cases coded : pushesCode vector with
  | true =>
    simp only [coded, if_true] at fits
    rw [fits, fault, coded]
    exact ⟨rfl, rfl, rfl, rfl, rfl, rfl⟩
  | false =>
    simp only [coded, Bool.false_eq_true, if_false] at fits
    rw [fits, fault, coded]
    exact ⟨rfl, rfl, rfl, rfl, rfl, rfl⟩

theorem exception_reported_protection :
    let s := fault (caller 4) 0xD 0x3202 0x0f 0x400 0x18
    (withCode 0xD s).report = some ⟨0xD, 0x18, 0x400, 0x0f, 0x3202⟩ := by
  have row : rowOf 0xD = some (.generalProtection, privilegeKernel) := by decide
  exact (exception_reported row rfl (caller 4) 0x3202 0x0f 0x400 0x18).1

/-! ### Interrupts of the devices -/

/-- `mov al, EOI` -/
def setAl (s : Cpu) (al : BitVec 8) : Cpu := { s with eax := s.eax.extractLsb' 8 24 ++ al }

/-- `iret` to the interrupted program takes the frame that the interrupt has pushed; up to
it, `hwint_master` and `hwint_slave` differ in their `out` instructions only. -/
def hwint (irqTable : Word) (function : Word → Cpu → Effect) (irq : Fin 16) (s : Cpu) : Option Cpu := do
  let s := (s.saveReg.push s.eax).useRing0
  let s := s.setAl 0x20
  let s := s.push (BitVec.ofNat 32 irq)
  let target ← s.mem (irqTable + 4 * BitVec.ofNat 32 irq)
  let s := (s.callC 1 (function target s)).drop 1
  return s.popEax.loadReg

/-! ### Page faults -/

/-- The stack pointer, on a kernel stack that ends at `top`. -/
def esp (top : Word) (s : Cpu) : Word := top - BitVec.ofNat 32 (4 * s.stack.length)

/-- The double word on the stack at an address. -/
def stackWord (top : Word) (s : Cpu) (a : Word) : Option Word := s.stack[(a - s.esp top).toNat / 4]?

/-- `mov esp, ebp` -/
def setEsp (top : Word) (s : Cpu) (a : Word) : Cpu := s.drop ((a - s.esp top).toNat / 4)

def popEbp (s : Cpu) : Cpu :=
  match s.stack with
  | [] => s
  | w :: rest => { s with ebp := w, stack := rest }

/-- The functions that `pageFault` calls. -/
structure FaultHandlers where
  writeProtectPage : Cpu → Effect
  missingPage : Cpu → Effect

/-- `P`: the fault is one of protection. -/
def faultP : Word := 1

/-- The frame of `pageFault` and the registers of the program. -/
def enterFault (top : Word) (s : Cpu) : Cpu :=
  let s := s.push s.ebp
  let s := { s with ebp := s.esp top }
  (s.saveReg.push s.eax).useRing0

/-- The choice by `and eax, P`, with both arguments on the stack. -/
def callFault (handlers : FaultHandlers) (s : Cpu) : Cpu :=
  let s := { s with eax := s.eax &&& faultP }
  let effect := if s.eax = 0 then handlers.missingPage s else handlers.writeProtectPage s
  (s.callC 2 effect).drop 2

/-- From `pop eax` to the `add esp, 4` that takes the error code away. -/
def leaveFault (top : Word) (s : Cpu) : Cpu :=
  let s := s.popEax.loadReg
  (s.setEsp top s.ebp).popEbp.drop 1

/-- `pageFault` up to `iret`. -/
def pageFault (handlers : FaultHandlers) (top cr2 : Word) (s : Cpu) : Option Cpu := do
  let s := s.enterFault top
  let code ← s.stackWord top (s.ebp + 4)
  let s := { s with eax := code, edx := cr2 }
  let s := (s.push s.edx).push s.eax
  return (s.callFault handlers).leaveFault top

/-! ### Nothing but memory is changed -/

/-- `load_reg` after `save_reg`: what `eax`, `ss` and memory hold meanwhile stays. -/
theorem loadReg_of_saved {s t : Cpu} (saved : t.stack = s.saveReg.stack) :
    t.loadReg = { s with eax := t.eax, ss := t.ss, mem := t.mem } := by
  simp only [saveReg] at saved
  simp only [loadReg, saved]
  simp

/-- The end of an entry that has pushed `eax` behind `save_reg`. -/
theorem popEax_loadReg {s t : Cpu} {eax : Word} (saved : t.stack = eax :: s.saveReg.stack) :
    t.popEax.loadReg = { s with eax, ss := t.ss, mem := t.mem } := by
  have popped : t.popEax = { t with eax, stack := s.saveReg.stack } := by
    simp only [popEax, saved]
  have stack : t.popEax.stack = s.saveReg.stack := by
    rw [popped]
  rw [loadReg_of_saved stack, popped]

/-- The state in which an entry calls the handler of a device. -/
def atHandler (s : Cpu) (irq : Fin 16) : Cpu :=
  ((s.saveReg.push s.eax).useRing0.setAl 0x20).push (BitVec.ofNat 32 irq)

/-- Any handler that keeps to the C convention is called with the number of its line, and the
interrupted program finds all its registers and its stack as they were. -/
theorem hwint_transparent (irqTable : Word) (function : Word → Cpu → Effect) (irq : Fin 16) {s : Cpu}
    {target : Word} (found : s.mem (irqTable + 4 * BitVec.ofNat 32 irq) = some target) :
    (s.atHandler irq).stack.head? = some (BitVec.ofNat 32 irq) ∧
      hwint irqTable function irq s = some { s with mem := (function target (s.atHandler irq)).mem } := by
  refine ⟨rfl, ?_⟩
  let called := ((s.atHandler irq).callC 1 (function target (s.atHandler irq))).drop 1
  have run : hwint irqTable function irq s = some called.popEax.loadReg := by
    simp only [hwint, Option.bind_eq_bind]
    rw [show (((s.saveReg.push s.eax).useRing0.setAl 0x20).push (BitVec.ofNat 32 irq)).mem = s.mem from rfl, found]
    rfl
  have stack : called.stack = s.eax :: s.saveReg.stack := rfl
  rw [run, popEax_loadReg stack]
  rfl

theorem hwint_transparent_clock :
    ((caller 4).atHandler 0).stack.head? = some (BitVec.ofNat 32 0) ∧
      hwint 0x60000 (fun _ s => ⟨7, 8, 9, fun _ => 10, s.mem⟩) 0 (caller 4) =
        some { caller 4 with mem := ((caller 4).atHandler 0).mem } :=
  have found : (caller 4).mem (0x60000 + 4 * BitVec.ofNat 32 (0 : Fin 16)) = some 0 := by decide
  hwint_transparent 0x60000 (fun _ s => ⟨7, 8, 9, fun _ => 10, s.mem⟩) 0 found

/-- The distance of two places on the stack. -/
theorem esp_sub (top : Word) {s t : Cpu} {n : Nat} (deeper : t.stack.length = s.stack.length + n) :
    s.esp top - t.esp top = BitVec.ofNat 32 (4 * n) := by
  rw [esp, esp, deeper, Nat.mul_add, BitVec.ofNat_add]
  generalize BitVec.ofNat 32 (4 * s.stack.length) = a
  generalize BitVec.ofNat 32 (4 * n) = b
  bv_omega

/-- The error code lies above the saved `ebp`. -/
theorem stackWord_enterFault (top : Word) {s : Cpu} {code : Word} {rest : List Word}
    (frame : s.stack = code :: rest) :
    (s.enterFault top).stackWord top ((s.enterFault top).ebp + 4) = some code := by
  have above : (s.push s.ebp).esp top - (s.enterFault top).esp top = BitVec.ofNat 32 (4 * 11) := esp_sub top rfl
  have distance : (s.enterFault top).ebp + 4 - (s.enterFault top).esp top = 48 := by
    rw [show (s.enterFault top).ebp = (s.push s.ebp).esp top from rfl]
    bv_omega
  have shape : (s.enterFault top).stack[12]? = s.stack[0]? := rfl
  rw [stackWord, distance, show (48 : Word).toNat / 4 = 12 from rfl, shape, frame]
  rfl

/-- `mov esp, ebp` finds the stack as `load_reg` leaves it: `ebp` was saved with its new value. -/
theorem leaveFault_eq (top : Word) {s t : Cpu}
    (saved : t.stack = s.eax :: { s.push s.ebp with ebp := (s.push s.ebp).esp top }.saveReg.stack) :
    t.leaveFault top = { s with stack := s.stack.drop 1, ss := t.ss, mem := t.mem } := by
  let loaded := t.popEax.loadReg
  have restored : loaded = { s.push s.ebp with
      ebp := (s.push s.ebp).esp top, ss := t.ss, mem := t.mem } := popEax_loadReg saved
  have here : loaded.ebp - loaded.esp top = 0 := by
    rw [restored]
    exact BitVec.sub_self _
  have back : loaded.setEsp top loaded.ebp = loaded := by
    rw [setEsp, here]
    rfl
  rw [leaveFault, show t.popEax.loadReg = loaded from rfl, back, restored]
  rfl

/-- The state in which `pageFault` calls a function. -/
def atFault (top cr2 : Word) (s : Cpu) (code : Word) : Cpu :=
  { (({ s.enterFault top with edx := cr2 }.push cr2).push code) with eax := code &&& faultP }

theorem and_faultP (code : Word) : code &&& faultP = 0 ↔ code.getLsbD 0 = false := by
  change code &&& 1#32 = 0 ↔ _
  rw [BitVec.and_one_eq_setWidth_ofBool_getLsbD]
  cases code.getLsbD 0 <;> decide

/-- A page fault comes back to the instruction that has made it: registers and stack are as
before, without the error code. The error code and the address go to `writeProtectPage`
where bit 0 of the code is set, and to `missingPage` elsewhere. -/
theorem pageFault_transparent (handlers : FaultHandlers) (top cr2 : Word) {s : Cpu} {code : Word}
    {rest : List Word} (frame : s.stack = code :: rest) :
    (s.atFault top cr2 code).stack.take 2 = [code, cr2] ∧
      pageFault handlers top cr2 s = some { s with
        stack := rest
        mem := (if code.getLsbD 0 then handlers.writeProtectPage (s.atFault top cr2 code)
          else handlers.missingPage (s.atFault top cr2 code)).mem } := by
  refine ⟨rfl, ?_⟩
  let effect := if code &&& faultP = 0 then handlers.missingPage (s.atFault top cr2 code)
    else handlers.writeProtectPage (s.atFault top cr2 code)
  have run : pageFault handlers top cr2 s =
      some ((((s.atFault top cr2 code).callC 2 effect).drop 2).leaveFault top) := by
    rw [pageFault, stackWord_enterFault top frame]
    rfl
  have chosen : effect = if code.getLsbD 0 then handlers.writeProtectPage (s.atFault top cr2 code)
      else handlers.missingPage (s.atFault top cr2 code) := by
    simp only [effect, and_faultP]
    cases code.getLsbD 0 <;> rfl
  rw [run, leaveFault_eq top (s := s) rfl, frame, ← chosen]
  rfl

/-- A program that writes to a protected page, with the error code on its stack. -/
def writer : Cpu := { caller 4 with stack := [7, 0x400, 0x0f, 0x3202, 0x9fff0, 0x17] }

def keepMemory : FaultHandlers :=
  ⟨fun s => ⟨1, 2, 3, fun _ => 4, s.mem⟩, fun s => ⟨5, 6, 7, fun _ => 8, s.mem⟩⟩

theorem pageFault_transparent_writer :
    (writer.atFault 0x40000 0x8000 7).stack.take 2 = [7, 0x8000] ∧
      pageFault keepMemory 0x40000 0x8000 writer = some { writer with
        stack := [0x400, 0x0f, 0x3202, 0x9fff0, 0x17]
        mem := (if (7 : Word).getLsbD 0 then keepMemory.writeProtectPage (writer.atFault 0x40000 0x8000 7)
          else keepMemory.missingPage (writer.atFault 0x40000 0x8000 7)).mem } :=
  have frame : writer.stack = 7 :: [0x400, 0x0f, 0x3202, 0x9fff0, 0x17] := rfl
  pageFault_transparent keepMemory 0x40000 0x8000 frame

end OperatorSystem.Kernel.Cpu
