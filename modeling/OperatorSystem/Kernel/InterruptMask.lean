import OperatorSystem.Library.InterruptController

/-!
# The interrupt controllers of the kernel (`protect.c`, `int.h`, `klib.asm`)

`init8259A` programs both chips, and `enableIrq` and `disableIrq` each read the
mask of one chip and write it back with one bit changed. The main result
`masked_run` says what the masks are after any calls with any arguments.
-/

namespace OperatorSystem.Kernel

open InterruptController

def intMCtl : BitVec 16 := 0x20
def intMCtlmask : BitVec 16 := 0x21
def intSCtl : BitVec 16 := 0xA0
def intSCtlmask : BitVec 16 := 0xA1

def intVectorIrq0 : BitVec 8 := 0x20
def intVectorIrq8 : BitVec 8 := 0x28

namespace Pic

/-- `out`, as far as the chips see it. -/
def outByte (p : Pair) (port : BitVec 16) (value : BitVec 8) : Pair :=
  if port = intMCtl then { p with master := p.master.command value }
  else if port = intMCtlmask then { p with master := p.master.data value }
  else if port = intSCtl then { p with slave := p.slave.command value }
  else if port = intSCtlmask then { p with slave := p.slave.data value }
  else p

/-- `in` from one of the two mask ports. -/
def inByte (p : Pair) (port : BitVec 16) : BitVec 8 :=
  if port = intMCtlmask then p.master.dataRead else p.slave.dataRead

def init8259A (p : Pair) : Pair :=
  let p := outByte p intMCtl 0x11
  let p := outByte p intMCtlmask intVectorIrq0
  -- the slave is on line 2
  let p := outByte p intMCtlmask 0x4
  let p := outByte p intMCtlmask 0x1
  let p := outByte p intSCtl 0x11
  let p := outByte p intSCtlmask intVectorIrq8
  let p := outByte p intSCtlmask 0x2
  let p := outByte p intSCtlmask 0x1
  let p := outByte p intMCtlmask 0xFB
  outByte p intSCtlmask 0xFF

/-- The mask port that `cmp cl, 8` chooses. -/
def maskPort (cl : BitVec 8) : BitVec 16 := if cl < 8 then intMCtlmask else intSCtlmask

def disableIrq (p : Pair) (irq : BitVec 32) : Pair :=
  let cl := irq.setWidth 8
  let ah := (1 : BitVec 8).rotateLeft cl.toNat
  let port := maskPort cl
  let al := inByte p port
  if al &&& ah ≠ 0 then p else outByte p port (al ||| ah)

def enableIrq (p : Pair) (irq : BitVec 32) : Pair :=
  let cl := irq.setWidth 8
  let ah := (~~~ 1 : BitVec 8).rotateLeft cl.toNat
  let port := maskPort cl
  outByte p port (inByte p port &&& ah)

/-! ### The line that a number names -/

/-- Numbers from 8 to 255 count the lines of the slave round and round. -/
def lineOf (irq : BitVec 32) : Input :=
  let number : Fin 8 := ⟨(irq.setWidth 8).toNat % 8, Nat.mod_lt _ (Nat.succ_pos 7)⟩
  if irq.setWidth 8 < (8 : BitVec 8) then .master number else .slave number

def masked (p : Pair) : Input → Bool
  | .master i => has p.master.mask i
  | .slave i => has p.slave.mask i

def setMask (p : Pair) (line : Input) (off : Bool) : Pair :=
  match line with
  | .master i =>
    { p with master.mask := if off then setLine p.master.mask i else clearLine p.master.mask i }
  | .slave i =>
    { p with slave.mask := if off then setLine p.slave.mask i else clearLine p.slave.mask i }

/-- What `init8259A` leaves for good. Requests are edges, and end by a command. -/
structure Programmed (p : Pair) : Prop extends p.Cascaded where
  masterReady : p.master.expects = .mask
  slaveReady : p.slave.expects = .mask
  masterBase : p.master.base = intVectorIrq0
  slaveBase : p.slave.base = intVectorIrq8
  masterEdges : p.master.level = false
  slaveEdges : p.slave.level = false
  masterEnds : p.master.autoEnd = false
  slaveEnds : p.slave.autoEnd = false

/-! ### The initialisation -/

theorem programmed_init8259A (p : Pair) : Programmed (init8259A p) where
  master := rfl
  slave := rfl
  masterReady := rfl
  slaveReady := rfl
  masterBase := rfl
  slaveBase := rfl
  masterEdges := rfl
  slaveEdges := rfl
  masterEnds := rfl
  slaveEnds := rfl

theorem quiet_init8259A (p : Pair) : (init8259A p).Quiet := ⟨rfl, rfl⟩

/-- Every line is off but the one of the slave. -/
theorem masked_init8259A (p : Pair) (line : Input) :
    masked (init8259A p) line = decide (line ≠ .master 2) := by
  have bits : ∀ i : Fin 8, has 0xFB i = decide (i ≠ 2) ∧ has 0xFF i = true := by decide
  cases line with
  | master i =>
    refine (bits i).1.trans ?_
    simp
  | slave i => exact (bits i).2

/-! ### One call -/

/-- `rol` of a byte takes the count modulo 8. -/
theorem rotateLeft_one (n : Nat) : (1 : BitVec 8).rotateLeft n = only (Fin.ofNat 8 n) := by
  have small : ∀ i : Fin 8, (1 : BitVec 8).rotateLeft i = only i := by decide
  rw [← BitVec.rotateLeft_mod_eq_rotateLeft]
  exact small (Fin.ofNat 8 n)

theorem rotateLeft_not_one (n : Nat) : (~~~ 1 : BitVec 8).rotateLeft n = ~~~ only (Fin.ofNat 8 n) := by
  have small : ∀ i : Fin 8, (~~~ 1 : BitVec 8).rotateLeft i = ~~~ only i := by decide
  rw [← BitVec.rotateLeft_mod_eq_rotateLeft]
  exact small (Fin.ofNat 8 n)

theorem has_and_only (w : Lines) (i j : Fin 8) : has (w &&& only i) j = (has w j && decide (i = j)) := by
  rw [has, BitVec.getLsbD_and, ← has, ← has, has_only]

theorem and_only_eq_zero {w : Lines} {i : Fin 8} : w &&& only i = 0 ↔ has w i = false := by
  constructor
  · intro zero
    have bit := has_and_only w i i
    rw [zero] at bit
    simpa using bit.symm
  · intro clear
    apply ext_lines
    intro j
    rw [has_and_only]
    by_cases same : i = j
    · simp [← same, clear]
    · simp [same]

variable {p : Pair}

theorem outByte_master (ready : p.master.expects = .mask) (v : BitVec 8) :
    outByte p intMCtlmask v = { p with master.mask := v } := by
  simp only [outByte, intMCtl, intMCtlmask, Chip.data, ready]
  rfl

theorem outByte_slave (ready : p.slave.expects = .mask) (v : BitVec 8) :
    outByte p intSCtlmask v = { p with slave.mask := v } := by
  simp only [outByte, intMCtl, intMCtlmask, intSCtl, intSCtlmask, Chip.data, ready]
  rfl

theorem enableIrq_eq (programmed : Programmed p) (irq : BitVec 32) :
    enableIrq p irq = setMask p (lineOf irq) false := by
  simp only [enableIrq, rotateLeft_not_one, maskPort, lineOf]
  split
  · rw [outByte_master programmed.masterReady]
    rfl
  · rw [outByte_slave programmed.slaveReady]
    rfl

theorem setLine_of_has {w : Lines} {i : Fin 8} (already : has w i = true) : setLine w i = w := by
  apply ext_lines
  intro j
  rw [has_setLine]
  by_cases same : i = j
  · simp [← same, already]
  · simp [same]

theorem lineOf_eq (irq : BitVec 32) :
    lineOf irq = if irq.setWidth 8 < (8 : BitVec 8) then .master (Fin.ofNat 8 (irq.setWidth 8).toNat)
      else .slave (Fin.ofNat 8 (irq.setWidth 8).toNat) := rfl

theorem disableIrq_eq (programmed : Programmed p) (irq : BitVec 32) :
    disableIrq p irq = setMask p (lineOf irq) true := by
  simp only [disableIrq, rotateLeft_one, maskPort, lineOf_eq, ne_eq, and_only_eq_zero]
  split
  · -- a line that is off already is not written again
    by_cases already : has p.master.mask (Fin.ofNat 8 (irq.setWidth 8).toNat) = true
    · rw [if_pos (by simpa [inByte, Chip.dataRead] using already)]
      simp only [setMask, if_true, setLine_of_has already]
    · rw [if_neg (by simpa [inByte, Chip.dataRead] using already), outByte_master programmed.masterReady]
      rfl
  · by_cases already : has p.slave.mask (Fin.ofNat 8 (irq.setWidth 8).toNat) = true
    · rw [if_pos (by simpa [inByte, Chip.dataRead, intMCtlmask, intSCtlmask] using already)]
      simp only [setMask, if_true, setLine_of_has already]
    · rw [if_neg (by simpa [inByte, Chip.dataRead, intMCtlmask, intSCtlmask] using already),
        outByte_slave programmed.slaveReady]
      rfl

theorem programmed_setMask (programmed : Programmed p) (line : Input) (off : Bool) :
    Programmed (setMask p line off) := by
  cases line <;> exact { programmed with }

theorem masked_setMask (line other : Input) (off : Bool) :
    masked (setMask p line off) other = if line = other then off else masked p other := by
  cases line <;> cases other <;> cases off <;> simp only [masked, setMask] <;> grind [has_setLine, has_clearLine]

/-! ### Any calls -/

inductive MaskCall
  | enable (irq : BitVec 32)
  | disable (irq : BitVec 32)

def MaskCall.line : MaskCall → Input
  | .enable irq => lineOf irq
  | .disable irq => lineOf irq

def MaskCall.off : MaskCall → Bool
  | .enable _ => false
  | .disable _ => true

def call (p : Pair) : MaskCall → Pair
  | .enable irq => enableIrq p irq
  | .disable irq => disableIrq p irq

/-- Whether the last call that names the line turns it off. -/
def lastCall (line : Input) : List MaskCall → Option Bool
  | [] => none
  | c :: calls => (lastCall line calls).or (if c.line = line then some c.off else none)

theorem call_eq (programmed : Programmed p) (c : MaskCall) : call p c = setMask p c.line c.off := by
  cases c with
  | enable irq => exact enableIrq_eq programmed irq
  | disable irq => exact disableIrq_eq programmed irq

theorem masked_calls (programmed : Programmed p) (calls : List MaskCall) (line : Input) :
    masked (calls.foldl call p) line = (lastCall line calls).getD (masked p line) := by
  induction calls generalizing p with
  | nil => rfl
  | cons c calls ih =>
    rw [List.foldl_cons, call_eq programmed, ih (programmed_setMask programmed _ _), masked_setMask, lastCall]
    cases lastCall line calls with
    | some off => rfl
    | none => split <;> rfl

theorem programmed_calls (programmed : Programmed p) (calls : List MaskCall) :
    Programmed (calls.foldl call p) := by
  induction calls generalizing p with
  | nil => exact programmed
  | cons c calls ih =>
    rw [List.foldl_cons, call_eq programmed]
    exact ih (programmed_setMask programmed _ _)

/-- After the initialisation and any calls of `enableIrq` and `disableIrq` with any
arguments, a line is off exactly if the last call that names it has turned it
off, and so is a line that no call names, but line 2. The rest of the program
of the chips is as `init8259A` has left it. -/
theorem masked_run (p : Pair) (calls : List MaskCall) (line : Input) :
    masked (calls.foldl call (init8259A p)) line = (lastCall line calls).getD (decide (line ≠ .master 2)) ∧
      Programmed (calls.foldl call (init8259A p)) := by
  refine ⟨?_, programmed_calls (programmed_init8259A p) calls⟩
  rw [masked_calls (programmed_init8259A p), masked_init8259A]

end Pic

end OperatorSystem.Kernel
