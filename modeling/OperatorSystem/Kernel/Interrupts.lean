import OperatorSystem.Kernel.Idt
import OperatorSystem.Kernel.InterruptMask
import OperatorSystem.Library.Transition

/-!
# Interrupts from the device to the handler (`int.asm`, `protect.c`, `klib.asm`)

The machine takes steps of the devices, of the processor, of the entries
`hwint00` to `hwint15` and of the kernel in any order. The main results hold in
every run: nothing is in service while the kernel runs, so that a pending line
is never held back (`accept_pending`), and each request that is not taken back
is answered by exactly one call of the handler of its line (`requests_answered`).
-/

namespace OperatorSystem.Kernel

open InterruptController Pic

/-- What the linker makes of the entries. -/
structure Link where
  address : Entry → BitVec 32
  entryAt : BitVec 32 → Option Entry
  entryAt_address : ∀ entry, entryAt (address entry) = some entry

/-- The byte that ends an interrupt. -/
def eoi : BitVec 8 := 0x20

/-- An entry before its `sti`, with the `out` instructions that are still to come. -/
structure Stub where
  irq : Fin 16
  outs : List (BitVec 16 × BitVec 8)
  deriving DecidableEq

/-- `hwint_master` and `hwint_slave` -/
def hwint (irq : Fin 16) : Stub where
  irq := irq
  outs := if irq.val < 8 then [(intMCtl, eoi)] else [(intMCtl, eoi), (intSCtl, eoi)]

structure InterruptState where
  pics : Pair
  idt : Idt
  irqTable : Fin 16 → BitVec 32
  interruptFlag : Bool
  stub : Option Stub
  /-- The calls through `IRQ_TABLE` with their argument, the last one first. -/
  calls : List (BitVec 32 × Fin 16)

inductive InterruptEvent
  | raise (line : Input)
  | withdraw (line : Input)
  | accept
  | out
  | call
  | mask (c : MaskCall)
  | putIrqHandler (irq : Fin 16) (handler : BitVec 32)
  | setFlag (on : Bool)

namespace InterruptState

def setRequest (p : Pair) (line : Input) (on : Bool) : Pair :=
  match line with
  | .master i =>
    { p with
      master.requests := if on then setLine p.master.requests i else clearLine p.master.requests i }
  | .slave i =>
    { p with
      slave.requests := if on then setLine p.slave.requests i else clearLine p.slave.requests i }

/-- The processor takes an interrupt, through a gate that clears the interrupt flag. -/
def accept (l : Link) (s : InterruptState) : Option InterruptState := do
  let (pics, vector) := s.pics.acknowledge
  let target ← Target.decode (s.idt vector).bytes
  if target.Callable 0 then
    match l.entryAt target.offset with
    | some (.hwint irq) => some { s with pics, interruptFlag := false, stub := some (hwint irq) }
    | _ => none
  else none

/-- The kernel itself takes no step while an entry is before its `sti`. -/
def step (l : Link) (s : InterruptState) : InterruptEvent → Option InterruptState
  -- no device is on line 2
  | .raise line => if line = .cascade then none else some { s with pics := setRequest s.pics line true }
  | .withdraw line => if line = .cascade then none else some { s with pics := setRequest s.pics line false }
  | .accept => if s.interruptFlag && s.stub.isNone then s.accept l else none
  | .out =>
    match s.stub with
    | some ⟨irq, (port, value) :: outs⟩ =>
      some { s with pics := outByte s.pics port value, stub := some ⟨irq, outs⟩ }
    | _ => none
  -- `sti`, and the call through the table
  | .call =>
    match s.stub with
    | some ⟨irq, []⟩ =>
      some { s with stub := none, interruptFlag := true, calls := (s.irqTable irq, irq) :: s.calls }
    | _ => none
  | .mask c => if s.stub.isNone then some { s with pics := Pic.call s.pics c } else none
  | .putIrqHandler irq handler =>
    if s.stub.isNone then some { s with irqTable := Function.update s.irqTable irq handler } else none
  | .setFlag on => if s.stub.isNone then some { s with interruptFlag := on } else none

/-- The state that `initIdtDesc` and `init8259A` leave, whatever the chips were before. -/
def booted (l : Link) (p : Pair) : InterruptState where
  pics := init8259A p
  idt := initIdtDesc l.address emptyIdt
  irqTable := fun _ => 0
  interruptFlag := false
  stub := none
  calls := []

end InterruptState

open InterruptState

def interrupts (l : Link) : Transition.System InterruptState InterruptEvent where
  init s := ∃ p, s = booted l p
  step s e s' := step l s e = some s'

namespace InterruptState

/-! ### What a step can do -/

inductive Stepped (l : Link) (s : InterruptState) : InterruptEvent → InterruptState → Prop
  | raise {line : Input} (device : line ≠ .master 2) :
    Stepped l s (.raise line) { s with pics := setRequest s.pics line true }
  | withdraw {line : Input} (device : line ≠ .master 2) :
    Stepped l s (.withdraw line) { s with pics := setRequest s.pics line false }
  | accept {s' : InterruptState} (enabled : s.interruptFlag = true) (idle : s.stub = none)
      (accepted : s.accept l = some s') : Stepped l s .accept s'
  | out {irq : Fin 16} {port : BitVec 16} {value : BitVec 8} {outs : List (BitVec 16 × BitVec 8)}
      (stub : s.stub = some ⟨irq, (port, value) :: outs⟩) :
    Stepped l s .out { s with pics := outByte s.pics port value, stub := some ⟨irq, outs⟩ }
  | call {irq : Fin 16} (stub : s.stub = some ⟨irq, []⟩) :
    Stepped l s .call
      { s with stub := none, interruptFlag := true, calls := (s.irqTable irq, irq) :: s.calls }
  | mask {c : MaskCall} (idle : s.stub = none) : Stepped l s (.mask c) { s with pics := Pic.call s.pics c }
  | putIrqHandler {irq : Fin 16} {handler : BitVec 32} (idle : s.stub = none) :
    Stepped l s (.putIrqHandler irq handler) { s with irqTable := Function.update s.irqTable irq handler }
  | setFlag {on : Bool} (idle : s.stub = none) : Stepped l s (.setFlag on) { s with interruptFlag := on }

theorem step_cases {l : Link} {s s' : InterruptState} {e : InterruptEvent} (taken : step l s e = some s') :
    Stepped l s e s' := by
  cases e with
  | raise line =>
    obtain ⟨device, result⟩ := Option.ite_none_left_eq_some.mp taken
    obtain rfl := Option.some.inj result
    exact .raise device
  | withdraw line =>
    obtain ⟨device, result⟩ := Option.ite_none_left_eq_some.mp taken
    obtain rfl := Option.some.inj result
    exact .withdraw device
  | accept =>
    obtain ⟨ready, accepted⟩ := Option.ite_none_right_eq_some.mp taken
    simp only [Bool.and_eq_true, Option.isNone_iff_eq_none] at ready
    exact .accept ready.1 ready.2 accepted
  | out =>
    simp only [step] at taken
    split at taken
    · rename_i stub
      obtain rfl := Option.some.inj taken
      exact .out stub
    · cases taken
  | call =>
    simp only [step] at taken
    split at taken
    · rename_i stub
      obtain rfl := Option.some.inj taken
      exact .call stub
    · cases taken
  | mask c =>
    obtain ⟨idle, result⟩ := Option.ite_none_right_eq_some.mp taken
    obtain rfl := Option.some.inj result
    exact .mask (Option.isNone_iff_eq_none.mp idle)
  | putIrqHandler irq handler =>
    obtain ⟨idle, result⟩ := Option.ite_none_right_eq_some.mp taken
    obtain rfl := Option.some.inj result
    exact .putIrqHandler (Option.isNone_iff_eq_none.mp idle)
  | setFlag on =>
    obtain ⟨idle, result⟩ := Option.ite_none_right_eq_some.mp taken
    obtain rfl := Option.some.inj result
    exact .setFlag (Option.isNone_iff_eq_none.mp idle)

/-! ### What is in service -/

/-- At most one line. -/
def OneInService (c : Chip) : Prop := c.inService = 0 ∨ ∃ i, c.inService = only i

/-- The lines in service, for each place in an entry. -/
inductive Service : Option Stub → Pair → Prop
  | kernel {p : Pair} (quiet : p.Quiet) : Service none p
  | master {p : Pair} {irq : Fin 16} (low : irq < 8) (one : OneInService p.master)
      (slave : p.slave.inService = 0) : Service (some ⟨irq, [(intMCtl, eoi)]⟩) p
  | both {p : Pair} {irq : Fin 16} (high : 8 ≤ irq) (one : OneInService p.master)
      (slave : OneInService p.slave) : Service (some ⟨irq, [(intMCtl, eoi), (intSCtl, eoi)]⟩) p
  | slave {p : Pair} {irq : Fin 16} (high : 8 ≤ irq) (master : p.master.inService = 0)
      (one : OneInService p.slave) : Service (some ⟨irq, [(intSCtl, eoi)]⟩) p
  | ended {p : Pair} {irq : Fin 16} (quiet : p.Quiet) : Service (some ⟨irq, []⟩) p

structure Invariant (l : Link) (s : InterruptState) : Prop where
  programmed : Programmed s.pics
  idt : s.idt = initIdtDesc l.address emptyIdt
  service : Service s.stub s.pics

/-- The number of a line, with those of the slave behind those of the master. -/
def irqOf : Input → Fin 16
  | .master i => Fin.castLE (by decide) i
  | .slave i => Fin.natAdd 8 i

variable {l : Link} {s s' : InterruptState} {p : Pair}

/-- Nothing is in service while the kernel runs. -/
theorem quiet_of_idle (inv : Invariant l s) (idle : s.stub = none) : s.pics.Quiet := by
  have service := inv.service
  rw [idle] at service
  cases service with
  | kernel quiet => exact quiet

/-! ### The acknowledgement -/

theorem vector_irqOf (programmed : Programmed p) (line : Input) :
    p.vector line = 0x20 + BitVec.ofNat 8 (irqOf line) := by
  have masters : ∀ i : Fin 8, (0x20 : BitVec 8) ||| BitVec.ofNat 8 i = 0x20 + BitVec.ofNat 8 i := by decide
  have slaves : ∀ i : Fin 8, (0x28 : BitVec 8) ||| BitVec.ofNat 8 i =
      0x20 + BitVec.ofNat 8 (Fin.natAdd 8 i : Fin 16) := by decide
  cases line with
  | master i =>
    rw [Pair.vector, Chip.vector, programmed.masterBase]
    exact masters i
  | slave i =>
    rw [Pair.vector, Chip.vector, programmed.slaveBase]
    exact slaves i

/-- The vector of a line leads to the entry of its number. -/
theorem accept_of_vector (idt : s.idt = initIdtDesc l.address emptyIdt) {q : Pair} {irq : Fin 16}
    (acknowledged : s.pics.acknowledge = (q, 0x20 + BitVec.ofNat 8 irq)) :
    s.accept l = some { s with pics := q, interruptFlag := false, stub := some (hwint irq) } := by
  have target := decode_initIdtDesc l.address (0x20 + BitVec.ofNat 8 irq)
  have callable : (expected l.address (0x20 + BitVec.ofNat 8 irq)).Callable 0 := by
    rw [expected, rowOf_hwint]
    exact ⟨rfl, rfl, ring_zero_le _⟩
  have offset : (expected l.address (0x20 + BitVec.ofNat 8 irq)).offset = l.address (.hwint irq) := by
    rw [expected, rowOf_hwint]
  simp only [accept, acknowledged, idt, target, Option.bind_eq_bind, Option.bind_some, if_pos callable, offset,
    l.entryAt_address]

theorem accept_line (inv : Invariant l s) {line : Input} {q : Pair}
    (acknowledged : s.pics.acknowledge = (q, s.pics.vector line)) :
    s.accept l = some { s with pics := q, interruptFlag := false, stub := some (hwint (irqOf line)) } := by
  rw [vector_irqOf inv.programmed] at acknowledged
  exact accept_of_vector inv.idt acknowledged

/-! ### What each step keeps -/

theorem programmed_wired (programmed : Programmed p) : Programmed { p with master := p.wired } :=
  { programmed with }

theorem programmed_serve (programmed : Programmed p) (line : Input) : Programmed (p.serve line) := by
  cases line <;> exact { programmed with }

/-- What a line in service means for the entry of its number. -/
theorem service_serve (programmed : Programmed p) (quiet : p.Quiet) (line : Input) :
    Service (some (hwint (irqOf line))) (p.serve line) := by
  have masterServed (i : Fin 8) : (p.wired.serve i).inService = only i := by
    have edges : p.wired.autoEnd = false := programmed.masterEnds
    rw [Chip.serve, edges, show p.wired.inService = 0 from quiet.master]
    exact setLine_zero i
  cases line with
  | master i =>
    have low : (irqOf (.master i)).val < 8 := i.isLt
    simp only [hwint, if_pos low]
    exact .master low (Or.inr ⟨i, masterServed i⟩) quiet.slave
  | slave i =>
    have slaveServed : (p.slave.serve i).inService = only i := by
      rw [Chip.serve, programmed.slaveEnds, quiet.slave]
      exact setLine_zero i
    have high : 8 ≤ (irqOf (.slave i)).val := Nat.le_add_right 8 i
    simp only [hwint, if_neg (not_lt_of_ge high)]
    exact .both high (Or.inr ⟨2, masterServed 2⟩) (Or.inr ⟨i, slaveServed⟩)

/-- The acknowledgement of a quiet pair starts the entry of the pending line of highest
priority, and that of line 7 if there is none. -/
theorem accept_spec (inv : Invariant l s) (idle : s.stub = none) :
    (∃ line, s.pics.Pending line ∧ (∀ other, s.pics.Pending other → line.rank ≤ other.rank) ∧
      s.accept l = some { s with
        pics := s.pics.serve line, interruptFlag := false, stub := some (hwint (irqOf line)) }) ∨
    (∀ line, ¬ s.pics.Pending line) ∧
      s.accept l = some { s with
        pics.master := s.pics.wired, interruptFlag := false, stub := some (hwint 7) } := by
  have quiet := quiet_of_idle inv idle
  have cascaded := inv.programmed.toCascaded
  by_cases some : ∃ line, s.pics.Pending line
  · obtain ⟨line, pending⟩ := some
    obtain ⟨first, waiting, highest⟩ := Pair.exists_highest pending
    refine Or.inl ⟨first, waiting, highest, ?_⟩
    exact accept_line inv (Pair.acknowledge_pending cascaded quiet waiting highest)
  · rw [not_exists] at some
    have seventh : s.pics.acknowledge = ({ s.pics with master := s.pics.wired }, s.pics.vector (.master 7)) :=
      Pair.acknowledge_none cascaded quiet some
    exact Or.inr ⟨some, accept_line inv seventh⟩

theorem invariant_booted (l : Link) (p : Pair) : Invariant l (booted l p) where
  programmed := programmed_init8259A p
  idt := rfl
  service := .kernel (quiet_init8259A p)

/-- The service of the lines is the same where the registers of both chips for it are. -/
theorem Service.congr {stub : Option Stub} {q : Pair} (service : Service stub p)
    (master : q.master.inService = p.master.inService) (slave : q.slave.inService = p.slave.inService) :
    Service stub q := by
  cases service with
  | kernel quiet => exact .kernel ⟨master.trans quiet.master, slave.trans quiet.slave⟩
  | master low one none => exact .master low (by rwa [OneInService, master]) (slave.trans none)
  | both high one other => exact .both high (by rwa [OneInService, master]) (by rwa [OneInService, slave])
  | slave high none one => exact .slave high (master.trans none) (by rwa [OneInService, slave])
  | ended quiet => exact .ended ⟨master.trans quiet.master, slave.trans quiet.slave⟩

theorem invariant_setRequest (inv : Invariant l s) (line : Input) (on : Bool) :
    Invariant l { s with pics := setRequest s.pics line on } where
  programmed := by
    cases line <;> exact { inv.programmed with }
  idt := inv.idt
  service := by
    cases line <;> exact inv.service.congr rfl rfl

theorem invariant_accept (inv : Invariant l s) (idle : s.stub = none) (done : s.accept l = some s') :
    Invariant l s' := by
  have quiet := quiet_of_idle inv idle
  rcases accept_spec inv idle with ⟨line, _, _, accepted⟩ | ⟨_, accepted⟩
  · obtain rfl := Option.some.inj (done.symm.trans accepted)
    exact ⟨programmed_serve inv.programmed line, inv.idt, service_serve inv.programmed quiet line⟩
  · obtain rfl := Option.some.inj (done.symm.trans accepted)
    exact ⟨programmed_wired inv.programmed, inv.idt, .master (by decide) (Or.inl quiet.master) quiet.slave⟩

/-- Each `out` of an entry ends what is in service on its chip. -/
theorem invariant_out {irq : Fin 16} {port : BitVec 16} {value : BitVec 8} {outs : List (BitVec 16 × BitVec 8)}
    (inv : Invariant l s) (stub : s.stub = some ⟨irq, (port, value) :: outs⟩) :
    Invariant l { s with pics := outByte s.pics port value, stub := some ⟨irq, outs⟩ } := by
  have programmed := inv.programmed
  have service := inv.service
  rw [stub] at service
  have masterEnd (one : OneInService s.pics.master) :
      outByte s.pics intMCtl eoi = { s.pics with master.inService := 0 } :=
    congrArg (fun c => { s.pics with master := c }) (Chip.command_end_one one)
  have slaveEnd (one : OneInService s.pics.slave) :
      outByte s.pics intSCtl eoi = { s.pics with slave.inService := 0 } :=
    congrArg (fun c => { s.pics with slave := c }) (Chip.command_end_one one)
  cases service with
  | master low one slave =>
    rw [masterEnd one]
    exact ⟨{ programmed with }, inv.idt, .ended ⟨rfl, slave⟩⟩
  | both high one slave =>
    rw [masterEnd one]
    exact ⟨{ programmed with }, inv.idt, .slave high rfl slave⟩
  | slave high master one =>
    rw [slaveEnd one]
    exact ⟨{ programmed with }, inv.idt, .ended ⟨master, rfl⟩⟩

theorem invariant_mask (inv : Invariant l s) (c : MaskCall) :
    Invariant l { s with pics := Pic.call s.pics c } := by
  rw [call_eq inv.programmed]
  refine ⟨programmed_setMask inv.programmed _ _, inv.idt, ?_⟩
  cases c.line <;> exact inv.service.congr rfl rfl

theorem invariant_step (inv : Invariant l s) {e : InterruptEvent} (taken : step l s e = some s') :
    Invariant l s' := by
  cases step_cases taken with
  | raise device => exact invariant_setRequest inv _ true
  | withdraw device => exact invariant_setRequest inv _ false
  | accept enabled idle accepted => exact invariant_accept inv idle accepted
  | out stub => exact invariant_out inv stub
  | call stub =>
    have service := inv.service
    rw [stub] at service
    cases service with
    | ended quiet => exact ⟨inv.programmed, inv.idt, .kernel quiet⟩
  | mask idle => exact invariant_mask inv _
  | putIrqHandler idle => exact ⟨inv.programmed, inv.idt, inv.service⟩
  | setFlag idle => exact ⟨inv.programmed, inv.idt, inv.service⟩

theorem invariant_of_reachable (reached : Transition.Reachable (interrupts l) s) : Invariant l s := by
  refine reached.invariant ?_ ?_
  · rintro _ ⟨p, rfl⟩
    exact invariant_booted l p
  · intro s e s' inv taken
    exact invariant_step inv taken

/-! ### Pending lines -/

/-- The line has a request that the controller holds. -/
def requested (p : Pair) : Input → Bool
  | .master i => has p.master.requests i
  | .slave i => has p.slave.requests i

theorem requested_setRequest (line other : Input) (on : Bool) :
    requested (setRequest p line on) other = if line = other then on else requested p other := by
  cases line <;> cases other <;> cases on <;> simp only [requested, setRequest] <;> grind [has_setLine, has_clearLine]

theorem requested_wired {line : Input} (device : line ≠ .master 2) :
    requested { p with master := p.wired } line = requested p line := by
  cases line with
  | master i =>
    have apart : i ≠ 2 := fun same => device (congrArg Input.master same)
    simp only [requested, Pair.wired]
    split <;> simp [apart.symm]
  | slave i => rfl

/-- Only the request of the line itself is used up. -/
theorem requested_serve (programmed : Programmed p) {line other : Input} (device : other ≠ .master 2) :
    requested (p.serve line) other = (requested p other && decide (line ≠ other)) := by
  have wired := requested_wired (p := p) device
  have masterEdges : p.wired.level = false := programmed.masterEdges
  cases line <;> cases other <;>
    simp only [requested, Pair.serve, Chip.serve, masterEdges, programmed.slaveEdges] at wired ⊢ <;>
    grind [has_clearLine]

theorem requested_setMask (line other : Input) (off : Bool) :
    requested (setMask p line off) other = requested p other := by
  cases line <;> cases other <;> rfl

theorem requested_outByte {irq : Fin 16} {port : BitVec 16} {value : BitVec 8}
    {outs : List (BitVec 16 × BitVec 8)} (service : Service (some ⟨irq, (port, value) :: outs⟩) p)
    (line : Input) : requested (outByte p port value) line = requested p line := by
  have ends (c : Chip) : (c.command eoi).requests = c.requests := by
    rw [eoi, Chip.command_end]
    split <;> rfl
  cases service <;> cases line <;> first | rfl | exact congrArg (has · _) (ends _)

theorem irqOf_injective : Function.Injective irqOf := by
  intro line other same
  cases line <;> cases other <;> 
    simp only [irqOf, Fin.ext_iff, Fin.val_castLE, Fin.val_natAdd] at same <;> grind

/-- Whenever interrupts are on, each line with a request that the masks let through is
accepted as soon as it has the highest priority among these: no interrupt that was
served before holds it back. Its request alone is used up, and what starts is the
entry of its number. -/
theorem accept_pending {line : Input} (reached : Transition.Reachable (interrupts l) s)
    (enabled : s.interruptFlag = true) (idle : s.stub = none) (pending : s.pics.Pending line) :
    ∃ first s', s.pics.Pending first ∧ (∀ other, s.pics.Pending other → first.rank ≤ other.rank) ∧
      step l s .accept = some s' ∧ s'.stub = some (hwint (irqOf first)) ∧
      ∀ other, other ≠ .master 2 → requested s'.pics other = (requested s.pics other && decide (first ≠ other)) := by
  have inv := invariant_of_reachable reached
  rcases accept_spec inv idle with ⟨first, waiting, highest, accepted⟩ | ⟨none, _⟩
  · refine ⟨first, { s with
        pics := s.pics.serve first, interruptFlag := false, stub := some (hwint (irqOf first)) },
      waiting, highest, ?_, rfl, ?_⟩
    · simp only [step, enabled, idle]
      exact accepted
    · intro other device
      exact requested_serve inv.programmed device
  · exact absurd pending (none line)

/-! ### A tick of the clock -/

def entryNumber : Entry → Nat
  | .divideError => 0
  | .singleStepException => 1
  | .nmi => 2
  | .breakpointException => 3
  | .overflow => 4
  | .boundsCheck => 5
  | .invalOpcode => 6
  | .coprNotAvailable => 7
  | .doubleFault => 8
  | .coprSegOverrun => 9
  | .invalTss => 10
  | .segmentNotPresent => 11
  | .stackException => 12
  | .generalProtection => 13
  | .pageFault => 14
  | .coprError => 15
  | .hwint irq => 16 + irq
  | .sysCall => 32

/-- Entries of 16 bytes from 0x30000 on. -/
def smallAddress (entry : Entry) : BitVec 32 := BitVec.ofNat 32 (0x30000 + 0x10 * entryNumber entry)

def smallEntryAt (a : BitVec 32) : Option Entry :=
  (idtRows.map fun row => row.2.1).find? fun entry => smallAddress entry = a

theorem smallEntryAt_address (entry : Entry) : smallEntryAt (smallAddress entry) = some entry := by
  cases entry with
  | hwint irq =>
    revert irq
    decide
  | _ => decide

def smallLink : Link := ⟨smallAddress, smallEntryAt, smallEntryAt_address⟩

def blankChip : Chip := ⟨.mask, false, false, false, 0, 0, false, 0, 0, 0⟩

def handlerPut : InterruptState :=
  { booted smallLink ⟨blankChip, blankChip⟩ with
    irqTable := Function.update (fun _ => 0) (irqOf (lineOf 0)) 0x31000 }

def clockOpen : InterruptState := { handlerPut with pics := Pic.call handlerPut.pics (.enable 0) }

def clockRaised : InterruptState := { clockOpen with pics := setRequest clockOpen.pics (lineOf 0) true }

def flagSet : InterruptState := { clockRaised with interruptFlag := true }

theorem run_flagSet : Transition.Run (interrupts smallLink)
    [(clockRaised, .setFlag true), (clockOpen, .raise (.master 0)), (handlerPut, .mask (.enable 0)),
      (booted smallLink ⟨blankChip, blankChip⟩, .putIrqHandler 0 0x31000)] flagSet :=
  .step (.step (.step (.step (.init ⟨_, rfl⟩) rfl) rfl) rfl) rfl

theorem pending_flagSet : flagSet.pics.Pending (.master 0) := ⟨by decide, rfl, rfl⟩

theorem accept_pending_clock : ∃ first s', flagSet.pics.Pending first ∧
    (∀ other, flagSet.pics.Pending other → first.rank ≤ other.rank) ∧
    step smallLink flagSet .accept = some s' ∧ s'.stub = some (hwint (irqOf first)) ∧
    ∀ other, other ≠ .master 2 →
      requested s'.pics other = (requested flagSet.pics other && decide (first ≠ other)) :=
  accept_pending ⟨_, run_flagSet⟩ rfl rfl pending_flagSet

/-! ### Requests and calls -/

/-- A device asks on the line, and no request of it waits there yet. -/
def fresh (line : Input) : InterruptState × InterruptEvent → Bool
  | (s, .raise other) => other == line && !requested s.pics line
  | _ => false

/-- A waiting request of the line is taken back. -/
def dropped (line : Input) : InterruptState × InterruptEvent → Bool
  | (s, .withdraw other) => other == line && requested s.pics line
  | _ => false

/-- The processor takes an interrupt when no line is pending; it counts as line 7. -/
def spurious (line : Input) : InterruptState × InterruptEvent → Bool
  | (s, .accept) => line == .spurious && s.pics.wired.asking.isNone
  | _ => false

/-- The entry of the line runs, and has not called its handler. -/
def entering (s : InterruptState) (line : Input) : Bool := s.stub.any fun stub => stub.irq = irqOf line

def answers (s : InterruptState) (line : Input) : Nat := s.calls.countP fun c => c.2 = irqOf line

/-- The handler that was put for a number last. -/
def lastHandler (irq : Fin 16) : List (InterruptState × InterruptEvent) → BitVec 32
  | [] => 0
  | (_, .putIrqHandler other handler) :: hist => if other = irq then handler else lastHandler irq hist
  | _ :: hist => lastHandler irq hist

/-- The calls that a history makes, with the handlers put before each. -/
def callsOf : List (InterruptState × InterruptEvent) → List (BitVec 32 × Fin 16)
  | [] => []
  | (s, .call) :: hist =>
    match s.stub with
    | some stub => (lastHandler stub.irq hist, stub.irq) :: callsOf hist
    | none => callsOf hist
  | _ :: hist => callsOf hist

/-- Each request of a line waits, runs its entry, has called the handler, or was taken back. -/
def Accounted (line : Input) (hist : List (InterruptState × InterruptEvent)) (s : InterruptState) : Prop :=
  hist.countP (fresh line) + hist.countP (spurious line) =
    answers s line + (entering s line).toNat + (requested s.pics line).toNat + hist.countP (dropped line)

/-- The steps that neither ask for an interrupt nor take one. -/
def Internal : InterruptEvent → Prop
  | .raise _ | .withdraw _ | .accept => False
  | _ => True

theorem requested_internal (inv : Invariant l s) {line : Input} {e : InterruptEvent} (internal : Internal e)
    (taken : Stepped l s e s') : requested s'.pics line = requested s.pics line := by
  cases taken with
  | raise => exact internal.elim
  | withdraw => exact internal.elim
  | accept => exact internal.elim
  | out stub => exact requested_outByte (stub ▸ inv.service) line
  | call => rfl
  | mask =>
    rw [call_eq inv.programmed]
    exact requested_setMask _ _ _
  | putIrqHandler => rfl
  | setFlag => rfl

/-- A call of the handler answers the request that its entry was started for. -/
theorem answers_internal {line : Input} {e : InterruptEvent} (internal : Internal e)
    (taken : Stepped l s e s') :
    answers s' line + (entering s' line).toNat = answers s line + (entering s line).toNat := by
  cases taken with
  | raise => exact internal.elim
  | withdraw => exact internal.elim
  | accept => exact internal.elim
  | out stub => simp only [answers, entering, stub, Option.any_some]
  | call stub =>
    simp only [answers, entering, stub, List.countP_cons, Option.any_some, Option.any_none]
    split <;> simp_all
  | mask => rfl
  | putIrqHandler => rfl
  | setFlag => rfl

theorem accounted_internal {hist : List (InterruptState × InterruptEvent)} (inv : Invariant l s) {line : Input}
    (accounted : Accounted line hist s) {e : InterruptEvent} (internal : Internal e) (taken : Stepped l s e s') :
    Accounted line ((s, e) :: hist) s' := by
  have silent : fresh line (s, e) = false ∧ spurious line (s, e) = false ∧ dropped line (s, e) = false := by
    cases e <;> first | exact internal.elim | exact ⟨rfl, rfl, rfl⟩
  simp only [Accounted, List.countP_cons, silent, requested_internal inv internal taken,
    answers_internal internal taken] at accounted ⊢
  exact accounted

/-- A device asks, or takes its request back. -/
theorem accounted_device {hist : List (InterruptState × InterruptEvent)} {line : Input}
    (accounted : Accounted line hist s) (other : Input) (on : Bool) :
    Accounted line ((s, if on then .raise other else .withdraw other) :: hist)
      { s with pics := setRequest s.pics other on } := by
  have before : requested s.pics line = true ∨ requested s.pics line = false := by
    cases requested s.pics line <;> simp
  simp only [Accounted, answers, entering, requested_setRequest] at accounted ⊢
  cases on <;> by_cases same : other = line <;> rcases before with waits | free <;>
    simp_all [fresh, dropped, spurious] <;> omega

theorem hwint_irq (irq : Fin 16) : (hwint irq).irq = irq := rfl

theorem accounted_accept {hist : List (InterruptState × InterruptEvent)} (inv : Invariant l s) {line : Input}
    (device : line ≠ .master 2) (accounted : Accounted line hist s) (idle : s.stub = none)
    (accepted : s.accept l = some s') : Accounted line ((s, .accept) :: hist) s' := by
  have quiet := quiet_of_idle inv idle
  have before : entering s line = false := by
    simp only [entering, idle, Option.any_none]
  have counted : fresh line (s, .accept) = false ∧ dropped line (s, .accept) = false ∧
      spurious line (s, .accept) = (line == .master 7 && s.pics.wired.asking.isNone) := ⟨rfl, rfl, rfl⟩
  rcases accept_spec inv idle with ⟨first, waiting, _, result⟩ | ⟨none, result⟩
  · obtain rfl := Option.some.inj (accepted.symm.trans result)
    have asks : s.pics.wired.asking.isNone = false := by
      rw [Option.isNone_eq_false_iff, Option.isSome_iff_ne_none]
      intro silent
      exact (Pair.asking_eq_none_iff quiet).mp silent first waiting
    have request : requested s.pics first = true := by
      cases first with
      | master i => exact waiting.2.1
      | slave i => exact waiting.1.1
    have enters : entering { s with
        pics := s.pics.serve first, interruptFlag := false, stub := some (hwint (irqOf first)) } line =
          decide (first = line) := by
      simp only [entering, Option.any_some, hwint_irq, irqOf_injective.eq_iff]
    simp only [Accounted, answers, List.countP_cons, counted, asks, enters,
      requested_serve inv.programmed device, before] at accounted ⊢
    -- the request of the first line goes over into its entry
    by_cases same : first = line
    · subst same
      simp only [request] at accounted ⊢
      simpa using accounted
    · simpa [same] using accounted
  · obtain rfl := Option.some.inj (accepted.symm.trans result)
    have asks : s.pics.wired.asking.isNone = true := by
      rw [(Pair.asking_eq_none_iff quiet).mpr none]
      rfl
    have enters : entering { s with
        pics.master := s.pics.wired, interruptFlag := false, stub := some (hwint 7) } line =
          (line == .master 7) := by
      have number : (7 : Fin 16) = irqOf (.master 7) := rfl
      simp only [entering, Option.any_some, hwint_irq, number, irqOf_injective.eq_iff]
      by_cases last : line = .master 7
      · simp [last]
      · simp [last, Ne.symm last]
    simp only [Accounted, answers, List.countP_cons, counted, asks, enters, requested_wired device,
      before] at accounted ⊢
    by_cases last : line = .master 7
    · simp [last] at accounted ⊢
      omega
    · have other : (line == .master 7) = false := by simpa using last
      simpa [other] using accounted

theorem accounted_step {hist : List (InterruptState × InterruptEvent)} (inv : Invariant l s) {line : Input}
    (device : line ≠ .master 2) (accounted : Accounted line hist s) {e : InterruptEvent}
    (taken : Stepped l s e s') : Accounted line ((s, e) :: hist) s' := by
  cases taken with
  | raise => exact accounted_device accounted _ true
  | withdraw => exact accounted_device accounted _ false
  | accept enabled idle accepted => exact accounted_accept inv device accounted idle accepted
  | out stub => exact accounted_internal inv accounted trivial (.out stub)
  | call stub => exact accounted_internal inv accounted trivial (.call stub)
  | mask idle => exact accounted_internal inv accounted trivial (.mask idle)
  | putIrqHandler idle => exact accounted_internal inv accounted trivial (.putIrqHandler idle)
  | setFlag idle => exact accounted_internal inv accounted trivial (.setFlag idle)

/-- The table and the calls are those of the history. -/
structure Recorded (hist : List (InterruptState × InterruptEvent)) (s : InterruptState) : Prop where
  table : ∀ irq, s.irqTable irq = lastHandler irq hist
  calls : s.calls = callsOf hist

theorem recorded_step {hist : List (InterruptState × InterruptEvent)} (recorded : Recorded hist s)
    {e : InterruptEvent} (taken : Stepped l s e s') : Recorded ((s, e) :: hist) s' := by
  cases taken with
  | raise => exact ⟨recorded.table, recorded.calls⟩
  | withdraw => exact ⟨recorded.table, recorded.calls⟩
  | accept _ idle accepted =>
    obtain ⟨pics, flag, stub, rfl⟩ : ∃ pics flag stub, s' = { s with pics, interruptFlag := flag, stub } := by
      simp only [accept, Option.bind_eq_bind] at accepted
      obtain ⟨target, _, rest⟩ := Option.bind_eq_some_iff.mp accepted
      split at rest
      · split at rest
        · exact ⟨_, _, _, (Option.some.inj rest).symm⟩
        · cases rest
      · cases rest
    exact ⟨recorded.table, recorded.calls⟩
  | out => exact ⟨recorded.table, recorded.calls⟩
  | call stub =>
    refine ⟨recorded.table, ?_⟩
    simp only [callsOf, stub, ← recorded.calls, ← recorded.table]
  | mask => exact ⟨recorded.table, recorded.calls⟩
  | putIrqHandler =>
    refine ⟨?_, recorded.calls⟩
    intro irq
    simp only [lastHandler, Function.update_apply, recorded.table]
    grind
  | setFlag => exact ⟨recorded.table, recorded.calls⟩

theorem accounted_booted (l : Link) (p : Pair) (line : Input) : Accounted line [] (booted l p) := by
  have free : requested (init8259A p) line = false := by
    cases line with
    | master i => exact has_zero i
    | slave i => exact has_zero i
  simp [Accounted, answers, entering, booted, free]

/-- Every request of a device is accounted for, in every run: a fresh request of a line waits, has
started the entry of the line, has been answered by one call of the handler, or was taken back;
an acknowledgement without a pending line counts for line 7. The calls are those of the handlers
that were put last, with the number of the line. -/
theorem requests_answered {hist : List (InterruptState × InterruptEvent)}
    (run : Transition.Run (interrupts l) hist s) :
    (∀ line, line ≠ .master 2 → Accounted line hist s) ∧ s.calls = callsOf hist := by
  have all : (∀ line, line ≠ .master 2 → Accounted line hist s) ∧ Recorded hist s := by
    induction run with
    | init start =>
      obtain ⟨p, rfl⟩ := start
      exact ⟨fun line _ => accounted_booted l p line, fun _ => rfl, rfl⟩
    | step run taken ih =>
      have inv := invariant_of_reachable ⟨_, run⟩
      have stepped := step_cases taken
      exact ⟨fun line device => accounted_step inv device (ih.1 line device) stepped, recorded_step ih.2 stepped⟩
  exact ⟨all.1, all.2.calls⟩

/-- The tick is taken, ended at the chip, and handed to the handler. -/
def clockTaken : InterruptState :=
  { flagSet with
    pics := flagSet.pics.serve (lineOf 0)
    interruptFlag := false
    stub := some (hwint (irqOf (lineOf 0))) }

def clockEnded : InterruptState :=
  { clockTaken with
    pics := outByte clockTaken.pics intMCtl eoi
    stub := some ⟨irqOf (lineOf 0), []⟩ }

def clockCalled : InterruptState :=
  { clockEnded with
    stub := none
    interruptFlag := true
    calls := [(0x31000, irqOf (lineOf 0))] }

def clockHistory : List (InterruptState × InterruptEvent) :=
  [(clockEnded, .call), (clockTaken, .out), (flagSet, .accept), (clockRaised, .setFlag true),
    (clockOpen, .raise (lineOf 0)), (handlerPut, .mask (.enable 0)),
    (booted smallLink ⟨blankChip, blankChip⟩, .putIrqHandler (irqOf (lineOf 0)) 0x31000)]

/-- No line comes before the clock. -/
theorem rank_clock (line : Input) (first : line.rank ≤ (Input.master 0).rank) : line = .master 0 := by
  cases line with
  | master i => revert i; decide
  | slave i => revert i; decide

theorem run_clockCalled : Transition.Run (interrupts smallLink) clockHistory clockCalled := by
  have taken : step smallLink flagSet .accept = some clockTaken := by
    rcases accept_spec (invariant_of_reachable ⟨_, run_flagSet⟩) rfl with ⟨first, _, highest, accepted⟩ | ⟨none, _⟩
    · obtain rfl := rank_clock first (highest _ pending_flagSet)
      exact accepted
    · exact absurd pending_flagSet (none _)
  exact .step (.step (.step run_flagSet taken) rfl) rfl

/-- The tick was one fresh request, and its handler has been called once. -/
theorem requests_answered_clock : Accounted (.master 0) clockHistory clockCalled ∧
    clockCalled.calls = callsOf clockHistory ∧ answers clockCalled (.master 0) = 1 :=
  ⟨(requests_answered run_clockCalled).1 (.master 0) (by decide), (requests_answered run_clockCalled).2, rfl⟩

end InterruptState

end OperatorSystem.Kernel
