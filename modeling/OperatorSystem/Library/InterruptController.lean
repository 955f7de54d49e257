import Mathlib.Data.BitVec
import Mathlib.Logic.Equiv.Fin.Basic

/-!
# The 8259A interrupt controller, alone and as a cascaded pair

A chip is programmed by bytes at its even and at its odd address. Line 0 has the
highest priority, and priorities do not rotate. The main results say what the
acknowledgement of a quiet pair, one with nothing in service, gives to the
processor (`acknowledge_quiet`), and which ends of interrupt make it quiet again.
-/

namespace InterruptController

/-- One bit for each line of a chip. -/
abbrev Lines := BitVec 8

def has (w : Lines) (i : Fin 8) : Bool := w.getLsbD i

def only (i : Fin 8) : Lines := BitVec.twoPow 8 i

def setLine (w : Lines) (i : Fin 8) : Lines := w ||| only i

def clearLine (w : Lines) (i : Fin 8) : Lines := w &&& ~~~ only i

/-- The line of highest priority. -/
def first (w : Lines) : Option (Fin 8) := Fin.find? (has w)

/-! ### A chip -/

/-- What the next byte at the odd address is. -/
inductive Expects
  | vectors
  | cascade
  | mode
  | mask
  deriving DecidableEq

structure Chip where
  expects : Expects
  single : Bool
  /-- A mode byte follows in the initialisation. -/
  fourth : Bool
  level : Bool
  base : BitVec 8
  cascade : BitVec 8
  autoEnd : Bool
  mask : Lines
  requests : Lines
  inService : Lines
  deriving DecidableEq

namespace Chip

/-- A byte at the even address: the start of an initialisation, or an end of interrupt. -/
def command (c : Chip) (v : BitVec 8) : Chip :=
  if v.getLsbD 4 then
    { c with
      expects := .vectors
      single := v.getLsbD 1
      fourth := v.getLsbD 0
      level := v.getLsbD 3
      autoEnd := false
      mask := 0
      requests := 0
      inService := 0 }
  -- the byte chooses what the even address reads
  else if v.getLsbD 3 then c
  else if v.getLsbD 5 then
    if v.getLsbD 6 then { c with inService := clearLine c.inService (v.setWidth 3).toFin }
    else match first c.inService with
      | some i => { c with inService := clearLine c.inService i }
      | none => c
  else c

/-- A byte at the odd address. -/
def data (c : Chip) (v : BitVec 8) : Chip :=
  let afterCascade := if c.fourth then Expects.mode else Expects.mask
  match c.expects with
  | .vectors => { c with base := v &&& 0xf8, expects := if c.single then afterCascade else .cascade }
  | .cascade => { c with cascade := v, expects := afterCascade }
  | .mode => { c with autoEnd := v.getLsbD 1, expects := .mask }
  | .mask => { c with mask := v }

/-- The byte that the processor reads at the odd address. -/
def dataRead (c : Chip) : BitVec 8 := c.mask

/-- The line for which the chip asks for an interrupt: no line of its priority or a
higher one is in service. -/
def asking (c : Chip) : Option (Fin 8) :=
  match first (c.requests &&& ~~~ c.mask), first c.inService with
  | some i, some j => if i < j then some i else none
  | found, none => found
  | none, _ => none

/-- The line goes into service. An edge-triggered request is used up. -/
def serve (c : Chip) (i : Fin 8) : Chip :=
  { c with
    inService := if c.autoEnd then c.inService else setLine c.inService i
    requests := if c.level then c.requests else clearLine c.requests i }

def vector (c : Chip) (i : Fin 8) : BitVec 8 := c.base ||| BitVec.ofNat 8 i

/-- The acknowledgement of the processor. A request that is gone meanwhile counts as line 7. -/
def acknowledge (c : Chip) : Chip × Fin 8 :=
  match c.asking with
  | some i => (c.serve i, i)
  | none => (c, 7)

end Chip

/-! ### A cascaded pair -/

/-- Two chips, where the output of the slave is line 2 of the master. -/
structure Pair where
  master : Chip
  slave : Chip
  deriving DecidableEq

namespace Pair

/-- The master with the output of the slave on its line. -/
def wired (p : Pair) : Chip :=
  { p.master with
    requests := if p.slave.asking.isSome then setLine p.master.requests 2 else clearLine p.master.requests 2 }

/-- Both acknowledgement cycles, with the vector that the processor gets. -/
def acknowledge (p : Pair) : Pair × BitVec 8 :=
  let (master, i) := p.wired.acknowledge
  -- the slave that has this number answers in the second cycle
  if has master.cascade i && p.slave.cascade.setWidth 3 == BitVec.ofFin i then
    let (slave, j) := p.slave.acknowledge
    ({ master, slave }, slave.vector j)
  else ({ p with master }, master.vector i)

end Pair

/-! ### Lines -/

theorem ext_lines {v w : Lines} (same : ∀ i, has v i = has w i) : v = w :=
  BitVec.eq_of_getLsbD_eq fun i inside => same ⟨i, inside⟩

@[simp] theorem has_zero (i : Fin 8) : has 0#8 i = false := BitVec.getLsbD_zero

@[simp] theorem has_only (i j : Fin 8) : has (only i) j = decide (i = j) := by
  rw [has, only, BitVec.getLsbD_twoPow]
  simp [Fin.ext_iff]

@[simp] theorem has_setLine (w : Lines) (i j : Fin 8) : has (setLine w i) j = (has w j || decide (i = j)) := by
  rw [has, setLine, BitVec.getLsbD_or, ← has, ← has, has_only]

@[simp] theorem has_clearLine (w : Lines) (i j : Fin 8) :
    has (clearLine w i) j = (has w j && decide (i ≠ j)) := by
  rw [has, clearLine, BitVec.getLsbD_and, BitVec.getLsbD_not, ← has, ← has, has_only]
  simp

@[simp] theorem has_unmasked (w mask : Lines) (i : Fin 8) : has (w &&& ~~~ mask) i = (has w i && !has mask i) := by
  rw [has, BitVec.getLsbD_and, BitVec.getLsbD_not, ← has, ← has]
  simp

theorem setLine_zero (i : Fin 8) : setLine 0 i = only i := by
  apply ext_lines
  simp

theorem clearLine_only (i : Fin 8) : clearLine (only i) i = 0 := by
  apply ext_lines
  simp

theorem first_eq_some_iff {w : Lines} {i : Fin 8} :
    first w = some i ↔ has w i = true ∧ ∀ j < i, has w j = false :=
  Fin.find?_eq_some_iff

theorem first_eq_none_iff {w : Lines} : first w = none ↔ ∀ i, has w i = false :=
  Fin.find?_eq_none_iff

theorem first_zero : first 0 = none := by
  rw [first_eq_none_iff]
  simp

theorem first_only (i : Fin 8) : first (only i) = some i := by
  rw [first_eq_some_iff]
  simp only [has_only, decide_true, true_and, decide_eq_false_iff_not]
  intro j before same
  exact absurd before (same ▸ lt_irrefl i)

namespace Chip

/-! ### Ends of interrupt -/

/-- The byte 0x20 takes the line of highest priority out of service. -/
theorem command_end (c : Chip) : c.command 0x20 =
    match first c.inService with
    | some i => { c with inService := clearLine c.inService i }
    | none => c := rfl

/-- With one line in service, or none, an end of interrupt leaves none. -/
theorem command_end_one {c : Chip} (one : c.inService = 0 ∨ ∃ i, c.inService = only i) :
    c.command 0x20 = { c with inService := 0 } := by
  rw [command_end]
  rcases one with none | ⟨i, only⟩
  · rw [none, first_zero]
    simp only [← none]
  · rw [only, first_only]
    simp only [clearLine_only]

/-! ### What a chip asks for -/

/-- The line has a request that the mask lets through. -/
def Pending (c : Chip) (i : Fin 8) : Prop := has c.requests i = true ∧ has c.mask i = false

theorem asking_quiet {c : Chip} (quiet : c.inService = 0) : c.asking = first (c.requests &&& ~~~ c.mask) := by
  rw [asking, quiet, first_zero]
  cases first (c.requests &&& ~~~ c.mask) <;> rfl

theorem asking_eq_some_iff {c : Chip} (quiet : c.inService = 0) {i : Fin 8} :
    c.asking = some i ↔ c.Pending i ∧ ∀ j < i, ¬ c.Pending j := by
  rw [asking_quiet quiet, first_eq_some_iff]
  simp [Pending]

theorem asking_eq_none_iff {c : Chip} (quiet : c.inService = 0) : c.asking = none ↔ ∀ i, ¬ c.Pending i := by
  rw [asking_quiet quiet, first_eq_none_iff]
  simp [Pending]

end Chip

/-! ### What a pair asks for -/

/-- The inputs of a pair. Line 2 of the master is none of them. -/
inductive Input
  | master (i : Fin 8)
  | slave (i : Fin 8)
  deriving DecidableEq

/-- The place in the order of priority: the slave stands where line 2 of the master would. -/
def Input.rank : Input → Nat
  | .master i => if i < 2 then i else i + 8
  | .slave i => i + 2

/-- Line 2 of the master. -/
abbrev Input.cascade : Input := .master 2

/-- The input that a pair names when nothing asks. -/
abbrev Input.spurious : Input := .master 7

namespace Pair

/-- The slave is number 2, and the master knows of it. -/
structure Cascaded (p : Pair) : Prop where
  master : p.master.cascade = 4
  slave : p.slave.cascade = 2

/-- Nothing is in service. -/
structure Quiet (p : Pair) : Prop where
  master : p.master.inService = 0
  slave : p.slave.inService = 0

/-- The input has a request that the masks let through. -/
def Pending (p : Pair) : Input → Prop
  | .master i => i ≠ 2 ∧ p.master.Pending i
  | .slave i => p.slave.Pending i ∧ has p.master.mask 2 = false

/-- The input goes into service, with line 2 if it is one of the slave. -/
def serve (p : Pair) : Input → Pair
  | .master i => { p with master := p.wired.serve i }
  | .slave i => { master := p.wired.serve 2, slave := p.slave.serve i }

def vector (p : Pair) : Input → BitVec 8
  | .master i => p.master.vector i
  | .slave i => p.slave.vector i

variable {p : Pair}

theorem has_cascade (set : p.Cascaded) (i : Fin 8) : has p.wired.cascade i = decide (2 = i) := by
  have four : (4 : Lines) = only 2 := rfl
  rw [wired, set.master, four, has_only]

theorem wired_pending {i : Fin 8} (direct : i ≠ 2) : p.wired.Pending i ↔ p.master.Pending i := by
  simp only [Chip.Pending, wired]
  split <;> simp [direct.symm]

theorem wired_pending_two (quiet : p.Quiet) :
    p.wired.Pending 2 ↔ (∃ k, p.slave.Pending k) ∧ has p.master.mask 2 = false := by
  have asks : p.slave.asking.isSome = true ↔ ∃ k, p.slave.Pending k := by
    rw [Option.isSome_iff_ne_none, ne_eq, Chip.asking_eq_none_iff quiet.slave]
    simp
  rw [← asks]
  simp only [Chip.Pending, wired]
  cases p.slave.asking.isSome <;> simp

theorem acknowledge_master (set : p.Cascaded) {i : Fin 8} (direct : i ≠ 2)
    (asks : p.wired.asking = some i) : p.acknowledge = (p.serve (.master i), p.vector (.master i)) := by
  simp only [acknowledge, Chip.acknowledge, asks]
  have own : has (p.wired.serve i).cascade i = false := by
    rw [show (p.wired.serve i).cascade = p.wired.cascade from rfl, has_cascade set, decide_eq_false direct.symm]
  rw [own]
  rfl

theorem acknowledge_slave (set : p.Cascaded) {k : Fin 8} (asks : p.wired.asking = some 2)
    (slave : p.slave.asking = some k) : p.acknowledge = (p.serve (.slave k), p.vector (.slave k)) := by
  simp only [acknowledge, Chip.acknowledge, asks, slave]
  have number : has (p.wired.serve 2).cascade 2 && p.slave.cascade.setWidth 3 == BitVec.ofFin (2 : Fin 8) := by
    rw [show (p.wired.serve 2).cascade = p.wired.cascade from rfl, has_cascade set, set.slave]
    rfl
  rw [if_pos number]
  rfl

/-- A quiet pair gives the vector of the pending input of highest priority. -/
theorem acknowledge_pending (set : p.Cascaded) (quiet : p.Quiet) {i : Input} (pending : p.Pending i)
    (highest : ∀ j, p.Pending j → i.rank ≤ j.rank) : p.acknowledge = (p.serve i, p.vector i) := by
  have wiredQuiet : p.wired.inService = 0 := quiet.master
  cases i with
  | master i =>
    refine acknowledge_master set pending.1 ?_
    rw [Chip.asking_eq_some_iff wiredQuiet, wired_pending pending.1]
    refine ⟨pending.2, ?_⟩
    intro j before asks
    by_cases cascade : j = 2
    · -- a line of the slave comes before those behind line 2
      subst cascade
      obtain ⟨⟨k, waiting⟩, opened⟩ := (wired_pending_two quiet).mp asks
      have order := highest (.slave k) ⟨waiting, opened⟩
      simp only [Input.rank] at order
      grind
    · have order := highest (.master j) ⟨cascade, (wired_pending cascade).mp asks⟩
      simp only [Input.rank] at order
      grind
  | slave k =>
    have slave : p.slave.asking = some k := by
      rw [Chip.asking_eq_some_iff quiet.slave]
      refine ⟨pending.1, ?_⟩
      intro j before waiting
      have order := highest (.slave j) ⟨waiting, pending.2⟩
      simp only [Input.rank] at order
      grind
    refine acknowledge_slave set ?_ slave
    rw [Chip.asking_eq_some_iff wiredQuiet, wired_pending_two quiet]
    refine ⟨⟨⟨k, pending.1⟩, pending.2⟩, ?_⟩
    intro j before asks
    have direct : j ≠ 2 := ne_of_lt before
    have order := highest (.master j) ⟨direct, (wired_pending direct).mp asks⟩
    simp only [Input.rank] at order
    grind

/-- A quiet pair asks for an interrupt exactly if an input is pending. -/
theorem asking_eq_none_iff (quiet : p.Quiet) : p.wired.asking = none ↔ ∀ i, ¬ p.Pending i := by
  have wiredQuiet : p.wired.inService = 0 := quiet.master
  rw [Chip.asking_eq_none_iff wiredQuiet]
  constructor
  · intro silent i pending
    cases i with
    | master i => exact silent i ((wired_pending pending.1).mpr pending.2)
    | slave k => exact silent 2 ((wired_pending_two quiet).mpr ⟨⟨k, pending.1⟩, pending.2⟩)
  · intro none i asks
    by_cases cascade : i = 2
    · subst cascade
      obtain ⟨⟨k, waiting⟩, opened⟩ := (wired_pending_two quiet).mp asks
      exact none (.slave k) ⟨waiting, opened⟩
    · exact none (.master i) ⟨cascade, (wired_pending cascade).mp asks⟩

/-- Without a pending input the acknowledgement changes nothing, and it counts as line 7. -/
theorem acknowledge_none (set : p.Cascaded) (quiet : p.Quiet) (none : ∀ i, ¬ p.Pending i) :
    p.acknowledge = ({ p with master := p.wired }, p.master.vector 7) := by
  simp only [acknowledge, Chip.acknowledge, (asking_eq_none_iff quiet).mpr none, has_cascade set]
  rfl

/-- A pending input of highest priority, if any is pending. -/
theorem exists_highest {i : Input} (pending : p.Pending i) :
    ∃ i, p.Pending i ∧ ∀ j, p.Pending j → i.rank ≤ j.rank := by
  have some : ∃ n, ∃ j, p.Pending j ∧ j.rank = n := ⟨i.rank, i, pending, rfl⟩
  classical
  obtain ⟨j, waiting, least⟩ := Nat.find_spec some
  refine ⟨j, waiting, ?_⟩
  intro k other
  rw [least]
  exact Nat.find_min' some ⟨k, other, rfl⟩

end Pair

end InterruptController
