import OperatorSystem.Kernel.Descriptors
import OperatorSystem.Kernel.Process

/-!
# The interrupt descriptor table (`protect.c`, `protect.h`, `int.h`)

`initIdtDesc` fills 33 of the 256 gates with the entries of `int.asm`. The
processor takes a gate out of eight bytes as `Target.decode` does. The main
result `idt_decoded` says what it finds at each vector, and with it which
vectors a program in ring 3 may call (`callable_iff`).
-/

namespace OperatorSystem.Kernel

/-- `GATE`: the eight bytes of a gate. -/
structure Gate where
  offsetLow : BitVec 16
  selector : BitVec 16
  dcount : BitVec 8
  attr : BitVec 8
  offsetHigh : BitVec 16
  deriving DecidableEq

def Gate.bytes (g : Gate) : List (BitVec 8) :=
  littleEndian g.offsetLow ++ littleEndian g.selector ++ [g.dcount, g.attr] ++ littleEndian g.offsetHigh

def selectorKernelCs : BitVec 16 := 0x08
def da386IGate : BitVec 8 := 0x8E
def privilegeKernel : BitVec 16 := 0 <<< 5

abbrev Idt := BitVec 8 → Gate

/-- The table before any `setIdtDesc`. -/
def emptyIdt : Idt := fun _ => ⟨0, 0, 0, 0, 0⟩

def setIdtDesc (idt : Idt) (vector descType : BitVec 8) (handler : BitVec 32) (privilege : BitVec 8) : Idt :=
  Function.update idt vector
    { idt vector with
      offsetLow := handler.setWidth 16
      selector := selectorKernelCs
      attr := descType ||| privilege
      offsetHigh := (handler >>> 16).setWidth 16 }

/-- The entries of `int.asm`. -/
inductive Entry
  | divideError
  | singleStepException
  | nmi
  | breakpointException
  | overflow
  | boundsCheck
  | invalOpcode
  | coprNotAvailable
  | doubleFault
  | coprSegOverrun
  | invalTss
  | segmentNotPresent
  | stackException
  | generalProtection
  | pageFault
  | coprError
  | hwint (irq : Fin 16)
  | sysCall
  deriving DecidableEq

/-- The vector, entry and privilege of each `setIdtDesc` of `initIdtDesc`, in its order. -/
def idtRows : List (BitVec 8 × Entry × BitVec 16) :=
  [(0x0, .divideError, privilegeKernel),
    (0x1, .singleStepException, privilegeKernel),
    (0x2, .nmi, privilegeKernel),
    (0x3, .breakpointException, privilegeUser),
    (0x4, .overflow, privilegeUser),
    (0x5, .boundsCheck, privilegeKernel),
    (0x6, .invalOpcode, privilegeKernel),
    (0x7, .coprNotAvailable, privilegeKernel),
    (0x8, .doubleFault, privilegeKernel),
    (0x9, .coprSegOverrun, privilegeKernel),
    (0xA, .invalTss, privilegeKernel),
    (0xB, .segmentNotPresent, privilegeKernel),
    (0xC, .stackException, privilegeKernel),
    (0xD, .generalProtection, privilegeKernel),
    (0xE, .pageFault, privilegeKernel),
    (0x10, .coprError, privilegeKernel),
    (0x20 + 0, .hwint 0, privilegeKernel),
    (0x20 + 1, .hwint 1, privilegeKernel),
    (0x20 + 2, .hwint 2, privilegeKernel),
    (0x20 + 3, .hwint 3, privilegeKernel),
    (0x20 + 4, .hwint 4, privilegeKernel),
    (0x20 + 5, .hwint 5, privilegeKernel),
    (0x20 + 6, .hwint 6, privilegeKernel),
    (0x20 + 7, .hwint 7, privilegeKernel),
    (0x28 + 0, .hwint 8, privilegeKernel),
    (0x28 + 1, .hwint 9, privilegeKernel),
    (0x28 + 2, .hwint 10, privilegeKernel),
    (0x28 + 3, .hwint 11, privilegeKernel),
    (0x28 + 4, .hwint 12, privilegeKernel),
    (0x28 + 5, .hwint 13, privilegeKernel),
    (0x28 + 6, .hwint 14, privilegeKernel),
    (0x28 + 7, .hwint 15, privilegeKernel),
    (0x80, .sysCall, privilegeUser)]

def setRow (address : Entry → BitVec 32) (idt : Idt) (row : BitVec 8 × Entry × BitVec 16) : Idt :=
  setIdtDesc idt row.1 da386IGate (address row.2.1) (row.2.2.setWidth 8)

/-- `initIdtDesc`, with the addresses that the linker gives to the entries. -/
def initIdtDesc (address : Entry → BitVec 32) (idt : Idt) : Idt := idtRows.foldl (setRow address) idt

/-! ### The layout of the processor -/

/-- Where a gate leads, and who may call it. -/
structure Target where
  offset : BitVec 32
  selector : BitVec 16
  present : Bool
  dpl : BitVec 2
  kind : BitVec 5
  deriving DecidableEq

def interruptGate : BitVec 5 := 0x0E

def Target.decode : List (BitVec 8) → Option Target
  | [b0, b1, b2, b3, _, b5, b6, b7] => some
    { offset := b7 ++ b6 ++ b1 ++ b0
      selector := b3 ++ b2
      present := b5.getLsbD 7
      dpl := b5.extractLsb' 5 2
      kind := b5.extractLsb' 0 5 }
  | _ => none

/-- The row that sets a vector. -/
def rowOf (vector : BitVec 8) : Option (Entry × BitVec 16) := idtRows.lookup vector

/-- The ring in the privilege of a row. -/
def dplOf (privilege : BitVec 16) : BitVec 2 := (privilege >>> 5).setWidth 2

/-- What the processor is to find at a vector. -/
def expected (address : Entry → BitVec 32) (vector : BitVec 8) : Target :=
  match rowOf vector with
  | some (entry, privilege) =>
    { offset := address entry, selector := selectorKernelCs, present := true
      dpl := dplOf privilege, kind := interruptGate }
  | none => { offset := 0, selector := 0, present := false, dpl := 0, kind := 0 }

/-! ### One gate -/

theorem decode_gate (g : Gate) : Target.decode g.bytes = some
    { offset := g.offsetHigh ++ g.offsetLow
      selector := g.selector
      present := g.attr.getLsbD 7
      dpl := g.attr.extractLsb' 5 2
      kind := g.attr.extractLsb' 0 5 } := by
  have join (w : BitVec 16) : (w >>> 8).setWidth 8 ++ w.setWidth 8 = w := by
    apply BitVec.eq_of_getLsbD_eq
    intro i hi
    simp only [BitVec.getLsbD_append, BitVec.getLsbD_setWidth, BitVec.getLsbD_ushiftRight]
    grind
  have offset : g.offsetHigh ++ (g.offsetLow >>> 8).setWidth 8 ++ g.offsetLow.setWidth 8 =
      g.offsetHigh ++ g.offsetLow := by
    apply BitVec.eq_of_getLsbD_eq
    intro i hi
    simp only [BitVec.getLsbD_append, BitVec.getLsbD_setWidth, BitVec.getLsbD_ushiftRight]
    grind
  simp only [Target.decode, Gate.bytes, littleEndian, List.cons_append, List.nil_append, offset, join]

/-- The halves of an address meet again. -/
theorem offset_halves (handler : BitVec 32) : (handler >>> 16).setWidth 16 ++ handler.setWidth 16 = handler := by
  apply BitVec.eq_of_getLsbD_eq
  intro i hi
  simp only [BitVec.getLsbD_append, BitVec.getLsbD_setWidth, BitVec.getLsbD_ushiftRight]
  grind

/-- `setIdtDesc` leaves what was asked for at its vector. -/
theorem decode_setIdtDesc (idt : Idt) (vector descType : BitVec 8) (handler : BitVec 32) (privilege : BitVec 8) :
    Target.decode (setIdtDesc idt vector descType handler privilege vector).bytes = some
      { offset := handler
        selector := selectorKernelCs
        present := (descType ||| privilege).getLsbD 7
        dpl := (descType ||| privilege).extractLsb' 5 2
        kind := (descType ||| privilege).extractLsb' 0 5 } := by
  rw [decode_gate, setIdtDesc, Function.update_self, offset_halves]

theorem setIdtDesc_other {idt : Idt} {vector other : BitVec 8} (apart : other ≠ vector)
    (descType : BitVec 8) (handler : BitVec 32) (privilege : BitVec 8) :
    setIdtDesc idt vector descType handler privilege other = idt other :=
  Function.update_of_ne apart _ _

/-! ### The whole table -/

variable {address : Entry → BitVec 32}

theorem foldl_setRow_other {rows : List (BitVec 8 × Entry × BitVec 16)} {vector : BitVec 8}
    (unset : rows.lookup vector = none) (idt : Idt) : rows.foldl (setRow address) idt vector = idt vector := by
  induction rows generalizing idt with
  | nil => rfl
  | cons row rows ih =>
    rw [List.lookup_cons] at unset
    split at unset
    · cases unset
    · rename_i apart
      rw [List.foldl_cons, ih unset]
      exact setIdtDesc_other (by simpa using apart) _ _ _

/-- No later row sets the vector of an earlier one. -/
theorem foldl_setRow {rows : List (BitVec 8 × Entry × BitVec 16)} (distinct : (rows.map Prod.fst).Nodup)
    {vector : BitVec 8} {entry : Entry} {privilege : BitVec 16}
    (row : rows.lookup vector = some (entry, privilege)) (idt : Idt) :
    Target.decode (rows.foldl (setRow address) idt vector).bytes = some
      { offset := address entry
        selector := selectorKernelCs
        present := (da386IGate ||| privilege.setWidth 8).getLsbD 7
        dpl := (da386IGate ||| privilege.setWidth 8).extractLsb' 5 2
        kind := (da386IGate ||| privilege.setWidth 8).extractLsb' 0 5 } := by
  induction rows generalizing idt with
  | nil => cases row
  | cons first rows ih =>
    rw [List.map_cons, List.nodup_cons] at distinct
    rw [List.lookup_cons] at row
    rw [List.foldl_cons]
    split at row
    · rename_i here
      obtain rfl : vector = first.1 := by simpa using here
      have last : rows.lookup first.1 = none := by
        rw [List.lookup_eq_none_iff]
        intro other member
        simpa using fun same => distinct.1 (List.mem_map.mpr ⟨other, member, Eq.symm same⟩)
      have stored : first.2 = (entry, privilege) := Option.some.inj row
      rw [foldl_setRow_other last, setRow, stored, decode_setIdtDesc]
    · exact ih distinct.2 row _

/-- What the processor finds at each vector, in a table that was empty. -/
theorem decode_initIdtDesc (address : Entry → BitVec 32) (vector : BitVec 8) :
    Target.decode (initIdtDesc address emptyIdt vector).bytes = some (expected address vector) := by
  have distinct : (idtRows.map Prod.fst).Nodup := by decide
  -- the type of each gate and its privilege share a byte without a common bit
  have packed : ∀ row ∈ idtRows, (da386IGate ||| row.2.2.setWidth 8).getLsbD 7 = true ∧
      (da386IGate ||| row.2.2.setWidth 8).extractLsb' 5 2 = dplOf row.2.2 ∧
      (da386IGate ||| row.2.2.setWidth 8).extractLsb' 0 5 = interruptGate := by decide
  cases found : rowOf vector with
  | none =>
    rw [initIdtDesc, foldl_setRow_other found, expected, found, emptyIdt, decode_gate]
    rfl
  | some row =>
    obtain ⟨entry, privilege⟩ := row
    have member : (vector, entry, privilege) ∈ idtRows := by
      obtain ⟨before, after, split, _⟩ := List.lookup_eq_some_iff.mp found
      rw [split]
      simp
    have bits := packed _ member
    rw [initIdtDesc, foldl_setRow distinct found, expected, found, bits.1, bits.2.1, bits.2.2]

/-- The vectors with a gate, and those of them that are open to ring 3. -/
theorem rowOf_spec : ∀ vector : BitVec 8,
    ((rowOf vector).isSome = true ↔
      vector < 0x11 ∧ vector ≠ 0xF ∨ 0x20 ≤ vector ∧ vector < 0x30 ∨ vector = 0x80) ∧
      ((rowOf vector).any (fun row => dplOf row.2 = 3) = true ↔
        vector = 3 ∨ vector = 4 ∨ vector = 0x80) := by
  decide +kernel

theorem rowOf_hwint : ∀ irq : Fin 16, rowOf (0x20 + BitVec.ofNat 8 irq) = some (.hwint irq, privilegeKernel) := by
  decide

/-- A gate that is present in ring 0 segments and, for `int` in a program of a ring, not above it. -/
def Target.Callable (t : Target) (ring : BitVec 2) : Prop :=
  t.present = true ∧ t.kind = interruptGate ∧ ring ≤ t.dpl

instance (t : Target) (ring : BitVec 2) : Decidable (t.Callable ring) :=
  inferInstanceAs (Decidable (t.present = true ∧ t.kind = interruptGate ∧ ring ≤ t.dpl))

theorem ring_zero_le : ∀ dpl : BitVec 2, 0#2 ≤ dpl := by decide

/-- What the processor finds at each vector of the table: the entries, the gates that
are present, those that a program in ring 3 may call, and the lines of the two chips. -/
theorem idt_decoded (address : Entry → BitVec 32) (vector : BitVec 8) :
    ∃ t, Target.decode (initIdtDesc address emptyIdt vector).bytes = some t ∧ t = expected address vector ∧
      (t.Callable 0 ↔ vector < 0x11 ∧ vector ≠ 0xF ∨ 0x20 ≤ vector ∧ vector < 0x30 ∨ vector = 0x80) ∧
      (t.Callable 3 ↔ vector = 3 ∨ vector = 4 ∨ vector = 0x80) ∧
      ∀ irq : Fin 16, vector = 0x20 + BitVec.ofNat 8 irq → t.offset = address (.hwint irq) := by
  refine ⟨expected address vector, decode_initIdtDesc address vector, rfl, ?_, ?_, ?_⟩
  · rw [← (rowOf_spec vector).1, expected]
    cases rowOf vector with
    | none => simp [Target.Callable]
    | some row => simp [Target.Callable, ring_zero_le]
  · rw [← (rowOf_spec vector).2, expected]
    have top : ∀ dpl : BitVec 2, 3#2 ≤ dpl ↔ dpl = 3#2 := by decide
    cases rowOf vector with
    | none => simp [Target.Callable]
    | some row => simp [Target.Callable, top]
  · rintro irq rfl
    rw [expected, rowOf_hwint]

end OperatorSystem.Kernel
