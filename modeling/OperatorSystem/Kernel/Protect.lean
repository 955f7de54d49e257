import Mathlib.Data.BitVec

/-!
# Segment descriptors and task-state segments (`protect.h`, `protect.c`)
-/

namespace OperatorSystem.Kernel

/-- `DESCRIPTOR`: the eight bytes of a segment descriptor. -/
structure Descriptor where
  limitLow : BitVec 16
  baseLow : BitVec 16
  baseMid : BitVec 8
  attr1 : BitVec 8
  limitHighAttr2 : BitVec 8
  baseHigh : BitVec 8
  deriving DecidableEq

def getDescBase (d : Descriptor) : BitVec 32 :=
  d.baseHigh.setWidth 32 <<< 24 ||| d.baseMid.setWidth 32 <<< 16 ||| d.baseLow.setWidth 32

def setDescBase (d : Descriptor) (base : BitVec 32) : Descriptor :=
  { d with
    baseLow := base.setWidth 16
    baseMid := (base >>> 16).setWidth 8
    baseHigh := (base >>> 24).setWidth 8 }

def setGdtDesc (base limit : BitVec 32) (attr : BitVec 16) : Descriptor where
  limitLow := limit.setWidth 16
  baseLow := base.setWidth 16
  baseMid := (base >>> 16).setWidth 8
  attr1 := attr.setWidth 8
  limitHighAttr2 := (limit >>> 16).setWidth 8 &&& 0x0f ||| (attr >>> 8).setWidth 8 &&& 0xf0
  baseHigh := (base >>> 24).setWidth 8

/-- `getDescLimit`: what `lsl` loads for a selector of the descriptor, in bytes. -/
def getDescLimit (d : Descriptor) : BitVec 32 :=
  let limit := (d.limitHighAttr2 &&& 0x0f).setWidth 32 <<< 16 ||| d.limitLow.setWidth 32
  -- the granularity bit counts the limit in pages of 4 KB
  if d.limitHighAttr2.getLsbD 7 then limit <<< 12 ||| 0xfff else limit

@[simp] theorem getDescBase_setDescBase (d : Descriptor) (base : BitVec 32) :
    getDescBase (setDescBase d base) = base := by
  apply BitVec.eq_of_getLsbD_eq
  intro i hi
  simp only [getDescBase, setDescBase, BitVec.getLsbD_or, BitVec.getLsbD_shiftLeft,
    BitVec.getLsbD_setWidth, BitVec.getLsbD_ushiftRight]
  -- each bit of the base comes from exactly one of the three fields
  by_cases low : i < 16
  · simp [low, hi, show i < 24 by omega]
  · by_cases mid : i < 24
    · simp [low, mid, hi, show i - 16 < 32 by omega, show i - 16 < 8 by omega,
        show 16 + (i - 16) = i by omega]
    · simp [low, mid, hi, show ¬ i - 16 < 8 by omega, show i - 24 < 32 by omega,
        show i - 24 < 8 by omega, show 24 + (i - 24) = i by omega]

@[simp] theorem getDescLimit_setDescBase (d : Descriptor) (base : BitVec 32) :
    getDescLimit (setDescBase d base) = getDescLimit d := rfl

end OperatorSystem.Kernel
