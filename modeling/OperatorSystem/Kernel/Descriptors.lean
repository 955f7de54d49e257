import OperatorSystem.Kernel.Protect

/-!
# Descriptors in memory (`protect.c`, `pm.inc`)

The processor reads a descriptor as eight bytes. `Segment.decode` takes base, limit and
attributes out of them as the processor does, and the two encoders, `setGdtDesc`
and the macro of `setup`, are compared by the bytes that they leave.
-/

namespace OperatorSystem.Kernel

/-- A word in memory, low byte first. -/
def littleEndian (w : BitVec 16) : List (BitVec 8) := [w.setWidth 8, (w >>> 8).setWidth 8]

/-- A `DESCRIPTOR` in memory, where its fields lie without gaps. -/
def Descriptor.bytes (d : Descriptor) : List (BitVec 8) :=
  littleEndian d.limitLow ++ littleEndian d.baseLow ++ [d.baseMid, d.attr1, d.limitHighAttr2, d.baseHigh]

/-! ### The layout of the processor -/

/-- A segment, with its attributes in the bits `0xF0FF` of a word. -/
structure Segment where
  base : BitVec 32
  limit : BitVec 20
  attr : BitVec 16
  deriving DecidableEq

/-- The last offset of the segment: with the granularity bit the limit counts pages of 4 KB. -/
def Segment.last (s : Segment) : BitVec 32 :=
  if s.attr.getLsbD 15 then s.limit.setWidth 32 <<< 12 ||| 0xfff else s.limit.setWidth 32

def Segment.decode : List (BitVec 8) → Option Segment
  | [b0, b1, b2, b3, b4, b5, b6, b7] => some
    { base := b7 ++ b4 ++ b3 ++ b2
      limit := b6.extractLsb' 0 4 ++ b1 ++ b0
      -- the low nibble of this byte belongs to the limit
      attr := b6.extractLsb' 4 4 ++ 0#4 ++ b5 }
  | _ => none

/-! ### The macro of `pm.inc` -/

namespace Nasm

def db (v : BitVec 64) : List (BitVec 8) := [v.setWidth 8]

def dw (v : BitVec 64) : List (BitVec 8) := littleEndian (v.setWidth 16)

/-- `Descriptor` on three numbers; the assembler computes with 64 bits. -/
def descriptor (base limit attr : BitVec 64) : List (BitVec 8) :=
  dw (limit &&& 0xFFFF) ++ dw (base &&& 0xFFFF) ++ db ((base >>> 16) &&& 0xFF) ++
    dw (((limit >>> 8) &&& 0x0F00) ||| (attr &&& 0xF0FF)) ++ db ((base >>> 24) &&& 0xFF)

end Nasm

/-! ### Bits and bytes -/

theorem littleEndian_join (high low : BitVec 8) : littleEndian (high ++ low) = [low, high] := by
  have bytes : (high ++ low).setWidth 8 = low ∧ ((high ++ low) >>> 8).setWidth 8 = high := by
    constructor
    · apply BitVec.eq_of_getLsbD_eq
      intro i hi
      simp only [BitVec.getLsbD_setWidth, BitVec.getLsbD_append]
      simp [hi]
    · apply BitVec.eq_of_getLsbD_eq
      intro i hi
      simp only [BitVec.getLsbD_setWidth, BitVec.getLsbD_ushiftRight, BitVec.getLsbD_append]
      simp [hi]
  rw [littleEndian, bytes.1, bytes.2]

theorem getLsbD_nibbles : ∀ i < 8, (0x0f : BitVec 8).getLsbD i = decide (i < 4) ∧
    (0xf0 : BitVec 8).getLsbD i = decide (4 ≤ i) := by
  decide

theorem getLsbD_attr : ∀ i < 16, (0xF0FF : BitVec 16).getLsbD i = decide (i < 8 ∨ 12 ≤ i) := by
  decide

/-- The byte that limit and attributes share. -/
theorem nibbles (limit attr : BitVec 8) :
    (limit &&& 0x0f ||| attr &&& 0xf0).extractLsb' 0 4 = limit.extractLsb' 0 4 ∧
      (limit &&& 0x0f ||| attr &&& 0xf0).extractLsb' 4 4 = attr.extractLsb' 4 4 := by
  constructor
  · apply BitVec.eq_of_getLsbD_eq
    intro i hi
    have masks := getLsbD_nibbles i (by omega)
    simp only [BitVec.getLsbD_extractLsb', BitVec.getLsbD_or, BitVec.getLsbD_and, Nat.zero_add, masks]
    simp [hi]
  · apply BitVec.eq_of_getLsbD_eq
    intro i hi
    have masks := getLsbD_nibbles (4 + i) (by omega)
    simp only [BitVec.getLsbD_extractLsb', BitVec.getLsbD_or, BitVec.getLsbD_and, masks]
    simp [hi]

/-! ### What the encoders leave -/

/-- `getDescBase` reads the base of the layout. -/
theorem decode_bytes (d : Descriptor) : Segment.decode d.bytes = some
    { base := getDescBase d
      limit := d.limitHighAttr2.extractLsb' 0 4 ++ d.limitLow
      attr := d.limitHighAttr2.extractLsb' 4 4 ++ 0#4 ++ d.attr1 } := by
  have base : d.baseHigh ++ d.baseMid ++ (d.baseLow >>> 8).setWidth 8 ++ d.baseLow.setWidth 8 =
      getDescBase d := by
    apply BitVec.eq_of_getLsbD_eq
    intro i hi
    simp only [getDescBase, BitVec.getLsbD_append, BitVec.getLsbD_or, BitVec.getLsbD_shiftLeft,
      BitVec.getLsbD_setWidth, BitVec.getLsbD_ushiftRight]
    grind
  have limit : d.limitHighAttr2.extractLsb' 0 4 ++ (d.limitLow >>> 8).setWidth 8 ++ d.limitLow.setWidth 8 =
      d.limitHighAttr2.extractLsb' 0 4 ++ d.limitLow := by
    apply BitVec.eq_of_getLsbD_eq
    intro i hi
    simp only [BitVec.getLsbD_append, BitVec.getLsbD_setWidth, BitVec.getLsbD_ushiftRight]
    grind
  simp only [Segment.decode, Descriptor.bytes, littleEndian, List.cons_append, List.nil_append, base, limit]

/-- `setDescBase` replaces the base of the segment and nothing else. -/
theorem decode_setDescBase (d : Descriptor) (base : BitVec 32) : ∃ limit attr,
    Segment.decode d.bytes = some ⟨getDescBase d, limit, attr⟩ ∧
      Segment.decode (setDescBase d base).bytes = some ⟨base, limit, attr⟩ := by
  refine ⟨_, _, decode_bytes d, ?_⟩
  rw [decode_bytes, getDescBase_setDescBase]
  rfl

/-- `setGdtDesc` stores the base as `setDescBase` does. -/
theorem getDescBase_setGdtDesc (base limit : BitVec 32) (attr : BitVec 16) :
    getDescBase (setGdtDesc base limit attr) = base :=
  getDescBase_setDescBase (setGdtDesc 0 limit attr) base

/-- The bits of limit and attributes that do not fit are lost. -/
theorem decode_setGdtDesc (base limit : BitVec 32) (attr : BitVec 16) :
    Segment.decode (setGdtDesc base limit attr).bytes = some ⟨base, limit.setWidth 20, attr &&& 0xF0FF⟩ := by
  have high : ((limit >>> 16).setWidth 8).extractLsb' 0 4 ++ limit.setWidth 16 = limit.setWidth 20 := by
    apply BitVec.eq_of_getLsbD_eq
    intro i hi
    simp only [BitVec.getLsbD_append, BitVec.getLsbD_setWidth, BitVec.getLsbD_ushiftRight,
      BitVec.getLsbD_extractLsb']
    grind
  have masked : ((attr >>> 8).setWidth 8).extractLsb' 4 4 ++ 0#4 ++ attr.setWidth 8 = attr &&& 0xF0FF := by
    apply BitVec.eq_of_getLsbD_eq
    intro i hi
    simp only [BitVec.getLsbD_append, BitVec.getLsbD_setWidth, BitVec.getLsbD_ushiftRight,
      BitVec.getLsbD_extractLsb', BitVec.getLsbD_and, getLsbD_attr i hi]
    grind
  -- of the byte that both share, the limit has the low nibble and the attributes have the high one
  have shared := nibbles ((limit >>> 16).setWidth 8) ((attr >>> 8).setWidth 8)
  rw [decode_bytes, getDescBase_setGdtDesc]
  refine congrArg some ?_
  rw [Segment.mk.injEq]
  refine ⟨rfl, ?_, ?_⟩
  · rw [← high, ← shared.1]
    rfl
  · rw [← masked, ← shared.2]
    rfl

/-! ### The two encoders -/

/-- A field that is masked to its own width is cut off by the store alone. -/
theorem setWidth_masks (v : BitVec 64) :
    (v &&& 0xFFFF).setWidth 16 = v.setWidth 16 ∧ (v &&& 0xFF).setWidth 8 = v.setWidth 8 := by
  have word : ∀ i < 16, (0xFFFF : BitVec 64).getLsbD i = true := by decide
  have byte : ∀ i < 8, (0xFF : BitVec 64).getLsbD i = true := by decide
  constructor
  · apply BitVec.eq_of_getLsbD_eq
    intro i hi
    simp only [BitVec.getLsbD_setWidth, BitVec.getLsbD_and, word i hi, Bool.and_true]
  · apply BitVec.eq_of_getLsbD_eq
    intro i hi
    simp only [BitVec.getLsbD_setWidth, BitVec.getLsbD_and, byte i hi, Bool.and_true]

theorem setWidth_wide (v : BitVec 32) (n w : Nat) (fits : n + w ≤ 32) :
    (v.setWidth 64 >>> n).setWidth w = (v >>> n).setWidth w := by
  apply BitVec.eq_of_getLsbD_eq
  intro i hi
  simp only [BitVec.getLsbD_setWidth, BitVec.getLsbD_ushiftRight]
  simp [show n + i < 64 by omega]

/-- The word in which the macro joins limit and attributes: `setGdtDesc` stores its two
bytes one by one, and masks each part after the shift. -/
theorem attr_word (limit : BitVec 32) (attr : BitVec 16) :
    ((((limit.setWidth 64 >>> 8) &&& 0x0F00) ||| (attr.setWidth 64 &&& 0xF0FF)).setWidth 16 : BitVec 16) =
      ((limit >>> 16).setWidth 8 &&& (0x0f : BitVec 8) ||| (attr >>> 8).setWidth 8 &&& (0xf0 : BitVec 8)) ++
        attr.setWidth 8 := by
  have masks : ∀ i < 16, (0x0F00 : BitVec 64).getLsbD i = decide (8 ≤ i ∧ i < 12) ∧
      (0xF0FF : BitVec 64).getLsbD i = decide (i < 8 ∨ 12 ≤ i) := by decide
  apply BitVec.eq_of_getLsbD_eq
  intro i hi
  simp only [BitVec.getLsbD_append, BitVec.getLsbD_setWidth, BitVec.getLsbD_ushiftRight, BitVec.getLsbD_or,
    BitVec.getLsbD_and, masks i hi]
  by_cases low : i < 8
  · simp [low, hi, show i < 64 by omega, show ¬ 8 ≤ i by omega]
  · have nibble := getLsbD_nibbles (i - 8) (by omega)
    simp only [low, nibble]
    grind

/-- The macro leaves the bytes of `setGdtDesc`, also where bits of limit or attributes do not fit. -/
theorem bytes_setGdtDesc (base limit : BitVec 32) (attr : BitVec 16) :
    (setGdtDesc base limit attr).bytes =
      Nasm.descriptor (base.setWidth 64) (limit.setWidth 64) (attr.setWidth 64) := by
  have baseLow : (base.setWidth 64).setWidth 16 = base.setWidth 16 := setWidth_wide base 0 16 (by decide)
  have limitLow : (limit.setWidth 64).setWidth 16 = limit.setWidth 16 := setWidth_wide limit 0 16 (by decide)
  have baseMid := setWidth_wide base 16 8 (by decide)
  have baseHigh := setWidth_wide base 24 8 (by decide)
  simp only [Nasm.descriptor, Nasm.dw, Nasm.db, setWidth_masks, baseLow, limitLow, baseMid, baseHigh, attr_word,
    littleEndian_join]
  simp only [Descriptor.bytes, List.append_assoc]
  rfl

/-- What the processor reads is what was asked for, of either encoder, where limit and
attributes fit into their fields; and `fork` may relocate any descriptor. -/
theorem encoders_agree :
    (∀ (base : BitVec 32) (limit : BitVec 20) (attr : BitVec 16), attr &&& 0xF0FF = attr →
      Segment.decode (setGdtDesc base (limit.setWidth 32) attr).bytes = some ⟨base, limit, attr⟩ ∧
        (setGdtDesc base (limit.setWidth 32) attr).bytes =
          Nasm.descriptor (base.setWidth 64) (limit.setWidth 64) (attr.setWidth 64)) ∧
      (∀ (d : Descriptor) (base : BitVec 32), getDescBase (setDescBase d base) = base ∧
        ∃ limit attr, Segment.decode d.bytes = some ⟨getDescBase d, limit, attr⟩ ∧
          Segment.decode (setDescBase d base).bytes = some ⟨base, limit, attr⟩) ∧
      ∀ (base limit : BitVec 32) (attr : BitVec 16), getDescBase (setGdtDesc base limit attr) = base := by
  refine ⟨fun base limit attr masked => ⟨?_, ?_⟩,
    fun d base => ⟨getDescBase_setDescBase d base, decode_setDescBase d base⟩, getDescBase_setGdtDesc⟩
  · have narrow : (limit.setWidth 32).setWidth 20 = limit := by
      rw [BitVec.setWidth_setWidth_of_le limit (by decide), BitVec.setWidth_eq]
    rw [decode_setGdtDesc, narrow, masked]
  · have wide : (limit.setWidth 32).setWidth 64 = limit.setWidth 64 := BitVec.setWidth_setWidth (by decide)
    rw [bytes_setGdtDesc, wide]

/-- The code segment of the kernel: 4 GB in pages of 4 KB. -/
theorem encoders_agree_code : Segment.decode (setGdtDesc 0 0xfffff 0xC09A).bytes = some ⟨0, 0xfffff, 0xC09A⟩ :=
  (encoders_agree.1 0 0xfffff 0xC09A (by decide)).1

end OperatorSystem.Kernel
