import Mathlib.Data.BitVec
import Mathlib.Logic.Function.Basic

/-!
# The memory in protected mode

All segments are flat: an address is 32 bits long and wraps at 4 GB. `setup` runs
on its own stack; what its routines push for a call is passed as an argument here.
-/

namespace OperatorSystem.Boot

abbrev Memory := BitVec 32 → BitVec 8

namespace Memory

variable {m m' : Memory} {a b v : BitVec 32}

def half (m : Memory) (a : BitVec 32) : BitVec 16 := m (a + 1) ++ m a

def dword (m : Memory) (a : BitVec 32) : BitVec 32 := m (a + 3) ++ m (a + 2) ++ m (a + 1) ++ m a

/-- `a` is one of the `n` bytes from `start` on. -/
def Within (start : BitVec 32) (n : Nat) (a : BitVec 32) : Prop := (a - start).toNat < n

instance (start : BitVec 32) (n : Nat) (a : BitVec 32) : Decidable (Within start n a) :=
  inferInstanceAs (Decidable (_ < _))

theorem half_congr (same : ∀ b, Within a 2 b → m' b = m b) : m'.half a = m.half a := by
  rw [half, half, same a (by unfold Within; bv_omega), same (a + 1) (by unfold Within; bv_omega)]

theorem dword_congr (same : ∀ b, Within a 4 b → m' b = m b) : m'.dword a = m.dword a := by
  rw [dword, dword, same a (by unfold Within; bv_omega), same (a + 1) (by unfold Within; bv_omega),
    same (a + 2) (by unfold Within; bv_omega), same (a + 3) (by unfold Within; bv_omega)]

/-- `mov [es:a],v` -/
def storeDword (m : Memory) (a v : BitVec 32) : Memory :=
  Function.update (Function.update (Function.update (Function.update m a (v.extractLsb' 0 8))
    (a + 1) (v.extractLsb' 8 8)) (a + 2) (v.extractLsb' 16 8)) (a + 3) (v.extractLsb' 24 8)

theorem storeDword_other (outside : ¬ Within a 4 b) : m.storeDword a v b = m b := by
  unfold Within at outside
  rw [storeDword, Function.update_of_ne (by bv_omega), Function.update_of_ne (by bv_omega),
    Function.update_of_ne (by bv_omega), Function.update_of_ne (by bv_omega)]

theorem dword_storeDword : (m.storeDword a v).dword a = v := by
  have byte0 : m.storeDword a v a = v.extractLsb' 0 8 := by
    rw [storeDword, Function.update_of_ne (by bv_omega), Function.update_of_ne (by bv_omega),
      Function.update_of_ne (by bv_omega), Function.update_self]
  have byte1 : m.storeDword a v (a + 1) = v.extractLsb' 8 8 := by
    rw [storeDword, Function.update_of_ne (by bv_omega), Function.update_of_ne (by bv_omega), Function.update_self]
  have byte2 : m.storeDword a v (a + 2) = v.extractLsb' 16 8 := by
    rw [storeDword, Function.update_of_ne (by bv_omega), Function.update_self]
  have byte3 : m.storeDword a v (a + 3) = v.extractLsb' 24 8 := by
    rw [storeDword, Function.update_self]
  rw [dword, byte0, byte1, byte2, byte3]
  apply BitVec.eq_of_getLsbD_eq
  intro i small
  simp only [BitVec.getLsbD_append, BitVec.getLsbD_extractLsb']
  -- bit `i` is in the byte `i / 8`
  by_cases first : i < 8
  · simp [first]
  by_cases second : i < 16
  · simp [first, show i - 8 < 8 by omega, show 8 + (i - 8) = i by omega]
  by_cases third : i < 24
  · simp [first, show ¬ i - 8 < 8 by omega, show i - 8 - 8 < 8 by omega, show 16 + (i - 8 - 8) = i by omega]
  · simp [first, show ¬ i - 8 < 8 by omega, show ¬ i - 8 - 8 < 8 by omega, show i - 8 - 8 - 8 < 8 by omega,
      show 24 + (i - 8 - 8 - 8) = i by omega]

/-- `rep movsb` with `n` in `ecx` -/
def repMovsb : Nat → BitVec 32 → BitVec 32 → Memory → Memory
  | 0, _, _, m => m
  | n + 1, edi, esi, m => repMovsb n (edi + 1) (esi + 1) (Function.update m edi (m esi))

def memCpy (dst src size : BitVec 32) (m : Memory) : Memory := repMovsb size.toNat dst src m

/-- The bytes arrive if none of them is overwritten on the way. -/
theorem repMovsb_spec (n : Nat) (fits : n ≤ 2 ^ 32) {edi esi : BitVec 32}
    (apart : ∀ a, Within esi n a → ¬ Within edi n a) :
    repMovsb n edi esi m a = if Within edi n a then m (esi + (a - edi)) else m a := by
  -- the induction is on the bytes that are left, and the memory changes with each
  induction n generalizing edi esi m with
  | zero => rw [repMovsb, if_neg (show ¬ Within edi 0 a from Nat.not_lt_zero _)]
  | succ n ih =>
    have shifted : ∀ {start x : BitVec 32}, Within (start + 1) n x → Within start (n + 1) x ∧ x ≠ start := by
      intro start x inside
      unfold Within at *
      constructor
      · bv_omega
      · rintro rfl
        bv_omega
    rw [repMovsb, ih (Nat.le_of_succ_le fits) fun x read written =>
      apart x (shifted read).1 (shifted written).1]
    by_cases later : Within (edi + 1) n a
    · have source : esi + 1 + (a - (edi + 1)) = esi + (a - edi) := by bv_omega
      have other : esi + (a - edi) ≠ edi := by
        intro same
        refine apart edi ?_ ?_
        · have inside := (shifted later).1
          have offset : edi - esi = a - edi := by bv_omega
          unfold Within at *
          rw [offset]
          exact inside
        · unfold Within
          rw [BitVec.sub_self]
          exact Nat.succ_pos n
      rw [if_pos later, if_pos (shifted later).1, source, Function.update_of_ne other]
    · rw [if_neg later]
      by_cases here : a = edi
      · subst here
        have inside : Within a (n + 1) a := by
          unfold Within
          rw [BitVec.sub_self]
          exact Nat.succ_pos n
        rw [if_pos inside, Function.update_self, BitVec.sub_self, BitVec.add_zero]
      · have outside : ¬ Within edi (n + 1) a := by
          unfold Within at *
          bv_omega
        rw [if_neg outside, Function.update_of_ne here]

end Memory

end OperatorSystem.Boot
