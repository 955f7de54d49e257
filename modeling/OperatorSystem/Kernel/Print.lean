import Mathlib.Data.BitVec
import Mathlib.Data.Nat.Digits.Lemmas

/-!
# Formatted output (`print.c`)

`vsprintf` and `number` over the bytes of a format. The format is read by
position, and a read behind its NUL has no value. What lies below the two digit
tables on the stack is part of the surroundings, because `number` divides a
signed `int` and a negative remainder selects a byte in front of its table.
-/

namespace OperatorSystem.Kernel.Print

/-- A character constant of the source. -/
def ascii (c : Char) : BitVec 8 := BitVec.ofNat 8 c.toNat

/-- The bits of `flags`. -/
structure Flags where
  zeropad : Bool
  left : Bool
  small : Bool
  sign : Bool
  deriving DecidableEq

/-- `flags = 0` -/
def Flags.none : Flags := ⟨false, false, false, false⟩

/-- The bases `number` is called with. -/
inductive Base where
  | ten
  | sixteen
  deriving DecidableEq

def Base.val : Base → Nat
  | .ten => 10
  | .sixteen => 16

/-- The memory that the conversions read. -/
structure Memory where
  /-- The byte `k` places below `low` (or `up`, for `false`). -/
  below : Bool → Nat → BitVec 8
  /-- The string at an address, without its NUL. -/
  string : BitVec 32 → List (BitVec 8)

/-- `up` and `low` -/
def table (small : Bool) : List (BitVec 8) :=
  if small then "0123456789abcdef".toList.map ascii else "0123456789ABCDEF".toList.map ascii

/-- `low[r]` or `up[r]`; an index of the tables is never past their end. -/
def digit (mem : Memory) (small : Bool) (r : Int) : BitVec 8 :=
  if r < 0 then mem.below small r.natAbs else (table small).getD r.toNat 0

/-- `while (len < width--) *str++ = c;`: what is written, and the width that is left. -/
def pad (c : BitVec 8) (len width : Int) : List (BitVec 8) × Int :=
  if len < width then
    let rest := pad c len (width - 1)
    (c :: rest.1, rest.2)
  else ([], width - 1)
termination_by (width - len).toNat

/-- `while (--width > 0) *str++ = c;` -/
def prePad (c : BitVec 8) (width : Int) : List (BitVec 8) × Int :=
  if 0 < width - 1 then
    let rest := prePad c (width - 1)
    (c :: rest.1, rest.2)
  else ([], width - 1)
termination_by width.toNat

theorem Base.two_le (base : Base) : 2 ≤ base.val := by
  cases base <;> decide

/-- The loop that fills `tmp`, over a signed `int`. -/
def convert (mem : Memory) (small : Bool) (base : Base) (num : Int) : List (BitVec 8) :=
  if num = 0 then []
  else digit mem small (num.tmod base.val) :: convert mem small base (num.tdiv base.val)
termination_by num.natAbs
decreasing_by
  rw [Int.natAbs_tdiv]
  exact Nat.div_lt_self (Int.natAbs_pos.mpr ‹_›) base.two_le

/-- `flags & SIGN && num < 0` -/
def negative (num : BitVec 32) (flags : Flags) : Bool := flags.sign && num.slt 0

def signText (num : BitVec 32) (flags : Flags) : List (BitVec 8) :=
  if negative num flags then [ascii '-'] else []

def basePrefix (base : Base) (flags : Flags) : List (BitVec 8) :=
  match base with
  | .ten => []
  | .sixteen => [ascii '0', if flags.small then ascii 'x' else ascii 'X']

/-- The array `tmp`, up to `i`. -/
def tmp (mem : Memory) (num : BitVec 32) (base : Base) (flags : Flags) : List (BitVec 8) :=
  -- the negation of the least `int` is that `int` again
  let num := if negative num flags then -num else num
  if num = 0 then [ascii '0'] else convert mem flags.small base num.toInt

def number (mem : Memory) (num : BitVec 32) (base : Base) (width : Int) (flags : Flags) : List (BitVec 8) :=
  let c := if flags.zeropad then ascii '0' else ascii ' '
  let width := if negative num flags then width - 1 else width
  let digits := tmp mem num base flags
  let width := if base = .sixteen then width - 2 else width
  let width := width - digits.length
  -- the sign and the prefix are out before the padding on the left
  let before := if flags.left then ([], width) else pad c 0 width
  let after := pad c 0 before.2
  signText num flags ++ basePrefix base flags ++ before.1 ++ digits.reverse ++ after.1

/-- The case `'c'`. -/
def character (width : Int) (flags : Flags) (arg : BitVec 32) : List (BitVec 8) :=
  let before := if flags.left then ([], width) else prePad (ascii ' ') width
  let after := prePad (ascii ' ') before.2
  before.1 ++ [arg.setWidth 8] ++ after.1

/-- The string of the case `'s'`, with the text for the null pointer. -/
def stringAt (mem : Memory) (arg : BitVec 32) : List (BitVec 8) :=
  if arg = 0 then "<NULL>".toList.map ascii else mem.string arg

/-- The case `'s'`. -/
def string (mem : Memory) (width : Int) (flags : Flags) (arg : BitVec 32) : List (BitVec 8) :=
  let s := stringAt mem arg
  let before := if flags.left then ([], width) else pad (ascii ' ') s.length width
  let after := pad (ascii ' ') s.length before.2
  before.1 ++ s ++ after.1

/-- The cases of the switch that take an argument. -/
def printer (mem : Memory) (letter : BitVec 8) (width : Int) (flags : Flags) :
    Option (BitVec 32 → List (BitVec 8)) :=
  if letter = ascii 'c' then some (character width flags)
  else if letter = ascii 's' then some (string mem width flags)
  -- `x` falls into `X`
  else if letter = ascii 'x' then some fun arg => number mem arg .sixteen width { flags with small := true }
  else if letter = ascii 'X' then some fun arg => number mem arg .sixteen width flags
  -- `d` and `i` fall into `u`
  else if letter = ascii 'd' ∨ letter = ascii 'i' then
    some fun arg => number mem arg .ten width { flags with sign := true }
  else if letter = ascii 'u' then some fun arg => number mem arg .ten width flags
  else none

/-- `*fmt` at a position of the format. -/
def read (fmt : List (BitVec 8)) (p : Nat) : Option (BitVec 8) := (fmt ++ [0])[p]?

theorem read_le {fmt : List (BitVec 8)} {p : Nat} {c : BitVec 8} (here : read fmt p = some c) : p ≤ fmt.length := by
  have bound : p < (fmt ++ [0]).length := (List.getElem?_eq_some_iff.mp here).1
  simpa [Nat.lt_succ_iff] using bound

/-- From `repeat:` to the end of the first switch. -/
def scanFlags (fmt : List (BitVec 8)) (p : Nat) (flags : Flags) : Option (Nat × Flags) :=
  match here : read fmt (p + 1) with
  | Option.none => Option.none
  | some c =>
    if c = ascii '-' then scanFlags fmt (p + 1) { flags with left := true }
    else if c = ascii '0' then scanFlags fmt (p + 1) { flags with zeropad := true }
    else some (p + 1, flags)
termination_by fmt.length - p
decreasing_by
  all_goals
    have bound := read_le here
    omega

/-- `*fmt >= '0' && *fmt <= '9'` -/
def isDigit (c : BitVec 8) : Bool := ascii '0' ≤ c && c ≤ ascii '9'

/-- The loop that reads the width. -/
def scanWidth (fmt : List (BitVec 8)) (p : Nat) (width : Int) : Option (Nat × Int) :=
  match here : read fmt p with
  | Option.none => Option.none
  | some c =>
    if isDigit c then
      -- the loop does not change `i`
      let i : Int := 0
      scanWidth fmt (p + 1) (i * 10 + c.toNat - (ascii '0').toNat)
    else some (p, width)
termination_by fmt.length + 1 - p
decreasing_by
  have bound := read_le here
  omega

/-- The second switch: the text, the position of the last character used, and the
arguments that are left. -/
def conversion (mem : Memory) (fmt : List (BitVec 8)) (p : Nat) (width : Int) (flags : Flags)
    (args : List (BitVec 32)) : Option (List (BitVec 8) × Nat × List (BitVec 32)) := do
  let c ← read fmt p
  match printer mem c width flags, args with
  | some print, arg :: args => some (print arg, p, args)
  | some _, [] => Option.none
  | Option.none, args =>
    let percent := if c = ascii '%' then [] else [ascii '%']
    -- at the NUL the position goes back, and the outer loop brings it to the NUL again
    if c = 0 then some (percent, p - 1, args) else some (percent ++ [c], p, args)

/-- The outer loop, for as many rounds as `fuel` allows. -/
def loop (mem : Memory) (fmt : List (BitVec 8)) :
    Nat → Nat → List (BitVec 32) → List (BitVec 8) → Option (List (BitVec 8) × List (BitVec 32))
  | 0, _, _, _ => Option.none
  | fuel + 1, p, args, out => do
    let c ← read fmt p
    if c = 0 then some (out, args)
    else if c = ascii '%' then do
      let (p, flags) ← scanFlags fmt p .none
      let (p, width) ← scanWidth fmt p (-1)
      let (text, p, args) ← conversion mem fmt p width flags args
      loop mem fmt fuel (p + 1) args (out ++ text)
    else loop mem fmt fuel (p + 1) args (out ++ [c])

/-- What a call leaves: the bytes of `buf`, the value it returns, and the arguments that were not taken. -/
structure Result where
  buf : List (BitVec 8)
  ret : Nat
  rest : List (BitVec 32)
  deriving DecidableEq

def vsprintf (fuel : Nat) (mem : Memory) (fmt : List (BitVec 8)) (args : List (BitVec 32)) : Option Result :=
  (loop mem fmt fuel 0 args []).map fun (out, rest) => { buf := out ++ [0], ret := out.length, rest := rest }

/-! ## The digits of a number -/

variable {mem : Memory}

/-- From a number of either sign the loop takes the digits of its absolute value, each with that sign. -/
theorem convert_signed (small : Bool) (base : Base) (s : Int) (unit : s = 1 ∨ s = -1) (n : Nat) :
    convert mem small base (s * n) = (Nat.digits base.val n).map fun (d : Nat) => digit mem small (s * d) := by
  induction n using Nat.strong_induction_on with
  | _ n ih =>
    -- division truncates, so the sign goes along with quotient and remainder
    have quotient : (s * n).tdiv base.val = s * (n / base.val : Nat) := by
      rcases unit with rfl | rfl
      · rw [Int.one_mul, Int.one_mul]
        rfl
      · rw [Int.neg_one_mul, Int.neg_one_mul, Int.neg_tdiv]
        rfl
    have remainder : (s * n).tmod base.val = s * (n % base.val : Nat) := by
      rcases unit with rfl | rfl
      · rw [Int.one_mul, Int.one_mul]
        rfl
      · rw [Int.neg_one_mul, Int.neg_one_mul, Int.neg_tmod]
        rfl
    rw [convert]
    rcases Nat.eq_zero_or_pos n with rfl | pos
    · simp
    · have nonzero : ¬ s * n = 0 := by
        rcases unit with rfl | rfl <;> omega
      rw [if_neg nonzero, remainder, quotient, ih _ (Nat.div_lt_self pos base.two_le),
        Nat.digits_def' base.two_le pos, List.map_cons]

/-- The sign of what the loop divides: the least `int` keeps its own. -/
def loopSign (num : BitVec 32) (flags : Flags) : Int :=
  if num.toInt < 0 ∧ (flags.sign = false ∨ num = BitVec.intMin 32) then -1 else 1

theorem loopSign_unit (num : BitVec 32) (flags : Flags) : loopSign num flags = 1 ∨ loopSign num flags = -1 := by
  rw [loopSign]
  split
  · exact .inr rfl
  · exact .inl rfl

theorem negative_iff (num : BitVec 32) (flags : Flags) :
    negative num flags = true ↔ flags.sign = true ∧ num.toInt < 0 := by
  rw [negative, Bool.and_eq_true, BitVec.slt_iff_toInt_lt]
  rfl

/-- What the loop divides. -/
theorem loop_number (num : BitVec 32) (flags : Flags) :
    (if negative num flags then -num else num).toInt = loopSign num flags * num.toInt.natAbs := by
  rw [loopSign]
  by_cases below : num.toInt < 0
  · have size : (num.toInt.natAbs : Int) = -num.toInt := by omega
    cases signed : flags.sign with
    | false =>
      have plain : ¬ negative num flags = true := fun negative => by
        rw [negative_iff, signed] at negative
        exact absurd negative.1 (by simp)
      rw [if_neg plain, if_pos ⟨below, .inl rfl⟩, size, Int.neg_one_mul, Int.neg_neg]
    | true =>
      rw [if_pos ((negative_iff num flags).mpr ⟨signed, below⟩)]
      -- only the least number is its own negative
      by_cases least : num = BitVec.intMin 32
      · subst least
        rfl
      · have reversed : (-num).toInt = -num.toInt := BitVec.toInt_neg_of_ne_intMin least
        rw [reversed, if_neg (by simp [least]), size, Int.one_mul]
  · have plain : ¬ negative num flags = true := fun negative => below ((negative_iff num flags).mp negative).2
    rw [if_neg plain, if_neg (fun both => below both.1), Int.one_mul]
    omega

/-- The digits in `tmp`, the last one first. -/
theorem tmp_eq (num : BitVec 32) (base : Base) (flags : Flags) :
    tmp mem num base flags = if num = 0 then [ascii '0'] else
      (Nat.digits base.val num.toInt.natAbs).map fun (d : Nat) => digit mem flags.small (loopSign num flags * d) := by
  have same : (if negative num flags then -num else num) = 0 ↔ num = 0 := by
    split
    · exact BitVec.neg_eq_zero_iff
    · exact Iff.rfl
  rw [tmp]
  by_cases zero : num = 0
  · rw [if_pos (same.mpr zero), if_pos zero]
  · rw [if_neg (mt same.mp zero), if_neg zero, loop_number, convert_signed _ _ _ (loopSign_unit num flags)]

theorem tmp_length (num : BitVec 32) (base : Base) (flags : Flags) :
    (tmp mem num base flags).length = max 1 (Nat.digits base.val num.toInt.natAbs).length := by
  rw [tmp_eq]
  by_cases zero : num = 0
  · subst zero
    simp
  · have pos : num.toInt.natAbs ≠ 0 := fun none => zero (BitVec.eq_of_toInt_eq (Int.natAbs_eq_zero.mp none))
    have some : 1 ≤ (Nat.digits base.val num.toInt.natAbs).length :=
      List.length_pos_iff.mpr (Nat.digits_ne_nil_iff_ne_zero.mpr pos)
    rw [if_neg zero, List.length_map, max_eq_right some]

end OperatorSystem.Kernel.Print
