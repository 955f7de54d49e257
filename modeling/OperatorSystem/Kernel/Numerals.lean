import OperatorSystem.Kernel.Justification

/-!
# Reading a number back

A reader skips blanks, then takes a sign, the prefix of base sixteen and
digits. What lies below the digit tables is not known, so a conversion is right
only if it is right whatever lies there. The main result `vsprintf_invertible`
says for which arguments, flags and widths the reader finds the argument again.
-/

namespace OperatorSystem.Kernel.Print

/-- The digit that a character of a table stands for. -/
def digitValue (small : Bool) (base : Base) (c : BitVec 8) : Option Nat := ((table small).take base.val).idxOf? c

/-- The number that digits spell, the highest first. -/
def readDigits (small : Bool) (base : Base) (text : List (BitVec 8)) : Option Nat :=
  if text = [] then none
  else (text.mapM (digitValue small base)).map fun digits => Nat.ofDigits base.val digits.reverse

/-- Digits behind the prefix of their base. -/
def readUnsigned (small : Bool) (base : Base) (text : List (BitVec 8)) : Option Nat :=
  let mark := basePrefix base ⟨false, false, small, false⟩
  if mark.isPrefixOf text then readDigits small base (text.drop mark.length) else none

/-- Reads a field: blanks say nothing, wherever they stand. -/
def readBack (small : Bool) (base : Base) (text : List (BitVec 8)) : Option Int :=
  match text.filter (· ≠ ascii ' ') with
  | [] => none
  | c :: rest =>
    if c = ascii '-' then (readUnsigned small base rest).map fun (n : Nat) => -(n : Int)
    else (readUnsigned small base (c :: rest)).map fun (n : Nat) => (n : Int)

/-- A field from which its argument can be read. -/
structure Invertible (mem : Memory) (letter : BitVec 8) (base : Base) (flags : Flags) (arg : BitVec 32)
    (text : List (BitVec 8)) : Prop where
  /-- `tmp` has ten places. -/
  short : (body mem letter flags arg).length ≤ 10
  digits : ∀ c ∈ body mem letter flags arg, (digitValue (letter = ascii 'x') base c).isSome = true
  leading : (body mem letter flags arg).head? = some (ascii '0') → body mem letter flags arg = [ascii '0']
  value : readBack (letter = ascii 'x') base text =
    some (if letter = ascii 'd' ∨ letter = ascii 'i' then arg.toInt else arg.toNat)

/-! ## The reader on digits of a table -/

variable (small : Bool) (base : Base)

/-- The character for a digit. -/
def digitChar (d : Nat) : BitVec 8 := (table small).getD d 0

/-- The digits of a number, the highest first. -/
def numeral (n : Nat) : List Nat := if n = 0 then [0] else (Nat.digits base.val n).reverse

theorem digitValue_char {d : Nat} (bound : d < base.val) : digitValue small base (digitChar small d) = some d := by
  have ten : ∀ small, ∀ d < 10, digitValue small .ten (digitChar small d) = some d := by decide
  have sixteen : ∀ small, ∀ d < 16, digitValue small .sixteen (digitChar small d) = some d := by decide
  cases base with
  | ten => exact ten small d bound
  | sixteen => exact sixteen small d bound

theorem digitChar_ne {d : Nat} (bound : d < base.val) :
    digitChar small d ≠ ascii ' ' ∧ digitChar small d ≠ ascii '-' := by
  have all : ∀ small, ∀ d < 16, digitChar small d ≠ ascii ' ' ∧ digitChar small d ≠ ascii '-' := by decide
  refine all small d (lt_of_lt_of_le bound ?_)
  cases base <;> decide

theorem numeral_lt (n : Nat) : ∀ d ∈ numeral base n, d < base.val := by
  intro d member
  rw [numeral] at member
  split at member
  · obtain rfl := List.mem_singleton.mp member
    exact lt_of_lt_of_le (by decide) base.two_le
  · exact Nat.digits_lt_base base.two_le (List.mem_reverse.mp member)

theorem ofDigits_numeral (n : Nat) : Nat.ofDigits base.val (numeral base n).reverse = n := by
  rw [numeral]
  split
  next zero => rw [zero]; rfl
  next => rw [List.reverse_reverse, Nat.ofDigits_digits]

theorem readDigits_chars (digits : List Nat) (bound : ∀ d ∈ digits, d < base.val) (some' : digits ≠ []) :
    readDigits small base (digits.map (digitChar small)) = some (Nat.ofDigits base.val digits.reverse) := by
  have each : ∀ digits : List Nat, (∀ d ∈ digits, d < base.val) →
      (digits.map (digitChar small)).mapM (digitValue small base) = some digits := by
    intro digits bound
    induction digits with
    | nil => rfl
    | cons d digits ih =>
      obtain ⟨first, others⟩ := List.forall_mem_cons.mp bound
      rw [List.map_cons, List.mapM_cons, digitValue_char small base first, ih others]
      rfl
  rw [readDigits, if_neg (by simpa using some'), each digits bound]
  rfl

/-- Zeros in front of a numeral change nothing; each zero behind it multiplies by the base. -/
theorem ofDigits_padded (n a b : Nat) :
    Nat.ofDigits base.val (List.replicate a 0 ++ numeral base n ++ List.replicate b 0).reverse = n * base.val ^ b := by
  have zeros : ∀ k, Nat.ofDigits base.val (List.replicate k 0) = 0 := by
    intro k
    induction k with
    | zero => rfl
    | succ k ih => rw [List.replicate_succ, Nat.ofDigits_cons, ih, Nat.mul_zero]
  simp only [List.reverse_append, List.reverse_replicate, Nat.ofDigits_append, ofDigits_numeral, zeros,
    List.length_replicate, Nat.mul_zero, Nat.add_zero, Nat.zero_add]
  rw [Nat.mul_comm]

theorem basePrefix_small {flags : Flags} (same : flags.small = small) :
    basePrefix base flags = basePrefix base ⟨false, false, small, false⟩ := by
  subst same
  cases base <;> rfl

theorem readUnsigned_prefix (text : List (BitVec 8)) :
    readUnsigned small base (basePrefix base ⟨false, false, small, false⟩ ++ text) = readDigits small base text := by
  rw [readUnsigned, if_pos (List.isPrefixOf_iff_prefix.mpr (List.prefix_append ..)), List.drop_left]

/-- The reader on a sign, a prefix and digits, among blanks. -/
theorem readBack_text {flags : Flags} (same : flags.small = small) (num : BitVec 32) {text : List (BitVec 8)}
    {digits : List Nat} (some' : digits ≠ []) (bound : ∀ d ∈ digits, d < base.val)
    (split : text.filter (· ≠ ascii ' ') =
      signText num flags ++ basePrefix base flags ++ digits.map (digitChar small)) :
    readBack small base text =
      some (if negative num flags then -((Nat.ofDigits base.val digits.reverse : Nat) : Int)
        else ((Nat.ofDigits base.val digits.reverse : Nat) : Int)) := by
  have unsigned : readUnsigned small base (basePrefix base flags ++ digits.map (digitChar small)) =
      some (Nat.ofDigits base.val digits.reverse) := by
    rw [basePrefix_small small base same, readUnsigned_prefix, readDigits_chars small base digits bound some']
  rw [readBack, split, List.append_assoc]
  cases sign : negative num flags with
  | true =>
    simp only [signText, sign, if_true, List.singleton_append, unsigned, Option.map_some]
  | false =>
    -- the first character belongs to the prefix or to the digits, so it is no sign
    obtain ⟨c, rest, front, plain⟩ : ∃ c rest, basePrefix base flags ++ digits.map (digitChar small) = c :: rest ∧
        c ≠ ascii '-' := by
      cases base with
      | sixteen => exact ⟨_, _, rfl, by decide⟩
      | ten =>
        cases digits with
        | nil => exact absurd rfl some'
        | cons d digits => exact ⟨_, _, rfl, (digitChar_ne small .ten (bound d List.mem_cons_self)).2⟩
    rw [front] at unsigned
    simp only [signText, sign, front, if_neg plain, unsigned, Option.map_some, reduceCtorEq, if_false,
      List.nil_append]

/-! ## The field of a number -/

section Number

variable (mem : Memory) {letter : BitVec 8} {base : Base} {flags : Flags} (arg : BitVec 32)

theorem flagsFor_small (letter : BitVec 8) (plain : flags.small = false) :
    (flagsFor letter flags).small = decide (letter = ascii 'x') := by
  rw [flagsFor]
  split_ifs with x d
  · simp [x]
  · simpa [x] using plain
  · simpa [x] using plain

/-- The letters and arguments for which the loop divides no negative number. -/
def Convertible (letter : BitVec 8) (arg : BitVec 32) : Prop :=
  if letter = ascii 'd' ∨ letter = ascii 'i' then arg ≠ BitVec.intMin 32 else arg.toNat < 2 ^ 31

theorem loopSign_iff (letter : BitVec 8) (plain : flags.sign = false) :
    loopSign arg (flagsFor letter flags) = 1 ↔ Convertible letter arg := by
  have signed := flagsFor_sign letter plain
  have size : arg.toInt < 0 ↔ ¬ arg.toNat < 2 ^ 31 := by
    rw [BitVec.toInt_neg_iff]
    omega
  rw [loopSign, Convertible]
  -- the loop gets a negative number without a sign flag, or if it is the least one
  split_ifs with backwards d d
  · rcases backwards with ⟨_, unsigned | least⟩
    · exact absurd (signed.mpr d) (by simp [unsigned])
    · simp [least]
  · exact iff_of_false (by decide) (size.mp backwards.1)
  · simp only [true_iff]
    rintro rfl
    exact backwards ⟨by decide, .inr rfl⟩
  · simp only [true_iff]
    by_contra large
    have unsigned : (flagsFor letter flags).sign = false := by
      cases sign : (flagsFor letter flags).sign with
      | false => rfl
      | true => exact absurd (signed.mp sign) d
    exact backwards ⟨size.mpr large, .inl unsigned⟩

theorem body_numeral (own : baseOf letter = some base) (plain : flags.small = false)
    (forward : loopSign arg (flagsFor letter flags) = 1) :
    body mem letter flags arg = (numeral base arg.toInt.natAbs).map (digitChar (letter = ascii 'x')) := by
  have forwards : ∀ d : Nat, digit mem (decide (letter = ascii 'x')) (1 * d) = digitChar (letter = ascii 'x') d := by
    intro d
    rw [Int.one_mul, digit, if_neg (by omega)]
    rfl
  simp only [body, own, tmp_eq, flagsFor_small letter plain, forward, forwards, numeral]
  by_cases zero : arg = 0
  · subst zero
    cases decide (letter = ascii 'x') <;> rfl
  · have nonzero : ¬ arg.toInt.natAbs = 0 := fun none => zero (BitVec.eq_of_toInt_eq (Int.natAbs_eq_zero.mp none))
    rw [if_neg zero, if_neg nonzero, List.map_reverse]

/-- A loop over a negative number reads below the tables. -/
theorem body_below (own : baseOf letter = some base) (backward : loopSign arg (flagsFor letter flags) = -1) :
    ∃ d : Nat, d ≠ 0 ∧ mem.below (flagsFor letter flags).small d ∈ body mem letter flags arg := by
  have nonzero : arg ≠ 0 := by
    rintro rfl
    rw [loopSign, if_neg (by simp)] at backward
    cases backward
  have size : arg.toInt.natAbs ≠ 0 := fun none => nonzero (BitVec.eq_of_toInt_eq (Int.natAbs_eq_zero.mp none))
  have digits : Nat.digits base.val arg.toInt.natAbs ≠ [] := Nat.digits_ne_nil_iff_ne_zero.mpr size
  have top := Nat.getLast_digit_ne_zero base.val size
  refine ⟨_, top, ?_⟩
  simp only [body, own, tmp_eq, if_neg nonzero, backward, List.mem_reverse, List.mem_map]
  refine ⟨_, List.getLast_mem digits, ?_⟩
  rw [digit, if_pos (by omega)]
  congr 1
  omega

theorem head_clean (base : Base) (flags : Flags) :
    ∀ c ∈ signText arg flags ++ basePrefix base flags, c ≠ ascii ' ' := by
  intro c member
  rcases List.mem_append.mp member with sign | mark
  · rw [signText] at sign
    split at sign
    · obtain rfl := List.mem_singleton.mp sign
      decide
    · cases sign
  · cases base with
    | ten => cases mark
    | sixteen =>
      rw [basePrefix] at mark
      split at mark <;> rcases List.mem_pair.mp mark with rfl | rfl <;> decide

theorem chars_clean (small : Bool) {digits : List Nat} (bound : ∀ d ∈ digits, d < base.val) :
    ∀ c ∈ digits.map (digitChar small), c ≠ ascii ' ' := by
  intro c member
  obtain ⟨d, within, rfl⟩ := List.mem_map.mp member
  exact (digitChar_ne small base (bound d within)).1

/-- Of a run of padding only zeros are left without the blanks. -/
theorem run_clean (own : baseOf letter = some base) (flags : Flags) (small : Bool) (k : Nat) :
    (List.replicate k (fill letter flags)).filter (· ≠ ascii ' ') =
      (List.replicate (if flags.zeropad then k else 0) 0).map (digitChar small) := by
  have kind : zeros letter flags = flags.zeropad := by
    rw [zeros, own]
    rfl
  rw [fill, kind]
  cases flags.zeropad with
  | false => simp
  | true =>
    have zero : digitChar small 0 = ascii '0' := by
      cases small <;> rfl
    have other : ascii '0' ≠ ascii ' ' := by decide
    simp [zero, other]

/-- What is read back from the field of a number: each zero behind it multiplies by the base. -/
theorem readBack_field (own : baseOf letter = some base) (plain : flags.sign = false ∧ flags.small = false)
    (forward : loopSign arg (flagsFor letter flags) = 1) (width : Int) :
    let behind := if flags.left ∧ flags.zeropad then (width - numeralLength letter base arg).toNat else 0
    readBack (letter = ascii 'x') base (field mem letter width flags arg) =
      some (if negative arg (flagsFor letter flags)
        then -((arg.toInt.natAbs * base.val ^ behind : Nat) : Int)
        else ((arg.toInt.natAbs * base.val ^ behind : Nat) : Int)) := by
  dsimp only
  have size : (head letter flags arg).length + (body mem letter flags arg).length = numeralLength letter base arg := by
    rw [field_natural mem letter arg plain.1, natural, own]
  -- the field is blanks, sign and prefix, and the numeral
  have front : head letter flags arg =
      signText arg (flagsFor letter flags) ++ basePrefix base (flagsFor letter flags) := by
    rw [head, own]
  have back := body_numeral mem arg own plain.2 forward
  -- every digit is below the base, also the zeros that pad
  have bound := numeral_lt base arg.toInt.natAbs
  have zero : ∀ k, ∀ d ∈ List.replicate k 0, d < base.val := by
    intro k d member
    rw [(List.mem_replicate.mp member).2]
    exact lt_of_lt_of_le (by decide) base.two_le
  have some' : numeral base arg.toInt.natAbs ≠ [] := by
    intro none
    have length := congrArg List.length (back.trans (congrArg _ none))
    have pos : 0 < (body mem letter flags arg).length := by
      simp only [body, own, List.length_reverse, tmp_length]
      omega
    simp only [List.map_nil, List.length_nil] at length
    omega
  have keep : ∀ text : List (BitVec 8), (∀ c ∈ text, c ≠ ascii ' ') → text.filter (· ≠ ascii ' ') = text :=
    fun text clean => List.filter_eq_self.mpr fun c member => decide_eq_true (clean c member)
  have small := flagsFor_small letter plain.2
  -- blanks apart, the padding is zeros before the numeral, or behind it where both flags are set
  have parts : (field mem letter width flags arg).filter (· ≠ ascii ' ') =
      signText arg (flagsFor letter flags) ++ basePrefix base (flagsFor letter flags) ++
        (List.replicate (if flags.left then 0 else if flags.zeropad then
          (width - numeralLength letter base arg).toNat else 0) 0 ++
          numeral base arg.toInt.natAbs ++
          List.replicate (if flags.left ∧ flags.zeropad then (width - numeralLength letter base arg).toNat
            else 0) 0).map
          (digitChar (letter = ascii 'x')) := by
    rw [field, size, front, back]
    have run := run_clean own flags (letter = ascii 'x') (width - numeralLength letter base arg).toNat
    have clean := keep _ (head_clean arg base (flagsFor letter flags))
    have digits := keep _ (chars_clean (letter = ascii 'x') bound)
    cases flags.left with
    | true =>
      rw [if_pos rfl, List.filter_append, List.filter_append, clean, digits, run]
      simp
    | false =>
      rw [if_neg (by simp), List.filter_append, List.filter_append, clean, digits, run]
      simp
  have read := readBack_text (decide (letter = ascii 'x')) base small arg (by simp [some']) ?_ parts
  · rw [read, ofDigits_padded]
  · intro d member
    rcases List.mem_append.mp member with member | member
    · exact (List.mem_append.mp member).elim (zero _ d) (bound d)
    · exact zero _ d member

/-- The value that the reader should find, by size and sign. -/
theorem expected_value (plain : flags.sign = false) (can : Convertible letter arg) :
    (if letter = ascii 'd' ∨ letter = ascii 'i' then arg.toInt else (arg.toNat : Int)) =
      if negative arg (flagsFor letter flags) then -(arg.toInt.natAbs : Int) else (arg.toInt.natAbs : Int) := by
  have when := (negative_iff arg (flagsFor letter flags)).trans (and_congr_left' (flagsFor_sign letter plain))
  rw [Convertible] at can
  by_cases d : letter = ascii 'd' ∨ letter = ascii 'i'
  · rw [if_pos d]
    by_cases below : arg.toInt < 0
    · rw [if_pos (when.mpr ⟨d, below⟩)]
      omega
    · rw [if_neg (fun negative => below (when.mp negative).2)]
      omega
  · rw [if_neg d] at can ⊢
    have same : arg.toInt = arg.toNat := BitVec.toInt_eq_toNat_of_lt (by omega)
    rw [if_neg (fun negative => d (when.mp negative).1), same]
    rfl

theorem body_short (own : baseOf letter = some base) : (body mem letter flags arg).length ≤ 10 := by
  have size : arg.toInt.natAbs < base.val ^ 10 := by
    have lower := BitVec.le_toInt arg
    have upper := BitVec.toInt_lt (x := arg)
    have ten : 10 ^ 10 ≤ base.val ^ 10 := Nat.pow_le_pow_left (by cases base <;> decide) 10
    omega
  simp only [body, own, List.length_reverse, tmp_length]
  exact max_le (by decide) ((Nat.digits_length_le_iff base.two_le _).mpr size)

theorem numeral_head (n : Nat) (zero : (numeral base n).head? = some 0) : numeral base n = [0] := by
  rw [numeral] at zero ⊢
  split at zero
  next none => rw [if_pos none]
  next some' =>
    have digits : Nat.digits base.val n ≠ [] := Nat.digits_ne_nil_iff_ne_zero.mpr some'
    have top := Nat.getLast_digit_ne_zero base.val some'
    rw [List.head?_reverse, List.getLast?_eq_some_getLast digits] at zero
    exact absurd (Option.some.inj zero) top

/-- The field of a number can be read back, whatever lies below the tables, exactly if the loop
divides no negative number and no zeros stand behind a number other than zero. -/
theorem invertible_iff (own : baseOf letter = some base) (plain : flags.sign = false ∧ flags.small = false)
    (width : Int) :
    (∀ mem, Invertible mem letter base flags arg (field mem letter width flags arg)) ↔
      Convertible letter arg ∧
        (arg = 0 ∨ ¬ (flags.left = true ∧ flags.zeropad = true ∧ (numeralLength letter base arg : Int) < width)) := by
  have apart : ∀ small base, digitValue small base 0 = none := by
    intro small base
    cases small <;> cases base <;> rfl
  constructor
  · intro all
    have forward : loopSign arg (flagsFor letter flags) = 1 := by
      refine (loopSign_unit arg _).resolve_right fun backward => ?_
      obtain ⟨d, _, member⟩ := body_below ⟨fun _ _ => 0, fun _ => []⟩ arg own backward
      have valued := (all ⟨fun _ _ => 0, fun _ => []⟩).digits _ member
      rw [apart] at valued
      cases valued
    have can := (loopSign_iff arg letter plain.1).mp forward
    refine ⟨can, or_iff_not_imp_left.mpr fun nonzero padded => ?_⟩
    obtain ⟨left, zeropad, room⟩ := padded
    have value := (all ⟨fun _ _ => 0, fun _ => []⟩).value
    rw [readBack_field _ arg own plain forward, expected_value arg plain.1 can] at value
    simp only [left, zeropad, and_self, if_true] at value
    have same : arg.toInt.natAbs * base.val ^ (width - numeralLength letter base arg).toNat = arg.toInt.natAbs := by
      split at value <;> simp only [Option.some.injEq] at value <;> omega
    have pos : 0 < arg.toInt.natAbs :=
      Int.natAbs_pos.mpr fun none => nonzero (BitVec.eq_of_toInt_eq none)
    have large : 1 < base.val ^ (width - numeralLength letter base arg).toNat :=
      Nat.one_lt_pow (by omega) base.two_le
    have grows := Nat.mul_lt_mul_of_pos_left large pos
    omega
  · rintro ⟨can, padding⟩ mem
    have forward := (loopSign_iff arg letter plain.1).mpr can
    have back := body_numeral mem arg own plain.2 forward
    have bound := numeral_lt base arg.toInt.natAbs
    refine ⟨body_short mem arg own, ?_, ?_, ?_⟩
    · rw [back]
      intro c member
      obtain ⟨d, within, rfl⟩ := List.mem_map.mp member
      rw [digitValue_char _ _ (bound d within)]
      rfl
    · intro zero
      rw [back] at zero ⊢
      have first : (numeral base arg.toInt.natAbs).head? = some 0 := by
        rw [List.head?_map] at zero
        obtain ⟨d, front, char⟩ := Option.map_eq_some_iff.mp zero
        -- a character of the tables stands for one digit only
        have same : digitChar (letter = ascii 'x') d = digitChar (letter = ascii 'x') 0 := by
          rw [char]
          cases decide (letter = ascii 'x') <;> rfl
        have valued := digitValue_char (letter = ascii 'x') base (bound d (List.mem_of_mem_head? front))
        rw [same, digitValue_char _ base (lt_of_lt_of_le (by decide) base.two_le)] at valued
        rw [front, Option.some.inj valued]
      rw [numeral_head _ first]
      cases decide (letter = ascii 'x') <;> rfl
    · rw [readBack_field _ arg own plain forward, expected_value arg plain.1 can]
      have same : arg.toInt.natAbs * base.val ^ (if flags.left = true ∧ flags.zeropad = true then
          (width - numeralLength letter base arg).toNat else 0) = arg.toInt.natAbs := by
        rcases padding with zero | unpadded
        · subst zero
          exact Nat.zero_mul _
        · split
          next zeros =>
            have none : (width - numeralLength letter base arg).toNat = 0 := by
              have narrow : ¬ (numeralLength letter base arg : Int) < width :=
                fun room => unpadded ⟨zeros.1, zeros.2, room⟩
              omega
            rw [none, pow_zero, Nat.mul_one]
          next => exact Nat.mul_one _
      rw [same]

end Number

section Calls

variable {letter : BitVec 8} {base : Base} {flags width : List (BitVec 8)}

theorem baseOf_letters (own : baseOf letter = some base) : letter ∈ letters := by
  have member : (baseOf letter).isSome = true → letter ∈ letters := by
    rw [baseOf]
    split_ifs with six ten
    · rcases six with rfl | rfl <;> exact fun _ => by decide
    · rcases ten with rfl | rfl | rfl <;> exact fun _ => by decide
    · exact fun none => absurd none (by simp)
  exact member (by rw [own]; rfl)

theorem lt_widthOf (between : Between flags width) (n : Nat) :
    (n : Int) < widthOf width ↔ n < value width % 10 := by
  by_cases wide : width = []
  · subst wide
    exact iff_of_false (by simp [widthOf]) (Nat.not_lt_zero n)
  · rw [widthOf_eq between wide]
    exact Nat.cast_lt

/-- A conversion on its own prints its field. -/
theorem vsprintf_conversion (mem : Memory) (own : baseOf letter = some base) (nonzero : letter ≠ 0)
    (between : Between flags width) (ends : Ends width letter) (arg : BitVec 32) (fuel : Nat)
    (more : (Piece.conversion flags width letter).spelling.length < fuel) :
    let text := field mem letter (widthOf width) (flagsOf flags) arg
    vsprintf fuel mem (Piece.conversion flags width letter).spelling [arg] =
      some { buf := text ++ [0], ret := text.length, rest := [] } := by
  have takes : (Piece.conversion flags width letter).takes = true := decide_eq_true (baseOf_letters own)
  have spelled : Format.spelling ⟨[.conversion flags width letter], none⟩ =
      (Piece.conversion flags width letter).spelling := by
    simp [Format.spelling, Format.tail]
  have arity : Format.arity ⟨[.conversion flags width letter], none⟩ = 1 := by
    rw [Format.arity, List.countP_cons, if_pos takes]
    rfl
  have proper : Format.Proper ⟨[.conversion flags width letter], none⟩ :=
    ⟨by simpa using ⟨nonzero, between, ends⟩, by simp⟩
  have called := vsprintf_format mem [arg] _ proper (by rw [arity]; rfl) (by rwa [spelled])
  rw [spelled, arity] at called
  simpa [texts, Format.remainder, written_field mem (baseOf_letters own)] using called

/-- To read back what a call prints is to read back the field. -/
theorem call_invertible_iff (own : baseOf letter = some base) (between : Between flags width) (arg : BitVec 32) :
    (∀ mem, ∃ text, (∀ fuel, (Piece.conversion flags width letter).spelling.length < fuel →
        vsprintf fuel mem (Piece.conversion flags width letter).spelling [arg] =
          some { buf := text ++ [0], ret := text.length, rest := [] }) ∧
      Invertible mem letter base (flagsOf flags) arg text) ↔
      ∀ mem, Invertible mem letter base (flagsOf flags) arg (field mem letter (widthOf width) (flagsOf flags) arg) := by
  have letter' : letter ≠ 0 ∧ isDigit letter = false ∧ letter ≠ ascii '-' := by
    have all : ∀ letter ∈ letters, letter ≠ 0 ∧ isDigit letter = false ∧ letter ≠ ascii '-' := by decide
    exact all letter (baseOf_letters own)
  have calls := fun mem => vsprintf_conversion mem own letter'.1 between
    ⟨letter'.2.1, fun _ => letter'.2.2⟩ arg
  constructor
  · intro all mem
    obtain ⟨text, call, invertible⟩ := all mem
    -- the call has one result
    have same := (calls mem _ (Nat.lt_succ_self _)).symm.trans (call _ (Nat.lt_succ_self _))
    have field : field mem letter (widthOf width) (flagsOf flags) arg ++ [0] = text ++ [0] :=
      congrArg Result.buf (Option.some.inj same)
    rwa [List.append_cancel_right field]
  · exact fun all mem => ⟨_, calls mem, all mem⟩

/-- Number formatting can be undone exactly if `%d` and `%i` do not get the least `int`, the
others get no number from 2³¹ on, and no zeros stand on the right of a number other than zero. -/
theorem vsprintf_invertible (own : baseOf letter = some base) (between : Between flags width) (arg : BitVec 32) :
    (∀ mem, ∃ text, (∀ fuel, (Piece.conversion flags width letter).spelling.length < fuel →
        vsprintf fuel mem (Piece.conversion flags width letter).spelling [arg] =
          some { buf := text ++ [0], ret := text.length, rest := [] }) ∧
      Invertible mem letter base (flagsOf flags) arg text) ↔
      (if letter = ascii 'd' ∨ letter = ascii 'i' then arg ≠ BitVec.intMin 32 else arg.toNat < 2 ^ 31) ∧
        (arg = 0 ∨ ¬ ((flagsOf flags).left = true ∧ (flagsOf flags).zeropad = true ∧
          numeralLength letter base arg < value width % 10)) := by
  have fields := invertible_iff arg own (flagsOf_plain flags) (widthOf width)
  rw [lt_widthOf between] at fields
  exact (call_invertible_iff own between arg).trans fields

/-- `%u` with 2³¹: the loop divides a negative number. -/
theorem not_invertible : ¬ ∀ mem, ∃ text,
    (∀ fuel, (Piece.conversion [] [] (ascii 'u')).spelling.length < fuel →
      vsprintf fuel mem (Piece.conversion [] [] (ascii 'u')).spelling [0x80000000] =
        some { buf := text ++ [0], ret := text.length, rest := [] }) ∧
    Invertible mem (ascii 'u') .ten (flagsOf []) 0x80000000 text := by
  intro all
  have own : baseOf (ascii 'u') = some .ten := rfl
  have between : Between [] [] := ⟨by simp, by simp, by simp⟩
  have fields := (call_invertible_iff own between 0x80000000).mp all
  obtain ⟨can, _⟩ := (invertible_iff 0x80000000 own (flagsOf_plain []) (widthOf [])).mp fields
  exact absurd can (by rw [Convertible]; decide)

/-- `%-5d` with -42. -/
theorem vsprintf_invertible_left :
    (∀ mem, ∃ text, (∀ fuel, (Piece.conversion [ascii '-'] [ascii '5'] (ascii 'd')).spelling.length < fuel →
        vsprintf fuel mem (Piece.conversion [ascii '-'] [ascii '5'] (ascii 'd')).spelling [-42] =
          some { buf := text ++ [0], ret := text.length, rest := [] }) ∧
      Invertible mem (ascii 'd') .ten (flagsOf [ascii '-']) (-42) text) ↔
      (if ascii 'd' = ascii 'd' ∨ ascii 'd' = ascii 'i' then (-42 : BitVec 32) ≠ BitVec.intMin 32
        else (-42 : BitVec 32).toNat < 2 ^ 31) ∧
        ((-42 : BitVec 32) = 0 ∨ ¬ ((flagsOf [ascii '-']).left = true ∧ (flagsOf [ascii '-']).zeropad = true ∧
          numeralLength (ascii 'd') .ten (-42) < value [ascii '5'] % 10)) :=
  vsprintf_invertible rfl ⟨by decide, by decide, by decide⟩ (-42)

end Calls

end OperatorSystem.Kernel.Print
