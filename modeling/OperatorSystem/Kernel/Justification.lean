import OperatorSystem.Kernel.Scanning

/-!
# Field width and justification

Four loops pad a field. Each is the number of its rounds, so the text of a
conversion is a head (sign and prefix), a body and one run of padding, whose
length comes from the last digit of the width. The main result
`justified_iff` says when that is the field the width asks for.
-/

namespace OperatorSystem.Kernel.Print

/-! ## The padding loops -/

theorem pad_eq (c : BitVec 8) (len width : Int) :
    pad c len width = (List.replicate (width - len).toNat c, min width len - 1) := by
  induction rounds : (width - len).toNat generalizing width with
  | zero =>
    have done : ¬ len < width := by omega
    rw [pad, if_neg done, min_eq_left (Int.not_lt.mp done)]
    rfl
  | succ k ih =>
    have more : len < width := by omega
    rw [pad, if_pos more, ih (width - 1) (by omega), min_eq_right (by omega : len ≤ width - 1),
      min_eq_right more.le]
    rfl

theorem prePad_eq (c : BitVec 8) (width : Int) :
    prePad c width = (List.replicate (width - 1).toNat c, min (width - 1) 0) := by
  induction rounds : (width - 1).toNat generalizing width with
  | zero =>
    have done : ¬ 0 < width - 1 := by omega
    rw [prePad, if_neg done, min_eq_left (Int.not_lt.mp done)]
    rfl
  | succ k ih =>
    have more : 0 < width - 1 := by omega
    rw [prePad, if_pos more, ih (width - 1) (by omega), min_eq_right (by omega : (0 : Int) ≤ width - 1 - 1),
      min_eq_right more.le]
    rfl

/-! ## Head, body and padding -/

/-- The bits that the letter adds to the flags. -/
def flagsFor (letter : BitVec 8) (flags : Flags) : Flags :=
  if letter = ascii 'x' then { flags with small := true }
  else if letter = ascii 'd' ∨ letter = ascii 'i' then { flags with sign := true }
  else flags

/-- The base of a letter that converts a number. -/
def baseOf (letter : BitVec 8) : Option Base :=
  if letter = ascii 'x' ∨ letter = ascii 'X' then some .sixteen
  else if letter = ascii 'd' ∨ letter = ascii 'i' ∨ letter = ascii 'u' then some .ten
  else none

/-- The sign and the prefix. -/
def head (letter : BitVec 8) (flags : Flags) (arg : BitVec 32) : List (BitVec 8) :=
  match baseOf letter with
  | some base => signText arg (flagsFor letter flags) ++ basePrefix base (flagsFor letter flags)
  | none => []

/-- The converted argument without sign and prefix. -/
def body (mem : Memory) (letter : BitVec 8) (flags : Flags) (arg : BitVec 32) : List (BitVec 8) :=
  match baseOf letter with
  | some base => (tmp mem arg base (flagsFor letter flags)).reverse
  | none => if letter = ascii 'c' then [arg.setWidth 8] else stringAt mem arg

/-- Whether the padding is zeros: only numbers have them. -/
def zeros (letter : BitVec 8) (flags : Flags) : Bool := (baseOf letter).isSome && flags.zeropad

def fill (letter : BitVec 8) (flags : Flags) : BitVec 8 := if zeros letter flags then ascii '0' else ascii ' '

/-- A field with its padding behind the head or behind the body. -/
def field (mem : Memory) (letter : BitVec 8) (width : Int) (flags : Flags) (arg : BitVec 32) : List (BitVec 8) :=
  let head := head letter flags arg
  let body := body mem letter flags arg
  let run := List.replicate (width - (head.length + body.length : Nat)).toNat (fill letter flags)
  if flags.left then head ++ body ++ run else head ++ run ++ body

theorem character_field (width : Int) (flags : Flags) (arg : BitVec 32) :
    character width flags arg =
      let run := List.replicate (width - 1).toNat (ascii ' ')
      if flags.left then [arg.setWidth 8] ++ run else run ++ [arg.setWidth 8] := by
  rw [character]
  cases flags.left with
  | true => simp [prePad_eq]
  | false =>
    -- the loop on the right finds a width that the one on the left has used up
    have done : (min (width - 1) 0 - 1).toNat = 0 := by omega
    simp [prePad_eq, done]

theorem string_field (mem : Memory) (width : Int) (flags : Flags) (arg : BitVec 32) :
    string mem width flags arg =
      let s := stringAt mem arg
      let run := List.replicate (width - s.length).toNat (ascii ' ')
      if flags.left then s ++ run else run ++ s := by
  rw [string]
  cases flags.left with
  | true => simp [pad_eq]
  | false =>
    have done : (min width (stringAt mem arg).length - 1 - (stringAt mem arg).length).toNat = 0 := by omega
    simp [pad_eq, done]

theorem number_field (mem : Memory) (num : BitVec 32) (base : Base) (width : Int) (flags : Flags) :
    number mem num base width flags =
      let head := signText num flags ++ basePrefix base flags
      let body := (tmp mem num base flags).reverse
      let run := List.replicate (width - (head.length + body.length : Nat)).toNat
        (if flags.zeropad then ascii '0' else ascii ' ')
      if flags.left then head ++ body ++ run else head ++ run ++ body := by
  have rest : ∀ w : Int, (if base = .sixteen then (if negative num flags then w - 1 else w) - 2
      else if negative num flags then w - 1 else w) - (tmp mem num base flags).length =
      w - ((signText num flags ++ basePrefix base flags).length + (tmp mem num base flags).reverse.length : Nat) := by
    intro w
    rw [signText]
    cases base <;> cases negative num flags <;> simp [basePrefix] <;> omega
  rw [number]
  dsimp only
  rw [rest]
  -- the padding is either in front of the text, between head and body, or behind them
  cases flags.left with
  | true => simp [pad_eq]
  | false =>
    have done : ∀ w : Int, (min w 0 - 1).toNat = 0 := by omega
    simp [pad_eq, done]

/-- What a conversion prints is a field. -/
theorem printer_field (mem : Memory) {letter : BitVec 8} (own : letter ∈ letters) (width : Int) (flags : Flags) :
    ∃ print, printer mem letter width flags = some print ∧ ∀ arg, print arg = field mem letter width flags arg := by
  simp only [letters, List.mem_cons, List.not_mem_nil, or_false] at own
  rcases own with rfl | rfl | rfl | rfl | rfl | rfl | rfl
  · refine ⟨_, rfl, fun arg => ?_⟩
    have plain : baseOf (ascii 'c') = none := rfl
    simp [character_field, field, head, body, fill, zeros, plain]
  · refine ⟨_, rfl, fun arg => ?_⟩
    have plain : baseOf (ascii 's') = none := rfl
    have other : ascii 's' ≠ ascii 'c' := by decide
    simp [string_field, field, head, body, fill, zeros, plain, other]
  all_goals exact ⟨_, rfl, fun arg => by rw [number_field]; rfl⟩

theorem written_field (mem : Memory) {letter : BitVec 8} (own : letter ∈ letters) (flags width : List (BitVec 8))
    (arg : BitVec 32) (args : List (BitVec 32)) :
    written mem (arg :: args) (.conversion flags width letter) =
      field mem letter (widthOf width) (flagsOf flags) arg := by
  obtain ⟨print, chosen, prints⟩ := printer_field mem own (widthOf width) (flagsOf flags)
  simp only [written, chosen]
  exact prints arg

/-! ## The width that is asked for -/

/-- The decimal number that the digits of a width spell. -/
def value (width : List (BitVec 8)) : Nat := width.foldl (fun n c => 10 * n + (c.toNat - (ascii '0').toNat)) 0

theorem isDigit_iff (c : BitVec 8) : isDigit c = true ↔ 48 ≤ c.toNat ∧ c.toNat ≤ 57 := by
  rw [isDigit, Bool.and_eq_true, decide_eq_true_iff, decide_eq_true_iff]
  exact Iff.rfl

/-- The scanner keeps the last digit of the width. -/
theorem widthOf_eq {flags width : List (BitVec 8)} (between : Between flags width) (wide : width ≠ []) :
    widthOf width = (value width % 10 : Nat) := by
  obtain ⟨init, last, rfl⟩ := List.eq_nil_or_concat width |>.resolve_left wide
  obtain ⟨lower, upper⟩ := (isDigit_iff last).mp (between.digits last (by simp))
  have zero : (ascii '0').toNat = 48 := rfl
  simp only [widthOf, value, List.concat_eq_append, List.getLast?_concat, List.foldl_append, List.foldl_cons,
    List.foldl_nil, zero]
  omega

/-- The length of a converted number, with sign and prefix. -/
def numeralLength (letter : BitVec 8) (base : Base) (arg : BitVec 32) : Nat :=
  (if (letter = ascii 'd' ∨ letter = ascii 'i') ∧ arg.toInt < 0 then 1 else 0) +
    (if base = .sixteen then 2 else 0) + max 1 (Nat.digits base.val arg.toInt.natAbs).length

/-- The length of the converted text, with sign and prefix. -/
def natural (mem : Memory) (letter : BitVec 8) (arg : BitVec 32) : Nat :=
  match baseOf letter with
  | some base => numeralLength letter base arg
  | none => if letter = ascii 'c' then 1 else (stringAt mem arg).length

/-- Whether a sign or a prefix stands in front of the digits. -/
def Headed (letter : BitVec 8) (arg : BitVec 32) : Prop :=
  letter = ascii 'x' ∨ letter = ascii 'X' ∨ (letter = ascii 'd' ∨ letter = ascii 'i') ∧ arg.toInt < 0

theorem flagsOf_plain (flags : List (BitVec 8)) : (flagsOf flags).sign = false ∧ (flagsOf flags).small = false := by
  have keeps : ∀ start : Flags, start.sign = false ∧ start.small = false →
      let after := flags.foldl (fun flags c =>
        if c = ascii '-' then { flags with left := true } else { flags with zeropad := true }) start
      after.sign = false ∧ after.small = false := by
    induction flags with
    | nil => exact fun _ plain => plain
    | cons c flags ih =>
      intro start plain
      rw [List.foldl_cons]
      refine ih _ ?_
      split <;> exact plain
  exact keeps .none ⟨rfl, rfl⟩

section Fields

variable (mem : Memory) (letter : BitVec 8) {flags : Flags} (arg : BitVec 32)

theorem flagsFor_sign (plain : flags.sign = false) :
    (flagsFor letter flags).sign = true ↔ letter = ascii 'd' ∨ letter = ascii 'i' := by
  rw [flagsFor]
  split_ifs with x d
  · subst x
    simp only [plain]
    decide
  · simpa using d
  · simp [plain, not_or.mp d]

theorem signText_length (plain : flags.sign = false) :
    (signText arg (flagsFor letter flags)).length =
      if (letter = ascii 'd' ∨ letter = ascii 'i') ∧ arg.toInt < 0 then 1 else 0 := by
  have when : negative arg (flagsFor letter flags) = true ↔
      (letter = ascii 'd' ∨ letter = ascii 'i') ∧ arg.toInt < 0 := by
    rw [negative_iff, flagsFor_sign letter plain]
  rw [signText]
  by_cases signed : negative arg (flagsFor letter flags) = true
  · rw [if_pos signed, if_pos (when.mp signed)]
    rfl
  · rw [if_neg signed, if_neg (mt when.mpr signed)]
    rfl

theorem basePrefix_length (base : Base) (flags : Flags) :
    (basePrefix base flags).length = if base = .sixteen then 2 else 0 := by
  cases base <;> rfl

/-- Head and body together have the natural length. -/
theorem field_natural (plain : flags.sign = false) :
    (head letter flags arg).length + (body mem letter flags arg).length = natural mem letter arg := by
  rw [head, body, natural]
  cases baseOf letter with
  | none =>
    dsimp only
    split
    · rfl
    · exact Nat.zero_add _
  | some base =>
    simp only [List.length_append, List.length_reverse, tmp_length, basePrefix_length,
      signText_length letter arg plain, numeralLength]

theorem headed_iff (plain : flags.sign = false) : head letter flags arg = [] ↔ ¬ Headed letter arg := by
  rw [← List.length_eq_zero_iff, head]
  cases base : baseOf letter with
  | none =>
    have other : ¬ Headed letter arg := by
      rintro (rfl | rfl | ⟨rfl | rfl, below⟩) <;> cases base
    simp [other]
  | some base' =>
    have hex : base' = .sixteen ↔ letter = ascii 'x' ∨ letter = ascii 'X' := by
      rw [baseOf] at base
      split_ifs at base with six ten
      · simp [six, ← Option.some.inj base]
      · simp [six, ← Option.some.inj base]
    simp only [List.length_append, basePrefix_length, signText_length letter arg plain, hex, Headed, ← or_assoc]
    split_ifs with below six six <;> simp [below, six]

/-- A head begins with a sign or with the prefix, never with a blank. -/
theorem head_first (flags : Flags) (c : BitVec 8) (first : (head letter flags arg).head? = some c) : c ≠ ascii ' ' := by
  rw [head] at first
  cases base : baseOf letter with
  | none =>
    rw [base] at first
    cases first
  | some base' =>
    rw [base] at first
    dsimp only at first
    rw [signText] at first
    split at first
    · obtain rfl := Option.some.inj first
      decide
    · cases base' with
      | ten => cases first
      | sixteen =>
        obtain rfl := Option.some.inj first
        decide

end Fields

/-- A field of width `w`: as long as `w` or as its text, blanks behind the text on the left,
else zeros between head and body or blanks in front of both. -/
structure Justified (left zero : Bool) (w : Nat) (head body text : List (BitVec 8)) : Prop where
  length : text.length = max w (head.length + body.length)
  behind : left = true → text = head ++ body ++ List.replicate (w - (head.length + body.length)) (ascii ' ')
  zeros : left = false → zero = true →
    text = head ++ List.replicate (w - (head.length + body.length)) (ascii '0') ++ body
  blanks : left = false → zero = false →
    text = List.replicate (w - (head.length + body.length)) (ascii ' ') ++ head ++ body

/-- A field whose padding is measured with the last digit of the width alone. -/
theorem justified_run (left zero : Bool) (w : Nat) {head : List (BitVec 8)} (body : List (BitVec 8))
    (first : ∀ c, head.head? = some c → c ≠ ascii ' ') :
    let run := List.replicate (w % 10 - (head.length + body.length)) (if zero then ascii '0' else ascii ' ')
    Justified left zero w head body (if left then head ++ body ++ run else head ++ run ++ body) ↔
      w ≤ head.length + body.length ∨ w < 10 ∧ if left then zero = false else zero = true ∨ head = [] := by
  dsimp only
  constructor
  · intro justified
    refine or_iff_not_imp_left.mpr fun wide => ?_
    have length := justified.length
    have digit : w % 10 = w := by
      split at length <;> simp only [List.length_append, List.length_replicate] at length <;> omega
    refine ⟨by omega, ?_⟩
    -- some padding is there, and one character of it tells the kind
    obtain ⟨k, size⟩ : ∃ k, w - (head.length + body.length) = k + 1 :=
      Nat.exists_eq_succ_of_ne_zero (by omega)
    cases left with
    | true =>
      have same := justified.behind rfl
      rw [if_pos rfl, digit, size] at same
      have runs := List.append_cancel_left same
      cases zero with
      | false => rfl
      | true => exact absurd (List.cons.inj runs).1 (by decide)
    | false =>
      rw [if_neg (by simp)]
      cases zero with
      | true => exact .inl rfl
      | false =>
        have same := justified.blanks rfl rfl
        rw [if_neg (by simp), digit, size] at same
        cases head with
        | nil => exact .inr rfl
        | cons c head => exact absurd (List.cons.inj same).1 (first c rfl)
  · rintro (narrow | ⟨digit, shape⟩)
    · have none : w % 10 - (head.length + body.length) = 0 := by
        have less := Nat.mod_le w 10
        omega
      rw [none, List.replicate_zero, List.append_nil, List.append_nil, ite_self]
      refine ⟨?_, ?_, ?_, ?_⟩
      · rw [List.length_append, max_eq_right narrow]
      all_goals
        intros
        rw [Nat.sub_eq_zero_of_le narrow]
        simp
    · rw [Nat.mod_eq_of_lt digit]
      refine ⟨?_, ?_, ?_, ?_⟩
      · split <;> simp only [List.length_append, List.length_replicate] <;> omega
      · rintro rfl
        obtain rfl : zero = false := shape
        rfl
      · rintro rfl rfl
        rfl
      · rintro rfl rfl
        obtain rfl : head = [] := shape.resolve_left (by simp)
        simp

/-- The text of a conversion with a width is the field that the width asks for exactly if the
text fills the width already, or the width has one digit and the padding that is asked for is
blanks on the left, or zeros on the right, or stands where no sign and no prefix is. -/
theorem written_justified (mem : Memory) {flags width : List (BitVec 8)} {letter : BitVec 8}
    (between : Between flags width) (wide : width ≠ []) (own : letter ∈ letters) (arg : BitVec 32)
    (args : List (BitVec 32)) :
    Justified (flagsOf flags).left (zeros letter (flagsOf flags)) (value width) (head letter (flagsOf flags) arg)
        (body mem letter (flagsOf flags) arg) (written mem (arg :: args) (.conversion flags width letter)) ↔
      value width ≤ natural mem letter arg ∨ value width < 10 ∧
        if (flagsOf flags).left then zeros letter (flagsOf flags) = false
        else zeros letter (flagsOf flags) = true ∨ ¬ Headed letter arg := by
  obtain ⟨plain, _⟩ := flagsOf_plain flags
  have run := justified_run (flagsOf flags).left (zeros letter (flagsOf flags)) (value width)
    (body mem letter (flagsOf flags) arg) (head_first letter arg (flagsOf flags))
  simp only [field_natural mem letter arg plain, headed_iff letter arg plain] at run
  rw [written_field mem own, field, field_natural mem letter arg plain, widthOf_eq between wide, Int.toNat_sub]
  exact run

theorem texts_append (mem : Memory) (before after : List Piece) (args : List (BitVec 32)) :
    texts mem (before ++ after) args = texts mem before args ++
      texts mem after (args.drop (before.countP Piece.takes)) := by
  induction before generalizing args with
  | nil => rfl
  | cons piece before ih =>
    rw [List.cons_append, texts, texts, ih, List.countP_cons]
    split
    next takes => rw [List.drop_tail, List.cons_append]
    next plain => rw [List.cons_append, Nat.add_zero]

/-- The field of a conversion anywhere in a format: it stands behind the texts of the pieces in
front of it, and it is the field its width asks for under the condition of `written_justified`. -/
theorem vsprintf_field (mem : Memory) (before after : List Piece)
    (unfinished : Option (List (BitVec 8) × List (BitVec 8)))
    {flags width : List (BitVec 8)} {letter : BitVec 8}
    (proper : Format.Proper ⟨before ++ .conversion flags width letter :: after, unfinished⟩) (wide : width ≠ [])
    (own : letter ∈ letters) (front back : List (BitVec 32)) (arg : BitVec 32)
    (ahead : front.length = before.countP Piece.takes) (enough : after.countP Piece.takes ≤ back.length) :
    let text := written mem (arg :: back) (.conversion flags width letter)
    (∃ behind, ∀ fuel, (Format.spelling ⟨before ++ .conversion flags width letter :: after, unfinished⟩).length < fuel →
      (vsprintf fuel mem (Format.spelling ⟨before ++ .conversion flags width letter :: after, unfinished⟩)
        (front ++ arg :: back)).map Result.buf =
          some ((texts mem before (front ++ arg :: back)).flatten ++ text ++ behind)) ∧
    (Justified (flagsOf flags).left (zeros letter (flagsOf flags)) (value width) (head letter (flagsOf flags) arg)
        (body mem letter (flagsOf flags) arg) text ↔
      value width ≤ natural mem letter arg ∨ value width < 10 ∧
        if (flagsOf flags).left then zeros letter (flagsOf flags) = false
        else zeros letter (flagsOf flags) = true ∨ ¬ Headed letter arg) := by
  have takes : (Piece.conversion flags width letter).takes = true := decide_eq_true own
  obtain ⟨_, between, _⟩ := proper.pieces (.conversion flags width letter) (by simp)
  refine ⟨⟨(texts mem after back).flatten ++ Format.remainder ⟨[], unfinished⟩ ++ [0], fun fuel more => ?_⟩,
    written_justified mem between wide own arg back⟩
  have counted : Format.arity ⟨before ++ .conversion flags width letter :: after, unfinished⟩ ≤
      (front ++ arg :: back).length := by
    rw [Format.arity, List.countP_append, List.countP_cons, if_pos takes, List.length_append, List.length_cons]
    omega
  rw [vsprintf_format mem _ _ proper counted more, Option.map_some, texts_append, ← ahead, List.drop_left, texts,
    if_pos takes]
  simp [Format.remainder]

/-- The field of `%10c` is one character long. -/
theorem field_short : ¬ ∀ (mem : Memory) (flags width : List (BitVec 8)) (letter : BitVec 8) (arg : BitVec 32),
    Between flags width → width ≠ [] → letter ∈ letters →
    Justified (flagsOf flags).left (zeros letter (flagsOf flags)) (value width) (head letter (flagsOf flags) arg)
      (body mem letter (flagsOf flags) arg) (written mem [arg] (.conversion flags width letter)) := by
  intro all
  have between : Between [] [ascii '1', ascii '0'] := ⟨by simp, by decide, by decide⟩
  have own : ascii 'c' ∈ letters := by decide
  have justified := all ⟨fun _ _ => 0, fun _ => []⟩ [] [ascii '1', ascii '0'] (ascii 'c') 65 between (by simp) own
  rcases (written_justified _ between (by simp) own 65 []).mp justified with narrow | ⟨digit, _⟩
  · exact absurd narrow (by decide)
  · exact absurd digit (by decide)

/-- The format `<%5s>`. -/
theorem vsprintf_field_string :
    let f : Format := ⟨[.text (ascii '<')] ++ .conversion [] [ascii '5'] (ascii 's') :: [.text (ascii '>')], none⟩
    let mem : Memory := ⟨fun _ _ => 0, fun _ => [ascii 'a']⟩
    let text := written mem [1] (.conversion [] [ascii '5'] (ascii 's'))
    (∃ behind, ∀ fuel, f.spelling.length < fuel → (vsprintf fuel mem f.spelling [1]).map Result.buf =
      some ((texts mem [.text (ascii '<')] [1]).flatten ++ text ++ behind)) ∧
    (Justified false false 5 [] [ascii 'a'] text ↔ 5 ≤ 1 ∨ 5 < 10 ∧ (false = true ∨ ¬ Headed (ascii 's') 1)) := by
  have between : Between [] [ascii '5'] := ⟨by simp, by decide, by decide⟩
  have ends : Ends [ascii '5'] (ascii 's') := ⟨by decide, by simp⟩
  have proper : Format.Proper
      ⟨[.text (ascii '<')] ++ .conversion [] [ascii '5'] (ascii 's') :: [.text (ascii '>')], none⟩ := by
    refine ⟨?_, by simp⟩
    simp only [List.cons_append, List.nil_append, List.forall_mem_cons, List.not_mem_nil, false_implies, implies_true,
      and_true]
    exact ⟨⟨by decide, by decide⟩, ⟨by decide, between, ends⟩, by decide, by decide⟩
  exact vsprintf_field _ [.text (ascii '<')] [.text (ascii '>')] none proper (by simp) (by decide) [] [] 1 rfl
    (by decide)

end OperatorSystem.Kernel.Print
