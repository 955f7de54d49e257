import OperatorSystem.Kernel.Print

/-!
# Scanning a format

A format without a NUL is a sequence of characters and conversions, possibly
with an unfinished conversion at its end. `vsprintf` goes through it piece by
piece: the invariant of the outer loop is that the position stands at the start
of a piece.
-/

namespace OperatorSystem.Kernel.Print

/-- A piece of a format: a character outside conversions, or `%`, flags, a width and the
letter that ends the conversion. -/
inductive Piece where
  | text (c : BitVec 8)
  | conversion (flags width : List (BitVec 8)) (letter : BitVec 8)

/-- The letters of the conversions that take an argument. -/
def letters : List (BitVec 8) := [ascii 'c', ascii 's', ascii 'x', ascii 'X', ascii 'd', ascii 'i', ascii 'u']

namespace Piece

def spelling : Piece → List (BitVec 8)
  | text c => [c]
  | conversion flags width letter => ascii '%' :: flags ++ width ++ [letter]

/-- Whether a piece takes an argument. -/
def takes : Piece → Bool
  | text _ => false
  | conversion _ _ letter => letter ∈ letters

end Piece

/-- The characters between `%` and the letter: flags, then a width without a zero in front. -/
structure Between (flags width : List (BitVec 8)) : Prop where
  flagged : ∀ c ∈ flags, c = ascii '-' ∨ c = ascii '0'
  digits : ∀ c ∈ width, isDigit c = true
  nonzero : width.head? ≠ some (ascii '0')

/-- A letter ends the flags and the width in front of it. -/
structure Ends (width : List (BitVec 8)) (letter : BitVec 8) : Prop where
  digit : isDigit letter = false
  minus : width = [] → letter ≠ ascii '-'

def Piece.Proper : Piece → Prop
  | .text c => c ≠ 0 ∧ c ≠ ascii '%'
  | .conversion flags width letter => letter ≠ 0 ∧ Between flags width ∧ Ends width letter

/-- A format in pieces, with the flags and the width of the conversion that the NUL cuts short. -/
structure Format where
  pieces : List Piece
  unfinished : Option (List (BitVec 8) × List (BitVec 8))

namespace Format

/-- What is left of the conversion that the NUL cuts short. -/
def tail (f : Format) : List (BitVec 8) :=
  match f.unfinished with
  | none => []
  | some (flags, width) => ascii '%' :: flags ++ width

def spelling (f : Format) : List (BitVec 8) := f.pieces.flatMap Piece.spelling ++ f.tail

structure Proper (f : Format) : Prop where
  pieces : ∀ p ∈ f.pieces, p.Proper
  unfinished : ∀ flags width, f.unfinished = some (flags, width) → Between flags width

/-- The number of arguments the conversions take. -/
def arity (f : Format) : Nat := f.pieces.countP Piece.takes

end Format

/-- The bits that the flag characters set. -/
def flagsOf (flags : List (BitVec 8)) : Flags :=
  flags.foldl (fun flags c => if c = ascii '-' then { flags with left := true } else { flags with zeropad := true })
    .none

/-- The value of `field_width` behind the digits: the last one, or -1. -/
def widthOf (width : List (BitVec 8)) : Int :=
  match width.getLast? with
  | none => -1
  | some c => c.toNat - (ascii '0').toNat

/-- The text that `vsprintf` puts for a piece, from the arguments that are left in front of it. -/
def written (mem : Memory) (args : List (BitVec 32)) : Piece → List (BitVec 8)
  | .text c => [c]
  | .conversion flags width letter =>
    match printer mem letter (widthOf width) (flagsOf flags), args with
    | some print, arg :: _ => print arg
    | _, _ => (if letter = ascii '%' then [] else [ascii '%']) ++ [letter]

/-- The texts of the pieces, each conversion with an argument of its own. -/
def texts (mem : Memory) : List Piece → List (BitVec 32) → List (List (BitVec 8))
  | [], _ => []
  | piece :: pieces, args =>
    written mem args piece :: texts mem pieces (if piece.takes then args.tail else args)

/-! ## Every format is spelled by pieces -/

theorem flag_split (fmt : List (BitVec 8)) :
    ∃ flags rest, fmt = flags ++ rest ∧ (∀ c ∈ flags, c = ascii '-' ∨ c = ascii '0') ∧
      rest.head? ≠ some (ascii '-') ∧ rest.head? ≠ some (ascii '0') := by
  induction fmt with
  | nil => exact ⟨[], [], rfl, by simp, by simp, by simp⟩
  | cons c fmt ih =>
    by_cases flag : c = ascii '-' ∨ c = ascii '0'
    · obtain ⟨flags, rest, rfl, proper, minus, zero⟩ := ih
      exact ⟨c :: flags, rest, rfl, List.forall_mem_cons.mpr ⟨flag, proper⟩, minus, zero⟩
    · obtain ⟨minus, zero⟩ := not_or.mp flag
      exact ⟨[], c :: fmt, rfl, by simp, by simpa using minus, by simpa using zero⟩

theorem digit_split (fmt : List (BitVec 8)) :
    ∃ width rest, fmt = width ++ rest ∧ (∀ c ∈ width, isDigit c = true) ∧ ∀ c ∈ rest.head?, isDigit c = false := by
  induction fmt with
  | nil => exact ⟨[], [], rfl, by simp, by simp⟩
  | cons c fmt ih =>
    cases digit : isDigit c with
    | true =>
      obtain ⟨width, rest, rfl, proper, ends⟩ := ih
      exact ⟨c :: width, rest, rfl, List.forall_mem_cons.mpr ⟨digit, proper⟩, ends⟩
    | false => exact ⟨[], c :: fmt, rfl, by simp, by simpa using digit⟩

/-- The characters behind a `%`: a conversion and the rest, or an unfinished conversion. -/
theorem behind_percent (fmt : List (BitVec 8)) (nul : (0 : BitVec 8) ∉ fmt) :
    ∃ flags width, Between flags width ∧
      (fmt = flags ++ width ∨ ∃ letter rest, fmt = flags ++ width ++ letter :: rest ∧
        (Piece.conversion flags width letter).Proper) := by
  obtain ⟨flags, rest, rfl, flagged, minus, zero⟩ := flag_split fmt
  obtain ⟨width, rest, rfl, digits, ends⟩ := digit_split rest
  have between : Between flags width := by
    refine ⟨flagged, digits, fun first => zero ?_⟩
    rw [List.head?_append, first]
    rfl
  refine ⟨flags, width, between, ?_⟩
  cases rest with
  | nil => exact .inl (by rw [List.append_nil])
  | cons letter rest =>
    refine .inr ⟨letter, rest, (List.append_assoc ..).symm, ?_, between, ends letter rfl, ?_⟩
    · rintro rfl
      exact nul (by simp)
    · rintro rfl rfl
      exact minus rfl

/-- Every format without a NUL is spelled by pieces. -/
theorem exists_format (fmt : List (BitVec 8)) (nul : (0 : BitVec 8) ∉ fmt) :
    ∃ f : Format, f.Proper ∧ f.spelling = fmt := by
  -- a conversion shortens the rest by its whole length, so the induction is on the length
  induction size : fmt.length using Nat.strong_induction_on generalizing fmt with
  | _ n ih =>
    cases fmt with
    | nil => exact ⟨⟨[], none⟩, ⟨by simp, by simp⟩, rfl⟩
    | cons c fmt =>
      have further : ∀ piece rest, piece.Proper → c :: fmt = Piece.spelling piece ++ rest → rest.length < n →
          ∃ f : Format, f.Proper ∧ f.spelling = c :: fmt := by
        intro piece rest proper split shorter
        have clean : (0 : BitVec 8) ∉ rest := fun member => nul (by rw [split]; exact List.mem_append_right _ member)
        obtain ⟨f, good, spelled⟩ := ih rest.length shorter rest clean rfl
        refine ⟨⟨piece :: f.pieces, f.unfinished⟩,
          ⟨List.forall_mem_cons.mpr ⟨proper, good.pieces⟩, good.unfinished⟩, ?_⟩
        rw [split, ← spelled]
        exact List.append_assoc ..
      obtain ⟨ends, clean⟩ := not_or.mp (mt List.mem_cons.mpr nul)
      subst size
      by_cases percent : c = ascii '%'
      · subst percent
        obtain ⟨flags, width, between, unfinished | ⟨letter, rest, split, proper⟩⟩ := behind_percent fmt clean
        · refine ⟨⟨[], some (flags, width)⟩, ⟨by simp, ?_⟩, by rw [unfinished]; rfl⟩
          rintro _ _ ⟨⟩
          exact between
        · refine further (.conversion flags width letter) rest proper ?_ ?_
          · rw [split]
            simp [Piece.spelling]
          · rw [split]
            simp
            omega
      · exact further (.text c) fmt ⟨Ne.symm ends, percent⟩ rfl (by simp)

/-! ## The loops over one piece -/

theorem read_append (front rest : List (BitVec 8)) : read (front ++ rest) front.length = some (rest.headD 0) := by
  rw [read, List.append_assoc, List.getElem?_append_right (Nat.le_refl _), Nat.sub_self]
  cases rest <;> rfl

/-- The flags are read up to the first character that is none. -/
theorem scanFlags_append (flags rest : List (BitVec 8)) (flagged : ∀ c ∈ flags, c = ascii '-' ∨ c = ascii '0')
    (minus : rest.headD 0 ≠ ascii '-') (zero : rest.headD 0 ≠ ascii '0') (front : List (BitVec 8)) (x : BitVec 8)
    (start : Flags) :
    scanFlags (front ++ x :: flags ++ rest) front.length start = some (front.length + 1 + flags.length,
      flags.foldl (fun flags c => if c = ascii '-' then { flags with left := true } else { flags with zeropad := true })
        start) := by
  induction flags generalizing front x start with
  | nil =>
    have next : read (front ++ [x] ++ rest) (front.length + 1) = some (rest.headD 0) := by
      simpa using read_append (front ++ [x]) rest
    rw [scanFlags]
    split
    next none => rw [next] at none; cases none
    next c some =>
      obtain rfl := Option.some.inj (next.symm.trans some)
      rw [if_neg minus, if_neg zero]
      rfl
  | cons flag flags ih =>
    obtain ⟨first, others⟩ := List.forall_mem_cons.mp flagged
    have next : read (front ++ x :: flag :: flags ++ rest) (front.length + 1) = some flag := by
      simpa using read_append (front ++ [x]) (flag :: flags ++ rest)
    -- the round ends with the flag as the character behind which the scan goes on
    have again : ∀ start', scanFlags (front ++ x :: flag :: flags ++ rest) (front.length + 1) start' =
        some (front.length + 1 + (flag :: flags).length, flags.foldl (fun flags c =>
          if c = ascii '-' then { flags with left := true } else { flags with zeropad := true }) start') := by
      intro start'
      have step := ih others (front ++ [x]) flag start'
      simp only [List.append_assoc, List.cons_append, List.nil_append,
        List.length_append, List.length_singleton] at step
      rw [List.append_assoc, List.cons_append, List.cons_append, step, List.length_cons]
      congr 2
      omega
    rw [scanFlags]
    split
    next none => rw [next] at none; cases none
    next c some =>
      obtain rfl := Option.some.inj (next.symm.trans some)
      rw [again, again, List.foldl_cons]
      rcases first with rfl | rfl
      · rw [if_pos rfl, if_pos rfl]
      · rw [if_neg (by decide), if_pos rfl, if_neg (by decide)]

/-- The width is read up to the first character that is no digit; its last digit counts. -/
theorem scanWidth_append (width rest : List (BitVec 8)) (digits : ∀ c ∈ width, isDigit c = true)
    (ends : isDigit (rest.headD 0) = false) (front : List (BitVec 8)) (start : Int) :
    scanWidth (front ++ width ++ rest) front.length start = some (front.length + width.length,
      (width.getLast?.map fun c => (c.toNat - (ascii '0').toNat : Int)).getD start) := by
  -- the induction is on the digits; what was read moves to the front
  induction width generalizing front start with
  | nil =>
    have here : read (front ++ [] ++ rest) front.length = some (rest.headD 0) := by
      simpa using read_append front rest
    rw [scanWidth]
    split
    next none => rw [here] at none; cases none
    next c some =>
      obtain rfl := Option.some.inj (here.symm.trans some)
      rw [if_neg (by rw [ends]; simp)]
      rfl
  | cons d width ih =>
    obtain ⟨first, others⟩ := List.forall_mem_cons.mp digits
    have here : read (front ++ d :: width ++ rest) front.length = some d := by
      simpa using read_append front (d :: width ++ rest)
    -- the loop overwrites the width it has: the last digit decides
    have step := ih others (front ++ [d]) (0 * 10 + d.toNat - (ascii '0').toNat)
    simp only [List.append_assoc, List.cons_append, List.nil_append, List.length_append, List.length_singleton] at step
    rw [scanWidth]
    split
    next none => rw [here] at none; cases none
    next c some =>
      obtain rfl := Option.some.inj (here.symm.trans some)
      rw [if_pos first]
      dsimp only
      rw [List.append_assoc, List.cons_append, step, List.length_cons, Nat.add_right_comm, Nat.add_assoc]
      cases width with
      | nil => simp
      | cons e width => simp [List.getLast?_cons]

/-- A letter has a case of its own exactly if it is one of the seven. -/
theorem printer_isSome (mem : Memory) (letter : BitVec 8) (width : Int) (flags : Flags) :
    (printer mem letter width flags).isSome = true ↔ letter ∈ letters := by
  have all : letter ∈ letters ↔ letter = ascii 'c' ∨ letter = ascii 's' ∨ letter = ascii 'x' ∨ letter = ascii 'X' ∨
      (letter = ascii 'd' ∨ letter = ascii 'i') ∨ letter = ascii 'u' := by
    simp [letters, or_assoc]
  rw [all, printer]
  split_ifs with c s x X d u
  · simp [c]
  · simp [s]
  · simp [x]
  · simp [X]
  · simp [d]
  · simp [u]
  · simp [c, s, x, X, d, u]

/-- The argument, if the piece takes one, and the text of a conversion. -/
theorem conversion_letter (mem : Memory) (front rest : List (BitVec 8)) {flags width : List (BitVec 8)}
    {letter : BitVec 8} {args : List (BitVec 32)} (nonzero : letter ≠ 0)
    (enough : (Piece.conversion flags width letter).takes = true → args ≠ []) :
    conversion mem (front ++ letter :: rest) front.length (widthOf width) (flagsOf flags) args =
      some (written mem args (.conversion flags width letter), front.length,
        if (Piece.conversion flags width letter).takes = true then args.tail else args) := by
  -- an argument is taken exactly for the letters that print one
  have own := printer_isSome mem letter (widthOf width) (flagsOf flags)
  rw [← decide_eq_true_iff (p := letter ∈ letters)] at own
  simp only [conversion, read_append, List.headD_cons, Option.bind_eq_bind, Option.bind_some, written]
  cases print : printer mem letter (widthOf width) (flagsOf flags) with
  | none =>
    have other : ¬ (Piece.conversion flags width letter).takes = true := fun takes => by
      rw [print] at own
      exact absurd (own.mpr takes) (by simp)
    rw [if_neg other]
    cases args <;> exact if_neg nonzero
  | some print' =>
    have takes : (Piece.conversion flags width letter).takes = true := own.mp (by rw [print]; rfl)
    cases args with
    | nil => exact absurd rfl (enough takes)
    | cons arg args =>
      rw [if_pos takes]
      rfl

/-- Where the NUL stands in the place of the letter, only the `%` is printed. -/
theorem conversion_nul (mem : Memory) (fmt : List (BitVec 8)) (width : Int) (flags : Flags) (args : List (BitVec 32)) :
    conversion mem fmt fmt.length width flags args = some ([ascii '%'], fmt.length - 1, args) := by
  have nul : read fmt fmt.length = some 0 := by simpa using read_append fmt []
  have none : printer mem 0 width flags = none := by
    cases print : printer mem 0 width flags with
    | none => rfl
    | some print' =>
      have letter := (printer_isSome mem 0 width flags).mp (by rw [print]; rfl)
      exact absurd letter (by decide)
  simp only [conversion, nul, none, Option.bind_eq_bind, Option.bind_some, if_true]
  rfl

/-! ## The outer loop -/

variable {mem : Memory} {args : List (BitVec 32)}

theorem isDigit_zero : isDigit 0 = false := by
  decide

/-- No flag stands behind the flags. -/
theorem Between.no_flag {flags width : List (BitVec 8)} (between : Between flags width) (rest : List (BitVec 8))
    (digit : isDigit (rest.headD 0) = false) (minus : width = [] → rest.headD 0 ≠ ascii '-') :
    (width ++ rest).headD 0 ≠ ascii '-' ∧ (width ++ rest).headD 0 ≠ ascii '0' := by
  cases width with
  | nil =>
    refine ⟨minus rfl, fun zero => ?_⟩
    rw [List.nil_append] at zero
    rw [zero] at digit
    exact absurd digit (by decide)
  | cons d width =>
    have first := between.digits d List.mem_cons_self
    refine ⟨fun here => ?_, fun here => between.nonzero (congrArg some here)⟩
    obtain rfl : d = ascii '-' := here
    exact absurd first (by decide)

/-- The two scans behind a `%` stop in front of the letter. -/
theorem scan_between {flags width : List (BitVec 8)} (between : Between flags width) (front rest : List (BitVec 8))
    (digit : isDigit (rest.headD 0) = false) (minus : width = [] → rest.headD 0 ≠ ascii '-') :
    scanFlags (front ++ ascii '%' :: flags ++ width ++ rest) front.length .none =
        some ((front ++ ascii '%' :: flags).length, flagsOf flags) ∧
      scanWidth (front ++ ascii '%' :: flags ++ width ++ rest) (front ++ ascii '%' :: flags).length (-1) =
        some ((front ++ ascii '%' :: flags ++ width).length, widthOf width) := by
  obtain ⟨noMinus, noZero⟩ := between.no_flag rest digit minus
  constructor
  · have scanned := scanFlags_append flags (width ++ rest) between.flagged noMinus noZero front (ascii '%') .none
    rw [← List.append_assoc] at scanned
    rw [scanned, flagsOf]
    simp only [List.length_append, List.length_cons]
    congr 2
    omega
  · rw [scanWidth_append width rest between.digits digit, widthOf, ← List.length_append]
    cases width.getLast? <;> rfl

/-- One round for one piece. -/
theorem loop_piece {piece : Piece} (proper : piece.Proper) (enough : piece.takes = true → args ≠ []) (fuel : Nat)
    (front rest out : List (BitVec 8)) :
    loop mem (front ++ piece.spelling ++ rest) (fuel + 1) front.length args out =
      loop mem (front ++ piece.spelling ++ rest) fuel (front ++ piece.spelling).length
        (if piece.takes = true then args.tail else args) (out ++ written mem args piece) := by
  -- a piece is either a plain character or a whole conversion
  cases piece with
  | text c =>
    obtain ⟨nonzero, percent⟩ := proper
    have here : read (front ++ [c] ++ rest) front.length = some c := by
      rw [List.append_assoc, read_append]
      rfl
    rw [loop, Piece.spelling, here]
    simp only [Option.bind_eq_bind, Option.bind_some, if_neg nonzero, if_neg percent, List.length_append,
      List.length_singleton]
    rfl
  | conversion flags width letter =>
    obtain ⟨nonzero, between, ends⟩ := proper
    have spelled : front ++ (Piece.conversion flags width letter).spelling ++ rest =
        front ++ ascii '%' :: flags ++ width ++ letter :: rest := by
      simp [Piece.spelling]
    have here : read (front ++ ascii '%' :: flags ++ width ++ letter :: rest) front.length = some (ascii '%') := by
      rw [List.append_assoc, List.append_assoc, read_append]
      rfl
    obtain ⟨flagged, measured⟩ := scan_between between front (letter :: rest) ends.digit ends.minus
    have converted := conversion_letter mem (front ++ ascii '%' :: flags ++ width) rest nonzero enough
    rw [spelled, loop, here]
    simp only [Option.bind_eq_bind, Option.bind_some, if_true, flagged, measured, converted]
    rw [if_neg (by decide)]
    simp [Piece.spelling, Nat.add_assoc]

/-- The round in which the NUL cuts a conversion short ends at the NUL. -/
theorem loop_unfinished {flags width : List (BitVec 8)} (between : Between flags width) (fuel : Nat)
    (front out : List (BitVec 8)) :
    loop mem (front ++ ascii '%' :: flags ++ width) (fuel + 1) front.length args out =
      loop mem (front ++ ascii '%' :: flags ++ width) fuel (front ++ ascii '%' :: flags ++ width).length args
        (out ++ [ascii '%']) := by
  have here : read (front ++ ascii '%' :: flags ++ width) front.length = some (ascii '%') := by
    rw [List.append_assoc, read_append]
    rfl
  obtain ⟨flagged, measured⟩ := scan_between between front [] isDigit_zero (fun _ => by decide)
  rw [List.append_nil] at flagged measured
  rw [loop, here]
  simp only [Option.bind_eq_bind, Option.bind_some, if_true, flagged, measured, conversion_nul]
  rw [if_neg (by decide), Nat.sub_add_cancel]
  simp only [List.length_append, List.length_cons]
  omega

theorem loop_nul (fmt out : List (BitVec 8)) (fuel : Nat) :
    loop mem fmt (fuel + 1) fmt.length args out = some (out, args) := by
  have nul : read fmt fmt.length = some 0 := by simpa using read_append fmt []
  rw [loop, nul]
  rfl

/-- The text of an unfinished conversion. -/
def Format.remainder (f : Format) : List (BitVec 8) := if f.unfinished.isSome then [ascii '%'] else []

theorem Piece.spelling_pos (piece : Piece) : 0 < piece.spelling.length := by
  cases piece <;> simp [Piece.spelling]

/-- The rounds over all pieces, and over the conversion that the NUL cuts short. -/
theorem loop_pieces (f : Format) (proper : f.Proper) (enough : f.arity ≤ args.length) (fuel : Nat)
    (more : f.spelling.length < fuel) (front out : List (BitVec 8)) :
    loop mem (front ++ f.spelling) fuel front.length args out =
      some (out ++ (texts mem f.pieces args).flatten ++ f.remainder, args.drop f.arity) := by
  obtain ⟨pieces, unfinished⟩ := f
  -- the induction is on the pieces that are still to come
  induction pieces generalizing args fuel front out with
  | nil =>
    cases unfinished with
    | none =>
      obtain ⟨fuel, rfl⟩ : ∃ k, fuel = k + 1 := Nat.exists_eq_succ_of_ne_zero (by omega)
      have done : loop mem front (fuel + 1) front.length args out = _ := loop_nul front out fuel
      simpa [Format.spelling, Format.tail, texts, Format.remainder, Format.arity] using done
    | some between =>
      obtain ⟨flags, width⟩ := between
      have between := proper.unfinished flags width rfl
      have two : 2 ≤ fuel := by
        simp [Format.spelling, Format.tail] at more
        omega
      obtain ⟨fuel, rfl⟩ := Nat.exists_eq_add_of_le' two
      have done : loop mem _ _ _ args _ = _ := loop_unfinished between (fuel + 1) front out
      rw [loop_nul] at done
      simpa [Format.spelling, Format.tail, texts, Format.remainder, Format.arity] using done
  | cons piece pieces ih =>
    obtain ⟨first, others⟩ := List.forall_mem_cons.mp proper.pieces
    have spelled : front ++ Format.spelling ⟨piece :: pieces, unfinished⟩ =
        front ++ piece.spelling ++ Format.spelling ⟨pieces, unfinished⟩ := by
      simp [Format.spelling, Format.tail]
    have counted : Format.arity ⟨piece :: pieces, unfinished⟩ =
        Format.arity ⟨pieces, unfinished⟩ + if piece.takes = true then 1 else 0 := List.countP_cons
    obtain ⟨fuel, rfl⟩ : ∃ k, fuel = k + 1 := Nat.exists_eq_succ_of_ne_zero (by omega)
    have less : (Format.spelling ⟨pieces, unfinished⟩).length < fuel := by
      have pos := piece.spelling_pos
      have length := congrArg List.length spelled
      simp only [List.length_append] at length
      omega
    have some' : piece.takes = true → args ≠ [] := by
      rintro takes rfl
      rw [counted, if_pos takes] at enough
      simp at enough
    have left : Format.arity ⟨pieces, unfinished⟩ ≤ (if piece.takes = true then args.tail else args).length ∧
        args.drop (Format.arity ⟨piece :: pieces, unfinished⟩) =
          (if piece.takes = true then args.tail else args).drop (Format.arity ⟨pieces, unfinished⟩) := by
      rw [counted] at enough ⊢
      split at enough <;> rename_i takes
      · rw [if_pos takes, if_pos takes, List.length_tail]
        exact ⟨by omega, List.drop_tail.symm ▸ rfl⟩
      · rw [if_neg takes, if_neg takes]
        exact ⟨enough, rfl⟩
    rw [spelled, loop_piece first some', ih fuel _ _ ⟨others, proper.unfinished⟩ left.1 less, left.2, texts,
      List.flatten_cons]
    simp [Format.remainder]

/-- What a call with a format of pieces leaves. -/
theorem vsprintf_format (mem : Memory) (args : List (BitVec 32)) (f : Format) (proper : f.Proper)
    (enough : f.arity ≤ args.length) {fuel : Nat}
    (more : f.spelling.length < fuel) :
    let text := (texts mem f.pieces args).flatten ++ f.remainder
    vsprintf fuel mem f.spelling args =
      some { buf := text ++ [0], ret := text.length, rest := args.drop f.arity } := by
  have whole : loop mem ([] ++ f.spelling) fuel 0 args [] = _ := loop_pieces f proper enough fuel more [] []
  rw [List.nil_append, List.nil_append] at whole
  rw [vsprintf, whole]
  rfl

theorem written_percent (flags width : List (BitVec 8)) :
    written mem args (.conversion flags width (ascii '%')) = [ascii '%'] := by
  have plain : printer mem (ascii '%') (widthOf width) (flagsOf flags) = none := by
    cases print : printer mem (ascii '%') (widthOf width) (flagsOf flags) with
    | none => rfl
    | some print' =>
      have letter := (printer_isSome mem (ascii '%') (widthOf width) (flagsOf flags)).mp (by rw [print]; rfl)
      exact absurd letter (by decide)
  simp only [written, plain]
  rfl

/-- Scanning is safe. Every format without a NUL inside is spelled by pieces: text is copied,
`%%` gives one `%`, each conversion that takes an argument has the next one, and of a conversion
that the NUL cuts short its `%` is left. The call ends, with a NUL behind what it counts. -/
theorem vsprintf_scans (mem : Memory) (fmt : List (BitVec 8)) (nul : (0 : BitVec 8) ∉ fmt) :
    ∃ f : Format, f.Proper ∧ f.spelling = fmt ∧
      (∀ args c, written mem args (.text c) = [c]) ∧
      (∀ args flags width, written mem args (.conversion flags width (ascii '%')) = [ascii '%']) ∧
      ∀ args, f.arity ≤ args.length → ∀ fuel, fmt.length < fuel →
        let text := (texts mem f.pieces args).flatten ++ f.remainder
        vsprintf fuel mem fmt args = some { buf := text ++ [0], ret := text.length, rest := args.drop f.arity } := by
  obtain ⟨f, proper, rfl⟩ := exists_format fmt nul
  refine ⟨f, proper, rfl, fun _ _ => rfl, fun _ flags width => written_percent flags width, ?_⟩
  intro args enough fuel more
  exact vsprintf_format mem args f proper enough more

/-- The format `%d%%-%-0`. -/
theorem vsprintf_scans_cut :
    ∃ f : Format, f.Proper ∧ f.spelling = "%d%%-%-0".toList.map ascii ∧
      (∀ args c, written ⟨fun _ _ => 0, fun _ => []⟩ args (.text c) = [c]) ∧
      (∀ args flags width,
        written ⟨fun _ _ => 0, fun _ => []⟩ args (.conversion flags width (ascii '%')) = [ascii '%']) ∧
      ∀ args, f.arity ≤ args.length → ∀ fuel, ("%d%%-%-0".toList.map ascii).length < fuel →
        let text := (texts ⟨fun _ _ => 0, fun _ => []⟩ f.pieces args).flatten ++ f.remainder
        vsprintf fuel ⟨fun _ _ => 0, fun _ => []⟩ ("%d%%-%-0".toList.map ascii) args =
          some { buf := text ++ [0], ret := text.length, rest := args.drop f.arity } :=
  vsprintf_scans ⟨fun _ _ => 0, fun _ => []⟩ ("%d%%-%-0".toList.map ascii) (by decide)

end OperatorSystem.Kernel.Print
