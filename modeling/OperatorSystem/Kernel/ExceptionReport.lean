import OperatorSystem.Chr.WritePath
import OperatorSystem.Kernel.Entries
import OperatorSystem.Kernel.Numerals

/-!
# The report of an exception (`int_handler.c`)

`syserrHandler` prints what the entry of an exception has pushed, with six calls
of `printk`. The main result `exception_displayed` goes from the exception to
the display.
-/

namespace OperatorSystem.Kernel

open OperatorSystem.Chr
open OperatorSystem.Chr.Console (blank)
open Print (ascii vsprintf Piece Format letters numeral digit digitChar head body texts)
open Transition (Run)

/-! ### The functions -/

/-- `buf` of `print.c`: what is put there can be read from there, up to its 512 bytes. -/
structure PrintBuffer where
  buf : BitVec 32
  memory : List (BitVec 8) → Mm.Memory
  stored : ∀ text : List (BitVec 8), text.length ≤ 512 → ReadsText (memory text) buf.toNat text

def characters (s : String) : List (BitVec 8) := s.toList.map ascii

def printk (l : PrintBuffer) (mem : Print.Memory) (fmt : String) (args : List (BitVec 32)) (t : Terminals) :
    Option Terminals := do
  let fmt := characters fmt
  let text ← vsprintf (fmt.length + 1) mem fmt args
  let r ← ttyWrite (l.memory text.buf) t 0 l.buf (BitVec.ofNat 32 text.ret)
  return r.terminals

/-- `err_description` -/
def errDescription : List String :=
  ["#DE Divide Error",
    "#DB RESERVED",
    "- NMI Interrupt",
    "#BP Breakpoint",
    "#OF Overflow",
    "#BR BOUND Range Exception",
    "#UD Invalid Opcode {Undefined Opcode}",
    "#NM Device not Available {No Math Coprocessor}",
    "#DF Double Fault",
    "Coprocessor Segment Overrun {reserved}",
    "#TS Invalid TSS",
    "#NP Segment Not Present",
    "#SS Stack-Segment Fault",
    "#GP General Protection",
    "#PF Page Fault",
    "- {Intel reserved. Do Notuse}",
    "#MF x87 FPU Floating-Poing Error {Math Fault}",
    "#AC Alignment Check",
    "#MC Machine Check",
    "#XF SIMD Floating-Poing Exception"]

/-- `syserrHandler`, with `table` for the address of `err_description` and its rows of 64 bytes. -/
def syserrHandler (l : PrintBuffer) (mem : Print.Memory) (table : BitVec 32) (r : Cpu.Report) (t : Terminals) :
    Option Terminals := do
  let t ← printk l mem "Exception! --> %s\n" [table + 64 * r.errNo] t
  let t ← printk l mem "Vector:%X\n" [r.errNo] t
  let t ← printk l mem "Error code:%X\n" [r.errCode] t
  let t ← printk l mem "EIP:%X\n" [r.eip] t
  let t ← printk l mem "CS:%X\n" [r.cs] t
  printk l mem "EFLAGS:%X\n" [r.eflags] t

/-- The calls of `printk` in `syserrHandler`. -/
def reportCalls (table : BitVec 32) (r : Cpu.Report) : List (String × List (BitVec 32)) :=
  [("Exception! --> %s\n", [table + 64 * r.errNo]), ("Vector:%X\n", [r.errNo]), ("Error code:%X\n", [r.errCode]),
    ("EIP:%X\n", [r.eip]), ("CS:%X\n", [r.cs]), ("EFLAGS:%X\n", [r.eflags])]

theorem syserrHandler_eq (l : PrintBuffer) (mem : Print.Memory) (table : BitVec 32) (r : Cpu.Report) (t : Terminals) :
    syserrHandler l mem table r t =
      (reportCalls table r).foldlM (fun t call => printk l mem call.1 call.2 t) t := by
  simp only [syserrHandler, reportCalls, List.foldlM_cons, List.foldlM_nil, Option.pure_def, Option.bind_eq_bind,
    Option.bind_fun_some]

/-- What `vsprintf` stores for a call, with the NUL at the end, fits into `buf`. -/
def FitsBuffer (mem : Print.Memory) (fmt : String) (args : List (BitVec 32)) : Prop :=
  ∃ text, vsprintf ((characters fmt).length + 1) mem (characters fmt) args = some text ∧ text.buf.length ≤ 512

/-! ### The report -/

def description (n : Nat) : List (BitVec 8) := characters (errDescription.getD n "")

/-- What `%X` prints: the digits of the absolute value, which for a negative number are looked up
below the table. -/
def hex (mem : Print.Memory) (v : BitVec 32) : List (BitVec 8) :=
  characters "0X" ++
    (numeral .sixteen v.toInt.natAbs).map fun d : Nat => digit mem false (if v.toInt < 0 then -d else d)

def line (label : String) (text : List (BitVec 8)) : List (BitVec 8) := characters label ++ text ++ [ascii '\n']

def reportText (mem : Print.Memory) (r : Cpu.Report) : List (BitVec 8) :=
  line "Exception! --> " (description r.errNo.toNat) ++ line "Vector:" (hex mem r.errNo) ++
    line "Error code:" (hex mem r.errCode) ++ line "EIP:" (hex mem r.eip) ++ line "CS:" (hex mem r.cs) ++
    line "EFLAGS:" (hex mem r.eflags)

/-- Memory has the texts of `err_description`. -/
def Described (mem : Print.Memory) (table : BitVec 32) : Prop :=
  ∀ n : BitVec 32, n.toNat < 20 → table + 64 * n ≠ 0 ∧ mem.string (table + 64 * n) = description n.toNat

variable {mem : Print.Memory} {v : BitVec 32}

/-- A number below `2 ^ 31` is printed in its own digits. -/
theorem hex_positive (positive : v.toNat < 2 ^ 31) :
    hex mem v = characters "0X" ++ (numeral .sixteen v.toNat).map (digitChar false) := by
  have value : v.toInt = v.toNat := BitVec.toInt_eq_toNat_of_lt (by omega)
  have forward : ¬ (v.toNat : Int) < 0 := by omega
  rw [hex, value, Int.natAbs_natCast]
  simp only [if_neg forward]
  rfl

/-! ### One line -/

theorem body_hex (v : BitVec 32) : body mem (ascii 'X') .none v =
    (numeral .sixteen v.toInt.natAbs).map fun d : Nat => digit mem false (if v.toInt < 0 then -d else d) := by
  have sign (d : Nat) : Print.loopSign v .none * d = if v.toInt < 0 then -(d : Int) else d := by
    rw [Print.loopSign]
    by_cases below : v.toInt < 0
    · rw [if_pos ⟨below, .inl rfl⟩, if_pos below, Int.neg_one_mul]
    · rw [if_neg (fun both => below both.1), if_neg below, Int.one_mul]
  have plain : body mem (ascii 'X') .none v = (Print.tmp mem v .sixteen .none).reverse := rfl
  simp only [plain, Print.tmp_eq, sign]
  by_cases zero : v = 0
  · subst zero
    rfl
  · have nonzero : ¬ v.toInt.natAbs = 0 := fun none => zero (BitVec.eq_of_toInt_eq (Int.natAbs_eq_zero.mp none))
    rw [if_neg zero, numeral, if_neg nonzero, List.map_reverse]
    rfl

/-- A conversion without flags and width has no padding. -/
theorem field_plain (letter : BitVec 8) (arg : BitVec 32) :
    Print.field mem letter (-1) .none arg = head letter .none arg ++ body mem letter .none arg := by
  have narrow : (-1 - ((head letter .none arg).length + (body mem letter .none arg).length : Nat) : Int).toNat = 0 := by
    omega
  rw [Print.field, narrow, List.replicate_zero, List.append_nil, List.append_nil]
  exact ite_self _

theorem field_hex (v : BitVec 32) : Print.field mem (ascii 'X') (-1) .none v = hex mem v := by
  rw [field_plain, body_hex]
  rfl

theorem hex_length (v : BitVec 32) : (hex mem v).length ≤ 12 := by
  have digits : (body mem (ascii 'X') .none v).length ≤ 10 :=
    Print.body_short mem v (show Print.baseOf (ascii 'X') = some .sixteen from rfl)
  rw [body_hex] at digits
  rw [hex, List.length_append]
  have two : (characters "0X").length = 2 := by decide
  omega

theorem field_string (address : BitVec 32) (set : address ≠ 0) :
    Print.field mem (ascii 's') (-1) .none address = mem.string address := by
  have plain : body mem (ascii 's') .none address = Print.stringAt mem address := rfl
  rw [field_plain, plain, Print.stringAt, if_neg set]
  rfl

theorem letter_ends : ∀ letter ∈ letters, letter ≠ 0 ∧ Print.isDigit letter = false ∧ letter ≠ ascii '-' := by decide

theorem texts_text (label : List (BitVec 8)) (args : List (BitVec 32)) :
    (texts mem (label.map .text) args).flatten = label := by
  induction label with
  | nil => rfl
  | cons c label ih => exact congrArg (c :: ·) ih

/-- A label, a conversion and a newline. -/
theorem vsprintf_line (label : List (BitVec 8)) (clean : ∀ c ∈ label, c ≠ 0 ∧ c ≠ ascii '%') {letter : BitVec 8}
    (own : letter ∈ letters) (arg : BitVec 32) :
    vsprintf ((label ++ [ascii '%', letter, ascii '\n']).length + 1) mem
        (label ++ [ascii '%', letter, ascii '\n']) [arg] =
      some
        { buf := label ++ Print.field mem letter (-1) .none arg ++ [ascii '\n'] ++ [0]
          ret := (label ++ Print.field mem letter (-1) .none arg ++ [ascii '\n']).length
          rest := [] } := by
  let f : Format := ⟨label.map .text ++ [.conversion [] [] letter, .text (ascii '\n')], none⟩
  have spelled : f.spelling = label ++ [ascii '%', letter, ascii '\n'] := by
    simp [f, Format.spelling, Format.tail, Piece.spelling, List.flatMap_map]
  obtain ⟨nonzero, digit, minus⟩ := letter_ends letter own
  have proper : f.Proper := by
    constructor
    · intro piece member
      simp only [f, List.mem_append, List.mem_map, List.mem_cons, List.not_mem_nil, or_false] at member
      rcases member with ⟨c, inside, rfl⟩ | rfl | rfl
      · exact clean c inside
      · exact ⟨nonzero, ⟨by simp, by simp, by simp⟩, digit, fun _ => minus⟩
      · exact ⟨by decide, by decide⟩
    · intro flags width cut
      cases cut
  have count : (label.map Piece.text).countP Piece.takes = 0 := by
    simp [List.countP_map, Function.comp_def, Piece.takes]
  have takes : (Piece.conversion [] [] letter).takes = true := decide_eq_true own
  have arity : f.arity = 1 := by
    simp only [f, Format.arity, List.countP_append, count, List.countP_cons, takes]
    rfl
  have flat : (texts mem f.pieces [arg]).flatten = label ++ Print.field mem letter (-1) .none arg ++ [ascii '\n'] := by
    simp only [f, Print.texts_append, List.flatten_append, texts_text, count, List.drop_zero, texts,
      Print.written_field mem own]
    simp only [List.flatten_cons, List.flatten_nil, List.append_nil, List.append_assoc]
    rfl
  have done := Print.vsprintf_format mem [arg] f proper (Nat.le_of_eq arity) (Nat.lt_succ_self f.spelling.length)
  rw [spelled, flat, arity] at done
  simpa [f, Format.remainder] using done

/-! ### The calls -/

variable {screen : BitVec 32 → BitVec 16} {t : Terminals} {l : PrintBuffer}

/-- The call returns, and its text is typed. -/
theorem printk_spec (settled : Settled screen t) {fmt : String} {args : List (BitVec 32)} {text : Print.Result}
    (formatted : vsprintf ((characters fmt).length + 1) mem (characters fmt) args = some text)
    (short : text.buf.length ≤ 512) : ∃ t', printk l mem fmt args t = some t' ∧ Settled screen t' ∧
      paper screen t'.console = (paper screen t.console).typeAll 80 blank (output (text.buf.take text.ret)) := by
  have stored := l.stored text.buf short
  have length := vsprintf_length formatted
  have small : text.ret < 2 ^ 31 := by omega
  obtain ⟨t', loads, done, _⟩ := ttyWrite_zero (l.memory text.buf) t l.buf.toNat text.ret
    (fun i inside => ⟨_, stored i (by omega)⟩) (toNat_toInt_ofNat small)
  rw [BitVec.ofNat_toNat, BitVec.setWidth_eq] at done
  obtain ⟨after, typed⟩ := settled.printk ⟨⟨_, _, formatted⟩, stored, short⟩ done
  refine ⟨t', ?_, after, typed⟩
  rw [printk, formatted]
  exact congrArg (Option.bind · _) done

/-- A call for a line types the line. -/
theorem printk_line (l : PrintBuffer) (mem : Print.Memory) (settled : Settled screen t) (fmt label : String)
    {letter : BitVec 8} (own : letter ∈ letters)
    (format : characters fmt = characters label ++ [ascii '%', letter, ascii '\n'])
    (clean : ∀ c ∈ characters label, c ≠ 0 ∧ c ≠ ascii '%') {arg : BitVec 32} {text : List (BitVec 8)}
    (shown : Print.field mem letter (-1) .none arg = text) (short : (characters label).length + text.length ≤ 510) :
    FitsBuffer mem fmt [arg] ∧ ∃ t', printk l mem fmt [arg] t = some t' ∧ Settled screen t' ∧
      paper screen t'.console = (paper screen t.console).typeAll 80 blank (output (line label text)) := by
  have formatted : vsprintf _ mem _ [arg] = some _ := vsprintf_line (characters label) clean own arg
  rw [← format, shown] at formatted
  have fits : (characters label ++ text ++ [ascii '\n'] ++ [0]).length ≤ 512 := by
    simp
    omega
  obtain ⟨t', done, after, typed⟩ := printk_spec (l := l) settled formatted fits
  rw [List.take_left] at typed
  exact ⟨⟨_, formatted, fits⟩, t', done, after, typed⟩

/-- A call for a number, in hexadecimal. -/
theorem printk_hex (l : PrintBuffer) (mem : Print.Memory) (settled : Settled screen t) (fmt label : String)
    (format : characters fmt = characters label ++ characters "%X\n")
    (clean : ∀ c ∈ characters label, c ≠ 0 ∧ c ≠ ascii '%') (short : (characters label).length ≤ 400)
    (v : BitVec 32) : FitsBuffer mem fmt [v] ∧ ∃ t', printk l mem fmt [v] t = some t' ∧ Settled screen t' ∧
      paper screen t'.console = (paper screen t.console).typeAll 80 blank (output (line label (hex mem v))) := by
  have digits : (hex mem v).length ≤ 12 := hex_length v
  exact printk_line l mem settled fmt label (by decide) format clean (field_hex v) (by omega)

theorem output_append (a b : List (BitVec 8)) : output (a ++ b) = output a ++ output b := by
  simp [output]

theorem description_length : ∀ n < 20, (description n).length ≤ 63 := by decide

/-- All six calls return, their texts fit, and the report is typed. -/
theorem syserrHandler_spec (settled : Settled screen t) {table : BitVec 32} (described : Described mem table)
    (r : Cpu.Report) (known : r.errNo.toNat < 20) :
    (∀ call ∈ reportCalls table r, FitsBuffer mem call.1 call.2) ∧
    ∃ t', syserrHandler l mem table r t = some t' ∧ Settled screen t' ∧
      paper screen t'.console = (paper screen t.console).typeAll 80 blank (output (reportText mem r)) := by
  obtain ⟨set, string⟩ := described r.errNo known
  -- each line fits into the buffer, the longest of them with the description
  have longest := description_length r.errNo.toNat known
  obtain ⟨fits₁, t₁, done₁, settled₁, typed₁⟩ := printk_line l mem settled "Exception! --> %s\n" "Exception! --> "
    (by decide) (by decide) (by decide) ((field_string _ set).trans string)
    (Nat.add_le_add (show _ ≤ 400 by decide) (show _ ≤ 110 by omega))
  obtain ⟨fits₂, t₂, done₂, settled₂, typed₂⟩ :=
    printk_hex l mem settled₁ "Vector:%X\n" "Vector:" (by decide) (by decide) (by decide) r.errNo
  obtain ⟨fits₃, t₃, done₃, settled₃, typed₃⟩ :=
    printk_hex l mem settled₂ "Error code:%X\n" "Error code:" (by decide) (by decide) (by decide) r.errCode
  obtain ⟨fits₄, t₄, done₄, settled₄, typed₄⟩ :=
    printk_hex l mem settled₃ "EIP:%X\n" "EIP:" (by decide) (by decide) (by decide) r.eip
  obtain ⟨fits₅, t₅, done₅, settled₅, typed₅⟩ :=
    printk_hex l mem settled₄ "CS:%X\n" "CS:" (by decide) (by decide) (by decide) r.cs
  obtain ⟨fits₆, t₆, done₆, settled₆, typed₆⟩ :=
    printk_hex l mem settled₅ "EFLAGS:%X\n" "EFLAGS:" (by decide) (by decide) (by decide) r.eflags
  refine ⟨?_, t₆, ?_, settled₆, ?_⟩
  · simp only [reportCalls, List.forall_mem_cons]
    exact ⟨fits₁, fits₂, fits₃, fits₄, fits₅, fits₆, List.forall_mem_nil _⟩
  · simp only [syserrHandler_eq, reportCalls, List.foldlM_cons, List.foldlM_nil, done₁, done₂, done₃, done₄, done₅,
      done₆, Option.pure_def, Option.bind_eq_bind, Option.bind_some]
  · rw [typed₆, typed₅, typed₄, typed₃, typed₂, typed₁]
    simp only [reportText, output_append, Paper.typeAll, List.foldl_append]

/-! ### From the exception to the display -/

/-- Every number that an entry pushes has a text. -/
theorem numberOf_known : ∀ row ∈ idtRows, (Cpu.exception row.2.1).isSome → (Cpu.numberOf row.1).toNat < 20 := by
  decide

/-- The entry of an exception gives `syserrHandler` a report that it can print without a line too long for
`buf`, and the display then shows the report behind what the kernel and the programs have written before. -/
theorem exception_displayed {hist : List (Terminals × Action)} (run : Run (terminals screen) hist t)
    {vector : BitVec 8} {entry : Entry} {privilege : BitVec 16} {stub : Cpu → Cpu}
    (row : rowOf vector = some (entry, privilege)) (reports : Cpu.exception entry = some stub) {table : BitVec 32}
    (described : Described mem table) (s : Cpu) (eflags cs eip code : BitVec 32) :
    let r : Cpu.Report := ⟨Cpu.numberOf vector, if Cpu.pushesCode vector then code else -1, eip, cs, eflags⟩
    (stub (s.fault vector eflags cs eip code)).report = some r ∧
    (∀ call ∈ reportCalls table r, FitsBuffer mem call.1 call.2) ∧ ∃ t', syserrHandler l mem table r t = some t' ∧
      let shown := (typedOn screen hist).typeAll 80 blank (output (reportText mem r))
      shown.row < 204 → t'.console.shown = shown.picture 80 25 := by
  intro r
  have fits := Cpu.exception_fits _ (Cpu.row_mem row) stub reports
  have report : (stub (s.fault vector eflags cs eip code)).report = some r := by
    simp only [fits, Cpu.fault, r]
    cases Cpu.pushesCode vector with
    | true => rfl
    | false => rfl
  -- the table has a text for the number, so that the handler can print all of the report
  have known : (Cpu.numberOf vector).toNat < 20 := numberOf_known _ (Cpu.row_mem row) (by rw [reports]; rfl)
  obtain ⟨settled, same⟩ := settled_of_run run
  obtain ⟨short, t', handled, ⟨_, _, upToDate⟩, typed⟩ := syserrHandler_spec (l := l) settled described r known
  refine ⟨report, short, t', handled, fun fits => ?_⟩
  rw [← same, ← typed] at fits ⊢
  obtain ⟨shows, set⟩ := upToDate fits
  rw [← set]
  exact shows.shown fits

/-! A general protection fault right after boot, with `buf` in the page 256. -/

/-- The words of a page with a text from byte `o` on. -/
def pageWith (words : Nat → BitVec 32) : Nat → List (BitVec 8) → Nat → BitVec 32
  | _, [] => words
  | o, c :: text => Mm.Memory.setByte (pageWith words (o + 1) text) o c

theorem byte_pageWith (words : Nat → BitVec 32) (o : Nat) (text : List (BitVec 8)) (i : Nat)
    (inside : i < text.length) : Mm.Memory.byte (pageWith words o text) (o + i) = text[i] := by
  induction text generalizing o i with
  | nil => cases inside
  | cons c text ih =>
    rw [pageWith, Mm.Memory.byte_setByte]
    cases i with
    | zero => exact if_pos (Nat.add_zero o)
    | succ i =>
      rw [if_neg (by omega), List.getElem_cons_succ, ← ih (o + 1) i (Nat.lt_of_succ_lt_succ inside)]
      congr 1
      omega

def bufferPage (text : List (BitVec 8)) : Mm.Memory :=
  { Mm.Spaces.bootMemory with
    page := Function.update Mm.Spaces.bootMemory.page 256 (pageWith (fun _ => 0) 0 text) }

theorem readsText_bufferPage (text : List (BitVec 8)) (short : text.length ≤ 512) :
    ReadsText (bufferPage text) (0x100000 : BitVec 32).toNat text := by
  intro i inside
  have address : (BitVec.ofNat 32 ((0x100000 : BitVec 32).toNat + i)).toNat = 0x100000 + i := by
    rw [BitVec.toNat_ofNat]
    exact Nat.mod_eq_of_lt (show 0x100000 + i < 2 ^ 32 by omega)
  have dir : Mm.dirIndex (BitVec.ofNat 32 ((0x100000 : BitVec 32).toNat + i)) = 0 := by
    rw [Mm.dirIndex_eq, address]
    omega
  have table : Mm.tableIndex (BitVec.ofNat 32 ((0x100000 : BitVec 32).toNat + i)) = 256 := by
    rw [Mm.tableIndex_eq, address]
    omega
  have offset : Mm.byteIndex (BitVec.ofNat 32 ((0x100000 : BitVec 32).toNat + i)) = 0 + i := by
    rw [Mm.byteIndex_eq, address]
    omega
  have first : (bufferPage text).page 0 0 = Mm.freshEntry 1 := rfl
  have entry : (bufferPage text).page 1 256 = Mm.freshEntry 256 := rfl
  have walked : (bufferPage text).walk (BitVec.ofNat 32 ((0x100000 : BitVec 32).toNat + i)) =
      some (Mm.freshEntry 256) := by
    rw [Mm.Memory.walk, dir, table, first, Mm.frame_freshEntry (by decide), entry]
    exact if_pos ⟨Mm.present_freshEntry 1, Mm.present_freshEntry 256⟩
  rw [Mm.Memory.readByte, walked, Option.map_some, offset, Mm.frame_freshEntry (by decide)]
  exact congrArg some (byte_pageWith _ 0 text i inside)

def pageBuffer : PrintBuffer where
  buf := 0x100000
  memory := bufferPage
  stored := readsText_bufferPage

def bootTexts : Print.Memory := ⟨fun _ _ => 0, fun a => description ((a - 0x8000).toNat / 64)⟩

theorem described_bootTexts : Described bootTexts 0x8000 := by
  intro n small
  have distance : (0x8000 + 64 * n - 0x8000).toNat = 64 * n.toNat := by bv_omega
  refine ⟨by bv_omega, ?_⟩
  change description ((0x8000 + 64 * n - 0x8000).toNat / 64) = description n.toNat
  rw [distance, Nat.mul_div_cancel_left _ (by decide)]

/-- The report begins at the cursor that the boot code has left. -/
theorem exception_displayed_protection : ∃ t',
    syserrHandler pageBuffer bootTexts 0x8000 ⟨0xD, 0x18, 0x400, 0x0f, 0x3202⟩ initialTerminals = some t' ∧
      t'.console.shown.cells 9 0 = 0x0F45 ∧ t'.console.shown.cells 10 7 = 0x0F30 := by
  have row : rowOf 0xD = some (.generalProtection, privilegeKernel) := by decide
  have started : Run (terminals fun _ => 0) [] initialTerminals := .init rfl
  obtain ⟨_, _, t', handled, displayed⟩ := exception_displayed started row rfl described_bootTexts (l := pageBuffer)
    (Cpu.caller 4) 0x3202 0x0f 0x400 0x18
  have shown := displayed (by decide +kernel)
  refine ⟨t', handled, ?_, ?_⟩
  · rw [shown]
    decide +kernel
  · rw [shown]
    decide +kernel

end OperatorSystem.Kernel
