import OperatorSystem.Chr.Console
import OperatorSystem.Library.Transition
import Mathlib.Tactic.IntervalCases
import Mathlib.Algebra.Group.Nat.Even

/-!
# The keyboard (`keyboard.c`, `keyboard.h`)

`keymap` has words for entries, but `keyboardHandler` goes through a row with a
pointer to bytes: the columns 1 and 2 are bytes of the entry of column 0, and
always 0. The codes of the numeric pad are codes of characters too, so its
translation also catches digits and punctuation of the other keys. The main
result `decoding_iff` says for which events the flags and the characters are
right all the same.
-/

namespace OperatorSystem.Chr

/-! ### The key codes -/

namespace Key

def esc : Nat := 0x01
def tab : Nat := 0x02
def enter : Nat := 0x03
def backspace : Nat := 0x04
def guiL : Nat := 0x05
def guiR : Nat := 0x06
def apps : Nat := 0x07
def shiftL : Nat := 0x08
def shiftR : Nat := 0x09
def ctrlL : Nat := 0x0A
def ctrlR : Nat := 0x0B
def altL : Nat := 0x0C
def altR : Nat := 0x0D
def capsLock : Nat := 0x0E
def numLock : Nat := 0x0F
def scrollLock : Nat := 0x10
def f1 : Nat := 0x11
def f2 : Nat := 0x12
def f3 : Nat := 0x13
def f4 : Nat := 0x14
def f5 : Nat := 0x15
def f6 : Nat := 0x16
def f7 : Nat := 0x17
def f8 : Nat := 0x18
def f9 : Nat := 0x19
def f10 : Nat := 0x1A
def f11 : Nat := 0x1B
def f12 : Nat := 0x1C
def insert : Nat := 0x1F
def delete : Nat := 0x20
def home : Nat := 0x21
def endKey : Nat := 0x22
def pageup : Nat := 0x23
def pagedown : Nat := 0x24
def up : Nat := 0x25
def down : Nat := 0x26
def left : Nat := 0x27
def right : Nat := 0x28
def padSlash : Nat := 0x2C
def padStar : Nat := 0x2D
def padMinus : Nat := 0x2E
def padPlus : Nat := 0x2F
def padEnter : Nat := 0x30
def padDot : Nat := 0x31
def pad0 : Nat := 0x32
def pad1 : Nat := 0x33
def pad2 : Nat := 0x34
def pad3 : Nat := 0x35
def pad4 : Nat := 0x36
def pad5 : Nat := 0x37
def pad6 : Nat := 0x38
def pad7 : Nat := 0x39
def pad8 : Nat := 0x3A
def pad9 : Nat := 0x3B
def padUp : Nat := pad8
def padDown : Nat := pad2
def padLeft : Nat := pad4
def padRight : Nat := pad6
def padHome : Nat := pad7
def padEnd : Nat := pad1
def padPageup : Nat := pad9
def padPagedown : Nat := pad3
def padIns : Nat := pad0
def padMid : Nat := pad5

end Key

section

open Key

def ch (c : Char) : Nat := c.toNat

/-- The rows from `0x5E` on are all zeros. -/
def keymap : List (List Nat) := [
  [0, 0, 0], [esc, esc, 0], [ch '1', ch '!', 0], [ch '2', ch '@', 0],
  [ch '3', ch '#', 0], [ch '4', ch '$', 0], [ch '5', ch '%', 0], [ch '6', ch '^', 0],
  [ch '7', ch '&', 0], [ch '8', ch '*', 0], [ch '9', ch '(', 0], [ch '0', ch ')', 0],
  [ch '-', ch '_', 0], [ch '=', ch '+', 0], [backspace, backspace, 0], [tab, tab, 0],
  [ch 'q', ch 'Q', 0], [ch 'w', ch 'W', 0], [ch 'e', ch 'E', 0], [ch 'r', ch 'R', 0],
  [ch 't', ch 'T', 0], [ch 'y', ch 'Y', 0], [ch 'u', ch 'U', 0], [ch 'i', ch 'I', 0],
  [ch 'o', ch 'O', 0], [ch 'p', ch 'P', 0], [ch '[', 0x7B, 0], [ch ']', 0x7D, 0],
  [enter, enter, padEnter], [ctrlL, ctrlL, ctrlR], [ch 'a', ch 'A', 0], [ch 's', ch 'S', 0],
  [ch 'd', ch 'D', 0], [ch 'f', ch 'F', 0], [ch 'g', ch 'G', 0], [ch 'h', ch 'H', 0],
  [ch 'j', ch 'J', 0], [ch 'k', ch 'K', 0], [ch 'l', ch 'L', 0], [ch ';', ch ':', 0],
  [0x27, 0x22, 0], [0x60, ch '~', 0], [shiftL, shiftL, 0], [0x5C, ch '|', 0],
  [ch 'z', ch 'Z', 0], [ch 'x', ch 'X', 0], [ch 'c', ch 'C', 0], [ch 'v', ch 'V', 0],
  [ch 'b', ch 'B', 0], [ch 'n', ch 'N', 0], [ch 'm', ch 'M', 0], [ch ',', ch '<', 0],
  [ch '.', ch '>', 0], [ch '/', ch '?', padSlash], [shiftR, shiftR, 0], [ch '*', ch '*', 0],
  [altL, altL, altR], [ch ' ', ch ' ', 0], [capsLock, capsLock, 0], [f1, f1, 0],
  [f2, f2, 0], [f3, f3, 0], [f4, f4, 0], [f5, f5, 0],
  [f6, f6, 0], [f7, f7, 0], [f8, f8, 0], [f9, f9, 0],
  [f10, f10, 0], [numLock, numLock, 0], [scrollLock, scrollLock, 0], [padHome, ch '7', home],
  [padUp, ch '8', up], [padPageup, ch '9', pageup], [padMinus, ch '-', 0], [padLeft, ch '4', left],
  [padMid, ch '5', 0], [padRight, ch '6', right], [padPlus, ch '+', 0], [padEnd, ch '1', endKey],
  [padDown, ch '2', down], [padPagedown, ch '3', pagedown], [padIns, ch '0', insert], [padDot, ch '.', delete],
  [0, 0, 0], [0, 0, 0], [0, 0, 0], [f11, f11, 0],
  [f12, f12, 0], [0, 0, 0], [0, 0, 0], [0, 0, guiL],
  [0, 0, guiR], [0, 0, apps]]

end

/-- The row of a scan code. -/
def row (code : BitVec 8) : List Nat := keymap.getD code.toNat [0, 0, 0]

/-- A byte of a row, as `keyrow` reads it: the entries are words of four bytes, the low one first. -/
def keyrow (row : List Nat) (i : Nat) : BitVec 8 := BitVec.ofNat 8 (row.getD (i / 4) 0 / 256 ^ (i % 4))

/-! ### The handler -/

/-- The variables of `keyboard.c`, the input queue of terminal 0, and the bytes sent to the keyboard. -/
structure Keyboard where
  shiftL : Bool
  shiftR : Bool
  altL : Bool
  altR : Bool
  ctrlL : Bool
  ctrlR : Bool
  capsLock : Bool
  numLock : Bool
  scrollLock : Bool
  codeWithE0 : Bool
  readQ : TtyQueue
  sent : List (BitVec 8)

namespace Keyboard

/-- `setLeds`; the waits for the controller are left out. -/
def setLeds (s : Keyboard) : Keyboard :=
  let leds := BitVec.ofNat 8 (4 * s.capsLock.toNat + 2 * s.numLock.toNat + s.scrollLock.toNat)
  { s with sent := s.sent ++ [0xED, leds] }

def code (scanCode : BitVec 8) : BitVec 8 := scanCode &&& 0x7F

def make (scanCode : BitVec 8) : Bool := scanCode &&& 0x80 = 0

def caps (s : Keyboard) (scanCode : BitVec 8) : Bool :=
  let keyrow := keyrow (row (code scanCode))
  let caps := s.shiftL || s.shiftR
  if s.capsLock ∧ ((0x61 ≤ (keyrow 0).toNat ∧ (keyrow 0).toNat ≤ 0x7A) ∨
      (0x41 ≤ (keyrow 1).toNat ∧ (keyrow 1).toNat ≤ 0x5A)) then !caps else caps

def column (s : Keyboard) (scanCode : BitVec 8) : Nat :=
  if s.codeWithE0 then 2 else if s.caps scanCode then 1 else 0

/-- The decoded key, a signed character. -/
def key (s : Keyboard) (scanCode : BitVec 8) : Int :=
  (keyrow (row (code scanCode)) (s.column scanCode)).toInt

/-- The first `switch`. -/
def setFlags (s : Keyboard) (key : Int) (make : Bool) : Keyboard :=
  if key = Key.shiftL then { s with shiftL := make }
  else if key = Key.shiftR then { s with shiftR := make }
  else if key = Key.ctrlL then { s with ctrlL := make }
  else if key = Key.ctrlR then { s with ctrlR := make }
  else if key = Key.altL then { s with altL := make }
  else if key = Key.altR then { s with altR := make }
  else if key = Key.capsLock then if make then setLeds { s with capsLock := !s.capsLock } else s
  else if key = Key.numLock then if make then setLeds { s with numLock := !s.numLock } else s
  else if key = Key.scrollLock then if make then setLeds { s with scrollLock := !s.scrollLock } else s
  else s

/-- The translation of the numeric pad. -/
def translate (numLock : Bool) (key : Int) : Int :=
  if key = Key.padSlash then ch '/'
  else if key = Key.padStar then ch '*'
  else if key = Key.padMinus then ch '-'
  else if key = Key.padPlus then ch '+'
  else if key = Key.padEnter then Key.enter
  else if numLock then
    if Key.pad0 ≤ key ∧ key ≤ Key.pad9 then key - Key.pad0 + ch '0'
    else if key = Key.padDot then ch '.'
    else key
  else if key = Key.padHome then Key.home
  else if key = Key.padEnd then Key.endKey
  else if key = Key.padPageup then Key.pageup
  else if key = Key.padPagedown then Key.pagedown
  else if key = Key.padIns then Key.insert
  else if key = Key.padUp then Key.up
  else if key = Key.padDown then Key.down
  else if key = Key.padLeft then Key.left
  else if key = Key.padRight then Key.right
  else if key = Key.padDot then Key.delete
  else key

/-- The character that goes into the queue. -/
def typed (numLock : Bool) (key : Int) : Int :=
  if Key.padSlash ≤ key ∧ key ≤ Key.pad9 then translate numLock key else key

def put (s : Keyboard) (key : Int) : Keyboard := { s with readQ := s.readQ.put (BitVec.ofInt 8 key) }

def keyboardHandler (s : Keyboard) (scanCode : BitVec 8) : Keyboard :=
  if scanCode = 0xE1 then s
  else if scanCode = 0xE0 then { s with codeWithE0 := true }
  else
    let key := s.key scanCode
    let s := { s with codeWithE0 := false }.setFlags key (make scanCode)
    if make scanCode then s.put (typed s.numLock key) else s

/-! ### Keys and flags -/

/-- The keys whose flag says whether they are down. -/
inductive Modifier
  | shiftL | shiftR | ctrlL | ctrlR | altL | altR

namespace Modifier

def code : Modifier → Nat
  | shiftL => Key.shiftL
  | shiftR => Key.shiftR
  | ctrlL => Key.ctrlL
  | ctrlR => Key.ctrlR
  | altL => Key.altL
  | altR => Key.altR

def flag (s : Keyboard) : Modifier → Bool
  | shiftL => s.shiftL
  | shiftR => s.shiftR
  | ctrlL => s.ctrlL
  | ctrlR => s.ctrlR
  | altL => s.altL
  | altR => s.altR

end Modifier

/-- The keys that switch a flag. -/
inductive Lock
  | caps | num | scroll

namespace Lock

def code : Lock → Nat
  | caps => Key.capsLock
  | num => Key.numLock
  | scroll => Key.scrollLock

def flag (s : Keyboard) : Lock → Bool
  | caps => s.capsLock
  | num => s.numLock
  | scroll => s.scrollLock

/-- `num_lock` starts with `TRUE`. -/
def initial : Lock → Bool
  | num => true
  | _ => false

end Lock

/-- The variables of `keyboard.c` have their initial values. -/
def initial (queue : TtyQueue) : Keyboard :=
  ⟨false, false, false, false, false, false, false, true, false, false, queue, []⟩

/-- The bytes before a scan code, which select nothing by themselves. -/
def Prefix (scanCode : BitVec 8) : Prop := scanCode = 0xE0 ∨ scanCode = 0xE1

/-- The entry of `keymap` that the row and the column of the event select. -/
def entry (s : Keyboard) (scanCode : BitVec 8) : Nat := (row (code scanCode)).getD (s.column scanCode) 0

/-- The scan codes of the numeric pad. -/
def OnPad (s : Keyboard) (scanCode : BitVec 8) : Prop :=
  (0x47 ≤ code scanCode ∧ code scanCode ≤ 0x53) ∨ code scanCode = 0x37 ∨
    s.codeWithE0 ∧ (code scanCode = 0x1C ∨ code scanCode = 0x35)

def Printable (c : Nat) : Prop := 0x20 ≤ c ∧ c ≤ 0x7E

instance (scanCode : BitVec 8) : Decidable (Prefix scanCode) := inferInstanceAs (Decidable (_ ∨ _))

instance (s : Keyboard) (scanCode : BitVec 8) : Decidable (s.OnPad scanCode) := inferInstanceAs (Decidable (_ ∨ _))

instance (c : Nat) : Decidable (Printable c) := inferInstanceAs (Decidable (_ ∧ _))

section Decoding

variable {s : Keyboard} {b : BitVec 8}

/-- All entries are codes of seven bits. -/
theorem keymap_lt : ∀ row ∈ keymap, ∀ c ∈ row, c < 128 := by decide

theorem row_lt (code : BitVec 8) (i : Nat) : (row code).getD i 0 < 128 := by
  rw [List.getD_eq_getElem?_getD]
  cases found : (row code)[i]? with
  | none => exact Nat.two_pow_pos 7
  | some c =>
    have member : c ∈ row code := List.mem_of_getElem? found
    rw [row, List.getD_eq_getElem?_getD] at member
    cases line : keymap[code.toNat]? with
    | none =>
      rw [line] at member
      simp only [Option.getD_none, List.mem_cons, List.not_mem_nil, or_false, or_self] at member
      rw [member]
      exact Nat.two_pow_pos 7
    | some r =>
      rw [line] at member
      exact keymap_lt r (List.mem_of_getElem? line) c member

theorem column_le (s : Keyboard) (b : BitVec 8) : s.column b ≤ 2 := by
  unfold column
  split
  · exact Nat.le_refl 2
  · split <;> omega

/-- Only in column 0 is the key the entry of the table. -/
theorem key_eq (s : Keyboard) (b : BitVec 8) :
    s.key b = if s.column b = 0 then (s.entry b : Int) else 0 := by
  have first := row_lt (code b) 0
  have small := column_le s b
  unfold key entry keyrow
  generalize s.column b = i at small ⊢
  generalize entries : row (code b) = r at first ⊢
  rw [Nat.div_eq_of_lt (show i < 4 by omega), Nat.mod_eq_of_lt (show i < 4 by omega)]
  split
  next column =>
    subst column
    rw [Nat.pow_zero, Nat.div_one, BitVec.toInt_eq_toNat_of_lt, BitVec.toNat_ofNat, Nat.mod_eq_of_lt]
    · omega
    · rw [BitVec.toNat_ofNat, Nat.mod_eq_of_lt] <;> omega
  next column =>
    have above : 256 ≤ 256 ^ i := Nat.le_self_pow column 256
    rw [Nat.div_eq_of_lt (by omega)]
    rfl

/-! ### One event -/

@[simp] theorem flag_setLeds (m : Modifier) (s : Keyboard) : m.flag s.setLeds = m.flag s := by
  cases m <;> rfl

@[simp] theorem lock_setLeds (l : Lock) (s : Keyboard) : l.flag s.setLeds = l.flag s := by
  cases l <;> rfl

theorem code_lt (m : Modifier) : Key.shiftL ≤ m.code ∧ m.code < Key.capsLock := by
  cases m <;> decide

theorem lock_code (l : Lock) : Key.capsLock ≤ l.code ∧ l.code ≤ Key.scrollLock := by
  cases l <;> decide

/-- The first `switch` sets the flag of a modifier by its key only. -/
theorem flag_setFlags (m : Modifier) (s : Keyboard) (key : Int) (make : Bool) :
    m.flag (s.setFlags key make) = if key = m.code then make else m.flag s := by
  by_cases hit : key = m.code
  · rw [if_pos hit, hit]
    cases m <;> rfl
  · rw [if_neg hit]
    simp only [setFlags, apply_ite m.flag, flag_setLeds]
    cases m <;> simp only [Modifier.code] at hit <;> simp only [Modifier.flag, if_neg hit, ite_self]

theorem lock_setFlags (l : Lock) (s : Keyboard) (key : Int) (make : Bool) :
    l.flag (s.setFlags key make) = if key = l.code ∧ make then !l.flag s else l.flag s := by
  by_cases hit : key = l.code
  · rw [hit]
    cases l <;> cases make <;> rfl
  · rw [if_neg (not_and_of_not_left _ hit)]
    simp only [setFlags, apply_ite l.flag, lock_setLeds]
    cases l <;> simp only [Lock.code] at hit <;> simp only [Lock.flag, if_neg hit, ite_self]

theorem queue_setFlags (s : Keyboard) (key : Int) (make : Bool) :
    (s.setFlags key make).readQ = s.readQ ∧ (s.setFlags key make).codeWithE0 = s.codeWithE0 := by
  constructor
  · simp only [setFlags, apply_ite readQ, setLeds, ite_self]
  · simp only [setFlags, apply_ite codeWithE0, setLeds, ite_self]

theorem flag_put (m : Modifier) (s : Keyboard) (key : Int) : m.flag (s.put key) = m.flag s := by
  cases m <;> rfl

theorem lock_put (l : Lock) (s : Keyboard) (key : Int) : l.flag (s.put key) = l.flag s := by
  cases l <;> rfl

theorem flag_handler (event : ¬ Prefix b) (m : Modifier) :
    m.flag (s.keyboardHandler b) = if s.key b = m.code then make b else m.flag s := by
  obtain ⟨first, second⟩ := not_or.mp event
  rw [keyboardHandler, if_neg second, if_neg first]
  have same : m.flag { s with codeWithE0 := false } = m.flag s := by cases m <;> rfl
  split
  · rw [flag_put, flag_setFlags, same]
  · rw [flag_setFlags, same]

theorem lock_handler (event : ¬ Prefix b) (l : Lock) :
    l.flag (s.keyboardHandler b) = if s.key b = l.code ∧ make b then !l.flag s else l.flag s := by
  obtain ⟨first, second⟩ := not_or.mp event
  rw [keyboardHandler, if_neg second, if_neg first]
  have same : l.flag { s with codeWithE0 := false } = l.flag s := by cases l <;> rfl
  split
  · rw [lock_put, lock_setFlags, same]
  · rw [lock_setFlags, same]

theorem codeWithE0_handler (s : Keyboard) (b : BitVec 8) :
    (s.keyboardHandler b).codeWithE0 = if b = 0xE1 then s.codeWithE0 else decide (b = 0xE0) := by
  unfold keyboardHandler
  split
  · rfl
  split
  next prefixed => simp [prefixed]
  next plain =>
    have cleared : ({ s with codeWithE0 := false }.setFlags (s.key b) (make b)).codeWithE0 = false :=
      (queue_setFlags _ _ _).2
    simp only [plain, decide_false]
    split
    · exact cleared
    · exact cleared

/-- A make of any key puts one character into the queue. -/
theorem readQ_handler (event : ¬ Prefix b) (made : make b = true) :
    (s.keyboardHandler b).readQ = s.readQ.put (BitVec.ofInt 8 (typed s.numLock (s.key b))) := by
  obtain ⟨first, second⟩ := not_or.mp event
  rw [keyboardHandler, if_neg second, if_neg first]
  have queue := (queue_setFlags { s with codeWithE0 := false } (s.key b) (make b)).1
  have lock := lock_setFlags .num { s with codeWithE0 := false } (s.key b) (make b)
  simp only [Lock.flag] at lock
  rw [if_pos made]
  simp only [put, queue, lock]
  congr 2
  -- the key that switches `num_lock` is not a key of the pad
  unfold typed
  split
  next pad =>
    rw [if_neg]
    rintro ⟨switch, _⟩
    rw [switch] at pad
    exact absurd pad.1 (by decide)
  next => rfl

end Decoding

/-! ### The history of the events -/

/-- Each event hands one byte to `keyboardHandler`. -/
def events : Transition.System Keyboard (BitVec 8) where
  init s := ∃ queue, s = initial queue
  step s b s' := s' = s.keyboardHandler b

/-- The event is a make or a break of the key with this code. -/
def Decodes (x : Keyboard × BitVec 8) (code : Nat) : Prop := ¬ Prefix x.2 ∧ x.1.entry x.2 = code

instance (x : Keyboard × BitVec 8) (code : Nat) : Decidable (Decodes x code) := inferInstanceAs (Decidable (_ ∧ _))

/-- Whether the last event of a key was a make. -/
def lastMake (code : Nat) : List (Keyboard × BitVec 8) → Bool
  | [] => false
  | x :: hist => if Decodes x code then make x.2 else lastMake code hist

/-- The number of makes of a key. -/
def makes (code : Nat) : List (Keyboard × BitVec 8) → Nat
  | [] => 0
  | x :: hist => makes code hist + if Decodes x code ∧ make x.2 then 1 else 0

/-- Whether the last byte other than `0xE1` was `0xE0`. -/
def prefixed : List (Keyboard × BitVec 8) → Bool
  | [] => false
  | x :: hist => if x.2 = 0xE1 then prefixed hist else decide (x.2 = 0xE0)

/-- The flags say what the history says. -/
structure Flags (hist : List (Keyboard × BitVec 8)) (s : Keyboard) : Prop where
  modifiers : ∀ m : Modifier, m.flag s = lastMake m.code hist
  locks : ∀ l : Lock, l.flag s ≠ l.initial ↔ Odd (makes l.code hist)
  pending : s.codeWithE0 = prefixed hist
  column : ∀ b, s.column b = 2 ↔ prefixed hist

/-- What the key types without shift: the entry of column 0. -/
def unshifted (scanCode : BitVec 8) : Nat := (row (code scanCode)).getD 0 0

/-- The event puts the right character into the queue. A digit key of the pad
types its digit under NumLock, whatever the column. -/
structure Characters (s : Keyboard) (b : BitVec 8) : Prop where
  printable : ¬ s.OnPad b → Printable (s.entry b) →
    (s.keyboardHandler b).readQ = s.readQ.put (BitVec.ofNat 8 (s.entry b))
  untranslated : ¬ s.OnPad b → (s.keyboardHandler b).readQ = s.readQ.put (BitVec.ofInt 8 (s.key b))
  digits : s.OnPad b → s.numLock = true → ∀ d ≤ 9, unshifted b = Key.pad0 + d →
    (s.keyboardHandler b).readQ = s.readQ.put (BitVec.ofNat 8 (ch '0' + d))

/-- The code of a key of the numeric pad. -/
def PadCode (c : Nat) : Prop := Key.padSlash ≤ c ∧ c ≤ Key.pad9

/-- A key of the numeric pad that stands for a digit under NumLock. -/
def PadDigit (s : Keyboard) (b : BitVec 8) : Prop :=
  s.OnPad b ∧ s.numLock = true ∧ Key.pad0 ≤ unshifted b ∧ unshifted b ≤ Key.pad9

/-- In column 0 the make of a character is translated if it has the code of a
pad key, except for `7` without NumLock. In the other columns the key is always
0: no flag changes, and neither a character nor a digit is typed. -/
def Plain (s : Keyboard) (b : BitVec 8) : Prop :=
  if s.column b = 0 then
    make b = true → ¬ s.OnPad b → PadCode (s.entry b) → s.entry b = ch '7' ∧ s.numLock = false
  else (make b = true → (¬ s.OnPad b → ¬ Printable (s.entry b)) ∧ ¬ PadDigit s b) ∧
    (∀ m : Modifier, s.entry b = m.code → m.flag s = make b) ∧ ∀ l : Lock, s.entry b = l.code → make b = false

instance (s : Keyboard) (b : BitVec 8) : Decidable (PadDigit s b) := inferInstanceAs (Decidable (_ ∧ _))

instance (c : Nat) : Decidable (PadCode c) := inferInstanceAs (Decidable (_ ∧ _))

instance {p : Modifier → Prop} [DecidablePred p] : Decidable (∀ m, p m) :=
  decidable_of_iff (p .shiftL ∧ p .shiftR ∧ p .ctrlL ∧ p .ctrlR ∧ p .altL ∧ p .altR)
    ⟨fun all m => by cases m <;> simp only [all], fun all => by simp only [all, and_self]⟩

instance {p : Lock → Prop} [DecidablePred p] : Decidable (∀ l, p l) :=
  decidable_of_iff (p .caps ∧ p .num ∧ p .scroll)
    ⟨fun all l => by cases l <;> simp only [all], fun all => by simp only [all, and_self]⟩

instance (s : Keyboard) (b : BitVec 8) : Decidable (Plain s b) := inferInstanceAs (Decidable (ite _ _ _))

section Histories

variable {hist : List (Keyboard × BitVec 8)} {s : Keyboard} {b : BitVec 8}

theorem put_inj {queue : TtyQueue} {c d : BitVec 8} : queue.put c = queue.put d ↔ c = d := by
  constructor
  · intro same
    have stored := congrArg (fun q => q.buf queue.head) same
    simpa [TtyQueue.put] using stored
  · exact congrArg _

/-- `typed` keeps small codes small. -/
theorem typed_bound (numLock : Bool) {k : Int} (low : 0 ≤ k) (high : k < 128) :
    0 ≤ typed numLock k ∧ typed numLock k < 128 := by
  unfold typed
  split
  next pad =>
    obtain ⟨above, below⟩ := pad
    simp only [Key.padSlash, Key.pad9] at above below
    interval_cases k <;> cases numLock <;> decide
  next => exact ⟨low, high⟩

/-- The only code that the translation leaves as it is: `7` without NumLock. -/
theorem typed_eq_iff (numLock : Bool) (c : Nat) :
    typed numLock c = c ↔ (PadCode c → c = ch '7' ∧ numLock = false) := by
  unfold typed PadCode
  split
  next pad =>
    obtain ⟨low, high⟩ := pad
    have small : c < 60 := by simp only [Key.pad9] at high; omega
    have large : 44 ≤ c := by simp only [Key.padSlash] at low; omega
    interval_cases c <;> cases numLock <;> decide
  next outside =>
    refine iff_of_true rfl fun pad => absurd ?_ outside
    exact_mod_cast pad

theorem typed_digit {d : Nat} (digit : d ≤ 9) : typed true ((Key.pad0 + d : Nat) : Int) = (ch '0' + d : Nat) := by
  interval_cases d <;> rfl

theorem ofInt_inj {c d : Int} (c0 : 0 ≤ c) (c1 : c < 128) (d0 : 0 ≤ d) (d1 : d < 128) :
    BitVec.ofInt 8 c = BitVec.ofInt 8 d ↔ c = d := by
  constructor
  · intro same
    have equal := congrArg BitVec.toInt same
    rw [BitVec.toInt_ofInt_eq_self, BitVec.toInt_ofInt_eq_self] at equal <;> omega
  · exact congrArg _

/-- The entry belongs to the key by its code, if the column is 0. -/
theorem key_zero (column : s.column b = 0) : s.key b = s.entry b := (key_eq s b).trans (if_pos column)

theorem key_nonzero (column : s.column b ≠ 0) : s.key b = 0 := (key_eq s b).trans (if_neg column)

theorem entry_lt (s : Keyboard) (b : BitVec 8) : s.entry b < 128 := row_lt _ _

/-- An event in column 0 does to the flags what its entry says. -/
theorem decoded_zero (event : ¬ Prefix b) (column : s.column b = 0) (code : Nat) :
    s.key b = code ↔ Decodes (s, b) code := by
  rw [key_zero column, Nat.cast_inj]
  exact (and_iff_right event).symm

theorem characters_zero (event : ¬ Prefix b) (column : s.column b = 0) :
    (make b = true → Characters s b) ↔ (make b = true → ¬ s.OnPad b → PadCode (s.entry b) →
      s.entry b = ch '7' ∧ s.numLock = false) := by
  have small := entry_lt s b
  refine imp_congr_right fun made => ?_
  have queue := readQ_handler (s := s) event made
  have key := key_zero column
  -- both numbers fit in a byte, so the bytes agree where the numbers do
  have bound := typed_bound s.numLock (k := s.entry b) (by omega) (by omega)
  have same : BitVec.ofInt 8 (typed s.numLock (s.entry b)) = BitVec.ofInt 8 (s.entry b) ↔
      (PadCode (s.entry b) → s.entry b = ch '7' ∧ s.numLock = false) := by
    rw [ofInt_inj bound.1 bound.2 (by omega) (by omega), typed_eq_iff]
  rw [key] at queue
  constructor
  · intro right outside
    have put := right.untranslated outside
    rw [queue, key, put_inj] at put
    exact same.mp put
  · intro plain
    have put : ¬ s.OnPad b → (s.keyboardHandler b).readQ = s.readQ.put (BitVec.ofInt 8 (s.entry b)) := by
      intro outside
      rw [queue, put_inj]
      exact same.mpr (plain outside)
    constructor
    · intro outside _
      rw [put outside]
      rfl
    · intro outside
      rw [key]
      exact put outside
    · intro _ locked d digit first
      have entry : s.entry b = Key.pad0 + d := by
        rw [← first, Keyboard.entry, column]
        rfl
      rw [queue, locked, entry, typed_digit digit]
      rfl

theorem characters_nonzero (event : ¬ Prefix b) (column : s.column b ≠ 0) :
    (make b = true → Characters s b) ↔
      (make b = true → (¬ s.OnPad b → ¬ Printable (s.entry b)) ∧ ¬ PadDigit s b) := by
  have small := entry_lt s b
  refine imp_congr_right fun made => ?_
  -- outside the first column the key is always 0
  have queue := readQ_handler (s := s) event made
  have zero : typed s.numLock 0 = 0 := rfl
  rw [key_nonzero column, zero] at queue
  constructor
  · intro right
    constructor
    · intro outside printable
      have put := right.printable outside printable
      rw [queue, put_inj] at put
      obtain ⟨low, _⟩ := printable
      have equal := (ofInt_inj (c := 0) (d := s.entry b) (by omega) (by omega) (by omega) (by omega)).mp put
      omega
    · rintro ⟨pad, locked, low, high⟩
      simp only [Key.pad0, Key.pad9] at low high
      -- the key should type its digit, which is not 0
      have put := right.digits pad locked (unshifted b - Key.pad0) (by simp only [Key.pad0]; omega)
        (by simp only [Key.pad0]; omega)
      rw [queue, put_inj] at put
      have nonzero : ch '0' = 48 := rfl
      have equal := (ofInt_inj (c := 0) (d := (ch '0' + (unshifted b - Key.pad0) : Nat)) (by omega) (by omega)
        (by omega) (by simp only [Key.pad0]; omega)).mp put
      omega
  · rintro ⟨none, noDigit⟩
    constructor
    · intro outside printable
      exact absurd printable (none outside)
    · intro _
      rw [key_nonzero column]
      exact queue
    · intro pad locked d digit first
      refine absurd ⟨pad, locked, ?_, ?_⟩ noDigit
      · omega
      · simp only [Key.pad0, Key.pad9] at *
        omega

theorem lastMake_cons (code : Nat) (s : Keyboard) (b : BitVec 8) : lastMake code ((s, b) :: hist) =
    if Decodes (s, b) code then make b else lastMake code hist := rfl

theorem makes_cons (code : Nat) (s : Keyboard) (b : BitVec 8) : makes code ((s, b) :: hist) =
    makes code hist + if Decodes (s, b) code ∧ make b then 1 else 0 := rfl

/-- The flag for `0xE0` follows the history in every event. -/
theorem prefixed_step (flags : Flags hist s) (b : BitVec 8) :
    (s.keyboardHandler b).codeWithE0 = prefixed ((s, b) :: hist) := by
  rw [codeWithE0_handler, flags.pending]
  rfl

theorem column_eq_two (s : Keyboard) (b : BitVec 8) : s.column b = 2 ↔ s.codeWithE0 = true := by
  unfold column
  split
  · simp [*]
  · split <;> simp [*]

/-- A flag has switched an odd number of times exactly if one more makes it even. -/
theorem odd_add (n : Nat) (p : Prop) [Decidable p] : (Odd n ↔ Odd (n + if p then 1 else 0)) ↔ ¬ p := by
  split
  next holds => simp [holds, Nat.odd_add_one, -Nat.not_odd_iff_even]
  next not => simp [not]

/-- A byte `0xE0` or `0xE1` keeps the flags of all keys. -/
theorem flags_silent (before : Prefix b) (m : Modifier) (l : Lock) :
    m.flag (s.keyboardHandler b) = m.flag s ∧ l.flag (s.keyboardHandler b) = l.flag s := by
  unfold keyboardHandler
  rcases before with rfl | rfl
  · constructor
    · cases m <;> rfl
    · cases l <;> rfl
  · exact ⟨rfl, rfl⟩

theorem modifiers_step (flags : Flags hist s) (event : ¬ Prefix b) (m : Modifier) :
    m.flag (s.keyboardHandler b) = lastMake m.code ((s, b) :: hist) ↔
      (s.column b ≠ 0 → s.entry b = m.code → m.flag s = make b) := by
  have low := (code_lt m).1
  rw [flag_handler event, lastMake_cons, flags.modifiers]
  by_cases column : s.column b = 0
  · refine iff_of_true ?_ fun other => absurd column other
    simp only [decoded_zero event column]
  · have other : ¬ s.key b = m.code := by
      rw [key_nonzero column]
      simp only [Key.shiftL] at low
      omega
    have decodes : Decodes (s, b) m.code ↔ s.entry b = m.code := and_iff_right event
    rw [if_neg other, if_congr decodes rfl rfl]
    split
    next hit => simp [column, hit]
    next miss => simp [miss]

theorem locks_step (flags : Flags hist s) (event : ¬ Prefix b) (l : Lock) :
    (l.flag (s.keyboardHandler b) ≠ l.initial ↔ Odd (makes l.code ((s, b) :: hist))) ↔
      (s.column b ≠ 0 → s.entry b = l.code → make b = false) := by
  have low := (lock_code l).1
  have decodes : Decodes (s, b) l.code ↔ s.entry b = l.code := and_iff_right event
  rw [lock_handler event, makes_cons]
  by_cases column : s.column b = 0
  · refine iff_of_true ?_ fun other => absurd column other
    rw [if_congr (and_congr_left' (decoded_zero event column l.code)) rfl rfl]
    split
    next => rw [Nat.odd_add_one, ← flags.locks]; cases l.flag s <;> cases l.initial <;> decide
    next => exact flags.locks l
  · have other : ¬ (s.key b = l.code ∧ make b = true) := by
      rw [key_nonzero column]
      simp only [Key.capsLock] at low
      omega
    rw [if_neg other, flags.locks l, odd_add, decodes]
    simp [column]

/-- With a shift key down the rows of the shift keys are read in another column. -/
theorem key_shifted (down : (s.shiftL || s.shiftR) = true) {code : Nat}
    (shift : code = Key.shiftL ∨ code = Key.shiftR) :
    s.key b ≠ code := by
  intro hit
  have nonzero : s.column b = 0 := by
    by_contra column
    rw [key_nonzero column] at hit
    rcases shift with rfl | rfl <;> exact absurd hit (by decide)
  have letter : s.key b = (keyrow (row (Keyboard.code b)) 0).toInt := by rw [key, nonzero]
  have second : (keyrow (row (Keyboard.code b)) 1).toNat = 0 := by
    have small := row_lt (Keyboard.code b) 0
    rw [keyrow, Nat.div_eq_of_lt (show 1 < 4 by omega), Nat.mod_eq_of_lt (show 1 < 4 by omega),
      Nat.div_eq_of_lt (by omega)]
    rfl
  have first : (keyrow (row (Keyboard.code b)) 0).toNat = code := by
    rw [letter] at hit
    rcases shift with rfl | rfl
    · exact congrArg BitVec.toNat (BitVec.toInt_inj.mp (hit.trans (by decide : _ = (BitVec.ofNat 8 8).toInt)))
    · exact congrArg BitVec.toNat (BitVec.toInt_inj.mp (hit.trans (by decide : _ = (BitVec.ofNat 8 9).toInt)))
  -- a shift key is no letter, so while one is down its column is not the first one
  have shifted : s.caps b = true := by
    rw [caps, down, if_neg]
    simp only [first, second]
    rcases shift with rfl | rfl <;> simp [Key.shiftL, Key.shiftR]
  rw [column, shifted] at nonzero
  split at nonzero <;> simp at nonzero

/-- A shift key that has gone down never comes up again. -/
theorem shift_latched (down : (s.shiftL || s.shiftR) = true) (bytes : List (BitVec 8)) :
    (bytes.foldl keyboardHandler s).shiftL = s.shiftL ∧ (bytes.foldl keyboardHandler s).shiftR = s.shiftR := by
  induction bytes generalizing s with
  | nil => exact ⟨rfl, rfl⟩
  | cons b bytes ih =>
    have left : (s.keyboardHandler b).shiftL = s.shiftL := by
      by_cases before : Prefix b
      · exact (flags_silent before .shiftL .caps).1
      · exact (flag_handler before .shiftL).trans (if_neg (key_shifted down (.inl rfl)))
    have right : (s.keyboardHandler b).shiftR = s.shiftR := by
      by_cases before : Prefix b
      · exact (flags_silent before .shiftR .caps).1
      · exact (flag_handler before .shiftR).trans (if_neg (key_shifted down (.inr rfl)))
    have rest := ih (s := s.keyboardHandler b) (by rw [left, right]; exact down)
    rw [left, right] at rest
    exact rest

/-- One event keeps the flags and the characters right exactly if it is plain. -/
theorem flags_step (flags : Flags hist s) :
    (Flags ((s, b) :: hist) (s.keyboardHandler b) ∧ (¬ Prefix b → make b = true → Characters s b)) ↔
      (Prefix b ∨ Plain s b) := by
  have pending := prefixed_step flags b
  have second : ∀ b', (s.keyboardHandler b).column b' = 2 ↔ prefixed ((s, b) :: hist) = true := by
    intro b'
    rw [column_eq_two, pending]
  -- a prefix changes no flag and stores no character
  by_cases before : Prefix b
  · refine iff_of_true ⟨⟨fun m => ?_, fun l => ?_, pending, second⟩, fun event => absurd before event⟩ (.inl before)
    · have skipped : ¬ Decodes (s, b) m.code := fun decodes => decodes.1 before
      rw [(flags_silent before m .caps).1, lastMake_cons, if_neg skipped]
      exact flags.modifiers m
    · have skipped : ¬ (Decodes (s, b) l.code ∧ make b = true) := fun both => both.1.1 before
      rw [(flags_silent before .shiftL l).2, makes_cons, if_neg skipped]
      exact flags.locks l
  · simp only [before, not_false_eq_true, forall_const, false_or]
    unfold Plain
    split
    next column =>
      rw [characters_zero before column]
      refine and_iff_right ⟨fun m => ?_, fun l => ?_, pending, second⟩
      · exact (modifiers_step flags before m).mpr fun other => absurd column other
      · exact (locks_step flags before l).mpr fun other => absurd column other
    next column =>
      rw [characters_nonzero before column]
      constructor
      · rintro ⟨after, plain⟩
        refine ⟨plain, fun m => ?_, fun l => ?_⟩
        · exact (modifiers_step flags before m).mp (after.modifiers m) column
        · exact (locks_step flags before l).mp (after.locks l) column
      · rintro ⟨plain, modifiers, locks⟩
        refine ⟨⟨fun m => ?_, fun l => ?_, pending, second⟩, plain⟩
        · exact (modifiers_step flags before m).mpr fun _ => modifiers m
        · exact (locks_step flags before l).mpr fun _ => locks l

theorem flags_initial (queue : TtyQueue) : Flags [] (initial queue) where
  modifiers m := by cases m <;> rfl
  locks l := by cases l <;> simp [Lock.flag, Lock.initial, initial, makes]
  pending := rfl
  column b := by rw [column_eq_two]; rfl

/-- The flags are right at every point of a run, and every make types the right
character, if and only if every event is plain. -/
theorem decoding_iff (run : Transition.Run events hist s) :
    (Transition.Along Flags hist s ∧ ∀ x ∈ hist, ¬ Prefix x.2 → make x.2 = true → Characters x.1 x.2) ↔
      ∀ x ∈ hist, Prefix x.2 ∨ Plain x.1 x.2 := by
  refine run.along_iff ?_ ?_
  · rintro s ⟨queue, rfl⟩
    exact flags_initial queue
  · rintro hist s b s' flags rfl
    exact flags_step flags

end Histories

def emptyQueue : TtyQueue := ⟨0, 0, fun _ => 0, ttyBufSize_pos, ttyBufSize_pos⟩

/-- Any bytes can come after the start. -/
theorem run_bytes (bytes : List (BitVec 8)) :
    Transition.Run events (Transition.traced keyboardHandler (initial emptyQueue) bytes)
      (bytes.foldl keyboardHandler (initial emptyQueue)) := by
  have run := Transition.Run.traced (S := events) (fun _ _ => rfl) bytes (.init ⟨emptyQueue, rfl⟩)
  rw [List.append_nil] at run
  exact run

/-- Left ctrl with `c`, the enter and the seven of the pad, NumLock, and `7` with a shift key after it. -/
def keystrokes : List (BitVec 8) := [0x1D, 0x2E, 0x9D, 0xE0, 0x1C, 0x47, 0x45, 0xC5, 0x08, 0x2A, 0x88]

theorem decoding_iff_keystrokes :
    Transition.Along Flags (Transition.traced keyboardHandler (initial emptyQueue) keystrokes)
        (keystrokes.foldl keyboardHandler (initial emptyQueue)) ∧
      ∀ x ∈ Transition.traced keyboardHandler (initial emptyQueue) keystrokes,
        ¬ Prefix x.2 → make x.2 = true → Characters x.1 x.2 :=
  (decoding_iff (run_bytes keystrokes)).mpr (by decide)

/-- The comma key types a slash. -/
theorem decoding_lost : Transition.Run events [(initial emptyQueue, 0x33)]
      ((initial emptyQueue).keyboardHandler 0x33) ∧
    (initial emptyQueue).entry 0x33 = ch ',' ∧
    ((initial emptyQueue).keyboardHandler 0x33).readQ = emptyQueue.put (BitVec.ofNat 8 (ch '/')) ∧
    ¬ ∀ x ∈ [(initial emptyQueue, (0x33 : BitVec 8))], ¬ Prefix x.2 → make x.2 = true → Characters x.1 x.2 := by
  have event : ¬ Prefix 0x33 := by decide
  have typed : ((initial emptyQueue).keyboardHandler 0x33).readQ = emptyQueue.put (BitVec.ofNat 8 (ch '/')) :=
    readQ_handler event rfl
  refine ⟨run_bytes [0x33], rfl, typed, fun right => ?_⟩
  have comma := (right _ (List.mem_singleton_self _) event rfl).printable (by decide) (by decide)
  rw [typed, show (initial emptyQueue).readQ = emptyQueue from rfl, put_inj] at comma
  exact absurd comma (by decide)

end Keyboard

end OperatorSystem.Chr
