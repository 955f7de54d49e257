import Mathlib.Data.BitVec
import Mathlib.Logic.Function.Basic

/-!
# Terminals and the console (`tty.h`, `console.c`)

A terminal has a ring buffer for output, which `conWrite` empties onto the
screen. The cells of the screen are kept by their address in video memory,
apart from the paged memory: no segment of a task reaches these addresses. The
wait queues and the input side of a terminal are left out.
-/

namespace OperatorSystem.Chr

def ttyBufSize : Nat := 1024

/-- `TTY_QUEUE`: the characters between `tail` and `head`. -/
structure TtyQueue where
  head : Nat
  tail : Nat
  buf : Nat → BitVec 8
  head_lt : head < ttyBufSize
  tail_lt : tail < ttyBufSize

theorem ttyBufSize_pos : 0 < ttyBufSize := Nat.two_pow_pos 10

theorem next_lt (n : Nat) : (n + 1) % ttyBufSize < ttyBufSize := Nat.mod_lt _ (Nat.two_pow_pos 10)

namespace TtyQueue

/-- `fullQueue` -/
def full (queue : TtyQueue) : Prop := queue.tail = (queue.head + 1) % ttyBufSize

instance (queue : TtyQueue) : Decidable queue.full := inferInstanceAs (Decidable (_ = _))

/-- A character is stored at the head. -/
def put (queue : TtyQueue) (c : BitVec 8) : TtyQueue :=
  { queue with
    buf := Function.update queue.buf queue.head c
    head := (queue.head + 1) % ttyBufSize
    head_lt := next_lt _ }

/-- The character at the tail is taken. -/
def drop (queue : TtyQueue) : TtyQueue :=
  { queue with tail := (queue.tail + 1) % ttyBufSize, tail_lt := next_lt _ }

/-- `(head - tail) % TTY_BUF_SIZE`: the unsigned subtraction wraps at a multiple of `TTY_BUF_SIZE`. -/
def waiting (queue : TtyQueue) : Nat := (((queue.head : Int) - queue.tail) % ttyBufSize).toNat

end TtyQueue

/-- The parts of `TERMIOS` that output reads. -/
structure Termios where
  cOflag : BitVec 32
  /-- `c_cc[VERASE]` -/
  verase : BitVec 8

/-- `TTY_STRUCT` -/
structure Tty where
  termios : Termios
  writeQ : TtyQueue

/-! ### The console -/

def videoNumColumns : BitVec 32 := 80
def videoSizeRow : BitVec 32 := 160
def videoMemStart : BitVec 32 := 0xB8000
def videoMemEnd : BitVec 32 := 0xC0000

/-- The variables of `console.c`, the screen and the registers of the display. -/
structure Console where
  origin : BitVec 32
  scrEnd : BitVec 32
  x : BitVec 32
  y : BitVec 32
  pos : BitVec 32
  top : BitVec 32
  bottom : BitVec 32
  attr : BitVec 16
  screen : BitVec 32 → BitVec 16
  /-- Registers 12 and 13, and 14 and 15, of the display controller. -/
  startHigh : BitVec 8
  startLow : BitVec 8
  cursorHigh : BitVec 8
  cursorLow : BitVec 8
  /-- The addresses of all cells stored so far. -/
  stores : List (BitVec 32)
  /-- The characters printed so far, each with the erase character of its terminal. -/
  printed : List (BitVec 8 × BitVec 8)

namespace Console

/-- The static initial values. -/
def boot (screen : BitVec 32 → BitVec 16) : Console where
  origin := 0xB8000
  scrEnd := 0xB8000 + 25 * 160
  x := 0
  y := 9
  pos := 0
  top := 0
  bottom := 25
  attr := 0x0F00
  screen := screen
  startHigh := 0
  startLow := 0
  cursorHigh := 0
  cursorLow := 0
  stores := []
  printed := []

/-- A store to the cell at `a`. -/
def store (c : Console) (a : BitVec 32) (v : BitVec 16) : Console :=
  { c with screen := Function.update c.screen a v, stores := a :: c.stores }

def setCursor (c : Console) : Console :=
  { c with
    cursorHigh := (((c.pos - videoMemStart) >>> 9) &&& 0xff).setWidth 8
    cursorLow := (((c.pos - videoMemStart) >>> 1) &&& 0xff).setWidth 8 }

def setOrigin (c : Console) : Console :=
  { c with
    startHigh := (((c.origin - videoMemStart) >>> 9) &&& 0xff).setWidth 8
    startLow := (((c.origin - videoMemStart) >>> 1) &&& 0xff).setWidth 8 }

def initConsole (c : Console) : Console :=
  setCursor (setOrigin { c with x := 0, y := 9, top := 0, bottom := 25, pos := 0xB8000 + 9 * 160 + 0 * 2 })

def scrollUp (c : Console) : Console :=
  if c.scrEnd < videoMemEnd then
    setCursor (setOrigin { c with
      origin := c.origin + videoSizeRow
      scrEnd := c.scrEnd + videoSizeRow
      y := c.y + 1
      pos := c.pos + videoSizeRow })
  else c

def lf (c : Console) : Console :=
  if c.y + 1 < c.bottom then { c with y := c.y + 1, pos := c.pos + videoSizeRow }
  else c.scrollUp

def cr (c : Console) : Console := { c with pos := c.pos - c.x * 2, x := 0 }

def del (c : Console) : Console :=
  if c.x ≠ 0 then
    store { c with pos := c.pos - 2, x := c.x - 1 } (c.pos - 2) (c.attr ||| 0x20)
  else c

/-- The cursor goes on at the next row, `VIDEO_NUM_COLUMNS` to the left. -/
def wrap (c : Console) : Console :=
  lf { c with x := c.x - videoNumColumns, pos := c.pos - videoSizeRow }

/-- The branch of the tab character. -/
def tab (c : Console) : Console :=
  let step := 8 - (c.x &&& 7)
  let c := { c with x := c.x + step, pos := c.pos + step <<< 1 }
  if c.x > videoNumColumns then c.wrap else c

/-- The body of the loop of `conWrite`, for one character. -/
def putChar (c : Console) (verase ch : BitVec 8) : Console :=
  if ch.toInt > 31 ∧ ch.toInt < 127 then
    let c := if c.x ≥ videoNumColumns then c.wrap else c
    { c.store c.pos (c.attr ||| ch.setWidth 16) with x := c.x + 1, pos := c.pos + 2 }
  else if ch = 27 then c
  else if ch = 10 ∨ ch = 11 ∨ ch = 12 then c.lf
  else if ch = 13 then c.cr
  else if ch.toInt = verase.toNat then c.del
  else if ch = 8 then
    if c.x ≠ 0 then { c with x := c.x - 1, pos := c.pos - 2 } else c
  else if ch = 9 then c.tab
  else c

/-- `putChar`, with a note of the character. -/
def print (c : Console) (verase ch : BitVec 8) : Console :=
  { c.putChar verase ch with printed := (verase, ch) :: c.printed }

end Console

/-- The loop of `conWrite` for `nr` characters. -/
def conWriteLoop : Nat → Tty → Console → Tty × Console
  | 0, tty, c => (tty, c)
  | nr + 1, tty, c =>
    let ch := tty.writeQ.buf tty.writeQ.tail
    conWriteLoop nr { tty with writeQ := tty.writeQ.drop } (c.print tty.termios.verase ch)

def conWrite (tty : Tty) (c : Console) : Tty × Console :=
  (conWriteLoop tty.writeQ.waiting tty c).map id Console.setCursor

/-! ### Room in the queue -/

namespace TtyQueue

/-- The free places of a queue; one place always stays empty. -/
def free (queue : TtyQueue) : Nat := (queue.tail + (ttyBufSize - 1) - queue.head) % ttyBufSize

theorem free_lt (queue : TtyQueue) : queue.free < ttyBufSize := by
  rw [free]
  exact Nat.mod_lt _ (Nat.two_pow_pos 10)

theorem free_put (queue : TtyQueue) (c : BitVec 8) (room : ¬ queue.full) :
    (queue.put c).free + 1 = queue.free := by
  have head := queue.head_lt
  have tail := queue.tail_lt
  change queue.head < 1024 at head
  change queue.tail < 1024 at tail
  change ¬ queue.tail = (queue.head + 1) % 1024 at room
  change (queue.tail + 1023 - (queue.head + 1) % 1024) % 1024 + 1 =
    (queue.tail + 1023 - queue.head) % 1024
  omega

theorem full_iff (queue : TtyQueue) : queue.full ↔ queue.free = 0 := by
  have head := queue.head_lt
  have tail := queue.tail_lt
  change queue.head < 1024 at head
  change queue.tail < 1024 at tail
  change queue.tail = (queue.head + 1) % 1024 ↔ (queue.tail + 1023 - queue.head) % 1024 = 0
  omega

theorem tail_add_waiting (queue : TtyQueue) :
    (queue.tail + queue.waiting) % ttyBufSize = queue.head := by
  have head := queue.head_lt
  have tail := queue.tail_lt
  simp only [waiting, ttyBufSize] at head tail ⊢
  omega

end TtyQueue

/-- The loop moves the tail over the characters it takes. -/
theorem conWriteLoop_queue (nr : Nat) (tty : Tty) (c : Console) :
    (conWriteLoop nr tty c).1.termios = tty.termios ∧
      (conWriteLoop nr tty c).1.writeQ.head = tty.writeQ.head ∧
      (conWriteLoop nr tty c).1.writeQ.tail = (tty.writeQ.tail + nr) % ttyBufSize := by
  induction nr generalizing tty c with
  | zero => exact ⟨rfl, rfl, (Nat.mod_eq_of_lt tty.writeQ.tail_lt).symm⟩
  | succ nr ih =>
    obtain ⟨termios, head, tail⟩ :=
      ih { tty with writeQ := tty.writeQ.drop } (c.print tty.termios.verase (tty.writeQ.buf tty.writeQ.tail))
    refine ⟨termios, head, tail.trans ?_⟩
    change ((tty.writeQ.tail + 1) % ttyBufSize + nr) % ttyBufSize = _
    rw [Nat.mod_add_mod, Nat.add_assoc, Nat.add_comm 1]

/-- Once it has reached the head, the queue is empty. -/
theorem free_conWriteLoop (nr : Nat) (tty : Tty) (c : Console)
    (reached : (tty.writeQ.tail + nr) % ttyBufSize = tty.writeQ.head) :
    ((conWriteLoop nr tty c).map id Console.setCursor).1.termios = tty.termios ∧
      ((conWriteLoop nr tty c).map id Console.setCursor).1.writeQ.free = 1023 := by
  have inside := tty.writeQ.head_lt
  obtain ⟨termios, head, tail⟩ := conWriteLoop_queue nr tty c
  simp only [Prod.map_fst, id_eq, TtyQueue.free, termios, head, tail, reached, true_and]
  simp only [ttyBufSize] at inside ⊢
  omega

theorem free_conWrite (tty : Tty) (c : Console) :
    (conWrite tty c).1.termios = tty.termios ∧ (conWrite tty c).1.writeQ.free = 1023 := by
  rw [conWrite]
  apply free_conWriteLoop tty.writeQ.waiting tty c
  exact tty.writeQ.tail_add_waiting

end OperatorSystem.Chr
