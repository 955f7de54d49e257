import Mathlib.Data.BitVec

/-!
# Buffer heads (`fs.h`)

Pointers are physical addresses, with `none` for NULL. The wait queue `b_wait`
is left out: a task asleep on it comes back at some later time and tests
`b_lock` again, whatever woke it.
-/

namespace OperatorSystem.Fs

abbrev Addr := Nat

/-- `BUFFER_HEAD`. The flags only ever hold 0 and 1; `b_count` is an 8-bit field. -/
structure BufferHead where
  data : Addr
  blockNr : BitVec 32
  dev : BitVec 16
  uptodate : Bool
  dirt : Bool
  count : BitVec 8
  lock : Bool
  prev : Option Addr
  next : Option Addr
  prevFree : Option Addr
  nextFree : Option Addr
  deriving DecidableEq

/-- `MAJOR(a)` of a device number. -/
def major (dev : BitVec 16) : Nat := dev.toNat >>> 8

/-- The commands of `ll_rw_block`. -/
inductive Rw
  | read
  | write
  | reada
  | writea
  deriving DecidableEq

/-- `READ` and `WRITE` as numbers, with the read-ahead forms folded onto them. -/
def Rw.cmd : Rw → Int
  | .read => 0
  | .write => 1
  | .reada => 0
  | .writea => 1

def Rw.ahead : Rw → Bool
  | .read => false
  | .write => false
  | .reada => true
  | .writea => true

end OperatorSystem.Fs
