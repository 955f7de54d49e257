import OperatorSystem.Chr.Console
import OperatorSystem.Library.Ring

/-!
# The characters in a queue

A queue of a terminal is a ring of `TTY_BUF_SIZE` places, one of which stays
empty. `bytes` lists the characters in it. A character put into a full queue
brings the head onto the tail, and the queue looks empty.
-/

namespace OperatorSystem.Chr

namespace TtyQueue

variable {queue : TtyQueue}

/-- The characters from the tail up to the head. -/
def bytes (queue : TtyQueue) : List (BitVec 8) :=
  Ring.contents ttyBufSize queue.buf queue.tail queue.waiting

theorem length_bytes (queue : TtyQueue) : queue.bytes.length = queue.waiting := Ring.length_contents ..

theorem waiting_lt (queue : TtyQueue) : queue.waiting < ttyBufSize := by
  simp only [waiting, ttyBufSize]
  omega

theorem waiting_add_free (queue : TtyQueue) : queue.waiting + queue.free = 1023 := by
  have head := queue.head_lt
  have tail := queue.tail_lt
  simp only [waiting, free, ttyBufSize] at head tail ⊢
  omega

theorem full_iff_waiting : queue.full ↔ queue.waiting = 1023 := by
  have whole := queue.waiting_add_free
  rw [queue.full_iff]
  omega

/-- There is room for one more. -/
theorem waiting_put (c : BitVec 8) (room : ¬ queue.full) : (queue.put c).waiting = queue.waiting + 1 := by
  have place := queue.free_put c room
  have before := queue.waiting_add_free
  have after := (queue.put c).waiting_add_free
  omega

theorem bytes_put (c : BitVec 8) (room : ¬ queue.full) : (queue.put c).bytes = queue.bytes ++ [c] := by
  have few := queue.waiting_lt
  have head : queue.head = (queue.tail + queue.waiting) % ttyBufSize := queue.tail_add_waiting.symm
  rw [bytes, waiting_put c room]
  simp only [put, head]
  exact Ring.contents_put few c

/-- A full queue looks empty after one more. -/
theorem bytes_put_full (c : BitVec 8) (full : queue.full) : (queue.put c).bytes = [] := by
  have same : queue.tail = (queue.head + 1) % ttyBufSize := full
  have nothing : (queue.put c).waiting = 0 := by
    simp only [waiting, put]
    rw [← same, Int.sub_self]
    rfl
  rw [bytes, nothing, Ring.contents_zero]

theorem waiting_drop (some : 0 < queue.waiting) : queue.drop.waiting + 1 = queue.waiting := by
  have head := queue.head_lt
  have tail := queue.tail_lt
  simp only [waiting, drop, ttyBufSize] at head tail some ⊢
  omega

theorem bytes_drop (some : 0 < queue.waiting) : queue.bytes = queue.buf queue.tail :: queue.drop.bytes := by
  rw [bytes, ← waiting_drop some]
  exact Ring.contents_drop queue.tail_lt queue.drop.waiting

/-- A reader has taken `n` characters. -/
def advance (queue : TtyQueue) (n : Nat) : TtyQueue :=
  { queue with tail := (queue.tail + n) % ttyBufSize, tail_lt := Nat.mod_lt _ ttyBufSize_pos }

theorem waiting_advance {n : Nat} (some : n ≤ queue.waiting) : n + (queue.advance n).waiting = queue.waiting := by
  have head := queue.head_lt
  have tail := queue.tail_lt
  simp only [waiting, advance, ttyBufSize] at head tail some ⊢
  omega

theorem bytes_advance {n : Nat} (some : n ≤ queue.waiting) : (queue.advance n).bytes = queue.bytes.drop n := by
  rw [bytes, bytes, ← waiting_advance some]
  exact (Ring.drop_contents ..).symm

theorem advance_zero (queue : TtyQueue) : queue.advance 0 = queue := by
  have inside : (queue.tail + 0) % ttyBufSize = queue.tail := Nat.mod_eq_of_lt queue.tail_lt
  simp only [advance, inside]

theorem advance_drop (queue : TtyQueue) (n : Nat) : queue.drop.advance n = queue.advance (n + 1) := by
  have same : ((queue.tail + 1) % ttyBufSize + n) % ttyBufSize = (queue.tail + (n + 1)) % ttyBufSize := by
    rw [Nat.mod_add_mod, Nat.add_assoc, Nat.add_comm 1]
  simp only [advance, drop, same]

end TtyQueue

/-- Characters of one terminal, one after the other. -/
def Console.printAll (verase : BitVec 8) (text : List (BitVec 8)) (c : Console) : Console :=
  text.foldl (fun c ch => c.print verase ch) c

theorem Console.printed_printAll (verase : BitVec 8) (text : List (BitVec 8)) (c : Console) :
    (c.printAll verase text).printed = (text.map fun ch => (verase, ch)).reverse ++ c.printed := by
  induction text generalizing c with
  | nil => rfl
  | cons ch text ih =>
    rw [List.map_cons, List.reverse_cons, List.append_assoc]
    exact ih (c.print verase ch)

/-- The loop of `conWrite` takes the first characters of the queue and prints them. -/
theorem conWriteLoop_eq {n : Nat} (tty : Tty) (c : Console) (some : n ≤ tty.writeQ.waiting) :
    conWriteLoop n tty c = ({ tty with writeQ := tty.writeQ.advance n },
      c.printAll tty.termios.verase (tty.writeQ.bytes.take n)) := by
  induction n generalizing tty c with
  | zero =>
    rw [conWriteLoop, TtyQueue.advance_zero, List.take_zero]
    rfl
  | succ n ih =>
    have first : 0 < tty.writeQ.waiting := by omega
    have fewer := TtyQueue.waiting_drop first
    rw [conWriteLoop, TtyQueue.bytes_drop first, List.take_succ_cons, ← TtyQueue.advance_drop]
    refine ih { tty with writeQ := tty.writeQ.drop }
      (c.print tty.termios.verase (tty.writeQ.buf tty.writeQ.tail)) ?_
    change n ≤ tty.writeQ.drop.waiting
    omega

/-- A call takes all of them. -/
theorem conWrite_eq (tty : Tty) (c : Console) :
    conWrite tty c = ({ tty with writeQ := tty.writeQ.advance tty.writeQ.waiting },
      (c.printAll tty.termios.verase tty.writeQ.bytes).setCursor) := by
  rw [conWrite, conWriteLoop_eq tty c (Nat.le_refl _), ← TtyQueue.length_bytes, List.take_length]
  rfl

theorem conWrite_bytes (tty : Tty) (c : Console) : (conWrite tty c).1.writeQ.bytes = [] ∧
    (conWrite tty c).2.printed = (tty.writeQ.bytes.map fun ch => (tty.termios.verase, ch)).reverse ++ c.printed := by
  rw [conWrite_eq]
  constructor
  · rw [TtyQueue.bytes_advance (Nat.le_refl _), ← TtyQueue.length_bytes, List.drop_length]
  · exact c.printed_printAll tty.termios.verase tty.writeQ.bytes

end OperatorSystem.Chr
