import OperatorSystem.Chr.Queue
import OperatorSystem.Chr.Screen

/-!
# The cursor between two characters

Five variables of `console.c` say where the cursor is. `Cursor` is how they belong
together; `conWrite` relies on it at every character, and leaves it so. What `conWrite` takes
from the queue are the characters that are in it at the call, in their order.
-/

namespace OperatorSystem.Chr

open Transition (System Run Reachable)

namespace Console

variable {c : Console}

/-- `pos` is the cell of column `x` in row `y`, and the row is one of the 25 on display. -/
structure Cursor (c : Console) : Prop where
  pos : c.pos.toNat = 0xB8000 + 160 * c.y.toNat + 2 * c.x.toNat
  column : c.x.toNat ≤ 80
  window : ∃ k, c.origin.toNat = 0xB8000 + 160 * k ∧ c.scrEnd.toNat = c.origin.toNat + 4000 ∧
    k ≤ c.y.toNat ∧ c.y.toNat ≤ k + 24

/-- The window begins 24 rows above the cursor once it has scrolled. -/
theorem Placed.cursor (placed : c.Placed) : c.Cursor := by
  obtain ⟨place, inside⟩ := placed
  have column := place.column
  have row := place.row
  have origin := place.origin
  have scrEnd := place.scrEnd
  refine ⟨?_, by omega, min (lineAdvances c.printed) 195 - 15, origin, ?_, ?_, ?_⟩
  · rw [place.pos, row, column]
  · omega
  · omega
  · omega

end Console

/-- Calls of `conWrite` from `initConsole` on, each with the terminal it is for. -/
def calls : System Console Tty where
  init c := ∃ screen, c = (Console.boot screen).initConsole
  step c tty c' := c' = (conWrite tty c).2

theorem placed_of_calls {hist : List (Console × Tty)} {c : Console} (run : Run calls hist c) : c.Placed := by
  apply Reachable.invariant (S := calls) (I := Console.Placed) _ _ ⟨hist, run⟩
  · rintro c ⟨screen, rfl⟩
    exact Console.placed_initConsole screen
  · rintro c tty c' placed rfl
    exact placed_conWrite tty placed

/-- Whatever has been written, after each character of the next call the variables of the cursor
belong together, the console has printed the characters up to it, and the queue keeps those behind it. -/
theorem cursor_conWrite {hist : List (Console × Tty)} {c : Console} (run : Run calls hist c) (tty : Tty) :
    (∀ n ≤ tty.writeQ.waiting, (conWriteLoop n tty c).2.Cursor ∧
      (conWriteLoop n tty c).2 = c.printAll tty.termios.verase (tty.writeQ.bytes.take n) ∧
      (conWriteLoop n tty c).1.writeQ.bytes = tty.writeQ.bytes.drop n) ∧
    (conWrite tty c).2.Cursor ∧
    (conWrite tty c).2 = (c.printAll tty.termios.verase tty.writeQ.bytes).setCursor ∧
    tty.writeQ.bytes.length = (((tty.writeQ.head : Int) - tty.writeQ.tail) % 1024).toNat ∧
    (conWrite tty c).1.writeQ.head = tty.writeQ.head ∧ (conWrite tty c).1.writeQ.tail = tty.writeQ.head := by
  have placed := placed_of_calls run
  refine ⟨fun n some => ⟨(placed_conWriteLoop n tty placed).cursor, ?_, ?_⟩,
    (placed_conWrite tty placed).cursor, ?_, tty.writeQ.length_bytes, ?_, ?_⟩
  · rw [conWriteLoop_eq tty c some]
  · -- what is left of the queue begins behind them
    rw [conWriteLoop_eq tty c some]
    exact TtyQueue.bytes_advance some
  · rw [conWrite_eq]
  · rw [conWrite_eq]
    rfl
  · rw [conWrite_eq]
    exact tty.writeQ.tail_add_waiting

/-- A first call, with 195 line feeds. -/
theorem cursor_conWrite_lineFeeds :
    (conWrite Terminals.lineFeeds (Console.boot fun _ => 0).initConsole).2.Cursor :=
  (cursor_conWrite (.init ⟨fun _ => 0, rfl⟩) Terminals.lineFeeds).2.1

end OperatorSystem.Chr
