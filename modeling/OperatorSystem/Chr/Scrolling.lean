import OperatorSystem.Chr.Screen

/-!
# The rows of the console

A line advance moves the cursor down until it is in the last row of the window,
and from then on it moves the window. `scrollUp` does so only while the window
ends inside video memory, so the 196th line advance moves nothing, and the next
line is written over the last one. The main result `scrolls_iff` says for which
texts the lines keep apart.
-/

namespace OperatorSystem.Chr

open Transition

namespace Console

variable {c : Console} {x n : Nat}

/-! ### The cells of a character -/

@[simp] theorem scrollUp_stores : c.scrollUp.stores = c.stores := by
  unfold scrollUp
  split
  · rfl
  · rfl

@[simp] theorem lf_stores : c.lf.stores = c.stores := by
  unfold lf
  split
  · rfl
  · exact scrollUp_stores

@[simp] theorem wrap_stores : c.wrap.stores = c.stores := lf_stores

theorem tab_stores : c.tab.stores = c.stores := by
  unfold tab
  dsimp only
  split
  · exact wrap_stores
  · rfl

/-- The cells that the character adds to those stored before. -/
def newCells (c : Console) (verase ch : BitVec 8) : List (BitVec 32) :=
  (c.print verase ch).stores.take ((c.print verase ch).stores.length - c.stores.length)

theorem newCells_of_stores {verase ch : BitVec 8} {l : List (BitVec 32)}
    (stores : (c.putChar verase ch).stores = l ++ c.stores) : c.newCells verase ch = l := by
  have printed : (c.print verase ch).stores = l ++ c.stores := stores
  rw [newCells, printed, List.length_append, Nat.add_sub_cancel, List.take_left]

/-- The address of column `x` in row `r` of video memory. -/
def cell (r x : Nat) : Nat := 0xB8000 + 160 * r + 2 * x

/-- A character is stored in the row of its line. -/
theorem At.putChar_stores (place : c.At x n) (inside : x ≤ 80) (verase ch : BitVec 8) :
    ∃ l, (c.putChar verase ch).stores = l ++ c.stores ∧
      ∀ a ∈ l, ∃ x' < 80, a.toNat = cell (9 + min (n + (advance x verase ch).2) 195) x' := by
  have nothing : ∀ c' : Console, c'.stores = c.stores → ∃ l, c'.stores = l ++ c.stores ∧
      ∀ a ∈ l, ∃ x' < 80, a.toNat = cell (9 + min (n + (advance x verase ch).2) 195) x' :=
    fun c' same => ⟨[], same, by simp⟩
  unfold Console.putChar advance at *
  -- one case for each branch of the source; only printing and erasing store anything
  by_cases printable : ch.toInt > 31 ∧ ch.toInt < 127
  · simp only [printable, and_self, if_true]
    have border : c.x ≥ videoNumColumns ↔ x ≥ 80 := by
      rw [ge_iff_le, BitVec.le_def, place.column]
      rfl
    by_cases full : x ≥ 80
    · rw [if_pos (border.mpr full), if_pos full]
      have wrapped := place.wrap full (by omega)
      refine ⟨[c.wrap.pos], congrArg _ wrap_stores, fun a member => ⟨x - 80, by omega, ?_⟩⟩
      rw [List.mem_singleton.mp member, wrapped.pos, cell]
    · rw [if_neg (mt border.mp full), if_neg full]
      refine ⟨[c.pos], rfl, fun a member => ⟨x, by omega, ?_⟩⟩
      rw [List.mem_singleton.mp member, place.pos, cell]
      rfl
  simp only [if_neg printable] at nothing ⊢
  by_cases escape : ch = 27
  · simp only [if_pos escape] at nothing ⊢
    exact nothing c rfl
  simp only [if_neg escape] at nothing ⊢
  by_cases feed : ch = 10 ∨ ch = 11 ∨ ch = 12
  · simp only [if_pos feed] at nothing ⊢
    exact nothing c.lf lf_stores
  simp only [if_neg feed] at nothing ⊢
  by_cases carriage : ch = 13
  · simp only [if_pos carriage] at nothing ⊢
    exact nothing c.cr rfl
  simp only [if_neg carriage] at nothing ⊢
  by_cases erase : ch.toInt = verase.toNat
  · simp only [if_pos erase] at nothing ⊢
    rw [Console.del]
    split
    next positive =>
      obtain ⟨position, nonzero, _⟩ := place.back (by omega) positive
      refine ⟨[c.pos - 2], rfl, fun a member => ⟨x - 1, by omega, ?_⟩⟩
      rw [List.mem_singleton.mp member, position, cell]
      rfl
    next => exact nothing c rfl
  simp only [if_neg erase] at nothing ⊢
  by_cases backspace : ch = 8
  · simp only [if_pos backspace] at nothing ⊢
    split
    · exact nothing _ rfl
    · exact nothing c rfl
  simp only [if_neg backspace] at nothing ⊢
  by_cases tab : ch = 9
  · simp only [if_pos tab] at nothing ⊢
    exact nothing c.tab tab_stores
  simp only [if_neg tab] at nothing ⊢
  exact nothing c rfl

/-! ### Runs -/

inductive Typing : Console → Option (BitVec 8 × BitVec 8) → Console → Prop
  | print {c : Console} {verase ch : BitVec 8} : Typing c (some (verase, ch)) (c.print verase ch)
  /-- The last statement of `conWrite`. -/
  | setCursor {c : Console} : Typing c none c.setCursor

/-- The characters one by one, from `initConsole` on. -/
def typing : System Console (Option (BitVec 8 × BitVec 8)) where
  init c := ∃ screen, c = (boot screen).initConsole
  step := Typing

/-- The row of video memory that the cursor is in. -/
def cursorRow (c : Console) : Nat := (c.pos.toNat - 0xB8000 - 2 * c.x.toNat) / 160

/-- Each line advance of the character moves the cursor to the next row. -/
def NextRow (c : Console) (verase ch : BitVec 8) : Prop :=
  (c.print verase ch).cursorRow = c.cursorRow + (advance c.x.toNat verase ch).2

/-- The cursor is in one of the 25 rows from `origin` on. -/
def Displayed (c : Console) : Prop :=
  ∃ row < 25, 0xB8000 + 160 * c.cursorRow = c.origin.toNat + 160 * row

/-- The logical line in which the character is printed. -/
def lineOf (c : Console) (verase ch : BitVec 8) : Nat := lineAdvances ((verase, ch) :: c.printed)

/-- Characters of two of the last 25 lines have been stored in different cells. -/
def Separate (hist : List (Console × Option (BitVec 8 × BitVec 8))) (c : Console) : Prop :=
  ∀ c₁ verase₁ ch₁ c₂ verase₂ ch₂, (c₁, some (verase₁, ch₁)) ∈ hist → (c₂, some (verase₂, ch₂)) ∈ hist →
    lineAdvances c.printed < c₁.lineOf verase₁ ch₁ + 25 → lineAdvances c.printed < c₂.lineOf verase₂ ch₂ + 25 →
    c₁.lineOf verase₁ ch₁ ≠ c₂.lineOf verase₂ ch₂ →
    ∀ a ∈ c₁.newCells verase₁ ch₁, ∀ b ∈ c₂.newCells verase₂ ch₂,
      a.toNat + 2 ≤ b.toNat ∨ b.toNat + 2 ≤ a.toNat

/-- Every step moves the cursor as its character says. -/
def Advances (hist : List (Console × Option (BitVec 8 × BitVec 8))) : Prop :=
  ∀ c verase ch, (c, some (verase, ch)) ∈ hist → c.NextRow verase ch

theorem Placed.cursorRow_eq (placed : c.Placed) : c.cursorRow = 9 + min (lineAdvances c.printed) 195 := by
  have column := placed.1.column
  have pos := placed.1.pos
  rw [cursorRow, column, pos]
  omega

theorem Placed.displayed (placed : c.Placed) : c.Displayed := by
  have origin := placed.1.origin
  rw [Displayed, placed.cursorRow_eq]
  refine ⟨9 + min (lineAdvances c.printed) 195 - (min (lineAdvances c.printed) 195 - 15), by omega, ?_⟩
  omega

theorem lineAdvances_print (c : Console) (verase ch : BitVec 8) : lineAdvances (c.print verase ch).printed =
    lineAdvances c.printed + (advance (layout c.printed).1 verase ch).2 := rfl

theorem advance_le_one (x : Nat) (verase ch : BitVec 8) : (advance x verase ch).2 ≤ 1 := by
  unfold advance advanceTab
  dsimp only
  repeat' split
  all_goals simp

theorem placed_of_typing {hist : List (Console × Option (BitVec 8 × BitVec 8))} (run : Run typing hist c) :
    c.Placed ∧ ∀ x ∈ hist, x.1.Placed := by
  induction run with
  | init start =>
    obtain ⟨screen, rfl⟩ := start
    exact ⟨placed_initConsole screen, by simp⟩
  | step _ taken ih =>
    refine ⟨?_, List.forall_mem_cons.mpr ih⟩
    cases taken with
    | print => exact ih.1.print _ _
    | setCursor => exact ih.1.setCursor

/-- The cursor follows a character exactly as long as the window can be moved. -/
theorem Placed.nextRow_iff (placed : c.Placed) (few : lineAdvances c.printed ≤ 195) (verase ch : BitVec 8) :
    c.NextRow verase ch ↔ c.lineOf verase ch ≤ 195 := by
  have more := advance_le_one (layout c.printed).1 verase ch
  have line : c.lineOf verase ch = lineAdvances c.printed + (advance (layout c.printed).1 verase ch).2 := rfl
  have count : lineAdvances (c.print verase ch).printed = c.lineOf verase ch := rfl
  rw [NextRow, (placed.print verase ch).cursorRow_eq, placed.cursorRow_eq, placed.1.column, count]
  omega

/-- While no character has been printed past the 195th line advance, each one
is stored in the row of its line. -/
theorem Placed.newCells_row (placed : c.Placed) {verase ch : BitVec 8} (few : c.lineOf verase ch ≤ 195)
    {a : BitVec 32} (stored : a ∈ c.newCells verase ch) :
    ∃ x < 80, a.toNat = cell (9 + c.lineOf verase ch) x := by
  obtain ⟨l, stores, rows⟩ := placed.1.putChar_stores placed.2 verase ch
  rw [newCells_of_stores stores] at stored
  obtain ⟨x, inside, here⟩ := rows a stored
  have line : c.lineOf verase ch = lineAdvances c.printed + (advance (layout c.printed).1 verase ch).2 := rfl
  rw [← line, Nat.min_eq_left few] at here
  exact ⟨x, inside, here⟩

/-- Cells of different rows do not overlap. -/
theorem cell_separate {r r' x x' : Nat} (rows : r ≠ r') (inside : x < 80) (inside' : x' < 80) :
    cell r x + 2 ≤ cell r' x' ∨ cell r' x' + 2 ≤ cell r x := by
  simp only [cell]
  omega

theorem lineAdvances_le {hist : List (Console × Option (BitVec 8 × BitVec 8))} (run : Run typing hist c) :
    ∀ c₁ verase ch, (c₁, some (verase, ch)) ∈ hist → c₁.lineOf verase ch ≤ lineAdvances c.printed := by
  induction run with
  | init => simp
  | @step hist c c' e run taken ih =>
    have grows : lineAdvances c.printed ≤ lineAdvances c'.printed := by
      cases taken with
      | print => exact Nat.le_add_right _ _
      | setCursor => exact le_rfl
    intro c₁ verase ch member
    rcases List.mem_cons.mp member with here | old
    · obtain ⟨rfl, rfl⟩ := Prod.mk.inj here
      cases taken with
      | print => exact le_rfl
    · exact (ih c₁ verase ch old).trans grows

theorem separate_of_typing {hist : List (Console × Option (BitVec 8 × BitVec 8))} (run : Run typing hist c)
    (few : lineAdvances c.printed ≤ 195) : Separate hist c := by
  intro c₁ verase₁ ch₁ c₂ verase₂ ch₂ first second _ _ lines a left b right
  have placed := (placed_of_typing run).2
  have small := lineAdvances_le run
  obtain ⟨x, inside, here⟩ := (placed _ first).newCells_row ((small _ _ _ first).trans few) left
  obtain ⟨x', inside', there⟩ := (placed _ second).newCells_row ((small _ _ _ second).trans few) right
  rw [here, there]
  exact cell_separate (fun same => lines (Nat.add_left_cancel same)) inside inside'

/-- The lines of a text keep apart and every line advance moves the cursor, all
along the text, if and only if it has at most 195 line advances. -/
theorem scrolls_iff {hist : List (Console × Option (BitVec 8 × BitVec 8))} (run : Run typing hist c) :
    (Advances hist ∧ Along (fun hist c => Separate hist c ∧ c.Displayed) hist c) ↔
      lineAdvances c.printed ≤ 195 := by
  constructor
  · rintro ⟨advances, along⟩
    clear along
    -- the induction is on the run; the last line advance decides
    induction run with
    | init start =>
      obtain ⟨screen, rfl⟩ := start
      exact Nat.zero_le 195
    | @step hist c c' e run taken ih =>
      have before := ih fun c₁ verase ch member => advances c₁ verase ch (List.mem_cons_of_mem _ member)
      cases taken with
      | setCursor => exact before
      | print => exact ((placed_of_typing run).1.nextRow_iff before _ _).mp (advances _ _ _ List.mem_cons_self)
  · intro few
    induction run with
    | init start =>
      obtain ⟨screen, rfl⟩ := start
      exact ⟨by simp [Advances], by simp [Separate], (placed_initConsole screen).displayed⟩
    | @step hist c c' e run taken ih =>
      have whole : Run typing ((c, e) :: hist) c' := .step run taken
      have before : lineAdvances c.printed ≤ 195 := by
        cases taken with
        | setCursor => exact few
        | print => exact (Nat.le_add_right _ _).trans few
      obtain ⟨advances, along⟩ := ih before
      refine ⟨?_, ⟨separate_of_typing whole few, (placed_of_typing whole).1.displayed⟩, along⟩
      intro c₁ verase ch member
      rcases List.mem_cons.mp member with here | old
      · obtain ⟨rfl, rfl⟩ := Prod.mk.inj here
        have small := lineAdvances_le whole c₁ verase ch List.mem_cons_self
        exact ((placed_of_typing run).1.nextRow_iff before verase ch).mpr (small.trans few)
      · exact advances c₁ verase ch old

/-! ### Calls of `conWrite` -/

/-- A call of `conWrite` prints the characters of its queue one by one. -/
theorem reachable_conWriteLoop (nr : Nat) (tty : Tty) (reached : Reachable typing c) :
    Reachable typing (conWriteLoop nr tty c).2 := by
  induction nr generalizing tty c with
  | zero => exact reached
  | succ nr ih => exact ih _ (reached.step .print)

theorem reachable_conWrite (tty : Tty) (reached : Reachable typing c) : Reachable typing (conWrite tty c).2 := by
  rw [conWrite, Prod.map_snd]
  exact (reachable_conWriteLoop tty.writeQ.waiting tty reached).step .setCursor

/-- A hundred letters, each with a line feed behind it: the window has moved down 86 rows. -/
theorem scrolls_iff_letterFeeds : ∃ hist c, Run typing hist c ∧ lineAdvances c.printed = 101 ∧
    c.stores.length = 100 ∧ c.origin = 0xB8000 + 86 * 160 ∧
    Advances hist ∧ Along (fun hist c => Separate hist c ∧ c.Displayed) hist c := by
  have start : Reachable typing (boot fun _ => 0).initConsole := .init ⟨_, rfl⟩
  obtain ⟨hist, run⟩ := reachable_conWrite Terminals.letterFeeds start
  exact ⟨hist, _, run, by decide +kernel, by decide +kernel, by decide +kernel,
    (scrolls_iff run).mpr (by decide +kernel)⟩

/-! ### 196 line feeds -/

theorem typed_lineFeeds (screen : BitVec 32 → BitVec 16) (n : Nat) :
    ∃ hist c, Run typing hist c ∧ lineAdvances c.printed = n := by
  induction n with
  | zero => exact ⟨[], _, .init ⟨screen, rfl⟩, rfl⟩
  | succ n ih =>
    obtain ⟨hist, c, run, count⟩ := ih
    refine ⟨_, c.print 0x7f 10, .step run .print, ?_⟩
    rw [lineAdvances_print, count]
    rfl

/-- The 196th line feed leaves the cursor where it is. -/
theorem scrolling_stops : ¬ ∀ hist c, Run typing hist c →
    Advances hist ∧ Along (fun hist c => Separate hist c ∧ c.Displayed) hist c := by
  intro always
  obtain ⟨hist, c, run, count⟩ := typed_lineFeeds (fun _ => 0) 195
  have advances := (always _ _ (.step run .print)).1 c 0x7f 10 List.mem_cons_self
  have line := ((placed_of_typing run).1.nextRow_iff count.le 0x7f 10).mp advances
  have next : c.lineOf 0x7f 10 = lineAdvances c.printed + 1 := rfl
  omega

end Console

end OperatorSystem.Chr
