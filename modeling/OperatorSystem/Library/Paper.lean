import Mathlib.Logic.Function.Basic

/-!
# A typewriter

Rows of `width` columns follow one another without end. The carriage stands at
a column of a row, or behind the last column. A picture of the paper is what a
window of some rows shows, the carriage in it.
-/

structure Paper (α : Type) where
  cells : Nat → Nat → α
  row : Nat
  column : Nat

namespace Paper

inductive Key (α : Type)
  | mark (a : α)
  | feed
  | home
  | rubout
  | back
  | tab
  | dead

variable {α : Type}

section Typing

variable (width : Nat) (blank : α)

/-- Behind the last column the carriage goes to the next row. -/
def turn (p : Paper α) : Paper α :=
  if width ≤ p.column then { p with row := p.row + 1, column := p.column - width } else p

/-- A mark at the carriage. -/
def put (p : Paper α) (a : α) : Paper α :=
  { p with cells := Function.update p.cells p.row (Function.update (p.cells p.row) p.column a) }

/-- Past the last column a tab goes on in the next row. -/
def type (p : Paper α) : Key α → Paper α
  | .mark a => { (p.turn width).put a with column := (p.turn width).column + 1 }
  | .feed => { p with row := p.row + 1 }
  | .home => { p with column := 0 }
  | .rubout => if p.column = 0 then p else { p with column := p.column - 1 }.put blank
  | .back => { p with column := p.column - 1 }
  | .tab =>
    let p := { p with column := p.column + (8 - p.column % 8) }
    if width < p.column then { p with row := p.row + 1, column := p.column - width } else p
  | .dead => p

def typeAll (p : Paper α) (keys : List (Key α)) : Paper α := keys.foldl (type width blank) p

end Typing

/-- What a window shows, and how many cells behind its first one the carriage stands. -/
structure Picture (width height : Nat) (α : Type) where
  cells : Fin height → Fin width → α
  carriage : Nat

/-- The first row of a window of `height` rows. It ends with the row of the carriage once it has
to move. -/
def top (height : Nat) (p : Paper α) : Nat := p.row + 1 - height

def picture (width height : Nat) (p : Paper α) : Picture width height α where
  cells r x := p.cells (p.top height + r) x
  carriage := width * (p.row - p.top height) + p.column

variable {width : Nat} {blank : α} {p : Paper α}

theorem put_cells (a : α) (r x : Nat) :
    (p.put a).cells r x = if r = p.row ∧ x = p.column then a else p.cells r x := by
  by_cases row : r = p.row
  · subst row
    by_cases column : x = p.column
    · subst column
      simp [put]
    · simp [put, column]
  · simp [put, row]

/-- The carriage never goes up, and stays on the paper. -/
theorem type_bounds (inside : p.column ≤ width) (wide : 8 ≤ width) (key : Key α) :
    p.row ≤ (p.type width blank key).row ∧ (p.type width blank key).column ≤ width := by
  cases key with
  | mark a =>
    simp only [type, turn]
    split
    · exact ⟨Nat.le_succ _, by dsimp only; omega⟩
    · exact ⟨Nat.le_refl _, by omega⟩
  | feed => exact ⟨Nat.le_succ _, inside⟩
  | home => exact ⟨Nat.le_refl _, Nat.zero_le _⟩
  | rubout =>
    simp only [type]
    split
    · exact ⟨Nat.le_refl _, inside⟩
    · exact ⟨Nat.le_refl _, by simp only [put]; omega⟩
  | back => exact ⟨Nat.le_refl _, by simp only [type]; omega⟩
  | tab =>
    simp only [type]
    split
    · exact ⟨Nat.le_succ _, by dsimp only; omega⟩
    · exact ⟨Nat.le_refl _, by dsimp only; omega⟩
  | dead => exact ⟨Nat.le_refl _, inside⟩

theorem typeAll_bounds (inside : p.column ≤ width) (wide : 8 ≤ width) (keys : List (Key α)) :
    p.row ≤ (p.typeAll width blank keys).row ∧ (p.typeAll width blank keys).column ≤ width := by
  induction keys generalizing p with
  | nil => exact ⟨Nat.le_refl _, inside⟩
  | cons key keys ih =>
    obtain ⟨down, inside'⟩ := type_bounds inside wide key
    obtain ⟨further, inside''⟩ := ih inside'
    exact ⟨Nat.le_trans down further, inside''⟩

end Paper
