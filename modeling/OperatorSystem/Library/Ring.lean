import Mathlib.Data.List.Basic
import Mathlib.Logic.Function.Basic

/-!
# Ring buffers

A ring buffer is a function from the places below `size` to the elements. Its
contents are `n` elements from the place `tail` on, and the place behind them is
the head. While fewer than `size` elements are in, that place is none of theirs.
-/

namespace Ring

variable {α : Type} {size : Nat}

/-- The `n` elements from the place `tail` on. -/
def contents (size : Nat) (buf : Nat → α) (tail n : Nat) : List α :=
  (List.range n).map fun i => buf ((tail + i) % size)

@[simp] theorem length_contents (buf : Nat → α) (tail n : Nat) : (contents size buf tail n).length = n := by
  simp [contents]

@[simp] theorem contents_zero (buf : Nat → α) (tail : Nat) : contents size buf tail 0 = [] := rfl

theorem place_ne {tail i n : Nat} (before : i < n) (room : n < size) : (tail + i) % size ≠ (tail + n) % size := by
  intro same
  have steps : (tail + n - (tail + i)) % size = 0 := Nat.sub_mod_eq_zero_of_mod_eq same.symm
  have few : tail + n - (tail + i) = n - i := by omega
  rw [few, Nat.mod_eq_of_lt (by omega)] at steps
  omega

/-- An element stored at the head comes last. -/
theorem contents_put {buf : Nat → α} {tail n : Nat} (room : n < size) (a : α) :
    contents size (Function.update buf ((tail + n) % size) a) tail (n + 1) = contents size buf tail n ++ [a] := by
  have before : (List.range n).map (fun i => Function.update buf ((tail + n) % size) a ((tail + i) % size)) =
      contents size buf tail n := by
    refine List.map_congr_left fun i member => ?_
    exact Function.update_of_ne (place_ne (List.mem_range.mp member) room) _ _
  rw [contents, List.range_succ, List.map_append, before]
  simp

/-- The first element is the one at the tail. -/
theorem contents_drop {buf : Nat → α} {tail : Nat} (inside : tail < size) (n : Nat) :
    contents size buf tail (n + 1) = buf tail :: contents size buf ((tail + 1) % size) n := by
  rw [contents, List.range_succ_eq_map, List.map_cons, List.map_map, Nat.add_zero, Nat.mod_eq_of_lt inside]
  refine congrArg _ (List.map_congr_left fun i _ => ?_)
  simp only [Function.comp_apply, Nat.mod_add_mod]
  rw [Nat.succ_eq_add_one, Nat.add_assoc, Nat.add_comm 1]

/-- Without the first `n` elements the rest begins `n` places further. -/
theorem drop_contents (buf : Nat → α) (tail n k : Nat) :
    (contents size buf tail (n + k)).drop n = contents size buf ((tail + n) % size) k := by
  apply List.ext_getElem
  · simp
  · intro i inside _
    simp only [contents, List.getElem_drop, List.getElem_map, List.getElem_range, Nat.mod_add_mod, Nat.add_assoc]

end Ring
