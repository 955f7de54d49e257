import Mathlib.Data.List.Basic

/-!
# Lists with few descents

A descent of a list is a place where an element is not before its successor. A
list with at most one descent is a sorted sequence that has been cut and put
together the other way round. `elevate` inserts an element behind the first one
where it is between two neighbours, or where it can open the second part, or
else at the end. It needs of the order only that the new element is before
each element or behind it.
-/

namespace Descents

variable {α : Type} (before : α → α → Prop) [DecidableRel before]

/-- The number of places where an element is not before its successor. -/
def descents : List α → Nat
  | [] => 0
  | [_] => 0
  | a :: b :: l => (if before a b then 0 else 1) + descents (b :: l)

/-- The element `x` is inserted into `a :: l` behind `a` or further on. -/
def elevate (x a : α) : List α → List α
  | [] => [a, x]
  | b :: l =>
    if (before a x ∨ ¬ before a b) ∧ before x b then a :: x :: b :: l
    else a :: elevate x b l

variable {before} {x a : α} {l : List α}

/-- The first element stays first. -/
theorem elevate_head : ∃ m, elevate before x a l = a :: m := by
  cases l with
  | nil => exact ⟨[x], rfl⟩
  | cons b l =>
    simp only [elevate]
    split
    · exact ⟨_, rfl⟩
    · exact ⟨_, rfl⟩

/-- The descents of a list with a second element, by what is in front of it. -/
theorem descents_elevate_cons {b : α} : descents before (a :: elevate before x b l) =
    (if before a b then 0 else 1) + descents before (elevate before x b l) := by
  obtain ⟨m, same⟩ : ∃ m, elevate before x b l = b :: m := elevate_head
  rw [same, descents]

/-- Behind a smaller element of a sorted list there is a place for `x`. -/
theorem descents_elevate_sorted (comparable : ∀ y ∈ l, before x y ∨ before y x) (smaller : before a x)
    (sorted : descents before (a :: l) = 0) : descents before (elevate before x a l) = 0 := by
  induction l generalizing a with
  | nil => simp [elevate, descents, smaller]
  | cons b l ih =>
    simp only [descents] at sorted
    simp only [elevate]
    by_cases larger : before x b
    · rw [if_pos ⟨Or.inl smaller, larger⟩]
      simp only [descents, smaller, larger, if_true]
      omega
    · rw [if_neg fun here => larger here.2, descents_elevate_cons]
      have next := (comparable b List.mem_cons_self).resolve_left larger
      rw [ih (fun y member => comparable y (List.mem_cons_of_mem b member)) next (by omega)]
      omega

/-- The list still has at most one descent, by induction on the elements passed. -/
theorem descents_elevate (comparable : ∀ y ∈ l, before x y ∨ before y x)
    (few : descents before (a :: l) ≤ 1) : descents before (elevate before x a l) ≤ 1 := by
  induction l generalizing a with
  | nil =>
    simp only [elevate, descents]
    split <;> omega
  | cons b l ih =>
    have others : ∀ y ∈ l, before x y ∨ before y x :=
      fun y member => comparable y (List.mem_cons_of_mem b member)
    simp only [descents] at few
    simp only [elevate]
    by_cases ascent : before a b
    · rw [if_pos ascent] at few
      split
      next here =>
        have smaller : before a x := here.1.resolve_right (not_not.mpr ascent)
        simp only [descents, smaller, here.2, if_true]
        omega
      · rw [descents_elevate_cons, if_pos ascent, Nat.zero_add]
        exact ih others (by omega)
    · -- the one descent is here, so the rest of the list is sorted
      rw [if_neg ascent] at few
      by_cases larger : before x b
      · rw [if_pos ⟨Or.inr ascent, larger⟩]
        simp only [descents, larger, if_true]
        split <;> omega
      · rw [if_neg fun here => larger here.2, descents_elevate_cons, if_neg ascent]
        have next := (comparable b List.mem_cons_self).resolve_left larger
        have sorted := descents_elevate_sorted others next (by omega)
        omega

/-- Only the order of neighbours counts. -/
theorem descents_congr {before' : α → α → Prop} [DecidableRel before']
    (same : ∀ y ∈ l, ∀ z ∈ l, before' y z ↔ before y z) : descents before' l = descents before l := by
  induction l with
  | nil => rfl
  | cons a l ih =>
    cases l with
    | nil => rfl
    | cons b l =>
      have rest := ih fun y left z right =>
        same y (List.mem_cons_of_mem a left) z (List.mem_cons_of_mem a right)
      have first := same a List.mem_cons_self b (List.mem_cons_of_mem a List.mem_cons_self)
      simp only [descents, rest, first]

end Descents
