import Mathlib.Algebra.BigOperators.Group.Finset.Basic
import Mathlib.Algebra.BigOperators.Pi
import Mathlib.Algebra.GroupWithZero.Nat
import Mathlib.Algebra.Order.BigOperators.Group.Finset

/-!
# Owners who take turns by their budgets

In each step the owner of the turn pays one unit of its budget. When all budgets
are used up, everyone gets a fixed share anew. The main result `charged_eq` says
what each owner has paid after the first budgets and any number of full rounds,
whatever the rule that chooses the next owner.
-/

namespace Shares

variable {σ ι : Type} [Fintype ι] [DecidableEq ι]

/-- A system in which each state has an owner and budgets. -/
structure Policy (σ ι : Type) where
  owner : σ → ι
  budget : σ → ι → Nat
  step : σ → σ → Prop

/-- `Run P n s charged s'`: `n` steps lead from `s` to `s'`, and `charged` counts the turns. -/
inductive Run (P : Policy σ ι) : Nat → σ → (ι → Nat) → σ → Prop
  | nil (s : σ) : Run P 0 s 0 s
  | snoc {n : Nat} {s s' s'' : σ} {charged : ι → Nat} (run : Run P n s charged s') (taken : P.step s' s'') :
      Run P (n + 1) s (charged + Pi.single (P.owner s') 1) s''

/-- The budgets after the owner has paid. -/
def Policy.paid (P : Policy σ ι) (s : σ) : ι → Nat :=
  Function.update (P.budget s) (P.owner s) (P.budget s (P.owner s) - 1)

/-- The owner has something to pay, and budgets are filled up when all are used up. -/
structure Obeys (P : Policy σ ι) (share : ι → Nat) (I : σ → Prop) : Prop where
  funded : ∀ s, I s → 0 < P.budget s (P.owner s)
  kept : ∀ s s', I s → P.step s s' → I s'
  spent : ∀ s s', I s → P.step s s' → P.budget s' = if P.paid s = 0 then share else P.paid s

variable {P : Policy σ ι} {share : ι → Nat} {I : σ → Prop} {n m : Nat} {s s' : σ} {charged : ι → Nat}

theorem Run.kept (obeys : Obeys P share I) (run : Run P n s charged s') (start : I s) : I s' := by
  induction run with
  | nil => exact start
  | snoc _ taken ih => exact obeys.kept _ _ (ih start) taken

/-- Every step is one turn. -/
theorem Run.sum_charged (run : Run P n s charged s') : ∑ i, charged i = n := by
  induction run with
  | nil => simp
  | snoc _ _ ih =>
    simp only [Pi.add_apply, Finset.sum_add_distrib, ih, Finset.sum_pi_single', Finset.mem_univ, if_true]

omit [Fintype ι] in
theorem Run.split (run : Run P (m + n) s charged s') :
    ∃ first second t, Run P m s first t ∧ Run P n t second s' ∧ charged = first + second := by
  induction n generalizing charged s' with
  | zero => exact ⟨charged, 0, s', run, .nil s', (add_zero charged).symm⟩
  | succ n ih =>
    cases run with
    | snoc run taken =>
      obtain ⟨first, second, t, before, after, rfl⟩ := ih run
      exact ⟨first, _, t, before, after.snoc taken, add_assoc _ _ _⟩

omit [Fintype ι] in
theorem paid_add (funded : 0 < P.budget s (P.owner s)) :
    Pi.single (P.owner s) 1 + P.paid s = P.budget s := by
  funext i
  rw [Pi.add_apply, Policy.paid, Function.update_apply, Pi.single_apply]
  split
  · subst i
    omega
  · exact Nat.zero_add _

/-- As long as the budgets are not used up, each owner has paid the difference; with the last unit
each has paid its budget, and has its share. -/
theorem Run.first (obeys : Obeys P share I) (run : Run P n s charged s') (start : I s)
    (within : n ≤ ∑ i, P.budget s i) :
    if n < ∑ i, P.budget s i then charged + P.budget s' = P.budget s
    else charged = P.budget s ∧ P.budget s' = share := by
  induction run with
  | nil s =>
    have some : 0 < ∑ i, P.budget s i :=
      lt_of_lt_of_le (obeys.funded s start)
        (Finset.single_le_sum (fun i _ => Nat.zero_le (P.budget s i)) (Finset.mem_univ _))
    rw [if_pos some, zero_add]
  | @snoc n s t u charged run taken ih =>
    have before := ih start (Nat.le_of_succ_le within)
    rw [if_pos (Nat.lt_of_succ_le within)] at before
    have inv := run.kept obeys start
    have total : charged + Pi.single (P.owner t) 1 + P.paid t = P.budget s := by
      rw [add_assoc, paid_add (obeys.funded t inv), before]
    have left : n + 1 + ∑ i, P.paid t i = ∑ i, P.budget s i := by
      rw [← total, ← (run.snoc taken).sum_charged]
      simp only [Pi.add_apply, Finset.sum_add_distrib]
    have budget := obeys.spent t u inv taken
    split
    next more =>
      have unpaid : P.paid t ≠ 0 := by
        intro none
        simp only [none, Pi.zero_apply, Finset.sum_const_zero] at left
        omega
      rw [budget, if_neg unpaid, total]
    next last =>
      -- nothing is left, so the budgets are filled up
      have none : P.paid t = 0 := by
        have zero : ∑ i, P.paid t i = 0 := by omega
        funext i
        exact Finset.sum_eq_zero_iff.mp zero i (Finset.mem_univ i)
      rw [budget, if_pos none, ← total, none, add_zero]
      exact ⟨rfl, rfl⟩

/-- After the first budgets and `k` rounds each owner has paid its budget and `k` times its share. -/
theorem charged_eq (obeys : Obeys P share I) (start : I s) (k : Nat)
    (run : Run P (∑ i, P.budget s i + k * ∑ i, share i) s charged s') :
    (∀ i, charged i = P.budget s i + k * share i) ∧ P.budget s' = share := by
  induction k generalizing charged s' with
  | zero =>
    rw [Nat.zero_mul, Nat.add_zero] at run
    have spent := run.first obeys start le_rfl
    rw [if_neg (lt_irrefl _)] at spent
    refine ⟨fun i => ?_, spent.2⟩
    rw [spent.1, Nat.zero_mul, Nat.add_zero]
  | succ k ih =>
    rw [Nat.succ_mul, ← Nat.add_assoc] at run
    obtain ⟨first, second, t, before, after, rfl⟩ := run.split
    obtain ⟨rounds, full⟩ := ih before
    -- the last round starts with the shares as budgets
    rw [← full] at after
    have spent := after.first obeys (before.kept obeys start) le_rfl
    rw [if_neg (lt_irrefl _), full] at spent
    refine ⟨fun i => ?_, spent.2⟩
    rw [Pi.add_apply, rounds, spent.1, Nat.succ_mul, Nat.add_assoc]

end Shares
