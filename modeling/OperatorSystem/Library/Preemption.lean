import Mathlib.Algebra.Order.BigOperators.Group.Finset
import OperatorSystem.Library.Transition

/-!
# Tasks that share data and are preempted

All tasks run the same code over shared data. A tick switches tasks between two
statements that run with interrupts enabled, and a task that sleeps switches as
well. A window of the code is a set of places where a task has tested something
and has not acted on it yet. In a calm run no tick takes a task out of a
window, and then only the running task is ever inside one: this is the frame in
which an invariant of the code is proved statement by statement.
-/

namespace Preemption

open Transition

/-- The code of the tasks. A place has the position in the code together with the task's own data. -/
structure Code (σ π : Type) where
  /-- The next statement, or the next stretch of statements with interrupts disabled. -/
  exec : σ → π → Option (σ × π)
  /-- What a task may call next. -/
  Calls : σ → π → π → Prop
  /-- The task is asleep at this place. -/
  Sleeps : σ → π → Prop
  /-- The interrupt flag. -/
  enabled : π → Bool
  /-- What interrupts do to the data. -/
  Interrupts : σ → σ → Prop

structure State (σ π τ : Type) where
  shared : σ
  places : τ → π
  running : τ

inductive Event
  | exec
  | call
  | tick
  | sleep
  | interrupt
  deriving DecidableEq

section System

variable {σ π τ : Type} [DecidableEq τ]

namespace State

def place (s : State σ π τ) : π := s.places s.running

def setPlace (s : State σ π τ) (place : π) : State σ π τ :=
  { s with places := Function.update s.places s.running place }

end State

inductive Step (C : Code σ π) : State σ π τ → Event → State σ π τ → Prop
  | exec {s : State σ π τ} {shared : σ} {place : π} (done : C.exec s.shared s.place = some (shared, place)) :
      Step C s .exec { s.setPlace place with shared }
  | call {s : State σ π τ} {place : π} (called : C.Calls s.shared s.place place) : Step C s .call (s.setPlace place)
  | tick {s : State σ π τ} (enabled : C.enabled s.place = true) (t : τ) : Step C s .tick { s with running := t }
  | sleep {s : State σ π τ} (asleep : C.Sleeps s.shared s.place) (t : τ) : Step C s .sleep { s with running := t }
  | interrupt {s : State σ π τ} {shared : σ} (done : C.Interrupts s.shared shared) :
      Step C s .interrupt { s with shared }

def system (C : Code σ π) (Init : σ → (τ → π) → Prop) : System (State σ π τ) Event where
  init s := Init s.shared s.places
  step := Step C

/-- The step is no tick that takes the running task out of the window `W`. -/
def Calm (W : π → Prop) (x : State σ π τ × Event) : Prop := x.2 = .tick → ¬ W x.1.place

omit [DecidableEq τ] in
instance (W : π → Prop) [DecidablePred W] (x : State σ π τ × Event) : Decidable (Calm W x) :=
  inferInstanceAs (Decidable (_ → _))

/-! ### Invariants of calm runs -/

section Calmness

variable {C : Code σ π} {Init : σ → (τ → π) → Prop} {W : π → Prop} {s s' : State σ π τ} {a : Event}

omit [DecidableEq τ] in
/-- No other task than the running one is inside the window. -/
def Alone (W : π → Prop) (s : State σ π τ) : Prop := ∀ t, t ≠ s.running → ¬ W (s.places t)

/-- A place that the running task has left does not matter to the others. -/
theorem alone_setPlace {shared : σ} {place : π} (alone : Alone W s) : Alone W { s.setPlace place with shared } := by
  intro t other
  have away : t ≠ s.running := other
  change ¬ W (Function.update s.places s.running place t)
  rw [Function.update_of_ne away]
  exact alone t other

omit [DecidableEq τ] in
theorem alone_switch (alone : Alone W s) (outside : ¬ W s.place) (t : τ) : Alone W { s with running := t } := by
  intro u _
  by_cases here : u = s.running
  · rw [here]
    exact outside
  · exact alone u here

theorem alone_step (awake : ∀ shared place, C.Sleeps shared place → ¬ W place) (alone : Alone W s)
    (taken : Step C s a s') (calm : Calm W (s, a)) : Alone W s' := by
  cases taken with
  | exec done => exact alone_setPlace alone
  | call called => exact alone_setPlace alone
  | tick enabled t => exact alone_switch alone (calm rfl) t
  | sleep asleep t => exact alone_switch alone (awake _ _ asleep) t
  | interrupt done => exact alone

/-- The invariant rule. `I` is kept by what the running task does while no other
task is inside the window, and by interrupts. -/
theorem invariant {I : σ → (τ → π) → Prop} {G : State σ π τ × Event → Prop} {hist : List (State σ π τ × Event)}
    (awake : ∀ shared place, C.Sleeps shared place → ¬ W place)
    (initial : ∀ shared places, Init shared places → I shared places ∧ ∀ t, ¬ W (places t))
    (exec : ∀ s shared place, I s.shared s.places → Alone W s → G (s, .exec) →
      C.exec s.shared s.place = some (shared, place) → I shared (Function.update s.places s.running place))
    (call : ∀ s place, I s.shared s.places → Alone W s → C.Calls s.shared s.place place →
      I s.shared (Function.update s.places s.running place))
    (interrupt : ∀ (s : State σ π τ) shared, I s.shared s.places → C.Interrupts s.shared shared → I shared s.places)
    (run : Run (system C Init) hist s) (guarded : ∀ x ∈ hist, G x) (calm : ∀ x ∈ hist, Calm W x) :
    I s.shared s.places := by
  -- together with the invariant, no other task is in a window
  have kept : I s.shared s.places ∧ Alone W s := by
    apply run.guarded (G := fun s a => G (s, a) ∧ Calm W (s, a)) (I := fun s => I s.shared s.places ∧ Alone W s)
    · intro s start
      obtain ⟨holds, outside⟩ := initial _ _ start
      exact ⟨holds, fun t _ => outside t⟩
    · intro s a s' ⟨holds, alone⟩ taken ⟨met, still⟩
      refine ⟨?_, alone_step awake alone taken still⟩
      cases taken with
      | exec done => exact exec s _ _ holds alone met done
      | call called => exact call s _ holds alone called
      | tick enabled t => exact holds
      | sleep asleep t => exact holds
      | interrupt done => exact interrupt s _ holds done
    · exact fun x member => ⟨guarded x member, calm x member⟩
  exact kept.1

end Calmness

/-! ### What the tasks own -/

section Owners

variable {κ : Type} {own : π → Option κ} {places : τ → π}

omit [DecidableEq τ] in
/-- No two tasks own the same thing. -/
def Exclusive (own : π → Option κ) (places : τ → π) : Prop :=
  ∀ t u i, own (places t) = some i → own (places u) = some i → t = u

/-- A task may move to a place where it owns what no other task does. -/
theorem Exclusive.update {r : τ} {place : π} (exclusive : Exclusive own places)
    (fresh : ∀ u i, u ≠ r → own place = some i → own (places u) ≠ some i) :
    Exclusive own (Function.update places r place) := by
  intro t u i has has'
  by_cases left : t = r <;> by_cases right : u = r
  · exact left.trans right.symm
  · rw [left, Function.update_self] at has
    rw [Function.update_of_ne right] at has'
    exact absurd has' (fresh u i right has)
  · rw [Function.update_of_ne left] at has
    rw [right, Function.update_self] at has'
    exact absurd has (fresh t i left has')
  · rw [Function.update_of_ne left] at has
    rw [Function.update_of_ne right] at has'
    exact exclusive t u i has has'

end Owners

/-! ### What the tasks have together -/

section Totals

variable [Fintype τ]

/-- The sum over all tasks. -/
def total (f : π → Nat) (places : τ → π) : Nat := ∑ t, f (places t)

theorem total_update (f : π → Nat) (places : τ → π) (r : τ) (place : π) :
    total f (Function.update places r place) + f (places r) = total f places + f place := by
  have rest : ∑ t ∈ Finset.univ.erase r, f (Function.update places r place t) =
      ∑ t ∈ Finset.univ.erase r, f (places t) := by
    refine Finset.sum_congr rfl fun t member => ?_
    rw [Function.update_of_ne (Finset.ne_of_mem_erase member)]
  rw [total, total, ← Finset.add_sum_erase Finset.univ _ (Finset.mem_univ r),
    ← Finset.add_sum_erase Finset.univ (fun t => f (places t)) (Finset.mem_univ r), rest, Function.update_self]
  omega

omit [DecidableEq τ] in
theorem le_total (f : π → Nat) (places : τ → π) (t : τ) : f (places t) ≤ total f places :=
  Finset.single_le_sum (f := fun t => f (places t)) (fun _ _ => Nat.zero_le _) (Finset.mem_univ t)

/-- Two tasks have no more than all of them. -/
theorem pair_le_total (f : π → Nat) (places : τ → π) {t u : τ} (other : t ≠ u) :
    f (places t) + f (places u) ≤ total f places := by
  rw [total, ← Finset.add_sum_erase Finset.univ (fun t => f (places t)) (Finset.mem_univ t)]
  have inside : u ∈ Finset.univ.erase t := Finset.mem_erase.mpr ⟨other.symm, Finset.mem_univ u⟩
  exact Nat.add_le_add_left (Finset.single_le_sum (f := fun t => f (places t)) (fun _ _ => Nat.zero_le _) inside) _

end Totals

/-! ### Counters of a byte, which the shared data keep of what the tasks have -/

theorem toNat_succ {n : BitVec 8} (room : n ≠ 255) : (n + 1).toNat = n.toNat + 1 := by
  have one : (1 : BitVec 8).toNat = 1 := rfl
  have bound := n.isLt
  have below : n.toNat ≠ 255 := by
    intro full
    exact room (BitVec.eq_of_toNat_eq full)
  rw [BitVec.toNat_add, one, Nat.mod_eq_of_lt (by omega)]

theorem toNat_pred {n : BitVec 8} (positive : 1 ≤ n.toNat) : (n - 1).toNat = n.toNat - 1 := by
  have one : (1 : BitVec 8).toNat = 1 := rfl
  have bound := n.isLt
  rw [BitVec.toNat_sub, one]
  omega

/-! ### Schedules -/

inductive Move (τ : Type)
  /-- The running task goes on for so many statements. -/
  | exec (n : Nat)
  | tick (t : τ)

section Schedules

variable {C : Code σ π} {Init : σ → (τ → π) → Prop} {r r' : List (State σ π τ × Event) × State σ π τ}

/-- The running task makes `n` statements; the history grows with them. -/
def execs (C : Code σ π) : Nat → List (State σ π τ × Event) × State σ π τ →
    Option (List (State σ π τ × Event) × State σ π τ)
  | 0, r => some r
  | n + 1, (hist, s) => do
    let (shared, place) ← C.exec s.shared s.place
    execs C n ((s, .exec) :: hist, { s.setPlace place with shared })

def play (C : Code σ π) : List (Move τ) → List (State σ π τ × Event) × State σ π τ →
    Option (List (State σ π τ × Event) × State σ π τ)
  | [], r => some r
  | .exec n :: moves, r => do play C moves (← execs C n r)
  | .tick t :: moves, (hist, s) =>
    if C.enabled s.place then play C moves ((s, .tick) :: hist, { s with running := t }) else none

theorem run_execs {n : Nat} (run : Run (system C Init) r.1 r.2) (done : execs C n r = some r') :
    Run (system C Init) r'.1 r'.2 := by
  induction n generalizing r with
  | zero =>
    obtain rfl := Option.some.inj done
    exact run
  | succ n ih =>
    obtain ⟨⟨shared, place⟩, first, more⟩ := Option.bind_eq_some_iff.mp done
    exact ih (run.step (.exec first)) more

/-- A schedule that can be played is a run. -/
theorem run_play {moves : List (Move τ)} (run : Run (system C Init) r.1 r.2) (done : play C moves r = some r') :
    Run (system C Init) r'.1 r'.2 := by
  induction moves generalizing r with
  | nil =>
    obtain rfl := Option.some.inj done
    exact run
  | cons move moves ih =>
    cases move with
    | exec n =>
      obtain ⟨r₁, first, more⟩ := Option.bind_eq_some_iff.mp done
      exact ih (run_execs run first) more
    | tick t =>
      obtain ⟨hist, s⟩ := r
      simp only [play] at done
      split at done
      next enabled => exact ih (run.step (.tick enabled t)) done
      next => cases done

end Schedules

end System

end Preemption
