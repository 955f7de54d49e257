import Mathlib.Logic.Relation
import Mathlib.Tactic.ByContra

/-!
# Labelled transition systems with guarded runs

A run is kept as its history: the visited states, each with the label taken
from it, most recent first. Besides the usual invariant rule, the module gives
the two rules for properties that hold only while every step meets a guard: the
restricted system (`restrict`) and the exact rules (`Run.guard_iff` for states,
`Run.steps_iff` for steps), which say that a property holds all along a run if
and only if every step of the run meets the guard.
-/

namespace Transition

/-- A labelled transition system with a set of initial states. -/
structure System (σ ι : Type) where
  init : σ → Prop
  step : σ → ι → σ → Prop

/-- `Run S hist s`: some initial state reaches `s` through the steps of `hist`. -/
inductive Run {σ ι : Type} (S : System σ ι) : List (σ × ι) → σ → Prop
  | init {s : σ} (start : S.init s) : Run S [] s
  | step {hist : List (σ × ι)} {s s' : σ} {a : ι} (run : Run S hist s) (taken : S.step s a s') :
      Run S ((s, a) :: hist) s'

variable {σ ι : Type} {S : System σ ι}

/-- The history of the run that hands the labels to the function `f` one after the other. -/
def traced (f : σ → ι → σ) : σ → List ι → List (σ × ι)
  | _, [] => []
  | s, a :: labels => traced f (f s a) labels ++ [(s, a)]

/-- Where `f` gives a step for every label, any labels continue a run. -/
theorem Run.traced {f : σ → ι → σ} (steps : ∀ s a, S.step s a (f s a)) (labels : List ι)
    {hist : List (σ × ι)} {s : σ} (run : Run S hist s) :
    Run S (Transition.traced f s labels ++ hist) (labels.foldl f s) := by
  induction labels generalizing hist s with
  | nil => exact run
  | cons a labels ih =>
    have next := ih (.step run (steps s a))
    rw [Transition.traced, List.append_assoc]
    exact next

/-- `s` is reached by some run. -/
def Reachable (S : System σ ι) (s : σ) : Prop := ∃ hist, Run S hist s

theorem Reachable.init {s : σ} (start : S.init s) : Reachable S s := ⟨[], .init start⟩

theorem Reachable.step {s s' : σ} {a : ι} (reached : Reachable S s) (taken : S.step s a s') :
    Reachable S s' := by
  obtain ⟨hist, run⟩ := reached
  exact ⟨(s, a) :: hist, .step run taken⟩

/-- The invariant rule: initial, and preserved by every step. -/
theorem Reachable.invariant {I : σ → Prop} (initial : ∀ s, S.init s → I s)
    (preserved : ∀ s a s', I s → S.step s a s' → I s') {s : σ} (reached : Reachable S s) :
    I s := by
  obtain ⟨hist, run⟩ := reached
  induction run with
  | init start => exact initial _ start
  | step _ taken ih => exact preserved _ _ _ ih taken

/-- The system that takes only the steps which meet the guard. -/
def System.restrict (S : System σ ι) (Guard : σ → ι → Prop) : System σ ι where
  init := S.init
  step s a s' := S.step s a s' ∧ Guard s a

/-- A run of the restricted system is a run whose steps all meet the guard. -/
theorem run_restrict_iff {Guard : σ → ι → Prop} {hist : List (σ × ι)} {s : σ} :
    Run (S.restrict Guard) hist s ↔ Run S hist s ∧ ∀ x ∈ hist, Guard x.1 x.2 := by
  constructor
  · intro run
    induction run with
    | init start => exact ⟨.init start, by simp⟩
    | step _ taken ih =>
      refine ⟨.step ih.1 taken.1, ?_⟩
      rintro x (_ | ⟨_, old⟩)
      · exact taken.2
      · exact ih.2 x old
  · rintro ⟨run, guarded⟩
    induction run with
    | init start => exact .init start
    | step _ taken ih =>
      exact .step (ih fun x old => guarded x (List.mem_cons_of_mem _ old))
        ⟨taken, guarded _ List.mem_cons_self⟩

/-- What the guard preserves holds at the end of every guarded run. -/
theorem Run.guarded {G : σ → ι → Prop} {I : σ → Prop} (initial : ∀ s, S.init s → I s)
    (preserved : ∀ s a s', I s → S.step s a s' → G s a → I s')
    {hist : List (σ × ι)} {s : σ} (run : Run S hist s) (guarded : ∀ x ∈ hist, G x.1 x.2) :
    I s := by
  apply Reachable.invariant (S := S.restrict G) initial
  · intro s a s' holds taken
    exact preserved s a s' holds taken.1 taken.2
  · exact ⟨hist, run_restrict_iff.mpr ⟨run, guarded⟩⟩

/-- The exact rule. `I` is what the guard preserves, `P` the property of
interest: it follows from `I`, and the first step that misses the guard loses
it. Then `P` holds all along a run exactly when all its steps meet the guard. -/
theorem Run.guard_iff {G : σ → ι → Prop} {I P : σ → Prop}
    (initial : ∀ s, S.init s → I s)
    (preserved : ∀ s a s', I s → S.step s a s' → G s a → I s')
    (implies : ∀ s, I s → P s)
    (lost : ∀ s a s', I s → S.step s a s' → ¬ G s a → ¬ P s')
    {hist : List (σ × ι)} {s : σ} (run : Run S hist s) :
    ((∀ x ∈ hist, P x.1) ∧ P s) ↔ ∀ x ∈ hist, G x.1 x.2 := by
  induction run with
  | init start => simp [implies _ (initial _ start)]
  | @step hist s s' a run taken ih =>
    -- up to here all steps have met the guard, so `I` holds
    have before : (∀ x ∈ hist, G x.1 x.2) → I s := Run.guarded initial preserved run
    simp only [List.forall_mem_cons]
    constructor
    · rintro ⟨⟨here, earlier⟩, after⟩
      have guarded := ih.mp ⟨earlier, here⟩
      refine ⟨?_, guarded⟩
      by_contra missed
      exact lost s a s' (before guarded) taken missed after
    · rintro ⟨met, guarded⟩
      have holds := ih.mpr guarded
      exact ⟨⟨holds.2, holds.1⟩, implies _ (preserved _ _ _ (before guarded) taken met)⟩

/-- The exact rule for a property of the steps: where `I` holds, a step has the
property exactly if it meets the guard, and the guard preserves `I`. -/
theorem Run.steps_iff {G P : σ × ι → Prop} {I : σ → Prop} (initial : ∀ s, S.init s → I s)
    (preserved : ∀ s a s', I s → S.step s a s' → G (s, a) → I s')
    (exact : ∀ s a s', I s → S.step s a s' → (P (s, a) ↔ G (s, a)))
    {hist : List (σ × ι)} {s : σ} (run : Run S hist s) :
    (∀ x ∈ hist, P x) ↔ ∀ x ∈ hist, G x := by
  induction run with
  | init => simp
  | @step hist s s' a run taken ih =>
    have here : (∀ x ∈ hist, G x) → (P (s, a) ↔ G (s, a)) := by
      intro guarded
      apply exact s a s' _ taken
      exact run.guarded (G := fun s a => G (s, a)) initial preserved guarded
    simp only [List.forall_mem_cons]
    constructor
    · rintro ⟨now, earlier⟩
      have guarded := ih.mp earlier
      exact ⟨(here guarded).mp now, guarded⟩
    · rintro ⟨now, guarded⟩
      exact ⟨(here guarded).mpr now, ih.mpr guarded⟩

/-- The property of histories and states holds at every point of a run. -/
def Along (P : List (σ × ι) → σ → Prop) : List (σ × ι) → σ → Prop
  | [], s => P [] s
  | x :: hist, s => P (x :: hist) s ∧ Along P hist x.1

theorem Along.last {P : List (σ × ι) → σ → Prop} {hist : List (σ × ι)} {s : σ} (along : Along P hist s) :
    P hist s := by
  cases hist with
  | nil => exact along
  | cons x hist => exact along.1

/-- The exact rule for a property of the history together with one of the steps. -/
theorem Run.along_iff {P : List (σ × ι) → σ → Prop} {Q G : σ × ι → Prop} (initial : ∀ s, S.init s → P [] s)
    (exact : ∀ hist s a s', P hist s → S.step s a s' → (P ((s, a) :: hist) s' ∧ Q (s, a) ↔ G (s, a)))
    {hist : List (σ × ι)} {s : σ} (run : Run S hist s) :
    (Along P hist s ∧ ∀ x ∈ hist, Q x) ↔ ∀ x ∈ hist, G x := by
  induction run with
  | init start => simpa [Along] using initial _ start
  | @step hist s s' a run taken ih =>
    simp only [List.forall_mem_cons]
    constructor
    · rintro ⟨⟨now, along⟩, right, rights⟩
      exact ⟨(exact hist s a s' along.last taken).mp ⟨now, right⟩, ih.mp ⟨along, rights⟩⟩
    · rintro ⟨met, guarded⟩
      obtain ⟨along, rights⟩ := ih.mpr guarded
      obtain ⟨now, right⟩ := (exact hist s a s' along.last taken).mpr met
      exact ⟨⟨now, along⟩, right, rights⟩

/-- The invariant rule for histories: what the guard preserves holds at every
point of a guarded run. -/
theorem Run.along_guarded {I : List (σ × ι) → σ → Prop} {G : σ × ι → Prop}
    (initial : ∀ s, S.init s → I [] s)
    (preserved : ∀ hist s a s', I hist s → S.step s a s' → G (s, a) → I ((s, a) :: hist) s')
    {hist : List (σ × ι)} {s : σ} (run : Run S hist s) (guarded : ∀ x ∈ hist, G x) :
    Along I hist s := by
  induction run with
  | init start => exact initial _ start
  | step run taken ih =>
    have along := ih fun x old => guarded x (List.mem_cons_of_mem _ old)
    exact ⟨preserved _ _ _ _ along.last taken (guarded _ List.mem_cons_self), along⟩

theorem Along.mono {P Q : List (σ × ι) → σ → Prop} (implies : ∀ hist s, P hist s → Q hist s)
    {hist : List (σ × ι)} {s : σ} (along : Along P hist s) : Along Q hist s := by
  induction hist generalizing s with
  | nil => exact implies _ _ along
  | cons x hist ih => exact ⟨implies _ _ along.1, ih along.2⟩

end Transition
