import Mathlib.Logic.Function.Basic
import OperatorSystem.Kernel.Process
import OperatorSystem.Library.Transition

/-!
# Wait queues: `sleepOn` and `wakeUp`

A wait queue is one pointer `*p`. The queue behind it is a linked stack whose
links are the local variables `tmp` of the tasks inside `sleepOn`. The module
models the two halves of `sleepOn` (around its call of `schedule`) and `wakeUp`
on one queue head, for any number of tasks in slots 1..63 and any interleaving.

A resumed sleeper stores its saved `tmp` into `*p` whatever `*p` is by then, so
a task that went to sleep after the `wakeUp` can be dropped. The main result
`noSleeperLost_iff` says exactly when no run loses a sleeper.
-/

namespace OperatorSystem.Kernel

open Relation

/-- What the two functions read and write for one queue head: `*p`, the state
word of every task, and the local `tmp` of each task inside `sleepOn`. -/
structure WaitQueue where
  head : Option Slot
  state : Slot → Int
  tmp : Slot → Option (Option Slot)

namespace WaitQueue

/-- `sleepOn` up to its call of `schedule`: `tmp = *p; *p = CURRENT; state = UNINTERRUPTIBLE`. -/
def sleepOnEnter (s : WaitQueue) (current : Slot) : WaitQueue where
  head := some current
  state := Function.update s.state current taskUninterruptible
  tmp := Function.update s.tmp current (some s.head)

/-- `sleepOn` after `schedule` has come back: `*p = tmp; if (tmp) tmp->state = RUNNING`. -/
def sleepOnLeave (s : WaitQueue) (current : Slot) (saved : Option Slot) : WaitQueue where
  head := saved
  state := match saved with
    | none => s.state
    | some w => Function.update s.state w taskRunning
  tmp := Function.update s.tmp current none

/-- `wakeUp`: make the head runnable and empty the queue head. -/
def wakeUp (s : WaitQueue) : WaitQueue :=
  match s.head with
  | none => s
  | some h => { s with head := none, state := Function.update s.state h taskRunning }

inductive Action
  | enter (current : Slot)
  | leave (current : Slot)
  | wakeUp

/-- `schedule` resumes only a `TASK_RUNNING` task in slots 1..63, so a sleeper
takes its second half only once it has been made runnable. -/
inductive Step : WaitQueue → Action → WaitQueue → Prop
  | enter {s : WaitQueue} {t : Slot} (user : t ≠ 0) (outside : s.tmp t = none)
      (running : s.state t = taskRunning) : Step s (.enter t) (s.sleepOnEnter t)
  | leave {s : WaitQueue} {t : Slot} {saved : Option Slot} (inside : s.tmp t = some saved)
      (running : s.state t = taskRunning) : Step s (.leave t) (s.sleepOnLeave t saved)
  | wakeUp {s : WaitQueue} : Step s .wakeUp s.wakeUp

/-- One queue head, empty at first, with nobody inside `sleepOn`. -/
def system : Transition.System WaitQueue Action where
  init s := s.head = none ∧ ∀ t, s.tmp t = none
  step := Step

/-- The task waits inside `sleepOn`. -/
def Asleep (s : WaitQueue) (t : Slot) : Prop :=
  s.tmp t ≠ none ∧ s.state t = taskUninterruptible

/-- The task has been made runnable and has not taken its second half yet. -/
def Woken (s : WaitQueue) (t : Slot) : Prop :=
  s.tmp t ≠ none ∧ s.state t = taskRunning

/-- The saved link of a task inside `sleepOn`. -/
def Link (s : WaitQueue) (a b : Slot) : Prop := s.tmp a = some (some b)

/-- Every sleeper hangs below the queue head or below a woken task. -/
def NoSleeperLost (s : WaitQueue) : Prop :=
  ∀ t, Asleep s t → ∃ r, (s.head = some r ∨ Woken s r) ∧ ReflTransGen (Link s) r t

/-- The task at the head, if it is asleep, also hangs below a woken task. -/
def HeadCovered (s : WaitQueue) : Prop :=
  ∀ h, s.head = some h → Asleep s h → ∃ r, Woken s r ∧ ReflTransGen (Link s) r h

/-- A woken task overwrites `*p` only while nobody hangs on the old `*p` alone. -/
def LeaveCovered (s : WaitQueue) : Action → Prop
  | .leave _ => HeadCovered s
  | _ => True

/-- A task inside `sleepOn` is asleep or woken. -/
def WellFormed (s : WaitQueue) : Prop :=
  ∀ t, s.tmp t ≠ none → s.state t = taskRunning ∨ s.state t = taskUninterruptible

/-! ### The invariant along one step -/

theorem Asleep.not_running {s : WaitQueue} {t : Slot} (asleep : Asleep s t) :
    s.state t ≠ taskRunning := by
  rw [asleep.2]
  decide

/-- A path that starts at a task outside `sleepOn` goes nowhere. -/
theorem path_of_outside {s : WaitQueue} {a b : Slot} (outside : s.tmp a = none)
    (path : ReflTransGen (Link s) a b) : a = b := by
  rcases ReflTransGen.cases_head path with equal | ⟨c, link, _⟩
  · exact equal
  · simp [Link, outside] at link

/-- Links survive when only a task outside `sleepOn` changes its `tmp`. -/
theorem path_enter {s : WaitQueue} {t a b : Slot} (outside : s.tmp t = none)
    (path : ReflTransGen (Link s) a b) : ReflTransGen (Link (s.sleepOnEnter t)) a b := by
  refine ReflTransGen.mono (fun x y link => ?_) _ _ path
  have different : x ≠ t := by
    rintro rfl
    simp [Link, outside] at link
  simpa [Link, sleepOnEnter, Function.update_of_ne different] using link

/-- When `t` leaves, an old path survives or its rest hangs below the saved task. -/
theorem path_leave {s : WaitQueue} {t a b : Slot} {saved : Option Slot}
    (inside : s.tmp t = some saved) (path : ReflTransGen (Link s) a b) :
    ReflTransGen (Link (s.sleepOnLeave t saved)) a b ∨
      ∃ m, saved = some m ∧ ReflTransGen (Link (s.sleepOnLeave t saved)) m b := by
  induction path using ReflTransGen.head_induction_on with
  | refl => exact Or.inl .refl
  | @head x y link _ ih =>
    rcases ih with survives | below
    · by_cases same : x = t
      · subst same
        have saved_eq : saved = some y := by simpa [Link, inside] using link
        exact Or.inr ⟨y, saved_eq, survives⟩
      · refine Or.inl (.head ?_ survives)
        simpa [Link, sleepOnLeave, Function.update_of_ne same] using link
    · exact Or.inr below

/-- Leaving only removes links. -/
theorem path_before_leave {s : WaitQueue} {t a b : Slot} {saved : Option Slot}
    (path : ReflTransGen (Link (s.sleepOnLeave t saved)) a b) : ReflTransGen (Link s) a b := by
  refine ReflTransGen.mono (fun x y link => ?_) _ _ path
  by_cases same : x = t
  · subst same
    simp [Link, sleepOnLeave] at link
  · simpa [Link, sleepOnLeave, Function.update_of_ne same] using link

/-- A sleeper after the second half of `t` slept before it, is not `t` and was not saved by it. -/
theorem asleep_leave_iff {s : WaitQueue} {t u : Slot} {saved : Option Slot} :
    Asleep (s.sleepOnLeave t saved) u ↔ Asleep s u ∧ u ≠ t ∧ saved ≠ some u := by
  by_cases same : u = t
  · simp [Asleep, sleepOnLeave, same]
  · cases saved with
    | none => simp [Asleep, sleepOnLeave, same]
    | some w =>
      by_cases woken : w = u
      · subst woken
        simp [Asleep, sleepOnLeave, taskRunning, taskUninterruptible]
      · have different : u ≠ w := fun equal => woken equal.symm
        simp [Asleep, sleepOnLeave, same, different, woken]

/-- A task woken before the second half of `t`, other than `t`, is still woken after it. -/
theorem woken_leave {s : WaitQueue} {t r : Slot} {saved : Option Slot} (woken : Woken s r)
    (different : r ≠ t) : Woken (s.sleepOnLeave t saved) r := by
  refine ⟨by simpa [sleepOnLeave, different] using woken.1, ?_⟩
  cases saved with
  | none => exact woken.2
  | some w =>
    by_cases same : r = w
    · simp [sleepOnLeave, same]
    · simpa [sleepOnLeave, same] using woken.2

theorem noSleeperLost_enter {s : WaitQueue} {t : Slot} (outside : s.tmp t = none)
    (kept : NoSleeperLost s) : NoSleeperLost (s.sleepOnEnter t) := by
  intro u asleep
  by_cases same : u = t
  · exact ⟨t, Or.inl rfl, same ▸ .refl⟩
  · have before : Asleep s u := by simpa [Asleep, sleepOnEnter, same] using asleep
    obtain ⟨r, root, path⟩ := kept u before
    rcases root with atHead | woken
    · -- the old head now hangs below the new one
      refine ⟨t, Or.inl rfl, .head ?_ (path_enter outside path)⟩
      simp [Link, sleepOnEnter, atHead]
    · have different : r ≠ t := by
        rintro rfl
        exact woken.1 outside
      refine ⟨r, Or.inr ?_, path_enter outside path⟩
      simpa [Woken, sleepOnEnter, different] using woken

theorem noSleeperLost_wakeUp {s : WaitQueue} (kept : NoSleeperLost s) :
    NoSleeperLost s.wakeUp := by
  cases headed : s.head with
  | none => simpa [wakeUp, headed] using kept
  | some h =>
    intro u asleep
    have same_links : Link s.wakeUp = Link s := by
      funext a b
      simp [Link, wakeUp, headed]
    have different : u ≠ h := by
      rintro rfl
      exact asleep.not_running (by simp [wakeUp, headed])
    have before : Asleep s u := by simpa [Asleep, wakeUp, headed, different] using asleep
    obtain ⟨r, root, path⟩ := kept u before
    rw [same_links]
    rcases root with atHead | woken
    · obtain rfl : h = r := by simpa [headed] using atHead
      -- the old head reaches another task, so it is inside `sleepOn`, and it runs now
      have inside : s.tmp h ≠ none := fun outside => different (path_of_outside outside path).symm
      exact ⟨h, Or.inr ⟨by simpa [wakeUp, headed] using inside, by simp [wakeUp, headed]⟩, path⟩
    · refine ⟨r, Or.inr ?_, path⟩
      by_cases same : r = h
      · exact ⟨by simpa [wakeUp, headed] using woken.1, by simp [wakeUp, headed, same]⟩
      · simpa [Woken, wakeUp, headed, same] using woken

/-- The second half of `sleepOn` loses nobody when the head is covered. -/
theorem noSleeperLost_leave {s : WaitQueue} {t : Slot} {saved : Option Slot}
    (inside : s.tmp t = some saved) (formed : WellFormed s) (kept : NoSleeperLost s)
    (covered : HeadCovered s) : NoSleeperLost (s.sleepOnLeave t saved) := by
  -- whoever hung below a woken task still hangs below one, or below the saved task
  have below_woken : ∀ r u, Woken s r → ReflTransGen (Link s) r u → u ≠ t →
      ∃ r', ((s.sleepOnLeave t saved).head = some r' ∨ Woken (s.sleepOnLeave t saved) r') ∧
        ReflTransGen (Link (s.sleepOnLeave t saved)) r' u := by
    intro r u woken path different
    rcases path_leave inside path with survives | ⟨m, saved_eq, rest⟩
    · by_cases same : r = t
      · subst same
        have outside : (s.sleepOnLeave r saved).tmp r = none := by simp [sleepOnLeave]
        exact absurd (path_of_outside outside survives).symm different
      · exact ⟨r, Or.inr (woken_leave woken same), survives⟩
    · exact ⟨m, Or.inl saved_eq, rest⟩
  intro u asleep
  obtain ⟨before, different, _⟩ := asleep_leave_iff.mp asleep
  obtain ⟨r, root, path⟩ := kept u before
  rcases root with atHead | woken
  · by_cases outside : s.tmp r = none
    · obtain rfl := path_of_outside outside path
      exact absurd outside before.1
    · rcases formed r outside with running | sleeping
      · exact below_woken r u ⟨outside, running⟩ path different
      · obtain ⟨r', woken, prefix_path⟩ := covered r atHead ⟨outside, sleeping⟩
        exact below_woken r' u woken (prefix_path.trans path) different
  · exact below_woken r u woken path different

/-- When the head is not covered, the second half of `sleepOn` loses it. -/
theorem head_lost_leave {s : WaitQueue} {t : Slot} {saved : Option Slot}
    (inside : s.tmp t = some saved) (running : s.state t = taskRunning)
    (uncovered : ¬ HeadCovered s) : ¬ NoSleeperLost (s.sleepOnLeave t saved) := by
  simp only [HeadCovered, not_forall] at uncovered
  obtain ⟨h, _, asleep, alone⟩ := uncovered
  have woken : Woken s t := ⟨by simp [inside], running⟩
  have below_saved : ∀ m, saved = some m → ¬ ReflTransGen (Link s) m h := fun m saved_eq path =>
    alone ⟨t, woken, .head (by simp [Link, inside, saved_eq]) path⟩
  have still : Asleep (s.sleepOnLeave t saved) h := by
    refine asleep_leave_iff.mpr ⟨asleep, ?_, fun saved_eq => below_saved h saved_eq .refl⟩
    rintro rfl
    exact asleep.not_running running
  intro kept
  obtain ⟨r, root, path⟩ := kept h still
  have path := path_before_leave path
  rcases root with atHead | awake
  · exact below_saved r atHead path
  · have tmp_old : s.tmp r ≠ none := by
      intro outside
      by_cases same : r = t <;> simp [Woken, sleepOnLeave, same, outside] at awake
    -- `r` was woken before the step, or the step has just woken it as the saved task
    by_cases saved_eq : saved = some r
    · exact below_saved r saved_eq path
    · have old_state : s.state r = taskRunning := by
        have := awake.2
        cases saved with
        | none => exact this
        | some w =>
          have different : r ≠ w := fun equal => saved_eq (by rw [equal])
          simpa [sleepOnLeave, different] using this
      exact alone ⟨r, ⟨tmp_old, old_state⟩, path⟩

theorem wellFormed_step {s s' : WaitQueue} {a : Action} (formed : WellFormed s)
    (taken : Step s a s') : WellFormed s' := by
  intro u inside'
  cases taken with
  | @enter t user outside running =>
    by_cases same : u = t
    · simp [sleepOnEnter, same]
    · simpa [sleepOnEnter, same] using formed u (by simpa [sleepOnEnter, same] using inside')
  | @leave t saved inside running =>
    have before : s.tmp u ≠ none := by
      intro outside
      by_cases same : u = t <;> simp [sleepOnLeave, same, outside] at inside'
    cases saved with
    | none => exact formed u before
    | some w =>
      by_cases same : u = w
      · simp [sleepOnLeave, same]
      · simpa [sleepOnLeave, same] using formed u before
  | wakeUp =>
    cases headed : s.head with
    | none => simpa [wakeUp, headed] using formed u (by simpa [wakeUp, headed] using inside')
    | some h =>
      by_cases same : u = h
      · simp [wakeUp, headed, same]
      · simpa [wakeUp, headed, same] using formed u (by simpa [wakeUp, headed] using inside')

/-! ### Whole runs -/

/-- No sleeper is ever lost on a run exactly when every resumed sleeper finds
the head of the queue empty, awake, or hanging below a woken task as well. -/
theorem noSleeperLost_iff {hist : List (WaitQueue × Action)} {s : WaitQueue}
    (run : Transition.Run system hist s) :
    ((∀ x ∈ hist, NoSleeperLost x.1) ∧ NoSleeperLost s) ↔ ∀ x ∈ hist, LeaveCovered x.1 x.2 := by
  refine run.guard_iff (I := fun s => NoSleeperLost s ∧ WellFormed s) ?_ ?_ ?_ ?_
  · rintro s ⟨_, nobody⟩
    exact ⟨fun t asleep => absurd (nobody t) asleep.1, fun t inside => absurd (nobody t) inside⟩
  · rintro s a s' ⟨kept, formed⟩ taken guarded
    refine ⟨?_, wellFormed_step formed taken⟩
    cases taken with
    | enter user outside running => exact noSleeperLost_enter outside kept
    | leave inside running => exact noSleeperLost_leave inside formed kept guarded
    | wakeUp => exact noSleeperLost_wakeUp kept
  · rintro s ⟨kept, _⟩
    exact kept
  · rintro s a s' _ taken missed
    cases taken with
    | enter => exact absurd trivial missed
    | leave inside running => exact head_lost_leave inside running missed
    | wakeUp => exact absurd trivial missed

/-! ### A run that loses a sleeper -/

/-- Nobody sleeps yet. -/
def quiet : WaitQueue := ⟨none, fun _ => taskRunning, fun _ => none⟩

/-- Task 1 has slept and been woken, and task 2 has gone to sleep before task 1 resumes. -/
def overtaken : WaitQueue := (quiet.sleepOnEnter 1).wakeUp.sleepOnEnter 2

/-- Task 1 resumes over task 2. -/
theorem overtaken_run : Transition.Run system
    [(overtaken, .leave 1), ((quiet.sleepOnEnter 1).wakeUp, .enter 2),
      (quiet.sleepOnEnter 1, .wakeUp), (quiet, .enter 1)] (overtaken.sleepOnLeave 1 none) := by
  have slept₁ : Step quiet (.enter 1) (quiet.sleepOnEnter 1) := .enter (by decide) rfl rfl
  have slept₂ : Step (quiet.sleepOnEnter 1).wakeUp (.enter 2) overtaken := .enter (by decide) rfl rfl
  have resumed : Step overtaken (.leave 1) (overtaken.sleepOnLeave 1 none) := .leave rfl rfl
  exact .step (.step (.step (.step (.init ⟨rfl, fun _ => rfl⟩) slept₁) .wakeUp) slept₂) resumed

theorem noSleeperLost_iff_overtaken :
    ((∀ x ∈ [(overtaken, Action.leave 1), ((quiet.sleepOnEnter 1).wakeUp, .enter 2),
      (quiet.sleepOnEnter 1, .wakeUp), (quiet, .enter 1)], NoSleeperLost x.1) ∧
      NoSleeperLost (overtaken.sleepOnLeave 1 none)) ↔
    ∀ x ∈ [(overtaken, Action.leave 1), ((quiet.sleepOnEnter 1).wakeUp, .enter 2),
      (quiet.sleepOnEnter 1, .wakeUp), (quiet, .enter 1)], LeaveCovered x.1 x.2 :=
  noSleeperLost_iff overtaken_run

/-- Task 1 stores its empty `tmp` over task 2, which stays asleep with no link to it. -/
theorem sleeper_lost : ¬ ∀ hist s, Transition.Run system hist s → NoSleeperLost s := by
  intro claimed
  obtain ⟨r, root, _⟩ := claimed _ _ overtaken_run 2 ⟨by decide, rfl⟩
  rcases root with atHead | awake
  · exact nomatch show (none : Option Slot) = some r from atHead
  · have others : ∀ r : Slot, r = 2 ∨ (overtaken.sleepOnLeave 1 none).tmp r = none := by decide
    rcases others r with rfl | outside
    · exact absurd awake.2 (by decide)
    · exact awake.1 outside

end WaitQueue

end OperatorSystem.Kernel
