import OperatorSystem.Kernel.Selection

/-!
# Sleeping: `sleepOn`, `wakeUp` and `schedule` together

`WaitQueue` models one queue and leaves the scheduler out. Here every statement
of `sleepOn` is a step of its own, on any number of queues, for the tasks of all
slots, and the task that runs next is the one `schedule` selects. The fallback of
`schedule` to slot 0 ignores the state word, so a sleeping task 0 is resumed by
nobody's wake-up. The guard against it compares `CURRENT` with the address of
`TASKS[0]` instead of its contents and is never true.

The main result `returns_woken` says that `sleepOn` returns only after a
wake-up in every run in which task 0 does not call it and no resumed sleeper
wakes a task that has gone to sleep on another queue meanwhile.
-/

namespace OperatorSystem.Kernel

/-- The addresses the guard of `sleepOn` compares. A `PROCESS` is never where
the table `TASKS` is. -/
structure Layout where
  /-- `&TASKS[0]` -/
  tasks : BitVec 32
  process : Slot → BitVec 32
  apart : ∀ i, process i ≠ tasks

/-- The statement of `sleepOn` that a task has executed last. -/
inductive Stage
  /-- `tmp = *p` -/
  | loaded
  /-- `*p = CURRENT` -/
  | enqueued
  /-- `CURRENT->state = TASK_UNINTERRUPTIBLE` -/
  | asleep
  /-- `schedule()`, called -/
  | called
  /-- `*p = tmp` -/
  | restored
  deriving DecidableEq

/-- Where a task is: outside `sleepOn`, in the `while (1)` of its guard, or in
`sleepOn(p)` with its local `tmp`. -/
inductive Place (Q : Type)
  | outside
  | stopped
  | inside (stage : Stage) (p : Q) (tmp : Option Slot)
  deriving DecidableEq

/-- The scheduler, the queue heads `*p` and the places of the tasks. -/
structure Sleep (Q : Type) where
  sched : Sched
  head : Q → Option Slot
  place : Slot → Place Q

namespace Sleep

variable {Q : Type}

def state (s : Sleep Q) (i : Slot) : Option Int := Sched.stateOf s.sched.tasks i

def current (s : Sleep Q) : Slot := s.sched.current

def setState (s : Sleep Q) (nr : Slot) (state : Int) : Sleep Q :=
  { s with
    sched := { s.sched with
      tasks := Function.update s.sched.tasks nr
        ((s.sched.tasks nr).map fun p => { p with state }) } }

/-- The current task is at another statement. -/
def move (s : Sleep Q) (place : Place Q) : Sleep Q :=
  { s with place := Function.update s.place s.current place }

/-! ### The fields after each change -/

@[simp] theorem setState_head (s : Sleep Q) (nr : Slot) (state : Int) :
    (s.setState nr state).head = s.head := rfl

@[simp] theorem setState_place (s : Sleep Q) (nr : Slot) (state : Int) :
    (s.setState nr state).place = s.place := rfl

@[simp] theorem setState_current (s : Sleep Q) (nr : Slot) (state : Int) :
    (s.setState nr state).current = s.current := rfl

@[simp] theorem move_head (s : Sleep Q) (place : Place Q) : (s.move place).head = s.head := rfl

@[simp] theorem move_current (s : Sleep Q) (place : Place Q) :
    (s.move place).current = s.current := rfl

@[simp] theorem move_state (s : Sleep Q) (place : Place Q) : (s.move place).state = s.state := rfl

@[simp] theorem move_place_self (s : Sleep Q) (place : Place Q) :
    (s.move place).place s.current = place := Function.update_self ..

theorem move_place_of_ne (s : Sleep Q) (place : Place Q) {t : Slot} (other : t ≠ s.current) :
    (s.move place).place t = s.place t := Function.update_of_ne other ..

theorem setState_state_of_ne (s : Sleep Q) {nr t : Slot} (other : t ≠ nr) (state : Int) :
    (s.setState nr state).state t = s.state t := by
  simp [Sleep.state, Sched.stateOf, setState, Function.update_of_ne other]

theorem setState_state_self (s : Sleep Q) (nr : Slot) (state : Int) :
    (s.setState nr state).state nr = (s.state nr).map fun _ => state := by
  simp [Sleep.state, Sched.stateOf, setState, Function.comp_def]

theorem tick_state (s : Sleep Q) {cur : Process} (self : s.sched.tasks s.current = some cur)
    (t : Slot) : Sched.stateOf (s.sched.tick cur).tasks t = s.state t := by
  rw [Sleep.state, Sched.stateOf, Sched.stateOf, Sched.tick_tasks]
  by_cases same : t = s.sched.current
  · rw [same, Function.update_self]
    change _ = (s.sched.tasks s.current).map Process.state
    rw [self]
    rfl
  · rw [Function.update_of_ne same]

theorem tick_current (s : Sched) (cur : Process) : (s.tick cur).current = s.current := by
  simp only [Sched.tick]
  split <;> rfl

/-! ### The functions -/

section Functions

variable [DecidableEq Q]

def setHead (s : Sleep Q) (p : Q) (head : Option Slot) : Sleep Q :=
  { s with head := Function.update s.head p head }

@[simp] theorem setHead_place (s : Sleep Q) (p : Q) (head : Option Slot) :
    (s.setHead p head).place = s.place := rfl

@[simp] theorem setHead_current (s : Sleep Q) (p : Q) (head : Option Slot) :
    (s.setHead p head).current = s.current := rfl

@[simp] theorem setHead_state (s : Sleep Q) (p : Q) (head : Option Slot) :
    (s.setHead p head).state = s.state := rfl

/-- The call of `sleepOn` up to `tmp = *p`. -/
def sleepOn (layout : Layout) (s : Sleep Q) : Option Q → Sleep Q
  | none => s
  | some p =>
    if layout.process s.current = layout.tasks then s.move .stopped
    else s.move (.inside .loaded p (s.head p))

def wakeUp (s : Sleep Q) : Option Q → Sleep Q
  | none => s
  | some p =>
    match s.head p with
    | none => s
    | some h => (s.setState h taskRunning).setHead p none

/-- `if (tmp) tmp->state = TASK_RUNNING` -/
def wakeNext (s : Sleep Q) : Option Slot → Sleep Q
  | none => s
  | some w => s.setState w taskRunning

inductive Action (Q : Type)
  | sleepOn (p : Option Q)
  | statement
  | schedule
  | wakeUp (p : Option Q)
  | tick

/-- The current task calls `sleepOn` or executes its next statement in it. Any
moment can bring a `wakeUp`, a tick or a call of `schedule`, by the current task
or an interrupt. -/
inductive Step (layout : Layout) : Sleep Q → Action Q → Sleep Q → Prop
  | sleepOn {s : Sleep Q} {p : Option Q} (here : s.place s.current = .outside) :
      Step layout s (.sleepOn p) (s.sleepOn layout p)
  | enqueue {s : Sleep Q} {p : Q} {tmp : Option Slot}
      (here : s.place s.current = .inside .loaded p tmp) :
      Step layout s .statement ((s.setHead p (some s.current)).move (.inside .enqueued p tmp))
  | sleep {s : Sleep Q} {p : Q} {tmp : Option Slot}
      (here : s.place s.current = .inside .enqueued p tmp) :
      Step layout s .statement
        ((s.setState s.current taskUninterruptible).move (.inside .asleep p tmp))
  | call {s : Sleep Q} {p : Q} {tmp : Option Slot} {next : Slot} {sched : Sched}
      (here : s.place s.current = .inside .asleep p tmp) (chosen : Schedules s.sched next sched) :
      Step layout s .statement { s.move (.inside .called p tmp) with sched }
  | restore {s : Sleep Q} {p : Q} {tmp : Option Slot}
      (here : s.place s.current = .inside .called p tmp) :
      Step layout s .statement ((s.setHead p tmp).move (.inside .restored p tmp))
  | finish {s : Sleep Q} {p : Q} {tmp : Option Slot}
      (here : s.place s.current = .inside .restored p tmp) :
      Step layout s .statement ((s.wakeNext tmp).move .outside)
  | schedule {s : Sleep Q} {next : Slot} {sched : Sched} (chosen : Schedules s.sched next sched) :
      Step layout s .schedule { s with sched }
  | wakeUp {s : Sleep Q} {p : Option Q} : Step layout s (.wakeUp p) (s.wakeUp p)
  | tick {s : Sleep Q} {cur : Process} (self : s.sched.tasks s.current = some cur) :
      Step layout s .tick { s with sched := s.sched.tick cur }

/-- Any tasks, all of them outside `sleepOn`, and empty queues. -/
def system (layout : Layout) : Transition.System (Sleep Q) (Action Q) where
  init s := (∀ p, s.head p = none) ∧ ∀ t, s.place t = .outside
  step := Step layout

end Functions

/-! ### What a run has done -/

/-- The step executes `*p = CURRENT` for the task. -/
def Enqueues (x : Sleep Q × Action Q) (t : Slot) : Prop :=
  x.2 = .statement ∧ x.1.current = t ∧ ∃ p tmp, x.1.place t = .inside .loaded p tmp

/-- The step makes the task runnable: a `wakeUp`, or a resumed sleeper of queue `p`. -/
def Wakes (x : Sleep Q × Action Q) (t : Slot) (p : Q) : Prop :=
  (∃ q, x.2 = .wakeUp (some q) ∧ x.1.head q = some t) ∨
    x.2 = .statement ∧ x.1.place x.1.current = .inside .restored p (some t)

/-- The task has been woken after it enqueued itself; `hist` has the last step first. -/
def WokenSince (t : Slot) (p : Q) : List (Sleep Q × Action Q) → Prop
  | [] => False
  | x :: hist => Wakes x t p ∨ (¬ Enqueues x t ∧ WokenSince t p hist)

/-- Every task that is about to return from `sleepOn` has been woken. -/
def ReturnsWoken (hist : List (Sleep Q × Action Q)) (s : Sleep Q) : Prop :=
  ∀ t p tmp, s.place t = .inside .restored p tmp → WokenSince t p hist

/-- Task 0 is on no queue, and in no call of `sleepOn` that passed the guard. -/
def NeverQueued (s : Sleep Q) : Prop :=
  (∀ p, s.head p ≠ some 0) ∧ ∀ stage p tmp, s.place 0 ≠ .inside stage p tmp

def Lawful (hist : List (Sleep Q × Action Q)) (s : Sleep Q) : Prop :=
  ReturnsWoken hist s ∧ NeverQueued s

/-- The task sleeps in `sleepOn(p)`. -/
def SleepsOn (s : Sleep Q) (t : Slot) (p : Q) : Prop :=
  s.state t ≠ some taskRunning ∧
    ∃ stage tmp, s.place t = .inside stage p tmp ∧ (stage = .asleep ∨ stage = .called)

/-- Task 0 does not call `sleepOn`, and a resumed sleeper of `p` does not wake a
task that sleeps on another queue by now. -/
def Covered (x : Sleep Q × Action Q) : Prop :=
  (∀ p, x.2 = .sleepOn (some p) → x.1.current ≠ 0) ∧
    ∀ p w q, x.2 = .statement → x.1.place x.1.current = .inside .restored p (some w) →
      SleepsOn x.1 w q → q = p

/-! ### What holds along a covered run -/

structure Held (hist : List (Sleep Q × Action Q)) (s : Sleep Q) : Prop where
  /-- A sleeper that is runnable again has been woken. -/
  woken : ∀ t stage p tmp, s.place t = .inside stage p tmp → (stage = .asleep ∨ stage = .called) →
    s.state t = some taskRunning → WokenSince t p hist
  /-- A task that is back from its call of `schedule` is runnable. -/
  resumed : ∀ p tmp, s.place s.current = .inside .called p tmp → s.state s.current = some taskRunning
  returning : ReturnsWoken hist s
  neverQueued : NeverQueued s
  saved : ∀ t stage p tmp, s.place t = .inside stage p tmp → tmp ≠ some 0

/-- A wake-up stays on record until the task enqueues itself again. -/
theorem WokenSince.cons {hist : List (Sleep Q × Action Q)} {s : Sleep Q} {t : Slot} {p q : Q}
    {stage : Stage} {tmp : Option Slot} (woken : WokenSince t p hist)
    (here : s.place t = .inside stage q tmp) (past : stage ≠ .loaded) (a : Action Q) :
    WokenSince t p ((s, a) :: hist) := by
  refine Or.inr ⟨?_, woken⟩
  rintro ⟨_, _, p', tmp', there⟩
  rw [here] at there
  cases there
  exact past rfl

/-- What a step may do: it moves the current task only, makes runnable only what
it wakes, puts task 0 on no queue, and leaves a runnable task current or task 0. -/
theorem Held.step_of {hist : List (Sleep Q × Action Q)} {s s' : Sleep Q} {a : Action Q}
    (held : Held hist s) (others : ∀ t, t ≠ s.current → s'.place t = s.place t)
    (mine : s'.place s.current = s.place s.current ∨
      ∀ stage p tmp, s'.place s.current = .inside stage p tmp → s.current ≠ 0 ∧ tmp ≠ some 0 ∧
        ((stage = .asleep ∨ stage = .called) → s'.state s.current = some taskRunning →
          WokenSince s.current p ((s, a) :: hist)) ∧
        (stage = .restored → WokenSince s.current p ((s, a) :: hist)))
    (states : ∀ t stage p tmp, s.place t = .inside stage p tmp → (stage = .asleep ∨ stage = .called) →
      s'.place t = s.place t → s'.state t = some taskRunning →
        s.state t = some taskRunning ∨ Wakes (s, a) t p)
    (heads : ∀ p, s'.head p ≠ some 0)
    (next : ∀ p tmp, s'.place s'.current = .inside .called p tmp →
      s'.state s'.current = some taskRunning) : Held ((s, a) :: hist) s' := by
  -- a task either stands where it stood, or is the current one at its next statement
  have either : ∀ t, s'.place t = s.place t ∨ t = s.current ∧
      ∀ stage p tmp, s'.place s.current = .inside stage p tmp → s.current ≠ 0 ∧ tmp ≠ some 0 ∧
        ((stage = .asleep ∨ stage = .called) → s'.state s.current = some taskRunning →
          WokenSince s.current p ((s, a) :: hist)) ∧
        (stage = .restored → WokenSince s.current p ((s, a) :: hist)) := by
    intro t
    by_cases same : t = s.current
    · rcases mine with stays | moves
      · exact Or.inl (by rw [same, stays])
      · exact Or.inr ⟨same, moves⟩
    · exact Or.inl (others t same)
  constructor
  · intro t stage p tmp here sleeping running
    rcases either t with stays | ⟨rfl, moves⟩
    · rw [stays] at here
      have past : stage ≠ .loaded := by
        rintro rfl
        rcases sleeping with wrong | wrong <;> cases wrong
      rcases states t stage p tmp here sleeping stays running with before | wakes
      · exact (held.woken t stage p tmp here sleeping before).cons here past a
      · exact Or.inl wakes
    · exact (moves stage p tmp here).2.2.1 sleeping running
  · exact next
  · intro t p tmp here
    rcases either t with stays | ⟨rfl, moves⟩
    · rw [stays] at here
      exact (held.returning t p tmp here).cons here (by simp) a
    · exact (moves _ p tmp here).2.2.2 rfl
  · refine ⟨heads, fun stage p tmp here => ?_⟩
    rcases either 0 with stays | ⟨zero, moves⟩
    · rw [stays] at here
      exact held.neverQueued.2 stage p tmp here
    · rw [zero] at here
      exact (moves stage p tmp here).1 zero.symm
  · intro t stage p tmp here
    rcases either t with stays | ⟨rfl, moves⟩
    · rw [stays] at here
      exact held.saved t stage p tmp here
    · exact (moves stage p tmp here).2.1

/-- The current task inside `sleepOn` is not task 0. -/
theorem Held.user {hist : List (Sleep Q × Action Q)} {s : Sleep Q} (held : Held hist s)
    {stage : Stage} {p : Q} {tmp : Option Slot} (here : s.place s.current = .inside stage p tmp) :
    s.current ≠ 0 := by
  intro zero
  rw [zero] at here
  exact held.neverQueued.2 stage p tmp here

theorem Held.sleepOn {layout : Layout} {hist : List (Sleep Q × Action Q)} {s : Sleep Q}
    (held : Held hist s) {p : Option Q}
    (user : ∀ q, p = some q → s.current ≠ 0) :
    Held ((s, .sleepOn p) :: hist) (s.sleepOn layout p) := by
  cases p with
  | none =>
    refine held.step_of (fun _ _ => rfl) (Or.inl rfl) ?_ held.neverQueued.1 held.resumed
    exact fun _ _ _ _ _ _ _ running => Or.inl running
  | some p =>
    simp only [Sleep.sleepOn]
    split
    · refine held.step_of (fun t other => s.move_place_of_ne _ other) (Or.inr ?_) ?_
        held.neverQueued.1 ?_
      · intro stage q tmp stopped
        rw [move_place_self] at stopped
        cases stopped
      · exact fun _ _ _ _ _ _ _ running => Or.inl running
      · intro q tmp stopped
        rw [move_current, move_place_self] at stopped
        cases stopped
    · refine held.step_of (fun t other => s.move_place_of_ne _ other) (Or.inr ?_) ?_
        held.neverQueued.1 ?_
      · intro stage q tmp moved
        rw [move_place_self] at moved
        cases moved
        exact ⟨user p rfl, held.neverQueued.1 p, by simp, by simp⟩
      · exact fun _ _ _ _ _ _ _ running => Or.inl running
      · intro q tmp moved
        rw [move_current, move_place_self] at moved
        cases moved

theorem Held.sleep {hist : List (Sleep Q × Action Q)} {s : Sleep Q} (held : Held hist s) {p : Q}
    {tmp : Option Slot} (here : s.place s.current = .inside .enqueued p tmp) :
    Held ((s, .statement) :: hist)
      ((s.setState s.current taskUninterruptible).move (.inside .asleep p tmp)) := by
  -- its state word is not `TASK_RUNNING` from now on
  have stopped : (s.setState s.current taskUninterruptible).state s.current ≠ some taskRunning := by
    rw [setState_state_self]
    cases s.state s.current <;> simp [taskUninterruptible, taskRunning]
  refine held.step_of (fun t other => (s.setState _ _).move_place_of_ne _ other) (Or.inr ?_) ?_
    held.neverQueued.1 ?_
  · intro stage q tmp' moved
    cases ((s.setState s.current _).move_place_self _).symm.trans moved
    exact ⟨held.user here, held.saved _ _ _ _ here, fun _ running => absurd running stopped, by simp⟩
  · intro t stage q tmp' place _ _ running
    by_cases same : t = s.current
    · rw [same] at running
      exact absurd running stopped
    · rw [move_state, setState_state_of_ne s same] at running
      exact Or.inl running
  · intro q tmp' moved
    rw [move_current, move_place_self] at moved
    cases moved

/-- A call of `schedule` with the tasks at `place`: it resumes a runnable task or task 0. -/
theorem Held.schedules {hist : List (Sleep Q × Action Q)} {s s' : Sleep Q} {a : Action Q}
    (held : Held hist s) {next : Slot} (chosen : Schedules s.sched next s'.sched)
    (head : s'.head = s.head) (others : ∀ t, t ≠ s.current → s'.place t = s.place t)
    (mine : s'.place s.current = s.place s.current ∨ ∃ p tmp,
      s.place s.current = .inside .asleep p tmp ∧ s'.place s.current = .inside .called p tmp) :
    Held ((s, a) :: hist) s' := by
  obtain ⟨current, states, picked⟩ := Sched.schedules_states chosen
  have same : s'.state = s.state := states
  -- task 0 never sleeps, so it is in no wait
  have zero : ∀ p tmp, s'.place 0 ≠ .inside .called p tmp := by
    intro p tmp here
    by_cases idle : s.current = 0
    · rcases mine with stays | ⟨q, tmp', asleep, _⟩
      · rw [← idle, stays] at here
        exact held.user here idle
      · exact held.user asleep idle
    · rw [others 0 (Ne.symm idle)] at here
      exact held.neverQueued.2 _ _ _ here
  refine held.step_of others ?_ ?_ ?_ ?_
  · refine mine.imp_right ?_
    rintro ⟨p, tmp, asleep, called⟩ stage q tmp' here
    rw [called] at here
    cases here
    refine ⟨held.user asleep, held.saved _ _ _ _ asleep, fun _ running => ?_, by simp⟩
    rw [same] at running
    exact (held.woken _ _ _ _ asleep (Or.inl rfl) running).cons asleep (by simp) a
  · intro t stage p tmp _ _ _ running
    rw [same] at running
    exact Or.inl running
  · rw [head]
    exact held.neverQueued.1
  · intro p tmp here
    change s'.place s'.sched.current = _ at here
    change s'.state s'.sched.current = _
    rw [current] at here ⊢
    rw [same]
    rcases picked with rfl | running
    · exact absurd here (zero p tmp)
    · exact running

theorem Held.call {hist : List (Sleep Q × Action Q)} {s : Sleep Q} (held : Held hist s) {p : Q}
    {tmp : Option Slot} {next : Slot} {sched : Sched}
    (here : s.place s.current = .inside .asleep p tmp) (chosen : Schedules s.sched next sched) :
    Held ((s, .statement) :: hist) { s.move (.inside .called p tmp) with sched } :=
  held.schedules chosen rfl (fun _ other => s.move_place_of_ne _ other)
    (Or.inr ⟨p, tmp, here, s.move_place_self _⟩)

theorem Held.finish {hist : List (Sleep Q × Action Q)} {s : Sleep Q} (held : Held hist s) {p : Q}
    {tmp : Option Slot} (here : s.place s.current = .inside .restored p tmp)
    (covered : Covered (s, .statement)) :
    Held ((s, .statement) :: hist) ((s.wakeNext tmp).move .outside) := by
  -- waking the next sleeper changes neither places nor heads
  have current : (s.wakeNext tmp).current = s.current := by cases tmp <;> rfl
  have place : (s.wakeNext tmp).place = s.place := by cases tmp <;> rfl
  have head : (s.wakeNext tmp).head = s.head := by cases tmp <;> rfl
  refine held.step_of (fun t other => ?_) (Or.inr ?_) ?_ ?_ ?_
  · rw [move_place_of_ne _ _ (by rw [current]; exact other), place]
  · intro stage q tmp' moved
    rw [← current, move_place_self] at moved
    cases moved
  · intro t stage q tmp' inside sleeping _ running
    rw [move_state] at running
    cases tmp with
    | none => exact Or.inl running
    | some w =>
      by_cases same : t = w
      · -- the task it wakes sleeps on the same queue, or was runnable already
        by_cases before : s.state t = some taskRunning
        · exact Or.inl before
        · subst same
          obtain rfl := covered.2 p t q rfl here ⟨before, stage, tmp', inside, sleeping⟩
          exact Or.inr (Or.inr ⟨rfl, here⟩)
      · exact Or.inl ((s.setState_state_of_ne same taskRunning).symm.trans running)
  · rw [move_head, head]
    exact held.neverQueued.1
  · intro q tmp' moved
    rw [move_current, move_place_self] at moved
    cases moved

theorem Held.tick {hist : List (Sleep Q × Action Q)} {s : Sleep Q} (held : Held hist s)
    {cur : Process} (self : s.sched.tasks s.current = some cur) :
    Held ((s, .tick) :: hist) { s with sched := s.sched.tick cur } := by
  refine held.step_of (fun _ _ => rfl) (Or.inl rfl) ?_ held.neverQueued.1 ?_
  · intro t stage p tmp _ _ _ running
    exact Or.inl ((s.tick_state self t).symm.trans running)
  · intro p tmp here
    have same : (s.sched.tick cur).current = s.current := tick_current s.sched cur
    change s.place (s.sched.tick cur).current = _ at here
    change Sched.stateOf (s.sched.tick cur).tasks (s.sched.tick cur).current = _
    rw [same] at here ⊢
    rw [tick_state s self]
    exact held.resumed p tmp here

variable [DecidableEq Q]

theorem Held.enqueue {hist : List (Sleep Q × Action Q)} {s : Sleep Q} (held : Held hist s) {p : Q}
    {tmp : Option Slot} (here : s.place s.current = .inside .loaded p tmp) :
    Held ((s, .statement) :: hist)
      ((s.setHead p (some s.current)).move (.inside .enqueued p tmp)) := by
  have user := held.user here
  refine held.step_of (fun t other => (s.setHead p _).move_place_of_ne _ other) (Or.inr ?_) ?_ ?_ ?_
  · intro stage q tmp' moved
    cases ((s.setHead p _).move_place_self _).symm.trans moved
    exact ⟨user, held.saved _ _ _ _ here, by simp, by simp⟩
  · exact fun _ _ _ _ _ _ _ running => Or.inl running
  · intro q
    rw [move_head, setHead]
    by_cases same : q = p
    · simpa [same] using user
    · simpa [same] using held.neverQueued.1 q
  · intro q tmp' moved
    rw [move_current, move_place_self] at moved
    cases moved

theorem Held.restore {hist : List (Sleep Q × Action Q)} {s : Sleep Q} (held : Held hist s) {p : Q}
    {tmp : Option Slot} (here : s.place s.current = .inside .called p tmp) :
    Held ((s, .statement) :: hist) ((s.setHead p tmp).move (.inside .restored p tmp)) := by
  have woken := held.woken _ _ _ _ here (Or.inr rfl) (held.resumed p tmp here)
  refine held.step_of (fun t other => (s.setHead p _).move_place_of_ne _ other) (Or.inr ?_) ?_ ?_ ?_
  · intro stage q tmp' moved
    cases ((s.setHead p _).move_place_self _).symm.trans moved
    exact ⟨held.user here, held.saved _ _ _ _ here, by simp, fun _ => woken.cons here (by simp) _⟩
  · exact fun _ _ _ _ _ _ _ running => Or.inl running
  · intro q
    rw [move_head, setHead]
    by_cases same : q = p
    · simpa [same] using held.saved _ _ _ _ here
    · simpa [same] using held.neverQueued.1 q
  · intro q tmp' moved
    rw [move_current, move_place_self] at moved
    cases moved

theorem Held.wakeUp {hist : List (Sleep Q × Action Q)} {s : Sleep Q} (held : Held hist s)
    (p : Option Q) : Held ((s, .wakeUp p) :: hist) (s.wakeUp p) := by
  -- without a head there is no one to wake
  have unchanged : Held ((s, .wakeUp p) :: hist) s :=
    held.step_of (fun _ _ => rfl) (Or.inl rfl) (fun _ _ _ _ _ _ _ running => Or.inl running)
      held.neverQueued.1 held.resumed
  cases p with
  | none => exact unchanged
  | some p =>
    cases found : s.head p with
    | none => simpa only [Sleep.wakeUp, found] using unchanged
    | some h =>
      simp only [Sleep.wakeUp, found]
      refine held.step_of (fun _ _ => rfl) (Or.inl rfl) ?_ ?_ ?_
      · intro t stage q tmp _ _ _ running
        by_cases same : t = h
        · subst same
          exact Or.inr (Or.inl ⟨p, rfl, found⟩)
        · rw [setHead_state, setState_state_of_ne s same] at running
          exact Or.inl running
      · intro q
        rw [setHead, setState_head]
        by_cases same : q = p
        · simp [same]
        · simpa [same] using held.neverQueued.1 q
      · intro q tmp here
        have before : s.state s.current = some taskRunning := held.resumed q tmp here
        rw [setHead_current, setState_current, setHead_state]
        by_cases same : s.current = h
        · rw [same] at before ⊢
          rw [setState_state_self, before]
          rfl
        · rw [setState_state_of_ne s same]
          exact before

theorem Held.step {layout : Layout} {hist : List (Sleep Q × Action Q)} {s s' : Sleep Q} {a : Action Q}
    (held : Held hist s) (taken : Step layout s a s') (covered : Covered (s, a)) :
    Held ((s, a) :: hist) s' := by
  cases taken with
  | sleepOn _ => exact held.sleepOn fun q call => covered.1 q (by rw [call])
  | enqueue here => exact held.enqueue here
  | sleep here => exact held.sleep here
  | call here chosen => exact held.call here chosen
  | restore here => exact held.restore here
  | finish here => exact held.finish here covered
  | schedule chosen => exact held.schedules chosen rfl (fun _ _ => rfl) (Or.inl rfl)
  | wakeUp => exact held.wakeUp _
  | tick self => exact held.tick self

/-! ### Whole runs -/

/-- In every run in which task 0 does not call `sleepOn` and no resumed sleeper
wakes a task that sleeps on another queue, `sleepOn` returns only after a
wake-up, and task 0 is on no queue. -/
theorem returns_woken {layout : Layout} {hist : List (Sleep Q × Action Q)} {s : Sleep Q}
    (run : Transition.Run (system layout) hist s) (covered : ∀ x ∈ hist, Covered x) :
    Transition.Along Lawful hist s := by
  -- the invariant holds at every point of a guarded run
  have held : Transition.Along Held hist s := by
    refine run.along_guarded (G := Covered) ?_ (fun _ _ _ _ held taken covered => held.step taken covered)
      covered
    rintro s ⟨empty, outside⟩
    constructor
    · intro t stage p tmp here
      rw [outside t] at here
      cases here
    · intro p tmp here
      rw [outside] at here
      cases here
    · intro t p tmp here
      rw [outside t] at here
      cases here
    · constructor
      · simp [empty]
      · simp [outside]
    · intro t stage p tmp here
      rw [outside t] at here
      cases here
  exact held.mono fun hist s held => ⟨held.returning, held.neverQueued⟩

/-! ### Runs on fixed tasks -/

section Execution

/-- `schedule`, when two rounds of its selection loop are enough. -/
def reschedule (s : Sched) : Option Sched :=
  (choose 2 (signalPass s).tasks).map fun chosen =>
    switchTo { signalPass s with tasks := chosen.1 } chosen.2

def exec (layout : Layout) (s : Sleep Q) : Action Q → Option (Sleep Q)
  | .sleepOn p => if s.place s.current = .outside then some (s.sleepOn layout p) else none
  | .statement =>
    match s.place s.current with
    | .inside .loaded p tmp => some ((s.setHead p (some s.current)).move (.inside .enqueued p tmp))
    | .inside .enqueued p tmp =>
      some ((s.setState s.current taskUninterruptible).move (.inside .asleep p tmp))
    | .inside .asleep p tmp =>
      (reschedule s.sched).map fun sched => { s.move (.inside .called p tmp) with sched }
    | .inside .called p tmp => some ((s.setHead p tmp).move (.inside .restored p tmp))
    | .inside .restored _ tmp => some ((s.wakeNext tmp).move .outside)
    | _ => none
  | .schedule => (reschedule s.sched).map fun sched => { s with sched }
  | .wakeUp p => some (s.wakeUp p)
  | .tick => (s.sched.tasks s.current).map fun cur => { s with sched := s.sched.tick cur }

/-- The history and the state after the actions. -/
def execute (layout : Layout) :
    List (Action Q) → List (Sleep Q × Action Q) → Sleep Q → Option (List (Sleep Q × Action Q) × Sleep Q)
  | [], hist, s => some (hist, s)
  | a :: rest, hist, s => (exec layout s a).bind (execute layout rest ((s, a) :: hist))

/-- No step of the history since the last `*p = CURRENT` of the task wakes it. -/
def unwoken (t : Slot) (p : Q) : List (Sleep Q × Action Q) → Bool
  | [] => true
  | (s, .wakeUp (some q)) :: hist => s.head q ≠ some t && unwoken t p hist
  | (s, .statement) :: hist =>
    match s.place s.current with
    | .inside .loaded _ _ => s.current = t || unwoken t p hist
    | .inside .restored q tmp => (q ≠ p || tmp ≠ some t) && unwoken t p hist
    | _ => unwoken t p hist
  | _ :: hist => unwoken t p hist

theorem schedules_reschedule {s s' : Sched} (done : reschedule s = some s') :
    ∃ next, Schedules s next s' := by
  obtain ⟨chosen, picked, rfl⟩ := Option.map_eq_some_iff.mp done
  exact ⟨chosen.2, 2, chosen.1, picked, rfl⟩

theorem exec_step {layout : Layout} {s s' : Sleep Q} {a : Action Q} (done : exec layout s a = some s') :
    Step layout s a s' := by
  -- one rule of the relation for each action; a statement goes by the place of the task
  cases a with
  | sleepOn p =>
    simp only [exec, Option.ite_none_right_eq_some, Option.some.injEq] at done
    obtain ⟨here, rfl⟩ := done
    exact .sleepOn here
  | statement =>
    simp only [exec] at done
    split at done
    next p tmp here =>
      obtain rfl := Option.some.inj done
      exact .enqueue here
    next p tmp here =>
      obtain rfl := Option.some.inj done
      exact .sleep here
    next p tmp here =>
      obtain ⟨sched, scheduled, rfl⟩ := Option.map_eq_some_iff.mp done
      obtain ⟨next, chosen⟩ := schedules_reschedule scheduled
      exact .call here chosen
    next p tmp here =>
      obtain rfl := Option.some.inj done
      exact .restore here
    next p tmp here =>
      obtain rfl := Option.some.inj done
      exact .finish here
    · cases done
  | schedule =>
    obtain ⟨sched, scheduled, rfl⟩ := Option.map_eq_some_iff.mp done
    obtain ⟨next, chosen⟩ := schedules_reschedule scheduled
    exact .schedule chosen
  | wakeUp p =>
    obtain rfl := Option.some.inj done
    exact .wakeUp
  | tick =>
    obtain ⟨cur, self, rfl⟩ := Option.map_eq_some_iff.mp done
    exact .tick self

theorem execute_run {layout : Layout} {acts : List (Action Q)} {hist hist' : List (Sleep Q × Action Q)}
    {s s' : Sleep Q} (run : Transition.Run (system layout) hist s)
    (done : execute layout acts hist s = some (hist', s')) :
    Transition.Run (system layout) hist' s' := by
  induction acts generalizing hist s with
  | nil =>
    obtain ⟨rfl, rfl⟩ := Prod.mk.inj (Option.some.inj done)
    exact run
  | cons a rest ih =>
    obtain ⟨next, stepped, done⟩ := Option.bind_eq_some_iff.mp done
    exact ih (.step run (exec_step stepped)) done

omit [DecidableEq Q] in
/-- Away from `loaded` and `restored` a statement neither enqueues nor wakes. -/
theorem WokenSince.statement {hist : List (Sleep Q × Action Q)} {s : Sleep Q} {t : Slot} {p : Q}
    (woken : WokenSince t p ((s, .statement) :: hist))
    (silent : s.place s.current ≠ .inside .restored p (some t)) :
    ¬ Enqueues (s, .statement) t ∧ WokenSince t p hist := by
  rcases woken with (⟨q, call, _⟩ | ⟨_, restored⟩) | later
  · cases call
  · exact absurd restored silent
  · exact later

theorem not_wokenSince {t : Slot} {p : Q} {hist : List (Sleep Q × Action Q)}
    (checked : unwoken t p hist = true) : ¬ WokenSince t p hist := by
  -- the check goes through the history from its end, as the definition does
  induction hist with
  | nil => exact id
  | cons x hist ih =>
    obtain ⟨s, a⟩ := x
    intro woken
    cases a with
    | statement =>
      simp only [unwoken] at checked
      split at checked
      next q tmp here =>
        obtain ⟨stays, earlier⟩ := woken.statement (by simp [here])
        rcases Bool.or_eq_true_iff.mp checked with self | checked
        · have self : s.current = t := by simpa using self
          exact stays ⟨rfl, self, q, tmp, self ▸ here⟩
        · exact ih checked earlier
      next q tmp here =>
        obtain ⟨other, checked⟩ := Bool.and_eq_true_iff.mp checked
        have other : q ≠ p ∨ tmp ≠ some t := by simpa using other
        refine ih checked (woken.statement ?_).2
        rw [here]
        rintro ⟨⟩
        rcases other with wrong | wrong <;> exact wrong rfl
      -- a statement that restores no one wakes no one
      next unrestored =>
        exact ih checked (woken.statement fun restored => unrestored p _ restored).2
    | wakeUp q =>
      cases q with
      | none =>
        rcases woken with (⟨_, ⟨⟩, _⟩ | ⟨⟨⟩, _⟩) | ⟨_, earlier⟩
        exact ih checked earlier
      | some q =>
        obtain ⟨other, checked⟩ := Bool.and_eq_true_iff.mp checked
        rcases woken with (⟨_, ⟨⟩, here⟩ | ⟨⟨⟩, _⟩) | ⟨_, earlier⟩
        · exact absurd here (by simpa using other)
        · exact ih checked earlier
    | sleepOn q =>
      rcases woken with (⟨_, ⟨⟩, _⟩ | ⟨⟨⟩, _⟩) | ⟨_, earlier⟩
      exact ih checked earlier
    | schedule =>
      rcases woken with (⟨_, ⟨⟩, _⟩ | ⟨⟨⟩, _⟩) | ⟨_, earlier⟩
      exact ih checked earlier
    | tick =>
      rcases woken with (⟨_, ⟨⟩, _⟩ | ⟨⟨⟩, _⟩) | ⟨_, earlier⟩
      exact ih checked earlier

/-- An execution that passes a check is a run with that property. -/
theorem executed (layout : Layout) (start : Sleep Q) (acts : List (Action Q))
    (P : List (Sleep Q × Action Q) × Sleep Q → Bool) (init : (system layout).init start)
    (checked : (execute layout acts [] start).any P = true) :
    ∃ hist s, Transition.Run (system layout) hist s ∧ P (hist, s) = true := by
  obtain ⟨⟨hist, s⟩, done, holds⟩ := (Option.any_eq_true _ _).mp checked
  exact ⟨hist, s, execute_run (.init init) done, holds⟩

end Execution

/-- `INIT_TASKS`, the pages of the other tasks, and `TASKS` between them. -/
def bootLayout : Layout where
  tasks := 0x21000
  process i := if i = 0 then 0x20000 else 0x100000 + BitVec.ofNat 32 (4096 * i.val)
  apart := by decide

/-- Task 0 and the given tasks, one of which runs, with empty queues. -/
def awake (tasks : List (Slot × Process)) (current : Slot) : Sleep Q where
  sched := { tasks.foldl (fun s x => s.setTask x.1 x.2) (Sched.boot 0x20000 (initTask 0x20000)) with current }
  head _ := none
  place _ := .outside

/-- A task with some of its slice left, in the page of a slot. -/
def slice (counter : Int) : Process := { initTask 0x100000 with counter }

/-- Tasks 1 and 2 sleep on one queue. A `wakeUp` reaches task 2, which wakes task 1. -/
theorem both_return : ∃ hist s, Transition.Run (system (Q := Unit) bootLayout) hist s ∧
    s.place 1 = .inside .restored () none ∧ s.place 2 = .outside ∧ hist.all fun x => x.1.current ≠ 0 := by
  obtain ⟨hist, s, run, checked⟩ := executed bootLayout
    (awake (Q := Unit) [(1, slice 15), (2, slice 10), (3, slice 5)] 1)
      [.sleepOn (some ()), .statement, .statement, .statement,
        .sleepOn (some ()), .statement, .statement, .statement,
      -- task 3 runs meanwhile
        .wakeUp (some ()), .schedule, .statement, .statement, .schedule, .statement]
    (fun r => r.2.place 1 = .inside .restored () none && r.2.place 2 = .outside &&
      r.1.all fun x => x.1.current ≠ 0)
    ⟨fun _ => rfl, fun _ => rfl⟩ (by decide +kernel)
  obtain ⟨places, users⟩ := Bool.and_eq_true_iff.mp checked
  obtain ⟨restored, outside⟩ := Bool.and_eq_true_iff.mp places
  exact ⟨hist, s, run, by simpa using restored, by simpa using outside, users⟩

theorem returns_woken_both : ∃ hist s, Transition.Run (system (Q := Unit) bootLayout) hist s ∧
    s.place 1 = .inside .restored () none ∧ s.place 2 = .outside ∧ Transition.Along Lawful hist s := by
  obtain ⟨hist, s, run, restored, outside, users⟩ := both_return
  refine ⟨hist, s, run, restored, outside,
    returns_woken run fun x step => ⟨fun _ _ => ?_, fun _ _ _ _ _ _ => rfl⟩⟩
  simpa using List.all_eq_true.mp users x step

/-- Task 0 sleeps alone: it passes the guard, and is back from `schedule` with
nobody having woken it. -/
theorem zero_returns : ∃ hist s, Transition.Run (system (Q := Unit) bootLayout) hist s ∧
    s.place 0 = .inside .restored () none ∧ ¬ WokenSince 0 () hist := by
  obtain ⟨hist, s, run, checked⟩ := executed bootLayout (awake [] 0)
    [.sleepOn (some ()), .statement, .statement, .statement, .statement]
    (fun r => r.2.place 0 = .inside .restored () none && unwoken 0 () r.1)
    ⟨fun _ => rfl, fun _ => rfl⟩ (by decide +kernel)
  obtain ⟨restored, silent⟩ := Bool.and_eq_true_iff.mp checked
  exact ⟨hist, s, run, by simpa using restored, not_wokenSince silent⟩

theorem zero_not_lawful : ¬ ∀ hist s, Transition.Run (system (Q := Unit) bootLayout) hist s →
    Transition.Along Lawful hist s := by
  intro lawful
  obtain ⟨hist, s, run, restored, silent⟩ := zero_returns
  exact silent ((lawful hist s run).last.1 0 () none restored)

/-- Tasks 1, 2 and 3 sleep on the queues 0, 1 and 2, with task 0 never current.
Task 3 sleeps on queue 0 above task 1, which has been woken and goes to sleep on
queue 1. When task 3 is resumed it wakes task 1 there. -/
theorem elsewhere_returns : ∃ hist s, Transition.Run (system (Q := Fin 3) bootLayout) hist s ∧
    (hist.all fun x => x.1.current ≠ 0) ∧ s.place 1 = .inside .restored 1 none ∧
    ¬ WokenSince 1 1 hist := by
  obtain ⟨hist, s, run, checked⟩ := executed bootLayout
    (awake (Q := Fin 3) [(1, slice 5), (2, slice 15), (3, slice 10)] 1)
      -- tasks 1 and 2 sleep on queue 0, a `wakeUp` reaches task 2, which wakes task 1
      [.sleepOn (some 0), .statement, .statement, .statement,
        .sleepOn (some 0), .statement, .statement, .statement,
        .wakeUp (some 0), .schedule, .statement, .statement,
      -- task 2 sleeps on queue 2, task 3 on queue 0
        .sleepOn (some 2), .statement, .statement, .statement,
        .sleepOn (some 0), .statement, .statement, .statement,
      -- task 1 resumes and sleeps on queue 1, after a `wakeUp` for task 3
        .wakeUp (some 0), .statement, .statement,
        .sleepOn (some 1), .statement, .statement, .statement,
      -- task 3 resumes, wakes task 1 and sleeps
        .statement, .statement,
        .sleepOn (some 2), .statement, .statement, .statement,
        .statement]
    (fun r => r.1.all (fun x => x.1.current ≠ 0) &&
      (r.2.place 1 = .inside .restored 1 none && unwoken 1 1 r.1))
    ⟨fun _ => rfl, fun _ => rfl⟩ (by decide +kernel)
  obtain ⟨users, checked⟩ := Bool.and_eq_true_iff.mp checked
  obtain ⟨restored, silent⟩ := Bool.and_eq_true_iff.mp checked
  exact ⟨hist, s, run, users, by simpa using restored, not_wokenSince silent⟩

end Sleep

end OperatorSystem.Kernel
