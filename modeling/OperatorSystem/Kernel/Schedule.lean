import Mathlib.Logic.Function.Basic
import OperatorSystem.Kernel.Process
import OperatorSystem.Library.Transition

/-!
# The scheduler: `schedule`, `timerHandler` and the steps that call them

`schedule` picks the runnable task with the largest counter, starting from -1
and refilling the counters only when the best one is exactly 0. A task whose
counter has become negative is therefore passed over, and slot 0 runs in its
place. The module models `schedule` and the steps around it, with the
decrement of a tick and its call of `schedule` as two steps, and shows that a
run stays clear of that state exactly as long as no tick strikes a task whose
counter is already used up (`neverIdles_iff`).
-/

namespace OperatorSystem.Kernel

/-- `S(nr)`: the bit of signal `nr`. -/
def signalBit (nr : Nat) : BitVec 32 := 1 <<< (nr - 1)

def sigKill : Nat := 9
def sigStop : Nat := 19

/-- `BLOCKABLE`: all signals except `SIGKILL` and `SIGSTOP`. -/
def blockable : BitVec 32 := ~~~ (signalBit sigKill ||| signalBit sigStop)

structure Sched where
  tasks : Slot → Option Process
  current : Slot
  /-- The words at address 0, read as a `PROCESS` through a NULL entry of `TASKS`. -/
  atNull : Process
  ticks : BitVec 32
  /-- The calls of `schedule` that lie on the kernel stack of each task, not made yet. -/
  pending : Slot → Nat

/-! ### `schedule` -/

/-- One round of the first loop. Its test `!TASKS[i]` lets the NULL entries
through and skips the live tasks. -/
def signalStep (s : Sched) (i : Slot) : Sched :=
  match s.tasks i with
  | some _ => s
  | none =>
    if s.atNull.signal &&& (blockable &&& ~~~ s.atNull.blocked) ≠ 0 ∧
        s.atNull.state = taskInterruptible then
      { s with atNull := { s.atNull with state := taskRunning } }
    else s

def signalPass (s : Sched) : Sched := userSlots.foldl signalStep s

/-- One round of the selection loop on `(c, next)`. -/
def selectStep (tasks : Slot → Option Process) (best : Int × Slot) (i : Slot) : Int × Slot :=
  match tasks i with
  | none => best
  | some p => if p.state = taskRunning ∧ p.counter > best.1 then (p.counter, i) else best

def select (tasks : Slot → Option Process) : Int × Slot :=
  userSlots.foldl (selectStep tasks) (-1, 0)

/-- `TASKS[i]->counter = TASKS[i]->priority` for every live task of slots 1..63. -/
def refill (tasks : Slot → Option Process) (i : Slot) : Option Process :=
  if i = 0 then tasks i
  else (tasks i).map fun p => { p with counter := p.priority.toInt }

/-- The `while (1)` loop, for at most the given number of rounds: the tasks it
leaves and the slot it selects. -/
def choose : Nat → (Slot → Option Process) → Option ((Slot → Option Process) × Slot)
  | 0, _ => none
  | rounds + 1, tasks =>
    if (select tasks).1 ≠ 0 then some (tasks, (select tasks).2)
    else choose rounds (refill tasks)

/-- `SWITCH_TO`: nothing for the current task, otherwise `CURRENT` becomes the target. -/
def switchTo (s : Sched) (next : Slot) : Sched :=
  if next = s.current then s else { s with current := next }

/-- `schedule` selects `next` and leaves `s'`. -/
def Schedules (s : Sched) (next : Slot) (s' : Sched) : Prop :=
  ∃ rounds tasks, choose rounds (signalPass s).tasks = some (tasks, next) ∧
    s' = switchTo { signalPass s with tasks } next

/-! ### The steps around it -/

namespace Sched

def setTask (s : Sched) (i : Slot) (p : Process) : Sched :=
  { s with tasks := Function.update s.tasks i (some p) }

/-- One more call of `schedule` is due on the stack of the current task. -/
def defer (s : Sched) : Sched :=
  { s with pending := Function.update s.pending s.current (s.pending s.current + 1) }

/-- The value `--CURRENT->counter` stores in 32 bits. -/
def decrement (counter : Int) : Int := (counter - 1).bmod (2 ^ 32)

/-- `timerHandler` up to its call of `schedule`. -/
def tick (s : Sched) (cur : Process) : Sched :=
  let counter := decrement cur.counter
  let s := { s with ticks := s.ticks + 1 }.setTask s.current { cur with counter }
  if counter > 0 then s else s.defer

inductive Action
  | fork
  | sleepOn
  | wakeUp
  | pause
  | tick
  | schedule

/-- The tasks call `fork`, `sleepOn` and `pause` outside the handlers, so with
nothing pending; `wakeUp` and ticks come from interrupts as well. -/
inductive Step : Sched → Action → Sched → Prop
  | fork {s : Sched} {cur : Process} {nr : Slot} {p lastPid : BitVec 32} {frame : UserFrame}
      (idle : s.pending s.current = 0) (self : s.tasks s.current = some cur)
      (empty : emptySlot s.tasks = some nr) :
      Step s .fork (s.setTask nr
        { cur.inherit p nr lastPid s.ticks frame with state := taskRunning })
  | sleepOn {s : Sched} {cur : Process} (idle : s.pending s.current = 0)
      (self : s.tasks s.current = some cur) :
      Step s .sleepOn (s.setTask s.current { cur with state := taskUninterruptible }).defer
  | wakeUp {s : Sched} {nr : Slot} {p : Process} (live : s.tasks nr = some p) :
      Step s .wakeUp (s.setTask nr { p with state := taskRunning })
  | pause {s : Sched} {cur : Process} (idle : s.pending s.current = 0)
      (self : s.tasks s.current = some cur) :
      Step s .pause (s.setTask s.current { cur with state := taskInterruptible }).defer
  | tick {s : Sched} {cur : Process} (self : s.tasks s.current = some cur) :
      Step s .tick (s.tick cur)
  | schedule {s s' : Sched} {next : Slot} (due : s.pending s.current ≠ 0)
      (chosen : Schedules { s with
        pending := Function.update s.pending s.current (s.pending s.current - 1) } next s') :
      Step s .schedule s'

/-- The scheduler as `initSchedule` leaves it, whatever the words at address 0. -/
def boot (initTasks : BitVec 32) (atNull : Process) : Sched where
  tasks i := if i = 0 then some (initTask initTasks) else none
  current := 0
  atNull := atNull
  ticks := 0
  pending _ := 0

def system : Transition.System Sched Action where
  init s := ∃ initTasks atNull, s = boot initTasks atNull
  step := Step

/-- A live, runnable task of slots 1..63. -/
def Runnable (s : Sched) (i : Slot) : Prop :=
  i ≠ 0 ∧ ∃ p, s.tasks i = some p ∧ p.state = taskRunning

/-- `schedule` returns, and selects a runnable task of slots 1..63 whenever there is one. -/
def NeverIdles (s : Sched) : Prop :=
  (∃ next s', Schedules s next s') ∧
    ∀ next s', Schedules s next s' → (∃ i, Runnable s i) → next ≠ 0 ∧ Runnable s next

def NoNegativeCounter (s : Sched) : Prop :=
  ∀ i p, i ≠ 0 → s.tasks i = some p → 0 ≤ p.counter

/-- A tick strikes the idle task or a task that has some of its slice left. -/
def SliceLeft (s : Sched) : Action → Prop
  | .tick => s.current = 0 ∨ ∀ cur, s.tasks s.current = some cur → 0 < cur.counter
  | _ => True

/-- Every live task has priority 15, and those of slots 1..63 a counter in 0..15. -/
structure Sliced (s : Sched) : Prop where
  priority : ∀ i p, s.tasks i = some p → p.priority = 15
  counter : ∀ i p, i ≠ 0 → s.tasks i = some p → 0 ≤ p.counter ∧ p.counter ≤ 15

/-! ### What `schedule` selects -/

@[simp] theorem setTask_tasks (s : Sched) (i : Slot) (p : Process) :
    (s.setTask i p).tasks = Function.update s.tasks i (some p) := rfl

@[simp] theorem defer_tasks (s : Sched) : s.defer.tasks = s.tasks := rfl

theorem tick_tasks (s : Sched) (cur : Process) :
    (s.tick cur).tasks = Function.update s.tasks s.current
      (some { cur with counter := decrement cur.counter }) := by
  simp only [tick]
  split <;> rfl

/-- The first loop changes no task: it only ever writes through a NULL entry. -/
@[simp] theorem signalPass_tasks (s : Sched) : (signalPass s).tasks = s.tasks := by
  have fold : ∀ l : List Slot, ∀ s : Sched, (l.foldl signalStep s).tasks = s.tasks := by
    intro l
    induction l with
    | nil => exact fun _ => rfl
    | cons i rest ih =>
      intro s
      rw [List.foldl_cons, ih]
      unfold signalStep
      split
      · rfl
      · split <;> rfl
  exact fold userSlots s

@[simp] theorem switchTo_tasks (s : Sched) (next : Slot) : (switchTo s next).tasks = s.tasks := by
  unfold switchTo
  split <;> rfl

@[simp] theorem switchTo_current (s : Sched) (next : Slot) : (switchTo s next).current = next := by
  unfold switchTo
  split
  next same => exact same.symm
  · rfl

/-- The selection loop over any list of slots: an upper bound of the runnable
counters, reached at the selected slot unless nothing beat the start. -/
theorem foldl_selectStep (tasks : Slot → Option Process) (slots : List Slot) (best : Int × Slot) :
    best.1 ≤ (slots.foldl (selectStep tasks) best).1 ∧
    (∀ i ∈ slots, ∀ p, tasks i = some p → p.state = taskRunning →
      p.counter ≤ (slots.foldl (selectStep tasks) best).1) ∧
    (slots.foldl (selectStep tasks) best = best ∨
      best.1 < (slots.foldl (selectStep tasks) best).1 ∧
      (slots.foldl (selectStep tasks) best).2 ∈ slots ∧
      ∃ p, tasks (slots.foldl (selectStep tasks) best).2 = some p ∧ p.state = taskRunning ∧
        p.counter = (slots.foldl (selectStep tasks) best).1) := by
  -- the induction is on the slots; the best so far only grows
  induction slots generalizing best with
  | nil => simp
  | cons i rest ih =>
    obtain ⟨grows, bounds, reached⟩ := ih (selectStep tasks best i)
    rw [List.foldl_cons]
    have first : best.1 ≤ (selectStep tasks best i).1 ∧
        (∀ p, tasks i = some p → p.state = taskRunning →
          p.counter ≤ (selectStep tasks best i).1) ∧
        (selectStep tasks best i = best ∨ best.1 < (selectStep tasks best i).1 ∧
          (selectStep tasks best i).2 = i ∧
          ∃ p, tasks i = some p ∧ p.state = taskRunning ∧
            p.counter = (selectStep tasks best i).1) := by
      unfold selectStep
      cases live : tasks i with
      | none => simp
      | some p =>
        by_cases better : p.state = taskRunning ∧ p.counter > best.1
        · simp only [better, and_self, if_true]
          refine ⟨by omega, ?_, Or.inr ⟨trivial, trivial, p, rfl, better.1, rfl⟩⟩
          rintro q same _
          cases same
          exact Int.le_refl _
        · simp only [better, if_false]
          refine ⟨Int.le_refl _, ?_, Or.inl trivial⟩
          rintro q same running
          cases same
          by_contra above
          exact better ⟨running, by omega⟩
    refine ⟨Int.le_trans first.1 grows, ?_, ?_⟩
    · intro j member p live running
      rcases List.mem_cons.mp member with rfl | later
      · exact Int.le_trans (first.2.1 p live running) grows
      · exact bounds j later p live running
    · -- the final best is the one after the first slot, or a later slot beats it
      rcases reached with same | ⟨beats, member, found⟩
      · rw [same]
        rcases first.2.2 with kept | ⟨beats, here, found⟩
        · exact Or.inl kept
        · rw [here]
          exact Or.inr ⟨beats, List.mem_cons_self, found⟩
      · exact Or.inr ⟨Int.lt_of_le_of_lt first.1 beats, List.mem_cons_of_mem _ member, found⟩

/-- With a runnable task whose counter is not negative, the selection loop stops
at a runnable task of slots 1..63 with the returned counter. -/
theorem select_runnable {tasks : Slot → Option Process} {i : Slot} {p : Process} (user : i ≠ 0)
    (live : tasks i = some p) (running : p.state = taskRunning) (nonneg : 0 ≤ p.counter) :
    p.counter ≤ (select tasks).1 ∧ (select tasks).2 ≠ 0 ∧
      ∃ q, tasks (select tasks).2 = some q ∧ q.state = taskRunning ∧
        q.counter = (select tasks).1 := by
  obtain ⟨_, bounds, reached⟩ := foldl_selectStep tasks userSlots (-1, 0)
  have above : p.counter ≤ (select tasks).1 := bounds i (mem_userSlots.mpr user) p live running
  refine ⟨above, ?_⟩
  rcases reached with start | ⟨_, member, found⟩
  · have : (select tasks).1 = -1 := congrArg Prod.fst start
    omega
  · exact ⟨mem_userSlots.mp member, found⟩

/-- With no runnable task of a nonnegative counter the selection loop stops at slot 0. -/
theorem select_idle {tasks : Slot → Option Process}
    (idle : ∀ i p, i ≠ 0 → tasks i = some p → p.state = taskRunning → p.counter < 0) :
    select tasks = (-1, 0) := by
  obtain ⟨_, _, reached⟩ := foldl_selectStep tasks userSlots (-1, 0)
  rcases reached with start | ⟨beats, member, p, live, running, counter⟩
  · exact start
  · have negative := idle _ p (mem_userSlots.mp member) live running
    change -1 < (userSlots.foldl (selectStep tasks) (-1, 0)).1 at beats
    omega

theorem refill_eq {tasks : Slot → Option Process} {i : Slot} {p : Process} (user : i ≠ 0) :
    refill tasks i = some p ↔
      ∃ q, tasks i = some q ∧ p = { q with counter := q.priority.toInt } := by
  simp only [refill, user, if_false, Option.map_eq_some_iff]
  constructor
  · rintro ⟨q, live, rfl⟩
    exact ⟨q, live, rfl⟩
  · rintro ⟨q, live, rfl⟩
    exact ⟨q, live, rfl⟩

theorem Sliced.of_refill {s : Sched} (sliced : Sliced s) {i : Slot} {p : Process} (user : i ≠ 0)
    (live : refill s.tasks i = some p) : p.counter = 15 := by
  obtain ⟨q, old, rfl⟩ := (refill_eq user).mp live
  rw [sliced.priority i q old]
  rfl

/-- What a sliced state lets `schedule` do: the tasks it leaves are the old ones
or the refilled ones, and it selects a runnable task if there is one. -/
theorem Sliced.choose_cases {s : Sched} (sliced : Sliced s) {rounds : Nat}
    {tasks : Slot → Option Process} {next : Slot}
    (chosen : choose rounds s.tasks = some (tasks, next)) :
    (tasks = s.tasks ∨ tasks = refill s.tasks) ∧
      ((∃ i, Runnable s i) → Runnable s next) := by
  cases rounds with
  | zero => cases chosen
  | succ rounds =>
    simp only [choose] at chosen
    split at chosen
    next stop =>
      obtain ⟨rfl, rfl⟩ : s.tasks = tasks ∧ (select s.tasks).2 = next := by simpa using chosen
      refine ⟨Or.inl rfl, ?_⟩
      rintro ⟨i, user, p, live, running⟩
      obtain ⟨_, nonzero, q, found, runs, _⟩ :=
        select_runnable user live running (sliced.counter i p user live).1
      exact ⟨nonzero, q, found, runs⟩
    next used =>
      -- the best counter is 0: some task is runnable, and has 15 after the refill
      have best : (select s.tasks).1 = 0 := by simpa using used
      cases rounds with
      | zero => cases chosen
      | succ rounds =>
        obtain ⟨i, user, p, live, running⟩ : ∃ i, Runnable s i := by
          by_contra nobody
          have none_selected : select s.tasks = (-1, 0) := select_idle fun i p user live running =>
            absurd ⟨i, user, p, live, running⟩ nobody
          rw [none_selected] at best
          exact absurd best (by decide)
        have refilled : refill s.tasks i = some { p with counter := p.priority.toInt } :=
          (refill_eq user).mpr ⟨p, live, rfl⟩
        have slice := sliced.of_refill user refilled
        obtain ⟨above, nonzero, q, found, runs, _⟩ :=
          select_runnable user refilled running (by omega)
        have stop : (select (refill s.tasks)).1 ≠ 0 := by omega
        simp only [choose, stop, ne_eq, not_false_eq_true, if_true, Option.some.injEq,
          Prod.mk.injEq] at chosen
        obtain ⟨rfl, rfl⟩ := chosen
        refine ⟨Or.inr rfl, fun _ => ⟨nonzero, ?_⟩⟩
        obtain ⟨r, old, rfl⟩ := (refill_eq nonzero).mp found
        exact ⟨r, old, runs⟩

/-- Two rounds are enough. -/
theorem Sliced.choose_returns {s : Sched} (sliced : Sliced s) :
    ∃ tasks next, choose 2 s.tasks = some (tasks, next) := by
  simp only [choose]
  split
  · exact ⟨_, _, rfl⟩
  next used =>
    have best : (select s.tasks).1 = 0 := by simpa using used
    have stop : (select (refill s.tasks)).1 ≠ 0 := by
      obtain ⟨_, _, reached⟩ := foldl_selectStep (refill s.tasks) userSlots (-1, 0)
      rcases reached with start | ⟨_, member, p, live, _, counter⟩
      · have := congrArg Prod.fst start
        change (select (refill s.tasks)).1 = -1 at this
        omega
      · have slice := sliced.of_refill (mem_userSlots.mp member) live
        change p.counter = (select (refill s.tasks)).1 at counter
        omega
    exact ⟨_, _, if_pos stop⟩

/-! ### The invariant along one step -/

/-- Replacing one task keeps the slices when the new one has priority 15 and,
outside slot 0, a counter in 0..15. -/
theorem Sliced.update {s s' : Sched} {i : Slot} {p : Process} (sliced : Sliced s)
    (tasks : s'.tasks = Function.update s.tasks i (some p)) (priority : p.priority = 15)
    (counter : i ≠ 0 → 0 ≤ p.counter ∧ p.counter ≤ 15) : Sliced s' := by
  -- a task is the one that changed, or it was there before
  have either : ∀ j q, s'.tasks j = some q → (j = i ∧ q = p) ∨ s.tasks j = some q := by
    intro j q live
    rw [tasks] at live
    by_cases same : j = i
    · rw [same, Function.update_self] at live
      exact Or.inl ⟨same, (Option.some.inj live).symm⟩
    · rw [Function.update_of_ne same] at live
      exact Or.inr live
  constructor
  · intro j q live
    rcases either j q live with ⟨rfl, rfl⟩ | old
    · exact priority
    · exact sliced.priority j q old
  · intro j q user live
    rcases either j q live with ⟨rfl, rfl⟩ | old
    · exact counter user
    · exact sliced.counter j q user old

/-- Changing the state word of a task changes no slice. -/
theorem Sliced.setState {s s' : Sched} {i : Slot} {p : Process} {state : Int} (sliced : Sliced s)
    (live : s.tasks i = some p)
    (tasks : s'.tasks = Function.update s.tasks i (some { p with state })) : Sliced s' :=
  sliced.update tasks (sliced.priority i p live) fun user => sliced.counter i p user live

theorem sliced_boot (initTasks : BitVec 32) (atNull : Process) : Sliced (boot initTasks atNull) := by
  constructor
  · intro i p live
    by_cases idle : i = 0
    · simp only [boot, idle, if_true, Option.some.injEq] at live
      rw [← live]
      rfl
    · simp [boot, idle] at live
  · intro i p user live
    simp [boot, user] at live

theorem Sliced.schedules {s s' : Sched} {next : Slot} (sliced : Sliced s)
    (chosen : Schedules s next s') : Sliced s' := by
  obtain ⟨rounds, tasks, picked, rfl⟩ := chosen
  rw [signalPass_tasks] at picked
  rcases (sliced.choose_cases picked).1 with rfl | rfl
  · exact ⟨by simpa using sliced.priority, by simpa using sliced.counter⟩
  · constructor
    · intro i p live
      rw [switchTo_tasks] at live
      by_cases idle : i = 0
      · subst idle
        exact sliced.priority 0 p live
      · obtain ⟨q, old, rfl⟩ := (refill_eq idle).mp live
        exact sliced.priority i q old
    · intro i p user live
      rw [switchTo_tasks] at live
      have := sliced.of_refill user live
      omega

theorem Sliced.step {s s' : Sched} {a : Action} (sliced : Sliced s) (taken : Step s a s')
    (left : SliceLeft s a) : Sliced s' := by
  cases taken with
  | @fork cur nr p lastPid frame _ self _ =>
    have priority := sliced.priority _ _ self
    have slice : cur.priority.toInt = 15 := by rw [priority]; rfl
    refine sliced.update rfl priority fun _ => ?_
    change 0 ≤ cur.priority.toInt ∧ cur.priority.toInt ≤ 15
    omega
  | sleepOn _ self => exact sliced.setState self rfl
  | wakeUp live => exact sliced.setState live rfl
  | pause _ self => exact sliced.setState self rfl
  | @tick cur self =>
    have priority := sliced.priority _ _ self
    refine sliced.update (tick_tasks s cur) priority fun user => ?_
    have positive : 0 < cur.counter := left.resolve_left user cur self
    have bounds := sliced.counter _ _ user self
    simp only [decrement, Int.bmod_def]
    omega
  | schedule _ chosen =>
    refine Sliced.schedules ?_ chosen
    exact ⟨sliced.priority, sliced.counter⟩

theorem Sliced.neverIdles {s : Sched} (sliced : Sliced s) : NeverIdles s := by
  constructor
  · obtain ⟨tasks, next, chosen⟩ := sliced.choose_returns
    exact ⟨next, _, 2, tasks, by rw [signalPass_tasks, chosen], rfl⟩
  · rintro next s' ⟨rounds, tasks, chosen, _⟩ runnable
    rw [signalPass_tasks] at chosen
    have picked := (sliced.choose_cases chosen).2 runnable
    exact ⟨picked.1, picked⟩

/-- A tick that strikes a task with nothing left makes its counter negative. -/
theorem Sliced.tick_negative {s : Sched} {cur : Process} (sliced : Sliced s)
    (self : s.tasks s.current = some cur) (used : ¬ SliceLeft s .tick) :
    ¬ NoNegativeCounter (s.tick cur) := by
  simp only [SliceLeft, not_or, not_forall] at used
  obtain ⟨user, p, live, spent⟩ := used
  obtain rfl : cur = p := Option.some.inj (self.symm.trans live)
  have zero : cur.counter = 0 := by
    have := (sliced.counter _ _ user self).1
    omega
  intro nonneg
  have negative : 0 ≤ decrement cur.counter :=
    nonneg s.current _ user (by rw [tick_tasks, Function.update_self])
  rw [zero] at negative
  exact absurd negative (by decide)

/-! ### Whole runs -/

/-- No counter of slots 1..63 goes negative, and `schedule` never idles over a
runnable task, all along a run if and only if no tick of the run strikes a task
of slots 1..63 whose counter is used up. -/
theorem neverIdles_iff {hist : List (Sched × Action)} {s : Sched}
    (run : Transition.Run system hist s) :
    ((∀ x ∈ hist, NoNegativeCounter x.1 ∧ NeverIdles x.1) ∧ NoNegativeCounter s ∧ NeverIdles s) ↔
      ∀ x ∈ hist, SliceLeft x.1 x.2 := by
  refine run.guard_iff (P := fun s => NoNegativeCounter s ∧ NeverIdles s) (I := Sliced) ?_ ?_ ?_ ?_
  · rintro s ⟨initTasks, atNull, rfl⟩
    exact sliced_boot initTasks atNull
  · intro s a s' sliced taken left
    exact sliced.step taken left
  · intro s sliced
    exact ⟨fun i p user live => (sliced.counter i p user live).1, sliced.neverIdles⟩
  · rintro s a s' sliced taken missed ⟨nonneg, _⟩
    cases taken with
    | tick self => exact sliced.tick_negative self missed nonneg
    | fork => exact missed trivial
    | sleepOn => exact missed trivial
    | wakeUp => exact missed trivial
    | pause => exact missed trivial
    | schedule => exact missed trivial

/-! ### One slice of task 1 -/

/-- After `k` ticks of its slice, task 1 is current with counter `15 - k`; the
other slots from 2 on hold `rest`. -/
structure Ticked (rest : Slot → Option Process) (s : Sched) (k : Nat) : Prop where
  current : s.current = 1
  task : ∃ p, s.tasks 1 = some p ∧ p.state = taskRunning ∧ p.counter = 15 - k
  others : ∀ i, i ≠ 0 → i ≠ 1 → s.tasks i = rest i
  due : 15 ≤ k → s.pending 1 ≠ 0

theorem Ticked.tick {rest : Slot → Option Process} {s : Sched} {k : Nat} (ticked : Ticked rest s k)
    (few : k < 16) : ∃ s', Step s .tick s' ∧ Ticked rest s' (k + 1) := by
  obtain ⟨p, live, running, counter⟩ := ticked.task
  have self : s.tasks s.current = some p := by rw [ticked.current]; exact live
  have left : decrement p.counter = 15 - ((k + 1 : Nat) : Int) := by
    simp only [decrement, Int.bmod_def]
    omega
  have task : (s.tick p).tasks 1 = some { p with counter := decrement p.counter } := by
    rw [tick_tasks, ticked.current, Function.update_self]
  refine ⟨s.tick p, .tick self, ?_, ⟨_, task, running, left⟩, ?_, ?_⟩
  · simp only [Sched.tick]
    split <;> exact ticked.current
  · intro i user other
    rw [tick_tasks, ticked.current, Function.update_of_ne other]
    exact ticked.others i user other
  · intro used
    have spent : ¬ decrement p.counter > 0 := by omega
    simp [Sched.tick, spent, defer, setTask, ticked.current]

theorem Ticked.run {rest : Slot → Option Process} {hist : List (Sched × Action)} {s : Sched}
    (run : Transition.Run system hist s) (ticked : Ticked rest s 0) : ∀ k ≤ 16, ∃ hist' s',
      Transition.Run system hist' s' ∧ Ticked rest s' k ∧
      hist'.map Prod.snd = List.replicate k .tick ++ hist.map Prod.snd := by
  intro k
  induction k with
  | zero => exact fun _ => ⟨hist, s, run, ticked, rfl⟩
  | succ k ih =>
    intro few
    obtain ⟨hist', s', run', ticked', actions⟩ := ih (by omega)
    obtain ⟨s'', taken, after⟩ := ticked'.tick (by omega)
    refine ⟨_, s'', .step run' taken, after, ?_⟩
    rw [List.map_cons, actions, List.replicate_succ]
    rfl

/-- A call of `schedule` that finds counters left. -/
theorem schedule_to {s : Sched} {counter : Int} {next : Slot} (due : s.pending s.current ≠ 0)
    (selected : select s.tasks = (counter, next)) (left : counter ≠ 0) :
    ∃ s', Step s .schedule s' ∧ s'.tasks = s.tasks ∧ s'.current = next := by
  refine ⟨_, .schedule due ⟨1, s.tasks, ?_, rfl⟩, switchTo_tasks _ _, switchTo_current _ _⟩
  rw [signalPass_tasks, choose, selected]
  exact if_pos left

/-- The task that process 0 forks into slot `nr` right after boot. -/
def child (nr : Slot) : Process :=
  { (initTask 0).inherit 0 nr nr.val 0 ⟨0, 0, 0, 0, 0, 0, 0, 0, 0, 0, 0, 0, 0, 0, 0⟩ with state := taskRunning }

/-- Process 0 forks task 1 and pauses, and `schedule` switches to task 1. -/
theorem ticked_alone : ∃ hist s, Transition.Run system hist s ∧ Ticked (fun _ => none) s 0 := by
  let forked := (boot 0 (initTask 0)).setTask 1 (child 1)
  let paused := (forked.setTask 0 { initTask 0 with state := taskInterruptible }).defer
  have fork : Step (boot 0 (initTask 0)) .fork forked := .fork rfl rfl (by decide)
  have pause : Step forked .pause paused := .pause rfl (by rfl)
  have selected : select paused.tasks = (15, 1) := by rfl
  obtain ⟨s, switch, tasks, current⟩ := schedule_to (s := paused) (by decide) selected (by decide)
  refine ⟨_, s, .step (.step (.step (.init ⟨0, initTask 0, rfl⟩) fork) pause) switch,
    current, ⟨child 1, by rw [tasks]; rfl, rfl, rfl⟩, ?_, by simp⟩
  intro i other user
  rw [tasks]
  simp [paused, forked, boot, other, user]

/-- The same with two tasks. -/
theorem ticked_both : ∃ hist s, Transition.Run system hist s ∧
    Ticked (fun i => if i = 2 then some (child 2) else none) s 0 ∧
    hist.map Prod.snd = [.schedule, .pause, .fork, .fork] := by
  let forked := (boot 0 (initTask 0)).setTask 1 (child 1)
  let both := forked.setTask 2 (child 2)
  let paused := (both.setTask 0 { initTask 0 with state := taskInterruptible }).defer
  have first : Step (boot 0 (initTask 0)) .fork forked := .fork rfl rfl (by decide)
  have second : Step forked .fork both := .fork rfl rfl (by decide)
  have pause : Step both .pause paused := .pause rfl (by rfl)
  have selected : select paused.tasks = (15, 1) := by rfl
  obtain ⟨s, switch, tasks, current⟩ := schedule_to (s := paused) (by decide) selected (by decide)
  refine ⟨_, s, .step (.step (.step (.step (.init ⟨0, initTask 0, rfl⟩) first) second) pause) switch,
    ⟨current, ⟨child 1, by rw [tasks]; rfl, rfl, rfl⟩, ?_, by simp⟩, rfl⟩
  intro i other user
  rw [tasks]
  simp [paused, both, forked, boot, Function.update, other, user]

/-- Task 1 uses up its slice, and `schedule` goes on with task 2. -/
theorem neverIdles_iff_slice : ∃ hist s, Transition.Run system hist s ∧
    hist.map Prod.snd = .schedule :: List.replicate 15 .tick ++ [.schedule, .pause, .fork, .fork] ∧
    Runnable s 1 ∧ Runnable s 2 ∧ s.current = 2 ∧
    (((∀ x ∈ hist, NoNegativeCounter x.1 ∧ NeverIdles x.1) ∧ NoNegativeCounter s ∧ NeverIdles s) ↔
      ∀ x ∈ hist, SliceLeft x.1 x.2) := by
  obtain ⟨_, _, start, fresh, actions⟩ := ticked_both
  obtain ⟨_, s, run, ticked, slice⟩ := Ticked.run start fresh 15 (by omega)
  obtain ⟨p, live, running, counter⟩ := ticked.task
  have second : s.tasks 2 = some (child 2) := ticked.others 2 (by decide) (by decide)
  have selected : select s.tasks = (15, 2) := by
    obtain ⟨above, nonzero, q, found, _, reached⟩ :=
      select_runnable (by decide) second rfl (show 0 ≤ (child 2).counter by decide)
    have full : (child 2).counter = 15 := by decide
    by_cases same : (select s.tasks).2 = 2
    · rw [same, second] at found
      cases found
      exact Prod.ext (reached.symm.trans full) same
    · -- task 1 has nothing left, and nobody is in the other slots
      by_cases one : (select s.tasks).2 = 1
      · rw [one, live] at found
        cases found
        omega
      · rw [ticked.others _ nonzero one, if_neg same] at found
        cases found
  have due : s.pending s.current ≠ 0 := by
    rw [ticked.current]
    exact ticked.due (by omega)
  obtain ⟨s', switch, tasks, current⟩ := schedule_to due selected (by decide)
  refine ⟨_, s', run.step switch, ?_, ⟨by decide, p, by rw [tasks, live], running⟩,
    ⟨by decide, child 2, by rw [tasks, second], rfl⟩, current, neverIdles_iff (run.step switch)⟩
  rw [List.map_cons, slice, actions]
  rfl

/-! ### A run that idles over a runnable task -/

/-- The sixteenth tick arrives before the `schedule` of the fifteenth: task 1
has counter -1 and `schedule` switches to slot 0, although task 1 is runnable. -/
theorem idles_over_runnable : ¬ ∀ hist s s', Transition.Run system hist s → Step s .schedule s' →
    (∃ i, Runnable s i) → s'.current ≠ 0 ∧ Runnable s s'.current := by
  intro claimed
  obtain ⟨_, _, start, fresh⟩ := ticked_alone
  obtain ⟨hist, s, run, ticked, _⟩ := Ticked.run start fresh 16 (by omega)
  obtain ⟨p, live, running, counter⟩ := ticked.task
  -- the only user task has used up its slice
  have idle : select s.tasks = (-1, 0) := by
    refine select_idle fun i q user found _ => ?_
    by_cases same : i = 1
    · subst same
      obtain rfl : p = q := Option.some.inj (live.symm.trans found)
      omega
    · rw [ticked.others i user same] at found
      cases found
  let deferred : Sched := { s with
    pending := Function.update s.pending s.current (s.pending s.current - 1) }
  have chosen : Schedules deferred 0 (switchTo { signalPass deferred with tasks := s.tasks } 0) := by
    refine ⟨1, s.tasks, ?_, rfl⟩
    simp [choose, deferred, idle]
  have due : s.pending s.current ≠ 0 := by
    rw [ticked.current]
    exact ticked.due (by omega)
  exact (claimed hist s _ run (.schedule due chosen) ⟨1, by decide, p, live, running⟩).1
    (switchTo_current _ 0)

end Sched

end OperatorSystem.Kernel
