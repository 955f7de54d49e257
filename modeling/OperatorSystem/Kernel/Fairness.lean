import OperatorSystem.Kernel.Selection
import OperatorSystem.Library.Shares

/-!
# Proportional shares of the processor (`timerHandler` and `schedule`)

While no task starts, sleeps or is woken, the ticks of the clock go round the
runnable tasks by their counters: the main result `charged_counters` says how
many of them each task gets, and so that none of them waits for ever.
-/

namespace OperatorSystem.Kernel

namespace Sched

/-- A tick of the clock, with its call of `schedule` before the next tick. -/
inductive Quantum (s : Sched) : Sched → Prop
  | runs {cur : Process} (self : s.tasks s.current = some cur) (left : 0 < decrement cur.counter) :
    Quantum s (s.tick cur)
  | reschedules {s' : Sched} {cur : Process} {next : Slot} (self : s.tasks s.current = some cur)
      (used : ¬ 0 < decrement cur.counter)
      (chosen : Schedules { s.tick cur with pending := s.pending } next s') : Quantum s s'

/-- A quantum is one step of the scheduler, or two. -/
theorem Quantum.steps {s s' : Sched} (quantum : Quantum s s') :
    ∃ t, Step s .tick t ∧ (s' = t ∨ Step t .schedule s') := by
  cases quantum with
  | runs self left => exact ⟨_, .tick self, Or.inl rfl⟩
  | @reschedules s' cur next self used chosen =>
    refine ⟨s.tick cur, .tick self, Or.inr ?_⟩
    have deferred : s.tick cur = ({ s with ticks := s.ticks + 1 }.setTask s.current
        { cur with counter := decrement cur.counter }).defer := if_neg used
    have due : (s.tick cur).pending s.current = s.pending s.current + 1 := by
      rw [deferred]
      exact Function.update_self _ _ _
    have current : (s.tick cur).current = s.current := by
      rw [deferred]
      rfl
    have pending : (s.tick cur).pending (s.tick cur).current ≠ 0 := by
      rw [current, due]
      exact Nat.succ_ne_zero _
    have back : Function.update (s.tick cur).pending (s.tick cur).current
        ((s.tick cur).pending (s.tick cur).current - 1) = s.pending := by
      rw [current, due, deferred]
      change Function.update (Function.update s.pending s.current _) s.current _ = s.pending
      rw [Function.update_idem, Nat.add_sub_cancel, Function.update_eq_self]
    rw [← back] at chosen
    exact .schedule pending chosen

/-! ### Budgets -/

/-- A value of the runnable tasks of slots 1..63, and 0 for the other slots. -/
def ofRunnable (tasks : Slot → Option Process) (value : Process → Nat) (i : Slot) : Nat :=
  match tasks i with
  | some p => if i ≠ 0 ∧ p.state = taskRunning then value p else 0
  | none => 0

def slices (s : Sched) : Slot → Nat := ofRunnable s.tasks fun p => p.counter.toNat

def priorities (s : Sched) : Slot → Nat := ofRunnable s.tasks fun p => p.priority.toNat

/-- The current task is runnable and has some of its slice left, and counters and
priorities are as `fork` and the refill leave them. -/
structure Steady (s : Sched) : Prop where
  current : ∃ p, s.current ≠ 0 ∧ s.tasks s.current = some p ∧ p.state = taskRunning ∧ 0 < p.counter
  counters : ∀ i p, i ≠ 0 → s.tasks i = some p → 0 ≤ p.counter ∧ p.counter < 2 ^ 31
  priorities : ∀ i p, i ≠ 0 → s.tasks i = some p → 1 ≤ p.priority.toNat ∧ p.priority.toNat < 2 ^ 31

/-- What a quantum does not change of a task. -/
def frozen (tasks : Slot → Option Process) (i : Slot) : Option Process :=
  (tasks i).map fun p => { p with counter := 0 }

def policy : Shares.Policy Sched Slot where
  owner := Sched.current
  budget := slices
  step := Quantum

/-! ### What a quantum does -/

/-- More rounds select the same. -/
theorem choose_succ {rounds : Nat} {tasks : Slot → Option Process} {x : (Slot → Option Process) × Slot}
    (done : choose rounds tasks = some x) : choose (rounds + 1) tasks = some x := by
  induction rounds generalizing tasks with
  | zero => cases done
  | succ rounds ih =>
    rw [choose] at done ⊢
    split at done
    next stop => rw [if_pos stop, done]
    next again => rw [if_neg again, ih done]

theorem chosen_of_choose {rounds : Nat} {tasks tasks' : Slot → Option Process} {next : Slot}
    (counters : ∀ i p, i ≠ 0 → tasks i = some p → 0 ≤ p.counter)
    (priorities : ∀ i p, i ≠ 0 → tasks i = some p → 1 ≤ p.priority.toNat ∧ p.priority.toNat < 2 ^ 31)
    (done : choose rounds tasks = some (tasks', next)) : Chosen tasks tasks' next := by
  obtain ⟨left, selected, stable, chosen⟩ := choose_selects counters priorities
  have same := (choose_succ (choose_succ done)).symm.trans (stable (rounds + 2) (Nat.le_add_left 2 rounds))
  obtain ⟨rfl, rfl⟩ := Prod.mk.inj (Option.some.inj same)
  exact chosen

variable {s s' : Sched}

theorem decrement_eq {counter : Int} (positive : 0 < counter) (small : counter < 2 ^ 31) :
    decrement counter = counter - 1 := by
  rw [decrement]
  exact Int.bmod_eq_of_le (by omega) (by omega)

/-- The tasks after the current one has paid for a tick. -/
def afterTick (s : Sched) (cur : Process) : Slot → Option Process :=
  Function.update s.tasks s.current (some { cur with counter := cur.counter - 1 })

/-- A task of the table is the one that has paid, or as it was. -/
theorem afterTick_cases {cur q : Process} {i : Slot} (here : s.afterTick cur i = some q) :
    i = s.current ∧ q = { cur with counter := cur.counter - 1 } ∨ s.tasks i = some q := by
  rw [afterTick, Function.update_apply] at here
  split at here
  next own => exact Or.inl ⟨own, (Option.some.inj here).symm⟩
  · exact Or.inr here

theorem afterTick_counters (steady : Steady s) {cur : Process} (live : s.tasks s.current = some cur) {i : Slot}
    {q : Process} (user : i ≠ 0) (here : s.afterTick cur i = some q) : 0 ≤ q.counter ∧ q.counter < 2 ^ 31 := by
  rcases afterTick_cases here with ⟨rfl, rfl⟩ | old
  · obtain ⟨p, _, self, _, positive⟩ := steady.current
    obtain rfl := Option.some.inj (self.symm.trans live)
    have small := (steady.counters s.current p user live).2
    change 0 ≤ p.counter - 1 ∧ p.counter - 1 < 2 ^ 31
    omega
  · exact steady.counters i q user old

theorem afterTick_priorities (steady : Steady s) {cur : Process} (live : s.tasks s.current = some cur) {i : Slot}
    {q : Process} (user : i ≠ 0) (here : s.afterTick cur i = some q) :
    1 ≤ q.priority.toNat ∧ q.priority.toNat < 2 ^ 31 := by
  rcases afterTick_cases here with ⟨rfl, rfl⟩ | old
  · exact steady.priorities _ cur user live
  · exact steady.priorities i q user old

/-- A task that has some of its slice left goes on, and otherwise `schedule` chooses. -/
theorem quantum_cases (steady : Steady s) (quantum : Quantum s s') :
    ∃ cur, s.tasks s.current = some cur ∧
      (1 < cur.counter ∧ s'.tasks = s.afterTick cur ∧ s'.current = s.current ∨
        cur.counter = 1 ∧ Chosen (s.afterTick cur) s'.tasks s'.current) := by
  obtain ⟨p, user, live, _, positive⟩ := steady.current
  have small := (steady.counters s.current p user live).2
  have paid : decrement p.counter = p.counter - 1 := decrement_eq positive small
  refine ⟨p, live, ?_⟩
  cases quantum with
  | runs self left =>
    obtain rfl := Option.some.inj (self.symm.trans live)
    refine Or.inl ⟨by omega, ?_, ?_⟩
    · rw [tick_tasks, paid, afterTick]
    · rw [tick, if_pos left]
      rfl
  | @reschedules _ cur next self used chosen =>
    obtain rfl := Option.some.inj (self.symm.trans live)
    refine Or.inr ⟨by omega, ?_⟩
    obtain ⟨rounds, tasks, picked, rfl⟩ := chosen
    rw [signalPass_tasks] at picked
    have before : (s.tick cur).tasks = s.afterTick cur := by
      rw [tick_tasks, paid, afterTick]
    rw [switchTo_tasks, switchTo_current]
    exact chosen_of_choose (fun i q other here => (afterTick_counters steady live other here).1)
      (fun i q other here => afterTick_priorities steady live other here) (before ▸ picked)

/-! ### What stays, and what is paid -/

theorem frozen_afterTick {cur : Process} (live : s.tasks s.current = some cur) :
    frozen (s.afterTick cur) = frozen s.tasks := by
  funext i
  rw [frozen, frozen, afterTick, Function.update_apply]
  split
  · subst i
    rw [live]
    rfl
  · rfl

/-- A task keeps all but its counter. -/
theorem eq_of_frozen {tasks tasks' : Slot → Option Process} (same : frozen tasks' = frozen tasks) {i : Slot}
    {p' : Process} (here : tasks' i = some p') :
    ∃ p, tasks i = some p ∧ p'.priority = p.priority ∧ p'.state = p.state := by
  have entry := congrFun same i
  rw [frozen, frozen, here] at entry
  obtain ⟨p, live, equal⟩ := Option.map_eq_some_iff.mp entry.symm
  exact ⟨p, live, (congrArg Process.priority equal).symm, (congrArg Process.state equal).symm⟩

theorem ofRunnable_congr {tasks tasks' : Slot → Option Process} (same : frozen tasks' = frozen tasks)
    {value value' : Process → Nat}
    (values : ∀ i p' p, tasks' i = some p' → tasks i = some p → i ≠ 0 → p.state = taskRunning →
      p'.priority = p.priority → value' p' = value p) :
    ofRunnable tasks' value' = ofRunnable tasks value := by
  funext i
  have entry := congrFun same i
  rw [ofRunnable, ofRunnable]
  cases here' : tasks' i with
  | none =>
    rw [frozen, frozen, here'] at entry
    rw [Option.map_eq_none_iff.mp entry.symm]
  | some p' =>
    obtain ⟨p, here, priority, state⟩ := eq_of_frozen same here'
    simp only [here, state]
    by_cases runnable : i ≠ 0 ∧ p.state = taskRunning
    · rw [if_pos runnable, if_pos runnable, values i p' p here' here runnable.1 runnable.2 priority]
    · rw [if_neg runnable, if_neg runnable]

theorem priorities_congr (same : frozen s'.tasks = frozen s.tasks) : s'.priorities = s.priorities :=
  ofRunnable_congr same fun _ _ _ _ _ _ _ priority => congrArg BitVec.toNat priority

/-- The current task pays for the tick. -/
theorem slices_afterTick {cur : Process} (user : s.current ≠ 0) (live : s.tasks s.current = some cur)
    (running : cur.state = taskRunning) (positive : 0 < cur.counter) :
    ofRunnable (s.afterTick cur) (fun p => p.counter.toNat) = policy.paid s := by
  funext i
  rw [Shares.Policy.paid, Function.update_apply]
  change _ = if i = s.current then s.slices s.current - 1 else s.slices i
  by_cases own : i = s.current
  · subst own
    simp only [ofRunnable, afterTick, slices, Function.update_self, live, user, running, ne_eq,
      not_false_eq_true, and_self, if_true]
    omega
  · simp only [ofRunnable, afterTick, slices, Function.update_of_ne own, if_neg own]

/-- A unit of the budgets belongs to a runnable task. -/
theorem runnable_of_slice {tasks : Slot → Option Process} {i : Slot}
    (some_left : ofRunnable tasks (fun p => p.counter.toNat) i ≠ 0) :
    ∃ p, i ≠ 0 ∧ tasks i = some p ∧ p.state = taskRunning ∧ 0 < p.counter := by
  rw [ofRunnable] at some_left
  split at some_left
  next p here =>
    by_cases runnable : i ≠ 0 ∧ p.state = taskRunning
    · rw [if_pos runnable] at some_left
      exact ⟨p, runnable.1, here, runnable.2, by omega⟩
    · rw [if_neg runnable] at some_left
      exact absurd rfl some_left
  next => exact absurd rfl some_left

/-- Steady states with the same tasks but for their counters. -/
def SteadyAs (s₀ s : Sched) : Prop := Steady s ∧ frozen s.tasks = frozen s₀.tasks

variable {s₀ : Sched}

theorem frozen_quantum (steady : Steady s) (quantum : Quantum s s') : frozen s'.tasks = frozen s.tasks := by
  obtain ⟨cur, live, ⟨_, tasks, _⟩ | ⟨_, chosen⟩⟩ := quantum_cases steady quantum
  · rw [tasks, frozen_afterTick live]
  · rw [← frozen_afterTick live]
    funext i
    exact chosen.rest.2 i

/-- The budgets after a quantum, and the task that has the next one. -/
theorem quantum_spec (steady : Steady s) (quantum : Quantum s s') :
    s'.slices = (if policy.paid s = 0 then s.priorities else policy.paid s) ∧
      ∃ p, s'.current ≠ 0 ∧ s'.tasks s'.current = some p ∧ p.state = taskRunning ∧ 0 < p.counter := by
  obtain ⟨cur, user, live, running, positive⟩ := steady.current
  have same := frozen_quantum steady quantum
  have paid := slices_afterTick user live running positive
  obtain ⟨cur', live', rest⟩ := quantum_cases steady quantum
  obtain rfl := Option.some.inj (live.symm.trans live')
  have own : s.afterTick cur s.current = some { cur with counter := cur.counter - 1 } :=
    Function.update_self _ _ _
  rcases rest with ⟨more, tasks, current⟩ | ⟨last, chosen⟩
  · have unpaid : policy.paid s ≠ 0 := by
      intro none
      have here := congrFun none s.current
      rw [← paid, ofRunnable, own] at here
      simp only [user, running, ne_eq, not_false_eq_true, and_self, if_true, Pi.zero_apply] at here
      omega
    refine ⟨?_, ?_⟩
    · rw [if_neg unpaid, ← paid, slices, tasks]
    · rw [current, tasks, own]
      refine ⟨_, user, rfl, running, ?_⟩
      change 0 < cur.counter - 1
      omega
  · have runnable : ∃ i p, i ≠ 0 ∧ s.afterTick cur i = some p ∧ p.state = taskRunning :=
      ⟨s.current, _, user, own, running⟩
    have first := chosen.first runnable
    obtain ⟨next, here, runs, best⟩ := first.best
    by_cases none : policy.paid s = 0
    · -- every slice is used up, and all are filled again
      have spent : ∀ i p, i ≠ 0 → s.afterTick cur i = some p → p.state = taskRunning → p.counter ≤ 0 := by
        intro i p other found state
        have zero := congrFun none i
        rw [← paid, ofRunnable, found] at zero
        simp only [other, state, ne_eq, not_false_eq_true, and_self, if_true, Pi.zero_apply] at zero
        omega
      have refilled := chosen.refilled runnable spent
      refine ⟨?_, next, first.user, here, runs, ?_⟩
      · rw [if_pos none]
        refine ofRunnable_congr same ?_
        intro i p' p found' found other state priority
        rw [refilled i other] at found'
        obtain ⟨q, _, rfl⟩ := Option.map_eq_some_iff.mp found'
        exact congrArg BitVec.toNat priority
      · rw [refilled _ first.user] at here
        obtain ⟨q, old, rfl⟩ := Option.map_eq_some_iff.mp here
        obtain ⟨p, before, priority, _⟩ := eq_of_frozen (frozen_afterTick live) old
        have least := (steady.priorities _ p first.user before).1
        rw [← priority] at least
        exact Int.natCast_pos.mpr least
    · obtain ⟨i, left⟩ : ∃ i, policy.paid s i ≠ 0 := Function.ne_iff.mp none
      rw [← paid] at left
      obtain ⟨p, other, found, state, some_left⟩ := runnable_of_slice left
      have kept := chosen.current ⟨i, p, other, found, state, some_left⟩
      refine ⟨?_, next, first.user, here, runs, ?_⟩
      · rw [if_neg none, ← paid, slices, kept]
      · have above := (best i p other (by rw [kept]; exact found) state).1
        omega

theorem counters_quantum (steady : Steady s) (quantum : Quantum s s') {i : Slot} {p' : Process} (user : i ≠ 0)
    (here : s'.tasks i = some p') : 0 ≤ p'.counter ∧ p'.counter < 2 ^ 31 := by
  obtain ⟨cur, own, live, running, positive⟩ := steady.current
  obtain ⟨cur', live', rest⟩ := quantum_cases steady quantum
  obtain rfl := Option.some.inj (live.symm.trans live')
  rcases rest with ⟨_, tasks, _⟩ | ⟨_, chosen⟩
  · rw [tasks] at here
    exact afterTick_counters steady live user here
  · by_cases left : ∃ i p, i ≠ 0 ∧ s.afterTick cur i = some p ∧ p.state = taskRunning ∧ 0 < p.counter
    · rw [chosen.current left] at here
      exact afterTick_counters steady live user here
    · have runnable : ∃ i p, i ≠ 0 ∧ s.afterTick cur i = some p ∧ p.state = taskRunning :=
        ⟨s.current, _, own, Function.update_self _ _ _, running⟩
      have spent : ∀ i p, i ≠ 0 → s.afterTick cur i = some p → p.state = taskRunning → p.counter ≤ 0 := by
        intro j p other found state
        by_contra positive
        exact left ⟨j, p, other, found, state, not_le.mp positive⟩
      rw [chosen.refilled runnable spent i user] at here
      obtain ⟨q, old, rfl⟩ := Option.map_eq_some_iff.mp here
      have small := (afterTick_priorities steady live user old).2
      change 0 ≤ (q.priority.toNat : Int) ∧ (q.priority.toNat : Int) < 2 ^ 31
      omega

theorem steady_quantum (steady : Steady s) (quantum : Quantum s s') : Steady s' where
  current := (quantum_spec steady quantum).2
  counters i p user here := counters_quantum steady quantum user here
  priorities i p user here := by
    obtain ⟨q, before, priority, _⟩ := eq_of_frozen (frozen_quantum steady quantum) here
    rw [priority]
    exact steady.priorities i q user before

theorem obeys (s₀ : Sched) : Shares.Obeys policy s₀.priorities (SteadyAs s₀) where
  funded s steady := by
    obtain ⟨p, user, live, running, positive⟩ := steady.1.current
    change 0 < s.slices s.current
    simp only [slices, ofRunnable, live, user, running, ne_eq, not_false_eq_true, and_self, if_true]
    omega
  kept s s' steady quantum :=
    ⟨steady_quantum steady.1 quantum, (frozen_quantum steady.1 quantum).trans steady.2⟩
  spent s s' steady quantum := by
    rw [← priorities_congr steady.2]
    exact (quantum_spec steady.1 quantum).1

/-- The clock always gets to the next quantum. -/
theorem exists_quantum (steady : Steady s) : ∃ s', Quantum s s' := by
  obtain ⟨cur, user, live, running, positive⟩ := steady.current
  by_cases left : 0 < decrement cur.counter
  · exact ⟨_, .runs live left⟩
  · obtain ⟨tasks, next, stable, _⟩ := choose_selects
      (fun i q other here => (afterTick_counters steady live other here).1)
      (fun i q other here => afterTick_priorities steady live other here)
    have before : (s.tick cur).tasks = s.afterTick cur := by
      rw [tick_tasks, decrement_eq positive (steady.counters s.current cur user live).2, afterTick]
    have chosen : ∃ s', Schedules { s.tick cur with pending := s.pending } next s' := by
      refine ⟨_, 2, tasks, ?_, rfl⟩
      rw [signalPass_tasks]
      change choose 2 (s.tick cur).tasks = some (tasks, next)
      rw [before]
      exact stable 2 le_rfl
    obtain ⟨s', scheduled⟩ := chosen
    exact ⟨s', .reschedules live left scheduled⟩

theorem exists_run (steady : Steady s) (n : Nat) :
    ∃ charged s', Shares.Run policy n s charged s' ∧ Steady s' := by
  induction n with
  | zero => exact ⟨_, s, .nil s, steady⟩
  | succ n ih =>
    obtain ⟨charged, t, run, kept⟩ := ih
    obtain ⟨u, quantum⟩ := exists_quantum kept
    exact ⟨_, u, run.snoc quantum, steady_quantum kept quantum⟩

/-- From any steady state: after as many ticks as the runnable tasks have left in their counters, and
`k` times the sum of their priorities, each of them has had its counter and `k` times its priority of
these ticks, the other tasks had none, and all counters are full again. -/
theorem charged_counters (steady : Steady s) (k : Nat) :
    (∃ charged s', Shares.Run policy (∑ i, s.slices i + k * ∑ i, s.priorities i) s charged s') ∧
      ∀ charged s', Shares.Run policy (∑ i, s.slices i + k * ∑ i, s.priorities i) s charged s' →
        (∀ i, charged i = s.slices i + k * s.priorities i) ∧ s'.slices = s.priorities := by
  constructor
  · obtain ⟨charged, t, run, _⟩ := exists_run steady (∑ i, s.slices i + k * ∑ i, s.priorities i)
    exact ⟨charged, t, run⟩
  · intro charged s' run
    exact Shares.charged_eq (obeys s) ⟨steady, rfl⟩ k run

/-- The states of the scheduler's own runs are steady while a task of slots 1..63 runs with some of
its slice left. -/
theorem Sliced.steady (sliced : Sliced s)
    (current : ∃ p, s.current ≠ 0 ∧ s.tasks s.current = some p ∧ p.state = taskRunning ∧ 0 < p.counter) :
    Steady s where
  current := current
  counters i p user live := by
    have slice := sliced.counter i p user live
    omega
  priorities i p _ live := by
    rw [sliced.priority i p live]
    decide

/-- Two runnable tasks, of which the second has two ticks left. -/
def twoTasks : Sched where
  tasks i :=
    if i = 1 then some (initTask 0)
    else if i = 2 then some { initTask 0 with counter := 2 }
    else none
  current := 1
  atNull := initTask 0
  ticks := 0
  pending _ := 0

theorem sliced_twoTasks : Sliced twoTasks := by
  have tasks : ∀ i p, twoTasks.tasks i = some p → p = initTask 0 ∨ p = { initTask 0 with counter := 2 } := by
    intro i p live
    simp only [twoTasks] at live
    split at live
    · exact Or.inl (Option.some.inj live).symm
    · split at live
      · exact Or.inr (Option.some.inj live).symm
      · cases live
  constructor
  · intro i p live
    rcases tasks i p live with rfl | rfl <;> rfl
  · intro i p _ live
    rcases tasks i p live with rfl | rfl <;> decide

theorem charged_counters_twoTasks :
    (∃ charged s', Shares.Run policy (∑ i, twoTasks.slices i + 3 * ∑ i, twoTasks.priorities i) twoTasks charged s') ∧
      ∀ charged s', Shares.Run policy (∑ i, twoTasks.slices i + 3 * ∑ i, twoTasks.priorities i) twoTasks charged s' →
        (∀ i, charged i = twoTasks.slices i + 3 * twoTasks.priorities i) ∧ s'.slices = twoTasks.priorities :=
  charged_counters (sliced_twoTasks.steady ⟨initTask 0, by decide, rfl, rfl, by decide⟩) 3

end Sched

end OperatorSystem.Kernel
