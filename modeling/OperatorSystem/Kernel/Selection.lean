import OperatorSystem.Kernel.Schedule

/-!
# The two loops of `schedule`: `signalPass` and `choose`

The first loop should wake the interruptible tasks that have a signal to
handle. Its guard is reversed: it dereferences exactly the NULL entries, so it
does its work only on a full table that has none to wake (`wakes_iff`). The
second loop selects as its comment says: the first of the runnable tasks with
the largest counter, after one refill if they are all used up (`choose_selects`).
-/

namespace OperatorSystem.Kernel

namespace Sched

/-! ### What the first loop is for -/

/-- Signal `nr` is pending and the task does not block it, which it cannot do
with `SIGKILL` and `SIGSTOP`. -/
def Delivers (p : Process) (nr : Nat) : Prop :=
  p.signal.getLsbD (nr - 1) = true ∧
    (nr = sigKill ∨ nr = sigStop ∨ p.blocked.getLsbD (nr - 1) = false)

instance (p : Process) (nr : Nat) : Decidable (Delivers p nr) :=
  inferInstanceAs (Decidable (_ ∧ _))

/-- An interruptible task with a signal to handle. -/
def Awaited (p : Process) : Prop :=
  p.state = taskInterruptible ∧ ∃ nr : Fin 33, nr ≠ 0 ∧ Delivers p nr

instance (p : Process) : Decidable (Awaited p) := inferInstanceAs (Decidable (_ ∧ _))

/-- Every awaited task of slots 1..63 runs, and nothing else changes. -/
def awaken (s : Sched) : Sched :=
  { s with
    tasks := fun i =>
      if i = 0 then s.tasks i
      else (s.tasks i).map fun p => if Awaited p then { p with state := taskRunning } else p }

/-- One round of the first loop, with the slots whose entry it dereferences. -/
def readStep (x : Sched × List Slot) (i : Slot) : Sched × List Slot :=
  (signalStep x.1 i, if (x.1.tasks i).isNone then x.2 ++ [i] else x.2)

def readPass (s : Sched) : Sched × List Slot := userSlots.foldl readStep (s, [])

/-- The first loop dereferences live slots only and wakes the awaited tasks. -/
def Wakes (s : Sched) : Prop :=
  (∀ i ∈ (readPass s).2, (s.tasks i).isSome) ∧ signalPass s = s.awaken

/-! ### What the first loop does -/

theorem signalStep_tasks (s : Sched) (i : Slot) : (signalStep s i).tasks = s.tasks := by
  unfold signalStep
  split
  · rfl
  · split <;> rfl

/-- The log does not disturb the loop, and holds exactly its NULL slots. -/
theorem readPass_eq (s : Sched) :
    readPass s = (signalPass s, userSlots.filter fun i => (s.tasks i).isNone) := by
  have fold : ∀ (slots log : List Slot) (t : Sched), t.tasks = s.tasks →
      slots.foldl readStep (t, log) =
        (slots.foldl signalStep t, log ++ slots.filter fun i => (s.tasks i).isNone) := by
    intro slots
    induction slots with
    | nil => simp
    | cons i rest ih =>
      intro log t same
      have after : (signalStep t i).tasks = s.tasks := by rw [signalStep_tasks, same]
      rw [List.foldl_cons, List.foldl_cons, readStep, ih _ _ after, same]
      cases entry : s.tasks i <;> simp [entry]
  exact fold userSlots [] s rfl

/-- Without NULL slots the first loop does nothing. -/
theorem signalPass_full {s : Sched} (full : ∀ i, i ≠ 0 → (s.tasks i).isSome) : signalPass s = s := by
  have fold : ∀ slots : List Slot, (∀ i ∈ slots, i ≠ 0) → slots.foldl signalStep s = s := by
    intro slots
    induction slots with
    | nil => exact fun _ => rfl
    | cons i rest ih =>
      intro user
      obtain ⟨p, live⟩ := Option.isSome_iff_exists.mp (full i (user i List.mem_cons_self))
      have kept : signalStep s i = s := by simp only [signalStep, live]
      rw [List.foldl_cons, kept]
      exact ih fun j later => user j (List.mem_cons_of_mem _ later)
  exact fold userSlots fun i => mem_userSlots.mp

theorem awaken_eq_self {s : Sched}
    (quiet : ∀ i p, i ≠ 0 → s.tasks i = some p → ¬ Awaited p) : s.awaken = s := by
  have tasks : s.awaken.tasks = s.tasks := by
    funext i
    by_cases idle : i = 0
    · simp [awaken, idle]
    · cases live : s.tasks i with
      | none => simp [awaken, live]
      | some p => simp [awaken, live, idle, quiet i p idle live]
  calc s.awaken = { s with tasks := s.awaken.tasks } := rfl
    _ = s := by rw [tasks]

/-- The first loop does what it is for exactly if every slot 1..63 holds a task
and none of these tasks is awaited. -/
theorem wakes_iff (s : Sched) :
    s.Wakes ↔ ∀ i, i ≠ 0 → ∃ p, s.tasks i = some p ∧ ¬ Awaited p := by
  constructor
  · rintro ⟨reads, pass⟩ i user
    have live : (s.tasks i).isSome := by
      by_contra null
      refine null (reads i ?_)
      rw [readPass_eq, List.mem_filter]
      exact ⟨mem_userSlots.mpr user, by simpa using null⟩
    obtain ⟨p, live⟩ := Option.isSome_iff_exists.mp live
    refine ⟨p, live, fun awaited => ?_⟩
    -- the loop leaves the task as it is, and it should run
    have same : s.tasks i = s.awaken.tasks i := by rw [← pass, signalPass_tasks]
    simp only [awaken, user, live, awaited, if_false, if_true, Option.map_some] at same
    have running : p.state = taskRunning := congrArg Process.state (Option.some.inj same)
    rw [awaited.1] at running
    exact absurd running (by decide)
  · intro full
    have live : ∀ i, i ≠ 0 → (s.tasks i).isSome := by
      intro i user
      obtain ⟨p, found, _⟩ := full i user
      simp [found]
    constructor
    · intro i read
      rw [readPass_eq, List.mem_filter] at read
      exact live i (mem_userSlots.mp read.1)
    · rw [signalPass_full live, awaken_eq_self]
      intro i p user found
      obtain ⟨q, found', calm⟩ := full i user
      obtain rfl : q = p := Option.some.inj (found'.symm.trans found)
      exact calm

/-- Task 1 sleeps with `SIGHUP` pending, slots 2..63 are free. -/
def hungUp : Sched where
  tasks i :=
    if i = 0 then some (initTask 0)
    else if i = 1 then some { initTask 0 with state := taskInterruptible, signal := signalBit 1 }
    else none
  current := 0
  atNull := initTask 0
  ticks := 0
  pending _ := 0

/-- The loop leaves task 1 asleep, and reads 62 times through NULL. -/
theorem hungUp_not_wakes : ¬ ∀ s : Sched, s.Wakes := by
  intro wakes
  obtain ⟨_, pass⟩ := wakes hungUp
  have same : hungUp.tasks 1 = hungUp.awaken.tasks 1 := by rw [← pass, signalPass_tasks]
  have states := congrArg (Option.map Process.state) same
  revert states
  decide

/-! ### The choice -/

/-- The state word of the task in a slot. -/
def stateOf (tasks : Slot → Option Process) (i : Slot) : Option Int := (tasks i).map Process.state

/-- Whatever the counters: the loop changes no state word, and selects slot 0 or
a runnable task. -/
theorem choose_states {rounds : Nat} {tasks tasks' : Slot → Option Process} {next : Slot}
    (chosen : choose rounds tasks = some (tasks', next)) :
    stateOf tasks' = stateOf tasks ∧ (next = 0 ∨ stateOf tasks next = some taskRunning) := by
  induction rounds generalizing tasks with
  | zero => cases chosen
  | succ rounds ih =>
    simp only [choose] at chosen
    split at chosen
    · obtain ⟨rfl, rfl⟩ := Prod.mk.inj (Option.some.inj chosen)
      refine ⟨rfl, ?_⟩
      obtain ⟨_, _, reached⟩ := foldl_selectStep tasks userSlots (-1, 0)
      rcases reached with start | ⟨_, _, p, live, running, _⟩
      · exact Or.inl (congrArg Prod.snd start)
      · exact Or.inr (by rw [stateOf, select, live, Option.map_some, running])
    · obtain ⟨states, picked⟩ := ih chosen
      -- a refill touches counters only
      have refilled : stateOf (refill tasks) = stateOf tasks := by
        funext i
        unfold stateOf refill
        split
        · rfl
        · rw [Option.map_map]
          rfl
      rw [refilled] at states picked
      exact ⟨states, picked⟩

theorem schedules_states {s s' : Sched} {next : Slot} (chosen : Schedules s next s') :
    s'.current = next ∧ stateOf s'.tasks = stateOf s.tasks ∧
      (next = 0 ∨ stateOf s.tasks next = some taskRunning) := by
  obtain ⟨rounds, tasks, picked, rfl⟩ := chosen
  rw [signalPass_tasks] at picked
  obtain ⟨states, running⟩ := choose_states picked
  exact ⟨switchTo_current _ next, by rw [switchTo_tasks]; exact states, running⟩

/-- `next` is the first of the runnable tasks of slots 1..63 with the largest counter. -/
structure First (tasks : Slot → Option Process) (next : Slot) : Prop where
  user : next ≠ 0
  best : ∃ p, tasks next = some p ∧ p.state = taskRunning ∧
    ∀ i q, i ≠ 0 → tasks i = some q → q.state = taskRunning →
      q.counter ≤ p.counter ∧ (q.counter = p.counter → next ≤ i)

/-- What the selection loop leaves and selects. -/
structure Chosen (tasks tasks' : Slot → Option Process) (next : Slot) : Prop where
  idle : (∀ i p, i ≠ 0 → tasks i = some p → p.state ≠ taskRunning) → next = 0 ∧ tasks' = tasks
  first : (∃ i p, i ≠ 0 ∧ tasks i = some p ∧ p.state = taskRunning) → First tasks' next
  current : (∃ i p, i ≠ 0 ∧ tasks i = some p ∧ p.state = taskRunning ∧ 0 < p.counter) →
    tasks' = tasks
  refilled : (∃ i p, i ≠ 0 ∧ tasks i = some p ∧ p.state = taskRunning) →
    (∀ i p, i ≠ 0 → tasks i = some p → p.state = taskRunning → p.counter ≤ 0) →
      ∀ i, i ≠ 0 → tasks' i = (tasks i).map fun p => { p with counter := p.priority.toNat }
  rest : tasks' 0 = tasks 0 ∧
    ∀ i, (tasks' i).map (fun p => { p with counter := 0 }) =
      (tasks i).map fun p => { p with counter := 0 }

/-- The strict comparison keeps the first of equal counters: on ascending slots
every other one with the selected counter comes later. -/
theorem foldl_selectStep_first (tasks : Slot → Option Process) (slots : List Slot)
    (ascending : slots.Pairwise (· < ·)) (best : Int × Slot) :
    slots.foldl (selectStep tasks) best = best ∨
      ∀ i ∈ slots, ∀ p, tasks i = some p → p.state = taskRunning →
        p.counter = (slots.foldl (selectStep tasks) best).1 →
          (slots.foldl (selectStep tasks) best).2 ≤ i := by
  induction slots generalizing best with
  | nil => exact Or.inl rfl
  | cons i rest ih =>
    obtain ⟨before, sorted⟩ := List.pairwise_cons.mp ascending
    rw [List.foldl_cons]
    obtain ⟨_, _, reached⟩ := foldl_selectStep tasks rest (selectStep tasks best i)
    -- a later slot takes over only with a larger counter, so among equals the first stays
    rcases reached with same | ⟨beats, member, _⟩
    · -- nothing after `i` beats it: it is `i` itself, or the start
      rw [same]
      unfold selectStep
      cases live : tasks i with
      | none => exact Or.inl rfl
      | some p =>
        by_cases better : p.state = taskRunning ∧ p.counter > best.1
        · simp only [better, and_self, if_true]
          refine Or.inr fun j later _ _ _ _ => ?_
          rcases List.mem_cons.mp later with same | later
          · exact same.ge
          · exact (before j later).le
        · simp only [better, if_false]
          exact Or.inl trivial
    · refine Or.inr fun j later p live running counter => ?_
      rcases List.mem_cons.mp later with rfl | later
      · -- `i` was passed by a larger counter
        exfalso
        have above : p.counter ≤ (selectStep tasks best j).1 := by
          simp only [selectStep, live]
          split
          · exact le_rfl
          next lower => exact not_lt.mp fun higher => lower ⟨running, higher⟩
        omega
      · rcases ih sorted (selectStep tasks best i) with same | first
        · rw [same] at beats
          exact absurd beats (lt_irrefl _)
        · exact first j later p live running counter

theorem userSlots_ascending : userSlots.Pairwise (· < ·) :=
  (List.pairwise_lt_finRange nrTasks).tail

/-- With a runnable task whose counter is not negative, the scan selects the
first with the largest counter. -/
theorem select_first {tasks : Slot → Option Process} {i : Slot} {p : Process} (user : i ≠ 0)
    (live : tasks i = some p) (running : p.state = taskRunning) (nonneg : 0 ≤ p.counter) :
    First tasks (select tasks).2 := by
  obtain ⟨above, nonzero, q, found, runs, counter⟩ := select_runnable user live running nonneg
  obtain ⟨_, bounds, _⟩ := foldl_selectStep tasks userSlots (-1, 0)
  refine ⟨nonzero, q, found, runs, fun j r other here runs' => ⟨?_, ?_⟩⟩
  · rw [counter]
    exact bounds j (mem_userSlots.mpr other) r here runs'
  · intro equal
    rcases foldl_selectStep_first tasks userSlots userSlots_ascending (-1, 0) with start | first
    · have none_beat : (select tasks).1 = -1 := congrArg Prod.fst start
      omega
    · exact first j (mem_userSlots.mpr other) r here runs' (equal.trans counter)

/-- Nothing runs: slot 0 is selected at once. -/
theorem Chosen.of_idle {tasks : Slot → Option Process}
    (idle : ∀ i p, i ≠ 0 → tasks i = some p → p.state ≠ taskRunning) : Chosen tasks tasks 0 := by
  have nobody : ¬ ∃ i p, i ≠ 0 ∧ tasks i = some p ∧ p.state = taskRunning := by
    rintro ⟨i, p, user, live, running⟩
    exact idle i p user live running
  constructor
  · exact fun _ => ⟨rfl, rfl⟩
  · exact fun runnable => absurd runnable nobody
  · exact fun _ => rfl
  · exact fun runnable => absurd runnable nobody
  · exact ⟨rfl, fun _ => rfl⟩

/-- A task with some of its slice left: no refill. -/
theorem Chosen.of_positive {tasks : Slot → Option Process} {i : Slot} {p : Process} (user : i ≠ 0)
    (live : tasks i = some p) (running : p.state = taskRunning) (positive : 0 < p.counter) :
    Chosen tasks tasks (select tasks).2 := by
  constructor
  · exact fun idle => absurd running (idle i p user live)
  · exact fun _ => select_first user live running positive.le
  · exact fun _ => rfl
  · intro _ used
    have := used i p user live running
    omega
  · exact ⟨rfl, fun _ => rfl⟩

theorem toInt_eq_toNat {priority : BitVec 32} (small : priority.toNat < 2 ^ 31) :
    priority.toInt = priority.toNat := by
  rw [BitVec.toInt_eq_toNat_cond, if_pos (by omega)]

/-- All slices are used up: one refill, after which the runnable task `i` has some left. -/
theorem Chosen.of_used {tasks : Slot → Option Process} {i : Slot} {p : Process} (user : i ≠ 0)
    (live : tasks i = some p) (running : p.state = taskRunning) (positive : 0 < p.priority.toNat)
    (small : ∀ i p, i ≠ 0 → tasks i = some p → p.priority.toNat < 2 ^ 31)
    (used : ∀ i p, i ≠ 0 → tasks i = some p → p.state = taskRunning → p.counter ≤ 0) :
    0 < (select (refill tasks)).1 ∧ Chosen tasks (refill tasks) (select (refill tasks)).2 := by
  have counter := toInt_eq_toNat (small i p user live)
  have refilled : refill tasks i = some { p with counter := p.priority.toInt } :=
    (refill_eq user).mpr ⟨p, live, rfl⟩
  have left : 0 < p.priority.toInt := by omega
  constructor
  · obtain ⟨above, _⟩ := select_runnable user refilled running left.le
    exact lt_of_lt_of_le left above
  · constructor
    · exact fun idle => absurd running (idle i p user live)
    · exact fun _ => select_first user refilled running left.le
    · rintro ⟨j, q, other, here, runs, some_left⟩
      have := used j q other here runs
      omega
    · intro _ _ j other
      simp only [refill, other, if_false]
      cases here : tasks j with
      | none => rfl
      | some q => rw [Option.map_some, Option.map_some, toInt_eq_toNat (small j q other here)]
    · refine ⟨by simp [refill], fun j => ?_⟩
      by_cases idle : j = 0
      · rw [refill, if_pos idle]
      · rw [refill, if_neg idle, Option.map_map]
        rfl

/-- The selection loop ends after at most one refill, with the first of the
runnable tasks that have the largest counter, and with slot 0 if none is runnable. -/
theorem choose_selects {tasks : Slot → Option Process}
    (counters : ∀ i p, i ≠ 0 → tasks i = some p → 0 ≤ p.counter)
    (priorities : ∀ i p, i ≠ 0 → tasks i = some p → 1 ≤ p.priority.toNat ∧ p.priority.toNat < 2 ^ 31) :
    ∃ tasks' next, (∀ rounds, 2 ≤ rounds → choose rounds tasks = some (tasks', next)) ∧
      Chosen tasks tasks' next := by
  by_cases runnable : ∃ i p, i ≠ 0 ∧ tasks i = some p ∧ p.state = taskRunning
  · obtain ⟨i, p, user, live, running⟩ := runnable
    obtain ⟨above, _, q, found, runs, counter⟩ :=
      select_runnable user live running (counters i p user live)
    -- all slices used up: they are filled again, and the second round finds a task
    by_cases used : (select tasks).1 = 0
    · have spent : ∀ j r, j ≠ 0 → tasks j = some r → r.state = taskRunning → r.counter ≤ 0 := by
        intro j r other here running'
        have := (select_runnable other here running' (counters j r other here)).1
        omega
      obtain ⟨stop, chosen⟩ := Chosen.of_used user live running (priorities i p user live).1
        (fun j r other here => (priorities j r other here).2) spent
      refine ⟨_, _, fun rounds enough => ?_, chosen⟩
      obtain ⟨rounds, rfl⟩ := Nat.exists_eq_add_of_le' enough
      simp only [choose, used, ne_eq, not_true_eq_false, if_false, stop.ne', not_false_eq_true, if_true]
    · have nonneg := counters i p user live
      have nonzero := (select_runnable user live running nonneg).2.1
      refine ⟨tasks, (select tasks).2, fun rounds enough => ?_,
        Chosen.of_positive nonzero found runs (by omega)⟩
      obtain ⟨rounds, rfl⟩ := Nat.exists_eq_add_of_le' enough
      simp only [choose, ne_eq, used, not_false_eq_true, if_true]
  · have idle : ∀ i p, i ≠ 0 → tasks i = some p → p.state ≠ taskRunning := by
      intro i p user live running
      exact runnable ⟨i, p, user, live, running⟩
    have nothing : select tasks = (-1, 0) := by
      refine select_idle fun i p user live running => ?_
      exact absurd running (idle i p user live)
    refine ⟨tasks, 0, fun rounds enough => ?_, Chosen.of_idle idle⟩
    obtain ⟨rounds, rfl⟩ := Nat.exists_eq_add_of_le' enough
    simp [choose, nothing]

theorem hungUp_user {i : Slot} {p : Process} (user : i ≠ 0) (live : hungUp.tasks i = some p) :
    p.counter = 15 ∧ p.priority = 15 := by
  by_cases one : i = 1
  · obtain rfl : _ = p := by simpa [hungUp, one] using live
    exact ⟨rfl, rfl⟩
  · simp [hungUp, user, one] at live

theorem choose_selects_hungUp :
    ∃ tasks' next, (∀ rounds, 2 ≤ rounds → choose rounds hungUp.tasks = some (tasks', next)) ∧
      Chosen hungUp.tasks tasks' next := by
  refine choose_selects (fun i p user live => ?_) fun i p user live => ?_
  · rw [(hungUp_user user live).1]
    decide
  · rw [(hungUp_user user live).2]
    decide

end Sched

end OperatorSystem.Kernel
