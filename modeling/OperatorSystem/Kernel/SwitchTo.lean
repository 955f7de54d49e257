import OperatorSystem.Kernel.Schedule

/-!
# Ticks during a task switch (`SWITCH_TO` in `krn.asm`)

`hwint_master` enables interrupts before it calls `timerHandler`, so a tick can
interrupt the handler of an earlier one, on the same kernel stack. `SWITCH_TO`
stores into `CURRENT` a few instructions before its far jump loads the task
register, and a tick in between finds the two apart. The main result
`consistent_iff` says that nothing goes wrong in a run if and only if no tick
that comes at this point gets as far as the comparison of its own `SWITCH_TO`.
-/

namespace OperatorSystem.Kernel

/-- How far an activation of `timerHandler` and `schedule` has come. The loops
keep the slots they still have to visit. -/
inductive Frame
  /-- `timerHandler`, before it decrements the counter. -/
  | entered
  | signals (rest : List Slot)
  | selecting (rest : List Slot) (best : Int × Slot)
  | refilling (rest : List Slot)
  /-- `SWITCH_TO`, before `cmp`. -/
  | comparing (next : Slot)
  /-- before `xchg` -/
  | exchanging (next : Slot)
  /-- between `xchg` and the far jump -/
  | jumping (next : Slot)
  | returning
  deriving DecidableEq

/-- The tasks with the task register and their kernel stacks. The field
`pending` of the scheduler is not used: the stacks say what is pending. -/
structure Machine where
  sched : Sched
  /-- The task whose TSS is loaded. -/
  tr : Slot
  /-- The activations on the kernel stack of each task, the innermost first. -/
  frames : Slot → List Frame

namespace Machine

/-- The kernel stack in use. -/
def stack (s : Machine) : List Frame := s.frames s.tr

def setStack (s : Machine) (frames : List Frame) : Machine :=
  { s with frames := Function.update s.frames s.tr frames }

/-! ### The steps of an activation -/

/-- `TICKS++; --CURRENT->counter`, and whether the slice is used up. -/
def countDown (s : Sched) (cur : Process) : Sched × Bool :=
  let counter := Sched.decrement cur.counter
  ({ s with ticks := s.ticks + 1 }.setTask s.current { cur with counter }, ¬ counter > 0)

/-- One round of the loop that refills the counters. -/
def refillStep (s : Sched) (i : Slot) : Sched :=
  { s with
    tasks := Function.update s.tasks i ((s.tasks i).map fun p => { p with counter := p.priority.toInt }) }

/-- The next step of the innermost activation. The task's own code is not
modelled, and a jump to the loaded TSS faults. -/
def exec (s : Machine) : Option Machine :=
  match s.stack with
  | [] => none
  | .entered :: below => do
    let cur ← s.sched.tasks s.sched.current
    let r := countDown s.sched cur
    return { s with sched := r.1 }.setStack ((if r.2 then .signals userSlots else .returning) :: below)
  | .signals (i :: rest) :: below =>
    some ({ s with sched := signalStep s.sched i }.setStack (.signals rest :: below))
  | .signals [] :: below => some (s.setStack (.selecting userSlots (-1, 0) :: below))
  | .selecting (i :: rest) best :: below =>
    some (s.setStack (.selecting rest (selectStep s.sched.tasks best i) :: below))
  | .selecting [] best :: below =>
    some (s.setStack ((if best.1 ≠ 0 then .comparing best.2 else .refilling userSlots) :: below))
  | .refilling (i :: rest) :: below =>
    some ({ s with sched := refillStep s.sched i }.setStack (.refilling rest :: below))
  | .refilling [] :: below => some (s.setStack (.selecting userSlots (-1, 0) :: below))
  | .comparing next :: below =>
    some (s.setStack ((if s.sched.current = next then .returning else .exchanging next) :: below))
  | .exchanging next :: below =>
    some ({ s with sched := { s.sched with current := next } }.setStack (.jumping next :: below))
  | .jumping next :: below =>
    if next = s.tr then none else some { s.setStack (.returning :: below) with tr := next }
  | .returning :: below => some (s.setStack below)

inductive Event
  | tick
  | exec
  /-- The running task calls `schedule` itself. -/
  | call
  /-- Other kernel code changes the tasks. -/
  | other

inductive Step : Machine → Event → Machine → Prop
  | tick {s : Machine} : Step s .tick (s.setStack (.entered :: s.stack))
  | exec {s s' : Machine} (done : s.exec = some s') : Step s .exec s'
  /-- The processor faults, and nothing is known of what follows. -/
  | fault {s s' : Machine} {below : List Frame} (busy : s.stack = .jumping s.tr :: below) : Step s .exec s'
  | call {s : Machine} (idle : s.stack = []) : Step s .call (s.setStack [.signals userSlots])
  | other {s : Machine} {sched : Sched} (current : sched.current = s.sched.current) :
      Step s .other { s with sched }

/-- Runs start in a task, with no activation on any stack. -/
def system : Transition.System Machine Event where
  init s := s.sched.current = s.tr ∧ ∀ i, s.frames i = []
  step := Step

/-- `SWITCH_TO` compares with the task whose TSS is loaded, and does not jump to that TSS. -/
def Consistent (x : Machine × Event) : Prop :=
  x.2 = .exec →
    (∀ next below, x.1.stack = .comparing next :: below → x.1.sched.current = x.1.tr) ∧
    ∀ next below, x.1.stack = .jumping next :: below → next ≠ x.1.tr

/-- An activation makes its comparison only if no activation that it has
interrupted is between `xchg` and the far jump. -/
def Undisturbed (x : Machine × Event) : Prop :=
  x.2 = .exec → ∀ next below, x.1.stack = .comparing next :: below → ∀ n, .jumping n ∉ below

/-! ### The invariant -/

/-- The targets of the activations between `xchg` and the far jump. -/
def windows : List Frame → List Slot
  | [] => []
  | .jumping next :: below => next :: windows below
  | _ :: below => windows below

/-- An activation that has made its comparison has not interrupted another one
between `xchg` and the far jump. -/
def Ordered : List Frame → Prop
  | [] => True
  | .exchanging _ :: below => windows below = [] ∧ Ordered below
  | .jumping _ :: below => windows below = [] ∧ Ordered below
  | _ :: below => Ordered below

structure Sound (s : Machine) : Prop where
  ordered : ∀ i, Ordered (s.frames i)
  elsewhere : ∀ i, i ≠ s.tr → windows (s.frames i) = []
  /-- A task exchanges `CURRENT` only for another task. -/
  other : ∀ i next, .exchanging next ∈ s.frames i → next ≠ i
  agree : windows s.stack = [] ∧ s.sched.current = s.tr ∨
    ∃ next, windows s.stack = [next] ∧ s.sched.current = next ∧ next ≠ s.tr

section Windows

variable {f : Frame} {below : List Frame} {n : Slot}

theorem mem_windows {frames : List Frame} : n ∈ windows frames ↔ .jumping n ∈ frames := by
  induction frames with
  | nil => simp [windows]
  | cons f below ih => cases f <;> simp [windows, ih]

theorem windows_cons (plain : ∀ n, f ≠ .jumping n) : windows (f :: below) = windows below := by
  cases f with
  | jumping n => exact absurd rfl (plain n)
  | _ => rfl

theorem ordered_tail (ordered : Ordered (f :: below)) : Ordered below := by
  cases f with
  | exchanging => exact ordered.2
  | jumping => exact ordered.2
  | _ => exact ordered

theorem ordered_cons (plain : ∀ n, f ≠ .jumping n ∧ f ≠ .exchanging n) (ordered : Ordered below) :
    Ordered (f :: below) := by
  cases f with
  | exchanging n => exact absurd rfl (plain n).2
  | jumping n => exact absurd rfl (plain n).1
  | _ => exact ordered

end Windows

section Preserved

variable {s s' : Machine} {sched : Sched} {f f' : Frame} {below frames : List Frame}

@[simp] theorem setStack_stack : (s.setStack frames).stack = frames := by simp [setStack, stack]

/-- The activations of the running task change, but not what is between `xchg` and the far jump. -/
theorem Sound.setStack (sound : Sound s) (current : sched.current = s.sched.current)
    (ordered : Ordered frames) (same : windows frames = windows s.stack)
    (other : ∀ next, .exchanging next ∈ frames → next ≠ s.tr) :
    Sound ({ s with sched }.setStack frames) := by
  constructor
  · intro i
    by_cases here : i = s.tr
    · simp [Machine.setStack, here, ordered]
    · simp [Machine.setStack, here, sound.ordered i]
  · intro i away
    have apart : i ≠ s.tr := away
    simp [Machine.setStack, apart, sound.elsewhere i apart]
  · intro i next member
    by_cases here : i = s.tr
    · subst here
      exact other next (by simpa [Machine.setStack] using member)
    · exact sound.other i next (by simpa [Machine.setStack, here] using member)
  · rw [setStack_stack, same]
    change _ ∧ sched.current = _ ∨ ∃ next, _ ∧ sched.current = _ ∧ _
    rw [current]
    exact sound.agree

/-- A new activation, or the next stage of one that is not yet past its comparison. -/
theorem Sound.push (sound : Sound s) (current : sched.current = s.sched.current)
    (ordered : Ordered below) (same : windows below = windows s.stack)
    (older : ∀ f ∈ below, f ∈ s.stack) (plain : ∀ n, f' ≠ .jumping n ∧ f' ≠ .exchanging n) :
    Sound ({ s with sched }.setStack (f' :: below)) := by
  apply sound.setStack current
  · exact ordered_cons plain ordered
  · rw [windows_cons fun n => (plain n).1, same]
  · intro next member
    rcases List.mem_cons.mp member with equal | old
    · exact absurd equal.symm (plain next).2
    · exact sound.other s.tr next (older _ old)

theorem Sound.advance (sound : Sound s) (top : s.stack = f :: below)
    (current : sched.current = s.sched.current) (before : ∀ n, f ≠ .jumping n)
    (plain : ∀ n, f' ≠ .jumping n ∧ f' ≠ .exchanging n) :
    Sound ({ s with sched }.setStack (f' :: below)) := by
  have ordered : Ordered (f :: below) := top ▸ sound.ordered s.tr
  apply sound.push current (ordered_tail ordered) _ _ plain
  · rw [top, windows_cons before]
  · intro g old
    rw [top]
    exact List.mem_cons_of_mem f old

theorem signalStep_current (i : Slot) : (signalStep sched i).current = sched.current := by
  unfold signalStep
  split
  · rfl
  · split <;> rfl

/-- The comparison, when nothing below it is between `xchg` and the far jump. -/
theorem Sound.compare {next : Slot} (sound : Sound s) (top : s.stack = .comparing next :: below)
    (calm : ∀ n, .jumping n ∉ below) :
    Sound (s.setStack ((if s.sched.current = next then .returning else .exchanging next) :: below)) := by
  -- no switch is under way while the task still compares
  have none : windows below = [] := by
    apply List.eq_nil_iff_forall_not_mem.mpr
    intro n member
    exact calm n (mem_windows.mp member)
  have whole : windows s.stack = [] := by
    rw [top]
    exact none
  have ordered : Ordered below := ordered_tail (f := .comparing next) (top ▸ sound.ordered s.tr)
  split
  · exact sound.advance top rfl (by simp) (by simp)
  next different =>
    apply sound.setStack rfl
    · exact ⟨none, ordered⟩
    · exact none.trans whole.symm
    · intro n member
      rcases List.mem_cons.mp member with equal | old
      · obtain rfl := Frame.exchanging.inj equal
        rcases sound.agree with ⟨_, current⟩ | ⟨m, here, _⟩
        · rw [← current]
          exact Ne.symm different
        · rw [whole] at here
          cases here
      · apply sound.other s.tr n
        change _ ∈ s.stack
        rw [top]
        exact List.mem_cons_of_mem _ old

theorem Sound.exchange {next : Slot} (sound : Sound s) (top : s.stack = .exchanging next :: below) :
    Sound ({ s with sched := { s.sched with current := next } }.setStack (.jumping next :: below)) := by
  have whole : Ordered (.exchanging next :: below) := top ▸ sound.ordered s.tr
  obtain ⟨none, ordered⟩ := whole
  have here : Frame.exchanging next ∈ s.stack := by
    rw [top]
    exact List.mem_cons_self
  constructor
  · intro i
    by_cases same : i = s.tr
    · simp only [Machine.setStack, same, Function.update_self]
      exact ⟨none, ordered⟩
    · simp [Machine.setStack, same, sound.ordered i]
  · intro i away
    have apart : i ≠ s.tr := away
    simp [Machine.setStack, apart, sound.elsewhere i apart]
  · intro i n member
    by_cases same : i = s.tr
    · subst same
      apply sound.other s.tr n
      change _ ∈ s.stack
      rw [top]
      simp only [Machine.setStack, Function.update_self, List.mem_cons, reduceCtorEq, false_or] at member
      exact List.mem_cons_of_mem _ member
    · exact sound.other i n (by simpa [Machine.setStack, same] using member)
  · right
    refine ⟨next, ?_, rfl, sound.other s.tr next here⟩
    rw [setStack_stack, windows, none]

/-- What is on the stack when the far jump is due. -/
theorem Sound.at_jump {next : Slot} (sound : Sound s) (top : s.stack = .jumping next :: below) :
    windows below = [] ∧ Ordered below ∧ s.sched.current = next ∧ next ≠ s.tr := by
  have whole : Ordered (.jumping next :: below) := top ▸ sound.ordered s.tr
  obtain ⟨none, ordered⟩ := whole
  refine ⟨none, ordered, ?_⟩
  have whole : windows s.stack = [next] := by rw [top, windows, none]
  rcases sound.agree with ⟨empty, _⟩ | ⟨n, same, current, apart⟩
  · rw [whole] at empty
    cases empty
  · obtain rfl : next = n := by simpa [whole] using same
    exact ⟨current, apart⟩

theorem Sound.jump {next : Slot} (sound : Sound s) (top : s.stack = .jumping next :: below) :
    Sound { s.setStack (.returning :: below) with tr := next } := by
  obtain ⟨none, ordered, current, apart⟩ := sound.at_jump top
  have suspended : windows (Frame.returning :: below) = [] := none
  constructor
  · intro i
    by_cases same : i = s.tr
    · simp only [Machine.setStack, same, Function.update_self]
      exact ordered
    · simp [Machine.setStack, same, sound.ordered i]
  · intro i _
    by_cases same : i = s.tr
    · simp [Machine.setStack, same, suspended]
    · simp [Machine.setStack, same, sound.elsewhere i same]
  · intro i n member
    by_cases same : i = s.tr
    · subst same
      apply sound.other s.tr n
      change _ ∈ s.stack
      rw [top]
      simp only [Machine.setStack, Function.update_self, List.mem_cons, reduceCtorEq, false_or] at member
      exact List.mem_cons_of_mem _ member
    · exact sound.other i n (by simpa [Machine.setStack, same] using member)
  · left
    refine ⟨?_, current⟩
    simp [stack, Machine.setStack, apart, sound.elsewhere next apart]

theorem Sound.exec (sound : Sound s) (done : s.exec = some s') (undisturbed : Undisturbed (s, .exec)) :
    Sound s' := by
  unfold Machine.exec at done
  -- one case for each statement; only compare, exchange and jump need more than the frames below
  split at done
  · cases done
  next below top =>
    obtain ⟨cur, _, result⟩ := Option.bind_eq_some_iff.mp done
    obtain rfl := Option.some.inj result
    have current : (countDown s.sched cur).1.current = s.sched.current := rfl
    apply sound.advance top current (by simp)
    intro n
    split <;> simp
  next i rest below top =>
    obtain rfl := Option.some.inj done
    exact sound.advance top (signalStep_current i) (by simp) (by simp)
  next below top =>
    obtain rfl := Option.some.inj done
    exact sound.advance top rfl (by simp) (by simp)
  next i rest best below top =>
    obtain rfl := Option.some.inj done
    exact sound.advance top rfl (by simp) (by simp)
  next best below top =>
    obtain rfl := Option.some.inj done
    apply sound.advance top rfl (by simp)
    intro n
    split <;> simp
  next i rest below top =>
    obtain rfl := Option.some.inj done
    exact sound.advance top rfl (by simp) (by simp)
  next below top =>
    obtain rfl := Option.some.inj done
    exact sound.advance top rfl (by simp) (by simp)
  next next below top =>
    obtain rfl := Option.some.inj done
    exact sound.compare top (undisturbed rfl next below top)
  next next below top =>
    obtain rfl := Option.some.inj done
    exact sound.exchange top
  next next below top =>
    split at done
    · cases done
    · obtain rfl := Option.some.inj done
      exact sound.jump top
  next below top =>
    obtain rfl := Option.some.inj done
    apply sound.setStack rfl
    · exact ordered_tail (f := .returning) (top ▸ sound.ordered s.tr)
    · rw [top]
      rfl
    · intro next old
      apply sound.other s.tr next
      change _ ∈ s.stack
      rw [top]
      exact List.mem_cons_of_mem _ old

end Preserved

/-! ### Runs -/

theorem sound_of_init {s : Machine} (init : system.init s) : Sound s := by
  obtain ⟨current, empty⟩ := init
  constructor
  · intro i
    simp [empty, Ordered]
  · intro i _
    simp [empty, windows]
  · intro i next member
    simp [empty] at member
  · left
    simp [stack, empty, windows, current]

theorem Sound.step {s s' : Machine} {e : Event} (sound : Sound s) (taken : Step s e s')
    (undisturbed : Undisturbed (s, e)) : Sound s' := by
  cases taken with
  | tick => exact sound.push rfl (sound.ordered s.tr) rfl (fun _ old => old) (by simp)
  | exec done => exact sound.exec done undisturbed
  | fault busy => exact absurd rfl (sound.at_jump busy).2.2.2
  | call idle =>
    have empty : windows [] = windows s.stack := by rw [idle]
    exact sound.push rfl (show Ordered [] from trivial) empty (by simp) (by simp)
  | other current =>
    refine ⟨sound.ordered, sound.elsewhere, sound.other, ?_⟩
    rw [current]
    exact sound.agree

/-- An activation compares with the loaded task exactly if it has interrupted
nothing between `xchg` and the far jump. -/
theorem Sound.compares_iff {s : Machine} (sound : Sound s) (e : Event) :
    Consistent (s, e) ↔ Undisturbed (s, e) := by
  constructor
  · intro consistent taken next below top n window
    have current := (consistent taken).1 next below top
    -- without an open window `current` is the running task
    rcases sound.agree with ⟨none, _⟩ | ⟨m, _, current', apart⟩
    · have member : n ∈ windows s.stack := by
        rw [mem_windows, show s.stack = _ from top]
        exact List.mem_cons_of_mem _ window
      rw [none] at member
      cases member
    · exact apart (current'.symm.trans current)
  · intro undisturbed taken
    constructor
    · intro next below top
      rcases sound.agree with ⟨_, current⟩ | ⟨m, window, _⟩
      · exact current
      · have member : m ∈ windows s.stack := by simp [window]
        rw [mem_windows, show s.stack = _ from top] at member
        rcases List.mem_cons.mp member with equal | old
        · cases equal
        · exact absurd old (undisturbed taken next below top m)
    · intro next below top
      exact (sound.at_jump top).2.2.2

/-- In every run, `SWITCH_TO` always compares with the task whose TSS is loaded
and never jumps to that TSS, if and only if no activation that has interrupted
another one between `xchg` and the far jump gets as far as its comparison. -/
theorem consistent_iff {hist : List (Machine × Event)} {s : Machine}
    (run : Transition.Run system hist s) :
    (∀ x ∈ hist, Consistent x) ↔ ∀ x ∈ hist, Undisturbed x := by
  apply run.steps_iff (I := Sound) (fun _ => sound_of_init) (fun _ _ _ => Sound.step)
  intro s e _ sound _
  exact sound.compares_iff e

/-! ### A tick between `xchg` and the far jump -/

/-- Some steps of the activations on the kernel stack in use. -/
def execs : Nat → Machine → Option Machine
  | 0, s => some s
  | n + 1, s => s.exec.bind (execs n)

theorem run_execs {n : Nat} {hist : List (Machine × Event)} {s s' : Machine}
    (run : Transition.Run system hist s) (done : execs n s = some s') :
    ∃ hist', Transition.Run system hist' s' := by
  induction n generalizing hist s with
  | zero =>
    obtain rfl := Option.some.inj done
    exact ⟨hist, run⟩
  | succ n ih =>
    obtain ⟨s₁, first, rest⟩ := Option.bind_eq_some_iff.mp done
    exact ih (.step run (.exec first)) rest

/-- The tasks 0, 1 and 2 are runnable, and 1 runs. Both 1 and 2 have one tick left. -/
def twoTasks : Machine where
  sched :=
    { tasks := fun i => if i ≤ 2 then some { initTask 0 with counter := 1 } else none
      current := 1
      atNull := initTask 0
      ticks := 0
      pending := fun _ => 0 }
  tr := 1
  frames := fun _ => []

/-- A tick, and some steps of the activations. -/
def ticked (n : Nat) (s : Machine) : Option Machine := execs n (s.setStack (.entered :: s.stack))

/-- The second tick comes when the activation of the first one has stored the
task 2 into `CURRENT`, and selects the task 1, whose TSS is still loaded. -/
theorem twoTasks_jumping : ((ticked 131 twoTasks).bind (ticked 259)).map
    (fun s => (s.tr, s.sched.current, s.stack)) = some (1, 1, [.jumping 1, .jumping 2]) := by
  decide +kernel

theorem twoTasks_run : ∃ hist s, Transition.Run system hist s ∧ s.tr = 1 ∧
    s.stack = [.jumping 1, .jumping 2] := by
  obtain ⟨s, done, last⟩ := Option.map_eq_some_iff.mp twoTasks_jumping
  obtain ⟨s₁, first, second⟩ := Option.bind_eq_some_iff.mp done
  have start : Transition.Run system [] twoTasks := .init ⟨rfl, fun _ => rfl⟩
  obtain ⟨hist₁, run₁⟩ := run_execs (.step start .tick) first
  obtain ⟨hist, run⟩ := run_execs (.step run₁ .tick) second
  simp only [Prod.mk.injEq] at last
  exact ⟨hist, s, run, last.1, last.2.2⟩

theorem consistent_iff_twoTasks : ∃ hist s, Transition.Run system hist s ∧
    ((∀ x ∈ hist, Consistent x) ↔ ∀ x ∈ hist, Undisturbed x) := by
  obtain ⟨hist, s, run, _⟩ := twoTasks_run
  exact ⟨hist, s, run, consistent_iff run⟩

/-- The far jump goes to the TSS that is already loaded. -/
theorem consistent_lost : ¬ ∀ hist s, Transition.Run system hist s → ∀ x ∈ hist, Consistent x := by
  intro always
  obtain ⟨hist, s, run, loaded, top⟩ := twoTasks_run
  have busy : s.stack = .jumping s.tr :: [.jumping 2] := by rw [top, loaded]
  have faulted : Transition.Run system ((s, .exec) :: hist) s := .step run (.fault busy)
  have consistent := always _ s faulted (s, .exec) List.mem_cons_self rfl
  exact consistent.2 s.tr _ busy rfl

end Machine

end OperatorSystem.Kernel
