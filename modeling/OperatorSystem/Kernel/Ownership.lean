import Mathlib.Data.Fintype.BigOperators
import OperatorSystem.Blk.SlotOwners
import OperatorSystem.Fs.BufferOwners
import OperatorSystem.Mm.PageOwners

/-!
# What tasks own under timer preemption (`time.c`)

`timerHandler` calls `schedule` whatever it has interrupted, so a tick switches
tasks inside the kernel wherever interrupts are enabled. Pages, buffers and
request slots are all handed out by a test and a later store. The main result
says that each of them stays with one task as long as no tick comes between the
two; a tick at that place gives one page, one slot and one buffer to two tasks.
-/

namespace OperatorSystem.Kernel

open OperatorSystem.Mm OperatorSystem.Blk OperatorSystem.Fs Preemption

/-- No tick takes a task out of a window: tasks in `writeProtectPage`, in
`makeRequest` and in `getblk` then get different pages, different slots, and
buffers only for the block that they are for. -/
theorem exclusive_ownership (τ : Type) [Fintype τ] [DecidableEq τ] :
    (∀ hist (s : State (Nat → BitVec 8) Fault τ), Transition.Run (system Fault.code Fault.Start) hist s →
      (∀ x ∈ hist, Calm Fault.Window x) → Exclusive Fault.taken s.places) ∧
    (∀ hist (s : State Queue Requester τ), Transition.Run (system Requester.code Requester.Start) hist s →
      (∀ x ∈ hist, Calm Requester.Window x) → Exclusive Requester.slot s.places) ∧
    (∀ hist (s : State Cache Client τ), Transition.Run (system Client.code Client.Start) hist s →
      (∀ x ∈ hist, Calm Client.Window x) → (∀ x ∈ hist, x.2 = .exec → ¬ Client.Overflows x.1.shared x.1.place) →
      ∀ t u b dev block dev' block', (b, dev, block) ∈ (s.places t).held → (b, dev', block') ∈ (s.places u).held →
        dev = dev' ∧ block = block') :=
  ⟨fun _ _ run calm => Fault.exclusive_of_calm run calm, fun _ _ run calm => Requester.exclusive_of_calm run calm,
    fun _ _ run calm room => Client.exclusive_of_calm run calm room⟩

/-! ### Two tasks -/

/-- Two tasks write to the page that they share. -/
def writers : State (Nat → BitVec 8) Fault Bool where
  shared i := if i < 256 then 100 else if i = 256 then 2 else 0
  places _ := { pc := .printk, entry := pageAddr 256 ||| pgP ||| pgUsu, intr := false }
  running := false

/-- Two tasks read a block each, and all slots are free. -/
def readers : State Queue Requester Bool where
  shared :=
    { heads _ := ⟨0, 5, 0x300, false, false, 1, false, none, none, none, none⟩
      request _ := ⟨-1, 0, 0, 0, 0, 0, none, none⟩
      blkDev _ := ⟨true, none⟩
      waiting := []
      outstanding := ∅ }
  places t := { pc := .ahead, m := 3, rw := .read, b := headAddr (if t then 1 else 0), intr := false }
  running := false

/-- A free buffer, with the other one in the ring. -/
def freeHead (other : Addr) : BufferHead := ⟨0, 0, 0, false, false, 0, false, none, none, some other, some other⟩

/-- Two tasks ask for different blocks, and there are `n` buffers in a ring of one or two. -/
def clients (n : Nat) : State Cache Client Bool where
  shared :=
    { heads a := freeHead (if n = 2 ∧ a = headAddr 0 then headAddr 1 else headAddr 0)
      freeList := headAddr 0
      hashTable _ := none
      nrBuffers := n }
  places t := { stack := [.hash 0x300 (if t then 6 else 5)], held := [], intr := false }
  running := false

theorem start_writers : (system Fault.code Fault.Start).init writers := by
  refine ⟨fun _ => rfl, fun q => ?_⟩
  -- two tasks about to write one shared page, which has two references
  have old : ∀ t, (writers.places t).old = some 256 := by decide
  have uses : ∀ t, Fault.uses q (writers.places t) = if 256 = q then 1 else 0 := by
    intro t
    simp only [Fault.uses, old t, Option.some.injEq]
    rfl
  rw [total, Fintype.sum_bool, uses, uses]
  by_cases here : q = 256
  · subst here
    decide
  · rw [if_neg (Ne.symm here)]
    exact Nat.zero_le _

theorem start_readers : (system Requester.code Requester.Start).init readers :=
  ⟨fun _ => .inl rfl, fun r member => absurd member (Finset.notMem_empty r)⟩

theorem start_clients (n : Nat) : (system Client.code Client.Start).init (clients n) := by
  refine ⟨fun t => .inr ⟨0x300, _, rfl⟩, fun b => ?_, fun _ _ _ _ holds => absurd holds List.not_mem_nil⟩
  rw [total, Fintype.sum_bool]
  rfl

/-- Each of the tasks is preempted before its test, and they get different pages, slots and buffers. -/
theorem exclusive_ownership_two :
    (∃ hist s, Transition.Run (system Fault.code Fault.Start) hist (s : State _ _ Bool) ∧
      ((s.places false).taken, (s.places true).taken) = (some 258, some 257) ∧ Exclusive Fault.taken s.places) ∧
    (∃ hist s, Transition.Run (system Requester.code Requester.Start) hist (s : State _ _ Bool) ∧
      ((s.places false).slot, (s.places true).slot) = (some 30, some 31) ∧ Exclusive Requester.slot s.places) ∧
    (∃ hist s, Transition.Run (system Client.code Client.Start) hist (s : State _ _ Bool) ∧
      ((s.places false).held, (s.places true).held) = ([(headAddr 1, 0x300, 5)], [(headAddr 0, 0x300, 6)]) ∧
      ∀ t u b dev block dev' block', (b, dev, block) ∈ (s.places t).held → (b, dev', block') ∈ (s.places u).held →
        dev = dev' ∧ block = block') := by
  obtain ⟨pages, slots, buffers⟩ := exclusive_ownership Bool
  refine ⟨?_, ?_, ?_⟩
  · have played : ((play Fault.code [.exec 100, .tick true, .exec 262, .tick false, .exec 163] ([], writers)).map
        fun r => (((r.2.places false).taken, (r.2.places true).taken), decide (∀ x ∈ r.1, Calm Fault.Window x))) =
          some ((some 258, some 257), true) := by
      decide +kernel
    obtain ⟨⟨hist, s⟩, done, same⟩ := Option.map_eq_some_iff.mp played
    obtain ⟨taken, calm⟩ := Prod.mk.inj same
    have run := run_play (.init start_writers) done
    exact ⟨hist, s, run, taken, pages hist s run (of_decide_eq_true calm)⟩
  · have played : ((play Requester.code [.exec 3, .tick true, .exec 6, .tick false, .exec 3] ([], readers)).map
        fun r => (((r.2.places false).slot, (r.2.places true).slot), decide (∀ x ∈ r.1, Calm Requester.Window x))) =
          some ((some 30, some 31), true) := by
      decide +kernel
    obtain ⟨⟨hist, s⟩, done, same⟩ := Option.map_eq_some_iff.mp played
    obtain ⟨taken, calm⟩ := Prod.mk.inj same
    have run := run_play (.init start_readers) done
    exact ⟨hist, s, run, taken, slots hist s run (of_decide_eq_true calm)⟩
  · have played : ((play Client.code [.exec 6, .tick true, .exec 33, .tick false, .exec 34] ([], clients 2)).map
        fun r => (decide ((r.2.places false).held = [(headAddr 1, 0x300, 5)] ∧
          (r.2.places true).held = [(headAddr 0, 0x300, 6)]), decide (∀ x ∈ r.1,
            Calm Client.Window x ∧ (x.2 = .exec → ¬ Client.Overflows x.1.shared x.1.place)))) = some (true, true) := by
      decide +kernel
    obtain ⟨⟨hist, s⟩, done, same⟩ := Option.map_eq_some_iff.mp played
    obtain ⟨both, met⟩ := Prod.mk.inj same
    obtain ⟨left, right⟩ := of_decide_eq_true both
    have guarded := of_decide_eq_true met
    have run := run_play (.init (start_clients 2)) done
    exact ⟨hist, s, run, Prod.ext left right,
      buffers hist s run (fun x member => (guarded x member).1) fun x member => (guarded x member).2⟩

/-! ### A tick inside the windows -/

/-- Of one page, one slot and one buffer each, two tasks become the owners. -/
theorem shared_ownership :
    (∃ hist s, Transition.Run (system Fault.code Fault.Start) hist (s : State _ _ Bool) ∧
      ¬ Exclusive Fault.taken s.places) ∧
    (∃ hist s, Transition.Run (system Requester.code Requester.Start) hist (s : State _ _ Bool) ∧
      ¬ Exclusive Requester.slot s.places) ∧
    (∃ hist s, Transition.Run (system Client.code Client.Start) hist (s : State _ _ Bool) ∧
      ∃ b dev, (b, dev, 5) ∈ (s.places false).held ∧ (b, dev, 6) ∈ (s.places true).held) := by
  refine ⟨?_, ?_, ?_⟩
  · have played : ((play Fault.code [.exec 261, .tick true, .exec 262, .tick false, .exec 1] ([], writers)).map
        fun r => ((r.2.places false).taken, (r.2.places true).taken)) = some (some 257, some 257) := by
      decide +kernel
    obtain ⟨⟨hist, s⟩, done, same⟩ := Option.map_eq_some_iff.mp played
    obtain ⟨left, right⟩ := Prod.mk.inj same
    have run := run_play (.init start_writers) done
    exact ⟨hist, s, run, fun exclusive => Bool.false_ne_true (exclusive false true 257 left right)⟩
  · -- two tasks about to look for a free request
    have played : ((play Requester.code [.exec 4, .tick true, .exec 5, .tick false, .exec 1] ([], readers)).map
        fun r => ((r.2.places false).slot, (r.2.places true).slot)) = some (some 31, some 31) := by
      decide +kernel
    obtain ⟨⟨hist, s⟩, done, same⟩ := Option.map_eq_some_iff.mp played
    obtain ⟨left, right⟩ := Prod.mk.inj same
    have run := run_play (.init start_readers) done
    exact ⟨hist, s, run, fun exclusive => Bool.false_ne_true (exclusive false true 31 left right)⟩
  · -- two tasks about to look for different blocks that are not in the cache
    have played : ((play Client.code [.exec 7, .tick true, .exec 33, .tick false, .exec 26] ([], clients 1)).map
        fun r => ((r.2.places false).held, (r.2.places true).held)) =
          some ([(headAddr 0, 0x300, 5)], [(headAddr 0, 0x300, 6)]) := by
      decide +kernel
    obtain ⟨⟨hist, s⟩, done, same⟩ := Option.map_eq_some_iff.mp played
    obtain ⟨left, right⟩ := Prod.mk.inj same
    have run := run_play (.init (start_clients 1)) done
    refine ⟨hist, s, run, headAddr 0, 0x300, ?_, ?_⟩
    · rw [left]
      exact List.mem_cons_self
    · rw [right]
      exact List.mem_cons_self

end OperatorSystem.Kernel
