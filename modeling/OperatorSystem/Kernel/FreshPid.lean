import Mathlib.Data.Fintype.Card
import OperatorSystem.Kernel.ForkContext

/-!
# The pids of new tasks: `findEmptyProcess`

The search for a pid goes on from `last_pid` until no task has the number it
tries. With 64 slots it ends within 65 numbers. Every attempt of a fork moves
`last_pid` on, also one that fails, and nothing brings it back: it is an `int`
that becomes negative, and the pids with it. The main result `identified_iff`
says when the pid is one that a caller of `fork` takes for success.
-/

namespace OperatorSystem.Kernel

open OperatorSystem.Mm

namespace TaskTable

/-- A live task has the pid. -/
def Used (tasks : Slot → Option Task) (pid : BitVec 32) : Prop :=
  ∃ i, (tasks i).any fun task => task.proc.pid = pid

instance (tasks : Slot → Option Task) (pid : BitVec 32) : Decidable (Used tasks pid) :=
  inferInstanceAs (Decidable (∃ _, _))

theorem used_iff {tasks : Slot → Option Task} {pid : BitVec 32} :
    Used tasks pid ↔ ∃ i task, tasks i = some task ∧ task.proc.pid = pid := by
  simp [Used, Option.any_eq_true]

/-! ### The search -/

theorem freshPid_succ (tasks : Slot → Option Task) (fuel : Nat) (pid : BitVec 32) :
    freshPid tasks (fuel + 1) pid =
      if Used tasks pid then freshPid tasks fuel (pid + 1) else some pid := rfl

theorem freshPid_eq_some {tasks : Slot → Option Task} {fuel : Nat} {pid fresh : BitVec 32} :
    freshPid tasks fuel pid = some fresh ↔
      ∃ k < fuel, fresh = pid + BitVec.ofNat 32 k ∧ ¬ Used tasks fresh ∧
        ∀ j < k, Used tasks (pid + BitVec.ofNat 32 j) := by
  induction fuel generalizing pid with
  | zero => simp [freshPid]
  | succ fuel ih =>
    have next : ∀ j, pid + BitVec.ofNat 32 (j + 1) = pid + 1 + BitVec.ofNat 32 j := by
      intro j
      rw [BitVec.add_assoc, Nat.add_comm, BitVec.ofNat_add]
      rfl
    -- a used pid is skipped, so the round of every later pid moves on by one
    by_cases taken : Used tasks pid
    · rw [freshPid_succ, if_pos taken, ih]
      constructor
      · rintro ⟨k, small, rfl, free, before⟩
        refine ⟨k + 1, by omega, (next k).symm, free, ?_⟩
        rintro (_ | j) below
        · simpa using taken
        · rw [next]
          exact before j (by omega)
      · rintro ⟨_ | k, small, rfl, free, before⟩
        · exact absurd taken (by simpa using free)
        · refine ⟨k, by omega, next k, free, fun j below => ?_⟩
          rw [← next]
          exact before (j + 1) (by omega)
    · rw [freshPid_succ, if_neg taken]
      constructor
      · intro found
        obtain rfl := Option.some.inj found
        exact ⟨0, by omega, by simp, taken, by simp⟩
      · rintro ⟨_ | k, _, rfl, _, before⟩
        · simp
        · exact absurd (by simpa using before 0 (by omega)) taken

/-- The search ends: 65 numbers in a row cannot all be pids of 64 tasks. -/
theorem freshPid_returns (tasks : Slot → Option Task) (pid : BitVec 32) :
    ∃ fresh, freshPid tasks (nrTasks + 1) pid = some fresh := by
  by_contra hangs
  have taken : ∀ k, k < nrTasks + 1 → Used tasks (pid + BitVec.ofNat 32 k) := by
    intro k
    induction k using Nat.strong_induction_on with
    | _ k ih =>
      intro small
      by_contra free
      exact hangs ⟨_, freshPid_eq_some.mpr ⟨k, small, rfl, free, fun j below => ih j below (by omega)⟩⟩
  choose slot task live same using fun k : Fin (nrTasks + 1) => used_iff.mp (taken k k.isLt)
  have injective : Function.Injective slot := by
    intro j k equal
    -- the slot holds one task, which has one pid
    have one : task j = task k := by
      have here := live j
      rw [equal, live k] at here
      exact (Option.some.inj here).symm
    have pids : pid + BitVec.ofNat 32 j = pid + BitVec.ofNat 32 k := by rw [← same j, ← same k, one]
    have values := congrArg BitVec.toNat (BitVec.add_right_inj pid |>.mp pids)
    have small : j.val < 65 := j.isLt
    have small' : k.val < 65 := k.isLt
    simp only [BitVec.toNat_ofNat] at values
    exact Fin.ext (by omega)
  have few := Fintype.card_le_of_injective slot injective
  simp only [Fintype.card_fin] at few
  omega

theorem emptySlot_eq_none {α : Type} {tasks : Slot → Option α} :
    emptySlot tasks = none ↔ ∀ i, (tasks i).isSome := by
  simp [emptySlot, List.find?_eq_none, Option.ne_none_iff_isSome]

/-! ### The pids of forks -/

/-- `findEmptyProcess` ends. If it returns a slot, the slot is empty and a child
that `copyProcess` puts there gets a pid that no task has, which is what `fork`
returns and positive as a signed number. It returns no slot exactly if there is none. -/
def Identified (s : TaskTable) : Prop :=
  ∃ s' slot, s.findEmptyProcess = some (s', slot) ∧ (slot = none ↔ ∀ i, (s.tasks i).isSome) ∧
    ∀ nr, slot = some nr → s.tasks nr = none ∧ ¬ Used s.tasks s'.lastPid ∧ 0 < s'.lastPid.toInt ∧
      ∀ cur frame s'' ret, s'.copyProcess cur nr frame = some (s'', ret) →
        (ret = -1 ∧ s''.tasks nr = none) ∨
          ret = s'.lastPid ∧ ∃ task, s''.tasks nr = some task ∧ task.proc.pid = s'.lastPid

/-- The next number that no task has as its pid is positive: it comes before
2^31, or every number from `last_pid` on up to 2^32 (the pid 0) is taken. -/
def PositiveNext (s : TaskTable) : Prop :=
  (s.lastPid.toNat + 1 < 2 ^ 31 ∧
    ∃ pid, s.lastPid.toNat < pid ∧ pid < 2 ^ 31 ∧ ¬ Used s.tasks (BitVec.ofNat 32 pid)) ∨
  (2 ^ 31 ≤ s.lastPid.toNat + 1 ∧
    ∀ pid, s.lastPid.toNat < pid → pid ≤ 2 ^ 32 → Used s.tasks (BitVec.ofNat 32 pid))

/-- The number after `last_pid` that the search tries in round `k`. -/
theorem tried_eq (lastPid : BitVec 32) (k : Nat) :
    lastPid + 1 + BitVec.ofNat 32 k = BitVec.ofNat 32 (lastPid.toNat + 1 + k) := by
  apply BitVec.eq_of_toNat_eq
  have one : (1 : BitVec 32).toNat = 1 := rfl
  rw [BitVec.toNat_add, BitVec.toNat_add, one, BitVec.toNat_ofNat, BitVec.toNat_ofNat]
  omega

theorem toInt_ofNat_pos {n : Nat} (inside : n < 2 ^ 32 + 2 ^ 31) :
    0 < (BitVec.ofNat 32 n).toInt ↔ (0 < n ∧ n < 2 ^ 31) ∨ 2 ^ 32 < n := by
  rw [BitVec.toInt_eq_toNat_cond, BitVec.toNat_ofNat]
  split <;> omega

/-- The search ends at a positive number exactly if the next free one is positive. -/
theorem positive_iff {s : TaskTable} {fresh : BitVec 32}
    (found : freshPid s.tasks (nrTasks + 1) (s.lastPid + 1) = some fresh) :
    0 < fresh.toInt ↔ PositiveNext s := by
  obtain ⟨k, few, rfl, free, before⟩ := freshPid_eq_some.mp found
  have bound : s.lastPid.toNat < 2 ^ 32 := s.lastPid.isLt
  have rounds : k < 65 := few
  rw [tried_eq] at free ⊢
  -- every pid between the last one and the one found is used
  have taken : ∀ pid, s.lastPid.toNat < pid → pid < s.lastPid.toNat + 1 + k →
      Used s.tasks (BitVec.ofNat 32 pid) := by
    intro pid above below
    obtain ⟨j, rfl⟩ : ∃ j, pid = s.lastPid.toNat + 1 + j := ⟨pid - (s.lastPid.toNat + 1), by omega⟩
    rw [← tried_eq]
    exact before j (by omega)
  rw [toInt_ofNat_pos (by omega)]
  constructor
  · rintro (⟨_, small⟩ | wrapped)
    · exact Or.inl ⟨by omega, _, by omega, small, free⟩
    · exact Or.inr ⟨by omega, fun pid above below => taken pid above (by omega)⟩
  · rintro (⟨_, pid, above, small, unused⟩ | ⟨_, all⟩)
    · left
      have last : s.lastPid.toNat + 1 + k ≤ pid := by
        by_contra later
        exact unused (taken pid above (by omega))
      omega
    · right
      by_contra early
      exact free (all _ (by omega) (by omega))

/-- The pids are as they should be exactly if no slot is left, or the next number
that no task has is positive. -/
theorem identified_iff (s : TaskTable) :
    s.Identified ↔ (∀ i, (s.tasks i).isSome) ∨ s.PositiveNext := by
  obtain ⟨fresh, found⟩ := freshPid_returns s.tasks (s.lastPid + 1)
  have searched : s.findEmptyProcess = some ({ s with lastPid := fresh }, emptySlot s.tasks) := by
    rw [findEmptyProcess, found]
    rfl
  have unused : ¬ Used s.tasks fresh := by
    obtain ⟨_, _, _, free, _⟩ := freshPid_eq_some.mp found
    exact free
  rw [← positive_iff found, ← emptySlot_eq_none]
  constructor
  · rintro ⟨s', slot, result, _, child⟩
    obtain ⟨rfl, rfl⟩ := Prod.mk.inj (Option.some.inj (searched.symm.trans result))
    -- without a free slot there is no child to identify
    cases empty : emptySlot s.tasks with
    | none => exact Or.inl rfl
    | some nr => exact Or.inr (child nr empty).2.2.1
  · intro condition
    refine ⟨_, _, searched, emptySlot_eq_none, fun nr empty => ?_⟩
    have positive : 0 < fresh.toInt := by
      rcases condition with full | positive
      · rw [empty] at full
        cases full
      · exact positive
    have free := emptySlot_free empty
    refine ⟨free, unused, positive, fun cur frame s'' ret copied => ?_⟩
    rcases copyProcess_cases copied with ⟨failed, same | same⟩ | ⟨pid, p, same⟩
    · exact Or.inl ⟨failed, by rw [same]; exact free⟩
    · exact Or.inl ⟨failed, by rw [same, Function.update_self]⟩
    · exact Or.inr ⟨pid, _, by rw [same, Function.update_self], rfl⟩

/-! ### Attempts that fail -/

/-- A machine without a free page. -/
def noneFree : Memory where
  page _ _ := 0
  memMap _ := 100

def attempt (frame : UserFrame) (s : TaskTable) : TaskTable :=
  match s.sysFork frame with
  | none => s
  | some (s', _) => s'

/-- With task 0 alone every number but 0 is free. -/
theorem booted_tried (mem : Memory) {pid : BitVec 32} (nonzero : pid ≠ 0) :
    freshPid (booted mem).tasks (nrTasks + 1) pid = some pid := by
  have free : ¬ Used (booted mem).tasks pid := by
    rw [used_iff]
    rintro ⟨i, task, live, rfl⟩
    by_cases kernel : i = 0
    · obtain rfl : _ = task := by simpa [booted, kernel] using live
      exact nonzero rfl
    · simp [booted, kernel] at live
  rw [freshPid_succ, if_neg free]

theorem booted_sysFork (mem : Memory) {lastPid : BitVec 32} (nonzero : lastPid + 1 ≠ 0)
    (frame : UserFrame) : sysFork { booted mem with lastPid } frame =
      copyProcess { booted mem with lastPid := lastPid + 1 } (initTask 0x20000) 1 frame :=
  sysFork_eq (s := { booted mem with lastPid }) rfl (booted_tried mem nonzero) (booted_emptySlot mem) frame

theorem attempt_noneFree {lastPid : BitVec 32} (nonzero : lastPid + 1 ≠ 0) (frame : UserFrame) :
    attempt frame { booted noneFree with lastPid } = { booted noneFree with lastPid := lastPid + 1 } := by
  have full : noneFree.getFreePage = (noneFree, 0) := by
    rcases noneFree.getFreePage_cases with ⟨failed, _⟩ | ⟨f, _, zero, _⟩
    · exact failed
    · change (100 : BitVec 8) = 0 at zero
      exact absurd zero (by decide)
  have same : (booted noneFree).mem.getFreePage = (noneFree, 0) := full
  rw [attempt, booted_sysFork noneFree nonzero, copyProcess]
  simp only [same, if_true]
  rfl

/-- Every attempt moves `last_pid` on by one. -/
theorem lastPid_attempts (frame : UserFrame) {k : Nat} (small : k < 2 ^ 32) :
    (attempt frame)^[k] (booted noneFree) = { booted noneFree with lastPid := BitVec.ofNat 32 k } := by
  induction k with
  | zero => rfl
  | succ k ih =>
    have next : BitVec.ofNat 32 k + 1 = BitVec.ofNat 32 (k + 1) := (BitVec.ofNat_add k 1).symm
    have nonzero : BitVec.ofNat 32 k + 1 ≠ 0 := by
      rw [next]
      intro zero
      have value : (k + 1) % 2 ^ 32 = 0 := by simpa using congrArg BitVec.toNat zero
      omega
    rw [Function.iterate_succ_apply', ih (by omega), attempt_noneFree nonzero, next]

/-- After 2^31 - 1 attempts a fork succeeds and returns a negative number. -/
theorem negative_fork (frame : UserFrame) : ∃ s', sysFork { booted Cpu.oneFree with lastPid := 0x7fffffff }
    frame = some (s', 0x80000000) ∧ (s'.tasks 1).isSome := by
  obtain ⟨s', copied, child⟩ := Cpu.booted_copyProcess 0x80000000 frame
  refine ⟨s', ?_, child⟩
  rw [booted_sysFork Cpu.oneFree (by decide)]
  exact copied

theorem identified_lost : ¬ ∀ s : TaskTable,
    (∀ i j a b, s.tasks i = some a → s.tasks j = some b → a.proc.pid = b.proc.pid → i = j) →
    (∃ frame k, s.lastPid = ((attempt frame)^[k] (booted noneFree)).lastPid) → s.Identified := by
  intro identified
  let frame : UserFrame := ⟨0, 0, 0, 0, 0, 0, 0, 0, 0, 0, 0, 0, 0, 0, 0⟩
  let s : TaskTable := { booted Cpu.oneFree with lastPid := 0x7fffffff }
  have only : ∀ i a, s.tasks i = some a → i = 0 := by
    intro i a live
    by_contra user
    simp [s, booted, user] at live
  have found : freshPid s.tasks (nrTasks + 1) (s.lastPid + 1) = some 0x80000000 :=
    booted_tried Cpu.oneFree (by decide)
  have searched : s.findEmptyProcess = some ({ s with lastPid := 0x80000000 }, some 1) := by
    rw [findEmptyProcess, found]
    rfl
  obtain ⟨s', slot, result, _, child⟩ := identified s
    (fun i j a b here there _ => (only i a here).trans (only j b there).symm)
    ⟨frame, 0x7fffffff, by rw [lastPid_attempts frame (by decide)]; rfl⟩
  obtain ⟨rfl, rfl⟩ := Prod.mk.inj (Option.some.inj (searched.symm.trans result))
  have positive : 0 < (0x80000000 : BitVec 32).toInt := (child 1 rfl).2.2.1
  exact absurd positive (by decide)

end TaskTable

end OperatorSystem.Kernel
