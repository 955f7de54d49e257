import Mathlib.Order.Interval.Finset.Nat
import OperatorSystem.Kernel.Fork

/-!
# The descriptors of the tasks

Every fork puts two descriptors into `GDT`, at indices that `copyProcess`,
`SWITCH_TO` and the field `tss.ldt` compute from the slot. The main result
`gdtExact_of_run` says that they agree as long as the slots 62 and 63 are not
needed: their descriptors lie behind the last entry of the table.
-/

namespace OperatorSystem.Kernel

def gdtSize : Nat := 128

/-- The indices that `copyProcess` computes. -/
def tssIndex (nr : Slot) : Nat := selectorFirstTaskTss.toNat / 8 + 2 * nr
def ldtIndex (nr : Slot) : Nat := selectorFirstTaskLdt.toNat / 8 + 2 * nr

/-- The selector that `SWITCH_TO` pushes for its far jump. -/
def switchSelector (nr : Slot) : BitVec 32 := BitVec.ofNat 32 nr.val <<< 4 + selectorFirstTaskTss

/-- The selector, of which the processor takes 16 bits, refers to the entry of `GDT`
with privilege 0. -/
def Denotes (selector : BitVec 32) (index : Nat) : Prop :=
  (selector.setWidth 16).toNat = 8 * index

instance (selector : BitVec 32) (index : Nat) : Decidable (Denotes selector index) := by
  unfold Denotes
  infer_instance

/-- The descriptor of a system segment. -/
structure Describes (d : Descriptor) (base limit : BitVec 32) (kind : BitVec 8) : Prop where
  base : getDescBase d = base
  limit : getDescLimit d = limit
  kind : d.attr1 = kind

namespace TaskTable

open OperatorSystem.Mm

/-- The two descriptors of a task. -/
structure Described (s : TaskTable) (nr : Slot) (task : Task) : Prop where
  tss : Describes (s.gdt (tssIndex nr)) (task.addr + offsetTss) (BitVec.ofNat 32 sizeofTss) 0x89
  ldt : Describes (s.gdt (ldtIndex nr)) (task.addr + offsetLdt) sizeofLdt 0x82
  tssSelector : Denotes (switchSelector nr) (tssIndex nr)
  ldtSelector : Denotes task.proc.tss.ldt (ldtIndex nr)

/-- The descriptors of all tasks are right, inside the table and apart from each
other and from the three descriptors of the kernel. -/
structure GdtExact (s : TaskTable) : Prop where
  described : ∀ nr task, nr ≠ 0 → s.tasks nr = some task → s.Described nr task
  kernel : ∀ nr : Slot, 3 ≤ tssIndex nr ∧ 3 ≤ ldtIndex nr ∧ tssIndex nr ≠ ldtIndex nr
  apart : ∀ nr nr' : Slot, nr ≠ nr' → tssIndex nr ≠ tssIndex nr' ∧ tssIndex nr ≠ ldtIndex nr' ∧
    ldtIndex nr ≠ ldtIndex nr'
  inside : ∀ nr, nr ≠ 0 → (s.tasks nr).isSome → tssIndex nr < gdtSize ∧ ldtIndex nr < gdtSize

/-! ### Indices and selectors -/

theorem tssIndex_eq (nr : Slot) : tssIndex nr = 3 + 2 * nr := rfl

theorem ldtIndex_eq (nr : Slot) : ldtIndex nr = 4 + 2 * nr := rfl

theorem index_kernel (nr : Slot) : 3 ≤ tssIndex nr ∧ 3 ≤ ldtIndex nr ∧ tssIndex nr ≠ ldtIndex nr := by
  rw [tssIndex_eq, ldtIndex_eq]
  omega

theorem index_apart (nr nr' : Slot) (other : nr ≠ nr') : tssIndex nr ≠ tssIndex nr' ∧
    tssIndex nr ≠ ldtIndex nr' ∧ ldtIndex nr ≠ ldtIndex nr' := by
  have different : nr.val ≠ nr'.val := fun same => other (Fin.ext same)
  simp only [tssIndex_eq, ldtIndex_eq]
  omega

theorem denotes_tss (nr : Slot) : Denotes (switchSelector nr) (tssIndex nr) := by
  revert nr
  decide

theorem denotes_ldt (nr : Slot) :
    Denotes (BitVec.ofNat 32 (nr.val <<< 4) + selectorFirstTaskLdt) (ldtIndex nr) := by
  revert nr
  decide

theorem inside_iff (nr : Slot) : tssIndex nr < gdtSize ∧ ldtIndex nr < gdtSize ↔ nr.val < 62 := by
  simp only [tssIndex_eq, ldtIndex_eq, gdtSize]
  omega

theorem describes_tss (base : BitVec 32) :
    Describes (setGdtDesc base (BitVec.ofNat 32 sizeofTss) da386Tss) base (BitVec.ofNat 32 sizeofTss) 0x89 where
  base := getDescBase_setDescBase (setGdtDesc 0 (BitVec.ofNat 32 sizeofTss) da386Tss) base
  limit := by
    change getDescLimit (setGdtDesc 0 (BitVec.ofNat 32 sizeofTss) da386Tss) = BitVec.ofNat 32 sizeofTss
    decide
  kind := rfl

theorem describes_ldt (base : BitVec 32) :
    Describes (setGdtDesc base sizeofLdt daLdt) base sizeofLdt 0x82 where
  base := getDescBase_setDescBase (setGdtDesc 0 sizeofLdt daLdt) base
  limit := by
    change getDescLimit (setGdtDesc 0 sizeofLdt daLdt) = sizeofLdt
    decide
  kind := rfl

/-! ### Forks -/

/-- `copyMem` changes nothing of the new task but its segment bases. -/
theorem copyMem_cases {s s' : TaskTable} {cur : Process} {nr : Slot} {task : Task} {ret : BitVec 32}
    (here : s.tasks nr = some task) (done : s.copyMem cur nr task = some (s', ret)) :
    s'.gdt = s.gdt ∧ ∃ task', s'.tasks = Function.update s.tasks nr (some task') ∧
      task'.proc.tss = task.proc.tss := by
  simp only [copyMem] at done
  split at done
  · obtain ⟨rfl, _⟩ := Prod.mk.inj (Option.some.inj done)
    refine ⟨rfl, task, ?_, rfl⟩
    rw [← here, Function.update_eq_self]
  · obtain ⟨⟨mem, shared⟩, _, result⟩ := Option.bind_eq_some_iff.mp done
    obtain ⟨rfl, _⟩ := Prod.mk.inj (Option.some.inj result)
    exact ⟨rfl, rebase task (segmentBase nr), rfl, rfl⟩

/-- What a fork does to the tasks and to `GDT`: nothing, or one new task in the
first free slot with its descriptors. -/
theorem fork_cases {s s' : TaskTable} {frame : UserFrame} {ret : BitVec 32}
    (done : s.sysFork frame = some (s', ret)) :
    s'.tasks = s.tasks ∧ s'.gdt = s.gdt ∨
      ∃ nr task, emptySlot s.tasks = some nr ∧ s'.tasks = Function.update s.tasks nr (some task) ∧
        task.proc.tss.ldt = BitVec.ofNat 32 (nr.val <<< 4) + selectorFirstTaskLdt ∧
        s'.gdt = Function.update
          (Function.update s.gdt (tssIndex nr)
            (setGdtDesc (task.addr + offsetTss) (BitVec.ofNat 32 sizeofTss) da386Tss))
          (ldtIndex nr) (setGdtDesc (task.addr + offsetLdt) sizeofLdt daLdt) := by
  obtain ⟨cur, _, rest⟩ := Option.bind_eq_some_iff.mp done
  obtain ⟨⟨s₁, slot⟩, numbered, rest⟩ := Option.bind_eq_some_iff.mp rest
  obtain ⟨lastPid, _, same⟩ := Option.bind_eq_some_iff.mp numbered
  obtain ⟨rfl, rfl⟩ := Prod.mk.inj (Option.some.inj same)
  -- the descriptors are written only where the page tables were copied
  cases found : emptySlot s.tasks with
  | none =>
    rw [found] at rest
    obtain ⟨rfl, _⟩ := Prod.mk.inj (Option.some.inj rest)
    exact .inl ⟨rfl, rfl⟩
  | some nr =>
    rw [found] at rest
    simp only [copyProcess] at rest
    split at rest
    · obtain ⟨rfl, _⟩ := Prod.mk.inj (Option.some.inj rest)
      exact .inl ⟨rfl, rfl⟩
    · obtain ⟨⟨s₂, ret'⟩, copied, rest⟩ := Option.bind_eq_some_iff.mp rest
      obtain ⟨gdt, task, tasks, tss⟩ := copyMem_cases (by simp [setTask]) copied
      simp only [setTask, Function.update_idem] at gdt tasks
      simp only at rest
      split at rest
      · -- not enough pages: the slot is given back
        obtain ⟨mem', _, same⟩ := Option.bind_eq_some_iff.mp rest
        obtain ⟨rfl, _⟩ := Prod.mk.inj (Option.some.inj same)
        refine .inl ⟨?_, gdt⟩
        simp only [setTask, tasks, Function.update_idem]
        rw [← emptySlot_free found, Function.update_eq_self]
      · obtain ⟨task', live, same⟩ := Option.bind_eq_some_iff.mp rest
        obtain ⟨rfl, _⟩ := Prod.mk.inj (Option.some.inj same)
        rw [tasks, Function.update_self] at live
        obtain rfl := Option.some.inj live
        refine .inr ⟨nr, running task, rfl, ?_, ?_, ?_⟩
        · simp only [installTask, countFiles, setTask, tasks, Function.update_idem, running]
        · change task.proc.tss.ldt = _
          rw [tss]
          rfl
        · simp only [installTask, countFiles, setTask, gdt, running]
          rfl

/-- The descriptors of all tasks are right. -/
def AllDescribed (s : TaskTable) : Prop :=
  ∀ nr task, nr ≠ 0 → s.tasks nr = some task → s.Described nr task

theorem AllDescribed.fork {s s' : TaskTable} (described : AllDescribed s) {frame : UserFrame}
    {ret : BitVec 32} (done : s.sysFork frame = some (s', ret)) :
    AllDescribed s' := by
  rcases fork_cases done with ⟨tasks, gdt⟩ | ⟨new, child, _, tasks, selector, gdt⟩
  · intro nr task user live
    rw [tasks] at live
    obtain ⟨tss, ldt, tssSelector, ldtSelector⟩ := described nr task user live
    exact ⟨gdt ▸ tss, gdt ▸ ldt, tssSelector, ldtSelector⟩
  · intro nr task user live
    rw [tasks] at live
    -- the two descriptors of the child are at indices that no other task has
    by_cases here : nr = new
    · subst here
      rw [Function.update_self] at live
      obtain rfl := Option.some.inj live
      have distinct := (index_kernel nr).2.2
      constructor
      · rw [gdt, Function.update_of_ne distinct, Function.update_self]
        exact describes_tss _
      · rw [gdt, Function.update_self]
        exact describes_ldt _
      · exact denotes_tss nr
      · rw [selector]
        exact denotes_ldt nr
    · rw [Function.update_of_ne here] at live
      obtain ⟨tss, ldt, tssSelector, ldtSelector⟩ := described nr task user live
      obtain ⟨apartTss, apartCross, apartLdt⟩ := index_apart nr new here
      have apartCross' := (index_apart new nr (Ne.symm here)).2.1
      constructor
      · rw [gdt, Function.update_of_ne apartCross, Function.update_of_ne apartTss]
        exact tss
      · rw [gdt, Function.update_of_ne apartLdt, Function.update_of_ne (Ne.symm apartCross')]
        exact ldt
      · exact tssSelector
      · exact ldtSelector

/-! ### Runs with room in the table -/

theorem emptySlot_eq_some {α : Type} {tasks : Slot → Option α} {nr : Slot} :
    emptySlot tasks = some nr ↔ tasks nr = none ∧ ∀ i < nr, (tasks i).isSome := by
  rw [emptySlot, List.find?_eq_some_iff_getElem]
  constructor
  · rintro ⟨free, k, inside, here, before⟩
    refine ⟨by simpa using free, ?_⟩
    intro i below
    have position : k = nr.val := by simpa using congrArg Fin.val here
    have live := before i.val (by rw [position]; exact below)
    simpa [Option.isSome_iff_ne_none] using live
  · rintro ⟨free, before⟩
    refine ⟨by simpa using free, nr.val, by simp, by simp, ?_⟩
    intro j below
    have live := before ⟨j, below.trans nr.isLt⟩ below
    simpa [Option.isSome_iff_ne_none] using live

inductive Change
  | fork (frame : UserFrame)
  | other

/-- Forks, and anything else that leaves `GDT` alone and the tasks where they are. -/
inductive Evolves : TaskTable → Change → TaskTable → Prop
  | fork {s s' : TaskTable} {frame : UserFrame} {ret : BitVec 32}
      (done : s.sysFork frame = some (s', ret)) : Evolves s (.fork frame) s'
  | other {s s' : TaskTable} (gdt : s'.gdt = s.gdt)
      (kept : ∀ nr, (s'.tasks nr).map (fun task => (task.addr, task.proc.tss.ldt)) =
        (s.tasks nr).map fun task => (task.addr, task.proc.tss.ldt)) : Evolves s .other s'

/-- The state after `initSchedule`, with memory of any size. -/
def descriptorSystem : Transition.System TaskTable Change where
  init s := ∃ initTasks, s.tasks = fun nr =>
    if nr = 0 then some { addr := initTasks, proc := initTask initTasks } else none
  step := Evolves

/-- One of the slots up to 61 is free. -/
def RoomLeft (s : TaskTable) : Prop := ∃ nr : Slot, nr.val < 62 ∧ s.tasks nr = none

/-- Every fork finds such a slot. -/
def Roomy (s : TaskTable) (c : Change) : Prop := ∀ frame, c = .fork frame → s.RoomLeft

theorem isSome_other {s s' : TaskTable}
    (kept : ∀ nr, (s'.tasks nr).map (fun task => (task.addr, task.proc.tss.ldt)) =
      (s.tasks nr).map fun task => (task.addr, task.proc.tss.ldt)) (nr : Slot) :
    (s'.tasks nr).isSome = (s.tasks nr).isSome := by
  have same := congrArg Option.isSome (kept nr)
  simpa using same

theorem AllDescribed.step {s s' : TaskTable} {c : Change} (described : AllDescribed s)
    (taken : Evolves s c s') : AllDescribed s' := by
  cases taken with
  | fork done => exact described.fork done
  | other gdt kept =>
    intro nr task user live
    have same := kept nr
    rw [live, Option.map_some] at same
    obtain ⟨before, liveBefore, fields⟩ := Option.map_eq_some_iff.mp same.symm
    obtain ⟨addr, ldtField⟩ := Prod.mk.inj fields
    obtain ⟨tss, ldt, tssSelector, ldtSelector⟩ := described nr before user liveBefore
    rw [addr] at tss ldt
    rw [ldtField] at ldtSelector
    exact ⟨gdt ▸ tss, gdt ▸ ldt, tssSelector, ldtSelector⟩

theorem allDescribed_of_run {hist : List (TaskTable × Change)} {s : TaskTable}
    (run : Transition.Run descriptorSystem hist s) : AllDescribed s := by
  apply Transition.Reachable.invariant (S := descriptorSystem) (I := AllDescribed) _
    (fun _ _ _ described taken => described.step taken) ⟨hist, run⟩
  rintro s ⟨initTasks, tasks⟩ nr task user live
  simp [tasks, user] at live

/-- In any state of a run, the descriptors are exact if and only if the last two
slots are free. -/
theorem gdtExact_iff {hist : List (TaskTable × Change)} {s : TaskTable}
    (run : Transition.Run descriptorSystem hist s) :
    GdtExact s ↔ ∀ nr, (s.tasks nr).isSome → nr.val < 62 := by
  constructor
  · intro exact nr live
    by_cases kernel : nr = 0
    · simp [kernel]
    · exact (inside_iff nr).mp (exact.inside nr kernel live)
  · intro low
    refine ⟨allDescribed_of_run run, index_kernel, index_apart, ?_⟩
    intro nr _ live
    exact (inside_iff nr).mpr (low nr live)

/-- A fork with room puts the new task into one of the slots up to 61. -/
theorem fork_low {s s' : TaskTable} {frame : UserFrame} {ret : BitVec 32}
    (done : s.sysFork frame = some (s', ret)) (room : s.RoomLeft)
    (low : ∀ nr, (s.tasks nr).isSome → nr.val < 62) (nr : Slot) (live : (s'.tasks nr).isSome) :
    nr.val < 62 := by
  rcases fork_cases done with ⟨tasks, _⟩ | ⟨new, child, found, tasks, _⟩
  · rw [tasks] at live
    exact low nr live
  · rw [tasks] at live
    by_cases here : nr = new
    · obtain ⟨i, small, free⟩ := room
      by_contra above
      have used := (emptySlot_eq_some.mp found).2 i (Fin.lt_def.mpr (by rw [← here]; omega))
      rw [free] at used
      cases used
    · rw [Function.update_of_ne here] at live
      exact low nr live

/-- As long as every fork finds one of the slots up to 61 free, the descriptors
are exact. -/
theorem gdtExact_of_run {hist : List (TaskTable × Change)} {s : TaskTable}
    (run : Transition.Run descriptorSystem hist s) (roomy : ∀ x ∈ hist, Roomy x.1 x.2) :
    GdtExact s := by
  rw [gdtExact_iff run]
  apply run.guarded (I := fun s => ∀ nr, (s.tasks nr).isSome → nr.val < 62) (G := Roomy) _ _ roomy
  · rintro s ⟨initTasks, tasks⟩ nr live
    by_cases kernel : nr = 0
    · simp [kernel]
    · simp [tasks, kernel] at live
  · intro s c s' low taken room
    cases taken with
    | fork done => exact fork_low done (room _ rfl) low
    | other _ kept =>
      intro nr live
      rw [isSome_other kept] at live
      exact low nr live

/-! ### An almost full table -/

section Full

variable {m m' : Memory} {pages : Nat → Nat}

/-- No task maps a page of main memory. -/
def Low (m : Memory) : Prop := ∀ x f w, m.look x = some (f, w) → ¬ Main f

/-- Then the pages of main memory are only used as tables and for other purposes,
and one of them is free as long as the other purposes are few. -/
theorem free_of_low (paged : Paged m pages) (low : Low m) (used : Finset Nat)
    (few : used.card ≤ 1000) (known : ∀ f, pages f ≠ 0 → f ∈ used) : ∃ f, Main f ∧ m.memMap f = 0 := by
  by_contra full
  -- if no page were free, each would be mapped, known, or a table
  have covered : Finset.Ico 2048 pagesSize ⊆
      used ∪ Finset.univ.image fun d => (m.dirTarget d).getD 0 := by
    intro f inMain
    have main : Main f := Finset.mem_Ico.mp inMain
    have nonzero : (m.memMap f).toInt ≠ 0 := fun zero => full ⟨f, main, toInt_eq_zero.mp zero⟩
    have unmapped : Sharing.refs m.look f = 0 := by
      apply Sharing.count_eq_zero.mpr
      intro x target
      obtain ⟨w, here⟩ := Sharing.map_fst_eq_some.mp target
      exact low x f w here main
    have exact := paged.sound.exact f main
    rw [Finset.mem_union, Finset.mem_image]
    by_cases table : m.tables f = 0
    · left
      apply known
      omega
    · right
      by_contra none
      apply table
      apply Sharing.count_eq_zero.mpr
      intro d here
      exact none ⟨d, Finset.mem_univ d, by simp [here]⟩
  have size := (Finset.card_le_card covered).trans (Finset.card_union_le _ _)
  have tables := Finset.card_image_le (s := Finset.univ) (f := fun d => (m.dirTarget d).getD 0)
  simp only [Nat.card_Ico, pagesSize, Finset.card_univ, Fintype.card_fin] at size tables
  omega

/-- A fork of task 0 maps nothing else. -/
theorem Low.forked (low : Low m) (paged : Paged m pages) (paged' : Paged m' pages) {j t : Nat}
    (child : j < 64) (user : j ≠ 0) (forked : Forked m m' 0 j t) : Low m' := by
  rintro ⟨d, k⟩ f w here
  have dirZero := paged.dir_zero
  have bound := (paged'.entries d k f w here).1
  unfold Memory.look at here
  split at here
  · cases here
  next t' target =>
    obtain ⟨present, frameEq, _⟩ := decode_eq_some.mp here
    obtain ⟨high, dirPresent, table⟩ := Memory.dirTarget_eq_some.mp target
    have high : 16 ≤ d.val := high
    obtain ⟨_, aligned, _⟩ := paged'.dirs d (by omega) dirPresent
    obtain ⟨n, slot⟩ : ∃ n, d.val = 16 * n := ⟨d.val / 16, by omega⟩
    -- an entry of the child is a copy of one of the parent; any other one is as it was
    by_cases own : n = j
    · -- the new table: the frames of the identity table
      subst own
      rw [slot, forked.dir, frame_freshEntry forked.main.small] at table
      subst table
      have copied := (forked.source k).trans (forked.copy k bound)
      rw [dirZero.2, paged.identity_zero k.isLt] at copied
      have same := copied.2 (copied.1.mpr present)
      rw [frame_freshEntry (by omega), frameEq] at same
      intro main
      have := main.1
      omega
    · -- an older table, which the fork leaves alone
      have sameDir := forked.dir_other paged (by omega) dirZero.1 own
      rw [slot, sameDir] at dirPresent table
      have older : m.dirTarget d = some t' := by
        rw [Memory.dirTarget_eq_some, slot]
        exact ⟨by omega, dirPresent, table⟩
      have mainTable := (paged.dirs d (by omega) (slot ▸ dirPresent)).2.2.2
      rw [slot, table] at mainTable
      have notIdentity : t' ≠ m.tableOf 0 := by
        rw [dirZero.2]
        have := mainTable.1
        omega
      have notNew : t' ≠ t := by
        rintro rfl
        exact Sharing.count_eq_zero.mp forked.fresh.1 d older
      have notDir : t' ≠ 0 := by
        have := mainTable.1
        omega
      have sameEntry := forked.rest t' k notIdentity notNew fun zero => absurd zero notDir
      apply low (d, k) f w
      rw [Memory.look_of_dirTarget older, ← sameEntry]
      exact here

end Full

/-- Task 0 has forked `n` times, and nothing else has happened. -/
structure Packed (n : Nat) (s : TaskTable) : Prop where
  counted : Counted s
  current : s.current = 0
  low : Low s.mem
  tasks : ∀ nr, (s.tasks nr).isSome ↔ nr.val ≤ n
  pids : ∀ nr task, s.tasks nr = some task → task.proc.pid.toNat ≤ n
  lastPid : s.lastPid = BitVec.ofNat 32 n

section Packed

variable {n : Nat} {s : TaskTable}

/-- The frames of the `PROCESS` pages. -/
def processFrames (s : TaskTable) : Finset Nat := Finset.univ.image fun nr => (s.taskPage nr).getD 0

theorem mem_processFrames {f : Nat} (used : s.pages f ≠ 0) : f ∈ s.processFrames := by
  rw [processFrames, Finset.mem_image]
  by_contra none
  apply used
  apply Sharing.count_eq_zero.mpr
  intro nr here
  exact none ⟨nr, Finset.mem_univ nr, by simp [here]⟩

theorem card_processFrames : s.processFrames.card ≤ 64 := by
  have image := Finset.card_image_le (s := Finset.univ) (f := fun nr => (s.taskPage nr).getD 0)
  rw [Finset.card_univ, Fintype.card_fin] at image
  exact image

theorem Packed.freshPid (packed : Packed n s) (room : n < 63) :
    freshPid s.tasks (nrTasks + 1) (s.lastPid + 1) = some (BitVec.ofNat 32 (n + 1)) := by
  have next : s.lastPid + 1 = BitVec.ofNat 32 (n + 1) := by
    rw [packed.lastPid, BitVec.ofNat_add]
    rfl
  have unused : ¬ ∃ i, (s.tasks i).any fun task => task.proc.pid = BitVec.ofNat 32 (n + 1) := by
    rintro ⟨i, taken⟩
    obtain ⟨task, live, same⟩ := (Option.any_eq_true _ _).mp taken
    have small := packed.pids i task live
    rw [of_decide_eq_true same, BitVec.toNat_ofNat] at small
    omega
  rw [next, TaskTable.freshPid, if_neg unused]

theorem Packed.emptySlot (packed : Packed n s) (room : n < 63) :
    emptySlot s.tasks = some ⟨n + 1, by simp only [nrTasks]; omega⟩ := by
  rw [emptySlot_eq_some]
  constructor
  · rw [← Option.not_isSome_iff_eq_none, packed.tasks]
    simp
  · intro i below
    rw [packed.tasks]
    have := Fin.lt_def.mp below
    simp only at this
    omega

/-- The next fork of task 0 finds its two pages, and the task goes into the next slot. -/
theorem Packed.fork (packed : Packed n s) (room : n < 63) (frame : UserFrame) :
    ∃ s', Step s (.fork frame) s' ∧ Packed (n + 1) s' ∧ s'.mem.Mapped (n + 1) := by
  obtain ⟨cur, self⟩ := Option.isSome_iff_exists.mp packed.counted.current
  -- slot `n + 1` is the first one that is free
  have found := packed.emptySlot room
  have tried := packed.freshPid room
  generalize slotEq : (⟨n + 1, by simp only [nrTasks]; omega⟩ : Slot) = nr at found
  have slot : nr.val = n + 1 := by rw [← slotEq]
  have free := emptySlot_free found
  have counted := packed.counted
  obtain ⟨code, data⟩ := counted.base _ _ self
  have limit := counted.limit _ _ self
  -- a thousand low pages are more than the tasks hold, so the searches succeed
  obtain ⟨g, mainG, freeG⟩ := free_of_low counted.paged packed.low s.processFrames
    (by have := s.card_processFrames; omega) fun _ => mem_processFrames
  rcases counted.paged.getFreePage with full | ⟨f, main, _, page, nonzero, claimed, looks, _⟩
  · exact absurd freeG (Memory.used_of_getFreePage full g mainG.2)
  have lowClaimed : Low (s.mem.claimPage f) := by
    intro x h w here
    rw [looks] at here
    exact packed.low x h w here
  have nonzeroF : 0 ≠ f := by
    have := main.1
    omega
  have kept : ∀ d, (s.mem.claimPage f).page 0 d = s.mem.page 0 d := by
    intro d
    simp [Memory.claimPage, nonzeroF]
  have user : nr ≠ 0 := by
    rintro rfl
    simp at slot
  have absent : ¬ Present ((s.mem.claimPage f).page 0 (16 * nr)) := by
    rw [kept, ← counted.dir nr user, free]
    simp
  have current : s.current.val = 0 := by simp [packed.current]
  have source : Present ((s.mem.claimPage f).page 0 (16 * s.current)) := by
    rw [current]
    exact claimed.dir_zero.1
  rcases claimed.shareSegment s.current.isLt nr.isLt (by omega) (by omega) absent source with
    ⟨_, full⟩ | ⟨mem, t, shared, paged, forked⟩
  · -- even with the page of the child taken, one is left for the page table
    have few : (insert f s.processFrames).card ≤ 1000 := by
      have inserted := Finset.card_insert_le f s.processFrames
      have := s.card_processFrames
      omega
    obtain ⟨h, mainH, freeH⟩ := free_of_low claimed lowClaimed _ few (by
      intro g used
      rw [Finset.mem_insert]
      by_cases same : g = f
      · exact .inl same
      · rw [Function.update_of_ne same] at used
        exact .inr (mem_processFrames used))
    exact absurd freeH (Memory.used_of_getFreePage full h mainH.2)
  · let numbered : TaskTable := { s with lastPid := BitVec.ofNat 32 (n + 1) }
    let task := numbered.forkedTask cur.proc nr frame (pageAddr f)
    have done : s.sysFork frame = some ((({ numbered with mem }.setTask nr (some task)).countFiles
        cur.proc).installTask nr task, BitVec.ofNat 32 (n + 1)) := by
      rw [sysFork_eq self tried found,
        copyProcess_eq numbered free code data limit page nonzero, shared]
      rfl
    have tasks := forked_tasks numbered mem nr task cur.proc
    refine ⟨_, .fork done, ?_, ?_⟩
    swap
    · -- the child shares the segment of task 0, which is mapped
      rw [current] at forked
      rw [← slot]
      exact forked.mapped_child claimed.mapped_zero
    constructor
    · exact counted.sysFork done
    · exact packed.current
    · rw [current] at forked
      exact lowClaimed.forked claimed paged nr.isLt (by omega) forked
    · intro i
      rw [tasks]
      by_cases here : i = nr
      · simp [here, slot]
      · have different : i.val ≠ nr.val := fun same => here (Fin.ext same)
        rw [Function.update_of_ne here]
        change (s.tasks i).isSome ↔ _
        rw [packed.tasks]
        omega
    · intro i other live
      rw [tasks] at live
      by_cases here : i = nr
      · rw [here, Function.update_self] at live
        rw [← Option.some.inj live]
        change (BitVec.ofNat 32 (n + 1)).toNat ≤ n + 1
        rw [BitVec.toNat_ofNat]
        exact Nat.mod_le _ _
      · rw [Function.update_of_ne here] at live
        have := packed.pids i other live
        omega
    · rfl

end Packed

theorem Initial.packed {s : TaskTable} (initial : Initial s) : Packed 0 s := by
  obtain ⟨m, boot, done⟩ := initial.mem
  obtain ⟨initTasks, tasks⟩ := initial.tasks
  have page := (initMemory_memMap done).1
  constructor
  · exact initial.counted
  · exact initial.current
  · rintro ⟨d, k⟩ f w here
    unfold Memory.look at here
    split at here
    · cases here
    next t target =>
      obtain ⟨high, present, _⟩ := Memory.dirTarget_eq_some.mp target
      have high : 16 ≤ d.val := high
      rw [page] at present
      exact absurd present (boot.empty d (by omega) (by omega))
  · intro nr
    by_cases kernel : nr = 0
    · simp [tasks, kernel]
    · have nonzero : nr.val ≠ 0 := fun zero => kernel (Fin.ext zero)
      simp [tasks, kernel]
  · intro nr task live
    by_cases kernel : nr = 0
    · simp only [tasks, kernel, if_true, Option.some.injEq] at live
      rw [← live]
      exact Nat.le_refl 0
    · simp [tasks, kernel] at live
  · exact initial.lastPid

/-- Task 0 can fork until the table is full. -/
theorem packed_run {n : Nat} (room : n ≤ 63) :
    ∃ hist s, Transition.Run system hist s ∧ Packed n s := by
  induction n with
  | zero =>
    have start : ∃ mem, Initial (booted mem) :=
      ⟨_, ⟨⟨Spaces.bootMemory, Spaces.booted_bootMemory, rfl⟩, ⟨0x20000, rfl⟩, rfl, rfl⟩⟩
    obtain ⟨mem, start⟩ := start
    exact ⟨[], booted mem, .init start, start.packed⟩
  | succ n ih =>
    obtain ⟨hist, s, run, packed⟩ := ih (by omega)
    obtain ⟨s', taken, packed', _⟩ := packed.fork (by omega) ⟨0, 0, 0, 0, 0, 0, 0, 0, 0, 0, 0, 0, 0, 0, 0⟩
    exact ⟨_, s', .step run taken, packed'⟩

/-- The steps of the tasks of a machine of 32 MB are such changes. -/
theorem evolves_of_run {hist : List (TaskTable × Action)} {s : TaskTable}
    (run : Transition.Run system hist s) : ∃ hist', Transition.Run descriptorSystem hist' s := by
  induction run with
  | init initial => exact ⟨[], .init initial.tasks⟩
  | step _ taken ih =>
    obtain ⟨hist', run'⟩ := ih
    cases taken with
    | fork done => exact ⟨_, .step run' (.fork done)⟩
    | fault | store | switch => exact ⟨_, .step run' (.other rfl fun _ => rfl)⟩

/-- After one fork the descriptors are exact. -/
theorem gdtExact_of_run_forked :
    ∃ s a s', Transition.Run descriptorSystem [(s, .fork a)] s' ∧ GdtExact s' := by
  obtain ⟨s, a, s', run⟩ := forked_run
  cases run with
  | step before taken =>
    cases before with
    | init initial =>
      cases taken with
      | fork done =>
        have free : s.tasks 1 = none := by
          rw [← Option.not_isSome_iff_eq_none, initial.packed.tasks]
          decide
        have run : Transition.Run descriptorSystem [(s, .fork a)] s' :=
          .step (.init initial.tasks) (.fork done)
        refine ⟨s, a, s', run, gdtExact_of_run run ?_⟩
        intro x member frame _
        obtain rfl := List.mem_singleton.mp member
        exact ⟨1, by decide, free⟩

/-- The 62nd fork writes behind the end of the table. -/
theorem gdtExact_lost : ¬ ∀ hist s, Transition.Run descriptorSystem hist s → GdtExact s := by
  intro always
  obtain ⟨hist, s, run, packed⟩ := packed_run (n := 62) (by decide)
  obtain ⟨hist', run'⟩ := evolves_of_run run
  have live : (s.tasks 62).isSome := (packed.tasks 62).mpr (by decide)
  have bound := (gdtExact_iff run').mp (always hist' s run') 62 live
  revert bound
  decide

end TaskTable

end OperatorSystem.Kernel
