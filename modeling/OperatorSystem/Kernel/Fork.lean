import OperatorSystem.Mm.CopyOnWrite

/-!
# Forking: `findEmptyProcess`, `copyProcess` and `copyMem`

The task table with the memory under it. `copyProcess` takes a page for the new
`PROCESS`, shares the segment of the parent, and undoes both when there are not
enough pages. The main result `counts_exact` says that through any forks,
faults and writes of the tasks `MEM_MAP` counts exactly the uses of each page
of main memory.
-/

namespace OperatorSystem.Kernel

open OperatorSystem.Mm

/-- An entry of `TASKS`: the address of the `PROCESS`, and its contents. -/
structure Task where
  addr : BitVec 32
  proc : Process

structure TaskTable where
  mem : Memory
  /-- `TASKS` -/
  tasks : Slot → Option Task
  current : Slot
  lastPid : BitVec 32
  ticks : BitVec 32
  /-- `GDT` -/
  gdt : Nat → Descriptor
  /-- `f_count` of the open files, by the address of the `FILE`. -/
  fCount : Nat → BitVec 16
  /-- `i_count` of the inodes in memory, by the address of the `MINODE`. -/
  iCount : Nat → BitVec 16

def da386Tss : BitVec 16 := 0x89
def daLdt : BitVec 16 := 0x82

namespace TaskTable

def setTask (s : TaskTable) (nr : Slot) (task : Option Task) : TaskTable :=
  { s with tasks := Function.update s.tasks nr task }

/-! ### The functions -/

/-- The first loop of `findEmptyProcess`: it starts over with the next pid
whenever a task has the pid it tries. -/
def freshPid (tasks : Slot → Option Task) : Nat → BitVec 32 → Option (BitVec 32)
  | 0, _ => none
  | fuel + 1, pid =>
    if ∃ i, (tasks i).any fun task => task.proc.pid = pid then freshPid tasks fuel (pid + 1)
    else some pid

def findEmptyProcess (s : TaskTable) : Option (TaskTable × Option Slot) := do
  let lastPid ← freshPid s.tasks (nrTasks + 1) (s.lastPid + 1)
  return ({ s with lastPid }, emptySlot s.tasks)

/-- The bases of the code and data segments are set. -/
def rebase (task : Task) (base : BitVec 32) : Task :=
  { task with
    proc := { task.proc with
      ldt := Function.update (Function.update task.proc.ldt 1 (setDescBase (task.proc.ldt 1) base))
        2 (setDescBase (task.proc.ldt 2) base) } }

/-- `copyMem` for the new task in slot `nr`, with `cur` the contents of `CURRENT`. -/
def copyMem (s : TaskTable) (cur : Process) (nr : Slot) (task : Task) :
    Option (TaskTable × BitVec 32) :=
  let newBase := segmentBase nr
  let dataLimit := getDescLimit (cur.ldt 2)
  let oldCodeBase := getDescBase (cur.ldt 1)
  let oldDataBase := getDescBase (cur.ldt 2)
  if oldCodeBase ≠ oldDataBase then some (s, -1)
  else do
    let s := s.setTask nr (some (rebase task newBase))
    let (mem, shared) ← s.mem.shareSegment newBase oldDataBase dataLimit
    return ({ s with mem }, if shared then 0 else -1)

/-- The counts of what parent and child now share: open files and inodes. -/
def countFiles (s : TaskTable) (p : Process) : TaskTable :=
  { s with
    fCount := (List.finRange nrOpen).foldl (fun fCount i =>
      match p.filp i with
      | none => fCount
      | some f => Function.update fCount f (fCount f + 1)) s.fCount
    iCount := [p.pwd, p.root, p.executable].foldl (fun iCount inode =>
      match inode with
      | none => iCount
      | some i => Function.update iCount i (iCount i + 1)) s.iCount }

/-- The descriptors of the new task, which starts running. -/
def installTask (s : TaskTable) (nr : Slot) (task : Task) : TaskTable :=
  { s.setTask nr (some { task with proc := { task.proc with state := taskRunning } }) with
    gdt := Function.update
      (Function.update s.gdt (selectorFirstTaskTss.toNat / 8 + 2 * nr)
        (setGdtDesc (task.addr + offsetTss) (BitVec.ofNat 32 sizeofTss) da386Tss))
      (selectorFirstTaskLdt.toNat / 8 + 2 * nr)
      (setGdtDesc (task.addr + offsetLdt) sizeofLdt daLdt) }

def copyProcess (s : TaskTable) (cur : Process) (nr : Slot) (frame : UserFrame) :
    Option (TaskTable × BitVec 32) :=
  match s.mem.getFreePage with
  | (mem, p) =>
    let s := { s with mem }
    if p = 0 then some (s, -1)
    else do
      let task : Task := { addr := p, proc := cur.inherit p nr s.lastPid s.ticks frame }
      let (s, ret) ← (s.setTask nr (some task)).copyMem cur nr task
      if ret ≠ 0 then do
        let s := s.setTask nr none
        let mem ← s.mem.freePage p
        return ({ s with mem }, -1)
      else do
        let task ← s.tasks nr
        return ((s.countFiles cur).installTask nr task, s.lastPid)

/-- `sysFork`, called by the task `CURRENT`. -/
def sysFork (s : TaskTable) (frame : UserFrame) : Option (TaskTable × BitVec 32) := do
  let cur ← s.tasks s.current
  let (s, slot) ← s.findEmptyProcess
  match slot with
  | none => return (s, -1)
  | some nr => s.copyProcess cur.proc nr frame

/-! ### Runs -/

inductive Action
  | fork (frame : UserFrame)
  | fault (off : Nat)
  | store (off : Nat) (b : BitVec 8)
  | switch (nr : Slot) (ticks : BitVec 32)

/-- The steps of the current task: a fork, a write-protection fault, a store to
its segment; and the switch to another task at any time. -/
inductive Step : TaskTable → Action → TaskTable → Prop
  | fork {s s' : TaskTable} {frame : UserFrame} {ret : BitVec 32}
      (done : s.sysFork frame = some (s', ret)) : Step s (.fork frame) s'
  | fault {s : TaskTable} {off : Nat} {entry : BitVec 32} {mem : Memory} (user : s.current ≠ 0)
      (inside : off < segmentSize) (present : s.mem.walk (linear s.current off) = some entry)
      (readOnly : ¬ Writable entry)
      (done : s.mem.writeProtectPage (linear s.current off) = some mem) :
      Step s (.fault off) { s with mem }
  | store {s : TaskTable} {off : Nat} {b : BitVec 8} {mem : Memory} (user : s.current ≠ 0)
      (inside : off < segmentSize) (done : s.mem.storeByte (linear s.current off) b = some mem) :
      Step s (.store off b) { s with mem }
  | switch {s : TaskTable} {nr : Slot} {ticks : BitVec 32} (live : (s.tasks nr).isSome) :
      Step s (.switch nr ticks) { s with current := nr, ticks }

/-- What `initMemory` and `initSchedule` leave on a machine of 32 MB. -/
structure Initial (s : TaskTable) : Prop where
  mem : ∃ m : Memory, m.Booted ∧ m.initMemory 0x2000000 = some s.mem
  tasks : ∃ initTasks, s.tasks = fun nr =>
    if nr = 0 then some { addr := initTasks, proc := initTask initTasks } else none
  current : s.current = 0
  lastPid : s.lastPid = 0

def system : Transition.System TaskTable Action where
  init := Initial
  step := Step

/-- The page that holds the `PROCESS` of a slot other than 0. -/
def taskPage (s : TaskTable) (nr : Slot) : Option Nat :=
  if nr = 0 then none else (s.tasks nr).map fun task => frame task.addr

/-- The number of `TASKS[nr]`, `nr ≥ 1`, stored at frame `f`. -/
def pages (s : TaskTable) (f : Nat) : Nat := Sharing.count s.taskPage f

/-- Everything that refers to frame `f`. -/
def references (s : TaskTable) (f : Nat) : Nat := s.mem.mappings f + s.mem.tables f + s.pages f

/-! ### The invariant -/

structure Counted (s : TaskTable) : Prop where
  paged : Paged s.mem s.pages
  zero : (s.tasks 0).isSome
  current : (s.tasks s.current).isSome
  dir : ∀ nr : Slot, nr ≠ 0 → ((s.tasks nr).isSome ↔ Present (s.mem.page 0 (16 * nr)))
  base : ∀ nr task, s.tasks nr = some task →
    getDescBase (task.proc.ldt 1) = segmentBase nr ∧ getDescBase (task.proc.ldt 2) = segmentBase nr
  limit : ∀ nr task, s.tasks nr = some task → getDescLimit (task.proc.ldt 2) = segmentLimit

theorem pages_setTask {s : TaskTable} {nr : Slot} (user : nr ≠ 0) (free : s.tasks nr = none)
    {task : Task} {f : Nat} (here : frame task.addr = f) (unused : s.pages f = 0) :
    (s.setTask nr (some task)).pages = Function.update s.pages f 1 := by
  have moved : (s.setTask nr (some task)).taskPage = Function.update s.taskPage nr (some f) := by
    funext i
    by_cases same : i = nr
    · subst same
      simp [taskPage, setTask, user, here]
    · simp [taskPage, setTask, same]
  funext g
  have counted := Sharing.count_update s.taskPage nr (some f) g
  have before : s.taskPage nr = none := by simp [taskPage, free]
  rw [before, if_neg (by simp), Nat.add_zero] at counted
  rw [pages, moved, counted]
  by_cases same : g = f
  · subst same
    simpa [pages] using unused
  · have apart : f ≠ g := fun equal => same equal.symm
    simp [same, apart, pages]

theorem Counted.congr {s s' : TaskTable} (counted : Counted s) (mem : s'.mem = s.mem)
    (tasks : s'.tasks = s.tasks) (current : s'.current = s.current) : Counted s' := by
  have pages : s'.pages = s.pages := by
    funext f
    have same : s'.taskPage = s.taskPage := by
      funext nr
      simp only [taskPage, tasks]
    rw [TaskTable.pages, same, TaskTable.pages]
  constructor
  · rw [mem, pages]
    exact counted.paged
  · rw [tasks]
    exact counted.zero
  · rw [tasks, current]
    exact counted.current
  · rw [tasks, mem]
    exact counted.dir
  · rw [tasks]
    exact counted.base
  · rw [tasks]
    exact counted.limit

/-! ### Forks -/

theorem emptySlot_free {α : Type} {tasks : Slot → Option α} {nr : Slot}
    (found : emptySlot tasks = some nr) : tasks nr = none := by
  simpa using List.find?_some found

theorem copyMem_eq (s : TaskTable) {cur : Process} {base size : BitVec 32} (nr : Slot) (task : Task)
    (code : getDescBase (cur.ldt 1) = base) (data : getDescBase (cur.ldt 2) = base)
    (limit : getDescLimit (cur.ldt 2) = size) :
    s.copyMem cur nr task =
      (s.mem.shareSegment (segmentBase nr) base size).map fun (mem, shared) =>
        ({ s.setTask nr (some (rebase task (segmentBase nr))) with mem }, if shared then 0 else -1) := by
  simp only [copyMem, code, data, limit, ne_eq, not_true_eq_false, if_false]
  change (s.mem.shareSegment (segmentBase nr) base size).bind _ = _
  cases s.mem.shareSegment (segmentBase nr) base size with
  | none => rfl
  | some result => rfl

/-- The task a successful fork leaves in slot `nr`, with its `PROCESS` at `p`. -/
def forkedTask (s : TaskTable) (cur : Process) (nr : Slot) (frame : UserFrame) (p : BitVec 32) :
    Task :=
  rebase { addr := p, proc := cur.inherit p nr s.lastPid s.ticks frame } (segmentBase nr)

/-- `copyProcess` once it has a page: the segment is shared, or the page is given back. -/
theorem copyProcess_eq (s : TaskTable) {cur : Process} {base size : BitVec 32} {nr : Slot}
    {frame : UserFrame} {mem : Memory} {p : BitVec 32} (free : s.tasks nr = none)
    (code : getDescBase (cur.ldt 1) = base) (data : getDescBase (cur.ldt 2) = base)
    (limit : getDescLimit (cur.ldt 2) = size) (found : s.mem.getFreePage = (mem, p))
    (nonzero : p ≠ 0) :
    s.copyProcess cur nr frame =
      (mem.shareSegment (segmentBase nr) base size).bind fun (mem, shared) =>
        if shared then
          let task := s.forkedTask cur nr frame p
          some ((({ s with mem }.setTask nr (some task)).countFiles cur).installTask nr task, s.lastPid)
        else (mem.freePage p).map fun mem => ({ s with mem }, -1) := by
  simp only [copyProcess, found, nonzero, if_false, copyMem_eq _ nr _ code data limit]
  -- a failed copy gives the slot back
  have restored : Function.update s.tasks nr none = s.tasks := by
    rw [← free, Function.update_eq_self]
  cases shared : mem.shareSegment (segmentBase nr) base size with
  | none => simp [setTask, shared]
  | some result =>
    obtain ⟨mem', done⟩ := result
    cases done with
    | false =>
      simp only [setTask, shared, Option.map_some]
      cases freed : mem'.freePage p with
      | none => simp [freed]
      | some mem'' => simp [freed, restored]
    | true => simp [setTask, shared, forkedTask]

theorem forkedTask_base (s : TaskTable) (cur : Process) (nr : Slot) (frame : UserFrame)
    (p : BitVec 32) :
    getDescBase ((s.forkedTask cur nr frame p).proc.ldt 1) = segmentBase nr ∧
      getDescBase ((s.forkedTask cur nr frame p).proc.ldt 2) = segmentBase nr := by
  simp [forkedTask, rebase]

theorem forkedTask_limit (s : TaskTable) (cur : Process) (nr : Slot) (frame : UserFrame)
    (p : BitVec 32) :
    getDescLimit ((s.forkedTask cur nr frame p).proc.ldt 2) = getDescLimit (cur.ldt 2) := by
  have inherited : (s.forkedTask cur nr frame p).proc.ldt 2 =
      setDescBase (cur.ldt 2) (segmentBase nr) := by
    simp only [forkedTask, rebase, Process.inherit, Function.update_self]
  rw [inherited, getDescLimit_setDescBase]

/-- The task once it runs. -/
def running (task : Task) : Task := { task with proc := { task.proc with state := taskRunning } }

@[simp] theorem running_addr (task : Task) : (running task).addr = task.addr := rfl

@[simp] theorem running_ldt (task : Task) : (running task).proc.ldt = task.proc.ldt := rfl

@[simp] theorem forkedTask_addr (s : TaskTable) (cur : Process) (nr : Slot) (frame : UserFrame)
    (p : BitVec 32) : (s.forkedTask cur nr frame p).addr = p := rfl

theorem forked_tasks (s : TaskTable) (mem : Memory) (nr : Slot) (task : Task) (cur : Process) :
    ((({ s with mem }.setTask nr (some task)).countFiles cur).installTask nr task).tasks =
      Function.update s.tasks nr (some (running task)) := by
  simp only [installTask, countFiles, setTask, running, Function.update_idem]

/-- What a call of `copyProcess` can do to the task table: without a page for the
task nothing, after a failure of `copyMem` the slot is emptied again, otherwise
the new task is in it. -/
theorem copyProcess_cases {s s' : TaskTable} {cur : Process} {nr : Slot} {frame : UserFrame}
    {ret : BitVec 32} (done : s.copyProcess cur nr frame = some (s', ret)) :
    (ret = -1 ∧ (s'.tasks = s.tasks ∨ s'.tasks = Function.update s.tasks nr none)) ∨
      ret = s.lastPid ∧ ∃ p, s'.tasks =
        Function.update s.tasks nr (some (running (s.forkedTask cur nr frame p))) := by
  have minus : (-1 : BitVec 32) ≠ 0 := by decide
  simp only [copyProcess] at done
  split at done
  · obtain ⟨rfl, rfl⟩ := Prod.mk.inj (Option.some.inj done)
    exact Or.inl ⟨rfl, Or.inl rfl⟩
  -- a page was taken for the task; the rest may still fail and give it back
  next taken =>
    obtain ⟨⟨t, failed⟩, copied, rest⟩ := Option.bind_eq_some_iff.mp done
    by_cases same : getDescBase (cur.ldt 1) = getDescBase (cur.ldt 2)
    · simp only [copyMem, same, ne_eq, not_true_eq_false, if_false] at copied
      obtain ⟨⟨mem, shared⟩, _, result⟩ := Option.bind_eq_some_iff.mp copied
      obtain ⟨rfl, rfl⟩ := Prod.mk.inj (Option.some.inj result)
      -- the page tables are copied: the child is entered, or the slot emptied again
      cases shared with
      | false =>
        simp only [Bool.false_eq_true, if_false, minus, ne_eq, not_false_eq_true, if_true] at rest
        obtain ⟨mem', _, result⟩ := Option.bind_eq_some_iff.mp rest
        obtain ⟨rfl, rfl⟩ := Prod.mk.inj (Option.some.inj result)
        exact Or.inl ⟨rfl, Or.inr (by simp [setTask])⟩
      | true =>
        simp only [if_true, ne_eq, not_true_eq_false, if_false] at rest
        obtain ⟨task, there, result⟩ := Option.bind_eq_some_iff.mp rest
        obtain ⟨rfl, rfl⟩ := Prod.mk.inj (Option.some.inj result)
        simp only [setTask, Function.update_self, Option.some.injEq] at there
        subst there
        refine Or.inr ⟨by simp only [setTask], s.mem.getFreePage.2, ?_⟩
        simp only [installTask, countFiles, setTask, running, forkedTask, Function.update_idem]
    · simp only [copyMem, same, ne_eq, not_false_eq_true, if_true, Option.some.injEq,
        Prod.mk.injEq] at copied
      obtain ⟨rfl, rfl⟩ := copied
      simp only [minus, ne_eq, not_false_eq_true, if_true] at rest
      obtain ⟨mem', _, result⟩ := Option.bind_eq_some_iff.mp rest
      obtain ⟨rfl, rfl⟩ := Prod.mk.inj (Option.some.inj result)
      exact Or.inl ⟨rfl, Or.inr (by simp [setTask])⟩

/-- A new task with a page of its own and a table of its own. -/
theorem Counted.install {s s' : TaskTable} (counted : Counted s) {nr : Slot} {task : Task} {f : Nat}
    (user : nr ≠ 0) (free : s.tasks nr = none) (here : frame task.addr = f)
    (unused : s.pages f = 0) (paged : Paged s'.mem (Function.update s.pages f 1))
    (tasks : s'.tasks = Function.update s.tasks nr (some task)) (current : s'.current = s.current)
    (child : Present (s'.mem.page 0 (16 * nr)))
    (kept : ∀ n : Slot, n ≠ nr → s'.mem.page 0 (16 * n) = s.mem.page 0 (16 * n))
    (base : getDescBase (task.proc.ldt 1) = segmentBase nr ∧
      getDescBase (task.proc.ldt 2) = segmentBase nr)
    (limit : getDescLimit (task.proc.ldt 2) = segmentLimit) : Counted s' := by
  have others : ∀ n, n ≠ nr → s'.tasks n = s.tasks n := by
    intro n apart
    rw [tasks, Function.update_of_ne apart]
  have self : s'.tasks nr = some task := by
    rw [tasks, Function.update_self]
  -- the only page of a task that is new is that of the child
  have pages : s'.pages = Function.update s.pages f 1 := by
    rw [← pages_setTask user free here unused]
    funext g
    have same : s'.taskPage = (s.setTask nr (some task)).taskPage := by
      funext n
      simp only [taskPage, tasks, setTask]
    rw [TaskTable.pages, same, TaskTable.pages]
  -- every slot but that of the child is as it was
  constructor
  · rw [pages]
    exact paged
  · rw [others 0 user.symm]
    exact counted.zero
  · rw [current]
    by_cases same : s.current = nr
    · rw [same, self]
      rfl
    · rw [others _ same]
      exact counted.current
  · intro n user'
    by_cases same : n = nr
    · subst same
      rw [self]
      simp [child]
    · rw [others n same, kept n same]
      exact counted.dir n user'
  · intro n task' found
    by_cases same : n = nr
    · subst same
      obtain rfl := Option.some.inj (self.symm.trans found)
      exact base
    · rw [others n same] at found
      exact counted.base n task' found
  · intro n task' found
    by_cases same : n = nr
    · subst same
      obtain rfl := Option.some.inj (self.symm.trans found)
      exact limit
    · rw [others n same] at found
      exact counted.limit n task' found

/-- `copyProcess` with a free slot returns: nothing is left of a failed fork, and
after a successful one the counts follow the new task. -/
theorem Counted.copyProcess {s : TaskTable} (counted : Counted s) {cur : Task} {nr : Slot}
    (self : s.tasks s.current = some cur) (free : s.tasks nr = none) (frame : UserFrame) :
    ∃ s' ret, s.copyProcess cur.proc nr frame = some (s', ret) ∧ Counted s' := by
  have user : nr ≠ 0 := by
    rintro rfl
    have := counted.zero
    simp [free] at this
  have other : s.current ≠ nr := by
    rintro same
    rw [same, free] at self
    cases self
  -- a free slot has no page tables, as `copy_page_tables` needs it
  have absent : ¬ Present (s.mem.page 0 (16 * nr)) := by
    rw [← counted.dir nr user, free]
    simp
  have source : Present (s.mem.page 0 (16 * s.current)) := by
    by_cases kernel : s.current = 0
    · rw [kernel]
      exact counted.paged.dir_zero.1
    · exact (counted.dir _ kernel).mp counted.current
  obtain ⟨code, data⟩ := counted.base _ _ self
  have limit := counted.limit _ _ self
  rcases counted.paged.getFreePage with failed | ⟨f, main, unused, found, nonzero, claimed, _, _⟩
  · -- no page for the task
    exact ⟨s, -1, by simp [TaskTable.copyProcess, failed], counted⟩
  · have nonzero_f : 0 ≠ f := by
      have := main.1
      omega
    -- the new page is not the directory
    have kept : ∀ d, (s.mem.claimPage f).page 0 d = s.mem.page 0 d := by
      intro d
      simp [Memory.claimPage, nonzero_f]
    have apart : s.current.val ≠ nr.val := fun same => other (Fin.ext same)
    have nonzero_nr : nr.val ≠ 0 := fun zero => user (Fin.ext zero)
    rw [copyProcess_eq s free code data limit found nonzero]
    rcases claimed.shareSegment s.current.isLt nr.isLt nonzero_nr apart (by rw [kept]; exact absent)
      (by rw [kept]; exact source) with ⟨failed, _⟩ | ⟨mem, t, shared, paged, forked⟩
    · -- no page for the table: the page of the task is given back
      obtain ⟨freed, paged⟩ := claimed.freePage main unused.2.2
      refine ⟨{ s with mem := (s.mem.claimPage f).setCount f 0 }, -1, by simp [failed, freed], ?_⟩
      constructor
      · exact paged
      · exact counted.zero
      · exact counted.current
      · intro n user'
        change _ ↔ Present ((s.mem.claimPage f).page 0 (16 * n))
        rw [kept]
        exact counted.dir n user'
      · exact counted.base
      · exact counted.limit
    · refine ⟨_, s.lastPid, by simp only [shared, Option.bind_some, if_true]; rfl, ?_⟩
      have addr : OperatorSystem.Mm.frame
          (running (s.forkedTask cur.proc nr frame (pageAddr f))).addr = f := by
        rw [running_addr, forkedTask_addr]
        exact frame_pageAddr main.small
      apply counted.install user free addr unused.2.2 paged
        (forked_tasks s mem nr (s.forkedTask cur.proc nr frame (pageAddr f)) cur.proc) rfl
      · change Present (mem.page 0 (16 * nr))
        rw [forked.dir]
        exact present_freshEntry t
      · intro n different
        have distinct : n.val ≠ nr.val := fun same => different (Fin.ext same)
        change mem.page 0 (16 * n) = _
        rw [forked.dir_other claimed s.current.isLt (by rw [kept]; exact source) distinct, kept]
      · rw [running_ldt]
        exact forkedTask_base s cur.proc nr frame (pageAddr f)
      · rw [running_ldt, forkedTask_limit]
        exact limit

/-- `sysFork` when there is a free slot. -/
theorem sysFork_eq {s : TaskTable} {cur : Task} {lastPid : BitVec 32} {nr : Slot}
    (self : s.tasks s.current = some cur)
    (tried : freshPid s.tasks (nrTasks + 1) (s.lastPid + 1) = some lastPid)
    (found : emptySlot s.tasks = some nr) (frame : UserFrame) :
    s.sysFork frame = TaskTable.copyProcess { s with lastPid } cur.proc nr frame := by
  simp only [sysFork, self, findEmptyProcess, Option.bind_eq_bind, Option.bind_some]
  rw [tried, found]
  simp only [Option.pure_def, Option.bind_some]

theorem Counted.sysFork {s s' : TaskTable} (counted : Counted s) {frame : UserFrame}
    {ret : BitVec 32} (done : s.sysFork frame = some (s', ret)) : Counted s' := by
  obtain ⟨cur, self⟩ := Option.isSome_iff_exists.mp counted.current
  cases tried : freshPid s.tasks (nrTasks + 1) (s.lastPid + 1) with
  | none =>
    simp only [TaskTable.sysFork, self, findEmptyProcess, Option.bind_eq_bind, Option.bind_some] at done
    rw [tried] at done
    cases done
  | some lastPid =>
    -- the new pid alone changes nothing that is counted
    have renumbered : Counted { s with lastPid } := counted.congr rfl rfl rfl
    cases found : emptySlot s.tasks with
    | none =>
      simp only [TaskTable.sysFork, self, findEmptyProcess, Option.bind_eq_bind, Option.bind_some] at done
      rw [tried, found] at done
      obtain ⟨same, _⟩ := Prod.mk.inj (Option.some.inj done)
      exact same ▸ renumbered
    | some nr =>
      have free : s.tasks nr = none := emptySlot_free found
      obtain ⟨s'', ret', result, after⟩ := renumbered.copyProcess self free frame
      rw [sysFork_eq self tried found, result] at done
      obtain ⟨same, _⟩ := Prod.mk.inj (Option.some.inj done)
      exact same ▸ after

/-! ### Faults and stores -/

/-- A step that changes the memory but neither its directory nor the tasks. -/
theorem Counted.setMem {s : TaskTable} (counted : Counted s) {mem : Memory} (paged : Paged mem s.pages)
    (dir : ∀ d, mem.page 0 d = s.mem.page 0 d) : Counted { s with mem } := by
  constructor
  · exact paged
  · exact counted.zero
  · exact counted.current
  · intro nr user
    change _ ↔ Present (mem.page 0 (16 * nr))
    rw [dir]
    exact counted.dir nr user
  · exact counted.base
  · exact counted.limit

/-- A present entry of a user segment is an entry of the table of its slot. -/
theorem walk_cases {m : Memory} {nr : Slot} (user : nr ≠ 0) {off : Nat} (inside : off < segmentSize)
    {entry : BitVec 32} (present : m.walk (linear nr off) = some entry) :
    m.dirTarget (slotDir nr nr.isLt) = some (m.tableOf nr) ∧ Present entry ∧
      m.page (m.tableOf nr) (off / 4096) = entry ∧ off / 4096 < 1024 := by
  have index : off / 4096 < 1024 := by
    simp only [segmentSize] at inside
    omega
  have nonzero : nr.val ≠ 0 := fun zero => user (Fin.ext zero)
  rw [m.walk_linear nr.isLt inside] at present
  split at present
  next here =>
    obtain rfl := Option.some.inj present
    exact ⟨Memory.dirTarget_slotDir nr.isLt nonzero here.1, here.2, rfl, index⟩
  · cases present

theorem Counted.fault {s : TaskTable} (counted : Counted s) (user : s.current ≠ 0) {off : Nat}
    (inside : off < segmentSize) {entry : BitVec 32}
    (present : s.mem.walk (linear s.current off) = some entry) {mem : Memory}
    (done : s.mem.writeProtectPage (linear s.current off) = some mem) : Counted { s with mem } := by
  obtain ⟨table, here, rfl, index⟩ := walk_cases user inside present
  rw [Memory.writeProtectPage, dirIndex_linear s.current.isLt inside,
    tableIndex_linear s.current.isLt inside] at done
  change s.mem.unWriteProtectPage (s.mem.tableOf s.current) (off / 4096) = some mem at done
  rcases counted.paged.unWriteProtectPage (k := ⟨off / 4096, index⟩) table here with
    ⟨hangs, _⟩ | ⟨m', f, moved, paged, unshared⟩
  · rw [hangs] at done
    cases done
  · obtain rfl := Option.some.inj (moved.symm.trans done)
    apply counted.setMem paged
    intro d
    have low := unshared.main.1
    exact unshared.rest 0 d (by omega) fun zero =>
      absurd zero.symm (counted.paged.table_ne_zero table)

theorem Counted.store {s : TaskTable} (counted : Counted s) (user : s.current ≠ 0) {off : Nat}
    (inside : off < segmentSize) {b : BitVec 8} {mem : Memory}
    (done : s.mem.storeByte (linear s.current off) b = some mem) : Counted { s with mem } := by
  cases present : s.mem.walk (linear s.current off) with
  | none => simp [Memory.storeByte, present] at done
  | some entry =>
    simp only [Memory.storeByte, present, Option.bind_eq_bind, Option.bind_some] at done
    split at done
    next writable =>
      obtain ⟨table, here, rfl, index⟩ := walk_cases user inside present
      have owned : s.mem.look (slotDir s.current s.current.isLt, ⟨off / 4096, index⟩) =
          some (frame (s.mem.page (s.mem.tableOf s.current) (off / 4096)), true) := by
        rw [Memory.look_of_dirTarget table, decode_eq_some]
        exact ⟨here, rfl, by simp [writable.1]⟩
      have main := (counted.paged.sound.owned _ _ owned).1
      -- a page that may be written belongs to this task alone
      have exclusive := counted.paged.mapped_exclusive owned main
      obtain rfl := Option.some.inj done
      apply counted.setMem (counted.paged.scribble main exclusive.1 _).1
      intro d
      have nonzero : 0 ≠ frame (s.mem.page (s.mem.tableOf s.current) (off / 4096)) := by
        have low := main.1
        omega
      simp only [Function.update_of_ne nonzero]
    · cases done

/-! ### Whole runs -/

theorem Initial.counted {s : TaskTable} (initial : Initial s) : Counted s := by
  obtain ⟨m, booted, done⟩ := initial.mem
  obtain ⟨initTasks, tasks⟩ := initial.tasks
  -- task 0 is not in a page of main memory
  have unused : s.pages = fun _ => 0 := by
    funext f
    refine Sharing.count_eq_zero.mpr fun nr => ?_
    by_cases kernel : nr = 0 <;> simp [taskPage, tasks, kernel]
  -- task 0 is the only task
  have zero : ∀ nr task, s.tasks nr = some task →
      nr = 0 ∧ task = { addr := initTasks, proc := initTask initTasks } := by
    intro nr task found
    by_cases kernel : nr = 0
    · simp only [tasks, kernel, if_true, Option.some.injEq] at found
      exact ⟨kernel, found.symm⟩
    · simp [tasks, kernel] at found
  constructor
  · rw [unused]
    exact booted.paged done
  · simp [tasks]
  · simp [tasks, initial.current]
  · intro nr user
    have nonzero : nr.val ≠ 0 := fun same => user (Fin.ext same)
    have slot : nr.val < 64 := nr.isLt
    have absent := booted.empty (16 * nr.val) (by omega) (by omega)
    rw [(initMemory_memMap done).1]
    simp [tasks, user, absent]
  · intro nr task found
    obtain ⟨rfl, rfl⟩ := zero nr task found
    constructor
    · change getDescBase (setGdtDesc 0 0x9f _) = segmentBase 0
      decide
    · change getDescBase (setGdtDesc 0 0x9f _) = segmentBase 0
      decide
  · intro nr task found
    obtain ⟨rfl, rfl⟩ := zero nr task found
    change getDescLimit (setGdtDesc 0 0x9f _) = _
    decide

theorem Counted.step {s s' : TaskTable} {a : Action} (counted : Counted s) (taken : Step s a s') :
    Counted s' := by
  cases taken with
  | fork done => exact counted.sysFork done
  | fault user inside present _ done => exact counted.fault user inside present done
  | store user inside done => exact counted.store user inside done
  | switch live => exact ⟨counted.paged, counted.zero, live, counted.dir, counted.base, counted.limit⟩

/-- A page that `getFreePage` returns is referred to by nothing, and so is the
page the next call returns, which is another one. -/
theorem Counted.getFreePage_unused {s : TaskTable} (counted : Counted s) {mem : Memory}
    {p : BitVec 32} (found : s.mem.getFreePage = (mem, p)) (nonzero : p ≠ 0) :
    Main (frame p) ∧ s.references (frame p) = 0 ∧
      ∀ mem' q, mem.getFreePage = (mem', q) → q ≠ 0 →
        Main (frame q) ∧ s.references (frame q) = 0 ∧ frame q ≠ frame p := by
  rcases counted.paged.getFreePage with failed | ⟨f, main, unused, first, _, claimed, looks, dirs⟩
  · rw [failed] at found
    cases found
    exact absurd rfl nonzero
  · rw [first] at found
    cases found
    rw [frame_pageAddr main.small]
    refine ⟨main, by simp only [references]; omega, ?_⟩
    intro mem' q found' nonzero'
    -- the first page is claimed, so the second search does not find it
    rcases claimed.getFreePage with failed | ⟨g, main', unused', second, _⟩
    · rw [failed] at found'
      cases found'
      exact absurd rfl nonzero'
    · rw [second] at found'
      cases found'
      rw [frame_pageAddr main'.small]
      have apart : g ≠ f := by
        rintro rfl
        have := unused'.2.2
        simp at this
      have mappings : s.mem.mappings g = 0 := by
        rw [Memory.mappings, ← looks]
        exact unused'.1
      have tables : s.mem.tables g = 0 := by
        rw [Memory.tables, ← dirs]
        exact unused'.2.1
      have pages : s.pages g = 0 := by
        simpa [apart] using unused'.2.2
      exact ⟨main', by simp only [references]; omega, apart⟩

/-- In every run the count of each page of main memory is exactly the number of
its uses, which is far from the limit of 8 bits, and `getFreePage` returns no
page in use. -/
theorem counts_exact {hist : List (TaskTable × Action)} {s : TaskTable}
    (run : Transition.Run system hist s) :
    (∀ f, Main f → (s.mem.memMap f).toInt = s.mem.mappings f + s.mem.tables f + s.pages f ∧
      s.mem.mappings f + s.mem.tables f + s.pages f < 127) ∧
    ∀ mem p, s.mem.getFreePage = (mem, p) → p ≠ 0 →
      Main (frame p) ∧ s.references (frame p) = 0 ∧
        ∀ mem' q, mem.getFreePage = (mem', q) → q ≠ 0 →
          Main (frame q) ∧ s.references (frame q) = 0 ∧ frame q ≠ frame p := by
  have counted : Counted s := by
    apply Transition.Reachable.invariant (S := system) (I := Counted) (fun _ => Initial.counted)
      (fun _ _ _ => Counted.step) ⟨hist, run⟩
  constructor
  · intro f main
    have exact := counted.paged.sound.exact f main
    have few := counted.paged.memMap_le main
    simp only [Memory.mappings]
    omega
  · intro mem p found nonzero
    exact counted.getFreePage_unused found nonzero

/-! ### A run with a fork -/

/-- The state right after boot. -/
def booted (mem : Memory) : TaskTable where
  mem := mem
  tasks nr := if nr = 0 then some { addr := 0x20000, proc := initTask 0x20000 } else none
  current := 0
  lastPid := 0
  ticks := 0
  gdt _ := setGdtDesc 0 0 0
  fCount _ := 0
  iCount _ := 0

theorem booted_freshPid (mem : Memory) : freshPid (booted mem).tasks (nrTasks + 1) 1 = some 1 := by
  have unused : ¬ ∃ i, ((booted mem).tasks i).any fun task => task.proc.pid = 1 := by
    rintro ⟨i, found⟩
    by_cases kernel : i = 0 <;> simp [booted, kernel, initTask] at found
  rw [freshPid, if_neg unused]

theorem booted_emptySlot (mem : Memory) : emptySlot (booted mem).tasks = some 1 := by rfl

theorem forked_run : ∃ s a s', Transition.Run system [(s, .fork a)] s' := by
  have start : ∃ mem, Initial (booted mem) :=
    ⟨_, ⟨⟨Spaces.bootMemory, Spaces.booted_bootMemory, rfl⟩, ⟨0x20000, rfl⟩, rfl, rfl⟩⟩
  obtain ⟨mem, start⟩ := start
  let frame : UserFrame := ⟨0, 0, 0, 0, 0, 0, 0, 0, 0, 0, 0, 0, 0, 0, 0⟩
  have numbered : Counted { booted mem with lastPid := 1 } := start.counted.congr rfl rfl rfl
  have empty : ({ booted mem with lastPid := 1 } : TaskTable).tasks 1 = none := rfl
  obtain ⟨s', ret, done, _⟩ := numbered.copyProcess rfl empty frame
  have result : (booted mem).sysFork frame = some (s', ret) := by
    rw [sysFork_eq rfl (booted_freshPid mem) (booted_emptySlot mem)]
    exact done
  exact ⟨booted mem, frame, s', .step (.init start) (.fork result)⟩

theorem counts_exact_forked : ∃ s a s', Transition.Run system [(s, .fork a)] s' ∧
    (∀ f, Main f → (s'.mem.memMap f).toInt = s'.mem.mappings f + s'.mem.tables f + s'.pages f ∧
      s'.mem.mappings f + s'.mem.tables f + s'.pages f < 127) ∧
    ∀ mem p, s'.mem.getFreePage = (mem, p) → p ≠ 0 →
      Main (frame p) ∧ s'.references (frame p) = 0 ∧
        ∀ mem' q, mem.getFreePage = (mem', q) → q ≠ 0 →
          Main (frame q) ∧ s'.references (frame q) = 0 ∧ frame q ≠ frame p := by
  obtain ⟨s, a, s', run⟩ := forked_run
  exact ⟨s, a, s', run, counts_exact run⟩

end TaskTable

end OperatorSystem.Kernel
