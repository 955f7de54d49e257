import OperatorSystem.Kernel.Fork
import OperatorSystem.Kernel.SysCall

/-!
# The context of a fork: `sysCall`, `sysFork` and `copyProcess`

The twenty parameters of `copyProcess` are the words that the interrupt,
`save_reg`, `sysCall` and `sysFork` have left on the kernel stack, the return
address into `sysCall` among them. The main result `fork_context` says that the
child starts with the registers of its parent and 0 in `eax`, and that the
parent goes on with its own and the pid of the child.
-/

namespace OperatorSystem.Kernel

def nrFork : Word := 0

/-- What a program in ring 3 has in the processor. -/
structure UserContext where
  eax : Word
  ecx : Word
  edx : Word
  ebx : Word
  ebp : Word
  esi : Word
  edi : Word
  eip : Word
  eflags : Word
  esp : Word
  cs : BitVec 16
  ss : BitVec 16
  ds : BitVec 16
  es : BitVec 16
  fs : BitVec 16
  gs : BitVec 16

/-- `int 0x80` from ring 3: the processor takes the empty kernel stack of the
task and pushes `ss`, `esp`, `eflags`, `cs` and `eip`. What it pushes above the
16 bits of a selector is `csHigh` and `ssHigh`. -/
def UserContext.interrupt (u : UserContext) (kernelSs csHigh ssHigh : BitVec 16)
    (mem : Word → Option Word) : Cpu where
  eax := u.eax
  ecx := u.ecx
  edx := u.edx
  ebx := u.ebx
  ebp := u.ebp
  esi := u.esi
  edi := u.edi
  ds := u.ds
  es := u.es
  fs := u.fs
  gs := u.gs
  ss := kernelSs
  stack := [u.eip, csHigh ++ u.cs, u.eflags, u.esp, ssHigh ++ u.ss]
  mem := mem

/-- A task switch to the TSS loads the context `u`. -/
structure Loads (tss : Tss) (u : UserContext) : Prop where
  eax : tss.eax = u.eax
  ecx : tss.ecx = u.ecx
  edx : tss.edx = u.edx
  ebx : tss.ebx = u.ebx
  ebp : tss.ebp = u.ebp
  esi : tss.esi = u.esi
  edi : tss.edi = u.edi
  eip : tss.eip = u.eip
  flags : tss.flags = u.eflags
  esp : tss.esp = u.esp
  cs : tss.cs = u.cs.setWidth 32
  ss : tss.ss = u.ss.setWidth 32
  ds : tss.ds = u.ds.setWidth 32
  es : tss.es = u.es.setWidth 32
  fs : tss.fs = u.fs.setWidth 32
  gs : tss.gs = u.gs.setWidth 32

/-- The parameters of `copyProcess`, in its order from the top of the stack on:
`nr`, and after the unused `none`, `edx`, `ecx` and `ebx` those of the frame. -/
def parameters : List Word → Option (Word × UserFrame)
  | nr :: _ :: _ :: _ :: _ :: edi :: esi :: ebp :: ebx :: edx :: ecx :: gs :: fs :: es :: ds ::
      eip :: cs :: eflags :: esp :: ss :: _ =>
    some (nr, { edi, esi, ebp, ebx, edx, ecx, gs, fs, es, ds, eip, cs, eflags, esp, ss })
  | _ => none

/-- `TASKS[nr]` is an entry of the table. -/
def slotOf (nr : Word) : Option Slot :=
  if inside : nr.toNat < nrTasks then some ⟨nr.toNat, inside⟩ else none

/-- What a C function leaves in the scratch registers and in memory. -/
structure Scratch where
  ecx : Word
  edx : Word
  mem : Word → Option Word

namespace Cpu

/-- A C function has returned with `eax`. Neither `findEmptyProcess` nor
`copyProcess` assigns to a parameter, so the words on the stack are as before. -/
def returned (s : Cpu) (eax : Word) (left : Scratch) : Cpu :=
  s.callC 0 { eax, ecx := left.ecx, edx := left.edx, args := fun _ => 0, mem := left.mem }

def slotWord : Option Slot → Word
  | none => -1
  | some nr => BitVec.ofNat 32 nr

/-- `sysFork`, with the stack at its entry. -/
def sysFork (table : TaskTable) (s : Cpu) (left : Fin 2 → Scratch) : Option (TaskTable × Cpu) := do
  let (table, slot) ← table.findEmptyProcess
  let s := s.returned (slotWord slot) (left 0)
  if s.eax = -1 then return (table, s)
  else
    let s := s.push s.eax
    let (nr, frame) ← parameters s.stack
    let nr ← slotOf nr
    let cur ← table.tasks table.current
    let (table, ret) ← table.copyProcess cur.proc nr frame
    return (table, (s.returned ret (left 1)).drop 1)

/-- `sysCall` for the number of `sysFork`; `back` is the return address its call
through the table pushes. -/
def forkCall (k : KernelImage) (table : TaskTable) (s : Cpu) (back : Word) (left : Fin 2 → Scratch) :
    Option (TaskTable × Cpu) := do
  let target ← s.selected k
  if target ≠ k.handlers 0 then none
  else
    let (table, s) ← (s.enter.push back).sysFork table left
    let s := (s.drop 1).drop 3
    let s := s.push s.eax
    let s ← s.reschedule k
    return (table, s.popEax.loadReg)

/-- `iret` to ring 3. -/
def iret (s : Cpu) : Option UserContext :=
  match s.stack with
  | eip :: cs :: eflags :: esp :: ss :: _ =>
    some
      { eax := s.eax, ecx := s.ecx, edx := s.edx, ebx := s.ebx, ebp := s.ebp, esi := s.esi
        edi := s.edi, eip, eflags, esp, cs := cs.setWidth 16, ss := ss.setWidth 16, ds := s.ds
        es := s.es, fs := s.fs, gs := s.gs }
  | _ => none

/-! ### The parameters -/

theorem slotOf_slotWord (nr : Slot) : slotOf (slotWord (some nr)) = some nr := by
  have small : nr.val < 64 := nr.isLt
  have value : (BitVec.ofNat 32 nr.val).toNat = nr.val := by
    rw [BitVec.toNat_ofNat]
    omega
  simp only [slotOf, slotWord, value, nr.isLt, dif_pos]

theorem slotWord_ne {nr : Slot} : slotWord (some nr) ≠ -1 := by
  intro same
  have value := congrArg BitVec.toNat same
  have small : nr.val < 64 := nr.isLt
  simp only [slotWord, BitVec.toNat_ofNat] at value
  have minus : (-1 : Word).toNat = 2 ^ 32 - 1 := rfl
  omega

/-- The frame that `copyProcess` finds when the context `u` has called. -/
def UserContext.frame (u : UserContext) (csHigh ssHigh : BitVec 16) : UserFrame where
  edi := u.edi
  esi := u.esi
  ebp := u.ebp
  ebx := u.ebx
  edx := u.edx
  ecx := u.ecx
  gs := u.gs.setWidth 32
  fs := u.fs.setWidth 32
  es := u.es.setWidth 32
  ds := u.ds.setWidth 32
  eip := u.eip
  cs := csHigh ++ u.cs
  eflags := u.eflags
  esp := u.esp
  ss := ssHigh ++ u.ss

theorem and_ffff (w : BitVec 32) : w &&& 0xffff = (w.setWidth 16).setWidth 32 := by
  apply BitVec.eq_of_toNat_eq
  rw [BitVec.toNat_and, BitVec.toNat_setWidth, BitVec.toNat_setWidth]
  change w.toNat &&& (2 ^ 16 - 1) = _
  rw [Nat.and_two_pow_sub_one_eq_mod]
  omega

theorem setWidth_append (high low : BitVec 16) : (high ++ low : BitVec 32).setWidth 16 = low := by
  apply BitVec.eq_of_getLsbD_eq
  intro i small
  rw [BitVec.getLsbD_setWidth, BitVec.getLsbD_append]
  simp [small]

theorem low_append (high low : BitVec 16) : (high ++ low : BitVec 32) &&& 0xffff = low.setWidth 32 := by
  rw [and_ffff, setWidth_append]

theorem low_setWidth (low : BitVec 16) : (low.setWidth 32 : BitVec 32) &&& 0xffff = low.setWidth 32 := by
  rw [and_ffff, BitVec.setWidth_setWidth_of_le low (by omega), BitVec.setWidth_eq]

/-- The task state that `copyProcess` fills in from the frame. -/
theorem inherit_loads (cur : Process) (p : BitVec 32) (nr : Slot) (lastPid ticks : BitVec 32)
    (u : UserContext) (csHigh ssHigh : BitVec 16) :
    Loads (cur.inherit p nr lastPid ticks (UserContext.frame u csHigh ssHigh)).tss { u with eax := 0 } := by
  constructor <;> first | rfl | exact low_append _ _ | exact low_setWidth _

/-! ### The two returns -/

@[simp] theorem returned_stack (s : Cpu) (eax : Word) (left : Scratch) :
    (s.returned eax left).stack = s.stack := by
  simp [returned]

@[simp] theorem returned_eax (s : Cpu) (eax : Word) (left : Scratch) :
    (s.returned eax left).eax = eax := rfl

@[simp] theorem push_stack (s : Cpu) (w : Word) : (s.push w).stack = w :: s.stack := rfl

/-- An argument pushed before a call and dropped after it. -/
theorem returned_drop (s : Cpu) (eax eax' w : Word) (left left' : Scratch) :
    (((s.returned eax left).push w).returned eax' left').drop 1 = s.returned eax' left' := by
  simp [returned, callC, push, drop]

@[simp] theorem drop_eax (s : Cpu) (n : Nat) : (s.drop n).eax = s.eax := rfl

theorem parameters_nr {nr nr' : Word} {stack : List Word} {frame : UserFrame}
    (read : parameters (nr :: stack) = some (nr', frame)) : nr' = nr := by
  unfold parameters at read
  split at read
  next same =>
    cases same
    exact (Prod.mk.inj (Option.some.inj read)).1.symm
  · cases read

/-- `sysFork` returns as a C function does, and has called `copyProcess` with the
parameters below its own argument if there was a free slot. -/
theorem sysFork_cases {table table' : TaskTable} {s s' : Cpu} {left : Fin 2 → Scratch}
    (done : s.sysFork table left = some (table', s')) :
    (∃ scratch, s' = s.returned s'.eax scratch) ∧
      (table'.tasks = table.tasks ∨
        ∃ (renumbered : TaskTable) (nr : Slot) (cur : Process) (frame : UserFrame),
          renumbered.tasks = table.tasks ∧ table.tasks nr = none ∧
          parameters (slotWord (some nr) :: s.stack) = some (slotWord (some nr), frame) ∧
          TaskTable.copyProcess renumbered cur nr frame = some (table', s'.eax)) := by
  -- a call that comes back has gone through each of its statements
  obtain ⟨⟨found, slot⟩, searched, rest⟩ := Option.bind_eq_some_iff.mp done
  obtain ⟨lastPid, _, result⟩ := Option.bind_eq_some_iff.mp searched
  obtain ⟨rfl, empty⟩ := Prod.mk.inj (Option.some.inj result)
  cases slot with
  | none =>
    simp only [returned_eax, slotWord, if_true, Option.pure_def, Option.some.injEq,
      Prod.mk.injEq] at rest
    obtain ⟨rfl, rfl⟩ := rest
    exact ⟨⟨left 0, rfl⟩, Or.inl rfl⟩
  | some nr =>
    simp only [returned_eax, slotWord_ne, if_false, push_stack, returned_stack] at rest
    obtain ⟨⟨nr', frame⟩, read, rest⟩ := Option.bind_eq_some_iff.mp rest
    obtain rfl := parameters_nr read
    simp only [slotOf_slotWord, Option.bind_eq_bind, Option.bind_some] at rest
    obtain ⟨cur, _, rest⟩ := Option.bind_eq_some_iff.mp rest
    obtain ⟨⟨table'', ret⟩, copied, result⟩ := Option.bind_eq_some_iff.mp rest
    obtain ⟨rfl, rfl⟩ := Prod.mk.inj (Option.some.inj result)
    rw [returned_drop]
    have free := TaskTable.emptySlot_free empty
    refine ⟨⟨left 1, rfl⟩, Or.inr ⟨{ table with lastPid }, nr, cur.proc, frame, rfl, free, read, ?_⟩⟩
    rw [returned_eax]
    exact copied

theorem sysFork_copies {table found table' : TaskTable} {s : Cpu} {left : Fin 2 → Scratch} {nr : Slot}
    {frame : UserFrame} {cur : Task} {ret : Word} (searched : table.findEmptyProcess = some (found, some nr))
    (read : parameters (slotWord (some nr) :: s.stack) = some (slotWord (some nr), frame))
    (self : found.tasks found.current = some cur)
    (copied : found.copyProcess cur.proc nr frame = some (table', ret)) :
    s.sysFork table left = some (table', s.returned ret (left 1)) := by
  rw [sysFork, searched]
  simp only [Option.bind_eq_bind, Option.bind_some, returned_eax, slotWord_ne, if_false, push_stack,
    returned_stack, read, slotOf_slotWord, self, copied, returned_drop, Option.pure_def]

/-- The gate with the number of `sysFork` is the gate of `sysCall`, where the
function of the table has the effect of `sysFork`. -/
theorem forkCall_cases {k : KernelImage} {table table' : TaskTable} {s s' : Cpu} {back : Word}
    {left : Fin 2 → Scratch} (done : s.forkCall k table back left = some (table', s')) :
    ∃ t, (s.enter.push back).sysFork table left = some (table', t) ∧ Restored s s' ∧ s'.eax = t.eax := by
  obtain ⟨target, found, rest⟩ := Option.bind_eq_some_iff.mp done
  split at rest
  · cases rest
  obtain ⟨⟨table'', t⟩, forked, rest⟩ := Option.bind_eq_some_iff.mp rest
  obtain ⟨u, rescheduled, result⟩ := Option.bind_eq_some_iff.mp rest
  obtain ⟨rfl, rfl⟩ := Prod.mk.inj (Option.some.inj result)
  refine ⟨t, forked, ?_⟩
  obtain ⟨scratch, same⟩ := (sysFork_cases forked).1
  -- for the gate, the whole of `fork` is one C function with this effect
  let effect : Effect :=
    { eax := t.eax, ecx := scratch.ecx, edx := scratch.edx, args := fun _ => 0, mem := scratch.mem }
  let k' : KernelImage := { k with function := fun _ _ => effect }
  have after : ((s.enter.callC 3 effect).drop 3).push effect.eax = ((t.drop 1).drop 3).push t.eax := by
    rw [same]
    simp [returned, callC, push, drop, effect]
  have gate : s.sysCall k' = some u.popEax.loadReg := by
    refine Option.bind_eq_some_iff.mpr ⟨target, found, ?_⟩
    refine Option.bind_eq_some_iff.mpr ⟨u, ?_, rfl⟩
    exact (congrArg (reschedule k) after).trans rescheduled
  exact sysCall_returns (k := k') found gate

/-- `iret` to the frame of the interrupt, with the registers restored. -/
theorem Restored.iret {u : UserContext} {kernelSs csHigh ssHigh : BitVec 16}
    {mem : Word → Option Word} {s' : Cpu}
    (restored : Restored (u.interrupt kernelSs csHigh ssHigh mem) s') :
    s'.iret = some { u with eax := s'.eax } := by
  have low : ∀ high low : BitVec 16, (high ++ low : BitVec 32).setWidth 16 = low := setWidth_append
  simp only [Cpu.iret, restored.frame, restored.ecx, restored.edx, restored.ebx, restored.ebp,
    restored.esi, restored.edi, restored.ds, restored.es, restored.fs, restored.gs,
    UserContext.interrupt, low]

/-- The child starts in the context of the parent with 0 in `eax`, and the parent
goes on in its own context with the pid of the child. -/
theorem fork_context {k : KernelImage} {table table' : TaskTable} {u : UserContext}
    {kernelSs csHigh ssHigh : BitVec 16} {mem : Word → Option Word} {back : Word}
    {left : Fin 2 → Scratch} {s' : Cpu} {nr : Slot} {task : Task}
    (done : (u.interrupt kernelSs csHigh ssHigh mem).forkCall k table back left = some (table', s'))
    (free : table.tasks nr = none) (forked : table'.tasks nr = some task) :
    Loads task.proc.tss { u with eax := 0 } ∧ s'.eax = task.proc.pid ∧
      s'.iret = some { u with eax := task.proc.pid } := by
  obtain ⟨t, called, restored, eax⟩ := forkCall_cases done
  rcases (sysFork_cases called).2 with same | ⟨renumbered, n, cur, frame, tasks, empty, read, copied⟩
  · rw [same, free] at forked
    cases forked
  -- the parameters of `copyProcess` are the words that the interrupt has pushed
  have frame_eq : frame = UserContext.frame u csHigh ssHigh :=
    (Prod.mk.inj (Option.some.inj read)).2.symm
  rcases TaskTable.copyProcess_cases copied with ⟨_, same | same⟩ | ⟨ret, p, same⟩
  · rw [same, tasks, free] at forked
    cases forked
  · rw [same, tasks, ← empty, Function.update_eq_self, free] at forked
    cases forked
  · rw [same, tasks] at forked
    obtain rfl : nr = n := by
      by_contra other
      rw [Function.update_of_ne other, free] at forked
      cases forked
    rw [Function.update_self, frame_eq] at forked
    obtain rfl := Option.some.inj forked
    have pid : s'.eax = renumbered.lastPid := eax.trans ret
    refine ⟨inherit_loads cur p nr renumbered.lastPid renumbered.ticks u csHigh ssHigh, pid, ?_⟩
    change s'.iret = some { u with eax := renumbered.lastPid }
    rw [← pid]
    exact restored.iret

/-! ### A fork right after boot -/

/-- The number of `sysFork` selects it. -/
theorem selected_nrFork {k : KernelImage} {s : Cpu} (loaded : TableLoaded k s)
    (number : s.eax = nrFork) : s.selected k = some (k.handlers 0) := by
  rw [selected_eq, number]
  exact loaded 0

/-- An empty page directory, and frame 1 as the only free one. -/
def oneFree : Mm.Memory where
  page _ _ := 0
  memMap f := if f = 1 then 0 else 1

theorem oneFree_getFreePage : oneFree.getFreePage = (oneFree.claimPage 1, 0x1000) := by
  rcases oneFree.getFreePage_cases with ⟨_, full⟩ | ⟨f, _, zero, found⟩
  · exact absurd rfl (full 1 (by decide))
  · obtain rfl : f = 1 := by
      by_contra other
      simp [oneFree, other] at zero
    exact found

/-- The context of a program that calls `fork`. -/
def forking : UserContext where
  eax := nrFork
  ecx := 1
  edx := 2
  ebx := 3
  ebp := 4
  esi := 5
  edi := 6
  eip := 0x400
  eflags := 0x3202
  esp := 0x9fff0
  cs := 0x0f
  ss := 0x17
  ds := 0x17
  es := 0x17
  fs := 0x17
  gs := 0x17

theorem booted_copyProcess (lastPid : BitVec 32) (frame : UserFrame) :
    ∃ table', TaskTable.copyProcess { TaskTable.booted oneFree with lastPid } (initTask 0x20000) 1
        frame = some (table', lastPid) ∧ (table'.tasks 1).isSome := by
  have found : ({ TaskTable.booted oneFree with lastPid } : TaskTable).mem.getFreePage =
      (oneFree.claimPage 1, 0x1000) := oneFree_getFreePage
  have code : getDescBase ((initTask 0x20000).ldt 1) = 0 := by decide
  have data : getDescBase ((initTask 0x20000).ldt 2) = 0 := by decide
  have limit : getDescLimit ((initTask 0x20000).ldt 2) = Mm.segmentLimit := by decide
  have shared : (oneFree.claimPage 1).shareSegment (Mm.segmentBase (1 : Slot)) 0 Mm.segmentLimit =
      some (oneFree.claimPage 1, true) := by
    -- no table is present yet, so the copy makes none
    have empty : ∀ d, ¬ Mm.Present ((oneFree.claimPage 1).page 0 d) := by
      intro d
      simp only [Mm.Memory.claimPage, oneFree, Function.update_of_ne (show 0 ≠ 1 by decide)]
      decide
    have copied : (oneFree.claimPage 1).copyPageTables (Mm.segmentBase (1 : Slot)) (Mm.segmentBase 0)
        (Mm.segmentLimit + 1) = (oneFree.claimPage 1, 0) := by
      rw [Mm.copyPageTables_segment _ (by decide) (by decide)]
      simp only [Mm.Memory.copyDirs, empty, not_false_eq_true, if_true, if_false]
    have base : Mm.segmentBase 0 = 0 := by decide
    rw [base] at copied
    simp only [Mm.Memory.shareSegment, copied, ne_eq, not_true_eq_false, if_false]
  rw [TaskTable.copyProcess_eq _ rfl code data limit found (by decide), shared]
  refine ⟨_, rfl, ?_⟩
  rw [TaskTable.forked_tasks, Function.update_self]
  rfl

theorem booted_findEmptyProcess : (TaskTable.booted oneFree).findEmptyProcess =
    some ({ TaskTable.booted oneFree with lastPid := 1 }, some 1) := by
  have first : (TaskTable.booted oneFree).lastPid + 1 = 1 := by decide
  rw [TaskTable.findEmptyProcess, first, TaskTable.booted_freshPid, TaskTable.booted_emptySlot]
  rfl

theorem smallKernel_reschedule {s : Cpu} (mem : s.mem = (caller 0).mem) :
    ∃ s', s.reschedule smallKernel = some s' := by
  have current : s.mem smallKernel.current = some 0 := by
    rw [mem]
    decide
  have state : s.mem (0 + offsetState) = some stateRunning := by
    rw [mem]
    decide
  refine ⟨{ s with eax := 0 }, ?_⟩
  refine Option.bind_eq_some_iff.mpr ⟨0, current, ?_⟩
  exact Option.bind_eq_some_iff.mpr ⟨stateRunning, state, if_pos rfl⟩

theorem forking_forkCall {s : Cpu} (gate : s = forking.interrupt 0x10 0 0 (caller 0).mem) :
    ∃ table' s', s.forkCall smallKernel (TaskTable.booted oneFree) 0x30400
      (fun _ => ⟨0, 0, (caller 0).mem⟩) = some (table', s') ∧ (table'.tasks 1).isSome := by
  have selected : s.selected smallKernel = some (smallKernel.handlers 0) :=
    gate ▸ selected_nrFork (tableLoaded_caller 0) rfl
  obtain ⟨table', copied, forked⟩ := booted_copyProcess 1 (UserContext.frame forking 0 0)
  have read : parameters (slotWord (some 1) :: 0x30400 :: s.enter.stack) =
      some (slotWord (some 1), UserContext.frame forking 0 0) := gate ▸ rfl
  have called : (s.enter.push 0x30400).sysFork (TaskTable.booted oneFree)
      (fun _ => ⟨0, 0, (caller 0).mem⟩) =
        some (table', (s.enter.push 0x30400).returned 1 ⟨0, 0, (caller 0).mem⟩) :=
    sysFork_copies booted_findEmptyProcess read rfl copied
  obtain ⟨u, rescheduled⟩ := smallKernel_reschedule (s := (((s.enter.push 0x30400).returned 1
    ⟨0, 0, (caller 0).mem⟩).drop 1 |>.drop 3).push 1) (by simp only [returned, callC, push, drop])
  refine ⟨table', u.popEax.loadReg, ?_, forked⟩
  rw [forkCall, selected]
  simp only [Option.bind_eq_bind, Option.bind_some, ne_eq, not_true_eq_false, if_false, called,
    drop_eax, returned_eax, rescheduled, Option.pure_def]

theorem fork_context_forking : ∃ table' s' task,
    (forking.interrupt 0x10 0 0 (caller 0).mem).forkCall smallKernel (TaskTable.booted oneFree) 0x30400
      (fun _ => ⟨0, 0, (caller 0).mem⟩) = some (table', s') ∧
    (TaskTable.booted oneFree).tasks 1 = none ∧ table'.tasks 1 = some task ∧
    Loads task.proc.tss { forking with eax := 0 } ∧ s'.eax = task.proc.pid ∧
      s'.iret = some { forking with eax := task.proc.pid } := by
  obtain ⟨table', s', done, forked⟩ := forking_forkCall rfl
  obtain ⟨task, forked⟩ := Option.isSome_iff_exists.mp forked
  have free : (TaskTable.booted oneFree).tasks 1 = none := rfl
  exact ⟨table', s', task, done, free, forked, fork_context done free forked⟩

end Cpu

end OperatorSystem.Kernel
