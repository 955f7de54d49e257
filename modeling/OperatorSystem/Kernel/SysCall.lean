import Mathlib.Data.BitVec

/-!
# The system-call gate (`sysCall` in `int.asm`)

The gate saves the user registers, calls the function that `SYS_CALL_TABLE` has
for the number in `eax`, and restores the registers. It makes no comparison of
the number with the length of the table. The main result `gateSafe_iff` says
that a call is as it should be exactly if its number is one of the table.
-/

namespace OperatorSystem.Kernel

abbrev Word := BitVec 32

/-- The offsets of `state` and `counter` in `PROCESS`, and `TASK_RUNNING`. -/
def offsetState : Word := 0
def offsetCounter : Word := 4
def stateRunning : Word := 0

/-- The processor in the kernel, with a kernel stack and memory by double words.
A read of an absent page returns `none`. -/
structure Cpu where
  eax : Word
  ecx : Word
  edx : Word
  ebx : Word
  ebp : Word
  esi : Word
  edi : Word
  ds : BitVec 16
  es : BitVec 16
  fs : BitVec 16
  gs : BitVec 16
  ss : BitVec 16
  /-- The words on the kernel stack, the top first. -/
  stack : List Word
  mem : Word → Option Word

/-- What a C function may change: the scratch registers, memory, and its own arguments. -/
structure Effect where
  eax : Word
  ecx : Word
  edx : Word
  args : Nat → Word
  mem : Word → Option Word

/-- The kernel around the gate. -/
structure KernelImage where
  /-- The address of `SYS_CALL_TABLE`. -/
  sysCallTable : Word
  /-- The addresses of `sysFork`, `sysPause`, `sysSetup` and `sysWrite`. -/
  handlers : Fin 4 → Word
  /-- The address of the variable `CURRENT`. -/
  current : Word
  /-- A call of the code at an address. -/
  function : Word → Cpu → Effect
  schedule : Cpu → Effect

namespace Cpu

/-! ### Instructions -/

def push (s : Cpu) (w : Word) : Cpu := { s with stack := w :: s.stack }

/-- `add esp, 4 * n` -/
def drop (s : Cpu) (n : Nat) : Cpu := { s with stack := s.stack.drop n }

def popEax (s : Cpu) : Cpu :=
  match s.stack with
  | [] => s
  | w :: rest => { s with eax := w, stack := rest }

/-- The call of a C function with `n` argument words, up to its return. -/
def callC (s : Cpu) (n : Nat) (e : Effect) : Cpu :=
  { s with
    eax := e.eax
    ecx := e.ecx
    edx := e.edx
    stack := (List.range n).map e.args ++ s.stack.drop n
    mem := e.mem }

/-- `use_ring0` -/
def useRing0 (s : Cpu) : Cpu :=
  { s with edx := s.edx.extractLsb' 16 16 ++ s.ss, ds := s.ss, es := s.ss, fs := s.ss, gs := s.ss }

/-- `save_reg`: `ds` is pushed first and `edi` last. -/
def saveReg (s : Cpu) : Cpu :=
  { s with
    stack := s.edi :: s.esi :: s.ebp :: s.ebx :: s.edx :: s.ecx :: s.gs.setWidth 32 ::
      s.fs.setWidth 32 :: s.es.setWidth 32 :: s.ds.setWidth 32 :: s.stack }

/-- `load_reg`: ten pops, `edi` first. -/
def loadReg (s : Cpu) : Cpu :=
  match s.stack with
  | edi :: esi :: ebp :: ebx :: edx :: ecx :: gs :: fs :: es :: ds :: rest =>
    { s with
      edi, esi, ebp, ebx, edx, ecx
      gs := gs.setWidth 16
      fs := fs.setWidth 16
      es := es.setWidth 16
      ds := ds.setWidth 16
      stack := rest }
  | _ => s

/-! ### The gate -/

/-- `sysCall` up to the call through the table. -/
def enter (s : Cpu) : Cpu := (((s.saveReg.push s.ebx).push s.ecx).push s.edx).useRing0

/-- The double word at `SYS_CALL_TABLE + 4 * eax`. -/
def selected (k : KernelImage) (s : Cpu) : Option Word := s.enter.mem (k.sysCallTable + s.enter.eax * 4)

/-- The part of `sysCall` that may call `schedule`, with the result pushed. After
the first call `eax` no longer points to the task. -/
def reschedule (k : KernelImage) (s : Cpu) : Option Cpu := do
  let current ← s.mem k.current
  let s := { s with eax := current }
  let state ← s.mem (s.eax + offsetState)
  if state = stateRunning then return s
  else
    let s := s.callC 0 (k.schedule s)
    let counter ← s.mem (s.eax + offsetCounter)
    return if counter ≠ 0 then s else s.callC 0 (k.schedule s)

/-- `sysCall` up to `iret`, which returns to the frame on the stack. -/
def sysCall (k : KernelImage) (s : Cpu) : Option Cpu := do
  let target ← s.selected k
  let s := s.enter
  let s := (s.callC 3 (k.function target s)).drop 3
  let s := s.push s.eax
  let s ← s.reschedule k
  return s.popEax.loadReg

/-! ### The registers are restored -/

/-- Every register except `eax` has the value it had in the user program, and
the stack holds the frame that the interrupt has pushed. -/
structure Restored (s s' : Cpu) : Prop where
  ecx : s'.ecx = s.ecx
  edx : s'.edx = s.edx
  ebx : s'.ebx = s.ebx
  ebp : s'.ebp = s.ebp
  esi : s'.esi = s.esi
  edi : s'.edi = s.edi
  ds : s'.ds = s.ds
  es : s'.es = s.es
  fs : s'.fs = s.fs
  gs : s'.gs = s.gs
  frame : s'.stack = s.stack

/-- `load_reg` undoes `save_reg`, whatever the registers hold meanwhile. -/
theorem loadReg_saveReg {s t : Cpu} (saved : t.stack = s.saveReg.stack) :
    Restored s t.loadReg ∧ t.loadReg.eax = t.eax := by
  simp only [saveReg] at saved
  simp only [loadReg, saved]
  refine ⟨?_, trivial⟩
  constructor <;> simp

@[simp] theorem callC_stack (s : Cpu) (e : Effect) : (s.callC 0 e).stack = s.stack := by
  simp [callC]

/-- The words that `sysCall` has pushed when the handler starts: its arguments
and the saved registers. -/
theorem enter_stack (s : Cpu) : s.enter.stack = s.edx :: s.ecx :: s.ebx :: s.saveReg.stack := rfl

theorem enter_mem (s : Cpu) : s.enter.mem = s.mem := by
  simp only [enter, useRing0, push, saveReg]

theorem enter_eax (s : Cpu) : s.enter.eax = s.eax := by
  simp only [enter, useRing0, push, saveReg]

theorem selected_eq (k : KernelImage) (s : Cpu) :
    s.selected k = s.mem (k.sysCallTable + s.eax * 4) := by
  simp only [selected, enter_mem, enter_eax]

theorem reschedule_stack {k : KernelImage} {s s' : Cpu} (done : s.reschedule k = some s') :
    s'.stack = s.stack := by
  obtain ⟨current, _, rest⟩ := Option.bind_eq_some_iff.mp done
  obtain ⟨state, _, rest⟩ := Option.bind_eq_some_iff.mp rest
  split at rest
  · rw [← Option.some.inj rest]
  · obtain ⟨counter, _, result⟩ := Option.bind_eq_some_iff.mp rest
    rw [← Option.some.inj result]
    split
    · rw [callC_stack]
    · rw [callC_stack, callC_stack]

/-- A call that returns has restored the registers, and `eax` is the result of
the function that was called. -/
theorem sysCall_returns {k : KernelImage} {s s' : Cpu} {target : Word}
    (found : s.selected k = some target) (done : s.sysCall k = some s') :
    Restored s s' ∧ s'.eax = (k.function target s.enter).eax := by
  obtain ⟨target', found', rest⟩ := Option.bind_eq_some_iff.mp done
  obtain rfl : target = target' := Option.some.inj (found.symm.trans found')
  obtain ⟨t, rescheduled, result⟩ := Option.bind_eq_some_iff.mp rest
  rw [← Option.some.inj result]
  have stack : t.stack = (k.function target s.enter).eax :: s.saveReg.stack := by
    rw [reschedule_stack rescheduled]
    simp [push, drop, callC, enter_stack]
  have popped : t.popEax = { t with eax := (k.function target s.enter).eax, stack := s.saveReg.stack } := by
    simp only [popEax, stack]
  rw [popped]
  exact loadReg_saveReg rfl

/-! ### The safe calls -/

/-- The handler that the table lists under a number. -/
def listed (k : KernelImage) (number : Word) : Option Word :=
  if inside : number.toNat < 4 then some (k.handlers ⟨number.toNat, inside⟩) else none

/-- A call is as it should be: control goes to the handler listed under the
number and to nothing else, with the arguments from the registers, and a call
that returns has kept all registers but `eax`, which is the result of that
handler. A number outside the table runs no handler, and returns an error. -/
structure GateSafe (k : KernelImage) (s : Cpu) : Prop where
  dispatched : s.selected k = listed k s.eax
  arguments : s.enter.stack.take 3 = [s.edx, s.ecx, s.ebx]
  restored : ∀ s', s.sysCall k = some s' → Restored s s'
  result : ∀ handler s', listed k s.eax = some handler → s.sysCall k = some s' →
    s'.eax = (k.function handler s.enter).eax
  refused : listed k s.eax = none → ∃ s', s.sysCall k = some s' ∧ s'.eax.msb = true

/-- `SYS_CALL_TABLE` holds the addresses of the handlers. -/
def TableLoaded (k : KernelImage) (s : Cpu) : Prop :=
  ∀ i : Fin 4, s.mem (k.sysCallTable + BitVec.ofNat 32 i * 4) = some (k.handlers i)

/-- The gate never refuses a number: whatever it returns from has been called. -/
theorem number_of_gateSafe {k : KernelImage} {s : Cpu} (safe : GateSafe k s) : s.eax.toNat < 4 := by
  by_contra outside
  have unlisted : listed k s.eax = none := dif_neg outside
  obtain ⟨s', done, _⟩ := safe.refused unlisted
  obtain ⟨target, found, _⟩ := Option.bind_eq_some_iff.mp done
  -- the function that has been called stands nowhere in the table
  have nothing : s.selected k = none := safe.dispatched.trans unlisted
  rw [nothing] at found
  cases found

/-- The double word that a number of the table selects is its entry. -/
theorem selected_listed {k : KernelImage} {s : Cpu} (loaded : TableLoaded k s) (inside : s.eax.toNat < 4) :
    s.selected k = some (k.handlers ⟨s.eax.toNat, inside⟩) := by
  have entry := loaded ⟨s.eax.toNat, inside⟩
  rw [BitVec.ofNat_toNat, BitVec.setWidth_eq] at entry
  rw [selected_eq]
  exact entry

/-- With the table in memory, exactly the numbers of the table are safe. -/
theorem gateSafe_iff {k : KernelImage} {s : Cpu} (loaded : TableLoaded k s) :
    GateSafe k s ↔ s.eax.toNat < 4 := by
  refine ⟨number_of_gateSafe, fun inside => ?_⟩
  have found := selected_listed loaded inside
  have entry : listed k s.eax = some (k.handlers ⟨s.eax.toNat, inside⟩) := dif_pos inside
  constructor
  · exact found.trans entry.symm
  · rfl
  · intro s' done
    exact (sysCall_returns found done).1
  · intro handler s' given done
    obtain rfl : k.handlers ⟨s.eax.toNat, inside⟩ = handler := Option.some.inj (entry.symm.trans given)
    exact (sysCall_returns found done).2
  · intro unlisted
    rw [entry] at unlisted
    cases unlisted

/-! ### A number outside the table -/

/-- A kernel whose table lies at `0x50000`, with nothing behind it. -/
def smallKernel : KernelImage where
  sysCallTable := 0x50000
  handlers i := BitVec.ofNat 32 (0x30000 + 0x100 * i)
  current := 0x60000
  function _ s := { eax := 0, ecx := 0, edx := 0, args := fun _ => 0, mem := s.mem }
  schedule s := { eax := 0, ecx := 0, edx := 0, args := fun _ => 0, mem := s.mem }

def caller (number : Word) : Cpu where
  eax := number
  ecx := 1
  edx := 2
  ebx := 3
  ebp := 4
  esi := 5
  edi := 6
  ds := 0x17
  es := 0x17
  fs := 0x17
  gs := 0x17
  ss := 0x10
  stack := [0x400, 0x0f, 0x3202, 0x9fff0, 0x17]
  mem a :=
    if 0x50000 ≤ a.toNat ∧ a.toNat < 0x50010 then
      some (BitVec.ofNat 32 (0x30000 + 0x100 * ((a.toNat - 0x50000) / 4)))
    else some 0

theorem tableLoaded_caller (number : Word) : TableLoaded smallKernel (caller number) := by
  intro i
  change (caller 0).mem (0x50000 + BitVec.ofNat 32 i * 4) = some (BitVec.ofNat 32 (0x30000 + 0x100 * i))
  revert i
  decide

/-- `sysPause` has the number 1. -/
theorem gateSafe_iff_pause : GateSafe smallKernel (caller 1) :=
  (gateSafe_iff (tableLoaded_caller 1)).mpr (by decide)

/-- The number 4 selects the word behind the table, and 40000003h wraps around to the entry of `sysWrite`. -/
theorem gateSafe_lost : (¬ ∀ (k : KernelImage) (s : Cpu), TableLoaded k s → GateSafe k s) ∧
    (caller 4).selected smallKernel = some 0 ∧
    (caller 0x40000003).selected smallKernel = some (smallKernel.handlers 3) := by
  refine ⟨fun always => ?_, by decide, by decide⟩
  have number := number_of_gateSafe (always smallKernel (caller 4) (tableLoaded_caller 4))
  exact absurd number (by decide)

end Cpu

end OperatorSystem.Kernel
