import Mathlib.Data.Fin.VecNotation
import OperatorSystem.Kernel.Protect

/-!
# Processes (`process.h`) and process 0 (`initSchedule`)

A `Process` keeps the fields of `PROCESS` that the modelled functions read or
write. Pointers to files and inodes are their addresses.
-/

namespace OperatorSystem.Kernel

abbrev nrTasks : Nat := 64

/-- A process slot: an index of `TASKS`. -/
abbrev Slot := Fin nrTasks

instance : NeZero nrTasks := ⟨by decide⟩

/-- The slots the scheduler walks: 1..63. -/
def userSlots : List Slot := (List.finRange nrTasks).tail

theorem mem_userSlots {i : Slot} : i ∈ userSlots ↔ i ≠ 0 := by
  revert i
  decide

/-- The second loop of `findEmptyProcess`: the first free slot. -/
def emptySlot {α : Type} (tasks : Slot → Option α) : Option Slot :=
  (List.finRange nrTasks).find? fun i => (tasks i).isNone

def taskRunning : Int := 0
def taskInterruptible : Int := 1
def taskUninterruptible : Int := 2

def nrOpen : Nat := 20
def pageSize : BitVec 32 := 4096

def selectorKernelDs : BitVec 32 := 0x10
def selectorFirstTaskTss : BitVec 32 := 0x18
def selectorFirstTaskLdt : BitVec 32 := 0x20

/-- `TSS`: the task-state segment of a process. -/
structure Tss where
  backlink : BitVec 32 := 0
  esp0 : BitVec 32 := 0
  ss0 : BitVec 32 := 0
  esp1 : BitVec 32 := 0
  ss1 : BitVec 32 := 0
  esp2 : BitVec 32 := 0
  ss2 : BitVec 32 := 0
  cr3 : BitVec 32 := 0
  eip : BitVec 32 := 0
  flags : BitVec 32 := 0
  eax : BitVec 32 := 0
  ecx : BitVec 32 := 0
  edx : BitVec 32 := 0
  ebx : BitVec 32 := 0
  esp : BitVec 32 := 0
  ebp : BitVec 32 := 0
  esi : BitVec 32 := 0
  edi : BitVec 32 := 0
  es : BitVec 32 := 0
  cs : BitVec 32 := 0
  ss : BitVec 32 := 0
  ds : BitVec 32 := 0
  fs : BitVec 32 := 0
  gs : BitVec 32 := 0
  ldt : BitVec 32 := 0
  trap : BitVec 16 := 0
  iobase : BitVec 16 := 0

/-- `sizeof(TSS)` -/
def sizeofTss : Nat := 104

/-- The offsets of `ldt` and `tss` in `PROCESS`, and the size of `ldt`. -/
def offsetLdt : BitVec 32 := 696
def offsetTss : BitVec 32 := 720
def sizeofLdt : BitVec 32 := 24

structure Process where
  state : Int
  counter : Int
  priority : BitVec 32
  signal : BitVec 32
  blocked : BitVec 32
  pid : BitVec 32
  father : BitVec 32
  leader : BitVec 32
  alarm : BitVec 32
  startTime : BitVec 32
  pwd : Option Nat
  root : Option Nat
  executable : Option Nat
  filp : Fin nrOpen → Option Nat
  /-- Descriptors 0 (null), 1 (code) and 2 (data and stack). -/
  ldt : Fin 3 → Descriptor
  tss : Tss

def daLimit4k : BitVec 16 := 0x8000
def da32 : BitVec 16 := 0x4000
def daCr : BitVec 16 := 0x9a
def daDrw : BitVec 16 := 0x92
def privilegeUser : BitVec 16 := 0x60

/-- `INIT_TASKS[0].task` as `initSchedule` leaves it; `initTasks` is the address
the linker gives `INIT_TASKS`. -/
def initTask (initTasks : BitVec 32) : Process where
  state := 0
  counter := 15
  priority := 15
  signal := 0
  blocked := 0
  pid := 0
  father := -1
  leader := 0
  alarm := 0
  startTime := 0
  pwd := none
  root := none
  executable := none
  filp := fun _ => none
  ldt := ![setGdtDesc 0 0 0,
    setGdtDesc 0 0x9f (daLimit4k ||| da32 ||| daCr ||| privilegeUser),
    setGdtDesc 0 0x9f (daLimit4k ||| da32 ||| daDrw ||| privilegeUser)]
  tss :=
    let user := selectorKernelDs ||| 4 ||| 3
    { esp0 := initTasks + pageSize, ss0 := selectorKernelDs, es := user, cs := user, ss := user,
      ds := user, fs := user, gs := user, ldt := selectorFirstTaskLdt,
      iobase := BitVec.ofNat 16 sizeofTss }

/-- What `sysCall` and the CPU have left on the kernel stack when `copyProcess`
runs, in the order of its parameters after `nr` (the system-call arguments
`edx`, `ecx`, `ebx` and the return address are not used). -/
structure UserFrame where
  edi : BitVec 32
  esi : BitVec 32
  ebp : BitVec 32
  ebx : BitVec 32
  edx : BitVec 32
  ecx : BitVec 32
  gs : BitVec 32
  fs : BitVec 32
  es : BitVec 32
  ds : BitVec 32
  eip : BitVec 32
  cs : BitVec 32
  eflags : BitVec 32
  esp : BitVec 32
  ss : BitVec 32

/-- The fields `copyProcess` sets in the child at address `p` after
`*p = *CURRENT`; the child stays `TASK_UNINTERRUPTIBLE` until it is complete. -/
def Process.inherit (current : Process) (p : BitVec 32) (nr : Slot) (lastPid ticks : BitVec 32)
    (frame : UserFrame) : Process :=
  { current with
    state := taskUninterruptible
    pid := lastPid
    father := current.pid
    counter := current.priority.toInt
    signal := 0
    alarm := 0
    leader := 0
    startTime := ticks
    tss := { current.tss with
      backlink := 0
      esp0 := p + pageSize
      ss0 := selectorKernelDs
      eip := frame.eip
      flags := frame.eflags
      eax := 0
      ecx := frame.ecx
      edx := frame.edx
      ebx := frame.ebx
      esp := frame.esp
      ebp := frame.ebp
      esi := frame.esi
      edi := frame.edi
      es := frame.es &&& 0xffff
      cs := frame.cs &&& 0xffff
      ss := frame.ss &&& 0xffff
      ds := frame.ds &&& 0xffff
      fs := frame.fs &&& 0xffff
      gs := frame.gs &&& 0xffff
      ldt := BitVec.ofNat 32 (nr.val <<< 4) + selectorFirstTaskLdt
      trap := 0
      iobase := BitVec.ofNat 16 sizeofTss } }

end OperatorSystem.Kernel
