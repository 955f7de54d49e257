import OperatorSystem.Kernel.Descriptors
import OperatorSystem.Kernel.Gdt

/-!
# What a task can reach (`process.c`, `protect.h`, `setup.asm`)

A program of ring 3 names a descriptor of `GDT` or of the descriptors of its
task, and the processor checks the descriptor before it goes through the page
tables. The main result `user_confined` puts both together: whatever a task
names, it stores only into pages that are its own, and loads only from pages
that it maps, no table, no `PROCESS`, and nothing of the kernel but the pages
that all tasks share.
-/

namespace OperatorSystem.Kernel

open OperatorSystem.Mm

/-! ### The checks of the processor -/

namespace Segment

variable (s : Segment)

/-- A segment of memory that is there, and not a system descriptor. -/
def memory : Bool := s.attr.getLsbD 7 && s.attr.getLsbD 4

def code : Bool := s.attr.getLsbD 3

/-- Bit 1: code may be read, data may be written. -/
def access : Bool := s.attr.getLsbD 1

/-- Bit 2: conforming code, or data that expands down. -/
def direction : Bool := s.attr.getLsbD 2

def ring : BitVec 2 := s.attr.extractLsb' 5 2

/-- Ring 3 may load through the segment. -/
def readable : Bool := s.memory && (!s.code || s.access) && (s.code && s.direction || s.ring == 3)

/-- Ring 3 may store through the segment. -/
def writable : Bool := s.memory && !s.code && s.access && s.ring == 3

/-- The offset is inside the limit. -/
def covers (off : BitVec 32) : Prop :=
  if !s.code && s.direction then s.last < off else off ≤ s.last

variable {s}

theorem readable_of_writable (may : s.writable = true) : s.readable = true := by
  simp only [writable, Bool.and_eq_true] at may
  obtain ⟨⟨⟨memory, data⟩, _⟩, ring⟩ := may
  simp only [readable, memory, data, ring, Bool.true_or, Bool.or_true, Bool.and_self]

end Segment

/-- A descriptor that a program names. -/
inductive Selector
  | gdt (i : Nat)
  | ldt (i : Fin 3)

namespace TaskTable

def descriptor (s : TaskTable) (task : Task) : Selector → Descriptor
  | .gdt i => s.gdt i
  | .ldt i => task.proc.ldt i

/-- `GDT` as `setup` fills it, `cinit` copies it and `initSchedule` completes it. -/
def kernelGdt (initTasks : BitVec 32) (i : Nat) : Descriptor :=
  if i = 1 then setGdtDesc 0 0xfffff (da32 ||| daLimit4k ||| daCr)
  else if i = 2 then setGdtDesc 0 0xfffff (da32 ||| daLimit4k ||| daDrw)
  else if i = 3 then setGdtDesc (initTasks + offsetTss) (BitVec.ofNat 32 sizeofTss) da386Tss
  else if i = 4 then setGdtDesc (initTasks + offsetLdt) sizeofLdt daLdt
  else setGdtDesc 0 0 0

/-- The runs of `system` from a boot with this table. -/
def machine : Transition.System TaskTable Action where
  init s := Initial s ∧ ∃ task, s.tasks 0 = some task ∧ s.gdt = kernelGdt task.addr
  step := Step

/-! ### The descriptors of all tables -/

/-- Ring 3 gets nothing through `GDT`. -/
def Closed (s : TaskTable) : Prop :=
  ∀ i seg, Segment.decode (s.gdt i).bytes = some seg → seg.readable = false

/-- The segments of the task in slot `nr`: 640 KB from its base on, as code and as data. -/
structure Segments (nr : Slot) (task : Task) : Prop where
  null : Segment.decode (task.proc.ldt 0).bytes = some ⟨0, 0, 0⟩
  code : Segment.decode (task.proc.ldt 1).bytes = some ⟨segmentBase nr, 0x9f, 0xC0FA⟩
  data : Segment.decode (task.proc.ldt 2).bytes = some ⟨segmentBase nr, 0x9f, 0xC0F2⟩

/-- No segment of ring 3 has these attributes, whatever its base and limit. -/
theorem closed_setGdtDesc {base limit : BitVec 32} {attr : BitVec 16} {seg : Segment}
    (hidden : (⟨0, 0, attr &&& 0xF0FF⟩ : Segment).readable = false)
    (decoded : Segment.decode (setGdtDesc base limit attr).bytes = some seg) : seg.readable = false := by
  rw [decode_setGdtDesc] at decoded
  obtain rfl := Option.some.inj decoded
  exact hidden

theorem closed_kernelGdt (initTasks : BitVec 32) {i : Nat} {seg : Segment}
    (decoded : Segment.decode (kernelGdt initTasks i).bytes = some seg) : seg.readable = false := by
  unfold kernelGdt at decoded
  repeat' split at decoded
  all_goals exact closed_setGdtDesc (by decide) decoded

theorem Closed.fork {s s' : TaskTable} (closed : Closed s) {frame : UserFrame} {ret : BitVec 32}
    (done : s.sysFork frame = some (s', ret)) : Closed s' := by
  rcases fork_cases done with ⟨_, gdt⟩ | ⟨nr, task, _, _, _, gdt⟩
  · intro i seg decoded
    rw [gdt] at decoded
    exact closed i seg decoded
  · intro i seg decoded
    rw [gdt] at decoded
    -- the two new descriptors are of system segments
    by_cases ldt : i = ldtIndex nr
    · rw [ldt, Function.update_self] at decoded
      exact closed_setGdtDesc (by decide) decoded
    · rw [Function.update_of_ne ldt] at decoded
      by_cases tss : i = tssIndex nr
      · rw [tss, Function.update_self] at decoded
        exact closed_setGdtDesc (by decide) decoded
      · rw [Function.update_of_ne tss] at decoded
        exact closed i seg decoded

theorem segments_initTask (initTasks : BitVec 32) : Segments 0 ⟨initTasks, initTask initTasks⟩ where
  null := decode_setGdtDesc 0 0 0
  code := decode_setGdtDesc 0 0x9f _
  data := decode_setGdtDesc 0 0x9f _

/-- Only the bases of the segments change. -/
theorem Segments.fork {slot : Slot} {cur : Task} (segments : Segments slot cur) (s : TaskTable) (nr : Slot)
    (frame : UserFrame) (p : BitVec 32) : Segments nr (running (s.forkedTask cur.proc nr frame p)) := by
  have moved (d : Descriptor) {base : BitVec 32} {limit : BitVec 20} {attr : BitVec 16}
      (before : Segment.decode d.bytes = some ⟨base, limit, attr⟩) :
      Segment.decode (setDescBase d (segmentBase nr)).bytes = some ⟨segmentBase nr, limit, attr⟩ := by
    obtain ⟨limit', attr', here, there⟩ := decode_setDescBase d (segmentBase nr)
    obtain ⟨_, rfl, rfl⟩ := Segment.mk.inj (Option.some.inj (here.symm.trans before))
    exact there
  constructor
  · exact segments.null
  · exact moved _ segments.code
  · exact moved _ segments.data

/-- What a fork does to the tasks: nothing, or one child of the current task in a free slot. -/
theorem fork_child {s s' : TaskTable} {frame : UserFrame} {ret : BitVec 32}
    (done : s.sysFork frame = some (s', ret)) :
    s'.tasks = s.tasks ∨ ∃ (cur : Task) (nr : Slot) (numbered : TaskTable) (p : BitVec 32),
      s.tasks s.current = some cur ∧ s.tasks nr = none ∧
      s'.tasks = Function.update s.tasks nr (some (running (numbered.forkedTask cur.proc nr frame p))) := by
  obtain ⟨cur, self, rest⟩ := Option.bind_eq_some_iff.mp done
  obtain ⟨⟨numbered, slot⟩, searched, rest⟩ := Option.bind_eq_some_iff.mp rest
  obtain ⟨lastPid, _, same⟩ := Option.bind_eq_some_iff.mp searched
  obtain ⟨rfl, rfl⟩ := Prod.mk.inj (Option.some.inj same)
  cases found : emptySlot s.tasks with
  | none =>
    rw [found] at rest
    obtain ⟨rfl, _⟩ := Prod.mk.inj (Option.some.inj rest)
    exact .inl rfl
  | some nr =>
    rw [found] at rest
    have free := emptySlot_free found
    rcases copyProcess_cases rest with ⟨_, same | same⟩ | ⟨_, p, same⟩
    · exact .inl same
    · -- the slot is given back
      refine .inl (same.trans ?_)
      rw [← free, Function.update_eq_self]
    · exact .inr ⟨cur, nr, _, p, self, free, same⟩

/-! ### Whole runs -/

structure Guarded (s : TaskTable) : Prop where
  counted : Counted s
  closed : Closed s
  segments : ∀ nr task, s.tasks nr = some task → Segments nr task

theorem guarded_init {s : TaskTable} (start : machine.init s) : Guarded s := by
  obtain ⟨initial, boot, self, gdt⟩ := start
  refine ⟨initial.counted, ?_, ?_⟩
  · intro i seg decoded
    rw [gdt] at decoded
    exact closed_kernelGdt boot.addr decoded
  · intro nr task live
    obtain ⟨initTasks, tasks⟩ := initial.tasks
    -- task 0 is the only one
    by_cases kernel : nr = 0
    · simp only [tasks, kernel, if_true, Option.some.injEq] at live
      rw [kernel, ← live]
      exact segments_initTask initTasks
    · simp [tasks, kernel] at live

theorem Guarded.fork {s s' : TaskTable} (guarded : Guarded s) {frame : UserFrame} {ret : BitVec 32}
    (done : s.sysFork frame = some (s', ret)) : Guarded s' := by
  refine ⟨guarded.counted.sysFork done, guarded.closed.fork done, ?_⟩
  intro nr task live
  rcases fork_child done with same | ⟨cur, new, numbered, p, self, _, same⟩
  · rw [same] at live
    exact guarded.segments nr task live
  · rw [same] at live
    by_cases here : nr = new
    · rw [here, Function.update_self] at live
      rw [here, ← Option.some.inj live]
      exact (guarded.segments s.current cur self).fork numbered new frame p
    · rw [Function.update_of_ne here] at live
      exact guarded.segments nr task live

theorem Guarded.step {s s' : TaskTable} {a : Action} (guarded : Guarded s) (taken : Step s a s') : Guarded s' := by
  have counted := guarded.counted.step taken
  cases taken with
  | fork done => exact guarded.fork done
  | fault => exact ⟨counted, guarded.closed, guarded.segments⟩
  | store => exact ⟨counted, guarded.closed, guarded.segments⟩
  | switch => exact ⟨counted, guarded.closed, guarded.segments⟩

theorem guarded_of_run {hist : List (TaskTable × Action)} {s : TaskTable} (run : Transition.Run machine hist s) :
    Guarded s :=
  Transition.Reachable.invariant (S := machine) (I := Guarded) (fun _ => guarded_init)
    (fun _ _ _ => Guarded.step) ⟨hist, run⟩

/-! ### Where an access ends -/

/-- The offsets of a segment of 160 pages that does not expand down. -/
theorem reach {seg : Segment} {base off : BitVec 32} {attr : BitVec 16} (here : seg = ⟨base, 0x9f, attr⟩)
    (pages : attr.getLsbD 15 = true) (up : attr.getLsbD 2 = false) (covered : seg.covers off) :
    off.toNat < segmentSize ∧ seg.base + off = base + BitVec.ofNat 32 off.toNat := by
  subst here
  have last : Segment.last ⟨base, 0x9f, attr⟩ = 0x9ffff := by
    rw [Segment.last, if_pos pages]
    change (0x9f : BitVec 20).setWidth 32 <<< 12 ||| 0xfff = (0x9ffff : BitVec 32)
    decide
  have direction : Segment.direction ⟨base, 0x9f, attr⟩ = false := up
  rw [Segment.covers, direction, Bool.and_false, if_neg Bool.false_ne_true, last, BitVec.le_def] at covered
  rw [BitVec.ofNat_toNat, BitVec.setWidth_eq]
  exact ⟨Nat.lt_succ_of_le covered, rfl⟩

/-- A segment through which ring 3 may load is one of the two of the task, and the address is one
of the 640 KB of its slot. -/
theorem Guarded.linear {s : TaskTable} (guarded : Guarded s) {nr : Slot} {task : Task}
    (live : s.tasks nr = some task) {sel : Selector} {seg : Segment}
    (decoded : Segment.decode (s.descriptor task sel).bytes = some seg) (may : seg.readable = true) {off : BitVec 32}
    (covered : seg.covers off) :
    off.toNat < segmentSize ∧ seg.base + off = OperatorSystem.Mm.linear nr off.toNat := by
  have segments := guarded.segments nr task live
  cases sel with
  | gdt i =>
    -- ring 3 gets nothing from this table
    rw [guarded.closed i seg decoded] at may
    cases may
  | ldt i =>
    have named : i = 0 ∨ i = 1 ∨ i = 2 := by omega
    rcases named with rfl | rfl | rfl
    · obtain rfl := Option.some.inj (decoded.symm.trans segments.null)
      cases may
    · exact reach (Option.some.inj (decoded.symm.trans segments.code)) rfl rfl covered
    · exact reach (Option.some.inj (decoded.symm.trans segments.data)) rfl rfl covered

/-- An entry in the page table of the slot is present and points at the frame. Slot 0 has no
table of its own but the identity tables of the kernel. -/
def Maps (s : TaskTable) (nr : Slot) (f : Nat) : Prop :=
  ∃ k w, s.mem.look (slotDir nr nr.isLt, k) = some (f, w)

/-- The frame is a page of main memory that the task in slot `nr` maps, once, and that is
in no other use. -/
structure Own (s : TaskTable) (nr : Slot) (f : Nat) : Prop where
  main : Main f
  alone : ∀ other, s.Maps other f ↔ other = nr
  single : s.references f = 1

/-- A writable entry has its page for itself. -/
theorem Counted.own {s : TaskTable} (counted : Counted s) {nr : Slot} {k : Fin 1024} {f : Nat}
    (writable : s.mem.look (slotDir nr nr.isLt, k) = some (f, true)) : Own s nr f := by
  obtain ⟨main, once⟩ := counted.paged.sound.owned _ _ writable
  obtain ⟨noTable, noProcess⟩ := counted.paged.mapped_exclusive writable main
  refine ⟨main, ?_, ?_⟩
  · intro other
    constructor
    · rintro ⟨l, w, found⟩
      have same := Sharing.refs_unique once.le found writable
      have dirs : 16 * other.val = 16 * nr.val := congrArg Fin.val (Prod.mk.inj same).1
      exact Fin.ext (by omega)
    · rintro rfl
      exact ⟨k, true, writable⟩
  · have mapped : s.mem.mappings f = 1 := once
    rw [references, mapped, noTable, noProcess]

/-- A present entry of a task maps a page of main memory that is no table and no `PROCESS`, or
one of the low pages, for loads only. -/
theorem Counted.mapped {s : TaskTable} (counted : Counted s) {nr : Slot} (user : nr ≠ 0) {off : Nat}
    (inside : off < segmentSize) {entry : BitVec 32}
    (present : s.mem.walk (OperatorSystem.Mm.linear nr off) = some entry) :
    s.Maps nr (frame entry) ∧ (Writable entry → Own s nr (frame entry)) ∧
      (Main (frame entry) ∧ s.mem.tables (frame entry) = 0 ∧ s.pages (frame entry) = 0 ∨ frame entry < 160) := by
  obtain ⟨table, here, rfl, index⟩ := walk_cases user inside present
  let k : Fin 1024 := ⟨off / 4096, index⟩
  have looked : s.mem.look (slotDir nr nr.isLt, k) = some (frame (s.mem.page (s.mem.tableOf nr) (off / 4096)),
      decide (Writable (s.mem.page (s.mem.tableOf nr) (off / 4096)))) := by
    rw [Memory.look_of_dirTarget table, decode_eq_some]
    exact ⟨here, rfl, rfl⟩
  refine ⟨⟨k, _, looked⟩, ?_, ?_⟩
  · intro writable
    rw [decide_eq_true writable] at looked
    exact counted.own looked
  · obtain ⟨low, main | ⟨shared, _⟩⟩ := counted.paged.entries _ _ _ _ looked
    · exact .inl ⟨main, counted.paged.mapped_exclusive looked main⟩
    · right
      rw [shared]
      exact low

/-- Whatever a task other than 0 names: a store changes one byte, in the page its own tables give
for the address, which is a page of its own; and a load takes the byte from the page its tables
give, which is no page table and no `PROCESS`, or one of the first 640 KB. -/
theorem user_confined {hist : List (TaskTable × Action)} {s : TaskTable} (run : Transition.Run machine hist s)
    {nr : Slot} {task : Task} (live : s.tasks nr = some task) (user : nr ≠ 0) {sel : Selector} {seg : Segment}
    (decoded : Segment.decode (s.descriptor task sel).bytes = some seg) {off : BitVec 32} (covered : seg.covers off) :
    (seg.writable = true → ∀ b mem, s.mem.storeByte (seg.base + off) b = some mem →
      ∃ entry, s.mem.walk (seg.base + off) = some entry ∧ Own s nr (frame entry) ∧
        mem = { s.mem with
          page := Function.update s.mem.page (frame entry)
            (Memory.setByte (s.mem.page (frame entry)) (byteIndex (seg.base + off)) b) }) ∧
    (seg.readable = true → ∀ b, s.mem.readByte (seg.base + off) = some b →
      ∃ entry, s.mem.walk (seg.base + off) = some entry ∧ s.Maps nr (frame entry) ∧
        b = Memory.byte (s.mem.page (frame entry)) (byteIndex (seg.base + off)) ∧
        (Main (frame entry) ∧ s.mem.tables (frame entry) = 0 ∧ s.pages (frame entry) = 0 ∨
          frame entry < 160)) := by
  have guarded := guarded_of_run run
  constructor
  · intro may b mem stored
    obtain ⟨inside, address⟩ := guarded.linear live decoded (Segment.readable_of_writable may) covered
    obtain ⟨entry, present, rest⟩ := Option.bind_eq_some_iff.mp stored
    obtain ⟨⟨writable, _⟩, result⟩ := Option.ite_none_right_eq_some.mp rest
    have mapped := guarded.counted.mapped user inside (address ▸ present)
    exact ⟨entry, present, mapped.2.1 writable, (Option.some.inj result).symm⟩
  · intro may b loaded
    obtain ⟨inside, address⟩ := guarded.linear live decoded may covered
    obtain ⟨entry, present, value⟩ := Option.map_eq_some_iff.mp loaded
    obtain ⟨maps, _, place⟩ := guarded.counted.mapped user inside (address ▸ present)
    exact ⟨entry, present, maps, value.symm, place⟩

/-- The first child is forked, runs, and gets a page of its own for its first byte. -/
theorem run_unshared : ∃ (hist : List (TaskTable × Action)) (s : TaskTable) (mem : Memory),
    Transition.Run machine hist s ∧ (s.tasks 1).isSome ∧ s.mem.storeByte (segmentBase (1 : Slot) + 0) 7 = some mem := by
  obtain ⟨mem, initial⟩ : ∃ mem, Initial { booted mem with gdt := kernelGdt 0x20000 } :=
    ⟨_, ⟨⟨Spaces.bootMemory, Spaces.booted_bootMemory, rfl⟩, ⟨0x20000, rfl⟩, rfl, rfl⟩⟩
  obtain ⟨s, taken, packed, mapped⟩ :=
    initial.packed.fork (by decide) ⟨0, 0, 0, 0, 0, 0, 0, 0, 0, 0, 0, 0, 0, 0, 0⟩
  have run : Transition.Run machine _ s := .step (.init ⟨initial, _, rfl, rfl⟩) taken
  have live : (s.tasks 1).isSome := (packed.tasks 1).mpr (by decide)
  have inside : 0 < segmentSize := by decide
  have user : (1 : Slot) ≠ 0 := by decide
  have paged := packed.counted.paged
  have switched : Transition.Run machine _ { s with current := 1, ticks := 0 } := run.step (.switch live)
  -- its pages are those of task 0, so the first store faults
  have one : 1 < 64 := by decide
  have present := mapped.walk one inside
  have table := Memory.dirTarget_slotDir one (by decide) mapped.dir
  have looked : s.mem.look (slotDir 1 (by decide), 0) = some (frame (s.mem.page (s.mem.tableOf 1) 0),
      decide (Writable (s.mem.page (s.mem.tableOf 1) 0))) := by
    rw [Memory.look_of_dirTarget table, decode_eq_some]
    exact ⟨mapped.entry 0 (by decide), rfl, rfl⟩
  have readOnly : ¬ Writable (s.mem.page (s.mem.tableOf 1) 0) := by
    obtain ⟨_, main | ⟨_, readOnly⟩⟩ := paged.entries _ _ _ _ looked
    · exact absurd main (packed.low _ _ _ looked)
    · simpa using readOnly
  obtain ⟨g, main, free⟩ := free_of_low paged packed.low s.processFrames
    (by have := s.card_processFrames; omega) fun _ => mem_processFrames
  rcases paged.unWriteProtectPage (k := 0) table (mapped.entry 0 (by decide)) with
    ⟨_, full⟩ | ⟨mem', f, done, paged', unshared⟩
  · exact absurd free (Memory.used_of_getFreePage full g main.2)
  have fault : s.mem.writeProtectPage (linear 1 0) = some mem' := by
    rw [Memory.writeProtectPage, dirIndex_linear (by decide) inside, tableIndex_linear (by decide) inside]
    exact done
  obtain ⟨mem'', stored, _⟩ := unshared.storeByte paged paged' (by decide) (by decide) mapped inside 7
  exact ⟨_, _, mem'', switched.step (.fault user inside present readOnly fault), live, stored⟩

/-- That child stores through its data segment, and loads what was there. -/
theorem user_confined_child : ∃ (hist : List (TaskTable × Action)) (s : TaskTable) (task : Task) (mem : Memory)
    (b : BitVec 8), Transition.Run machine hist s ∧ s.tasks 1 = some task ∧
      s.mem.storeByte (segmentBase (1 : Slot) + 0) 7 = some mem ∧
      s.mem.readByte (segmentBase (1 : Slot) + 0) = some b ∧
      (∃ entry, s.mem.walk (segmentBase (1 : Slot) + 0) = some entry ∧ Own s 1 (frame entry) ∧
        mem = { s.mem with
          page := Function.update s.mem.page (frame entry)
            (Memory.setByte (s.mem.page (frame entry)) (byteIndex (segmentBase (1 : Slot) + 0)) 7) }) ∧
      ∃ entry, s.mem.walk (segmentBase (1 : Slot) + 0) = some entry ∧ s.Maps 1 (frame entry) ∧
        b = Memory.byte (s.mem.page (frame entry)) (byteIndex (segmentBase (1 : Slot) + 0)) ∧
        (Main (frame entry) ∧ s.mem.tables (frame entry) = 0 ∧ s.pages (frame entry) = 0 ∨
          frame entry < 160) := by
  obtain ⟨hist, s, mem, run, alive, stored⟩ := run_unshared
  obtain ⟨task, live⟩ := Option.isSome_iff_exists.mp alive
  obtain ⟨entry, present, _⟩ := Option.bind_eq_some_iff.mp stored
  have loaded : s.mem.readByte (segmentBase (1 : Slot) + 0) =
      some (Memory.byte (s.mem.page (frame entry)) (byteIndex (segmentBase (1 : Slot) + 0))) := by
    rw [Memory.readByte, present, Option.map_some]
  have covered : Segment.covers ⟨segmentBase (1 : Slot), 0x9f, 0xC0F2⟩ 0 := by
    rw [Segment.covers]
    decide
  have decoded : Segment.decode (s.descriptor task (.ldt 2)).bytes = some ⟨segmentBase (1 : Slot), 0x9f, 0xC0F2⟩ :=
    ((guarded_of_run run).segments 1 task live).data
  have confined := user_confined run live (by decide) decoded covered
  exact ⟨hist, s, task, mem, _, run, live, stored, loaded, confined.1 rfl 7 mem stored, confined.2 rfl _ loaded⟩

end TaskTable

end OperatorSystem.Kernel
