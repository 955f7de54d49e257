import OperatorSystem.Chr.Console
import OperatorSystem.Mm.CopyOnWrite

/-!
# Writing to a terminal (`read_write.c`, `char_dev.c`, `tty.c`)

A system call runs with flat kernel segments, and the address of the user
buffer reaches `ttyWrite` as the task passed it. The module records every load
that `ttyWrite` makes through that address and compares the bytes with those
the task reads at the same offsets of its own segment.
-/

namespace OperatorSystem.Chr

open OperatorSystem.Kernel (Slot)
open OperatorSystem.Mm
open OperatorSystem.Mm.Memory (byte)

/-! ### The write path -/

def opost : BitVec 32 := 0x01
def olcuc : BitVec 32 := 0x02
def onlcr : BitVec 32 := 0x04
def ocrnl : BitVec 32 := 0x08
def onlret : BitVec 32 := 0x20

/-- The first two branches of the translation of a character. -/
def mapReturn (oflag : BitVec 32) (c : BitVec 8) : BitVec 8 :=
  if c = 13 ∧ oflag &&& ocrnl ≠ 0 then 10
  else if c = 10 ∧ oflag &&& onlret ≠ 0 then 13
  else c

/-- The variables of `ttyWrite`, its terminal, and the loads made so far through `b`. -/
structure Writing where
  tty : Tty
  b : BitVec 32
  nr : Nat
  crFlag : Bool
  loads : List (BitVec 32 × BitVec 8)

namespace Writing

/-- A character goes into the queue, and `b` to the next one. -/
def emit (w : Writing) (c : BitVec 8) : Writing :=
  { w with
    tty := { w.tty with writeQ := w.tty.writeQ.put c }
    b := w.b + 1
    nr := w.nr - 1
    crFlag := false }

/-- A carriage return goes into the queue, and `b` stays. -/
def emitReturn (w : Writing) : Writing :=
  { w with
    tty := { w.tty with writeQ := w.tty.writeQ.put 13 }
    crFlag := true }

/-- One round of the inner loop. -/
def next (m : Memory) (w : Writing) : Option Writing := do
  let c ← m.readByte w.b
  let oflag := w.tty.termios.cOflag
  let w := { w with loads := w.loads ++ [(w.b, c)] }
  if oflag &&& opost ≠ 0 then
    let c := mapReturn oflag c
    if c = 10 ∧ ¬ w.crFlag ∧ oflag &&& onlcr ≠ 0 then return w.emitReturn
    else return w.emit (if oflag &&& olcuc ≠ 0 then c - 0x20 else c)
  else return w.emit c

/-- The inner loop; `none` stands for a page fault, or for fuel that was not enough. -/
def fill : Nat → Memory → Writing → Option Writing
  | 0, _, _ => none
  | fuel + 1, m, w => if 0 < w.nr ∧ ¬ w.tty.writeQ.full then (w.next m).bind (fill fuel m) else some w

end Writing

/-- `TTY_TABLE` and the console. -/
structure Terminals where
  ttyTable : Nat → Tty
  console : Console

/-- `tty->write(tty)`: terminal 0 is made with `conWrite`, the others with `rsWrite`. -/
def flush (channel : Nat) (tty : Tty) (c : Console) : Tty × Console :=
  if channel = 0 then conWrite tty c else (tty, c)

/-- Terminal 0 is flushed to an empty queue. -/
theorem flush_zero (tty : Tty) (c : Console) :
    ∃ flushed, flush 0 tty c = flushed ∧ flushed.1.writeQ.free = 1023 := by
  refine ⟨_, rfl, ?_⟩
  rw [flush, if_pos rfl]
  exact (free_conWrite tty c).2

/-- The outer loop. -/
def ttyWriteLoop (channel : Nat) : Nat → Memory → Console → Writing → Option (Writing × Console)
  | 0, _, _, _ => none
  | fuel + 1, m, c, w =>
    if 0 < w.nr then do
      let w ← w.fill ttyBufSize m
      let flushed := flush channel w.tty c
      ttyWriteLoop channel fuel m flushed.2 { w with tty := flushed.1 }
    else some (w, c)

structure WriteResult where
  terminals : Terminals
  ret : BitVec 32
  loads : List (BitVec 32 × BitVec 8)

/-- Each round of the outer loop but the first finds room for at least one character. -/
def ttyWrite (m : Memory) (t : Terminals) (channel : Nat) (buf : BitVec 32) (nr : BitVec 32) :
    Option WriteResult := do
  let start := ⟨t.ttyTable channel, buf, nr.toInt.toNat, false, []⟩
  let (w, console) ← ttyWriteLoop channel (2 * start.nr + 2) m t.console start
  return ⟨⟨Function.update t.ttyTable channel w.tty, console⟩, w.b - buf, w.loads⟩

/-- `CRW_TABLE`: whether there is a function for the major number; all but `rwTtyx` are `NULL`. -/
def crwTable (major : Nat) : Bool := major = 4

/-- `rwChar` and `rwTtyx` with `rw = WRITE`. -/
def rwChar (m : Memory) (t : Terminals) (dev buf count : BitVec 32) : Option WriteResult :=
  if (dev >>> 8).toNat ≥ 8 then some ⟨t, -1, []⟩
  else if ¬ crwTable (dev >>> 8).toNat then some ⟨t, -1, []⟩
  else ttyWrite m t (dev &&& 0xff).toNat buf count

/-- The parts of `MINODE` that `sysWrite` reads. -/
structure MInode where
  iMode : BitVec 16
  iZone : Fin 9 → BitVec 16

def sIfmt : BitVec 16 := 0xF000
def sIfchr : BitVec 16 := 0x2000

/-- `S_ISCHR` -/
def MInode.isChr (inode : MInode) : Prop := inode.iMode &&& sIfmt = sIfchr

instance (inode : MInode) : Decidable inode.isChr := inferInstanceAs (Decidable (_ = _))

def nrOpen : Nat := 20

/-- `sysWrite`; `filp` gives the inode behind a descriptor of the current task.
The text that `printk` prints for another kind of inode is left out. -/
def sysWrite (m : Memory) (t : Terminals) (filp : Nat → Option MInode) (fd buf count : BitVec 32) :
    Option WriteResult :=
  if nrOpen ≤ fd.toNat then some ⟨t, -1, []⟩
  else match filp fd.toNat with
    | none => some ⟨t, -1, []⟩
    | some inode =>
      if count = 0 then some ⟨t, 0, []⟩
      else if inode.isChr then rwChar m t ((inode.iZone 0).setWidth 32) buf count
      else some ⟨t, -1, []⟩

/-- The device number of a character file. -/
def MInode.device (inode : MInode) : BitVec 16 := inode.iZone 0

/-! ### The loads of one call -/

/-- `n` of `count` characters from `buf` on are still to be written, and the
loads so far went to the others and to the first of these. -/
structure Progress (m : Memory) (buf count : Nat) (w : Writing) : Prop where
  left : w.nr ≤ count
  position : w.b = BitVec.ofNat 32 (buf + (count - w.nr))
  own : ∀ a c, (a, c) ∈ w.loads → ∃ i < count, a = BitVec.ofNat 32 (buf + i) ∧ m.readByte a = some c
  all : ∀ i < count - w.nr, ∃ c, (BitVec.ofNat 32 (buf + i), c) ∈ w.loads

/-- Twice the characters left, less one if the return of the first is out. -/
def Writing.work (w : Writing) : Nat := 2 * w.nr - if w.crFlag then 1 else 0

section Loads

variable {m : Memory} {buf count : Nat} {w : Writing}

theorem Progress.load (progress : Progress m buf count w) (more : 0 < w.nr) {c : BitVec 8}
    (found : m.readByte w.b = some c) :
    Progress m buf count { w with loads := w.loads ++ [(w.b, c)] } := by
  constructor
  · exact progress.left
  · exact progress.position
  · intro a c' loaded
    rcases List.mem_append.mp loaded with before | now
    · exact progress.own a c' before
    · obtain ⟨rfl, rfl⟩ : a = w.b ∧ c' = c := by simpa using now
      have := progress.left
      exact ⟨count - w.nr, by omega, progress.position, found⟩
  · intro i done
    obtain ⟨c', loaded⟩ := progress.all i done
    exact ⟨c', List.mem_append_left _ loaded⟩

theorem Progress.emitReturn (progress : Progress m buf count w) : Progress m buf count w.emitReturn :=
  ⟨progress.left, progress.position, progress.own, progress.all⟩

theorem Progress.emit (progress : Progress m buf count w) (more : 0 < w.nr) {c' : BitVec 8}
    (loaded : (w.b, c') ∈ w.loads) (c : BitVec 8) : Progress m buf count (w.emit c) := by
  have left := progress.left
  constructor
  · exact (Nat.sub_le _ _).trans left
  · change w.b + 1 = BitVec.ofNat 32 (buf + (count - (w.nr - 1)))
    have next : buf + (count - (w.nr - 1)) = buf + (count - w.nr) + 1 := by omega
    rw [next, progress.position]
    exact (BitVec.ofNat_add (buf + (count - w.nr)) 1).symm
  · exact progress.own
  · intro i done
    change i < count - (w.nr - 1) at done
    by_cases here : i = count - w.nr
    · exact ⟨c', here ▸ progress.position ▸ loaded⟩
    · exact progress.all i (by omega)

/-- A round of the inner loop makes one load, and uses one place of the queue. -/
theorem Progress.next (progress : Progress m buf count w)
    (readable : ∀ i < count, ∃ c, m.readByte (BitVec.ofNat 32 (buf + i)) = some c)
    (more : 0 < w.nr) (room : ¬ w.tty.writeQ.full) :
    ∃ w', w.next m = some w' ∧ Progress m buf count w' ∧
      w'.tty.writeQ.free + 1 = w.tty.writeQ.free ∧ w'.work < w.work := by
  have left := progress.left
  obtain ⟨c, found⟩ := readable (count - w.nr) (by omega)
  rw [← progress.position] at found
  have loaded := progress.load more found
  have place := fun c' => w.tty.writeQ.free_put c' room
  -- a character is finished, whatever the translation makes of it
  have finished : ∀ c', ∃ w', some (Writing.emit { w with loads := w.loads ++ [(w.b, c)] } c') = some w' ∧
      Progress m buf count w' ∧ w'.tty.writeQ.free + 1 = w.tty.writeQ.free ∧ w'.work < w.work := by
    intro c'
    have here : (w.b, c) ∈ w.loads ++ [(w.b, c)] := by simp
    refine ⟨_, rfl, loaded.emit more here c', place c', ?_⟩
    simp only [Writing.work, Writing.emit, Bool.false_eq_true, if_false]
    split <;> omega
  rw [Writing.next, found]
  simp only [Option.bind_eq_bind, Option.bind_some, Option.pure_def]
  split
  next processed =>
    split
    next newline =>
      refine ⟨_, rfl, loaded.emitReturn, place 13, ?_⟩
      have first := newline.2.1
      simp only [Bool.not_eq_true] at first
      simp only [Writing.work, Writing.emitReturn, first]
      simp
      omega
    next => exact finished _
  next => exact finished _

/-- The inner loop ends with all characters written, or with a full queue. -/
theorem Progress.fill (progress : Progress m buf count w)
    (readable : ∀ i < count, ∃ c, m.readByte (BitVec.ofNat 32 (buf + i)) = some c) {fuel : Nat}
    (enough : w.tty.writeQ.free < fuel) :
    ∃ w', w.fill fuel m = some w' ∧ Progress m buf count w' ∧ w'.work ≤ w.work ∧
      (0 < w.nr → 0 < w.tty.writeQ.free → w'.work < w.work) := by
  induction fuel generalizing w with
  | zero => omega
  | succ fuel ih =>
    rw [Writing.fill]
    split
    next again =>
      obtain ⟨w₁, step, progress₁, used, less⟩ := progress.next readable again.1 again.2
      obtain ⟨w', rest, progress', atMost, _⟩ := ih progress₁ (by omega)
      refine ⟨w', ?_, progress', by omega, fun _ _ => by omega⟩
      rw [step]
      exact rest
    next stop =>
      refine ⟨w, rfl, progress, Nat.le_refl _, fun more room => ?_⟩
      -- the loop has stopped with characters left, so the queue is full
      have full : w.tty.writeQ.full := by
        by_contra notFull
        exact stop ⟨more, notFull⟩
      rw [w.tty.writeQ.full_iff] at full
      omega

/-- What one call has loaded when all characters are written. -/
structure Loaded (m : Memory) (buf count : Nat) (loads : List (BitVec 32 × BitVec 8)) : Prop where
  own : ∀ a c, (a, c) ∈ loads → ∃ i < count, a = BitVec.ofNat 32 (buf + i) ∧ m.readByte a = some c
  all : ∀ i < count, ∃ c, (BitVec.ofNat 32 (buf + i), c) ∈ loads

theorem Progress.loaded (progress : Progress m buf count w) (done : w.nr = 0) :
    w.b = BitVec.ofNat 32 (buf + count) ∧ Loaded m buf count w.loads := by
  obtain ⟨_, position, own, all⟩ := progress
  rw [done, Nat.sub_zero] at position all
  exact ⟨position, own, all⟩

theorem Progress.flush (progress : Progress m buf count w) (tty : Tty) :
    Progress m buf count { w with tty } :=
  ⟨progress.left, progress.position, progress.own, progress.all⟩

/-- A terminal with room writes all characters; every flush makes room again. -/
theorem Progress.ttyWriteLoop (progress : Progress m buf count w)
    (readable : ∀ i < count, ∃ c, m.readByte (BitVec.ofNat 32 (buf + i)) = some c) {fuel : Nat}
    (room : 0 < w.tty.writeQ.free) (enough : w.work < fuel) (c : Console) :
    ∃ w' c', ttyWriteLoop 0 fuel m c w = some (w', c') ∧ Progress m buf count w' ∧ w'.nr = 0 := by
  -- each round flushes the queue and leaves less to do
  induction fuel generalizing w c with
  | zero => omega
  | succ fuel ih =>
    rw [Chr.ttyWriteLoop]
    split
    next more =>
      obtain ⟨w₁, filled, progress₁, _, less⟩ := progress.fill readable w.tty.writeQ.free_lt
      obtain ⟨flushed, same, emptied⟩ := flush_zero w₁.tty c
      rw [filled]
      simp only [Option.bind_eq_bind, Option.bind_some, same]
      apply ih (progress₁.flush _)
      · change 0 < flushed.1.writeQ.free
        omega
      · have := less more room
        change w₁.work < fuel
        omega
    next done => exact ⟨w, c, rfl, progress, by omega⟩

theorem toNat_toInt_ofNat {count : Nat} (small : count < 0x80000000) :
    (BitVec.ofNat 32 count).toInt.toNat = count := by
  have same : (BitVec.ofNat 32 count).toNat = count := by
    rw [BitVec.toNat_ofNat]
    exact Nat.mod_eq_of_lt (by omega)
  rw [BitVec.toInt_eq_toNat_of_lt (by rw [same]; omega), same, Int.toNat_natCast]

/-- A write to terminal 0 ends, and has loaded the bytes at the address it was given. -/
theorem ttyWrite_zero (m : Memory) (t : Terminals) (buf count : Nat)
    (readable : ∀ i < count, ∃ c, m.readByte (BitVec.ofNat 32 (buf + i)) = some c)
    (positive : (BitVec.ofNat 32 count).toInt.toNat = count) :
    ∃ t' loads, ttyWrite m t 0 (BitVec.ofNat 32 buf) (BitVec.ofNat 32 count) =
      some ⟨t', BitVec.ofNat 32 count, loads⟩ ∧ Loaded m buf count loads := by
  have start : Progress m buf count ⟨t.ttyTable 0, BitVec.ofNat 32 buf, count, false, []⟩ := by
    constructor
    · exact Nat.le_refl count
    · simp
    · intro a c none
      cases none
    · intro i impossible
      simp at impossible
  have work : Writing.work ⟨t.ttyTable 0, BitVec.ofNat 32 buf, count, false, []⟩ = 2 * count := by
    simp [Writing.work]
  have ends : ∃ w' c', Chr.ttyWriteLoop 0 (2 * count + 2) m t.console
      ⟨t.ttyTable 0, BitVec.ofNat 32 buf, count, false, []⟩ = some (w', c') ∧
      Progress m buf count w' ∧ w'.nr = 0 := by
    rw [Chr.ttyWriteLoop]
    split
    next more =>
      -- the queue may be full at first, so only the later rounds are sure to write something
      obtain ⟨w₁, filled, progress₁, atMost, _⟩ := start.fill readable
        (t.ttyTable 0).writeQ.free_lt
      obtain ⟨flushed, same, emptied⟩ := flush_zero w₁.tty t.console
      rw [filled]
      simp only [Option.bind_eq_bind, Option.bind_some, same]
      apply (progress₁.flush _).ttyWriteLoop readable
      · change 0 < flushed.1.writeQ.free
        omega
      · change w₁.work < 2 * count + 1
        omega
    next done =>
      change ¬ 0 < count at done
      exact ⟨_, _, rfl, start, by change count = 0; omega⟩
  obtain ⟨w', c', ran, progress, done⟩ := ends
  obtain ⟨position, loaded⟩ := progress.loaded done
  have ret : w'.b - BitVec.ofNat 32 buf = BitVec.ofNat 32 count := by
    rw [position, BitVec.ofNat_add, BitVec.add_comm, BitVec.add_sub_cancel]
  refine ⟨⟨Function.update t.ttyTable 0 w'.tty, c'⟩, w'.loads, ?_, loaded⟩
  simp only [ttyWrite, positive, ran, Option.bind_eq_bind, Option.bind_some, ret]
  rfl

end Loads

/-! ### The caller's own bytes -/

/-- The loads are the bytes that the task of slot `nr` reads at the offsets from `buf` on. -/
structure OwnBytes (s : Spaces) (nr : Slot) (buf count : Nat) (loads : List (BitVec 32 × BitVec 8)) :
    Prop where
  own : ∀ a c, (a, c) ∈ loads →
    ∃ i < count, a = BitVec.ofNat 32 (buf + i) ∧ s.view nr (buf + i) = some c
  all : ∀ i < count, ∃ c, (BitVec.ofNat 32 (buf + i), c) ∈ loads

/-- The task has a frame of its own for the page of an offset, with another byte there. -/
def Moved (m : Memory) (nr off : Nat) : Prop :=
  let f := frame (m.page (m.tableOf nr) (off / 4096))
  f ≠ off / 4096 ∧ byte (m.page f) (off % 4096) ≠ byte (m.page (off / 4096)) (off % 4096)

theorem linear_zero (off : Nat) : linear 0 off = BitVec.ofNat 32 off := by
  simp [linear, segmentBase]

section Own

variable {m : Memory} {pages : Nat → Nat}

/-- A flat address reaches the frame of the same number. -/
theorem readByte_flat (paged : Paged m pages) {a : Nat} (inside : a < segmentSize) :
    m.readByte (BitVec.ofNat 32 a) = some (byte (m.page (a / 4096)) (a % 4096)) := by
  have index : a / 4096 < 1024 := by
    simp only [segmentSize] at inside
    omega
  rw [← linear_zero]
  change m.view 0 a = _
  rw [paged.mapped_zero.view (by decide) inside, paged.dir_zero.2, paged.identity_zero index,
    frame_freshEntry (by omega)]

theorem view_eq_readByte_iff (paged : Paged m pages) {nr off : Nat} (slot : nr < 64)
    (mapped : m.Mapped nr) (inside : off < segmentSize) :
    m.view nr off = m.readByte (BitVec.ofNat 32 off) ↔ ¬ Moved m nr off := by
  rw [mapped.view slot inside, readByte_flat paged inside, Option.some_inj]
  simp only [Moved]
  by_cases same : frame (m.page (m.tableOf nr) (off / 4096)) = off / 4096
  · simp [same]
  · simp [same]

theorem Loaded.own_iff {s : Spaces} (paged : Paged s.mem pages) {nr : Slot} (mapped : s.mem.Mapped nr)
    {buf count : Nat} (inside : buf + count ≤ segmentSize) {loads : List (BitVec 32 × BitVec 8)}
    (loaded : Loaded s.mem buf count loads) :
    OwnBytes s nr buf count loads ↔ ∀ i < count, ¬ Moved s.mem nr (buf + i) := by
  have same : ∀ i < count,
      (s.view nr (buf + i) = s.mem.readByte (BitVec.ofNat 32 (buf + i)) ↔ ¬ Moved s.mem nr (buf + i)) :=
    fun i small => view_eq_readByte_iff paged nr.isLt mapped (by omega)
  constructor
  · intro own i small
    obtain ⟨c, load⟩ := loaded.all i small
    obtain ⟨j, small', address, seen⟩ := own.own _ c load
    obtain ⟨_, _, _, found⟩ := loaded.own _ c load
    -- distinct positions of the text have distinct addresses
    have index : i = j := by
      have positions := congrArg BitVec.toNat address
      simp only [segmentSize] at inside
      rw [BitVec.toNat_ofNat, BitVec.toNat_ofNat, Nat.mod_eq_of_lt (by omega),
        Nat.mod_eq_of_lt (by omega)] at positions
      omega
    rw [← same i small, found, index]
    exact seen
  · intro unmoved
    refine ⟨fun a c load => ?_, loaded.all⟩
    obtain ⟨i, small, rfl, found⟩ := loaded.own a c load
    exact ⟨i, small, rfl, ((same i small).mpr (unmoved i small)).trans found⟩

end Own

/-- In every reachable paging state, a write of a buffer inside the segment to
terminal 0 returns its length, and the bytes loaded for it are the task's own
if and only if the task has moved none of them. -/
theorem sysWrite_ownBytes_iff {hist : List (Spaces × Spaces.Action)} {s : Spaces}
    (run : Transition.Run Spaces.system hist s) {nr : Slot} (live : s.live nr) (t : Terminals)
    {filp : Nat → Option MInode} {fd : BitVec 32} {inode : MInode} (descriptor : fd.toNat < nrOpen)
    (file : filp fd.toNat = some inode) (character : inode.isChr) (device : inode.iZone 0 = 0x400)
    {buf count : Nat} (inside : buf + count ≤ segmentSize) :
    ∃ t' loads, sysWrite s.mem t filp fd (BitVec.ofNat 32 buf) (BitVec.ofNat 32 count) =
        some ⟨t', BitVec.ofNat 32 count, loads⟩ ∧
      (OwnBytes s nr buf count loads ↔ ∀ i < count, ¬ Moved s.mem nr (buf + i)) := by
  have sound := Spaces.sound_of_run run
  -- the task can read its own segment
  have readable : ∀ i < count, ∃ c, s.mem.readByte (BitVec.ofNat 32 (buf + i)) = some c :=
    fun i small => ⟨_, readByte_flat sound.paged (by omega)⟩
  have small : count < 0x80000000 := by
    simp only [segmentSize] at inside
    omega
  have written : ∃ t' loads, sysWrite s.mem t filp fd (BitVec.ofNat 32 buf) (BitVec.ofNat 32 count) =
      some ⟨t', BitVec.ofNat 32 count, loads⟩ ∧ Loaded s.mem buf count loads := by
    by_cases none : count = 0
    · subst none
      refine ⟨t, [], ?_, ?_⟩
      · rw [sysWrite, if_neg (by omega), file]
        rfl
      · constructor <;> simp
    · have nonzero : BitVec.ofNat 32 count ≠ 0 := by
        intro zero
        have := congrArg BitVec.toNat zero
        rw [BitVec.toNat_ofNat, Nat.mod_eq_of_lt (by omega)] at this
        exact none this
      -- the calls go through to the terminal
      have reached : sysWrite s.mem t filp fd (BitVec.ofNat 32 buf) (BitVec.ofNat 32 count) =
          ttyWrite s.mem t 0 (BitVec.ofNat 32 buf) (BitVec.ofNat 32 count) := by
        rw [sysWrite, if_neg (by omega), file]
        simp only [nonzero, if_false, character, if_true, device]
        rfl
      rw [reached]
      exact ttyWrite_zero s.mem t buf count readable (toNat_toInt_ofNat small)
  obtain ⟨t', loads, done, loaded⟩ := written
  exact ⟨t', loads, done, loaded.own_iff sound.paged (sound.mapped nr live) inside⟩

/-! ### A task with a page of its own -/

/-- Right after a first fork every frame of main memory but one is free. -/
theorem free_of_forked {s s' : Spaces} {t f : Nat} (start : Spaces.system.init s)
    (booted : s.mem.page = Spaces.bootMemory.page) (paged : Paged s'.mem fun _ => 0)
    (forked : Forked s.mem s'.mem 0 1 t) (main : Main f) (other : f ≠ t) : s'.mem.memMap f = 0 := by
  have before := (Spaces.sound_init start).paged
  have dirs : ∀ d t', s'.mem.dirTarget d = some t' → d.val = 16 ∧ t' = t := by
    intro d t' target
    obtain ⟨user, present, rfl⟩ := Memory.dirTarget_eq_some.mp target
    by_cases child : d.val = 16
    · have entry := forked.dir
      rw [child]
      exact ⟨rfl, by rw [entry, frame_freshEntry forked.main.small]⟩
    · have absent : ¬ Present (s.mem.page 0 d) := by
        rw [booted]
        exact Spaces.booted_bootMemory.empty d (by omega) d.isLt
      have same : s'.mem.page 0 d = s.mem.page 0 d := by
        apply forked.rest
        · rw [before.dir_zero.2]
          decide
        · have := forked.main.1
          omega
        · intro _
          exact child
      exact absurd (same ▸ present) absent
  have unmapped : Sharing.refs s'.mem.look f = 0 := by
    rw [Sharing.refs, Sharing.count_eq_zero]
    rintro ⟨d, k⟩ found
    obtain ⟨w, mapped⟩ := Sharing.map_fst_eq_some.mp found
    obtain ⟨inside, _⟩ := paged.entries d k f w mapped
    obtain ⟨t', target, decoded⟩ := Memory.look_eq_some.mp mapped
    obtain ⟨_, rfl⟩ := dirs d t' target
    obtain ⟨present, entry, _⟩ := decode_eq_some.mp decoded
    -- the child's entries are copies of the identity table
    obtain ⟨copied, sameFrame⟩ := forked.copy k inside
    have identity := sameFrame (copied.mpr present)
    rw [before.dir_zero.2, paged.identity_zero k.isLt, frame_freshEntry (by omega), entry] at identity
    have := main.1
    omega
  have unused : s'.mem.tables f = 0 := by
    rw [Memory.tables, Sharing.count_eq_zero]
    intro d target
    exact other (dirs d f target).2
  have exact := paged.sound.exact f main
  simp only [unused, unmapped] at exact
  apply BitVec.eq_of_toInt_eq
  rw [exact]
  rfl

/-- Task 1 has been forked and has written the byte 65 at an offset whose frame is zero. -/
theorem moved_run : ∃ s₀ s₁ s, Transition.Run Spaces.system
      [(s₁, .write 1 0x50000 65), (s₀, .fork 0 1 true)] s ∧
    s.live 1 ∧ s.view 1 0x50000 = some 65 ∧ s.view 0 0x50000 = some 0 := by
  obtain ⟨s₀, s₁, t, start, booted, forkTaken, live, forked⟩ := Spaces.forked_boot
  have before := Spaces.sound_init start
  have sound := (before.fork forkTaken).1
  have low := forked.main.1
  -- before the write both tasks read a page of zeros
  have zero : s₁.view 0 0x50000 = some 0 := by
    change s₁.mem.readByte _ = _
    have address : linear (0 : Slot).val 0x50000 = BitVec.ofNat 32 0x50000 := linear_zero _
    have page : s₁.mem.page 80 = fun _ => 0 := by
      funext l
      rw [forked.rest 80 l (by rw [before.paged.dir_zero.2]; decide) (by omega) (by omega), booted]
      rfl
    rw [address, readByte_flat sound.paged (by decide)]
    change some (byte (s₁.mem.page 80) 0) = _
    rw [page]
    rfl
  rcases sound.paged.userWrite (j := 1) (by decide) (by decide) (sound.mapped 1 live)
    (show 0x50000 < segmentSize by decide) 65 with ⟨_, full⟩ | ⟨m', stored, _, _⟩
  · -- one more page is free, so the write takes a copy
    have free : ∃ f, Main f ∧ f ≠ t := by
      by_cases first : t = 2048
      · exact ⟨2049, ⟨by decide, by decide⟩, by omega⟩
      · exact ⟨2048, ⟨by decide, by decide⟩, by omega⟩
    obtain ⟨f, main, other⟩ := free
    exact absurd (free_of_forked start booted sound.paged forked main other)
      (Memory.used_of_getFreePage full f main.2)
  · have taken : Spaces.Step s₁ (.write 1 0x50000 65) { s₁ with mem := m' } :=
      .write (by decide) live (by decide) stored
    have views := (sound.write taken).2
    refine ⟨s₀, s₁, { s₁ with mem := m' }, .step (.step (.init start) forkTaken) taken, live, ?_, ?_⟩
    · rw [views 1 _ (by decide), if_pos ⟨rfl, rfl⟩]
    · rw [views 0 _ (by decide), if_neg (by decide), zero]

/-- The state of the terminals after `initTty`. -/
def initialTerminals : Terminals where
  ttyTable channel :=
    { termios := ⟨if channel = 0 then opost ||| onlcr else 0, 0x7f⟩
      writeQ := ⟨0, 0, fun _ => 0, by decide, by decide⟩ }
  console := (Console.boot fun _ => 0).initConsole

/-- The inode of the console device. -/
def consoleInode : MInode := ⟨0x2000, fun _ => 0x400⟩

/-- The task has written 65 at the offset it passes, and `sysWrite` loads a 0. -/
theorem sysWrite_loads_foreign : ∃ s₀ s₁ s,
    Transition.Run Spaces.system [(s₁, .write 1 0x50000 65), (s₀, .fork 0 1 true)] s ∧ s.live 1 ∧
    ∃ t' loads, sysWrite s.mem initialTerminals (fun _ => some consoleInode) 1 0x50000 1 =
        some ⟨t', 1, loads⟩ ∧ ¬ OwnBytes s 1 0x50000 1 loads := by
  obtain ⟨s₀, s₁, s, run, live, own, flat⟩ := moved_run
  have sound := Spaces.sound_of_run run
  have readable : ∀ i < 1, ∃ c, s.mem.readByte (BitVec.ofNat 32 (0x50000 + i)) = some c := by
    intro i small
    exact ⟨_, readByte_flat sound.paged (by simp only [segmentSize]; omega)⟩
  obtain ⟨t', loads, done, loaded⟩ :=
    ttyWrite_zero s.mem initialTerminals 0x50000 1 readable (toNat_toInt_ofNat (by decide))
  refine ⟨s₀, s₁, s, run, live, t', loads, done, ?_⟩
  intro bytes
  obtain ⟨c, load⟩ := loaded.all 0 (by decide)
  obtain ⟨_, _, _, found⟩ := loaded.own _ c load
  obtain ⟨i, small, _, seen⟩ := bytes.own _ c load
  obtain rfl : i = 0 := by omega
  have flat' : s.mem.readByte (BitVec.ofNat 32 0x50000) = some 0 := by
    rw [← linear_zero]
    exact flat
  -- the kernel reads at the flat address, the task sees its own page there
  have read : some c = some (0 : BitVec 8) := found.symm.trans flat'
  have viewed : some c = some (65 : BitVec 8) := seen.symm.trans own
  exact absurd (read.symm.trans viewed) (by decide)

/-- In the same state the write of a buffer on a page that is still shared. -/
theorem sysWrite_ownBytes_iff_moved : ∃ s₀ s₁ s,
    Transition.Run Spaces.system [(s₁, .write 1 0x50000 65), (s₀, .fork 0 1 true)] s ∧
    ∃ t' loads, sysWrite s.mem initialTerminals (fun _ => some consoleInode) 1
          (BitVec.ofNat 32 0x60000) (BitVec.ofNat 32 5) = some ⟨t', BitVec.ofNat 32 5, loads⟩ ∧
      (OwnBytes s 1 0x60000 5 loads ↔ ∀ i < 5, ¬ Moved s.mem (1 : Slot).val (0x60000 + i)) := by
  obtain ⟨s₀, s₁, s, run, live, _⟩ := moved_run
  have character : consoleInode.isChr := by decide
  exact ⟨s₀, s₁, s, run,
    sysWrite_ownBytes_iff run live initialTerminals (by decide) rfl character rfl (by decide)⟩

end OperatorSystem.Chr
