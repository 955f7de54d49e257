import OperatorSystem.Blk.Request

/-!
# The hard disk driver (`harddisk.c`)

The drive answers the successive reads of its ports with any values at all, and
what the driver writes to ports is recorded. A call that reaches one of the
`while (1)` loops, a division by zero or a NULL pointer returns `none`. The
texts of `printk` are left out, and so are the pauses of `resetController`.
-/

namespace OperatorSystem.Blk

open OperatorSystem.Fs

/-! ### Constants -/

def maxErrors : Int := 7
def hdCmd : Nat := 0x3f6
def hdData : Nat := 0x1f0
def errStat : BitVec 8 := 0x01
def drqStat : BitVec 8 := 0x08
def seekStat : BitVec 8 := 0x10
def wrerrStat : BitVec 8 := 0x20
def readyStat : BitVec 8 := 0x40
def busyStat : BitVec 8 := 0x80
def winRestore : BitVec 32 := 0x10
def winRead : BitVec 32 := 0x20
def winWrite : BitVec 32 := 0x30
def winSpecify : BitVec 32 := 0x91

/-! ### State -/

/-- The functions that `DEVICE_INTR` can point to. -/
inductive Handler
  | readIntr
  | writeIntr
  | recalIntr
  deriving DecidableEq

/-- `HARD_DISK`, without the landing zone. -/
structure HardDisk where
  head : BitVec 32
  sector : BitVec 32
  cylinder : BitVec 32
  wpcom : BitVec 32
  ctrl : BitVec 32

/-- `HD` -/
structure Hd where
  startSector : BitVec 32
  cntSectors : BitVec 32

/-- A value written to a port. -/
inductive Out
  | byte (port : Nat) (value : BitVec 8)
  | word (port : Nat) (value : BitVec 16)

structure Disk where
  queue : Queue
  /-- `HARD_DISK_INFO` -/
  info : HardDisk
  /-- `HD_INFO` -/
  hd : Nat → Hd
  deviceIntr : Option Handler
  /-- `IRQ_TABLE[14]` -/
  irqHandler : Option Handler
  reset : Bool
  recalibrate : Bool
  /-- The bytes of memory that `portRead` and `portWrite` reach. -/
  ram : Addr → BitVec 8
  /-- The answers of the drive, and how many have been read. -/
  input : Nat → BitVec 16
  reads : Nat
  /-- What has been written to ports, the last value first. -/
  out : List Out
  /-- The values of ESI at the calls of `portWrite`, and the number of these calls. -/
  esi : Nat → Addr
  writes : Nat

namespace Disk

/-! ### Ports -/

/-- `outByte`: only the low byte of the second argument is written. -/
def outByte (s : Disk) (port : Nat) (value : BitVec 32) : Disk :=
  { s with out := .byte port (value.setWidth 8) :: s.out }

def inByte (s : Disk) : BitVec 8 × Disk :=
  ((s.input s.reads).setWidth 8, { s with reads := s.reads + 1 })

/-- `rep insw` of `n` words. -/
def insw (s : Disk) (buf : Addr) : Nat → Disk
  | 0 => s
  | n + 1 =>
    let w := s.input s.reads
    let ram := Function.update (Function.update s.ram buf (w.setWidth 8)) (buf + 1) ((w >>> 8).setWidth 8)
    insw { s with ram, reads := s.reads + 1 } (buf + 2) n

def portRead (s : Disk) (buf : Addr) (nr : Nat) : Disk := s.insw buf nr

/-- `rep outsw` of `n` words. -/
def outsw (s : Disk) (port : Nat) (src : Addr) : Nat → Disk
  | 0 => s
  | n + 1 =>
    let w := (s.ram (src + 1)).setWidth 16 <<< 8 ||| (s.ram src).setWidth 16
    outsw { s with out := .word port w :: s.out } port (src + 2) n

/-- `portWrite`: it loads its argument `buf` into EDI, and `outsw` reads through ESI. -/
def portWrite (s : Disk) (port : Nat) (_buf : Addr) (nr : Nat) : Disk :=
  { s with writes := s.writes + 1 }.outsw port (s.esi s.writes) nr

/-! ### The request at the head of the queue -/

def current (s : Disk) : Option ReqSlot := (s.queue.blkDev majorNr).currentRequest

def setRequest (s : Disk) (r : ReqSlot) (q : Request) : Disk :=
  { s with queue := s.queue.setRequest r q }

def endRequest (s : Disk) (uptodate : Bool) : Option Disk := do
  let curr ← s.current
  return { s with queue := s.queue.endRequest curr uptodate }

/-! ### The drive -/

/-- Whether the drive reports a failure. -/
def winResult (s : Disk) : Bool × Disk :=
  let (i, s) := s.inByte
  if i &&& (busyStat ||| readyStat ||| wrerrStat ||| seekStat ||| errStat) = readyStat ||| seekStat then
    (false, s)
  else (true, if i &&& 1 ≠ 0 then s.inByte.2 else s)

/-- `if (++curr->errors >= MAX_ERRORS) endRequest(0);` -/
def countError (s : Disk) (curr : ReqSlot) : Option Disk :=
  let errors := (s.queue.request curr).errors + 1
  let s := s.setRequest curr { s.queue.request curr with errors }
  if errors ≥ maxErrors then s.endRequest false else some s

def badRwIntr (s : Disk) : Option Disk := do
  let curr ← s.current
  let s ← s.countError curr
  return if (s.queue.request curr).errors > maxErrors / 2 then { s with reset := true } else s

/-- The loop of `driveBusy`, for `n` more rounds. -/
def driveBusyLoop : Nat → Disk → Disk
  | 0, s => s
  | n + 1, s =>
    let (i, s) := s.inByte
    if readyStat = i &&& (busyStat ||| readyStat) then s else driveBusyLoop n s

/-- `driveBusy`, whose result only decides about a message. -/
def driveBusy (s : Disk) : Disk := (driveBusyLoop 10000 s).inByte.2

/-- The loop of `controllerReady`, with `retries` as the condition decrements it. -/
def controllerReadyLoop : Nat → Disk → Nat × Disk
  | 0, s => (0, s)
  | retries + 1, s =>
    if retries = 0 then (0, s)
    else
      let (i, s) := s.inByte
      if i &&& 0x80 ≠ 0 then controllerReadyLoop retries s else (retries, s)

def controllerReady (s : Disk) : Nat × Disk := controllerReadyLoop 100000 s

/-- `resetController`; the arguments of its calls of `outByte` are in the wrong order. -/
def resetController (s : Disk) : Disk :=
  let s := s.outByte 4 (BitVec.ofNat 32 hdCmd)
  let s := s.outByte (s.info.ctrl &&& 0x0f).toNat (BitVec.ofNat 32 hdCmd)
  s.driveBusy.inByte.2

def hdOut (s : Disk) (drive nsect sect head cyl cmd : BitVec 32) (intrAddr : Handler) : Option Disk :=
  if drive > 1 ∨ head > 15 then none
  else
    let (ready, s) := s.controllerReady
    if ready = 0 then none
    else
      let s := { s with deviceIntr := some intrAddr }
      let s := s.outByte hdCmd s.info.ctrl
      let s := s.outByte (hdData + 1) (s.info.wpcom >>> 2)
      let s := s.outByte (hdData + 2) nsect
      let s := s.outByte (hdData + 3) sect
      let s := s.outByte (hdData + 4) cyl
      let s := s.outByte (hdData + 5) (cyl >>> 8)
      let s := s.outByte (hdData + 6) (0xA0 ||| drive <<< 4 ||| head)
      some (s.outByte (hdData + 7) cmd)

def resetHd (s : Disk) (nr : BitVec 32) : Option Disk :=
  let s := s.resetController
  s.hdOut nr s.info.sector s.info.sector (s.info.head - 1) s.info.cylinder winSpecify .recalIntr

/-! ### `harddiskRequest` -/

/-- The arguments of `hdOut` for a read or a write. -/
structure Transfer where
  write : Bool
  drive : BitVec 32
  nsect : BitVec 32
  sec : BitVec 32
  head : BitVec 32
  cyl : BitVec 32
  deriving DecidableEq

/-- What `harddiskRequest` is about to do with a request. -/
inductive Decision
  | reject
  | divideError
  | resetDrive (nr : BitVec 32)
  | recalibrateDrive (drive : BitVec 32)
  | transfer (t : Transfer)
  | unknownCommand
  deriving DecidableEq

/-- `harddiskRequest` from `repeat` up to its first call of `hdOut` or
`endRequest`, for the request `curr`. -/
def decision (s : Disk) (curr : ReqSlot) : Decision :=
  let q := s.queue.request curr
  let dev : BitVec 32 := BitVec.ofInt 32 q.dev &&& 0xff
  let block := q.sector
  let part := s.hd dev.toNat
  if dev ≥ 5 ∨ block + 2 > part.startSector + part.cntSectors - 1 then .reject
  else
    let block := block + part.startSector
    let drive := dev / 5
    if s.info.sector = 0 then .divideError
    else
      let sec := block % s.info.sector
      let block := block / s.info.sector
      if s.info.head = 0 then .divideError
      else
        let head := block % s.info.head
        let cyl := block / s.info.head
        if s.reset then .resetDrive ((BitVec.ofInt 32 q.dev &&& 0xff) / 5)
        else if s.recalibrate then .recalibrateDrive drive
        else if q.cmd = 1 then .transfer ⟨true, drive, q.nrSectors, sec + 1, head, cyl⟩
        else if q.cmd = 0 then .transfer ⟨false, drive, q.nrSectors, sec + 1, head, cyl⟩
        else .unknownCommand

/-- The wait for `DRQ_STAT`, for `n` more rounds: whether the bit has been seen. -/
def drqLoop : Nat → Disk → Bool × Disk
  | 0, s => (false, s)
  | n + 1, s =>
    let (i, s) := s.inByte
    if i &&& drqStat ≠ 0 then (true, s) else drqLoop n s

/-- `harddiskRequest` on the request `curr`, for at most `fuel` rounds from `repeat`. -/
def harddiskRequestLoop (curr : ReqSlot) : Nat → Disk → Option Disk
  | 0, _ => none
  | fuel + 1, s =>
    match s.decision curr with
    | .reject => (s.endRequest false).bind (harddiskRequestLoop curr fuel)
    | .divideError => none
    | .resetDrive nr => { s with reset := false, recalibrate := true }.resetHd nr
    | .recalibrateDrive drive =>
      { s with recalibrate := false }.hdOut drive s.info.sector 0 0 0 winRestore .recalIntr
    | .transfer t =>
      if t.write then do
        let s ← s.hdOut t.drive t.nsect t.sec t.head t.cyl winWrite .writeIntr
        let (r, s) := drqLoop 3000 s
        if r then return s.portWrite hdData (s.queue.request curr).buffer 256
        else s.badRwIntr.bind (harddiskRequestLoop curr fuel)
      else s.hdOut t.drive t.nsect t.sec t.head t.cyl winRead .readIntr
    | .unknownCommand => some s

def harddiskRequest (fuel : Nat) (s : Disk) : Option Disk :=
  match s.current with
  | none => some s
  | some curr => harddiskRequestLoop curr fuel s

/-! ### Interrupts -/

def readIntr (fuel : Nat) (s : Disk) : Option Disk := do
  let curr ← s.current
  let (failed, s) := s.winResult
  if failed then s.badRwIntr.bind (harddiskRequest fuel)
  else
    let s := s.portRead (s.queue.request curr).buffer 256
    let q := s.queue.request curr
    let s := s.setRequest curr { q with
      errors := 0, buffer := q.buffer + 512, sector := q.sector + 1, nrSectors := q.nrSectors - 1 }
    if (s.queue.request curr).nrSectors ≠ 0 then return { s with deviceIntr := some .readIntr }
    else (s.endRequest true).bind (harddiskRequest fuel)

def writeIntr (fuel : Nat) (s : Disk) : Option Disk := do
  let curr ← s.current
  let (failed, s) := s.winResult
  if failed then s.badRwIntr.bind (harddiskRequest fuel)
  else
    let q := s.queue.request curr
    let s := s.setRequest curr { q with nrSectors := q.nrSectors - 1 }
    if (s.queue.request curr).nrSectors ≠ 0 then
      let q := s.queue.request curr
      let s := s.setRequest curr { q with sector := q.sector + 1, buffer := q.buffer + 512 }
      let s := { s with deviceIntr := some .writeIntr }
      return s.portWrite hdData (s.queue.request curr).buffer 256
    else (s.endRequest true).bind (harddiskRequest fuel)

def recalIntr (fuel : Nat) (s : Disk) : Option Disk :=
  let (failed, s) := s.winResult
  if failed then s.badRwIntr.bind (harddiskRequest fuel) else s.harddiskRequest fuel

/-- `putIrqHandler(AT_WINI_IRQ, handler)` -/
def putIrqHandler (s : Disk) (handler : Option Handler) : Disk := { s with irqHandler := handler }

def initHarddisk (s : Disk) : Disk :=
  let s := { s with reset := false, recalibrate := false, queue := s.queue.initHarddisk }
  s.putIrqHandler s.deviceIntr

end Disk

/-- A call of the handler. -/
def Handler.run (h : Handler) (fuel : Nat) (s : Disk) : Option Disk :=
  match h with
  | .readIntr => s.readIntr fuel
  | .writeIntr => s.writeIntr fuel
  | .recalIntr => s.recalIntr fuel

end OperatorSystem.Blk
