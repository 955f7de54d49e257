import Mathlib.Tactic.IntervalCases
import Mathlib.Tactic.Ring
import OperatorSystem.Blk.Partition

/-!
# Sectors and the geometry of the drive

`harddiskRequest` turns the number of a sector into a cylinder, a head and a
sector of the track with two divisions, and `hdOut` writes them to four
registers of one byte each. The main result `chs_round_trip` says that for every
geometry of the interface the registers stand for the sector that was meant.
-/

namespace OperatorSystem.Blk

open OperatorSystem.Fs

/-! ### Addresses of sectors -/

/-- A cylinder, a head and a sector of the track, which counts from 1. -/
structure Chs where
  cylinder : Nat
  head : Nat
  sector : Nat

namespace Chs

def linear (heads sectors : Nat) (c : Chs) : Nat :=
  (c.cylinder * heads + c.head) * sectors + c.sector - 1

/-- The address exists on the drive. -/
structure On (heads sectors cylinders : Nat) (c : Chs) : Prop where
  sector_pos : 1 ≤ c.sector
  sector_le : c.sector ≤ sectors
  head_lt : c.head < heads
  cylinder_lt : c.cylinder < cylinders

def ofLinear (heads sectors l : Nat) : Chs := ⟨l / sectors / heads, l / sectors % heads, l % sectors + 1⟩

theorem linear_ofLinear (heads sectors l : Nat) : (ofLinear heads sectors l).linear heads sectors = l := by
  simp only [linear, ofLinear]
  rw [Nat.mul_comm (_ / _), Nat.div_add_mod, Nat.mul_comm, ← Nat.add_assoc, Nat.div_add_mod]
  rfl

theorem on_ofLinear {heads sectors cylinders l : Nat} (inside : l < heads * sectors * cylinders) :
    (ofLinear heads sectors l).On heads sectors cylinders := by
  have volume : 0 < heads * sectors * cylinders := by omega
  have area : 0 < heads * sectors := Nat.pos_of_mul_pos_right volume
  have track : 0 < sectors := Nat.pos_of_mul_pos_left area
  have surface : 0 < heads := Nat.pos_of_mul_pos_right area
  refine ⟨Nat.succ_le_succ (Nat.zero_le _), Nat.mod_lt l track, Nat.mod_lt _ surface, ?_⟩
  change l / sectors / heads < cylinders
  rw [Nat.div_div_eq_div_mul, Nat.div_lt_iff_lt_mul (Nat.mul_comm sectors heads ▸ area)]
  calc l < heads * sectors * cylinders := inside
    _ = cylinders * (sectors * heads) := by ring

/-- What the drive reads in its registers `0x1f3` to `0x1f6`. -/
def decode (sect cylLow cylHigh drvHead : BitVec 8) : Chs :=
  ⟨cylHigh.toNat * 256 + cylLow.toNat, (drvHead &&& 0x0f).toNat, sect.toNat⟩

end Chs

namespace Disk

/-! ### The arguments of a transfer -/

/-- The sector of the request, counted from the start of the disk. -/
def absoluteSector (s : Disk) (curr : ReqSlot) : BitVec 32 :=
  let q := s.queue.request curr
  q.sector + (s.hd (BitVec.ofInt 32 q.dev &&& 0xff).toNat).startSector

/-- A partition is on the first drive. -/
theorem drive_eq_zero {dev : BitVec 32} (small : ¬ dev ≥ 5) : dev / 5 = 0 := by
  have value : dev.toNat < 5 := by
    have five : (5 : BitVec 32).toNat = 5 := rfl
    rw [ge_iff_le, BitVec.le_def, five] at small
    omega
  apply BitVec.eq_of_toNat_eq
  rw [BitVec.toNat_udiv]
  exact Nat.div_eq_of_lt value

theorem decision_transfer {s : Disk} {curr : ReqSlot} {t : Transfer} (decided : s.decision curr = .transfer t) :
    s.info.sector ≠ 0 ∧ s.info.head ≠ 0 ∧ t.nsect = (s.queue.request curr).nrSectors ∧ t.drive = 0 ∧
      t.sec = s.absoluteSector curr % s.info.sector + 1 ∧
      t.head = s.absoluteSector curr / s.info.sector % s.info.head ∧
      t.cyl = s.absoluteSector curr / s.info.sector / s.info.head := by
  simp only [decision] at decided
  split at decided
  · cases decided
  next accepted =>
    have drive := drive_eq_zero (not_or.mp accepted).1
    split at decided
    · cases decided
    next sector =>
      split at decided
      · cases decided
      next head =>
        -- behind reset and recalibration come the two transfers, with the same arguments
        refine ⟨sector, head, ?_⟩
        split at decided
        · cases decided
        · split at decided
          · cases decided
          · split at decided
            · cases decided
              exact ⟨rfl, drive, rfl, rfl, rfl⟩
            · split at decided
              · cases decided
                exact ⟨rfl, drive, rfl, rfl, rfl⟩
              · cases decided

/-- The arguments of `hdOut` are those of the sector. -/
theorem transfer_ofLinear {s : Disk} {curr : ReqSlot} {t : Transfer} (decided : s.decision curr = .transfer t) :
    (⟨t.cyl.toNat, t.head.toNat, t.sec.toNat⟩ : Chs) =
      Chs.ofLinear s.info.head.toNat s.info.sector.toNat (s.absoluteSector curr).toNat := by
  obtain ⟨sector, _, _, _, sec, head, cyl⟩ := decision_transfer decided
  have track : 0 < s.info.sector.toNat := by
    have := BitVec.toNat_ne_iff_ne.mpr sector
    simp at this
    omega
  have remainder := Nat.mod_lt (s.absoluteSector curr).toNat track
  have bound := s.info.sector.isLt
  have one : (1 : BitVec 32).toNat = 1 := rfl
  have next : (s.absoluteSector curr % s.info.sector + 1).toNat =
      (s.absoluteSector curr).toNat % s.info.sector.toNat + 1 := by
    rw [BitVec.toNat_add, BitVec.toNat_umod, one]
    omega
  simp only [Chs.ofLinear, sec, head, cyl, next, BitVec.toNat_udiv, BitVec.toNat_umod]

/-- The transfer starts at that sector. -/
theorem transfer_firstSector {s : Disk} {curr : ReqSlot} {t : Transfer} (decided : s.decision curr = .transfer t) :
    firstSector s.info t = (s.absoluteSector curr).toNat := by
  have same := transfer_ofLinear decided
  have linear := Chs.linear_ofLinear s.info.head.toNat s.info.sector.toNat (s.absoluteSector curr).toNat
  have sector : t.sec.toNat = _ + 1 := congrArg Chs.sector same
  rw [← same] at linear
  simp only [firstSector, Chs.linear] at linear ⊢
  omega

/-! ### The registers -/

/-- The last byte written to the port. -/
def register (s : Disk) (port : Nat) : Option (BitVec 8) :=
  s.out.findSome? fun
    | .byte p v => if p = port then some v else none
    | .word _ _ => none

/-- The value for the register of drive and head. -/
def driveHead (drive head : BitVec 32) : BitVec 32 := 0xA0 ||| drive <<< 4 ||| head

/-- The bytes of a command, the last one first. -/
def commandBytes (info : HardDisk) (drive nsect sect head cyl cmd : BitVec 32) : List Out :=
  [.byte (hdData + 7) (cmd.setWidth 8), .byte (hdData + 6) ((driveHead drive head).setWidth 8),
    .byte (hdData + 5) ((cyl >>> 8).setWidth 8), .byte (hdData + 4) (cyl.setWidth 8),
    .byte (hdData + 3) (sect.setWidth 8), .byte (hdData + 2) (nsect.setWidth 8),
    .byte (hdData + 1) ((info.wpcom >>> 2).setWidth 8), .byte hdCmd (info.ctrl.setWidth 8)]

theorem hdOut_out {s s' : Disk} {drive nsect sect head cyl cmd : BitVec 32} {h : Handler}
    (issued : s.hdOut drive nsect sect head cyl cmd h = some s') :
    s'.out = commandBytes s.info drive nsect sect head cyl cmd ++ s.out := by
  obtain ⟨reads, ready⟩ := controllerReady_reads s
  simp only [hdOut] at issued
  split at issued
  · cases issued
  · split at issued
    · cases issued
    · rw [← Option.some.inj issued]
      simp only [outByte, ready]
      rfl

/-- A drive of the interface: every number fits its register. -/
structure Geometry (info : HardDisk) : Prop where
  head : 1 ≤ info.head.toNat ∧ info.head.toNat ≤ 16
  sector : 1 ≤ info.sector.toNat ∧ info.sector.toNat ≤ 255
  cylinder : 1 ≤ info.cylinder.toNat ∧ info.cylinder.toNat ≤ 65535

/-- Two bytes hold a number below `2 ^ 16`. -/
theorem bytes_of_small {v : BitVec 32} (small : v.toNat < 65536) :
    ((v >>> 8).setWidth 8).toNat * 256 + (v.setWidth 8).toNat = v.toNat := by
  simp only [BitVec.toNat_setWidth, BitVec.toNat_ushiftRight, Nat.shiftRight_eq_div_pow]
  omega

theorem byte_of_small {v : BitVec 32} (small : v.toNat < 256) : (v.setWidth 8).toNat = v.toNat := by
  rw [BitVec.toNat_setWidth]
  exact Nat.mod_eq_of_lt small

/-- The register of drive and head for the first drive. -/
theorem drvHead_of_small {head : BitVec 32} (small : head.toNat < 16) :
    ((driveHead 0 head).setWidth 8).toNat = (driveHead 0 head).toNat ∧
      ((driveHead 0 head).setWidth 8 &&& 0x0f).toNat = head.toNat := by
  obtain ⟨n, fits, rfl⟩ : ∃ n, n < 16 ∧ head = BitVec.ofNat 32 n :=
    ⟨head.toNat, small, (BitVec.ofNat_toNat 32 head).symm⟩
  interval_cases n <;> decide

/-- The registers `0x1f3` to `0x1f6` after a command of `hdOut` hold the whole
numbers and stand for the sector `l`. -/
structure Addresses (info : HardDisk) (t : Transfer) (l : Nat) (s : Disk) : Prop where
  registers : ∃ sect cylLow cylHigh drvHead, s.register 0x1f3 = some sect ∧ s.register 0x1f4 = some cylLow ∧
    s.register 0x1f5 = some cylHigh ∧ s.register 0x1f6 = some drvHead ∧
    (sect.toNat = t.sec.toNat ∧ cylHigh.toNat * 256 + cylLow.toNat = t.cyl.toNat ∧
      drvHead.toNat = (driveHead t.drive t.head).toNat) ∧
    (Chs.decode sect cylLow cylHigh drvHead).On info.head.toNat info.sector.toNat info.cylinder.toNat ∧
    (Chs.decode sect cylLow cylHigh drvHead).linear info.head.toNat info.sector.toNat = l

theorem addresses_of_transfer {s : Disk} {curr : ReqSlot} {t : Transfer} (geometry : Geometry s.info)
    (decided : s.decision curr = .transfer t)
    (inside : (s.absoluteSector curr).toNat < s.info.head.toNat * s.info.sector.toNat * s.info.cylinder.toNat) :
    ¬ (t.drive > 1 ∨ t.head > 15) ∧ ∀ cmd h s', s.hdOut t.drive t.nsect t.sec t.head t.cyl cmd h = some s' →
      Addresses s.info t (s.absoluteSector curr).toNat s' := by
  have drive : t.drive = 0 := (decision_transfer decided).2.2.2.1
  have same := transfer_ofLinear decided
  -- a sector on the disk has a cylinder, a head and a sector in its track
  have on := Chs.on_ofLinear inside
  have linear := Chs.linear_ofLinear s.info.head.toNat s.info.sector.toNat (s.absoluteSector curr).toNat
  rw [← same] at on linear
  obtain ⟨pos, sectorLe, headLt, cylinderLt⟩ := on
  dsimp only at pos sectorLe headLt cylinderLt
  have heads := geometry.head.2
  have sectors := geometry.sector.2
  have cylinders := geometry.cylinder.2
  -- the geometry fits the registers, so nothing is cut off
  have sect : t.sec.toNat < 256 := by omega
  have head : t.head.toNat < 16 := by omega
  have cyl : t.cyl.toNat < 65536 := by omega
  constructor
  · rw [drive, not_or]
    have fifteen : (15 : BitVec 32).toNat = 15 := rfl
    refine ⟨by decide, ?_⟩
    rw [gt_iff_lt, BitVec.lt_def, fifteen]
    omega
  · intro cmd h s' issued
    have out := hdOut_out issued
    obtain ⟨whole, low⟩ := drvHead_of_small head
    have decoded : Chs.decode (t.sec.setWidth 8) (t.cyl.setWidth 8) ((t.cyl >>> 8).setWidth 8)
        ((driveHead t.drive t.head).setWidth 8) = ⟨t.cyl.toNat, t.head.toNat, t.sec.toNat⟩ := by
      rw [Chs.decode, drive, bytes_of_small cyl, low, byte_of_small sect]
    refine ⟨t.sec.setWidth 8, t.cyl.setWidth 8, (t.cyl >>> 8).setWidth 8, (driveHead t.drive t.head).setWidth 8,
      ?_, ?_, ?_, ?_, ⟨byte_of_small sect, bytes_of_small cyl, ?_⟩, ?_, ?_⟩
    · rw [register, out]
      rfl
    · rw [register, out]
      rfl
    · rw [register, out]
      rfl
    · rw [register, out]
      rfl
    · rw [drive]
      exact whole
    · rw [decoded]
      exact ⟨pos, sectorLe, headLt, cylinderLt⟩
    · rw [decoded]
      exact linear

/-! ### The size of the drive -/

def cmosCtl : Nat := 0x70
def cmosDataDisks : BitVec 32 := 0x92

/-- The word at the offset `i`. -/
def u16At (drvInfo : Nat → BitVec 8) (i : Nat) : BitVec 16 :=
  (drvInfo (i + 1)).setWidth 16 <<< 8 ||| (drvInfo i).setWidth 16

/-- `sysSetup` up to its call of `bread`, with the table of the drive as its bytes. -/
def sysSetup (s : Disk) (drvInfo : Nat → BitVec 8) : Option Disk :=
  let s := { s with info :=
    { head := (drvInfo 2).setWidth 32
      sector := (drvInfo 14).setWidth 32
      cylinder := (u16At drvInfo 0).setWidth 32
      wpcom := (u16At drvInfo 5).setWidth 32
      ctrl := (drvInfo 8).setWidth 32 } }
  let s := s.outByte cmosCtl cmosDataDisks
  let (cmosDisks, s) := s.inByte
  if cmosDisks &&& 0xf0 = 0 then none
  else
    some { s with hd := Function.update s.hd 0 ⟨0, s.info.head * s.info.sector * s.info.cylinder⟩ }

/-- The number of sectors is the product of the three numbers of the table. -/
theorem sysSetup_cntSectors {s s' : Disk} {drvInfo : Nat → BitVec 8} (done : s.sysSetup drvInfo = some s') :
    (s'.hd 0).cntSectors.toNat = s'.info.head.toNat * s'.info.sector.toNat * s'.info.cylinder.toNat := by
  rw [sysSetup] at done
  obtain ⟨_, result⟩ := Option.ite_none_left_eq_some.mp done
  rw [← Option.some.inj result]
  simp only [Function.update_self]
  change (BitVec.setWidth 32 (drvInfo 2) * BitVec.setWidth 32 (drvInfo 14) *
    BitVec.setWidth 32 (u16At drvInfo 0)).toNat = (BitVec.setWidth 32 (drvInfo 2)).toNat *
      (BitVec.setWidth 32 (drvInfo 14)).toNat * (BitVec.setWidth 32 (u16At drvInfo 0)).toNat
  generalize drvInfo 2 = a, drvInfo 14 = b, u16At drvInfo 0 = c
  have aLt := a.isLt
  have bLt := b.isLt
  have cLt := c.isLt
  -- the product of the three fields does not wrap
  have track : a.toNat * b.toNat ≤ 255 * 255 := Nat.mul_le_mul (by omega) (by omega)
  have volume : a.toNat * b.toNat * c.toNat ≤ 255 * 255 * 65535 := Nat.mul_le_mul track (by omega)
  simp only [BitVec.toNat_mul, BitVec.toNat_setWidth]
  have aMod : a.toNat % 2 ^ 32 = a.toNat := by omega
  have bMod : b.toNat % 2 ^ 32 = b.toNat := by omega
  have cMod : c.toNat % 2 ^ 32 = c.toNat := by omega
  rw [aMod, bMod, cMod, Nat.mod_eq_of_lt (lt_of_le_of_lt track (by decide)),
    Nat.mod_eq_of_lt (lt_of_le_of_lt volume (by decide))]

/-- For every drive of the interface a transfer addresses the sector of its
request, and the size of the drive does not overflow. -/
theorem chs_round_trip :
    (∀ (s : Disk) (curr : ReqSlot) (t : Transfer), Geometry s.info → s.decision curr = .transfer t →
      (s.absoluteSector curr).toNat < s.info.head.toNat * s.info.sector.toNat * s.info.cylinder.toNat →
      ¬ (t.drive > 1 ∨ t.head > 15) ∧ ∀ cmd h s', s.hdOut t.drive t.nsect t.sec t.head t.cyl cmd h = some s' →
        Addresses s.info t (s.absoluteSector curr).toNat s') ∧
    ∀ (s s' : Disk) (drvInfo : Nat → BitVec 8), s.sysSetup drvInfo = some s' →
      (s'.hd 0).cntSectors.toNat = s'.info.head.toNat * s'.info.sector.toNat * s'.info.cylinder.toNat :=
  ⟨fun _ _ _ geometry decided inside => addresses_of_transfer geometry decided inside,
    fun _ _ _ done => sysSetup_cntSectors done⟩

/-- A drive of 4 heads, 17 sectors and 100 cylinders, and a request for its sector 5000. -/
def farRead : Disk :=
  { oneRead with
    queue := oneRead.queue.setRequest ⟨0, nrRequest_pos⟩ ⟨0x300, 0, 0, 5000, 2, 0, none, none⟩
    info := ⟨4, 17, 100, 0, 0⟩ }

theorem chs_round_trip_farRead :
    (∃ s', farRead.hdOut 0 2 3 2 73 winRead .readIntr = some s' ∧
      Addresses farRead.info ⟨false, 0, 2, 3, 2, 73⟩ 5000 s') ∧
    ∃ s', farRead.sysSetup (fun i => if i = 0 then 100 else if i = 2 then 4 else if i = 14 then 17 else 0) =
      some s' ∧ (s'.hd 0).cntSectors.toNat = 6800 := by
  constructor
  · have geometry : Geometry farRead.info := ⟨by decide, by decide, by decide⟩
    obtain ⟨s', issued⟩ : ∃ s', farRead.hdOut 0 2 3 2 73 winRead .readIntr = some s' :=
      Option.isSome_iff_exists.mp (by decide +kernel)
    have decided : farRead.decision 0 = .transfer ⟨false, 0, 2, 3, 2, 73⟩ := rfl
    exact ⟨s', issued, (chs_round_trip.1 farRead 0 _ geometry decided (by decide)).2 winRead .readIntr s' issued⟩
  · obtain ⟨s', done⟩ : ∃ s', farRead.sysSetup
        (fun i => if i = 0 then 100 else if i = 2 then 4 else if i = 14 then 17 else 0) = some s' :=
      ⟨_, rfl⟩
    refine ⟨s', done, ?_⟩
    rw [chs_round_trip.2 farRead s' _ done, ← Option.some.inj done]
    rfl

end Disk

end OperatorSystem.Blk
