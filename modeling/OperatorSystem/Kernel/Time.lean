import Mathlib.Data.BitVec
import Mathlib.Tactic.IntervalCases
import OperatorSystem.Library.Calendar

/-!
# The time of day (`time.c`)

`mkTime` turns the fields of a clock with a two-digit year into seconds since
1970. The month table counts February with 29 days, so a day is taken off again
behind the February of a common year. The years 00 to 70 are taken for those
after 2000, 70 included.
-/

namespace OperatorSystem.Kernel

open Calendar

/-- `MINUTE`, `HOUR`, `DAY` and `YEAR` -/
def minuteSeconds : Nat := 60
def hourSeconds : Nat := 60 * minuteSeconds
def daySeconds : Nat := 24 * hourSeconds
def yearSeconds : Nat := 365 * daySeconds

theorem daySeconds_eq : daySeconds = 86400 := rfl
theorem yearSeconds_eq : yearSeconds = 31536000 := rfl

/-- The structure `TIME`, without the two fields that nothing reads. -/
structure Time where
  tm_sec : BitVec 16
  tm_min : BitVec 16
  tm_hour : BitVec 16
  tm_mday : BitVec 16
  tm_mon : BitVec 16
  tm_year : BitVec 16
  deriving DecidableEq

/-- The local table `month`, and what lies behind it on the stack. -/
def monthTable (beyond : Nat → BitVec 32) (i : Nat) : BitVec 32 :=
  let days := [0, 31, 31 + 29, 31 + 29 + 31, 31 + 29 + 31 + 30, 31 + 29 + 31 + 30 + 31, 31 + 29 + 31 + 30 + 31 + 30,
    31 + 29 + 31 + 30 + 31 + 30 + 31, 31 + 29 + 31 + 30 + 31 + 30 + 31 + 31, 31 + 29 + 31 + 30 + 31 + 30 + 31 + 31 + 30,
    31 + 29 + 31 + 30 + 31 + 30 + 31 + 31 + 30 + 31, 31 + 29 + 31 + 30 + 31 + 30 + 31 + 31 + 30 + 31 + 30]
  match days[i]? with
  | some n => BitVec.ofNat 32 (daySeconds * n)
  | none => beyond i

/-- The years since 1970. -/
def yearOf (time : Time) : BitVec 32 :=
  if time.tm_year > 70 then time.tm_year.setWidth 32 - 70 else time.tm_year.setWidth 32 + 100 - 70

def mkTime (beyond : Nat → BitVec 32) (time : Time) : BitVec 32 :=
  let year := yearOf time
  let rs := BitVec.ofNat 32 yearSeconds * year + BitVec.ofNat 32 daySeconds * ((year + 1) / 4)
  let rs := rs + monthTable beyond time.tm_mon.toNat
  -- a common year has no 29 February behind it
  let rs := if time.tm_mon > 1 ∧ (year + 2) % 4 ≠ 0 then rs - BitVec.ofNat 32 daySeconds else rs
  let rs := rs + BitVec.ofNat 32 daySeconds * (time.tm_mday.setWidth 32 - 1)
  let rs := rs + BitVec.ofNat 32 hourSeconds * time.tm_hour.setWidth 32
  let rs := rs + BitVec.ofNat 32 minuteSeconds * time.tm_min.setWidth 32
  rs + time.tm_sec.setWidth 32

namespace Time

/-- The date that a two-digit year stands for. -/
def moment (time : Time) : DateTime where
  year := if time.tm_year.toNat ≥ 70 then 1900 + time.tm_year.toNat else 2000 + time.tm_year.toNat
  month := time.tm_mon.toNat
  day := time.tm_mday.toNat
  hour := time.tm_hour.toNat
  minute := time.tm_min.toNat
  second := time.tm_sec.toNat

/-- A date and a time of day that exist. -/
structure Valid (time : Time) : Prop where
  year : time.tm_year.toNat < 100
  moment : time.moment.Valid

end Time

/-! ## The calendar between 1970 and 2069 -/

theorem isLeap_after (k : Nat) (century : k < 130) : isLeap (1970 + k) = decide ((k + 2) % 4 = 0) := by
  rw [isLeap, Bool.eq_iff_iff]
  simp only [Bool.and_eq_true, Bool.or_eq_true, decide_eq_true_eq]
  omega

/-- The leap days of the years before are counted by one division. -/
theorem daysToYear_after (k : Nat) (century : k ≤ 130) : daysToYear 1970 k = 365 * k + (k + 1) / 4 := by
  induction k with
  | zero => rfl
  | succ k ih =>
    rw [daysToYear, ih (by omega), yearDays, isLeap_after k (by omega)]
    by_cases leap : (k + 2) % 4 = 0
    · rw [decide_eq_true leap, if_pos rfl]
      omega
    · rw [decide_eq_false leap, if_neg (by simp)]
      omega

/-- The days in front of a month, from the table for leap years. -/
theorem daysToMonth_table (beyond : Nat → BitVec 32) (year month : Nat) (valid : month < 12) :
    (monthTable beyond month).toNat =
      daySeconds * (daysToMonth year month + if 1 < month ∧ isLeap year = false then 1 else 0) := by
  interval_cases month <;> simp only [daysToMonth, daysIn] <;> cases isLeap year <;> rfl

/-! ## The seconds of a date -/

variable {beyond : Nat → BitVec 32} {time : Time}

theorem yearOf_toNat (valid : time.Valid) :
    (yearOf time).toNat = if 70 < time.tm_year.toNat then time.tm_year.toNat - 70 else time.tm_year.toNat + 30 := by
  have small := valid.year
  have window : time.tm_year > 70 ↔ 70 < time.tm_year.toNat := Iff.rfl
  rw [yearOf]
  by_cases late : 70 < time.tm_year.toNat
  · rw [if_pos (window.mpr late), if_pos late]
    simp only [BitVec.ofNat_eq_ofNat, BitVec.toNat_sub, BitVec.toNat_setWidth, BitVec.toNat_ofNat]
    omega
  · rw [if_neg (mt window.mp late), if_neg late]
    simp only [BitVec.ofNat_eq_ofNat, BitVec.toNat_sub, BitVec.toNat_add, BitVec.toNat_setWidth, BitVec.toNat_ofNat]
    omega

theorem yearOf_le (valid : time.Valid) : (yearOf time).toNat ≤ 100 := by
  have small := valid.year
  rw [yearOf_toNat valid]
  split <;> omega

/-- The year is leap exactly if the number of years divides, also when 1970 is taken for 2070. -/
theorem isLeap_moment (valid : time.Valid) :
    isLeap time.moment.year = decide (((yearOf time).toNat + 2) % 4 = 0) := by
  have small := valid.year
  rw [yearOf_toNat valid, Time.moment]
  by_cases edge : time.tm_year.toNat = 70
  · simp [edge, isLeap]
  · have span : (if time.tm_year.toNat ≥ 70 then 1900 + time.tm_year.toNat else 2000 + time.tm_year.toNat) =
        1970 + if 70 < time.tm_year.toNat then time.tm_year.toNat - 70 else time.tm_year.toNat + 30 := by
      split_ifs <;> omega
    dsimp only
    rw [span]
    refine isLeap_after _ ?_
    split_ifs <;> omega

/-- The days up to the year; those of a whole century too many for the year 70. -/
theorem daysToYear_moment (valid : time.Valid) :
    365 * (yearOf time).toNat + ((yearOf time).toNat + 1) / 4 =
      daysToYear 1970 (time.moment.year - 1970) + if time.tm_year.toNat = 70 then 36525 else 0 := by
  have small := valid.year
  rw [yearOf_toNat valid, Time.moment]
  by_cases edge : time.tm_year.toNat = 70
  · simp [edge, daysToYear]
  · dsimp only
    rw [if_neg edge, Nat.add_zero, daysToYear_after]
    · split_ifs <;> omega
    · split_ifs <;> omega

theorem month_le (valid : time.Valid) :
    daysToMonth time.moment.year time.moment.month + (time.moment.day - 1) < 366 := by
  have within := valid.moment.days_lt_year
  have longest : yearDays time.moment.year ≤ 366 := by
    rw [yearDays]
    split <;> decide
  omega

/-- What the table gives for a year, once the day is taken off. -/
theorem month_seconds (beyond : Nat → BitVec 32) (valid : time.Valid) (rs : BitVec 32)
    (room : rs.toNat + daySeconds * 367 < 2 ^ 32) :
    (if time.tm_mon > 1 ∧ (yearOf time + 2) % 4 ≠ 0
      then rs + monthTable beyond time.tm_mon.toNat - BitVec.ofNat 32 daySeconds
      else rs + monthTable beyond time.tm_mon.toNat).toNat =
        rs.toNat + daySeconds * daysToMonth time.moment.year time.moment.month := by
  have table := daysToMonth_table beyond time.moment.year time.tm_mon.toNat valid.moment.month
  have short := month_le valid
  have month : time.moment.month = time.tm_mon.toNat := rfl
  have behind : time.tm_mon > 1 ↔ 1 < time.tm_mon.toNat := Iff.rfl
  have small := yearOf_le valid
  have common : (yearOf time + 2) % 4 ≠ 0 ↔ isLeap time.moment.year = false := by
    rw [isLeap_moment valid, decide_eq_false_iff_not, ne_eq, ← BitVec.toNat_inj]
    simp only [BitVec.ofNat_eq_ofNat, BitVec.toNat_umod, BitVec.toNat_add, BitVec.toNat_ofNat, Nat.reducePow,
      Nat.reduceMod]
    omega
  rw [month] at short ⊢
  rw [daySeconds_eq] at room table ⊢
  -- the table is that of a leap year, so in other years a day is taken off after February
  by_cases off : 1 < time.tm_mon.toNat ∧ isLeap time.moment.year = false
  · rw [if_pos off] at table
    rw [if_pos ⟨behind.mpr off.1, common.mpr off.2⟩, BitVec.toNat_sub, BitVec.toNat_add, table, BitVec.toNat_ofNat]
    omega
  · rw [if_neg off] at table
    rw [if_neg (fun both => off ⟨behind.mp both.1, common.mp both.2⟩), BitVec.toNat_add, table]
    omega

/-- `mkTime` gives the seconds of the date, and those of a century too many for 1970. -/
theorem mkTime_toNat (beyond : Nat → BitVec 32) (valid : time.Valid) :
    (mkTime beyond time).toNat =
      time.moment.seconds 1970 + if time.tm_year.toNat = 70 then daySeconds * 36525 else 0 := by
  have small := yearOf_le valid
  have years := daysToYear_moment valid
  have short := month_le valid
  obtain ⟨_, ⟨first, last⟩, hour, minute, second⟩ := valid.moment
  -- the years with their leap days
  have start : (BitVec.ofNat 32 yearSeconds * yearOf time +
      BitVec.ofNat 32 daySeconds * ((yearOf time + 1) / 4)).toNat =
        daySeconds * (365 * (yearOf time).toNat + ((yearOf time).toNat + 1) / 4) := by
    simp only [BitVec.ofNat_eq_ofNat, BitVec.toNat_add, BitVec.toNat_mul, BitVec.toNat_udiv, BitVec.toNat_ofNat,
      daySeconds_eq, yearSeconds_eq, Nat.reducePow, Nat.reduceMod]
    clear years
    simp (disch := omega) only [Nat.mod_eq_of_lt]
    omega
  have months := month_seconds beyond valid (BitVec.ofNat 32 yearSeconds * yearOf time +
    BitVec.ofNat 32 daySeconds * ((yearOf time + 1) / 4)) (by rw [start, daySeconds_eq]; omega)
  have day : time.moment.day = time.tm_mday.toNat := rfl
  have hours : time.moment.hour = time.tm_hour.toNat := rfl
  have minutes : time.moment.minute = time.tm_min.toNat := rfl
  have seconds : time.moment.second = time.tm_sec.toNat := rfl
  rw [start, years] at months
  rw [day] at first last short
  rw [hours] at hour
  rw [minutes] at minute
  rw [seconds] at second
  rw [mkTime, DateTime.seconds, DateTime.days, day, hours, minutes, seconds]
  generalize (if time.tm_mon > 1 ∧ (yearOf time + 2) % 4 ≠ 0 then _ else _ : BitVec 32) = rs at months ⊢
  have dayTerm : (BitVec.ofNat 32 daySeconds * (time.tm_mday.setWidth 32 - 1)).toNat =
      86400 * (time.tm_mday.toNat - 1) := by
    have one : (1 : BitVec 32).toNat = 1 := rfl
    have factor : (BitVec.ofNat 32 daySeconds).toNat = 86400 := rfl
    rw [BitVec.toNat_mul, BitVec.toNat_sub, BitVec.toNat_setWidth, one, factor]
    omega
  have hourTerm : (BitVec.ofNat 32 hourSeconds * time.tm_hour.setWidth 32).toNat = 3600 * time.tm_hour.toNat := by
    have factor : (BitVec.ofNat 32 hourSeconds).toNat = 3600 := rfl
    rw [BitVec.toNat_mul, BitVec.toNat_setWidth, factor]
    omega
  have minuteTerm : (BitVec.ofNat 32 minuteSeconds * time.tm_min.setWidth 32).toNat = 60 * time.tm_min.toNat := by
    have factor : (BitVec.ofNat 32 minuteSeconds).toNat = 60 := rfl
    rw [BitVec.toNat_mul, BitVec.toNat_setWidth, factor]
    omega
  rw [daySeconds_eq] at months
  have century : (if time.tm_year.toNat = 70 then daySeconds * 36525 else 0) =
      86400 * if time.tm_year.toNat = 70 then 36525 else 0 := by
    split <;> rfl
  rw [century]
  simp only [BitVec.toNat_add, months, dayTerm, hourTerm, minuteTerm, BitVec.toNat_setWidth]
  omega

theorem Time.Valid.year_le (valid : time.Valid) : 1970 ≤ time.moment.year ∧ time.moment.year < 2070 := by
  have small := valid.year
  rw [Time.moment]
  dsimp only
  split <;> omega

/-- A date with a two-digit year lies in the century behind 1970. -/
theorem seconds_lt_century (valid : time.Valid) : time.moment.seconds 1970 < daySeconds * 36525 := by
  obtain ⟨start, stop⟩ := valid.year_le
  obtain ⟨_, _, hour, minute, second⟩ := valid.moment
  have within := valid.moment.days_lt_year
  have whole : daysToYear 1970 (time.moment.year - 1970 + 1) ≤ daysToYear 1970 100 := daysToYear_mono (by omega)
  rw [daysToYear_after 100 (by omega), daysToYear, Nat.add_sub_cancel' start] at whole
  rw [DateTime.seconds, DateTime.days, daySeconds_eq]
  omega

/-- The conversion is right, and follows the order of dates, exactly outside 1970: that year
counts as 2070, so every date after it up to 2069 comes out smaller. -/
theorem mkTime_iff (beyond : Nat → BitVec 32) (time : Time) (valid : time.Valid) :
    ((mkTime beyond time).toNat = time.moment.seconds 1970 ↔ time.tm_year ≠ 70) ∧
    ∀ later : Time, later.Valid → time.moment.Before later.moment →
      ((mkTime beyond time).toNat < (mkTime beyond later).toNat ↔ time.tm_year ≠ 70 ∨ later.tm_year = 70) := by
  have edge : ∀ time : Time, time.tm_year = 70 ↔ time.tm_year.toNat = 70 := fun time => BitVec.toNat_inj.symm
  constructor
  · rw [mkTime_toNat beyond valid, ne_eq, edge]
    split
    next same => exact iff_of_false (by rw [daySeconds_eq]; omega) (not_not_intro same)
    next other => exact iff_of_true rfl other
  · intro later valid' before
    have less := DateTime.seconds_lt valid.moment valid.year_le.1 before
    have bound := seconds_lt_century valid'
    rw [mkTime_toNat beyond valid, mkTime_toNat beyond valid', ne_eq, edge, edge, daySeconds_eq]
    rw [daySeconds_eq] at bound
    split <;> split <;> omega

/-- The first second of 1970 comes out as that of 2070. -/
theorem mkTime_epoch : ¬ ∀ (beyond : Nat → BitVec 32) (time : Time), time.Valid →
    (mkTime beyond time).toNat = time.moment.seconds 1970 := by
  intro all
  let epoch : Time := { tm_sec := 0, tm_min := 0, tm_hour := 0, tm_mday := 1, tm_mon := 0, tm_year := 70 }
  have valid : epoch.Valid := ⟨by decide, by decide, by decide, by decide, by decide, by decide⟩
  have same := all (fun _ => 0) epoch valid
  exact absurd same (by decide)

/-- 29 February 2000, noon, and the day after it. -/
theorem mkTime_iff_leap :
    let time : Time := { tm_sec := 0, tm_min := 0, tm_hour := 12, tm_mday := 29, tm_mon := 1, tm_year := 0 }
    ((mkTime (fun _ => 0) time).toNat = time.moment.seconds 1970 ↔ time.tm_year ≠ 70) ∧
    ∀ later : Time, later.Valid → time.moment.Before later.moment →
      ((mkTime (fun _ => 0) time).toNat < (mkTime (fun _ => 0) later).toNat ↔
        time.tm_year ≠ 70 ∨ later.tm_year = 70) :=
  mkTime_iff (fun _ => 0) { tm_sec := 0, tm_min := 0, tm_hour := 12, tm_mday := 29, tm_mon := 1, tm_year := 0 }
    ⟨by decide, by decide, by decide, by decide, by decide, by decide⟩

end OperatorSystem.Kernel
