import Mathlib.Logic.Function.Iterate
import Mathlib.Tactic.SplitIfs

/-!
# The proleptic Gregorian calendar

Dates with a time of day, the second that follows one, and the number of seconds
since the beginning of a year. Months count from 0, days from 1.
-/

namespace Calendar

def isLeap (year : Nat) : Bool := year % 4 = 0 && (year % 100 ≠ 0 || year % 400 = 0)

def daysIn (year month : Nat) : Nat :=
  match month with
  | 1 => if isLeap year then 29 else 28
  | 3 | 5 | 8 | 10 => 30
  | _ => 31

def yearDays (year : Nat) : Nat := if isLeap year then 366 else 365

/-- The days of a year in front of a month. -/
def daysToMonth (year : Nat) : Nat → Nat
  | 0 => 0
  | month + 1 => daysToMonth year month + daysIn year month

/-- The days of the first `k` years from `epoch` on. -/
def daysToYear (epoch : Nat) : Nat → Nat
  | 0 => 0
  | k + 1 => daysToYear epoch k + yearDays (epoch + k)

structure DateTime where
  year : Nat
  month : Nat
  day : Nat
  hour : Nat
  minute : Nat
  second : Nat
  deriving DecidableEq

namespace DateTime

structure Valid (t : DateTime) : Prop where
  month : t.month < 12
  day : 1 ≤ t.day ∧ t.day ≤ daysIn t.year t.month
  hour : t.hour < 24
  minute : t.minute < 60
  second : t.second < 60

def days (epoch : Nat) (t : DateTime) : Nat :=
  daysToYear epoch (t.year - epoch) + daysToMonth t.year t.month + (t.day - 1)

/-- The seconds since the beginning of the year `epoch`. -/
def seconds (epoch : Nat) (t : DateTime) : Nat :=
  ((t.days epoch * 24 + t.hour) * 60 + t.minute) * 60 + t.second

/-- One second later. -/
def tick (t : DateTime) : DateTime :=
  if t.second + 1 < 60 then { t with second := t.second + 1 }
  else if t.minute + 1 < 60 then { t with minute := t.minute + 1, second := 0 }
  else if t.hour + 1 < 24 then { t with hour := t.hour + 1, minute := 0, second := 0 }
  else if t.day < daysIn t.year t.month then { t with day := t.day + 1, hour := 0, minute := 0, second := 0 }
  else if t.month + 1 < 12 then { t with month := t.month + 1, day := 1, hour := 0, minute := 0, second := 0 }
  else { year := t.year + 1, month := 0, day := 1, hour := 0, minute := 0, second := 0 }

/-- The order of dates: the first field that differs decides. -/
def Before (s t : DateTime) : Prop :=
  s.year < t.year ∨ s.year = t.year ∧ (s.month < t.month ∨ s.month = t.month ∧ (s.day < t.day ∨ s.day = t.day ∧
    (s.hour < t.hour ∨ s.hour = t.hour ∧ (s.minute < t.minute ∨ s.minute = t.minute ∧ s.second < t.second))))

end DateTime

/-! ## Counting days -/

variable {epoch : Nat} {s t : DateTime}

theorem daysIn_pos (year month : Nat) : 1 ≤ daysIn year month := by
  unfold daysIn
  split <;> try split
  all_goals decide

theorem daysIn_le (year month : Nat) : daysIn year month ≤ 31 := by
  unfold daysIn
  split <;> try split
  all_goals decide

theorem daysToMonth_mono (year : Nat) {m n : Nat} (le : m ≤ n) : daysToMonth year m ≤ daysToMonth year n := by
  induction le with
  | refl => exact Nat.le_refl _
  | step _ ih => exact Nat.le_trans ih (Nat.le_add_right ..)

/-- The twelve months make up the year. -/
theorem daysToMonth_twelve (year : Nat) : daysToMonth year 12 = yearDays year := by
  simp only [daysToMonth, daysIn, yearDays]
  split <;> rfl

theorem daysToYear_mono {j k : Nat} (le : j ≤ k) : daysToYear epoch j ≤ daysToYear epoch k := by
  induction le with
  | refl => exact Nat.le_refl _
  | step _ ih => exact Nat.le_trans ih (Nat.le_add_right ..)

/-- A date is a day of its month. -/
theorem DateTime.Valid.days_lt_month (valid : t.Valid) :
    daysToMonth t.year t.month + (t.day - 1) < daysToMonth t.year (t.month + 1) := by
  obtain ⟨first, last⟩ := valid.day
  rw [daysToMonth]
  omega

/-- A date is a day of its year. -/
theorem DateTime.Valid.days_lt_year (valid : t.Valid) :
    daysToMonth t.year t.month + (t.day - 1) < yearDays t.year := by
  have within : daysToMonth t.year (t.month + 1) ≤ _ := daysToMonth_mono t.year valid.month
  rw [daysToMonth_twelve] at within
  exact Nat.lt_of_lt_of_le valid.days_lt_month within

theorem DateTime.days_lt (valid : s.Valid) (start : epoch ≤ s.year)
    (before : s.year < t.year ∨ s.year = t.year ∧ (s.month < t.month ∨ s.month = t.month ∧ s.day < t.day)) :
    s.days epoch < t.days epoch := by
  rw [days, days]
  rcases before with year | ⟨year, month | ⟨month, day⟩⟩
  · have within := valid.days_lt_year
    have years : daysToYear epoch (s.year - epoch + 1) ≤ daysToYear epoch (t.year - epoch) := daysToYear_mono (by omega)
    rw [daysToYear, Nat.add_sub_cancel' start] at years
    omega
  · have within := valid.days_lt_month
    have months : daysToMonth s.year (s.month + 1) ≤ _ := daysToMonth_mono s.year month
    rw [← year]
    omega
  · have first := valid.day.1
    rw [← year, ← month]
    omega

/-- The count of seconds follows the order of dates. -/
theorem DateTime.seconds_lt (valid : s.Valid) (start : epoch ≤ s.year) (before : s.Before t) :
    s.seconds epoch < t.seconds epoch := by
  have hourS := valid.hour
  have minuteS := valid.minute
  have secondS := valid.second
  rw [seconds, seconds]
  have later : s.days epoch < t.days epoch ∨ s.days epoch = t.days epoch ∧
      (s.hour < t.hour ∨ s.hour = t.hour ∧ (s.minute < t.minute ∨ s.minute = t.minute ∧ s.second < t.second)) := by
    rcases before with year | ⟨year, month | ⟨month, day | ⟨day, time⟩⟩⟩
    · exact .inl (days_lt valid start (.inl year))
    · exact .inl (days_lt valid start (.inr ⟨year, .inl month⟩))
    · exact .inl (days_lt valid start (.inr ⟨year, .inr ⟨month, day⟩⟩))
    · exact .inr ⟨by rw [days, days, year, month, day], time⟩
  omega

/-! ## Counting seconds -/

theorem DateTime.Valid.tick (valid : t.Valid) : t.tick.Valid := by
  obtain ⟨month, ⟨first, last⟩, hour, minute, second⟩ := valid
  rw [DateTime.tick]
  split_ifs with s m h d n
  · exact ⟨month, ⟨first, last⟩, hour, minute, s⟩
  · exact ⟨month, ⟨first, last⟩, hour, m, Nat.succ_pos _⟩
  · exact ⟨month, ⟨first, last⟩, h, Nat.succ_pos _, Nat.succ_pos _⟩
  · exact ⟨month, ⟨Nat.succ_pos _, d⟩, Nat.succ_pos _, Nat.succ_pos _, Nat.succ_pos _⟩
  · exact ⟨n, ⟨Nat.le_refl _, daysIn_pos ..⟩, Nat.succ_pos _, Nat.succ_pos _, Nat.succ_pos _⟩
  · exact ⟨Nat.succ_pos _, ⟨Nat.le_refl _, daysIn_pos ..⟩, Nat.succ_pos _, Nat.succ_pos _, Nat.succ_pos _⟩

theorem DateTime.year_le_tick (t : DateTime) : t.year ≤ t.tick.year := by
  rw [tick]
  split_ifs <;> simp

/-- The count of seconds goes up by one with each second, over the ends of months and years. -/
theorem DateTime.seconds_tick (valid : t.Valid) (start : epoch ≤ t.year) :
    t.tick.seconds epoch = t.seconds epoch + 1 := by
  obtain ⟨month, ⟨first, last⟩, hour, minute, second⟩ := valid
  rw [tick]
  -- one case for each field that the tick reaches
  split_ifs with s m h d n
  · simp only [seconds, days]
    omega
  · simp only [seconds, days]
    omega
  · simp only [seconds, days]
    omega
  · simp only [seconds, days]
    omega
  · -- the month is over
    simp only [seconds, days, daysToMonth]
    omega
  · -- the year is over
    have whole := daysToMonth_twelve t.year
    have twelve : t.month + 1 = 12 := by omega
    rw [← twelve, daysToMonth] at whole
    have next : t.year + 1 - epoch = t.year - epoch + 1 := by omega
    simp only [seconds, days, next, daysToYear, Nat.add_sub_cancel' start]
    simp only [daysToMonth]
    omega

theorem DateTime.iterate_tick (valid : t.Valid) (start : epoch ≤ t.year) (n : Nat) :
    (tick^[n] t).Valid ∧ epoch ≤ (tick^[n] t).year ∧ (tick^[n] t).seconds epoch = t.seconds epoch + n := by
  induction n with
  | zero => exact ⟨valid, start, rfl⟩
  | succ n ih =>
    obtain ⟨valid', start', count⟩ := ih
    rw [Function.iterate_succ_apply']
    exact ⟨valid'.tick, Nat.le_trans start' (year_le_tick _), by rw [seconds_tick valid' start', count, Nat.add_assoc]⟩

end Calendar
