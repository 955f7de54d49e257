import OperatorSystem.Kernel.Time

/-!
# Reading the clock (`initTime`)

Six registers are read one after the other, each of them twice, because
`BCD_TO_BIN` evaluates its argument twice. The clock runs on between the reads.
The main result `startupTime_between_iff` says for which of the eleven gaps
between the reads a register that is still to be read may change: for none.
-/

namespace OperatorSystem.Kernel

open Calendar

/-- `CMOS_DATA_SEC` to `CMOS_DATA_YEAR`, in the order in which they are read. -/
def cmosData (k : Nat) : BitVec 8 := [0x80, 0x82, 0x84, 0x87, 0x88, 0x89].getD k 0

/-- Two decimal digits in a byte. -/
def bcd (n : Nat) : BitVec 8 := BitVec.ofNat 8 (n / 10 * 16 + n % 10)

/-- A register of the clock; the highest bit of the index is not part of it. -/
def cmos (index : BitVec 8) (now : DateTime) : BitVec 8 :=
  match (index &&& 0x7F).toNat with
  | 0 => bcd now.second
  | 2 => bcd now.minute
  | 4 => bcd now.hour
  | 7 => bcd now.day
  | 8 => bcd (now.month + 1)
  | 9 => bcd (now.year % 100)
  | _ => 0

/-- `BCD_TO_BIN`, whose argument has one value on each side of the sum. -/
def bcdToBin (low high : BitVec 8) : BitVec 16 := (low &&& 0xF).setWidth 16 + (high >>> 4).setWidth 16 * 10

/-- The field `k`, from the reads `2k` and `2k + 1`. Which of the two gives the low digit is
up to the compiler. -/
def field (lowFirst : Nat → Bool) (clock : Nat → DateTime) (k : Nat) : BitVec 16 :=
  let first := cmos (cmosData k) (clock (2 * k))
  let second := cmos (cmosData k) (clock (2 * k + 1))
  if lowFirst k then bcdToBin first second else bcdToBin second first

/-- The structure that `initTime` fills; `clock` gives the time of each read. -/
def readTime (lowFirst : Nat → Bool) (clock : Nat → DateTime) : Time where
  tm_sec := field lowFirst clock 0
  tm_min := field lowFirst clock 1
  tm_hour := field lowFirst clock 2
  tm_mday := field lowFirst clock 3
  -- `tm_mon` counts from 0
  tm_mon := field lowFirst clock 4 - 1
  tm_year := field lowFirst clock 5

/-- `STARTUP_TIME`. The programming of the timer behind it is left out. -/
def startupTime (beyond : Nat → BitVec 32) (lowFirst : Nat → Bool) (clock : Nat → DateTime) : BitVec 32 :=
  mkTime beyond (readTime lowFirst clock)

/-- The fields of a date without any tearing. -/
def timeOf (now : DateTime) : Time where
  tm_sec := BitVec.ofNat 16 now.second
  tm_min := BitVec.ofNat 16 now.minute
  tm_hour := BitVec.ofNat 16 now.hour
  tm_mday := BitVec.ofNat 16 now.day
  tm_mon := BitVec.ofNat 16 now.month
  tm_year := BitVec.ofNat 16 (now.year % 100)

/-- The clock at the twelve reads: it goes by whole seconds, a day at most in all. -/
structure History (clock : Nat → DateTime) : Prop where
  start : (clock 0).Valid
  first : 1970 ≤ (clock 0).year
  last : (clock 11).year < 2070
  advance : ∀ k < 11, ∃ n, clock (k + 1) = DateTime.tick^[n] (clock k)
  day : (clock 11).seconds 1970 ≤ (clock 0).seconds 1970 + daySeconds

/-- Behind the read `k` no register changes that is still to be read. -/
def Quiet (clock : Nat → DateTime) (k : Nat) : Prop :=
  ∀ f < 6, k < 2 * f + 1 → cmos (cmosData f) (clock (k + 1)) = cmos (cmosData f) (clock k)

/-- The value lies between those of the first and the last read. -/
def Between (beyond : Nat → BitVec 32) (lowFirst : Nat → Bool) (clock : Nat → DateTime) : Prop :=
  mkTime beyond (timeOf (clock 0)) ≤ startupTime beyond lowFirst clock ∧
    startupTime beyond lowFirst clock ≤ mkTime beyond (timeOf (clock 11))

instance (beyond : Nat → BitVec 32) (lowFirst : Nat → Bool) (clock : Nat → DateTime) :
    Decidable (Between beyond lowFirst clock) := inferInstanceAs (Decidable (_ ∧ _))

/-! ## A clock that changes only what has been read -/

variable {clock : Nat → DateTime} {lowFirst : Nat → Bool}

theorem bcdToBin_bcd {n : Nat} (digits : n < 100) : bcdToBin (bcd n) (bcd n) = BitVec.ofNat 16 n := by
  have all : ∀ n < 100, bcdToBin (bcd n) (bcd n) = BitVec.ofNat 16 n := by decide
  exact all n digits

theorem field_steady {k : Nat} {r : BitVec 8} (first : cmos (cmosData k) (clock (2 * k)) = r)
    (second : cmos (cmosData k) (clock (2 * k + 1)) = r) : field lowFirst clock k = bcdToBin r r := by
  rw [field, first, second]
  split <;> rfl

/-- A register keeps its first value up to its second read. -/
theorem register_steady (quiet : ∀ k < 11, Quiet clock k) {f : Nat} (register : f < 6) (j : Nat)
    (read : j ≤ 2 * f + 1) :
    cmos (cmosData f) (clock j) = cmos (cmosData f) (clock 0) := by
  induction j with
  | zero => rfl
  | succ j ih => rw [quiet j (by omega) f register (by omega), ih (by omega)]

theorem field_first (quiet : ∀ k < 11, Quiet clock k) {f n : Nat} (register : f < 6)
    (value : cmos (cmosData f) (clock 0) = bcd n) (digits : n < 100) : field lowFirst clock f = BitVec.ofNat 16 n := by
  rw [field_steady (register_steady quiet register _ (Nat.le_succ _))
    (register_steady quiet register _ (Nat.le_refl _)),
    value, bcdToBin_bcd digits]

/-- Then the date read is that of the first read. -/
theorem readTime_first (quiet : ∀ k < 11, Quiet clock k) (valid : (clock 0).Valid) :
    readTime lowFirst clock = timeOf (clock 0) := by
  obtain ⟨month, ⟨_, day⟩, hour, minute, second⟩ := valid
  have longest := daysIn_le (clock 0).year (clock 0).month
  have back : BitVec.ofNat 16 ((clock 0).month + 1) - 1 = BitVec.ofNat 16 (clock 0).month := by
    apply BitVec.eq_of_toNat_eq
    have one : (1 : BitVec 16).toNat = 1 := rfl
    rw [BitVec.toNat_sub, BitVec.toNat_ofNat, BitVec.toNat_ofNat, one]
    omega
  rw [readTime, timeOf, field_first quiet (f := 0) (by omega) rfl (by omega),
    field_first quiet (by omega) rfl (by omega),
    field_first quiet (by omega) rfl (by omega), field_first quiet (by omega) rfl (by omega),
    field_first quiet (by omega) rfl (by omega), field_first quiet (by omega) rfl (Nat.mod_lt _ (by omega)), back]

/-- The ticks of a history leave the clock valid and never take it back. -/
theorem History.forward (history : History clock) (k : Nat) (within : k ≤ 11) :
    (clock k).Valid ∧ (clock 0).year ≤ (clock k).year ∧ (clock 0).seconds 1970 ≤ (clock k).seconds 1970 := by
  induction k with
  | zero => exact ⟨history.start, Nat.le_refl _, Nat.le_refl _⟩
  | succ k ih =>
    obtain ⟨valid, start, later⟩ := ih (by omega)
    obtain ⟨n, ticks⟩ := history.advance k (by omega)
    obtain ⟨_, start', _⟩ := DateTime.iterate_tick valid start n
    obtain ⟨valid', _, count⟩ := DateTime.iterate_tick valid (Nat.le_trans history.first start) n
    rw [ticks]
    exact ⟨valid', start', by omega⟩

theorem timeOf_moment {now : DateTime} (valid : now.Valid) (start : 1970 ≤ now.year) (stop : now.year < 2070) :
    (timeOf now).moment = now := by
  obtain ⟨month, ⟨_, day⟩, hour, minute, second⟩ := valid
  have longest := daysIn_le now.year now.month
  obtain ⟨y, m, d, h, mi, s⟩ := now
  simp only [timeOf, Time.moment, BitVec.toNat_ofNat, DateTime.mk.injEq] at *
  refine ⟨?_, ?_, ?_, ?_, ?_, ?_⟩
  · split <;> omega
  all_goals omega

theorem timeOf_valid {now : DateTime} (valid : now.Valid) (start : 1970 ≤ now.year) (stop : now.year < 2070) :
    (timeOf now).Valid := by
  refine ⟨?_, by rwa [timeOf_moment valid start stop]⟩
  rw [timeOf, BitVec.toNat_ofNat]
  omega

/-- A clock whose registers change only behind their reads gives a time between the two. -/
theorem between_quiet (beyond : Nat → BitVec 32) (lowFirst : Nat → Bool) (history : History clock)
    (quiet : ∀ k < 11, Quiet clock k) : Between beyond lowFirst clock := by
  obtain ⟨validL, startL, later⟩ := history.forward 11 (Nat.le_refl _)
  have stopF := Nat.lt_of_le_of_lt startL history.last
  have fieldsF := timeOf_valid history.start history.first stopF
  have fieldsL := timeOf_valid validL (Nat.le_trans history.first startL) history.last
  -- the year is read last, so it is the same at both ends
  have year : (timeOf (clock 0)).tm_year = (timeOf (clock 11)).tm_year := by
    have same : bcd ((clock 11).year % 100) = bcd ((clock 0).year % 100) :=
      register_steady quiet (by omega : 5 < 6) 11 (Nat.le_refl _)
    rw [timeOf, timeOf, ← bcdToBin_bcd (Nat.mod_lt _ (by omega)), ← bcdToBin_bcd (Nat.mod_lt _ (by omega)), same]
  rw [Between, startupTime, readTime_first quiet history.start]
  refine ⟨BitVec.le_refl _, BitVec.le_def.mpr ?_⟩
  rw [mkTime_toNat beyond fieldsF, mkTime_toNat beyond fieldsL, year, timeOf_moment history.start history.first stopF,
    timeOf_moment validL (Nat.le_trans history.first startL) history.last]
  exact Nat.add_le_add_right later _

/-! ## A second that falls into a gap -/

/-- The clock stands at `now` up to the read `k` and one second later behind it. -/
def stepped (now : DateTime) (k : Nat) : Nat → DateTime := fun j => if j ≤ k then now else now.tick

/-- For each gap a second after which a register changes that is still to be read. -/
def carry (k : Nat) : DateTime :=
  [⟨2001, 0, 1, 0, 0, 9⟩, ⟨2001, 0, 1, 0, 0, 59⟩, ⟨2001, 0, 1, 0, 9, 59⟩, ⟨2001, 0, 1, 0, 59, 59⟩,
    ⟨2001, 0, 1, 9, 59, 59⟩, ⟨2001, 0, 1, 23, 59, 59⟩, ⟨2001, 0, 9, 23, 59, 59⟩, ⟨2001, 0, 31, 23, 59, 59⟩,
    ⟨2001, 11, 31, 23, 59, 59⟩, ⟨2001, 11, 31, 23, 59, 59⟩].getD k ⟨2009, 11, 31, 23, 59, 59⟩

theorem stepped_history {now : DateTime} (valid : now.Valid) (start : 1970 ≤ now.year) (stop : now.tick.year < 2070)
    (k : Nat) (gap : k < 11) : History (stepped now k) := by
  have first : stepped now k 0 = now := if_pos (Nat.zero_le _)
  have last : stepped now k 11 = now.tick := if_neg (by omega)
  refine ⟨by rwa [first], by rwa [first], by rwa [last], fun j _ => ?_, ?_⟩
  · by_cases here : j = k
    · subst here
      refine ⟨1, ?_⟩
      rw [stepped, stepped, if_neg (by omega), if_pos (Nat.le_refl _)]
      rfl
    · refine ⟨0, ?_⟩
      have same : j + 1 ≤ k ↔ j ≤ k := by omega
      simp only [stepped, same, Function.iterate_zero, id]
  · rw [first, last, DateTime.seconds_tick valid start, daySeconds_eq]
    omega

theorem stepped_quiet (now : DateTime) {j k : Nat} (other : j ≠ k) : Quiet (stepped now k) j := by
  have same : j + 1 ≤ k ↔ j ≤ k := by omega
  intro f _ _
  simp only [stepped, same]

/-- Only the register whose two reads the second separates depends on the order of the two. -/
theorem readTime_stepped (now : DateTime) (k : Nat) :
    readTime lowFirst (stepped now k) = readTime (fun _ => lowFirst (k / 2)) (stepped now k) := by
  have each : ∀ f, field lowFirst (stepped now k) f = field (fun _ => lowFirst (k / 2)) (stepped now k) f := by
    intro f
    by_cases here : k = 2 * f
    · have same : k / 2 = f := by omega
      rw [field, field, same]
    · have same : 2 * f + 1 ≤ k ↔ 2 * f ≤ k := by omega
      have steady : stepped now k (2 * f + 1) = stepped now k (2 * f) := by simp only [stepped, same]
      rw [field_steady rfl (by rw [steady]), field_steady rfl (by rw [steady])]
  simp only [readTime, each]

theorem not_between_stepped (lowFirst : Nat → Bool) {k : Nat} (gap : k < 11) :
    ¬ Between (fun _ => 0) lowFirst (stepped (carry k) k) := by
  rw [Between, startupTime, readTime_stepped]
  generalize lowFirst (k / 2) = low
  interval_cases k <;> cases low <;> decide

theorem carry_history {k : Nat} (gap : k < 11) : History (stepped (carry k) k) := by
  have real : (carry k).Valid ∧ 1970 ≤ (carry k).year ∧ (carry k).tick.year < 2070 := by
    interval_cases k
    all_goals exact ⟨⟨by decide, by decide, by decide, by decide, by decide⟩, by decide, by decide⟩
  exact stepped_history real.1 real.2.1 real.2.2 k gap

/-- The startup time lies between the first and the last read in all histories whose clock,
outside the gaps of `G`, changes only registers that have been read, exactly if `G` has no gap. -/
theorem startupTime_between_iff (lowFirst : Nat → Bool) (G : Nat → Prop) :
    (∀ beyond clock, History clock → (∀ k < 11, ¬ G k → Quiet clock k) → Between beyond lowFirst clock) ↔
      ∀ k < 11, ¬ G k := by
  constructor
  · intro all k gap open'
    exact not_between_stepped lowFirst gap (all _ _ (carry_history gap) fun j _ closed =>
      stepped_quiet _ fun here => closed (here ▸ open'))
  · intro none beyond clock history quiet
    exact between_quiet beyond lowFirst history fun k gap => quiet k gap (none k gap)

/-- The second 59 is read, and then the minute 1: a minute after the first read. -/
theorem startupTime_torn : ¬ ∀ beyond lowFirst clock, History clock → Between beyond lowFirst clock := fun all =>
  not_between_stepped (fun _ => true) (by omega : 1 < 11) (all _ _ _ (carry_history (by omega : 1 < 11)))

end OperatorSystem.Kernel
