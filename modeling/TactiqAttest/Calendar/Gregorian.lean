import Mathlib.Algebra.BigOperators.Intervals
import Mathlib.Tactic.IntervalCases

/-!
# The Gregorian calendar

The proleptic Gregorian calendar from year 0 on.  A `Date` carries the bounds on its month and its
day, and `Date.dayNumber` counts days from 1970 on.

Conversions count years from March, so that a leap day is the last day of its year:

* `marchStart_succ`: how many days there are before a 1 March;
* `exists_date_march`: the date of a day of such a year, and its number;
* `yearOfEra_spec`: the year that a day of four centuries is in.
-/

namespace Gregorian

open Finset

def IsLeap (y : ℕ) : Prop := 4 ∣ y ∧ (100 ∣ y → 400 ∣ y)

instance (y : ℕ) : Decidable (IsLeap y) := inferInstanceAs (Decidable (_ ∧ _))

def yearLength (y : ℕ) : ℕ := if IsLeap y then 366 else 365

def monthLength (y m : ℕ) : ℕ :=
  if m = 2 then if IsLeap y then 29 else 28
  else if m = 4 ∨ m = 6 ∨ m = 9 ∨ m = 11 then 30
  else 31

/-- A date from year 0 on. -/
@[ext]
structure Date where
  year : ℕ
  month : ℕ
  day : ℕ
  one_le_month : 1 ≤ month
  month_le : month ≤ 12
  one_le_day : 1 ≤ day
  day_le : day ≤ monthLength year month

/-- The number of days before a date, from 1 January of year 0 on. -/
def daysBefore (y m d : ℕ) : ℕ :=
  ∑ k ∈ range y, yearLength k + ∑ k ∈ Ico 1 m, monthLength y k + (d - 1)

/-- The day number of a date, from 1 January 1970 on. -/
def Date.dayNumber (date : Date) : ℤ :=
  daysBefore date.year date.month date.day - daysBefore 1970 1 1

/-- A time of the day. -/
@[ext]
structure TimeOfDay where
  hour : ℕ
  minute : ℕ
  second : ℕ
  hour_lt : hour < 24
  minute_lt : minute < 60
  second_lt : second < 60

/-- The seconds of the day before a time. -/
def TimeOfDay.seconds (time : TimeOfDay) : ℕ := 3600 * time.hour + 60 * time.minute + time.second

theorem exists_time {n : ℕ} (h : n < 86400) : ∃ time : TimeOfDay, time.hour = n / 3600 ∧
    time.minute = n % 3600 / 60 ∧ time.second = n % 60 ∧ time.seconds = n := by
  refine ⟨⟨n / 3600, n % 3600 / 60, n % 60, by omega, by omega, by omega⟩, rfl, rfl, rfl, ?_⟩
  change 3600 * (n / 3600) + 60 * (n % 3600 / 60) + n % 60 = n
  omega

theorem monthLength_le (y m : ℕ) : monthLength y m ≤ 31 := by
  unfold monthLength
  split_ifs <;> omega

/-! ## Years from March -/

/-- The days of the years before `Y`, from 1 March to 1 March. -/
def marchStart (Y : ℕ) : ℕ := 365 * Y + Y / 4 - Y / 100 + Y / 400

variable {Y i day doy doe : ℕ}

theorem yearLength_le (y : ℕ) : yearLength y ≤ 366 := by
  unfold yearLength
  split_ifs <;> omega

/-- February makes up the length of a year. -/
theorem monthLength_feb (y : ℕ) : monthLength y 2 + 337 = yearLength y := by
  unfold monthLength yearLength
  split_ifs <;> omega

theorem monthLength_of_ne_feb {y m : ℕ} (h : m ≠ 2) :
    monthLength y m = if m = 4 ∨ m = 6 ∨ m = 9 ∨ m = 11 then 30 else 31 := if_neg h

/-- The year from one March to the next is as long as the year that its last day is in. -/
theorem marchStart_succ (Y : ℕ) : marchStart (Y + 1) = marchStart Y + yearLength (Y + 1) := by
  have hle : Y / 100 ≤ Y / 4 := Nat.div_le_div_left (by decide) (by decide)
  have h4 : 100 ∣ Y + 1 → 4 ∣ Y + 1 := (Nat.dvd_trans ⟨25, rfl⟩ ·)
  have h100 : 400 ∣ Y + 1 → 100 ∣ Y + 1 := (Nat.dvd_trans ⟨4, rfl⟩ ·)
  simp only [marchStart, yearLength, IsLeap, Nat.succ_div]
  by_cases hY4 : 4 ∣ Y + 1
  · by_cases hY100 : 100 ∣ Y + 1
    · by_cases hY400 : 400 ∣ Y + 1 <;> simp only [hY4, hY100, hY400] <;> simp <;> omega
    · simp only [hY4, hY100, mt h100 hY100]
      simp
      omega
  · simp only [hY4, mt h4 hY4, mt h100 (mt h4 hY4)]
    simp
    omega

/-- The days of the years up to and with `Y`. -/
theorem sum_yearLength (Y : ℕ) : ∑ k ∈ range (Y + 1), yearLength k = 366 + marchStart Y := by
  induction Y with
  | zero => rfl
  | succ Y ih => rw [sum_range_succ, ih, marchStart_succ, Nat.add_assoc]

/-- The days before 1 March. -/
theorem sum_yearLength_march (Y : ℕ) :
    ∑ k ∈ range Y, yearLength k + 31 + monthLength Y 2 = 60 + marchStart Y := by
  have hsum := sum_yearLength Y
  have hfeb := monthLength_feb Y
  rw [sum_range_succ] at hsum
  omega

/-! ## Months from March -/

/-- The calendar year of a month that is counted from March of `Y`. -/
def marchYear (Y i : ℕ) : ℕ := Y + if i < 10 then 0 else 1

/-- The calendar month of a month that is counted from March. -/
def marchMonth (i : ℕ) : ℕ := if i < 10 then i + 3 else i - 9

/-- The months from March to January end where the next one begins, and February where the year
does. -/
theorem monthLength_march (hi : i < 12) (Y : ℕ) :
    (153 * i + 2) / 5 + monthLength (marchYear Y i) (marchMonth i) =
      if i < 11 then (153 * (i + 1) + 2) / 5 else yearLength (Y + 1) := by
  have hfeb := monthLength_feb (Y + 1)
  interval_cases i <;> simp [monthLength_of_ne_feb, marchYear, marchMonth]
  omega

/-- The days before a month. -/
theorem sum_months_march (hi : i < 12) (Y : ℕ) :
    ∑ k ∈ range (marchYear Y i), yearLength k +
        ∑ m ∈ Ico 1 (marchMonth i), monthLength (marchYear Y i) m =
      60 + marchStart Y + (153 * i + 2) / 5 := by
  have hmarch := sum_yearLength_march Y
  have hnext := sum_yearLength Y
  interval_cases i <;> simp [sum_Ico_succ_top, monthLength_of_ne_feb, marchYear, marchMonth] <;>
    omega

theorem daysBefore_epoch : daysBefore 1970 1 1 = 719528 := by
  have hsum := sum_yearLength 1969
  rw [daysBefore, hsum]
  simp [marchStart]

/-- Every day of the year from March of `Y` on has a date, whose month is read off by a division. -/
theorem exists_date_march (h : doy < yearLength (Y + 1)) (hi : i = (5 * doy + 2) / 153) :
    i < 12 ∧ (153 * i + 2) / 5 ≤ doy ∧ ∃ date : Date, date.year = marchYear Y i ∧
      date.month = marchMonth i ∧ date.day = doy - (153 * i + 2) / 5 + 1 ∧
      date.dayNumber = 60 + marchStart Y + doy - 719528 := by
  have hyear := yearLength_le (Y + 1)
  have hlt : i < 12 := by omega
  have hle : (153 * i + 2) / 5 ≤ doy := by omega
  have hmonth : 1 ≤ marchMonth i ∧ marchMonth i ≤ 12 := by
    unfold marchMonth
    split_ifs <;> omega
  have hday : doy - (153 * i + 2) / 5 + 1 ≤ monthLength (marchYear Y i) (marchMonth i) := by
    have hend := monthLength_march hlt Y
    split_ifs at hend <;> omega
  refine ⟨hlt, hle, ⟨_, _, _, hmonth.1, hmonth.2, Nat.le_add_left 1 _, hday⟩, rfl, rfl, rfl, ?_⟩
  rw [Date.dayNumber, daysBefore_epoch, daysBefore, sum_months_march hlt, Nat.add_sub_cancel]
  omega

/-! ## Cycles of four centuries -/

/-- Days since a 1 March of a year that is a multiple of 400, as centuries, cycles of four years,
years and days.  Only the last year of a cycle has a 366th day, and of the cycles that end a century
only the last. -/
structure Cycles (doe c q r t : ℕ) : Prop where
  century : c < 4
  cycle : q < 25
  year : r < 4
  day : t ≤ 365
  leapDay : t = 365 → r = 3 ∧ (q < 24 ∨ c = 3)
  eq : doe = 36524 * c + 1461 * q + 365 * r + t

theorem exists_cycles (h : doe < 146097) : ∃ c q r t, Cycles doe c q r t := by
  -- the last century is a day longer, and so is the last year of a cycle
  obtain ⟨c, a, hc, hdoe, hle, hlast⟩ : ∃ c a, c < 4 ∧ doe = 36524 * c + a ∧ a ≤ 36524 ∧
      (a = 36524 → c = 3) := by
    by_cases hlast : doe < 109572
    · exact ⟨doe / 36524, doe % 36524, by omega, by omega, by omega, by omega⟩
    · exact ⟨3, doe - 109572, by decide, by omega, by omega, fun _ => rfl⟩
  obtain ⟨r, t, hr, hrest, ht, hleap⟩ : ∃ r t, r < 4 ∧ a % 1461 = 365 * r + t ∧ t ≤ 365 ∧
      (t = 365 → r = 3) := by
    by_cases hlast : a % 1461 < 1095
    · exact ⟨a % 1461 / 365, a % 1461 % 365, by omega, by omega, by omega, by omega⟩
    · exact ⟨3, a % 1461 - 1095, by decide, by omega, by omega, fun _ => rfl⟩
  exact ⟨c, a / 1461, r, t, hc, by omega, hr, ht, fun h => ⟨hleap h, by omega⟩, by omega⟩

namespace Cycles

variable {c q r t : ℕ}

/-- The day is one of the year it is put in. -/
theorem lt_yearLength (h : Cycles doe c q r t) :
    t < yearLength (100 * c + 4 * q + r + 1) := by
  obtain ⟨hc, hq, hr, ht, hleap, -⟩ := h
  unfold yearLength
  split_ifs with hyear
  · omega
  · unfold IsLeap at hyear
    rcases Nat.lt_or_eq_of_le ht with hlt | heq
    · exact hlt
    · obtain ⟨rfl, hlast⟩ := hleap heq
      omega

/-- The days before that year. -/
theorem eq_marchStart_add (h : Cycles doe c q r t) :
    doe = marchStart (100 * c + 4 * q + r) + t := by
  obtain ⟨hc, hq, hr, -, -, hdoe⟩ := h
  have h4 : (100 * c + 4 * q + r) / 4 = 25 * c + q := by omega
  have h100 : (100 * c + 4 * q + r) / 100 = c := by omega
  have h400 : (100 * c + 4 * q + r) / 400 = 0 := by omega
  rw [marchStart, h4, h100, h400]
  omega

theorem div_century (h : Cycles doe c q r t) : doe / 36524 = c + doe / 146096 := by
  obtain ⟨hc, hq, hr, ht, hleap, hdoe⟩ := h
  rcases Nat.lt_or_eq_of_le (show doe ≤ 146096 by omega) with hlt | hlast
  · have hrest : 1461 * q + 365 * r + t < 36524 := by omega
    have hdiv : doe / 36524 = c := by
      rw [hdoe, Nat.add_assoc, Nat.add_assoc, Nat.mul_add_div (by decide),
        Nat.div_eq_of_lt (by omega), Nat.add_zero]
    rw [hdiv, Nat.div_eq_of_lt hlt, Nat.add_zero]
  · have hc3 : c = 3 := by omega
    rw [hc3, hlast]

/-- In a cycle the quotient by the days of four ordinary years counts one too many, at some time
before the leap day. -/
theorem div_cycle (h : Cycles doe c q r t) :
    ∃ k, doe / 1460 = 25 * c + q + k ∧ k ≤ 1 ∧ k ≤ t ∧ (t = 365 → k = 1) := by
  obtain ⟨hc, hq, hr, ht, hleap, hdoe⟩ := h
  have hsum : doe = 1460 * (25 * c + q) + (24 * c + q + 365 * r + t) := by omega
  rw [hsum, Nat.mul_add_div (by decide)]
  exact ⟨(24 * c + q + 365 * r + t) / 1460, rfl, by omega, by omega, by omega⟩

/-- The year, read off the day: without the leap days that are over every year has 365 days. -/
theorem div_year (h : Cycles doe c q r t) :
    (doe - doe / 1460 + doe / 36524 - doe / 146096) / 365 = 100 * c + 4 * q + r := by
  obtain ⟨k, hk, hk1, hkt, hk365⟩ := h.div_cycle
  have hdays : doe - doe / 1460 + c = 365 * (100 * c + 4 * q + r) + (t - k) := by
    obtain ⟨-, -, -, -, -, hdoe⟩ := h
    omega
  have hlt : t - k < 365 := by
    have ht := h.day
    omega
  rw [h.div_century, ← Nat.add_assoc, Nat.add_sub_cancel, hdays, Nat.mul_add_div (by decide),
    Nat.div_eq_of_lt hlt, Nat.add_zero]

end Cycles

/-- The year of a day of four centuries, from March on. -/
theorem yearOfEra_spec (h : doe < 146097)
    (hY : Y = (doe - doe / 1460 + doe / 36524 - doe / 146096) / 365) :
    Y < 400 ∧ marchStart Y ≤ doe ∧ doe - marchStart Y < yearLength (Y + 1) := by
  obtain ⟨c, q, r, t, hcycles⟩ := exists_cycles h
  rw [hcycles.div_year] at hY
  subst hY
  have hlt : 100 * c + 4 * q + r < 400 := by
    obtain ⟨hc, hq, hr, -, -, -⟩ := hcycles
    omega
  have hsum := hcycles.eq_marchStart_add
  refine ⟨hlt, by omega, ?_⟩
  rw [hsum, Nat.add_sub_cancel_left]
  exact hcycles.lt_yearLength

/-- Four centuries have the same number of days wherever they begin. -/
theorem marchStart_era (era Y : ℕ) : marchStart (Y + era * 400) = era * 146097 + marchStart Y := by
  have h4 : (Y + era * 400) / 4 = Y / 4 + era * 100 := by omega
  have h100 : (Y + era * 400) / 100 = Y / 100 + era * 4 := by omega
  have h400 : (Y + era * 400) / 400 = Y / 400 + era := by omega
  have hle : Y / 100 ≤ Y / 4 := Nat.div_le_div_left (by decide) (by decide)
  rw [marchStart, marchStart, h4, h100, h400]
  omega

theorem isLeap_era (era y : ℕ) : IsLeap (y + era * 400) ↔ IsLeap y := by
  have h4 : 4 ∣ y + era * 400 ↔ 4 ∣ y := by omega
  have h100 : 100 ∣ y + era * 400 ↔ 100 ∣ y := by omega
  have h400 : 400 ∣ y + era * 400 ↔ 400 ∣ y := by omega
  rw [IsLeap, IsLeap, h4, h100, h400]

theorem yearLength_era (era y : ℕ) : yearLength (y + era * 400) = yearLength y :=
  if_congr (isLeap_era era y) rfl rfl

end Gregorian
