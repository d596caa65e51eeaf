import Mathlib.Data.Int.Notation
import Mathlib.Logic.Function.Iterate

/-!
# The calendar

Dates of the proleptic Gregorian calendar, with their day numbers. A date carries the bounds
of its month and its day. Moving a date by days is moving it to the neighbouring date that
many times; day numbers say where it arrives, and that dates are ordered like the triples
of their year, month and day.
-/

namespace AimeeMemory.Lib

def isLeapYear (year : ℤ) : Bool := year % 4 = 0 ∧ (year % 100 ≠ 0 ∨ year % 400 = 0)

def monthLength (year month : ℤ) : ℤ :=
  if month = 2 then if isLeapYear year then 29 else 28
  else if month = 4 ∨ month = 6 ∨ month = 9 ∨ month = 11 then 30
  else 31

/-- A date of the calendar. -/
structure Date where
  year : ℤ
  month : ℤ
  day : ℤ
  month_mem : 1 ≤ month ∧ month ≤ 12
  day_mem : 1 ≤ day ∧ day ≤ monthLength year month
  deriving DecidableEq

theorem le_monthLength (year month : ℤ) : 28 ≤ monthLength year month := by
  simp only [monthLength]
  split
  · split <;> omega
  · split <;> omega

theorem monthLength_le (year month : ℤ) : monthLength year month ≤ 31 := by
  simp only [monthLength]
  split
  · split <;> omega
  · split <;> omega

namespace Date

/-- The first of a month. -/
def first (year month : ℤ) (h : 1 ≤ month ∧ month ≤ 12) : Date :=
  ⟨year, month, 1, h, Int.le_refl 1, by have := le_monthLength year month; omega⟩

/-- The last of a month. -/
def last (year month : ℤ) (h : 1 ≤ month ∧ month ≤ 12) : Date :=
  ⟨year, month, monthLength year month, h, by have := le_monthLength year month; omega, Int.le_refl _⟩

/-- The day after. -/
def next (d : Date) : Date :=
  if h : d.day < monthLength d.year d.month then
    ⟨d.year, d.month, d.day + 1, d.month_mem, by have := d.day_mem; omega, by omega⟩
  else if h : d.month < 12 then first d.year (d.month + 1) (by have := d.month_mem; omega)
  else first (d.year + 1) 1 (by omega)

/-- The day before. -/
def prev (d : Date) : Date :=
  if h : 1 < d.day then ⟨d.year, d.month, d.day - 1, d.month_mem, by omega, by have := d.day_mem; omega⟩
  else if h : 1 < d.month then last d.year (d.month - 1) (by have := d.month_mem; omega)
  else last (d.year - 1) 12 (by omega)

/-- The date `k` days later. -/
def shift (d : Date) : ℤ → Date
  | .ofNat n => next^[n] d
  | .negSucc n => prev^[n + 1] d

/-! ## Day numbers -/

/-- The days before a year, counted from the year 1. -/
def beforeYear (year : ℤ) : ℤ := 365 * (year - 1) + (year - 1) / 4 - (year - 1) / 100 + (year - 1) / 400

/-- The days of a year before a month. -/
def beforeMonth (year month : ℤ) : ℤ :=
  (367 * month - 362) / 12 + if month ≤ 2 then 0 else if isLeapYear year then -1 else -2

/-- The number of a day; the first of January of the year 1 has number 1. -/
def dayNumber (d : Date) : ℤ := beforeYear d.year + beforeMonth d.year d.month + d.day

/-- The day of the week, from Sunday. -/
def weekday (d : Date) : ℤ := d.dayNumber % 7

theorem beforeYear_zero : beforeYear 0 = -366 := rfl

theorem beforeYear_one : beforeYear 1 = 0 := rfl

theorem month_lt (d : Date) : 0 ≤ d.month ∧ d.month < 100 := by
  have := d.month_mem
  omega

theorem day_lt (d : Date) : 0 ≤ d.day ∧ d.day < 100 := by
  have := d.day_mem
  have := monthLength_le d.year d.month
  omega

theorem weekday_mem (d : Date) : 0 ≤ d.weekday ∧ d.weekday < 7 := by
  rw [weekday]
  omega

theorem beforeYear_succ (year : ℤ) : beforeYear (year + 1) = beforeYear year + if isLeapYear year then 366 else 365 := by
  simp only [beforeYear, isLeapYear, decide_eq_true_eq]
  split <;> omega

theorem beforeMonth_succ (year : ℤ) {m : ℤ} (h : 1 ≤ m) (h' : m < 12) :
    beforeMonth year (m + 1) = beforeMonth year m + monthLength year m := by
  have hmonth : m = 1 ∨ m = 2 ∨ m = 3 ∨ m = 4 ∨ m = 5 ∨ m = 6 ∨ m = 7 ∨ m = 8 ∨
      m = 9 ∨ m = 10 ∨ m = 11 := by omega
  rcases hmonth with rfl | rfl | rfl | rfl | rfl | rfl | rfl | rfl | rfl | rfl | rfl <;>
    cases h : isLeapYear year <;> simp [beforeMonth, monthLength, h]

theorem beforeMonth_one (year : ℤ) : beforeMonth year 1 = 0 := by simp [beforeMonth]

theorem beforeMonth_december (year : ℤ) :
    beforeMonth year 12 + 31 = if isLeapYear year then 366 else 365 := by
  cases h : isLeapYear year <;> simp [beforeMonth, h]

theorem monthLength_december (year : ℤ) : monthLength year 12 = 31 := rfl

theorem dayNumber_next (d : Date) : d.next.dayNumber = d.dayNumber + 1 := by
  have hmonth := d.month_mem
  have hday := d.day_mem
  unfold next
  split
  · simp only [dayNumber]
    omega
  · rename_i hlast
    split
    · rename_i hdec
      have := beforeMonth_succ d.year hmonth.1 hdec
      simp only [dayNumber, first]
      omega
    · have hdec : d.month = 12 := by omega
      have hyear := beforeYear_succ d.year
      have hbefore := beforeMonth_december d.year
      rw [hdec, monthLength_december] at hlast hday
      simp only [dayNumber, first, beforeMonth_one, hdec]
      omega

theorem dayNumber_prev (d : Date) : d.prev.dayNumber = d.dayNumber - 1 := by
  have hmonth := d.month_mem
  have hday := d.day_mem
  unfold prev
  split
  · simp only [dayNumber]
    omega
  · rename_i hfirst
    split
    · rename_i hjan
      have := beforeMonth_succ d.year (m := d.month - 1) (by omega) (by omega)
      rw [Int.sub_add_cancel] at this
      simp only [dayNumber, last]
      omega
    · have hjan : d.month = 1 := by omega
      have hyear := beforeYear_succ (d.year - 1)
      have hbefore := beforeMonth_december (d.year - 1)
      rw [Int.sub_add_cancel] at hyear
      simp only [dayNumber, last, monthLength_december, hjan, beforeMonth_one]
      omega

theorem dayNumber_shift (d : Date) (k : ℤ) : (d.shift k).dayNumber = d.dayNumber + k := by
  cases k with
  | ofNat n =>
    rw [shift]
    induction n with
    | zero => exact (Int.add_zero _).symm
    | succ n ih =>
      rw [Function.iterate_succ_apply', dayNumber_next, ih, Int.ofNat_eq_natCast, Int.ofNat_eq_natCast]
      omega
  | negSucc n =>
    rw [shift]
    induction n with
    | zero => exact dayNumber_prev d
    | succ n ih =>
      rw [Function.iterate_succ_apply', dayNumber_prev, ih]
      omega

theorem beforeYear_mono {y z : ℤ} (h : y ≤ z) : beforeYear y ≤ beforeYear z := by
  simp only [beforeYear]
  omega

theorem beforeMonth_mono (year : ℤ) {m n : ℤ} (h : 1 ≤ m) (hlt : m < n) (h' : n ≤ 12) :
    beforeMonth year m + monthLength year m ≤ beforeMonth year n := by
  rw [← beforeMonth_succ year h (by omega)]
  simp only [beforeMonth]
  cases isLeapYear year
  · simp only [Bool.false_eq_true, if_false]
    split <;> split <;> omega
  · simp only [if_true]
    split <;> split <;> omega

/-- The day of a month lies in its year. -/
theorem dayNumber_le (d : Date) : d.dayNumber ≤ beforeYear (d.year + 1) := by
  have hmonth := d.month_mem
  have hday := d.day_mem
  have hbefore := beforeMonth_december d.year
  rw [beforeYear_succ]
  simp only [dayNumber]
  by_cases hdec : d.month = 12
  · rw [hdec, monthLength_december] at hday
    rw [hdec]
    omega
  · have := beforeMonth_mono d.year hmonth.1 (n := 12) (by omega) (Int.le_refl 12)
    omega

theorem lt_dayNumber (d : Date) : beforeYear d.year < d.dayNumber := by
  have hmonth := d.month_mem
  have hday := d.day_mem
  simp only [dayNumber]
  by_cases hjan : d.month = 1
  · rw [hjan, beforeMonth_one]
    omega
  · have := beforeMonth_mono d.year (m := 1) (Int.le_refl 1) (by omega) hmonth.2
    rw [beforeMonth_one] at this
    have := le_monthLength d.year 1
    omega

/-- Dates in the order of their years, months and days. -/
def Before (d e : Date) : Prop :=
  d.year < e.year ∨ d.year = e.year ∧ (d.month < e.month ∨ d.month = e.month ∧ d.day < e.day)

theorem dayNumber_lt_of_before {d e : Date} (h : d.Before e) : d.dayNumber < e.dayNumber := by
  rcases h with hyear | ⟨hyear, hmonth | ⟨hmonth, hday⟩⟩
  · have hle := beforeYear_mono (y := d.year + 1) (z := e.year) (by omega)
    have := d.dayNumber_le
    have := e.lt_dayNumber
    omega
  · have hle := beforeMonth_mono e.year d.month_mem.1 hmonth e.month_mem.2
    have hd := d.day_mem
    have he := e.day_mem
    rw [hyear] at hd
    simp only [dayNumber, hyear]
    omega
  · simp only [dayNumber, hyear, hmonth]
    omega

theorem before_trichotomy (d e : Date) : d.Before e ∨ d = e ∨ e.Before d := by
  rcases Int.lt_trichotomy d.year e.year with h | hyear | h
  · exact .inl (.inl h)
  · rcases Int.lt_trichotomy d.month e.month with h | hmonth | h
    · exact .inl (.inr ⟨hyear, .inl h⟩)
    · rcases Int.lt_trichotomy d.day e.day with h | hday | h
      · exact .inl (.inr ⟨hyear, .inr ⟨hmonth, h⟩⟩)
      · cases d
        cases e
        simp only at hyear hmonth hday
        subst hyear hmonth hday
        exact .inr (.inl rfl)
      · exact .inr (.inr (.inr ⟨hyear.symm, .inr ⟨hmonth.symm, h⟩⟩))
    · exact .inr (.inr (.inr ⟨hyear.symm, .inl h⟩))
  · exact .inr (.inr (.inl h))

/-- Dates are in the order of their day numbers. -/
theorem before_iff {d e : Date} : d.Before e ↔ d.dayNumber < e.dayNumber := by
  refine ⟨dayNumber_lt_of_before, fun h => ?_⟩
  rcases before_trichotomy d e with hlt | rfl | hgt
  · exact hlt
  · exact absurd h (Int.lt_irrefl _)
  · exact absurd (dayNumber_lt_of_before hgt) (Int.not_lt.2 (Int.le_of_lt h))

theorem dayNumber_inj {d e : Date} : d.dayNumber = e.dayNumber ↔ d = e := by
  refine ⟨fun h => ?_, fun h => h ▸ rfl⟩
  rcases before_trichotomy d e with hlt | heq | hgt
  · exact absurd (dayNumber_lt_of_before hlt) (by omega)
  · exact heq
  · exact absurd (dayNumber_lt_of_before hgt) (by omega)

theorem shift_inj {d : Date} {j k : ℤ} : d.shift j = d.shift k ↔ j = k := by
  rw [← dayNumber_inj, dayNumber_shift, dayNumber_shift]
  omega

/-- The year of a date, from its day number. -/
theorem year_lt_iff {d : Date} {y : ℤ} : d.year < y ↔ d.dayNumber ≤ beforeYear y := by
  constructor
  · intro h
    exact Int.le_trans d.dayNumber_le (beforeYear_mono (by omega))
  · intro h
    by_contra hnot
    have := beforeYear_mono (y := y) (z := d.year) (by omega)
    have := d.lt_dayNumber
    omega

end Date

end AimeeMemory.Lib
