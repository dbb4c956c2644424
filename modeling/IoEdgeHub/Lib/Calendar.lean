import Mathlib.Data.Nat.Notation
import Mathlib.Tactic.Common
import Mathlib.Tactic.IntervalCases

/-!
# The Gregorian calendar by day numbers

Years that begin on 1 March, so that the leap day is the last day of a year; day 0 is 1 March of
year 0.  `yearStart y` is the day number of the first day of year `y`, `yearOfEra` finds the year of
a day in an era of 400 years without a search, and `monthOf` the month of a day in its year.
-/

namespace Calendar

/-- The day on which year `y` begins. -/
def yearStart (y : ℕ) : ℕ := 365 * y + y / 4 - y / 100 + y / 400

/-- The number of days in 400 years. -/
def eraDays : ℕ := 146097

/-- The year in its era of a day of the era. -/
def yearOfEra (doe : ℕ) : ℕ := (doe - doe / 1460 + doe / 36524 - doe / 146096) / 365

/-- The day in its year on which a month begins, March being month 0. -/
def monthStart (mp : ℕ) : ℕ := (153 * mp + 2) / 5

/-- The month of a day in its year. -/
def monthOf (doy : ℕ) : ℕ := (5 * doy + 2) / 153

/-! ## Years -/

theorem yearStart_era (era y : ℕ) : yearStart (400 * era + y) = eraDays * era + yearStart y := by
  unfold yearStart eraDays
  omega

theorem yearStart_lt (y : ℕ) : yearStart y < yearStart (y + 1) := by
  unfold yearStart
  omega

theorem yearStart_mono {y y' : ℕ} (order : y ≤ y') : yearStart y ≤ yearStart y' := by
  induction order with
  | refl => exact Nat.le_refl _
  | step _ ih => exact Nat.le_trans ih (Nat.le_of_lt (yearStart_lt _))

theorem yearStart_succ_le (y : ℕ) : yearStart (y + 1) ≤ yearStart y + 366 := by
  unfold yearStart
  omega

/-- A day and the year it falls into. -/
structure InYear (n y : ℕ) : Prop where
  starts : yearStart y ≤ n
  ends : n < yearStart (y + 1)

theorem InYear.mono {n n' y y' : ℕ} (day : InYear n y) (day' : InYear n' y') (order : n ≤ n') : y ≤ y' := by
  by_contra later
  have := yearStart_mono (Nat.succ_le_of_lt (Nat.lt_of_not_le later))
  have := day.starts
  have := day'.ends
  simp only [Nat.succ_eq_add_one] at *
  omega

/-- A day determines its year and the day of the year. -/
theorem inYear_unique {n y y' doy doy' : ℕ} (day : InYear n y) (days : n = yearStart y + doy) (day' : InYear n y')
    (days' : n = yearStart y' + doy') : y = y' ∧ doy = doy' := by
  obtain rfl : y = y' := Nat.le_antisymm (day.mono day' (Nat.le_refl _)) (day'.mono day (Nat.le_refl _))
  exact ⟨rfl, by omega⟩

/-- Centuries, leap cycles and years of an era, and the days after them. -/
theorem yearOfEra_eq {h q r d : ℕ} (century : h < 4) (cycle : q < 25) (year : r < 4)
    (day : d < 365 ∨ d = 365 ∧ r = 3 ∧ (q < 24 ∨ h = 3)) :
    yearOfEra (36524 * h + 1461 * q + 365 * r + d) = 100 * h + 4 * q + r := by
  generalize days : 36524 * h + 1461 * q + 365 * r + d = n
  -- of the four corrections, those for centuries and the era leave `h`
  have centuries : n / 36524 = h + n / 146096 := by
    rcases Nat.lt_or_ge n 146096 with inside | last
    · rw [Nat.div_eq_of_lt inside]
      omega
    · omega
  have cycles : n / 1460 = 25 * h + q + (24 * h + q + 365 * r + d) / 1460 := by omega
  have rest : (24 * h + q + 365 * r + d) / 1460 ≤ d ∧ d - (24 * h + q + 365 * r + d) / 1460 < 365 := by omega
  have sum : n - n / 1460 + n / 36524 - n / 146096 =
      365 * (100 * h + 4 * q + r) + (d - (24 * h + q + 365 * r + d) / 1460) := by omega
  rw [yearOfEra, sum, Nat.mul_add_div (by decide), Nat.div_eq_of_lt rest.2, Nat.add_zero]

/-- Every day of an era is so many centuries, leap cycles, years and days into it. -/
theorem exists_parts {doe : ℕ} (inside : doe < eraDays) :
    ∃ h q r d, doe = 36524 * h + 1461 * q + 365 * r + d ∧ h < 4 ∧ q < 25 ∧ r < 4 ∧
      (d < 365 ∨ d = 365 ∧ r = 3 ∧ (q < 24 ∨ h = 3)) := by
  unfold eraDays at inside
  obtain ⟨h, century⟩ : ∃ h, h = min (doe / 36524) 3 := ⟨_, rfl⟩
  obtain ⟨w, left⟩ : ∃ w, doe = 36524 * h + w ∧ (w < 36524 ∨ w = 36524 ∧ h = 3) :=
    ⟨doe - 36524 * h, by omega, by omega⟩
  obtain ⟨q, cycle⟩ : ∃ q, q = w / 1461 := ⟨_, rfl⟩
  obtain ⟨v, left'⟩ : ∃ v, w = 1461 * q + v ∧ v < 1461 := ⟨w - 1461 * q, by omega, by omega⟩
  refine ⟨h, q, min (v / 365) 3, v - 365 * min (v / 365) 3, ?_, ?_, ?_, ?_, ?_⟩ <;> omega

theorem inYear_yearOfEra {doe : ℕ} (inside : doe < eraDays) :
    yearOfEra doe < 400 ∧ InYear doe (yearOfEra doe) := by
  obtain ⟨h, q, r, d, days, century, cycle, year, day⟩ := exists_parts inside
  rw [days, yearOfEra_eq century cycle year day]
  refine ⟨by omega, ?_, ?_⟩
  · unfold yearStart
    omega
  · unfold yearStart
    omega

/-! ## Months -/

theorem InYear.monthOf_le {n y doy : ℕ} (day : InYear n y) (days : n = yearStart y + doy) : monthOf doy ≤ 11 := by
  have := yearStart_succ_le y
  have := day.ends
  unfold monthOf
  omega

theorem monthStart_monthOf (doy : ℕ) : monthStart (monthOf doy) ≤ doy := by
  unfold monthStart monthOf
  omega

theorem monthOf_mono {doy doy' : ℕ} (order : doy ≤ doy') : monthOf doy ≤ monthOf doy' := by
  unfold monthOf
  omega

/-- In one year a later day has a later month, or the same and a later day. -/
theorem month_day_lt {doy doy' : ℕ} (later : doy < doy') :
    monthOf doy < monthOf doy' ∨
      monthOf doy = monthOf doy' ∧ doy - monthStart (monthOf doy) < doy' - monthStart (monthOf doy') := by
  rcases Nat.lt_or_eq_of_le (monthOf_mono (Nat.le_of_lt later)) with less | same
  · exact .inl less
  · have := monthStart_monthOf doy
    rw [same] at this ⊢
    exact .inr ⟨rfl, by omega⟩

/-! ## Dates -/

/-- A leap year. -/
def IsLeap (y : ℕ) : Prop := y % 4 = 0 ∧ (y % 100 ≠ 0 ∨ y % 400 = 0)

instance (y : ℕ) : Decidable (IsLeap y) := inferInstanceAs (Decidable (_ ∧ _))

/-- The days of a month, January being month 1. -/
def monthDays (y m : ℕ) : ℕ :=
  if m = 2 then (if IsLeap y then 29 else 28) else if m = 4 ∨ m = 6 ∨ m = 9 ∨ m = 11 then 30 else 31

theorem monthDays_le (y m : ℕ) : monthDays y m ≤ 31 := by
  unfold monthDays
  split_ifs <;> omega

/-- A date in years that begin on 1 January. -/
structure Date where
  year : ℕ
  month : ℕ
  day : ℕ
deriving DecidableEq

namespace Date

/-- A date of the calendar. -/
structure Valid (date : Date) : Prop where
  month_pos : 1 ≤ date.month
  month_le : date.month ≤ 12
  day_pos : 1 ≤ date.day
  day_le : date.day ≤ monthDays date.year date.month

/-- The lexicographic order of year, month and day. -/
def Before (a b : Date) : Prop :=
  a.year < b.year ∨ a.year = b.year ∧ (a.month < b.month ∨ a.month = b.month ∧ a.day < b.day)

instance (a b : Date) : Decidable (a.Before b) := inferInstanceAs (Decidable (_ ∨ _ ∧ (_ ∨ _ ∧ _)))

/-- The year from March on. -/
def marchYear (date : Date) : ℕ := if date.month ≤ 2 then date.year - 1 else date.year

/-- The day in the year from March on. -/
def dayOfYear (date : Date) : ℕ := monthStart ((date.month + 9) % 12) + (date.day - 1)

end Date

/-- The date of a day of a year from March on. -/
def dateIn (y doy : ℕ) : Date :=
  if monthOf doy < 10 then ⟨y, monthOf doy + 3, doy - monthStart (monthOf doy) + 1⟩
  else ⟨y + 1, monthOf doy - 9, doy - monthStart (monthOf doy) + 1⟩

/-- A year ends with the leap day exactly if the next January is in a leap year. -/
theorem yearStart_succ (y : ℕ) : yearStart (y + 1) = yearStart y + if IsLeap (y + 1) then 366 else 365 := by
  have fours : (y + 1) / 4 = y / 4 + if (y + 1) % 4 = 0 then 1 else 0 := by split <;> omega
  have centuries : (y + 1) / 100 = y / 100 + if (y + 1) % 100 = 0 then 1 else 0 := by split <;> omega
  have eras : (y + 1) / 400 = y / 400 + if (y + 1) % 400 = 0 then 1 else 0 := by split <;> omega
  have order : y / 100 ≤ y / 4 := by omega
  have century : (y + 1) % 400 = 0 → (y + 1) % 100 = 0 := by omega
  have four : (y + 1) % 100 = 0 → (y + 1) % 4 = 0 := by omega
  unfold yearStart
  rw [fours, centuries, eras]
  by_cases leap : IsLeap (y + 1)
  · rw [if_pos leap, if_pos leap.1]
    rcases leap.2 with common | era
    · rw [if_neg common, if_neg fun era => common (century era)]
      omega
    · rw [if_pos (century era), if_pos era]
      omega
  · rw [if_neg leap]
    by_cases c : (y + 1) % 100 = 0
    · rw [if_pos (four c), if_pos c, if_neg fun era => leap ⟨four c, .inr era⟩]
      omega
    · rw [if_neg fun f => leap ⟨f, .inl c⟩, if_neg c, if_neg fun era => c (century era)]
      omega

theorem yearStart_february (y : ℕ) : yearStart (y + 1) = yearStart y + 337 + monthDays (y + 1) 2 := by
  rw [yearStart_succ, monthDays]
  split_ifs <;> omega

theorem lt_monthStart_succ (doy : ℕ) : doy < monthStart (monthOf doy + 1) := by
  unfold monthStart monthOf
  omega

theorem dateIn_valid {y doy : ℕ} (day : InYear (yearStart y + doy) y) : (dateIn y doy).Valid := by
  have late := day.monthOf_le rfl
  have starts := monthStart_monthOf doy
  have ends := lt_monthStart_succ doy
  have last := day.ends
  rw [yearStart_february] at last
  unfold dateIn
  generalize monthOf doy = mp at *
  unfold monthStart at *
  by_cases early : mp < 10
  · rw [if_pos early]
    refine ⟨by dsimp only; omega, by dsimp only; omega, by dsimp only; omega, ?_⟩
    unfold monthDays
    interval_cases mp <;> simp at * <;> omega
  · rw [if_neg early]
    refine ⟨by dsimp only; omega, by dsimp only; omega, by dsimp only; omega, ?_⟩
    interval_cases mp
    · simp [monthDays] at *
      omega
    · simp at *
      omega

theorem marchYear_dateIn {y doy : ℕ} (late : monthOf doy ≤ 11) :
    (dateIn y doy).marchYear = y ∧ (dateIn y doy).dayOfYear = doy := by
  have starts := monthStart_monthOf doy
  unfold dateIn Date.marchYear Date.dayOfYear
  by_cases early : monthOf doy < 10
  · have month : (monthOf doy + 3 + 9) % 12 = monthOf doy := by omega
    rw [if_pos early, if_neg (by dsimp only; omega)]
    dsimp only
    rw [month]
    omega
  · have month : (monthOf doy - 9 + 9) % 12 = monthOf doy := by omega
    rw [if_neg early, if_pos (by dsimp only; omega)]
    dsimp only
    rw [month]
    omega

theorem monthOf_add {mp k : ℕ} (inside : monthStart mp + k < monthStart (mp + 1)) :
    monthOf (monthStart mp + k) = mp := by
  unfold monthStart at *
  unfold monthOf
  omega

theorem monthStart_add_monthDays (y : ℕ) {m : ℕ} (first : 1 ≤ m) (last : m ≤ 12) :
    monthStart ((m + 9) % 12) + monthDays y m ≤ monthStart ((m + 9) % 12 + 1) ∧
      (m ≠ 2 → monthStart ((m + 9) % 12) + monthDays y m ≤ 337) := by
  unfold monthStart monthDays
  interval_cases m <;> simp
  split <;> omega

/-- A valid date is that of the day it stands for. -/
theorem dateIn_of_valid {date : Date} (valid : date.Valid) (later : 1 ≤ date.year) :
    InYear (yearStart date.marchYear + date.dayOfYear) date.marchYear ∧
      dateIn date.marchYear date.dayOfYear = date := by
  obtain ⟨y, m, d⟩ := date
  obtain ⟨first, last, one, fits⟩ := valid
  dsimp only at first last one fits later
  obtain ⟨room, other⟩ := monthStart_add_monthDays y first last
  have month : monthOf (monthStart ((m + 9) % 12) + (d - 1)) = (m + 9) % 12 := monthOf_add (by omega)
  unfold dateIn Date.marchYear Date.dayOfYear
  dsimp only
  refine ⟨⟨Nat.le_add_right _ _, ?_⟩, ?_⟩
  · rw [yearStart_february]
    by_cases february : m = 2
    · subst february
      have year : y - 1 + 1 = y := by omega
      have begins : monthStart ((2 + 9) % 12) = 337 := rfl
      rw [if_pos (by omega), year, begins]
      omega
    · have := other february
      omega
  · rw [month]
    by_cases winter : m ≤ 2
    · rw [if_pos winter, if_neg (by omega)]
      congr 1 <;> omega
    · rw [if_neg winter, if_pos (by omega)]
      congr 1 <;> omega

theorem dateIn_before {n n' y y' doy doy' : ℕ} (day : InYear n y) (days : n = yearStart y + doy) (day' : InYear n' y')
    (days' : n' = yearStart y' + doy') (later : n < n') : (dateIn y doy).Before (dateIn y' doy') := by
  have order := day.mono day' (Nat.le_of_lt later)
  have late := day.monthOf_le days
  have late' := day'.monthOf_le days'
  have months : y = y' → _ := fun same => month_day_lt (by subst same; omega : doy < doy')
  unfold dateIn Date.Before
  by_cases early : monthOf doy < 10 <;> by_cases early' : monthOf doy' < 10
  · simp only [if_pos early, if_pos early']
    omega
  · simp only [if_pos early, if_neg early']
    omega
  · simp only [if_neg early, if_pos early']
    omega
  · simp only [if_neg early, if_neg early']
    omega

end Calendar
