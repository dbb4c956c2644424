import IoEdgeHub.Proto.HistName

/-!
# Calendar conversion (`time_math.rs`)

Unix times and civil dates.  The conversions work on signed day numbers; on the days of a 32-bit time
they are those of the calendar (`daysFromCivil_eq`, `civilFromDays_eq`), so that the two directions undo
each other and keep the order.
-/

namespace IoEdgeHub

open Calendar

namespace TimeMath

/-- 2000-01-01 00:00:00 -/
def tsMin : UInt32 := 946684800

/-- 2100-01-01 00:00:00 -/
def tsMax : UInt32 := 4102444800

/-- 2020-01-01 00:00:00 -/
def tsDefault : UInt32 := 1577836800

/-- `ts_valid` -/
def tsValid (ts : UInt32) : Bool := tsMin ≤ ts ∧ ts ≤ tsMax

/-- Civil date and time (UTC). -/
structure Civil where
  year : UInt16
  month : UInt8
  day : UInt8
  hour : UInt8
  min : UInt8
  sec : UInt8
deriving DecidableEq, Repr

/-- A signed number cast to `u32`. -/
def asU32 (n : ℤ) : UInt32 := UInt32.ofNat (n % 2 ^ 32).toNat

/-- `days_from_civil` -/
def daysFromCivil (y : ℤ) (m d : UInt32) : ℤ :=
  let y := if m ≤ 2 then y - 1 else y
  let era := Int.tdiv (if y ≥ 0 then y else y - 399) 400
  let yoe := y - era * 400
  let mp : ℤ := ((m + 9) % 12).toNat
  let doy := Int.tdiv (153 * mp + 2) 5 + d.toNat - 1
  let doe := yoe * 365 + Int.tdiv yoe 4 - Int.tdiv yoe 100 + doy
  era * 146097 + doe - 719468

/-- `civil_from_days` -/
def civilFromDays (z : ℤ) : ℤ × UInt32 × UInt32 :=
  let z := z + 719468
  let era := Int.tdiv (if z ≥ 0 then z else z - 146096) 146097
  let doe := z - era * 146097
  let yoe := Int.tdiv (doe - Int.tdiv doe 1460 + Int.tdiv doe 36524 - Int.tdiv doe 146096) 365
  let y := yoe + era * 400
  let doy := doe - (365 * yoe + Int.tdiv yoe 4 - Int.tdiv yoe 100)
  let mp := Int.tdiv (5 * doy + 2) 153
  let d := asU32 (doy - Int.tdiv (153 * mp + 2) 5 + 1)
  let m := asU32 (if mp < 10 then mp + 3 else mp - 9)
  (if m ≤ 2 then y + 1 else y, m, d)

/-- `civil_to_unix` -/
def civilToUnix (c : Civil) : UInt32 :=
  let days := daysFromCivil c.year.toNat c.month.toUInt32 c.day.toUInt32
  asU32 (days * 86400 + c.hour.toNat * 3600 + c.min.toNat * 60 + c.sec.toNat)

/-- `unix_to_civil` -/
def unixToCivil (ts : UInt32) : Civil :=
  let days : ℤ := (ts / 86400).toNat
  let rem := ts % 86400
  let (y, m, d) := civilFromDays days
  { year := UInt16.ofNat (y % 2 ^ 16).toNat
    month := m.toUInt8
    day := d.toUInt8
    hour := (rem / 3600).toUInt8
    min := (rem % 3600 / 60).toUInt8
    sec := (rem % 60).toUInt8 }

example : unixToCivil 1709164800 = ⟨2024, 2, 29, 0, 0, 0⟩ := by decide +kernel

/-! ## The conversions on days -/

theorem asU32_natCast (n : ℕ) : asU32 n = UInt32.ofNat n := by
  apply UInt32.toNat_inj.1
  rw [asU32, UInt32.toNat_ofNat', UInt32.toNat_ofNat']
  omega

theorem ofNat_le_two {n : ℕ} (small : n ≤ 12) : UInt32.ofNat n ≤ 2 ↔ n ≤ 2 := by
  rw [UInt32.le_iff_toNat_le, UInt32.toNat_ofNat', Nat.mod_eq_of_lt (by omega)]
  rfl

theorem tdiv_natCast (m n : ℕ) : Int.tdiv (m : ℤ) n = ((m / n : ℕ) : ℤ) := (Int.ofNat_tdiv m n).symm

/-- The signed computation of the year in its era. -/
theorem tdiv_yearOfEra (doe : ℕ) :
    Int.tdiv ((doe : ℤ) - Int.tdiv doe 1460 + Int.tdiv doe 36524 - Int.tdiv doe 146096) 365 = (yearOfEra doe : ℤ) := by
  have leapDays : Int.tdiv (doe : ℤ) 1460 = ((doe / 1460 : ℕ) : ℤ) := tdiv_natCast doe 1460
  have centuries : Int.tdiv (doe : ℤ) 36524 = ((doe / 36524 : ℕ) : ℤ) := tdiv_natCast doe 36524
  have eras : Int.tdiv (doe : ℤ) 146096 = ((doe / 146096 : ℕ) : ℤ) := tdiv_natCast doe 146096
  have sum : (doe : ℤ) - ((doe / 1460 : ℕ) : ℤ) + ((doe / 36524 : ℕ) : ℤ) - ((doe / 146096 : ℕ) : ℤ) =
      ((doe - doe / 1460 + doe / 36524 - doe / 146096 : ℕ) : ℤ) := by omega
  rw [leapDays, centuries, eras, sum]
  exact tdiv_natCast _ 365

/-- The signed computation of the day in its year. -/
theorem sub_tdiv_yearStart {doe yoe : ℕ} (starts : yearStart yoe ≤ doe) :
    (doe : ℤ) - (365 * (yoe : ℤ) + Int.tdiv yoe 4 - Int.tdiv yoe 100) =
      ((doe - (365 * yoe + yoe / 4 - yoe / 100) : ℕ) : ℤ) := by
  have fours : Int.tdiv (yoe : ℤ) 4 = ((yoe / 4 : ℕ) : ℤ) := tdiv_natCast yoe 4
  have centuries : Int.tdiv (yoe : ℤ) 100 = ((yoe / 100 : ℕ) : ℤ) := tdiv_natCast yoe 100
  unfold yearStart at starts
  rw [fours, centuries]
  omega

theorem tdiv_monthOf (doy : ℕ) : Int.tdiv (5 * (doy : ℤ) + 2) 153 = (monthOf doy : ℤ) :=
  tdiv_natCast (5 * doy + 2) 153

theorem asU32_day (doy : ℕ) : asU32 ((doy : ℤ) - Int.tdiv (153 * (monthOf doy : ℤ) + 2) 5 + 1) =
    UInt32.ofNat (doy - monthStart (monthOf doy) + 1) := by
  have first : Int.tdiv (153 * (monthOf doy : ℤ) + 2) 5 = (monthStart (monthOf doy) : ℤ) :=
    tdiv_natCast (153 * monthOf doy + 2) 5
  have begins := monthStart_monthOf doy
  have day : (doy : ℤ) - (monthStart (monthOf doy) : ℤ) + 1 = ((doy - monthStart (monthOf doy) + 1 : ℕ) : ℤ) := by omega
  rw [first, day, asU32_natCast]

theorem asU32_month (mp : ℕ) : asU32 (if (mp : ℤ) < 10 then (mp : ℤ) + 3 else (mp : ℤ) - 9) =
    UInt32.ofNat (if mp < 10 then mp + 3 else mp - 9) := by
  have named : (if (mp : ℤ) < 10 then (mp : ℤ) + 3 else (mp : ℤ) - 9) =
      ((if mp < 10 then mp + 3 else mp - 9 : ℕ) : ℤ) := by
    split_ifs <;> omega
  rw [named, asU32_natCast]

/-- The signed computation agrees with the unsigned one of the file names. -/
theorem civilFromDays_eq (n : ℕ) :
    civilFromDays n = ((IoEdgeHub.civilFromDays n).1, UInt32.ofNat (IoEdgeHub.civilFromDays n).2.1,
      UInt32.ofNat (IoEdgeHub.civilFromDays n).2.2) := by
  have small := (IoEdgeHub.civilFromDays_range n).2.1
  unfold civilFromDays
  unfold IoEdgeHub.civilFromDays at small ⊢
  dsimp only at small ⊢
  have era : Int.tdiv (if (n : ℤ) + 719468 ≥ 0 then (n : ℤ) + 719468 else (n : ℤ) + 719468 - 146096) 146097 =
      (((n + 719468) / 146097 : ℕ) : ℤ) := by
    rw [if_pos (by omega)]
    exact tdiv_natCast (n + 719468) 146097
  have inEra : (n : ℤ) + 719468 - (((n + 719468) / 146097 : ℕ) : ℤ) * 146097 = (((n + 719468) % 146097 : ℕ) : ℤ) := by
    omega
  rw [era, inEra, Int.toNat_natCast] at small ⊢
  have starts := (inYear_yearOfEra (Nat.mod_lt (n + 719468) (by decide : 0 < eraDays))).2.starts
  unfold eraDays at starts
  generalize (n + 719468) / 146097 = era at small ⊢
  generalize (n + 719468) % 146097 = doe at starts small ⊢
  have formula : (doe - doe / 1460 + doe / 36524 - doe / 146096) / 365 = yearOfEra doe := rfl
  rw [formula] at small ⊢
  rw [tdiv_yearOfEra doe]
  generalize yearOfEra doe = yoe at starts small ⊢
  rw [sub_tdiv_yearStart starts]
  generalize doe - (365 * yoe + yoe / 4 - yoe / 100) = doy at small ⊢
  have month : (5 * doy + 2) / 153 = monthOf doy := rfl
  have first : (153 * monthOf doy + 2) / 5 = monthStart (monthOf doy) := rfl
  rw [month] at small ⊢
  rw [tdiv_monthOf, first, asU32_day, asU32_month]
  simp only [ofNat_le_two small]

namespace Civil

/-- The date of a time. -/
def date (c : Civil) : Date := ⟨c.year.toNat, c.month.toNat, c.day.toNat⟩

/-- The second of the day. -/
def seconds (c : Civil) : ℕ := c.hour.toNat * 3600 + c.min.toNat * 60 + c.sec.toNat

/-- A date of the Gregorian calendar and a time of the day. -/
structure Valid (c : Civil) : Prop where
  date : c.date.Valid
  hour : c.hour.toNat < 24
  min : c.min.toNat < 60
  sec : c.sec.toNat < 60

/-- The lexicographic order of date and time. -/
def Before (a b : Civil) : Prop :=
  a.date.Before b.date ∨ a.date = b.date ∧ (a.hour < b.hour ∨ a.hour = b.hour ∧
    (a.min < b.min ∨ a.min = b.min ∧ a.sec < b.sec))

instance (a b : Civil) : Decidable (a.Before b) := inferInstanceAs (Decidable (_ ∨ _ ∧ (_ ∨ _ ∧ (_ ∨ _ ∧ _))))

end Civil

theorem civil_ext {a b : Civil} (date : a.date = b.date) (hour : a.hour = b.hour) (min : a.min = b.min)
    (sec : a.sec = b.sec) : a = b := by
  obtain ⟨year, month, day, _, _, _⟩ := a
  simp only [Civil.date, Date.mk.injEq, UInt16.toNat_inj, UInt8.toNat_inj] at date
  obtain ⟨rfl, rfl, rfl⟩ := date
  cases hour
  cases min
  cases sec
  rfl

/-- The day number of a date, from the beginning of 1970. -/
theorem daysFromCivil_eq {c : Civil} (valid : c.date.Valid) (later : 1 ≤ c.year.toNat) :
    daysFromCivil c.year.toNat c.month.toUInt32 c.day.toUInt32 =
      ((yearStart c.date.marchYear + c.date.dayOfYear : ℕ) : ℤ) - 719468 := by
  obtain ⟨first, last, one, -⟩ := valid
  dsimp only [Civil.date] at first last one
  have winter : c.month.toUInt32 ≤ 2 ↔ c.month.toNat ≤ 2 := UInt32.le_iff_toNat_le
  have march : ((c.month.toUInt32 + 9) % 12).toNat = (c.month.toNat + 9) % 12 := by
    rw [UInt32.toNat_mod, UInt32.toNat_add, UInt8.toNat_toUInt32]
    have : c.month.toNat < 256 := c.month.toNat_lt
    change (c.month.toNat + 9) % 2 ^ 32 % 12 = _
    omega
  have year : (if c.month.toUInt32 ≤ 2 then (c.year.toNat : ℤ) - 1 else c.year.toNat) = (c.date.marchYear : ℤ) := by
    unfold Date.marchYear Civil.date
    simp only [winter]
    split_ifs <;> omega
  unfold daysFromCivil
  dsimp only
  rw [year, march, if_pos (by omega)]
  have begins : Int.tdiv (153 * (((c.month.toNat + 9) % 12 : ℕ) : ℤ) + 2) 5 =
      (monthStart ((c.month.toNat + 9) % 12) : ℤ) := tdiv_natCast (153 * ((c.month.toNat + 9) % 12) + 2) 5
  have inYear : c.date.dayOfYear = monthStart ((c.month.toNat + 9) % 12) + (c.day.toNat - 1) := rfl
  rw [begins, inYear, UInt8.toNat_toUInt32]
  generalize c.date.marchYear = y
  generalize monthStart ((c.month.toNat + 9) % 12) = start
  have era : Int.tdiv (y : ℤ) 400 = ((y / 400 : ℕ) : ℤ) := tdiv_natCast y 400
  have ofEra : (y : ℤ) - ((y / 400 : ℕ) : ℤ) * 400 = ((y % 400 : ℕ) : ℤ) := by omega
  have fours : Int.tdiv ((y % 400 : ℕ) : ℤ) 4 = ((y % 400 / 4 : ℕ) : ℤ) := tdiv_natCast (y % 400) 4
  have centuries : Int.tdiv ((y % 400 : ℕ) : ℤ) 100 = ((y % 400 / 100 : ℕ) : ℤ) := tdiv_natCast (y % 400) 100
  have whole : yearStart y = eraDays * (y / 400) + yearStart (y % 400) := by
    rw [← yearStart_era, Nat.div_add_mod]
  have inside : y % 400 < 400 := Nat.mod_lt y (by decide)
  rw [era, ofEra, fours, centuries, whole]
  generalize y / 400 = e
  generalize y % 400 = r at inside
  unfold yearStart eraDays
  omega

/-! ## The conversions on times -/

theorem unixToCivil_date (ts : UInt32) :
    ∃ y doy, ts.toNat / 86400 + 719468 = yearStart y + doy ∧ InYear (ts.toNat / 86400 + 719468) y ∧
      (unixToCivil ts).date = dateIn y doy := by
  obtain ⟨y, doy, days, day, date⟩ := IoEdgeHub.civilFromDays_eq (ts.toNat / 86400)
  refine ⟨y, doy, days, day, ?_⟩
  have valid := dateIn_valid (days ▸ day)
  have short := Nat.le_trans valid.day_le (monthDays_le _ _)
  have months := valid.month_le
  have years : (dateIn y doy).year < 65536 := by
    have near : (dateIn y doy).year ≤ y + 1 := by
      unfold dateIn
      split_ifs <;> simp
    have := day.starts
    have := ts.toNat_lt
    unfold yearStart at *
    omega
  have number : ((ts / 86400).toNat : ℤ) = ((ts.toNat / 86400 : ℕ) : ℤ) := by
    rw [UInt32.toNat_div]
    rfl
  unfold unixToCivil Civil.date
  dsimp only
  rw [number, civilFromDays_eq, date]
  dsimp only
  generalize dateIn y doy = target at *
  obtain ⟨year, month, day⟩ := target
  dsimp only at *
  simp only [UInt32.toNat_toUInt8, UInt32.toNat_ofNat', UInt16.toNat_ofNat', Date.mk.injEq]
  omega

/-- The month and day of a time are those the file names compute. -/
theorem unixToCivil_civilFromDays (ts : UInt32) :
    (unixToCivil ts).month.toNat = (IoEdgeHub.civilFromDays (ts.toNat / 86400 : ℕ)).2.1 ∧
      (unixToCivil ts).day.toNat = (IoEdgeHub.civilFromDays (ts.toNat / 86400 : ℕ)).2.2 := by
  obtain ⟨y, doy, days, day, date⟩ := unixToCivil_date ts
  obtain ⟨y', doy', days', day', date'⟩ := IoEdgeHub.civilFromDays_eq (ts.toNat / 86400)
  obtain ⟨rfl, rfl⟩ := inYear_unique day days day' days'
  rw [date']
  exact ⟨congrArg Date.month date, congrArg Date.day date⟩

theorem unixToCivil_time (ts : UInt32) :
    (unixToCivil ts).hour.toNat = ts.toNat % 86400 / 3600 ∧ (unixToCivil ts).min.toNat = ts.toNat % 86400 % 3600 / 60 ∧
      (unixToCivil ts).sec.toNat = ts.toNat % 86400 % 60 := by
  unfold unixToCivil
  dsimp only
  simp only [UInt32.toNat_toUInt8, UInt32.toNat_div, UInt32.toNat_mod, UInt32.reduceToNat]
  omega

theorem unixToCivil_seconds (ts : UInt32) : (unixToCivil ts).seconds = ts.toNat % 86400 := by
  obtain ⟨hour, min, sec⟩ := unixToCivil_time ts
  unfold Civil.seconds
  omega

theorem unixToCivil_valid (ts : UInt32) : (unixToCivil ts).Valid := by
  obtain ⟨y, doy, days, day, date⟩ := unixToCivil_date ts
  obtain ⟨hour, min, sec⟩ := unixToCivil_time ts
  exact ⟨date ▸ dateIn_valid (days ▸ day), by omega, by omega, by omega⟩

theorem civilToUnix_toNat {c : Civil} (valid : c.date.Valid) (later : 1 ≤ c.year.toNat) {n : ℕ}
    (days : yearStart c.date.marchYear + c.date.dayOfYear = n + 719468) (fits : n * 86400 + c.seconds < 2 ^ 32) :
    (civilToUnix c).toNat = n * 86400 + c.seconds := by
  have sum : ((yearStart c.date.marchYear + c.date.dayOfYear : ℕ) : ℤ) - 719468 = n := by
    rw [days]
    omega
  unfold Civil.seconds at *
  unfold civilToUnix asU32
  dsimp only
  rw [daysFromCivil_eq valid later, sum, UInt32.toNat_ofNat']
  omega

theorem year_pos {c : Civil} {y doy n : ℕ} (date : c.date = dateIn y doy) (days : n + 719468 = yearStart y + doy)
    (day : InYear (n + 719468) y) : 1 ≤ c.year.toNat := by
  have year : c.year.toNat = (dateIn y doy).year := congrArg Date.year date
  have near : y ≤ (dateIn y doy).year := by
    unfold dateIn
    split_ifs <;> simp
  have := day.ends
  unfold yearStart at *
  omega

theorem civilToUnix_unixToCivil (ts : UInt32) : civilToUnix (unixToCivil ts) = ts := by
  obtain ⟨y, doy, days, day, date⟩ := unixToCivil_date ts
  obtain ⟨year, ofYear⟩ := marchYear_dateIn (day.monthOf_le days)
  have number : yearStart (unixToCivil ts).date.marchYear + (unixToCivil ts).date.dayOfYear =
      ts.toNat / 86400 + 719468 := by
    rw [date, year, ofYear]
    exact days.symm
  have seconds := unixToCivil_seconds ts
  have := ts.toNat_lt
  apply UInt32.toNat_inj.1
  rw [civilToUnix_toNat (unixToCivil_valid ts).date (year_pos date days day) number (by omega), seconds]
  omega

theorem unixToCivil_before {ts ts' : UInt32} (later : ts < ts') : (unixToCivil ts).Before (unixToCivil ts') := by
  have later : ts.toNat < ts'.toNat := UInt32.lt_iff_toNat_lt.1 later
  obtain ⟨y, doy, days, day, date⟩ := unixToCivil_date ts
  obtain ⟨y', doy', days', day', date'⟩ := unixToCivil_date ts'
  rcases Nat.lt_or_ge (ts.toNat / 86400) (ts'.toNat / 86400) with nextDay | sameDay
  · refine .inl ?_
    rw [date, date']
    exact dateIn_before day days day' days' (by omega)
  · have same : ts.toNat / 86400 = ts'.toNat / 86400 := by omega
    rw [same] at day days
    obtain rfl : y = y' := Nat.le_antisymm (day.mono day' (Nat.le_refl _)) (day'.mono day (Nat.le_refl _))
    obtain rfl : doy = doy' := by omega
    refine .inr ⟨date.trans date'.symm, ?_⟩
    obtain ⟨hour, min, sec⟩ := unixToCivil_time ts
    obtain ⟨hour', min', sec'⟩ := unixToCivil_time ts'
    simp only [UInt8.lt_iff_toNat_lt, ← UInt8.toNat_inj]
    omega

theorem unixToCivil_year_mono {ts ts' : UInt32} (order : ts ≤ ts') :
    (unixToCivil ts).year ≤ (unixToCivil ts').year := by
  by_cases same : ts = ts'
  · rw [same]
    exact UInt16.le_refl _
  · have later : ts < ts' := by
      rw [UInt32.le_iff_toNat_le] at order
      rw [← UInt32.toNat_inj] at same
      rw [UInt32.lt_iff_toNat_lt]
      omega
    rw [UInt16.le_iff_toNat_le]
    rcases unixToCivil_before later with earlier | ⟨today, -⟩
    · rcases earlier with year | ⟨year, -⟩
      · exact Nat.le_of_lt year
      · exact Nat.le_of_eq year
    · exact Nat.le_of_eq (congrArg Date.year today)

/-- 1970-01-01 00:00:00 -/
def firstCivil : Civil := ⟨1970, 1, 1, 0, 0, 0⟩

/-- 2106-02-07 06:28:15 -/
def lastCivil : Civil := ⟨2106, 2, 7, 6, 28, 15⟩

theorem firstDay : InYear 719468 1969 ∧ 719468 = yearStart 1969 + 306 ∧ dateIn 1969 306 = firstCivil.date :=
  ⟨⟨by decide, by decide⟩, by decide, by decide⟩

theorem lastDay : InYear 769178 2105 ∧ 769178 = yearStart 2105 + 343 ∧ dateIn 2105 343 = lastCivil.date :=
  ⟨⟨by decide, by decide⟩, by decide, by decide⟩

theorem Civil.Valid.seconds_lt {c : Civil} (valid : c.Valid) : c.seconds < 86400 := by
  have := valid.hour
  have := valid.min
  have := valid.sec
  unfold Civil.seconds
  omega

/-- The day number of a date in the range, and that its time fits 32 bits. -/
theorem exists_dayNumber {c : Civil} (valid : c.Valid) (from1970 : ¬c.Before firstCivil)
    (to2106 : ¬lastCivil.Before c) :
    1 ≤ c.year.toNat ∧ ∃ n, yearStart c.date.marchYear + c.date.dayOfYear = n + 719468 ∧
      n * 86400 + c.seconds < 2 ^ 32 := by
  have later : 1970 ≤ c.year.toNat := by
    by_contra early
    exact from1970 (.inl (.inl (Nat.lt_of_not_le early)))
  have pos : 1 ≤ c.date.year := Nat.le_trans (by decide) later
  obtain ⟨day, back⟩ := dateIn_of_valid valid.date pos
  have low : 719468 ≤ yearStart c.date.marchYear + c.date.dayOfYear := by
    by_contra early
    have before := dateIn_before day rfl firstDay.1 firstDay.2.1 (Nat.lt_of_not_le early)
    rw [back, firstDay.2.2] at before
    exact from1970 (.inl before)
  obtain ⟨n, number⟩ : ∃ n, yearStart c.date.marchYear + c.date.dayOfYear = n + 719468 :=
    ⟨_, (Nat.sub_add_cancel low).symm⟩
  refine ⟨pos, n, number, ?_⟩
  have seconds := valid.seconds_lt
  rcases Nat.lt_trichotomy n 49710 with early | same | late
  · omega
  · -- on the last day, the time of the day decides
    have today : c.date = lastCivil.date := by
      rw [number, same] at day
      have number' : 49710 + 719468 = yearStart c.date.marchYear + c.date.dayOfYear := by omega
      obtain ⟨year, ofYear⟩ := inYear_unique day number' lastDay.1 lastDay.2.1
      rw [← back, year, ofYear, lastDay.2.2]
    by_contra beyond
    refine to2106 (.inr ⟨today.symm, ?_⟩)
    have := valid.min
    have := valid.sec
    unfold Civil.seconds at *
    simp only [UInt8.lt_iff_toNat_lt, ← UInt8.toNat_inj]
    change 6 < _ ∨ 6 = _ ∧ (28 < _ ∨ 28 = _ ∧ 15 < _)
    omega
  · have before := dateIn_before lastDay.1 lastDay.2.1 day rfl (by omega)
    rw [back, lastDay.2.2] at before
    exact absurd (.inl before) to2106

theorem unixToCivil_civilToUnix {c : Civil} (valid : c.Valid) (from1970 : ¬c.Before firstCivil)
    (to2106 : ¬lastCivil.Before c) : unixToCivil (civilToUnix c) = c := by
  obtain ⟨later, n, number, fits⟩ := exists_dayNumber valid from1970 to2106
  obtain ⟨day, back⟩ := dateIn_of_valid valid.date later
  have time := civilToUnix_toNat valid.date later number fits
  have seconds := valid.seconds_lt
  have days : (civilToUnix c).toNat / 86400 = n := by omega
  have date : (unixToCivil (civilToUnix c)).date = c.date := by
    obtain ⟨y, doy, days', day', date⟩ := unixToCivil_date (civilToUnix c)
    rw [number] at day
    rw [days] at days' day'
    obtain ⟨rfl, rfl⟩ := inYear_unique day' days' day number.symm
    exact date.trans back
  have rem : (civilToUnix c).toNat % 86400 = c.seconds := by omega
  obtain ⟨hour, min, sec⟩ := unixToCivil_time (civilToUnix c)
  rw [rem] at hour min sec
  have := valid.min
  have := valid.sec
  unfold Civil.seconds at *
  refine civil_ext date (UInt8.toNat_inj.1 ?_) (UInt8.toNat_inj.1 ?_) (UInt8.toNat_inj.1 ?_)
  · rw [hour]
    omega
  · rw [min]
    omega
  · rw [sec]
    omega

/-- The calendar conversion is a bijection between the 32-bit times and the valid dates and times from 1970 to
2106-02-07 06:28:15 that keeps the order. -/
theorem unixToCivil_bijection :
    (∀ ts, (unixToCivil ts).Valid ∧ civilToUnix (unixToCivil ts) = ts) ∧
    (∀ ts ts', ts < ts' → (unixToCivil ts).Before (unixToCivil ts')) ∧
    ∀ c : Civil, c.Valid → ¬c.Before firstCivil → ¬lastCivil.Before c → unixToCivil (civilToUnix c) = c :=
  ⟨fun ts => ⟨unixToCivil_valid ts, civilToUnix_unixToCivil ts⟩, fun _ _ => unixToCivil_before,
    fun _ => unixToCivil_civilToUnix⟩

theorem unixToCivil_bijection_leap_day :
    Civil.Before (unixToCivil 951782400) (unixToCivil 951868800) ∧
      unixToCivil (civilToUnix ⟨2000, 2, 29, 23, 59, 59⟩) = ⟨2000, 2, 29, 23, 59, 59⟩ := by
  refine ⟨unixToCivil_bijection.2.1 _ _ (by decide), unixToCivil_bijection.2.2 _ ?_ ?_ ?_⟩
  · exact ⟨⟨by decide, by decide, by decide, by decide⟩, by decide, by decide, by decide⟩
  · decide
  · decide

end TimeMath

end IoEdgeHub
