import IoEdgeHub.Lib.Calendar
import IoEdgeHub.Proto.History

/-!
# The order of history file names

A name shows month, day and time of day in UTC+8, but not the year.  `makeHistName_lt` says that names
are ordered as the times are within their years (`inYear`); within one year that is the order of the
times themselves (`inYear_lt`).
-/

namespace IoEdgeHub

open Calendar

/-- The day in UTC+8. -/
def localDay (unix : UInt32) : ℕ := (unix.toNat + 8 * 3600) / 86400

/-- The second of the day in UTC+8. -/
def localSecs (unix : UInt32) : ℕ := (unix.toNat + 8 * 3600) % 86400

/-- The calendar year in UTC+8. -/
def localYear (unix : UInt32) : ℤ := (civilFromDays (localDay unix)).1

/-- How far into its year a time is: month, then day, then second. -/
def inYear (unix : UInt32) : ℕ :=
  let date := civilFromDays (localDay unix)
  (date.2.1 * 32 + date.2.2) * 86400 + localSecs unix

/-! ## Dates -/

/-- The date of a day number, by its year from March on and the day of that year. -/
theorem civilFromDays_eq (n : ℕ) :
    ∃ y doy, n + 719468 = yearStart y + doy ∧ InYear (n + 719468) y ∧
      civilFromDays n = (((dateIn y doy).year : ℤ), (dateIn y doy).month, (dateIn y doy).day) := by
  generalize days : n + 719468 = m
  have shifted : (n : ℤ) + 719468 = (m : ℤ) := by omega
  have era : Int.tdiv (m : ℤ) 146097 = ((m / 146097 : ℕ) : ℤ) := (Int.ofNat_tdiv m 146097).symm
  have inEra : ((m : ℤ) - ((m / 146097 : ℕ) : ℤ) * 146097).toNat = m % 146097 := by omega
  have inside : m % 146097 < eraDays := Nat.mod_lt m (by decide)
  obtain ⟨small, starts, ends⟩ := inYear_yearOfEra inside
  generalize year : yearOfEra (m % 146097) = yoe at small starts ends
  have start : yearStart yoe = 365 * yoe + yoe / 4 - yoe / 100 := by
    unfold yearStart
    omega
  have whole (y : ℕ) : yearStart (400 * (m / 146097) + y) = 146097 * (m / 146097) + yearStart y :=
    yearStart_era (m / 146097) y
  refine ⟨400 * (m / 146097) + yoe, m % 146097 - yearStart yoe, ?_, ⟨?_, ?_⟩, ?_⟩
  · rw [whole]
    omega
  · rw [whole]
    omega
  · rw [Nat.add_assoc, whole]
    omega
  have late := InYear.monthOf_le ⟨starts, ends⟩ (Nat.add_sub_cancel' starts).symm
  have formula : (m % 146097 - m % 146097 / 1460 + m % 146097 / 36524 - m % 146097 / 146096) / 365 = yoe := year
  unfold civilFromDays
  dsimp only
  rw [shifted, if_pos (Int.natCast_nonneg m), era, inEra, formula, ← start]
  generalize m % 146097 - yearStart yoe = doy at late
  have month : (5 * doy + 2) / 153 = monthOf doy := rfl
  have first : (153 * monthOf doy + 2) / 5 = monthStart (monthOf doy) := rfl
  rw [month, first, dateIn]
  by_cases early : monthOf doy < 10
  · rw [if_pos early, if_pos early, if_neg (by omega)]
    push_cast
    rw [Int.add_comm, Int.mul_comm]
  · rw [if_neg early, if_neg early, if_pos (by omega)]
    push_cast
    rw [Int.add_comm (yoe : ℤ), Int.mul_comm]

theorem civilFromDays_range (n : ℕ) :
    1 ≤ (civilFromDays n).2.1 ∧ (civilFromDays n).2.1 ≤ 12 ∧
      1 ≤ (civilFromDays n).2.2 ∧ (civilFromDays n).2.2 ≤ 31 := by
  obtain ⟨y, doy, days, day, date⟩ := civilFromDays_eq n
  have valid := dateIn_valid (days ▸ day)
  rw [date]
  exact ⟨valid.month_pos, valid.month_le, valid.day_pos, Nat.le_trans valid.day_le (monthDays_le _ _)⟩

theorem civilFromDays_lt {n n' : ℕ} (later : n < n') (same : (civilFromDays n).1 = (civilFromDays n').1) :
    (civilFromDays n).2.1 * 32 + (civilFromDays n).2.2 < (civilFromDays n').2.1 * 32 + (civilFromDays n').2.2 := by
  have range := civilFromDays_range n
  obtain ⟨y, doy, days, day, date⟩ := civilFromDays_eq n
  obtain ⟨y', doy', days', day', date'⟩ := civilFromDays_eq n'
  have order := dateIn_before day days day' days' (by omega)
  rw [date] at range
  rw [date, date'] at same ⊢
  unfold Date.Before at order
  dsimp only at *
  omega

/-- Within a year, times are as far into it as they are late. -/
theorem inYear_lt {a b : UInt32} (later : a < b) (same : localYear a = localYear b) : inYear a < inYear b := by
  have later : a.toNat < b.toNat := UInt32.lt_iff_toNat_lt.1 later
  unfold localYear at same
  unfold inYear localSecs
  dsimp only
  rcases Nat.lt_or_ge (localDay a) (localDay b) with nextDay | sameDay
  · have := civilFromDays_lt nextDay same
    omega
  · obtain sameDay : localDay a = localDay b := by
      unfold localDay at sameDay ⊢
      omega
    rw [sameDay]
    unfold localDay at sameDay
    omega

/-! ## Names -/

theorem clamp_eq {v lo hi : ℤ} (least : lo ≤ v) (most : v ≤ hi) : clamp v lo hi = v := by
  rw [clamp, if_neg (by omega), if_neg (by omega)]

/-- The name in its parts; no part is ever out of range. -/
theorem makeHistName_eq (unix : UInt32) :
    makeHistName unix = [0x64, 0x61, 0x74, 0x61, 0x5F] ++
      (twoDigits (civilFromDays (localDay unix)).2.1 ++ (twoDigits (civilFromDays (localDay unix)).2.2 ++
        (0x5F :: (twoDigits (localSecs unix / 3600 : ℕ) ++ (twoDigits (localSecs unix / 60 % 60 : ℕ) ++
          (twoDigits (localSecs unix % 60 : ℕ) ++ [0x2E, 0x72, 0x61, 0x77])))))) := by
  have days : ((unix.toNat : ℤ) + 8 * 3600) / 86400 = (localDay unix : ℤ) := by
    unfold localDay
    omega
  have secs : ((unix.toNat : ℤ) + 8 * 3600) % 86400 = (localSecs unix : ℤ) := by
    unfold localSecs
    omega
  have below : localSecs unix < 86400 := Nat.mod_lt _ (by decide)
  obtain ⟨month, month', day, day'⟩ := civilFromDays_range (localDay unix)
  unfold makeHistName histParts
  dsimp only
  rw [days, secs]
  generalize civilFromDays (localDay unix) = date at *
  obtain ⟨year, mon, mday⟩ := date
  dsimp only at *
  simp only [List.take_succ_cons, List.take_zero, List.drop_succ_cons, List.drop_zero, List.flatMap_cons,
    List.flatMap_nil, List.append_nil]
  rw [clamp_eq (by omega) (by omega), clamp_eq (by omega) (by omega), clamp_eq (by omega) (by omega),
    clamp_eq (by omega) (by omega), clamp_eq (by omega) (by omega)]
  simp only [List.append_assoc]
  rfl

theorem toNat_digit {k : ℕ} (single : k < 10) : (48 + UInt8.ofNat k).toNat = 48 + k := by
  rw [UInt8.toNat_add, UInt8.toNat_ofNat']
  simp only [UInt8.reduceToNat]
  omega

theorem twoDigits_natCast (n : ℕ) : twoDigits n = [48 + UInt8.ofNat (n / 10), 48 + UInt8.ofNat (n % 10)] := rfl

theorem twoDigits_append_lt {a b : ℕ} (small : a < 100) (small' : b < 100) (x y : List UInt8) :
    twoDigits a ++ x < twoDigits b ++ y ↔ a < b ∨ a = b ∧ x < y := by
  rw [twoDigits_natCast, twoDigits_natCast]
  simp only [List.cons_append, List.nil_append, List.cons_lt_cons_iff, UInt8.lt_iff_toNat_lt, ← UInt8.toNat_inj]
  rw [toNat_digit (by omega), toNat_digit (by omega), toNat_digit (by omega), toNat_digit (by omega)]
  by_cases rest : x < y
  · simp only [rest, and_true]
    omega
  · simp only [rest, and_false, or_false]
    omega

theorem append_lt_append_left (z x y : List UInt8) : z ++ x < z ++ y ↔ x < y := by
  induction z with
  | nil => rfl
  | cons a z ih =>
    rw [List.cons_append, List.cons_append, List.cons_lt_cons_iff, ih]
    simp

/-- Words of one length compare the same way whatever follows them. -/
theorem append_lt_append_right {x y : List UInt8} (z : List UInt8) (length : x.length = y.length) (less : x < y) :
    x ++ z < y ++ z := by
  induction x generalizing y with
  | nil =>
    rw [List.length_eq_zero_iff.1 length.symm] at less
    exact absurd less (List.lt_irrefl _)
  | cons a x ih =>
    obtain ⟨b, y, rfl⟩ := List.exists_cons_of_length_eq_add_one length.symm
    rw [List.cons_append, List.cons_append, List.cons_lt_cons_iff]
    rcases List.cons_lt_cons_iff.1 less with first | ⟨same, rest⟩
    · exact .inl first
    · exact .inr ⟨same, ih (by simpa using length) rest⟩

/-- Names are in the order in which their times are within their years. -/
theorem makeHistName_lt {a b : UInt32} : makeHistName a < makeHistName b ↔ inYear a < inYear b := by
  have secs : localSecs a < 86400 := Nat.mod_lt _ (by decide)
  have secs' : localSecs b < 86400 := Nat.mod_lt _ (by decide)
  obtain ⟨month, month', day, day'⟩ := civilFromDays_range (localDay a)
  obtain ⟨month₂, month₂', day₂, day₂'⟩ := civilFromDays_range (localDay b)
  have under : ¬ (0x5F : UInt8) < 0x5F := by decide
  rw [makeHistName_eq, makeHistName_eq, append_lt_append_left, twoDigits_append_lt (by omega) (by omega),
    twoDigits_append_lt (by omega) (by omega), List.cons_lt_cons_iff, twoDigits_append_lt (by omega) (by omega),
    twoDigits_append_lt (by omega) (by omega), twoDigits_append_lt (by omega) (by omega)]
  simp only [under, false_or, true_and, List.lt_irrefl, and_false, or_false]
  unfold inYear
  dsimp only
  omega

theorem makeHistName_inj {a b : UInt32} : makeHistName a = makeHistName b ↔ inYear a = inYear b := by
  constructor
  · intro same
    have not_lt : ¬ inYear a < inYear b := by
      rw [← makeHistName_lt, same]
      exact List.lt_irrefl _
    have not_gt : ¬ inYear b < inYear a := by
      rw [← makeHistName_lt, same]
      exact List.lt_irrefl _
    omega
  · intro same
    apply List.le_antisymm
    · rw [← List.not_lt, makeHistName_lt]
      omega
    · rw [← List.not_lt, makeHistName_lt]
      omega

theorem length_makeHistName (unix : UInt32) : (makeHistName unix).length = 20 := by
  rw [makeHistName_eq]
  rfl

theorem take_makeHistName (unix : UInt32) : (makeHistName unix).take 5 = [0x64, 0x61, 0x74, 0x61, 0x5F] := by
  rw [makeHistName_eq]
  rfl

/-- The bytes of a path: ASCII without NUL. -/
def Plain (bs : List UInt8) : Prop := ∀ b ∈ bs, b ≠ 0 ∧ b < 128

theorem plain_append {xs ys : List UInt8} (plain : Plain xs) (plain' : Plain ys) : Plain (xs ++ ys) := by
  intro b member
  exact (List.mem_append.1 member).elim (plain b) (plain' b)

theorem plain_twoDigits {n : ℕ} (small : n < 100) : Plain (twoDigits n) := by
  have digit {k : ℕ} (single : k < 10) : 48 + UInt8.ofNat k ≠ 0 ∧ 48 + UInt8.ofNat k < 128 := by
    have value := toNat_digit single
    constructor
    · intro zero
      rw [zero] at value
      simp at value
      omega
    · rw [UInt8.lt_iff_toNat_lt, value]
      simp only [UInt8.reduceToNat]
      omega
  intro b member
  rw [twoDigits_natCast, List.mem_cons, List.mem_singleton] at member
  rcases member with rfl | rfl
  · exact digit (by omega)
  · exact digit (by omega)

theorem plain_makeHistName (unix : UInt32) : Plain (makeHistName unix) := by
  have secs : localSecs unix < 86400 := Nat.mod_lt _ (by decide)
  obtain ⟨month, month', day, day'⟩ := civilFromDays_range (localDay unix)
  have head : Plain [0x64, 0x61, 0x74, 0x61, 0x5F] := by simp [Plain]
  have bar : Plain [0x5F] := by simp [Plain]
  have tail : Plain [0x2E, 0x72, 0x61, 0x77] := by simp [Plain]
  rw [makeHistName_eq]
  apply plain_append head
  apply plain_append (plain_twoDigits (by omega))
  apply plain_append (plain_twoDigits (by omega))
  apply plain_append bar
  apply plain_append (plain_twoDigits (by omega))
  apply plain_append (plain_twoDigits (by omega))
  exact plain_append (plain_twoDigits (by omega)) tail

end IoEdgeHub
