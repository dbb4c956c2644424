import IoEdgeHub.Lib.Run
import IoEdgeHub.Proto.TimeMath

/-!
# System time (`systime.rs`)

The epoch is a cache in RAM, counted up once a second.  Setting the time also writes it to the clock
chip, from which the next start reads it back.  The chip's driver is not part of the repository: it is taken
to accept every date in range (`RtcDriver`), and the chip to return what was last written to it; a restart
loses everything but the chip.  Times are accepted up to the first second of 2100, but read
back only from the years 2000 to 2099.
-/

namespace IoEdgeHub

open TimeMath

/-- `held` says whether the handle of the chip has been stored by `init`. -/
structure Systime where
  epoch : UInt32
  held : Bool
  chip : Option Civil
deriving DecidableEq, Repr

/-- The ranges that the driver documents. -/
structure TimeMath.Civil.InRange (c : Civil) : Prop where
  year : c.year ≤ 4095
  month : 1 ≤ c.month ∧ c.month ≤ 12
  day : 1 ≤ c.day ∧ c.day ≤ 31
  time : c.hour ≤ 23 ∧ c.min ≤ 59 ∧ c.sec ≤ 59

/-- `DateTime::from` of the chip's driver, as far as it is relied on. -/
structure RtcDriver where
  dateTimeFrom : Civil → Option Civil
  accepts (c : Civil) (inRange : c.InRange) : dateTimeFrom c = some c

namespace Systime

variable (rtc : RtcDriver)

/-- `init` -/
def init (s : Systime) : Systime :=
  let epoch :=
    match s.chip with
    | some dt => if 2000 ≤ dt.year ∧ dt.year ≤ 2099 then civilToUnix dt else tsDefault
    | none => tsDefault
  { s with epoch, held := true }

/-- `tick_1hz` -/
def tick1hz (s : Systime) : Systime := { s with epoch := s.epoch + 1 }

/-- Returns whether the time is accepted; no result is the panic of a refused date. -/
def setTimestamp (s : Systime) (ts : UInt32) : Option (Systime × Bool) :=
  if !tsValid ts then some (s, false)
  else do
    let dt ← rtc.dateTimeFrom (unixToCivil ts)
    return ({ s with epoch := ts, chip := if s.held then some dt else s.chip }, true)

/-- The statics are as compiled, then `init` runs. -/
def restart (s : Systime) : Systime := init ⟨tsDefault, false, s.chip⟩

/-- What happens to the time. -/
inductive Op where
  | tick
  | set (ts : UInt32)
  | restart
deriving DecidableEq, Repr

/-- One operation on the clock. -/
def step (s : Systime) : Op → Option Systime
  | .tick => some s.tick1hz
  | .set ts => (s.setTimestamp rtc ts).map (·.1)
  | .restart => some s.restart

/-- A first start, with whatever is in the chip. -/
def boot (chip : Option Civil) : Systime := init ⟨tsDefault, false, chip⟩

/-- An operation that sets a new time. -/
def Op.Sets : Op → Prop
  | .set ts => tsValid ts = true
  | _ => False

/-! ## Accepted times -/

theorem unixToCivil_inRange (ts : UInt32) : (unixToCivil ts).InRange := by
  have most : ts ≤ 4294967295 := by
    rw [UInt32.le_iff_toNat_le]
    exact Nat.le_of_lt_succ ts.toNat_lt
  have year := unixToCivil_year_mono most
  have last : (unixToCivil 4294967295).year = 2106 := by decide +kernel
  rw [last] at year
  obtain ⟨⟨month, month', day, fits⟩, hour, min, sec⟩ := unixToCivil_valid ts
  have day' := Nat.le_trans fits (Calendar.monthDays_le _ _)
  simp only [Civil.date, UInt16.le_iff_toNat_le, UInt16.reduceToNat] at *
  refine ⟨?_, ?_, ?_, ?_⟩ <;>
    simp only [UInt16.le_iff_toNat_le, UInt8.le_iff_toNat_le, UInt16.reduceToNat, UInt8.reduceToNat] <;> omega

/-- The clock never panics and accepts what is in the window. -/
theorem setTimestamp_eq (s : Systime) (ts : UInt32) :
    s.setTimestamp rtc ts =
      if tsValid ts then some ({ s with epoch := ts, chip := if s.held then some (unixToCivil ts) else s.chip }, true)
      else some (s, false) := by
  unfold setTimestamp
  rw [rtc.accepts _ (unixToCivil_inRange ts)]
  by_cases valid : tsValid ts = true
  · simp [valid]
  · simp [valid]

/-- The years of the window: 2000 to 2099, and its last second. -/
theorem year_window {ts : UInt32} (valid : tsValid ts = true) :
    2000 ≤ (unixToCivil ts).year ∧ ((unixToCivil ts).year ≤ 2099 ↔ ts ≠ tsMax) := by
  obtain ⟨least, most⟩ : tsMin ≤ ts ∧ ts ≤ tsMax := by simpa [tsValid] using valid
  have first : (unixToCivil tsMin).year = 2000 := by decide +kernel
  have last : (unixToCivil 4102444799).year = 2099 := by decide +kernel
  have beyond : ¬(unixToCivil tsMax).year ≤ 2099 := by decide +kernel
  refine ⟨first ▸ unixToCivil_year_mono least, ?_, fun inside => ?_⟩
  · rintro year rfl
    exact beyond year
  · rw [← last]
    apply unixToCivil_year_mono
    rw [UInt32.le_iff_toNat_le] at most ⊢
    have apart : ts.toNat ≠ tsMax.toNat := fun h => inside (UInt32.toNat_inj.1 h)
    exact Nat.le_of_lt_succ (Nat.lt_of_le_of_ne most apart)

/-! ## Histories -/

variable {rtc}

/-- Once the clock is started, its handle is stored and the chip changes with accepted times only. -/
theorem step_chip {s s' : Systime} {op : Op} (held : s.held = true) (ran : s.step rtc op = some s') :
    s'.held = true ∧ (¬op.Sets → s'.chip = s.chip) := by
  cases op with
  | tick =>
    cases ran
    exact ⟨held, fun _ => rfl⟩
  | set ts =>
    simp only [step, setTimestamp_eq] at ran
    by_cases valid : tsValid ts = true
    · rw [if_pos valid] at ran
      cases ran
      exact ⟨held, fun quiet => absurd valid quiet⟩
    · rw [if_neg valid] at ran
      cases ran
      exact ⟨held, fun _ => rfl⟩
  | restart =>
    cases ran
    exact ⟨rfl, fun _ => rfl⟩

theorem run_held {chip : Option Civil} {ops : List Op} {s : Systime}
    (ran : ops.foldlM (step rtc) (boot chip) = some s) :
    s.held = true :=
  Run.always (Q := fun _ s => s.held = true) rfl (fun _ _ _ _ held stepped => (step_chip held stepped).1) ran

theorem run_chip {s s' : Systime} {ops : List Op} (held : s.held = true) (quiet : ∀ op ∈ ops, ¬op.Sets)
    (ran : ops.foldlM (step rtc) s = some s') : s'.chip = s.chip := by
  induction ops generalizing s with
  | nil =>
    cases ran
    rfl
  | cons op ops ih =>
    obtain ⟨between, stepped, ran⟩ := Option.bind_eq_some_iff.1 ran
    obtain ⟨held', same⟩ := step_chip held stepped
    rw [ih held' (fun op mem => quiet op (.tail _ mem)) ran, same (quiet op (.head _))]

theorem restart_epoch {s : Systime} {ts : UInt32} (valid : tsValid ts = true) (chip : s.chip = some (unixToCivil ts)) :
    s.restart.epoch = ts ↔ ts ≠ tsMax := by
  obtain ⟨least, most⟩ := year_window valid
  have read : s.restart.epoch = if (unixToCivil ts).year ≤ 2099 then ts else tsDefault := by
    simp only [restart, init, chip, least, true_and, civilToUnix_unixToCivil]
  rw [read, ← most]
  by_cases inside : (unixToCivil ts).year ≤ 2099
  · simp [inside]
  · have last : ts = tsMax := by
      by_contra other
      exact inside (most.2 other)
    subst last
    simp only [inside, if_false, iff_false]
    decide

/-- A time that is accepted is read back by every later start, up to the next accepted time, unless it is the last
of the window. -/
theorem accepted_time_restored (rtc : RtcDriver) (chip : Option Civil) (before after : List Op) (ts : UInt32)
    {s s' s'' : Systime} (ran : before.foldlM (step rtc) (boot chip) = some s)
    (accepted : s.setTimestamp rtc ts = some (s', true)) (quiet : ∀ op ∈ after, ¬op.Sets)
    (ran' : after.foldlM (step rtc) s' = some s'') :
    s''.restart.epoch = ts ↔ ts ≠ tsMax := by
  have held := run_held ran
  rw [setTimestamp_eq] at accepted
  by_cases valid : tsValid ts = true
  · rw [if_pos valid, held] at accepted
    obtain rfl := (Prod.mk.inj (Option.some.inj accepted)).1
    exact restart_epoch valid (run_chip rfl quiet ran')
  · rw [if_neg valid] at accepted
    cases accepted

/-- A driver that accepts everything. -/
def plainDriver : RtcDriver := ⟨some, fun _ _ => rfl⟩

theorem accepted_time_restored_2099 :
    ∃ s' s'', (boot none).setTimestamp plainDriver 4102444799 = some (s', true) ∧
      [Op.tick].foldlM (step plainDriver) s' = some s'' ∧ s''.restart.epoch = 4102444799 := by
  have accepted : (boot none).setTimestamp plainDriver 4102444799 =
      some (⟨4102444799, true, some ⟨2099, 12, 31, 23, 59, 59⟩⟩, true) := by decide +kernel
  refine ⟨_, _, accepted, rfl, ?_⟩
  exact (accepted_time_restored plainDriver none [] [.tick] 4102444799 rfl accepted (by simp [Op.Sets]) rfl).2
    (by decide)

/-- The first second of 2100 is accepted, and the next start shows 2020. -/
theorem accepted_time_lost :
    ∃ s', (boot none).setTimestamp plainDriver tsMax = some (s', true) ∧ s'.restart.epoch = tsDefault :=
  ⟨⟨tsMax, true, some ⟨2100, 1, 1, 0, 0, 0⟩⟩, by decide +kernel, by decide +kernel⟩

end Systime

end IoEdgeHub
