import IoEdgeHub.Lib.Clock
import Mathlib.Data.List.Chain

/-!
# The delayed reboot

`reboot.rs`: a deadline in milliseconds since boot, polled by the heartbeat task.  The clock is the
low half of the tick counter divided down to milliseconds, so it runs from 0 to 4 294 967 and
starts over, while the deadline and the signed comparison use all 32 bits.  `firesOnTime_iff` says
for which calls the reboot comes at the right poll, and `polls_past_wrap` what becomes of the others.
-/

namespace IoEdgeHub

open Clock Run

/-- `embassy_time::TICK_HZ` -/
def tickHz : UInt32 := 1000000

/-- `now_ms` -/
def nowMs (ticks : ℕ) : UInt32 := low32Ms tickHz ticks

/-- The value stored in `DEADLINE_MS`. -/
def scheduleDelayedMs (ticks : ℕ) (ms : UInt32) : UInt32 := nowMs ticks + ms

/-- `cold` -/
def cold (ticks : ℕ) : UInt32 := scheduleDelayedMs ticks 100

/-- `graceful` -/
def graceful (ticks : ℕ) : UInt32 := scheduleDelayedMs ticks 3000

/-- One poll: the deadline it leaves, and whether the reboot is due. -/
def due (deadlineMs : UInt32) (ticks : ℕ) : UInt32 × Bool :=
  if deadlineMs = 0 then (deadlineMs, false)
  else if nowMs ticks - deadlineMs < 0x80000000 then (0, true)
  else (deadlineMs, false)

/-- The answers to polls at the given tick counts. -/
def polls (deadlineMs : UInt32) : List ℕ → List Bool
  | [] => []
  | t :: ts => (due deadlineMs t).2 :: polls (due deadlineMs t).1 ts

/-- The true uptime in whole milliseconds. -/
def uptimeMs (ticks : ℕ) : ℕ := ticks / 1000

/-- Polls after `t0`, each at most one second after the one before. -/
def Polled (t0 : ℕ) (ts : List ℕ) : Prop :=
  List.IsChain (fun p q => p ≤ q ∧ q ≤ p + 1000000) (t0 :: ts)

/-- Whatever the polls, the reboot is due once, at the first of them that has reached the
deadline. -/
def FiresOnTime (t0 : ℕ) (ms : UInt32) : Prop :=
  ∀ ts, Polled t0 ts → polls (scheduleDelayedMs t0 ms) ts =
    once (fun t => decide (uptimeMs t0 + ms.toNat ≤ uptimeMs t)) ts

/-! ## The deadline as a one-shot timer -/

theorem toNat_nowMs (ticks : ℕ) : (nowMs ticks).toNat = ticks % 2 ^ 32 / 1000 :=
  toNat_low32Ms tickHz ticks

theorem nowMs_le (ticks : ℕ) : (nowMs ticks).toNat ≤ 4294967 := by
  rw [toNat_nowMs]
  omega

theorem toNat_scheduleDelayedMs (t0 : ℕ) {ms : UInt32} (short : ms ≤ 3000) :
    (scheduleDelayedMs t0 ms).toNat = t0 % 2 ^ 32 / 1000 + ms.toNat := by
  have clock := nowMs_le t0
  have delay : ms.toNat ≤ 3000 := short
  rw [scheduleDelayedMs, UInt32.toNat_add, Nat.mod_eq_of_lt (by omega), toNat_nowMs]

theorem polls_none (ts : List ℕ) : polls 0 ts = ts.map fun _ => false := by
  induction ts with
  | nil => rfl
  | cons t ts ih => rw [polls, show due 0 t = (0, false) from rfl, ih]; rfl

theorem due_eq {d : UInt32} (set : d ≠ 0) (small : d.toNat < 2 ^ 31) (t : ℕ) :
    due d t = if d.toNat ≤ (nowMs t).toNat then (0, true) else (d, false) := by
  have clock := nowMs_le t
  have reached := sub_lt_half_iff (a := nowMs t) (by omega) small
  rw [due, if_neg set]
  simp only [reached]

theorem polls_eq_once {d : UInt32} (set : d ≠ 0) (small : d.toNat < 2 ^ 31) (ts : List ℕ) :
    polls d ts = once (fun t => decide (d.toNat ≤ (nowMs t).toNat)) ts := by
  induction ts with
  | nil => rfl
  | cons t ts ih =>
    rw [polls, due_eq set small, once]
    by_cases reached : d.toNat ≤ (nowMs t).toNat
    · simp [reached, polls_none]
    · simp [reached, ih]

/-- A deadline beyond the largest value of the clock is never due. -/
theorem polls_past_wrap {d : UInt32} (beyond : 4294967 < d.toNat) (small : d.toNat < 2 ^ 31)
    (ts : List ℕ) : polls d ts = ts.map fun _ => false := by
  have set : d ≠ 0 := by
    rintro rfl
    exact absurd beyond (by decide)
  induction ts with
  | nil => rfl
  | cons t ts ih =>
    have clock := nowMs_le t
    rw [polls, due_eq set small, if_neg (by omega), List.map_cons, ih]

/-! ## Which polls there can be -/

/-- A poll on every tick for a while, then one within a second. -/
theorem polled_climb {t n p : ℕ} (lo : t + n ≤ p) (hi : p ≤ t + n + 1000000) :
    Polled t (List.range' (t + 1) n ++ [p]) := by
  induction n generalizing t with
  | zero => exact .cons_cons ⟨lo, hi⟩ (.singleton p)
  | succ n ih =>
    rw [List.range'_succ, List.cons_append]
    exact .cons_cons ⟨by omega, by omega⟩ (ih (by omega) (by omega))

/-- A poll comes within a second of some earlier one, or of `t0`. -/
theorem Polled.within {t0 p : ℕ} {before after : List ℕ} (polled : Polled t0 (before ++ p :: after)) :
    t0 ≤ p ∧ ∃ q ∈ t0 :: before, p ≤ q + 1000000 := by
  induction before generalizing t0 with
  | nil =>
    obtain ⟨⟨lo, hi⟩, -⟩ := List.isChain_cons_cons.1 polled
    exact ⟨lo, t0, List.mem_cons_self, hi⟩
  | cons b before ih =>
    obtain ⟨⟨lo, -⟩, rest⟩ := List.isChain_cons_cons.1 polled
    obtain ⟨above, q, mem, near⟩ := ih rest
    exact ⟨by omega, q, List.mem_cons_of_mem _ mem, near⟩

/-- The clock has reached the deadline set at `t0` exactly when the uptime has, at every tick at
which the first poll past the deadline can come. -/
def Agrees (t0 ms : ℕ) : Prop :=
  ∀ p, t0 ≤ p → p < 1000 * (uptimeMs t0 + ms) + 1000000 →
    (t0 % 2 ^ 32 / 1000 + ms ≤ p % 2 ^ 32 / 1000 ↔ uptimeMs t0 + ms ≤ uptimeMs p)

section Delay

variable {t0 : ℕ} {ms : UInt32}

theorem polls_scheduled (pos : 0 < ms) (short : ms ≤ 3000) (ts : List ℕ) :
    polls (scheduleDelayedMs t0 ms) ts =
      once (fun t => decide (t0 % 2 ^ 32 / 1000 + ms.toNat ≤ t % 2 ^ 32 / 1000)) ts := by
  have deadline := toNat_scheduleDelayedMs t0 short
  have some : 0 < ms.toNat := pos
  have few : ms.toNat ≤ 3000 := short
  have set : scheduleDelayedMs t0 ms ≠ 0 := by
    intro zero
    rw [zero] at deadline
    have : (0 : UInt32).toNat = 0 := rfl
    omega
  rw [polls_eq_once set (by omega)]
  simp only [deadline, toNat_nowMs]

theorem firesOnTime_of_agrees (pos : 0 < ms) (short : ms ≤ 3000) (agrees : Agrees t0 ms.toNat) :
    FiresOnTime t0 ms := by
  intro ts polled
  have some : 0 < ms.toNat := pos
  rw [polls_scheduled pos short, once_eq_iff]
  rintro before p after rfl unreached
  obtain ⟨above, q, mem, near⟩ := Polled.within polled
  have early : uptimeMs q < uptimeMs t0 + ms.toNat := by
    rcases List.mem_cons.1 mem with rfl | mem
    · omega
    · exact Nat.lt_of_not_le (of_decide_eq_false (unreached q mem))
  have bound : p < 1000 * (uptimeMs t0 + ms.toNat) + 1000000 := by
    simp only [uptimeMs] at early ⊢
    omega
  exact decide_eq_decide.2 (agrees p above bound)

theorem agrees_of_firesOnTime (pos : 0 < ms) (short : ms ≤ 3000) (fires : FiresOnTime t0 ms) :
    Agrees t0 ms.toNat := by
  intro p above near
  have some : 0 < ms.toNat := pos
  -- polls on every tick up to `p`, or up to the last tick before the deadline
  obtain ⟨n, last⟩ : ∃ n, t0 + n = min p (1000 * (uptimeMs t0 + ms.toNat) - 1) :=
    ⟨min p (1000 * (uptimeMs t0 + ms.toNat) - 1) - t0, by simp only [uptimeMs]; omega⟩
  have same := fires _ (polled_climb (t := t0) (n := n) (p := p) (by omega) (by omega))
  rw [polls_scheduled pos short, once_eq_iff] at same
  apply decide_eq_decide.1
  apply same _ p [] rfl
  intro q mem
  have := (List.mem_range'_1.1 mem).2
  apply decide_eq_false
  simp only [uptimeMs] at *
  omega

end Delay

/-- A whole millisecond that is also one within its stretch: the stretch starts at one. -/
theorem stretch_whole {k q : ℕ} (here : 1000 * k / 2 ^ 32 = q)
    (whole : 1000 * k % 2 ^ 32 % 1000 = 0) : q % 125 = 0 := by
  have split : 2 ^ 32 * q + 1000 * k % 2 ^ 32 = 1000 * k := here ▸ Nat.div_add_mod (1000 * k) (2 ^ 32)
  have thousand : 1000 ∣ 2 ^ 32 * q := by
    apply (Nat.dvd_add_iff_left (Nat.dvd_of_mod_eq_zero whole)).2
    rw [split]
    exact Nat.dvd_mul_right 1000 k
  have coprime : Nat.Coprime 125 (2 ^ 32) := by decide
  apply Nat.mod_eq_zero_of_dvd
  apply coprime.dvd_of_dvd_mul_left
  exact Nat.dvd_trans (by decide) thousand

/-- In the stretch of the tick counter that `t0` lies in the clock keeps step with the uptime when
the stretch starts at a whole millisecond, which one in 125 does. -/
theorem agrees_iff {t0 ms : ℕ} (pos : 0 < ms) (short : ms ≤ 3000) :
    Agrees t0 ms ↔ t0 / 2 ^ 32 % 125 = 0 ∧
      1000 * (uptimeMs t0 + ms) + 1000000 ≤ (t0 / 2 ^ 32 + 1) * 2 ^ 32 := by
  simp only [Agrees, uptimeMs]
  constructor
  · intro agrees
    -- at the latest of these polls the counter must not have wrapped
    have late := agrees (1000 * (t0 / 1000 + ms) + 999999) (by omega) (by omega)
    have fits : 1000 * (t0 / 1000 + ms) + 1000000 ≤ (t0 / 2 ^ 32 + 1) * 2 ^ 32 := by
      by_contra wrapped
      have next : (1000 * (t0 / 1000 + ms) + 999999) / 2 ^ 32 = t0 / 2 ^ 32 + 1 := by omega
      omega
    clear late
    -- so around the deadline the clock changes exactly where the uptime does
    have here : 1000 * (t0 / 1000 + ms) / 2 ^ 32 = t0 / 2 ^ 32 := by omega
    have step : 1000 * (t0 / 1000 + ms) % 2 ^ 32 = (1000 * (t0 / 1000 + ms) - 1) % 2 ^ 32 + 1 := by
      omega
    have crossed := (agrees (1000 * (t0 / 1000 + ms)) (by omega) (by omega)).2 (by omega)
    have not_yet := mt (agrees (1000 * (t0 / 1000 + ms) - 1) (by omega) (by omega)).1 (by omega)
    have whole : 1000 * (t0 / 1000 + ms) % 2 ^ 32 % 1000 = 0 := by omega
    exact ⟨stretch_whole here whole, fits⟩
  · rintro ⟨phase, fits⟩ p above near
    have here : p / 2 ^ 32 = t0 / 2 ^ 32 := by omega
    omega

/-- A reboot scheduled at `t0` is due exactly once, at the first poll that has reached the deadline,
if and only if `t0` lies in a stretch of the tick counter that starts at a whole millisecond and the
deadline leaves a second before the end of that stretch. -/
theorem firesOnTime_iff (t0 : ℕ) (ms : UInt32) (pos : 0 < ms) (short : ms ≤ 3000) :
    FiresOnTime t0 ms ↔ t0 / 2 ^ 32 % 125 = 0 ∧
      1000 * (uptimeMs t0 + ms.toNat) + 1000000 ≤ (t0 / 2 ^ 32 + 1) * 2 ^ 32 := by
  have delay : 0 < ms.toNat ∧ ms.toNat ≤ 3000 := ⟨pos, short⟩
  rw [← agrees_iff delay.1 delay.2]
  exact ⟨agrees_of_firesOnTime pos short, firesOnTime_of_agrees pos short⟩

theorem firesOnTime_hour : FiresOnTime 3600000000 3000 :=
  (firesOnTime_iff 3600000000 3000 (by decide) (by decide)).2 (by decide)

/-- A graceful reboot ordered 4294 s after boot, polled every second for a minute: no poll is told
that it is due. -/
theorem graceful_missed :
    let ts := List.range' 4295000000 60 1000000
    Polled 4294000000 ts ∧ uptimeMs 4294000000 + 3000 ≤ uptimeMs 4297000000 ∧ 4297000000 ∈ ts ∧
      polls (graceful 4294000000) ts = List.replicate 60 false ∧ ¬FiresOnTime 4294000000 3000 := by
  intro ts
  have polled : Polled 4294000000 ts := by
    unfold Polled
    decide +kernel
  have missed : polls (graceful 4294000000) ts = List.replicate 60 false := by decide +kernel
  refine ⟨polled, by decide, by decide +kernel, missed, fun fires => ?_⟩
  have answers := (fires ts polled).symm.trans missed
  exact absurd answers (by decide +kernel)

end IoEdgeHub
