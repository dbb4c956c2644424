import IoEdgeHub.Firmware.Reboot
import IoEdgeHub.Proto.UdpCfg

/-!
# The two-step factory reset

Runs of UDP commands under the clock of `net.rs`.  `factory_reset` compares this truncated clock with
the time of the last command it only recorded, which is 0 after boot and is never cleared.  So an erase
is confirmed by an earlier command exactly if the clock takes for recent only what is; while the tick
counter is in its first 2 ^ 32 ticks the clock is the uptime, and it does (`erase_confirmed`).  When the
counter starts over, the time 0 of a state that never saw a command is recent again (`erase_after_wrap`).
-/

namespace IoEdgeHub

open Clock Run

/-- The milliseconds of `net.rs`: the tick count is cut to 32 bits before it is divided. -/
def nowMs32 (ticks : ℕ) : UInt32 := low32Ms tickHz ticks

/-- A UDP command and the tick count at which it is handled. -/
structure UdpCall where
  ticks : ℕ
  cmd : UInt8
  data : List UInt8
  deriving DecidableEq, Repr

namespace UdpApp

/-- The state after boot. -/
def start (regs : RegMap) (hooks : Hooks) : UdpApp := ⟨regs, hooks, 0, .new⟩

/-- One command, with the reply buffer of `udp_task`. -/
def step (ver : UdpVersion) (accepts : UInt32 → Bool) (a : UdpApp) (c : UdpCall) : Option UdpApp :=
  (a.udpAppCmd ver accepts c.cmd c.data (List.replicate 64 0) (nowMs32 c.ticks)).map Prod.fst

/-! ## What a command can do to the pending reset -/

/-- The part of the state that a factory reset goes by. -/
def resetState (a : UdpApp) : ℕ × UInt32 × Bool := (a.erases, a.st.factoryPendingMs, a.st.factoryConfirmed)

theorem resetState_eq_iff {a : UdpApp} {erases : ℕ} {pending : UInt32} {confirmed : Bool} :
    a.resetState = (erases, pending, confirmed) ↔
      a.erases = erases ∧ a.st.factoryPendingMs = pending ∧ a.st.factoryConfirmed = confirmed := by
  rw [resetState, Prod.mk.injEq, Prod.mk.injEq]

@[simp] theorem replyOk_fst (a : UdpApp) (reply : List UInt8) (cmd ok : UInt8) :
    (a.replyOk reply cmd ok).1 = a := by
  unfold replyOk
  split <;> rfl

theorem setIp_resetState (a : UdpApp) (reply data : List UInt8) :
    (a.setIp reply data).1.resetState = a.resetState := by
  unfold setIp
  split
  · split
    · rw [replyOk_fst]
      rfl
    · rw [replyOk_fst]
  · rw [replyOk_fst]

theorem setModbus_resetState (a : UdpApp) (reply data : List UInt8) :
    (a.setModbus reply data).1.resetState = a.resetState := by
  unfold setModbus
  split
  · rw [replyOk_fst]
    rfl
  · rw [replyOk_fst]

theorem setTime_resetState (accepts : UInt32 → Bool) (a : UdpApp) (reply data : List UInt8) :
    (a.setTime accepts reply data).1.resetState = a.resetState := by
  unfold setTime
  split
  · rw [replyOk_fst]
    rfl
  · rw [replyOk_fst]

section Queries

variable {a : UdpApp} {reply : List UInt8} {r : UdpReply}

theorem getIp_fst (ran : a.getIp reply = some r) : r.1 = a := by
  unfold getIp at ran
  split at ran
  · cases ran
    rfl
  · obtain ⟨_, _, ran⟩ := Option.bind_eq_some_iff.1 ran
    obtain ⟨_, _, ran⟩ := Option.bind_eq_some_iff.1 ran
    cases ran
    rfl

theorem getModbus_fst (ran : a.getModbus reply = some r) : r.1 = a := by
  unfold getModbus at ran
  split at ran
  · cases ran
    rfl
  · obtain ⟨_, _, ran⟩ := Option.bind_eq_some_iff.1 ran
    obtain ⟨_, _, ran⟩ := Option.bind_eq_some_iff.1 ran
    obtain ⟨_, _, ran⟩ := Option.bind_eq_some_iff.1 ran
    cases ran
    rfl

theorem getVersion_fst {ver : UdpVersion} (ran : a.getVersion ver reply = some r) : r.1 = a := by
  unfold getVersion at ran
  split at ran
  · cases ran
    rfl
  · obtain ⟨_, _, ran⟩ := Option.bind_eq_some_iff.1 ran
    obtain ⟨_, _, ran⟩ := Option.bind_eq_some_iff.1 ran
    cases ran
    rfl

end Queries

section Step

variable {ver : UdpVersion} {accepts : UInt32 → Bool} {a a' : UdpApp} {c : UdpCall}

/-- Only `FACTORY_RESET` touches the pending reset. -/
theorem step_cases (stepped : step ver accepts a c = some a') :
    (c.cmd = udpCmdFactoryReset ∧
      a' = (a.factoryReset (List.replicate 64 0) c.cmd (nowMs32 c.ticks)).1) ∨
    (c.cmd ≠ udpCmdFactoryReset ∧ a'.resetState = a.resetState) := by
  obtain ⟨r, ran, rfl⟩ := Option.map_eq_some_iff.1 stepped
  unfold udpAppCmd at ran
  split_ifs at ran with h₁ h₂ h₃ h₄ h₅ h₆ h₇ h₈
  · cases ran
    exact .inr ⟨by rw [h₁]; decide, setIp_resetState ..⟩
  · exact .inr ⟨by rw [h₂]; decide, by rw [getIp_fst ran]⟩
  · cases ran
    exact .inr ⟨by rw [h₃]; decide, setModbus_resetState ..⟩
  · exact .inr ⟨by rw [h₄]; decide, by rw [getModbus_fst ran]⟩
  · cases ran
    exact .inr ⟨by rw [h₅]; decide, setTime_resetState ..⟩
  · exact .inr ⟨by rw [h₆]; decide, by rw [getVersion_fst ran]⟩
  · cases ran
    exact .inr ⟨by rw [h₇]; decide, by rw [reboot, replyOk_fst]; rfl⟩
  · cases ran
    exact .inl ⟨h₈, rfl⟩
  · cases ran
    exact .inr ⟨h₈, rfl⟩

/-- A command that is not confirmed is recorded; one that erases came within 5 s of the recorded
time, as the clock tells it. -/
theorem factoryReset_cases (idle : a.st.factoryConfirmed = false) (reply : List UInt8) (cmd : UInt8)
    (now : UInt32) :
    (now - a.st.factoryPendingMs > 5000 ∧ (a.factoryReset reply cmd now).1.resetState = (a.erases, now, false)) ∨
    (now - a.st.factoryPendingMs ≤ 5000 ∧
      (a.factoryReset reply cmd now).1.resetState = (a.erases + 1, a.st.factoryPendingMs, false)) := by
  unfold factoryReset
  by_cases late : now - a.st.factoryPendingMs > 5000
  · rw [if_pos (by simp [idle, late]), replyOk_fst]
    exact .inl ⟨late, by rw [resetState, idle]⟩
  · rw [if_neg (by simp [late]), replyOk_fst]
    exact .inr ⟨UInt32.not_lt.1 late, rfl⟩

end Step

/-! ## Runs -/

/-- An earlier `FACTORY_RESET` at most 5000 ms of uptime before `c`. -/
def Confirmed (before : List UdpCall) (c : UdpCall) : Prop :=
  ∃ e ∈ before, e.cmd = udpCmdFactoryReset ∧ uptimeMs c.ticks ≤ uptimeMs e.ticks + 5000

/-- The time of the last `FACTORY_RESET` that is only recorded, as the clock tells it, and 0 before the first. -/
def recordedMs (calls : List UdpCall) : UInt32 :=
  calls.foldl (fun recorded c =>
    if c.cmd = udpCmdFactoryReset ∧ nowMs32 c.ticks - recorded > 5000 then nowMs32 c.ticks else recorded) 0

theorem recordedMs_snoc (calls : List UdpCall) (c : UdpCall) :
    recordedMs (calls ++ [c]) =
      if c.cmd = udpCmdFactoryReset ∧ nowMs32 c.ticks - recordedMs calls > 5000 then nowMs32 c.ticks
      else recordedMs calls := by
  simp [recordedMs]

/-- The recorded time is that of some earlier command. -/
theorem recordedMs_cases (calls : List UdpCall) :
    recordedMs calls = 0 ∨ ∃ e ∈ calls, e.cmd = udpCmdFactoryReset ∧ recordedMs calls = nowMs32 e.ticks := by
  induction calls using List.reverseRecOn with
  | nil => exact .inl rfl
  | append_singleton calls c ih =>
    rw [recordedMs_snoc]
    split_ifs with records
    · exact .inr ⟨c, by simp, records.1, rfl⟩
    · exact ih.imp_right fun ⟨e, mem, isReset, same⟩ => ⟨e, List.mem_append_left _ mem, isReset, same⟩

/-- The state holds the recorded time, and no command stands confirmed. -/
def Recorded (before : List UdpCall) (a : UdpApp) : Prop :=
  a.st.factoryConfirmed = false ∧ a.st.factoryPendingMs = recordedMs before

/-- What a step does to the recorded time, and when it erases. -/
theorem Recorded.step {ver : UdpVersion} {accepts : UInt32 → Bool} {before : List UdpCall}
    {a a' : UdpApp} {c : UdpCall} (recorded : Recorded before a) (stepped : step ver accepts a c = some a') :
    Recorded (before ++ [c]) a' ∧
      (a'.erases ≠ a.erases ↔ c.cmd = udpCmdFactoryReset ∧ nowMs32 c.ticks - recordedMs before ≤ 5000) := by
  obtain ⟨idle, since⟩ := recorded
  rw [Recorded, recordedMs_snoc]
  rcases step_cases stepped with ⟨isReset, rfl⟩ | ⟨other, kept⟩
  · rcases factoryReset_cases idle (List.replicate 64 0) c.cmd (nowMs32 c.ticks) with
      ⟨late, recorded⟩ | ⟨recent, erased⟩
    · obtain ⟨same, pending, idle'⟩ := resetState_eq_iff.1 recorded
      rw [since] at late
      rw [if_pos ⟨isReset, late⟩]
      exact ⟨⟨idle', pending⟩, iff_of_false (not_not.2 same) fun both => UInt32.not_lt.2 both.2 late⟩
    · obtain ⟨more, pending, idle'⟩ := resetState_eq_iff.1 erased
      rw [since] at recent
      rw [if_neg fun both => UInt32.not_lt.2 recent both.2]
      exact ⟨⟨idle', pending.trans since⟩, iff_of_true (by omega) ⟨isReset, recent⟩⟩
  · obtain ⟨same, pending, confirmed⟩ := resetState_eq_iff.1 kept
    rw [if_neg fun both => other both.1]
    exact ⟨⟨confirmed.trans idle, pending.trans since⟩, iff_of_false (not_not.2 same) fun both => other both.1⟩

theorem recorded_run {ver : UdpVersion} {accepts : UInt32 → Bool} {regs : RegMap} {hooks : Hooks}
    {calls : List UdpCall} {a : UdpApp}
    (ran : calls.foldlM (step ver accepts) (start regs hooks) = some a) : Recorded calls a :=
  always ⟨rfl, rfl⟩ (fun _ _ _ _ recorded stepped => (recorded.step stepped).1) ran

/-- In the first `2 ^ 32` ticks the clock is the uptime. -/
theorem toNat_nowMs32 {ticks : ℕ} (early : ticks < 2 ^ 32) : (nowMs32 ticks).toNat = uptimeMs ticks := by
  rw [nowMs32, toNat_low32Ms, Nat.mod_eq_of_lt early]
  rfl

/-- While the counter is in its first `2 ^ 32` ticks, what the clock takes for recent is. -/
theorem confirmed_early {before : List UdpCall} {c : UdpCall} (ordered : ∀ e ∈ before, e.ticks ≤ c.ticks)
    (early : ∀ e ∈ before, e.cmd = udpCmdFactoryReset → e.ticks < 2 ^ 32) (now : c.ticks < 2 ^ 32)
    (recent : nowMs32 c.ticks - recordedMs before ≤ 5000) : Confirmed before c ∨ uptimeMs c.ticks ≤ 5000 := by
  have clock := toNat_nowMs32 now
  have within : (nowMs32 c.ticks - recordedMs before).toNat ≤ 5000 := recent
  rcases recordedMs_cases before with zero | ⟨e, mem, isReset, same⟩
  · rw [zero, UInt32.sub_zero, clock] at within
    exact .inr within
  · have past := toNat_nowMs32 (early e mem isReset)
    have older : nowMs32 e.ticks ≤ nowMs32 c.ticks := by
      rw [UInt32.le_iff_toNat_le, clock, past]
      exact Nat.div_le_div_right (ordered e mem)
    rw [same, UInt32.toNat_sub_of_le _ _ older, clock, past] at within
    exact .inl ⟨e, mem, isReset, by omega⟩

/-- Every erase of a run is a factory reset preceded by another at most 5000 ms of uptime before, or on a device that is
up for at most 5000 ms. -/
def ErasesConfirmed (ver : UdpVersion) (accepts : UInt32 → Bool) (regs : RegMap) (hooks : Hooks)
    (calls : List UdpCall) : Prop :=
  Each (fun before c => ∀ a a', before.foldlM (step ver accepts) (start regs hooks) = some a →
    step ver accepts a c = some a' → a'.erases ≠ a.erases →
      c.cmd = udpCmdFactoryReset ∧ (Confirmed before c ∨ uptimeMs c.ticks ≤ 5000)) calls

/-- The erases of a run are confirmed exactly if every factory reset is that comes at most 5000 ms after the recorded
time on the truncated clock; and that is so if all of them come in the first `2 ^ 32` ticks. -/
theorem erase_confirmed (ver : UdpVersion) (accepts : UInt32 → Bool) (regs : RegMap) (hooks : Hooks)
    (calls : List UdpCall) (ordered : calls.Pairwise fun c d => c.ticks ≤ d.ticks) :
    (ErasesConfirmed ver accepts regs hooks calls ↔
      Each (fun before c => ∀ a a', before.foldlM (step ver accepts) (start regs hooks) = some a →
        step ver accepts a c = some a' → c.cmd = udpCmdFactoryReset →
          nowMs32 c.ticks - recordedMs before ≤ 5000 → Confirmed before c ∨ uptimeMs c.ticks ≤ 5000) calls) ∧
    ((∀ c ∈ calls, c.cmd = udpCmdFactoryReset → c.ticks < 2 ^ 32) → ErasesConfirmed ver accepts regs hooks calls) := by
  constructor
  · constructor
    · intro confirmed before c after split a a' ran stepped isReset recent
      have erased := ((recorded_run ran).step stepped).2.2 ⟨isReset, recent⟩
      exact (confirmed before c after split a a' ran stepped erased).2
    · intro recent before c after split a a' ran stepped erased
      obtain ⟨isReset, within⟩ := ((recorded_run ran).step stepped).2.1 erased
      exact ⟨isReset, recent before c after split a a' ran stepped isReset within⟩
  · rintro early before c after rfl a a' ran stepped erased
    obtain ⟨isReset, within⟩ := ((recorded_run ran).step stepped).2.1 erased
    refine ⟨isReset, confirmed_early ?_ (fun e mem => early e (by simp [mem])) (early c (by simp) isReset) within⟩
    exact fun e mem => (List.pairwise_append.1 ordered).2.2 e mem c (by simp)

/-- A command that only arms the reset, and the one three seconds later that confirms it. -/
theorem erase_confirmed_pair :
    let reset (ticks : ℕ) : UdpCall := ⟨ticks, udpCmdFactoryReset, []⟩
    let ver : UdpVersion := ⟨0, 3, 0, .replicate 6 0⟩
    ∃ a a', [reset 60000000].foldlM (step ver fun _ => true) (start (.new 1) ⟨[], 0⟩) = some a ∧
      step ver (fun _ => true) a (reset 63000000) = some a' ∧ a'.erases = 1 ∧
      Confirmed [reset 60000000] (reset 63000000) := by
  intro reset ver
  have ordered : [reset 60000000, reset 63000000].Pairwise fun c d => c.ticks ≤ d.ticks := by decide
  refine ⟨_, _, rfl, rfl, by decide, ?_⟩
  have all := (erase_confirmed ver (fun _ => true) (.new 1) ⟨[], 0⟩ _ ordered).2 (by decide)
  have confirmed := all [reset 60000000] (reset 63000000) [] rfl _ _ rfl rfl (by decide)
  exact confirmed.2.resolve_right (by decide)

/-- The first command a device ever gets erases when it comes as the tick counter starts over, after
4 294 967 ms. -/
theorem erase_after_wrap :
    let reset : UdpCall := ⟨4294967296, udpCmdFactoryReset, []⟩
    (step ⟨0, 3, 0, .replicate 6 0⟩ (fun _ => true) (start (.new 1) ⟨[], 0⟩) reset).map erases = some 1 ∧
      uptimeMs reset.ticks = 4294967 ∧ ¬Confirmed [] reset := by
  refine ⟨by decide, by decide, ?_⟩
  rintro ⟨e, mem, -⟩
  exact absurd mem (by simp)

end UdpApp

end IoEdgeHub
