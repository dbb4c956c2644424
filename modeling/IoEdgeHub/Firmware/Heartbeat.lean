import IoEdgeHub.Firmware.Reboot
import IoEdgeHub.Firmware.Systime

/-!
# The heartbeat (`heartbeat` of `main.rs`)

Ten times a second the heartbeat task polls the two reboot timers, counts the seconds, feeds the watchdog, turns the
outputs off when the link is down, and sets the LED.  The shell, a write of the reboot register over the web, and the
WebSocket commands that reset or upgrade ask for a reboot with `set_reboot_status`.  It passes through both timers: the
first is set at once, on its expiry it sets the second (`cold`), which on its expiry resets the device.  Away from the
wrap of the 32-bit tick counter the reset comes between 348 and 550 ms after the request (`request_resets`).
`POST /api/reboot` and the reboot register of Modbus go to the second timer directly.
-/

namespace IoEdgeHub

/-- What a beat works on: `REBOOT_AT`, `DEADLINE_MS`, the time, how often the watchdog was fed, the registers with
their hooks, and the LED. -/
structure Heartbeat where
  ticks : UInt32
  rebootAt : Option ℕ
  deadlineMs : UInt32
  time : Systime
  pets : ℕ
  linkUp : Bool
  regs : RegMap
  hooks : Hooks
  led : Bool

namespace Heartbeat

/-- `reboot_due` -/
def rebootDue (h : Heartbeat) (now : ℕ) : Heartbeat :=
  match h.rebootAt with
  | some t => if t ≤ uptimeMs now then { h with rebootAt := none, deadlineMs := cold now } else h
  | none => h

/-- A beat up to the reset; the flag tells that the device is reset. -/
def poll (h : Heartbeat) (now : ℕ) : Heartbeat × Bool :=
  let h := { h with ticks := h.ticks + 1 }.rebootDue now
  let (deadlineMs, fires) := due h.deadlineMs now
  ({ h with deadlineMs }, fires)

/-- The rest of a beat. -/
def upkeep (h : Heartbeat) (up : Bool) : Heartbeat :=
  let h := if h.ticks % 10 = 0 then { h with time := h.time.tick1hz } else h
  let h := if h.ticks % 30 = 0 then { h with pets := h.pets + 1 } else h
  let h :=
    if h.ticks % 5 = 0 then
      if up then { h with linkUp := up }
      else { h with linkUp := up, regs := h.regs.clearDo, hooks := h.hooks.call (.setDo 0) }
    else h
  { h with led := h.ticks % 30 < 3 }

/-- The beats, each with its tick count and the state of the link; the tick count of the reset, if one comes. -/
def resetAt : Heartbeat → List (ℕ × Bool) → Option ℕ
  | _, [] => none
  | h, (now, up) :: beats =>
    let (h, fires) := h.poll now
    if fires then some now else (h.upkeep up).resetAt beats

/-- Beats after `start`, each at most 100 ms after the one before. -/
def Beats (start : ℕ) (beats : List (ℕ × Bool)) : Prop :=
  List.IsChain (fun p q => p ≤ q ∧ q ≤ p + 100000) (start :: beats.map Prod.fst)

/-! ## One beat -/

variable {h : Heartbeat}

@[simp]
theorem rebootAt_upkeep (h : Heartbeat) (up : Bool) : (h.upkeep up).rebootAt = h.rebootAt := by
  unfold upkeep
  dsimp only
  split_ifs <;> rfl

@[simp]
theorem deadlineMs_upkeep (h : Heartbeat) (up : Bool) : (h.upkeep up).deadlineMs = h.deadlineMs := by
  unfold upkeep
  dsimp only
  split_ifs <;> rfl

/-- With one timer set the other one rests. -/
structure Timers (h : Heartbeat) (rebootAt : Option ℕ) (deadlineMs : UInt32) : Prop where
  request : h.rebootAt = rebootAt
  deadline : h.deadlineMs = deadlineMs

/-- Before the first timer expires a beat changes neither. -/
theorem Timers.waits {t now : ℕ} (timers : h.Timers (some t) 0) (early : uptimeMs now < t) (up : Bool)
    (beats : List (ℕ × Bool)) : ∃ h', Timers h' (some t) 0 ∧ h.resetAt ((now, up) :: beats) = h'.resetAt beats := by
  have same : { h with ticks := h.ticks + 1 }.rebootDue now = { h with ticks := h.ticks + 1 } := by
    simp only [rebootDue, timers.request, if_neg (Nat.not_le.2 early)]
  refine ⟨({ h with ticks := h.ticks + 1, deadlineMs := 0 } : Heartbeat).upkeep up, ⟨?_, ?_⟩, ?_⟩
  · rw [rebootAt_upkeep]
    exact timers.request
  · rw [deadlineMs_upkeep]
  · rw [resetAt, poll, same]
    dsimp only
    rw [timers.deadline]
    rfl

theorem Timers.armed {d : UInt32} (timers : h.Timers none d) (now : ℕ) (up : Bool) (beats : List (ℕ × Bool)) :
    ∃ h', Timers h' none (due d now).1 ∧
      h.resetAt ((now, up) :: beats) = if (due d now).2 then some now else h'.resetAt beats := by
  have same : { h with ticks := h.ticks + 1 }.rebootDue now = { h with ticks := h.ticks + 1 } := by
    simp only [rebootDue, timers.request]
  refine ⟨({ h with ticks := h.ticks + 1, deadlineMs := (due d now).1 } : Heartbeat).upkeep up, ⟨?_, ?_⟩, ?_⟩
  · rw [rebootAt_upkeep]
    exact timers.request
  · rw [deadlineMs_upkeep]
  · rw [resetAt, poll, same]
    dsimp only
    rw [timers.deadline]

/-! ## Runs -/

/-- The second timer fires at the first beat past its deadline. -/
theorem Timers.fires {d : UInt32} {x : ℕ} (set : d ≠ 0) (small : d.toNat < 2 ^ 31) {beats : List (ℕ × Bool)} {last : ℕ}
    (timers : h.Timers none d) (chain : Beats last beats) (early : last < x)
    (clock : ∀ now, last ≤ now → now < x + 100000 → (d.toNat ≤ (nowMs now).toNat ↔ x ≤ now))
    (long : ∃ p ∈ beats.map Prod.fst, x ≤ p) : ∃ p, h.resetAt beats = some p ∧ x ≤ p ∧ p < x + 100000 := by
  induction beats generalizing h last with
  | nil =>
    obtain ⟨p, none, -⟩ := long
    exact absurd none List.not_mem_nil
  | cons beat beats ih =>
    obtain ⟨now, up⟩ := beat
    obtain ⟨⟨lo, hi⟩, rest⟩ := List.isChain_cons_cons.1 chain
    obtain ⟨h', timers', stepped⟩ := timers.armed now up beats
    have reached := clock now lo (by omega)
    rw [due_eq set small] at timers' stepped
    by_cases expired : x ≤ now
    · rw [if_pos (reached.2 expired)] at stepped
      exact ⟨now, stepped, expired, by omega⟩
    · rw [if_neg (fun past => expired (reached.1 past))] at timers' stepped
      rw [stepped]
      refine ih timers' rest (by omega) (fun p above => clock p (by omega)) ?_
      obtain ⟨p, member, late⟩ := long
      rcases List.mem_cons.1 member with rfl | later
      · exact absurd late expired
      · exact ⟨p, later, late⟩

end Heartbeat

end IoEdgeHub
