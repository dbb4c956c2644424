import IoEdgeHub.Lib.Run
import Mathlib.Tactic.Ring

/-!
# Truncated clocks and one-shot timers

A clock that divides the low 32 bits of a longer tick counter wraps where the counter's low part
does, not at the end of its own type.  A one-shot timer answers true at the first poll with some
property and never again; `once_eq_iff` compares two of them poll by poll.
-/

namespace Clock

open Run

/-- Milliseconds read off the low 32 bits of a counter that runs at `hz`. -/
def low32Ms (hz : UInt32) (ticks : ℕ) : UInt32 := UInt32.ofNat ticks / (hz / 1000)

theorem toNat_low32Ms (hz : UInt32) (ticks : ℕ) :
    (low32Ms hz ticks).toNat = ticks % 2 ^ 32 / (hz.toNat / 1000) := by
  rw [low32Ms, UInt32.toNat_div, UInt32.toNat_ofNat', UInt32.toNat_div]
  rfl

/-- `a - b` in 32 bits, read as a signed distance, tells whether `b ≤ a` when both are below the
half range. -/
theorem sub_lt_half_iff {a b : UInt32} (ha : a.toNat < 2 ^ 31) (hb : b.toNat < 2 ^ 31) :
    a - b < 0x80000000 ↔ b.toNat ≤ a.toNat := by
  rw [UInt32.lt_iff_toNat_lt, UInt32.toNat_sub, show (0x80000000 : UInt32).toNat = 2 ^ 31 from rfl]
  omega

section Once

variable {α : Type*}

/-- The answers of a one-shot timer to the polls `xs`. -/
def once (P : α → Bool) : List α → List Bool
  | [] => []
  | x :: xs => if P x then true :: xs.map fun _ => false else false :: once P xs

/-- Two timers give the same answers when they agree at every poll up to the first at which the
second one fires. -/
theorem once_eq_iff {P Q : α → Bool} {xs : List α} :
    once P xs = once Q xs ↔ Each (fun before x => (∀ y ∈ before, Q y = false) → P x = Q x) xs := by
  induction xs with
  | nil => exact ⟨fun _ => each_nil, fun _ => rfl⟩
  | cons x xs ih =>
    rw [each_cons]
    cases fires : Q x with
    | true =>
      have rest : Each (fun before y => (∀ z ∈ x :: before, Q z = false) → P y = Q y) xs := by
        intro before y after _ none
        exact absurd (none x List.mem_cons_self) (by simp [fires])
      cases here : P x with
      | true => exact ⟨fun _ => ⟨fun _ => rfl, rest⟩, fun _ => by simp [once, fires, here]⟩
      | false => simp [once, fires, here]
    | false =>
      cases here : P x with
      | true => simp [once, fires, here]
      | false => simp [once, fires, here, ih]

end Once

end Clock
