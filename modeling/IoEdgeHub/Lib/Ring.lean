import Mathlib.Data.List.Destutter
import Mathlib.Data.Nat.Notation
import Mathlib.Tactic.Common

/-!
# A ring of slots and the list of its newest elements

The newest element is in the slot `newest` and each older one in the slot before, around the ring.
`Shows` relates the slots to the list of elements, newest first, and `Shows.push` says that writing the
slot after the newest one puts an element in front of the list and drops what the ring cannot hold.
-/

namespace Ring

variable {α : Type*}

/-- The slot of the `k`-th newest element. -/
def slot (n newest k : ℕ) : ℕ := (newest + n - k) % n

/-- The slots hold the elements of `kept`, newest first. -/
structure Shows (n : ℕ) (slots : ℕ → α) (newest : ℕ) (kept : List α) : Prop where
  few : kept.length ≤ n
  held : ∀ k < kept.length, kept[k]? = some (slots (slot n newest k))

theorem shows_nil (n : ℕ) (slots : ℕ → α) (newest : ℕ) : Shows n slots newest [] :=
  ⟨Nat.zero_le n, nofun⟩

theorem slot_zero {n newest : ℕ} (inside : newest < n) : slot n newest 0 = newest := by
  rw [slot, Nat.sub_zero, Nat.add_mod_right, Nat.mod_eq_of_lt inside]

theorem slot_succ {n newest k : ℕ} (inside : newest < n) (older : k + 1 < n) :
    slot n ((newest + 1) % n) (k + 1) = slot n newest k := by
  unfold slot
  rcases Nat.lt_or_ge (newest + 1) n with next | wraps
  · rw [Nat.mod_eq_of_lt next, show newest + 1 + n - (k + 1) = newest + n - k by omega]
  · obtain rfl : n = newest + 1 := by omega
    rw [Nat.mod_self, show 0 + (newest + 1) - (k + 1) = newest - k by omega,
      show newest + (newest + 1) - k = newest - k + (newest + 1) by omega, Nat.add_mod_right]

/-- The slot that is written next holds none of the newest `n - 1` elements. -/
theorem slot_ne {n newest k : ℕ} (inside : newest < n) (older : k + 1 < n) : slot n newest k ≠ (newest + 1) % n := by
  unfold slot
  intro same
  rcases Nat.lt_or_ge (newest + 1) n with next | wraps
  · rw [Nat.mod_eq_of_lt next] at same
    rcases Nat.lt_or_ge newest k with wrapped | direct
    · rw [Nat.mod_eq_of_lt (by omega)] at same
      omega
    · rw [show newest + n - k = newest - k + n by omega, Nat.add_mod_right, Nat.mod_eq_of_lt (by omega)] at same
      omega
  · obtain rfl : n = newest + 1 := by omega
    rw [Nat.mod_self, show newest + (newest + 1) - k = newest - k + (newest + 1) by omega, Nat.add_mod_right,
      Nat.mod_eq_of_lt (by omega)] at same
    omega

/-- A new element in the slot after the newest one. -/
theorem Shows.push {n newest : ℕ} {slots slots' : ℕ → α} {kept : List α} (shows : Shows n slots newest kept)
    (inside : newest < n) (a : α) (written : slots' ((newest + 1) % n) = a)
    (others : ∀ i, i ≠ (newest + 1) % n → slots' i = slots i) :
    Shows n slots' ((newest + 1) % n) ((a :: kept).take n) where
  few := List.length_take_le n _
  held := by
    intro k within
    rw [List.length_take, List.length_cons] at within
    rw [List.getElem?_take_of_lt (by omega)]
    cases k with
    | zero =>
      rw [slot_zero (Nat.mod_lt _ (by omega)), written]
      rfl
    | succ k =>
      rw [List.getElem?_cons_succ, slot_succ inside (by omega), others _ (slot_ne inside (by omega))]
      exact shows.held k (by omega)

/-! ## Repeated elements -/

section Destutter

variable [DecidableEq α]

theorem destutter'_concat (b : α) (l : List α) (a : α) :
    (l ++ [a]).destutter' (· ≠ ·) b =
      if (l.destutter' (· ≠ ·) b).getLast? = some a then l.destutter' (· ≠ ·) b else l.destutter' (· ≠ ·) b ++ [a] := by
  induction l generalizing b with
  | nil =>
    rw [List.nil_append, List.destutter'_singleton, List.destutter'_nil, List.getLast?_singleton, ite_not]
    simp only [Option.some_inj, List.singleton_append]
  | cons c l ih =>
    rw [List.cons_append]
    by_cases same : b = c
    · rw [List.destutter'_cons_neg _ (not_not.2 same), List.destutter'_cons_neg _ (not_not.2 same), ih]
    · obtain ⟨d, rest, shape⟩ := List.exists_cons_of_ne_nil (List.destutter'_ne_nil (R := (· ≠ ·)) (a := c) l)
      rw [List.destutter'_cons_pos _ same, List.destutter'_cons_pos _ same, ih, shape, List.getLast?_cons_cons]
      split <;> rfl

/-- One more element: it is skipped if the last one kept is the same. -/
theorem destutter_concat (l : List α) (a : α) :
    (l ++ [a]).destutter (· ≠ ·) =
      if (l.destutter (· ≠ ·)).getLast? = some a then l.destutter (· ≠ ·) else l.destutter (· ≠ ·) ++ [a] := by
  cases l with
  | nil => rfl
  | cons b l => exact destutter'_concat b l a

/-- The newest `n` elements, newest first, without those that repeat the one before. -/
def recent (n : ℕ) (l : List α) : List α := (l.destutter (· ≠ ·)).reverse.take n

theorem recent_concat {n : ℕ} (pos : 0 < n) (l : List α) (a : α) :
    recent n (l ++ [a]) = if (recent n l).head? = some a then recent n l else (a :: recent n l).take n := by
  have newest : (recent n l).head? = (l.destutter (· ≠ ·)).getLast? := by
    rw [recent, List.head?_take, if_neg (by omega), List.head?_reverse]
  rw [newest, recent, destutter_concat]
  split
  · rfl
  · rw [List.reverse_append, List.reverse_singleton, List.singleton_append, recent]
    obtain ⟨n, rfl⟩ := Nat.exists_eq_add_of_lt pos
    simp [List.take_take]

end Destutter

end Ring
