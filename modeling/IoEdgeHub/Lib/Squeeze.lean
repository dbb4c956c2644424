import Mathlib.Data.Nat.Notation
import Mathlib.Tactic.Common

/-!
# Dropping a symbol before another one

`dropBefore a b` drops every `a` that stands directly before a `b`. A list may be cut anywhere but
between such a pair (`dropBefore_append`).
-/

namespace Squeeze

variable {α : Type*} [DecidableEq α] {a b : α}

/-- Drop every `a` that stands directly before a `b`. -/
def dropBefore (a b : α) : List α → List α
  | [] => []
  | x :: xs => if x = a ∧ xs.head? = some b then dropBefore a b xs else x :: dropBefore a b xs

/-- Different parts of a list are done separately unless the cut is between `a` and `b`. -/
theorem dropBefore_append {xs ys : List α} (uncut : xs.getLast? ≠ some a ∨ ys.head? ≠ some b) :
    dropBefore a b (xs ++ ys) = dropBefore a b xs ++ dropBefore a b ys := by
  induction xs with
  | nil => rfl
  | cons x xs ih =>
    rw [List.cons_append, dropBefore, dropBefore]
    cases xs with
    | nil =>
      have kept : ¬ (x = a ∧ ys.head? = some b) := by
        rintro ⟨rfl, pair⟩
        rcases uncut with last | next
        · exact last rfl
        · exact next pair
      simp [kept, dropBefore]
    | cons y xs =>
      rw [ih (by rwa [List.getLast?_cons_cons] at uncut)]
      by_cases pair : x = a ∧ y = b <;> simp [pair]

theorem dropBefore_concat (different : a ≠ b) (xs : List α) :
    dropBefore a b (xs ++ [a]) = dropBefore a b xs ++ [a] := by
  rw [dropBefore_append (.inr (by simpa using different))]
  simp [dropBefore]

end Squeeze
