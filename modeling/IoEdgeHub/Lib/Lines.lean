import Mathlib.Data.List.Basic
import Mathlib.Data.Nat.Notation
import Mathlib.Tactic.Common

/-!
# Lines of a stream

A stream of items some of which end a line.  `cut` takes the first line off a buffer, `split` all of them.  What is
left over behind the last line is the beginning of the next one, so a stream may be split piece by piece
(`split_append`).
-/

namespace Lines

variable {α : Type*} (ends : α → Bool)

/-- The first line without its end, and what is behind it. -/
def cut : List α → Option (List α × List α)
  | [] => none
  | a :: as => if ends a then some ([], as) else (cut as).map fun p => (a :: p.1, p.2)

/-- One more item in front of the first line. -/
def prepend (a : α) : List (List α) × List α → List (List α) × List α
  | ([], tail) => ([], a :: tail)
  | (l :: ls, tail) => ((a :: l) :: ls, tail)

/-- All lines that have ended, and what is left over. -/
def split : List α → List (List α) × List α
  | [] => ([], [])
  | a :: as => if ends a then ([] :: (split as).1, (split as).2) else prepend a (split as)

variable {ends}

theorem split_end {a : α} (isEnd : ends a = true) (as : List α) :
    split ends (a :: as) = ([] :: (split ends as).1, (split ends as).2) :=
  if_pos isEnd

theorem split_item {a : α} (item : ¬ends a = true) (as : List α) : split ends (a :: as) = prepend a (split ends as) :=
  if_neg item

theorem cut_eq_none {buf : List α} (none_ends : cut ends buf = none) : split ends buf = ([], buf) := by
  induction buf with
  | nil => rfl
  | cons a buf ih =>
    by_cases isEnd : ends a = true
    · rw [cut, if_pos isEnd] at none_ends
      cases none_ends
    · rw [cut, if_neg isEnd, Option.map_eq_none_iff] at none_ends
      rw [split_item isEnd, ih none_ends, prepend]

theorem cut_eq_append {buf first rest : List α} (found : cut ends buf = some (first, rest)) :
    ∃ e, ends e = true ∧ buf = first ++ e :: rest := by
  induction buf generalizing first with
  | nil => cases found
  | cons a buf ih =>
    by_cases isEnd : ends a = true
    · rw [cut, if_pos isEnd] at found
      cases found
      exact ⟨a, isEnd, rfl⟩
    · rw [cut, if_neg isEnd] at found
      obtain ⟨⟨first', rest'⟩, found', same⟩ := Option.map_eq_some_iff.1 found
      cases same
      obtain ⟨e, isEnd', rfl⟩ := ih found'
      exact ⟨e, isEnd', rfl⟩

theorem cut_eq_some {buf first rest : List α} (found : cut ends buf = some (first, rest)) :
    split ends buf = (first :: (split ends rest).1, (split ends rest).2) := by
  induction buf generalizing first with
  | nil => cases found
  | cons a buf ih =>
    by_cases isEnd : ends a = true
    · rw [cut, if_pos isEnd] at found
      cases found
      exact split_end isEnd rest
    · rw [cut, if_neg isEnd] at found
      obtain ⟨⟨first', rest'⟩, found', same⟩ := Option.map_eq_some_iff.1 found
      cases same
      rw [split_item isEnd, ih found', prepend]

theorem length_cut {buf first rest : List α} (found : cut ends buf = some (first, rest)) :
    buf.length = first.length + 1 + rest.length := by
  obtain ⟨e, -, rfl⟩ := cut_eq_append found
  rw [List.length_append, List.length_cons]
  omega

theorem split_tail_subset (xs : List α) : (split ends xs).2 ⊆ xs := by
  induction xs with
  | nil => exact List.Subset.refl []
  | cons x xs ih =>
    by_cases isEnd : ends x = true
    · rw [split_end isEnd]
      exact List.Subset.trans ih (List.subset_cons_self x xs)
    · rw [split_item isEnd]
      generalize split ends xs = rest at ih
      obtain ⟨_ | ⟨l, ls⟩, tail⟩ := rest
      · exact List.cons_subset_cons x ih
      · exact List.Subset.trans ih (List.subset_cons_self x xs)

theorem split_append (xs ys : List α) :
    split ends (xs ++ ys) = ((split ends xs).1 ++ (split ends ((split ends xs).2 ++ ys)).1,
      (split ends ((split ends xs).2 ++ ys)).2) := by
  induction xs with
  | nil => rfl
  | cons x xs ih =>
    rw [List.cons_append]
    by_cases isEnd : ends x = true
    · rw [split_end isEnd, split_end isEnd, ih]
      rfl
    · rw [split_item isEnd, split_item isEnd, ih]
      rcases split ends xs with ⟨_ | ⟨l, ls⟩, tail⟩
      · rw [prepend, List.cons_append, split_item isEnd, List.nil_append, List.nil_append]
      · rfl

end Lines
