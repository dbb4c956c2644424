import Mathlib.Data.Nat.Notation
import Mathlib.Tactic.Common

/-!
# Concatenations of frames

`enc` writes a frame as bytes and `total` reads the length of a frame from its first bytes.  Where
the two belong together (`Delimits`), a concatenation of whole frames can only be cut in one way: a
string is made of whole frames behind such a concatenation exactly if it is one itself.
-/

namespace Framing

variable {α β : Type*} {enc : β → List α} {total : List α → Option ℕ}

/-- The bytes are some frames, one after the other. -/
def Whole (enc : β → List α) (bytes : List α) : Prop := ∃ frames : List β, bytes = frames.flatMap enc

theorem whole_nil : Whole enc [] := ⟨[], rfl⟩

theorem Whole.snoc {bytes : List α} (whole : Whole enc bytes) (f : β) : Whole enc (bytes ++ enc f) := by
  obtain ⟨frames, rfl⟩ := whole
  exact ⟨frames ++ [f], by simp⟩

/-- The length of a frame can be read from the bytes it stands at the front of. -/
structure Delimits (enc : β → List α) (total : List α → Option ℕ) : Prop where
  nonempty : ∀ f, enc f ≠ []
  reads : ∀ f rest, total (enc f ++ rest) = some (enc f).length

variable (delimits : Delimits enc total)

include delimits

/-- The frame at the front of whole frames is there completely. -/
theorem Delimits.complete {bytes : List α} (whole : Whole enc bytes) (some_bytes : bytes ≠ []) :
    ∃ n, total bytes = some n ∧ n ≤ bytes.length ∧ Whole enc (bytes.drop n) := by
  obtain ⟨frames, rfl⟩ := whole
  cases frames with
  | nil => exact absurd rfl some_bytes
  | cons f frames =>
    rw [List.flatMap_cons]
    exact ⟨_, delimits.reads f _, by simp, frames, List.drop_left⟩

theorem Delimits.whole_tail {f : β} {rest : List α} (whole : Whole enc (enc f ++ rest)) : Whole enc rest := by
  have some_bytes : enc f ++ rest ≠ [] := by simp [delimits.nonempty f]
  obtain ⟨n, read, -, tail⟩ := delimits.complete whole some_bytes
  rw [delimits.reads] at read
  cases read
  rwa [List.drop_left] at tail

theorem Delimits.whole_right {front rest : List α} (whole : Whole enc front) (all : Whole enc (front ++ rest)) :
    Whole enc rest := by
  obtain ⟨frames, rfl⟩ := whole
  induction frames with
  | nil => exact all
  | cons f frames ih =>
    rw [List.flatMap_cons, List.append_assoc] at all
    exact ih (delimits.whole_tail all)

end Framing
