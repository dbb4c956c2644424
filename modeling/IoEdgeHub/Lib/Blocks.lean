import Mathlib.Data.Nat.Notation
import Mathlib.Tactic.Common

/-!
# Folding a stream block by block

A text is cut into blocks of `n` items and each block is folded into a state.  A program that gets the
text in pieces keeps the state of the blocks it has seen whole and the items of the block it has not;
`Seen` is the relation between the text and these two.  More items go behind those kept (`Seen.push`), a
block that is whole goes into the state (`Seen.fold`), and with nothing kept the state is that of the
text (`Seen.whole`).
-/

namespace Blocks

variable {σ α : Type*}

/-- The whole blocks of a text. -/
def blocks (n : ℕ) (text : List α) : List (List α) :=
  (List.range (text.length / n)).map fun i => (text.drop (n * i)).take n

theorem blocks_of_short {n : ℕ} {text : List α} (short : text.length < n) : blocks n text = [] := by
  rw [blocks, Nat.div_eq_of_lt short, List.range_zero, List.map_nil]

theorem blocks_append {n : ℕ} (pos : 0 < n) {block : List α} (whole : block.length = n) (text : List α) :
    blocks n (block ++ text) = block :: blocks n text := by
  have count : (block ++ text).length / n = text.length / n + 1 := by
    rw [List.length_append, whole, Nat.add_div_left _ pos]
  rw [blocks, count, List.range_succ_eq_map, List.map_cons, List.map_map]
  congr 1
  · rw [Nat.mul_zero, List.drop_zero, List.take_left' whole]
  · apply List.map_congr_left
    intro i _
    change ((block ++ text).drop (n * (i + 1))).take n = (text.drop (n * i)).take n
    rw [Nat.mul_succ, Nat.add_comm, ← List.drop_drop, List.drop_left' whole]

section Seen

variable (n : ℕ) (step : σ → List α → σ) (start : σ)

/-- The text is whole blocks, folded into `s`, and the items in `kept`. -/
def Seen (text : List α) (s : σ) (kept : List α) : Prop :=
  ∃ bs : List (List α), (∀ b ∈ bs, b.length = n) ∧ text = bs.flatten ++ kept ∧ s = bs.foldl step start

variable {n step start}

theorem seen_nil : Seen n step start [] start [] := ⟨[], nofun, rfl, rfl⟩

theorem Seen.push {text kept : List α} {s : σ} (seen : Seen n step start text s kept) (more : List α) :
    Seen n step start (text ++ more) s (kept ++ more) := by
  obtain ⟨bs, whole, rfl, folded⟩ := seen
  exact ⟨bs, whole, List.append_assoc _ _ _, folded⟩

theorem Seen.fold {text block kept : List α} {s : σ} (seen : Seen n step start text s (block ++ kept))
    (size : block.length = n) : Seen n step start text (step s block) kept := by
  obtain ⟨bs, whole, rfl, rfl⟩ := seen
  refine ⟨bs ++ [block], ?_, ?_, ?_⟩
  · intro b mem
    rcases List.mem_append.1 mem with earlier | last
    · exact whole b earlier
    · rw [List.mem_singleton.1 last, size]
  · rw [List.flatten_append, List.flatten_singleton, List.append_assoc]
  · rw [List.foldl_append]
    rfl

theorem Seen.length_mod {text kept : List α} {s : σ} (seen : Seen n step start text s kept)
    (short : kept.length < n) : text.length % n = kept.length := by
  obtain ⟨bs, whole, rfl, -⟩ := seen
  have lengths : (bs.map List.length).sum = bs.length * n := by
    rw [List.map_congr_left whole, List.map_const', List.sum_replicate_nat]
  rw [List.length_append, List.length_flatten, lengths, Nat.mul_add_mod', Nat.mod_eq_of_lt short]

/-- With nothing kept, the state is that of the blocks of the text. -/
theorem Seen.whole (pos : 0 < n) {text : List α} {s : σ} (seen : Seen n step start text s []) :
    s = (blocks n text).foldl step start := by
  obtain ⟨bs, whole, rfl, rfl⟩ := seen
  suffices blocks n (bs.flatten ++ []) = bs by rw [this]
  rw [List.append_nil]
  induction bs with
  | nil => exact blocks_of_short pos
  | cons b bs ih =>
    rw [List.flatten_cons, blocks_append pos (whole b (List.mem_cons_self ..)),
      ih fun c mem => whole c (List.mem_cons_of_mem b mem)]

end Seen

end Blocks
