import Mathlib.Data.List.Basic
import Mathlib.Data.List.Forall2
import Mathlib.Data.Nat.Notation

/-!
# Separated words

A text that is split at a separator, cut into the words in front and the parts behind them.
`splitOn_eq_append` says which texts split so, without mentioning the split of the front.
-/

namespace Words

variable {α : Type*} {sep : α}

/-- A front without separators goes to the first part. -/
theorem splitOnP_append {p : α → Bool} {front : List α} (free : ∀ a ∈ front, p a = false) (rest : List α) :
    (front ++ rest).splitOnP p = (rest.splitOnP p).modifyHead (front ++ ·) := by
  induction front with
  | nil =>
    rw [List.nil_append]
    cases rest.splitOnP p <;> rfl
  | cons a front ih =>
    obtain ⟨head, tail⟩ := List.forall_mem_cons.1 free
    rw [List.cons_append, List.splitOnP_cons_eq_if_modifyHead, if_neg (Bool.eq_false_iff.1 head), ih tail,
      List.modifyHead_modifyHead]
    rfl

/-- A code that writes each separator as one, and writes none for anything else, keeps the parts. -/
theorem splitOnP_flatMap {β : Type*} {enc : α → List β} {p : β → Bool} {q : α → Bool}
    (sep : ∀ a, q a = true → ∃ b, enc a = [b] ∧ p b = true)
    (other : ∀ a, q a = false → ∀ b ∈ enc a, p b = false) (as : List α) :
    (as.flatMap enc).splitOnP p = (as.splitOnP q).map (·.flatMap enc) := by
  induction as with
  | nil => rfl
  | cons a as ih =>
    rw [List.flatMap_cons, List.splitOnP_cons_eq_if_modifyHead]
    cases kind : q a with
    | true =>
      obtain ⟨b, code, isSep⟩ := sep a kind
      rw [code, List.singleton_append, List.splitOnP_cons_eq_if_modifyHead, if_pos isSep, ih]
      rfl
    | false =>
      obtain ⟨first, rest, parts⟩ := List.exists_cons_of_ne_nil (List.splitOnP_ne_nil q as)
      rw [splitOnP_append (other a kind), ih, parts]
      rfl

theorem map_eq_map_some {β : Type*} {read : α → Option β} {words : List α} {vals : List β} :
    words.map read = vals.map some ↔ List.Forall₂ (fun w v => read w = some v) words vals := by
  induction words generalizing vals with
  | nil => rw [List.map_nil, eq_comm, List.map_eq_nil_iff, List.forall₂_nil_left_iff]
  | cons w words ih =>
    cases vals with
    | nil => simp
    | cons v vals => rw [List.map_cons, List.map_cons, List.cons.injEq, ih, List.forall₂_cons]

theorem not_mem_join {a : α} (ne : a ≠ sep) {words : List (List α)} (clean : ∀ w ∈ words, a ∉ w) :
    a ∉ [sep].intercalate words := by
  induction words with
  | nil => exact List.not_mem_nil
  | cons w words ih =>
    obtain ⟨head, tail⟩ := List.forall_mem_cons.1 clean
    rcases words with _ | ⟨w', words⟩
    · simpa using head
    · rw [List.intercalate_cons_cons, List.mem_append, List.mem_append, List.mem_singleton]
      exact fun mem => mem.elim (fun mem => mem.elim head ne) (ih tail)

variable [BEq α] [LawfulBEq α]

/-- The first part ends at the first separator, or is the whole text. -/
theorem splitOn_eq_cons {s w : List α} {rest : List (List α)} :
    s.splitOn sep = w :: rest ↔
      sep ∉ w ∧ (rest = [] ∧ s = w ∨ ∃ t, s = w ++ sep :: t ∧ t.splitOn sep = rest) := by
  constructor
  · intro split
    by_cases mem : sep ∈ s
    · obtain ⟨front, back, rfl, first⟩ := List.eq_append_cons_of_mem mem
      rw [List.splitOn_append_cons_self_of_not_mem first, List.cons.injEq] at split
      obtain ⟨rfl, rfl⟩ := split
      exact ⟨first, .inr ⟨back, rfl, rfl⟩⟩
    · rw [List.splitOn_eq_singleton mem, List.cons.injEq] at split
      obtain ⟨rfl, rfl⟩ := split
      exact ⟨mem, .inl ⟨rfl, rfl⟩⟩
  · rintro ⟨first, ⟨rfl, rfl⟩ | ⟨t, rfl, rfl⟩⟩
    · exact List.splitOn_eq_singleton first
    · exact List.splitOn_append_cons_self_of_not_mem first t

/-- Words in front: each is free of the separator, and behind them the text ends or goes on with one. -/
theorem splitOn_eq_append {s : List α} {words rest : List (List α)} (some : words ≠ []) :
    s.splitOn sep = words ++ rest ↔
      (∀ w ∈ words, sep ∉ w) ∧ (rest = [] ∧ s = [sep].intercalate words ∨
        ∃ t, s = [sep].intercalate words ++ sep :: t ∧ t.splitOn sep = rest) := by
  induction words generalizing s with
  | nil => exact absurd rfl some
  | cons w words ih =>
    rw [List.cons_append, splitOn_eq_cons]
    rcases words with _ | ⟨w', words⟩
    · simp
    · rw [List.forall_mem_cons, and_assoc, List.intercalate_cons_cons]
      refine and_congr_right fun _ => ?_
      constructor
      · rintro (⟨none, -⟩ | ⟨t, rfl, split⟩)
        · cases none
        · obtain ⟨clean, ⟨rfl, rfl⟩ | ⟨t, rfl, rfl⟩⟩ := (ih (List.cons_ne_nil _ _)).1 split
          · exact ⟨clean, .inl ⟨rfl, by simp⟩⟩
          · exact ⟨clean, .inr ⟨t, by simp, rfl⟩⟩
      · rintro ⟨clean, ⟨rfl, rfl⟩ | ⟨t, rfl, rfl⟩⟩
        · exact .inr ⟨_, by simp, (ih (List.cons_ne_nil _ _)).2 ⟨clean, .inl ⟨rfl, rfl⟩⟩⟩
        · exact .inr ⟨_, by simp, (ih (List.cons_ne_nil _ _)).2 ⟨clean, .inr ⟨t, rfl, rfl⟩⟩⟩

/-- The words in front and the text behind them are determined by their number. -/
theorem join_append_inj {words words' : List (List α)} {tail tail' : List α} (some : words ≠ [])
    (number : words.length = words'.length) (clean : ∀ w ∈ words, sep ∉ w) (clean' : ∀ w ∈ words', sep ∉ w)
    (stop : tail = [] ∨ ∃ t, tail = sep :: t) (stop' : tail' = [] ∨ ∃ t, tail' = sep :: t)
    (same : [sep].intercalate words ++ tail = [sep].intercalate words' ++ tail') :
    words = words' ∧ tail = tail' := by
  have parts {ws : List (List α)} {t : List α} (ne : ws ≠ []) (free : ∀ w ∈ ws, sep ∉ w)
      (ends : t = [] ∨ ∃ t', t = sep :: t') : ∃ rest, ([sep].intercalate ws ++ t).splitOn sep = ws ++ rest := by
    rcases ends with rfl | ⟨t', rfl⟩
    · exact ⟨[], (splitOn_eq_append ne).2 ⟨free, .inl ⟨rfl, List.append_nil _⟩⟩⟩
    · exact ⟨_, (splitOn_eq_append ne).2 ⟨free, .inr ⟨t', rfl, rfl⟩⟩⟩
  have some' : words' ≠ [] := by
    rw [← List.length_pos_iff, ← number]
    exact List.length_pos_iff.2 some
  obtain ⟨rest, split⟩ := parts some clean stop
  obtain ⟨rest', split'⟩ := parts some' clean' stop'
  rw [same, split'] at split
  obtain ⟨rfl, -⟩ := List.append_inj split number.symm
  exact ⟨rfl, List.append_cancel_left same⟩

end Words
