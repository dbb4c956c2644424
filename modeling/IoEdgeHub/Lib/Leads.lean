import Mathlib.Data.List.Induction

/-!
# A running maximum in a reused buffer

A search for the greatest of some texts copies each new leader over the one before.  `leads` are the leaders
in their order, the last of them the greatest text (`exists_getLast?_leads`).  A copy covers only as much of
the buffer as it is long, so what the buffer holds in the end is `smear` of the leaders: the last one and
behind it what longer ones have left.  `smear_concat_iff` says when there is nothing behind it.
-/

namespace Leads

section Order

variable {α : Type*}

/-- The leaders so far, and one more item. -/
def lead [LT α] [DecidableLT α] (ls : List α) (x : α) : List α :=
  if ls.getLast?.all (· < x) then ls ++ [x] else ls

/-- The items greater than all before them. -/
def leads [LT α] [DecidableLT α] (xs : List α) : List α := xs.foldl lead []

theorem leads_concat [LT α] [DecidableLT α] (xs : List α) (x : α) : leads (xs ++ [x]) = lead (leads xs) x := by
  rw [leads, List.foldl_append]
  rfl

variable [LE α] [LT α] [DecidableLT α] [Std.IsLinearOrder α] [Std.LawfulOrderLT α]

theorem exists_getLast?_leads {xs : List α} (nonempty : xs ≠ []) :
    ∃ m, (leads xs).getLast? = some m ∧ m ∈ xs ∧ ∀ x ∈ xs, x ≤ m := by
  induction xs using List.reverseRecOn with
  | nil => exact absurd rfl nonempty
  | append_singleton xs x ih =>
    rw [leads_concat, lead]
    rcases eq_or_ne xs [] with rfl | before
    · exact ⟨x, rfl, List.mem_singleton_self x, fun y only => Std.le_of_eq (List.mem_singleton.1 only)⟩
    · obtain ⟨m, last, member, greatest⟩ := ih before
      rw [last, Option.all_some]
      by_cases greater : m < x
      · rw [if_pos (decide_eq_true greater)]
        refine ⟨x, List.getLast?_concat, List.mem_append_right _ (List.mem_singleton_self x), ?_⟩
        intro y inside
        rcases List.mem_append.1 inside with earlier | here
        · exact Std.le_trans (greatest y earlier) (Std.le_of_lt greater)
        · exact Std.le_of_eq (List.mem_singleton.1 here)
      · rw [if_neg (by rwa [decide_eq_true_eq])]
        refine ⟨m, last, List.mem_append_left _ member, ?_⟩
        intro y inside
        rcases List.mem_append.1 inside with earlier | here
        · exact greatest y earlier
        · rw [List.mem_singleton.1 here]
          exact Std.not_lt.1 greater

theorem lead_of_forall_lt {xs : List α} {x : α} (greater : ∀ b ∈ xs, b < x) : lead (leads xs) x = leads xs ++ [x] := by
  rcases eq_or_ne xs [] with rfl | before
  · rfl
  · obtain ⟨m, last, member, -⟩ := exists_getLast?_leads before
    rw [lead, last, Option.all_some, if_pos (decide_eq_true (greater m member))]

theorem lead_of_not_forall_lt {xs : List α} {x : α} (not : ¬∀ b ∈ xs, b < x) : lead (leads xs) x = leads xs := by
  have before : xs ≠ [] := by
    rintro rfl
    exact not fun b no => absurd no List.not_mem_nil
  obtain ⟨m, last, -, greatest⟩ := exists_getLast?_leads before
  rw [lead, last, Option.all_some, if_neg]
  rw [decide_eq_true_eq]
  exact fun greater => not fun b member => Std.lt_of_le_of_lt (greatest b member) greater

theorem mem_leads {xs : List α} {n : α} :
    n ∈ leads xs ↔ ∃ before after, xs = before ++ n :: after ∧ ∀ b ∈ before, b < n := by
  induction xs using List.reverseRecOn with
  | nil => simp [leads]
  | append_singleton xs x ih =>
    have earlier : n ∈ leads xs → ∃ before after, xs ++ [x] = before ++ n :: after ∧ ∀ b ∈ before, b < n := by
      intro member
      obtain ⟨before, after, rfl, greater⟩ := ih.1 member
      exact ⟨before, after ++ [x], by simp, greater⟩
    rw [leads_concat]
    constructor
    · intro member
      by_cases greater : ∀ b ∈ xs, b < x
      · rw [lead_of_forall_lt greater, List.mem_append, List.mem_singleton] at member
        rcases member with before | rfl
        · exact earlier before
        · exact ⟨xs, [], rfl, greater⟩
      · rw [lead_of_not_forall_lt greater] at member
        exact earlier member
    · rintro ⟨before, after, split, greater⟩
      rcases List.eq_nil_or_concat after with rfl | ⟨after, y, rfl⟩
      · obtain ⟨rfl, rfl⟩ := List.append_singleton_inj.1 split
        rw [lead_of_forall_lt greater]
        exact List.mem_append_right _ (List.mem_singleton_self _)
      · rw [List.concat_eq_append, ← List.cons_append, ← List.append_assoc] at split
        obtain ⟨rfl, rfl⟩ := List.append_singleton_inj.1 split
        have member := ih.2 ⟨before, after, rfl, greater⟩
        rw [lead]
        split_ifs
        · exact List.mem_append_left _ member
        · exact member

end Order

section Texts

variable {α : Type*}

/-- Texts copied to the same place one after the other. -/
def smear (texts : List (List α)) : List α := texts.foldl (fun held text => text ++ held.drop text.length) []

theorem smear_concat (texts : List (List α)) (text : List α) :
    smear (texts ++ [text]) = text ++ (smear texts).drop text.length := by
  rw [smear, List.foldl_append]
  rfl

theorem length_smear_le_iff {texts : List (List α)} {n : ℕ} :
    (smear texts).length ≤ n ↔ ∀ text ∈ texts, text.length ≤ n := by
  induction texts using List.reverseRecOn with
  | nil => simp [smear]
  | append_singleton texts text ih =>
    rw [smear_concat, List.length_append, List.length_drop, List.forall_mem_append, ← ih, List.forall_mem_singleton]
    omega

/-- Nothing is left behind the last text exactly when none before it was longer. -/
theorem smear_concat_iff {texts : List (List α)} {text : List α} :
    smear (texts ++ [text]) = text ↔ ∀ earlier ∈ texts, earlier.length ≤ text.length := by
  rw [smear_concat, List.append_right_eq_self, List.drop_eq_nil_iff, length_smear_le_iff]

theorem mem_smear {texts : List (List α)} {a : α} (member : a ∈ smear texts) : ∃ text ∈ texts, a ∈ text := by
  induction texts using List.reverseRecOn with
  | nil => exact absurd member List.not_mem_nil
  | append_singleton texts text ih =>
    rw [smear_concat, List.mem_append] at member
    rcases member with here | behind
    · exact ⟨text, List.mem_append_right _ (List.mem_singleton_self text), here⟩
    · obtain ⟨earlier, before, inside⟩ := ih (List.mem_of_mem_drop behind)
      exact ⟨earlier, List.mem_append_left _ before, inside⟩

end Texts

end Leads
