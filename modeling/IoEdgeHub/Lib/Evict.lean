import Mathlib.Data.List.Perm.Basic
import Mathlib.Data.List.Nodup
import Mathlib.Order.Defs.Unbundled
import Mathlib.Tactic.Common

/-!
# Keeping the greatest of a list

A list is brought down to `cap` elements by taking out a least one as long as there are more.  `Split` says
what has gone and what is kept, in terms of a strict order: it is built turn by turn (`Split.turn`), and an
element has gone exactly if `cap` others are above it (`Split.mem_gone_iff`).
-/

namespace Evict

variable {α β : Type*}

/-- Removing an element by moving the last one into its place. -/
theorem perm_swapRemove {l : List α} {i : ℕ} {v : α} (found : l[i]? = some v) (d : α) :
    l.Perm (v :: (l.set i (l.getLast?.getD d)).dropLast) := by
  rcases List.eq_nil_or_concat' l with rfl | ⟨front, last, rfl⟩
  · cases found
  · rw [List.getLast?_concat, Option.getD_some]
    have inside := (List.getElem?_eq_some_iff.1 found).1
    rw [List.length_append, List.length_singleton] at inside
    by_cases final : i = front.length
    · rw [final, List.getElem?_concat_length, Option.some_inj] at found
      rw [final, List.set_append_right _ _ (Nat.le_refl _), Nat.sub_self, List.set_cons_zero, List.dropLast_concat,
        ← found]
      exact List.perm_append_singleton last front
    · have earlier : i < front.length := by omega
      rw [List.getElem?_append_left earlier] at found
      obtain ⟨_, value⟩ := List.getElem?_eq_some_iff.1 found
      rw [List.set_append_left _ _ earlier, List.dropLast_concat, List.set_eq_take_append_cons_drop, if_pos earlier]
      have cut : front = front.take i ++ v :: front.drop (i + 1) := by
        rw [← value, List.getElem_cons_drop, List.take_append_drop]
      have without : front.Perm (v :: (front.take i ++ front.drop (i + 1))) := by
        nth_rewrite 1 [cut]
        exact List.perm_middle
      apply (List.perm_append_singleton last front).trans
      apply (without.cons last).trans
      apply (List.Perm.swap v last _).trans
      exact List.perm_middle.symm.cons v

section Split

variable (lt : α → α → Prop) (cap : ℕ)

/-- All elements, divided into those that have gone and those kept, which are the greatest. -/
structure Split (all gone kept : List α) : Prop where
  perm : all.Perm (gone ++ kept)
  size : kept.length = min all.length cap
  below : ∀ g ∈ gone, ∀ k ∈ kept, lt g k

variable {lt cap} {all gone kept : List α}

theorem split_few (few : all.length ≤ cap) : Split lt cap all [] all :=
  ⟨.refl all, (Nat.min_eq_left few).symm, nofun⟩

/-- A turn: a least element goes, then what goes of the rest. -/
theorem Split.turn {rest : List α} {v : α} (many : cap < all.length) (taken : all.Perm (v :: rest))
    (least : ∀ u ∈ rest, lt v u) (split : Split lt cap rest gone kept) : Split lt cap all (v :: gone) kept where
  perm := taken.trans (split.perm.cons v)
  size := by
    have shorter := taken.length_eq
    rw [List.length_cons] at shorter
    rw [split.size]
    omega
  below := by
    intro g mem k member
    rcases List.mem_cons.1 mem with rfl | later
    · exact least k (split.perm.mem_iff.2 (List.mem_append_right _ member))
    · exact split.below g later k member

theorem Split.map {lt' : β → β → Prop} (split : Split lt cap all gone kept) (f : α → β)
    (mono : ∀ a ∈ all, ∀ b ∈ all, lt a b → lt' (f a) (f b)) :
    Split lt' cap (all.map f) (gone.map f) (kept.map f) where
  perm := by
    rw [← List.map_append]
    exact split.perm.map f
  size := by
    rw [List.length_map, List.length_map, split.size]
  below := by
    intro g mem k member
    obtain ⟨a, gone, rfl⟩ := List.mem_map.1 mem
    obtain ⟨b, kept, rfl⟩ := List.mem_map.1 member
    apply mono a (split.perm.mem_iff.2 (List.mem_append_left _ gone)) b
      (split.perm.mem_iff.2 (List.mem_append_right _ kept))
    exact split.below a gone b kept

theorem Split.length_gone (split : Split lt cap all gone kept) : gone.length = all.length - cap := by
  have lengths := split.perm.length_eq
  have size := split.size
  rw [List.length_append] at lengths
  omega

/-- What has gone has `cap` elements above it, and nothing that is kept has. -/
theorem Split.mem_gone_iff [DecidableRel lt] [Std.Asymm lt] (split : Split lt cap all gone kept) {n : α}
    (member : n ∈ all) : n ∈ gone ↔ cap ≤ (all.filter (lt n ·)).length := by
  have counts := (split.perm.filter (lt n ·)).length_eq
  rw [List.filter_append, List.length_append] at counts
  constructor
  · intro gone
    have full : kept.filter (lt n ·) = kept :=
      List.filter_eq_self.2 fun k kept => decide_eq_true (split.below n gone k kept)
    have some_gone := List.length_pos_of_mem gone
    rw [split.length_gone] at some_gone
    rw [full, split.size] at counts
    omega
  · intro above
    rcases List.mem_append.1 (split.perm.mem_iff.1 member) with gone | stays
    · exact gone
    · have none_gone : gone.filter (lt n ·) = [] := by
        apply List.filter_eq_nil_iff.2
        intro g gone
        rw [decide_eq_true_eq]
        exact Std.Asymm.asymm _ _ (split.below g gone n stays)
      have strict : (kept.filter (lt n ·)).length < kept.length := by
        apply List.length_filter_lt_length_iff_exists.2
        refine ⟨n, stays, ?_⟩
        rw [decide_eq_true_eq]
        exact fun self => Std.Asymm.asymm _ _ self self
      rw [none_gone, List.length_nil] at counts
      have size := split.size
      omega

end Split

end Evict
