import Mathlib.Data.Nat.Notation
import Mathlib.Tactic.Common

/-!
# Work cut into chunks

A loop takes the next chunk off the front of what is left of a range; how long the chunk is depends on where
the rest begins and how long it is.  `cut` is the list of the chunks, and `tiles_cut` says that they lie one behind
the other and fill the range.  `runAll` does one operation for each chunk up to the first that fails, and
`runAll_issued` says what it has done then.
-/

namespace Chunks

/-! ## Ranges -/

/-- Ranges, given by start and length, one behind the other from `a` to `b`. -/
def Tiles (a b : ℕ) : List (ℕ × ℕ) → Prop
  | [] => a = b
  | t :: ts => t.1 = a ∧ 0 < t.2 ∧ Tiles (a + t.2) b ts

namespace Tiles

variable {a b : ℕ} {ts : List (ℕ × ℕ)}

theorem le (tiles : Tiles a b ts) : a ≤ b := by
  induction ts generalizing a with
  | nil => exact Nat.le_of_eq tiles
  | cons t ts ih =>
    have rest := ih tiles.2.2
    omega

theorem inside (tiles : Tiles a b ts) : ∀ t ∈ ts, a ≤ t.1 ∧ t.1 + t.2 ≤ b := by
  induction ts generalizing a with
  | nil => exact fun t no => absurd no List.not_mem_nil
  | cons t ts ih =>
    obtain ⟨start, -, rest⟩ := tiles
    rw [List.forall_mem_cons]
    constructor
    · have end_le := rest.le
      omega
    · intro u member
      have bounds := ih rest u member
      omega

theorem pos (tiles : Tiles a b ts) : ∀ t ∈ ts, 0 < t.2 := by
  induction ts generalizing a with
  | nil => exact fun t no => absurd no List.not_mem_nil
  | cons t ts ih => exact List.forall_mem_cons.2 ⟨tiles.2.1, ih tiles.2.2⟩

theorem pairwise (tiles : Tiles a b ts) : ts.Pairwise fun t u => t.1 + t.2 ≤ u.1 := by
  induction ts generalizing a with
  | nil => exact List.Pairwise.nil
  | cons t ts ih =>
    obtain ⟨rfl, -, rest⟩ := tiles
    exact List.Pairwise.cons (fun u member => (rest.inside u member).1) (ih rest)

theorem covers (tiles : Tiles a b ts) (x : ℕ) : (∃ t ∈ ts, t.1 ≤ x ∧ x < t.1 + t.2) ↔ a ≤ x ∧ x < b := by
  constructor
  · rintro ⟨t, member, low, high⟩
    have bounds := tiles.inside t member
    omega
  · rintro ⟨low, high⟩
    induction ts generalizing a with
    | nil =>
      have empty : a = b := tiles
      omega
    | cons t ts ih =>
      obtain ⟨rfl, -, rest⟩ := tiles
      rcases Nat.lt_or_ge x (t.1 + t.2) with here | later
      · exact ⟨t, List.mem_cons_self, low, here⟩
      · obtain ⟨u, member, found⟩ := ih rest later
        exact ⟨u, List.mem_cons_of_mem _ member, found⟩

/-- What the ranges hold of the data that lie at `base`, put together. -/
theorem flatten_slices {α : Type*} (data : List α) {base : ℕ} (tiles : Tiles a b ts) (start : base ≤ a) :
    (ts.map fun t => (data.drop (t.1 - base)).take t.2).flatten = (data.drop (a - base)).take (b - a) := by
  induction ts generalizing a with
  | nil =>
    have empty : a = b := tiles
    rw [empty, Nat.sub_self]
    rfl
  | cons t ts ih =>
    obtain ⟨rfl, -, rest⟩ := tiles
    have end_le := rest.le
    have split : b - t.1 = t.2 + (b - (t.1 + t.2)) := by omega
    have moved : t.1 + t.2 - base = t.1 - base + t.2 := by omega
    rw [List.map_cons, List.flatten_cons, ih rest (by omega), split, List.take_add, List.drop_drop, moved]

end Tiles

/-! ## The chunks of a range -/

/-- The chunks of the range that starts at `a` and has length `n`, with fuel. -/
def cut (size : ℕ → ℕ → ℕ) : ℕ → ℕ → ℕ → List (ℕ × ℕ)
  | 0, _, _ => []
  | fuel + 1, a, n => if n = 0 then [] else (a, size a n) :: cut size fuel (a + size a n) (n - size a n)

section Cut

variable {size : ℕ → ℕ → ℕ} {ok : ℕ → ℕ → Prop} {unit : ℕ}

/-- How the chunks are cut where `ok` holds: each is at least `unit` long, fits the rest, and leaves a rest
where `ok` holds again. -/
def Cuts (size : ℕ → ℕ → ℕ) (ok : ℕ → ℕ → Prop) (unit : ℕ) : Prop :=
  ∀ a n, ok a n → n ≠ 0 → unit ≤ size a n ∧ size a n ≤ n ∧ ok (a + size a n) (n - size a n)

theorem tiles_cut (cuts : Cuts size ok unit) (pos : 0 < unit) {fuel a n : ℕ} (start : ok a n)
    (enough : n ≤ unit * fuel) :
    Tiles a (a + n) (cut size fuel a n) := by
  induction fuel generalizing a n with
  | zero =>
    have empty : n = 0 := by omega
    rw [empty]
    rfl
  | succ fuel ih =>
    rw [cut]
    split_ifs with empty
    · rw [empty]
      rfl
    · obtain ⟨least, most, next⟩ := cuts a n start empty
      have rest := ih next (by rw [Nat.mul_succ] at enough; omega)
      refine ⟨rfl, Nat.lt_of_lt_of_le pos least, ?_⟩
      rwa [Nat.add_assoc, Nat.add_sub_cancel' most] at rest

theorem forall_cut (cuts : Cuts size ok unit) {holds : ℕ × ℕ → Prop}
    (each : ∀ a n, ok a n → n ≠ 0 → holds (a, size a n)) {fuel a n : ℕ} (start : ok a n) :
    ∀ t ∈ cut size fuel a n, holds t := by
  induction fuel generalizing a n with
  | zero => exact fun t no => absurd no List.not_mem_nil
  | succ fuel ih =>
    rw [cut]
    split_ifs with empty
    · exact fun t no => absurd no List.not_mem_nil
    · rw [List.forall_mem_cons]
      exact ⟨each a n start empty, ih (cuts a n start empty).2.2⟩

end Cut

/-! ## One operation for each -/

section Run

variable {σ α : Type*}

/-- The operations in turn, up to the first that fails. -/
def runAll (op : σ → α → σ × Bool) : σ → List α → σ × Bool
  | s, [] => (s, true)
  | s, x :: xs =>
    match op s x with
    | (s, true) => runAll op s xs
    | (s, false) => (s, false)

variable {op : σ → α → σ × Bool}

theorem runAll_cons_true {s s' : σ} {x : α} (done : op s x = (s', true)) (xs : List α) :
    runAll op s (x :: xs) = runAll op s' xs := by
  rw [runAll, done]

theorem runAll_cons_false {s s' : σ} {x : α} (failed : op s x = (s', false)) (xs : List α) :
    runAll op s (x :: xs) = (s', false) := by
  rw [runAll, failed]

/-- Operations that cannot fail where something holds that they keep. -/
theorem runAll_serves (kept : σ → Prop) {xs : List α}
    (step : ∀ s, ∀ x ∈ xs, kept s → (op s x).2 = true ∧ kept (op s x).1) {s : σ}
    (start : kept s) : (runAll op s xs).2 = true ∧ kept (runAll op s xs).1 := by
  induction xs generalizing s with
  | nil => exact ⟨rfl, start⟩
  | cons x xs ih =>
    obtain ⟨ok, next⟩ := step s x List.mem_cons_self start
    have done : op s x = ((op s x).1, true) := Prod.ext rfl ok
    rw [runAll_cons_true done]
    exact ih (fun s y member => step s y (List.mem_cons_of_mem _ member)) next

/-- What is seen of the operations, in terms of the list: a first part of it, and all of it after success. -/
theorem runAll_issued {seen : σ → List α} {xs : List α}
    (step : ∀ s, ∀ x ∈ xs, ∃ now, now <+: [x] ∧ seen (op s x).1 = seen s ++ now ∧ ((op s x).2 = true → now = [x]))
    (s : σ) :
    ∃ now, now <+: xs ∧ seen (runAll op s xs).1 = seen s ++ now ∧ ((runAll op s xs).2 = true → now = xs) := by
  induction xs generalizing s with
  | nil => exact ⟨[], List.nil_prefix, (List.append_nil _).symm, fun _ => rfl⟩
  | cons x xs ih =>
    obtain ⟨first, part, shown, all⟩ := step s x List.mem_cons_self
    rcases done : op s x with ⟨s', _ | _⟩
    · rw [done] at shown
      rw [runAll_cons_false done]
      exact ⟨first, part.trans (List.prefix_append [x] xs), shown, fun no => absurd no Bool.false_ne_true⟩
    · rw [done] at shown all
      rw [runAll_cons_true done]
      obtain ⟨later, part', shown', all'⟩ := ih (fun s y member => step s y (List.mem_cons_of_mem _ member)) s'
      refine ⟨x :: later, List.cons_prefix_cons.2 ⟨rfl, part'⟩, ?_, fun ok => by rw [all' ok]⟩
      rw [shown', shown, all rfl, List.append_assoc]
      rfl

/-- A record of each operation and its success: all of them, or those up to the one that failed. -/
theorem runAll_record {β : Type*} (kept : σ → List β) (entry : α → Bool → β)
    (step : ∀ s x, kept (op s x).1 = kept s ++ [entry x (op s x).2]) (s : σ) (xs : List α) :
    (runAll op s xs).2 = true ∧ kept (runAll op s xs).1 = kept s ++ xs.map (entry · true) ∨
    (runAll op s xs).2 = false ∧ ∃ before x after, xs = before ++ x :: after ∧
      kept (runAll op s xs).1 = kept s ++ (before.map (entry · true) ++ [entry x false]) := by
  induction xs generalizing s with
  | nil => exact .inl ⟨rfl, (List.append_nil _).symm⟩
  | cons x xs ih =>
    have entered := step s x
    rcases done : op s x with ⟨s', _ | _⟩ <;> rw [done] at entered
    · rw [runAll_cons_false done]
      exact .inr ⟨rfl, [], x, xs, rfl, entered⟩
    · rw [runAll_cons_true done]
      rcases ih s' with ⟨ok, all⟩ | ⟨failed, before, y, after, split, part⟩
      · refine .inl ⟨ok, ?_⟩
        rw [all, entered, List.append_assoc]
        rfl
      · refine .inr ⟨failed, x :: before, y, after, by rw [split]; rfl, ?_⟩
        rw [part, entered, List.append_assoc]
        rfl

end Run

end Chunks
