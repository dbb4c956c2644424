import Mathlib.Data.List.Induction
import Mathlib.Data.Nat.Notation
import Mathlib.Logic.Relation
import Mathlib.Tactic.Common

/-!
# Runs of step functions

`attempt` runs fallible steps in order and stops at the first one that is refused; a refused step
changes nothing. `Each` says something of every step of a run together with the steps before it.
`reached` and `always` are the induction over a run of fallible steps, `served` says that such a run
does not fail, and `kept` is the induction over a run of steps that cannot.
-/

namespace Run

variable {σ α : Type*}

/-- Run the steps in order up to the first refused one; the flag says that none was refused. -/
def attempt (step : σ → α → Option σ) : List α → σ → σ × Bool
  | [], s => (s, true)
  | a :: as, s =>
    match step s a with
    | none => (s, false)
    | some s' => attempt step as s'

theorem attempt_append (step : σ → α → Option σ) (as bs : List α) (s : σ) :
    attempt step (as ++ bs) s =
      if (attempt step as s).2 then attempt step bs (attempt step as s).1 else attempt step as s := by
  induction as generalizing s with
  | nil => rfl
  | cons a as ih =>
    rw [List.cons_append, attempt, attempt]
    cases step s a with
    | none => rfl
    | some s' => exact ih s'

/-- When every step is accepted in every state, the whole list is. -/
theorem attempt_snd {step : σ → α → Option σ} {as : List α}
    (accepted : ∀ a ∈ as, ∀ s, (step s a).isSome) (s : σ) : (attempt step as s).2 = true := by
  induction as generalizing s with
  | nil => rfl
  | cons a as ih =>
    obtain ⟨s', hs⟩ := Option.isSome_iff_exists.1 (accepted a List.mem_cons_self s)
    rw [attempt, hs]
    exact ih (fun b hb => accepted b (List.mem_cons_of_mem _ hb)) s'

/-- Steps after the first refused one have no effect. -/
theorem attempt_refused {step : σ → α → Option σ} {as bs : List α} {b : α} (s : σ)
    (accepted : ∀ a ∈ as, ∀ s, (step s a).isSome) (refused : ∀ s, step s b = none) :
    attempt step (as ++ b :: bs) s = ((attempt step as s).1, false) := by
  rw [attempt_append, if_pos (attempt_snd accepted s), attempt, refused]

/-- The accepted steps of an attempt are a path of single steps. -/
theorem attempt_path {step : σ → α → Option σ} {R : σ → σ → Prop}
    (single : ∀ s a s', step s a = some s' → R s s') (as : List α) (s : σ) :
    Relation.ReflTransGen R s (attempt step as s).1 := by
  induction as generalizing s with
  | nil => exact .refl
  | cons a as ih =>
    rw [attempt]
    cases stepped : step s a with
    | none => exact .refl
    | some s' => exact (ih s').head (single s a s' stepped)

theorem along {R : σ → σ → Prop} {Q : σ → Prop} (keeps : ∀ s s', R s s' → Q s → Q s') {s s' : σ}
    (path : Relation.ReflTransGen R s s') (start : Q s) : Q s' := by
  induction path with
  | refl => exact start
  | tail _ last ih => exact keeps _ _ last ih

theorem of_ite {c : Prop} [Decidable c] {a b x : α} {P : Prop} (h : (if c then a else b) = x)
    (pos : c → a = x → P) (neg : ¬c → b = x → P) : P := by
  by_cases hc : c
  · rw [if_pos hc] at h
    exact pos hc h
  · rw [if_neg hc] at h
    exact neg hc h

/-- Every element has the property, which may speak of those before it. -/
def Each (P : List α → α → Prop) (xs : List α) : Prop :=
  ∀ before x after, xs = before ++ x :: after → P before x

variable {P : List α → α → Prop}

theorem each_nil : Each P [] := by
  intro before x after split
  simp at split

theorem Each.left {xs ys : List α} (each : Each P (xs ++ ys)) : Each P xs := by
  intro before x after split
  exact each before x (after ++ ys) (by rw [split]; simp)

theorem each_cons {x : α} {xs : List α} :
    Each P (x :: xs) ↔ P [] x ∧ Each (fun before => P (x :: before)) xs := by
  constructor
  · intro each
    exact ⟨each [] x xs rfl, fun before y after split => each (x :: before) y after (by rw [split]; rfl)⟩
  · rintro ⟨first, rest⟩ before y after split
    cases before with
    | nil =>
      obtain ⟨rfl, -⟩ := List.cons.inj split
      exact first
    | cons b before =>
      obtain ⟨rfl, tail⟩ := List.cons.inj split
      exact rest before y after tail

theorem each_snoc {xs : List α} {x : α} : Each P (xs ++ [x]) ↔ Each P xs ∧ P xs x := by
  constructor
  · intro each
    exact ⟨each.left, each xs x [] rfl⟩
  · rintro ⟨each, last⟩ before y after split
    rcases List.eq_nil_or_concat after with rfl | ⟨after', z, rfl⟩
    · obtain ⟨rfl, same⟩ := List.append_inj' split rfl
      rw [← (List.cons.inj same).1]
      exact last
    · rw [List.concat_eq_append, ← List.cons_append, ← List.append_assoc] at split
      exact each before y after' (List.append_inj' split rfl).1

/-- What holds at the start and is kept by every step that meets its condition holds after a run
whose steps all do. -/
theorem reached {step : σ → α → Option σ} {start s : σ} {C : List α → σ → α → Prop}
    {Q : List α → σ → Prop} (init : Q [] start)
    (keeps : ∀ before s a s', Q before s → C before s a → step s a = some s' → Q (before ++ [a]) s')
    {acts : List α} (meets : Each (fun before a => ∀ s, before.foldlM step start = some s → C before s a) acts)
    (ran : acts.foldlM step start = some s) : Q acts s := by
  induction acts using List.reverseRecOn generalizing s with
  | nil =>
    cases ran
    exact init
  | append_singleton acts a ih =>
    rw [List.foldlM_append] at ran
    obtain ⟨s₀, ran₀, ran⟩ := Option.bind_eq_some_iff.1 ran
    obtain ⟨s₁, last, ended⟩ := Option.bind_eq_some_iff.1 ran
    cases ended
    obtain ⟨meets, now⟩ := each_snoc.1 meets
    exact keeps acts s₀ a _ (ih meets ran₀) (now s₀ ran₀) last

/-- What holds at the start and is kept by every step holds after a run. -/
theorem always {step : σ → α → Option σ} {start s : σ} {Q : List α → σ → Prop} (init : Q [] start)
    (keeps : ∀ before s a s', Q before s → step s a = some s' → Q (before ++ [a]) s') {acts : List α}
    (ran : acts.foldlM step start = some s) : Q acts s :=
  reached (C := fun _ _ _ => True) init (fun before s a s' inv _ => keeps before s a s' inv)
    (fun _ _ _ _ _ _ => trivial) ran

/-- A step that always succeeds where the invariant holds, and keeps it, succeeds all along a run. -/
theorem served {step : σ → α → Option σ} {start : σ} {Q : List α → σ → Prop} (init : Q [] start)
    (serves : ∀ before s a, Q before s → ∃ s', step s a = some s' ∧ Q (before ++ [a]) s') (acts : List α) :
    ∃ s, acts.foldlM step start = some s ∧ Q acts s := by
  induction acts using List.reverseRecOn with
  | nil => exact ⟨start, rfl, init⟩
  | append_singleton acts a ih =>
    obtain ⟨s, ran, inv⟩ := ih
    obtain ⟨s', stepped, inv'⟩ := serves acts s a inv
    refine ⟨s', ?_, inv'⟩
    rw [List.foldlM_append, ran]
    simp [stepped]

/-- A run fails at a step, after a run that has not. -/
theorem foldlM_eq_none_iff {step : σ → α → Option σ} {start : σ} {acts : List α} :
    acts.foldlM step start = none ↔ ∃ before a after s, acts = before ++ a :: after ∧
      before.foldlM step start = some s ∧ step s a = none := by
  induction acts generalizing start with
  | nil => simp
  | cons a acts ih =>
    rw [List.foldlM_cons, Option.bind_eq_bind]
    constructor
    · cases stepped : step start a with
      | none => exact fun _ => ⟨[], a, acts, start, rfl, rfl, stepped⟩
      | some s =>
        intro failed
        obtain ⟨before, b, after, s', rfl, ran, fails⟩ := ih.1 failed
        refine ⟨a :: before, b, after, s', rfl, ?_, fails⟩
        rw [List.foldlM_cons, stepped]
        exact ran
    · rintro ⟨before, b, after, s', split, ran, fails⟩
      cases before with
      | nil =>
        obtain ⟨rfl, rfl⟩ := List.cons.inj split
        cases ran
        rw [fails]
        rfl
      | cons c before =>
        obtain ⟨rfl, rfl⟩ := List.cons.inj split
        rw [List.foldlM_cons, Option.bind_eq_bind, Option.bind_eq_some_iff] at ran
        obtain ⟨s, stepped, ran⟩ := ran
        rw [stepped]
        exact ih.2 ⟨before, b, after, s', rfl, ran, fails⟩

theorem kept {step : σ → α → σ} {start : σ} {Q : List α → σ → Prop} (init : Q [] start)
    (keeps : ∀ before s a, Q before s → Q (before ++ [a]) (step s a)) (acts : List α) :
    Q acts (acts.foldl step start) := by
  induction acts using List.reverseRecOn with
  | nil => exact init
  | append_singleton acts a ih =>
    rw [List.foldl_append]
    exact keeps acts _ a ih

end Run
