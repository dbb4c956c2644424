import Mathlib

/-!
# Sharing a memory by regions

Programs over a state that carries a memory.  One that is `Within` a region changes nothing outside of it, and what
it answers and does inside depends on nothing outside.  Such programs compose (`Within.bind`).

A `User` owns a region, a private state, and operations that keep to the region.  When the regions are disjoint,
every user goes through a run of all of them, in whatever order they take turns, as if it had the memory for itself
(`run_alone`).
-/

namespace Regions

universe u

/-- States that carry a memory, which may be exchanged. -/
class Carrier (σ : Type*) (A B : outParam (Type*)) where
  mem : σ → A → B
  put : σ → (A → B) → σ
  mem_put : ∀ s m, mem (put s m) = m

open Carrier

section Programs

variable {σ A B R R' : Type*} [Carrier σ A B] {r : Set A} {s : σ}

/-- From `s`, also with another memory outside of `r`. -/
structure Within (r : Set A) (f : σ → σ × R) (s : σ) : Prop where
  kept : ∀ a ∉ r, mem (f s).1 a = mem s a
  same : ∀ m, Set.EqOn (mem s) m r → ∃ m', Set.EqOn (mem (f s).1) m' r ∧ f (put s m) = (put (f s).1 m', (f s).2)

theorem Within.agree {f : σ → σ × R} (within : Within r f s) {m : A → B} (same : Set.EqOn (mem s) m r) :
    (f (put s m)).2 = (f s).2 ∧ Set.EqOn (mem (f s).1) (mem (f (put s m)).1) r := by
  obtain ⟨m', same', eq⟩ := within.same m same
  rw [eq]
  refine ⟨rfl, ?_⟩
  rw [mem_put]
  exact same'

theorem within_pure (x : R) : Within r (fun s => (s, x)) s where
  kept _ _ := rfl
  same m same := ⟨m, same, rfl⟩

theorem within_reads {f : σ → σ × R} (unchanged : mem (f s).1 = mem s)
    (reads : ∀ m, Set.EqOn (mem s) m r → f (put s m) = (put (f s).1 m, (f s).2)) : Within r f s where
  kept a _ := congrFun unchanged a
  same m same := by
    refine ⟨m, ?_, reads m same⟩
    rw [unchanged]
    exact same

theorem Within.congr {f g : σ → σ × R} (within : Within r f s) (here : g s = f s)
    (there : ∀ m, g (put s m) = f (put s m)) :
    Within r g s where
  kept := by
    rw [here]
    exact within.kept
  same m same := by
    rw [here, there]
    exact within.same m same

theorem Within.of_eq {f g : σ → σ × R} (within : Within r f s) (eq : ∀ s, g s = f s) : Within r g s :=
  within.congr (eq s) fun _ => eq _

theorem Within.bind {f : σ → σ × R} {g : R → σ → σ × R'} (first : Within r f s) (rest : Within r (g (f s).2) (f s).1) :
    Within r (fun s => g (f s).2 (f s).1) s where
  kept a outside := (rest.kept a outside).trans (first.kept a outside)
  same m same := by
    obtain ⟨m₁, same₁, eq₁⟩ := first.same m same
    obtain ⟨m₂, same₂, eq₂⟩ := rest.same m₁ same₁
    refine ⟨m₂, same₂, ?_⟩
    rw [eq₁]
    exact eq₂

theorem Within.andThen {f g : σ → σ × Bool} (first : Within r f s) (rest : (f s).2 = true → Within r g (f s).1) :
    Within r (fun s =>
      match f s with
      | (s, false) => (s, false)
      | (s, true) => g s) s := by
  have whole := first.bind (g := fun ok => bif ok then g else fun s => (s, false)) (by
    cases ok : (f s).2 with
    | false => exact within_pure false
    | true => exact rest ok)
  refine whole.of_eq fun s => ?_
  rcases f s with ⟨s, _ | _⟩ <;> rfl

/-- A change to the rest of the state beforehand. -/
theorem Within.after {f : σ → σ × R} {u : σ → σ} (within : Within r f (u s)) (mem_u : mem (u s) = mem s)
    (u_put : ∀ m, u (put s m) = put (u s) m) : Within r (fun s => f (u s)) s where
  kept a outside := (within.kept a outside).trans (congrFun mem_u a)
  same m same := by
    rw [u_put]
    rw [← mem_u] at same
    exact within.same m same

end Programs

/-! ## Users -/

/-- What one of several users of a memory does to it. -/
structure User (A B : Type*) where
  State : Type u
  Op : Type u
  region : Set A
  act : State → (A → B) → Op → State × (A → B)
  kept : ∀ s m o, ∀ a ∉ region, (act s m o).2 a = m a
  same : ∀ s o {m m'}, Set.EqOn m m' region →
    (act s m o).1 = (act s m' o).1 ∧ Set.EqOn (act s m o).2 (act s m' o).2 region

section Users

variable {U A B : Type*} [DecidableEq U] (users : U → User A B)

/-- Everyone's private state, and the memory. -/
abbrev Shared := (∀ u, (users u).State) × (A → B)

/-- One user takes a turn. -/
def turn (x : Shared users) (t : Σ u, (users u).Op) : Shared users :=
  let after := (users t.1).act (x.1 t.1) x.2 t.2
  (Function.update x.1 t.1 after.1, after.2)

theorem turn_self (x : Shared users) (u : U) (o : (users u).Op) :
    (turn users x ⟨u, o⟩).1 u = ((users u).act (x.1 u) x.2 o).1 :=
  Function.update_self ..

theorem turn_other (x : Shared users) {u : U} {t : Σ u, (users u).Op} (other : t.1 ≠ u) :
    (turn users x t).1 u = x.1 u :=
  Function.update_of_ne (Ne.symm other) ..

/-- A turn with the memory for itself. -/
def User.alone (user : User A B) (x : user.State × (A → B)) (o : user.Op) : user.State × (A → B) :=
  user.act x.1 x.2 o

/-- The operations of one user in a run. -/
def own (u : U) (turns : List (Σ u, (users u).Op)) : List (users u).Op :=
  turns.filterMap fun t => if h : t.1 = u then some (h ▸ t.2) else none

theorem own_self (u : U) (o : (users u).Op) (turns : List (Σ u, (users u).Op)) :
    own users u (⟨u, o⟩ :: turns) = o :: own users u turns := by
  simp [own]

theorem own_other {u : U} {t : Σ u, (users u).Op} (other : t.1 ≠ u) (turns : List (Σ u, (users u).Op)) :
    own users u (t :: turns) = own users u turns := by
  simp [own, other]

variable {users}

/-- A user takes part in a run as if it were alone. -/
theorem run_alone (apart : Pairwise fun u v => Disjoint (users u).region (users v).region) (u : U)
    (turns : List (Σ u, (users u).Op)) (x : Shared users) :
    let out := turns.foldl (turn users) x
    let mine := (own users u turns).foldl (users u).alone (x.1 u, x.2)
    out.1 u = mine.1 ∧ Set.EqOn out.2 mine.2 (users u).region := by
  -- the memories are alike on the region of the user only
  suffices alike : ∀ (x : Shared users) (y : (users u).State × (A → B)), x.1 u = y.1 →
      Set.EqOn x.2 y.2 (users u).region →
      (turns.foldl (turn users) x).1 u = ((own users u turns).foldl (users u).alone y).1 ∧
        Set.EqOn (turns.foldl (turn users) x).2 ((own users u turns).foldl (users u).alone y).2 (users u).region from
    alike x (x.1 u, x.2) rfl fun _ _ => rfl
  clear x
  induction turns with
  | nil => exact fun x y state region => ⟨state, region⟩
  | cons t turns ih =>
    intro x y state region
    rw [List.foldl_cons]
    by_cases mine : t.1 = u
    · obtain ⟨u, o⟩ := t
      subst mine
      rw [own_self, List.foldl_cons]
      obtain ⟨sameState, sameRegion⟩ := (users u).same y.1 o region
      refine ih (turn users x ⟨u, o⟩) _ ?_ ?_
      · rw [turn_self, state]
        exact sameState
      · dsimp only [turn]
        rw [state]
        exact sameRegion
    · rw [own_other users mine]
      refine ih (turn users x t) y ((turn_other users x mine).trans state) fun a inside => ?_
      have outside : a ∉ (users t.1).region := Set.disjoint_left.1 (apart (Ne.symm mine)) inside
      exact ((users t.1).kept _ _ _ a outside).trans (region inside)

theorem run_unowned {a : A} (unowned : ∀ u, a ∉ (users u).region) (turns : List (Σ u, (users u).Op))
    (x : Shared users) :
    (turns.foldl (turn users) x).2 a = x.2 a := by
  induction turns generalizing x with
  | nil => rfl
  | cons t turns ih =>
    rw [List.foldl_cons, ih]
    exact (users t.1).kept _ _ _ a (unowned t.1)

end Users

end Regions
