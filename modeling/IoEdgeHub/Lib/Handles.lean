import IoEdgeHub.Lib.Run
import Mathlib.Logic.Function.Basic

/-!
# Handles on shared cells

A resource is opened in a cell that it occupies until it is closed, and a close may fail. The
ledger records what was opened where and what was closed; `OneOwner` says that nothing was ever
opened in a cell that was still occupied. A holder table remembers the open handle of each cell;
as long as a failed close is remembered too, an empty place in it means a free cell. `Fenced` says
that nothing was opened after a close had failed.
-/

namespace Handles

variable {κ : Type*}

/-- A handle is opened in a cell or closed. -/
inductive Event (κ : Type*) where
  | opened (cell : κ) (h : ℕ)
  | closed (h : ℕ)
  | closeFailed (h : ℕ)
deriving DecidableEq, Repr

/-- The handle of an event. -/
def Event.handle : Event κ → ℕ
  | opened _ h | closed h | closeFailed h => h

/-- What happened so far; every handle given out is below `next` and was opened once. -/
structure Ledger (κ : Type*) where
  events : List (Event κ)
  next : ℕ
  fresh : ∀ e ∈ events, e.handle < next
  unique : ∀ cell cell' h, .opened cell h ∈ events → .opened cell' h ∈ events → cell = cell'

namespace Ledger

/-- Nothing has happened. -/
def empty : Ledger κ := ⟨[], 0, by simp, by simp⟩

/-- Open something in the cell; its handle is the ledger's `next`. -/
def opening (L : Ledger κ) (cell : κ) : Ledger κ where
  events := L.events ++ [.opened cell L.next]
  next := L.next + 1
  fresh := by
    intro e he
    rcases List.mem_append.1 he with old | new
    · exact Nat.lt_succ_of_lt (L.fresh e old)
    · rw [List.mem_singleton.1 new]
      exact Nat.lt_succ_self _
  unique := by
    have unused (c : κ) : .opened c L.next ∉ L.events := fun mem => Nat.lt_irrefl _ (L.fresh _ mem)
    intro c c' h hc hc'
    simp only [List.mem_append, List.mem_singleton, Event.opened.injEq] at hc hc'
    rcases hc with old | ⟨rfl, rfl⟩ <;> rcases hc' with old' | ⟨rfl, same⟩
    · exact L.unique c c' h old old'
    · exact absurd (same ▸ old) (unused c)
    · exact absurd old' (unused c')
    · rfl

/-- Close a handle, or fail to; closing a number that was never given out changes nothing. -/
def closing (L : Ledger κ) (h : ℕ) (ok : Bool) : Ledger κ :=
  if known : h < L.next then
    { events := L.events ++ [if ok then .closed h else .closeFailed h]
      next := L.next
      fresh := by
        intro e he
        rcases List.mem_append.1 he with old | new
        · exact L.fresh e old
        · rw [List.mem_singleton.1 new]
          cases ok <;> exact known
      unique := by
        intro c c' h' hc hc'
        have before (c : κ) (mem : .opened c h' ∈ L.events ++ [if ok then .closed h else .closeFailed h]) :
            .opened c h' ∈ L.events := by
          cases ok <;> simpa using mem
        exact L.unique c c' h' (before c hc) (before c' hc') }
  else L

end Ledger

/-- The handle occupies the cell after these events. -/
def Occupies (events : List (Event κ)) (cell : κ) (h : ℕ) : Prop :=
  .opened cell h ∈ events ∧ .closed h ∉ events

/-- Nothing was opened in an occupied cell. -/
def OneOwner : List (Event κ) → Prop :=
  Run.Each fun before e => ∀ cell h, e = .opened cell h → ∀ h', ¬ Occupies before cell h'

/-- Nothing was opened after a close had failed. -/
def Fenced : List (Event κ) → Prop :=
  Run.Each fun before e => ∀ cell h, e = .opened cell h → ∀ h', .closeFailed h' ∉ before

namespace Ledger

variable {L : Ledger κ} {cell cell' : κ} {h h' : ℕ} {ok : Bool}

/-- Some close has failed. -/
def Poisoned (L : Ledger κ) : Prop := ∃ h, .closeFailed h ∈ L.events

theorem fenced_opening : Fenced (L.opening cell).events ↔ Fenced L.events ∧ ¬ L.Poisoned := by
  rw [opening, Fenced, Run.each_snoc, Poisoned, not_exists]
  refine and_congr_right fun _ => ⟨fun last => last cell L.next rfl, fun last cell' h' _ => last⟩

theorem fenced_closing : Fenced (L.closing h ok).events ↔ Fenced L.events := by
  unfold closing
  split
  · rw [Fenced, Run.each_snoc]
    refine and_iff_left ?_
    intro cell h' same
    cases ok <;> cases same
  · rfl

theorem poisoned_opening : (L.opening cell).Poisoned ↔ L.Poisoned := by
  simp [Poisoned, opening]

theorem poisoned_closing (known : h < L.next) : (L.closing h ok).Poisoned ↔ L.Poisoned ∨ ok = false := by
  rw [closing, dif_pos known]
  cases ok
  · simp [Poisoned]
  · simp [Poisoned]

/-- A handle is open in a cell. -/
def Occupied (L : Ledger κ) (cell : κ) (h : ℕ) : Prop := Occupies L.events cell h

theorem Occupied.lt (occupied : L.Occupied cell h) : h < L.next := L.fresh _ occupied.1

theorem oneOwner_opening :
    OneOwner (L.opening cell).events ↔ OneOwner L.events ∧ ∀ h, ¬ L.Occupied cell h := by
  rw [opening, OneOwner, Run.each_snoc]
  refine and_congr_right fun _ => ⟨fun last => last cell L.next rfl, fun last cell' h' same => ?_⟩
  cases same
  exact last

theorem oneOwner_closing : OneOwner (L.closing h ok).events ↔ OneOwner L.events := by
  unfold closing
  split
  · rw [OneOwner, Run.each_snoc]
    refine and_iff_left ?_
    intro cell h' same
    cases ok <;> cases same
  · rfl

theorem occupied_opening :
    (L.opening cell).Occupied cell' h ↔ (cell' = cell ∧ h = L.next) ∨ L.Occupied cell' h := by
  have unused : Event.closed L.next ∉ L.events := fun mem => Nat.lt_irrefl _ (L.fresh _ mem)
  simp only [Occupied, Occupies, opening, List.mem_append, List.mem_singleton, reduceCtorEq, or_false,
    Event.opened.injEq]
  constructor
  · rintro ⟨old | ⟨rfl, rfl⟩, notClosed⟩
    · exact .inr ⟨old, notClosed⟩
    · exact .inl ⟨rfl, rfl⟩
  · rintro (⟨rfl, rfl⟩ | ⟨old, notClosed⟩)
    · exact ⟨.inr ⟨rfl, rfl⟩, unused⟩
    · exact ⟨.inl old, notClosed⟩

theorem occupied_closing_true :
    (L.closing h true).Occupied cell h' ↔ L.Occupied cell h' ∧ h' ≠ h := by
  unfold closing
  split
  · simp only [Occupied, Occupies, List.mem_append, List.mem_singleton, if_true, reduceCtorEq, or_false,
      Event.closed.injEq, not_or]
    tauto
  · rename_i unknown
    refine ⟨fun occupied => ⟨occupied, ?_⟩, And.left⟩
    rintro rfl
    exact unknown occupied.lt

theorem occupied_closing_false : (L.closing h false).Occupied cell h' ↔ L.Occupied cell h' := by
  unfold closing
  split
  · simp [Occupied, Occupies]
  · rfl

theorem Occupied.cell_eq (occupied : L.Occupied cell h) (occupied' : L.Occupied cell' h) : cell = cell' :=
  L.unique cell cell' h occupied.1 occupied'.1

end Ledger

/-! ## A table of holders -/

/-- The open handle of each cell, and whether a close has failed. -/
structure Holders (κ : Type*) where
  table : κ → Option ℕ
  bad : Bool
  ledger : Ledger κ

namespace Holders

variable [DecidableEq κ] {H : Holders κ} {c : κ}

/-- Close what the cell holds, if anything. -/
def close (H : Holders κ) (c : κ) (ok : Bool) : Holders κ :=
  match H.table c with
  | none => H
  | some h => ⟨Function.update H.table c none, H.bad || !ok, H.ledger.closing h ok⟩

/-- A handle is put into a cell. -/
def opening (H : Holders κ) (c : κ) : Holders κ :=
  ⟨Function.update H.table c (some H.ledger.next), H.bad, H.ledger.opening c⟩

/-- What is held is open. -/
def Sound (H : Holders κ) : Prop := ∀ c h, H.table c = some h → H.ledger.Occupied c h

/-- What is open is held, unless a close has failed. -/
def Tracked (H : Holders κ) : Prop := ∀ c h, H.ledger.Occupied c h → H.bad ∨ H.table c = some h

theorem close_empty (empty : H.table c = none) (ok : Bool) : H.close c ok = H := by
  rw [close, empty]

theorem close_held {h : ℕ} (held : H.table c = some h) (ok : Bool) :
    H.close c ok = ⟨Function.update H.table c none, H.bad || !ok, H.ledger.closing h ok⟩ := by
  rw [close, held]

@[simp] theorem table_opening_self (H : Holders κ) (c : κ) : (H.opening c).table c = some H.ledger.next :=
  Function.update_self ..

theorem table_opening_ne {c' : κ} (ne : c' ≠ c) : (H.opening c).table c' = H.table c' :=
  Function.update_of_ne ne ..

@[simp] theorem table_close_self (H : Holders κ) (c : κ) (ok : Bool) : (H.close c ok).table c = none := by
  rcases held : H.table c with _ | h
  · rwa [close_empty held]
  · rw [close_held held]
    exact Function.update_self ..

theorem table_close_ne {c' : κ} (ne : c' ≠ c) (ok : Bool) : (H.close c ok).table c' = H.table c' := by
  rcases held : H.table c with _ | h
  · rw [close_empty held]
  · rw [close_held held]
    exact Function.update_of_ne ne ..

theorem Sound.close (sound : H.Sound) (c : κ) (ok : Bool) : (H.close c ok).Sound := by
  rcases held : H.table c with _ | h
  · rwa [close_empty held]
  intro c' h' held'
  have ne : c' ≠ c := by
    rintro rfl
    simp at held'
  rw [table_close_ne ne] at held'
  have occupied := sound c' h' held'
  rw [close_held held]
  cases ok with
  | false => exact Ledger.occupied_closing_false.2 occupied
  | true =>
    refine Ledger.occupied_closing_true.2 ⟨occupied, ?_⟩
    rintro rfl
    exact ne (occupied.cell_eq (sound c h' held))

theorem Sound.opening (sound : H.Sound) (c : κ) : (H.opening c).Sound := by
  intro c' h' held'
  refine Ledger.occupied_opening.2 ?_
  by_cases same : c' = c
  · subst same
    rw [table_opening_self] at held'
    exact .inl ⟨rfl, (Option.some.inj held').symm⟩
  · rw [table_opening_ne same] at held'
    exact .inr (sound c' h' held')

theorem Tracked.close (tracked : H.Tracked) (c : κ) (ok : Bool) : (H.close c ok).Tracked := by
  rcases held : H.table c with _ | h
  · rwa [close_empty held]
  intro c' h' occupied'
  rw [close_held held] at occupied'
  cases ok with
  | false =>
    rw [close_held held]
    exact .inl (by simp)
  | true =>
    obtain ⟨occupied, ne⟩ := Ledger.occupied_closing_true.1 occupied'
    rcases tracked c' h' occupied with bad | held'
    · rw [close_held held]
      exact .inl (by simp [bad])
    · have other : c' ≠ c := by
        rintro rfl
        exact ne (Option.some.inj (held'.symm.trans held))
      exact .inr ((table_close_ne other true).trans held')

theorem Tracked.opening (tracked : H.Tracked) (free : H.table c = none) : (H.opening c).Tracked := by
  intro c' h' occupied'
  rcases Ledger.occupied_opening.1 occupied' with ⟨rfl, rfl⟩ | occupied
  · exact .inr (table_opening_self ..)
  · refine (tracked c' h' occupied).imp id fun held => ?_
    have other : c' ≠ c := by
      rintro rfl
      rw [free] at held
      cases held
    exact (table_opening_ne other).trans held

theorem oneOwner_close (H : Holders κ) (c : κ) (ok : Bool) :
    OneOwner (H.close c ok).ledger.events ↔ OneOwner H.ledger.events := by
  unfold close
  split
  · rfl
  · exact Ledger.oneOwner_closing

/-- An empty place means a free cell, as long as every close succeeded. -/
theorem oneOwner_opening (tracked : H.Tracked) (good : H.bad = false) (free : H.table c = none) :
    OneOwner (H.opening c).ledger.events ↔ OneOwner H.ledger.events := by
  refine Ledger.oneOwner_opening.trans (and_iff_left ?_)
  intro h occupied
  rcases tracked c h occupied with bad | held
  · rw [good] at bad
    cases bad
  · rw [free] at held
    cases held

/-- A failed close is remembered. -/
def Marked (H : Holders κ) : Prop := H.ledger.Poisoned ↔ H.bad = true

omit [DecidableEq κ] in
theorem Marked.iff (marked : H.Marked) : H.ledger.Poisoned ↔ H.bad = true := marked

theorem Marked.close (marked : H.Marked) (sound : H.Sound) (c : κ) (ok : Bool) : (H.close c ok).Marked := by
  rcases held : H.table c with _ | h
  · rwa [close_empty held]
  · rw [close_held held, Marked, Ledger.poisoned_closing (sound c h held).lt, marked.iff]
    simp

theorem Marked.opening (marked : H.Marked) (c : κ) : (H.opening c).Marked :=
  Ledger.poisoned_opening.trans marked

theorem fenced_close (H : Holders κ) (c : κ) (ok : Bool) :
    Fenced (H.close c ok).ledger.events ↔ Fenced H.ledger.events := by
  unfold close
  split
  · rfl
  · exact Ledger.fenced_closing

theorem fenced_opening (marked : H.Marked) :
    Fenced (H.opening c).ledger.events ↔ Fenced H.ledger.events ∧ H.bad = false := by
  rw [opening, Ledger.fenced_opening, marked.iff, Bool.not_eq_true]

/-- Opening over something that is still open breaks the rule. -/
theorem not_oneOwner_opening {h : ℕ} (occupied : H.ledger.Occupied c h) :
    ¬ OneOwner (H.opening c).ledger.events :=
  fun owner => (Ledger.oneOwner_opening.1 owner).2 h occupied

end Holders

end Handles
