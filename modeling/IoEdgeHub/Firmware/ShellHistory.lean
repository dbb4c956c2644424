import IoEdgeHub.Firmware.ShellEditor
import IoEdgeHub.Lib.Ring

/-!
# The history of the debug shell as a list

`Hist` of `shell.rs` keeps its lines in a ring of eight NUL-terminated slots.  What it holds after any
lines have been stored are the eight newest of them, without repetitions (`Hist.Holds`, kept by
`exists_store`), and `get` finds them by their age.
-/

namespace IoEdgeHub.Hist

open Bytes ShellLine

/-- A line that fits a slot with its NUL. -/
def Line (line : List UInt8) : Prop := line.length ≤ 95 ∧ 0 ∉ line

instance (line : List UInt8) : Decidable (Line line) := inferInstanceAs (Decidable (_ ∧ _))

/-- The slot of a line. -/
def slotOf (line : List UInt8) : ShellLine := overwrite empty line

/-- A kept line by its place. -/
def slotAt (h : Hist) (i : ℕ) : ShellLine := h.lines[i]?.getD empty

/-- The lines in the ring, newest first. -/
structure Holds (h : Hist) (kept : List (List UInt8)) : Prop where
  len : h.len = kept.length
  shows : Ring.Shows 8 h.slotAt h.newest (kept.map slotOf)
  lines : ∀ line ∈ kept, Line line

theorem holds_new : Holds new [] := ⟨rfl, Ring.shows_nil .., nofun⟩

/-! ## Slots -/

variable {h : Hist} {kept : List (List UInt8)} {line : List UInt8}

theorem toList_slotOf (fits : Line line) :
    (slotOf line).toList = line ++ 0 :: List.replicate (95 - line.length) 0 := by
  have short : line.length < lineMax := Nat.lt_succ_of_le fits.1
  exact toList_overwrite_zeros short

theorem cstr_slotOf (fits : Line line) : (slotOf line).cstr = line := by
  rw [cstr, toList_slotOf fits, takeWhile_nul fits.2]

theorem get_lines (h : Hist) (i : Fin 8) : h.lines.get i = h.slotAt i := by
  rw [slotAt, Vector.getElem?_eq_getElem i.isLt]
  rfl

theorem Holds.newest_slot (holds : Holds h (line :: kept)) :
    h.lines.get h.newest = slotOf line := by
  have held := holds.shows.held 0 (Nat.zero_lt_succ _)
  rw [Ring.slot_zero h.newest.isLt, List.map_cons, List.getElem?_cons_zero, ← get_lines] at held
  exact (Option.some.inj held).symm

theorem Holds.isNewest (holds : Holds h kept) (fits : Line line) :
    h.isNewest line = some (decide (kept.head? = some line)) := by
  unfold Hist.isNewest
  dsimp only
  cases kept with
  | nil =>
    have empty : h.len = 0 := holds.len
    rw [if_pos empty]
    rfl
  | cons newest kept =>
    have some_lines : h.len ≠ 0 := by
      rw [holds.len]
      exact Nat.succ_ne_zero _
    have text := holds.lines newest List.mem_cons_self
    have same := terminated_iff text.2 fits.2 (List.replicate (95 - newest.length) 0)
    have size : (slotOf newest).toList.length = 96 := Vector.length_toList
    have inside := fits.1
    obtain ⟨b, here⟩ : ∃ b, (slotOf newest).toList[line.length]? = some b := ⟨_, List.getElem?_eq_getElem (by omega)⟩
    rw [← toList_slotOf text, here, Option.some_inj, ← Option.some_inj (a := newest)] at same
    rw [if_neg some_lines, holds.newest_slot, slice_eq (Nat.zero_le _) (by omega), Option.bind_eq_bind,
      Option.bind_some,
      List.drop_zero, Nat.sub_zero, ← Vector.getElem?_toList, here, List.head?_cons]
    by_cases front : (slotOf newest).toList.take line.length = line
    · rw [if_neg (not_not.2 front)]
      exact congrArg some (decide_eq_decide.2 ((and_iff_right front).symm.trans same))
    · rw [if_pos front]
      exact congrArg some (decide_eq_false fun equal => front (same.2 equal).1).symm

/-! ## Storing lines -/

theorem slotAt_set (h : Hist) (k : Fin 8) (slot : ShellLine) (len : ℕ) {j : ℕ} (here : k.val = j) :
    slotAt ⟨h.lines.set k slot k.isLt, len, k⟩ j = slot ∧
      ∀ i, i ≠ j → slotAt ⟨h.lines.set k slot k.isLt, len, k⟩ i = h.slotAt i := by
  subst here
  unfold slotAt
  refine ⟨?_, ?_⟩
  · rw [Vector.getElem?_set_self]
    rfl
  · intro i other
    rw [Vector.getElem?_set_ne _ other.symm]

/-- A line is stored in front of the others, unless it is the newest one. -/
theorem exists_store (holds : Holds h kept) (fits : Line line) :
    ∃ h', h.store line = some h' ∧ Holds h' (if kept.head? = some line then kept else (line :: kept).take 8) := by
  unfold Hist.store
  rw [holds.isNewest fits, Option.bind_eq_bind, Option.bind_some]
  by_cases repeated : kept.head? = some line
  · rw [decide_eq_true repeated, if_pos repeated]
    exact ⟨h, rfl, holds⟩
  · rw [decide_eq_false repeated, if_neg repeated]
    have few := holds.shows.few
    rw [List.length_map] at few
    have whole : line.take (lineMax - 1) = line := List.take_of_length_le fits.1
    have next : (h.newest + 1).val = (h.newest.val + 1) % 8 := Fin.val_add h.newest 1
    obtain ⟨written, others⟩ := h.slotAt_set (h.newest + 1) (slotOf line) (if h.len < 8 then h.len + 1 else h.len) next
    have pushed := holds.shows.push h.newest.isLt (slotOf line) written others
    rw [← List.map_cons, ← List.map_take, ← next] at pushed
    rw [whole]
    refine ⟨_, rfl, ?_, pushed, ?_⟩
    · have len := holds.len
      rw [List.length_take, List.length_cons]
      dsimp only
      split <;> omega
    · intro l member
      rcases List.mem_cons.1 (List.mem_of_mem_take member) with rfl | older
      · exact fits
      · exact holds.lines l older

/-- After any lines, the ring holds the newest of them. -/
theorem exists_stores (lines : List (List UInt8)) (fit : ∀ line ∈ lines, Line line) :
    ∃ h, lines.foldlM store new = some h ∧ Holds h (Ring.recent 8 lines) := by
  induction lines using List.reverseRecOn with
  | nil => exact ⟨new, rfl, holds_new⟩
  | append_singleton lines line ih =>
    obtain ⟨h, stored, holds⟩ := ih fun l member => fit l (List.mem_append_left _ member)
    obtain ⟨h', last, holds'⟩ := exists_store holds (fit line (List.mem_append_right _ (List.mem_singleton.2 rfl)))
    refine ⟨h', ?_, ?_⟩
    · rw [List.foldlM_append, stored]
      simp [last]
    · rw [Ring.recent_concat (by decide)]
      exact holds'

theorem Holds.get (holds : Holds h kept) (nav : ℕ) : h.get nav = kept[nav]? := by
  rw [Hist.get, holds.len]
  by_cases past : nav ≥ kept.length
  · rw [if_pos past, List.getElem?_eq_none past]
  · rw [if_neg past]
    have held := holds.shows.held nav (by rw [List.length_map]; omega)
    rw [List.getElem?_map] at held
    obtain ⟨line, found, same⟩ := Option.map_eq_some_iff.1 held
    have slot : h.lines.get (Fin.ofNat 8 (h.newest + 8 - nav)) = slotOf line := (h.get_lines _).trans same.symm
    rw [slot, cstr_slotOf (holds.lines line (List.mem_of_getElem? found)), found]

/-- The history is the list of the newest lines: whatever lines have been stored, `get` gives the eight newest by
their age, those left out that repeat the one before, and nothing beyond. -/
theorem get_stored (lines : List (List UInt8)) (fit : ∀ line ∈ lines, line.length ≤ 95 ∧ 0 ∉ line) :
    ∃ h, lines.foldlM store new = some h ∧
      ∀ nav, h.get nav = ((lines.destutter (· ≠ ·)).reverse.take 8)[nav]? := by
  obtain ⟨h, stored, holds⟩ := exists_stores lines fit
  exact ⟨h, stored, holds.get⟩

/-- Ten lines, one of them twice in a row and one that comes back later. -/
theorem get_stored_wrapped :
    ∃ h, [[0x61], [0x62], [0x62], [0x63], [0x64], [0x65], [0x66], [0x67], [0x61], [0x68]].foldlM store new = some h ∧
      h.get 0 = some [0x68] ∧ h.get 1 = some [0x61] ∧ h.get 7 = some [0x62] ∧ h.get 8 = none := by
  obtain ⟨h, stored, got⟩ := get_stored [[0x61], [0x62], [0x62], [0x63], [0x64], [0x65], [0x66], [0x67], [0x61], [0x68]]
    (by decide)
  exact ⟨h, stored, got 0, got 1, got 7, got 8⟩

end IoEdgeHub.Hist
