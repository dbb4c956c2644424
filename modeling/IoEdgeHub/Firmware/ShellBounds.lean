import IoEdgeHub.Firmware.ShellEditor
import IoEdgeHub.Lib.Run

/-!
# The line editor stays in its buffers

What the editor relies on is `Sound`: the cursor is inside the text, and the text is inside the line and
ends with a NUL.  Every byte keeps it, except a Tab that completes the only command behind a line of 95
bytes: it writes a blank and then a NUL past the end (`step_eq_none_iff`).
-/

namespace IoEdgeHub

open Text
open Bytes (store slice overwrite store_of_lt slice_eq)

namespace ShellLine

/-! ## Lines -/

variable {i n : ℕ}

theorem length_cstr_le {l : ShellLine} (nul : l[i]? = some 0) : l.cstr.length ≤ i := by
  rw [← Vector.getElem?_toList] at nul
  exact Bytes.length_takeWhile_le nul rfl

/-- What is copied over a cleared line ends with a NUL. -/
theorem overwrite_nul {src : List UInt8} (short : src.length ≤ 95) : (overwrite empty src)[src.length]? = some 0 := by
  have inside : src.length < lineMax := by
    unfold lineMax
    omega
  rw [Vector.getElem?_eq_getElem inside, overwrite, Vector.getElem_ofFn]
  simp [empty]

theorem length_cursorMove : ∀ count : Fin 96, (cursorMove count 'D').length ≤ 5 := by
  decide +kernel

theorem redrawPut_eq {buf piece : List UInt8} (room : buf.length + piece.length ≤ 112) :
    redrawPut buf piece = some (buf ++ piece) := if_pos room

theorem slice_front (line : ShellLine) (inside : n ≤ 96) :
    slice line.toList 0 n = some (line.toList.take n) ∧ (line.toList.take n).length = n := by
  have size : line.toList.length = 96 := Vector.length_toList
  refine ⟨?_, List.length_take_of_le (by omega)⟩
  rw [slice_eq (Nat.zero_le _) (by omega)]
  rfl

theorem redraw_isSome (line : ShellLine) (inside : n ≤ 95) (pos : ℕ) : ∃ out, line.redraw n pos = some out := by
  obtain ⟨text, length⟩ := slice_front line (by omega : n ≤ 96)
  have head : (utf8 "\rio> ").length = 5 := rfl
  have clear : (utf8 "\x1B[K").length = 3 := rfl
  unfold redraw
  rw [redrawPut_eq (by rw [head]; decide), text]
  simp only [Option.bind_eq_bind, Option.bind_some, List.nil_append]
  rw [redrawPut_eq (by omega), Option.bind_some, redrawPut_eq (by rw [List.length_append]; omega), Option.bind_some]
  split
  · have short : (cursorMove (n - pos) 'D').length ≤ 5 := length_cursorMove ⟨n - pos, by omega⟩
    rw [redrawPut_eq (by rw [List.length_append, List.length_append]; omega)]
    exact ⟨_, rfl⟩
  · exact ⟨_, rfl⟩

theorem copyWithin_isSome (line : ShellLine) {lo hi dest : ℕ} (order : lo ≤ hi) (inside : hi ≤ 95)
    (room : dest ≤ lo + 1) : ∃ line', line.copyWithin lo hi dest = some line' :=
  ⟨_, if_pos ⟨order, by unfold lineMax; omega, by unfold lineMax; omega⟩⟩

theorem store_nul (line : ShellLine) (inside : n ≤ 95) : ∃ line', store line n 0 = some line' ∧ line'[n]? = some 0 := by
  have below : n < lineMax := by
    unfold lineMax
    omega
  exact ⟨_, store_of_lt line 0 below, by simp [below]⟩

theorem store_isSome (line : ShellLine) (inside : n ≤ 95) (b : UInt8) : ∃ line', store line n b = some line' :=
  ⟨_, store_of_lt line b (by unfold lineMax; omega)⟩

/-! ## Completion -/

theorem skip_bounds (p : UInt8 → Bool) (l : ShellLine) (left i : ℕ) (inside : i + left ≤ 96) :
    ∃ j, skip p l left i = some j ∧ i ≤ j ∧ j ≤ i + left ∧ ∀ b, j < i + left → l[j]? = some b → p b = false := by
  induction left generalizing i with
  | zero => exact ⟨i, rfl, le_rfl, le_rfl, fun b below => absurd below (Nat.lt_irrefl _)⟩
  | succ left ih =>
    have below : i < lineMax := by
      unfold lineMax
      omega
    rw [skip, Vector.getElem?_eq_getElem below, Option.bind_eq_bind, Option.bind_some]
    by_cases more : p l[i] = true
    · rw [if_pos more]
      obtain ⟨j, ran, low, high, stop⟩ := ih (i + 1) (by omega)
      exact ⟨j, ran, by omega, by omega, fun b inside' => stop b (by omega)⟩
    · rw [if_neg more]
      refine ⟨i, rfl, le_rfl, by omega, fun b _ here => ?_⟩
      rw [Vector.getElem?_eq_getElem below] at here
      rw [← Option.some.inj here]
      exact Bool.eq_false_of_not_eq_true more

theorem word_moves {l : ShellLine} {w j : ℕ} (inside : n ≤ 96) (below : w < n)
    (word : ∀ b, l[w]? = some b → isBlank b = false) (passed : skip (!isBlank ·) l (n - w) w = some j) :
    w < j := by
  have here : w < lineMax := by
    unfold lineMax
    omega
  have first := word _ (Vector.getElem?_eq_getElem here)
  obtain ⟨left, size⟩ : ∃ left, n - w = left + 1 := ⟨n - w - 1, by omega⟩
  rw [size, skip, Vector.getElem?_eq_getElem here, Option.bind_eq_bind, Option.bind_some, first, Bool.not_false,
    if_pos rfl] at passed
  obtain ⟨j', ran, low, -⟩ := skip_bounds (!isBlank ·) l left (w + 1) (by omega)
  obtain rfl := Option.some.inj (passed.symm.trans ran)
  exact low

/-- The walk over the words never leaves the line and always ends; the last word ends with the text. -/
theorem completeLevelFrom_bounds (line : ShellLine) (inside : n ≤ 96) {fuel : ℕ} (low : i ≤ n)
    (enough : n < i + fuel) (tbl : Option (List Cmd)) :
    ∃ tbl' w len, completeLevelFrom line n fuel tbl i = some (tbl', w, len) ∧ w + len = n := by
  induction fuel generalizing i tbl with
  | zero => omega
  | succ fuel ih =>
    rw [completeLevelFrom]
    by_cases more : i < n
    · rw [if_pos more]
      obtain ⟨w, skipped, wLow, wHigh, atWord⟩ := skip_bounds isBlank line (n - i) i (by omega)
      rw [skipped, Option.bind_eq_bind, Option.bind_some]
      by_cases blankEnd : w = n
      · rw [if_pos blankEnd]
        exact ⟨tbl, n, 0, rfl, rfl⟩
      rw [if_neg blankEnd]
      obtain ⟨j, passed, -, jHigh, -⟩ := skip_bounds (!isBlank ·) line (n - w) w (by omega)
      rw [passed, Option.bind_eq_bind, Option.bind_some]
      by_cases wordEnd : j = n
      · rw [if_pos wordEnd]
        exact ⟨tbl, w, j - w, rfl, by omega⟩
      rw [if_neg wordEnd]
      have moved : w < j := word_moves inside (by omega) (fun b => atWord b (by omega)) passed
      have size : line.toList.length = 96 := Vector.length_toList
      cases tbl with
      | none => exact ih (by omega) (by omega) none
      | some t =>
        dsimp only
        rw [slice_eq moved.le (by omega)]
        exact ih (by omega) (by omega) _
    · rw [if_neg more]
      exact ⟨tbl, n, 0, rfl, rfl⟩

theorem candidates_isSome (line : ShellLine) {wstart wlen : ℕ} (inside : wstart + wlen ≤ 96) (tbl cand : List Cmd) :
    ∃ cand', candidates line wstart wlen tbl cand = some cand' := by
  have size : line.toList.length = 96 := Vector.length_toList
  have word := (slice_eq (Nat.le_add_right wstart wlen) (by omega) : slice line.toList wstart (wstart + wlen) = _)
  induction tbl generalizing cand with
  | nil => exact ⟨cand, rfl⟩
  | cons c tbl ih =>
    rw [candidates, word]
    split
    · rw [Option.bind_eq_bind, Option.bind_some]
      split
      · exact ih _
      · exact ih _
    · exact ih _

theorem offered_isSome (line : ShellLine) (inside : n ≤ 96) : ∃ cand wlen, offered line n = some (cand, wlen) := by
  obtain ⟨tbl, w, len, level, ends⟩ :=
    completeLevelFrom_bounds line inside (Nat.zero_le n) (by omega : n < 0 + (n + 1)) (some rootCmds)
  rw [offered, completeLevel, level, Option.bind_eq_bind, Option.bind_some]
  cases tbl with
  | none => exact ⟨[], len, rfl⟩
  | some tbl =>
    obtain ⟨cand, found⟩ := candidates_isSome line (by omega : w + len ≤ 96) tbl []
    dsimp only
    rw [found]
    exact ⟨cand, len, rfl⟩

theorem append_bounds {room : ℕ} (bs : List UInt8) (line : ShellLine) (pos : 0 < room) (inside : n + room ≤ 96) :
    ∃ line' m, append room bs line n = some (line', m) ∧ n ≤ m ∧ m + room ≤ 96 := by
  induction bs generalizing line n with
  | nil => exact ⟨line, n, rfl, le_rfl, inside⟩
  | cons b bs ih =>
    rw [append]
    by_cases full : n + room ≥ lineMax
    · rw [if_pos full]
      exact ⟨line, n, rfl, le_rfl, inside⟩
    · rw [if_neg full]
      unfold lineMax at full
      obtain ⟨line', stored⟩ := store_isSome line (by omega : n ≤ 95) b
      obtain ⟨line'', m, ran, low, high⟩ := ih line' (by omega : n + 1 + room ≤ 96)
      rw [stored, Option.bind_eq_bind, Option.bind_some]
      exact ⟨line'', m, ran, by omega, high⟩

theorem append_full {room : ℕ} (bs : List UInt8) (line : ShellLine) (full : n + room ≥ 96) :
    append room bs line n = some (line, n) := by
  cases bs with
  | nil => rfl
  | cons b bs => exact if_pos full

/-- The text is inside the line and ends with a NUL. -/
def Holds (l : ShellLine) (n : ℕ) : Prop := n ≤ 95 ∧ l[n]? = some 0

/-- The only command fits behind 94 bytes, with its blank; behind 95 there is no room for the NUL. -/
theorem completeOne_bounds (line : ShellLine) (inside : n ≤ 95) (rest : List UInt8) :
    (n = 95 → completeOne line n rest = none) ∧
      (n ≤ 94 → ∃ line' m outs, completeOne line n rest = some (line', m, outs) ∧ Holds line' m) := by
  unfold completeOne
  constructor
  · rintro rfl
    obtain ⟨line', blank⟩ := store_isSome line (by decide : 95 ≤ 95) 0x20
    rw [append_full rest line (by decide), Option.bind_eq_bind, Option.bind_some]
    dsimp only
    rw [blank]
    rfl
  · intro room
    obtain ⟨line₁, m, appended, low, high⟩ := append_bounds rest line (by decide : 0 < 2) (by omega : n + 2 ≤ 96)
    obtain ⟨line₂, blank⟩ := store_isSome line₁ (by omega : m ≤ 95) 0x20
    obtain ⟨line₃, ended, nul⟩ := store_nul line₂ (by omega : m + 1 ≤ 95)
    have size : line₃.toList.length = 96 := Vector.length_toList
    have typed := (slice_eq (by omega) (by omega) : slice line₃.toList n (m + 1) = _)
    rw [appended, Option.bind_eq_bind, Option.bind_some]
    dsimp only
    rw [blank, Option.bind_eq_bind, Option.bind_some, ended, Option.bind_eq_bind, Option.bind_some, typed]
    exact ⟨line₃, m + 1, _, rfl, by omega, nul⟩

theorem completeMany_bounds (line : ShellLine) (inside : n ≤ 95) (wlen : ℕ) (first : Cmd) (others : List Cmd) :
    ∃ line' m outs, completeMany line n wlen first others = some (line', m, outs) ∧ Holds line' m := by
  unfold completeMany
  obtain ⟨line₁, m, appended, -, high⟩ := append_bounds ((first.bytes.take (lcp first others)).drop wlen) line
    (by decide : 0 < 1) (by omega : n + 1 ≤ 96)
  obtain ⟨line₂, ended, nul⟩ := store_nul line₁ (by omega : m ≤ 95)
  rw [appended, Option.bind_eq_bind, Option.bind_some]
  dsimp only
  rw [ended, Option.bind_eq_bind, Option.bind_some, (slice_front line₂ (by omega)).1]
  exact ⟨line₂, m, _, rfl, by omega, nul⟩

/-- One command is left for the last word. -/
def OneOffered (line : ShellLine) (n : ℕ) : Prop := ∃ c wlen, offered line n = some ([c], wlen)

theorem complete_bounds {line : ShellLine} (holds : Holds line n) :
    (n = 95 ∧ OneOffered line n → complete line n = none) ∧
      (¬(n = 95 ∧ OneOffered line n) → ∃ line' m outs, complete line n = some (line', m, outs) ∧ Holds line' m) := by
  obtain ⟨cand, wlen, found⟩ := offered_isSome line (by have := holds.1; omega : n ≤ 96)
  unfold complete OneOffered
  rw [found, Option.bind_eq_bind, Option.bind_some]
  match cand with
  | [] =>
    refine ⟨?_, fun _ => ⟨line, n, [], rfl, holds⟩⟩
    rintro ⟨-, c, _, one⟩
    cases one
  | [c] =>
    obtain ⟨full, room⟩ := completeOne_bounds line holds.1 (c.bytes.drop wlen)
    refine ⟨fun h => full h.1, fun h => room ?_⟩
    have := holds.1
    by_contra last
    exact h ⟨by omega, c, wlen, rfl⟩
  | c :: d :: others =>
    refine ⟨?_, fun _ => completeMany_bounds line holds.1 wlen c (d :: others)⟩
    rintro ⟨-, _, _, one⟩
    cases one

end ShellLine

open ShellLine

/-! ## History -/

namespace Hist

/-- No slot is full. -/
structure Sound (h : Hist) : Prop where
  few : h.len ≤ 8
  short : ∀ i : Fin 8, (h.lines.get i).cstr.length ≤ 95

theorem new_sound : new.Sound := ⟨Nat.zero_le _, by decide +kernel⟩

theorem isNewest_isSome (h : Hist) {line : List UInt8} (inside : line.length ≤ 95) :
    ∃ same, h.isNewest line = some same := by
  have size : (h.lines.get h.newest).toList.length = 96 := Vector.length_toList
  unfold isNewest
  dsimp only
  split
  · exact ⟨false, rfl⟩
  · rw [(slice_front _ (by omega)).1, Option.bind_eq_bind, Option.bind_some]
    split
    · exact ⟨false, rfl⟩
    · rw [Vector.getElem?_eq_getElem (by unfold lineMax; omega)]
      exact ⟨_, rfl⟩

theorem set_short {h : Hist} (sound : h.Sound) {slot : ShellLine} (short : slot.cstr.length ≤ 95) {k : Fin 8}
    (i : Fin 8) :
    ((h.lines.set k slot k.isLt).get i).cstr.length ≤ 95 := by
  by_cases here : k = i
  · subst here
    have same : (h.lines.set k slot k.isLt).get k = slot := Vector.getElem_set_self ..
    rwa [same]
  · have same : (h.lines.set k slot k.isLt).get i = h.lines.get i :=
      Vector.getElem_set_ne _ _ fun eq => here (Fin.ext eq)
    rw [same]
    exact sound.short i

theorem store_sound {h : Hist} (sound : h.Sound) {line : List UInt8} (inside : line.length ≤ 95) :
    ∃ h', h.store line = some h' ∧ h'.Sound := by
  obtain ⟨same, found⟩ := h.isNewest_isSome inside
  unfold store
  rw [found, Option.bind_eq_bind, Option.bind_some]
  cases same with
  | true => exact ⟨h, rfl, sound⟩
  | false =>
    have few := sound.few
    have cut : (line.take (lineMax - 1)).length ≤ 95 := List.length_take_le ..
    have slot := (length_cstr_le (overwrite_nul cut)).trans cut
    refine ⟨_, rfl, ?_, fun i => ?_⟩
    · dsimp only
      split <;> omega
    · exact set_short sound slot i

theorem get_short {h : Hist} (sound : h.Sound) {nav : ℕ} {line : List UInt8} (found : h.get nav = some line) :
    line.length ≤ 95 := by
  unfold get at found
  split_ifs at found
  obtain rfl := Option.some.inj found
  exact sound.short _

end Hist

/-! ## The editor -/

namespace ShellEditor

/-- What the editor relies on; the index of the history stays inside it. -/
structure Sound (e : ShellEditor) : Prop where
  cursor : e.pos ≤ e.n
  text : Holds e.line e.n
  draft : e.draft.cstr.length ≤ 95
  hist : e.hist.Sound
  nav : -1 ≤ e.nav ∧ e.nav < 8

/-- A byte that is taken, and leaves the editor sound. -/
def Stays (r : Result) : Prop := ∃ e outs, r = some (e, outs) ∧ e.Sound

variable {e : ShellEditor}

theorem Sound.stays (sound : e.Sound) (outs : List ShellOut) : Stays (some (e, outs)) :=
  ⟨e, outs, rfl, sound⟩

theorem new_sound : new.Sound where
  cursor := le_rfl
  text := ⟨by decide, by decide +kernel⟩
  draft := by decide +kernel
  hist := Hist.new_sound
  nav := by decide

theorem edit_stays (sound : e.Sound) {src : List UInt8} (short : src.length ≤ 95) :
    Stays (e.edit src) := by
  have copied : loadLine src = some (overwrite empty src) := if_pos (by unfold lineMax; omega)
  obtain ⟨out, drawn⟩ := redraw_isSome (overwrite empty src) short src.length
  have ran : e.edit src =
      some ({ e with line := overwrite empty src, n := src.length, pos := src.length }, [out]) := by
    rw [edit, copied, Option.bind_eq_bind, Option.bind_some, drawn]
    rfl
  have text : Holds (overwrite empty src) src.length := ⟨short, overwrite_nul short⟩
  have sound' : Sound { e with line := overwrite empty src, n := src.length, pos := src.length } :=
    ⟨le_rfl, text, sound.draft, sound.hist, sound.nav⟩
  rw [ran]
  exact sound'.stays _

theorem recalled_stays (sound : e.Sound) :
    Stays (match e.hist.get e.nav.toNat with
      | some h => e.edit h
      | none => some (e, [])) := by
  split
  · next found => exact edit_stays sound (Hist.get_short sound.hist found)
  · exact sound.stays []

theorem arrowUp_stays (sound : e.Sound) : Stays e.arrowUp := by
  have few := sound.hist.few
  refine recalled_stays ?_
  split_ifs
  · have draft : e.line.cstr.length ≤ 95 := (length_cstr_le sound.text.2).trans sound.text.1
    have nav : (-1 : ℤ) ≤ 0 ∧ (0 : ℤ) < 8 := by decide
    exact ⟨sound.cursor, sound.text, draft, sound.hist, nav⟩
  · have nav : -1 ≤ e.nav + 1 ∧ e.nav + 1 < 8 := by omega
    exact ⟨sound.cursor, sound.text, sound.draft, sound.hist, nav⟩
  · exact sound

theorem arrowDown_stays (sound : e.Sound) : Stays e.arrowDown := by
  have nav := sound.nav
  unfold arrowDown
  by_cases editing : e.nav < 0
  · rw [if_pos editing]
    exact sound.stays []
  · have back : -1 ≤ e.nav - 1 ∧ e.nav - 1 < 8 := by omega
    have sound' : Sound { e with nav := e.nav - 1 } :=
      ⟨sound.cursor, sound.text, sound.draft, sound.hist, back⟩
    rw [if_neg editing]
    dsimp only
    split
    · exact edit_stays sound' sound.draft
    · exact recalled_stays sound'

theorem arrow_stays (sound : e.Sound) (c : UInt8) : Stays (e.arrow c) := by
  unfold arrow
  split_ifs with right inside left before
  · have sound' : Sound { e with pos := e.pos + 1 } :=
      ⟨inside, sound.text, sound.draft, sound.hist, sound.nav⟩
    exact sound'.stays _
  · exact sound.stays []
  · have sound' : Sound { e with pos := e.pos - 1 } :=
      ⟨(Nat.sub_le _ _).trans sound.cursor, sound.text, sound.draft, sound.hist, sound.nav⟩
    exact sound'.stays _
  · exact sound.stays []
  · exact arrowUp_stays sound
  · exact arrowDown_stays sound
  · exact sound.stays []

theorem enter_stays (sound : e.Sound) : Stays e.enter := by
  unfold enter
  split
  · obtain ⟨text, length⟩ := slice_front e.line (sound.text.1.trans (by decide) : e.n ≤ 96)
    obtain ⟨hist, stored, kept⟩ := Hist.store_sound sound.hist (length.le.trans sound.text.1)
    obtain ⟨line, cleared, nul⟩ := store_nul e.line (by decide : 0 ≤ 95)
    have nav : (-1 : ℤ) ≤ -1 ∧ (-1 : ℤ) < 8 := by decide
    have sound' : Sound { e with hist, nav := -1, n := 0, pos := 0, line } :=
      ⟨le_rfl, ⟨Nat.zero_le _, nul⟩, sound.draft, kept, nav⟩
    rw [text, Option.bind_eq_bind, Option.bind_some, stored, Option.bind_eq_bind, Option.bind_some, cleared]
    exact sound'.stays _
  · exact sound.stays _

theorem erase_stays (sound : e.Sound) : Stays e.erase := by
  have cursor := sound.cursor
  have inside := sound.text.1
  unfold erase
  split
  · next behind =>
    obtain ⟨moved, copied⟩ := copyWithin_isSome e.line cursor inside (by omega : e.pos - 1 ≤ e.pos + 1)
    obtain ⟨line, ended, nul⟩ := store_nul moved (by omega : e.n - 1 ≤ 95)
    obtain ⟨out, drawn⟩ := redraw_isSome line (by omega : e.n - 1 ≤ 95) (e.pos - 1)
    rw [copied, Option.bind_eq_bind, Option.bind_some, ended, Option.bind_some]
    have sound' : Sound { e with line, n := e.n - 1, pos := e.pos - 1 } :=
      ⟨Nat.sub_le_sub_right cursor 1, ⟨Nat.sub_le_of_le_add (by omega), nul⟩, sound.draft, sound.hist, sound.nav⟩
    dsimp only
    split
    · exact sound'.stays _
    · rw [drawn]
      exact sound'.stays _
  · exact sound.stays []

theorem insert_stays (sound : e.Sound) (room : e.n + 2 < 96) (c : UInt8) : Stays (e.insert c) := by
  have cursor := sound.cursor
  have inside := sound.text.1
  have short : e.n + 1 ≤ 95 := by omega
  unfold insert
  split
  · obtain ⟨line₁, written⟩ := store_isSome e.line inside c
    obtain ⟨line₂, ended, nul⟩ := store_nul line₁ short
    have sound' : Sound { e with line := line₂, n := e.n + 1, pos := e.n + 1 } :=
      ⟨le_rfl, ⟨short, nul⟩, sound.draft, sound.hist, sound.nav⟩
    rw [written, Option.bind_eq_bind, Option.bind_some, ended]
    exact sound'.stays _
  · obtain ⟨moved, copied⟩ := copyWithin_isSome e.line cursor inside (le_refl (e.pos + 1))
    obtain ⟨line₁, written⟩ := store_isSome moved (by omega : e.pos ≤ 95) c
    obtain ⟨line₂, ended, nul⟩ := store_nul line₁ short
    obtain ⟨out, drawn⟩ := redraw_isSome line₂ short (e.pos + 1)
    have sound' : Sound { e with line := line₂, n := e.n + 1, pos := e.pos + 1 } :=
      ⟨Nat.succ_le_succ cursor, ⟨short, nul⟩, sound.draft, sound.hist, sound.nav⟩
    rw [copied, Option.bind_eq_bind, Option.bind_some, written, Option.bind_some, ended, Option.bind_some, drawn]
    exact sound'.stays _

/-- No room is left behind the text, and one command would be completed. -/
def Stuck (e : ShellEditor) : Prop := e.n = 95 ∧ OneOffered e.line e.n

theorem tab_bounds (sound : e.Sound) : (e.Stuck → e.tab = none) ∧ (¬e.Stuck → Stays e.tab) := by
  obtain ⟨fails, works⟩ := complete_bounds sound.text
  unfold tab
  refine ⟨fun stuck => ?_, fun free => ?_⟩
  · rw [fails stuck]
    rfl
  · obtain ⟨line, m, outs, completed, holds⟩ := works free
    have sound' : Sound { e with line, n := m, pos := m } := ⟨le_rfl, holds, sound.draft, sound.hist, sound.nav⟩
    rw [completed]
    exact sound'.stays _

theorem key_bounds (sound : e.Sound) (c : UInt8) :
    (c = 0x09 ∧ e.Stuck → e.key c = none) ∧ (¬(c = 0x09 ∧ e.Stuck) → Stays (e.key c)) := by
  have sound' (prevCr : Bool) : Sound { e with prevCr } :=
    ⟨sound.cursor, sound.text, sound.draft, sound.hist, sound.nav⟩
  unfold key
  refine ⟨?_, fun free => ?_⟩
  · rintro ⟨rfl, stuck⟩
    exact (tab_bounds (sound' false)).1 stuck
  · dsimp only
    split_ifs with converge line erases tabs types
    · exact (sound' false).stays []
    · exact enter_stays (sound' _)
    · exact erase_stays (sound' false)
    · exact (tab_bounds (sound' false)).2 fun stuck => free ⟨tabs, stuck⟩
    · exact insert_stays (sound' false) types.2 c
    · exact (sound' false).stays []

/-- What a byte does to a sound editor: only a Tab behind a full line leaves the line. -/
theorem step_bounds (sound : e.Sound) (c : UInt8) :
    (e.esc = 0 ∧ c = 0x09 ∧ e.Stuck → e.step c = none) ∧
      (¬(e.esc = 0 ∧ c = 0x09 ∧ e.Stuck) → Stays (e.step c)) := by
  have sound' (esc : UInt8) : Sound { e with esc } := ⟨sound.cursor, sound.text, sound.draft, sound.hist, sound.nav⟩
  obtain ⟨fails, works⟩ := key_bounds sound c
  unfold step
  refine ⟨?_, fun free => ?_⟩
  · rintro ⟨outside, rfl, stuck⟩
    rw [if_neg (not_not.2 outside), if_neg (by decide)]
    exact fails ⟨rfl, stuck⟩
  · split_ifs with sequence
    · exact (sound' 2).stays []
    · exact sound.stays []
    · exact arrow_stays (sound' 0) c
    · exact (sound' 0).stays []
    · exact (sound' 1).stays []
    · exact works fun tab => free ⟨not_not.1 sequence, tab⟩

theorem step_eq_none_iff (sound : e.Sound) (c : UInt8) :
    e.step c = none ↔ e.esc = 0 ∧ c = 0x09 ∧ e.Stuck := by
  refine ⟨fun failed => ?_, (step_bounds sound c).1⟩
  by_contra free
  obtain ⟨_, _, ran, -⟩ := (step_bounds sound c).2 free
  rw [failed] at ran
  cases ran

theorem step_sound {e' : ShellEditor} (sound : e.Sound) {c : UInt8} {outs : List ShellOut}
    (ran : e.step c = some (e', outs)) : e'.Sound := by
  have free : ¬(e.esc = 0 ∧ c = 0x09 ∧ e.Stuck) := fun tab => by
    rw [(step_bounds sound c).1 tab] at ran
    cases ran
  obtain ⟨_, _, stays, kept⟩ := (step_bounds sound c).2 free
  obtain ⟨rfl, -⟩ := Prod.mk.inj (Option.some.inj (ran.symm.trans stays))
  exact kept

theorem run_sound {bytes : List UInt8} (ran : run bytes = some e) : e.Sound := by
  refine Run.always (Q := fun _ (e : ShellEditor) => e.Sound) new_sound ?_ ran
  intro _ e c e' sound stepped
  obtain ⟨⟨e', outs⟩, ran, rfl⟩ := Option.map_eq_some_iff.1 stepped
  exact step_sound sound ran

/-- After every sequence of bytes the cursor is in the text, and the text in the line with a NUL behind it; an index
is out of range exactly if a Tab outside an escape sequence completes the only command behind 95 bytes. -/
theorem run_bounds (bytes : List UInt8) :
    (∀ e, run bytes = some e → e.pos ≤ e.n ∧ e.n ≤ lineMax - 1 ∧ e.line[e.n]? = some 0) ∧
      (run bytes = none ↔ ∃ before after e, bytes = before ++ 0x09 :: after ∧ run before = some e ∧
        e.esc = 0 ∧ e.Stuck) := by
  refine ⟨fun e ran => ⟨(run_sound ran).cursor, (run_sound ran).text⟩, ?_⟩
  have fails {e : ShellEditor} {before : List UInt8} (ran : run before = some e) (c : UInt8) :
      (e.step c).map (·.1) = none ↔ e.esc = 0 ∧ c = 0x09 ∧ e.Stuck := by
    rw [Option.map_eq_none_iff]
    exact step_eq_none_iff (run_sound ran) c
  rw [run, Run.foldlM_eq_none_iff]
  constructor
  · rintro ⟨before, c, after, e, split, ran, failed⟩
    obtain ⟨outside, rfl, stuck⟩ := (fails ran c).1 failed
    exact ⟨before, after, e, split, ran, outside, stuck⟩
  · rintro ⟨before, after, e, split, ran, outside, stuck⟩
    exact ⟨before, 0x09, after, e, split, ran, (fails ran 0x09).2 ⟨outside, rfl, stuck⟩⟩

/-- 89 blanks, `io do`, and two Tabs. -/
def twoTabs : List UInt8 := List.replicate 89 0x20 ++ utf8 "io do" ++ [0x09, 0x09]

theorem second_tab_leaves_line : run twoTabs = none := by
  rw [← Option.isNone_iff_eq_none]
  decide +kernel

end ShellEditor

end IoEdgeHub
