import IoEdgeHub.Lib.Words
import IoEdgeHub.Proto.Ftp

/-!
# Grammar of the FTP address arguments

`PortForm` and `EprtForm` say what an address argument looks like, with the text behind the numbers
left open.  The parsers look at one part behind the last number only, so they accept exactly the forms
whose tail is empty, one separator, or starts with two (`parsePortArg_eq_some`, `parseEprtArg_eq_some`);
`EPRT` besides ignores what stands before its first bar and reads the protocol as a number.
-/

namespace IoEdgeHub

open Bytes Text

/-- `s` is six comma-separated numbers up to 255 with `tail` behind them. -/
def PortForm (s tail : List Char) (e : Endpoint) : Prop :=
  ∃ (words : List (List Char)) (a b c d hi lo : UInt8),
    List.Forall₂ (Numeral 65535) words [a.toNat, b.toNat, c.toNat, d.toNat, hi.toNat, lo.toNat] ∧
      s = [','].intercalate words ++ tail ∧ e.ip = quad a b c d ∧
      e.port.toNat = 256 * hi.toNat + lo.toNat

/-- `s` is `lead|proto|a.b.c.d|port` with `tail` behind it. -/
def EprtForm (s lead proto tail : List Char) (e : Endpoint) : Prop :=
  ∃ (words : List (List Char)) (a b c d : UInt8) (port : List Char),
    '|' ∉ lead ∧ Numeral (2 ^ 32 - 1) proto 1 ∧
      List.Forall₂ (Numeral 255) words [a.toNat, b.toNat, c.toNat, d.toNat] ∧
      Numeral 65535 port e.port.toNat ∧ e.port ≠ 0 ∧
      s = ['|'].intercalate [lead, proto, ['.'].intercalate words, port] ++ tail ∧ e.ip = quad a b c d

/-- Where the parsers stop looking: nothing, or a separator behind which the text ends or another one follows. -/
def Trailing (sep : Char) (tail : List Char) : Prop :=
  tail = [] ∨ tail = [sep] ∨ ∃ more, tail = sep :: sep :: more

/-! ## Words -/

variable {sep : Char} {e : Endpoint} {words : List (List Char)} {lead proto s tail : List Char}
  {vals : List ℕ}

theorem parseUnsigned_forall₂ {max : ℕ} :
    words.mapM (parseUnsigned max) = some vals ↔ List.Forall₂ (Numeral max) words vals := by
  induction words generalizing vals with
  | nil => simp [eq_comm]
  | cons w words ih =>
    simp only [List.mapM_cons, Option.bind_eq_bind, Option.bind_eq_some_iff, parseUnsigned_eq_some, ih,
      List.forall₂_cons_left_iff]
    constructor
    · rintro ⟨n, numeral, vals', read, same⟩
      exact ⟨n, vals', numeral, read, (Option.some.inj same).symm⟩
    · rintro ⟨n, vals', numeral, read, rfl⟩
      exact ⟨n, numeral, vals', read, rfl⟩

theorem trailingOk_splitOn {t : List Char} :
    trailingOk (t.splitOn sep) = true ↔ t = [] ∨ ∃ more, t = sep :: more := by
  obtain ⟨w, rest, split⟩ := List.exists_cons_of_ne_nil (List.splitOn_ne_nil sep t)
  have first : trailingOk (t.splitOn sep) = true ↔ w = [] := by
    rw [split]
    simp [trailingOk]
  rw [first]
  obtain ⟨clean, ⟨-, rfl⟩ | ⟨t', rfl, -⟩⟩ := Words.splitOn_eq_cons.1 split
  · refine ⟨.inl, ?_⟩
    rintro (empty | ⟨more, rfl⟩)
    · exact empty
    · exact absurd (.head _) clean
  · constructor
    · rintro rfl
      exact .inr ⟨t', rfl⟩
    · rintro (empty | ⟨more, shape⟩)
      · simp at empty
      · cases w with
        | nil => rfl
        | cons c w =>
          cases (List.cons.inj shape).1
          exact absurd (.head _) clean

/-- The parts are some words and an acceptable rest exactly when the text is the words and an acceptable tail. -/
theorem splitOn_trailingOk (some : words ≠ [])
    (clean : ∀ w ∈ words, sep ∉ w) :
    (∃ rest, s.splitOn sep = words ++ rest ∧ trailingOk rest = true) ↔
      ∃ tail, Trailing sep tail ∧ s = [sep].intercalate words ++ tail := by
  simp only [Words.splitOn_eq_append some]
  constructor
  · rintro ⟨rest, ⟨-, ⟨rfl, rfl⟩ | ⟨t, rfl, rfl⟩⟩, ok⟩
    · exact ⟨[], .inl rfl, (List.append_nil _).symm⟩
    · rcases trailingOk_splitOn.1 ok with rfl | ⟨more, rfl⟩
      · exact ⟨[sep], .inr (.inl rfl), rfl⟩
      · exact ⟨sep :: sep :: more, .inr (.inr ⟨more, rfl⟩), rfl⟩
  · rintro ⟨tail, rfl | rfl | ⟨more, rfl⟩, rfl⟩
    · exact ⟨[], ⟨clean, .inl ⟨rfl, List.append_nil _⟩⟩, rfl⟩
    · exact ⟨_, ⟨clean, .inr ⟨[], rfl, rfl⟩⟩, trailingOk_splitOn.2 (.inl rfl)⟩
    · exact ⟨_, ⟨clean, .inr ⟨_, rfl, rfl⟩⟩, trailingOk_splitOn.2 (.inr ⟨more, rfl⟩)⟩

/-! ## What is accepted -/

theorem octets_eq_some {ip : Vector UInt8 4} (small : ∀ v ∈ vals, v ≤ 255) :
    octets vals = some ip ↔
      ∃ a b c d : UInt8, vals = [a.toNat, b.toNat, c.toNat, d.toNat] ∧ ip = quad a b c d := by
  constructor
  · intro read
    unfold octets at read
    split at read
    case h_1 n₁ n₂ n₃ n₄ =>
      obtain ⟨a, rfl⟩ := exists_octet (small n₁ (by simp))
      obtain ⟨b, rfl⟩ := exists_octet (small n₂ (by simp))
      obtain ⟨c, rfl⟩ := exists_octet (small n₃ (by simp))
      obtain ⟨d, rfl⟩ := exists_octet (small n₄ (by simp))
      simp only [UInt8.ofNat_toNat] at read
      exact ⟨a, b, c, d, rfl, (Option.some.inj read).symm⟩
    case h_2 => cases read
  · rintro ⟨a, b, c, d, rfl, rfl⟩
    simp only [octets, UInt8.ofNat_toNat]

theorem portForm_of_parsePortArg (parsed : parsePortArg s = some e) :
    ∃ tail, Trailing ',' tail ∧ PortForm s tail e := by
  simp only [parsePortArg, Option.bind_eq_bind, Option.bind_eq_some_iff, parseUnsigned_forall₂] at parsed
  obtain ⟨vals, read, ⟨⟩, ok, ip, four, made⟩ := parsed
  obtain ⟨⟨six, trailing⟩, small⟩ :
      (vals.length = 6 ∧ trailingOk ((s.splitOn ',').drop 6) = true) ∧ ∀ v ∈ vals, v ≤ 255 := by
    simpa using ok
  have some : (s.splitOn ',').take 6 ≠ [] := by
    rw [← List.length_pos_iff, read.length_eq, six]
    decide
  obtain ⟨tail, behind, text⟩ := (splitOn_trailingOk some (not_mem_of_forall₂ (by decide) (by decide) read)).1
    ⟨_, (List.take_append_drop 6 _).symm, trailing⟩
  obtain ⟨a, b, c, d, first, rfl⟩ := (octets_eq_some fun v mem => small v (List.mem_of_mem_take mem)).1 four
  obtain ⟨n₅, n₆, last⟩ := List.length_eq_two.1 (by rw [List.length_drop, six] : (vals.drop 4).length = 2)
  have all : vals = [a.toNat, b.toNat, c.toNat, d.toNat] ++ [n₅, n₆] := by
    rw [← List.take_append_drop 4 vals, first, last]
  subst all
  obtain ⟨hi, rfl⟩ := exists_octet (small n₅ (by simp))
  obtain ⟨lo, rfl⟩ := exists_octet (small n₆ (by simp))
  cases made
  refine ⟨tail, behind, _, a, b, c, d, hi, lo, read, text, rfl, ?_⟩
  have := toNat_le_255 hi
  have := toNat_le_255 lo
  simp only [List.cons_append, List.nil_append, List.getElem?_cons_succ, List.getElem?_cons_zero, Option.getD_some,
    UInt16.toNat_ofNat']
  omega

theorem parsePortArg_of_portForm (behind : Trailing ',' tail)
    (form : PortForm s tail e) : parsePortArg s = some e := by
  obtain ⟨words, a, b, c, d, hi, lo, read, text, ip, port⟩ := form
  have six : words.length = 6 := read.length_eq
  obtain ⟨rest, split, trailing⟩ := (splitOn_trailingOk (by rw [← List.length_pos_iff, six]; decide)
    (not_mem_of_forall₂ (by decide) (by decide) read)).2 ⟨tail, behind, text⟩
  simp only [parsePortArg, Option.bind_eq_bind, Option.bind_eq_some_iff, parseUnsigned_forall₂, split,
    List.take_left' six, List.drop_left' six]
  refine ⟨_, read, (), by simp [trailing, toNat_le_255], e.ip,
    (octets_eq_some (by simp [toNat_le_255])).2 ⟨a, b, c, d, rfl, ip⟩, ?_⟩
  have sum : hi.toNat * 256 + lo.toNat = e.port.toNat := by omega
  simp [sum]

theorem parsePortArg_eq_some :
    parsePortArg s = some e ↔ ∃ tail, Trailing ',' tail ∧ PortForm s tail e :=
  ⟨portForm_of_parsePortArg, fun ⟨_, behind, form⟩ => parsePortArg_of_portForm behind form⟩

theorem four_parts {α : Type*} {parts : List α} {w₁ w₂ w₃ : α} (at₁ : parts[1]? = some w₁) (at₂ : parts[2]? = some w₂)
    (at₃ : parts[3]? = some w₃) : ∃ lead rest, parts = [lead, w₁, w₂, w₃] ++ rest :=
  match parts, at₁, at₂, at₃ with
  | lead :: _ :: _ :: _ :: rest, rfl, rfl, rfl => ⟨lead, rest, rfl⟩

theorem eprtForm_of_parseEprtArg (parsed : parseEprtArg s = some e) :
    ∃ lead proto tail, Trailing '|' tail ∧ EprtForm s lead proto tail e := by
  simp only [parseEprtArg, Option.bind_eq_bind, Option.bind_eq_some_iff, parseUnsigned_forall₂,
    parseUnsigned_eq_some] at parsed
  obtain ⟨proto, at₁, one, number, text, at₂, port, at₃, n, inRange, ⟨⟩, ok, vals, read, ip, four, made⟩ := parsed
  obtain ⟨⟨trailing, rfl⟩, filled⟩ : (trailingOk ((s.splitOn '|').drop 4) = true ∧ one = 1) ∧ n ≠ 0 := by
    simpa using ok
  obtain ⟨lead, rest, split⟩ := four_parts at₁ at₂ at₃
  have clean := ((Words.splitOn_eq_append (List.cons_ne_nil _ _)).1 split).1
  rw [split] at trailing
  obtain ⟨tail, behind, whole⟩ := (splitOn_trailingOk (List.cons_ne_nil _ _) clean).1 ⟨rest, split, trailing⟩
  obtain ⟨a, b, c, d, rfl, rfl⟩ := (octets_eq_some (le_of_forall₂ read)).1 four
  cases made
  have fits : n ≤ 65535 := inRange.le
  have same : (UInt16.ofNat n).toNat = n := by
    rw [UInt16.toNat_ofNat']
    omega
  refine ⟨lead, proto, tail, behind, text.splitOn '.', a, b, c, d, port, clean lead (by simp), number, read, ?_, ?_, ?_,
    rfl⟩
  · rwa [same]
  · intro zero
    exact filled (same ▸ congrArg UInt16.toNat zero)
  · rw [List.intercalate_splitOn]
    exact whole

theorem eprt_words_clean {port : List Char} {one n : ℕ}
    (free : '|' ∉ lead) (number : Numeral (2 ^ 32 - 1) proto one) (read : List.Forall₂ (Numeral 255) words vals)
    (inRange : Numeral 65535 port n) : ∀ w ∈ [lead, proto, ['.'].intercalate words, port], '|' ∉ w := by
  have dotted : '|' ∉ ['.'].intercalate words :=
    Words.not_mem_join (by decide) (not_mem_of_forall₂ (by decide) (by decide) read)
  simp only [List.forall_mem_cons]
  exact ⟨free, number.not_mem (by decide) (by decide), dotted, inRange.not_mem (by decide) (by decide),
    fun w mem => nomatch mem⟩

theorem parseEprtArg_of_eprtForm (behind : Trailing '|' tail)
    (form : EprtForm s lead proto tail e) : parseEprtArg s = some e := by
  obtain ⟨words, a, b, c, d, port, free, one, read, number, filled, text, ip⟩ := form
  have clean := eprt_words_clean free one read number
  obtain ⟨rest, split, trailing⟩ := (splitOn_trailingOk (List.cons_ne_nil _ _) clean).2 ⟨tail, behind, text⟩
  have parts : (['.'].intercalate words).splitOn '.' = words :=
    List.splitOn_intercalate '.' (not_mem_of_forall₂ (by decide) (by decide) read)
      (by rw [← List.length_pos_iff, read.length_eq]; exact Nat.succ_pos 3)
  simp only [parseEprtArg, Option.bind_eq_bind, Option.bind_eq_some_iff, parseUnsigned_forall₂,
    parseUnsigned_eq_some, split, List.cons_append, List.nil_append, List.getElem?_cons_succ,
    List.getElem?_cons_zero, List.drop_succ_cons, List.drop_zero]
  refine ⟨proto, rfl, 1, one, _, rfl, port, rfl, e.port.toNat, number, (), ?_,
    [a.toNat, b.toNat, c.toNat, d.toNat], ?_, e.ip, ?_, ?_⟩
  · have : e.port.toNat ≠ 0 := fun zero => filled (UInt16.toNat_inj.1 zero)
    simp [trailing, this]
  · rw [parts]
    exact read
  · exact (octets_eq_some (by simp [toNat_le_255])).2 ⟨a, b, c, d, rfl, ip⟩
  · simp

theorem parseEprtArg_eq_some :
    parseEprtArg s = some e ↔ ∃ lead proto tail, Trailing '|' tail ∧ EprtForm s lead proto tail e :=
  ⟨eprtForm_of_parseEprtArg, fun ⟨_, _, _, behind, form⟩ => parseEprtArg_of_eprtForm behind form⟩

/-! ## Against the grammar -/

theorem Trailing.stop (behind : Trailing sep tail) :
    tail = [] ∨ ∃ t, tail = sep :: t := by
  rcases behind with rfl | rfl | ⟨more, rfl⟩
  · exact .inl rfl
  · exact .inr ⟨[], rfl⟩
  · exact .inr ⟨_, rfl⟩

theorem PortForm.tail_unique {tail' : List Char} {e' : Endpoint} (form : PortForm s tail e)
    (form' : PortForm s tail' e') (behind : Trailing ',' tail) (behind' : Trailing ',' tail') : tail = tail' := by
  obtain ⟨words, a, b, c, d, hi, lo, read, rfl, -⟩ := form
  obtain ⟨words', a', b', c', d', hi', lo', read', same, -⟩ := form'
  have six : words.length = 6 := read.length_eq
  exact (Words.join_append_inj (by rw [← List.length_pos_iff, six]; decide) (six.trans read'.length_eq.symm)
    (not_mem_of_forall₂ (by decide) (by decide) read) (not_mem_of_forall₂ (by decide) (by decide) read')
    behind.stop behind'.stop same).2

theorem EprtForm.unique {lead' proto' tail' : List Char} {e' : Endpoint}
    (form : EprtForm s lead proto tail e) (form' : EprtForm s lead' proto' tail' e') (behind : Trailing '|' tail)
    (behind' : Trailing '|' tail') : lead = lead' ∧ proto = proto' ∧ tail = tail' := by
  obtain ⟨words, a, b, c, d, port, free, one, read, number, -, rfl, -⟩ := form
  obtain ⟨words', a', b', c', d', port', free', one', read', number', -, same, -⟩ := form'
  obtain ⟨parts, tails⟩ := Words.join_append_inj (List.cons_ne_nil _ _) (by rfl)
    (eprt_words_clean free one read number) (eprt_words_clean free' one' read' number') behind.stop behind'.stop same
  simp only [List.cons.injEq] at parts
  exact ⟨parts.1, parts.2.1, tails⟩

/-- The two parsers accept exactly the forms of the grammar, with nothing or one separator behind them, unless the
text goes on behind two separators (or, for `EPRT`, starts before the bar or spells the protocol differently). -/
theorem addressArgs_grammar (s : List Char) :
    ((∀ e, parsePortArg s = some e ↔ PortForm s [] e ∨ PortForm s [','] e) ↔
      ¬∃ e more, PortForm s (',' :: ',' :: more) e) ∧
    ((∀ e, parseEprtArg s = some e ↔ EprtForm s [] ['1'] [] e ∨ EprtForm s [] ['1'] ['|'] e) ↔
      ¬∃ e lead proto tail, EprtForm s lead proto tail e ∧ Trailing '|' tail ∧
        (lead ≠ [] ∨ proto ≠ ['1'] ∨ ∃ more, tail = '|' :: '|' :: more)) := by
  constructor
  · constructor
    · rintro agrees ⟨e, more, form⟩
      have far : Trailing ',' (',' :: ',' :: more) := .inr (.inr ⟨more, rfl⟩)
      rcases (agrees e).1 (parsePortArg_of_portForm far form) with near | near
      · cases form.tail_unique near far (.inl rfl)
      · cases form.tail_unique near far (.inr (.inl rfl))
    · intro none e
      rw [parsePortArg_eq_some]
      constructor
      · rintro ⟨tail, rfl | rfl | ⟨more, rfl⟩, form⟩
        · exact .inl form
        · exact .inr form
        · exact absurd ⟨e, more, form⟩ none
      · rintro (form | form)
        · exact ⟨_, .inl rfl, form⟩
        · exact ⟨_, .inr (.inl rfl), form⟩
  · constructor
    · rintro agrees ⟨e, lead, proto, tail, form, behind, odd⟩
      rcases (agrees e).1 (parseEprtArg_of_eprtForm behind form) with near | near
      · obtain ⟨rfl, rfl, rfl⟩ := form.unique near behind (.inl rfl)
        simp at odd
      · obtain ⟨rfl, rfl, rfl⟩ := form.unique near behind (.inr (.inl rfl))
        simp at odd
    · intro none e
      rw [parseEprtArg_eq_some]
      constructor
      · rintro ⟨lead, proto, tail, behind, form⟩
        have plain := not_or.1 fun odd => none ⟨e, lead, proto, tail, form, behind, odd⟩
        obtain ⟨rfl, rfl, short⟩ : lead = [] ∧ proto = ['1'] ∧ ¬∃ more, tail = '|' :: '|' :: more := by
          simpa using plain
        rcases behind with rfl | rfl | long
        · exact .inl form
        · exact .inr form
        · exact absurd long short
      · rintro (form | form)
        · exact ⟨_, _, _, .inl rfl, form⟩
        · exact ⟨_, _, _, .inr (.inl rfl), form⟩

/-- Text behind an empty seventh part and text before the first bar are ignored. -/
theorem addressArgs_stray_text :
    (∃ e, parsePortArg "1,2,3,4,5,6,,7".toList = some e ∧ ¬PortForm "1,2,3,4,5,6,,7".toList [] e ∧
      ¬PortForm "1,2,3,4,5,6,,7".toList [','] e) ∧
    (∃ e, parseEprtArg "x|1|10.0.0.1|21".toList = some e ∧ ¬EprtForm "x|1|10.0.0.1|21".toList [] ['1'] [] e ∧
      ¬EprtForm "x|1|10.0.0.1|21".toList [] ['1'] ['|'] e) := by
  constructor
  · have form : PortForm "1,2,3,4,5,6,,7".toList [',', ',', '7'] ⟨quad 1 2 3 4, 1286⟩ :=
      ⟨[['1'], ['2'], ['3'], ['4'], ['5'], ['6']], 1, 2, 3, 4, 5, 6, parseUnsigned_forall₂.1 (by decide), by decide,
        rfl, rfl⟩
    have behind : Trailing ',' [',', ',', '7'] := .inr (.inr ⟨['7'], rfl⟩)
    refine ⟨_, parsePortArg_of_portForm behind form, fun near => ?_, fun near => ?_⟩
    · cases form.tail_unique near behind (.inl rfl)
    · cases form.tail_unique near behind (.inr (.inl rfl))
  · have form : EprtForm "x|1|10.0.0.1|21".toList ['x'] ['1'] [] ⟨quad 10 0 0 1, 21⟩ :=
      ⟨[['1', '0'], ['0'], ['0'], ['1']], 10, 0, 0, 1, ['2', '1'], by decide, parseUnsigned_eq_some.1 (by decide),
        parseUnsigned_forall₂.1 (by decide), parseUnsigned_eq_some.1 (by decide), by decide, by decide, rfl⟩
    refine ⟨_, parseEprtArg_of_eprtForm (.inl rfl) form, fun near => ?_, fun near => ?_⟩
    · cases (form.unique near (.inl rfl) (.inl rfl)).1
    · cases (form.unique near (.inl rfl) (.inr (.inl rfl))).1

end IoEdgeHub
