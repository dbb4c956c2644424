import IoEdgeHub.Lib.Text

/-!
# JSON documents

Documents of numbers, truth values, strings without escapes, arrays and objects: how they are written
without blanks between the tokens, and how such a text is read.  A document is read back from its text,
whatever stands behind it (`readValue_render`).
-/

namespace Json

open Text

/-! ## Words -/

/-- A byte that stands for itself in a string. -/
def isOrdinary (b : UInt8) : Bool := b ≠ 0x22 && b ≠ 0x5C && 0x20 ≤ b

/-- The text of a string, which needs no escape. -/
structure Word where
  bytes : List UInt8
  ordinary : ∀ b ∈ bytes, isOrdinary b = true

namespace Word

/-- The empty word. -/
def nil : Word := ⟨[], nofun⟩

/-- A word behind an ordinary byte. -/
def cons (b : UInt8) (plain : isOrdinary b = true) (w : Word) : Word :=
  ⟨b :: w.bytes, List.forall_mem_cons.2 ⟨plain, w.ordinary⟩⟩

/-- What of some bytes stands for itself. -/
def of (bytes : List UInt8) : Word := ⟨bytes.filter isOrdinary, fun _ mem => (List.mem_filter.1 mem).2⟩

theorem bytes_of {bytes : List UInt8} (ordinary : ∀ b ∈ bytes, isOrdinary b = true) : (of bytes).bytes = bytes :=
  List.filter_eq_self.2 ordinary

/-- The string with its quotes. -/
def quoted (w : Word) : List UInt8 := 0x22 :: (w.bytes ++ [0x22])

end Word

/-! ## Documents -/

/-- A document. -/
inductive Doc where
  | num (n : ℕ)
  | bool (b : Bool)
  | str (s : Word)
  | arr (items : List Doc)
  | obj (members : List (Word × Doc))

mutual

/-- How a document is written. -/
def Doc.render : Doc → List UInt8
  | .num n => dec n
  | .bool b => utf8 (if b then "true" else "false")
  | .str s => s.quoted
  | .arr items => 0x5B :: ((renderItems items).tail ++ [0x5D])
  | .obj members => 0x7B :: ((renderMembers members).tail ++ [0x7D])

/-- The items, each behind a comma. -/
def renderItems : List Doc → List UInt8
  | [] => []
  | d :: ds => 0x2C :: (d.render ++ renderItems ds)

/-- The members, each behind a comma. -/
def renderMembers : List (Word × Doc) → List UInt8
  | [] => []
  | (key, d) :: ms => 0x2C :: (key.quoted ++ 0x3A :: (d.render ++ renderMembers ms))

end

theorem renderItems_eq (ds : List Doc) : renderItems ds = ds.flatMap fun d => 0x2C :: d.render := by
  induction ds with
  | nil => rw [renderItems, List.flatMap_nil]
  | cons d ds ih => rw [renderItems, List.flatMap_cons, ih, List.cons_append]

theorem renderMembers_eq (ms : List (Word × Doc)) :
    renderMembers ms = ms.flatMap fun m => 0x2C :: (m.1.quoted ++ 0x3A :: m.2.render) := by
  induction ms with
  | nil => rw [renderMembers, List.flatMap_nil]
  | cons m ms ih =>
    obtain ⟨key, d⟩ := m
    simp only [renderMembers, List.flatMap_cons, ih, List.cons_append, List.append_assoc]

theorem renderMembers_append (ms ms' : List (Word × Doc)) :
    renderMembers (ms ++ ms') = renderMembers ms ++ renderMembers ms' := by
  simp only [renderMembers_eq, List.flatMap_append]

/-! ## Reading -/

/-- A decimal digit. -/
def isDigitByte (b : UInt8) : Bool := 0x30 ≤ b && b ≤ 0x39

/-- The digits at the front. -/
def readNumber (b : List UInt8) : Option (Doc × List UInt8) :=
  let digits := b.takeWhile isDigitByte
  if digits = [] then none
  else (fromUtf8 digits).map fun cs => (.num (Nat.ofDigitChars 10 cs 0), b.dropWhile isDigitByte)

/-- A string behind its opening quote. -/
def readWord : List UInt8 → Option (Word × List UInt8)
  | [] => none
  | b :: rest =>
    if b = 0x22 then some (.nil, rest)
    else if plain : isOrdinary b = true then (readWord rest).map (Prod.map (Word.cons b plain) id)
    else none

/-- A string with both quotes and the colon behind it. -/
def readKey : List UInt8 → Option (Word × List UInt8)
  | 0x22 :: b =>
    match readWord b with
    | some (key, 0x3A :: rest) => some (key, rest)
    | _ => none
  | _ => none

/-- `true` or `false`. -/
def readLiteral (b : List UInt8) : Option (Doc × List UInt8) :=
  if (utf8 "true").isPrefixOf b then some (.bool true, b.drop 4)
  else if (utf8 "false").isPrefixOf b then some (.bool false, b.drop 5)
  else none

mutual

/-- A value at the front, and what is behind it; `fuel` bounds the depth. -/
def readValue : ℕ → List UInt8 → Option (Doc × List UInt8)
  | 0, _ => none
  | fuel + 1, b =>
    if b.head? = some 0x22 then (readWord b.tail).map (Prod.map .str id)
    else if b.head? = some 0x5B then
      if b.tail.head? = some 0x5D then some (.arr [], b.tail.tail)
      else (readItems fuel b.tail).map (Prod.map .arr id)
    else if b.head? = some 0x7B then
      if b.tail.head? = some 0x7D then some (.obj [], b.tail.tail)
      else (readMembers fuel b.tail).map (Prod.map .obj id)
    else (readNumber b).or (readLiteral b)

/-- The items of an array, to the bracket that closes it. -/
def readItems : ℕ → List UInt8 → Option (List Doc × List UInt8)
  | 0, _ => none
  | fuel + 1, b =>
    match readValue fuel b with
    | some (d, 0x5D :: rest) => some ([d], rest)
    | some (d, 0x2C :: rest) => (readItems fuel rest).map (Prod.map (d :: ·) id)
    | _ => none

/-- The members of an object, to the brace that closes it. -/
def readMembers : ℕ → List UInt8 → Option (List (Word × Doc) × List UInt8)
  | 0, _ => none
  | fuel + 1, b =>
    match readKey b with
    | none => none
    | some (key, rest) =>
      match readValue fuel rest with
      | some (d, 0x7D :: rest) => some ([(key, d)], rest)
      | some (d, 0x2C :: rest) => (readMembers fuel rest).map (Prod.map ((key, d) :: ·) id)
      | _ => none

end

/-- A text that is one document and nothing more. -/
def parse (b : List UInt8) : Option Doc :=
  match readValue b.length b with
  | some (d, []) => some d
  | _ => none

/-! ## What is written is read back -/

theorem readWord_append (w : Word) (r : List UInt8) : readWord (w.bytes ++ 0x22 :: r) = some (w, r) := by
  obtain ⟨bytes, ordinary⟩ := w
  induction bytes with
  | nil => rfl
  | cons b bytes ih =>
    obtain ⟨plain, rest⟩ := List.forall_mem_cons.1 ordinary
    have quote : b ≠ 0x22 := by
      rintro rfl
      exact absurd plain (by decide)
    have read := ih rest
    rw [List.cons_append, readWord, if_neg quote, dif_pos plain, read]
    rfl

theorem readKey_append (key : Word) (r : List UInt8) : readKey (key.quoted ++ 0x3A :: r) = some (key, r) := by
  have read := readWord_append key (0x3A :: r)
  rw [Word.quoted, List.cons_append, List.append_assoc, List.singleton_append, readKey, read]
  rfl

theorem isDigitByte_of_mem_dec {n : ℕ} {b : UInt8} (mem : b ∈ dec n) : isDigitByte b = true := by
  have range := digit_of_mem_dec mem
  simp only [isDigitByte, Bool.and_eq_true, decide_eq_true_eq, UInt8.le_iff_toNat_le]
  exact range

/-- What follows is no digit. -/
def Ends (r : List UInt8) : Prop := ∀ b ∈ r.head?, isDigitByte b = false

theorem ends_cons {b : UInt8} {r : List UInt8} (other : isDigitByte b = false) : Ends (b :: r) := by
  rintro _ ⟨⟩
  exact other

theorem readNumber_dec (n : ℕ) {r : List UInt8} (ends : Ends r) : readNumber (dec n ++ r) = some (.num n, r) := by
  have digits : ∀ b ∈ dec n, isDigitByte b = true := fun _ => isDigitByte_of_mem_dec
  have stop : r.takeWhile isDigitByte = [] ∧ r.dropWhile isDigitByte = r := by
    cases r with
    | nil => exact ⟨rfl, rfl⟩
    | cons b r =>
      have other := ends b rfl
      exact ⟨List.takeWhile_cons_of_neg (by simp [other]), List.dropWhile_cons_of_neg (by simp [other])⟩
  have value : Nat.ofDigitChars 10 (Nat.repr n).toList 0 = n := by
    change Nat.ofDigitChars 10 (decChars n) 0 = n
    rw [decChars_eq, Nat.ofDigitChars_toDigits (by decide) (by decide)]
  rw [readNumber, List.takeWhile_append_of_pos digits, List.dropWhile_append_of_pos digits, stop.1, stop.2,
    List.append_nil]
  simp only [if_neg (dec_ne_nil n)]
  rw [dec, fromUtf8_utf8, Option.map_some, value]

/-- The first byte of a number is none of those that open something. -/
theorem head_dec (n : ℕ) (r : List UInt8) {b : UInt8} (other : isDigitByte b = false) :
    (dec n ++ r).head? ≠ some b := by
  obtain ⟨c, rest, eq⟩ := List.exists_cons_of_ne_nil (dec_ne_nil n)
  have digit := isDigitByte_of_mem_dec (n := n) (b := c) (by simp [eq])
  rw [eq, List.cons_append, List.head?_cons]
  rintro ⟨⟩
  rw [digit] at other
  cases other

theorem render_ne_nil (d : Doc) : d.render ≠ [] := by
  cases d with
  | num n => rw [Doc.render]; exact dec_ne_nil n
  | bool b => cases b <;> nofun
  | str s => nofun
  | arr items => nofun
  | obj members => nofun

/-- A document does not begin with the bracket or the brace that closes one. -/
theorem head_render (d : Doc) (r : List UInt8) {b : UInt8} (close : b = 0x5D ∨ b = 0x7D) :
    (d.render ++ r).head? ≠ some b := by
  cases d with
  | num n =>
    rw [Doc.render]
    apply head_dec
    rcases close with rfl | rfl <;> rfl
  | bool v => cases v <;> rcases close with rfl | rfl <;> nofun
  | str s => rcases close with rfl | rfl <;> nofun
  | arr items => rcases close with rfl | rfl <;> nofun
  | obj members => rcases close with rfl | rfl <;> nofun

mutual

theorem readValue_render (d : Doc) (fuel : ℕ) (enough : d.render.length ≤ fuel) {r : List UInt8} (ends : Ends r) :
    readValue fuel (d.render ++ r) = some (d, r) := by
  obtain ⟨fuel, rfl⟩ : ∃ k, fuel = k + 1 :=
    Nat.exists_eq_succ_of_ne_zero (by have := List.length_pos_iff.2 (render_ne_nil d); omega)
  cases d with
  | num n =>
    rw [Doc.render, readValue, if_neg (head_dec n r rfl), if_neg (head_dec n r rfl), if_neg (head_dec n r rfl),
      readNumber_dec n ends]
    rfl
  | bool b => cases b <;> rfl
  | str s =>
    have read := readWord_append s r
    simp only [Doc.render, Word.quoted, List.cons_append, List.append_assoc, readValue,
      List.head?_cons, if_true, List.tail_cons, List.nil_append, read]
    rfl
  | arr items =>
    cases items with
    | nil => rfl
    | cons d ds =>
      have opens : (d.render ++ (renderItems ds ++ 0x5D :: r)).head? ≠ some 0x5D := head_render d _ (.inl rfl)
      rw [Doc.render, renderItems] at enough ⊢
      simp only [List.tail_cons, List.length_cons, List.length_append, List.length_nil] at enough
      have read := readItems_render d ds fuel (by rw [List.length_append]; omega) r
      simp only [List.tail_cons, List.cons_append, List.append_assoc, List.nil_append, readValue, List.head?_cons,
        Option.some.injEq, if_true, opens, if_false, read]
      rfl
  | obj members =>
    cases members with
    | nil => rfl
    | cons m ms =>
      obtain ⟨key, d⟩ := m
      rw [Doc.render, renderMembers] at enough ⊢
      simp only [List.tail_cons, List.length_cons, List.length_append, List.length_nil] at enough
      have read := readMembers_render key d ms fuel (by simp only [List.length_append]; omega) r
      have opens : (key.quoted ++ 0x3A :: (d.render ++ (renderMembers ms ++ 0x7D :: r))).head? ≠ some 0x7D := nofun
      simp only [List.tail_cons, List.cons_append, List.append_assoc, List.nil_append, readValue, List.head?_cons,
        Option.some.injEq, if_true, opens, if_false, read]
      rfl
termination_by fuel

theorem readItems_render (d : Doc) (ds : List Doc) (fuel : ℕ) (enough : (d.render ++ renderItems ds).length < fuel)
    (r : List UInt8) : readItems fuel (d.render ++ (renderItems ds ++ 0x5D :: r)) = some (d :: ds, r) := by
  obtain ⟨fuel, rfl⟩ : ∃ k, fuel = k + 1 := Nat.exists_eq_succ_of_ne_zero (by omega)
  rw [List.length_append] at enough
  cases ds with
  | nil =>
    have first := readValue_render d fuel (by omega) (ends_cons (b := 0x5D) (r := r) rfl)
    rw [renderItems, List.nil_append, readItems, first]
    rfl
  | cons d' ds =>
    rw [renderItems] at enough ⊢
    simp only [List.length_cons, List.length_append] at enough
    have first := readValue_render d fuel (by omega)
      (ends_cons (b := 0x2C) (r := d'.render ++ (renderItems ds ++ 0x5D :: r)) rfl)
    have rest := readItems_render d' ds fuel (by rw [List.length_append]; omega) r
    rw [List.cons_append, List.append_assoc, readItems, first]
    simp only [rest]
    rfl
termination_by fuel

theorem readMembers_render (key : Word) (d : Doc) (ms : List (Word × Doc)) (fuel : ℕ)
    (enough : (d.render ++ renderMembers ms).length < fuel) (r : List UInt8) :
    readMembers fuel (key.quoted ++ 0x3A :: (d.render ++ (renderMembers ms ++ 0x7D :: r))) =
      some ((key, d) :: ms, r) := by
  obtain ⟨fuel, rfl⟩ : ∃ k, fuel = k + 1 := Nat.exists_eq_succ_of_ne_zero (by omega)
  rw [List.length_append] at enough
  cases ms with
  | nil =>
    have first := readValue_render d fuel (by omega) (ends_cons (b := 0x7D) (r := r) rfl)
    rw [renderMembers, List.nil_append, readMembers, readKey_append]
    simp only [first]
  | cons m ms =>
    obtain ⟨key', d'⟩ := m
    rw [renderMembers] at enough ⊢
    simp only [List.length_cons, List.length_append] at enough
    have first := readValue_render d fuel (by omega)
      (ends_cons (b := 0x2C) (r := key'.quoted ++ 0x3A :: (d'.render ++ (renderMembers ms ++ 0x7D :: r))) rfl)
    have rest := readMembers_render key' d' ms fuel (by rw [List.length_append]; omega) r
    simp only [List.cons_append, List.append_assoc]
    rw [readMembers, readKey_append]
    simp only [first, rest]
    rfl
termination_by fuel

end

theorem parse_render (d : Doc) : parse d.render = some d := by
  have read := readValue_render d d.render.length le_rfl (r := []) nofun
  rw [List.append_nil] at read
  rw [parse, read]

end Json
