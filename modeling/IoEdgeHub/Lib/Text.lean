import Mathlib.Data.List.Forall2
import Mathlib.Data.Nat.Digits.Defs
import Mathlib.Data.Nat.Notation
import Mathlib.Tactic.IntervalCases
import Mathlib.Tactic.Ring

/-!
# Text as bytes

UTF-8 text in byte buffers, with the string functions of Rust's core library: `from_utf8`, `trim`
over the Unicode white space, and the parser of unsigned decimal numbers. Strings of a fixed
capacity take a piece of text whole or not at all.
-/

namespace Text

/-- The UTF-8 bytes of a text. -/
def utf8 (s : String) : List UInt8 := s.toByteArray.data.toList

/-- The characters of a byte buffer, if it is valid UTF-8. -/
def fromUtf8 (b : List UInt8) : Option (List Char) :=
  (String.fromUTF8? ⟨b.toArray⟩).map String.toList

/-- The Unicode property `White_Space`. -/
def isWhitespace (c : Char) : Bool :=
  let n := c.toNat
  (0x09 ≤ n && n ≤ 0x0D) || n == 0x20 || n == 0x85 || n == 0xA0 || n == 0x1680 ||
    (0x2000 ≤ n && n ≤ 0x200A) || n == 0x2028 || n == 0x2029 || n == 0x202F || n == 0x205F ||
    n == 0x3000

/-- Without white space at the ends. -/
def trim (cs : List Char) : List Char :=
  ((cs.dropWhile isWhitespace).reverse.dropWhile isWhitespace).reverse

/-- The value of a digit string, `none` once it passes `limit`. -/
def digitsValue (limit : ℕ) (cs : List Char) : Option ℕ :=
  cs.foldlM (fun n c => let n := n * 10 + (c.toNat - 48); if n > limit then none else some n) 0

/-- `str::parse` at an unsigned type with the given maximum: an optional `+`, then digits. -/
def parseUnsigned (max : ℕ) (cs : List Char) : Option ℕ :=
  let digits := if cs.head? = some '+' then cs.tail else cs
  if digits.isEmpty || !digits.all Char.isDigit then none else digitsValue max digits

/-- `char::to_digit` -/
def toDigit (radix : ℕ) (c : Char) : Option ℕ :=
  let d :=
    if '0' ≤ c ∧ c ≤ '9' then c.toNat - 48
    else if 'a' ≤ c ∧ c ≤ 'z' then c.toNat - 87
    else if 'A' ≤ c ∧ c ≤ 'Z' then c.toNat - 55
    else radix
  if d < radix then some d else none

/-- `from_str_radix` at an unsigned type with the given maximum: an optional `+`, then digits. -/
def fromStrRadix (radix max : ℕ) (cs : List Char) : Option ℕ :=
  let digits := if cs.head? = some '+' then cs.tail else cs
  if digits.isEmpty then none
  else
    digits.foldlM (fun n c => do
      let d ← toDigit radix c
      if n * radix + d > max then none else some (n * radix + d)) 0

/-- The decimal representation of a number. -/
def dec (n : ℕ) : List UInt8 := utf8 (Nat.repr n)

/-- A number in decimal, as characters. -/
def decChars (n : ℕ) : List Char := (Nat.repr n).toList

theorem decChars_eq (n : ℕ) : decChars n = Nat.toDigits 10 n := by
  rw [decChars, Nat.repr, String.toList_ofList]

variable {c : Char} {cs w : List Char} {b out : List UInt8} {cap max n : ℕ}

theorem isDigit_of_mem_decChars (mem : c ∈ decChars n) : c.isDigit = true := by
  rw [decChars_eq] at mem
  exact Nat.isDigit_of_mem_toDigits (by decide) (by decide) mem

theorem isWhitespace_of_isDigit (digit : c.isDigit = true) : isWhitespace c = false := by
  simp only [Char.isDigit, Bool.and_eq_true, decide_eq_true_eq, ge_iff_le, UInt32.le_iff_toNat_le] at digit
  have low : 48 ≤ c.toNat := digit.1
  have high : c.toNat ≤ 57 := digit.2
  unfold isWhitespace
  simp only [Bool.or_eq_false_iff, Bool.and_eq_false_iff, decide_eq_false_iff_not, beq_eq_false_iff_ne]
  omega

theorem decChars_ne_nil (n : ℕ) : decChars n ≠ [] := by
  rw [decChars_eq]
  exact Nat.toDigits_ne_nil

theorem le_ofDigitChars (cs : List Char) (n : ℕ) : n ≤ Nat.ofDigitChars 10 cs n := by
  induction cs generalizing n with
  | nil => exact le_refl n
  | cons c cs ih =>
    rw [Nat.ofDigitChars_cons]
    exact le_trans (by omega) (ih _)

/-- The digits loop from a running value: it stops early only where the whole value is too large. -/
theorem foldlM_digits (limit : ℕ) (cs : List Char) (n : ℕ) (fits : n ≤ limit) :
    cs.foldlM (fun n c => let n := n * 10 + (c.toNat - 48); if n > limit then none else some n) n =
      if Nat.ofDigitChars 10 cs n ≤ limit then some (Nat.ofDigitChars 10 cs n) else none := by
  induction cs generalizing n with
  | nil => exact (if_pos fits).symm
  | cons c cs ih =>
    have next : n * 10 + (c.toNat - 48) = 10 * n + (c.toNat - '0'.toNat) := by
      rw [Nat.mul_comm]
      rfl
    rw [List.foldlM_cons, Nat.ofDigitChars_cons, ← next]
    by_cases large : n * 10 + (c.toNat - 48) > limit
    · have more := le_ofDigitChars cs (n * 10 + (c.toNat - 48))
      simp only [if_pos large, if_neg (by omega : ¬Nat.ofDigitChars 10 cs (n * 10 + (c.toNat - 48)) ≤ limit)]
      rfl
    · simp only [if_neg large]
      exact ih _ (Nat.not_lt.1 large)

theorem digitsValue_eq (limit : ℕ) (cs : List Char) :
    digitsValue limit cs =
      if Nat.ofDigitChars 10 cs 0 ≤ limit then some (Nat.ofDigitChars 10 cs 0) else none :=
  foldlM_digits limit cs 0 (Nat.zero_le _)

theorem digitsValue_decChars (limit n : ℕ) : digitsValue limit (decChars n) = if n ≤ limit then some n else none := by
  rw [digitsValue_eq, decChars_eq, Nat.ofDigitChars_toDigits (by decide) (by decide)]

/-- The words `str::parse` takes for `n` at an unsigned type: digits, perhaps behind a `+`, whose value is in
range. -/
def Numeral (max : ℕ) (w : List Char) (n : ℕ) : Prop :=
  ∃ digits, (w = digits ∨ w = '+' :: digits) ∧ digits ≠ [] ∧ (∀ c ∈ digits, c.isDigit = true) ∧
    Nat.ofDigitChars 10 digits 0 = n ∧ n ≤ max

theorem parseUnsigned_eq_some : parseUnsigned max w = some n ↔ Numeral max w n := by
  have value (digits : List Char) :
      (if digits.isEmpty || !digits.all Char.isDigit then none else digitsValue max digits) = some n ↔
        digits ≠ [] ∧ (∀ c ∈ digits, c.isDigit = true) ∧ Nat.ofDigitChars 10 digits 0 = n ∧ n ≤ max := by
    rw [digitsValue_eq]
    by_cases some : digits = []
    · simp [some]
    by_cases all : ∀ c ∈ digits, c.isDigit = true
    · rw [if_neg (by simpa using ⟨some, all⟩)]
      constructor
      · intro read
        split at read
        case isTrue fits =>
          cases read
          exact ⟨some, all, rfl, fits⟩
        case isFalse => cases read
      · rintro ⟨-, -, rfl, fits⟩
        exact if_pos fits
    · rw [if_pos (by simpa [some] using all)]
      exact iff_of_false (by simp) fun h => all h.2.1
  unfold parseUnsigned
  rw [value]
  constructor
  · intro read
    by_cases sign : w.head? = some '+'
    · rw [if_pos sign] at read
      obtain ⟨digits, rfl⟩ := List.head?_eq_some_iff.1 sign
      exact ⟨digits, .inr rfl, read⟩
    · rw [if_neg sign] at read
      exact ⟨w, .inl rfl, read⟩
  · rintro ⟨digits, rfl | rfl, read⟩
    · rw [if_neg fun sign => absurd (read.2.1 '+' (List.mem_of_head? sign)) (by decide)]
      exact read
    · exact read

theorem numeral_decChars (fits : n ≤ max) : Numeral max (decChars n) n := by
  refine ⟨decChars n, .inl rfl, decChars_ne_nil n, fun c => isDigit_of_mem_decChars, ?_, fits⟩
  rw [decChars_eq, Nat.ofDigitChars_toDigits (by decide) (by decide)]

theorem Numeral.le (numeral : Numeral max w n) : n ≤ max := by
  obtain ⟨_, _, _, _, _, fits⟩ := numeral
  exact fits

theorem Numeral.chars (numeral : Numeral max w n) :
    ∀ c ∈ w, c = '+' ∨ c.isDigit = true := by
  obtain ⟨digits, rfl | rfl, -, all, -⟩ := numeral
  · exact fun c mem => .inr (all c mem)
  · exact fun c mem => (List.mem_cons.1 mem).imp_right (all c)

theorem Numeral.not_mem (numeral : Numeral max w n) {sep : Char} (plus : sep ≠ '+')
    (digit : sep.isDigit = false) : sep ∉ w := by
  intro mem
  rcases numeral.chars sep mem with h | h
  · exact plus h
  · rw [digit] at h
    cases h

theorem not_mem_of_forall₂ {sep : Char} (plus : sep ≠ '+') (digit : sep.isDigit = false)
    {words : List (List Char)} {vals : List ℕ} (read : List.Forall₂ (Numeral max) words vals) :
    ∀ w ∈ words, sep ∉ w := by
  induction read with
  | nil => exact fun w mem => nomatch mem
  | cons numeral _ ih => exact List.forall_mem_cons.2 ⟨numeral.not_mem plus digit, ih⟩

theorem le_of_forall₂ {words : List (List Char)} {vals : List ℕ}
    (read : List.Forall₂ (Numeral max) words vals) : ∀ v ∈ vals, v ≤ max := by
  induction read with
  | nil => exact fun v mem => nomatch mem
  | cons numeral _ ih => exact List.forall_mem_cons.2 ⟨numeral.le, ih⟩

/-- A text filled up on the left to a width. -/
def padLeft (width : ℕ) (fill : Char) (cs : List Char) : List Char :=
  List.replicate (width - cs.length) fill ++ cs

/-- `to_ascii_uppercase` -/
def asciiUpper (c : Char) : Char := if 'a' ≤ c ∧ c ≤ 'z' then Char.ofNat (c.toNat - 32) else c

/-! ## Decoding -/

theorem data_utf8Encode (cs : List Char) : cs.utf8Encode.data.toList = cs.flatMap String.utf8EncodeChar := by
  rw [List.utf8Encode, List.toList_data_toByteArray]

/-- The bytes of a text are the codes of its characters. -/
theorem utf8_eq (s : String) : utf8 s = s.toList.flatMap String.utf8EncodeChar := by
  rw [utf8, ← String.utf8Encode_toList, data_utf8Encode]

/-- The bytes that decode to a text are those it is encoded by. -/
theorem fromUtf8_eq_some_iff :
    fromUtf8 b = some cs ↔ b = cs.flatMap String.utf8EncodeChar := by
  unfold fromUtf8 String.fromUTF8?
  constructor
  · intro decoded
    split at decoded
    · next valid =>
      have encoded := utf8_eq (String.fromUTF8 ⟨b.toArray⟩ valid)
      rw [Option.map_some, Option.some.injEq] at decoded
      rwa [decoded] at encoded
    · cases decoded
  · rintro rfl
    have same : (⟨(cs.flatMap String.utf8EncodeChar).toArray⟩ : ByteArray) = cs.utf8Encode :=
      ByteArray.ext (Array.toList_inj.1 (data_utf8Encode cs).symm)
    rw [same, dif_pos ByteArray.isValidUTF8_utf8Encode, Option.map_some]
    congr 1
    have text : String.fromUTF8 cs.utf8Encode ByteArray.isValidUTF8_utf8Encode = String.ofList cs :=
      String.toByteArray_inj.1 String.toByteArray_ofList.symm
    rw [text, String.toList_ofList]

theorem fromUtf8_append {a : List UInt8} {x y : List Char} (left : fromUtf8 a = some x) (right : fromUtf8 b = some y) :
    fromUtf8 (a ++ b) = some (x ++ y) := by
  rw [fromUtf8_eq_some_iff] at left right ⊢
  rw [left, right, List.flatMap_append]

theorem utf8EncodeChar_ofNat : ∀ n < 128, String.utf8EncodeChar (Char.ofNat n) = [UInt8.ofNat n] := by
  decide +kernel

theorem fromUtf8_ascii (ascii : ∀ x ∈ b, x.toNat < 128) :
    fromUtf8 b = some (b.map fun x => Char.ofNat x.toNat) := by
  rw [fromUtf8_eq_some_iff, List.flatMap_map]
  induction b with
  | nil => rfl
  | cons x b ih =>
    obtain ⟨first, rest⟩ := List.forall_mem_cons.1 ascii
    rw [List.flatMap_cons, utf8EncodeChar_ofNat _ first, UInt8.ofNat_toNat, ← ih rest]
    rfl

theorem fromUtf8_utf8 (s : String) : fromUtf8 (utf8 s) = some s.toList :=
  fromUtf8_eq_some_iff.2 (utf8_eq s)

/-- A byte below 128 in the code of a character is all of it. -/
theorem toNat_of_mem_utf8EncodeChar {b : UInt8} (low : b.toNat < 128) (mem : b ∈ String.utf8EncodeChar c) :
    c.toNat = b.toNat := by
  have high (x m : UInt8) (top : 128 ≤ m.toNat) : b ≠ x ||| m := by
    rintro rfl
    rw [UInt8.toNat_or] at low
    have := Nat.right_le_or (n := x.toNat) (m := m.toNat)
    omega
  rcases c.utf8Size_eq with one | two | three | four
  · rw [String.utf8EncodeChar_eq_singleton one, List.mem_singleton] at mem
    have small : c.toNat ≤ 127 := UInt32.le_iff_toNat_le.1 (Char.utf8Size_eq_one_iff.1 one)
    rw [mem, UInt32.toNat_toUInt8]
    exact (Nat.mod_eq_of_lt (Nat.lt_of_le_of_lt small (by decide))).symm
  · rw [String.utf8EncodeChar_eq_cons_cons two] at mem
    simp [high] at mem
  · rw [String.utf8EncodeChar_eq_cons_cons_cons three] at mem
    simp [high] at mem
  · rw [String.utf8EncodeChar_eq_cons_cons_cons_cons four] at mem
    simp [high] at mem

theorem mem_of_mem_fromUtf8 (decoded : fromUtf8 b = some cs) {x : UInt8}
    (low : x.toNat < 128) (mem : x ∈ b) : ∃ c ∈ cs, c.toNat = x.toNat := by
  rw [fromUtf8_eq_some_iff.1 decoded, List.mem_flatMap] at mem
  obtain ⟨c, inside, code⟩ := mem
  exact ⟨c, inside, toNat_of_mem_utf8EncodeChar low code⟩

theorem digit_of_mem_dec {b : UInt8} (mem : b ∈ dec n) : 48 ≤ b.toNat ∧ b.toNat ≤ 57 := by
  rw [dec, utf8_eq, List.mem_flatMap] at mem
  obtain ⟨c, digit, code⟩ := mem
  have range := isDigit_of_mem_decChars digit
  simp only [Char.isDigit, Bool.and_eq_true, decide_eq_true_eq, ge_iff_le, UInt32.le_iff_toNat_le] at range
  have one : c.utf8Size = 1 := Char.utf8Size_eq_one_iff.2 (UInt32.le_iff_toNat_le.2 (range.2.trans (by decide)))
  rw [String.utf8EncodeChar_eq_singleton one, List.mem_singleton] at code
  rw [code, UInt32.toNat_toUInt8, Nat.mod_eq_of_lt (Nat.lt_of_le_of_lt range.2 (by decide))]
  exact range

theorem dec_ne_nil (n : ℕ) : dec n ≠ [] := by
  intro empty
  obtain ⟨c, mem⟩ := List.exists_mem_of_ne_nil _ (decChars_ne_nil n)
  rw [dec, utf8_eq, List.flatMap_eq_nil_iff] at empty
  exact String.utf8EncodeChar_ne_nil (empty c mem)

theorem mem_dropWhile {α : Type*} {p : α → Bool} {l : List α} {a : α} (mem : a ∈ l) (stops : p a = false) :
    a ∈ l.dropWhile p := by
  rw [← List.takeWhile_append_dropWhile (p := p) (l := l), List.mem_append] at mem
  refine mem.resolve_left fun taken => ?_
  have passed := List.all_eq_true.1 List.all_takeWhile a taken
  rw [stops] at passed
  cases passed

theorem mem_trim (mem : c ∈ cs) (solid : isWhitespace c = false) : c ∈ trim cs := by
  rw [trim, List.mem_reverse]
  refine mem_dropWhile ?_ solid
  rw [List.mem_reverse]
  exact mem_dropWhile mem solid

theorem dropWhile_append_solid {p : Char → Bool} {t : List Char} (blank : ∀ c ∈ w, p c = true)
    (solid : ∀ c ∈ t, p c = false) (rest : List Char) (nonempty : t ≠ []) :
    (w ++ (t ++ rest)).dropWhile p = t ++ rest := by
  obtain ⟨c, t, rfl⟩ := List.exists_cons_of_ne_nil nonempty
  rw [List.dropWhile_append_of_pos blank, List.cons_append, List.dropWhile_cons, solid c List.mem_cons_self]
  rfl

/-- Trimming takes the white space around a word. -/
theorem trim_eq {t w' : List Char} (blank : ∀ c ∈ w, isWhitespace c = true) (blank' : ∀ c ∈ w', isWhitespace c = true)
    (solid : ∀ c ∈ t, isWhitespace c = false) (nonempty : t ≠ []) : trim (w ++ (t ++ w')) = t := by
  rw [trim, dropWhile_append_solid blank solid w' nonempty, List.reverse_append]
  have back := dropWhile_append_solid (w := w'.reverse) (t := t.reverse)
    (fun c mem => blank' c (List.mem_reverse.1 mem)) (fun c mem => solid c (List.mem_reverse.1 mem)) []
    (by simpa using nonempty)
  rw [List.append_nil] at back
  rw [back, List.reverse_reverse]

/-! ## Strings of a fixed capacity -/

/-- The length in UTF-8. -/
def byteLen (cs : List Char) : ℕ := (cs.map Char.utf8Size).sum

/-- `push_str`: all of the piece or an error. -/
def pushStr (cap : ℕ) (cs piece : List Char) : Option (List Char) :=
  if byteLen cs + byteLen piece ≤ cap then some (cs ++ piece) else none

/-- `push`, with the error ignored. -/
def pushChar (cap : ℕ) (cs : List Char) (c : Char) : List Char := (pushStr cap cs [c]).getD cs

/-- `write!` of several pieces, with the error ignored: it stops at the first that does not fit. -/
def writePieces (cap : ℕ) (cs : List Char) : List (List Char) → List Char
  | [] => cs
  | piece :: pieces =>
    match pushStr cap cs piece with
    | some cs => writePieces cap cs pieces
    | none => cs

/-- `collect`, which panics when the characters do not fit. -/
def collect (cap : ℕ) (cs : List Char) : Option (List Char) := if byteLen cs ≤ cap then some cs else none

@[simp] theorem byteLen_cons (c : Char) (cs : List Char) : byteLen (c :: cs) = c.utf8Size + byteLen cs := by
  simp [byteLen]

@[simp] theorem byteLen_append (a b : List Char) : byteLen (a ++ b) = byteLen a + byteLen b := by
  simp [byteLen]

theorem byteLen_pos (filled : cs ≠ []) : 0 < byteLen cs := by
  cases cs with
  | nil => exact absurd rfl filled
  | cons c cs =>
    have := c.utf8Size_pos
    rw [byteLen_cons]
    omega

theorem byteLen_fromUtf8 (decoded : fromUtf8 b = some cs) : byteLen cs = b.length := by
  rw [fromUtf8_eq_some_iff.1 decoded, List.length_flatMap, byteLen]
  simp only [String.length_utf8EncodeChar]

theorem byteLen_ascii (ascii : ∀ c ∈ cs, c.toNat < 128) : byteLen cs = cs.length := by
  induction cs with
  | nil => rfl
  | cons c cs ih =>
    have one : c.utf8Size = 1 := by
      rw [Char.utf8Size_eq_one_iff, UInt32.le_iff_toNat_le]
      exact Nat.le_of_lt_succ (ascii c (.head _))
    rw [byteLen_cons, one, ih fun d mem => ascii d (.tail _ mem), List.length_cons, Nat.add_comm]

theorem pushChar_eq (cap : ℕ) (cs : List Char) (c : Char) :
    pushChar cap cs c = if byteLen (cs ++ [c]) ≤ cap then cs ++ [c] else cs := by
  rw [pushChar, pushStr, byteLen_append]
  split_ifs <;> rfl

theorem writePieces_cons (cap : ℕ) (cs piece : List Char) (pieces : List (List Char)) :
    writePieces cap cs (piece :: pieces) =
      if byteLen (cs ++ piece) ≤ cap then writePieces cap (cs ++ piece) pieces else cs := by
  rw [writePieces, pushStr, byteLen_append]
  split_ifs <;> rfl

/-! ## Byte strings of a fixed capacity -/

/-- `write!` of several pieces, with the error ignored: it stops at the first that does not fit. -/
def writeBytes (cap : ℕ) (out : List UInt8) : List (List UInt8) → List UInt8
  | [] => out
  | piece :: pieces => if out.length + piece.length ≤ cap then writeBytes cap (out ++ piece) pieces else out

/-- One `write!` after the other. -/
def writeCalls (cap : ℕ) (out : List UInt8) (calls : List (List (List UInt8))) : List UInt8 :=
  calls.foldl (writeBytes cap) out

theorem writeBytes_eq {pieces : List (List UInt8)} (fits : out.length + pieces.flatten.length ≤ cap) :
    writeBytes cap out pieces = out ++ pieces.flatten := by
  induction pieces generalizing out with
  | nil => rw [writeBytes, List.flatten_nil, List.append_nil]
  | cons piece pieces ih =>
    rw [List.flatten_cons, List.length_append] at fits
    rw [writeBytes, if_pos (by omega), ih (by rw [List.length_append]; omega), List.flatten_cons, List.append_assoc]

theorem writeCalls_eq {calls : List (List (List UInt8))} (fits : out.length + calls.flatten.flatten.length ≤ cap) :
    writeCalls cap out calls = out ++ calls.flatten.flatten := by
  rw [writeCalls]
  induction calls generalizing out with
  | nil => simp
  | cons call calls ih =>
    rw [List.flatten_cons, List.flatten_append, List.length_append] at fits
    rw [List.foldl_cons, writeBytes_eq (by omega), ih (by rw [List.length_append]; omega), List.flatten_cons,
      List.flatten_append, List.append_assoc]

theorem length_writeBytes (room : out.length ≤ cap) (pieces : List (List UInt8)) :
    (writeBytes cap out pieces).length ≤ cap := by
  induction pieces generalizing out with
  | nil => exact room
  | cons piece pieces ih =>
    rw [writeBytes]
    split
    · next fits => exact ih (by rwa [List.length_append])
    · exact room

/-- Pieces that are within given lengths are together within their sum. -/
theorem length_flatten_le {pieces : List (List UInt8)} {sizes : List ℕ}
    (within : List.Forall₂ (fun piece size => piece.length ≤ size) pieces sizes) :
    pieces.flatten.length ≤ sizes.sum := by
  induction within with
  | nil => exact Nat.le_refl 0
  | cons first _ ih =>
    rw [List.flatten_cons, List.length_append, List.sum_cons]
    exact Nat.add_le_add first ih

theorem length_dec {k : ℕ} (some_digit : 0 < k) (below : n < 10 ^ k) : (dec n).length ≤ k := by
  have digits : ∀ c ∈ decChars n, c.toNat < 128 := fun c mem => by
    have range := isDigit_of_mem_decChars mem
    simp only [Char.isDigit, Bool.and_eq_true, decide_eq_true_eq, ge_iff_le, UInt32.le_iff_toNat_le] at range
    exact Nat.lt_of_le_of_lt range.2 (by decide)
  have size := byteLen_fromUtf8 (fromUtf8_utf8 (Nat.repr n))
  rw [← dec] at size
  rw [← size]
  change byteLen (decChars n) ≤ k
  rw [byteLen_ascii digits, decChars_eq]
  exact Nat.toDigits_length 10 n k some_digit below

end Text
