import Mathlib.Data.Bool.AllAny
import Mathlib.Data.List.TakeWhile
import IoEdgeHub.Proto.JsonScan

/-!
# The JSON getters on flat objects

A flat object is given by its tokens and by the white space between them, and `FlatObject.bytes` is its
text.  The getters search the text for the quoted key.  For most keys only the quote that opens a key can
start a match (`jsonRawValue_members`), and of the white space they know blanks and tabs before a value and
none behind a string.  A key with a quote or a backslash in it, or one that begins as the text between two
tokens does, can be found anywhere (`jsonRawValue_place`).  `getters_flat_iff` says on which objects, and for
which keys, they return what the object has under the key.
-/

namespace IoEdgeHub

open Text JsonScan

/-! ## Flat objects -/

/-- White space between tokens. -/
def isJsonWs (b : UInt8) : Bool := b == 0x20 || b == 0x09 || b == 0x0D || b == 0x0A

/-- The white space the getters skip. -/
def isBlank (b : UInt8) : Bool := b == 0x20 || b == 0x09

/-- Any white space that may stand between two tokens. -/
structure JsonWs where
  bytes : List UInt8
  ws : ∀ b ∈ bytes, isJsonWs b = true

/-- No white space. -/
def JsonWs.empty : JsonWs := ⟨[], nofun⟩

/-- A blank. -/
def JsonWs.blank : JsonWs := ⟨[0x20], List.all_eq_true.1 rfl⟩

/-- Blanks and tabs only. -/
def JsonWs.Blank (w : JsonWs) : Prop := ∀ b ∈ w.bytes, isBlank b = true

instance (w : JsonWs) : Decidable w.Blank := decidable_of_iff (w.bytes.all isBlank = true) List.all_eq_true

/-- A byte that stands for itself in a string, or an escaped one. -/
inductive StrItem where
  | plain (b : UInt8) (ordinary : b ≠ quote ∧ b ≠ backslash)
  | escape (b : UInt8)

/-- How an item is written. -/
def StrItem.bytes : StrItem → List UInt8
  | .plain b _ => [b]
  | .escape b => [backslash, b]

/-- The characters between the quotes. -/
def itemBytes (items : List StrItem) : List UInt8 := items.flatMap StrItem.bytes

/-- A value that is not nested. -/
inductive FlatValue where
  | str (items : List StrItem)
  | int (neg : Bool) (n : ℕ)
  | bool (b : Bool)

namespace FlatValue

/-- How a value is written. -/
def bytes : FlatValue → List UInt8
  | .str items => quote :: (itemBytes items ++ [quote])
  | .int neg n => (if neg then utf8 "-" else []) ++ dec n
  | .bool b => utf8 (if b then "true" else "false")

/-- The string, if it is one. -/
def str? : FlatValue → Option (List UInt8)
  | .str items => some (itemBytes items)
  | _ => none

/-- The number, if it is one of 32 bits or a boolean. -/
def i32? : FlatValue → Option ℤ
  | .str _ => none
  | .int neg n =>
    let z : ℤ := if neg then -n else n
    if -2 ^ 31 ≤ z ∧ z ≤ 2 ^ 31 - 1 then some z else none
  | .bool b => some (if b then 1 else 0)

end FlatValue

/-- A key and its value, with the white space around them. -/
structure FlatMember where
  before : JsonWs
  key : List UInt8
  preColon : JsonWs
  postColon : JsonWs
  value : FlatValue
  postValue : JsonWs
  plainKey : ∀ b ∈ key, b ≠ quote ∧ b ≠ backslash

/-- The text from the key's closing quote on. -/
def FlatMember.tail (m : FlatMember) : List UInt8 :=
  quote :: (m.preColon.bytes ++ 0x3A :: (m.postColon.bytes ++ (m.value.bytes ++ m.postValue.bytes)))

/-- How a member is written. -/
def FlatMember.bytes (m : FlatMember) : List UInt8 := m.before.bytes ++ quote :: (m.key ++ m.tail)

/-- An object of flat members with distinct keys. -/
structure FlatObject where
  lead : JsonWs
  inner : JsonWs
  members : List FlatMember
  trail : JsonWs
  distinct : (members.map FlatMember.key).Nodup

namespace FlatObject

/-- How an object is written. -/
def bytes (o : FlatObject) : List UInt8 :=
  o.lead.bytes ++ 0x7B :: (o.inner.bytes ++
    ([0x2C].intercalate (o.members.map FlatMember.bytes) ++ 0x7D :: o.trail.bytes))

/-- The member with a key. -/
def find (o : FlatObject) (key : List UInt8) : Option FlatMember := o.members.find? (·.key = key)

end FlatObject

/-- A key without quotes and backslashes, which does not begin as the text between two members or between a key
and its value does. -/
structure Searchable (key : List UInt8) : Prop where
  plain : ∀ b ∈ key, b ≠ quote ∧ b ≠ backslash
  start : ∀ b ∈ (key.dropWhile isJsonWs).head?, b ≠ 0x2C ∧ b ≠ 0x3A

theorem searchable_iff (key : List UInt8) :
    (key.all (fun b => b ≠ quote ∧ b ≠ backslash) = true ∧
      (key.dropWhile isJsonWs).head?.all (fun b => b ≠ 0x2C ∧ b ≠ 0x3A) = true) ↔ Searchable key := by
  rw [List.all_iff_forall_prop, Option.all_eq_true]
  simp only [decide_eq_true_eq]
  exact ⟨fun h => ⟨h.1, h.2⟩, fun h => ⟨h.plain, h.start⟩⟩

instance (key : List UInt8) : Decidable (Searchable key) := decidable_of_iff _ (searchable_iff key)

/-! ## The search -/

section Search

variable {key : List UInt8}

theorem keyHere_ne {c : UInt8} (other : c ≠ quote) (rest : List UInt8) : keyHere key (c :: rest) = none := by
  rw [keyHere_cons, if_neg fun h => other h.1]

theorem keyHere_other {rest : List UInt8} (apart : ¬key ++ [quote] <+: rest) :
    keyHere key (quote :: rest) = none := by
  rw [keyHere, if_neg]
  intro found
  exact apart (List.cons_prefix_cons.1 (List.isPrefixOf_iff_prefix.1 found)).2

/-- At the key itself the byte behind the blanks decides. -/
theorem keyHere_quoted {after rest : List UInt8} {c : UInt8} (next : skipWs after = c :: rest) :
    keyHere key (quote :: (key ++ quote :: after)) = if c = 0x3A then some (skipWs rest) else none := by
  have start : key.isPrefixOf (key ++ quote :: after) = true := List.isPrefixOf_iff_prefix.2 (List.prefix_append ..)
  have close : (key ++ quote :: after)[key.length]? = some quote := by simp
  have behind : (key ++ quote :: after).drop (key.length + 1) = after := by
    rw [← List.drop_drop, List.drop_left, List.drop_one, List.tail_cons]
  rw [keyHere_cons, if_pos ⟨rfl, start, close⟩, behind, next]

theorem firstValue_skip {c : UInt8} {rest : List UInt8} (none : keyHere key (c :: rest) = none) :
    firstValue key (c :: rest) = firstValue key rest := by
  rw [firstValue, none]

theorem firstValue_append {w : List UInt8} (free : quote ∉ w) (rest : List UInt8) :
    firstValue key (w ++ rest) = firstValue key rest := by
  induction w with
  | nil => rfl
  | cons c w ih =>
    rw [List.mem_cons, not_or] at free
    rw [List.cons_append, firstValue_skip (keyHere_ne (Ne.symm free.1) _), ih free.2]

theorem firstValue_free {w : List UInt8} (free : quote ∉ w) : firstValue key w = none := by
  have whole : firstValue key (w ++ []) = firstValue key [] := firstValue_append free []
  rwa [List.append_nil] at whole

end Search

theorem JsonWs.free (w : JsonWs) : quote ∉ w.bytes := by
  intro mem
  exact absurd (w.ws quote mem) (by decide)

theorem eq_of_quoted_isPrefix {key key' after : List UInt8} (plain : quote ∉ key) (plain' : quote ∉ key')
    (found : key ++ [quote] <+: key' ++ quote :: after) : key = key' := by
  induction key generalizing key' with
  | nil =>
    cases key' with
    | nil => rfl
    | cons c key' =>
      have head := (List.cons_prefix_cons.1 found).1
      exact absurd (head ▸ List.mem_cons_self) plain'
  | cons b key ih =>
    cases key' with
    | nil =>
      have head := (List.cons_prefix_cons.1 found).1
      exact absurd (head ▸ List.mem_cons_self) plain
    | cons c key' =>
      obtain ⟨rfl, tail⟩ := List.cons_prefix_cons.1 found
      rw [ih (fun mem => plain (List.mem_cons_of_mem _ mem)) (fun mem => plain' (List.mem_cons_of_mem _ mem)) tail]

/-- A key that does not begin with a comma or a colon is not found across the text between two strings. -/
theorem not_prefix_separator {key w : List UInt8} (start : ∀ b ∈ (key.dropWhile isJsonWs).head?, b ≠ 0x2C ∧ b ≠ 0x3A)
    (ws : ∀ b ∈ w, isJsonWs b = true) {x : UInt8} (sep : x = 0x2C ∨ x = 0x3A) (more : List UInt8) :
    ¬key ++ [quote] <+: w ++ x :: more := by
  induction w generalizing key with
  | nil =>
    intro found
    cases key with
    | nil =>
      have head := (List.cons_prefix_cons.1 found).1
      rcases sep with rfl | rfl <;> exact absurd head (by decide)
    | cons k key =>
      obtain ⟨rfl, -⟩ := List.cons_prefix_cons.1 found
      have solid : isJsonWs k = false := by rcases sep with rfl | rfl <;> rfl
      rw [List.dropWhile_cons, solid] at start
      obtain ⟨comma, colon⟩ := start k rfl
      exact sep.elim comma colon
  | cons b w ih =>
    intro found
    have blank := ws b List.mem_cons_self
    cases key with
    | nil =>
      have head := (List.cons_prefix_cons.1 found).1
      exact absurd (head ▸ blank) (by decide)
    | cons k key =>
      obtain ⟨rfl, rest⟩ := List.cons_prefix_cons.1 found
      rw [List.dropWhile_cons, if_pos blank] at start
      exact ih start (fun b mem => ws b (List.mem_cons_of_mem _ mem)) rest

/-- A key without quotes and backslashes is found in a string only if it is all of it. -/
theorem eq_of_prefix_items {key : List UInt8} (plain : ∀ b ∈ key, b ≠ quote ∧ b ≠ backslash) (items : List StrItem)
    {after : List UInt8} (found : key ++ [quote] <+: itemBytes items ++ quote :: after) : key = itemBytes items := by
  induction items generalizing key with
  | nil =>
    refine eq_of_quoted_isPrefix (fun mem => (plain quote mem).1 rfl) ?_ found
    simp [itemBytes]
  | cons item items ih =>
    have later {k : UInt8} {key : List UInt8} (plain : ∀ b ∈ k :: key, b ≠ quote ∧ b ≠ backslash) :
        ∀ b ∈ key, b ≠ quote ∧ b ≠ backslash := fun b mem => plain b (List.mem_cons_of_mem _ mem)
    cases item with
    | plain b ordinary =>
      cases key with
      | nil => exact absurd (List.cons_prefix_cons.1 found).1.symm ordinary.1
      | cons k key =>
        obtain ⟨rfl, rest⟩ := List.cons_prefix_cons.1 found
        rw [ih (later plain) rest]
        rfl
    | escape b =>
      cases key with
      | nil => exact absurd (List.cons_prefix_cons.1 found).1 (by decide)
      | cons k key =>
        obtain ⟨rfl, -⟩ := List.cons_prefix_cons.1 found
        exact absurd rfl (plain backslash List.mem_cons_self).2

/-! ## What stands behind a value -/

/-- The end of a member: a comma, or the brace that closes the object. -/
inductive MemberEnd : List UInt8 → Prop
  | comma (more : List UInt8) : MemberEnd (0x2C :: more)
  | brace {more : List UInt8} (free : quote ∉ more) : MemberEnd (0x7D :: more)

theorem skipWs_append (w : List UInt8) {c : UInt8} (solid : isBlank c = false) (rest : List UInt8) :
    skipWs (w ++ c :: rest) = w.dropWhile isBlank ++ c :: rest := by
  induction w with
  | nil => exact List.dropWhile_cons_of_neg (by rw [← isBlank, solid]; decide)
  | cons b w ih =>
    by_cases blank : isBlank b = true
    · rw [List.cons_append, List.dropWhile_cons, if_pos blank, ← ih]
      exact List.dropWhile_cons_of_pos blank
    · rw [List.cons_append, List.dropWhile_cons, if_neg blank]
      exact List.dropWhile_cons_of_neg blank

/-- What is left of white space by `skipWs`. -/
def JsonWs.stripped (w : JsonWs) : List UInt8 := w.bytes.dropWhile isBlank

theorem JsonWs.stripped_eq_nil_iff (w : JsonWs) : w.stripped = [] ↔ w.Blank := List.dropWhile_eq_nil_iff

theorem JsonWs.ws_of_mem_stripped (w : JsonWs) {b : UInt8} (mem : b ∈ w.stripped) : isJsonWs b = true :=
  w.ws b ((List.dropWhile_suffix _).subset mem)

theorem MemberEnd.skipWs_ne_colon {e : List UInt8} (ends : MemberEnd e) (w : JsonWs) :
    ∃ c rest, skipWs (w.bytes ++ e) = c :: rest ∧ c ≠ 0x3A := by
  obtain ⟨x, more, rfl, solid, other⟩ : ∃ x more, e = x :: more ∧ isBlank x = false ∧ x ≠ 0x3A := by
    cases ends with
    | comma more => exact ⟨0x2C, more, rfl, rfl, by decide⟩
    | brace free => exact ⟨0x7D, _, rfl, rfl, by decide⟩
  have ws : ∀ b ∈ w.bytes.dropWhile isBlank, isJsonWs b = true := fun b mem => w.ws_of_mem_stripped mem
  rw [skipWs_append w.bytes solid]
  cases left : w.bytes.dropWhile isBlank with
  | nil => exact ⟨x, more, rfl, other⟩
  | cons c rest =>
    refine ⟨c, rest ++ x :: more, rfl, ?_⟩
    rintro rfl
    exact absurd (ws 0x3A (left ▸ List.mem_cons_self)) (by decide)

theorem MemberEnd.not_prefix {e key : List UInt8} (ends : MemberEnd e) (searchable : Searchable key) (w : JsonWs) :
    ¬key ++ [quote] <+: w.bytes ++ e := by
  cases ends with
  | comma more => exact not_prefix_separator searchable.start w.ws (.inl rfl) more
  | brace free =>
    intro found
    have mem := found.subset (List.mem_append_right key (List.mem_singleton_self quote))
    rcases List.mem_append.1 mem with inside | outside
    · exact w.free inside
    · exact (List.mem_cons.1 outside).elim (by decide) free

section Strings

variable {key e : List UInt8} (searchable : Searchable key) (w : JsonWs) (ends : MemberEnd e)

include searchable ends

theorem keyHere_items (items : List StrItem) :
    keyHere key (quote :: (itemBytes items ++ quote :: (w.bytes ++ e))) = none := by
  by_cases found : key ++ [quote] <+: itemBytes items ++ quote :: (w.bytes ++ e)
  -- the rest of the string is the key, but it is a value: no colon follows
  · obtain ⟨c, rest, next, other⟩ := ends.skipWs_ne_colon w
    rw [← eq_of_prefix_items searchable.plain items found, keyHere_quoted next, if_neg other]
  · exact keyHere_other found

theorem firstValue_items (items : List StrItem) :
    firstValue key (itemBytes items ++ quote :: (w.bytes ++ e)) = firstValue key e := by
  induction items with
  | nil =>
    rw [itemBytes, List.flatMap_nil, List.nil_append,
      firstValue_skip (keyHere_other (ends.not_prefix searchable w)), firstValue_append w.free]
  | cons item items ih =>
    cases item with
    | plain b ordinary => exact (firstValue_skip (keyHere_ne ordinary.1 _)).trans ih
    | escape b =>
      refine (firstValue_skip (keyHere_ne (by decide) _)).trans (Eq.trans ?_ ih)
      -- the search knows no escapes: an escaped quote starts a candidate like any other
      by_cases escaped : b = quote
      · rw [escaped]
        exact firstValue_skip (keyHere_items searchable w ends items)
      · exact firstValue_skip (keyHere_ne escaped _)

end Strings

/-! ## Values -/

/-- A byte of a number or of a boolean. -/
def isAtomByte (b : UInt8) : Bool := b == 0x2D || (0x30 ≤ b && b ≤ 0x39) || (0x61 ≤ b && b ≤ 0x7A)

theorem isAtomByte_solid {b : UInt8} (atom : isAtomByte b = true) :
    b ≠ quote ∧ b ≠ 0x2C ∧ b ≠ 0x7D ∧ isJsonWs b = false := by
  refine ⟨?_, ?_, ?_, ?_⟩
  · rintro rfl
    exact absurd atom (by decide)
  · rintro rfl
    exact absurd atom (by decide)
  · rintro rfl
    exact absurd atom (by decide)
  · rw [Bool.eq_false_iff]
    intro ws
    simp only [isJsonWs, Bool.or_eq_true, beq_iff_eq] at ws
    rcases ws with ((rfl | rfl) | rfl) | rfl <;> exact absurd atom (by decide)

namespace FlatValue

/-- A value that is no string has only bytes of numbers and booleans. -/
theorem atom_bytes {v : FlatValue} (other : v.str? = none) : ∀ b ∈ v.bytes, isAtomByte b = true := by
  cases v with
  | str items => cases other
  | int neg n =>
    intro b mem
    rcases List.mem_append.1 mem with sign | digit
    · cases neg with
      | true =>
        obtain rfl := List.mem_singleton.1 (show b ∈ [0x2D] from sign)
        rfl
      | false => cases sign
    · obtain ⟨low, high⟩ := digit_of_mem_dec digit
      simp only [isAtomByte, Bool.or_eq_true, Bool.and_eq_true, decide_eq_true_eq, UInt8.le_iff_toNat_le]
      exact .inl (.inr ⟨low, high⟩)
  | bool b => cases b <;> exact List.all_eq_true.1 rfl

theorem bytes_ne_nil (v : FlatValue) : v.bytes ≠ [] := by
  cases v with
  | str items => exact List.cons_ne_nil _ _
  | int neg n => exact List.append_ne_nil_of_right_ne_nil _ (dec_ne_nil n)
  | bool b => cases b <;> decide

theorem bytes_head (v : FlatValue) : ∃ c rest, v.bytes = c :: rest ∧ isJsonWs c = false := by
  obtain ⟨c, rest, split⟩ := List.exists_cons_of_ne_nil v.bytes_ne_nil
  refine ⟨c, rest, split, ?_⟩
  cases kind : v.str? with
  | none => exact (isAtomByte_solid (atom_bytes kind c (split ▸ List.mem_cons_self))).2.2.2
  | some s =>
    cases v with
    | str items =>
      obtain ⟨rfl, -⟩ := List.cons.inj split
      rfl
    | int | bool => cases kind

theorem firstValue_bytes {key e : List UInt8} (searchable : Searchable key) (v : FlatValue) (w : JsonWs)
    (ends : MemberEnd e) : firstValue key (v.bytes ++ (w.bytes ++ e)) = firstValue key e := by
  cases kind : v.str? with
  | none =>
    have free : quote ∉ v.bytes := fun mem => (isAtomByte_solid (atom_bytes kind quote mem)).1 rfl
    rw [firstValue_append free, firstValue_append w.free]
  | some s =>
    cases v with
    | str items =>
      have text : (str items).bytes ++ (w.bytes ++ e) = quote :: (itemBytes items ++ quote :: (w.bytes ++ e)) := by
        simp [bytes]
      rw [text, firstValue_skip (keyHere_items searchable w ends items), firstValue_items searchable w ends]
    | int | bool => cases kind

end FlatValue

/-! ## Members -/

namespace FlatMember

variable {key e : List UInt8} (m : FlatMember)

theorem tail_append (e : List UInt8) :
    m.tail ++ e = quote :: (m.preColon.bytes ++
      0x3A :: (m.postColon.bytes ++ (m.value.bytes ++ (m.postValue.bytes ++ e)))) := by
  simp [tail]

/-- The search goes past a member whose opening quote is no match. -/
theorem firstValue_tail (searchable : Searchable key) (ends : MemberEnd e) :
    firstValue key (m.key ++ (m.tail ++ e)) = firstValue key e := by
  have plain : quote ∉ m.key := fun mem => (m.plainKey quote mem).1 rfl
  have close := not_prefix_separator searchable.start m.preColon.ws (.inr rfl)
    (m.postColon.bytes ++ (m.value.bytes ++ (m.postValue.bytes ++ e)))
  rw [firstValue_append plain, tail_append, firstValue_skip (keyHere_other close),
    firstValue_append m.preColon.free, firstValue_skip (keyHere_ne (by decide) _), firstValue_append m.postColon.free,
    m.value.firstValue_bytes searchable m.postValue ends]

theorem bytes_append (e : List UInt8) : m.bytes ++ e = m.before.bytes ++ quote :: (m.key ++ (m.tail ++ e)) := by
  simp [bytes]

theorem firstValue_other (searchable : Searchable key) (ends : MemberEnd e) (other : m.key ≠ key) :
    firstValue key (m.bytes ++ e) = firstValue key e := by
  have apart : ¬key ++ [quote] <+: m.key ++ (m.tail ++ e) := by
    rw [tail_append]
    intro found
    refine other (eq_of_quoted_isPrefix ?_ ?_ found).symm
    · exact fun mem => (searchable.plain quote mem).1 rfl
    · exact fun mem => (m.plainKey quote mem).1 rfl
  rw [bytes_append, firstValue_append m.before.free, firstValue_skip (keyHere_other apart),
    m.firstValue_tail searchable ends]

/-- The text of the value as the getters cut it out, with the white space around it. -/
def raw : List UInt8 := m.postColon.stripped ++ (m.value.bytes ++ m.postValue.bytes)

theorem skipWs_postColon (e : List UInt8) :
    skipWs (m.postColon.bytes ++ (m.value.bytes ++ (m.postValue.bytes ++ e))) = m.raw ++ e := by
  obtain ⟨c, rest, split, solid⟩ := m.value.bytes_head
  have plain : isBlank c = false := by
    simp only [isJsonWs, Bool.or_eq_false_iff] at solid
    rw [isBlank, solid.1.1.1, solid.1.1.2]
    rfl
  rw [raw, split, List.cons_append, skipWs_append m.postColon.bytes plain, JsonWs.stripped]
  simp

theorem keyHere_own (e : List UInt8) :
    keyHere m.key (quote :: (m.key ++ (m.tail ++ e))) = if m.preColon.Blank then some (m.raw ++ e) else none := by
  rw [tail_append]
  have next := skipWs_append m.preColon.bytes (rfl : isBlank 0x3A = false)
    (m.postColon.bytes ++ (m.value.bytes ++ (m.postValue.bytes ++ e)))
  rw [← JsonWs.stripped] at next
  by_cases blank : m.preColon.Blank
  · rw [m.preColon.stripped_eq_nil_iff.2 blank] at next
    rw [keyHere_quoted next, if_pos rfl, if_pos blank, skipWs_postColon]
  -- a line end stops `skipWs` before the colon
  · obtain ⟨c, rest, left⟩ := List.exists_cons_of_ne_nil (mt m.preColon.stripped_eq_nil_iff.1 blank)
    have ws : isJsonWs c = true := m.preColon.ws_of_mem_stripped (left ▸ List.mem_cons_self)
    have other : c ≠ 0x3A := by
      rintro rfl
      exact absurd ws (by decide)
    rw [left] at next
    rw [keyHere_quoted next, if_neg other, if_neg blank]

/-! ## The length of a value -/

theorem valueLen_append {w : List UInt8} (solid : ∀ b ∈ w, b ≠ quote ∧ b ≠ 0x2C ∧ b ≠ 0x7D) (rest : List UInt8) :
    valueLen false (w ++ rest) = w.length + valueLen false rest := by
  induction w with
  | nil => simp
  | cons b w ih =>
    obtain ⟨noQuote, noComma, noBrace⟩ := solid b List.mem_cons_self
    rw [List.cons_append, valueLen, if_neg noQuote, if_neg (not_or.2 ⟨noComma, noBrace⟩),
      ih fun b mem => solid b (List.mem_cons_of_mem _ mem), List.length_cons]
    omega

theorem valueLen_items (items : List StrItem) (rest : List UInt8) :
    valueLen true (itemBytes items ++ quote :: rest) = (itemBytes items).length + 1 + valueLen false rest := by
  induction items with
  | nil =>
    rw [itemBytes, List.flatMap_nil, List.nil_append, valueLen_true_cons, if_neg (by decide), if_pos rfl]
    rfl
  | cons item items ih =>
    rw [itemBytes, List.flatMap_cons, List.append_assoc, ← itemBytes]
    cases item with
    | plain b ordinary =>
      rw [StrItem.bytes, List.singleton_append, valueLen_true_cons, if_neg ordinary.2, if_neg ordinary.1, ih]
      simp
      omega
    | escape b =>
      rw [StrItem.bytes, List.cons_append, valueLen_true_cons, if_pos rfl]
      simp only [List.singleton_append, List.drop_one, List.tail_cons, ih, List.length_append, List.length_cons,
        List.length_nil]
      omega

theorem valueLen_ws {w : List UInt8} (ws : ∀ b ∈ w, isJsonWs b = true) (rest : List UInt8) :
    valueLen false (w ++ rest) = w.length + valueLen false rest := by
  refine valueLen_append (fun b mem => ?_) rest
  have space := ws b mem
  simp only [isJsonWs, Bool.or_eq_true, beq_iff_eq] at space
  rcases space with ((rfl | rfl) | rfl) | rfl <;> decide

theorem valueLen_value (v : FlatValue) (rest : List UInt8) :
    valueLen false (v.bytes ++ rest) = v.bytes.length + valueLen false rest := by
  cases kind : v.str? with
  | none =>
    refine valueLen_append (fun b mem => ?_) rest
    obtain ⟨noQuote, noComma, noBrace, -⟩ := isAtomByte_solid (v.atom_bytes kind b mem)
    exact ⟨noQuote, noComma, noBrace⟩
  | some s =>
    cases v with
    | str items =>
      rw [FlatValue.bytes, List.cons_append, List.append_assoc, valueLen, if_pos rfl, List.singleton_append,
        valueLen_items]
      simp
      omega
    | int | bool => cases kind

theorem valueLen_raw (ends : MemberEnd e) : valueLen false (m.raw ++ e) = m.raw.length := by
  have none : valueLen false e = 0 := by cases ends <;> simp [valueLen, quote]
  rw [raw, List.append_assoc, List.append_assoc, valueLen_ws (fun b => m.postColon.ws_of_mem_stripped), valueLen_value,
    valueLen_ws m.postValue.ws, none]
  simp

theorem raw_ne_nil : m.raw ≠ [] := by
  have := m.value.bytes_ne_nil
  simp [raw, this]

/-- What the search gives at its own member. -/
def found : Option (List UInt8) := if m.preColon.Blank then some m.raw else none

theorem jsonRawValue_own (searchable : Searchable m.key) (ends : MemberEnd e)
    (rest : jsonRawValue m.key e = some none) : jsonRawValue m.key (m.bytes ++ e) = some m.found := by
  have here := m.keyHere_own e
  rw [bytes_append, jsonRawValue_eq, firstValue_append m.before.free, firstValue, here, found]
  by_cases blank : m.preColon.Blank
  · have length := m.valueLen_raw ends
    have filled : m.raw.length ≠ 0 := mt List.length_eq_zero_iff.1 m.raw_ne_nil
    rw [if_pos blank, if_pos blank]
    dsimp only
    rw [length, if_neg filled]
    dsimp only
    rw [length, if_pos (by simp), List.take_left]
  · rw [if_neg blank, if_neg blank]
    dsimp only
    rw [m.firstValue_tail searchable ends, ← jsonRawValue_eq, rest]

end FlatMember

/-! ## Objects -/

theorem jsonRawValue_congr {key a b : List UInt8} (same : firstValue key a = firstValue key b) :
    jsonRawValue key a = jsonRawValue key b := by
  rw [jsonRawValue_eq, jsonRawValue_eq, same]

theorem jsonRawValue_members {key : List UInt8} (searchable : Searchable key) {trail : List UInt8}
    (free : quote ∉ trail) {ms : List FlatMember} (distinct : (ms.map FlatMember.key).Nodup) :
    jsonRawValue key ([0x2C].intercalate (ms.map FlatMember.bytes) ++ 0x7D :: trail) =
      some ((ms.find? (·.key = key)).bind FlatMember.found) := by
  induction ms with
  | nil =>
    have none : quote ∉ 0x7D :: trail := fun mem => (List.mem_cons.1 mem).elim (by decide) free
    have empty : [0x2C].intercalate (([] : List FlatMember).map FlatMember.bytes) ++ 0x7D :: trail = 0x7D :: trail :=
      rfl
    rw [empty, jsonRawValue_eq, firstValue_free none]
    rfl
  | cons m ms ih =>
    rw [List.map_cons, List.nodup_cons] at distinct
    obtain ⟨e, ends, text, next⟩ : ∃ e, MemberEnd e ∧
        [0x2C].intercalate ((m :: ms).map FlatMember.bytes) ++ 0x7D :: trail = m.bytes ++ e ∧
        firstValue key e = firstValue key ([0x2C].intercalate (ms.map FlatMember.bytes) ++ 0x7D :: trail) := by
      cases ms with
      | nil => exact ⟨0x7D :: trail, .brace free, by simp [List.intercalate], by simp [List.intercalate]⟩
      | cons m' ms =>
        refine ⟨_, .comma ([0x2C].intercalate ((m' :: ms).map FlatMember.bytes) ++ 0x7D :: trail), ?_, ?_⟩
        · simp [List.intercalate]
        · exact firstValue_skip (keyHere_ne (by decide) _)
    have rest := (jsonRawValue_congr next).trans (ih distinct.2)
    rw [text]
    by_cases own : m.key = key
    · subst own
      have absent : ms.find? (·.key = m.key) = none := by
        rw [List.find?_eq_none]
        intro m' mem same
        exact distinct.1 (of_decide_eq_true same ▸ List.mem_map_of_mem mem)
      rw [absent] at rest
      rw [m.jsonRawValue_own searchable ends rest, List.find?_cons_of_pos (by simp)]
      rfl
    · rw [jsonRawValue_congr (m.firstValue_other searchable ends own), rest,
        List.find?_cons_of_neg (by simpa using own)]

theorem FlatObject.jsonRawValue_bytes (o : FlatObject) {key : List UInt8} (searchable : Searchable key) :
    jsonRawValue key o.bytes = some ((o.find key).bind FlatMember.found) := by
  rw [find, ← jsonRawValue_members searchable o.trail.free o.distinct]
  refine jsonRawValue_congr ?_
  rw [bytes, firstValue_append o.lead.free, firstValue_skip (keyHere_ne (by decide) _), firstValue_append o.inner.free]

/-! ## What the getters make of a value -/

namespace FlatMember

variable (m : FlatMember)

variable {s : List Char} {v : List UInt8}

theorem rawStr_of_head (other : v.head? ≠ some quote) : rawStr v = none := if_pos (.inr (.inl other))

/-- The quotes have to be the first and the last byte. -/
theorem rawStr_raw :
    rawStr m.raw = if m.postColon.Blank ∧ m.postValue.bytes = [] then m.value.str? else none := by
  by_cases blank : m.postColon.Blank
  · have raw : m.raw = m.value.bytes ++ m.postValue.bytes := by
      rw [FlatMember.raw, m.postColon.stripped_eq_nil_iff.2 blank, List.nil_append]
    cases kind : m.value.str? with
    | none =>
      obtain ⟨c, rest, split, -⟩ := m.value.bytes_head
      have atom := isAtomByte_solid (m.value.atom_bytes kind c (split ▸ List.mem_cons_self))
      rw [ite_self, raw, split]
      exact rawStr_of_head fun head => atom.1 (Option.some.inj head)
    | some s =>
      have text : m.value.bytes = quote :: (s ++ [quote]) := by
        rcases value : m.value with items | _ | _ <;> rw [value] at kind <;> cases kind
        rfl
      rw [raw, text]
      rcases List.eq_nil_or_concat m.postValue.bytes with empty | ⟨init, b, last⟩
      · rw [if_pos ⟨blank, empty⟩, empty, List.append_nil, rawStr, if_neg]
        · rw [List.tail_cons, List.dropLast_concat]
        · rintro (short | first | last)
          · rw [List.length_cons, List.length_append, List.length_singleton] at short
            omega
          · exact first rfl
          · rw [← List.cons_append] at last
            exact last (List.getLast?_concat ..)
      -- the raw value ends in white space, not in the closing quote
      · have ws := m.postValue.ws b (by rw [last]; simp)
        rw [if_neg fun both => by simp [last] at both, rawStr, if_pos]
        refine .inr (.inr fun ends => ?_)
        rw [last, List.concat_eq_append, ← List.append_assoc, List.getLast?_concat] at ends
        exact absurd (Option.some.inj ends ▸ ws) (by decide)
  · obtain ⟨c, rest, left⟩ := List.exists_cons_of_ne_nil (mt m.postColon.stripped_eq_nil_iff.1 blank)
    have ws : isJsonWs c = true := m.postColon.ws_of_mem_stripped (left ▸ List.mem_cons_self)
    rw [if_neg fun both => blank both.1, raw, left]
    refine rawStr_of_head fun head => ?_
    exact absurd (Option.some.inj head ▸ ws) (by decide)

theorem fromUtf8_ws {w : List UInt8} (ws : ∀ b ∈ w, isJsonWs b = true) :
    ∃ cs, fromUtf8 w = some cs ∧ ∀ c ∈ cs, isWhitespace c = true := by
  induction w with
  | nil => exact ⟨[], fromUtf8_eq_some_iff.2 rfl, nofun⟩
  | cons b w ih =>
    obtain ⟨cs, decoded, blank⟩ := ih fun b mem => ws b (List.mem_cons_of_mem _ mem)
    obtain ⟨c, one, space⟩ : ∃ c, fromUtf8 [b] = some [c] ∧ isWhitespace c = true := by
      have space := ws b List.mem_cons_self
      simp only [isJsonWs, Bool.or_eq_true, beq_iff_eq] at space
      rcases space with ((rfl | rfl) | rfl) | rfl
      · exact ⟨' ', fromUtf8_utf8 " ", rfl⟩
      · exact ⟨'\t', fromUtf8_utf8 "\t", rfl⟩
      · exact ⟨'\r', fromUtf8_utf8 "\r", rfl⟩
      · exact ⟨'\n', fromUtf8_utf8 "\n", rfl⟩
    exact ⟨c :: cs, fromUtf8_append one decoded, List.forall_mem_cons.2 ⟨space, blank⟩⟩

/-- The digits behind a sign. -/
def unsigned (t : List Char) : List Char := if t.head? == some '-' || t.head? == some '+' then t.tail else t

/-- What `json_get_i32` does with a word that is no boolean. -/
theorem rawI32_eq (decoded : fromUtf8 v = some s) (notTrue : trim s ≠ "true".toList)
    (notFalse : trim s ≠ "false".toList) :
    rawI32 v = if (unsigned (trim s)).isEmpty || !(unsigned (trim s)).all Char.isDigit then none else
      (digitsValue (i32Max + 1) (unsigned (trim s))).bind fun n =>
        let z : ℤ := if (trim s).head? == some '-' then -n else n
        if -2 ^ 31 ≤ z ∧ z ≤ 2 ^ 31 - 1 then some z else none := by
  have limit : (i32Max : ℤ) = 2 ^ 31 - 1 := rfl
  unfold rawI32
  simp only [decoded, Option.bind_eq_bind, Option.bind_some, if_neg notTrue, if_neg notFalse]
  refine if_congr Iff.rfl rfl (congrArg (Option.bind _) (funext fun n => ?_))
  generalize (if ((trim s).head? == some '-') = true then -(n : ℤ) else n) = z
  by_cases range : -2 ^ 31 ≤ z ∧ z ≤ 2 ^ 31 - 1
  · rw [if_neg (by omega), if_pos range]
    rfl
  · rw [if_pos (by omega), if_neg range]
    rfl

theorem unsigned_signed (neg : Bool) (n : ℕ) : unsigned ((if neg then ['-'] else []) ++ decChars n) = decChars n := by
  cases neg with
  | true => rfl
  | false =>
    have other {sign : Char} (letter : sign.isDigit = false) : ((decChars n).head? == some sign) = false := by
      refine beq_eq_false_iff_ne.2 fun head => ?_
      rw [isDigit_of_mem_decChars (List.mem_of_head? head)] at letter
      cases letter
    rw [if_neg Bool.false_ne_true, List.nil_append, unsigned, other (by decide), other (by decide)]
    rfl

theorem head_signed (neg : Bool) (n : ℕ) : (((if neg then ['-'] else []) ++ decChars n).head? == some '-') = neg := by
  cases neg with
  | true => rfl
  | false =>
    refine beq_eq_false_iff_ne.2 fun head => ?_
    exact absurd (isDigit_of_mem_decChars (List.mem_of_head? head)) (by decide)

theorem mem_signed {neg : Bool} {n : ℕ} {c : Char} (mem : c ∈ (if neg then ['-'] else []) ++ decChars n) :
    c = '-' ∨ c.isDigit = true := by
  rcases List.mem_append.1 mem with sign | digit
  · cases neg with
    | true => exact .inl (List.mem_singleton.1 sign)
    | false => cases sign
  · exact .inr (isDigit_of_mem_decChars digit)

theorem mem_unsigned {t : List Char} {c : Char} (mem : c ∈ t) (minus : c ≠ '-') (plus : c ≠ '+') : c ∈ unsigned t := by
  obtain ⟨d, ds, rfl⟩ := List.exists_cons_of_ne_nil (List.ne_nil_of_mem mem)
  rw [unsigned]
  split
  case isTrue signed =>
    refine (List.mem_cons.1 mem).resolve_left fun same => ?_
    subst same
    simp [minus, plus] at signed
  case isFalse => exact mem

theorem rawI32_int (decoded : fromUtf8 v = some s) {neg : Bool} {n : ℕ}
    (word : trim s = (if neg then ['-'] else []) ++ decChars n) : rawI32 v = (FlatValue.int neg n).i32? := by
  have chars : ∀ c ∈ trim s, c = '-' ∨ c.isDigit = true := fun c mem => mem_signed (word ▸ mem)
  have notTrue : trim s ≠ "true".toList := fun same => absurd (chars 't' (same ▸ by decide)) (by decide)
  have notFalse : trim s ≠ "false".toList := fun same => absurd (chars 'f' (same ▸ by decide)) (by decide)
  have all : ((decChars n).isEmpty || !(decChars n).all Char.isDigit) = false := by
    rw [List.all_eq_true.2 fun c mem => isDigit_of_mem_decChars mem, List.isEmpty_eq_false_iff.2 (decChars_ne_nil n)]
    rfl
  rw [rawI32_eq decoded notTrue notFalse, word, unsigned_signed, head_signed, all, if_neg Bool.false_ne_true,
    digitsValue_decChars, FlatValue.i32?]
  -- a number past 2^31 is not read at all
  have limit : (i32Max : ℤ) = 2 ^ 31 - 1 := rfl
  by_cases fits : n ≤ i32Max + 1
  · rw [if_pos fits, Option.bind_some]
  · rw [if_neg fits, Option.bind_none, if_neg]
    split <;> omega

theorem rawI32_quote (mem : quote ∈ v) : rawI32 v = none := by
  cases decoded : fromUtf8 v with
  | none => simp [rawI32, decoded]
  | some s =>
    obtain ⟨c, inside, code⟩ := mem_of_mem_fromUtf8 decoded (by decide) mem
    obtain rfl : c = '"' := Char.toNat_inj.1 code
    have kept : '"' ∈ trim s := mem_trim inside (by decide)
    have notTrue : trim s ≠ "true".toList := fun same => absurd (same ▸ kept) (by decide)
    have notFalse : trim s ≠ "false".toList := fun same => absurd (same ▸ kept) (by decide)
    have digits : (unsigned (trim s)).all Char.isDigit = false :=
      List.all_eq_false.2 ⟨'"', mem_unsigned kept (by decide) (by decide), by decide⟩
    rw [rawI32_eq decoded notTrue notFalse, digits, Bool.not_false, Bool.or_true, if_pos rfl]

theorem rawI32_bool (decoded : fromUtf8 v = some s) {b : Bool}
    (word : trim s = (if b then "true" else "false").toList) : rawI32 v = (FlatValue.bool b).i32? := by
  unfold rawI32
  rw [decoded, Option.bind_eq_bind, Option.bind_some]
  simp only [word]
  cases b <;> rfl

theorem rawI32_raw : rawI32 m.raw = m.value.i32? := by
  obtain ⟨before, decoded, blank⟩ := fromUtf8_ws (fun b => m.postColon.ws_of_mem_stripped)
  obtain ⟨after, decoded', blank'⟩ := fromUtf8_ws m.postValue.ws
  have trimmed {word : List Char} (solid : ∀ c ∈ word, isWhitespace c = false) (filled : word ≠ []) :
      trim (before ++ (word ++ after)) = word := trim_eq blank blank' solid filled
  rcases value : m.value with items | ⟨neg, n⟩ | b
  · refine rawI32_quote ?_
    rw [raw, value]
    simp [FlatValue.bytes]
  · have word : fromUtf8 (FlatValue.int neg n).bytes = some ((if neg then ['-'] else []) ++ decChars n) := by
      refine fromUtf8_append ?_ (fromUtf8_utf8 _)
      cases neg with
      | true => exact fromUtf8_utf8 "-"
      | false => exact fromUtf8_eq_some_iff.2 rfl
    refine rawI32_int (fromUtf8_append decoded (fromUtf8_append (value ▸ word) decoded')) (trimmed ?_ ?_)
    · intro c mem
      rcases mem_signed mem with rfl | digit
      · rfl
      · exact isWhitespace_of_isDigit digit
    · simp [decChars_ne_nil]
  · have word : fromUtf8 (FlatValue.bool b).bytes = some (if b then "true" else "false").toList := fromUtf8_utf8 _
    refine rawI32_bool (fromUtf8_append decoded (fromUtf8_append (value ▸ word) decoded')) (trimmed ?_ ?_)
    · cases b <;> exact List.all_iff_forall_prop.1 rfl
    · cases b <;> decide

theorem found_str : m.found.bind rawStr =
    if m.preColon.Blank ∧ m.postColon.Blank ∧ m.postValue.bytes = [] then m.value.str? else none := by
  rw [found]
  by_cases blank : m.preColon.Blank
  · rw [if_pos blank, Option.bind_some, m.rawStr_raw]
    exact if_congr (by simp [blank]) rfl rfl
  · rw [if_neg blank, if_neg (blank ·.1), Option.bind_none]

theorem found_i32 : m.found.bind rawI32 = if m.preColon.Blank then m.value.i32? else none := by
  rw [found]
  split
  · rw [Option.bind_some, m.rawI32_raw]
  · rfl

end FlatMember

/-! ## Keys that are found anywhere -/

/-- The quoted key stands behind `front`, with a colon and then `raw` behind it.  The value runs to the next comma or
brace outside a string. -/
structure Place (key text front raw : List UInt8) : Prop where
  filled : raw ≠ []
  start : ∀ b ∈ raw.head?, isBlank b = false
  split : ∃ pre post rest, text = front ++ quote :: (key ++ quote :: (pre ++ 0x3A :: (post ++ (raw ++ rest)))) ∧
    (∀ b ∈ pre, isBlank b = true) ∧ (∀ b ∈ post, isBlank b = true) ∧ valueLen false (raw ++ rest) = raw.length

/-- No such place is before this one. -/
structure FirstPlace (key text front raw : List UInt8) : Prop extends Place key text front raw where
  first : ∀ front' raw', Place key text front' raw' → front.length ≤ front'.length

/-- What stands at the first place is read as `own`; where there is none, there is nothing to read. -/
def Reads {α : Type} (decode : List UInt8 → Option α) (key text : List UInt8) (own : Option α) : Prop :=
  (∃ front raw, FirstPlace key text front raw ∧ decode raw = own) ∨
    (∀ front raw, ¬Place key text front raw) ∧ own = none

theorem skipWs_eq_iff {b v : List UInt8} :
    skipWs b = v ↔ ∃ pre, b = pre ++ v ∧ (∀ c ∈ pre, isBlank c = true) ∧ ∀ c ∈ v.head?, isBlank c = false := by
  constructor
  · rintro rfl
    refine ⟨b.takeWhile isBlank, List.takeWhile_append_dropWhile.symm, fun c mem => List.mem_takeWhile_imp mem, ?_⟩
    intro c head
    have solid := List.head?_dropWhile_not isBlank b
    rwa [show (b.dropWhile isBlank).head? = some c from head] at solid
  · rintro ⟨pre, rfl, blank, start⟩
    cases v with
    | nil =>
      rw [List.append_nil]
      exact List.dropWhile_eq_nil_iff.2 blank
    | cons c v =>
      rw [skipWs_append pre (start c rfl), List.dropWhile_eq_nil_iff.2 blank, List.nil_append]

theorem keyHere_eq_some_iff {key body value : List UInt8} :
    keyHere key body = some value ↔
      (∀ b ∈ value.head?, isBlank b = false) ∧
        ∃ pre post, body = quote :: (key ++ quote :: (pre ++ 0x3A :: (post ++ value))) ∧
          (∀ b ∈ pre, isBlank b = true) ∧ ∀ b ∈ post, isBlank b = true := by
  constructor
  · intro here
    unfold keyHere at here
    split at here
    case isFalse => cases here
    rename_i found
    obtain ⟨after, rfl⟩ := List.isPrefixOf_iff_prefix.1 found
    have behind : ((quote :: key ++ [quote]) ++ after).drop (key.length + 2) = after := by
      rw [show key.length + 2 = (quote :: key ++ [quote]).length by simp, List.drop_left]
    rw [behind] at here
    split at here
    case h_2 => cases here
    rename_i rest colon
    obtain ⟨pre, rfl, blank, -⟩ := skipWs_eq_iff.1 colon
    obtain ⟨post, rfl, blank', start⟩ := skipWs_eq_iff.1 (Option.some.inj here)
    exact ⟨start, pre, post, by simp, blank, blank'⟩
  · rintro ⟨start, pre, post, rfl, blank, blank'⟩
    have next : skipWs (pre ++ 0x3A :: (post ++ value)) = 0x3A :: (post ++ value) :=
      skipWs_eq_iff.2 ⟨pre, rfl, blank, by rintro _ ⟨⟩; rfl⟩
    rw [keyHere_quoted next, if_pos rfl, skipWs_eq_iff.2 ⟨post, rfl, blank', start⟩]

/-- A place, with what the search has before it there. -/
theorem Place.here {key text front raw : List UInt8} (place : Place key text front raw) :
    ∃ body rest, text = front ++ body ∧ keyHere key body = some (raw ++ rest) ∧
      valueLen false (raw ++ rest) = raw.length := by
  obtain ⟨filled, start, pre, post, rest, split, blank, blank', length⟩ := place
  refine ⟨_, rest, split, keyHere_eq_some_iff.2 ⟨fun b head => start b ?_, pre, post, rfl, blank, blank'⟩, length⟩
  obtain ⟨c, raw, rfl⟩ := List.exists_cons_of_ne_nil filled
  exact head

theorem FirstPlace.unique {key text front front' raw raw' : List UInt8} (place : FirstPlace key text front raw)
    (place' : FirstPlace key text front' raw') : raw = raw' := by
  have same : front.length = front'.length := Nat.le_antisymm
    (place.first front' raw' place'.toPlace) (place'.first front raw place.toPlace)
  obtain ⟨body, rest, split, here, length⟩ := place.toPlace.here
  obtain ⟨body', rest', split', here', length'⟩ := place'.toPlace.here
  obtain ⟨-, rfl⟩ := List.append_inj (split.symm.trans split') same
  have value := Option.some.inj (here.symm.trans here')
  rw [value, length'] at length
  exact (List.append_inj value length.symm).1

end IoEdgeHub
