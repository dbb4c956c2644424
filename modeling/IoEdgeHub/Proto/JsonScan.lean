import IoEdgeHub.Lib.Bytes
import IoEdgeHub.Proto.WebJson

/-!
# The cursors of the JSON getters

`json_raw_value` as `web_json.rs` has it, with its cursors: every index and every slice is checked, and
`none` is a panic.  `map_rawValue` shows that the getters of `WebJson` are what the cursors compute, and
`getters_panic_iff` for which bodies a cursor leaves the buffer.
-/

namespace IoEdgeHub.JsonScan

open Text
open Bytes (slice slice_eq)

/-- The bytes of a range. -/
def cut (body : List UInt8) (r : ℕ × ℕ) : List UInt8 := (body.drop r.1).take (r.2 - r.1)

/-! ## The loops -/

/-- Skip blanks and tabs from `j` on. -/
def skipBlanks (body : List UInt8) (j : ℕ) : Option ℕ :=
  if _ : j < body.length then do
    let c ← body[j]?
    if c == 0x20 || c == 0x09 then skipBlanks body (j + 1) else some j
  else some j
termination_by body.length - j

/-- The end of the value; `k += 1` comes twice after a backslash. -/
def scanValue (body : List UInt8) (k : ℕ) (inStr : Bool) : Option ℕ :=
  if _ : k < body.length then do
    let c ← body[k]?
    if inStr then
      if c = backslash then scanValue body (k + 2) true
      else if c = quote then scanValue body (k + 1) false
      else scanValue body (k + 1) true
    else if c = quote then scanValue body (k + 1) true
    else if c = 0x2C ∨ c = 0x7D then some k
    else scanValue body (k + 1) false
  else some k
termination_by body.length - k

/-- The value of a key that stands at `i`, if one does. -/
def candidate (body key : List UInt8) (i : ℕ) : Option (Option (ℕ × ℕ)) := do
  let c ← body[i]?
  if c ≠ quote then return none
  let tail ← slice body (i + 1) body.length
  if !key.isPrefixOf tail then return none
  let after := i + 1 + key.length
  if ¬after < body.length then return none
  let c ← body[after]?
  if c ≠ quote then return none
  let j ← skipBlanks body (after + 1)
  if ¬j < body.length then return none
  let c ← body[j]?
  if c ≠ 0x3A then return none
  let j ← skipBlanks body (j + 1)
  let k ← scanValue body j false
  if k ≤ j then return none
  let _ ← slice body j k
  return some (j, k)

/-- The outer loop from `i` on. -/
def rawValueFrom (body key : List UInt8) (i : ℕ) : Option (Option (ℕ × ℕ)) :=
  if i + key.length + 2 ≤ body.length then do
    -- compared with two quotes, to no effect
    let _ ← slice body i (i + key.length + 2)
    match ← candidate body key i with
    | some range => return some range
    | none => rawValueFrom body key (i + 1)
  else some none
termination_by body.length - i

/-- `json_raw_value`: the range of the value. -/
def rawValue (body : List UInt8) (key : String) : Option (Option (ℕ × ℕ)) := rawValueFrom body (utf8 key) 0

/-- `json_get_str`: the range between the quotes. -/
def getStr (body : List UInt8) (key : String) : Option (Option (ℕ × ℕ)) := do
  match ← rawValue body key with
  | none => return none
  | some (j, k) =>
    let v ← slice body j k
    if v.length < 2 then return none
    let c ← v[0]?
    if c ≠ quote then return none
    let c ← v[v.length - 1]?
    if c ≠ quote then return none
    let _ ← slice v 1 (v.length - 1)
    return some (j + 1, k - 1)

/-- `&t[1..]`: the first character has to be one byte long. -/
def fromSecond : List Char → Option (List Char)
  | [] => none
  | c :: rest => if c.utf8Size = 1 then some rest else none

/-- The digits loop and the range checks behind it, which index nothing. -/
def digitsI32 (neg : Bool) (digits : List Char) : Option ℤ := do
  if digits.isEmpty || !digits.all Char.isDigit then none
  let n ← digitsValue (i32Max + 1) digits
  let n : ℤ := if neg then -n else n
  if n < -(i32Max + 1) ∨ n > i32Max then none
  return n

/-- What `json_get_i32` does with a value. -/
def valueI32 (v : List UInt8) : Option (Option ℤ) :=
  match fromUtf8 v with
  | none => some none
  | some s => do
    let t := trim s
    if t = "true".toList then return some 1
    if t = "false".toList then return some 0
    if t.isEmpty then return none
    -- an ASCII sign in the first byte is the first character
    let sign ← t[0]?
    let digits ← if sign = '-' ∨ sign = '+' then fromSecond t else some t
    return digitsI32 (sign = '-') digits

/-- `json_get_i32` -/
def getI32 (body : List UInt8) (key : String) : Option (Option ℤ) := do
  match ← rawValue body key with
  | none => return none
  | some (j, k) => valueI32 (← slice body j k)

/-! ## What the loops compute -/

variable {body key value : List UInt8} {i j k : ℕ} {r : ℕ × ℕ}

theorem drop_of_lt (inside : k < body.length) :
    body[k]? = some body[k] ∧ body.drop k = body[k] :: body.drop (k + 1) :=
  ⟨List.getElem?_eq_getElem inside, List.drop_eq_getElem_cons inside⟩

theorem skipBlanks_eq (body : List UInt8) (j : ℕ) (inside : j ≤ body.length) :
    ∃ j', skipBlanks body j = some j' ∧ j' ≤ body.length ∧ body.drop j' = skipWs (body.drop j) := by
  induction left : body.length - j generalizing j with
  | zero =>
    obtain rfl : j = body.length := by omega
    refine ⟨body.length, ?_, le_rfl, ?_⟩
    · rw [skipBlanks, dif_neg (Nat.lt_irrefl _)]
    · simp [skipWs]
  | succ n ih =>
    have below : j < body.length := by omega
    obtain ⟨read, tail⟩ := drop_of_lt below
    rw [skipBlanks, dif_pos below, read, Option.bind_eq_bind, Option.bind_some]
    by_cases blank : (body[j] == 0x20 || body[j] == 0x09) = true
    · rw [if_pos blank]
      obtain ⟨j', ran, bound, rest⟩ := ih (j + 1) below (by omega)
      refine ⟨j', ran, bound, ?_⟩
      rw [rest, tail, skipWs, skipWs, List.dropWhile_cons, if_pos blank]
    · rw [if_neg blank]
      refine ⟨j, rfl, inside, ?_⟩
      rw [tail, skipWs, List.dropWhile_cons, if_neg blank]

theorem valueLen_true_cons (c : UInt8) (rest : List UInt8) :
    valueLen true (c :: rest) =
      if c = backslash then 2 + valueLen true (rest.drop 1)
      else if c = quote then 1 + valueLen false rest else 1 + valueLen true rest := by
  cases rest with
  | nil =>
    simp only [valueLen, List.drop_nil]
    split_ifs <;> rfl
  | cons d rest => rw [valueLen, List.drop_one, List.tail_cons]

theorem scanValue_eq (body : List UInt8) (k : ℕ) (inStr : Bool) :
    scanValue body k inStr = some (k + valueLen inStr (body.drop k)) := by
  induction left : body.length - k using Nat.strongRecOn generalizing k inStr with
  | _ n ih =>
    rw [scanValue]
    by_cases inside : k < body.length
    · obtain ⟨read, tail⟩ := drop_of_lt inside
      have next (d : ℕ) (pos : 0 < d) (inStr : Bool) :
          scanValue body (k + d) inStr = some (k + (d + valueLen inStr (body.drop (k + d)))) := by
        rw [ih _ (by omega) (k + d) inStr rfl, Nat.add_assoc]
      rw [dif_pos inside, read, Option.bind_eq_bind, Option.bind_some, tail, next 2 (by decide), next 1 (by decide),
        next 1 (by decide)]
      cases inStr with
      | true =>
        rw [if_pos rfl, valueLen_true_cons, List.drop_drop]
        split_ifs <;> rfl
      | false =>
        rw [if_neg Bool.false_ne_true, valueLen]
        split_ifs <;> rfl
    · rw [dif_neg inside, List.drop_eq_nil_of_le (Nat.le_of_not_lt inside)]
      cases inStr <;> rfl

/-! ## The getters of `WebJson` are what the cursors compute -/

theorem append_singleton_isPrefixOf (key : List UInt8) (q : UInt8) (l : List UInt8) :
    (key ++ [q]).isPrefixOf l = (key.isPrefixOf l && l[key.length]? == some q) := by
  induction key generalizing l with
  | nil => cases l <;> simp [List.isPrefixOf, Bool.beq_comm]
  | cons a key ih =>
    cases l with
    | nil => rfl
    | cons b l => simp [List.isPrefixOf, ih, Bool.and_assoc]

/-- `keyHere`, with the order in which the cursors look. -/
theorem keyHere_cons (key : List UInt8) (c : UInt8) (tail : List UInt8) :
    keyHere key (c :: tail) =
      if c = quote ∧ key.isPrefixOf tail ∧ tail[key.length]? = some quote then
        match skipWs (tail.drop (key.length + 1)) with
        | d :: rest => if d = 0x3A then some (skipWs rest) else none
        | [] => none
      else none := by
  have guards : ((quote :: key ++ [quote]).isPrefixOf (c :: tail) = true) =
      (c = quote ∧ key.isPrefixOf tail ∧ tail[key.length]? = some quote) := by
    rw [List.cons_append, List.isPrefixOf, append_singleton_isPrefixOf]
    simp only [Bool.and_eq_true, beq_iff_eq, eq_comm (a := quote) (b := c)]
  rw [keyHere]
  simp only [guards]
  rw [show (c :: tail).drop (key.length + 2) = tail.drop (key.length + 1) from rfl]
  rcases skipWs (tail.drop (key.length + 1)) with _ | ⟨d, rest⟩
  · rfl
  · by_cases colon : d = 0x3A
    · rw [colon]
      rfl
    · congr 1
      split
      · simp_all
      · simp [colon]

/-- The range of the value that starts with what is left at `j`. -/
def valueRange (j : ℕ) (value : List UInt8) : Option (Option (ℕ × ℕ)) :=
  if valueLen false value = 0 then some none
  else if valueLen false value ≤ value.length then some (some (j, j + valueLen false value)) else none

theorem value_eq (body : List UInt8) (below : j < body.length) :
    ((skipBlanks body (j + 1)).bind fun j => (scanValue body j false).bind fun k =>
      if k ≤ j then some none else (slice body j k).bind fun _ => some (some (j, k))) =
      valueRange (body.length - (skipWs (body.drop (j + 1))).length) (skipWs (body.drop (j + 1))) := by
  obtain ⟨j', skipped, bound, left⟩ := skipBlanks_eq body (j + 1) below
  have length : (body.drop j').length = body.length - j' := List.length_drop
  have start : body.length - (body.drop j').length = j' := by omega
  rw [skipped, Option.bind_some, scanValue_eq, Option.bind_some, ← left, valueRange, start]
  generalize valueLen false (body.drop j') = n
  by_cases empty : n = 0
  · rw [if_pos (by omega), if_pos empty]
  · rw [if_neg (by omega), if_neg empty, slice]
    by_cases fits : n ≤ (body.drop j').length
    · rw [if_pos (by omega), if_pos fits]
      rfl
    · rw [if_neg (by omega), if_neg fits]
      rfl

theorem candidate_eq (body key : List UInt8) (inside : i < body.length) :
    candidate body key i =
      match keyHere key (body.drop i) with
      | none => some none
      | some value => valueRange (body.length - value.length) value := by
  obtain ⟨read, tail⟩ := drop_of_lt inside
  have rest : slice body (i + 1) body.length = some (body.drop (i + 1)) := by
    rw [slice_eq inside le_rfl, List.take_of_length_le (List.length_drop.le)]
  have after : (body.drop (i + 1))[key.length]? = body[i + 1 + key.length]? := List.getElem?_drop
  rw [tail, keyHere_cons, after, List.drop_drop]
  simp only [candidate, read, rest, Option.bind_eq_bind, Option.bind_some, Option.pure_def]
  by_cases q₁ : body[i] = quote
  swap
  · simp [q₁]
  by_cases named : key.isPrefixOf (body.drop (i + 1)) = true
  swap
  · simp [q₁, named]
  by_cases below : i + 1 + key.length < body.length
  swap
  · simp [q₁, named, below]
  by_cases q₂ : body[i + 1 + key.length] = quote
  swap
  · simp [q₁, named, below, q₂]
  obtain ⟨j, skipped, bound, left⟩ := skipBlanks_eq body (i + 1 + key.length + 1) below
  rw [← Nat.add_assoc (i + 1), ← left]
  simp only [q₁, named, below, q₂, List.getElem?_eq_getElem, skipped, Option.bind_some, ne_eq, not_true_eq_false,
    Bool.not_true, Bool.false_eq_true, if_false, and_self, if_true]
  by_cases colonBelow : j < body.length
  · obtain ⟨readColon, tailColon⟩ := drop_of_lt colonBelow
    rw [tailColon, if_neg (not_not.2 colonBelow), readColon, Option.bind_some]
    by_cases colon : body[j] = 0x3A
    · simp only [colon, if_true, not_true_eq_false, if_false]
      exact value_eq body colonBelow
    · simp only [colon, if_false, not_false_eq_true, if_true]
  · rw [List.drop_eq_nil_of_le (Nat.le_of_not_lt colonBelow), if_pos colonBelow]

theorem keyHere_suffix (here : keyHere key body = some value) : value <:+ body := by
  unfold keyHere at here
  split_ifs at here
  split at here
  · rename_i rest colon
    obtain rfl := Option.some.inj here
    refine (List.dropWhile_suffix _).trans ((List.suffix_cons 0x3A rest).trans ?_)
    rw [← colon]
    exact (List.dropWhile_suffix _).trans (List.drop_suffix _ _)
  · cases here

theorem cut_suffix (suffix : value <:+ body) (n : ℕ) :
    cut body (body.length - value.length, body.length - value.length + n) = value.take n := by
  rw [cut, Nat.add_sub_cancel_left, ← List.suffix_iff_eq_drop.1 suffix]

theorem map_rawValueFrom (body key : List UInt8) (i : ℕ) :
    (rawValueFrom body key i).map (·.map (cut body)) = jsonRawValue key (body.drop i) := by
  induction left : body.length - i generalizing i with
  | zero =>
    rw [rawValueFrom, if_neg (by omega), List.drop_eq_nil_of_le (by omega)]
    rfl
  | succ n ih =>
    have inside : i < body.length := by omega
    have tail := (drop_of_lt inside).2
    have length : (body.drop i).length = body.length - i := List.length_drop
    rw [rawValueFrom]
    by_cases room : i + key.length + 2 ≤ body.length
    · have looked : slice body i (i + key.length + 2) = some (cut body (i, i + key.length + 2)) :=
        if_pos ⟨by omega, room⟩
      rw [if_pos room, looked, Option.bind_eq_bind, Option.bind_some, candidate_eq body key inside, tail, jsonRawValue,
        ← tail, if_pos (by omega)]
      cases here : keyHere key (body.drop i) with
      | none => exact ih (i + 1) (by omega)
      | some value =>
        have suffix : value <:+ body := (keyHere_suffix here).trans (List.drop_suffix i body)
        dsimp only
        rw [valueRange]
        by_cases empty : valueLen false value = 0
        · rw [if_pos empty, if_pos empty]
          exact ih (i + 1) (by omega)
        · rw [if_neg empty, if_neg empty]
          by_cases fits : valueLen false value ≤ value.length
          · rw [if_pos fits, if_pos fits, ← cut_suffix suffix]
            rfl
          · rw [if_neg fits, if_neg fits]
            rfl
    · rw [if_neg room, tail, jsonRawValue, ← tail, if_neg (by omega)]
      rfl

theorem map_rawValue (body : List UInt8) (key : String) :
    (rawValue body key).map (·.map (cut body)) = jsonRawValue (utf8 key) body := by
  rw [rawValue, map_rawValueFrom, List.drop_zero]

theorem candidate_inside (inside : i < body.length) (found : candidate body key i = some (some r)) :
    r.1 ≤ r.2 ∧ r.2 ≤ body.length := by
  rw [candidate_eq body key inside] at found
  cases here : keyHere key (body.drop i) with
  | none =>
    rw [here] at found
    cases found
  | some value =>
    have short := ((keyHere_suffix here).trans (List.drop_suffix i body)).length_le
    rw [here] at found
    dsimp only [valueRange] at found
    split_ifs at found
    · cases found
    · obtain rfl := Option.some.inj (Option.some.inj found)
      omega

theorem rawValueFrom_inside (found : rawValueFrom body key i = some (some r)) : r.1 ≤ r.2 ∧ r.2 ≤ body.length := by
  induction left : body.length - i generalizing i with
  | zero =>
    rw [rawValueFrom, if_neg (by omega)] at found
    cases found
  | succ n ih =>
    rw [rawValueFrom] at found
    split_ifs at found with room
    · obtain ⟨_, -, found⟩ := Option.bind_eq_some_iff.1 found
      obtain ⟨_ | range, here, found⟩ := Option.bind_eq_some_iff.1 found
      · exact ih found (by omega)
      · obtain rfl := Option.some.inj (Option.some.inj found)
        exact candidate_inside (by omega) here
    · cases found

theorem slice_rawValue {key : String} (found : rawValue body key = some (some r)) :
    slice body r.1 r.2 = some (cut body r) := if_pos (rawValueFrom_inside found)

/-- No index of `json_get_i32` itself is out of range. -/
theorem valueI32_eq (v : List UInt8) : valueI32 v = some (rawI32 v) := by
  unfold valueI32 rawI32
  rcases fromUtf8 v with _ | s
  · rfl
  simp only [Option.bind_eq_bind, Option.bind_some, Option.pure_def]
  by_cases isTrue : trim s = "true".toList
  · simp only [isTrue, if_true]
  by_cases isFalse : trim s = "false".toList
  · simp [isFalse]
  simp only [isTrue, isFalse, if_false]
  rcases trim s with _ | ⟨c, rest⟩
  · rfl
  by_cases minus : c = '-'
  · subst minus
    rfl
  by_cases plus : c = '+'
  · subst plus
    rfl
  · simp only [List.isEmpty_cons, List.getElem?_cons_zero, List.head?_cons, Option.bind_some, minus, plus, or_self,
      if_false, Bool.false_eq_true, decide_false, digitsI32]
    simp [minus, plus]

theorem map_getI32 (body : List UInt8) (key : String) : getI32 body key = jsonGetI32 body key := by
  rw [jsonGetI32, ← map_rawValue, getI32]
  rcases found : rawValue body key with _ | _ | r
  · rfl
  · rfl
  · simp only [Option.bind_eq_bind, Option.bind_some, slice_rawValue found, valueI32_eq]
    rfl

theorem length_cut (short : k ≤ body.length) : (cut body (j, k)).length = k - j := by
  rw [cut, List.length_take_of_le]
  rw [List.length_drop]
  exact Nat.sub_le_sub_right short j

theorem cut_inner (short : k ≤ body.length) (wide : j + 2 ≤ k) :
    cut body (j + 1, k - 1) = (cut body (j, k)).tail.dropLast := by
  have length := length_cut (j := j) short
  rw [List.dropLast_eq_take, List.length_tail, length, ← List.drop_one, cut, cut, List.drop_take, List.drop_drop,
    List.take_take]
  congr 1
  dsimp only
  omega

theorem map_getStr (body : List UInt8) (key : String) :
    (getStr body key).map (·.map (cut body)) = jsonGetStr body key := by
  rw [jsonGetStr, ← map_rawValue, getStr]
  rcases found : rawValue body key with _ | _ | ⟨j, k⟩
  · rfl
  · rfl
  · obtain ⟨order, short⟩ := rawValueFrom_inside found
    have length := length_cut (j := j) short
    have value : ((some (some (j, k))).map (·.map (cut body)) : Option (Option (List UInt8))).map
        (fun v => v.bind rawStr) = some (rawStr (cut body (j, k))) := rfl
    simp only [value, Option.bind_eq_bind, Option.bind_some, slice_rawValue found, Option.pure_def, rawStr, length]
    by_cases wide : k - j < 2
    · simp [wide]
    have first : (cut body (j, k))[0]? = (cut body (j, k)).head? := List.head?_eq_getElem?.symm
    have last : (cut body (j, k))[k - j - 1]? = (cut body (j, k)).getLast? := by
      rw [List.getLast?_eq_getElem?, length]
    have filled : cut body (j, k) ≠ [] := by
      rw [← List.length_pos_iff, length]
      omega
    have inner : slice (cut body (j, k)) 1 (k - j - 1) = some (cut (cut body (j, k)) (1, k - j - 1)) :=
      if_pos (by rw [length]; omega)
    rw [first, last, inner, ← cut_inner short (by omega), List.head?_eq_some_head filled,
      List.getLast?_eq_some_getLast filled]
    by_cases open_ : (cut body (j, k)).head filled = quote
    · by_cases close : (cut body (j, k)).getLast filled = quote
      · simp [wide, open_, close]
      · simp [wide, open_, close]
    · simp [wide, open_]

theorem getStr_inside {key : String} (found : getStr body key = some (some r)) :
    r.1 ≤ r.2 ∧ r.2 ≤ body.length := by
  obtain ⟨_ | ⟨j, k⟩, raw, found⟩ := Option.bind_eq_some_iff.1 found
  · cases found
  obtain ⟨order, short⟩ := rawValueFrom_inside raw
  have length := length_cut (j := j) short
  simp only [Option.bind_eq_bind, Option.bind_some, slice_rawValue raw, Option.pure_def, length] at found
  split_ifs at found with narrow
  · cases found
  obtain ⟨c, -, found⟩ := Option.bind_eq_some_iff.1 found
  split_ifs at found
  · cases found
  obtain ⟨d, -, found⟩ := Option.bind_eq_some_iff.1 found
  split_ifs at found
  · cases found
  obtain ⟨_, -, found⟩ := Option.bind_eq_some_iff.1 found
  obtain rfl := Option.some.inj (Option.some.inj found)
  omega

/-! ## When a cursor leaves the body -/

/-- Where the scan of a value is. -/
inductive ScanState where
  | outside
  | inString
  | escaped
  | ended
deriving DecidableEq, Repr

/-- One byte of a value. -/
def ScanState.step : ScanState → UInt8 → ScanState
  | .outside, c => if c = quote then .inString else if c = 0x2C ∨ c = 0x7D then .ended else .outside
  | .inString, c => if c = backslash then .escaped else if c = quote then .outside else .inString
  | .escaped, _ => .inString
  | .ended, _ => .ended

theorem foldl_step_ended (value : List UInt8) : value.foldl ScanState.step .ended = .ended := by
  induction value with
  | nil => rfl
  | cons c value ih => exact ih

/-- The scan runs past the end exactly if the bytes end behind a backslash in a string. -/
theorem lt_valueLen_iff (value : List UInt8) :
    (value.length < valueLen false value ↔ value.foldl ScanState.step .outside = .escaped) ∧
      (value.length < valueLen true value ↔ value.foldl ScanState.step .inString = .escaped) := by
  induction size : value.length using Nat.strongRecOn generalizing value with
  | _ n ih =>
    rcases value with _ | ⟨c, rest⟩
    · subst size
      simp [valueLen]
    · rw [List.length_cons] at size
      obtain ⟨outside, inString⟩ := ih rest.length (by omega) rest rfl
      simp only [List.foldl_cons]
      constructor
      · simp only [valueLen, ScanState.step]
        split_ifs
        · rw [← inString]
          omega
        · simp [foldl_step_ended]
        · rw [← outside]
          omega
      · rw [valueLen_true_cons]
        simp only [ScanState.step]
        split_ifs
        · rcases rest with _ | ⟨d, rest⟩
          · subst size
            simp [valueLen]
          · rw [List.length_cons] at size
            rw [List.drop_one, List.tail_cons, List.foldl_cons, ScanState.step,
              ← (ih rest.length (by omega) rest rfl).2]
            omega
        · rw [← outside]
          omega
        · rw [← inString]
          omega

/-- What follows the first `"key":` that has a value. -/
def firstValue (key : List UInt8) : List UInt8 → Option (List UInt8)
  | [] => none
  | c :: rest =>
    match keyHere key (c :: rest) with
    | none => firstValue key rest
    | some value => if valueLen false value = 0 then firstValue key rest else some value

/-- The value of the key ends with the body, behind a backslash in a string. -/
def EndsEscaped (body : List UInt8) (key : String) : Prop :=
  ∃ value ∈ firstValue (utf8 key) body, value.foldl ScanState.step .outside = .escaped

theorem keyHere_short (short : body.length < key.length + 2) : keyHere key body = none := by
  rw [keyHere, if_neg]
  intro isPrefix
  have := (List.isPrefixOf_iff_prefix.1 isPrefix).length_le
  simp at this
  omega

theorem firstValue_short (short : body.length < key.length + 2) :
    firstValue key body = none := by
  induction body with
  | nil => rfl
  | cons c rest ih =>
    rw [firstValue, keyHere_short short]
    exact ih (Nat.lt_of_succ_lt short)

theorem jsonRawValue_eq (key body : List UInt8) :
    jsonRawValue key body =
      match firstValue key body with
      | none => some none
      | some value =>
        if valueLen false value ≤ value.length then some (some (value.take (valueLen false value))) else none := by
  induction body with
  | nil => rfl
  | cons c rest ih =>
    rw [jsonRawValue]
    by_cases room : key.length + 2 ≤ (c :: rest).length
    · rw [if_pos room, firstValue]
      cases keyHere key (c :: rest) with
      | none => exact ih
      | some value =>
        dsimp only
        by_cases empty : valueLen false value = 0
        · rw [if_pos empty, if_pos empty]
          exact ih
        · rw [if_neg empty, if_neg empty]
    · rw [if_neg room, firstValue_short (Nat.lt_of_not_le room)]

theorem rawValue_eq_none_iff (body : List UInt8) (key : String) : rawValue body key = none ↔ EndsEscaped body key := by
  rw [← Option.map_eq_none_iff, map_rawValue, jsonRawValue_eq, EndsEscaped]
  cases firstValue (utf8 key) body with
  | none => simp
  | some value => simp [← (lt_valueLen_iff value).1]

/-- The getters leave the body exactly if the value of the key ends with it behind a backslash in a string;
what they return is a range of the body. -/
theorem getters_panic_iff (body : List UInt8) (key : String) :
    (rawValue body key = none ↔ EndsEscaped body key) ∧ (getI32 body key = none ↔ EndsEscaped body key) ∧
      (getStr body key = none ↔ EndsEscaped body key) ∧
      (∀ j k, rawValue body key = some (some (j, k)) → j ≤ k ∧ k ≤ body.length) ∧
      ∀ j k, getStr body key = some (some (j, k)) → j ≤ k ∧ k ≤ body.length := by
  have raw := rawValue_eq_none_iff body key
  refine ⟨raw, ?_, ?_, fun j k found => rawValueFrom_inside found, fun j k found => getStr_inside found⟩
  · rw [map_getI32, jsonGetI32, Option.map_eq_none_iff, ← map_rawValue, Option.map_eq_none_iff, raw]
  · rw [← Option.map_eq_none_iff, map_getStr, jsonGetStr, Option.map_eq_none_iff, ← map_rawValue,
      Option.map_eq_none_iff, raw]

/-- The seven bytes of a member `"a"` whose string breaks off behind a backslash. -/
def openEscape : List UInt8 := utf8 "\x7b\"a\":\"\\"

theorem openEscape_leaves_body :
    rawValue openEscape "a" = none ∧ getI32 openEscape "a" = none ∧ getStr openEscape "a" = none := by
  have ends : rawValue openEscape "a" = none :=
    (rawValue_eq_none_iff _ _).2 ⟨[quote, backslash], by decide +kernel, by decide⟩
  refine ⟨ends, ?_, ?_⟩
  · rw [getI32, ends]
    rfl
  · rw [getStr, ends]
    rfl

end IoEdgeHub.JsonScan
