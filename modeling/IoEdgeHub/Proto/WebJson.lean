import Mathlib.Data.Int.Notation
import IoEdgeHub.Lib.Text

/-!
# JSON field getters

`web_json.rs`: scalar values out of flat JSON objects.  The outer `none` is a panic: a value that
ends in a backslash inside a string makes `json_raw_value` slice past the end of the body.
-/

namespace IoEdgeHub

open Text

/-- The quote. -/
def quote : UInt8 := 0x22

/-- The backslash. -/
def backslash : UInt8 := 0x5C

/-- Skip blanks and tabs. -/
def skipWs (b : List UInt8) : List UInt8 := b.dropWhile fun c => c == 0x20 || c == 0x09

/-- How far the value scan runs: to the next `,` or `}` outside a string.  An escape moves on by
two, even when only the backslash is left. -/
def valueLen : Bool → List UInt8 → ℕ
  | _, [] => 0
  | true, [c] => if c = backslash then 2 else 1
  | true, c :: d :: rest =>
    if c = backslash then 2 + valueLen true rest
    else if c = quote then 1 + valueLen false (d :: rest)
    else 1 + valueLen true (d :: rest)
  | false, c :: rest =>
    if c = quote then 1 + valueLen true rest
    else if c = 0x2C ∨ c = 0x7D then 0
    else 1 + valueLen false rest

/-- What follows `"key":` at the beginning of the body, if it begins so. -/
def keyHere (key body : List UInt8) : Option (List UInt8) :=
  if (quote :: key ++ [quote]).isPrefixOf body then
    match skipWs (body.drop (key.length + 2)) with
    | 0x3A :: rest => some (skipWs rest)
    | _ => none
  else none

/-- `json_raw_value` -/
def jsonRawValue (key : List UInt8) : List UInt8 → Option (Option (List UInt8))
  | [] => some none
  | c :: rest =>
    if key.length + 2 ≤ (c :: rest).length then
      match keyHere key (c :: rest) with
      | some value =>
        let n := valueLen false value
        if n = 0 then jsonRawValue key rest
        else if n ≤ value.length then some (some (value.take n))
        else none
      | none => jsonRawValue key rest
    else some none

/-- The greatest `i32`. -/
def i32Max : ℕ := 2 ^ 31 - 1

/-- The value of a raw number: optional sign and digits, or a boolean. -/
def rawI32 (v : List UInt8) : Option ℤ := do
  let s ← fromUtf8 v
  let t := trim s
  if t = "true".toList then return 1
  if t = "false".toList then return 0
  let neg := t.head? == some '-'
  let digits := if neg || t.head? == some '+' then t.tail else t
  if digits.isEmpty || !digits.all Char.isDigit then none
  let n ← digitsValue (i32Max + 1) digits
  let n : ℤ := if neg then -n else n
  if n < -(i32Max + 1) ∨ n > i32Max then none
  return n

/-- `json_get_i32` -/
def jsonGetI32 (body : List UInt8) (key : String) : Option (Option ℤ) :=
  (jsonRawValue (utf8 key) body).map fun v => v.bind rawI32

/-- What stands between two quotes. -/
def rawStr (v : List UInt8) : Option (List UInt8) :=
  if v.length < 2 ∨ v.head? ≠ some quote ∨ v.getLast? ≠ some quote then none
  else some v.tail.dropLast

/-- `json_get_str` -/
def jsonGetStr (body : List UInt8) (key : String) : Option (Option (List UInt8)) :=
  (jsonRawValue (utf8 key) body).map fun v => v.bind rawStr

/-! ## Queries -/

/-- The search ends at the first part without a `=`. -/
def queryGet (key : List UInt8) : List (List UInt8) → Option (List UInt8)
  | [] => none
  | pair :: pairs =>
    match pair.findIdx? (· == 0x3D) with
    | none => none
    | some eq => if pair.take eq = key then some (pair.drop (eq + 1)) else queryGet key pairs

/-- `url_query_get` -/
def urlQueryGet (query : List UInt8) (key : String) : Option (List UInt8) :=
  queryGet (utf8 key) (query.splitOn 0x26)

/-- A digit or a letter. -/
def isAsciiAlphanumeric (b : UInt8) : Bool :=
  (0x30 ≤ b && b ≤ 0x39) || (0x41 ≤ b && b ≤ 0x5A) || (0x61 ≤ b && b ≤ 0x7A)

/-- `data_` and then letters, digits, `.`, `_` and `-`, in 6 to 31 bytes. -/
def historyWebNameValid (name : List UInt8) : Bool :=
  6 ≤ name.length && name.length ≤ 31 && (utf8 "data_").isPrefixOf name &&
    name.all fun b => isAsciiAlphanumeric b || b = 0x2E || b = 0x5F || b = 0x2D

end IoEdgeHub
