import IoEdgeHub.Lib.Bytes

/-!
# A text put together from numbered pieces

A text is sent in pieces of `n` items, the last one shorter, each with its number.  They may come in any
order and more than once; the receiver copies each to its place and marks its number in a mask.
`Filled` says of the buffer and `Marks` of the mask which numbers have arrived; `Filled.put` and `Marks.set`
say what one more piece does, and once every number is marked the buffer is the text (`Filled.whole`).
-/

namespace Pieces

variable {α : Type*}

/-- Piece `i` of a text. -/
def piece (n : ℕ) (text : List α) (i : ℕ) : List α := (text.drop (n * i)).take n

/-- The pieces that have arrived are in their places. -/
structure Filled (n : ℕ) (text buf : List α) (arrived : ℕ → Prop) : Prop where
  size : buf.length = text.length
  placed : ∀ j < text.length, arrived (j / n) → buf[j]? = text[j]?

theorem filled_none (n : ℕ) {text buf : List α} (size : buf.length = text.length) :
    Filled n text buf fun _ => False :=
  ⟨size, fun _ _ no => no.elim⟩

theorem Filled.put {n : ℕ} (pos : 0 < n) {text buf buf' : List α} {arrived : ℕ → Prop}
    (filled : Filled n text buf arrived) {i : ℕ} (copied : Bytes.copyIn buf (n * i) (piece n text i) = some buf') :
    Filled n text buf' fun k => arrived k ∨ k = i where
  size := (Bytes.length_copyIn copied).trans filled.size
  placed := by
    intro j inside marked
    have length : (piece n text i).length = min n (text.length - n * i) := by
      rw [piece, List.length_take, List.length_drop]
    rw [Bytes.getElem?_copyIn copied, length]
    by_cases here : n * i ≤ j ∧ j < n * i + min n (text.length - n * i)
    · rw [if_pos here, piece, List.getElem?_take_of_lt (by omega), List.getElem?_drop]
      congr 1
      omega
    · rw [if_neg here]
      apply filled.placed j inside
      refine marked.resolve_right ?_
      intro same
      have low := Nat.div_mul_le_self j n
      have high := Nat.lt_mul_div_succ j pos
      rw [same] at low high
      rw [Nat.mul_comm] at low
      rw [Nat.mul_add, Nat.mul_one] at high
      omega

theorem Filled.whole {n : ℕ} {text buf : List α} {arrived : ℕ → Prop} (filled : Filled n text buf arrived)
    (all : ∀ j < text.length, arrived (j / n)) : buf = text := by
  apply List.ext_getElem?
  intro j
  rcases Nat.lt_or_ge j text.length with inside | outside
  · exact filled.placed j inside (all j inside)
  · rw [List.getElem?_eq_none outside, List.getElem?_eq_none (filled.size.symm ▸ outside)]

/-! ## The mask -/

/-- The bits of the mask are the numbers that have arrived. -/
def Marks (mask : UInt8) (arrived : ℕ → Prop) : Prop := ∀ i, mask.toNat.testBit i = true ↔ arrived i

theorem marks_zero : Marks 0 fun _ => False := by
  intro i
  simp

theorem toNat_bit {seq : UInt8} (small : seq.toNat < 8) : ((1 : UInt8) <<< seq).toNat = 2 ^ seq.toNat := by
  have power : 2 ^ seq.toNat < 2 ^ 8 := Nat.pow_lt_pow_right (by decide) small
  rw [UInt8.toNat_shiftLeft, Nat.mod_eq_of_lt small, Nat.shiftLeft_eq]
  change 1 * 2 ^ seq.toNat % 2 ^ 8 = 2 ^ seq.toNat
  rw [Nat.one_mul, Nat.mod_eq_of_lt power]

theorem Marks.set {mask seq : UInt8} {arrived : ℕ → Prop} (marks : Marks mask arrived) (small : seq.toNat < 8) :
    Marks (mask ||| 1 <<< seq) fun k => arrived k ∨ k = seq.toNat := by
  intro i
  rw [UInt8.toNat_or, Nat.testBit_or, toNat_bit small, Nat.testBit_two_pow, Bool.or_eq_true, marks i, decide_eq_true_eq,
    eq_comm (a := seq.toNat)]

end Pieces
