import Mathlib.Data.Nat.Notation
import Mathlib.Tactic.Common
import Mathlib.Tactic.Ring

/-!
# Byte strings and fixed buffers

Numbers of a given width in either byte order, and the checked accesses to a buffer: an access outside
the buffer has no result, as an index out of range has none in a language that panics there.
-/

namespace Bytes

/-! ## Numbers in bytes -/

/-- The value of a little-endian byte string. -/
def leNat : List UInt8 → ℕ
  | [] => 0
  | b :: bs => b.toNat + 256 * leNat bs

/-- The `w` low bytes of `n`, least significant first. -/
def toLe : ℕ → ℕ → List UInt8
  | 0, _ => []
  | w + 1, n => UInt8.ofNat n :: toLe w (n / 256)

@[simp] theorem length_toLe (w n : ℕ) : (toLe w n).length = w := by
  induction w generalizing n with
  | zero => rfl
  | succ w ih => simp [toLe, ih]

theorem leNat_toLe (w n : ℕ) : leNat (toLe w n) = n % 256 ^ w := by
  induction w generalizing n with
  | zero => simp [toLe, leNat, Nat.mod_one]
  | succ w ih =>
    have low : (UInt8.ofNat n).toNat = n % 256 := by simp
    rw [toLe, leNat, ih, low, Nat.pow_succ, Nat.mul_comm (256 ^ w), Nat.mod_mul]

theorem leNat_toLe_of_lt {w n : ℕ} (small : n < 256 ^ w) : leNat (toLe w n) = n := by
  rw [leNat_toLe, Nat.mod_eq_of_lt small]

theorem leNat_lt (bs : List UInt8) : leNat bs < 256 ^ bs.length := by
  induction bs with
  | nil => simp [leNat]
  | cons b bs ih =>
    have hb := b.toNat_lt
    rw [leNat, List.length_cons, Nat.pow_succ]
    omega

theorem toLe_leNat (bs : List UInt8) : toLe bs.length (leNat bs) = bs := by
  induction bs with
  | nil => rfl
  | cons b bs ih =>
    have hb := b.toNat_lt
    have low : UInt8.ofNat (b.toNat + 256 * leNat bs) = b := by
      apply UInt8.toNat_inj.1
      simp only [UInt8.toNat_ofNat']
      omega
    have high : (b.toNat + 256 * leNat bs) / 256 = leNat bs := by omega
    rw [List.length_cons, leNat, toLe, low, high, ih]

/-- The value of a big-endian byte string. -/
def beNat (bs : List UInt8) : ℕ := leNat bs.reverse

/-- The `w` low bytes of `n`, most significant first. -/
def toBe (w n : ℕ) : List UInt8 := (toLe w n).reverse

@[simp] theorem length_toBe (w n : ℕ) : (toBe w n).length = w := by
  rw [toBe, List.length_reverse, length_toLe]

theorem flatMap_pieces {α : Type*} (w n : ℕ) (bs : List α) :
    (List.range n).flatMap (fun i => (bs.drop (w * i)).take w) = bs.take (w * n) := by
  induction n with
  | zero => simp
  | succ n ih =>
    rw [List.range_succ, List.flatMap_append, ih, List.flatMap_singleton, Nat.mul_succ, List.take_add]

/-! ## Bits -/

theorem bit_uint8 (x s : UInt8) : (x >>> s &&& 1 != 0) = x.toNat.testBit (s.toNat % 8) := by
  rw [Bool.eq_iff_iff, bne_iff_ne, Ne, ← UInt8.toNat_inj, UInt8.toNat_and, UInt8.toNat_shiftRight, Nat.testBit,
    bne_iff_ne, Nat.and_comm]
  rfl

theorem toNat_bit_uint16 (x s : UInt16) : (x >>> s &&& 1).toNat = (x.toNat.testBit (s.toNat % 16)).toNat := by
  rw [UInt16.toNat_and, UInt16.toNat_shiftRight, Nat.toNat_testBit, Nat.shiftRight_eq_div_pow]
  exact Nat.and_one_is_mod _

theorem bit_uint16 (x s : UInt16) : (x >>> s &&& 1 != 0) = x.toNat.testBit (s.toNat % 16) := by
  rw [Bool.eq_iff_iff, bne_iff_ne, Ne, ← UInt16.toNat_inj, toNat_bit_uint16]
  cases x.toNat.testBit (s.toNat % 16) <;> decide

/-! ## Checked access -/

section Buffer

variable {α : Type*}

/-- Store one element; no result outside the buffer. -/
def put (buf : List α) (i : ℕ) (a : α) : Option (List α) :=
  if i < buf.length then some (buf.set i a) else none

/-- An array filled from the left: where every value is the wanted one once those before it are, all of
them are. -/
theorem take_fill (value : ℕ → α) (next : List α → ℕ → α) (buf : List α) {a : ℕ}
    (done : buf.take a = (List.range a).map value)
    (right : ∀ w i, a ≤ i → w.take i = (List.range i).map value → next w i = value i) (n : ℕ)
    (room : a + n ≤ buf.length) :
    ((List.range' a n).foldl (fun w i => w.set i (next w i)) buf).take (a + n) = (List.range (a + n)).map value ∧
      ((List.range' a n).foldl (fun w i => w.set i (next w i)) buf).length = buf.length := by
  induction n with
  | zero => exact ⟨done, rfl⟩
  | succ n ih =>
    obtain ⟨taken, length⟩ := ih (by omega)
    have value' := right _ (a + n) (Nat.le_add_right a n) taken
    rw [List.range'_concat, List.foldl_append, Nat.one_mul, ← Nat.add_assoc, List.range_succ, List.map_append, ← taken]
    refine ⟨?_, ?_⟩
    · rw [List.foldl_cons, List.foldl_nil, value', List.take_add_one, List.take_set_of_le (le_refl _),
        List.getElem?_set_self (by omega)]
      rfl
    · rw [List.foldl_cons, List.foldl_nil, List.length_set, length]

/-- Store one element of a fixed array; no result outside it. -/
def store {n : ℕ} (v : Vector α n) (i : ℕ) (a : α) : Option (Vector α n) :=
  if h : i < n then some (v.set i a) else none

variable {i n off : ℕ}

theorem store_of_lt (v : Vector α n) (a : α) (h : i < n) : store v i a = some (v.set i a) :=
  dif_pos h

/-- Copy a byte string over the beginning of an array; what does not fit is dropped. -/
def overwrite {n : ℕ} (v : Vector α n) (src : List α) : Vector α n :=
  .ofFn fun i => src[i]?.getD v[i]

theorem take_overwrite (v : Vector α n) {src : List α} (fits : src.length ≤ n) :
    (overwrite v src).toList.take src.length = src := by
  apply List.ext_getElem
  · simp [Nat.min_eq_left fits]
  · intro i bound _
    simp only [List.getElem_take, Vector.getElem_toList, overwrite, Vector.getElem_ofFn]
    simp [List.getElem?_eq_getElem (show i < src.length by simp at bound; omega)]

/-- The array keeps what the copy does not reach. -/
theorem toList_overwrite (v : Vector α n) {src : List α} (fits : src.length ≤ n) :
    (overwrite v src).toList = src ++ v.toList.drop src.length := by
  rw [← List.take_append_drop src.length (overwrite v src).toList, take_overwrite v fits]
  congr 1
  apply List.ext_getElem
  · simp
  · intro i bound _
    simp only [List.getElem_drop, Vector.getElem_toList, overwrite, Vector.getElem_ofFn]
    simp

theorem toNat_le_255 (o : UInt8) : o.toNat ≤ 255 := Nat.le_of_lt_succ o.toNat_lt

theorem exists_octet (small : n ≤ 255) : ∃ o : UInt8, o.toNat = n :=
  ⟨UInt8.ofNat n, by rw [UInt8.toNat_ofNat']; omega⟩

/-- Four elements, as in an address. -/
def quad (a b c d : α) : Vector α 4 := #v[a, b, c, d]

theorem exists_quad (v : Vector α 4) : ∃ a b c d, v = quad a b c d := by
  refine ⟨v[0], v[1], v[2], v[3], Vector.ext fun i inside => ?_⟩
  match i, inside with
  | 0, _ => rfl
  | 1, _ => rfl
  | 2, _ => rfl
  | 3, _ => rfl

/-- Storing at position `i` extends what is known of the first elements by one. -/
theorem take_set (v : Vector α n) (a : α) (h : i < n) :
    (v.set i a).toList.take (i + 1) = v.toList.take i ++ [a] := by
  rw [Vector.toList_set, List.take_set, List.take_succ_eq_append_getElem (by simpa using h),
    List.set_append_right _ _ (by simp)]
  simp [Nat.min_eq_left h.le]

/-- The elements from `lo` up to `hi`; no result when the range leaves the buffer. -/
def slice (buf : List α) (lo hi : ℕ) : Option (List α) :=
  if lo ≤ hi ∧ hi ≤ buf.length then some ((buf.drop lo).take (hi - lo)) else none

theorem slice_eq {buf : List α} {lo hi : ℕ} (order : lo ≤ hi) (inside : hi ≤ buf.length) :
    slice buf lo hi = some ((buf.drop lo).take (hi - lo)) :=
  if_pos ⟨order, inside⟩

theorem slice_append_left {buf rest : List α} {lo hi : ℕ} (order : lo ≤ hi) (inside : hi ≤ buf.length) :
    slice (buf ++ rest) lo hi = slice buf lo hi := by
  rw [slice_eq order inside, slice_eq order (by simp; omega), List.drop_append_of_le_length (by omega),
    List.take_append_of_le_length (by simp; omega)]

/-- Overwrite the buffer from `off` on; no result when the source does not fit. -/
def copyIn (buf : List α) (off : ℕ) (src : List α) : Option (List α) :=
  if off + src.length ≤ buf.length then
    some (buf.take off ++ src ++ buf.drop (off + src.length))
  else none

theorem put_eq_some {buf buf' : List α} {a : α} :
    put buf i a = some buf' ↔ i < buf.length ∧ buf' = buf.set i a := by
  unfold put
  split_ifs with h <;> simp [h, eq_comm]

theorem copyIn_eq_some {buf buf' : List α} {src : List α} :
    copyIn buf off src = some buf' ↔ off + src.length ≤ buf.length ∧
      buf' = buf.take off ++ src ++ buf.drop (off + src.length) := by
  unfold copyIn
  split_ifs with h <;> simp [h, eq_comm]

theorem length_copyIn {buf buf' : List α} {src : List α} (h : copyIn buf off src = some buf') :
    buf'.length = buf.length := by
  obtain ⟨fits, rfl⟩ := copyIn_eq_some.1 h
  simp only [List.length_append, List.length_take, List.length_drop]
  omega

/-- The buffer up to the end of the copied range. -/
theorem take_copyIn {buf buf' : List α} {src : List α} (h : copyIn buf off src = some buf') :
    buf'.take (off + src.length) = buf.take off ++ src := by
  obtain ⟨fits, rfl⟩ := copyIn_eq_some.1 h
  exact List.take_left' (by simp only [List.length_append, List.length_take]; omega)

theorem getElem?_copyIn {buf buf' : List α} {src : List α} (h : copyIn buf off src = some buf') (j : ℕ) :
    buf'[j]? = if off ≤ j ∧ j < off + src.length then src[j - off]? else buf[j]? := by
  obtain ⟨fits, rfl⟩ := copyIn_eq_some.1 h
  have front : (buf.take off).length = off := List.length_take_of_le (by omega)
  rw [List.append_assoc]
  rcases Nat.lt_or_ge j off with before | from_off
  · rw [if_neg (by omega), List.getElem?_append_left (by omega), List.getElem?_take_of_lt before]
  · rw [List.getElem?_append_right (by omega), front]
    rcases Nat.lt_or_ge j (off + src.length) with inside | behind
    · rw [if_pos ⟨from_off, inside⟩, List.getElem?_append_left (by omega)]
    · rw [if_neg (by omega), List.getElem?_append_right (by omega), List.getElem?_drop]
      congr 1
      omega

theorem getElem?_copyIn_lt {buf buf' : List α} {j : ℕ} {src : List α}
    (h : copyIn buf off src = some buf') (before : j < off) : buf'[j]? = buf[j]? := by
  rw [getElem?_copyIn h, if_neg (by omega)]

/-- A copy right behind what is known of the buffer. -/
theorem copyIn_append (pre : List α) {rest src : List α} (here : off = pre.length)
    (room : src.length ≤ rest.length) :
    copyIn (pre ++ rest) off src = some (pre ++ src ++ rest.drop src.length) := by
  subst here
  rw [copyIn, if_pos (by rw [List.length_append]; omega), List.take_left, ← List.drop_drop, List.drop_left]

theorem put_append (pre : List α) {rest : List α} (here : i = pre.length) (room : rest ≠ []) (a : α) :
    put (pre ++ rest) i a = some (pre ++ [a] ++ rest.drop 1) := by
  subst here
  obtain ⟨x, rest, rfl⟩ := List.exists_cons_of_ne_nil room
  rw [put, if_pos (by simp), List.set_append_right _ _ (le_refl _)]
  simp

theorem exists_put {buf : List α} (a : α) (inside : i < buf.length) :
    ∃ buf', put buf i a = some buf' ∧ buf'.length = buf.length :=
  ⟨_, if_pos inside, List.length_set ..⟩

theorem exists_copyIn {buf : List α} {src : List α} (room : off + src.length ≤ buf.length) :
    ∃ buf', copyIn buf off src = some buf' ∧ buf'.length = buf.length :=
  ⟨_, if_pos room, length_copyIn (if_pos room)⟩

theorem copyIn_nil {buf : List α} (inside : off ≤ buf.length) : copyIn buf off [] = some buf := by
  rw [copyIn, List.length_nil, Nat.add_zero, if_pos inside, List.append_nil, List.take_append_drop]

/-- A copy stores its elements one after the other. -/
theorem copyIn_cons (buf : List α) (off : ℕ) (a : α) (src : List α) :
    copyIn buf off (a :: src) = (put buf off a).bind fun buf => copyIn buf (off + 1) src := by
  have shift : off + (a :: src).length = off + 1 + src.length := by
    rw [List.length_cons]
    omega
  unfold copyIn put
  rw [shift]
  by_cases inside : off < buf.length
  · have head : (buf.set off a).take (off + 1) = buf.take off ++ [a] := by
      rw [List.set_eq_take_append_cons_drop, if_pos inside, ← List.singleton_append, ← List.append_assoc,
        List.take_left' (by simp; omega)]
    rw [if_pos inside, Option.bind_some, List.length_set, head, List.drop_set_of_lt (by omega), List.append_assoc,
      List.append_assoc, List.append_assoc]
    rfl
  · rw [if_neg (by omega), if_neg inside]
    rfl

end Buffer

/-! ## Text that ends at a NUL -/

theorem length_takeWhile_le {α : Type*} {p : α → Bool} {l : List α} {i : ℕ} {a : α} (here : l[i]? = some a)
    (stops : p a = false) : (l.takeWhile p).length ≤ i := by
  induction l generalizing i with
  | nil => cases here
  | cons b l ih =>
    rw [List.takeWhile_cons]
    cases i with
    | zero =>
      obtain rfl : b = a := Option.some.inj here
      simp [stops]
    | succ i =>
      split
      · exact Nat.succ_le_succ (ih here)
      · exact Nat.zero_le _

theorem takeWhile_nul {text : List UInt8} (noNul : 0 ∉ text) (rest : List UInt8) :
    (text ++ 0 :: rest).takeWhile (· ≠ 0) = text := by
  have data : ∀ b ∈ text, decide (b ≠ 0) = true := by
    intro b member
    apply decide_eq_true
    rintro rfl
    exact noNul member
  rw [List.takeWhile_append_of_pos data, List.takeWhile_cons_of_neg (by decide), List.append_nil]

/-- A text in a cleared array that is longer than it. -/
theorem toList_overwrite_zeros {m : ℕ} {text : List UInt8} (short : text.length < m) :
    (overwrite (.replicate m 0) text).toList = text ++ 0 :: List.replicate (m - 1 - text.length) 0 := by
  rw [toList_overwrite _ (Nat.le_of_lt short), Vector.toList_replicate, List.drop_replicate, ← List.replicate_succ]
  congr 2
  omega

/-- The text in front of the NUL is this one: it begins so and ends there. -/
theorem terminated_iff {text line : List UInt8} (noNul : 0 ∉ text) (noNul' : 0 ∉ line) (rest : List UInt8) :
    (text ++ 0 :: rest).take line.length = line ∧ (text ++ 0 :: rest)[line.length]? = some 0 ↔ text = line := by
  induction text generalizing line with
  | nil =>
    cases line with
    | nil => exact iff_of_true ⟨rfl, rfl⟩ rfl
    | cons x line =>
      refine iff_of_false ?_ (List.cons_ne_nil x line).symm
      rintro ⟨front, -⟩
      exact List.ne_of_not_mem_cons noNul' (List.cons.inj front).1
  | cons y text ih =>
    cases line with
    | nil =>
      refine iff_of_false ?_ (List.cons_ne_nil y text)
      rintro ⟨-, ends⟩
      exact List.ne_of_not_mem_cons noNul (Option.some.inj ends).symm
    | cons x line =>
      have later := ih (List.not_mem_of_not_mem_cons noNul) (List.not_mem_of_not_mem_cons noNul')
      rw [List.cons_append, List.length_cons, List.take_succ_cons, List.getElem?_cons_succ, List.cons.injEq,
        List.cons.injEq, and_assoc, later]

end Bytes
