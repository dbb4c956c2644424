import Mathlib.Data.Nat.Notation
import Mathlib.Tactic.Common

/-!
# NOR flash arrays

The bytes of a NOR array by address.  An erase sets every byte of its range to `0xFF`; programming
only clears bits, so it ANDs its data into the array.  The rules below say what each operation
leaves alone, how programming splits over its data, and that an erased range reads back exactly
what was programmed into it.
-/

namespace Nor

/-- The bytes of an array by address. -/
abbrev Mem := ℕ → UInt8

/-- Every byte of the range becomes `0xFF`. -/
def erase (m : Mem) (addr len : ℕ) : Mem :=
  fun a => if addr ≤ a ∧ a < addr + len then 0xFF else m a

/-- The data is ANDed in from `addr` on. -/
def program (m : Mem) (addr : ℕ) (data : List UInt8) : Mem :=
  fun a => if h : addr ≤ a ∧ a - addr < data.length then m a &&& data[a - addr] else m a

/-- The `len` bytes from `addr` on. -/
def read (m : Mem) (addr len : ℕ) : List UInt8 := (List.range len).map fun i => m (addr + i)

/-- No bit of the range is programmed. -/
def Erased (m : Mem) (addr len : ℕ) : Prop := ∀ a, addr ≤ a → a < addr + len → m a = 0xFF

theorem ff_and (b : UInt8) : 0xFF &&& b = b := UInt8.neg_one_and

theorem and_ff (b : UInt8) : b &&& 0xFF = b := UInt8.and_neg_one

/-! ## Reads -/

@[simp] theorem length_read (m : Mem) (addr len : ℕ) : (read m addr len).length = len := by
  simp [read]

@[simp] theorem read_zero (m : Mem) (addr : ℕ) : read m addr 0 = [] := rfl

@[simp] theorem getElem_read (m : Mem) (addr len i : ℕ) (h : i < (read m addr len).length) :
    (read m addr len)[i] = m (addr + i) := by
  simp [read]

theorem read_add (m : Mem) (addr n k : ℕ) :
    read m addr (n + k) = read m addr n ++ read m (addr + n) k := by
  simp [read, List.range_add, Nat.add_assoc]

variable {data : List UInt8} {m m' : Mem} {a addr addr' len : ℕ}

theorem read_slice (m : Mem) (addr : ℕ) {off n : ℕ} (fits : off + n ≤ len) :
    read m (addr + off) n = ((read m addr len).drop off).take n := by
  obtain ⟨k, rfl⟩ := Nat.exists_eq_add_of_le fits
  rw [Nat.add_assoc, read_add, read_add, List.drop_left' (length_read ..),
    List.take_left' (length_read ..)]

theorem read_congr (same : ∀ a, addr ≤ a → a < addr + len → m a = m' a) : read m addr len = read m' addr len := by
  refine List.map_congr_left fun i hi => ?_
  have := List.mem_range.1 hi
  exact same _ (by omega) (by omega)

theorem read_eq_iff :
    read m addr len = data ↔ data.length = len ∧ ∀ i (h : i < data.length), m (addr + i) = data[i] := by
  constructor
  · rintro rfl
    exact ⟨length_read .., fun i h => (getElem_read m addr len i h).symm⟩
  · rintro ⟨rfl, bytes⟩
    refine List.ext_getElem (length_read ..) fun i _ h => ?_
    rw [getElem_read, bytes i h]

/-! ## Erasing -/

theorem erased_erase (m : Mem) (addr len : ℕ) : Erased (erase m addr len) addr len :=
  fun _ lo hi => if_pos ⟨lo, hi⟩

theorem erase_outside (out : a < addr ∨ addr + len ≤ a) :
    erase m addr len a = m a :=
  if_neg (by omega)

theorem Erased.mono {len' : ℕ} (h : Erased m addr len)
    (lo : addr ≤ addr') (hi : addr' + len' ≤ addr + len) : Erased m addr' len' :=
  fun a h₁ h₂ => h a (by omega) (by omega)

@[simp] theorem erase_zero (m : Mem) (addr : ℕ) : erase m addr 0 = m :=
  funext fun _ => erase_outside (by omega)

/-- An erase looks at no byte but the one it sets. -/
theorem erase_congr (same : m a = m' a) : erase m addr len a = erase m' addr len a := by
  simp only [erase, same]

/-- Erasing two adjacent ranges erases their union. -/
theorem erase_erase (m : Mem) (addr n k : ℕ) :
    erase (erase m addr n) (addr + n) k = erase m addr (n + k) := by
  funext a
  simp only [erase]
  split_ifs <;> first | rfl | omega

/-! ## Programming -/

@[simp] theorem program_nil (m : Mem) (addr : ℕ) : program m addr [] = m := by
  funext a
  simp [program]

theorem program_outside (out : a < addr ∨ addr + data.length ≤ a) : program m addr data a = m a :=
  dif_neg (by omega)

theorem program_inside (m : Mem) (addr i : ℕ) (data : List UInt8) (h : i < data.length) :
    program m addr data (addr + i) = m (addr + i) &&& data[i] := by
  simp only [program, Nat.add_sub_cancel_left]
  exact dif_pos ⟨Nat.le_add_right _ _, h⟩

theorem program_congr (same : m a = m' a) :
    program m addr data a = program m' addr data a := by
  simp only [program, same]

theorem program_eq_and (m : Mem) (addr : ℕ) (data : List UInt8) (a : ℕ) :
    program m addr data a = m a &&& if addr ≤ a then data[a - addr]?.getD 0xFF else 0xFF := by
  by_cases inside : addr ≤ a ∧ a - addr < data.length
  · obtain ⟨i, rfl⟩ := Nat.exists_eq_add_of_le inside.1
    have small : i < data.length := by omega
    rw [program_inside _ _ _ _ small, if_pos inside.1, Nat.add_sub_cancel_left,
      List.getElem?_eq_getElem small, Option.getD_some]
  · rw [program_outside (by omega)]
    split
    · rw [List.getElem?_eq_none (by omega), Option.getD_none, and_ff]
    · rw [and_ff]

/-- Programming in two consecutive pieces is programming once. -/
theorem program_append (m : Mem) (addr : ℕ) (xs ys : List UInt8) :
    program m addr (xs ++ ys) = program (program m addr xs) (addr + xs.length) ys := by
  funext a
  rcases Nat.lt_or_ge a addr with below | above
  · rw [program_outside (Or.inl below), program_outside (Or.inl (by omega)),
      program_outside (Or.inl below)]
  obtain ⟨i, rfl⟩ := Nat.exists_eq_add_of_le above
  rcases Nat.lt_or_ge i xs.length with first | rest
  · rw [program_inside _ _ _ _ (by simp; omega), program_outside (Or.inl (by omega)),
      program_inside _ _ _ _ first, List.getElem_append_left first]
  obtain ⟨j, rfl⟩ := Nat.exists_eq_add_of_le rest
  rcases Nat.lt_or_ge j ys.length with second | beyond
  · rw [program_inside _ _ _ _ (by simp; omega), ← Nat.add_assoc,
      program_inside _ _ _ _ second, program_outside (Or.inr (by omega))]
    simp
  · rw [program_outside (Or.inr (by simp; omega)), program_outside (Or.inr (by omega)),
      program_outside (Or.inr (by omega))]

/-- An erased range reads back what was programmed into it. -/
theorem read_program (blank : Erased m addr data.length) :
    read (program m addr data) addr data.length = data := by
  refine read_eq_iff.2 ⟨rfl, fun i h => ?_⟩
  rw [program_inside _ _ _ _ h, blank _ (by omega) (by omega), ff_and]

/-- The part of an erased range that was not programmed reads `0xFF`. -/
theorem read_program_erased (blank : Erased m addr len)
    (fits : data.length ≤ len) :
    read (program m addr data) addr len = data ++ List.replicate (len - data.length) 0xFF := by
  refine read_eq_iff.2 ⟨by simp; omega, fun i h => ?_⟩
  simp only [List.length_append, List.length_replicate] at h
  rcases Nat.lt_or_ge i data.length with inside | beyond
  · rw [List.getElem_append_left inside, program_inside _ _ _ _ inside,
      blank _ (by omega) (by omega), ff_and]
  · rw [List.getElem_append_right beyond, List.getElem_replicate,
      program_outside (by omega), blank _ (by omega) (by omega)]

theorem read_program_outside (apart : addr' + len ≤ addr ∨ addr + data.length ≤ addr') :
    read (program m addr data) addr' len = read m addr' len :=
  read_congr fun _ lo hi => program_outside (by omega)

theorem read_erase_outside {len' : ℕ}
    (apart : addr' + len' ≤ addr ∨ addr + len ≤ addr') :
    read (erase m addr len) addr' len' = read m addr' len' :=
  read_congr fun _ lo hi => erase_outside (by omega)

theorem Erased.program (h : Erased m addr len)
    (apart : addr + len ≤ addr' ∨ addr' + data.length ≤ addr) :
    Erased (program m addr' data) addr len :=
  fun a lo hi => by rw [program_outside (by omega), h a lo hi]

end Nor
