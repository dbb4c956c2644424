import IoEdgeHub.Lib.Nor

/-!
# The SPI NOR driver

`w25q.rs` over a NOR array.  The bus may fail at any command: a driver carries the outcomes of the
commands to come, and a command that fails has still taken effect on some first part of its range.
A driver that is absent (`nor_with` returns `None`) behaves as one whose every command fails with
no effect.
-/

namespace IoEdgeHub

/-- What becomes of one SPI command: a failing one reaches the first `done` bytes of its range. -/
inductive Outcome where
  | ok
  | fail (done : ℕ)
  deriving DecidableEq, Repr

/-- The array, the outcomes of the coming commands (`ok` once the list is empty), and how many
programs the page and chip bounds check has turned down. -/
structure W25q where
  mem : Nor.Mem
  plan : List Outcome
  refused : ℕ

namespace W25q

/-- The size of the chip. -/
def chipSize : ℕ := 0x01000000

/-- The size of a page. -/
def pageSize : ℕ := 256

/-- The size of a sector. -/
def sectorSize : ℕ := 4096

/-- Take the outcome of the next command off the plan. -/
def next (w : W25q) : Outcome × W25q :=
  match w.plan with
  | [] => (.ok, w)
  | o :: rest => (o, { w with plan := rest })

/-- Every caller reads at most `0xFFFF` bytes, which is one command. -/
def read (w : W25q) (addr len : ℕ) : W25q × Option (List UInt8) :=
  if addr ≥ chipSize ∨ chipSize - addr < len then (w, none)
  else if len = 0 then (w, some [])
  else
    match w.next with
    | (.ok, w) => (w, some (Nor.read w.mem addr len))
    | (.fail _, w) => (w, none)

/-- Page program: at most 256 bytes, never crossing a page. -/
def write (w : W25q) (addr : ℕ) (buf : List UInt8) : W25q × Bool :=
  if buf.isEmpty then (w, true)
  else if addr % pageSize + buf.length > pageSize ∨ addr + buf.length > chipSize then
    ({ w with refused := w.refused + 1 }, false)
  else
    match w.next with
    | (.ok, w) => ({ w with mem := Nor.program w.mem addr buf }, true)
    | (.fail done, w) => ({ w with mem := Nor.program w.mem addr (buf.take done) }, false)

/-- `erase_one` -/
def eraseOne (w : W25q) (addr size : ℕ) : W25q × Bool :=
  match w.next with
  | (.ok, w) => ({ w with mem := Nor.erase w.mem addr size }, true)
  | (.fail done, w) => ({ w with mem := Nor.erase w.mem addr (min done size) }, false)

/-- The largest block that may be erased next. -/
def eraseChunk (addr len : ℕ) : ℕ :=
  if addr % 0x10000 = 0 ∧ len ≥ 0x10000 then 0x10000
  else if addr % 0x8000 = 0 ∧ len ≥ 0x8000 then 0x8000
  else 0x1000

/-- The block loop of `erase`; every turn takes at least one sector off `len`. -/
def eraseLoop : ℕ → W25q → ℕ → ℕ → W25q × Bool
  | 0, w, _, len => (w, len == 0)
  | fuel + 1, w, addr, len =>
    if len = 0 then (w, true)
    else
      match w.eraseOne addr (eraseChunk addr len) with
      | (w, true) => eraseLoop fuel w (addr + eraseChunk addr len) (len - eraseChunk addr len)
      | (w, false) => (w, false)

/-- `erase` -/
def erase (w : W25q) (addr len : ℕ) : W25q × Bool :=
  if len = 0 ∨ addr % sectorSize ≠ 0 ∨ len % sectorSize ≠ 0 ∨ addr + len > chipSize then (w, false)
  else eraseLoop (len / sectorSize) w addr len

/-! ## What each operation can do -/

@[simp] theorem next_mem (w : W25q) : w.next.2.mem = w.mem := by
  unfold next
  split <;> rfl

@[simp] theorem next_refused (w : W25q) : w.next.2.refused = w.refused := by
  unfold next
  split <;> rfl

theorem read_frame (w : W25q) (addr len : ℕ) :
    (w.read addr len).1.mem = w.mem ∧ (w.read addr len).1.refused = w.refused := by
  have mem := next_mem w
  have refused := next_refused w
  unfold read
  split
  · exact ⟨rfl, rfl⟩
  split
  · exact ⟨rfl, rfl⟩
  · split <;> simp_all

theorem read_eq_some {w : W25q} {addr len : ℕ} {bs : List UInt8}
    (got : (w.read addr len).2 = some bs) : bs = Nor.read w.mem addr len := by
  have mem := next_mem w
  unfold read at got
  split at got
  · exact absurd got (by simp)
  split at got
  · rename_i empty
    rw [empty, Nor.read_zero, ← Option.some.inj got]
  · split at got <;> simp_all

/-- A program ANDs in a first part of its data, all of it when it succeeds. -/
theorem write_mem (w : W25q) (addr : ℕ) (buf : List UInt8) :
    ∃ k ≤ buf.length, (w.write addr buf).1.mem = Nor.program w.mem addr (buf.take k) ∧
      ((w.write addr buf).2 = true → k = buf.length) := by
  have mem := next_mem w
  unfold write
  split
  · rename_i empty
    exact ⟨0, Nat.zero_le _, by simp, fun _ => by simp [List.isEmpty_iff.1 empty]⟩
  split
  · exact ⟨0, Nat.zero_le _, by simp, by simp⟩
  · split
    · refine ⟨buf.length, Nat.le_refl _, ?_, fun _ => rfl⟩
      simp_all
    · rename_i done w' failed
      refine ⟨min done buf.length, Nat.min_le_right .., ?_, by simp⟩
      rw [failed] at mem
      rw [← List.take_eq_take_min, ← mem]

theorem write_ok {w : W25q} {addr : ℕ} {buf : List UInt8} (ok : (w.write addr buf).2 = true) :
    (w.write addr buf).1.mem = Nor.program w.mem addr buf := by
  obtain ⟨k, _, mem, all⟩ := write_mem w addr buf
  rwa [all ok, List.take_length] at mem

/-- A program that goes on where an earlier one ended. -/
theorem write_mem_append {w : W25q} {base : Nor.Mem} {addr : ℕ} {xs : List UInt8} (ys : List UInt8)
    (before : w.mem = Nor.program base addr xs) :
    ∃ k ≤ (xs ++ ys).length,
      (w.write (addr + xs.length) ys).1.mem = Nor.program base addr ((xs ++ ys).take k) ∧
      ((w.write (addr + xs.length) ys).2 = true → k = (xs ++ ys).length) := by
  obtain ⟨k, k_le, mem, all⟩ := write_mem w (addr + xs.length) ys
  refine ⟨xs.length + k, by simp; omega, ?_, fun ok => by simp [all ok]⟩
  rw [mem, before, ← Nor.program_append, List.take_length_add_append]

theorem write_refused {w : W25q} {addr : ℕ} {buf : List UInt8}
    (page : addr % pageSize + buf.length ≤ pageSize) (chip : addr + buf.length ≤ chipSize) :
    (w.write addr buf).1.refused = w.refused := by
  have refused := next_refused w
  unfold write
  split
  · rfl
  rw [if_neg (by omega)]
  split <;> simp_all

theorem eraseOne_mem (w : W25q) (addr size : ℕ) :
    ∃ k ≤ size, (w.eraseOne addr size).1.mem = Nor.erase w.mem addr k ∧
      ((w.eraseOne addr size).2 = true → k = size) := by
  have mem := next_mem w
  unfold eraseOne
  split
  · rename_i done
    rw [done] at mem
    exact ⟨size, Nat.le_refl _, by rw [← mem], fun _ => rfl⟩
  · rename_i done w' failed
    rw [failed] at mem
    exact ⟨min done size, Nat.min_le_right .., by rw [← mem], by simp⟩

@[simp] theorem eraseOne_refused (w : W25q) (addr size : ℕ) :
    (w.eraseOne addr size).1.refused = w.refused := by
  have refused := next_refused w
  unfold eraseOne
  split <;> simp_all

theorem eraseChunk_le (addr : ℕ) {len : ℕ} (sector : len % sectorSize = 0) (pos : 0 < len) :
    sectorSize ≤ eraseChunk addr len ∧ eraseChunk addr len ≤ len ∧
      eraseChunk addr len % sectorSize = 0 := by
  unfold eraseChunk
  simp only [sectorSize] at *
  split_ifs <;> omega

/-- The loop erases its range block by block from the front, all of it when it succeeds. -/
theorem eraseLoop_mem (fuel : ℕ) (w : W25q) (addr len : ℕ) (sector : len % sectorSize = 0) :
    ∃ k ≤ len, (eraseLoop fuel w addr len).1.mem = Nor.erase w.mem addr k ∧
      ((eraseLoop fuel w addr len).2 = true → k = len) := by
  induction fuel generalizing w addr len with
  | zero =>
    refine ⟨0, Nat.zero_le _, (Nor.erase_zero ..).symm, fun ok => ?_⟩
    exact (beq_iff_eq.1 ok).symm
  | succ fuel ih =>
    unfold eraseLoop
    by_cases empty : len = 0
    · rw [if_pos empty]
      exact ⟨0, Nat.zero_le _, (Nor.erase_zero ..).symm, fun _ => empty.symm⟩
    rw [if_neg empty]
    obtain ⟨_, chunk_le, chunk_sector⟩ := eraseChunk_le addr sector (Nat.pos_of_ne_zero empty)
    obtain ⟨k, k_le, mem, all⟩ := eraseOne_mem w addr (eraseChunk addr len)
    generalize chunk : eraseChunk addr len = c at *
    rcases erased : w.eraseOne addr c with ⟨w', _ | _⟩
    · rw [erased] at mem
      exact ⟨k, by omega, mem, by simp⟩
    · rw [erased] at mem all
      have rest_sector : (len - c) % sectorSize = 0 := by simp only [sectorSize] at *; omega
      obtain ⟨k', k'_le, mem', all'⟩ := ih w' (addr + c) (len - c) rest_sector
      refine ⟨c + k', by omega, ?_, fun ok => ?_⟩
      · rw [mem', mem, all rfl, Nor.erase_erase]
      · have := all' ok
        omega

theorem erase_mem (w : W25q) (addr len : ℕ) :
    ∃ k ≤ len, (w.erase addr len).1.mem = Nor.erase w.mem addr k ∧
      ((w.erase addr len).2 = true → k = len) := by
  unfold erase
  split
  · exact ⟨0, Nat.zero_le _, (Nor.erase_zero ..).symm, by simp⟩
  · exact eraseLoop_mem _ w addr len (by omega)

theorem eraseLoop_refused (fuel : ℕ) (w : W25q) (addr len : ℕ) :
    (eraseLoop fuel w addr len).1.refused = w.refused := by
  induction fuel generalizing w addr len with
  | zero => rfl
  | succ fuel ih =>
    unfold eraseLoop
    have one := eraseOne_refused w addr (eraseChunk addr len)
    split
    · rfl
    rcases erased : w.eraseOne addr (eraseChunk addr len) with ⟨w', _ | _⟩
    · rw [erased] at one
      exact one
    · rw [erased] at one
      exact (ih ..).trans one

theorem erase_refused (w : W25q) (addr len : ℕ) : (w.erase addr len).1.refused = w.refused := by
  unfold erase
  split
  · rfl
  · exact eraseLoop_refused ..

/-! ## A bus without failures -/

section Healthy

variable {w : W25q}

theorem next_healthy (healthy : w.plan = []) : w.next = (.ok, w) := by
  rw [next, healthy]

theorem write_healthy (healthy : w.plan = []) {addr : ℕ} {buf : List UInt8}
    (page : addr % pageSize + buf.length ≤ pageSize) (chip : addr + buf.length ≤ chipSize) :
    (w.write addr buf).2 = true ∧ (w.write addr buf).1.plan = [] := by
  unfold write
  split
  · exact ⟨rfl, healthy⟩
  · rw [if_neg (by omega), next_healthy healthy]
    exact ⟨rfl, healthy⟩

theorem read_healthy (healthy : w.plan = []) {addr len : ℕ} (pos : 0 < len)
    (chip : addr + len ≤ chipSize) : w.read addr len = (w, some (Nor.read w.mem addr len)) := by
  rw [read, if_neg (by omega), if_neg (by omega), next_healthy healthy]

theorem eraseLoop_healthy (fuel : ℕ) (healthy : w.plan = []) {addr len : ℕ}
    (sector : len % sectorSize = 0) (enough : len ≤ sectorSize * fuel) :
    (eraseLoop fuel w addr len).2 = true ∧ (eraseLoop fuel w addr len).1.plan = [] := by
  induction fuel generalizing w addr len with
  | zero =>
    obtain rfl : len = 0 := by omega
    exact ⟨rfl, healthy⟩
  | succ fuel ih =>
    unfold eraseLoop
    by_cases empty : len = 0
    · rw [if_pos empty]
      exact ⟨rfl, healthy⟩
    obtain ⟨least, most, chunk_sector⟩ :=
      eraseChunk_le addr sector (Nat.pos_of_ne_zero empty)
    rw [if_neg empty, eraseOne, next_healthy healthy]
    have still : ({ w with mem := Nor.erase w.mem addr (eraseChunk addr len) } : W25q).plan = [] := healthy
    refine ih still ?_ ?_ <;> simp only [sectorSize] at * <;> omega

theorem erase_healthy (healthy : w.plan = []) {addr len : ℕ} (pos : 0 < len)
    (aligned : addr % sectorSize = 0) (sector : len % sectorSize = 0)
    (chip : addr + len ≤ chipSize) :
    (w.erase addr len).2 = true ∧ (w.erase addr len).1.plan = [] := by
  rw [erase, if_neg (by omega)]
  refine eraseLoop_healthy _ healthy sector ?_
  simp only [sectorSize] at *
  omega

end Healthy

end W25q

end IoEdgeHub
