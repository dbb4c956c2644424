import IoEdgeHub.Lib.Run
import IoEdgeHub.Proto.MbServer

/-!
# Multi-write requests and exception responses

FC15 and FC16 write their elements one after the other through the register map, and find an
address out of range only when they reach it.  The loops are shown equal to the single writes of
their elements up to the first refused one; from that follows exactly what an exception response
leaves behind.
-/

namespace IoEdgeHub

open Bytes Run

/-! ## Elements of a request -/

/-- Coil `i` of the packed data: bit `i % 8` of byte `i / 8`. -/
def coilAt (data : List UInt8) (i : ℕ) : Bool :=
  (data[i / 8]?.getD 0 >>> UInt8.ofNat (i % 8)) &&& 0x01 != 0

/-- Big-endian word `i` of the data. -/
def wordAt (data : List UInt8) (i : ℕ) : UInt16 :=
  getBe16 (data[i * 2]?.getD 0) (data[i * 2 + 1]?.getD 0)

/-- The single writes `lo, …, lo + n - 1` of a request for consecutive addresses. -/
def singleWrites {β : Type} (addr : UInt16) (value : ℕ → β) (lo n : ℕ) : List (UInt16 × β) :=
  (List.range' lo n).map fun i => (addr + UInt16.ofNat i, value i)

theorem singleWrites_succ {β : Type} (addr : UInt16) (value : ℕ → β) (lo n : ℕ) :
    singleWrites addr value lo (n + 1) =
      (addr + UInt16.ofNat lo, value lo) :: singleWrites addr value (lo + 1) n := by
  simp [singleWrites, List.range'_succ]

theorem singleWrites_add {β : Type} (addr : UInt16) (value : ℕ → β) (lo n k : ℕ) :
    singleWrites addr value lo (n + k) =
      singleWrites addr value lo n ++ singleWrites addr value (lo + n) k := by
  simp [singleWrites, ← List.range'_append_1]

/-- One coil written as FC05 writes it. -/
def writeCoil (s : RegMap × Hooks) (e : UInt16 × Bool) : Option (RegMap × Hooks) :=
  s.1.ioWriteDoBit e.1 e.2 s.2

/-- One register written as FC06 writes it. -/
def writeReg (s : RegMap × Hooks) (e : UInt16 × UInt16) : Option (RegMap × Hooks) :=
  s.1.ioWriteHolding e.1 e.2 s.2

theorem isSome_writeCoil (s : RegMap × Hooks) (e : UInt16 × Bool) :
    (writeCoil s e).isSome ↔ e.1.toNat < 8 := by
  unfold writeCoil RegMap.ioWriteDoBit doNum
  by_cases h : e.1.toNat ≥ 8
  · rw [if_pos h]
    simpa using h
  · rw [if_neg h]
    simpa using h

theorem isSome_writeReg (s : RegMap × Hooks) (e : UInt16 × UInt16) :
    (writeReg s e).isSome ↔ e.1.toNat < 18 := by
  unfold writeReg RegMap.ioWriteHolding
  split_ifs with h <;> simpa using h

/-- A request of `qty` elements from `addr` on, against a table of `size` addresses: the elements
inside the table are written, the first one outside ends the request. -/
theorem attempt_singleWrites {σ β : Type} {step : σ → UInt16 × β → Option σ} {size : ℕ}
    (accepts : ∀ s e, (step s e).isSome ↔ e.1.toNat < size) (addr : UInt16) (value : ℕ → β)
    {qty : ℕ} (nonempty : 0 < qty) (small : size < 2 ^ 16) (s : σ) :
    attempt step (singleWrites addr value 0 qty) s =
      ((attempt step (singleWrites addr value 0 (min qty (size - addr.toNat))) s).1,
        decide (addr.toNat + qty ≤ size)) := by
  have address (i : ℕ) (hi : i < 2 ^ 16 - addr.toNat) :
      (addr + UInt16.ofNat i).toNat = addr.toNat + i := by
    rw [UInt16.toNat_add, UInt16.toNat_ofNat']
    have := addr.toNat_lt
    omega
  have inside (n : ℕ) (hn : addr.toNat + n ≤ size) :
      ∀ e ∈ singleWrites addr value 0 n, ∀ s, (step s e).isSome := by
    intro e he s
    obtain ⟨i, hi, rfl⟩ := List.mem_map.1 he
    have := List.mem_range'_1.1 hi
    rw [accepts, address i (by omega)]
    omega
  by_cases fits : addr.toNat + qty ≤ size
  · rw [Nat.min_eq_left (by omega), decide_eq_true fits, ← attempt_snd (inside qty fits) s]
  · obtain ⟨k, hk⟩ := Nat.exists_eq_add_of_lt (by omega : size - addr.toNat < qty)
    rw [Nat.min_eq_right (by omega), decide_eq_false fits, hk, Nat.add_assoc, singleWrites_add,
      Nat.add_comm k, Nat.add_comm 1, singleWrites_succ]
    by_cases start : addr.toNat ≤ size
    · refine attempt_refused s (inside _ (by omega)) fun s => ?_
      rw [← Option.not_isSome_iff_eq_none, accepts, address _ (by omega)]
      omega
    · rw [show size - addr.toNat = 0 by omega]
      refine attempt_refused s (by simp [singleWrites]) fun s => ?_
      rw [← Option.not_isSome_iff_eq_none, accepts, address _ (by have := addr.toNat_lt; omega)]
      omega

theorem shiftRight_succ (x : UInt8) {k : ℕ} (small : k + 1 < 8) :
    x >>> UInt8.ofNat (k + 1) = x >>> UInt8.ofNat k >>> 1 := by
  apply UInt8.toNat_inj.1
  simp only [UInt8.toNat_shiftRight, UInt8.toNat_ofNat', ← Nat.shiftRight_add]
  congr 1
  simp only [UInt8.reduceToNat]
  omega

namespace Mb

/-! ## The loops are single writes -/

/-- FC15 writes the coils one by one; `temp` holds the rest of the byte they are taken from. -/
theorem writeCoils_eq (addr : UInt16) (data : List UInt8) (n i : ℕ) (temp : UInt8) (regs : RegMap)
    (hooks : Hooks) (enough : i + n ≤ 8 * data.length)
    (rest : i % 8 ≠ 0 → temp = data[i / 8]?.getD 0 >>> UInt8.ofNat (i % 8)) :
    writeCoils addr data n i temp regs hooks =
      let r := attempt writeCoil (singleWrites addr (coilAt data) i n) (regs, hooks)
      some (r.1.1, r.1.2, r.2) := by
  induction n generalizing i temp regs hooks with
  | zero => rfl
  | succ n ih =>
    have inside : i / 8 < data.length := by omega
    have current : (if i % 8 = 0 then data[i / 8]? else some temp) =
        some (data[i / 8]?.getD 0 >>> UInt8.ofNat (i % 8)) := by
      split_ifs with start
      · simp [start, inside]
      · rw [rest start]
    rw [writeCoils, current, singleWrites_succ, attempt]
    simp only [Option.bind_eq_bind, Option.bind_some, writeCoil, coilAt]
    cases regs.ioWriteDoBit (addr + UInt16.ofNat i) _ hooks with
    | none => rfl
    | some s =>
      refine ih (i + 1) _ s.1 s.2 (by omega) fun inner => ?_
      rw [show (i + 1) % 8 = i % 8 + 1 by omega, show (i + 1) / 8 = i / 8 by omega,
        shiftRight_succ _ (by omega)]

theorem writeRegs_eq (addr : UInt16) (data : List UInt8) (n i : ℕ) (regs : RegMap) (hooks : Hooks)
    (enough : 2 * (i + n) ≤ data.length) :
    writeRegs addr data n i regs hooks =
      let r := attempt writeReg (singleWrites addr (wordAt data) i n) (regs, hooks)
      some (r.1.1, r.1.2, r.2) := by
  induction n generalizing i regs hooks with
  | zero => rfl
  | succ n ih =>
    have hi : data[i * 2]? = some (data[i * 2]?.getD 0) := by simp [show i * 2 < data.length by omega]
    have lo : data[i * 2 + 1]? = some (data[i * 2 + 1]?.getD 0) := by
      simp [show i * 2 + 1 < data.length by omega]
    rw [writeRegs, hi, lo, singleWrites_succ, attempt]
    simp only [Option.bind_eq_bind, Option.bind_some, writeReg, wordAt]
    cases regs.ioWriteHolding (addr + UInt16.ofNat i) _ hooks with
    | none => rfl
    | some s => exact ih (i + 1) s.1 s.2 (by omega)

/-! ## What a handler leaves behind -/

/-- The response carries a function code with bit 7 set. -/
def IsException (m : Mb) (n : ℕ) : Prop := 0 < n ∧ ∃ b, m.out[0]? = some b ∧ b &&& 0x80 ≠ 0

/-- The registers and the hook calls of two states agree. -/
def SameEffects (m m' : Mb) : Prop := m'.regs = m.regs ∧ m'.hooks = m.hooks

variable {d data : List UInt8} {m m' : Mb} {addr qty : UInt16} {fc : UInt8} {n size : ℕ}

theorem excRsp_spec {code : UInt8} (h : m.excRsp fc code = some (m', n)) :
    SameEffects m m' ∧ m'.out[1]? = some code := by
  simp only [excRsp, Option.bind_eq_bind, Option.bind_eq_some_iff] at h
  obtain ⟨o₁, -, o₂, h₂, h⟩ := h
  cases h
  obtain ⟨bound, rfl⟩ := put_eq_some.1 h₂
  exact ⟨⟨rfl, rfl⟩, by simp [bound]⟩

theorem exception_bit (fc : UInt8) : (fc ||| 0x80) &&& 0x80 ≠ 0 := by
  intro zero
  have := congrArg (fun b : UInt8 => b.toBitVec.getLsbD 7) zero
  simp at this

theorem excRsp_isException {code : UInt8} (h : m.excRsp fc code = some (m', n)) :
    IsException m' n := by
  simp only [excRsp, Option.bind_eq_bind, Option.bind_eq_some_iff] at h
  obtain ⟨o₁, h₁, o₂, h₂, h⟩ := h
  cases h
  obtain ⟨bound, rfl⟩ := put_eq_some.1 h₁
  obtain ⟨-, rfl⟩ := put_eq_some.1 h₂
  exact ⟨by decide, fc ||| 0x80, by simp [bound], exception_bit fc⟩

/-- A normal reply of a write or diagnostic function is no exception. -/
theorem echo_spec {a b : UInt16} (low : fc &&& 0x80 = 0)
    (h : m.echo fc a b = some (m', n)) : ¬ IsException m' n := by
  simp only [echo, Option.bind_eq_bind, Option.bind_eq_some_iff] at h
  obtain ⟨o₁, h₁, o₂, h₂, o₃, h₃, h⟩ := h
  cases h
  obtain ⟨bound, rfl⟩ := put_eq_some.1 h₁
  rintro ⟨-, c, hc, bit⟩
  dsimp only at hc
  rw [getElem?_copyIn_lt h₃ (by decide), getElem?_copyIn_lt h₂ (by decide),
    List.getElem?_set_self bound, Option.some.injEq] at hc
  exact bit (hc ▸ low)

theorem echo_sameEffects {a b : UInt16} (h : m.echo fc a b = some (m', n)) : SameEffects m m' := by
  simp only [echo, Option.bind_eq_bind, Option.bind_eq_some_iff] at h
  obtain ⟨_, -, _, -, _, -, h⟩ := h
  cases h
  exact ⟨rfl, rfl⟩

theorem fcReadBits_sameEffects {rd : RegMap → UInt16 → Option Bool} (h : fcReadBits fc rd m d = some (m', n)) :
    SameEffects m m' := by
  unfold fcReadBits at h
  split at h
  · dsimp only at h
    split_ifs at h
    · exact (excRsp_spec h).1
    · simp only [Option.bind_eq_bind, Option.bind_eq_some_iff] at h
      obtain ⟨o₁, -, o₂, -, o₃, -, ⟨o₄, ok⟩, -, h⟩ := h
      cases ok with
      | true => cases h; exact ⟨rfl, rfl⟩
      | false => exact (excRsp_spec h).1
  · cases h
    exact ⟨rfl, rfl⟩

theorem fcReadRegs_sameEffects {rd : Mb → UInt16 → UInt16} (h : fcReadRegs fc size rd m d = some (m', n)) :
    SameEffects m m' := by
  unfold fcReadRegs at h
  split at h
  · dsimp only at h
    split_ifs at h
    · exact (excRsp_spec h).1
    · exact (excRsp_spec h).1
    · simp only [Option.bind_eq_bind, Option.bind_eq_some_iff] at h
      obtain ⟨o₁, -, o₂, -, ⟨o₃, ok⟩, -, h⟩ := h
      cases ok with
      | true => cases h; exact ⟨rfl, rfl⟩
      | false => exact (excRsp_spec h).1
  · cases h
    exact ⟨rfl, rfl⟩

theorem fc05_exception (h : m.fc05 d = some (m', n))
    (exception : IsException m' n) : SameEffects m m' := by
  unfold fc05 at h
  split at h
  · dsimp only at h
    split at h
    · exact (excRsp_spec h).1
    · exact absurd exception (echo_spec (by decide) h)
  · cases h
    exact ⟨rfl, rfl⟩

theorem fc06_exception (h : m.fc06 d = some (m', n))
    (exception : IsException m' n) : SameEffects m m' := by
  unfold fc06 at h
  split at h
  · dsimp only at h
    split at h
    · exact (excRsp_spec h).1
    · exact absurd exception (echo_spec (by decide) h)
  · cases h
    exact ⟨rfl, rfl⟩

theorem fc08_exception (h : m.fc08 d = some (m', n))
    (exception : IsException m' n) : SameEffects m m' := by
  unfold fc08 at h
  split at h
  · dsimp only at h
    split_ifs at h
    case neg => exact (excRsp_spec h).1
    all_goals exact absurd exception (echo_spec (by decide) h)
  · cases h
    exact ⟨rfl, rfl⟩

/-! ## Requests that run past the table -/

/-- The address, quantity and data of an FC15 request that passes its checks. -/
def coilsRequest : List UInt8 → Option (UInt16 × UInt16 × List UInt8)
  | a0 :: a1 :: q0 :: q1 :: nb :: data =>
    let qty := getBe16 q0 q1
    if 0 < qty ∧ qty ≤ 2000 ∧ ((qty - 1) / 8 + 1).toNat = nb.toNat ∧ data.length = nb.toNat then
      some (getBe16 a0 a1, qty, data)
    else none
  | _ => none

/-- The address, quantity and data of an FC16 request that passes its checks. -/
def regsRequest : List UInt8 → Option (UInt16 × UInt16 × List UInt8)
  | a0 :: a1 :: q0 :: q1 :: nb :: data =>
    let addr := getBe16 a0 a1
    let qty := getBe16 q0 q1
    if 0 < qty ∧ qty ≤ 125 ∧ addr < mbFpExtensionsAddr ∧ (data.length + 5) % 2 ^ 16 = nb.toNat + 5 ∧
        nb / qty.toUInt8 = 2 ∧ data ≠ [] then
      some (addr, qty, data)
    else none
  | _ => none

theorem toNat_numBytes (pos : 0 < qty) :
    ((qty - 1) / 8 + 1).toNat = (qty.toNat - 1) / 8 + 1 := by
  have hq : 0 < qty.toNat := UInt16.lt_iff_toNat_lt.1 pos
  have bound := qty.toNat_lt
  have pred : (qty - 1).toNat = qty.toNat - 1 := by
    rw [UInt16.toNat_sub_of_le _ _ (show (1 : UInt16) ≤ qty from UInt16.le_iff_toNat_le.2 hq)]
    rfl
  rw [UInt16.toNat_add, UInt16.toNat_div, pred]
  simp only [UInt16.reduceToNat]
  omega

/-- An accepted FC15 request is the single writes of its coils. -/
theorem fc15_request (request : coilsRequest d = some (addr, qty, data)) :
    m.fc15 d =
      let r := attempt writeCoil (singleWrites addr (coilAt data) 0 qty.toNat) (m.regs, m.hooks)
      let m' := { m with regs := r.1.1, hooks := r.1.2 }
      if r.2 then m'.echo mbFc15CoilsWr addr qty
      else m'.excRsp mbFc15CoilsWr mbExcIllegalDataAddr := by
  unfold coilsRequest at request
  split at request
  · rename_i a0 a1 q0 q1 nb bytes
    dsimp only at request
    split_ifs at request with checks
    obtain ⟨pos, top, count, len⟩ := checks
    cases request
    have hn := toNat_numBytes pos
    obtain ⟨d5, rest, rfl⟩ : ∃ d5 rest, data = d5 :: rest := by
      cases data with
      | nil => simp only [List.length_nil] at len; omega
      | cons d5 rest => exact ⟨d5, rest, rfl⟩
    have quantity : ¬ (getBe16 q0 q1 = 0 ∨ getBe16 q0 q1 > 2000) := by
      rintro (zero | big)
      · exact absurd (zero ▸ pos) (by decide)
      · exact absurd top (UInt16.not_le.2 big)
    simp only [fc15, if_neg quantity]
    rw [if_neg (by simp only [List.length_cons] at len ⊢; omega),
      writeCoils_eq _ _ _ _ _ _ _ (by omega) (by simp)]
    simp only [Option.bind_eq_bind, Option.bind_some]
  · cases request

theorem fc15_no_request (refused : coilsRequest d = none)
    (h : m.fc15 d = some (m', n)) : SameEffects m m' := by
  unfold fc15 at h
  split at h
  · rename_i a0 a1 q0 q1 nb d5 rest
    dsimp only at h
    split_ifs at h with quantity count
    · exact (excRsp_spec h).1
    · exact (excRsp_spec h).1
    · rw [coilsRequest, if_pos] at refused
      · cases refused
      · refine ⟨?_, ?_, ?_, ?_⟩
        · exact UInt16.pos_iff_ne_zero.2 fun zero => quantity (Or.inl zero)
        · exact UInt16.not_lt.1 fun big => quantity (Or.inr big)
        · exact not_not.1 fun ne => count (Or.inl ne)
        · have := not_not.1 fun ne => count (Or.inr ne)
          simp only [List.length_cons] at this ⊢
          omega
  · cases h
    exact ⟨rfl, rfl⟩

theorem toUInt8_ne_zero (pos : 0 < qty) (top : qty ≤ 125) : qty.toUInt8 ≠ 0 := by
  intro zero
  have value := congrArg UInt8.toNat zero
  have : 0 < qty.toNat := UInt16.lt_iff_toNat_lt.1 pos
  have : qty.toNat ≤ 125 := UInt16.le_iff_toNat_le.1 top
  rw [UInt16.toNat_toUInt8, Nat.mod_eq_of_lt (by omega), show (0 : UInt8).toNat = 0 from rfl] at value
  omega

/-- The byte count of an accepted FC16 request covers its registers. -/
theorem regs_enough {nb : UInt8} (pos : 0 < qty) (top : qty ≤ 125)
    (ratio : nb / qty.toUInt8 = 2) : 2 * qty.toNat ≤ nb.toNat := by
  have hq : 0 < qty.toNat := UInt16.lt_iff_toNat_lt.1 pos
  have ht : qty.toNat ≤ 125 := UInt16.le_iff_toNat_le.1 top
  have quotient : nb.toNat / qty.toNat = 2 := by
    have h := congrArg UInt8.toNat ratio
    rwa [UInt8.toNat_div, UInt16.toNat_toUInt8, Nat.mod_eq_of_lt (by omega)] at h
  rw [Nat.mul_comm, ← quotient]
  exact Nat.mul_div_le _ _

/-- An accepted FC16 request is the single writes of its registers. -/
theorem fc16_request (request : regsRequest d = some (addr, qty, data)) :
    m.fc16 d =
      let r := attempt writeReg (singleWrites addr (wordAt data) 0 qty.toNat) (m.regs, m.hooks)
      let m' := { m with regs := r.1.1, hooks := r.1.2 }
      if r.2 then m'.echo mbFc16HoldingRegsWr addr qty
      else m'.excRsp mbFc16HoldingRegsWr mbExcIllegalDataAddr := by
  unfold regsRequest at request
  split at request
  · rename_i a0 a1 q0 q1 nb bytes
    dsimp only at request
    split_ifs at request with checks
    obtain ⟨pos, top, area, len, ratio, nonempty⟩ := checks
    cases request
    have covered := regs_enough pos top ratio
    obtain ⟨d5, rest, rfl⟩ := List.exists_cons_of_ne_nil nonempty
    have quantity : ¬ (getBe16 q0 q1 = 0 ∨ getBe16 q0 q1 > 125) := by
      rintro (zero | big)
      · exact absurd (zero ▸ pos) (by decide)
      · exact absurd top (UInt16.not_le.2 big)
    simp only [fc16, if_neg quantity, if_neg (UInt16.not_le.2 area)]
    simp only [List.length_cons] at len ⊢
    rw [if_neg (by omega), if_neg (by omega), if_neg (toUInt8_ne_zero pos top), if_neg (not_not.2 ratio),
      writeRegs_eq _ _ _ _ _ _ (by simp only [List.length_cons]; omega)]
    simp only [Option.bind_eq_bind, Option.bind_some]
  · cases request

theorem fc16_no_request (refused : regsRequest d = none)
    (h : m.fc16 d = some (m', n)) : SameEffects m m' ∧ (n = 0 ∨ IsException m' n) := by
  unfold fc16 at h
  split at h
  · rename_i a0 a1 q0 q1 nb d5 rest
    dsimp only at h
    split_ifs at h with quantity area short len divisor ratio
    · exact ⟨(excRsp_spec h).1, .inr (excRsp_isException h)⟩
    · exact ⟨(excRsp_spec h).1, .inr (excRsp_isException h)⟩
    · exact ⟨(excRsp_spec h).1, .inr (excRsp_isException h)⟩
    · exact ⟨(excRsp_spec h).1, .inr (excRsp_isException h)⟩
    · rw [regsRequest, if_pos] at refused
      · cases refused
      · refine ⟨?_, ?_, UInt16.not_le.1 area, ?_, not_not.1 ratio, List.cons_ne_nil _ _⟩
        · exact UInt16.pos_iff_ne_zero.2 fun zero => quantity (Or.inl zero)
        · exact UInt16.not_lt.1 fun big => quantity (Or.inr big)
        · simp only [List.length_cons] at len short ⊢
          omega
  · cases h
    exact ⟨⟨rfl, rfl⟩, .inl rfl⟩

/-- A multi-write that ends in an exception has written the elements inside its table of `size`
addresses, and it does run past that table. -/
theorem multiWrite_exception {β : Type} {step : RegMap × Hooks → UInt16 × β → Option (RegMap × Hooks)}
    (accepts : ∀ s e, (step s e).isSome ↔ e.1.toNat < size) (small : size < 2 ^ 16)
    {value : ℕ → β} (low : fc &&& 0x80 = 0)
    (pos : 0 < qty.toNat)
    (h : (let r := attempt step (singleWrites addr value 0 qty.toNat) (m.regs, m.hooks)
      let m' := { m with regs := r.1.1, hooks := r.1.2 }
      if r.2 then m'.echo fc addr qty else m'.excRsp fc mbExcIllegalDataAddr) = some (m', n))
    (exception : IsException m' n) :
    size < addr.toNat + qty.toNat ∧ m'.out[1]? = some mbExcIllegalDataAddr ∧
    (m'.regs, m'.hooks) =
      (attempt step (singleWrites addr value 0 (size - addr.toNat)) (m.regs, m.hooks)).1 := by
  rw [attempt_singleWrites accepts addr value pos small] at h
  dsimp only at h
  split_ifs at h with fits
  · exact absurd exception (echo_spec low h)
  · have past : size < addr.toNat + qty.toNat := by simpa using fits
    obtain ⟨⟨regs, hooks⟩, code⟩ := excRsp_spec h
    rw [Nat.min_eq_right (by omega)] at regs hooks
    exact ⟨past, code, Prod.ext regs hooks⟩

theorem coilsRequest_pos (request : coilsRequest d = some (addr, qty, data)) : 0 < qty.toNat := by
  unfold coilsRequest at request
  split at request
  · dsimp only at request
    split_ifs at request with checks
    cases request
    exact UInt16.lt_iff_toNat_lt.1 checks.1
  · cases request

theorem regsRequest_pos (request : regsRequest d = some (addr, qty, data)) : 0 < qty.toNat := by
  unfold regsRequest at request
  split at request
  · dsimp only at request
    split_ifs at request with checks
    cases request
    exact UInt16.lt_iff_toNat_lt.1 checks.1
  · cases request

theorem regsRequest_fields {a0 a1 q0 q1 nb : UInt8} {data' : List UInt8}
    (request : regsRequest (a0 :: a1 :: q0 :: q1 :: nb :: data) = some (addr, qty, data')) :
    addr = getBe16 a0 a1 ∧ qty = getBe16 q0 q1 ∧ data' = data := by
  unfold regsRequest at request
  dsimp only at request
  split_ifs at request
  cases request
  exact ⟨rfl, rfl, rfl⟩

/-- An FC15 request that starts inside the eight coils and runs past them. -/
def CoilsOverrun (pdu : List UInt8) (addr : UInt16) (data : List UInt8) : Prop :=
  ∃ d qty, pdu = mbFc15CoilsWr :: d ∧ coilsRequest d = some (addr, qty, data) ∧
    addr.toNat < 8 ∧ 8 < addr.toNat + qty.toNat

/-- An FC16 request that starts inside the eighteen holding registers and runs past them. -/
def RegsOverrun (pdu : List UInt8) (addr : UInt16) (data : List UInt8) : Prop :=
  ∃ d qty, pdu = mbFc16HoldingRegsWr :: d ∧ regsRequest d = some (addr, qty, data) ∧
    addr.toNat < 18 ∧ 18 < addr.toNat + qty.toNat

/-- A request that ends in an exception: one that passes its checks runs past its table, one that does not has no
effect.  `Overrun` tells the request that does. -/
theorem exception_effects {β : Type} {step : RegMap × Hooks → UInt16 × β → Option (RegMap × Hooks)}
    {value : List UInt8 → ℕ → β} {request : Option (UInt16 × UInt16 × List UInt8)}
    {Overrun : UInt16 → List UInt8 → Prop} (overrun_iff : ∀ addr data, Overrun addr data ↔
      ∃ qty, request = some (addr, qty, data) ∧ addr.toNat < size ∧ size < addr.toNat + qty.toNat)
    (refused : request = none → SameEffects m m')
    (ended : ∀ addr qty data, request = some (addr, qty, data) →
      size < addr.toNat + qty.toNat ∧ m'.out[1]? = some mbExcIllegalDataAddr ∧
      (m'.regs, m'.hooks) = (attempt step (singleWrites addr (value data) 0 (size - addr.toNat)) (m.regs, m.hooks)).1) :
    (∀ addr data, Overrun addr data →
      m'.out[1]? = some mbExcIllegalDataAddr ∧
      (m'.regs, m'.hooks) =
        (attempt step (singleWrites addr (value data) 0 (size - addr.toNat)) (m.regs, m.hooks)).1) ∧
    ((∀ addr data, ¬Overrun addr data) → SameEffects m m') := by
  constructor
  · intro addr data overrun
    obtain ⟨qty, same, -, -⟩ := (overrun_iff addr data).1 overrun
    exact (ended addr qty data same).2
  · intro stays
    cases same : request with
    | none => exact refused same
    | some r =>
      obtain ⟨addr, qty, data⟩ := r
      obtain ⟨past, -, effects⟩ := ended addr qty data same
      have start : ¬addr.toNat < size :=
        fun inside => stays addr data ((overrun_iff addr data).2 ⟨qty, same, inside, past⟩)
      rw [show size - addr.toNat = 0 by omega] at effects
      exact Prod.mk.inj effects

theorem coilsOverrun_iff (d : List UInt8) (addr : UInt16) (data : List UInt8) :
    CoilsOverrun (mbFc15CoilsWr :: d) addr data ↔
      ∃ qty, coilsRequest d = some (addr, qty, data) ∧ addr.toNat < 8 ∧ 8 < addr.toNat + qty.toNat := by
  simp [CoilsOverrun]

theorem regsOverrun_iff (d : List UInt8) (addr : UInt16) (data : List UInt8) :
    RegsOverrun (mbFc16HoldingRegsWr :: d) addr data ↔
      ∃ qty, regsRequest d = some (addr, qty, data) ∧ addr.toNat < 18 ∧ 18 < addr.toNat + qty.toNat := by
  simp [RegsOverrun]

theorem fc15_exception (h : m.fc15 d = some (m', n))
    (exception : IsException m' n) :
    (∀ addr data, CoilsOverrun (mbFc15CoilsWr :: d) addr data →
      m'.out[1]? = some mbExcIllegalDataAddr ∧
      (m'.regs, m'.hooks) =
        (attempt writeCoil (singleWrites addr (coilAt data) 0 (8 - addr.toNat)) (m.regs, m.hooks)).1) ∧
    ((∀ addr data, ¬ CoilsOverrun (mbFc15CoilsWr :: d) addr data) → SameEffects m m') := by
  refine exception_effects (coilsOverrun_iff d) (fun refused => fc15_no_request refused h)
    fun addr qty data request => ?_
  rw [fc15_request request] at h
  exact multiWrite_exception isSome_writeCoil (by decide) (by decide) (coilsRequest_pos request) h exception

theorem fc16_exception (h : m.fc16 d = some (m', n))
    (exception : IsException m' n) :
    (∀ addr data, RegsOverrun (mbFc16HoldingRegsWr :: d) addr data →
      m'.out[1]? = some mbExcIllegalDataAddr ∧
      (m'.regs, m'.hooks) =
        (attempt writeReg (singleWrites addr (wordAt data) 0 (18 - addr.toNat)) (m.regs, m.hooks)).1) ∧
    ((∀ addr data, ¬ RegsOverrun (mbFc16HoldingRegsWr :: d) addr data) → SameEffects m m') := by
  refine exception_effects (regsOverrun_iff d) (fun refused => (fc16_no_request refused h).1)
    fun addr qty data request => ?_
  rw [fc16_request request] at h
  exact multiWrite_exception isSome_writeReg (by decide) (by decide) (regsRequest_pos request) h exception

/-- What an exception response leaves behind: nothing, except after a multi-write request that
starts inside its table and runs past the end.  There the elements inside the table have been
written one by one, with all their hook calls, before the address out of range was reached. -/
theorem process_exception_effects {m m' : Mb} {pdu : List UInt8} {n : ℕ}
    (answered : m.process pdu = some (m', n)) (exception : IsException m' n) :
    (∀ addr data, CoilsOverrun pdu addr data →
      m'.out[1]? = some mbExcIllegalDataAddr ∧
      (m'.regs, m'.hooks) =
        (attempt writeCoil (singleWrites addr (coilAt data) 0 (8 - addr.toNat)) (m.regs, m.hooks)).1) ∧
    (∀ addr data, RegsOverrun pdu addr data →
      m'.out[1]? = some mbExcIllegalDataAddr ∧
      (m'.regs, m'.hooks) =
        (attempt writeReg (singleWrites addr (wordAt data) 0 (18 - addr.toNat)) (m.regs, m.hooks)).1) ∧
    ((∀ addr data, ¬ CoilsOverrun pdu addr data) → (∀ addr data, ¬ RegsOverrun pdu addr data) →
      m'.regs = m.regs ∧ m'.hooks = m.hooks) := by
  cases pdu with
  | nil =>
    cases answered
    exact absurd exception.1 (lt_irrefl 0)
  | cons fc d =>
    -- the function codes other than 15 and 16 are no overrun, whatever their data
    have coils (other : fc ≠ mbFc15CoilsWr) (addr data) : ¬ CoilsOverrun (fc :: d) addr data := by
      rintro ⟨d', qty, hd, -⟩
      exact other (List.cons.inj hd).1
    have regs (other : fc ≠ mbFc16HoldingRegsWr) (addr data) : ¬ RegsOverrun (fc :: d) addr data := by
      rintro ⟨d', qty, hd, -⟩
      exact other (List.cons.inj hd).1
    unfold process at answered
    dsimp only at answered
    generalize counted : ({ m with srv := (m.srv.diagCount .busMsg).diagCount .srvMsg } : Mb) = c
      at answered
    have hr : m.regs = c.regs := by rw [← counted]
    have hh : m.hooks = c.hooks := by rw [← counted]
    rw [hr, hh]
    by_cases h15 : fc = mbFc15CoilsWr
    · subst h15
      have handled := fc15_exception answered exception
      exact ⟨handled.1, fun addr data overrun => absurd overrun (regs (by decide) addr data),
        fun stays _ => handled.2 stays⟩
    by_cases h16 : fc = mbFc16HoldingRegsWr
    · subst h16
      have handled := fc16_exception answered exception
      exact ⟨fun addr data overrun => absurd overrun (coils (by decide) addr data), handled.1,
        fun _ stays => handled.2 stays⟩
    refine ⟨fun addr data overrun => absurd overrun (coils h15 addr data),
      fun addr data overrun => absurd overrun (regs h16 addr data), fun _ _ => ?_⟩
    split_ifs at answered
    · exact fcReadBits_sameEffects answered
    · exact fcReadBits_sameEffects answered
    · exact fcReadRegs_sameEffects answered
    · exact fcReadRegs_sameEffects answered
    · exact fc05_exception answered exception
    · exact fc06_exception answered exception
    · exact fc08_exception answered exception
    · exact (excRsp_spec answered).1

/-! ## Accepted requests -/

/-- The request was answered, and not with an exception. -/
def Accepted (m : Mb) (n : ℕ) : Prop := n ≠ 0 ∧ ¬ IsException m n

/-- The register an accepted FC06 request writes. -/
theorem fc06_accepted {a0 a1 v0 v1 : UInt8} (h : m.fc06 [a0, a1, v0, v1] = some (m', n)) (accepted : Accepted m' n) :
    writeReg (m.regs, m.hooks) (getBe16 a0 a1, getBe16 v0 v1) = some (m'.regs, m'.hooks) := by
  unfold fc06 at h
  dsimp only at h
  split at h
  · exact absurd (excRsp_isException h) accepted.2
  · next written =>
    obtain ⟨same, sameHooks⟩ := echo_sameEffects h
    rw [writeReg, written, same, sameHooks]

/-- The registers an accepted FC16 request writes: all of them. -/
theorem fc16_accepted (h : m.fc16 d = some (m', n))
    (accepted : Accepted m' n) :
    ∃ addr qty data, regsRequest d = some (addr, qty, data) ∧
      attempt writeReg (singleWrites addr (wordAt data) 0 qty.toNat) (m.regs, m.hooks) =
        ((m'.regs, m'.hooks), true) := by
  cases request : regsRequest d with
  | none =>
    rcases (fc16_no_request request h).2 with silent | exception
    · exact absurd silent accepted.1
    · exact absurd exception accepted.2
  | some e =>
    obtain ⟨addr, qty, data⟩ := e
    refine ⟨addr, qty, data, rfl, ?_⟩
    rw [fc16_request request] at h
    apply of_ite h
    · intro all h
      obtain ⟨same, sameHooks⟩ := echo_sameEffects h
      rw [same, sameHooks, ← all]
    · intro _ h
      exact absurd (excRsp_isException h) accepted.2

/-- A server with the default registers and no hook calls. -/
def bench : Mb := ⟨MbServer.new, List.replicate 256 0, RegMap.new 0x0300, ⟨[], 0⟩⟩

/-- FC16 of two registers from 0x11 on: the reboot trigger, then an address past the table. -/
def rebootOverrun : List UInt8 := [0x10, 0x00, 0x11, 0x00, 0x02, 0x04, 0x00, 0x01, 0x00, 0x01]

/-- `bench` after `rebootOverrun`: the exception is built after the reboot hook was called. -/
def benchRebooted : Mb where
  srv := ⟨#v[1, 0, 1, 1, 0]⟩
  out := 0x90 :: 0x02 :: List.replicate 254 0
  regs := RegMap.new 0x0300
  hooks := ⟨[.historySync, .rebootCold], 0⟩

theorem bench_rebootOverrun : bench.process rebootOverrun = some (benchRebooted, 2) := by
  decide +kernel

theorem benchRebooted_isException : IsException benchRebooted 2 :=
  ⟨by decide, 0x90, rfl, by decide⟩

theorem process_exception_effects_rebootOverrun :
    (benchRebooted.regs, benchRebooted.hooks) =
      (attempt writeReg (singleWrites 0x11 (wordAt [0x00, 0x01, 0x00, 0x01]) 0 1)
        (bench.regs, bench.hooks)).1 :=
  ((process_exception_effects bench_rebootOverrun benchRebooted_isException).2.1 0x11
    [0x00, 0x01, 0x00, 0x01] ⟨_, 2, rfl, by decide, by decide, by decide⟩).2

/-- An exception response does not mean that nothing happened. -/
theorem exception_after_side_effects :
    ¬ ∀ (m m' : Mb) (pdu : List UInt8) (n : ℕ), m.process pdu = some (m', n) → IsException m' n →
      m'.regs = m.regs ∧ m'.hooks = m.hooks := by
  intro atomic
  have unchanged := (atomic _ _ _ _ bench_rebootOverrun benchRebooted_isException).2
  exact absurd unchanged (by decide)

end Mb

end IoEdgeHub
