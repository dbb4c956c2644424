import IoEdgeHub.Proto.MbReplies

/-!
# What the reads report

`BitsAnswer` and `WordsAnswer` say what FC01 to FC04 have to answer about a table of bits or of
registers, in terms of the numbers `addr` and `qty`.  The handlers check addresses one element at a time
and, for the bits, with an address that wraps; `reads_report` shows that they answer so all the same.
-/

namespace IoEdgeHub

open Bytes

namespace Mb

/-! ## The answers -/

/-- The answer to a read of `qty` bits from `addr` on: the quantity is checked first, then the range. -/
def BitsAnswer (fc : UInt8) (size : ℕ) (value : ℕ → Bool) (addr qty : ℕ) (rsp : List UInt8) : Prop :=
  if qty = 0 ∨ 2000 < qty then rsp = [fc ||| 0x80, 3]
  else if size < addr + qty then rsp = [fc ||| 0x80, 2]
  else ∃ data, rsp = fc :: UInt8.ofNat data.length :: data ∧ data.length = (qty + 7) / 8 ∧
    ∀ i < 8 * data.length, coilAt data i = (decide (i < qty) && value (addr + i))

/-- The answer to a read of `qty` registers from `addr` on: the quantity is checked first, then the
extension area, then the range. -/
def WordsAnswer (fc : UInt8) (size : ℕ) (value : ℕ → UInt16) (addr qty : ℕ) (rsp : List UInt8) : Prop :=
  if qty = 0 ∨ 125 < qty then rsp = [fc ||| 0x80, 3]
  else if 5000 ≤ addr then rsp = [fc ||| 0x80, 1]
  else if size < addr + qty then rsp = [fc ||| 0x80, 2]
  else ∃ data, rsp = fc :: UInt8.ofNat data.length :: data ∧ data.length = 2 * qty ∧
    ∀ i < qty, wordAt data i = value (addr + i)

/-- The coils are the bits of the output register. -/
def coilValue (r : RegMap) (a : ℕ) : Bool := r.holding[0].toNat.testBit a

/-- The discrete inputs are the bits of the last input register. -/
def discreteValue (r : RegMap) (a : ℕ) : Bool := r.input[5].toNat.testBit a

/-- The holding registers, where 14 and 15 show the two halves of the time. -/
def holdingValue (r : RegMap) (now : UInt32) (a : ℕ) : UInt16 :=
  if a = 14 then UInt16.ofNat (now.toNat / 65536)
  else if a = 15 then UInt16.ofNat (now.toNat % 65536)
  else r.holding[a]?.getD 0

/-- An input register, 0 outside. -/
def inputValue (r : RegMap) (a : ℕ) : UInt16 := r.input[a]?.getD 0

/-! ## Bits -/

theorem coilAt_eq_testBit (data : List UInt8) (i : ℕ) :
    coilAt data i = (data[i / 8]?.getD 0).toNat.testBit (i % 8) := by
  have shift : (UInt8.ofNat (i % 8)).toNat % 8 = i % 8 := by
    rw [UInt8.toNat_ofNat']
    omega
  rw [coilAt, Bytes.bit_uint8, shift]

theorem bits_table (x : UInt16) {n : ℕ} (small : n ≤ 16) (a : UInt16) :
    (if a.toNat ≥ n then none else some (x >>> a &&& 1 != 0)) =
      if a.toNat < n then some (x.toNat.testBit a.toNat) else none := by
  by_cases inside : a.toNat < n
  · rw [if_neg (Nat.not_le.2 inside), if_pos inside, Bytes.bit_uint16, Nat.mod_eq_of_lt (by omega)]
  · rw [if_pos (Nat.not_lt.1 inside), if_neg inside]

theorem coilAt_set {data : List UInt8} {i : ℕ} (inside : i / 8 < data.length) (j : ℕ) :
    coilAt (data.set (i / 8) (data[i / 8] ||| 1 <<< UInt8.ofNat (i % 8))) j = (coilAt data j || decide (j = i)) := by
  have mask : (1 <<< UInt8.ofNat (i % 8) : UInt8).toNat = 2 ^ (i % 8) := by
    have power : 2 ^ (i % 8) < 2 ^ 8 := Nat.pow_lt_pow_right (by decide) (Nat.mod_lt _ (by decide))
    rw [UInt8.toNat_shiftLeft, UInt8.toNat_ofNat', show i % 8 % 2 ^ 8 % 8 = i % 8 by omega,
      show (1 : UInt8).toNat = 1 from rfl, Nat.one_shiftLeft, Nat.mod_eq_of_lt power]
  rw [coilAt_eq_testBit, coilAt_eq_testBit, List.getElem?_set]
  by_cases byte : i / 8 = j / 8
  · rw [if_pos byte, if_pos (byte ▸ inside), Option.getD_some, ← byte, List.getElem?_eq_getElem inside,
      Option.getD_some, UInt8.toNat_or, mask, Nat.testBit_or, Nat.testBit_two_pow]
    congr 1
    exact decide_eq_decide.2 (by omega)
  · rw [if_neg byte, decide_eq_false (by omega : j ≠ i), Bool.or_false]

/-- One turn of the loop at an address inside the table. -/
theorem readBits_turn {rd : UInt16 → Option Bool} {bit : Bool} {addr : UInt16} (read : rd addr = some bit) (n : ℕ)
    {i : ℕ} {head data : List UInt8} (two : head.length = 2) (inside : i / 8 < data.length) :
    ∃ data', data'.length = data.length ∧ (∀ j, coilAt data' j = (coilAt data j || (decide (j = i) && bit))) ∧
      readBits rd (n + 1) i addr (head ++ data) = readBits rd n (i + 1) (addr + 1) (head ++ data') := by
  rw [readBits, read]
  cases bit with
  | false => exact ⟨data, rfl, fun j => by rw [Bool.and_false, Bool.or_false], rfl⟩
  | true =>
    have index : 2 + i / 8 - head.length = i / 8 := by omega
    refine ⟨data.set (i / 8) (data[i / 8] ||| 1 <<< UInt8.ofNat (i % 8)), List.length_set, fun j => ?_, ?_⟩
    · rw [coilAt_set inside, Bool.and_true]
    · rw [List.getElem?_append_right (by omega), index, List.getElem?_eq_getElem inside]
      simp only [Option.bind_eq_bind, Option.bind_some]
      rw [put, if_pos (by rw [List.length_append]; omega), List.set_append_right _ _ (by omega), index]
      rfl

/-- The loop of FC01 and FC02 over a table of `size` bits. -/
theorem readBits_spec {rd : UInt16 → Option Bool} {size : ℕ} {value : ℕ → Bool} (small : size < 2 ^ 16)
    (table : ∀ a, rd a = if a.toNat < size then some (value a.toNat) else none) {nb : ℕ} (n i : ℕ) (addr : UInt16)
    {head data : List UInt8} (two : head.length = 2) (room : data.length = nb) (fits : i + n ≤ 8 * nb) :
    ∃ data', readBits rd n i addr (head ++ data) =
        some (head ++ data', decide (n = 0 ∨ addr.toNat + n ≤ size)) ∧
      data'.length = nb ∧
      (n = 0 ∨ addr.toNat + n ≤ size → ∀ j, coilAt data' j =
        (coilAt data j || (decide (i ≤ j ∧ j < i + n) && value (addr.toNat + (j - i))))) := by
  induction n generalizing i addr data with
  | zero => exact ⟨data, rfl, room, fun _ j => by rw [decide_eq_false (by omega), Bool.false_and, Bool.or_false]⟩
  | succ n ih =>
    by_cases inside : addr.toNat < size
    · have next : (addr + 1).toNat = addr.toNat + 1 := by
        rw [UInt16.toNat_add, show (1 : UInt16).toNat = 1 from rfl, Nat.mod_eq_of_lt (by omega)]
      have last : n = 0 ∨ (addr + 1).toNat + n ≤ size ↔ n + 1 = 0 ∨ addr.toNat + (n + 1) ≤ size := by
        rw [next]
        omega
      obtain ⟨data₁, length, bits, turn⟩ :=
        readBits_turn ((table addr).trans (if_pos inside)) n two (by omega : i / 8 < data.length)
      obtain ⟨data', ran, length', bits'⟩ := ih (i + 1) (addr + 1) (length.trans room) (by omega)
      refine ⟨data', ?_, length', fun good j => ?_⟩
      · rw [turn, ran]
        simp only [last]
      · rw [bits' (last.2 good), bits, next, Bool.or_assoc]
        congr 1
        rcases Nat.lt_trichotomy j i with before | rfl | behind
        · simp [show j ≠ i by omega, show ¬i + 1 ≤ j by omega, show ¬i ≤ j by omega]
        · simp
        · rw [decide_eq_false (by omega : j ≠ i), Bool.false_and, Bool.false_or,
            show addr.toNat + 1 + (j - (i + 1)) = addr.toNat + (j - i) by omega]
          congr 1
          exact decide_eq_decide.2 (by omega)
    · refine ⟨data, ?_, room, fun good => by omega⟩
      rw [readBits, table, if_neg inside, decide_eq_false (by omega)]

/-! ## Registers -/

theorem wordAt_words (rd : UInt16 → UInt16) {n k : ℕ} (addr : UInt16) (inside : k < n) :
    wordAt (words rd n addr) k = rd (addr + UInt16.ofNat k) := by
  induction n generalizing addr k with
  | zero => omega
  | succ n ih =>
    cases k with
    | zero =>
      rw [show addr + UInt16.ofNat 0 = addr from UInt16.add_zero addr]
      exact getBe16_putBe16 (rd addr)
    | succ k =>
      have later : wordAt (words rd (n + 1) addr) (k + 1) = wordAt (words rd n (addr + 1)) k := by
        rw [wordAt, wordAt, show (k + 1) * 2 = k * 2 + 2 by omega]
        rfl
      rw [later, ih (addr + 1) (by omega), UInt16.ofNat_add, UInt16.add_comm (UInt16.ofNat k), UInt16.add_assoc]
      rfl

theorem ioReadHolding_eq (r : RegMap) (hooks : Hooks) (a : UInt16) :
    r.ioReadHolding a hooks = holdingValue r hooks.nowEpoch a.toNat := by
  have high : (hooks.nowEpoch >>> 16).toUInt16 = UInt16.ofNat (hooks.nowEpoch.toNat / 65536) := by
    rw [← UInt16.toNat_inj, UInt32.toNat_toUInt16, UInt32.toNat_shiftRight, UInt16.toNat_ofNat',
      show (16 : UInt32).toNat % 32 = 16 from rfl, Nat.shiftRight_eq_div_pow]
  have low : hooks.nowEpoch.toUInt16 = UInt16.ofNat (hooks.nowEpoch.toNat % 65536) := by
    rw [← UInt16.toNat_inj, UInt32.toNat_toUInt16, UInt16.toNat_ofNat', Nat.mod_mod]
  unfold RegMap.ioReadHolding holdingValue
  split
  · next hi => rw [if_pos hi, high]
  · next lo => rw [if_neg (by rw [lo]; decide), if_pos lo, low]
  · next hi lo => rw [if_neg hi, if_neg lo, RegMap.getHolding]

/-! ## Whole requests -/

/-- The request is answered so, and changes nothing. -/
def Reports (m : Mb) (answer : List UInt8 → Prop) (r : Option (Mb × ℕ)) : Prop :=
  ∃ m' n, r = some (m', n) ∧ m'.regs = m.regs ∧ m'.hooks = m.hooks ∧ answer (m'.out.take n)

section Requests

variable {m : Mb} (full : m.out.length = 256) (fc : UInt8) (a0 a1 q0 q1 : UInt8)

theorem excRsp_reports {srv : MbServer} {out : List UInt8} (room : 2 ≤ out.length) (code : UInt8) :
    Reports m (· = [fc ||| 0x80, code]) (excRsp ⟨srv, out, m.regs, m.hooks⟩ fc code) :=
  ⟨_, 2, excRsp_eq srv m.regs m.hooks room fc code, rfl, rfl, rfl⟩

include full

theorem fcReadBits_reports {rd : RegMap → UInt16 → Option Bool} {size : ℕ} {value : ℕ → Bool} (small : size < 2 ^ 16)
    (table : ∀ a, rd m.regs a = if a.toNat < size then some (value a.toNat) else none) :
    Reports m (BitsAnswer fc size value (getBe16 a0 a1).toNat (getBe16 q0 q1).toNat)
      (fcReadBits fc rd m [a0, a1, q0, q1]) := by
  have limit : getBe16 q0 q1 = 0 ∨ getBe16 q0 q1 > 2000 ↔ (getBe16 q0 q1).toNat = 0 ∨ 2000 < (getBe16 q0 q1).toNat := by
    rw [← UInt16.toNat_inj, gt_iff_lt, UInt16.lt_iff_toNat_lt]
    rfl
  unfold BitsAnswer
  by_cases quantity : getBe16 q0 q1 = 0 ∨ getBe16 q0 q1 > 2000
  · simp only [fcReadBits, if_pos quantity, if_pos (limit.1 quantity)]
    exact excRsp_reports fc (by omega) _
  simp only [if_neg (mt limit.2 quantity)]
  have count := mt limit.2 quantity
  generalize bytes : ((getBe16 q0 q1).toNat - 1) / 8 + 1 = nb
  obtain ⟨data, ran, length, bits⟩ := readBits_spec small table (getBe16 q0 q1).toNat 0 (getBe16 a0 a1)
    (rfl : [fc, UInt8.ofNat nb].length = 2) List.length_replicate (by omega : 0 + (getBe16 q0 q1).toNat ≤ 8 * nb)
  have filled := fcReadBits_filled full quantity bytes ran (by simp [length])
  by_cases range : size < (getBe16 a0 a1).toNat + (getBe16 q0 q1).toNat
  · simp only [if_pos range]
    rw [decide_eq_false (by omega)] at filled
    rw [filled]
    exact excRsp_reports fc (by simp) _
  · simp only [if_neg range]
    rw [decide_eq_true (by omega)] at filled
    refine ⟨_, _, filled, rfl, rfl, data, ?_, by omega, fun i inside => ?_⟩
    · rw [List.take_left, length]
      rfl
    · rw [bits (by omega), coilAt_eq_testBit, List.getElem?_replicate, if_pos (by omega)]
      simp

theorem fcReadRegs_reports {size : ℕ} (small : size < 2 ^ 16) (rd : RegMap → Hooks → UInt16 → UInt16)
    {value : ℕ → UInt16} (table : ∀ a, rd m.regs m.hooks a = value a.toNat) :
    Reports m (WordsAnswer fc size value (getBe16 a0 a1).toNat (getBe16 q0 q1).toNat)
      (fcReadRegs fc size (fun m => rd m.regs m.hooks) m [a0, a1, q0, q1]) := by
  have limit : getBe16 q0 q1 = 0 ∨ getBe16 q0 q1 > 125 ↔ (getBe16 q0 q1).toNat = 0 ∨ 125 < (getBe16 q0 q1).toNat := by
    rw [← UInt16.toNat_inj, gt_iff_lt, UInt16.lt_iff_toNat_lt]
    rfl
  have extension : getBe16 a0 a1 ≥ mbFpExtensionsAddr ↔ 5000 ≤ (getBe16 a0 a1).toNat := UInt16.le_iff_toNat_le
  unfold WordsAnswer
  by_cases quantity : getBe16 q0 q1 = 0 ∨ getBe16 q0 q1 > 125
  · simp only [fcReadRegs, if_pos quantity, if_pos (limit.1 quantity)]
    exact excRsp_reports fc (by omega) _
  simp only [if_neg (mt limit.2 quantity)]
  by_cases area : getBe16 a0 a1 ≥ mbFpExtensionsAddr
  · simp only [fcReadRegs, if_neg quantity, if_pos area, if_pos (extension.1 area)]
    exact excRsp_reports fc (by omega) _
  simp only [if_neg (mt extension.2 area)]
  obtain ⟨out', length, whole, filled⟩ := fcReadRegs_filled full fc small rd quantity area
  by_cases range : size < (getBe16 a0 a1).toNat + (getBe16 q0 q1).toNat
  · simp only [if_pos range]
    rw [decide_eq_false (by omega)] at filled
    rw [filled]
    exact excRsp_reports fc (by omega) _
  · simp only [if_neg range]
    rw [decide_eq_true (by omega)] at filled
    refine ⟨_, _, filled, rfl, rfl, words (rd m.regs m.hooks) (getBe16 q0 q1).toNat (getBe16 a0 a1), ?_,
      length_words .., fun i inside => ?_⟩
    · rw [whole (by omega), length_words, Nat.mul_comm]
      rfl
    · rw [wordAt_words _ _ inside, table, UInt16.toNat_add, UInt16.toNat_ofNat',
        Nat.mod_eq_of_lt (by omega : i < 2 ^ 16), Nat.mod_eq_of_lt (by omega)]

end Requests

/-- Every read with a four-byte body reports the registers, and changes nothing. -/
theorem reads_report (m : Mb) (full : m.out.length = mbServerPduMax) (a0 a1 q0 q1 : UInt8) :
    Reports m (BitsAnswer 0x01 8 (coilValue m.regs) (getBe16 a0 a1).toNat (getBe16 q0 q1).toNat)
      (m.process [0x01, a0, a1, q0, q1]) ∧
    Reports m (BitsAnswer 0x02 16 (discreteValue m.regs) (getBe16 a0 a1).toNat (getBe16 q0 q1).toNat)
      (m.process [0x02, a0, a1, q0, q1]) ∧
    Reports m (WordsAnswer 0x03 18 (holdingValue m.regs m.hooks.nowEpoch) (getBe16 a0 a1).toNat (getBe16 q0 q1).toNat)
      (m.process [0x03, a0, a1, q0, q1]) ∧
    Reports m (WordsAnswer 0x04 6 (inputValue m.regs) (getBe16 a0 a1).toNat (getBe16 q0 q1).toNat)
      (m.process [0x04, a0, a1, q0, q1]) := by
  refine ⟨?_, ?_, ?_, ?_⟩
  · exact fcReadBits_reports (m := m.received) full 0x01 a0 a1 q0 q1 (by decide) (bits_table _ (by decide))
  · exact fcReadBits_reports (m := m.received) full 0x02 a0 a1 q0 q1 (by decide) (bits_table _ (by decide))
  · exact fcReadRegs_reports (m := m.received) full 0x03 a0 a1 q0 q1 (by decide : 18 < 2 ^ 16)
      (fun r hooks a => r.ioReadHolding a hooks) (ioReadHolding_eq m.regs m.hooks)
  · exact fcReadRegs_reports (m := m.received) full 0x04 a0 a1 q0 q1 (by decide : 6 < 2 ^ 16)
      (fun r _ a => r.getInput a) (fun a => (rfl : m.regs.getInput a = inputValue m.regs a.toNat))

theorem reads_report_bench :
    Reports bench (WordsAnswer 0x03 18 (holdingValue bench.regs 0) 12 4)
      (bench.process [0x03, 0x00, 0x0C, 0x00, 0x04]) :=
  (reads_report bench List.length_replicate 0x00 0x0C 0x00 0x04).2.2.1

end Mb

end IoEdgeHub
