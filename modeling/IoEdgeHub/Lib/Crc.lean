import Mathlib.Logic.Function.Iterate
import IoEdgeHub.Lib.Bytes

/-!
# Reflected cyclic redundancy checks

The bitwise register of a reflected CRC of any width: each byte is folded into the low bits and
shifted out in eight steps.  The register is linear in what is folded in (`bit_xor`, `runBits_diff`),
and a shift loses nothing when the polynomial has its top bit (`bit_eq_zero`); so a burst of errors
no wider than the register always shows in a string that carries its check word (`Sealed.not_burst`).
Linearity also gives the byte-wise form of the register, in which only the low byte is folded (`byte_split`).
-/

namespace Crc

open Bytes (toLe)

variable {w : ℕ}

/-- One shift of the register. -/
def bit (poly c : BitVec w) : BitVec w :=
  if c.getLsbD 0 then (c >>> 1) ^^^ poly else c >>> 1

/-- Fold one byte into the register. -/
def byte (poly c : BitVec w) (b : UInt8) : BitVec w := (bit poly)^[8] (c ^^^ b.toBitVec.setWidth w)

/-- Fold a byte string into the register, starting from `seed`. -/
def run (poly seed : BitVec w) (data : List UInt8) : BitVec w := data.foldl (byte poly) seed

/-! ## The register is linear -/

@[simp] theorem bit_zero (poly : BitVec w) : bit poly 0#w = 0#w := by
  simp [bit]

theorem bit_xor (poly a b : BitVec w) : bit poly (a ^^^ b) = bit poly a ^^^ bit poly b := by
  unfold bit
  rw [BitVec.getLsbD_xor, BitVec.ushiftRight_xor_distrib]
  cases a.getLsbD 0 <;> cases b.getLsbD 0
  · rfl
  · exact BitVec.xor_assoc ..
  · simp only [Bool.bne_false, if_true, Bool.false_eq_true, if_false]
    ac_rfl
  · show a >>> 1 ^^^ b >>> 1 = a >>> 1 ^^^ poly ^^^ (b >>> 1 ^^^ poly)
    rw [BitVec.xor_assoc, BitVec.xor_comm (b >>> 1), ← BitVec.xor_assoc poly, BitVec.xor_self, BitVec.zero_xor]

theorem iterate_bit_zero (poly : BitVec w) (n : ℕ) : (bit poly)^[n] 0#w = 0#w :=
  Function.iterate_fixed (bit_zero poly) n

theorem bit_shiftLeft (poly : BitVec w) {x : BitVec w} (top : x.msb = false) : bit poly (x <<< 1) = x := by
  have low : (x <<< 1).getLsbD 0 = false := by simp
  rw [bit, low]
  apply BitVec.eq_of_getLsbD_eq
  intro i hi
  simp only [Bool.false_eq_true, if_false, BitVec.getLsbD_ushiftRight, BitVec.getLsbD_shiftLeft]
  by_cases inside : 1 + i < w
  · simp [inside]
  · have last : i = w - 1 := by omega
    rw [BitVec.msb_eq_getLsbD_last] at top
    simp [last, top]

/-- With the top bit in the polynomial no shift loses anything. -/
theorem bit_eq_zero {poly : BitVec w} (top : poly.msb = true) {c : BitVec w} (zero : bit poly c = 0#w) :
    c = 0#w := by
  unfold bit at zero
  split at zero
  · have high := congrArg BitVec.msb zero
    rw [BitVec.msb_xor, top] at high
    rcases w with _ | w
    · rw [BitVec.msb_eq_getLsbD_last, BitVec.getLsbD_of_ge _ _ (Nat.zero_le _)] at top
      cases top
    · simp [BitVec.msb_ushiftRight] at high
  · rename_i low
    apply BitVec.eq_of_getLsbD_eq
    intro i hi
    rcases i with _ | i
    · simpa using low
    · have next := congrArg (fun v => v.getLsbD i) zero
      simpa [BitVec.getLsbD_ushiftRight, Nat.add_comm 1 i] using next

theorem iterate_bit_ne_zero {poly : BitVec w} (top : poly.msb = true) {c : BitVec w} (ne : c ≠ 0#w) (n : ℕ) :
    (bit poly)^[n] c ≠ 0#w := by
  induction n generalizing c with
  | zero => exact ne
  | succ n ih =>
    rw [Function.iterate_succ_apply]
    apply ih
    intro zero
    exact ne (bit_eq_zero top zero)

/-! ## Byte by byte -/

theorem iterate_bit_xor (poly a b : BitVec w) (n : ℕ) :
    (bit poly)^[n] (a ^^^ b) = (bit poly)^[n] a ^^^ (bit poly)^[n] b := by
  induction n generalizing a b with
  | zero => rfl
  | succ n ih => simp only [Function.iterate_succ_apply, bit_xor, ih]

/-- Low bits that are all 0 are only shifted out. -/
theorem iterate_bit_shiftLeft (poly : BitVec w) {y : BitVec w} {n : ℕ}
    (room : ∀ i, w ≤ i + n → y.getLsbD i = false) : (bit poly)^[n] (y <<< n) = y := by
  induction n with
  | zero => rw [BitVec.shiftLeft_zero, Function.iterate_zero_apply]
  | succ n ih =>
    have top : (y <<< n).msb = false := by
      rw [BitVec.msb_eq_getLsbD_last, BitVec.getLsbD_shiftLeft, room _ (by omega), Bool.and_false]
    rw [Function.iterate_succ_apply, BitVec.shiftLeft_add, bit_shiftLeft poly top]
    exact ih fun i high => room i (by omega)

/-- What is above the low byte is shifted down, and the low byte is folded on its own. -/
theorem byte_split (poly c : BitVec w) (b : UInt8) :
    byte poly c b = (c ^^^ b.toBitVec.setWidth w) >>> 8 ^^^
      (bit poly)^[8] (((c ^^^ b.toBitVec.setWidth w).setWidth 8).setWidth w) := by
  rw [byte]
  generalize c ^^^ b.toBitVec.setWidth w = x
  have parts : x = (x >>> 8) <<< 8 ^^^ (x.setWidth 8).setWidth w := by
    apply BitVec.eq_of_getLsbD_eq
    intro i hi
    rw [BitVec.getLsbD_xor, BitVec.getLsbD_shiftLeft, BitVec.getLsbD_ushiftRight, BitVec.getLsbD_setWidth,
      BitVec.getLsbD_setWidth]
    by_cases low : i < 8
    · simp [low, hi]
    · simp [low, hi, Nat.add_sub_cancel' (Nat.le_of_not_lt low)]
  have high : (bit poly)^[8] ((x >>> 8) <<< 8) = x >>> 8 := by
    apply iterate_bit_shiftLeft
    intro i above
    rw [BitVec.getLsbD_ushiftRight, BitVec.getLsbD_of_ge _ _ (by omega)]
  calc (bit poly)^[8] x = (bit poly)^[8] ((x >>> 8) <<< 8 ^^^ (x.setWidth 8).setWidth w) := by rw [← parts]
    _ = _ := by rw [iterate_bit_xor, high]

/-! ## Bit by bit -/

/-- The bits of a byte string in the order of transmission. -/
def bits (data : List UInt8) : List Bool := data.flatMap fun b => (List.range 8).map b.toBitVec.getLsbD

/-- A bit at the low end of a register. -/
def lowBit (w : ℕ) (b : Bool) : BitVec w := (BitVec.ofBool b).setWidth w

/-- Fold bits into the register, one shift for each. -/
def runBits (poly c : BitVec w) (bs : List Bool) : BitVec w :=
  bs.foldl (fun c b => bit poly (c ^^^ lowBit w b)) c

/-- The first bits as the low end of a register. -/
def word (w : ℕ) : List Bool → BitVec w
  | [] => 0#w
  | b :: bs => lowBit w b ^^^ (word w bs <<< 1)

theorem getLsbD_word (bs : List Bool) {i : ℕ} (inside : i < w) : (word w bs).getLsbD i = bs[i]?.getD false := by
  induction bs generalizing i with
  | nil => simp [word]
  | cons b bs ih =>
    rw [word, BitVec.getLsbD_xor, BitVec.getLsbD_shiftLeft, lowBit, BitVec.getLsbD_setWidth, BitVec.getLsbD_ofBool]
    rcases i with _ | i
    · simp [inside]
    · rw [Nat.add_sub_cancel, ih (by omega)]
      simp [inside]

theorem runBits_eq {poly c : BitVec w} {bs : List Bool} (short : bs.length ≤ w) :
    runBits poly c bs = (bit poly)^[bs.length] (c ^^^ word w bs) := by
  induction bs generalizing c with
  | nil => simp [runBits, word]
  | cons b bs ih =>
    rw [List.length_cons] at short
    have top : (word w bs).msb = false := by
      rw [BitVec.msb_eq_getLsbD_last, getLsbD_word _ (by omega), List.getElem?_eq_none (by omega)]
      rfl
    have shifted : bit poly (c ^^^ word w (b :: bs)) = bit poly (c ^^^ lowBit w b) ^^^ word w bs := by
      rw [word, ← BitVec.xor_assoc, bit_xor, bit_shiftLeft poly top]
    rw [List.length_cons, Function.iterate_succ_apply, shifted]
    exact ih (by omega)

theorem runBits_append (poly c : BitVec w) (bs bs' : List Bool) :
    runBits poly c (bs ++ bs') = runBits poly (runBits poly c bs) bs' := List.foldl_append

theorem word_byte (b : UInt8) : word w (bits [b]) = b.toBitVec.setWidth w := by
  apply BitVec.eq_of_getLsbD_eq
  intro i hi
  rw [getLsbD_word _ hi, BitVec.getLsbD_setWidth]
  by_cases inside : i < 8
  · simp [bits, hi, inside]
  · simp [bits, inside, BitVec.getLsbD_of_ge b.toBitVec i (by omega)]

theorem byte_eq_runBits (wide : 8 ≤ w) (poly c : BitVec w) (b : UInt8) : byte poly c b = runBits poly c (bits [b]) := by
  rw [runBits_eq (by simpa [bits] using wide), word_byte, byte]
  rfl

theorem run_eq_runBits (wide : 8 ≤ w) (poly c : BitVec w) (data : List UInt8) :
    run poly c data = runBits poly c (bits data) := by
  induction data generalizing c with
  | nil => rfl
  | cons b data ih =>
    have cut : bits (b :: data) = bits [b] ++ bits data := by simp [bits]
    rw [cut, runBits_append, ← byte_eq_runBits wide, ← ih]
    rfl

theorem run_append (poly c : BitVec w) (data more : List UInt8) :
    run poly c (data ++ more) = run poly (run poly c data) more := List.foldl_append

/-! ## Bursts -/

/-- The difference of two bit strings. -/
def diff (bs bs' : List Bool) : List Bool := List.zipWith xor bs bs'

/-- A byte string with some of its bits flipped. -/
def corrupt (data e : List UInt8) : List UInt8 := List.zipWith (· ^^^ ·) data e

/-- Some bit is flipped, and all that are lie within `n` consecutive ones. -/
structure IsBurst (n : ℕ) (e : List UInt8) : Prop where
  flips : true ∈ bits e
  within : ∃ k, ∀ i < (bits e).length, (bits e)[i]? = some true → k ≤ i ∧ i < k + n

theorem length_bits (data : List UInt8) : (bits data).length = 8 * data.length := by
  induction data with
  | nil => rfl
  | cons b data ih =>
    simp only [bits, List.flatMap_cons, List.length_append, List.length_map, List.length_range,
      List.length_cons] at ih ⊢
    omega

theorem bits_corrupt (data e : List UInt8) : bits (corrupt data e) = diff (bits data) (bits e) := by
  induction data generalizing e with
  | nil => rfl
  | cons b data ih =>
    rcases e with _ | ⟨x, e⟩
    · simp [corrupt, bits, diff]
    · have head : (List.range 8).map (b ^^^ x).toBitVec.getLsbD =
          diff ((List.range 8).map b.toBitVec.getLsbD) ((List.range 8).map x.toBitVec.getLsbD) := by
        simp [diff, List.range_succ]
      have tail := ih e
      simp only [corrupt, bits, List.zipWith_cons_cons, List.flatMap_cons] at tail ⊢
      rw [head, tail]
      exact (List.zipWith_append (by simp)).symm

theorem lowBit_xor (a b : Bool) : lowBit w (a ^^ b) = lowBit w a ^^^ lowBit w b := by
  cases a <;> cases b <;> simp [lowBit]

/-- The registers of two runs differ by the run over the difference. -/
theorem runBits_diff (poly c c' : BitVec w) {bs bs' : List Bool} (same : bs.length = bs'.length) :
    runBits poly (c ^^^ c') (diff bs bs') = runBits poly c bs ^^^ runBits poly c' bs' := by
  induction bs generalizing c c' bs' with
  | nil =>
    rw [List.length_eq_zero_iff.1 same.symm]
    rfl
  | cons b bs ih =>
    rcases bs' with _ | ⟨b', bs'⟩
    · cases same
    · have step : bit poly (c ^^^ c' ^^^ lowBit w (b ^^ b')) =
          bit poly (c ^^^ lowBit w b) ^^^ bit poly (c' ^^^ lowBit w b') := by
        rw [← bit_xor, lowBit_xor]
        congr 1
        ac_rfl
      have rest := ih (bit poly (c ^^^ lowBit w b)) (bit poly (c' ^^^ lowBit w b')) (Nat.succ.inj same)
      rw [← step] at rest
      exact rest

theorem runBits_false (poly c : BitVec w) {bs : List Bool} (off : ∀ b ∈ bs, b = false) :
    runBits poly c bs = (bit poly)^[bs.length] c := by
  rw [List.eq_replicate_of_mem off, List.length_replicate]
  induction bs.length generalizing c with
  | zero => rfl
  | succ n ih =>
    rw [Function.iterate_succ_apply, ← ih]
    simp [runBits, List.replicate_succ, lowBit]

theorem word_ne_zero {bs : List Bool} (short : bs.length ≤ w) (on : true ∈ bs) : word w bs ≠ 0#w := by
  intro zero
  obtain ⟨i, inside, set⟩ := List.mem_iff_getElem.1 on
  have clear := getLsbD_word bs (w := w) (i := i) (by omega)
  rw [zero, List.getElem?_eq_getElem inside, set] at clear
  simp at clear

/-- Bits that are set only within a window as wide as the register leave a trace in it. -/
theorem runBits_ne_zero {poly : BitVec w} (top : poly.msb = true) {bs : List Bool} (on : true ∈ bs) {k : ℕ}
    (within : ∀ i < bs.length, bs[i]? = some true → k ≤ i ∧ i < k + w) : runBits poly 0#w bs ≠ 0#w := by
  -- before the window the register stays 0, behind it nothing is lost
  have before : ∀ b ∈ bs.take k, b = false := by
    intro b mem
    obtain ⟨i, inside, rfl⟩ := List.mem_iff_getElem.1 mem
    rw [List.length_take] at inside
    by_contra set
    rw [Bool.not_eq_false, List.getElem_take] at set
    have := within i (by omega) (by rw [List.getElem?_eq_getElem (by omega), set])
    omega
  have behind : ∀ b ∈ (bs.drop k).drop w, b = false := by
    intro b mem
    obtain ⟨i, inside, rfl⟩ := List.mem_iff_getElem.1 mem
    simp only [List.length_drop] at inside
    by_contra set
    rw [Bool.not_eq_false, List.getElem_drop, List.getElem_drop] at set
    have := within (k + (w + i)) (by omega) (by rw [List.getElem?_eq_getElem (by omega), set])
    omega
  have window : true ∈ (bs.drop k).take w := by
    rw [← List.take_append_drop k bs, ← List.take_append_drop w (bs.drop k)] at on
    simp only [List.mem_append] at on
    rcases on with mem | mem | mem
    · cases before _ mem
    · exact mem
    · cases behind _ mem
  have short : ((bs.drop k).take w).length ≤ w := List.length_take_le ..
  rw [← List.take_append_drop k bs, ← List.take_append_drop w (bs.drop k), runBits_append, runBits_append,
    runBits_false _ _ before, iterate_bit_zero, runBits_false _ _ behind, runBits_eq short, BitVec.zero_xor]
  apply iterate_bit_ne_zero top
  apply iterate_bit_ne_zero top
  exact word_ne_zero short window

/-! ## Sealed byte strings -/

/-- The string ends in the check word of what comes before, masked and least significant byte first. -/
def Sealed (poly seed mask : BitVec w) (bs : List UInt8) : Prop :=
  ∃ data, bs = data ++ toLe (w / 8) (run poly seed data ^^^ mask).toNat

theorem bits_toLe (n v : ℕ) : bits (toLe n v) = (List.range (8 * n)).map v.testBit := by
  induction n generalizing v with
  | zero => rfl
  | succ n ih =>
    have low : (List.range 8).map (UInt8.ofNat v).toBitVec.getLsbD = (List.range 8).map v.testBit := by
      apply List.map_congr_left
      intro i hi
      rw [List.mem_range] at hi
      show (BitVec.ofNat 8 v).getLsbD i = v.testBit i
      rw [BitVec.getLsbD_ofNat, decide_eq_true hi, Bool.true_and]
    have high : (List.range (8 * n)).map (v / 256).testBit = (List.range (8 * n)).map fun i => v.testBit (8 + i) := by
      apply List.map_congr_left
      intro i _
      rw [show 256 = 2 ^ 8 from rfl, Nat.testBit_div_two_pow, Nat.add_comm]
    have cut : bits (toLe (n + 1) v) =
        (List.range 8).map (UInt8.ofNat v).toBitVec.getLsbD ++ bits (toLe n (v / 256)) := by
      simp [toLe, bits]
    rw [cut, low, ih, high, Nat.mul_succ, Nat.add_comm, List.range_add, List.map_append, List.map_map]
    rfl

theorem word_toLe (whole : 8 * (w / 8) = w) (v : BitVec w) : word w (bits (toLe (w / 8) v.toNat)) = v := by
  apply BitVec.eq_of_getLsbD_eq
  intro i hi
  rw [getLsbD_word _ hi, bits_toLe, whole, List.getElem?_map, List.getElem?_range hi]
  rfl

/-- The register after a sealed string is always the same. -/
theorem Sealed.run {poly seed mask : BitVec w} {bs : List UInt8} (wide : 8 ≤ w) (whole : 8 * (w / 8) = w)
    (sealed : Sealed poly seed mask bs) : run poly seed bs = (bit poly)^[w] mask := by
  obtain ⟨data, rfl⟩ := sealed
  have length : (bits (toLe (w / 8) (Crc.run poly seed data ^^^ mask).toNat)).length = w := by
    rw [length_bits, Bytes.length_toLe, whole]
  rw [run_append, run_eq_runBits wide, runBits_eq length.le, word_toLe whole, length, ← BitVec.xor_assoc,
    BitVec.xor_self, BitVec.zero_xor]

/-- No burst as wide as the register or shorter turns a sealed string into a sealed one. -/
theorem Sealed.not_burst {poly seed mask : BitVec w} {bs e : List UInt8} (wide : 8 ≤ w) (whole : 8 * (w / 8) = w)
    (top : poly.msb = true) (sealed : Sealed poly seed mask bs) (same : e.length = bs.length)
    (burst : IsBurst w e) : ¬ Sealed poly seed mask (corrupt bs e) := by
  intro again
  obtain ⟨k, within⟩ := burst.within
  apply runBits_ne_zero top burst.flips within
  have lengths : (bits bs).length = (bits e).length := by rw [length_bits, length_bits, same]
  have linear := runBits_diff poly seed 0#w lengths
  rw [BitVec.xor_zero, ← bits_corrupt, ← run_eq_runBits wide, ← run_eq_runBits wide, sealed.run wide whole,
    again.run wide whole] at linear
  calc runBits poly 0#w (bits e)
      = (bit poly)^[w] mask ^^^ ((bit poly)^[w] mask ^^^ runBits poly 0#w (bits e)) := by
        rw [← BitVec.xor_assoc, BitVec.xor_self, BitVec.zero_xor]
    _ = 0#w := by rw [← linear, BitVec.xor_self]

end Crc
