import Mathlib.Data.List.Induction
import Mathlib.Data.Nat.Bitwise
import IoEdgeHub.Proto.HistRecords

/-!
# Sampling (`sampling.rs`, `adc_math.rs`)

Two tasks read the digital and the analog inputs, put what they read into the input registers and queue
history records.  They run on one executor and do not wait within a turn; between the turns the other tasks
change the holding registers as they like, but not the input registers.

`Observed` is what the tasks are for: the last bitmap, the last reading of each analog channel while it was
enabled, and the records made of these.  The tasks do just that, for any number of turns in any order
(`inputs_read`).
-/

namespace IoEdgeHub

namespace Sampling

/-! ## Conversion -/

/-- `AI_COEFF` -/
def aiCoeff : Vector UInt32 4 := #v[7414, 7414, 3704, 3704]

/-- `ai_convert` -/
def aiConvert (ch : Fin 4) (raw : Int32) : UInt16 :=
  let voltageMv := raw * 3300 / 4096
  (aiCoeff[ch].toUInt64 * voltageMv.toInt64.toUInt64 / 10000).toUInt16

/-- What a channel reads: `raw as i32`, converted. -/
def aiValue (ch : Fin 4) (raw : UInt16) : UInt16 := aiConvert ch raw.toUInt32.toInt32

/-- The interval that is kept. -/
def clampInterval (v : UInt16) : ℕ := if v ≤ 9 then 10 else if v.toNat > 5000 then 5000 else v.toNat

/-! ## Turns -/

/-- The registers after a turn, the record it sends, and how long it waits then. -/
structure Turn where
  regs : RegMap
  record : Option HisData
  delay : ℕ

/-- The test of one bit of an enable register. -/
def bitSet (en : UInt16) (i : ℕ) : Bool := en &&& (1 <<< UInt16.ofNat i) ≠ 0

/-- The bitmap of the enabled inputs. -/
def diValue (en : UInt16) (pins : Fin 16 → Bool) : UInt16 :=
  (List.finRange 16).foldl
    (fun val (i : Fin 16) => if bitSet en i && pins i then val ||| 1 <<< UInt16.ofNat i else val) 0

/-- One turn of `di_task`. -/
def diTurn (now : UInt32) (pins : Fin 16 → Bool) (r : RegMap) : Turn :=
  let si := r.getHolding (UInt16.ofNat holdingDiSampleMsIdx)
  let en := r.getHolding (UInt16.ofNat holdingDiEnableIdx)
  let val := diValue en pins
  { regs := (r.updateInput (UInt16.ofNat inputDiIdx) val).getD r
    record := if en ≠ 0 then some (.di now en val) else none
    delay := clampInterval si }

/-- The macro `sample!`: the channel is read only when it is enabled. -/
def sample (en : UInt16) (raw : Fin 4 → UInt16) (r : RegMap) (i : Fin 4) : RegMap :=
  if bitSet en i then (r.updateInput (UInt16.ofNat (inputAi0Idx + i)) (aiValue i (raw i))).getD r else r

/-- One turn of `ai_task`. -/
def aiTurn (now : UInt32) (raw : Fin 4 → UInt16) (r : RegMap) : Turn :=
  let si := r.getHolding (UInt16.ofNat holdingAiSampleMsIdx)
  let en := r.getHolding (UInt16.ofNat holdingAiEnableIdx)
  let r := (List.finRange 4).foldl (sample en raw) r
  { regs := r
    record :=
      if en &&& 0x000F ≠ 0 then
        some (.ai now (en &&& 0x000F) #v[r.getInput (UInt16.ofNat inputAi0Idx),
          r.getInput (UInt16.ofNat (inputAi0Idx + 1)),
          r.getInput (UInt16.ofNat (inputAi0Idx + 2)), r.getInput (UInt16.ofNat (inputAi0Idx + 3))])
      else none
    delay := clampInterval si }

/-- A turn of a task, or whatever the other tasks do to the holding registers. -/
inductive Act where
  | di (now : UInt32) (pins : Fin 16 → Bool)
  | ai (now : UInt32) (raw : Fin 4 → UInt16)
  | others (holding : Vector UInt16 18)

/-- The registers, and the records sent so far. -/
structure State where
  regs : RegMap
  sent : List HisData

namespace State

/-- The state after a turn. -/
def turned (s : State) (t : Turn) : State := ⟨t.regs, s.sent ++ t.record.toList⟩

/-- A turn, or what the other tasks do. -/
def step (s : State) : Act → State
  | .di now pins => s.turned (diTurn now pins s.regs)
  | .ai now raw => s.turned (aiTurn now raw s.regs)
  | .others holding => { s with regs := { s.regs with holding } }

/-- The registers after boot. -/
def start (versionReg : UInt16) : State := ⟨.new versionReg, []⟩

end State

/-! ## What the tasks are for -/

/-- The channels of the last digital turn that were enabled and high, the last readings of the analog ones, and
the records. -/
structure Observed where
  holding : Vector UInt16 18
  lit : Fin 16 → Bool
  reading : Fin 4 → Option UInt16
  sent : List HisData

/-- The value of a channel; one that was never read is 0. -/
def shown (ch : Fin 4) (reading : Option UInt16) : UInt16 := (reading.map (aiValue ch)).getD 0

/-- A bit for each input. -/
def bitmap (lit : Fin 16 → Bool) : UInt16 := UInt16.ofNat (Nat.ofBits lit)

namespace Observed

/-- The enabled digital inputs. -/
def diEnable (o : Observed) : UInt16 := o.holding[holdingDiEnableIdx]

/-- The enabled analog inputs. -/
def aiEnable (o : Observed) : UInt16 := o.holding[holdingAiEnableIdx]

/-- An input that is enabled and high. -/
def high (o : Observed) (pins : Fin 16 → Bool) (i : Fin 16) : Bool := o.diEnable.toNat.testBit i && pins i

/-- A channel that is not enabled keeps its last reading. -/
def latest (o : Observed) (raw : Fin 4 → UInt16) (i : Fin 4) : Option UInt16 :=
  if o.aiEnable.toNat.testBit i then some (raw i) else o.reading i

/-- The record of a digital turn. -/
def diRecord (o : Observed) (now : UInt32) (pins : Fin 16 → Bool) : Option HisData :=
  if o.diEnable ≠ 0 then some (.di now o.diEnable (bitmap (o.high pins))) else none

/-- The record of an analog turn. -/
def aiRecord (o : Observed) (now : UInt32) (raw : Fin 4 → UInt16) : Option HisData :=
  if o.aiEnable &&& 0x000F ≠ 0 then
    some (.ai now (o.aiEnable &&& 0x000F) (Vector.ofFn fun i => shown i (o.latest raw i)))
  else none

/-- What an act shows. -/
def step (o : Observed) : Act → Observed
  | .di now pins => { o with lit := o.high pins, sent := o.sent ++ (o.diRecord now pins).toList }
  | .ai now raw => { o with reading := o.latest raw, sent := o.sent ++ (o.aiRecord now raw).toList }
  | .others holding => { o with holding }

/-- Nothing was seen yet. -/
def start : Observed := ⟨(RegMap.new 0).holding, fun _ => false, fun _ => none, []⟩

end Observed

/-! ## The conversion in numbers -/

theorem toInt_raw (raw : UInt16) : raw.toUInt32.toInt32.toInt = raw.toNat := by
  have small := raw.toNat_lt
  have same : raw.toUInt32.toInt32.toBitVec.toNat = raw.toNat := UInt16.toNat_toUInt32 raw
  change raw.toUInt32.toInt32.toBitVec.toInt = _
  rw [BitVec.toInt_eq_toNat_of_lt (by rw [same]; omega), same]

theorem toInt_voltage (raw : UInt16) :
    (raw.toUInt32.toInt32 * 3300 / 4096).toInt = ((raw.toNat * 3300 / 4096 : ℕ) : ℤ) := by
  have small := raw.toNat_lt
  have factor : (3300 : Int32).toInt = 3300 := by decide
  have divisor : (4096 : Int32).toInt = ((4096 : ℕ) : ℤ) := by decide
  have product : ((raw.toNat : ℤ) * 3300).bmod (2 ^ 32) = ((raw.toNat * 3300 : ℕ) : ℤ) := by
    rw [Int.bmod_eq_of_le_mul_two (by omega) (by omega)]
    push_cast
    rfl
  rw [Int32.toInt_div, Int32.toInt_mul, toInt_raw, factor, product, divisor, ← Int.ofNat_tdiv,
    Int.bmod_eq_of_le_mul_two (by omega) (by omega)]

theorem toNat_voltage (raw : UInt16) :
    (raw.toUInt32.toInt32 * 3300 / 4096).toInt64.toUInt64.toNat = raw.toNat * 3300 / 4096 := by
  have small := raw.toNat_lt
  have wide : (raw.toUInt32.toInt32 * 3300 / 4096).toInt64.toBitVec.toInt = ((raw.toNat * 3300 / 4096 : ℕ) : ℤ) := by
    rw [← toInt_voltage]
    exact Int32.toInt_toInt64 _
  have cases := BitVec.toInt_eq_toNat_cond (raw.toUInt32.toInt32 * 3300 / 4096).toInt64.toBitVec
  have bound := (raw.toUInt32.toInt32 * 3300 / 4096).toInt64.toBitVec.isLt
  change (raw.toUInt32.toInt32 * 3300 / 4096).toInt64.toBitVec.toNat = _
  rw [wide] at cases
  split_ifs at cases <;> omega

theorem aiCoeff_le (ch : Fin 4) : aiCoeff[ch].toNat ≤ 7414 := by
  revert ch
  decide

/-- No step of the conversion overflows, whatever the converter returns. -/
theorem toNat_aiValue (ch : Fin 4) (raw : UInt16) :
    (aiValue ch raw).toNat = aiCoeff[ch].toNat * (raw.toNat * 3300 / 4096) / 10000 := by
  have small := raw.toNat_lt
  have voltage : raw.toNat * 3300 / 4096 ≤ 52799 := by omega
  have product : aiCoeff[ch].toNat * (raw.toNat * 3300 / 4096) ≤ 7414 * 52799 := Nat.mul_le_mul (aiCoeff_le ch) voltage
  have divisor : (10000 : UInt64).toNat = 10000 := rfl
  rw [aiValue, aiConvert, UInt64.toNat_toUInt16, UInt64.toNat_div, UInt64.toNat_mul, UInt32.toNat_toUInt64,
    toNat_voltage,
    divisor]
  generalize aiCoeff[ch].toNat * (raw.toNat * 3300 / 4096) = total at product
  omega

theorem two_roundings {k : ℕ} (small : k ≤ 10000) (n : ℕ) :
    k * (n / 4096) / 10000 * (4096 * 10000) ≤ k * n ∧ k * n < (k * (n / 4096) / 10000 + 2) * (4096 * 10000) := by
  have low : k * (n / 4096 * 4096) ≤ k * n := Nat.mul_le_mul_left k (Nat.div_mul_le_self n 4096)
  have high : k * n ≤ k * (n / 4096 * 4096 + 4095) := Nat.mul_le_mul_left k (by omega)
  rw [Nat.mul_add] at high
  rw [← Nat.mul_assoc] at low high
  generalize k * (n / 4096) = total at low high ⊢
  omega

/-- The two roundings together take away less than 2. -/
theorem aiValue_close (ch : Fin 4) (raw : UInt16) :
    (aiValue ch raw).toNat * (4096 * 10000) ≤ aiCoeff[ch].toNat * (raw.toNat * 3300) ∧
      aiCoeff[ch].toNat * (raw.toNat * 3300) < ((aiValue ch raw).toNat + 2) * (4096 * 10000) := by
  rw [toNat_aiValue]
  exact two_roundings (Nat.le_trans (aiCoeff_le ch) (by decide)) (raw.toNat * 3300)

/-! ## Bits -/

theorem toNat_bit {i : ℕ} (inside : i < 16) : ((1 : UInt16) <<< UInt16.ofNat i).toNat = 2 ^ i := by
  have count : (UInt16.ofNat i).toNat = i := UInt16.toNat_ofNat_of_lt' (Nat.lt_trans inside (by decide))
  rw [UInt16.toNat_shiftLeft, count, Nat.mod_eq_of_lt inside]
  change 1 <<< i % 2 ^ 16 = 2 ^ i
  rw [Nat.one_shiftLeft]
  exact Nat.mod_eq_of_lt (Nat.pow_lt_pow_right (by decide) inside)

theorem bitSet_eq (en : UInt16) {i : ℕ} (inside : i < 16) : bitSet en i = en.toNat.testBit i := by
  have bits : (en &&& (1 <<< UInt16.ofNat i)).toNat = (en.toNat.testBit i).toNat * 2 ^ i := by
    rw [UInt16.toNat_and, toNat_bit inside, Nat.and_two_pow]
  rw [Bool.eq_iff_iff, bitSet, decide_eq_true_iff, ne_eq, ← UInt16.toNat_inj, bits]
  cases en.toNat.testBit i with
  | false => simp
  | true => simp

theorem testBit_bitmap (lit : Fin 16 → Bool) (i : Fin 16) : (bitmap lit).toNat.testBit i = lit i := by
  have small : (bitmap lit).toNat = Nat.ofBits lit := UInt16.toNat_ofNat_of_lt' (Nat.ofBits_lt_two_pow lit)
  rw [small, Nat.testBit_ofBits_lt lit i i.isLt]

theorem eq_of_testBit_eq {a b : UInt16} (same : ∀ i : Fin 16, a.toNat.testBit i = b.toNat.testBit i) : a = b := by
  apply UInt16.toNat_inj.1
  apply Nat.eq_of_testBit_eq
  intro i
  by_cases inside : i < 16
  · exact same ⟨i, inside⟩
  · have beyond (w : UInt16) : w.toNat.testBit i = false :=
      Nat.testBit_lt_two_pow (Nat.lt_of_lt_of_le w.toNat_lt
        (Nat.pow_le_pow_right (by decide) (Nat.le_of_not_lt inside)))
    rw [beyond, beyond]

theorem testBit_foldl_pins (lit : Fin 16 → Bool) (is : List (Fin 16)) (val : UInt16) (j : Fin 16) :
    (is.foldl (fun val (i : Fin 16) => if lit i then val ||| 1 <<< UInt16.ofNat i else val) val).toNat.testBit j =
      (val.toNat.testBit j || is.contains j && lit j) := by
  induction is generalizing val with
  | nil => simp
  | cons i is ih =>
    rw [List.foldl_cons, ih]
    by_cases on : lit i = true
    · rw [if_pos on, UInt16.toNat_or, toNat_bit i.isLt, Nat.testBit_or, Nat.testBit_two_pow]
      by_cases here : j = i
      · simp [here, on]
      · have other : ¬(i : ℕ) = j := fun same => here (Fin.ext same.symm)
        simp [here, other]
    · rw [if_neg on]
      by_cases here : j = i
      · simp [here, on]
      · simp [here]

theorem diValue_eq (en : UInt16) (pins : Fin 16 → Bool) :
    diValue en pins = bitmap fun i => en.toNat.testBit i && pins i := by
  apply eq_of_testBit_eq
  intro j
  rw [diValue, testBit_foldl_pins (fun i => bitSet en i && pins i), testBit_bitmap, bitSet_eq en j.isLt]
  simp

/-! ## Turns and runs -/

/-- The input registers. -/
def inputs (versionReg : UInt16) (reading : Fin 4 → Option UInt16) (lit : Fin 16 → Bool) : Vector UInt16 6 :=
  (#v[versionReg] ++ Vector.ofFn (fun ch => shown ch (reading ch)) ++ #v[bitmap lit] : Vector UInt16 (1 + 4 + 1))

/-- The registers hold what was seen last. -/
structure Shows (versionReg : UInt16) (o : Observed) (s : State) : Prop where
  holding : s.regs.holding = o.holding
  input : s.regs.input = inputs versionReg o.reading o.lit
  sent : s.sent = o.sent

section Turns

variable {versionReg : UInt16} {holding : Vector UInt16 18} {reading : Fin 4 → Option UInt16} {lit : Fin 16 → Bool}

theorem updateInput_di (lit' : Fin 16 → Bool) :
    (RegMap.mk holding (inputs versionReg reading lit)).updateInput (UInt16.ofNat inputDiIdx) (bitmap lit') =
      some ⟨holding, inputs versionReg reading lit'⟩ := rfl

/-- A reading goes into the register of its channel. -/
theorem updateInput_ai (i : Fin 4) (raw : UInt16) :
    (RegMap.mk holding (inputs versionReg reading lit)).updateInput (UInt16.ofNat (inputAi0Idx + i)) (aiValue i raw) =
      some ⟨holding, inputs versionReg (Function.update reading i (some raw)) lit⟩ := by
  match i with
  | 0 => rfl
  | 1 => rfl
  | 2 => rfl
  | 3 => rfl

theorem getInput_ai (i : Fin 4) :
    (RegMap.mk holding (inputs versionReg reading lit)).getInput (UInt16.ofNat (inputAi0Idx + i)) =
      shown i (reading i) := by
  match i with
  | 0 => rfl
  | 1 => rfl
  | 2 => rfl
  | 3 => rfl

theorem sample_eq (en : UInt16) (raw : Fin 4 → UInt16) (i : Fin 4) :
    sample en raw ⟨holding, inputs versionReg reading lit⟩ i =
      ⟨holding, inputs versionReg
        (Function.update reading i (if en.toNat.testBit i then some (raw i) else reading i)) lit⟩ := by
  rw [sample, bitSet_eq en (Nat.lt_trans i.isLt (by decide))]
  by_cases enabled : en.toNat.testBit i = true
  · rw [if_pos enabled, if_pos enabled, updateInput_ai]
    rfl
  · rw [if_neg enabled, if_neg enabled, Function.update_eq_self]

theorem samples_eq (o : Observed) (raw : Fin 4 → UInt16) :
    (List.finRange 4).foldl (sample o.aiEnable raw) ⟨holding, inputs versionReg o.reading lit⟩ =
      ⟨holding, inputs versionReg (o.latest raw) lit⟩ := by
  change [0, 1, 2, 3].foldl _ _ = _
  simp only [List.foldl_cons, List.foldl_nil, sample_eq]
  congr 2
  funext i
  match i with
  | 0 => rfl
  | 1 => rfl
  | 2 => rfl
  | 3 => rfl

end Turns

section Runs

variable {versionReg : UInt16} {o : Observed} {s : State}

theorem shows_di (shows : Shows versionReg o s) (now : UInt32) (pins : Fin 16 → Bool) :
    Shows versionReg (o.step (.di now pins)) (s.step (.di now pins)) := by
  obtain ⟨⟨holding, input⟩, sent⟩ := s
  obtain ⟨rfl, rfl, rfl⟩ := shows
  have value : diValue o.diEnable pins = bitmap (o.high pins) := diValue_eq _ _
  have turn : diTurn now pins ⟨o.holding, inputs versionReg o.reading o.lit⟩ =
      { regs := ⟨o.holding, inputs versionReg o.reading (o.high pins)⟩
        record := o.diRecord now pins
        delay := clampInterval o.holding[holdingDiSampleMsIdx] } := by
    have enable : (RegMap.mk o.holding (inputs versionReg o.reading o.lit)).getHolding
        (UInt16.ofNat holdingDiEnableIdx) =
      o.diEnable := rfl
    rw [diTurn, enable, value, updateInput_di]
    rfl
  rw [State.step, turn]
  exact ⟨rfl, rfl, rfl⟩

theorem shows_ai (shows : Shows versionReg o s) (now : UInt32) (raw : Fin 4 → UInt16) :
    Shows versionReg (o.step (.ai now raw)) (s.step (.ai now raw)) := by
  obtain ⟨⟨holding, input⟩, sent⟩ := s
  obtain ⟨rfl, rfl, rfl⟩ := shows
  have turn : aiTurn now raw ⟨o.holding, inputs versionReg o.reading o.lit⟩ =
      { regs := ⟨o.holding, inputs versionReg (o.latest raw) o.lit⟩
        record := o.aiRecord now raw
        delay := clampInterval o.holding[holdingAiSampleMsIdx] } := by
    have enable : (RegMap.mk o.holding (inputs versionReg o.reading o.lit)).getHolding
        (UInt16.ofNat holdingAiEnableIdx) =
      o.aiEnable := rfl
    rw [aiTurn, enable, samples_eq]
    rfl
  rw [State.step, turn]
  exact ⟨rfl, rfl, rfl⟩

theorem shows_step (shows : Shows versionReg o s) (act : Act) : Shows versionReg (o.step act) (s.step act) := by
  cases act with
  | di now pins => exact shows_di shows now pins
  | ai now raw => exact shows_ai shows now raw
  | others holding => exact ⟨rfl, shows.input, shows.sent⟩

theorem shows_start (versionReg : UInt16) : Shows versionReg .start (.start versionReg) := by
  have dark : bitmap (fun _ => false) = 0 := by decide
  refine ⟨rfl, ?_, rfl⟩
  change _ = #v[versionReg, 0, 0, 0, 0, bitmap fun _ => false]
  rw [dark]
  rfl

/-- After any turns, with anything the other tasks do in between, the input registers hold the last bitmap and the last
reading of each channel while it was enabled, and the records sent are those made of them. -/
theorem run_shows (versionReg : UInt16) (acts : List Act) :
    Shows versionReg (acts.foldl Observed.step .start) (acts.foldl State.step (.start versionReg)) := by
  induction acts using List.reverseRecOn with
  | nil => exact shows_start versionReg
  | append_singleton acts act ih =>
    rw [List.foldl_append, List.foldl_append]
    exact shows_step ih act

/-- A discrete input is a channel that was enabled and high in the last turn. -/
theorem ioDiscreteRd_eq (shows : Shows versionReg o s) (i : Fin 16) :
    s.regs.ioDiscreteRd (UInt16.ofNat i) = some (o.lit i) := by
  have count : (UInt16.ofNat i).toNat = i := UInt16.toNat_ofNat_of_lt' (Nat.lt_trans i.isLt (by decide))
  have register : s.regs.input[inputDiIdx] = bitmap o.lit := by
    rw [shows.input]
    rfl
  have inside : ¬(UInt16.ofNat i).toNat ≥ diNum := by
    rw [count]
    exact Nat.not_le.2 i.isLt
  have bit : (bitmap o.lit >>> UInt16.ofNat i &&& 1 != 0) = o.lit i := by
    rw [Bytes.bit_uint16, count, Nat.mod_eq_of_lt i.isLt, testBit_bitmap]
  rw [RegMap.ioDiscreteRd, if_neg inside, register, bit]

/-- An analog input is the conversion of the last reading. -/
theorem getInput_eq (shows : Shows versionReg o s) (ch : Fin 4) :
    s.regs.getInput (UInt16.ofNat (inputAi0Idx + ch)) = shown ch (o.reading ch) := by
  obtain ⟨⟨holding, input⟩, sent⟩ := s
  obtain ⟨rfl, rfl, rfl⟩ := shows
  exact getInput_ai ch

/-- The tasks show what they observe: after any turns, with anything the other tasks do in between, the registers
and the records are those of the observations, so a master reads a discrete input as the pin was in the last turn if
its channel was enabled, and an analog input less than 2 below the exact value of the last reading. -/
theorem inputs_read (versionReg : UInt16) (acts : List Act) :
    let o := acts.foldl Observed.step .start
    let s := acts.foldl State.step (.start versionReg)
    Shows versionReg o s ∧
    (∀ i : Fin 16, s.regs.ioDiscreteRd (UInt16.ofNat i) = some (o.lit i)) ∧
    ∀ ch : Fin 4, let v := (s.regs.getInput (UInt16.ofNat (inputAi0Idx + ch))).toNat
      (o.reading ch = none → v = 0) ∧
      ∀ raw, o.reading ch = some raw → v * (4096 * 10000) ≤ aiCoeff[ch].toNat * (raw.toNat * 3300) ∧
        aiCoeff[ch].toNat * (raw.toNat * 3300) < (v + 2) * (4096 * 10000) := by
  intro o s
  have shows : Shows versionReg o s := run_shows versionReg acts
  refine ⟨shows, ioDiscreteRd_eq shows, fun ch => ?_⟩
  rw [getInput_eq shows ch]
  constructor
  · intro unread
    rw [unread]
    rfl
  · intro raw read
    rw [read]
    exact aiValue_close ch raw

end Runs

end Sampling

end IoEdgeHub
