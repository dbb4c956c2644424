import IoEdgeHub.Proto.MbDecode

/-!
# Multi-write requests as single requests

`MbWrites` takes FC15 and FC16 apart into writes to the register map.  Here these are the writes of
FC05 and FC06 requests sent to the same server: `sendUntilRefused` sends them one by one and stops at
the first exception.  FC16 over the two timestamp registers is the write that sets the clock.
-/

namespace IoEdgeHub

open Bytes Run

namespace Mb

/-! ## Requests with one value -/

/-- An FC05 or FC06 request. -/
def singlePdu (fc : UInt8) (addr value : UInt16) : List UInt8 := fc :: (putBe16 addr ++ putBe16 value)

/-- FC05 of one coil. -/
def coilPdu (e : UInt16 × Bool) : List UInt8 := singlePdu mbFc05CoilWr e.1 (if e.2 then 0xFF00 else 0)

/-- FC06 of one register. -/
def regPdu (e : UInt16 × UInt16) : List UInt8 := singlePdu mbFc06HoldingRegWr e.1 e.2

/-- Send the requests in order, up to the first that is answered by an exception; the flag says that
none was. -/
def sendUntilRefused (m : Mb) : List (List UInt8) → Option (Mb × Bool)
  | [] => some (m, true)
  | pdu :: pdus => do
    let (m', n) ← m.process pdu
    if isExceptionRsp (m'.out.take n) then return (m', false) else m'.sendUntilRefused pdus

/-- The requests `pdu` do what the writes `step` do, and an exception is a refused write. -/
def SendsAs {β : Type} (step : RegMap × Hooks → β → Option (RegMap × Hooks)) (pdu : β → List UInt8) : Prop :=
  ∀ (m : Mb) (e : β), 5 ≤ m.out.length → ∃ m' n, m.process (pdu e) = some (m', n) ∧ 5 ≤ m'.out.length ∧
    isExceptionRsp (m'.out.take n) = (step (m.regs, m.hooks) e).isNone ∧
    (m'.regs, m'.hooks) = (step (m.regs, m.hooks) e).getD (m.regs, m.hooks)

theorem sendUntilRefused_eq {β : Type} {step : RegMap × Hooks → β → Option (RegMap × Hooks)}
    {pdu : β → List UInt8} (sends : SendsAs step pdu) (es : List β) {m : Mb} (room : 5 ≤ m.out.length) :
    ∃ m', m.sendUntilRefused (es.map pdu) = some (m', (attempt step es (m.regs, m.hooks)).2) ∧
      (m'.regs, m'.hooks) = (attempt step es (m.regs, m.hooks)).1 := by
  induction es generalizing m with
  | nil => exact ⟨m, rfl, rfl⟩
  | cons e es ih =>
    obtain ⟨m', n, ran, room', refused, effects⟩ := sends m e room
    rw [List.map_cons, sendUntilRefused, ran, attempt]
    simp only [Option.bind_eq_bind, Option.bind_some, refused]
    cases written : step (m.regs, m.hooks) e with
    | none =>
      rw [written] at effects
      exact ⟨m', rfl, effects⟩
    | some s =>
      rw [written] at effects
      obtain ⟨last, sent, final⟩ := ih room'
      rw [show (m'.regs, m'.hooks) = s from effects] at sent final
      exact ⟨last, sent, final⟩

/-- The end of a single write: the exception if it is refused, else the echo. -/
theorem written_sends {m : Mb} (room : 5 ≤ m.out.length) {fc : UInt8} (low : fc &&& 0x80 = 0) (a b : UInt16)
    (code : UInt8) {written : Option (RegMap × Hooks)} {answer : Option (Mb × ℕ)}
    (ends : answer = match written with
      | none => m.excRsp fc code
      | some (regs, hooks) => { m with regs := regs, hooks := hooks }.echo fc a b) :
    ∃ m' n, answer = some (m', n) ∧ 5 ≤ m'.out.length ∧ isExceptionRsp (m'.out.take n) = written.isNone ∧
      (m'.regs, m'.hooks) = written.getD (m.regs, m.hooks) := by
  cases written with
  | none =>
    refine ⟨_, 2, ends.trans (excRsp_eq m.srv m.regs m.hooks (by omega) fc code), ?_, ?_, rfl⟩
    · simp only [List.length_append, List.length_cons, List.length_nil, List.length_drop]
      omega
    · exact bne_iff_ne.2 (exception_bit fc)
  | some s =>
    refine ⟨_, 5, ends.trans (echo_eq m.srv s.1 s.2 room fc a b), ?_, ?_, rfl⟩
    · simp only [List.length_append, List.length_cons, List.length_nil, putBe16]
      omega
    · exact bne_eq_false_iff_eq.2 low

theorem sendsAs_coilPdu : SendsAs writeCoil coilPdu := by
  rintro m ⟨addr, value⟩ room
  have state : ((if value then 0xFF00 else 0 : UInt16) != 0) = value := by cases value <;> rfl
  refine written_sends (m := m.received) room (by decide : mbFc05CoilWr &&& 0x80 = 0) addr
    (if value then 0xFF00 else 0) mbExcIllegalDataAddr ?_
  change m.received.fc05 (putBe16 addr ++ putBe16 _) = _
  simp only [putBe16, List.cons_append, List.nil_append, fc05, getBe16_putBe16, state]
  rfl

theorem sendsAs_regPdu : SendsAs writeReg regPdu := by
  rintro m ⟨addr, value⟩ room
  refine written_sends (m := m.received) room (by decide : mbFc06HoldingRegWr &&& 0x80 = 0) addr value
    mbExcIllegalDataAddr ?_
  change m.received.fc06 (putBe16 addr ++ putBe16 value) = _
  simp only [putBe16, List.cons_append, List.nil_append, fc06, getBe16_putBe16]
  rfl

/-! ## Requests with many values -/

theorem multiWrite_answers {m : Mb} (room : 5 ≤ m.out.length) {fc : UInt8} (low : fc &&& 0x80 = 0)
    (addr qty : UInt16) (regs : RegMap) (hooks : Hooks) (ok : Bool) :
    ∃ m' n, (if ok then { m with regs, hooks }.echo fc addr qty
        else { m with regs, hooks }.excRsp fc mbExcIllegalDataAddr) = some (m', n) ∧
      m'.regs = regs ∧ m'.hooks = hooks ∧ (Accepted m' n ↔ ok = true) := by
  cases ok with
  | true =>
    have ran := echo_eq m.srv regs hooks room fc addr qty
    refine ⟨_, 5, ran, rfl, rfl, fun _ => rfl, fun _ => ⟨by decide, echo_spec low ran⟩⟩
  | false =>
    have ran := excRsp_eq m.srv regs hooks (by omega : 2 ≤ m.out.length) fc mbExcIllegalDataAddr
    exact ⟨_, 2, ran, rfl, rfl, fun accepted => absurd (excRsp_isException ran) accepted.2, nofun⟩

/-- The request `pdu` has the registers and hook calls of these requests sent one by one, and is
accepted just if none of them is refused. -/
def EqualsSingles (m : Mb) (pdu : List UInt8) (singles : List (List UInt8)) : Prop :=
  ∃ m' n s ok, m.process pdu = some (m', n) ∧ m.sendUntilRefused singles = some (s, ok) ∧
    m'.regs = s.regs ∧ m'.hooks = s.hooks ∧ (Accepted m' n ↔ ok = true)

theorem equalsSingles {β : Type} {step : RegMap × Hooks → UInt16 × β → Option (RegMap × Hooks)}
    {pdu : UInt16 × β → List UInt8} (sends : SendsAs step pdu) {m : Mb} (room : 5 ≤ m.out.length)
    {fc : UInt8} (low : fc &&& 0x80 = 0) {d : List UInt8} {addr qty : UInt16} {value : ℕ → β}
    (request : m.process (fc :: d) =
      let r := attempt step (singleWrites addr value 0 qty.toNat) (m.regs, m.hooks)
      let m' := { m.received with regs := r.1.1, hooks := r.1.2 }
      if r.2 then m'.echo fc addr qty else m'.excRsp fc mbExcIllegalDataAddr) :
    EqualsSingles m (fc :: d)
      ((List.range qty.toNat).map fun i => pdu (addr + UInt16.ofNat i, value i)) := by
  obtain ⟨s, sent, effects⟩ := sendUntilRefused_eq sends (singleWrites addr value 0 qty.toNat) room
  have singles : (singleWrites addr value 0 qty.toNat).map pdu =
      (List.range qty.toNat).map fun i => pdu (addr + UInt16.ofNat i, value i) := by
    rw [singleWrites, List.map_map, ← List.range_eq_range']
    rfl
  rw [singles] at sent
  generalize attempt step (singleWrites addr value 0 qty.toNat) (m.regs, m.hooks) = r at *
  obtain ⟨m', n, ran, regs, hooks, accepted⟩ :=
    multiWrite_answers (m := m.received) room low addr qty r.1.1 r.1.2 r.2
  refine ⟨m', n, s, r.2, request.trans ran, sent, ?_, ?_, accepted⟩
  · rw [regs, ← effects]
  · rw [hooks, ← effects]

/-- FC15 is FC05 coil by coil, and FC16 is FC06 register by register. -/
theorem multiWrite_eq_singles (m : Mb) (room : 5 ≤ m.out.length) (d : List UInt8) (addr qty : UInt16)
    (data : List UInt8) :
    (coilsRequest d = some (addr, qty, data) →
      EqualsSingles m (mbFc15CoilsWr :: d) ((List.range qty.toNat).map fun i =>
        singlePdu mbFc05CoilWr (addr + UInt16.ofNat i) (if coilAt data i then 0xFF00 else 0))) ∧
    (regsRequest d = some (addr, qty, data) →
      EqualsSingles m (mbFc16HoldingRegsWr :: d) ((List.range qty.toNat).map fun i =>
        singlePdu mbFc06HoldingRegWr (addr + UInt16.ofNat i) (wordAt data i))) := by
  constructor
  · intro request
    exact equalsSingles sendsAs_coilPdu room (by decide) (fc15_request (m := m.received) request)
  · intro request
    exact equalsSingles sendsAs_regPdu room (by decide) (fc16_request (m := m.received) request)

/-- FC15 of ten coils from coil 3 on, where the sixth is refused, and FC16 of two registers with a
stray byte. -/
theorem multiWrite_eq_singles_bench :
    EqualsSingles bench [0x0F, 0x00, 0x03, 0x00, 0x0A, 0x02, 0x15, 0x01]
      ((List.range 10).map fun i =>
        singlePdu mbFc05CoilWr (3 + UInt16.ofNat i) (if coilAt [0x15, 0x01] i then 0xFF00 else 0)) ∧
    EqualsSingles bench [0x10, 0x00, 0x0A, 0x00, 0x02, 0x05, 0x00, 0x0A, 0x00, 0x01, 0x07]
      ((List.range 2).map fun i =>
        singlePdu mbFc06HoldingRegWr (0x0A + UInt16.ofNat i) (wordAt [0x00, 0x0A, 0x00, 0x01, 0x07] i)) :=
  have room : 5 ≤ bench.out.length := (by decide : 5 ≤ 256).trans_eq List.length_replicate.symm
  ⟨(multiWrite_eq_singles bench room _ 3 10 _).1 rfl, (multiWrite_eq_singles bench room _ 0x0A 2 _).2 rfl⟩

/-! ## The clock -/

theorem toNat_words (hi lo : UInt16) :
    ((hi.toUInt32 <<< 16) ||| lo.toUInt32).toNat = hi.toNat * 65536 + lo.toNat := by
  have high := hi.toNat_lt
  have shifted : (hi.toUInt32 <<< 16).toNat = hi.toNat <<< 16 := by
    rw [UInt32.toNat_shiftLeft, UInt16.toNat_toUInt32, show (16 : UInt32).toNat % 32 = 16 from rfl,
      Nat.shiftLeft_eq, Nat.mod_eq_of_lt (by omega)]
  rw [UInt32.toNat_or, shifted, UInt16.toNat_toUInt32, ← Nat.shiftLeft_add_eq_or_of_lt lo.toNat_lt,
    Nat.shiftLeft_eq]

/-- The two writes of a request for the timestamp registers: only the second calls a hook, and only if it
changes its register. -/
theorem attempt_timestamp (r : RegMap) (hooks : Hooks) (hi lo : UInt16) :
    ∃ r', attempt writeReg [(0x0E, hi), (0x0F, lo)] (r, hooks) =
      ((r', if r.holding[15] = lo then hooks
        else hooks.call (.setTimestamp ((hi.toUInt32 <<< 16) ||| lo.toUInt32))), true) := by
  obtain ⟨r₁, first, high, low⟩ : ∃ r₁ : RegMap, r.ioWriteHolding 0x0E hi hooks = some (r₁, hooks) ∧
      r₁.holding[14] = hi ∧ r₁.holding[15] = r.holding[15] := by
    by_cases same : r.holding[14] = hi
    · exact ⟨r, RegMap.ioWriteHolding_same hooks (by decide) same, same, rfl⟩
    · have quiet : hooks.calls ++ RegMap.holdingCalls r.holding[14] (0x0E : UInt16).toNat hi = hooks.calls :=
        List.append_nil _
      have written := RegMap.ioWriteHolding_new hooks (by decide : (0x0E : UInt16).toNat < 18) same
      rw [quiet] at written
      exact ⟨_, written, by simp [RegMap.heldValue, holdingConfigSaveIdx, holdingRebootIdx], by simp⟩
  have inside : (0x0F : UInt16).toNat < 18 := by decide
  rw [attempt, writeReg, first]
  dsimp only
  rw [attempt, writeReg, ← low]
  by_cases same : r₁.holding[15] = lo
  · rw [RegMap.ioWriteHolding_same hooks inside same, if_pos same]
    exact ⟨r₁, rfl⟩
  · rw [RegMap.ioWriteHolding_new hooks inside same, if_neg same, high]
    exact ⟨_, rfl⟩

/-- A request for both timestamp registers sets the clock just if the low word is a new value of its
register; otherwise nothing is called, however old the time of the device. -/
theorem timestampWrite_effective {m m' : Mb} {d data : List UInt8} {n : ℕ}
    (request : regsRequest d = some (0x0E, 2, data))
    (ran : m.process (mbFc16HoldingRegsWr :: d) = some (m', n)) (accepted : Accepted m' n) :
    ((∃ ts : UInt32, ts.toNat = (wordAt data 0).toNat * 65536 + (wordAt data 1).toNat ∧
        m'.hooks = m.hooks.call (.setTimestamp ts)) ↔ m.regs.holding[15] ≠ wordAt data 1) ∧
    (m.regs.holding[15] = wordAt data 1 → m'.hooks = m.hooks) := by
  obtain ⟨addr, qty, data', request', written⟩ := fc16_accepted (m := m.received) ran accepted
  rw [request] at request'
  cases request'
  obtain ⟨r', both⟩ := attempt_timestamp m.regs m.hooks (wordAt data 0) (wordAt data 1)
  have hooks := congrArg (fun s => s.1.2) (written.symm.trans both)
  dsimp only at hooks
  by_cases same : m.regs.holding[15] = wordAt data 1
  · rw [if_pos same] at hooks
    refine ⟨⟨?_, fun new => absurd same new⟩, fun _ => hooks⟩
    rintro ⟨ts, -, called⟩
    have longer := congrArg (fun h => h.calls.length) (hooks.symm.trans called)
    simp [Hooks.call] at longer
  · rw [if_neg same] at hooks
    exact ⟨⟨fun _ => same, fun _ => ⟨_, toNat_words _ _, hooks⟩⟩, fun old => absurd old same⟩

/-- FC16 that sets the clock to `0x66000000 + lo`. -/
def clockRequest (lo : UInt16) : List UInt8 :=
  [0x10, 0x00, 0x0E, 0x00, 0x02, 0x04, 0x66, 0x00] ++ putBe16 lo

/-- `bench` after `clockRequest lo`. -/
def benchClock (lo : UInt16) (calls : List HookCall) : Mb where
  srv := ⟨#v[1, 0, 0, 1, 0]⟩
  out := [0x10, 0x00, 0x0E, 0x00, 0x02] ++ List.replicate 251 0
  regs := { RegMap.new 0x0300 with holding := ((RegMap.new 0x0300).holding.set 14 0x6600).set 15 lo }
  hooks := ⟨calls, 0⟩

theorem benchClock_accepted (lo : UInt16) (calls : List HookCall) : Accepted (benchClock lo calls) 5 := by
  refine ⟨by decide, ?_⟩
  rintro ⟨-, b, head, bit⟩
  cases head
  exact bit rfl

theorem timestampWrite_effective_bench :
    bench.process (clockRequest 0x1234) = some (benchClock 0x1234 [.setTimestamp 0x66001234], 5) ∧
    ∃ ts : UInt32, ts.toNat = 0x6600 * 65536 + 0x1234 ∧
      (benchClock 0x1234 [.setTimestamp 0x66001234]).hooks = bench.hooks.call (.setTimestamp ts) := by
  have ran : bench.process (clockRequest 0x1234) = some (benchClock 0x1234 [.setTimestamp 0x66001234], 5) := by
    decide +kernel
  have request : regsRequest [0x00, 0x0E, 0x00, 0x02, 0x04, 0x66, 0x00, 0x12, 0x34] =
      some (0x0E, 2, [0x66, 0x00, 0x12, 0x34]) := by decide
  have effective := (timestampWrite_effective request ran (benchClock_accepted _ _)).1.2 (by decide)
  exact ⟨ran, effective⟩

/-- A new device answers the request for `0x66000000` normally and does not set the clock. -/
theorem timestampWrite_lost :
    bench.process (clockRequest 0) = some (benchClock 0 [], 5) ∧ Accepted (benchClock 0 []) 5 ∧
      (benchClock 0 []).hooks.calls = [] :=
  ⟨by decide +kernel, benchClock_accepted 0 [], rfl⟩

end Mb

end IoEdgeHub
