import IoEdgeHub.Proto.MbDecode

/-!
# RTU frames

`rtu_frame.rs`: bytes are collected until the line has been silent for t3.5, then checked, filtered by
unit, decoded and answered.  The receive buffer carries its bounds, so a feed cannot leave it.
`expired` says what becomes of the bytes between two expiries; `Holds.t35Expired` shows that the frame
assembler does exactly that, however the bytes were cut and whatever an earlier frame left in the
buffer.
-/

namespace IoEdgeHub

open Bytes

/-- The longest frame. -/
def rtuFrameMax : ℕ := 256

/-- The shortest frame. -/
def rtuFrameMin : ℕ := 4

/-- The receive buffer of the line. -/
structure RtuFrame where
  rxBuf : List UInt8
  rxLen : ℕ
  rxOverflow : Bool
  srvUnit : UInt8
  size : rxBuf.length = rtuFrameMax
  fits : rxLen ≤ rtuFrameMax

/-- The CRC of some bytes as it follows them on the line, low byte first. -/
def crcLe (data : List UInt8) : List UInt8 := putLe16 ⟨crc16Modbus data⟩

/-- The reply frame around a response PDU; returns the buffer and the length of the frame. -/
def rtuReply (tx : List UInt8) (unit : UInt8) (rspPdu : List UInt8) (rspLen : ℕ) :
    Option (List UInt8 × Option ℕ) := do
  let tx ← put tx 0 unit
  let rsp ← slice rspPdu 0 rspLen
  let tx ← copyIn tx 1 rsp
  let head ← slice tx 0 (1 + rspLen)
  let tx ← copyIn tx (1 + rspLen) (crcLe head)
  return (tx, some (rspLen + 3))

/-- Hand a PDU to the decoder and frame its response. -/
def rtuDeliver (b : MbBus) (tx : List UInt8) (unit : UInt8) (pdu : List UInt8) :
    Option (MbBus × List UInt8 × Option ℕ) :=
  (b.decode pdu (List.replicate mbServerPduMax 0)).bind fun r =>
    if r.2.2 = 0 ∨ unit = 0 then some (r.1.count .noResp, tx, none)
    else (rtuReply tx unit r.2.1 r.2.2).map fun reply => (r.1, reply)

namespace RtuFrame

/-- `RtuFrame::new` -/
def new : RtuFrame := ⟨List.replicate rtuFrameMax 0, 0, false, 1, List.length_replicate, Nat.zero_le _⟩

/-- An empty buffer. -/
def reset (f : RtuFrame) : RtuFrame := { f with rxLen := 0, rxOverflow := false, fits := Nat.zero_le _ }

/-- The unit to answer for. -/
def bind (f : RtuFrame) (unit : UInt8) : RtuFrame := { f with srvUnit := unit }.reset

/-- `rx_feed` -/
def rxFeed (f : RtuFrame) (bytes : List UInt8) : RtuFrame :=
  if bytes.isEmpty || f.rxOverflow then f
  else
    let take := min bytes.length (rtuFrameMax - f.rxLen)
    { f with
      rxBuf := f.rxBuf.take f.rxLen ++ bytes.take take ++ f.rxBuf.drop (f.rxLen + take)
      rxLen := f.rxLen + take
      rxOverflow := decide (take < bytes.length)
      size := by
        have := f.size
        have := f.fits
        simp only [List.length_append, List.length_take, List.length_drop]
        omega
      fits := by
        have := f.fits
        omega }

/-- The bytes arrive in several feeds. -/
def feed (f : RtuFrame) (chunks : List (List UInt8)) : RtuFrame := chunks.foldl rxFeed f

/-- Returns the assembler, the server, the transmit buffer and the length of the reply in it. -/
def t35Expired (f : RtuFrame) (b : MbBus) (tx : List UInt8) :
    Option (RtuFrame × MbBus × List UInt8 × Option ℕ) :=
  let len := f.rxLen
  let rx := f.rxBuf
  if len = 0 then some (f.reset, b, tx, none)
  else if f.rxOverflow || len < rtuFrameMin then
    some (f.reset, (b.count .busMsg).count .noResp, tx, none)
  else do
    let unit ← rx[0]?
    let lo ← rx[len - 2]?
    let hi ← rx[len - 1]?
    let body ← slice rx 0 (len - 2)
    if getLe16 lo hi ≠ ⟨crc16Modbus body⟩ then
      return (f.reset, ((b.count .busMsg).count .crcErr).count .noResp, tx, none)
    else if unit ≠ 0 ∧ unit ≠ f.srvUnit then
      return (f.reset, (b.count .busMsg).count .noResp, tx, none)
    else
      let pdu ← slice rx 1 (len - 2)
      (rtuDeliver b tx unit pdu).map fun r => (f.reset, r)

/-! ## Feeding -/

/-- The bytes of the frame so far. -/
def received (f : RtuFrame) : List UInt8 := f.rxBuf.take f.rxLen

/-- No byte of a frame has come in. -/
def Idle (f : RtuFrame) : Prop := f.rxLen = 0 ∧ f.rxOverflow = false

/-- The assembler of unit `unit` has been fed `bs` since the last expiry. -/
structure Holds (f : RtuFrame) (unit : UInt8) (bs : List UInt8) : Prop where
  unit : f.srvUnit = unit
  received : f.received = bs.take rtuFrameMax
  overflow : f.rxOverflow = decide (rtuFrameMax < bs.length)

theorem Idle.holds {f : RtuFrame} (idle : f.Idle) : f.Holds f.srvUnit [] := by
  refine ⟨rfl, ?_, idle.2⟩
  rw [RtuFrame.received, idle.1]
  rfl

theorem idle_reset (f : RtuFrame) : f.reset.Idle := ⟨rfl, rfl⟩

variable {f : RtuFrame} {unit : UInt8} {bs : List UInt8}

theorem length_received (f : RtuFrame) : f.received.length = f.rxLen := by
  have := f.size
  have := f.fits
  rw [received, List.length_take]
  omega

theorem Holds.rxLen (holds : f.Holds unit bs) : f.rxLen = min bs.length rtuFrameMax := by
  rw [← length_received, holds.received, List.length_take, Nat.min_comm]

theorem Holds.rxFeed (holds : f.Holds unit bs) (bytes : List UInt8) :
    (f.rxFeed bytes).Holds unit (bs ++ bytes) := by
  have len := holds.rxLen
  have flag := holds.overflow
  unfold RtuFrame.rxFeed
  by_cases full : rtuFrameMax < bs.length
  · -- already overflown: the bytes are dropped
    rw [decide_eq_true full] at flag
    rw [flag, Bool.or_true, if_pos rfl]
    refine ⟨holds.unit, ?_, ?_⟩
    · rw [holds.received, List.take_append_of_le_length (by omega)]
    · rw [flag, List.length_append, eq_comm, decide_eq_true_eq]
      omega
  · rw [decide_eq_false full] at flag
    have whole : f.received = bs := by
      rw [holds.received, List.take_of_length_le (by omega)]
    rw [flag, Bool.or_false]
    split
    · rename_i empty
      rw [List.isEmpty_iff.1 empty, List.append_nil]
      exact holds
    · refine ⟨holds.unit, ?_, ?_⟩
      · simp only [RtuFrame.received] at whole ⊢
        rw [whole, len, Nat.min_eq_left (by omega), List.take_left' (by simp), List.take_append,
          List.take_of_length_le (by omega : bs.length ≤ rtuFrameMax), Nat.min_comm,
          ← List.take_eq_take_min]
      · simp only [List.length_append, len]
        apply decide_eq_decide.2
        omega

theorem Holds.feed (holds : f.Holds unit bs) (chunks : List (List UInt8)) :
    (f.feed chunks).Holds unit (bs ++ chunks.flatten) := by
  induction chunks generalizing f bs with
  | nil => simpa [RtuFrame.feed] using holds
  | cons c chunks ih =>
    have rest := ih (holds.rxFeed c)
    rwa [List.append_assoc] at rest

/-! ## An expiry -/

/-- The last two bytes are the CRC of the rest. -/
def CrcOk (bs : List UInt8) : Prop := bs.drop (bs.length - 2) = crcLe (bs.take (bs.length - 2))

instance (bs : List UInt8) : Decidable (CrcOk bs) := inferInstanceAs (Decidable (_ = _))

/-- What an expiry makes of the bytes `bs` since the one before. -/
def expired (unit : UInt8) (bs : List UInt8) (b : MbBus) (tx : List UInt8) :
    Option (MbBus × List UInt8 × Option ℕ) :=
  if bs = [] then some (b, tx, none)
  else if bs.length < rtuFrameMin ∨ rtuFrameMax < bs.length then
    some ((b.count .busMsg).count .noResp, tx, none)
  else if ¬ CrcOk bs then some (((b.count .busMsg).count .crcErr).count .noResp, tx, none)
  else if bs.head? ≠ some 0 ∧ bs.head? ≠ some unit then some ((b.count .busMsg).count .noResp, tx, none)
  else rtuDeliver b tx (bs.headD 0) ((bs.drop 1).take (bs.length - 3))

theorem drop_sub_two {bs : List UInt8} (two : 2 ≤ bs.length) {lo hi : UInt8}
    (first : bs[bs.length - 2]? = some lo) (last : bs[bs.length - 1]? = some hi) :
    bs.drop (bs.length - 2) = [lo, hi] := by
  obtain ⟨_, rfl⟩ := List.getElem?_eq_some_iff.1 first
  obtain ⟨_, rfl⟩ := List.getElem?_eq_some_iff.1 last
  rw [List.drop_eq_getElem_cons (by omega), List.drop_eq_getElem_cons (by omega), List.drop_of_length_le (by omega)]
  congr 3
  omega

/-- As long as nothing was dropped, the bytes are the beginning of the buffer. -/
theorem Holds.buffer (holds : f.Holds unit bs) (most : bs.length ≤ rtuFrameMax) :
    ∃ rest, f.rxBuf = bs ++ rest := by
  refine ⟨f.rxBuf.drop f.rxLen, ?_⟩
  have whole := holds.received
  rw [RtuFrame.received, List.take_of_length_le most] at whole
  rw [← whole, List.take_append_drop]

theorem Holds.t35Expired (holds : f.Holds unit bs) (b : MbBus) (tx : List UInt8) :
    f.t35Expired b tx = (expired unit bs b tx).map (f.reset, ·) := by
  have len := holds.rxLen
  have flag := holds.overflow
  unfold RtuFrame.t35Expired expired
  by_cases empty : bs = []
  · rw [if_pos (by simp [len, empty]), if_pos empty]
    rfl
  have pos : 0 < bs.length := List.length_pos_iff.2 empty
  have most : rtuFrameMax = 256 := rfl
  have least : rtuFrameMin = 4 := rfl
  rw [if_neg (by omega), if_neg empty]
  by_cases wrong : bs.length < rtuFrameMin ∨ rtuFrameMax < bs.length
  · rw [if_pos (by simp [flag]; omega), if_pos wrong]
    rfl
  rw [if_neg (by simp [flag]; omega), if_neg wrong, len, Nat.min_eq_left (by omega)]
  obtain ⟨rest, buffer⟩ := holds.buffer (by omega)
  obtain ⟨u, us, rfl⟩ := List.exists_cons_of_ne_nil empty
  generalize bytes : u :: us = bs at *
  have first : bs[0]? = some u := by rw [← bytes]; rfl
  obtain ⟨lo, low⟩ : ∃ lo, bs[bs.length - 2]? = some lo := ⟨_, List.getElem?_eq_getElem (by omega)⟩
  obtain ⟨hi, high⟩ : ∃ hi, bs[bs.length - 1]? = some hi := ⟨_, List.getElem?_eq_getElem (by omega)⟩
  have check : getLe16 lo hi ≠ ⟨crc16Modbus (bs.take (bs.length - 2))⟩ ↔ ¬ CrcOk bs := by
    rw [CrcOk, drop_sub_two (by omega) low high, crcLe, ← getLe16_eq_iff]
  have body : slice f.rxBuf 0 (bs.length - 2) = some (bs.take (bs.length - 2)) := by
    rw [buffer, slice_append_left (by omega) (by omega), slice_eq (by omega) (by omega)]
    rfl
  have pdu : slice f.rxBuf 1 (bs.length - 2) = some ((bs.drop 1).take (bs.length - 3)) := by
    rw [buffer, slice_append_left (by omega) (by omega), slice_eq (by omega) (by omega)]
    rfl
  have byte (i : ℕ) (inside : i < bs.length) : f.rxBuf[i]? = bs[i]? := by
    rw [buffer, List.getElem?_append_left inside]
  have headD : bs.headD 0 = u := by rw [← bytes]; rfl
  have other : (bs.head? ≠ some 0 ∧ bs.head? ≠ some unit) ↔ (u ≠ 0 ∧ u ≠ f.srvUnit) := by
    rw [← bytes, holds.unit]
    simp
  simp only [byte 0 pos, byte (bs.length - 2) (by omega), byte (bs.length - 1) (by omega), first, low, high,
    body, pdu, Option.bind_eq_bind, Option.bind_some, check, other, headD]
  split_ifs <;> rfl

/-! ## Replies -/

theorem rtuReply_eq {tx rsp : List UInt8} {n : ℕ} (room : tx.length = 259) (size : rsp.length = 256)
    (small : n ≤ 252) (unit : UInt8) :
    ∃ tx', rtuReply tx unit rsp n = some (tx', some (n + 3)) ∧ tx'.length = 259 ∧
      tx'.take (n + 3) = (unit :: rsp.take n) ++ crcLe (unit :: rsp.take n) := by
  have len : (rsp.take n).length = n := by simp; omega
  have first : put tx 0 unit = some (tx.set 0 unit) := if_pos (by omega)
  have pdu : slice rsp 0 n = some (rsp.take n) := slice_eq (Nat.zero_le _) (by omega)
  obtain ⟨tx₁, copied₁⟩ : ∃ o, copyIn (tx.set 0 unit) 1 (rsp.take n) = some o := ⟨_, if_pos (by simp; omega)⟩
  have len₁ : tx₁.length = 259 := (length_copyIn copied₁).trans (by simpa using room)
  have head₁ : tx₁.take (1 + n) = unit :: rsp.take n := by
    have whole := take_copyIn copied₁
    obtain ⟨t, ts, rfl⟩ := List.exists_cons_of_length_pos (by omega : 0 < tx.length)
    rwa [len] at whole
  have body : slice tx₁ 0 (1 + n) = some (unit :: rsp.take n) := by
    rw [slice_eq (Nat.zero_le _) (by omega), Nat.sub_zero, List.drop_zero, head₁]
  obtain ⟨tx₂, copied₂⟩ : ∃ o, copyIn tx₁ (1 + n) (crcLe (unit :: rsp.take n)) = some o :=
    ⟨_, if_pos (by simp [crcLe, putLe16]; omega)⟩
  have whole := take_copyIn copied₂
  refine ⟨tx₂, ?_, (length_copyIn copied₂).trans len₁, ?_⟩
  · simp only [rtuReply, Option.bind_eq_bind, first, pdu, copied₁, body, copied₂, Option.bind_some]
    rfl
  · rw [head₁] at whole
    rw [← whole]
    congr 1
    simp only [crcLe, putLe16, List.length_cons, List.length_nil]
    omega

theorem crcOk_append (data : List UInt8) : CrcOk (data ++ crcLe data) := by
  have two : (data ++ crcLe data).length - 2 = data.length := by simp [crcLe, putLe16]
  rw [CrcOk, two, List.drop_left, List.take_left]

/-- What becomes of a PDU that is handed to the decoder. -/
theorem rtuDeliver_eq (b : MbBus) {tx pdu : List UInt8} (room : tx.length = 259) (nonempty : pdu ≠ [])
    (short : pdu.length ≤ 256) (unit : UInt8) :
    ∃ b' out n, b.decode pdu (List.replicate mbServerPduMax 0) = some (b', out, n) ∧ b.Decoded pdu b' out n ∧
      if n = 0 ∨ unit = 0 then rtuDeliver b tx unit pdu = some (b'.count .noResp, tx, none)
      else ∃ tx', rtuDeliver b tx unit pdu = some (b', tx', some (n + 3)) ∧ tx'.length = 259 ∧
        tx'.take (n + 3) = (unit :: out.take n) ++ crcLe (unit :: out.take n) := by
  obtain ⟨b', out, n, ran, decoded⟩ := b.decode_decoded nonempty short (List.length_replicate (n := mbServerPduMax))
  refine ⟨b', out, n, ran, decoded, ?_⟩
  rw [rtuDeliver, ran, Option.bind_some]
  split
  · rfl
  · obtain ⟨tx', replied, length, frame⟩ := rtuReply_eq room decoded.length decoded.small unit
    exact ⟨tx', by rw [replied]; rfl, length, frame⟩

/-- The frame is handed to the decoder. -/
structure Accepts (unit : UInt8) (bs : List UInt8) : Prop where
  least : 4 ≤ bs.length
  most : bs.length ≤ 256
  crc : CrcOk bs
  addressed : bs.head? = some 0 ∨ bs.head? = some unit

/-- A frame that is not accepted is counted at most. -/
theorem expired_of_not_accepts {unit : UInt8} {bs : List UInt8} (b : MbBus) (tx : List UInt8)
    (refused : ¬ Accepts unit bs) :
    ∃ srv, expired unit bs b tx = some ({ b with srv }, tx, none) := by
  unfold expired
  split
  · exact ⟨_, rfl⟩
  split
  · exact ⟨_, rfl⟩
  rename_i wrong
  split
  · exact ⟨_, rfl⟩
  rename_i bad
  split
  · exact ⟨_, rfl⟩
  rename_i other
  refine absurd ⟨?_, ?_, not_not.1 bad, ?_⟩ refused
  · exact Nat.le_of_not_lt fun short => wrong (.inl short)
  · exact Nat.le_of_not_lt fun long => wrong (.inr long)
  · by_contra neither
    exact other (not_or.1 neither)

theorem expired_of_accepts {unit : UInt8} {bs : List UInt8} (b : MbBus) (tx : List UInt8)
    (accepts : Accepts unit bs) :
    expired unit bs b tx = rtuDeliver b tx (bs.headD 0) ((bs.drop 1).take (bs.length - 3)) := by
  obtain ⟨least, most, crc, addressed⟩ := accepts
  have wrong : ¬(bs.length < rtuFrameMin ∨ rtuFrameMax < bs.length) := by
    simp only [rtuFrameMin, rtuFrameMax]
    omega
  unfold expired
  rw [if_neg (by rintro rfl; simp at least), if_neg wrong, if_neg (not_not.2 crc), if_neg ?_]
  rintro ⟨broadcast, other⟩
  exact addressed.elim broadcast other

/-- An expiry after the bytes `bs`, in whatever pieces they came. -/
theorem feed_t35Expired {b : MbBus} {tx : List UInt8} {r : MbBus × List UInt8 × Option ℕ}
    (ran : expired unit bs b tx = some r) (f : RtuFrame) (chunks : List (List UInt8)) (idle : f.Idle)
    (own : f.srvUnit = unit) (cut : chunks.flatten = bs) :
    ∃ f', f'.Idle ∧ f'.srvUnit = unit ∧ (f.feed chunks).t35Expired b tx = some (f', r) := by
  have holds := (own ▸ idle.holds).feed chunks
  rw [List.nil_append, cut] at holds
  refine ⟨(f.feed chunks).reset, idle_reset _, holds.unit, ?_⟩
  rw [holds.t35Expired, ran]
  rfl

/-- For every unit, every byte string between two expiries and every cut of it into feeds, an expiry
comes to the same result.  The PDU in the frame goes to the decoder exactly if the frame is accepted;
otherwise registers and hooks stay as they are and there is no reply.  A reply carries the unit of the
request and would itself be accepted by length and CRC. -/
theorem t35Expired_acceptance (unit : UInt8) (bs : List UInt8) (b : MbBus) (tx : Vector UInt8 259) :
    ∃ b' tx' reply,
      (∀ f : RtuFrame, ∀ chunks, f.Idle → f.srvUnit = unit → chunks.flatten = bs →
        ∃ f', f'.Idle ∧ f'.srvUnit = unit ∧
          (f.feed chunks).t35Expired b tx.toList = some (f', b', tx', reply)) ∧
      (Accepts unit bs → ∃ m n, let pdu := (bs.drop 1).take (bs.length - 3)
        Mb.process ⟨b.srv, List.replicate 256 0, b.regs, b.hooks⟩ pdu = some (m, n) ∧
          b'.decoded = b.decoded ++ [(pdu, m.out.take n)] ∧ b'.regs = m.regs ∧ b'.hooks = m.hooks ∧
          (reply = none ↔ n = 0 ∨ bs.head? = some 0)) ∧
      (¬ Accepts unit bs → b'.decoded = b.decoded ∧ b'.regs = b.regs ∧ b'.hooks = b.hooks ∧ reply = none) ∧
      (∀ k, reply = some k → k ≤ 259 ∧ tx'.length = 259 ∧ (tx'.take k).head? = bs.head? ∧
        4 ≤ k ∧ k ≤ 256 ∧ CrcOk (tx'.take k)) := by
  by_cases accepts : Accepts unit bs
  · have least := accepts.least
    have most := accepts.most
    obtain ⟨u, us, rfl⟩ := List.exists_cons_of_length_pos (by omega : 0 < bs.length)
    have length : ((us.take ((u :: us).length - 3))).length = (u :: us).length - 3 := by
      simp only [List.length_take, List.length_cons]
      omega
    have nonempty : us.take ((u :: us).length - 3) ≠ [] := List.length_pos_iff.1 (by omega)
    obtain ⟨b', out, n, decoded, spec, delivered⟩ :=
      rtuDeliver_eq b (by simp : tx.toList.length = 259) nonempty (by omega) u
    obtain ⟨⟨m, n⟩, ran, result⟩ := Option.map_eq_some_iff.1 decoded
    cases result
    have expires := expired_of_accepts b tx.toList accepts
    have broadcast : (u :: us).head? = some 0 ↔ u = 0 := by simp
    split at delivered
    · rename_i silent
      refine ⟨_, _, _, feed_t35Expired (expires.trans delivered), fun _ => ⟨m, n, ran, rfl, rfl, rfl, ?_⟩,
        fun no => absurd accepts no, by simp⟩
      rw [broadcast]
      exact iff_of_true rfl silent
    · rename_i answered
      obtain ⟨tx', delivered, room, frame⟩ := delivered
      refine ⟨_, _, _, feed_t35Expired (expires.trans delivered), fun _ => ⟨m, n, ran, rfl, rfl, rfl, ?_⟩,
        fun no => absurd accepts no, ?_⟩
      · rw [broadcast]
        exact iff_of_false (by simp) answered
      · rintro k replied
        cases replied
        have small := spec.small
        have pos : 0 < n := Nat.pos_of_ne_zero fun zero => answered (.inl zero)
        rw [frame]
        exact ⟨by omega, room, rfl, by omega, by omega, crcOk_append _⟩
  · obtain ⟨srv, ran⟩ := expired_of_not_accepts b tx.toList accepts
    exact ⟨_, _, _, feed_t35Expired ran, fun yes => absurd yes accepts, fun _ => ⟨rfl, rfl, rfl, rfl⟩, by simp⟩

end RtuFrame

end IoEdgeHub
