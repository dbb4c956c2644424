import IoEdgeHub.Proto.MbDecode

/-!
# Modbus TCP frames

`mbtcp_adu.rs`: one ADU, that is the seven-byte MBAP header and a PDU.  A foreign protocol id is
answered with a server failure before the decoder sees anything; a broadcast is decoded but not
answered.
-/

namespace IoEdgeHub

open Bytes

/-- Server device failure. -/
def mbExcServerDeviceFailure : UInt8 := 0x04

/-- A greater length is cut to this. -/
def mbtcpMbapLenClamp : UInt16 := 256

/-- The longest reply. -/
def mbtcpAduTxMax : ℕ := mbServerPduMax + 7

/-- The answer to a foreign protocol id. -/
def mbtcpRefuse (out : List UInt8) (transId protoId : UInt16) (unitId fc : UInt8) :
    Option (List UInt8 × ℕ) := do
  let out ← copyIn out 0 (putBe16 transId)
  let out ← copyIn out 2 (putBe16 protoId)
  let out ← copyIn out 4 (putBe16 3)
  let out ← copyIn out 6 [unitId, fc ||| 0x80, mbExcServerDeviceFailure]
  return (out, 9)

/-- The header of a reply to a response PDU that is already in place. -/
def mbtcpReply (out : List UInt8) (transId : UInt16) (unitId : UInt8) (rspLen : ℕ) :
    Option (List UInt8 × ℕ) := do
  let out ← copyIn out 0 (putBe16 transId)
  let out ← copyIn out 2 (putBe16 0)
  let out ← copyIn out 4 (putBe16 (UInt16.ofNat rspLen + 1))
  let out ← put out 6 unitId
  return (out, 7 + rspLen)

/-- The length of the PDU that the header declares, cut to what was received. -/
def mbtcpPduLen (length : UInt16) (received : ℕ) : ℕ :=
  let mbapLen := min length mbtcpMbapLenClamp
  min (if mbapLen ≥ 2 then (mbapLen - 2 + 1).toNat else 1) (received - 7)

/-- Returns the server, the output buffer and the length of the reply, 0 for none. -/
def mbtcpAduProcess (b : MbBus) (adu out : List UInt8) : Option (MbBus × List UInt8 × ℕ) :=
  match adu with
  | t0 :: t1 :: p0 :: p1 :: l0 :: l1 :: unitId :: fc :: _ =>
    if out.length < mbtcpAduTxMax then some (b, out, 0)
    else if getBe16 p0 p1 ≠ 0 then
      (mbtcpRefuse out (getBe16 t0 t1) (getBe16 p0 p1) unitId fc).map (b, ·)
    else
      (slice adu 7 (7 + mbtcpPduLen (getBe16 l0 l1) adu.length)).bind fun pdu =>
        (b.decode pdu (out.drop 7)).bind fun r =>
          let out := out.take 7 ++ r.2.1
          if unitId = 0 ∨ r.2.2 = 0 then some (r.1.count .noResp, out, 0)
          else (mbtcpReply out (getBe16 t0 t1) unitId r.2.2).map (r.1, ·)
  | _ => some (b, out, 0)

/-! ## What comes of an ADU -/

/-- The ADU is complete and of protocol 0, so that it reaches the decoder. -/
def isModbusAdu : List UInt8 → Bool
  | _ :: _ :: p0 :: p1 :: _ :: _ :: _ :: _ :: _ => decide (getBe16 p0 p1 = 0)
  | _ => false

theorem copyIn_ids {out : List UInt8} (room : 4 ≤ out.length) (transId protoId : UInt16) :
    ∃ out', copyIn out 0 (putBe16 transId) = some out' ∧
      copyIn out' 2 (putBe16 protoId) = some (putBe16 transId ++ putBe16 protoId ++ out.drop 4) := by
  have two (x : UInt16) : (putBe16 x).length = 2 := rfl
  have first : copyIn out 0 (putBe16 transId) = some (putBe16 transId ++ out.drop 2) :=
    copyIn_append [] rfl (by rw [two]; omega)
  have second : copyIn (putBe16 transId ++ out.drop 2) 2 (putBe16 protoId) =
      some (putBe16 transId ++ putBe16 protoId ++ out.drop 4) := by
    rw [copyIn_append (putBe16 transId) (show 2 = (putBe16 transId).length from rfl)
      (by rw [two, List.length_drop]; omega), List.drop_drop]
    rfl
  exact ⟨_, first, second⟩

theorem mbtcpRefuse_eq {out : List UInt8} (room : 9 ≤ out.length) (transId protoId : UInt16) (unitId fc : UInt8) :
    mbtcpRefuse out transId protoId unitId fc =
      some (putBe16 transId ++ putBe16 protoId ++ putBe16 3 ++ [unitId, fc ||| 0x80, mbExcServerDeviceFailure] ++
        out.drop 9, 9) := by
  obtain ⟨out', first, second⟩ := copyIn_ids (by omega : 4 ≤ out.length) transId protoId
  generalize ids : putBe16 transId ++ putBe16 protoId = pre at second
  have four : 4 = pre.length := by rw [← ids]; rfl
  have third : copyIn (pre ++ out.drop 4) 4 (putBe16 3) = some (pre ++ putBe16 3 ++ out.drop 6) := by
    rw [copyIn_append pre four (by simp [putBe16]; omega), List.drop_drop]
    rfl
  have fourth : copyIn (pre ++ putBe16 3 ++ out.drop 6) 6 [unitId, fc ||| 0x80, mbExcServerDeviceFailure] =
      some (pre ++ putBe16 3 ++ [unitId, fc ||| 0x80, mbExcServerDeviceFailure] ++ out.drop 9) := by
    rw [copyIn_append (pre ++ putBe16 3) (by simp [putBe16, ← four]) (by simp; omega), List.drop_drop]
    rfl
  simp only [mbtcpRefuse, Option.bind_eq_bind, first, second, third, fourth, Option.bind_some]
  rfl

theorem mbtcpReply_eq {out : List UInt8} (room : 7 ≤ out.length) (transId : UInt16) (unitId : UInt8) (rspLen : ℕ) :
    mbtcpReply out transId unitId rspLen =
      some (putBe16 transId ++ putBe16 0 ++ putBe16 (UInt16.ofNat rspLen + 1) ++ [unitId] ++ out.drop 7,
        7 + rspLen) := by
  obtain ⟨out', first, second⟩ := copyIn_ids (by omega : 4 ≤ out.length) transId 0
  generalize ids : putBe16 transId ++ putBe16 0 = pre at second
  have four : 4 = pre.length := by rw [← ids]; rfl
  have third : copyIn (pre ++ out.drop 4) 4 (putBe16 (UInt16.ofNat rspLen + 1)) =
      some (pre ++ putBe16 (UInt16.ofNat rspLen + 1) ++ out.drop 6) := by
    rw [copyIn_append pre four (by simp [putBe16]; omega), List.drop_drop]
    rfl
  have fourth : put (pre ++ putBe16 (UInt16.ofNat rspLen + 1) ++ out.drop 6) 6 unitId =
      some (pre ++ putBe16 (UInt16.ofNat rspLen + 1) ++ [unitId] ++ out.drop 7) := by
    rw [put_append (pre ++ putBe16 (UInt16.ofNat rspLen + 1)) (by simp [putBe16, ← four])
      (List.ne_nil_of_length_pos (by rw [List.length_drop]; omega)), List.drop_drop]
  simp only [mbtcpReply, Option.bind_eq_bind, first, second, third, fourth, Option.bind_some]
  rfl

theorem toNat_clamp_le (length : UInt16) : (min length mbtcpMbapLenClamp).toNat ≤ 256 := by
  rw [show min length mbtcpMbapLenClamp = if length ≤ mbtcpMbapLenClamp then length else mbtcpMbapLenClamp
    from rfl]
  split
  · rename_i small
    exact UInt16.le_iff_toNat_le.1 small
  · decide

theorem mbtcpPduLen_le (length : UInt16) {received : ℕ} (whole : 8 ≤ received) :
    1 ≤ mbtcpPduLen length received ∧ mbtcpPduLen length received ≤ 255 ∧
      7 + mbtcpPduLen length received ≤ received := by
  have clamp := toNat_clamp_le length
  unfold mbtcpPduLen
  dsimp only
  generalize min length mbtcpMbapLenClamp = len at clamp
  split
  · rename_i two
    have two : 2 ≤ len.toNat := UInt16.le_iff_toNat_le.1 two
    have value : (len - 2 + 1).toNat = len.toNat - 1 := by
      rw [UInt16.toNat_add, UInt16.toNat_sub]
      simp only [UInt16.reduceToNat]
      omega
    rw [value]
    omega
  · omega

/-- An ADU that is not of this protocol leaves the server alone. -/
theorem mbtcpAduProcess_foreign (b : MbBus) {adu out : List UInt8} (room : out.length = mbtcpAduTxMax)
    (foreign : isModbusAdu adu = false) :
    ∃ out' n, mbtcpAduProcess b adu out = some (b, out', n) ∧ out'.length = mbtcpAduTxMax ∧ n ≤ 9 := by
  unfold mbtcpAduProcess
  split
  · rename_i t0 t1 p0 p1 l0 l1 unitId fc rest
    have other : getBe16 p0 p1 ≠ 0 := by simpa [isModbusAdu] using foreign
    have size : mbtcpAduTxMax = 263 := rfl
    rw [if_neg (by omega), if_pos other, mbtcpRefuse_eq (by omega)]
    refine ⟨_, 9, rfl, ?_, le_rfl⟩
    simp [putBe16, room, size]
  · exact ⟨out, 0, rfl, room, by decide⟩

/-- Any other ADU hands a PDU to the decoder; it is answered unless it is a broadcast or the decoder
dropped it. -/
theorem mbtcpAduProcess_modbus (b : MbBus) {adu out : List UInt8} (room : out.length = mbtcpAduTxMax)
    (modbus : isModbusAdu adu = true) :
    ∃ pdu b' rsp n, b.Decoded pdu b' rsp n ∧
      ∃ out', out'.length = mbtcpAduTxMax ∧
        (mbtcpAduProcess b adu out = some (b'.count .noResp, out', 0) ∨
          mbtcpAduProcess b adu out = some (b', out', 7 + n)) := by
  unfold mbtcpAduProcess
  split
  · rename_i t0 t1 p0 p1 l0 l1 unitId fc rest
    have own : getBe16 p0 p1 = 0 := by simpa [isModbusAdu] using modbus
    have whole : 8 ≤ (t0 :: t1 :: p0 :: p1 :: l0 :: l1 :: unitId :: fc :: rest).length := by simp
    obtain ⟨least, most, inside⟩ := mbtcpPduLen_le (getBe16 l0 l1) whole
    generalize t0 :: t1 :: p0 :: p1 :: l0 :: l1 :: unitId :: fc :: rest = bytes at *
    generalize mbtcpPduLen (getBe16 l0 l1) bytes.length = len at *
    have cut := slice_eq (by omega : 7 ≤ 7 + len) inside
    have length : ((bytes.drop 7).take (7 + len - 7)).length = len := by simp; omega
    generalize (bytes.drop 7).take (7 + len - 7) = pdu at cut length
    obtain ⟨b', rsp, n, ran, decoded⟩ := b.decode_decoded
      (List.length_pos_iff.1 (by omega) : pdu ≠ []) (by omega)
      (by simp [room, mbtcpAduTxMax, mbServerPduMax] : (out.drop 7).length = 256)
    refine ⟨pdu, b', rsp, n, decoded, ?_⟩
    rw [if_neg (by omega), if_neg (by simp [own]), cut, Option.bind_some, ran, Option.bind_some]
    dsimp only
    have room' : (out.take 7 ++ rsp).length = mbtcpAduTxMax := by
      simp [room, decoded.length, mbtcpAduTxMax, mbServerPduMax]
    split
    · exact ⟨_, room', .inl rfl⟩
    · have size : mbtcpAduTxMax = 263 := rfl
      rw [mbtcpReply_eq (by omega)]
      refine ⟨_, ?_, .inr rfl⟩
      simp [putBe16, room, decoded.length, size]
  · rename_i other
    exfalso
    unfold isModbusAdu at modbus
    split at modbus
    · exact other _ _ _ _ _ _ _ _ _ rfl
    · cases modbus

/-- An ADU is dealt with within the output buffer. -/
theorem mbtcpAduProcess_total (b : MbBus) (adu : List UInt8) {out : List UInt8}
    (room : out.length = mbtcpAduTxMax) :
    ∃ b' out' n, mbtcpAduProcess b adu out = some (b', out', n) ∧ out'.length = mbtcpAduTxMax ∧
      n ≤ mbtcpAduTxMax := by
  have size : mbtcpAduTxMax = 263 := rfl
  cases modbus : isModbusAdu adu with
  | false =>
    obtain ⟨out', n, ran, length, small⟩ := mbtcpAduProcess_foreign b room modbus
    exact ⟨b, out', n, ran, length, by omega⟩
  | true =>
    obtain ⟨pdu, b', rsp, n, decoded, out', length, ran | ran⟩ := mbtcpAduProcess_modbus b room modbus
    · exact ⟨_, _, _, ran, length, Nat.zero_le _⟩
    · have small := decoded.small
      exact ⟨_, _, _, ran, length, by omega⟩

end IoEdgeHub
