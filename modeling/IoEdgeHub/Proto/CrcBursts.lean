import IoEdgeHub.Proto.ConfigStore
import IoEdgeHub.Proto.MbCounters

/-!
# Errors in what carries a CRC

A configuration record and an RTU frame end in the check word of the bytes before it (`crc32Ieee`,
`crc16Modbus`).  Flipped bits that lie close together are therefore always noticed: within 32 bits
in a record, within 16 in a frame.
-/

namespace IoEdgeHub

open Bytes Crc

/-! ## Configuration records -/

theorem sealed_of_check {rec : List UInt8} (length : rec.length = cfgRecLen)
    (check : leNat ((rec.drop 36).take 4) = (crc32Ieee (rec.take 36)).toNat) :
    Sealed 0xEDB88320#32 0xFFFFFFFF#32 0xFFFFFFFF#32 rec := by
  have four : ((rec.drop 36).take 4).length = 4 := by simp [length, cfgRecLen]
  have back : toLe 4 (leNat ((rec.drop 36).take 4)) = (rec.drop 36).take 4 := by
    simpa only [four] using toLe_leNat ((rec.drop 36).take 4)
  refine ⟨rec.take 36, ?_⟩
  rw [show run 0xEDB88320#32 0xFFFFFFFF#32 (rec.take 36) ^^^ 0xFFFFFFFF#32 = crc32Ieee (rec.take 36) from rfl,
    ← check, show 32 / 8 = 4 from rfl, back, ← List.take_add, List.take_of_length_le (by rw [length]; rfl)]

theorem sealed_encodeRecord (cfg : IoCfg) (gen : UInt32) :
    Sealed 0xEDB88320#32 0xFFFFFFFF#32 0xFFFFFFFF#32 (encodeRecord cfg gen) :=
  ⟨recordBody cfg gen, rfl⟩

/-- A record in which some of the bits within 32 consecutive ones are flipped does not decode. -/
theorem decodeRecord_burst (cfg : IoCfg) (gen : UInt32) (e : Vector UInt8 cfgRecLen)
    (burst : IsBurst 32 e.toList) : decodeRecord (corrupt (encodeRecord cfg gen) e.toList) = none := by
  have same : e.toList.length = (encodeRecord cfg gen).length := by simp
  have length : (corrupt (encodeRecord cfg gen) e.toList).length = cfgRecLen := by simp [corrupt]
  have noticed := (sealed_encodeRecord cfg gen).not_burst (by decide) (by decide) (by decide) same burst
  by_contra decoded
  obtain ⟨⟨c, g⟩, decoded⟩ := Option.ne_none_iff_exists'.1 decoded
  exact noticed (sealed_of_check length (decodeRecord_eq_some decoded).2.2.1)

/-- The lowest bit of the generation. -/
theorem decodeRecord_burst_gen :
    IsBurst 32 ((Vector.replicate 40 0).set 4 1 : Vector UInt8 cfgRecLen).toList ∧
      decodeRecord (corrupt (encodeRecord .defaults 7)
        ((Vector.replicate 40 0).set 4 1 : Vector UInt8 cfgRecLen).toList) = none :=
  have burst : IsBurst 32 ((Vector.replicate 40 0).set 4 1 : Vector UInt8 cfgRecLen).toList :=
    ⟨by decide +kernel, 32, by decide +kernel⟩
  ⟨burst, decodeRecord_burst _ _ _ burst⟩

/-! ## RTU frames -/

theorem putLe16_eq_toLe (v : BitVec 16) : putLe16 ⟨v⟩ = toLe 2 v.toNat := by
  have low : ((⟨v⟩ : UInt16) &&& 0xFF).toUInt8 = UInt8.ofNat v.toNat := toUInt8_and_0xFF ⟨v⟩
  have high : ((⟨v⟩ : UInt16) >>> 8).toUInt8 = UInt8.ofNat (v.toNat / 256) := by
    apply UInt8.toNat_inj.1
    rw [UInt16.toNat_toUInt8, UInt16.toNat_shiftRight, UInt8.toNat_ofNat']
    simp [Nat.shiftRight_eq_div_pow]
  rw [putLe16, low, high]
  rfl

theorem RtuFrame.crcOk_iff_sealed {bs : List UInt8} (two : 2 ≤ bs.length) :
    CrcOk bs ↔ Sealed 0xA001#16 0xFFFF#16 0#16 bs := by
  have word (data : List UInt8) : toLe (16 / 8) (run 0xA001#16 0xFFFF#16 data ^^^ 0#16).toNat = crcLe data := by
    rw [BitVec.xor_zero, crcLe, putLe16_eq_toLe]
    rfl
  constructor
  · intro ok
    refine ⟨bs.take (bs.length - 2), ?_⟩
    rw [word, ← ok, List.take_append_drop]
  · rintro ⟨data, rfl⟩
    rw [word]
    exact crcOk_append data

namespace RtuFrame

/-- A frame whose CRC does not match is counted as such and otherwise ignored. -/
theorem expired_of_not_crcOk (unit : UInt8) {bs : List UInt8} (b : MbBus) (tx : List UInt8)
    (least : 4 ≤ bs.length) (most : bs.length ≤ 256) (bad : ¬ CrcOk bs) :
    expired unit bs b tx = some (((b.count .busMsg).count .crcErr).count .noResp, tx, none) := by
  have wrong : ¬(bs.length < rtuFrameMin ∨ rtuFrameMax < bs.length) := by
    simp only [rtuFrameMin, rtuFrameMax]
    omega
  unfold expired
  rw [if_neg (by rintro rfl; simp at least), if_neg wrong, if_pos bad]

theorem crcErr_of_refused (s : MbServer) :
    (((s.diagCount .busMsg).diagCount .crcErr).diagCount .noResp).diagGet .crcErr =
      if s.diagGet .crcErr = 0xFFFF then 0xFFFF else s.diagGet .crcErr + 1 := by
  rw [MbServer.diagGet_diagCount_ne _ (by decide), MbServer.diagGet_diagCount_self,
    MbServer.diagGet_diagCount_ne _ (by decide)]

/-- A frame in which some of the bits within 16 consecutive ones are flipped is not executed: there is
no reply, registers and hooks stay as they are, and the CRC error is counted. -/
theorem t35Expired_burst {bs e : List UInt8} (least : 4 ≤ bs.length) (most : bs.length ≤ 256)
    (ok : CrcOk bs) (same : e.length = bs.length) (burst : IsBurst 16 e) (f : RtuFrame)
    (chunks : List (List UInt8)) (idle : f.Idle) (cut : chunks.flatten = corrupt bs e) (b : MbBus)
    (tx : Vector UInt8 259) :
    ∃ f' srv, (f.feed chunks).t35Expired b tx.toList = some (f', { b with srv }, tx.toList, none) ∧ f'.Idle ∧
      srv.diagGet .crcErr = if b.srv.diagGet .crcErr = 0xFFFF then 0xFFFF else b.srv.diagGet .crcErr + 1 := by
  have length : (corrupt bs e).length = bs.length := by simp [corrupt, same]
  have bad : ¬ CrcOk (corrupt bs e) := by
    rw [crcOk_iff_sealed (by omega)]
    exact ((crcOk_iff_sealed (by omega)).1 ok).not_burst (by decide) (by decide) (by decide) same burst
  have refused := expired_of_not_crcOk f.srvUnit b tx.toList (by omega) (by omega) bad
  obtain ⟨f', idle', -, ran⟩ := feed_t35Expired refused f chunks idle rfl cut
  exact ⟨f', _, ran, idle', crcErr_of_refused b.srv⟩

/-- A read request of unit 1. -/
def readRequest : List UInt8 := [1, 3, 0, 0, 0, 1] ++ crcLe [1, 3, 0, 0, 0, 1]

/-- One flipped bit makes the request one for unit 3. -/
theorem t35Expired_burst_unit :
    ∃ f' srv, (new.feed [corrupt readRequest [2, 0, 0, 0, 0, 0, 0, 0]]).t35Expired MbBus.fresh
          (Vector.replicate 259 0).toList = some (f', { MbBus.fresh with srv }, (Vector.replicate 259 0).toList, none) ∧
      f'.Idle ∧ srv.diagGet .crcErr =
        if MbBus.fresh.srv.diagGet .crcErr = 0xFFFF then 0xFFFF else MbBus.fresh.srv.diagGet .crcErr + 1 :=
  t35Expired_burst (by decide +kernel : 4 ≤ readRequest.length) (by decide +kernel) (by decide +kernel)
    (by decide +kernel) ⟨by decide +kernel, 0, by decide +kernel⟩ new _ ⟨rfl, rfl⟩ (List.flatten_singleton ..)
    MbBus.fresh _

end RtuFrame

end IoEdgeHub
