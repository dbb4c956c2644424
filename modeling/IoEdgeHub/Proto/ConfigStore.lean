import Mathlib.Tactic.IntervalCases
import IoEdgeHub.Proto.Wire

/-!
# The configuration record

`config_store.rs`: the A/B slot record `IOCF`, its generation and its CRC.  A record is
`[magic 4][generation 4][length 2][13 words 26][crc32 4]`, all little-endian.
-/

namespace IoEdgeHub

open Bytes

/-- `CFG_SLOT_SIZE` -/
def cfgSlotSize : ℕ := 0x8000

/-- The first slot. -/
def cfgSlotA : ℕ := 0x000E0000

/-- The second slot. -/
def cfgSlotB : ℕ := cfgSlotA + cfgSlotSize

/-- `"IOCF"` -/
def cfgMagic : List UInt8 := [0x49, 0x4F, 0x43, 0x46]

/-- Magic, version, length and generation. -/
def cfgHdrLen : ℕ := 10

/-- Where the CRC stands. -/
def cfgCrcOff : ℕ := 36

/-- The length of a record. -/
def cfgRecLen : ℕ := 40

/-- The persisted configuration. -/
structure IoCfg where
  diEn : UInt16
  aiEn : UInt16
  diSi : UInt16
  aiSi : UInt16
  his : UInt16
  canId : UInt16
  canBps : UInt16
  rs485Bps : UInt16
  slaveId : UInt16
  ip : Vector UInt16 4
  deriving DecidableEq, Repr

namespace IoCfg

/-- Factory defaults. -/
def defaults : IoCfg where
  diEn := 0xFFFF
  aiEn := 0x000F
  diSi := 200
  aiSi := 200
  his := 0
  canId := 0x0111
  canBps := 250
  rs485Bps := 9600
  slaveId := 1
  ip := #v[192, 168, 12, 101]

/-- The thirteen words in their order. -/
def words (c : IoCfg) : List UInt16 :=
  [c.diEn, c.aiEn, c.diSi, c.aiSi, c.his, c.canId, c.canBps, c.rs485Bps, c.slaveId,
    c.ip[0], c.ip[1], c.ip[2], c.ip[3]]

/-- `IoCfg::to_bytes` -/
def toBytes (c : IoCfg) : List UInt8 := c.words.flatMap fun w => toLe 2 w.toNat

/-- `IoCfg::from_bytes` -/
def fromBytes (b : List UInt8) : IoCfg :=
  let w (i : ℕ) : UInt16 := UInt16.ofNat (leNat ((b.drop (2 * i)).take 2))
  { diEn := w 0, aiEn := w 1, diSi := w 2, aiSi := w 3, his := w 4, canId := w 5, canBps := w 6,
    rs485Bps := w 7, slaveId := w 8, ip := #v[w 9, w 10, w 11, w 12] }

@[simp] theorem length_toBytes (c : IoCfg) : c.toBytes.length = 26 := rfl

theorem word_toLe (w : UInt16) : UInt16.ofNat (leNat (toLe 2 w.toNat)) = w := by
  rw [leNat_toLe_of_lt w.toNat_lt]
  exact UInt16.ofNat_toNat

theorem fromBytes_toBytes (c : IoCfg) : fromBytes c.toBytes = c := by
  obtain ⟨_, _, _, _, _, _, _, _, _, ip⟩ := c
  simp only [fromBytes, IoCfg.mk.injEq]
  refine ⟨word_toLe _, word_toLe _, word_toLe _, word_toLe _, word_toLe _, word_toLe _,
    word_toLe _, word_toLe _, word_toLe _, ?_⟩
  refine Vector.ext fun i hi => ?_
  interval_cases i <;> exact word_toLe _

theorem toLe_word {two : List UInt8} (length : two.length = 2) :
    toLe 2 (UInt16.ofNat (leNat two)).toNat = two := by
  have small : leNat two < 2 ^ 16 := by simpa [length] using leNat_lt two
  rw [UInt16.toNat_ofNat_of_lt' small, ← length]
  exact toLe_leNat two

theorem toBytes_fromBytes {b : List UInt8} (length : b.length = 26) : (fromBytes b).toBytes = b := by
  have words : (fromBytes b).words =
      (List.range 13).map fun i => UInt16.ofNat (leNat ((b.drop (2 * i)).take 2)) := rfl
  have piece : ∀ i ∈ List.range 13,
      toLe 2 (UInt16.ofNat (leNat ((b.drop (2 * i)).take 2))).toNat = (b.drop (2 * i)).take 2 := by
    intro i hi
    apply toLe_word
    rw [List.mem_range] at hi
    rw [List.length_take, List.length_drop]
    omega
  rw [toBytes, words, List.flatMap_map, List.flatMap_def, List.map_congr_left piece, ← List.flatMap_def,
    flatMap_pieces, List.take_of_length_le (by omega)]

end IoCfg

/-- Everything of a record but its CRC. -/
def recordBody (cfg : IoCfg) (gen : UInt32) : List UInt8 :=
  cfgMagic ++ (toLe 4 gen.toNat ++ (toLe 2 26 ++ cfg.toBytes))

/-- `encode_record` -/
def encodeRecord (cfg : IoCfg) (gen : UInt32) : List UInt8 :=
  recordBody cfg gen ++ toLe 4 (crc32Ieee (recordBody cfg gen)).toNat

/-- Validate and decode a raw 40-byte slot record. -/
def decodeRecord (rec : List UInt8) : Option (IoCfg × UInt32) :=
  if rec.take 4 ≠ cfgMagic then none
  else if leNat ((rec.drop 8).take 2) ≠ 26 then none
  else if leNat ((rec.drop 36).take 4) ≠ (crc32Ieee (rec.take 36)).toNat then none
  else some (IoCfg.fromBytes ((rec.drop 10).take 26), UInt32.ofNat (leNat ((rec.drop 4).take 4)))

/-- Erase slot A, then slot B, with the `erase` of the flash. -/
def configStoreEraseAll {σ : Type} (erase : σ → ℕ → ℕ → σ × Bool) (f : σ) : σ × Bool :=
  match erase f cfgSlotA cfgSlotSize with
  | (f, false) => (f, false)
  | (f, true) => erase f cfgSlotB cfgSlotSize

/-! ## Codec -/

@[simp] theorem length_recordBody (cfg : IoCfg) (gen : UInt32) : (recordBody cfg gen).length = 36 := by
  simp [recordBody, cfgMagic]

@[simp] theorem length_encodeRecord (cfg : IoCfg) (gen : UInt32) :
    (encodeRecord cfg gen).length = cfgRecLen := by
  simp [encodeRecord, cfgRecLen]

theorem drop_recordBody_gen (cfg : IoCfg) (gen : UInt32) (rest : List UInt8) :
    (recordBody cfg gen ++ rest).drop 4 = toLe 4 gen.toNat ++ (toLe 2 26 ++ (cfg.toBytes ++ rest)) := by
  simp only [recordBody, List.append_assoc]
  exact List.drop_left' rfl

theorem drop_recordBody_len (cfg : IoCfg) (gen : UInt32) (rest : List UInt8) :
    (recordBody cfg gen ++ rest).drop 8 = toLe 2 26 ++ (cfg.toBytes ++ rest) := by
  rw [show 8 = 4 + 4 from rfl, ← List.drop_drop, drop_recordBody_gen]
  exact List.drop_left' (length_toLe ..)

theorem drop_recordBody_cfg (cfg : IoCfg) (gen : UInt32) (rest : List UInt8) :
    (recordBody cfg gen ++ rest).drop 10 = cfg.toBytes ++ rest := by
  rw [show 10 = 8 + 2 from rfl, ← List.drop_drop, drop_recordBody_len]
  exact List.drop_left' (length_toLe ..)

theorem decodeRecord_encodeRecord (cfg : IoCfg) (gen : UInt32) :
    decodeRecord (encodeRecord cfg gen) = some (cfg, gen) := by
  have magic : (encodeRecord cfg gen).take 4 = cfgMagic := by
    simp only [encodeRecord, recordBody, List.append_assoc]
    exact List.take_left' rfl
  have len : leNat (((encodeRecord cfg gen).drop 8).take 2) = 26 := by
    rw [encodeRecord, drop_recordBody_len, List.take_left' (length_toLe ..)]
    rfl
  have body : (encodeRecord cfg gen).take 36 = recordBody cfg gen :=
    List.take_left' (length_recordBody ..)
  have crc : leNat (((encodeRecord cfg gen).drop 36).take 4) = (crc32Ieee (recordBody cfg gen)).toNat := by
    rw [encodeRecord, List.drop_left' (length_recordBody ..), List.take_of_length_le (by simp),
      leNat_toLe_of_lt (BitVec.isLt _)]
  have config : ((encodeRecord cfg gen).drop 10).take 26 = cfg.toBytes := by
    rw [encodeRecord, drop_recordBody_cfg]
    exact List.take_left' (IoCfg.length_toBytes cfg)
  have generation : leNat (((encodeRecord cfg gen).drop 4).take 4) = gen.toNat := by
    rw [encodeRecord, drop_recordBody_gen, List.take_left' (length_toLe ..),
      leNat_toLe_of_lt gen.toNat_lt]
  simp [decodeRecord, magic, len, body, crc, config, generation, IoCfg.fromBytes_toBytes]

variable {cfg : IoCfg} {rec : List UInt8} {gen : UInt32}

/-- What a decoded record is made of: every check that passed, and the fields read. -/
theorem decodeRecord_eq_some (decoded : decodeRecord rec = some (cfg, gen)) :
    rec.take 4 = cfgMagic ∧ leNat ((rec.drop 8).take 2) = 26 ∧
      leNat ((rec.drop 36).take 4) = (crc32Ieee (rec.take 36)).toNat ∧
      cfg = IoCfg.fromBytes ((rec.drop 10).take 26) ∧
      gen = UInt32.ofNat (leNat ((rec.drop 4).take 4)) := by
  unfold decodeRecord at decoded
  split_ifs at decoded with magic len crc
  obtain ⟨config, generation⟩ := Prod.mk.inj (Option.some.inj decoded)
  exact ⟨not_not.1 magic, not_not.1 len, not_not.1 crc, config.symm, generation.symm⟩

theorem recordBody_of_decodeRecord (length : rec.length = cfgRecLen) (decoded : decodeRecord rec = some (cfg, gen)) :
    recordBody cfg gen = rec.take 36 := by
  obtain ⟨magic, len, -, rfl, rfl⟩ := decodeRecord_eq_some decoded
  rw [cfgRecLen] at length
  have generation : toLe 4 (UInt32.ofNat (leNat ((rec.drop 4).take 4))).toNat = (rec.drop 4).take 4 := by
    have four : ((rec.drop 4).take 4).length = 4 := by simp [length]
    have small : leNat ((rec.drop 4).take 4) < 2 ^ 32 := by
      simpa [four] using leNat_lt ((rec.drop 4).take 4)
    rw [UInt32.toNat_ofNat_of_lt' small]
    simpa only [four] using toLe_leNat ((rec.drop 4).take 4)
  have lenBytes : toLe 2 26 = (rec.drop 8).take 2 := by
    have two : ((rec.drop 8).take 2).length = 2 := by simp [length]
    rw [← len]
    simpa only [two] using toLe_leNat ((rec.drop 8).take 2)
  have config : (IoCfg.fromBytes ((rec.drop 10).take 26)).toBytes = (rec.drop 10).take 26 := by
    apply IoCfg.toBytes_fromBytes
    simp [length]
  rw [recordBody, generation, lenBytes, config, ← magic]
  calc rec.take 4 ++ ((rec.drop 4).take 4 ++ ((rec.drop 8).take 2 ++ (rec.drop 10).take 26))
      = rec.take 4 ++ ((rec.drop 4).take 4 ++ (rec.drop 8).take 28) := by
        rw [show 28 = 2 + 26 from rfl, List.take_add, List.drop_drop]
    _ = rec.take 4 ++ (rec.drop 4).take 32 := by
        rw [show 32 = 4 + 28 from rfl, List.take_add, List.drop_drop]
    _ = rec.take 36 := by
        rw [show 36 = 4 + 32 from rfl, List.take_add]

theorem encodeRecord_of_decodeRecord (length : rec.length = cfgRecLen) (decoded : decodeRecord rec = some (cfg, gen)) :
    encodeRecord cfg gen = rec := by
  have crc := (decodeRecord_eq_some decoded).2.2.1
  have four : ((rec.drop 36).take 4).length = 4 := by simp [length, cfgRecLen]
  have crcBytes : toLe 4 (leNat ((rec.drop 36).take 4)) = (rec.drop 36).take 4 := by
    simpa only [four] using toLe_leNat ((rec.drop 36).take 4)
  rw [encodeRecord, recordBody_of_decodeRecord length decoded, ← crc, crcBytes, ← List.take_add,
    List.take_of_length_le (by rw [length]; rfl)]

/-- A record and its contents determine each other: what is written is read back, and the only
record that reads back as a configuration and a generation is the one written for them. -/
theorem decodeRecord_inverse :
    (∀ (cfg : IoCfg) (gen : UInt32), decodeRecord (encodeRecord cfg gen) = some (cfg, gen)) ∧
    ∀ (rec : Vector UInt8 cfgRecLen) (cfg : IoCfg) (gen : UInt32),
      decodeRecord rec.toList = some (cfg, gen) → encodeRecord cfg gen = rec.toList := by
  constructor
  · exact decodeRecord_encodeRecord
  · intro rec cfg gen decoded
    exact encodeRecord_of_decodeRecord rec.length_toList decoded

/-- Writes go header, body, CRC, so a torn record that still decodes has its whole header: an
unprogrammed length field reads `0xFF` in its high byte. -/
theorem decodeRecord_torn {c : IoCfg} {g : UInt32} {k : ℕ}
    (decoded : decodeRecord ((encodeRecord cfg gen).take k ++ List.replicate (cfgRecLen - k) 0xFF) =
      some (c, g)) : g = gen := by
  set torn := (encodeRecord cfg gen).take k ++ List.replicate (cfgRecLen - k) 0xFF with htorn
  obtain ⟨-, lenOk, -, -, g_eq⟩ := decodeRecord_eq_some decoded
  have header : 10 ≤ k := by
    by_contra short
    have length : torn.length = 40 := by simp [htorn, cfgRecLen]; omega
    have high : torn[9] = 0xFF := by
      simp only [htorn]
      rw [List.getElem_append_right (by simp; omega), List.getElem_replicate]
    rw [List.drop_eq_getElem_cons (by omega), List.drop_eq_getElem_cons (by omega)] at lenOk
    simp only [List.take_succ_cons, List.take_zero, leNat, high] at lenOk
    have : (0xFF : UInt8).toNat = 255 := rfl
    omega
  have generation : (torn.drop 4).take 4 = toLe 4 gen.toNat := by
    have programmed : 8 ≤ ((encodeRecord cfg gen).take k).length := by simp [cfgRecLen]; omega
    rw [htorn, List.drop_append_of_le_length (by omega),
      List.take_append_of_le_length (by simp at programmed ⊢; omega), List.drop_take, List.take_take,
      Nat.min_eq_left (by omega), encodeRecord, drop_recordBody_gen, List.take_left' (length_toLe ..)]
  rw [g_eq, generation, leNat_toLe_of_lt gen.toNat_lt, UInt32.ofNat_toNat]

end IoEdgeHub
