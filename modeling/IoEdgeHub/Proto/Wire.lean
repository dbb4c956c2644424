import IoEdgeHub.Lib.Crc

/-!
# Byte order and checksums of the wire formats

`bytes.rs` and `crc.rs` of the protocol crate.
-/

namespace IoEdgeHub

/-! ## `bytes.rs` -/

/-- `get_be16` of the two bytes `p[0]`, `p[1]`. -/
def getBe16 (p0 p1 : UInt8) : UInt16 := (p0.toUInt16 <<< 8) ||| p1.toUInt16

/-- `put_be16`: the two bytes written for `v`. -/
def putBe16 (v : UInt16) : List UInt8 := [(v >>> 8).toUInt8, v.toUInt8]

/-- `get_be32` of the bytes `p[0]` to `p[3]`. -/
def getBe32 (p0 p1 p2 p3 : UInt8) : UInt32 :=
  (p0.toUInt32 <<< 24) ||| (p1.toUInt32 <<< 16) ||| (p2.toUInt32 <<< 8) ||| p3.toUInt32

/-- The little-endian word of two bytes. -/
def getLe16 (p0 p1 : UInt8) : UInt16 := p0.toUInt16 ||| (p1.toUInt16 <<< 8)

/-- The two bytes of a word, low byte first. -/
def putLe16 (v : UInt16) : List UInt8 := [(v &&& 0xFF).toUInt8, (v >>> 8).toUInt8]

theorem toNat_getLe16 (p0 p1 : UInt8) : (getLe16 p0 p1).toNat = p0.toNat + 256 * p1.toNat := by
  have low := p0.toNat_lt
  have high := p1.toNat_lt
  have shifted : (p1.toUInt16 <<< 8).toNat = p1.toNat <<< 8 := by
    rw [UInt16.toNat_shiftLeft, UInt8.toNat_toUInt16]
    simp only [UInt16.reduceToNat, Nat.shiftLeft_eq, Nat.reduceMod]
    omega
  have together := Nat.shiftLeft_add_eq_or_of_lt (i := 8) low p1.toNat
  rw [getLe16, UInt16.toNat_or, shifted, UInt8.toNat_toUInt16, Nat.or_comm, ← together, Nat.shiftLeft_eq]
  omega

theorem getLe16_eq_iff {p0 p1 : UInt8} {v : UInt16} : getLe16 p0 p1 = v ↔ [p0, p1] = putLe16 v := by
  have low := p0.toNat_lt
  have high := p1.toNat_lt
  have bound := v.toNat_lt
  have lowByte : ((v &&& 0xFF).toUInt8).toNat = v.toNat % 256 := by
    have mask : v.toNat &&& 255 = v.toNat % 2 ^ 8 := Nat.and_two_pow_sub_one_eq_mod v.toNat 8
    rw [UInt16.toNat_toUInt8, UInt16.toNat_and, show (0xFF : UInt16).toNat = 255 from rfl, mask]
    omega
  have highByte : ((v >>> 8).toUInt8).toNat = v.toNat / 256 := by
    rw [UInt16.toNat_toUInt8, UInt16.toNat_shiftRight]
    simp only [UInt16.reduceToNat, Nat.shiftRight_eq_div_pow, Nat.reduceMod]
    omega
  rw [putLe16, List.cons.injEq, List.cons.injEq, ← UInt16.toNat_inj, ← UInt8.toNat_inj, ← UInt8.toNat_inj,
    toNat_getLe16, lowByte, highByte]
  constructor
  · intro same
    exact ⟨by omega, by omega, rfl⟩
  · rintro ⟨first, second, -⟩
    omega

theorem toUInt8_and_0xFF (v : UInt16) : (v &&& 0xFF).toUInt8 = v.toUInt8 := by
  have mask : v.toNat &&& 255 = v.toNat % 2 ^ 8 := Nat.and_two_pow_sub_one_eq_mod v.toNat 8
  apply UInt8.toNat_inj.1
  rw [UInt16.toNat_toUInt8, UInt16.toNat_toUInt8, UInt16.toNat_and, show (0xFF : UInt16).toNat = 255 from rfl,
    mask, Nat.mod_mod]

theorem getBe16_putBe16 (v : UInt16) : getBe16 (v >>> 8).toUInt8 v.toUInt8 = v := by
  have swap : getBe16 (v >>> 8).toUInt8 v.toUInt8 = getLe16 v.toUInt8 (v >>> 8).toUInt8 := UInt16.or_comm ..
  rw [swap, getLe16_eq_iff, putLe16, toUInt8_and_0xFF]

theorem putBe16_getBe16 (p0 p1 : UInt8) : putBe16 (getBe16 p0 p1) = [p0, p1] := by
  have swap : getBe16 p0 p1 = getLe16 p1 p0 := UInt16.or_comm ..
  have bytes : [p1, p0] = putLe16 (getLe16 p1 p0) := getLe16_eq_iff.1 rfl
  rw [putLe16, toUInt8_and_0xFF, List.cons.injEq, List.cons.injEq] at bytes
  rw [swap, putBe16, ← bytes.1, ← bytes.2.1]

/-! ## `crc.rs` -/

/-- `crc16_modbus` -/
def crc16Modbus (data : List UInt8) : BitVec 16 := Crc.run 0xA001#16 0xFFFF#16 data

/-- `crc32_ieee` -/
def crc32Ieee (data : List UInt8) : BitVec 32 :=
  Crc.run 0xEDB88320#32 0xFFFFFFFF#32 data ^^^ 0xFFFFFFFF#32

/-- `crc16_ccitt_seed` -/
def crc16CcittSeed (data : List UInt8) (seed : BitVec 16) : BitVec 16 := Crc.run 0x8408#16 seed data

end IoEdgeHub
