import IoEdgeHub.Proto.Wire

/-!
# Firmware-upgrade helpers

`fw_upg.rs`: the MCUboot image header and TLV block, CRC-16, the trailer layout for
`BOOT_MAX_ALIGN = 8`, and base64.  `u32` sums wrap, as in the release build.
-/

namespace IoEdgeHub

open Bytes

/-- The length of a key hash. -/
def fwKeyhashLen : ℕ := 32

/-- The key hash that is built in. -/
def fwKeyhash : List UInt8 :=
  [0xfb, 0x73, 0x8f, 0x7d, 0xcf, 0x8c, 0x1a, 0x3a, 0x89, 0x88, 0xae, 0x60, 0x85, 0xd5, 0x2f, 0x06,
    0xaf, 0x2a, 0x25, 0x61, 0x33, 0xee, 0x1c, 0x06, 0x84, 0xf7, 0x14, 0x25, 0xaa, 0x15, 0x7f, 0xac]

/-- The size of slot1. -/
def slot1Size : ℕ := 0x70000

/-! ## Image header and TLV block -/

/-- The little-endian number in the `w` bytes at `off`. -/
def leAt (b : List UInt8) (off w : ℕ) : ℕ := leNat ((b.drop off).take w)

/-- The offset of the TLV block, from the first 32 bytes of the image. -/
def imageTlvPos (hdr32 : List UInt8) (hdrSizeExpect : ℕ) : Option UInt32 :=
  if hdr32.length < 16 then none
  else if leAt hdr32 0 4 ≠ 0x96F3B83D then none
  else
    let hdrSize := leAt hdr32 8 2
    let imgSize := leAt hdr32 12 4
    if hdrSize ≠ hdrSizeExpect then none
    else
      let tlvOff := UInt32.ofNat hdrSize + UInt32.ofNat imgSize
      if tlvOff % 4 ≠ 0 then none else some tlvOff

/-- The walk over the entries from `off`; every turn moves on by at least 4. -/
def keyhashScan (tlv : List UInt8) (stop : ℕ) : ℕ → ℕ → Option (List UInt8)
  | 0, _ => none
  | fuel + 1, off =>
    if off + 4 ≤ stop then
      let tag := leAt tlv off 2
      let len := leAt tlv (off + 2) 2
      if tag = 0x0001 ∧ len = fwKeyhashLen then
        let s := off + 4
        if s + len ≤ stop then some ((tlv.drop s).take len) else none
      else keyhashScan tlv stop fuel (off + 4 + (len + 3) / 4 * 4)
    else none

/-- The KEYHASH entry of a TLV block. -/
def keyhashInTlv (tlv : List UInt8) : Option (List UInt8) :=
  if tlv.length < 4 then none
  else
    let magic := leAt tlv 0 2
    let size := leAt tlv 2 2
    if magic ≠ 0x6907 ∨ size = 0 ∨ size > tlv.length then none
    else
      let stop := min size tlv.length
      keyhashScan tlv stop stop 4

/-! ## CRC-16 -/

/-- One byte of the CRC. -/
def crc16CcittByte (seed : BitVec 16) (b : UInt8) : BitVec 16 :=
  let e : BitVec 8 := (seed ^^^ b.toBitVec.setWidth 16).setWidth 8
  let f := e ^^^ (e <<< 4)
  (seed >>> 8) ^^^ (f.setWidth 16 <<< 8) ^^^ (f.setWidth 16 <<< 3) ^^^ (f >>> 4).setWidth 16

/-- `crc16_ccitt` -/
def crc16Ccitt (seed : BitVec 16) (src : List UInt8) : BitVec 16 := src.foldl crc16CcittByte seed

/-- The check value of the source's own test. -/
example : crc16Ccitt 0 [0x31, 0x32, 0x33, 0x34, 0x35, 0x36, 0x37, 0x38, 0x39] = 0x2189 := by decide +kernel

theorem crc16Ccitt_append (seed : BitVec 16) (xs ys : List UInt8) :
    crc16Ccitt seed (xs ++ ys) = crc16Ccitt (crc16Ccitt seed xs) ys := List.foldl_append

/-- The contribution of the folded byte to the new checksum. -/
def crcFold (e : BitVec 8) : BitVec 16 :=
  let f := e ^^^ (e <<< 4)
  (f.setWidth 16 <<< 8) ^^^ (f.setWidth 16 <<< 3) ^^^ (f >>> 4).setWidth 16

theorem crc16CcittByte_eq (seed : BitVec 16) (b : UInt8) :
    crc16CcittByte seed b = (seed >>> 8) ^^^ crcFold ((seed ^^^ b.toBitVec.setWidth 16).setWidth 8) := by
  simp only [crc16CcittByte, crcFold, BitVec.xor_assoc]

/-- The high byte of the contribution already determines the folded byte. -/
theorem crcFold_injective {e e' : BitVec 8} (same : crcFold e >>> 8 = crcFold e' >>> 8) : e = e' := by
  have inverse : ∀ e : BitVec 8,
      (let h := (crcFold e >>> 8).setWidth 8
       let f := h ^^^ (h >>> 5)
       f ^^^ (f <<< 4)) = e := by decide +kernel
  rw [← inverse e, ← inverse e', same]

theorem crc16CcittByte_injective {s s' : BitVec 16} {b : UInt8}
    (same : crc16CcittByte s b = crc16CcittByte s' b) : s = s' := by
  rw [crc16CcittByte_eq, crc16CcittByte_eq] at same
  have shifted (x : BitVec 16) : x >>> 8 >>> 8 = 0#16 := by
    apply BitVec.eq_of_toNat_eq
    simp only [BitVec.toNat_ushiftRight, Nat.shiftRight_eq_div_pow]
    have := x.isLt
    simp
    omega
  have folded : (s ^^^ b.toBitVec.setWidth 16).setWidth 8 = (s' ^^^ b.toBitVec.setWidth 16).setWidth 8 := by
    apply crcFold_injective
    have high := congrArg (fun x : BitVec 16 => x >>> 8) same
    simpa only [BitVec.ushiftRight_xor_distrib, shifted, BitVec.zero_xor] using high
  rw [folded] at same
  have high : s >>> 8 = s' >>> 8 := (BitVec.xor_left_inj _).1 same
  have low : s.setWidth 8 = s'.setWidth 8 := by
    rw [BitVec.setWidth_xor, BitVec.setWidth_xor] at folded
    exact (BitVec.xor_left_inj _).1 folded
  apply BitVec.eq_of_toNat_eq
  have high := congrArg BitVec.toNat high
  have low := congrArg BitVec.toNat low
  simp only [BitVec.toNat_ushiftRight, Nat.shiftRight_eq_div_pow, BitVec.toNat_setWidth] at high low
  omega

/-- Different seeds never give the same checksum of the same data. -/
theorem crc16Ccitt_injective {s s' : BitVec 16} {src : List UInt8}
    (same : crc16Ccitt s src = crc16Ccitt s' src) : s = s' := by
  induction src generalizing s s' with
  | nil => exact same
  | cons b src ih => exact crc16CcittByte_injective (ih same)

/-- The contribution is what eight shifts make of the byte. -/
theorem crcFold_eq (e : BitVec 8) : crcFold e = (Crc.bit 0x8408#16)^[8] (e.setWidth 16) := by
  revert e
  decide +kernel

theorem crc16CcittByte_eq_byte (seed : BitVec 16) (b : UInt8) :
    crc16CcittByte seed b = Crc.byte 0x8408#16 seed b := by
  have gone : (b.toBitVec.setWidth 16) >>> 8 = 0#16 := by
    apply BitVec.eq_of_getLsbD_eq
    intro i hi
    rw [BitVec.getLsbD_ushiftRight, BitVec.getLsbD_setWidth, BitVec.getLsbD_of_ge b.toBitVec _ (by omega)]
    simp
  rw [crc16CcittByte_eq, Crc.byte_split, BitVec.ushiftRight_xor_distrib, gone, BitVec.xor_zero, crcFold_eq]

/-- Both implementations compute one checksum. -/
theorem crc16Ccitt_eq_crc16CcittSeed (seed : BitVec 16) (data : List UInt8) :
    crc16Ccitt seed data = crc16CcittSeed data seed := by
  induction data generalizing seed with
  | nil => rfl
  | cons b data ih =>
    show crc16Ccitt (crc16CcittByte seed b) data = _
    rw [ih, crc16CcittByte_eq_byte]
    rfl

/-! ## Trailer -/

/-- The magic at the end of a trailer. -/
def bootMagic : List UInt8 :=
  [0x77, 0xc2, 0x95, 0xf3, 0x60, 0xd2, 0xef, 0x7f, 0x35, 0x52, 0x50, 0x0f, 0x2c, 0xb6, 0x79, 0x80]

/-- A trailer flag that is set. -/
def bootFlagSet : UInt8 := 1

/-- A swap to be confirmed. -/
def bootSwapTypeTest : UInt8 := 2

/-- A swap for good. -/
def bootSwapTypePerm : UInt8 := 3

/-- Where the magic stands. -/
def magicOff : ℕ := slot1Size - 16
/-- `(SLOT1_SIZE - 16 - 8) & !7`: the difference is already a multiple of 8. -/
def imageOkOff : ℕ := (slot1Size - 16 - 8) / 8 * 8

/-- Where `copy_done` stands. -/
def copyDoneOff : ℕ := imageOkOff - 8

/-- Where `swap_info` stands. -/
def swapInfoOff : ℕ := copyDoneOff - 8

/-- Where `swap_size` stands. -/
def swapSizeOff : ℕ := swapInfoOff - 8

/-- A flag in its eight bytes. -/
def trailerFlag (flag : UInt8) : List UInt8 := [flag, 0xFF, 0xFF, 0xFF, 0xFF, 0xFF, 0xFF, 0xFF]

/-! ## Base64 -/

/-- The value of a base64 character. -/
def b64Val (c : UInt8) : Option UInt32 :=
  if 0x41 ≤ c ∧ c ≤ 0x5A then some (c - 0x41).toUInt32
  else if 0x61 ≤ c ∧ c ≤ 0x7A then some ((c - 0x61).toUInt32 + 26)
  else if 0x30 ≤ c ∧ c ≤ 0x39 then some ((c - 0x30).toUInt32 + 52)
  else if c = 0x2B then some 62
  else if c = 0x2F then some 63
  else none

/-- The decoding loop: `acc` and `nbits` as in the source, and at most `room` more bytes of output. -/
def b64Loop : UInt32 → UInt32 → ℕ → List UInt8 → Option (List UInt8)
  | _, _, _, [] => some []
  | acc, nbits, room, c :: rest => do
    let acc := (acc <<< 6) ||| (← b64Val c)
    let nbits := nbits + 6
    if nbits ≥ 8 then
      match room with
      | 0 => none
      | room + 1 => return (acc >>> (nbits - 8)).toUInt8 :: (← b64Loop acc (nbits - 8) room rest)
    else b64Loop acc nbits room rest

/-- Standard-alphabet decoding into a buffer of `room` bytes. -/
def b64Decode (inp : List UInt8) (room : ℕ) : Option (List UInt8) :=
  let data := inp.takeWhile (· ≠ 0x3D)
  let pad := inp.length - data.length
  if pad > 2 ∨ inp.length % 4 ≠ 0 then none else b64Loop 0 0 room data

end IoEdgeHub
