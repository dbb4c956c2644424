import IoEdgeHub.Proto.FwUpg
import IoEdgeHub.Firmware.W25q

/-!
# The firmware-upgrade session

`fw.rs`: page-buffered writes of an image into slot1, which begins at address 0 of the array, and
its verification by readback.  `page` is the part of the page buffer in use, so `page_len` is its
length.  A Rust slice is shorter than `2 ^ 31` bytes, so the size check of `write` does not wrap.
-/

namespace IoEdgeHub

/-- `PAGE_SZ` -/
def pageSz : ℕ := 256

/-- The chunks of the readback. -/
def readChunk : ℕ := 64

/-- `IMG_HDR_SIZE` -/
def imgHdrSize : ℕ := 0x200

/-- How much of the TLV block is read. -/
def tlvRead : ℕ := 512

/-- The session, and the driver it works on. -/
structure Fw where
  active : Bool
  failed : Bool
  total : ℕ
  written : ℕ
  page : List UInt8
  nor : W25q

namespace Fw

/-- The session at reset. -/
def new (nor : W25q) : Fw where
  active := false
  failed := false
  total := 0
  written := 0
  page := []
  nor

/-- `page_flush` -/
def pageFlush (s : Fw) : Fw × Bool :=
  if s.page.length > 0 then
    let (nor, ok) := s.nor.write s.written s.page
    ({ s with page := [], nor }, ok)
  else (s, true)

/-- Returns 0, or -3 busy, -1 bad size or failed erase, -2 wrong key hash. -/
def start (s : Fw) (total : ℕ) (keyhash : Option (List UInt8)) : Fw × ℤ :=
  if s.active then (s, -3)
  else if total < 64 ∨ total > slot1Size then (s, -1)
  else if keyhash.any (· ≠ fwKeyhash) then (s, -2)
  else
    match s.nor.erase 0 slot1Size with
    | (nor, false) => ({ s with nor }, -1)
    | (nor, true) =>
      ({ s with active := true, failed := false, total, written := 0, page := [], nor }, 0)

/-- The copy loop of `write`; every turn takes at least one byte off the data. -/
def writeLoop : ℕ → Fw → List UInt8 → Fw × Bool
  | 0, s, _ => (s, true)
  | fuel + 1, s, data =>
    if data.isEmpty then (s, true)
    else
      let chunk := min (pageSz - s.page.length) data.length
      let s := { s with page := s.page ++ data.take chunk }
      let data := data.drop chunk
      if s.page.length = pageSz then
        match s.pageFlush with
        | (s, false) => ({ s with failed := true }, false)
        | (s, true) => writeLoop fuel { s with written := s.written + pageSz } data
      else writeLoop fuel s data

/-- `write` -/
def write (s : Fw) (data : List UInt8) : Fw × Bool :=
  if !s.active || s.failed then (s, false)
  else if s.written + s.page.length + data.length > s.total then ({ s with failed := true }, false)
  else writeLoop data.length s data

/-- `abort` -/
def abort (s : Fw) : Fw := { s with active := false, failed := false, page := [], written := 0 }

/-- The readback from `off`, 64 bytes at a time, with the CRC so far. -/
def readback : ℕ → W25q → ℕ → ℕ → BitVec 16 → W25q × Option (BitVec 16)
  | 0, nor, _, _, crc => (nor, some crc)
  | fuel + 1, nor, off, total, crc =>
    if off < total then
      let n := min (total - off) readChunk
      match nor.read off n with
      | (nor, some buf) => readback fuel nor (off + n) total (crc16Ccitt crc buf)
      | (nor, none) => (nor, none)
    else (nor, some crc)

/-- The image header, then the TLV block, then its KEYHASH. -/
def tlvKeyhashOk (nor : W25q) : W25q × Bool :=
  match nor.read 0 32 with
  | (nor, none) => (nor, false)
  | (nor, some hdr) =>
    match imageTlvPos hdr imgHdrSize with
    | none => (nor, false)
    | some tlvOff =>
      if tlvOff + 4 > UInt32.ofNat slot1Size then (nor, false)
      else
        let len := min (UInt32.ofNat tlvRead) (UInt32.ofNat slot1Size - tlvOff)
        match nor.read tlvOff.toNat len.toNat with
        | (nor, none) => (nor, false)
        | (nor, some tlv) => (nor, keyhashInTlv tlv == some fwKeyhash)

/-- The part of `finish` after the flush: size, readback, key hash. -/
def verify (s : Fw) (crc : Option (BitVec 16)) : Fw × Bool :=
  if s.written ≠ s.total then (s, false)
  else
    match readback (s.total / readChunk + 1) s.nor 0 s.total 0 with
    | (nor, none) => ({ s with nor }, false)
    | (nor, some crcV) =>
      let (nor, tlvOk) := tlvKeyhashOk nor
      let crcBad := crc.any (crcV ≠ ·)
      if crcBad || !tlvOk then
        -- the last bytes are read once more for the diagnostics
        ({ s with nor := (nor.read (s.total - 16) 16).1 }, false)
      else ({ s with nor }, true)

/-- Flush, verify (with the CRC when one is given) and check the key hash. -/
def finish (s : Fw) (crc : Option (BitVec 16)) : Fw × Bool :=
  if !s.active then (s, false)
  else
    let s := { s with active := false }
    let tail := s.page.length
    if s.failed then (s, false)
    else
      match s.pageFlush with
      | (s, false) => (s, false)
      | (s, true) => verify { s with written := s.written + tail } crc

/-- `received` -/
def received (s : Fw) : ℕ := s.written + s.page.length

/-- `total` -/
def totalOf (s : Fw) : ℕ := if s.active then s.total else 0

end Fw

/-- Ask MCUboot for the upgrade: magic, `image_ok` when permanent, swap type. -/
def bootSetPending (nor : W25q) (permanent : Bool) : W25q × Bool :=
  match nor.write magicOff bootMagic with
  | (nor, false) => (nor, false)
  | (nor, true) =>
    match if permanent then nor.write imageOkOff (trailerFlag bootFlagSet) else (nor, true) with
    | (nor, false) => (nor, false)
    | (nor, true) =>
      nor.write swapInfoOff (trailerFlag (if permanent then bootSwapTypePerm else bootSwapTypeTest))

end IoEdgeHub
