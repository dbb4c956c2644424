import IoEdgeHub.Lib.Blocks
import IoEdgeHub.Lib.Bytes

/-!
# SHA-1

The hash of FIPS 180 on texts of whole bytes: the functions and constants of the rounds, the message
schedule as the recursion `W`, the padding, and the hash of the padded text.
-/

namespace Fips180

/-! ## Functions and constants -/

/-- `ROTL` by `n` places. -/
def rotl (n x : UInt32) : UInt32 := (x <<< n) ||| (x >>> (32 - n))

/-- Choose. -/
def ch (x y z : UInt32) : UInt32 := (x &&& y) ^^^ (~~~x &&& z)

/-- Parity. -/
def parity (x y z : UInt32) : UInt32 := x ^^^ y ^^^ z

/-- Majority. -/
def maj (x y z : UInt32) : UInt32 := (x &&& y) ^^^ (x &&& z) ^^^ (y &&& z)

/-- The function of round `t`. -/
def f (t : ℕ) : UInt32 → UInt32 → UInt32 → UInt32 :=
  if t < 20 then ch else if t < 40 then parity else if t < 60 then maj else parity

/-- The constant of round `t`. -/
def K (t : ℕ) : UInt32 :=
  if t < 20 then 0x5A827999 else if t < 40 then 0x6ED9EBA1 else if t < 60 then 0x8F1BBCDC else 0xCA62C1D6

/-! ## One block -/

/-- Five words: a hash value, or the working variables. -/
structure Five where
  a : UInt32
  b : UInt32
  c : UInt32
  d : UInt32
  e : UInt32
deriving DecidableEq, Repr

/-- The initial hash value. -/
def initial : Five := ⟨0x67452301, 0xEFCDAB89, 0x98BADCFE, 0x10325476, 0xC3D2E1F0⟩

/-- Word `t` of a block. -/
def message (block : List UInt8) (t : ℕ) : UInt32 := UInt32.ofNat (Bytes.beNat ((block.drop (4 * t)).take 4))

/-- The message schedule. -/
def W (block : List UInt8) (t : ℕ) : UInt32 :=
  if t < 16 then message block t
  else rotl 1 (W block (t - 3) ^^^ W block (t - 8) ^^^ W block (t - 14) ^^^ W block (t - 16))

/-- One round on a block. -/
def round (block : List UInt8) (v : Five) (t : ℕ) : Five :=
  { a := rotl 5 v.a + f t v.b v.c v.d + v.e + K t + W block t
    b := v.a
    c := rotl 30 v.b
    d := v.c
    e := v.d }

/-- The hash value after another block. -/
def compress (H : Five) (block : List UInt8) : Five :=
  let v := (List.range 80).foldl (round block) H
  ⟨v.a + H.a, v.b + H.b, v.c + H.c, v.d + H.d, v.e + H.e⟩

/-! ## The text -/

/-- The zero bytes of the padding. -/
def zeros (length : ℕ) : ℕ := (119 - length % 64) % 64

/-- The text with a one bit, zero bits and the number of its bits in 64 bits. -/
def pad (text : List UInt8) : List UInt8 :=
  text ++ [0x80] ++ List.replicate (zeros text.length) 0 ++ Bytes.toBe 8 (8 * text.length)

/-- The digest of a hash value. -/
def bytes (H : Five) : List UInt8 := [H.a, H.b, H.c, H.d, H.e].flatMap fun x => Bytes.toBe 4 x.toNat

/-- The digest of a text. -/
def sha1 (text : List UInt8) : List UInt8 := bytes ((Blocks.blocks 64 (pad text)).foldl compress initial)

theorem zeros_lt (length : ℕ) : zeros length < 64 := Nat.mod_lt _ (by decide)

end Fips180
