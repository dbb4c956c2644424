import IoEdgeHub.Proto.Regmap
import Mathlib.Data.Int.Notation

/-!
# History records and file names (`history.rs`)
-/

namespace IoEdgeHub

open Bytes

/-- A record of digital inputs. -/
def diType : UInt16 := 1

/-- A record of analog inputs. -/
def aiType : UInt16 := 2

/-- The length of a digital record. -/
def diRecLen : ℕ := 10

/-- The length of an analog record. -/
def aiRecLen : ℕ := 16

/-- A history record. -/
structure HisData where
  ty : UInt16
  timestamps : UInt32
  enStatus : UInt16
  values : Vector UInt16 aiNum
deriving DecidableEq

namespace HisData

/-- A digital record. -/
def di (timestamps : UInt32) (diEn diValue : UInt16) : HisData :=
  ⟨diType, timestamps, diEn, #v[diValue, 0, 0, 0]⟩

/-- An analog record. -/
def ai (timestamps : UInt32) (aiEn : UInt16) (aiValue : Vector UInt16 aiNum) : HisData :=
  ⟨aiType, timestamps, aiEn, aiValue⟩

/-- The length of a record. -/
def recLen (d : HisData) : ℕ := if d.ty = diType then diRecLen else aiRecLen

/-- A word, low byte first. -/
def le16 (w : UInt16) : List UInt8 := toLe 2 w.toNat

/-- Sixteen bytes, of which a record uses the first `recLen`. -/
def toBytes (d : HisData) : List UInt8 :=
  le16 d.ty ++ toLe 4 d.timestamps.toNat ++ le16 d.enStatus ++
    if d.ty = diType then le16 d.values[0] ++ List.replicate 6 0
    else d.values.toList.flatMap le16

end HisData

/-- The nearest value of a range. -/
def clamp (v lo hi : ℤ) : ℤ := if v < lo then lo else if v > hi then hi else v

/-- The year, month and day of a day number. -/
def civilFromDays (z : ℤ) : ℤ × ℕ × ℕ :=
  let z := z + 719468
  let era := Int.tdiv (if z ≥ 0 then z else z - 146096) 146097
  let doe := (z - era * 146097).toNat
  let yoe := (doe - doe / 1460 + doe / 36524 - doe / 146096) / 365
  let y := (yoe : ℤ) + era * 400
  let doy := doe - (365 * yoe + yoe / 4 - yoe / 100)
  let mp := (5 * doy + 2) / 153
  let d := doy - (153 * mp + 2) / 5 + 1
  let m := if mp < 10 then mp + 3 else mp - 9
  (if m ≤ 2 then y + 1 else y, m, d)

/-- The two decimal digits of a number below 100. -/
def twoDigits (n : ℤ) : List UInt8 := [48 + UInt8.ofNat (n / 10).toNat, 48 + UInt8.ofNat (n % 10).toNat]

/-- The parts of a name, each with the limits it is clamped to: month, day, hour, minute and second. -/
def histParts (unix : UInt32) : List (ℤ × ℤ × ℤ) :=
  let t : ℤ := unix.toNat + 8 * 3600
  let days := t / 86400
  let secs := t % 86400
  let (_, mon, mday) := civilFromDays days
  [(mon, 1, 12), (mday, 1, 31), (secs / 3600, 0, 23), (secs / 60 % 60, 0, 59), (secs % 60, 0, 59)]

/-- `data_MMDD_HHMMSS.raw` -/
def makeHistName (unix : UInt32) : List UInt8 :=
  let digits (parts : List (ℤ × ℤ × ℤ)) : List UInt8 := parts.flatMap fun (v, lo, hi) => twoDigits (clamp v lo hi)
  [0x64, 0x61, 0x74, 0x61, 0x5F] ++ digits ((histParts unix).take 2) ++ [0x5F] ++ digits ((histParts unix).drop 2) ++
    [0x2E, 0x72, 0x61, 0x77]

example : makeHistName 1787443200 = "data_0823_080000.raw".toUTF8.toList := by decide +kernel

end IoEdgeHub
