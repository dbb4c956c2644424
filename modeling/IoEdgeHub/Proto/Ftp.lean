import IoEdgeHub.Lib.Bytes
import IoEdgeHub.Lib.Text

/-!
# Addresses in FTP commands (`ftp.rs`)
-/

namespace IoEdgeHub

open Text

/-- An IPv4 address and a port. -/
structure Endpoint where
  ip : Vector UInt8 4
  port : UInt16
deriving DecidableEq

/-- Four numbers below 256. -/
def octets : List ℕ → Option (Vector UInt8 4)
  | [a, b, c, d] => some (Bytes.quad (UInt8.ofNat a) (UInt8.ofNat b) (UInt8.ofNat c) (UInt8.ofNat d))
  | _ => none

/-- Nothing follows, or an empty part. -/
def trailingOk (rest : List (List Char)) : Bool := rest.head?.all (·.isEmpty)

/-- `h1,h2,h3,h4,p1,p2` -/
def parsePortArg (arg : List Char) : Option Endpoint := do
  let parts := arg.splitOn ','
  let vals ← (parts.take 6).mapM (parseUnsigned 65535)
  guard (vals.length = 6 && trailingOk (parts.drop 6) && vals.all (· ≤ 255))
  let ip ← octets (vals.take 4)
  return ⟨ip, UInt16.ofNat (vals[4]?.getD 0 * 256 + vals[5]?.getD 0)⟩

/-- `|1|ip|port|` -/
def parseEprtArg (arg : List Char) : Option Endpoint := do
  let parts := arg.splitOn '|'
  let proto ← parseUnsigned (2 ^ 32 - 1) (← parts[1]?)
  let ip ← parts[2]?
  let port ← parseUnsigned 65535 (← parts[3]?)
  guard (trailingOk (parts.drop 4) && proto = 1 && port != 0)
  let vals ← (ip.splitOn '.').mapM (parseUnsigned 255)
  return ⟨← octets vals, UInt16.ofNat port⟩

example : (parsePortArg "192,168,12,101,7,208".toList).map (·.port) = some 2000 := by decide +kernel

example : parsePortArg "1,2,3,4,5,6,7".toList = none := by decide +kernel

end IoEdgeHub
