import IoEdgeHub.Proto.Regmap

/-!
# The Modbus PDU decoder

`mb_server.rs`: one request PDU (function code and data) against the register map.  `process` and
the function-code handlers borrow the server, the output buffer, the register map and the hooks
mutably; here they pass these along as one `Mb`.  No result (`none`) is a panic of the source: an
index outside a buffer, an arithmetic overflow or a division by zero.  A handler's number is the response
length it returns, `0` for a silent drop.
-/

namespace IoEdgeHub

open Bytes

/-- The longest PDU. -/
def mbServerPduMax : ℕ := 256

/-- Read coils. -/
def mbFc01CoilRd : UInt8 := 0x01

/-- Read discrete inputs. -/
def mbFc02DiRd : UInt8 := 0x02

/-- Read holding registers. -/
def mbFc03HoldingRegRd : UInt8 := 0x03

/-- Read input registers. -/
def mbFc04InRegRd : UInt8 := 0x04

/-- Write a coil. -/
def mbFc05CoilWr : UInt8 := 0x05

/-- Write a register. -/
def mbFc06HoldingRegWr : UInt8 := 0x06

/-- Diagnostics. -/
def mbFc08Diagnostics : UInt8 := 0x08

/-- Write coils. -/
def mbFc15CoilsWr : UInt8 := 0x0F

/-- Write registers. -/
def mbFc16HoldingRegsWr : UInt8 := 0x10

/-- Echo the request. -/
def mbFc08SubfQuery : UInt16 := 0x0000

/-- Clear the counters. -/
def mbFc08SubfClrCtr : UInt16 := 0x000A

/-- Messages on the bus. -/
def mbFc08SubfBusMsgCtr : UInt16 := 0x000B

/-- Messages with a wrong CRC. -/
def mbFc08SubfBusCrcCtr : UInt16 := 0x000C

/-- Exceptions sent. -/
def mbFc08SubfBusExceptCtr : UInt16 := 0x000D

/-- Messages for this server. -/
def mbFc08SubfServerMsgCtr : UInt16 := 0x000E

/-- Messages not answered. -/
def mbFc08SubfServerNoRespCtr : UInt16 := 0x000F

/-- Illegal function. -/
def mbExcIllegalFc : UInt8 := 0x01

/-- Illegal data address. -/
def mbExcIllegalDataAddr : UInt8 := 0x02

/-- Illegal data value. -/
def mbExcIllegalDataVal : UInt8 := 0x03

/-- From here on registers are floats, which are not served. -/
def mbFpExtensionsAddr : UInt16 := 5000

/-! ## Diagnostic counters -/

/-- The diagnostic counters. -/
inductive MbDiag where
  | busMsg | crcErr | exc | srvMsg | noResp
  deriving DecidableEq, Repr

/-- Where a counter is kept. -/
def MbDiag.idx : MbDiag → Fin 5
  | busMsg => 0
  | crcErr => 1
  | exc => 2
  | srvMsg => 3
  | noResp => 4

/-- The state of the server: its counters. -/
structure MbServer where
  diag : Vector UInt16 5
  deriving DecidableEq, Repr

namespace MbServer

/-- `MbServer::new` -/
def new : MbServer := ⟨Vector.replicate 5 0⟩

/-- `saturating_add(1)` on one counter. -/
def diagCount (s : MbServer) (c : MbDiag) : MbServer :=
  ⟨s.diag.set c.idx (if s.diag[c.idx] = 0xFFFF then 0xFFFF else s.diag[c.idx] + 1)⟩

/-- `diag_get` -/
def diagGet (s : MbServer) (c : MbDiag) : UInt16 := s.diag[c.idx]

end MbServer

/-! ## Handlers -/

/-- Everything `process` may change. -/
structure Mb where
  srv : MbServer
  out : List UInt8
  regs : RegMap
  hooks : Hooks
  deriving DecidableEq, Repr

namespace Mb

/-- `exc_rsp` -/
def excRsp (m : Mb) (fc code : UInt8) : Option (Mb × ℕ) := do
  let out ← put m.out 0 (fc ||| 0x80)
  let out ← put out 1 code
  return ({ m with srv := m.srv.diagCount .exc, out := out }, 2)

/-- The bit loop of FC01 and FC02; the flag is false when an address was refused. -/
def readBits (rd : UInt16 → Option Bool) : ℕ → ℕ → UInt16 → List UInt8 → Option (List UInt8 × Bool)
  | 0, _, _, out => some (out, true)
  | n + 1, i, addr, out =>
    match rd addr with
    | none => some (out, false)
    | some false => readBits rd n (i + 1) (addr + 1) out
    | some true => do
      let old ← out[2 + i / 8]?
      let out ← put out (2 + i / 8) (old ||| (1 <<< UInt8.ofNat (i % 8)))
      readBits rd n (i + 1) (addr + 1) out

/-- FC01 and FC02, which differ in the function code and in the bit they read. -/
def fcReadBits (fc : UInt8) (rd : RegMap → UInt16 → Option Bool) (m : Mb) (d : List UInt8) :
    Option (Mb × ℕ) :=
  match d with
  | [a0, a1, q0, q1] =>
    let addr := getBe16 a0 a1
    let qty := getBe16 q0 q1
    if qty = 0 ∨ qty > 2000 then m.excRsp fc mbExcIllegalDataVal
    else do
      let numBytes := ((qty - 1) / 8 + 1).toNat
      let out ← put m.out 0 fc
      let out ← put out 1 (UInt8.ofNat numBytes)
      let out ← copyIn out 2 (List.replicate numBytes 0)
      let (out, ok) ← readBits (rd m.regs) qty.toNat 0 addr out
      if ok then return ({ m with out := out }, numBytes + 2)
      else excRsp { m with out := out } fc mbExcIllegalDataAddr
  | _ => some (m, 0)

/-- `fc01` -/
def fc01 : Mb → List UInt8 → Option (Mb × ℕ) := fcReadBits mbFc01CoilRd RegMap.ioCoilRd

/-- `fc02` -/
def fc02 : Mb → List UInt8 → Option (Mb × ℕ) := fcReadBits mbFc02DiRd RegMap.ioDiscreteRd

/-- The register loop of FC03 and FC04 over a table of `size` registers. -/
def readRegs (size : ℕ) (rd : UInt16 → UInt16) :
    ℕ → ℕ → UInt16 → List UInt8 → Option (List UInt8 × Bool)
  | 0, _, _, out => some (out, true)
  | n + 1, i, addr, out =>
    if addr.toNat ≥ size then some (out, false)
    else do
      let out ← copyIn out (2 + i * 2) (putBe16 (rd addr))
      -- `reg_addr += 1`
      if addr = 0xFFFF then none else readRegs size rd n (i + 1) (addr + 1) out

/-- FC03 and FC04, which differ in the function code, the table size and the register they read. -/
def fcReadRegs (fc : UInt8) (size : ℕ) (rd : Mb → UInt16 → UInt16) (m : Mb) (d : List UInt8) :
    Option (Mb × ℕ) :=
  match d with
  | [a0, a1, q0, q1] =>
    let addr := getBe16 a0 a1
    let qty := getBe16 q0 q1
    if qty = 0 ∨ qty > 125 then m.excRsp fc mbExcIllegalDataVal
    else if addr ≥ mbFpExtensionsAddr then m.excRsp fc mbExcIllegalFc
    else do
      let numBytes := qty.toNat * 2
      let out ← put m.out 0 fc
      let out ← put out 1 (UInt8.ofNat numBytes)
      let (out, ok) ← readRegs size (rd m) qty.toNat 0 addr out
      if ok then return ({ m with out := out }, numBytes + 2)
      else excRsp { m with out := out } fc mbExcIllegalDataAddr
  | _ => some (m, 0)

/-- `fc03` -/
def fc03 : Mb → List UInt8 → Option (Mb × ℕ) :=
  fcReadRegs mbFc03HoldingRegRd modbusHoldingRegisterNumbers fun m addr => m.regs.ioReadHolding addr m.hooks

/-- `fc04` -/
def fc04 : Mb → List UInt8 → Option (Mb × ℕ) :=
  fcReadRegs mbFc04InRegRd modbusInputRegisterNumbers fun m addr => m.regs.getInput addr

/-- The five-byte echo `[fc][word][word]` of the write and diagnostic functions. -/
def echo (m : Mb) (fc : UInt8) (a b : UInt16) : Option (Mb × ℕ) := do
  let out ← put m.out 0 fc
  let out ← copyIn out 1 (putBe16 a)
  let out ← copyIn out 3 (putBe16 b)
  return ({ m with out := out }, 5)

/-- `fc05` -/
def fc05 (m : Mb) (d : List UInt8) : Option (Mb × ℕ) :=
  match d with
  | [a0, a1, v0, v1] =>
    let coilAddr := getBe16 a0 a1
    let coilVal := getBe16 v0 v1
    match m.regs.ioWriteDoBit coilAddr (coilVal != 0) m.hooks with
    | none => m.excRsp mbFc05CoilWr mbExcIllegalDataAddr
    | some (regs, hooks) =>
      { m with regs := regs, hooks := hooks }.echo mbFc05CoilWr coilAddr coilVal
  | _ => some (m, 0)

/-- `fc06` -/
def fc06 (m : Mb) (d : List UInt8) : Option (Mb × ℕ) :=
  match d with
  | [a0, a1, v0, v1] =>
    let regAddr := getBe16 a0 a1
    let regVal := getBe16 v0 v1
    match m.regs.ioWriteHolding regAddr regVal m.hooks with
    | none => m.excRsp mbFc06HoldingRegWr mbExcIllegalDataAddr
    | some (regs, hooks) =>
      { m with regs := regs, hooks := hooks }.echo mbFc06HoldingRegWr regAddr regVal
  | _ => some (m, 0)

/-- `fc08` -/
def fc08 (m : Mb) (d : List UInt8) : Option (Mb × ℕ) :=
  match d with
  | [s0, s1, d0, d1] =>
    let sfunc := getBe16 s0 s1
    let data := getBe16 d0 d1
    let reply (srv : MbServer) (data : UInt16) := { m with srv := srv }.echo mbFc08Diagnostics sfunc data
    if sfunc = mbFc08SubfQuery then reply m.srv data
    else if sfunc = mbFc08SubfClrCtr then reply MbServer.new data
    else if sfunc = mbFc08SubfBusMsgCtr then reply m.srv (m.srv.diagGet .busMsg)
    else if sfunc = mbFc08SubfBusCrcCtr then reply m.srv (m.srv.diagGet .crcErr)
    else if sfunc = mbFc08SubfBusExceptCtr then reply m.srv (m.srv.diagGet .exc)
    else if sfunc = mbFc08SubfServerMsgCtr then reply m.srv (m.srv.diagGet .srvMsg)
    else if sfunc = mbFc08SubfServerNoRespCtr then reply m.srv (m.srv.diagGet .noResp)
    else m.excRsp mbFc08Diagnostics mbExcIllegalFc
  | _ => some (m, 0)

/-- The loop of FC15 from coil `i` on; `temp` is the rest of the current data byte. -/
def writeCoils (coilAddr : UInt16) (data : List UInt8) :
    ℕ → ℕ → UInt8 → RegMap → Hooks → Option (RegMap × Hooks × Bool)
  | 0, _, _, regs, hooks => some (regs, hooks, true)
  | n + 1, i, temp, regs, hooks => do
    let temp ← (if i % 8 = 0 then data[i / 8]? else some temp)
    match regs.ioWriteDoBit (coilAddr + UInt16.ofNat i) (temp &&& 0x01 != 0) hooks with
    | none => return (regs, hooks, false)
    | some (regs, hooks) => writeCoils coilAddr data n (i + 1) (temp >>> 1) regs hooks

/-- `fc15` -/
def fc15 (m : Mb) (d : List UInt8) : Option (Mb × ℕ) :=
  match d with
  | a0 :: a1 :: q0 :: q1 :: nb :: d5 :: rest =>
    let coilAddr := getBe16 a0 a1
    let coilQty := getBe16 q0 q1
    let numBytes := nb.toNat
    if coilQty = 0 ∨ coilQty > 2000 then m.excRsp mbFc15CoilsWr mbExcIllegalDataVal
    else if ((coilQty - 1) / 8 + 1).toNat ≠ numBytes ∨ d.length ≠ numBytes + 5 then
      m.excRsp mbFc15CoilsWr mbExcIllegalDataVal
    else do
      let (regs, hooks, ok) ← writeCoils coilAddr (d5 :: rest) coilQty.toNat 0 0 m.regs m.hooks
      let m := { m with regs := regs, hooks := hooks }
      if ok then m.echo mbFc15CoilsWr coilAddr coilQty
      else m.excRsp mbFc15CoilsWr mbExcIllegalDataAddr
  | _ => some (m, 0)

/-- The loop of FC16 from register `i` on. -/
def writeRegs (regAddr : UInt16) (data : List UInt8) :
    ℕ → ℕ → RegMap → Hooks → Option (RegMap × Hooks × Bool)
  | 0, _, regs, hooks => some (regs, hooks, true)
  | n + 1, i, regs, hooks => do
    let hi ← data[i * 2]?
    let lo ← data[i * 2 + 1]?
    match regs.ioWriteHolding (regAddr + UInt16.ofNat i) (getBe16 hi lo) hooks with
    | none => return (regs, hooks, false)
    | some (regs, hooks) => writeRegs regAddr data n (i + 1) regs hooks

/-- `fc16` -/
def fc16 (m : Mb) (d : List UInt8) : Option (Mb × ℕ) :=
  match d with
  | a0 :: a1 :: q0 :: q1 :: numBytes :: d5 :: rest =>
    let regAddr := getBe16 a0 a1
    let regQty := getBe16 q0 q1
    if regQty = 0 ∨ regQty > 125 then m.excRsp mbFc16HoldingRegsWr mbExcIllegalDataVal
    else if regAddr ≥ mbFpExtensionsAddr then m.excRsp mbFc16HoldingRegsWr mbExcIllegalFc
    else if d.length % 2 ^ 16 < 5 then none
    else if d.length % 2 ^ 16 - 5 ≠ numBytes.toNat then m.excRsp mbFc16HoldingRegsWr mbExcIllegalDataVal
    else if regQty.toUInt8 = 0 then none
    -- the integer division is the source's: a stray odd byte passes when the quotient is still 2
    else if numBytes / regQty.toUInt8 ≠ 2 then m.excRsp mbFc16HoldingRegsWr mbExcIllegalDataVal
    else do
      let (regs, hooks, ok) ← writeRegs regAddr (d5 :: rest) regQty.toNat 0 m.regs m.hooks
      let m := { m with regs := regs, hooks := hooks }
      if ok then m.echo mbFc16HoldingRegsWr regAddr regQty
      else m.excRsp mbFc16HoldingRegsWr mbExcIllegalDataAddr
  | _ => some (m, 0)

/-- Decode one PDU. -/
def process (m : Mb) (pdu : List UInt8) : Option (Mb × ℕ) :=
  match pdu with
  | [] => some (m, 0)
  | fc :: d =>
    let m := { m with srv := (m.srv.diagCount .busMsg).diagCount .srvMsg }
    if fc = mbFc01CoilRd then m.fc01 d
    else if fc = mbFc02DiRd then m.fc02 d
    else if fc = mbFc03HoldingRegRd then m.fc03 d
    else if fc = mbFc04InRegRd then m.fc04 d
    else if fc = mbFc05CoilWr then m.fc05 d
    else if fc = mbFc06HoldingRegWr then m.fc06 d
    else if fc = mbFc08Diagnostics then m.fc08 d
    else if fc = mbFc15CoilsWr then m.fc15 d
    else if fc = mbFc16HoldingRegsWr then m.fc16 d
    else m.excRsp fc mbExcIllegalFc

end Mb

end IoEdgeHub
