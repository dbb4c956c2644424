import IoEdgeHub.Proto.Wire

/-!
# The register map

`regmap.rs`: the holding and input registers and the writes with side effects.  A hook
implementation is seen from the register map only through the calls made to it and through the
time it reports, so `Hooks` records exactly these.
-/

namespace IoEdgeHub

/-- Digital inputs. -/
def diNum : ℕ := 16

/-- Digital outputs. -/
def doNum : ℕ := 8

/-- Analog inputs. -/
def aiNum : ℕ := 4

/-- How many holding registers there are. -/
def modbusHoldingRegisterNumbers : ℕ := 18

/-- How many input registers there are. -/
def modbusInputRegisterNumbers : ℕ := 6

/-- The version. -/
def inputVerIdx : ℕ := 0

/-- The first analog input. -/
def inputAi0Idx : ℕ := 1

/-- The digital inputs. -/
def inputDiIdx : ℕ := 5

/-- The digital outputs. -/
@[match_pattern] def holdingDoIdx : ℕ := 0x00

/-- Which digital inputs are enabled. -/
@[match_pattern] def holdingDiEnableIdx : ℕ := 0x01

/-- Which analog inputs are enabled. -/
@[match_pattern] def holdingAiEnableIdx : ℕ := 0x02

/-- The digital sampling interval. -/
@[match_pattern] def holdingDiSampleMsIdx : ℕ := 0x03

/-- The analog sampling interval. -/
@[match_pattern] def holdingAiSampleMsIdx : ℕ := 0x04

/-- Whether history is recorded. -/
@[match_pattern] def holdingHistoryEnableIdx : ℕ := 0x05

/-- The CAN identifier. -/
@[match_pattern] def holdingCanIdIdx : ℕ := 0x06

/-- The CAN bit rate. -/
@[match_pattern] def holdingCanBaudrateIdx : ℕ := 0x07

/-- The RS-485 baud rate. -/
@[match_pattern] def holdingRs485BaudrateIdx : ℕ := 0x08

/-- The Modbus unit. -/
@[match_pattern] def holdingSlaveIdIdx : ℕ := 0x09

/-- The first octet of the address. -/
@[match_pattern] def holdingIpOctet1Idx : ℕ := 0x0A

/-- The second octet. -/
@[match_pattern] def holdingIpOctet2Idx : ℕ := 0x0B

/-- The third octet. -/
@[match_pattern] def holdingIpOctet3Idx : ℕ := 0x0C

/-- The last octet. -/
@[match_pattern] def holdingIpOctet4Idx : ℕ := 0x0D

/-- The upper half of the time. -/
@[match_pattern] def holdingTimestampHiIdx : ℕ := 0x0E

/-- The lower half of the time. -/
@[match_pattern] def holdingTimestampLoIdx : ℕ := 0x0F

/-- The save trigger. -/
@[match_pattern] def holdingConfigSaveIdx : ℕ := 0x10

/-- The reboot trigger. -/
@[match_pattern] def holdingRebootIdx : ℕ := 0x11

/-! ## Hooks -/

/-- A call to one of the `RegHooks` methods with a side effect. -/
inductive HookCall where
  | setDo (val : UInt8)
  | historyEnableWrite (en : Bool)
  | setTimestamp (ts : UInt32)
  | holdingSave
  | historySync
  | rebootCold
  deriving DecidableEq, Repr

/-- The hooks: the calls made so far, oldest first, and the live system time. -/
structure Hooks where
  calls : List HookCall
  nowEpoch : UInt32
  deriving DecidableEq, Repr

/-- Log a call. -/
def Hooks.call (h : Hooks) (c : HookCall) : Hooks := { h with calls := h.calls ++ [c] }

/-! ## Registers -/

/-- The registers. -/
structure RegMap where
  holding : Vector UInt16 18
  input : Vector UInt16 6
  deriving DecidableEq, Repr

namespace RegMap

/-- The compile-time defaults, with the firmware version in the first input register. -/
def new (versionReg : UInt16) : RegMap where
  holding := #v[0, 0xFFFF, 0x000F, 200, 200, 0, 0x0111, 250, 9600, 1, 192, 168, 12, 101, 0, 0, 0, 0]
  input := #v[versionReg, 0, 0, 0, 0, 0]

/-- `get_holding` -/
def getHolding (r : RegMap) (addr : UInt16) : UInt16 := r.holding[addr.toNat]?.getD 0

/-- FC03-style read: the timestamp registers return the live time. -/
def ioReadHolding (r : RegMap) (addr : UInt16) (hooks : Hooks) : UInt16 :=
  match addr.toNat with
  | holdingTimestampHiIdx => (hooks.nowEpoch >>> 16).toUInt16
  | holdingTimestampLoIdx => hooks.nowEpoch.toUInt16
  | _ => r.getHolding addr

/-- A write without side effects; `none` is the error. -/
def updateHolding (r : RegMap) (addr reg : UInt16) : Option RegMap :=
  if h : addr.toNat < 18 then some { r with holding := r.holding.set addr.toNat reg } else none

/-- The address in the registers. -/
def ipOctets (r : RegMap) : List UInt8 :=
  [holdingIpOctet1Idx, holdingIpOctet2Idx, holdingIpOctet3Idx, holdingIpOctet4Idx].map fun i =>
    (r.getHolding (UInt16.ofNat i)).toUInt8

/-- `get_input` -/
def getInput (r : RegMap) (addr : UInt16) : UInt16 := r.input[addr.toNat]?.getD 0

/-- `update_input` -/
def updateInput (r : RegMap) (addr reg : UInt16) : Option RegMap :=
  if h : addr.toNat < 6 then some { r with input := r.input.set addr.toNat reg } else none

/-- The side effect of storing a new value `reg` at `addr`, once it is stored. -/
def holdingSideEffect (r : RegMap) (addr : ℕ) (reg : UInt16) (hooks : Hooks) : RegMap × Hooks :=
  match addr with
  | holdingDoIdx => (r, hooks.call (.setDo reg.toUInt8))
  | holdingSlaveIdIdx => (r, hooks)
  | holdingHistoryEnableIdx => (r, hooks.call (.historyEnableWrite (reg != 0)))
  | holdingTimestampLoIdx =>
    (r, hooks.call (.setTimestamp ((r.holding[holdingTimestampHiIdx].toUInt32 <<< 16) ||| reg.toUInt32)))
  | holdingConfigSaveIdx =>
    ({ r with holding := r.holding.set holdingConfigSaveIdx 0 }, hooks.call .holdingSave)
  | holdingRebootIdx =>
    let r := { r with holding := r.holding.set holdingRebootIdx 0 }
    if reg ≠ 0 then (r, (hooks.call .historySync).call .rebootCold) else (r, hooks)
  | _ => (r, hooks)

/-- Holding write with side effects; `none` is the error, which changes nothing.  A write of the
stored value returns early and skips all side effects. -/
def ioWriteHolding (r : RegMap) (addr reg : UInt16) (hooks : Hooks) : Option (RegMap × Hooks) :=
  if h : addr.toNat < 18 then
    if r.holding[addr.toNat] = reg then some (r, hooks)
    else
      let r := { r with holding := r.holding.set addr.toNat reg }
      some (r.holdingSideEffect addr.toNat reg hooks)
  else none

/-- Single DO bit write. -/
def ioWriteDoBit (r : RegMap) (bit : UInt16) (state : Bool) (hooks : Hooks) :
    Option (RegMap × Hooks) :=
  if bit.toNat ≥ doNum then none
  else
    let val := r.holding[holdingDoIdx]
    let val := if state then val ||| (1 <<< bit) else val &&& ~~~(1 <<< bit)
    some ({ r with holding := r.holding.set holdingDoIdx (val &&& 0xFF) }, hooks.call (.setDo val.toUInt8))

/-- The outputs. -/
def doByte (r : RegMap) : UInt8 := r.holding[holdingDoIdx].toUInt8

/-- Switch the outputs off without a hook. -/
def clearDo (r : RegMap) : RegMap := { r with holding := r.holding.set holdingDoIdx 0 }

/-- A coil is a DO bit. -/
def ioCoilRd (r : RegMap) (addr : UInt16) : Option Bool :=
  if addr.toNat ≥ doNum then none else some ((r.holding[holdingDoIdx] >>> addr) &&& 1 != 0)

/-- A discrete input is a DI bit. -/
def ioDiscreteRd (r : RegMap) (addr : UInt16) : Option Bool :=
  if addr.toNat ≥ diNum then none else some ((r.input[inputDiIdx] >>> addr) &&& 1 != 0)

variable {r : RegMap} {addr reg : UInt16}

theorem updateInput_cases {r' : RegMap} (h : r.updateInput addr reg = some r') :
    ∃ inside : addr.toNat < 6, r' = { r with input := r.input.set addr.toNat reg } := by
  unfold updateInput at h
  split_ifs at h with inside
  exact ⟨inside, (Option.some.inj h).symm⟩

/-! ## What a holding write does -/

/-- What an accepted new value leaves in its register: the triggers go back to 0. -/
def heldValue (addr : ℕ) (reg : UInt16) : UInt16 :=
  if addr = holdingConfigSaveIdx ∨ addr = holdingRebootIdx then 0 else reg

/-- The hook calls of storing a new value; `hi` is the register with the high half of the time. -/
def holdingCalls (hi : UInt16) (addr : ℕ) (reg : UInt16) : List HookCall :=
  match addr with
  | holdingDoIdx => [.setDo reg.toUInt8]
  | holdingHistoryEnableIdx => [.historyEnableWrite (reg != 0)]
  | holdingTimestampLoIdx => [.setTimestamp ((hi.toUInt32 <<< 16) ||| reg.toUInt32)]
  | holdingConfigSaveIdx => [.holdingSave]
  | holdingRebootIdx => if reg ≠ 0 then [.historySync, .rebootCold] else []
  | _ => []

theorem ioWriteHolding_same (hooks : Hooks) (inside : addr.toNat < 18)
    (same : r.holding[addr.toNat] = reg) : r.ioWriteHolding addr reg hooks = some (r, hooks) := by
  rw [ioWriteHolding, dif_pos inside, if_pos same]

theorem ioWriteHolding_new (hooks : Hooks) (inside : addr.toNat < 18)
    (new : r.holding[addr.toNat] ≠ reg) :
    r.ioWriteHolding addr reg hooks =
      some ({ r with holding := r.holding.set addr.toNat (heldValue addr.toNat reg) },
        { hooks with calls := hooks.calls ++ holdingCalls r.holding[14] addr.toNat reg }) := by
  rw [ioWriteHolding, dif_pos inside, if_neg new]
  generalize addr.toNat = i at inside new
  unfold holdingSideEffect
  split
  case h_6 =>
    by_cases zero : reg = 0 <;>
      simp [zero, Hooks.call, heldValue, holdingCalls, holdingRebootIdx]
  case h_7 _ noSave noReboot =>
    rw [heldValue, if_neg (by rintro (h | h); exacts [noSave h, noReboot h])]
    simp_all [holdingCalls]
  all_goals simp [Hooks.call, heldValue, holdingCalls, holdingConfigSaveIdx, holdingRebootIdx,
    holdingTimestampHiIdx]

theorem ioWriteHolding_cases {hooks : Hooks} {s : RegMap × Hooks}
    (h : r.ioWriteHolding addr reg hooks = some s) :
    s = (r, hooks) ∨ ∃ inside : addr.toNat < 18, r.holding[addr.toNat] ≠ reg ∧
      s = ({ r with holding := r.holding.set addr.toNat (heldValue addr.toNat reg) },
        { hooks with calls := hooks.calls ++ holdingCalls r.holding[14] addr.toNat reg }) := by
  by_cases inside : addr.toNat < 18
  · by_cases same : r.holding[addr.toNat] = reg
    · rw [ioWriteHolding_same hooks inside same] at h
      exact .inl (Option.some.inj h).symm
    · rw [ioWriteHolding_new hooks inside same] at h
      exact .inr ⟨inside, same, (Option.some.inj h).symm⟩
  · rw [ioWriteHolding, dif_neg inside] at h
    cases h

end RegMap

/-- Neither a network nor a broadcast host, and a first octet of a unicast network. -/
def ipAddrValid (a _b _c d : UInt8) : Bool :=
  if d == 0 || d == 0xFF then false
  else if a == 0 || a == 127 || a ≥ 224 then false
  else true

end IoEdgeHub
