import IoEdgeHub.Proto.Regmap

/-!
# UDP configuration commands

`udp_cfg.rs`: one command against the register map, the hooks and the pending state of the two-step
factory reset.  A known command always answers, an unknown one is silent (length 0).  No result is a
panic of the source: a reply buffer that a copy does not fit.  Whether a timestamp is accepted is the
hook's decision, so it is a parameter.
-/

namespace IoEdgeHub

open Bytes

/-- `GET_VERSION` -/
def udpCmdGetVersion : UInt8 := 0x04

/-- `REBOOT` -/
def udpCmdReboot : UInt8 := 0x05

/-- `SET_IP` -/
def udpCmdSetIp : UInt8 := 0x10

/-- `GET_IP` -/
def udpCmdGetIp : UInt8 := 0x11

/-- `SET_MODBUS` -/
def udpCmdSetModbus : UInt8 := 0x12

/-- `GET_MODBUS` -/
def udpCmdGetModbus : UInt8 := 0x13

/-- `SET_TIME` -/
def udpCmdSetTime : UInt8 := 0x14

/-- `FACTORY_RESET` -/
def udpCmdFactoryReset : UInt8 := 0x19

/-- The version and build time. -/
structure UdpVersion where
  major : UInt8
  minor : UInt8
  patch : UInt8
  git : Vector UInt8 6
  deriving DecidableEq, Repr

/-- What is remembered between commands. -/
structure UdpCfgState where
  factoryPendingMs : UInt32
  factoryConfirmed : Bool
  factoryRebootPending : Bool
  rebootPending : Bool
  deriving DecidableEq, Repr

/-- The state after boot. -/
def UdpCfgState.new : UdpCfgState := ⟨0, false, false, false⟩

/-- Returns the state and whether a reboot was pending. -/
def UdpCfgState.takeRebootPending (st : UdpCfgState) : UdpCfgState × Bool :=
  ({ st with factoryRebootPending := false, rebootPending := false },
    st.factoryRebootPending || st.rebootPending)

/-- What a command may change besides its reply; `erases` counts the calls of `config_erase_all`. -/
structure UdpApp where
  regs : RegMap
  hooks : Hooks
  erases : ℕ
  st : UdpCfgState
  deriving DecidableEq, Repr

/-- The new state, the reply buffer and the length of the reply in it. -/
abbrev UdpReply := UdpApp × List UInt8 × ℕ

namespace UdpApp

/-- A reply of two bytes, if there is room. -/
def replyOk (a : UdpApp) (reply : List UInt8) (cmd ok : UInt8) : UdpReply :=
  if reply.length < 2 then (a, reply, 0) else (a, (reply.set 0 cmd).set 1 ok, 2)

/-- Store several registers; an address out of range is ignored. -/
def update (a : UdpApp) (vals : List (ℕ × UInt16)) : UdpApp :=
  { a with regs := vals.foldl (fun r p => (r.updateHolding (UInt16.ofNat p.1) p.2).getD r) a.regs }

/-- Ask for a save. -/
def holdingSave (a : UdpApp) : UdpApp := { a with hooks := a.hooks.call .holdingSave }

/-- Ask for an erase. -/
def configEraseAll (a : UdpApp) : UdpApp := { a with erases := a.erases + 1 }

/-- The first command only records its time, one within 5 s of the recorded time erases. -/
def factoryReset (a : UdpApp) (reply : List UInt8) (cmd : UInt8) (nowMs : UInt32) : UdpReply :=
  if !a.st.factoryConfirmed && nowMs - a.st.factoryPendingMs > 5000 then
    { a with st := { a.st with factoryPendingMs := nowMs } }.replyOk reply cmd 0
  else
    let a := a.configEraseAll
    { a with st := { a.st with factoryConfirmed := false, factoryRebootPending := true } }.replyOk
      reply cmd 1

/-- `SET_IP` -/
def setIp (a : UdpApp) (reply data : List UInt8) : UdpReply :=
  match data with
  | o1 :: o2 :: o3 :: o4 :: _ =>
    if ipAddrValid o1 o2 o3 o4 then
      (a.update [(holdingIpOctet1Idx, o1.toUInt16), (holdingIpOctet1Idx + 1, o2.toUInt16),
        (holdingIpOctet1Idx + 2, o3.toUInt16), (holdingIpOctet1Idx + 3, o4.toUInt16)]).holdingSave.replyOk
        reply udpCmdSetIp 1
    else a.replyOk reply udpCmdSetIp 0
  | _ => a.replyOk reply udpCmdSetIp 0

/-- `GET_IP` -/
def getIp (a : UdpApp) (reply : List UInt8) : Option UdpReply :=
  if reply.length < 5 then some (a, reply, 0)
  else do
    let reply ← put reply 0 udpCmdGetIp
    let reply ← copyIn reply 1 a.regs.ipOctets
    return (a, reply, 5)

/-- `SET_MODBUS` -/
def setModbus (a : UdpApp) (reply data : List UInt8) : UdpReply :=
  match data with
  | id :: b0 :: b1 :: _ =>
    (a.update [(holdingSlaveIdIdx, id.toUInt16), (holdingRs485BaudrateIdx, getBe16 b0 b1)]).holdingSave.replyOk
      reply udpCmdSetModbus 1
  | _ => a.replyOk reply udpCmdSetModbus 0

/-- `GET_MODBUS` -/
def getModbus (a : UdpApp) (reply : List UInt8) : Option UdpReply :=
  if reply.length < 4 then some (a, reply, 0)
  else do
    let reply ← put reply 0 udpCmdGetModbus
    let reply ← put reply 1 (a.regs.getHolding (UInt16.ofNat holdingSlaveIdIdx)).toUInt8
    let reply ← copyIn reply 2 (putBe16 (a.regs.getHolding (UInt16.ofNat holdingRs485BaudrateIdx)))
    return (a, reply, 4)

/-- `SET_TIME` -/
def setTime (accepts : UInt32 → Bool) (a : UdpApp) (reply data : List UInt8) : UdpReply :=
  match data with
  | b0 :: b1 :: b2 :: b3 :: _ =>
    let ts := getBe32 b0 b1 b2 b3
    { a with hooks := a.hooks.call (.setTimestamp ts) }.replyOk reply udpCmdSetTime
      (if accepts ts then 1 else 0)
  | _ => a.replyOk reply udpCmdSetTime 0

/-- `"vM.m.p_git6"`; the length is checked against 13, the reply has 14 bytes. -/
def getVersion (ver : UdpVersion) (a : UdpApp) (reply : List UInt8) : Option UdpReply :=
  if reply.length < 13 then some (a, reply, 0)
  else do
    let digit (n : UInt8) : UInt8 := 48 + min n 9
    let reply ← copyIn reply 0 [udpCmdGetVersion, 0x76, digit ver.major, 0x2E, digit ver.minor, 0x2E,
      digit ver.patch, 0x5F]
    let reply ← copyIn reply 8 ver.git.toList
    return (a, reply, 14)

/-- `REBOOT` -/
def reboot (a : UdpApp) (reply : List UInt8) : UdpReply :=
  { a with st := { a.st with rebootPending := true } }.replyOk reply udpCmdReboot 1

/-- Dispatch one command. -/
def udpAppCmd (ver : UdpVersion) (accepts : UInt32 → Bool) (a : UdpApp) (cmd : UInt8)
    (data reply : List UInt8) (nowMs : UInt32) : Option UdpReply :=
  if cmd = udpCmdSetIp then some (a.setIp reply data)
  else if cmd = udpCmdGetIp then a.getIp reply
  else if cmd = udpCmdSetModbus then some (a.setModbus reply data)
  else if cmd = udpCmdGetModbus then a.getModbus reply
  else if cmd = udpCmdSetTime then some (a.setTime accepts reply data)
  else if cmd = udpCmdGetVersion then a.getVersion ver reply
  else if cmd = udpCmdReboot then some (a.reboot reply)
  else if cmd = udpCmdFactoryReset then some (a.factoryReset reply cmd nowMs)
  else some (a, reply, 0)

end UdpApp

end IoEdgeHub
