import IoEdgeHub.Proto.UdpCfg

/-!
# Accesses of the UDP commands

`udpAppCmdChecked` is `udp_app_cmd` with every index and every slice checked, those into the data as
well as those into the reply.  It returns what `udpAppCmd` returns (`udpAppCmdChecked_eq`).  All length
tests but one cover what is accessed behind them: `GET_VERSION` tests for 13 bytes and writes 14.
-/

namespace IoEdgeHub

open Bytes

namespace UdpApp

/-! ## Checked accesses -/

/-- `get_be16(&p[lo..hi])` -/
def getBe16In (p : List UInt8) (lo hi : ℕ) : Option UInt16 := do
  let part ← slice p lo hi
  return getBe16 (← part[0]?) (← part[1]?)

/-- `reply_ok` with its accesses checked. -/
def replyOkChecked (a : UdpApp) (reply : List UInt8) (cmd ok : UInt8) : Option UdpReply :=
  if reply.length < 2 then some (a, reply, 0)
  else do
    let reply ← put reply 0 cmd
    let reply ← put reply 1 ok
    return (a, reply, 2)

/-- `factory_reset`, checked. -/
def factoryResetChecked (a : UdpApp) (reply : List UInt8) (cmd : UInt8) (nowMs : UInt32) : Option UdpReply :=
  if !a.st.factoryConfirmed && nowMs - a.st.factoryPendingMs > 5000 then
    { a with st := { a.st with factoryPendingMs := nowMs } }.replyOkChecked reply cmd 0
  else
    let a := a.configEraseAll
    { a with st := { a.st with factoryConfirmed := false, factoryRebootPending := true } }.replyOkChecked
      reply cmd 1

/-- `SET_IP`, checked. -/
def setIpChecked (a : UdpApp) (reply data : List UInt8) : Option UdpReply :=
  if data.length ≥ 4 then do
    let o1 ← data[0]?
    let o2 ← data[1]?
    let o3 ← data[2]?
    let o4 ← data[3]?
    if ipAddrValid o1 o2 o3 o4 then
      (a.update [(holdingIpOctet1Idx, o1.toUInt16), (holdingIpOctet1Idx + 1, o2.toUInt16),
        (holdingIpOctet1Idx + 2, o3.toUInt16), (holdingIpOctet1Idx + 3, o4.toUInt16)]).holdingSave.replyOkChecked
        reply udpCmdSetIp 1
    else a.replyOkChecked reply udpCmdSetIp 0
  else a.replyOkChecked reply udpCmdSetIp 0

/-- `SET_MODBUS`, checked. -/
def setModbusChecked (a : UdpApp) (reply data : List UInt8) : Option UdpReply :=
  if data.length ≥ 3 then do
    let id ← data[0]?
    let baud ← getBe16In data 1 3
    (a.update [(holdingSlaveIdIdx, id.toUInt16), (holdingRs485BaudrateIdx, baud)]).holdingSave.replyOkChecked
      reply udpCmdSetModbus 1
  else a.replyOkChecked reply udpCmdSetModbus 0

/-- `SET_TIME`, checked. -/
def setTimeChecked (accepts : UInt32 → Bool) (a : UdpApp) (reply data : List UInt8) : Option UdpReply :=
  if data.length ≥ 4 then do
    let ts := getBe32 (← data[0]?) (← data[1]?) (← data[2]?) (← data[3]?)
    { a with hooks := a.hooks.call (.setTimestamp ts) }.replyOkChecked reply udpCmdSetTime
      (if accepts ts then 1 else 0)
  else a.replyOkChecked reply udpCmdSetTime 0

/-- `GET_VERSION`, checked. -/
def getVersionChecked (ver : UdpVersion) (a : UdpApp) (reply : List UInt8) : Option UdpReply :=
  if reply.length < 13 then some (a, reply, 0)
  else do
    let digit (n : UInt8) : UInt8 := 48 + min n 9
    let reply ← put reply 0 udpCmdGetVersion
    let reply ← put reply 1 0x76
    let reply ← put reply 2 (digit ver.major)
    let reply ← put reply 3 0x2E
    let reply ← put reply 4 (digit ver.minor)
    let reply ← put reply 5 0x2E
    let reply ← put reply 6 (digit ver.patch)
    let reply ← put reply 7 0x5F
    let reply ← copyIn reply 8 ver.git.toList
    return (a, reply, 14)

/-- `REBOOT`, checked. -/
def rebootChecked (a : UdpApp) (reply : List UInt8) : Option UdpReply :=
  { a with st := { a.st with rebootPending := true } }.replyOkChecked reply udpCmdReboot 1

/-- `udp_app_cmd`; `getIp` and `getModbus` check their accesses already. -/
def udpAppCmdChecked (ver : UdpVersion) (accepts : UInt32 → Bool) (a : UdpApp) (cmd : UInt8)
    (data reply : List UInt8) (nowMs : UInt32) : Option UdpReply :=
  if cmd = udpCmdSetIp then a.setIpChecked reply data
  else if cmd = udpCmdGetIp then a.getIp reply
  else if cmd = udpCmdSetModbus then a.setModbusChecked reply data
  else if cmd = udpCmdGetModbus then a.getModbus reply
  else if cmd = udpCmdSetTime then a.setTimeChecked accepts reply data
  else if cmd = udpCmdGetVersion then a.getVersionChecked ver reply
  else if cmd = udpCmdReboot then a.rebootChecked reply
  else if cmd = udpCmdFactoryReset then a.factoryResetChecked reply cmd nowMs
  else some (a, reply, 0)

/-! ## They change nothing -/

theorem replyOkChecked_eq (a : UdpApp) (reply : List UInt8) (cmd ok : UInt8) :
    a.replyOkChecked reply cmd ok = some (a.replyOk reply cmd ok) := by
  unfold replyOkChecked replyOk
  split
  case isTrue => rfl
  case isFalse long =>
    rw [put, if_pos (by omega)]
    simp only [Option.bind_eq_bind, Option.bind_some]
    rw [put, if_pos (by rw [List.length_set]; omega)]
    rfl

theorem factoryResetChecked_eq (a : UdpApp) (reply : List UInt8) (cmd : UInt8) (nowMs : UInt32) :
    a.factoryResetChecked reply cmd nowMs = some (a.factoryReset reply cmd nowMs) := by
  unfold factoryResetChecked factoryReset
  split
  · exact replyOkChecked_eq ..
  · exact replyOkChecked_eq ..

/-- The tests on the data cover what is read of it. -/
theorem setIpChecked_eq (a : UdpApp) (reply data : List UInt8) :
    a.setIpChecked reply data = some (a.setIp reply data) := by
  rcases data with _ | ⟨o1, _ | ⟨o2, _ | ⟨o3, _ | ⟨o4, rest⟩⟩⟩⟩
  · exact replyOkChecked_eq ..
  · exact replyOkChecked_eq ..
  · exact replyOkChecked_eq ..
  · exact replyOkChecked_eq ..
  · rw [setIpChecked, setIp, if_pos (by simp)]
    simp only [List.getElem?_cons_zero, List.getElem?_cons_succ, Option.bind_eq_bind, Option.bind_some]
    split
    · exact replyOkChecked_eq ..
    · exact replyOkChecked_eq ..

theorem setModbusChecked_eq (a : UdpApp) (reply data : List UInt8) :
    a.setModbusChecked reply data = some (a.setModbus reply data) := by
  rcases data with _ | ⟨id, _ | ⟨b0, _ | ⟨b1, rest⟩⟩⟩
  · exact replyOkChecked_eq ..
  · exact replyOkChecked_eq ..
  · exact replyOkChecked_eq ..
  · have baud : getBe16In (id :: b0 :: b1 :: rest) 1 3 = some (getBe16 b0 b1) := by
      rw [getBe16In, slice_eq (by decide) (by simp)]
      rfl
    rw [setModbusChecked, setModbus, if_pos (by simp), baud]
    exact replyOkChecked_eq ..

theorem setTimeChecked_eq (accepts : UInt32 → Bool) (a : UdpApp) (reply data : List UInt8) :
    a.setTimeChecked accepts reply data = some (a.setTime accepts reply data) := by
  rcases data with _ | ⟨b0, _ | ⟨b1, _ | ⟨b2, _ | ⟨b3, rest⟩⟩⟩⟩
  · exact replyOkChecked_eq ..
  · exact replyOkChecked_eq ..
  · exact replyOkChecked_eq ..
  · exact replyOkChecked_eq ..
  · rw [setTimeChecked, setTime, if_pos (by simp)]
    exact replyOkChecked_eq ..

theorem getVersionChecked_eq (ver : UdpVersion) (a : UdpApp) (reply : List UInt8) :
    a.getVersionChecked ver reply = a.getVersion ver reply := by
  unfold getVersionChecked getVersion
  split
  case isTrue => rfl
  case isFalse long =>
    have stored (buf : List UInt8) (c : UInt8) :
        ((put buf 7 c).bind fun buf => copyIn buf 8 []) = put buf 7 c := by
      by_cases inside : 7 < buf.length
      · obtain ⟨buf', done, same⟩ := exists_put c inside
        rw [done, Option.bind_some, copyIn_nil (by omega)]
      · rw [put, if_neg inside]
        rfl
    simp only [copyIn_cons, Nat.zero_add, Nat.reduceAdd, stored, Option.bind_eq_bind, Option.bind_assoc]

theorem udpAppCmdChecked_eq (ver : UdpVersion) (accepts : UInt32 → Bool) (a : UdpApp) (cmd : UInt8)
    (data reply : List UInt8) (nowMs : UInt32) :
    a.udpAppCmdChecked ver accepts cmd data reply nowMs = a.udpAppCmd ver accepts cmd data reply nowMs := by
  unfold udpAppCmdChecked udpAppCmd
  rw [setIpChecked_eq, setModbusChecked_eq, setTimeChecked_eq, getVersionChecked_eq, rebootChecked, reboot,
    replyOkChecked_eq, factoryResetChecked_eq]

/-! ## Lengths -/

/-- The command returns, the buffer keeps its length and the reply fits into it. -/
def Fits (reply : List UInt8) (r : Option UdpReply) : Prop :=
  ∃ a reply' n, r = some (a, reply', n) ∧ reply'.length = reply.length ∧ n ≤ reply.length

theorem fits_silent (a : UdpApp) (reply : List UInt8) : Fits reply (some (a, reply, 0)) :=
  ⟨a, reply, 0, rfl, rfl, Nat.zero_le _⟩

theorem fits_replyOk (a : UdpApp) (reply : List UInt8) (cmd ok : UInt8) :
    Fits reply (some (a.replyOk reply cmd ok)) := by
  unfold replyOk
  split
  case isTrue => exact fits_silent a reply
  case isFalse long => exact ⟨_, _, 2, rfl, by simp only [List.length_set], Nat.not_lt.1 long⟩

theorem fits_factoryReset (a : UdpApp) (reply : List UInt8) (cmd : UInt8) (nowMs : UInt32) :
    Fits reply (some (a.factoryReset reply cmd nowMs)) := by
  unfold factoryReset
  split
  · exact fits_replyOk ..
  · exact fits_replyOk ..

theorem fits_setIp (a : UdpApp) (reply data : List UInt8) : Fits reply (some (a.setIp reply data)) := by
  unfold setIp
  split
  · split
    · exact fits_replyOk ..
    · exact fits_replyOk ..
  · exact fits_replyOk ..

theorem fits_setModbus (a : UdpApp) (reply data : List UInt8) : Fits reply (some (a.setModbus reply data)) := by
  unfold setModbus
  split
  · exact fits_replyOk ..
  · exact fits_replyOk ..

theorem fits_setTime (accepts : UInt32 → Bool) (a : UdpApp) (reply data : List UInt8) :
    Fits reply (some (a.setTime accepts reply data)) := by
  unfold setTime
  split
  · exact fits_replyOk ..
  · exact fits_replyOk ..

theorem fits_getIp (a : UdpApp) (reply : List UInt8) : Fits reply (a.getIp reply) := by
  unfold getIp
  split
  case isTrue => exact fits_silent a reply
  case isFalse short =>
    have long : 5 ≤ reply.length := Nat.not_lt.1 short
    obtain ⟨buf, put, len⟩ := exists_put udpCmdGetIp (by omega : 0 < reply.length)
    obtain ⟨buf', copied, len'⟩ := exists_copyIn (by rw [len]; exact long : 1 + a.regs.ipOctets.length ≤ buf.length)
    rw [put, Option.bind_eq_bind, Option.bind_some, copied]
    exact ⟨a, buf', 5, rfl, len'.trans len, long⟩

theorem fits_getModbus (a : UdpApp) (reply : List UInt8) : Fits reply (a.getModbus reply) := by
  unfold getModbus
  split
  case isTrue => exact fits_silent a reply
  case isFalse short =>
    have long : 4 ≤ reply.length := Nat.not_lt.1 short
    obtain ⟨buf, put, len⟩ := exists_put udpCmdGetModbus (by omega : 0 < reply.length)
    obtain ⟨buf₁, put₁, len₁⟩ := exists_put (a.regs.getHolding (UInt16.ofNat holdingSlaveIdIdx)).toUInt8
      (by omega : 1 < buf.length)
    obtain ⟨buf₂, copied, len₂⟩ := exists_copyIn
      (by rw [len₁, len]; exact long :
        2 + (putBe16 (a.regs.getHolding (UInt16.ofNat holdingRs485BaudrateIdx))).length ≤ buf₁.length)
    simp only [put, put₁, copied, Option.bind_eq_bind, Option.bind_some]
    exact ⟨a, buf₂, 4, rfl, len₂.trans (len₁.trans len), long⟩

/-- `GET_VERSION` tests for 13 bytes and fills 14. -/
theorem fits_getVersion (ver : UdpVersion) (a : UdpApp) (reply : List UInt8) :
    Fits reply (a.getVersion ver reply) ↔ reply.length ≠ 13 := by
  unfold getVersion
  split
  case isTrue short => exact iff_of_true (fits_silent a reply) (Nat.ne_of_lt short)
  case isFalse short =>
    have long : 13 ≤ reply.length := Nat.not_lt.1 short
    obtain ⟨buf, text, len⟩ := exists_copyIn (by simpa using by omega :
      0 + [udpCmdGetVersion, 0x76, 48 + min ver.major 9, 0x2E, 48 + min ver.minor 9, 0x2E, 48 + min ver.patch 9,
        0x5F].length ≤ reply.length)
    have git : ver.git.toList.length = 6 := Vector.length_toList
    simp only [text, Option.bind_eq_bind, Option.bind_some]
    by_cases room : 8 + ver.git.toList.length ≤ buf.length
    · obtain ⟨buf', copied, len'⟩ := exists_copyIn room
      rw [copied]
      exact iff_of_true ⟨a, buf', 14, rfl, len'.trans len, by omega⟩ (by omega)
    · rw [copyIn, if_neg room]
      exact iff_of_false (by rintro ⟨_, _, _, none, _⟩; cases none) (by omega)

/-! ## All commands -/

/-- A command accesses nothing outside its buffers and its reply fits, unless the version is asked for with a
13-byte reply buffer. -/
theorem udpAppCmdChecked_fits (ver : UdpVersion) (accepts : UInt32 → Bool) (a : UdpApp) (cmd : UInt8)
    (data reply : List UInt8) (nowMs : UInt32) :
    Fits reply (a.udpAppCmdChecked ver accepts cmd data reply nowMs) ↔
      ¬(cmd = udpCmdGetVersion ∧ reply.length = 13) := by
  rw [udpAppCmdChecked_eq]
  by_cases version : cmd = udpCmdGetVersion
  · subst version
    exact (fits_getVersion ver a reply).trans (by simp)
  · refine iff_of_true ?_ fun h => version h.1
    unfold udpAppCmd
    rw [if_neg version]
    split_ifs
    · exact fits_setIp ..
    · exact fits_getIp ..
    · exact fits_setModbus ..
    · exact fits_getModbus ..
    · exact fits_setTime ..
    · exact fits_replyOk ..
    · exact fits_factoryReset ..
    · exact fits_silent ..

/-- Thirteen bytes pass the test of `GET_VERSION`; the six bytes of the commit end one byte behind them. -/
theorem udpAppCmdChecked_thirteen_bytes :
    UdpApp.udpAppCmdChecked ⟨1, 2, 3, Vector.replicate 6 0x61⟩ (fun _ => true) ⟨RegMap.new 0, ⟨[], 0⟩, 0, .new⟩
      udpCmdGetVersion [] (List.replicate 13 0) 0 = none := by
  decide +kernel

end UdpApp

end IoEdgeHub
