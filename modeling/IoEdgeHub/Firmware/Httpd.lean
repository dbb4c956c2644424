import IoEdgeHub.Proto.Regmap
import IoEdgeHub.Proto.WebJson
import IoEdgeHub.Firmware.Fw

/-!
# WebSocket sessions of the web server

The WebSocket part of `httpd.rs`: what a complete client frame does.  `none` is a panic, which
comes only out of the JSON getters.
-/

namespace IoEdgeHub

open Text

/-- A call of the `fw` module, with what it returned. -/
inductive FwCall where
  | start (total : ℕ) (rc : ℤ)
  | write (data : List UInt8) (ok : Bool)
  | abort
  | finish (crc : BitVec 16) (ok : Bool)
  deriving DecidableEq, Repr

/-- What a command asks of the rest of the firmware. -/
inductive WsRequest where
  | cfgEraseAll
  | historySync
  | reboot
  deriving DecidableEq, Repr

/-- A session and the state its commands work on.  `out` holds the reply frames queued so far,
`nowMs` the uptime; `calls` records the calls of the `fw` module. -/
structure WsSession where
  regs : RegMap
  hooks : Hooks
  fw : Fw
  fwCrc : BitVec 16
  out : List UInt8
  alive : Bool
  nowMs : ℕ
  requests : List WsRequest
  calls : List FwCall

namespace WsSession

/-! ## Replies -/

/-- `ws_frame_hdr` -/
def wsFrameHdr (opcode : UInt8) (len : ℕ) : List UInt8 :=
  (0x80 ||| opcode) ::
    if len < 126 then [UInt8.ofNat len]
    else if len ≤ 0xFFFF then [126, UInt8.ofNat (len / 256), UInt8.ofNat len]
    else 127 :: (List.range 8).map fun i => UInt8.ofNat (len / 256 ^ (7 - i))

/-- `extend_from_slice` on the 768-byte vector: all or nothing. -/
def extendOut (out bytes : List UInt8) : List UInt8 :=
  if out.length + bytes.length ≤ 768 then out ++ bytes else out

/-- A frame is sent. -/
def queueFrame (s : WsSession) (opcode : UInt8) (payload : List UInt8) : WsSession :=
  { s with out := extendOut (extendOut s.out (wsFrameHdr opcode payload.length)) payload }

/-- A text frame is sent. -/
def reply (s : WsSession) (text : String) : WsSession := s.queueFrame 0x1 (utf8 text)

/-- Done. -/
def okReply : String := "\x7b\"ok\":true\x7d"

/-- Not done. -/
def failReply : String := "\x7b\"ok\":false\x7d"

/-- Not done, with a reason. -/
def errReply (err : String) : String := "\x7b\"ok\":false,\"err\":\"" ++ err ++ "\"\x7d"

/-- Items with commas between them. -/
def commaSep (items : List (List UInt8)) : List UInt8 := (items.intersperse (utf8 ",")).flatten

/-- The IO snapshot; its text always fits the 256-byte string. -/
def buildIoJson (r : RegMap) (nowMs : ℕ) : List UInt8 :=
  let di := r.getInput (UInt16.ofNat inputDiIdx)
  let dos := r.getHolding (UInt16.ofNat holdingDoIdx)
  let bit (v : UInt16) (i : ℕ) : List UInt8 := dec ((v >>> UInt16.ofNat i) &&& 1).toNat
  utf8 "\x7b\"t\":\"io\",\"di\":[" ++ commaSep ((List.range diNum).map (bit di)) ++
    utf8 "],\"do\":[" ++ commaSep ((List.range doNum).map (bit dos)) ++
    utf8 "],\"ai\":[" ++
    commaSep ((List.range aiNum).map fun i => dec (r.getInput (UInt16.ofNat (inputAi0Idx + i))).toNat) ++
    utf8 "],\"di_en\":" ++ dec (r.getHolding (UInt16.ofNat holdingDiEnableIdx)).toNat ++
    utf8 ",\"ai_en\":" ++ dec (r.getHolding (UInt16.ofNat holdingAiEnableIdx)).toNat ++
    utf8 ",\"ms\":" ++ dec nowMs ++ utf8 "\x7d"

/-! ## Register commands -/

/-- Ask another task. -/
def request (s : WsSession) (r : WsRequest) : WsSession := { s with requests := s.requests ++ [r] }

/-- Carry out a register write, if it is accepted. -/
def commit (s : WsSession) : Option (RegMap × Hooks) → WsSession × Bool
  | some (regs, hooks) => ({ s with regs, hooks }, true)
  | none => (s, false)

/-- `web_write_do_bit` -/
def webWriteDoBit (s : WsSession) (bit : UInt16) (state : Bool) : WsSession × Bool :=
  s.commit (s.regs.ioWriteDoBit bit state s.hooks)

/-- `web_cmd_reg` -/
def webCmdReg (s : WsSession) (addr value : ℤ) : WsSession × Bool :=
  if ¬(0 ≤ addr ∧ addr < modbusHoldingRegisterNumbers) ∨ ¬(0 ≤ value ∧ value ≤ 0xFFFF) then (s, false)
  else if addr.toNat = holdingRebootIdx then
    (if value ≠ 0 then s.request .reboot else s, true)
  else s.commit (s.regs.ioWriteHolding (UInt16.ofNat addr.toNat) (UInt16.ofNat value.toNat) s.hooks)

/-- The four octets of a dotted address. -/
def parseIp (text : List Char) : Option (Vector UInt8 4) :=
  match (text.splitOn '.').map (parseUnsigned 255) with
  | [some a, some b, some c, some d] =>
    some (Bytes.quad (UInt8.ofNat a) (UInt8.ofNat b) (UInt8.ofNat c) (UInt8.ofNat d))
  | _ => none

/-- One optional numeric field: an error text when it is out of its range, a register write
otherwise. -/
def cfgField (s : WsSession) (body : List UInt8) (key : String) (valid : ℤ → Bool) (idx : ℕ)
    (err : String) : Option (WsSession × Option String) := do
  match ← jsonGetI32 body key with
  | none => return (s, none)
  | some v => return if valid v then ((s.webCmdReg idx v).1, none) else (s, some err)

/-- The fields of a `cfg` command after `ip`, in order, up to the first error. -/
def cfgFields (s : WsSession) (body : List UInt8) :
    List (String × (ℤ → Bool) × ℕ × String) → Option (WsSession × Option String)
  | [] => some (s, none)
  | (key, valid, idx, err) :: rest => do
    match ← s.cfgField body key valid idx err with
    | (s, none) => s.cfgFields body rest
    | (s, some err) => return (s, some err)

/-- The numeric fields: key, valid values, register and error. -/
def cfgFieldTable : List (String × (ℤ → Bool) × ℕ × String) :=
  [("rs485", fun v => 1200 ≤ v ∧ v ≤ 115200, holdingRs485BaudrateIdx, "invalid rs485 baud"),
    ("sid", fun v => 1 ≤ v ∧ v ≤ 247, holdingSlaveIdIdx, "invalid slave id"),
    ("can_bps", fun v => v ∈ [50, 100, 125, 250, 500, 800, 1000], holdingCanBaudrateIdx,
      "invalid can baud"),
    ("can_id", fun v => 1 ≤ v ∧ v ≤ 0x7FF, holdingCanIdIdx, "invalid can id")]

/-- `ip_addr_valid` of the four octets. -/
def octetsValid : List UInt8 → Bool
  | [a, b, c, d] => ipAddrValid a b c d
  | _ => false

/-- Returns the error text, if any.  An `ip` that is not UTF-8 ends the command without an error. -/
def webCmdCfg (s : WsSession) (body : List UInt8) : Option (WsSession × Option String) := do
  match ← jsonGetStr body "ip" with
  | none => s.cfgFields body cfgFieldTable
  | some ip =>
    match fromUtf8 ip with
    | none => return (s, none)
    | some text =>
      match parseIp text with
      | none => return (s, some "invalid ip")
      | some oct =>
        if !octetsValid oct.toList then return (s, some "invalid ip")
        else
          let put (s : WsSession) (i : Fin 4) : WsSession :=
            (s.commit (s.regs.ioWriteHolding (UInt16.ofNat (holdingIpOctet1Idx + i)) (oct.get i).toUInt16
              s.hooks)).1
          cfgFields ((List.finRange 4).foldl put s) body cfgFieldTable

/-- The year 2000. -/
def tsMin : UInt32 := 946684800

/-- The year 2100. -/
def tsMax : UInt32 := 4102444800

/-- The firmware's `set_timestamp`: accepted inside the validity window. -/
def setTimestamp (s : WsSession) (ts : UInt32) : WsSession × Bool :=
  let hooks := s.hooks.call (.setTimestamp ts)
  if tsMin ≤ ts ∧ ts ≤ tsMax then ({ s with hooks := { hooks with nowEpoch := ts } }, true)
  else ({ s with hooks }, false)

/-! ## The upgrade session -/

/-- `fw::start` -/
def fwStart (s : WsSession) (total : ℕ) (keyhash : Option (List UInt8)) : WsSession × ℤ :=
  let (fw, rc) := s.fw.start total keyhash
  ({ s with fw, calls := s.calls ++ [.start total rc] }, rc)

/-- `fw::write` -/
def fwWrite (s : WsSession) (data : List UInt8) : WsSession × Bool :=
  let (fw, ok) := s.fw.write data
  ({ s with fw, calls := s.calls ++ [.write data ok] }, ok)

/-- `fw::abort` -/
def fwAbort (s : WsSession) : WsSession :=
  { s with fw := s.fw.abort, calls := s.calls ++ [.abort] }

/-- `fw::finish` -/
def fwFinish (s : WsSession) (crc : BitVec 16) : WsSession × Bool :=
  let (fw, ok) := s.fw.finish (some crc)
  ({ s with fw, calls := s.calls ++ [.finish crc ok] }, ok)

/-- Size precheck, readback verify, swap request.  The first two exits leave `fw_crc` as it is. -/
def wsFwEnd (s : WsSession) : WsSession × String :=
  let got := s.fw.received
  if got = 0 then (s.fwAbort, errReply "no data")
  else if got ≠ s.fw.totalOf then (s.fwAbort, errReply "size mismatch")
  else
    match s.fwFinish s.fwCrc with
    | (s, false) => ({ s with fwCrc := 0 }, errReply "crc mismatch")
    | (s, true) =>
      match bootSetPending s.fw.nor true with
      | (nor, false) => ({ s with fwCrc := 0, fw := { s.fw with nor } }, errReply "boot_request")
      | (nor, true) => ({ s with fwCrc := 0, fw := { s.fw with nor } }, okReply)

/-! ## Text commands -/

/-- `do` -/
def cmdDo (s : WsSession) (payload : List UInt8) : Option WsSession := do
  let index ← jsonGetI32 payload "index"
  let value ← jsonGetI32 payload "value"
  match index, value with
  | some i, some v =>
    if 0 ≤ i ∧ i < 8 then
      match s.webWriteDoBit (UInt16.ofNat i.toNat) (v ≠ 0) with
      | (s, true) => return s.queueFrame 0x1 (buildIoJson s.regs s.nowMs)
      | (s, false) => return s.reply (errReply "bad index")
    else return s.reply (errReply "bad index")
  | _, _ => return s.reply (errReply "bad index")

/-- `reg` -/
def cmdReg (s : WsSession) (payload : List UInt8) : Option WsSession := do
  let addr ← jsonGetI32 payload "addr"
  let value ← jsonGetI32 payload "value"
  match addr, value with
  | some a, some v =>
    let (s, ok) := s.webCmdReg a v
    return s.reply (if ok then okReply else failReply)
  | _, _ => return s.reply failReply

/-- `time` -/
def cmdTime (s : WsSession) (payload : List UInt8) : Option WsSession := do
  match ← jsonGetI32 payload "ts" with
  | some ts =>
    let (s, ok) := s.setTimestamp (UInt32.ofNat (ts % 2 ^ 32).toNat)
    return s.reply (if ok then okReply else failReply)
  | none => return s.reply failReply

/-- `cfg` -/
def cmdCfg (s : WsSession) (payload : List UInt8) : Option WsSession := do
  match ← s.webCmdCfg payload with
  | (s, none) => return s.reply okReply
  | (s, some err) => return s.reply (errReply err)

/-- What a start is answered with. -/
def startReply (rc : ℤ) : String :=
  if rc = 0 then okReply
  else if rc = -2 then errReply "keyhash mismatch"
  else if rc = -3 then errReply "already in progress"
  else errReply "erase/init"

/-- `fw_start` -/
def cmdFwStart (s : WsSession) (payload : List UInt8) : Option WsSession := do
  let size := (← jsonGetI32 payload "size").getD 0
  if size ≤ 0 then return s.reply (errReply "bad size")
  else
    match ← jsonGetStr payload "keyhash" with
    | none =>
      let (s, rc) := s.fwStart size.toNat none
      return s.reply (startReply rc)
    | some b64 =>
      match b64Decode b64 fwKeyhashLen with
      | none => return s.reply (errReply "keyhash mismatch")
      | some keyhash =>
        if keyhash.length ≠ 32 then return s.reply (errReply "keyhash mismatch")
        else
          let (s, rc) := s.fwStart size.toNat (some keyhash)
          return s.reply (startReply rc)

/-- `fw_end` -/
def cmdFwEnd (s : WsSession) : WsSession :=
  if !s.fw.active then s.reply (errReply "not in progress")
  else
    let (s, r) := s.wsFwEnd
    let s := if r = okReply then (s.request .historySync).request .reboot else s
    s.reply r

/-- `ws_handle_cmd` -/
def wsHandleCmd (s : WsSession) (payload : List UInt8) : Option WsSession := do
  let cmd := (← jsonGetStr payload "cmd").getD []
  if cmd = utf8 "do" then s.cmdDo payload
  else if cmd = utf8 "reg" then s.cmdReg payload
  else if cmd = utf8 "time" then s.cmdTime payload
  else if cmd = utf8 "cfg" then s.cmdCfg payload
  else if cmd = utf8 "save" then
    return reply { s with hooks := s.hooks.call .holdingSave } okReply
  else if cmd = utf8 "factory_reset" then
    return reply ((s.request .cfgEraseAll).request .reboot) okReply
  else if cmd = utf8 "fw_start" then s.cmdFwStart payload
  else if cmd = utf8 "fw_end" then return s.cmdFwEnd
  else return s.reply (errReply "unknown cmd")

/-! ## Requests -/

/-- The `POST` paths under `/api` that reach the registers or their hooks. -/
inductive ApiPost where
  | setDo
  | reg
  | time
  | save
  | cfg
  deriving DecidableEq, Repr

/-- The body of a request; the flag tells `json_ok` from `json_err`.  Nothing is queued for the
connection, the response is written elsewhere. -/
def apiPost (s : WsSession) (body : List UInt8) : ApiPost → Option (WsSession × Bool)
  | .setDo => do
    match ← jsonGetI32 body "index", ← jsonGetI32 body "value" with
    | some i, some v =>
      return if 0 ≤ i ∧ i < 8 then s.webWriteDoBit (UInt16.ofNat i.toNat) (v ≠ 0) else (s, false)
    | _, _ => return (s, false)
  | .reg => do
    match ← jsonGetI32 body "addr", ← jsonGetI32 body "value" with
    | some a, some v => return s.webCmdReg a v
    | _, _ => return (s, false)
  | .time => do
    match ← jsonGetI32 body "ts" with
    | some ts => return s.setTimestamp (UInt32.ofNat (ts % 2 ^ 32).toNat)
    | none => return (s, false)
  | .save => some ({ s with hooks := s.hooks.call .holdingSave }, true)
  | .cfg => do
    let (s, err) ← s.webCmdCfg body
    return (s, err.isNone)

/-! ## Frames -/

/-- A binary frame is firmware data while an upgrade runs. -/
def binaryFrame (s : WsSession) (payload : List UInt8) : WsSession :=
  if s.fw.active then
    match s.fwWrite payload with
    | (s, true) => { s with fwCrc := crc16Ccitt s.fwCrc payload }
    | (s, false) => s
  else s

/-- The frame callback of `ws_session`. -/
def frame (s : WsSession) (fin : Bool) (opcode : UInt8) (payload : List UInt8) : Option WsSession :=
  if !fin then some { s.queueFrame 0x8 [] with alive := false }
  else if opcode = 0x1 then s.wsHandleCmd (payload.take 255)
  else if opcode = 0x2 then some (s.binaryFrame payload)
  else if opcode = 0x8 then some { s.queueFrame 0x8 [] with alive := false }
  else if opcode = 0x9 then some (s.queueFrame 0xA payload)
  else if opcode = 0xA then some s
  else some { s with alive := false }

end WsSession

end IoEdgeHub
