import IoEdgeHub.Proto.Ftp
import IoEdgeHub.Firmware.Storage

/-!
# The FTP server

One session of `ftpd.rs`, command by command. What a command finds around it is an `FtpEnv`: the
answers of the storage task, the listing, the progress of a transfer, and the data connection. What
it does is a list of `FtpOut`. A result `none` is a panic.
-/

namespace IoEdgeHub

open Text
open Bytes (overwrite store)

/-! ## A session -/

/-- A control session. -/
structure FtpSession where
  authed : Bool
  anon : Bool
  cwd : List Char
  typeAscii : Bool
  rest : UInt32
  renameFrom : FtpPath
  renamePending : Bool
  portEp : Option Endpoint
  passivePort : UInt16
  slot : Fin 3
  quit : Bool
deriving DecidableEq

/-- A session that is not logged in. -/
def FtpSession.new (slot : Fin 3) : FtpSession where
  authed := false
  anon := false
  cwd := ['/']
  typeAscii := false
  rest := 0
  renameFrom := .replicate 96 0
  renamePending := false
  portEp := none
  passivePort := 0
  slot
  quit := false

/-- A reply line, bytes on the data connection, bytes copied into the slot's buffer, and a command
that found room in the queue. -/
inductive FtpOut where
  | line (text : List Char)
  | data (bytes : List UInt8)
  | staged (slot : Fin 3) (bytes : List UInt8)
  | queued (cmd : StorageCmd)
deriving DecidableEq

/-- One storage RPC: whether the queue had room, whether `rpc_wait` saw the counter move, and
`FTP_RES` when it was read. -/
structure Rpc where
  room : Bool
  arrived : Bool
  res : FtpRes

/-- One round of a download: the RPC, and `FTP_XFER` after it. -/
structure RetrChunk where
  rpc : Rpc
  chunk : List UInt8
  eof : Bool
  sent : UInt32

/-- A read from the data connection returns between 1 and 512 bytes. -/
structure DataRead where
  bytes : List UInt8
  nonempty : bytes ≠ []
  fits : bytes.length ≤ 512

/-- One round of an upload: the data read, the RPC that writes it, and `werr` after it. -/
structure StorChunk where
  read : DataRead
  rpc : Rpc
  werr : Bool

/-- What a command finds: answers of the storage task and of the data connection. -/
structure FtpEnv where
  ip : Vector UInt8 4
  pasv : UInt8
  now : UInt32
  rpc : Rpc
  ls : List LsEntry
  /-- The data connection could be opened; this many writes to it succeed. -/
  dataUp : Bool
  sends : ℕ
  /-- `FTP_XFER` after the open of a download, its rounds, and `err` at the end. -/
  xferSize : UInt32
  xferOpen : Bool
  chunks : List RetrChunk
  /-- After these rounds one more is asked for and not answered. -/
  lastRoom : Bool
  xferErr : Bool
  /-- The rounds of an upload until the client closes, and the final close. -/
  uploads : List StorChunk
  closing : Rpc

/-- The session after a command, and what it sent. -/
abbrev FtpResult := FtpSession × List FtpOut

/-- Every RPC is answered, and done. -/
def FtpEnv.answering : FtpEnv where
  ip := #v[192, 168, 1, 10]
  pasv := 0
  now := 0
  rpc := ⟨true, true, (true, false, 0)⟩
  ls := []
  dataUp := true
  sends := 0
  xferSize := 0
  xferOpen := false
  chunks := []
  lastRoom := true
  xferErr := false
  uploads := []
  closing := ⟨true, true, (true, false, 0)⟩

namespace FtpSession

/-- One line and nothing else. -/
def reply (s : FtpSession) (text : String) : FtpResult := (s, [.line text.toList])

/-- `rpc_send`: the command is dropped when the queue is full. -/
def rpcSend (rpc : Rpc) (cmd : StorageCmd) : List FtpOut := if rpc.room then [.queued cmd] else []

/-! ## Paths -/

/-- The components of a path; a ninth is dropped. -/
def pathStep (parts : List (List Char)) (seg : List Char) : Option (List (List Char)) :=
  if seg = [] || seg = ['.'] then some parts
  else if seg = ['.', '.'] then some parts.dropLast
  else do
    let part ← collect 48 (seg.take 47)
    return if parts.length < 8 then parts ++ [part] else parts

/-- The components joined, in 64 bytes: a component that does not fit is left out. -/
def joinParts : ℕ → List Char → List (List Char) → List Char
  | _, out, [] => out
  | i, out, p :: parts =>
    let out := if i > 0 then pushChar 64 out '/' else out
    joinParts (i + 1) (writePieces 64 out [p]) parts

/-- `norm_path` -/
def normPath (cwd input : List Char) : Option (List Char) := do
  let joined ←
    if input.head? = some '/' then collect 160 (input.take 159)
    else some (writePieces 160 [] [cwd, ['/'], input])
  let parts ← (joined.splitOn '/').foldlM pathStep []
  return joinParts 0 ['/'] parts

/-- At most 94 bytes of the path, padded with NUL. -/
def ftpPathBytes (p : List Char) : FtpPath :=
  overwrite (.replicate 96 0) ((utf8 (String.ofList p)).take 94)

/-! ## The data connection -/

/-- A pending `PORT` is used up; without one a passive port must have been chosen. -/
def openData (s : FtpSession) (env : FtpEnv) : FtpSession × Bool :=
  match s.portEp with
  | some _ => ({ s with portEp := none }, env.dataUp)
  | none => (s, s.passivePort != 0 && env.dataUp)

/-- `pick_pasv_port` -/
def pickPasvPort (n : UInt8) : UInt16 := 40000 + UInt16.ofNat (n.toNat % 1000)

/-! ## Directory listings -/

/-- The names of the months. -/
def months : List String :=
  ["Jan", "Feb", "Mar", "Apr", "May", "Jun", "Jul", "Aug", "Sep", "Oct", "Nov", "Dec"]

/-- The name of a month, counted from 0. -/
def monthName (i : ℕ) : List Char := (months[i]?.getD "").toList

/-- `{} {:2} {:02}:{:02}` -/
def lsTime (month : ℕ) (day hour min : ℕ) : List Char :=
  monthName month ++ [' '] ++ padLeft 2 ' ' (decChars day) ++ [' '] ++ padLeft 2 '0' (decChars hour) ++
    [':'] ++ padLeft 2 '0' (decChars min)

/-- Two digits of a name. -/
def twoAt (b : List UInt8) (i : ℕ) : Option ℕ := do
  parseUnsigned (2 ^ 32 - 1) (← fromUtf8 ((b.drop i).take 2))

/-- The time in the name of a history file. -/
def nameTime (name : List Char) : Option (List Char) := do
  let b := utf8 (String.ofList name)
  guard (b.length ≥ 14 && b.take 5 = utf8 "data_")
  let mon ← twoAt b 5
  let day ← twoAt b 7
  let h ← twoAt b 10
  let m ← twoAt b 12
  guard (1 ≤ mon && mon ≤ 12 && 1 ≤ day && day ≤ 31 && h ≤ 23 && m ≤ 59)
  return lsTime (mon - 1) day h m

/-- The present time, with the date computed on the spot. -/
def fmtLsFallback (nowEpoch : UInt32) : List Char :=
  let now : ℤ := nowEpoch.toNat + 8 * 3600
  let days := now / 86400
  let secs := (now % 86400).toNat
  let z := days + 719468
  let era := Int.tdiv (if z ≥ 0 then z else z - 146096) 146097
  let doe := (z - era * 146097).toNat
  let yoe := (doe - doe / 1460 + doe / 36524 - doe / 146096) / 365
  let doy := doe - (365 * yoe + yoe / 4 - yoe / 100)
  let mp := (5 * doy + 2) / 153
  let d := doy - (153 * mp + 2) / 5 + 1
  let m := if mp < 10 then mp + 3 else mp - 9
  lsTime (min (m - 1) 11) d (secs / 3600) (secs / 60 % 60)

/-- Any other file is shown with the present time. -/
def fmtLsTime (name : List Char) (now : UInt32) : List Char :=
  match nameTime name with
  | some t => t
  | none => fmtLsFallback now

/-- A line of a listing. -/
def lsLine (env : FtpEnv) (long : Bool) (e : LsEntry) : List UInt8 :=
  let name := (fromUtf8 e.name).getD []
  let perms := (if e.isDir then "drwxr-xr-x" else "-rw-r--r--").toList
  let pieces :=
    if long then
      [perms, " 1 owner group ".toList, padLeft 10 ' ' (decChars e.size.toNat), [' '], fmtLsTime name env.now,
        [' '], name, ['\r', '\n']]
    else [name, ['\r', '\n']]
  utf8 (String.ofList (writePieces 256 [] pieces))

/-- Switches such as `-la` are not part of the path. -/
def listPath (arg : List Char) : List Char :=
  if arg.take 2 = ['-', ' '] then arg.drop 2
  else if arg.head? = some '-' && !arg.contains '/' then []
  else arg

/-- `cmd_list` -/
def cmdList (s : FtpSession) (env : FtpEnv) (arg : List Char) (long : Bool) : Option FtpResult := do
  let fp ← normPath s.cwd (listPath arg)
  let asked := rpcSend env.rpc (.ftpLs (ftpPathBytes fp))
  if !env.rpc.arrived || env.ls.isEmpty then
    return (s, asked ++ [.line "550 No such file or directory".toList])
  let asked := asked ++ [.line "150 Here comes the directory listing".toList]
  let (s, up) := s.openData env
  if !up then return (s, asked ++ [.line "425 No data connection".toList])
  let sent := ((env.ls.map (lsLine env long)).take env.sends).map FtpOut.data
  return (s, asked ++ sent ++ [.line "226 Directory send OK".toList])

/-! ## Downloads -/

/-- In ASCII mode a line feed is sent as CR LF. -/
def lfToCrlf (bytes : List UInt8) : List UInt8 := bytes.flatMap fun b => if b = 0x0A then [0x0D, b] else [b]

/-- The rounds of a download: `size` is what is left from the offset `rest` on, and `sends` the
number of writes the data connection still takes. -/
def retrLoop (s : FtpSession) (env : FtpEnv) (rest : UInt32) : ℕ → List RetrChunk → List FtpOut
  | _, [] => rpcSend ⟨env.lastRoom, false, (false, false, 0)⟩ (.ftpReadChunk s.slot)
  | sends, c :: cs =>
    let asked := rpcSend c.rpc (.ftpReadChunk s.slot)
    if !c.rpc.arrived then asked
    else
      let done := c.eof && (c.chunk.isEmpty || c.sent ≥ env.xferSize || c.sent ≥ env.xferSize + rest)
      if c.chunk.isEmpty then if done then asked else asked ++ s.retrLoop env rest sends cs
      else if sends = 0 then asked
      else
        let sent := asked ++ [.data (if s.typeAscii then lfToCrlf c.chunk else c.chunk)]
        if done then sent else sent ++ s.retrLoop env rest (sends - 1) cs

/-- `cmd_retr` -/
def cmdRetr (s : FtpSession) (env : FtpEnv) (arg : List Char) : Option FtpResult := do
  if !s.authed then return s.reply "530 Not logged in"
  let fp ← normPath s.cwd arg
  let rest := s.rest
  let asked := rpcSend env.rpc (.ftpOpenRead s.slot (ftpPathBytes fp) rest)
  let ok := env.rpc.arrived && env.rpc.res.1
  let s := { s with rest := 0 }
  if !ok || !env.xferOpen then return (s, asked ++ [.line "550 Failed to open file".toList])
  let asked := asked ++ [.line "150 Opening data connection".toList]
  let (s, up) := s.openData env
  if !up then
    return (s, asked ++ rpcSend env.closing (.ftpCloseWrite s.slot) ++ [.line "425 No data connection".toList])
  let last := if env.xferErr then "426 Transfer aborted: read error" else "226 Transfer complete"
  return (s, asked ++ s.retrLoop env rest env.sends env.chunks ++ [.line last.toList])

/-! ## Uploads -/

/-- Carriage return. -/
def cr : UInt8 := 0x0D

/-- Line feed. -/
def lf : UInt8 := 0x0A

/-- The loop of the ASCII conversion: bytes move from position `i` down to position `o` of the same
buffer, a CR before an LF is skipped. The fuel is the number of bytes left. -/
def compact (n : ℕ) : ℕ → Vector UInt8 512 → ℕ → ℕ → Option (Vector UInt8 512 × ℕ)
  | 0, buf, _, o => some (buf, o)
  | fuel + 1, buf, i, o =>
    if i < n then do
      let b ← buf[i]?
      if b = cr && i + 1 < n && buf[i + 1]? = some lf then compact n fuel buf (i + 1) o
      else compact n fuel (← store buf o b) (i + 1) (o + 1)
    else some (buf, o)

/-- Returns the buffer, how much of it is to be written, and whether a CR is held back. -/
def convertAscii (buf : Vector UInt8 512) (n : ℕ) (pendingCr : Bool) :
    Option (Vector UInt8 512 × ℕ × Bool) := do
  let start := if pendingCr && n > 0 && buf[0] = lf then 1 else 0
  let (buf, o) ← compact n n buf start 0
  if n > start && buf[n - 1]? = some cr && o > 0 then return (buf, o - 1, true)
  else return (buf, o, false)

/-- The `wlen` of a read of `n` bytes: only ASCII type is converted. -/
def wlen (s : FtpSession) (buf : Vector UInt8 512) (n : ℕ) (pendingCr : Bool) :
    Option (Vector UInt8 512 × ℕ × Bool) :=
  if s.typeAscii then convertAscii buf n pendingCr else some (buf, n, pendingCr)

/-- The rounds of an upload, and whether the storage task failed one. -/
def storLoop (s : FtpSession) :
    List StorChunk → Vector UInt8 512 → Bool → Option (List FtpOut × Bool)
  | [], _, _ => some ([], false)
  | c :: cs, buf, pendingCr => do
    let (buf, wlen, pendingCr) ← s.wlen (overwrite buf c.read.bytes) c.read.bytes.length pendingCr
    if wlen > 0 then
      let handed :=
        .staged s.slot (buf.toList.take wlen) :: rpcSend c.rpc (.ftpWriteChunk s.slot wlen)
      if !c.rpc.arrived || c.werr then return (handed, true)
      let (more, xferErr) ← s.storLoop cs buf pendingCr
      return (handed ++ more, xferErr)
    else s.storLoop cs buf pendingCr

/-- `cmd_stor` -/
def cmdStor (s : FtpSession) (env : FtpEnv) (arg : List Char) (isAppe : Bool) : Option FtpResult := do
  if !s.authed || s.anon then return s.reply "530 Permission denied"
  let fp ← normPath s.cwd arg
  let mode := if isAppe then .append else if s.rest > 0 then .rest s.rest else .trunc
  let asked := rpcSend env.rpc (.ftpOpenWrite s.slot (ftpPathBytes fp) mode)
  let ok := env.rpc.arrived && env.rpc.res.1
  let s := { s with rest := 0 }
  if !ok then return (s, asked ++ [.line "550 Failed to open file".toList])
  let asked := asked ++ [.line "150 Ok to send data".toList]
  let closing := rpcSend env.closing (.ftpCloseWrite s.slot)
  let (s, up) := s.openData env
  if !up then return (s, asked ++ closing ++ [.line "425 No data connection".toList])
  let (handed, xferErr) ← s.storLoop env.uploads (.replicate 512 0) false
  let closeOk := env.closing.arrived && env.closing.res.1
  let last :=
    if xferErr || !closeOk then "451 Requested action aborted: local error" else "226 Transfer complete"
  return (s, asked ++ handed ++ closing ++ [.line last.toList])

/-! ## Commands -/

end FtpSession

/-- The commands of `handle_command`. -/
inductive Verb where
  | user | pass | syst | feat | type | pwd | cwd | cdup | pasv | epsv | port | eprt | list | nlst
  | retr | stor | appe | dele | rmd | xrmd | mkd | xmkd | size | rest | rnfr | rnto | quit | noop
  | allo | unknown
deriving DecidableEq, Repr

/-- The verbs of `handle_command`. -/
def verbs : List (String × Verb) :=
  [("USER", .user), ("PASS", .pass), ("SYST", .syst), ("FEAT", .feat), ("TYPE", .type), ("PWD", .pwd),
    ("CWD", .cwd), ("CDUP", .cdup), ("PASV", .pasv), ("EPSV", .epsv), ("PORT", .port), ("EPRT", .eprt),
    ("LIST", .list), ("NLST", .nlst), ("RETR", .retr), ("STOR", .stor), ("APPE", .appe), ("DELE", .dele),
    ("RMD", .rmd), ("XRMD", .xrmd), ("MKD", .mkd), ("XMKD", .xmkd), ("SIZE", .size), ("REST", .rest),
    ("RNFR", .rnfr), ("RNTO", .rnto), ("QUIT", .quit), ("NOOP", .noop), ("ALLO", .allo)]

/-- The verb and the argument of a line; a line that is no text is an empty one. -/
def parseLine (line : List UInt8) : Verb × List Char :=
  let text := (fromUtf8 line).getD []
  let cmd := text.takeWhile (· != ' ')
  let arg := trim ((text.drop cmd.length).drop 1)
  let upper := (cmd.map asciiUpper).foldl (pushChar 8) []
  ((((verbs.find? fun v => v.1.toList = upper).map Prod.snd).getD .unknown), arg)

namespace FtpSession

/-- The reply to `FEAT`. -/
def features : String :=
  "211-Features:\r\n SIZE\r\n PASV\r\n EPSV\r\n PORT\r\n EPRT\r\n REST STREAM\r\n TYPE A;I\r\n NLST\r\n " ++
    "MKD\r\n RMD\r\n211 END"

/-- The names that need no password. -/
def anonymous (arg : List Char) : Bool := arg = "anonymous".toList || arg = "ftp".toList

/-- `FTP_PASS` -/
def ftpPass : List Char := "admin".toList

/-- The commands that log in. -/
def cmdUser (s : FtpSession) (arg : List Char) : FtpResult :=
  { s with anon := anonymous arg, renamePending := false }.reply "331 Please specify the password"

/-- `PASS` -/
def cmdPass (s : FtpSession) (arg : List Char) : FtpResult :=
  if s.anon || arg = ftpPass then { s with authed := true }.reply "230 Login successful"
  else { s with authed := false }.reply "530 Login incorrect"

/-- `PASV` and `EPSV` -/
def cmdPasv (s : FtpSession) (env : FtpEnv) (extended : Bool) : FtpResult :=
  let p := pickPasvPort env.pasv
  let s := { s with portEp := none, passivePort := p }
  let n (k : ℕ) : List Char := decChars k
  let pieces :=
    if extended then ["229 Entering Extended Passive Mode (|||".toList, n p.toNat, "|)".toList]
    else
      "227 Entering Passive Mode (".toList :: ((env.ip.toList.map fun o => n o.toNat) ++
        [n (p.toNat / 256), n (p.toNat % 256)]).intersperse [','] ++ [[')']]
  (s, [.line (writePieces 96 [] pieces)])

/-- `PORT` and `EPRT` -/
def cmdPort (s : FtpSession) (ep : Option Endpoint) (ok bad : String) : FtpResult :=
  match ep with
  | some ep => { s with portEp := some ep }.reply ok
  | none => s.reply bad

/-- One RPC whose outcome is the reply; without an answer it has failed. -/
def pathRpc (env : FtpEnv) (cmd : StorageCmd) : List FtpOut × Bool :=
  (rpcSend env.rpc cmd, env.rpc.arrived && env.rpc.res.1)

/-- `DELE`, `RMD` and `XRMD` -/
def cmdRemove (s : FtpSession) (env : FtpEnv) (arg : List Char) (ok bad : String) : Option FtpResult := do
  if !s.authed || s.anon then return s.reply "550 Permission denied"
  let fp ← normPath s.cwd arg
  let (asked, done) := pathRpc env (.ftpRemove (ftpPathBytes fp))
  return (s, asked ++ [.line (if done then ok else bad).toList])

/-- `MKD` -/
def cmdMkd (s : FtpSession) (env : FtpEnv) (arg : List Char) : Option FtpResult := do
  if !s.authed || s.anon then return s.reply "550 Permission denied"
  let fp ← normPath s.cwd arg
  let (asked, done) := pathRpc env (.ftpMkdir (ftpPathBytes fp))
  let text :=
    if done then writePieces 128 [] ["257 \"".toList, arg, "\" created".toList]
    else "550 Cannot create directory".toList
  return (s, asked ++ [.line text])

/-- The result is read whether or not the wait succeeded. -/
def cmdSize (s : FtpSession) (env : FtpEnv) (arg : List Char) : Option FtpResult := do
  let fp ← normPath s.cwd arg
  let asked := rpcSend env.rpc (.ftpStat (ftpPathBytes fp))
  let (ok, isDir, size) := env.rpc.res
  let text := if ok && !isDir then "213 ".toList ++ decChars size.toNat else "550 Not found".toList
  return (s, asked ++ [.line text])

/-- `RNFR` -/
def cmdRnfr (s : FtpSession) (env : FtpEnv) (arg : List Char) : Option FtpResult := do
  let fp ← normPath s.cwd arg
  let asked := rpcSend env.rpc (.ftpStat (ftpPathBytes fp))
  if !env.rpc.res.1 || !s.authed || s.anon then return (s, asked ++ [.line "550 No such file".toList])
  return ({ s with renameFrom := ftpPathBytes fp, renamePending := true },
    asked ++ [.line "350 Ready for RNTO".toList])

/-- `RNTO` -/
def cmdRnto (s : FtpSession) (env : FtpEnv) (arg : List Char) : Option FtpResult := do
  let fp ← normPath s.cwd arg
  let allowed := s.renamePending && s.authed && !s.anon
  let asked := if allowed then rpcSend env.rpc (.ftpRename s.renameFrom (ftpPathBytes fp)) else []
  let text := if allowed && env.rpc.res.1 then "250 Rename successful" else "550 Rename failed"
  return ({ s with renamePending := false }, asked ++ [.line text.toList])

/-- `REST` -/
def cmdRest (s : FtpSession) (arg : List Char) : FtpResult :=
  let rest := (parseUnsigned (2 ^ 32 - 1) arg).getD 0
  ({ s with rest := UInt32.ofNat rest },
    [.line (writePieces 48 [] ["350 Restart position accepted (".toList, decChars rest, [')']])])

/-- `CWD` -/
def cmdCwd (s : FtpSession) (arg : List Char) : Option FtpResult := do
  let cwd ← normPath s.cwd arg
  return { s with cwd }.reply "250 Directory successfully changed"

/-- `handle_command`, once the line is parsed. -/
def execute (s : FtpSession) (env : FtpEnv) (arg : List Char) : Verb → Option FtpResult
  | .user => s.cmdUser arg
  | .pass => s.cmdPass arg
  | .syst => s.reply "215 UNIX Type: L8"
  | .feat => s.reply features
  | .type => { s with typeAscii := arg.head? = some 'A' || arg.head? = some 'a' }.reply "200 Type set"
  | .pwd =>
    some (s, [.line (writePieces 96 [] ["257 \"".toList, s.cwd, "\" is the current directory".toList])])
  | .cwd => s.cmdCwd arg
  | .cdup => s.cmdCwd "..".toList
  | .pasv => s.cmdPasv env false
  | .epsv => s.cmdPasv env true
  | .port => s.cmdPort (parsePortArg arg) "200 PORT command successful" "501 Syntax error in parameters"
  | .eprt =>
    s.cmdPort (parseEprtArg arg) "200 EPRT command successful" "522 Network protocol not supported, use (1)"
  | .list => s.cmdList env arg true
  | .nlst => s.cmdList env arg false
  | .retr => s.cmdRetr env arg
  | .stor => s.cmdStor env arg false
  | .appe => s.cmdStor env arg true
  | .dele => s.cmdRemove env arg "250 Delete OK" "550 Delete failed"
  | .rmd | .xrmd => s.cmdRemove env arg "250 Remove OK" "550 Cannot remove"
  | .mkd | .xmkd => s.cmdMkd env arg
  | .size => s.cmdSize env arg
  | .rest => s.cmdRest arg
  | .rnfr => s.cmdRnfr env arg
  | .rnto => s.cmdRnto env arg
  | .quit => { s with quit := true }.reply "221 Goodbye"
  | .noop | .allo => s.reply "200 OK"
  | .unknown => s.reply "502 Command not implemented"

/-- `handle_command` -/
def handleCommand (s : FtpSession) (env : FtpEnv) (line : List UInt8) : Option FtpResult :=
  let (verb, arg) := parseLine line
  s.execute env arg verb

end FtpSession

end IoEdgeHub
