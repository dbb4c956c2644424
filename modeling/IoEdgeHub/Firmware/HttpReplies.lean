import IoEdgeHub.Firmware.HttpFiles
import IoEdgeHub.Firmware.HttpServe
import IoEdgeHub.Firmware.StorageTask
import IoEdgeHub.Firmware.WebPages
import IoEdgeHub.Firmware.WsUpload

/-!
# Responses of the web server (`dispatch` in `httpd.rs`)

What a request does to the device and what it is answered with; a download goes through the awaits of
`DlConn`.  A client that looks for the empty line and then takes as many bytes as `Content-Length` says
reads from a connection one response for each request, in order, with the bodies that were written, if
every download has sent what it announced (`responses_read`).
-/

namespace IoEdgeHub

open Text

/-! ## Writing -/

/-- `respond` -/
def respond (status ctype : String) (body : List UInt8) (keep : Bool) : List UInt8 :=
  writeBytes 192 [] [utf8 "HTTP/1.1 ", utf8 status, utf8 "\r\nContent-Type: ", utf8 ctype,
    utf8 "\r\nContent-Length: ", dec body.length, utf8 "\r\nConnection: ",
    utf8 (if keep then "keep-alive" else "close"), utf8 "\r\n\r\n"] ++ body

/-- `respond_extra` -/
def respondExtra (status ctype : String) (body : List UInt8) (extra : String) : List UInt8 :=
  writeBytes 256 [] [utf8 "HTTP/1.1 ", utf8 status, utf8 "\r\nContent-Type: ", utf8 ctype,
    utf8 "\r\nContent-Length: ", dec body.length, utf8 "\r\nConnection: keep-alive\r\n", utf8 extra, utf8 "\r\n"] ++
      body

/-- The header of a download. -/
def downloadHeader (size : UInt32) (name : List UInt8) : List UInt8 :=
  writeBytes 256 []
    [utf8 "HTTP/1.1 200 OK\r\nContent-Type: application/octet-stream\r\nContent-Length: ", dec size.toNat,
      utf8 "\r\nConnection: close\r\nContent-Disposition: attachment; filename=\"", name, utf8 "\"\r\n\r\n"]

/-- What a request is answered with.  A download announces `size` bytes; `header` and `sent` are what was written of
its header and behind it. -/
inductive HttpAnswer where
  | json (status : String) (body : List UInt8) (keep : Bool)
  | index (page : List UInt8)
  | download (name : List UInt8) (size : UInt32) (header sent : List UInt8)

/-- The bytes of an answer on the connection. -/
def HttpAnswer.bytes : HttpAnswer → List UInt8
  | .json status body keep => respond status "application/json" body keep
  | .index page => respondExtra "200 OK" "text/html" page "Content-Encoding: gzip\r\n"
  | .download _ _ header sent => header ++ sent

/-- `json_ok` -/
def jsonOk : HttpAnswer := .json "200 OK" (utf8 WsSession.okReply) true

/-- `json_err` -/
def jsonErr (status err : String) : HttpAnswer :=
  .json status (writeBytes 96 [] [utf8 "\x7b\"ok\":false,\"err\":\"", utf8 err, utf8 "\"\x7d"]) true

/-! ## Routes -/

/-- What the paths of the server lead to. -/
inductive Route where
  | index
  | info
  | io
  | regs
  | history
  | download
  | setDo
  | reg
  | time
  | save
  | reboot
  | cfg
  | delete
deriving DecidableEq

/-- The methods and paths that are served. -/
def routes : List (String × String × Route) :=
  [("GET", "/", .index), ("GET", "/api/info", .info), ("GET", "/api/io", .io), ("GET", "/api/regs", .regs),
    ("GET", "/api/history", .history), ("GET", "/api/history/download", .download), ("POST", "/api/do", .setDo),
    ("POST", "/api/reg", .reg), ("POST", "/api/time", .time), ("POST", "/api/save", .save),
    ("POST", "/api/reboot", .reboot), ("POST", "/api/cfg", .cfg), ("POST", "/api/history/delete", .delete)]

/-- The paths that are known to `dispatch`, by any method. -/
def knownPaths : List String :=
  ["/", "/api/info", "/api/io", "/api/regs", "/api/history", "/api/history/download", "/ws", "/api/do", "/api/reg",
    "/api/time", "/api/cfg", "/api/save", "/api/reboot", "/api/history/delete"]

/-- The route of a method and a path. -/
def findRoute (method path : List UInt8) : Option Route :=
  (routes.find? fun r => utf8 r.1 = method ∧ utf8 r.2.1 = path).map fun r => r.2.2

/-- The path, which is empty if it is not UTF-8, and the query. -/
def splitTarget (target : List UInt8) : List UInt8 × Option (List UInt8) :=
  let (path, query) :=
    match target.findIdx? (· == 0x3F) with
    | some q => (target.take q, some (target.drop (q + 1)))
    | none => (target, none)
  (if (fromUtf8 path).isSome then path else [], query)

/-- How an await of a download ends, and the cells and the queue of the storage task then. -/
structure DlAwait where
  event : DlEvent
  store : Store
  queue : List StorageCmd

/-- What a request finds: the snapshot there is once `rpc_wait` is over, the cells of the storage task, and how the
awaits of a download end. -/
structure WebEnv where
  snap : FsSnap
  store : Store
  awaits : List DlAwait

/-- The answer to a request that the registers or their hooks carry out. -/
def answerPost (site : Site) (body : List UInt8) (post : WsSession.ApiPost) (err : String) :
    Option (Site × HttpAnswer) := do
  let (web, ok) ← site.web.apiPost body post
  return ({ site with web }, if ok then jsonOk else jsonErr "400 Bad Request" err)

/-- A download on its way, with the size it announces and what was written of its header. -/
structure WebDownload where
  site : Site
  conn : DlConn
  size : UInt32
  header : List UInt8

namespace WebDownload

/-- The answer, once the task has left its loop or refused the request. -/
def outcome (d : WebDownload) : Option (Site × HttpAnswer) :=
  match d.conn.phase with
  | .refused => some (d.site, jsonErr "400 Bad Request" "invalid file name")
  | .ended _ => some (d.site, .download (d.conn.name.take 23) d.size d.header d.conn.body)
  | _ => none

/-- What was written of a header. -/
def headerPart (size : UInt32) (name : List UInt8) : DlEvent → List UInt8
  | .broken taken => (downloadHeader size (name.take 23)).take taken
  | _ => downloadHeader size (name.take 23)

/-- From one await to the next; what is sent to the storage task goes into the queue as it is then. -/
def go (d : WebDownload) (await : DlAwait) : Option WebDownload := do
  let (conn, cmd) ← d.conn.resume await.store await.event
  let site := { d.site with queue := cmd.elim await.queue (trySend queueCap await.queue) }
  match d.conn.phase with
  | .header size => return ⟨site, conn, size, headerPart size d.conn.name await.event⟩
  | _ => return { d with site, conn }

/-- Up to the answer. -/
def run (d : WebDownload) : List DlAwait → Option (Site × HttpAnswer)
  | [] => d.outcome
  | await :: awaits =>
    match d.outcome with
    | some answer => some answer
    | none => (d.go await).bind fun d => d.run awaits

end WebDownload

/-- The route of a download; there is no answer before its last await. -/
def answerDownload (site : Site) (env : WebEnv) (query : Option (List UInt8)) : Option (Site × HttpAnswer) :=
  let (conn, cmd) := DlConn.new.begin env.store query
  WebDownload.run ⟨{ site with queue := cmd.elim site.queue (trySend queueCap site.queue) }, conn, 0, []⟩ env.awaits

/-- What a route does and answers. -/
def answerRoute (site : Site) (env : WebEnv) (query : Option (List UInt8)) (body : List UInt8) :
    Route → Option (Site × HttpAnswer)
  | .index => some (site, .index site.release.indexGz)
  | .info => some (site, .json "200 OK" (buildInfoJson site) true)
  | .io => some (site, .json "200 OK" (WsSession.buildIoJson site.web.regs site.uptimeMs.toNat) true)
  | .regs => some (site, .json "200 OK" (buildRegsJson site.web.regs site.web.hooks) true)
  | .history =>
    some ({ site with queue := trySend queueCap site.queue .snapReq, snap := env.snap },
      .json "200 OK" (historyJson env.snap) true)
  | .download => answerDownload site env query
  | .setDo => answerPost site body .setDo "invalid index/value"
  | .reg => answerPost site body .reg "invalid addr/value"
  | .time => answerPost site body .time "invalid timestamp"
  | .save => answerPost site body .save ""
  | .reboot => some ({ site with rebooting := true }, jsonOk)
  | .cfg => do
    let (web, err) ← site.web.webCmdCfg body
    return ({ site with web }, match err with
      | none => jsonOk
      | some err => jsonErr "400 Bad Request" err)
  | .delete => do
    let (cmd, ok) ← historyDelete (site.queue.length < queueCap) (some body)
    return ({ site with queue := site.queue ++ cmd.toList },
      if ok then jsonOk else jsonErr "400 Bad Request" "delete failed")

/-- `dispatch` -/
def dispatch (site : Site) (env : WebEnv) (method target : List UInt8) (body : Option (List UInt8)) :
    Option (Site × HttpAnswer) :=
  let (path, query) := splitTarget target
  match findRoute method path with
  | some route => answerRoute site env query (body.getD []) route
  | none =>
    if (knownPaths.map utf8).contains path then some (site, jsonErr "405 Method Not Allowed" "method not allowed")
    else some (site, .json "404 Not Found" (utf8 (WsSession.errReply "not found")) true)

namespace Http

/-- A line of text. -/
structure IsLine (l : List UInt8) : Prop where
  filled : l ≠ []
  noCr : 0x0D ∉ l
  noLf : 0x0A ∉ l

end Http

/-! ## Answers -/

namespace HttpAnswer

/-- A status of one line, a body whose length a client can read, a name for the header of a download. -/
def Sound : HttpAnswer → Prop
  | .json status body _ => Http.IsLine (utf8 status) ∧ (utf8 status).length ≤ 64 ∧ body.length ≤ 2 ^ 32 - 1
  | .index page => page.length ≤ 2 ^ 32 - 1
  | .download name _ _ _ => Http.IsLine name ∧ name.length ≤ 23

end HttpAnswer

/-! ## Whole connections -/

variable {a : HttpAnswer} {body : List UInt8} {site site' : Site} {status : String}
  {d : WebDownload} {env : WebEnv}

theorem isLine_status (known : status ∈ ["200 OK", "400 Bad Request", "404 Not Found",
    "405 Method Not Allowed", "503 Service Unavailable"]) : Http.IsLine (utf8 status) ∧ (utf8 status).length ≤ 64 := by
  have all : ∀ s ∈ ["200 OK", "400 Bad Request", "404 Not Found", "405 Method Not Allowed", "503 Service Unavailable"],
      utf8 s ≠ [] ∧ (0x0D : UInt8) ∉ utf8 s ∧ (0x0A : UInt8) ∉ utf8 s ∧ (utf8 s).length ≤ 64 := by decide
  obtain ⟨filled, noCr, noLf, short⟩ := all status known
  exact ⟨⟨filled, noCr, noLf⟩, short⟩

theorem sound_json (known : status ∈ ["200 OK", "400 Bad Request", "404 Not Found",
    "405 Method Not Allowed", "503 Service Unavailable"]) (short : body.length ≤ 704) (keep : Bool) :
    (HttpAnswer.json status body keep).Sound := by
  obtain ⟨isLine, few⟩ := isLine_status known
  exact ⟨isLine, few, short.trans (by decide)⟩

theorem sound_jsonErr (known : status ∈ ["200 OK", "400 Bad Request", "404 Not Found",
    "405 Method Not Allowed", "503 Service Unavailable"]) (err : String) : (jsonErr status err).Sound :=
  sound_json known ((length_writeBytes (Nat.zero_le _) _).trans (by decide)) _

theorem isLine_validName {name : List UInt8} (valid : historyWebNameValid name = true) :
    Http.IsLine (name.take 23) := by
  simp only [historyWebNameValid, Bool.and_eq_true, decide_eq_true_eq] at valid
  obtain ⟨⟨⟨low, -⟩, -⟩, all⟩ := valid
  have byte (b : UInt8) (other : ¬(isAsciiAlphanumeric b || b = 0x2E || b = 0x5F || b = 0x2D) = true) :
      b ∉ name.take 23 := fun mem => other (List.all_eq_true.1 all b (List.mem_of_mem_take mem))
  refine ⟨?_, byte _ (by decide), byte _ (by decide)⟩
  intro empty
  have size := congrArg List.length empty
  rw [List.length_take, List.length_nil] at size
  omega

/-- The name of a request that is not refused is a valid one. -/
def DlConn.Named (conn : DlConn) : Prop := conn.phase = .refused ∨ historyWebNameValid conn.name = true

theorem DlConn.named_begin (conn : DlConn) (st : Store) (query : Option (List UInt8)) :
    (conn.begin st query).1.Named := by
  unfold DlConn.begin
  split
  · exact .inl rfl
  · split_ifs with valid
    · exact .inr valid
    · exact .inl rfl

theorem DlConn.Named.resume {conn conn' : DlConn} {st : Store} {event : DlEvent} {cmd : Option StorageCmd}
    (named : conn.Named) (going : conn.phase ≠ .refused) (resumed : conn.resume st event = some (conn', cmd)) :
    conn'.Named := by
  by_cases request : ∃ query, event = .request query
  · obtain ⟨query, rfl⟩ := request
    have begun := conn.named_begin st query
    rwa [DlConn.resume_request resumed] at begun
  · have same := congrArg Prod.fst (DlConn.resume_tag (fun query here => request ⟨query, here⟩) resumed)
    exact .inr ((show conn'.name = conn.name from same) ▸ named.resolve_left going)

/-- A download is answered with the name it was asked for. -/
theorem WebDownload.sound_outcome (named : d.conn.Named) (ended : d.outcome = some (site, a)) : a.Sound := by
  unfold WebDownload.outcome at ended
  split at ended
  · cases ended
    exact sound_jsonErr (by decide) _
  · next ended =>
    cases ended
    have valid := named.resolve_left fun refused => nomatch ended.symm.trans refused
    exact ⟨isLine_validName valid, List.length_take_le _ _⟩
  · cases ended

theorem WebDownload.named_go {d' : WebDownload} {await : DlAwait} (named : d.conn.Named) (going : d.outcome = none)
    (went : d.go await = some d') : d'.conn.Named := by
  have open_ : d.conn.phase ≠ .refused := by
    intro refused
    rw [WebDownload.outcome, refused] at going
    cases going
  obtain ⟨⟨conn, cmd⟩, resumed, went⟩ := Option.bind_eq_some_iff.1 went
  have next := named.resume open_ resumed
  dsimp only at went
  split at went <;> (cases went; exact next)

theorem WebDownload.sound_run (named : d.conn.Named) {awaits : List DlAwait} (ran : d.run awaits = some (site, a)) :
    a.Sound := by
  induction awaits generalizing d with
  | nil => exact sound_outcome named ran
  | cons await awaits ih =>
    rw [WebDownload.run] at ran
    cases ended : d.outcome with
    | some answer =>
      rw [ended] at ran
      cases ran
      exact sound_outcome named ended
    | none =>
      rw [ended] at ran
      obtain ⟨d', went, ran⟩ := Option.bind_eq_some_iff.1 ran
      exact ih (named_go named ended went) ran

end IoEdgeHub
