import IoEdgeHub.Lib.Buffered
import IoEdgeHub.Lib.Run
import IoEdgeHub.Lib.Text

/-!
# HTTP connections (`serve` in `httpd.rs`)

`serve` reads into a buffer of 640 bytes, of which the last stays free, and after each read handles
the requests that are complete.  An event is what it does for one of them: a call of `dispatch`, an
error response, or the switch to a WebSocket session.  Time limits are left out, and a read of length
0 is the end of the reads.
-/

namespace IoEdgeHub

open Text Buffered
open Run (of_ite)

/-- What a request leads to. -/
inductive HttpEvent where
  | dispatch (method target : List UInt8) (body : Option (List UInt8))
  | error (status err : String) (keep : Bool)
  | upgrade (key : List UInt8)
deriving DecidableEq, Repr

namespace Http

/-- `RX_BUF` -/
def rxBuf : ℕ := 640

/-- `BODY_MAX` -/
def bodyMax : ℕ := 128

/-! ## Headers -/

/-- The position of the first empty line. -/
def findHdrEnd : List UInt8 → Option ℕ
  | [] => none
  | b :: rx =>
    if (b :: rx).take 4 = [13, 10, 13, 10] then some 0 else (findHdrEnd rx).map fun i => i + 1

/-- A blank or a tab. -/
def isBlank (b : UInt8) : Bool := b = 0x20 || b = 0x09

/-- Neither blank nor line end. -/
def isToken (b : UInt8) : Bool := b ≠ 0x20 && b ≠ 0x09 && b ≠ 0x0D && b ≠ 0x0A

/-- Method and target; a target of more than 96 bytes is cut off. -/
def parseRequestLine (rx : List UInt8) : Option (List UInt8 × List UInt8) :=
  let rx := rx.dropWhile isBlank
  let m := rx.takeWhile isToken
  if m = [] ∨ m.length > 8 then none
  else
    let t := ((rx.drop m.length).dropWhile isBlank).takeWhile isToken
    if t = [] then none else some (m, t.take 96)

/-- `to_ascii_lowercase` -/
def asciiLower (b : UInt8) : UInt8 := if 0x41 ≤ b ∧ b ≤ 0x5A then b + 0x20 else b

/-- `eq_ignore_ascii_case` -/
def eqIgnoreAsciiCase (a b : List UInt8) : Bool := a.map asciiLower = b.map asciiLower

/-- `is_ascii_whitespace` -/
def isAsciiWhitespace (b : UInt8) : Bool := b ∈ [0x20, 0x09, 0x0A, 0x0C, 0x0D]

/-- `trim_ascii` -/
def trimAscii (v : List UInt8) : List UInt8 :=
  ((v.dropWhile isAsciiWhitespace).reverse.dropWhile isAsciiWhitespace).reverse

/-- The value in a header line: the key in any case, a blank, the value. -/
def hdrLine (key text : List UInt8) : Option (List UInt8) :=
  if text.length > key.length ∧ eqIgnoreAsciiCase (text.take key.length) key ∧
      text[key.length]? = some 0x20 then
    some (text.drop (key.length + 1))
  else none

/-- `hdr_find` -/
def hdrFind (hdr : List UInt8) (key : String) : Option (List UInt8) :=
  (hdr.splitOn 0x0A).findSome? (hdrLine (utf8 key))

/-- The header has this value, in any case. -/
def hdrEq (hdr : List UInt8) (key want : String) : Bool :=
  match hdrFind hdr key with
  | some v => eqIgnoreAsciiCase (trimAscii v) (utf8 want)
  | none => false

/-- `hdr_content_len` -/
def hdrContentLen (hdr : List UInt8) : ℕ :=
  match hdrFind hdr "Content-Length:" with
  | some v => (parseUnsigned (2 ^ 32 - 1) (trim ((fromUtf8 v).getD []))).getD 0
  | none => 0

/-- `ws_extract_key` -/
def wsExtractKey (hdr : List UInt8) : Option (List UInt8) := do
  let v ← hdrFind hdr "Sec-WebSocket-Key:"
  if v.length < 24 then none else some (v.take 24)

/-! ## The parse loop -/

/-- A request that cannot be read. -/
def badRequest (err : String) : HttpEvent := .error "400 Bad Request" err false

/-- A method that is not UTF-8 is taken for the empty one. -/
def methodOf (m : List UInt8) : List UInt8 := if (fromUtf8 m).isSome then m else []

/-- The end of the connection, or its next request. -/
def served (event : HttpEvent) (used : ℕ) (cliClose : Bool) : Turn HttpEvent :=
  if cliClose then .last event else .next event used

/-- The upgrade of the connection; `wsFree` tells that no other session holds the slot. -/
def upgrade (wsFree : Bool) (hdr : List UInt8) : HttpEvent :=
  if !wsFree then .error "503 Service Unavailable" "ws busy" false
  else
    match wsExtractKey hdr with
    | some key => .upgrade key
    | none => .error "400 Bad Request" "bad request" true

/-- A request whose header is complete, `he` bytes long. -/
def request (wsFree : Bool) (rx : List UInt8) (he : ℕ) : Turn HttpEvent :=
  let hdr := rx.take he
  match parseRequestLine hdr with
  | none => .last (badRequest "bad request")
  | some (m, target) =>
    let method := methodOf m
    let contentLen := hdrContentLen hdr
    let cliClose := hdrEq hdr "Connection:" "close"
    let bodyOff := he + 4
    if contentLen > bodyMax then .last (badRequest "body too large")
    else if method = utf8 "GET" then
      if target = utf8 "/ws" ∧ hdrEq hdr "Upgrade:" "websocket" then .last (upgrade wsFree hdr)
      else served (.dispatch method target none) bodyOff cliClose
    else if rx.length - bodyOff < contentLen then .wait
    else
      served (.dispatch method target (some ((rx.drop bodyOff).take contentLen))) (bodyOff + contentLen)
        cliClose

/-- One turn of the loop. -/
def turn (wsFree : Bool) (rx : List UInt8) : Turn HttpEvent :=
  match findHdrEnd rx with
  | none => if rx.length ≥ rxBuf - 1 then .last (badRequest "header too large") else .wait
  | some he => request wsFree rx he

/-! ## What is complete stays what it is -/

variable {wsFree : Bool} {rx : List UInt8} {he : ℕ}

theorem findHdrEnd_le (found : findHdrEnd rx = some he) :
    he + 4 ≤ rx.length := by
  induction rx generalizing he with
  | nil => cases found
  | cons b rx ih =>
    rw [findHdrEnd] at found
    split at found
    · rename_i here
      obtain rfl := Option.some.inj found
      have whole := congrArg List.length here
      rw [List.length_take] at whole
      simp only [List.length_cons, List.length_nil] at whole ⊢
      omega
    · obtain ⟨i, later, rfl⟩ := Option.map_eq_some_iff.1 found
      have := ih later
      rw [List.length_cons]
      omega

theorem findHdrEnd_append (found : findHdrEnd rx = some he)
    (more : List UInt8) : findHdrEnd (rx ++ more) = some he := by
  induction rx generalizing he with
  | nil => cases found
  | cons b rx ih =>
    have long := findHdrEnd_le found
    rw [List.length_cons] at long
    have front : (b :: (rx ++ more)).take 4 = (b :: rx).take 4 := by
      rw [← List.cons_append]
      exact List.take_append_of_le_length (by rw [List.length_cons]; omega)
    rw [findHdrEnd] at found
    rw [List.cons_append, findHdrEnd, front]
    split at found
    · rename_i here
      rw [if_pos here, found]
    · rename_i not_here
      obtain ⟨i, later, rfl⟩ := Option.map_eq_some_iff.1 found
      rw [if_neg not_here, ih later]
      rfl

theorem served_next {event e : HttpEvent} {used n : ℕ} {cliClose : Bool}
    (next : served event used cliClose = .next e n) : used = n := by
  unfold served at next
  split at next <;> cases next
  rfl

/-- A request that need not wait is not affected by what arrives behind it. -/
theorem request_append (long : he + 4 ≤ rx.length)
    (complete : request wsFree rx he ≠ .wait) (more : List UInt8) :
    request wsFree (rx ++ more) he = request wsFree rx he := by
  have hdr : (rx ++ more).take he = rx.take he := List.take_append_of_le_length (by omega)
  unfold request at complete ⊢
  rw [hdr]
  dsimp only at complete ⊢
  rcases line : parseRequestLine (rx.take he) with _ | ⟨m, target⟩
  · rfl
  rw [line] at complete
  dsimp only at complete ⊢
  split
  · rfl
  rename_i small
  rw [if_neg small] at complete
  split
  · rfl
  rename_i post
  rw [if_neg post] at complete
  have here : ¬rx.length - (he + 4) < hdrContentLen (rx.take he) := by
    intro short
    rw [if_pos short] at complete
    exact complete rfl
  have body : ((rx ++ more).drop (he + 4)).take (hdrContentLen (rx.take he)) =
      (rx.drop (he + 4)).take (hdrContentLen (rx.take he)) := by
    rw [List.drop_append_of_le_length long, List.take_append_of_le_length (by rw [List.length_drop]; omega)]
  rw [if_neg here, if_neg (by rw [List.length_append]; omega), body]

/-- Nor is anything else that need not wait, a buffer full of header apart. -/
theorem turn_append (complete : turn wsFree rx ≠ .wait)
    {more : List UInt8} (room : (rx ++ more).length ≤ rxBuf - 1) :
    turn wsFree (rx ++ more) = turn wsFree rx := by
  unfold turn at complete ⊢
  rcases found : findHdrEnd rx with _ | he <;> rw [found] at complete
  · have full : rx.length ≥ rxBuf - 1 := by
      by_contra short
      exact complete (if_neg short)
    have nothing : more = [] := by
      rw [List.length_append] at room
      exact List.length_eq_zero_iff.1 (by omega)
    rw [nothing, List.append_nil, found]
  · rw [findHdrEnd_append found more]
    exact request_append (findHdrEnd_le found) complete more

/-- What a request takes from the buffer is there. -/
theorem request_takes {n : ℕ} {e : HttpEvent}
    (long : he + 4 ≤ rx.length) (next : request wsFree rx he = .next e n) : 0 < n ∧ n ≤ rx.length := by
  unfold request at next
  dsimp only at next
  split at next
  · cases next
  apply of_ite next
  · nofun
  intro _ next
  apply of_ite next
  · intro _ next
    apply of_ite next
    · nofun
    intro _ next
    rw [← served_next next]
    omega
  intro _ next
  apply of_ite next
  · nofun
  intro here next
  rw [← served_next next]
  omega

/-- The server of a connection. -/
def server (wsFree : Bool) : Server UInt8 HttpEvent where
  turn := turn wsFree
  takes := by
    intro rx e n next
    unfold turn at next
    split at next
    · split at next <;> cases next
    · rename_i he found
      exact request_takes (findHdrEnd_le found) next

theorem stable (wsFree : Bool) : (server wsFree).Stable (rxBuf - 1) := by
  intro rx more complete room
  exact turn_append complete room

/-! ## Reads -/

/-- The space offered to the next read. -/
def offered (rx : List UInt8) : ℕ := rxBuf - min rx.length (rxBuf - 1)

/-- `serve` over the reads of a connection. -/
def serve (wsFree : Bool) (reads : List (List UInt8)) : Option (Feed.Out (List UInt8) HttpEvent) :=
  (server wsFree).serve (rxBuf - 1) [] reads

/-- A read returns at least one byte, and no more than it was offered space for. -/
def Offered (rx data : List UInt8) : Prop := 1 ≤ data.length ∧ data.length ≤ offered rx

instance (rx data : List UInt8) : Decidable (Offered rx data) :=
  inferInstanceAs (Decidable (_ ∧ _))

/-- A read leaves some of the space free, unless it was offered a single byte. -/
def Spare (rx data : List UInt8) : Prop :=
  1 ≤ data.length ∧ (data.length < offered rx ∨ offered rx = 1 ∧ data.length = 1)

instance (rx data : List UInt8) : Decidable (Spare rx data) :=
  inferInstanceAs (Decidable (_ ∧ _))

theorem Spare.fits {data : List UInt8} (spare : Spare rx data) : Server.Fits (rxBuf - 1) rx data := by
  obtain ⟨filled, short | ⟨-, single⟩⟩ := spare
  · refine .inr ⟨List.ne_nil_of_length_pos filled, ?_⟩
    simp only [offered, rxBuf] at short ⊢
    omega
  · exact .inl single

/-- Two cuttings of a stream into reads that never fill the space they are offered give the same
requests and the same error responses. -/
theorem serve_segmentation {wsFree : Bool} {reads reads' : List (List UInt8)}
    (cut : reads.flatten = reads'.flatten)
    (spare : (server wsFree).Reads (rxBuf - 1) Spare [] reads)
    (spare' : (server wsFree).Reads (rxBuf - 1) Spare [] reads') :
    serve wsFree reads = serve wsFree reads' := by
  unfold serve
  rw [Server.serve_eq_consume (stable wsFree) (spare.mono fun _ _ => Spare.fits), cut,
    Server.serve_eq_consume (stable wsFree) (spare'.mono fun _ _ => Spare.fits)]

/-- A request of ten bytes. -/
def getX : List UInt8 := [0x47, 0x45, 0x54, 0x20, 0x2F, 0x78, 0x0D, 0x0A, 0x0D, 0x0A]

theorem serve_segmentation_getX :
    [getX].flatten = [getX.take 7, getX.drop 7].flatten ∧
      (server true).Reads (rxBuf - 1) Spare [] [getX] ∧
      (server true).Reads (rxBuf - 1) Spare [] [getX.take 7, getX.drop 7] ∧
      serve true [getX] = serve true [getX.take 7, getX.drop 7] :=
  ⟨by decide, by decide +kernel, by decide +kernel,
    serve_segmentation (by decide) (by decide +kernel) (by decide +kernel)⟩

/-- Sixty-five of them, one after the other. -/
def pipelined : List UInt8 := (List.replicate 65 getX).flatten

/-- A read that fills the buffer loses its last byte, and with it a request. -/
theorem full_read_loses_request :
    (server true).Reads (rxBuf - 1) Offered [] [pipelined.take 640, pipelined.drop 640] ∧
      (server true).Reads (rxBuf - 1) Offered [] [pipelined.take 639, pipelined.drop 639] ∧
      (serve true [pipelined.take 640, pipelined.drop 640]).map (fun out => out.emitted.length) =
        some 64 ∧
      (serve true [pipelined.take 639, pipelined.drop 639]).map (fun out => out.emitted.length) =
        some 65 := by
  decide +kernel

end Http

end IoEdgeHub
