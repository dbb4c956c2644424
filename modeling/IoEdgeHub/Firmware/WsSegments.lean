import IoEdgeHub.Firmware.WsUpload
import IoEdgeHub.Proto.WsFrames

/-!
# A WebSocket session over the reads of its socket

`ws_session` feeds each read to the parser and looks at `alive` only when the read is through.  A
frame that ends the session therefore does not keep the frames behind it in the same read from being
handled.  `serve_eq` gives the outcome of a session over any reads; `segmentation_iff` says which
streams have the same outcome however they are cut.
-/

namespace IoEdgeHub

open Feed (Out upTo past consumeUntil)
open Text (fromUtf8)

namespace WsFrame

/-- The callback sets `alive` to false at this frame: fragmented, close, or an opcode it does not
know. -/
def ends (f : WsFrame) : Bool := !f.fin || f.opcode ∉ [0x1, 0x2, 0x9, 0xA]

/-- The text that the callback hands to `ws_handle_cmd`. -/
def command (f : WsFrame) : Option (List UInt8) :=
  if f.fin ∧ f.opcode = 0x1 then some (f.payload.take 255) else none

end WsFrame

namespace WsSession

/-! ## Commands neither read nor end the connection

A command sees nothing of the replies queued so far and of `alive`. -/

/-- The session with other replies queued and another `alive`. -/
def dress (s : WsSession) (out : List UInt8) (alive : Bool) : WsSession := { s with out, alive }

theorem commit_dress (s : WsSession) (o : List UInt8) (a : Bool) (r : Option (RegMap × Hooks)) :
    (s.dress o a).commit r = ((s.commit r).1.dress o a, (s.commit r).2) := by
  cases r <;> rfl

theorem webWriteDoBit_dress (s : WsSession) (o : List UInt8) (a : Bool) (bit : UInt16) (state : Bool) :
    (s.dress o a).webWriteDoBit bit state =
      ((s.webWriteDoBit bit state).1.dress o a, (s.webWriteDoBit bit state).2) :=
  commit_dress s o a _

theorem webCmdReg_dress (s : WsSession) (o : List UInt8) (a : Bool) (addr value : ℤ) :
    (s.dress o a).webCmdReg addr value =
      ((s.webCmdReg addr value).1.dress o a, (s.webCmdReg addr value).2) := by
  unfold webCmdReg
  split
  · rfl
  split
  · split <;> rfl
  · exact commit_dress s o a _

theorem cfgField_dress (s : WsSession) (o : List UInt8) (a : Bool) (body : List UInt8) (key : String)
    (valid : ℤ → Bool) (idx : ℕ) (err : String) :
    (s.dress o a).cfgField body key valid idx err =
      (s.cfgField body key valid idx err).map fun r => (r.1.dress o a, r.2) := by
  unfold cfgField
  rcases jsonGetI32 body key with _ | _ | v
  · rfl
  · rfl
  · by_cases ok : valid v = true <;> simp [ok, webCmdReg_dress]

theorem cfgFields_dress (s : WsSession) (o : List UInt8) (a : Bool) (body : List UInt8)
    (fields : List (String × (ℤ → Bool) × ℕ × String)) :
    (s.dress o a).cfgFields body fields =
      (s.cfgFields body fields).map fun r => (r.1.dress o a, r.2) := by
  induction fields generalizing s with
  | nil => rfl
  | cons field fields ih =>
    obtain ⟨key, valid, idx, err⟩ := field
    rw [cfgFields, cfgFields, cfgField_dress]
    rcases s.cfgField body key valid idx err with _ | ⟨s₁, _ | e⟩
    · rfl
    · exact ih s₁
    · rfl

theorem foldl_dress {α : Type} {put : WsSession → α → WsSession} {o : List UInt8} {a : Bool}
    (each : ∀ s x, put (s.dress o a) x = (put s x).dress o a) (xs : List α) (s : WsSession) :
    xs.foldl put (s.dress o a) = (xs.foldl put s).dress o a := by
  induction xs generalizing s with
  | nil => rfl
  | cons x xs ih => rw [List.foldl_cons, each, ih, List.foldl_cons]

theorem webCmdCfg_dress (s : WsSession) (o : List UInt8) (a : Bool) (body : List UInt8) :
    (s.dress o a).webCmdCfg body = (s.webCmdCfg body).map fun r => (r.1.dress o a, r.2) := by
  unfold webCmdCfg
  rcases jsonGetStr body "ip" with _ | _ | ip
  · rfl
  · exact cfgFields_dress s o a body _
  rcases utf : fromUtf8 ip with _ | text
  · simp [utf]
  rcases octets : parseIp text with _ | oct
  · simp [utf, octets]
  by_cases ok : octetsValid oct.toList = true
  · simp only [utf, octets, ok, Option.bind_eq_bind, Option.bind_some, Bool.not_true, Bool.false_eq_true,
      if_false]
    rw [← cfgFields_dress, ← foldl_dress]
    intro s i
    exact congrArg Prod.fst (commit_dress s o a _)
  · simp [utf, octets, ok]

theorem setTimestamp_dress (s : WsSession) (o : List UInt8) (a : Bool) (ts : UInt32) :
    (s.dress o a).setTimestamp ts = ((s.setTimestamp ts).1.dress o a, (s.setTimestamp ts).2) := by
  unfold setTimestamp
  dsimp only [dress]
  split <;> rfl

theorem wsFwEnd_dress (s : WsSession) (o : List UInt8) (a : Bool) :
    (s.dress o a).wsFwEnd = (s.wsFwEnd.1.dress o a, s.wsFwEnd.2) := by
  unfold wsFwEnd
  dsimp only [dress]
  by_cases empty : s.fw.received = 0
  · simp only [if_pos empty, fwAbort]
  simp only [if_neg empty]
  by_cases whole : s.fw.received = s.fw.totalOf
  case neg => simp only [ne_eq, whole, not_false_eq_true, if_true, fwAbort]
  simp only [ne_eq, whole, not_true_eq_false, if_false, fwFinish]
  rcases s.fw.finish (some s.fwCrc) with ⟨fw, _ | _⟩
  · rfl
  · dsimp only
    rcases bootSetPending fw.nor true with ⟨nor, _ | _⟩ <;> rfl

/-! The replies aside, a command does the same to the dressed session, and leaves `alive` alone. -/

/-- The result, dressed. -/
def dressed (alive : Bool) (r : Option WsSession) : Option WsSession := r.map fun s => s.dress [] alive

/-- The result without its replies. -/
def muted (r : Option WsSession) : Option WsSession := r.map fun s => s.dress [] s.alive

theorem dressed_cases {a : Bool} {r r' : Option WsSession} (same : dressed a r = dressed a r') :
    (r = none ∧ r' = none) ∨ ∃ s s', r = some s ∧ r' = some s' ∧ s.dress [] a = s'.dress [] a := by
  rcases r with _ | s <;> rcases r' with _ | s'
  · exact .inl ⟨rfl, rfl⟩
  · cases same
  · cases same
  · exact .inr ⟨s, s', rfl, rfl, Option.some.inj same⟩

theorem muted_queueFrame (s : WsSession) (o : List UInt8) (a : Bool) (opcode opcode' : UInt8)
    (payload payload' : List UInt8) :
    muted (some ((s.dress o a).queueFrame opcode payload)) =
      dressed a (some (s.queueFrame opcode' payload')) := rfl

theorem muted_reply (s : WsSession) (o : List UInt8) (a : Bool) (text : String) :
    muted (some ((s.dress o a).reply text)) = dressed a (some (s.reply text)) :=
  muted_queueFrame s o a _ _ _ _

theorem cmdDo_dress (s : WsSession) (o : List UInt8) (a : Bool) (payload : List UInt8) :
    muted ((s.dress o a).cmdDo payload) = dressed a (s.cmdDo payload) := by
  unfold cmdDo
  rcases jsonGetI32 payload "index" with _ | _ | i
  · rfl
  · rcases jsonGetI32 payload "value" with _ | v
    · rfl
    · exact muted_reply s o a _
  rcases jsonGetI32 payload "value" with _ | _ | v
  · rfl
  · exact muted_reply s o a _
  simp only [Option.bind_eq_bind, Option.bind_some]
  split
  · rw [webWriteDoBit_dress]
    rcases s.webWriteDoBit (UInt16.ofNat i.toNat) (v ≠ 0) with ⟨s₁, _ | _⟩
    · exact muted_reply s₁ o a _
    · exact muted_queueFrame s₁ o a _ _ _ _
  · exact muted_reply s o a _

theorem cmdReg_dress (s : WsSession) (o : List UInt8) (a : Bool) (payload : List UInt8) :
    muted ((s.dress o a).cmdReg payload) = dressed a (s.cmdReg payload) := by
  unfold cmdReg
  rcases jsonGetI32 payload "addr" with _ | _ | addr
  · rfl
  · rcases jsonGetI32 payload "value" with _ | v
    · rfl
    · exact muted_reply s o a _
  rcases jsonGetI32 payload "value" with _ | _ | v
  · rfl
  · exact muted_reply s o a _
  simp only [Option.bind_eq_bind, Option.bind_some, webCmdReg_dress]
  exact muted_reply _ o a _

theorem cmdTime_dress (s : WsSession) (o : List UInt8) (a : Bool) (payload : List UInt8) :
    muted ((s.dress o a).cmdTime payload) = dressed a (s.cmdTime payload) := by
  unfold cmdTime
  rcases jsonGetI32 payload "ts" with _ | _ | ts
  · rfl
  · exact muted_reply s o a _
  simp only [Option.bind_eq_bind, Option.bind_some, setTimestamp_dress]
  exact muted_reply _ o a _

theorem cmdCfg_dress (s : WsSession) (o : List UInt8) (a : Bool) (payload : List UInt8) :
    muted ((s.dress o a).cmdCfg payload) = dressed a (s.cmdCfg payload) := by
  unfold cmdCfg
  rw [webCmdCfg_dress]
  rcases s.webCmdCfg payload with _ | ⟨s₁, _ | err⟩
  · rfl
  · exact muted_reply s₁ o a _
  · exact muted_reply s₁ o a _

theorem cmdFwStart_dress (s : WsSession) (o : List UInt8) (a : Bool) (payload : List UInt8) :
    muted ((s.dress o a).cmdFwStart payload) = dressed a (s.cmdFwStart payload) := by
  unfold cmdFwStart
  rcases jsonGetI32 payload "size" with _ | size
  · rfl
  simp only [Option.bind_eq_bind, Option.bind_some]
  split
  · exact muted_reply s o a _
  rcases jsonGetStr payload "keyhash" with _ | _ | b64
  · rfl
  · exact muted_reply (s.fwStart (size.getD 0).toNat none).1 o a _
  simp only [Option.bind_some]
  rcases b64Decode b64 fwKeyhashLen with _ | keyhash
  · exact muted_reply s o a _
  dsimp only
  split
  · exact muted_reply s o a _
  · exact muted_reply (s.fwStart (size.getD 0).toNat (some keyhash)).1 o a _

theorem cmdFwEnd_dress (s : WsSession) (o : List UInt8) (a : Bool) :
    muted (some (s.dress o a).cmdFwEnd) = dressed a (some s.cmdFwEnd) := by
  unfold cmdFwEnd
  rw [wsFwEnd_dress]
  by_cases active : s.fw.active
  · have active' : (s.dress o a).fw.active = true := active
    simp only [active, active', Bool.not_true, Bool.false_eq_true, if_false]
    split
    · exact muted_reply ((s.wsFwEnd.1.request .historySync).request .reboot) o a _
    · exact muted_reply s.wsFwEnd.1 o a _
  · have active' : ¬(s.dress o a).fw.active = true := active
    simp only [active, active', Bool.not_false, if_true]
    exact muted_reply s o a _

theorem wsHandleCmd_dress (s : WsSession) (o : List UInt8) (a : Bool) (payload : List UInt8) :
    muted ((s.dress o a).wsHandleCmd payload) = dressed a (s.wsHandleCmd payload) := by
  unfold wsHandleCmd
  rcases jsonGetStr payload "cmd" with _ | cmd
  · rfl
  simp only [Option.bind_eq_bind, Option.bind_some]
  split
  · exact cmdDo_dress s o a payload
  split
  · exact cmdReg_dress s o a payload
  split
  · exact cmdTime_dress s o a payload
  split
  · exact cmdCfg_dress s o a payload
  split
  · rfl
  split
  · rfl
  split
  · exact cmdFwStart_dress s o a payload
  split
  · exact cmdFwEnd_dress s o a
  · exact muted_reply s o a _

theorem wsHandleCmd_alive {s s' : WsSession} {payload : List UInt8}
    (ran : s.wsHandleCmd payload = some s') : s'.alive = s.alive := by
  have same : muted (s.wsHandleCmd payload) = dressed s.alive (s.wsHandleCmd payload) :=
    wsHandleCmd_dress s s.out s.alive payload
  rw [ran] at same
  have plain : s'.dress [] s'.alive = s'.dress [] s.alive := Option.some.inj same
  exact (congrArg WsSession.alive plain :)

/-! ## Frames -/

/-- The frame callback, on a frame as the parser delivers it. -/
def handle (s : WsSession) (f : WsFrame) : Option WsSession := s.frame f.fin f.opcode f.payload

/-- Frames one after the other. -/
def handleAll (s : WsSession) (fs : List WsFrame) : Option WsSession := fs.foldlM handle s

theorem binaryFrame_dress (s : WsSession) (o : List UInt8) (a : Bool) (payload : List UInt8) :
    (s.dress o a).binaryFrame payload = (s.binaryFrame payload).dress o a := by
  unfold binaryFrame
  by_cases active : s.fw.active = true
  · simp only [dress, active, if_true, fwWrite]
    rcases s.fw.write payload with ⟨fw, _ | _⟩ <;> rfl
  · simp only [dress, active, if_false, Bool.false_eq_true]

theorem binaryFrame_alive (s : WsSession) (payload : List UInt8) :
    (s.binaryFrame payload).alive = s.alive :=
  (congrArg WsSession.alive (binaryFrame_dress s s.out s.alive payload) :)

theorem handle_dress (s : WsSession) (o : List UInt8) (a : Bool) (f : WsFrame) :
    dressed true ((s.dress o a).handle f) = dressed true (s.handle f) := by
  unfold handle frame
  by_cases fin : f.fin
  case neg => simp [fin, dressed, queueFrame, dress]
  simp only [fin, Bool.not_true, Bool.false_eq_true, if_false]
  split
  · have same := congrArg (dressed true) (wsHandleCmd_dress s o a (f.payload.take 255))
    simpa [dressed, muted, dress, Function.comp_def] using same
  split
  · rw [binaryFrame_dress]
    rfl
  split
  · rfl
  split
  · rfl
  split <;> rfl

/-- It clears `alive` just when it ends the session. -/
theorem handle_alive {s s' : WsSession} {f : WsFrame} (ran : s.handle f = some s') :
    s'.alive = (s.alive && !f.ends) := by
  unfold handle frame at ran
  unfold WsFrame.ends
  by_cases fin : f.fin = true
  case neg =>
    rw [if_pos (by simp [fin])] at ran
    obtain rfl := Option.some.inj ran
    simp [fin]
  rw [if_neg (by simp [fin])] at ran
  split at ran
  · rename_i opcode
    simp [fin, opcode, wsHandleCmd_alive ran]
  split at ran
  · rename_i opcode
    obtain rfl := Option.some.inj ran
    simp [fin, opcode, binaryFrame_alive]
  split at ran
  · rename_i opcode
    obtain rfl := Option.some.inj ran
    simp [opcode]
  split at ran
  · rename_i opcode
    obtain rfl := Option.some.inj ran
    simp [fin, opcode, queueFrame]
  split at ran
  · rename_i opcode
    obtain rfl := Option.some.inj ran
    simp [fin, opcode]
  · obtain rfl := Option.some.inj ran
    simp [*]

theorem handleAll_cons (s : WsSession) (f : WsFrame) (fs : List WsFrame) :
    s.handleAll (f :: fs) = (s.handle f).bind fun s => s.handleAll fs := rfl

theorem handleAll_append (s : WsSession) (fs gs : List WsFrame) :
    s.handleAll (fs ++ gs) = (s.handleAll fs).bind fun s => s.handleAll gs := by
  rw [handleAll, List.foldlM_append]
  rfl

theorem handleAll_alive {s s' : WsSession} {fs : List WsFrame} (ran : s.handleAll fs = some s') :
    s'.alive = (s.alive && !fs.any WsFrame.ends) := by
  induction fs generalizing s with
  | nil =>
    obtain rfl := Option.some.inj ran
    simp
  | cons f fs ih =>
    rw [handleAll_cons] at ran
    obtain ⟨s₁, first, rest⟩ := Option.bind_eq_some_iff.1 ran
    rw [ih rest, handle_alive first, List.any_cons, Bool.not_or, Bool.and_assoc]

/-- Sessions that differ in `out` and `alive` only are left so by the same frames. -/
theorem handleAll_congr {s t : WsSession} (same : s.dress [] true = t.dress [] true) (fs : List WsFrame) :
    dressed true (s.handleAll fs) = dressed true (t.handleAll fs) := by
  induction fs generalizing s t with
  | nil => exact congrArg some same
  | cons f fs ih =>
    have first : dressed true (s.handle f) = dressed true (t.handle f) := by
      rw [← handle_dress s [] true, same, handle_dress]
    rw [handleAll_cons, handleAll_cons]
    obtain ⟨hs, ht⟩ | ⟨s₁, t₁, hs, ht, same₁⟩ := dressed_cases first
    · rw [hs, ht]
    · rw [hs, ht]
      exact ih same₁

end WsSession

/-! ## Reads -/

/-- A session with its parser.  `commands` records the texts handed to `ws_handle_cmd`. -/
structure WsConn where
  parser : WsParser
  session : WsSession
  commands : List (List UInt8)

namespace WsConn

/-- The connection after the upgrade. -/
def upgraded (regs : RegMap) (hooks : Hooks) (fw : Fw) (nowMs : ℕ) : WsConn where
  parser := .new
  session := .new regs hooks fw nowMs
  commands := []

/-- The closure `step` of `ws_session` on one read, with the output buffer cleared before it. -/
def step (c : WsConn) (data : List UInt8) : Option WsConn := do
  let fed ← c.parser.feed data
  let session ← { c.session with out := [] }.handleAll fed.emitted
  return {
    parser := fed.state
    session := { session with alive := session.alive && fed.alive }
    commands := c.commands ++ fed.emitted.filterMap WsFrame.command }

/-- `ws_session` on the bytes left over from the upgrade and then on one read after the other; it
returns when a read has left `alive` false. -/
def serve (c : WsConn) : List (List UInt8) → Option WsConn
  | [] => some c
  | data :: reads => do
    let c ← c.step data
    if c.session.alive then c.serve reads else some c

/-- All that the frames have brought about, the replies aside. -/
def outcome (c : WsConn) : List (List UInt8) × WsSession := (c.commands, { c.session with out := [] })

/-- The outcome when just these frames were handled. -/
def after (c : WsConn) (alive : Bool) (fs : List WsFrame) : Option (List (List UInt8) × WsSession) :=
  (c.session.handleAll fs).map fun s =>
    (c.commands ++ fs.filterMap WsFrame.command, s.dress [] alive)

theorem after_append (c : WsConn) (alive : Bool) (fs gs : List WsFrame) (p : WsParser) :
    c.after alive (fs ++ gs) = (c.session.handleAll fs).bind fun session =>
      after ⟨p, session, c.commands ++ fs.filterMap WsFrame.command⟩ alive gs := by
  unfold after
  rw [WsSession.handleAll_append, List.filterMap_append]
  rcases c.session.handleAll fs with _ | s
  · rfl
  · simp

/-- The frames of a read are handled first, and the rest of the reads if the session goes on. -/
theorem after_andThen (c : WsConn) (first : Out WsParser WsFrame)
    (next : WsParser → Option (Out WsParser WsFrame)) :
    ((first.andThen next).bind fun out => c.after out.alive out.emitted) =
      (c.session.handleAll first.emitted).bind fun session =>
        let d : WsConn := ⟨first.state, session, c.commands ++ first.emitted.filterMap WsFrame.command⟩
        if first.alive then (next first.state).bind fun out => d.after out.alive out.emitted
        else some (d.commands, session.dress [] false) := by
  obtain ⟨p, fs, goes_on⟩ := first
  cases goes_on with
  | false => rcases h : c.session.handleAll fs with _ | s <;> simp [Out.andThen, after, h]
  | true =>
    rcases h : c.session.handleAll fs with _ | s <;> rcases last : next p with _ | rest <;>
      simp [Out.andThen, after_append c _ fs _ p, h, last]

/-- What is queued and what `alive` was does not show in the outcome. -/
theorem after_congr {c d : WsConn} (same : c.session.dress [] true = d.session.dress [] true)
    (commands : c.commands = d.commands) (alive : Bool) (fs : List WsFrame) :
    c.after alive fs = d.after alive fs := by
  unfold after
  rw [commands]
  obtain ⟨hc, hd⟩ | ⟨s, t, hc, hd, all⟩ :=
    WsSession.dressed_cases (WsSession.handleAll_congr same fs) <;> rw [hc, hd]
  have plain : s.dress [] alive = t.dress [] alive := congrArg (fun s => s.dress [] alive) all
  rw [Option.map_some, Option.map_some, plain]

/-- A session over any reads comes to what the frames handled until it left come to. -/
theorem serve_eq {c : WsConn} (alive : c.session.alive = true) (reads : List (List UInt8)) :
    (c.serve reads).map outcome =
      (consumeUntil WsFrame.ends WsParser.feedByte c.parser reads).bind fun out =>
        c.after out.alive out.emitted := by
  induction reads generalizing c with
  | nil =>
    simp only [serve, consumeUntil, Option.map_some, Option.bind_some, after, outcome,
      WsSession.handleAll, List.foldlM_nil, List.filterMap_nil, List.append_nil, WsSession.dress]
    rw [← alive]
    rfl
  | cons data reads ih =>
    rcases fed : c.parser.feed data with _ | ⟨p, fs, goes_on⟩
    · have ran : Feed.consume WsParser.feedByte c.parser data = none := fed
      rw [serve, step, fed, consumeUntil, ran]
      rfl
    have ran : Feed.consume WsParser.feedByte c.parser data = some ⟨p, fs, goes_on⟩ := fed
    rw [Feed.consumeUntil_cons ran, serve, step, fed]
    simp only [Option.bind_eq_bind, Option.bind_some]
    -- the session with its buffer cleared does the same with the frames
    have cleared := WsSession.handleAll_congr
      (rfl : { c.session with out := [] }.dress [] true = c.session.dress [] true) fs
    obtain ⟨hc, hd⟩ | ⟨s, t, hc, hd, same⟩ := WsSession.dressed_cases cleared
    · rw [hc, after_andThen, hd]
      rfl
    have left : s.alive = !fs.any WsFrame.ends := by
      rw [WsSession.handleAll_alive hc, alive, Bool.true_and]
    rw [hc, after_andThen, hd]
    simp only [Option.pure_def, Option.bind_some, left, Bool.and_comm _ goes_on]
    cases flag : goes_on && !fs.any WsFrame.ends with
    | true =>
      rw [if_pos rfl, if_pos rfl, ih rfl]
      congr 1
      funext out
      apply after_congr
      · exact same
      · rfl
    | false =>
      have plain : s.dress [] false = t.dress [] false := congrArg (fun s => s.dress [] false) same
      simp only [Bool.false_eq_true, if_false, Option.map_some]
      exact congrArg (fun s => some (_, s)) plain

/-! ## Which streams do not depend on the reads -/

/-- The frames of a stream; the parser never crashes. -/
def frames (stream : List UInt8) : List WsFrame :=
  ((WsParser.new.feed stream).map fun out => out.emitted).getD []

/-- Behind the first frame that ends the session there is no text command, and no binary frame that
would find an upload running. -/
def Harmless (s : WsSession) (fs : List WsFrame) : Prop :=
  ∀ s', s.handleAll (upTo WsFrame.ends fs) = some s' →
    ∀ f ∈ past WsFrame.ends fs, f.fin = true → f.opcode ≠ 0x1 ∧ (f.opcode = 0x2 → s'.fw.active = false)

end WsConn

namespace WsSession

variable {fs : List WsFrame} {s s' : WsSession}

/-- Frames that are neither text commands nor data for an upload leave everything but the replies and
`alive` as it is. -/
theorem handle_harmless {f : WsFrame}
    (harmless : f.fin = true → f.opcode ≠ 0x1 ∧ (f.opcode = 0x2 → s.fw.active = false)) :
    ∃ s', s.handle f = some s' ∧ s'.dress [] true = s.dress [] true := by
  unfold handle frame
  by_cases fin : f.fin = true
  case neg => exact ⟨_, if_pos (by simp [fin]), rfl⟩
  obtain ⟨no_text, idle⟩ := harmless fin
  rw [if_neg (by simp [fin]), if_neg no_text]
  split
  · rename_i binary
    refine ⟨s.binaryFrame f.payload, rfl, ?_⟩
    simp [binaryFrame, idle binary]
  split
  · exact ⟨_, rfl, rfl⟩
  split
  · exact ⟨_, rfl, rfl⟩
  split
  · exact ⟨_, rfl, rfl⟩
  · exact ⟨_, rfl, rfl⟩

theorem handleAll_harmless
    (harmless : ∀ f ∈ fs, f.fin = true → f.opcode ≠ 0x1 ∧ (f.opcode = 0x2 → s.fw.active = false)) :
    ∃ s', s.handleAll fs = some s' ∧ s'.dress [] true = s.dress [] true := by
  induction fs generalizing s with
  | nil => exact ⟨s, rfl, rfl⟩
  | cons f fs ih =>
    obtain ⟨s₁, first, same₁⟩ := handle_harmless (harmless f List.mem_cons_self)
    have fw : s₁.fw = s.fw := (congrArg WsSession.fw same₁ :)
    obtain ⟨s₂, rest, same₂⟩ := ih (fun g hg => fw ▸ harmless g (List.mem_cons_of_mem f hg))
    refine ⟨s₂, ?_, same₂.trans same₁⟩
    rw [handleAll_cons, first, Option.bind_some, rest]

theorem Effect.calls_le (h : Effect s s') : s.calls.length ≤ s'.calls.length := by
  cases h with
  | none same => rw [same.2.2]
  | start total keyhash fw crc calls => simp [calls]
  | write data active fw crc calls => simp [calls]
  | abort fw crc calls => simp [calls]
  | finish ok active idle crc calls => simp [calls]

theorem handleAll_calls_le (ran : s.handleAll fs = some s') :
    s.calls.length ≤ s'.calls.length := by
  induction fs generalizing s with
  | nil =>
    obtain rfl := Option.some.inj ran
    exact le_rfl
  | cons f fs ih =>
    rw [handleAll_cons] at ran
    obtain ⟨s₁, first, rest⟩ := Option.bind_eq_some_iff.1 ran
    exact (frame_cases first).calls_le.trans (ih rest)

theorem binaryFrame_calls (active : s.fw.active = true) (payload : List UInt8) :
    (s.binaryFrame payload).calls = s.calls ++ [.write payload (s.fw.write payload).2] := by
  simp only [binaryFrame, active, if_true, fwWrite]
  rcases s.fw.write payload with ⟨fw, _ | _⟩ <;> rfl

/-- The first binary frame that finds an upload running is one more call of `fw::write`. -/
theorem handleAll_writes (active : s.fw.active = true)
    (no_text : ∀ f ∈ fs, f.fin = true → f.opcode ≠ 0x1) (binary : ∃ f ∈ fs, f.fin = true ∧ f.opcode = 0x2)
    (ran : s.handleAll fs = some s') : s.calls.length < s'.calls.length := by
  induction fs generalizing s with
  | nil =>
    obtain ⟨f, none, -⟩ := binary
    cases none
  | cons f fs ih =>
    rw [handleAll_cons] at ran
    obtain ⟨s₁, first, rest⟩ := Option.bind_eq_some_iff.1 ran
    by_cases data : f.fin = true ∧ f.opcode = 0x2
    · have written : s₁ = s.binaryFrame f.payload := by
        simp only [handle, frame, data.1, data.2] at first
        exact (Option.some.inj first).symm
      have grew := handleAll_calls_le rest
      rw [written, binaryFrame_calls active, List.length_append, List.length_singleton] at grew
      exact grew
    · obtain ⟨s₂, same, unchanged⟩ := handle_harmless (s := s) (f := f)
        (fun fin => ⟨no_text f List.mem_cons_self fin, fun opcode => absurd ⟨fin, opcode⟩ data⟩)
      obtain rfl := Option.some.inj (first.symm.trans same)
      have fw : s₁.fw = s.fw := (congrArg WsSession.fw unchanged :)
      have calls : s₁.calls = s.calls := (congrArg WsSession.calls unchanged :)
      obtain ⟨g, mem, is_data⟩ := binary
      rw [← calls]
      apply ih (fw ▸ active) (fun g hg => no_text g (List.mem_cons_of_mem f hg)) ⟨g, ?_, is_data⟩ rest
      rcases List.mem_cons.1 mem with rfl | mem
      · exact absurd is_data data
      · exact mem

end WsSession

namespace WsConn

/-- However the stream is cut into reads, the session comes to the same. -/
def Independent (c : WsConn) (stream : List UInt8) : Prop :=
  ∀ reads reads', reads.flatten = stream → reads'.flatten = stream →
    (c.serve reads).map outcome = (c.serve reads').map outcome

/-- However the stream is cut into reads, no command and no call of the `fw` module comes from behind
the first frame that ends the session. -/
def StopsAtEnd (c : WsConn) (stream : List UInt8) : Prop :=
  ∀ reads d, reads.flatten = stream → c.serve reads = some d →
    ∃ s, c.session.handleAll (upTo WsFrame.ends (frames stream)) = some s ∧
      d.commands = c.commands ++ (upTo WsFrame.ends (frames stream)).filterMap WsFrame.command ∧
      d.session.calls = s.calls

section Streams

variable {c : WsConn} {stream : List UInt8} {out : Out WsParser WsFrame}

/-- However a stream is cut, the frames up to the end are handled, and perhaps some behind it. -/
theorem serve_between (alive : c.session.alive = true) (ran : c.parser.feed stream = some out)
    {reads : List (List UInt8)} (cut : reads.flatten = stream) :
    ∃ mid, mid <+: past WsFrame.ends out.emitted ∧
      (c.serve reads).map outcome =
        c.after (out.alive && !out.emitted.any WsFrame.ends) (upTo WsFrame.ends out.emitted ++ mid) := by
  subst cut
  obtain ⟨p, mid, within, until_end⟩ := Feed.consumeUntil_between WsFrame.ends ran
  refine ⟨mid, within, ?_⟩
  rw [serve_eq alive, until_end, Option.bind_some]

/-- Read byte by byte, only the frames up to the end are handled. -/
theorem serve_bytewise (alive : c.session.alive = true) (ran : c.parser.feed stream = some out) :
    (c.serve (stream.map fun b => [b])).map outcome =
      c.after (out.alive && !out.emitted.any WsFrame.ends) (upTo WsFrame.ends out.emitted) := by
  obtain ⟨p, until_end⟩ :=
    Feed.consumeUntil_singletons WsFrame.ends WsParser.feedByte_single ran
  rw [serve_eq alive, until_end, Option.bind_some]

theorem serve_whole (alive : c.session.alive = true) (ran : c.parser.feed stream = some out) :
    (c.serve [stream]).map outcome =
      c.after (out.alive && !out.emitted.any WsFrame.ends) out.emitted := by
  rw [serve_eq alive, Feed.consumeUntil_cons ran]
  cases out.alive && !out.emitted.any WsFrame.ends <;> simp [Out.andThen, consumeUntil]

theorem after_harmless (harmless : Harmless c.session out.emitted) {mid : List WsFrame}
    (within : mid <+: past WsFrame.ends out.emitted) (alive : Bool) :
    c.after alive (upTo WsFrame.ends out.emitted ++ mid) =
      c.after alive (upTo WsFrame.ends out.emitted) := by
  unfold after
  rw [WsSession.handleAll_append]
  rcases ran : c.session.handleAll (upTo WsFrame.ends out.emitted) with _ | s
  · rfl
  have quiet f (mem : f ∈ mid) := harmless s ran f (within.subset mem)
  obtain ⟨s', ran', same⟩ := WsSession.handleAll_harmless quiet
  have plain : s'.dress [] alive = s.dress [] alive := congrArg (fun s => s.dress [] alive) same
  have no_command : mid.filterMap WsFrame.command = [] := by
    apply List.filterMap_eq_nil_iff.2
    intro f mem
    apply if_neg
    rintro ⟨fin, text⟩
    exact (quiet f mem fin).1 text
  rw [Option.bind_some, ran', Option.map_some, Option.map_some, plain, List.filterMap_append, no_command,
    List.append_nil]

/-- If some frames do not show behind others, they are harmless there. -/
theorem harmless_of_after {alive : Bool} {fs gs : List WsFrame} {s : WsSession}
    (ran : c.session.handleAll fs = some s) (same : c.after alive (fs ++ gs) = c.after alive fs) :
    ∀ f ∈ gs, f.fin = true → f.opcode ≠ 0x1 ∧ (f.opcode = 0x2 → s.fw.active = false) := by
  unfold after at same
  rw [WsSession.handleAll_append, ran, Option.bind_some, Option.map_some] at same
  obtain ⟨s', ran', same⟩ := Option.map_eq_some_iff.1 same
  obtain ⟨commands, plain⟩ := Prod.mk.inj same
  rw [List.filterMap_append, ← List.append_assoc, List.append_right_eq_self,
    List.filterMap_eq_nil_iff] at commands
  have no_text : ∀ f ∈ gs, f.fin = true → f.opcode ≠ 0x1 := by
    intro f mem fin text
    have none := commands f mem
    rw [WsFrame.command, if_pos ⟨fin, text⟩] at none
    cases none
  intro f mem fin
  refine ⟨no_text f mem fin, fun data => ?_⟩
  by_contra active
  have grew := WsSession.handleAll_writes (by simpa using active) no_text ⟨f, mem, fin, data⟩ ran'
  have calls : s'.calls = s.calls := (congrArg WsSession.calls plain :)
  rw [calls] at grew
  exact lt_irrefl _ grew

end Streams

/-- A session comes to the same however its stream is cut, and to nothing that stands behind the frame
that ends it, if and only if no text command and no data of a running upload stands there. -/
theorem segmentation_iff (regs : RegMap) (hooks : Hooks) (fw : Fw) (nowMs : ℕ) (stream : List UInt8) :
    (Independent (upgraded regs hooks fw nowMs) stream ∧ StopsAtEnd (upgraded regs hooks fw nowMs) stream) ↔
      Harmless (.new regs hooks fw nowMs) (frames stream) := by
  obtain ⟨out, ran⟩ := WsParser.feed_total stream
  have emitted : frames stream = out.emitted := by simp [frames, ran]
  rw [emitted]
  constructor
  · rintro ⟨independent, -⟩ s handled
    apply harmless_of_after (c := upgraded regs hooks fw nowMs) handled
    rw [Feed.upTo_append_past, ← serve_whole rfl ran, ← serve_bytewise rfl ran]
    apply independent
    · simp
    · simp [← List.flatMap_def]
  · intro harmless
    have settled {reads : List (List UInt8)} (cut : reads.flatten = stream) :
        ((upgraded regs hooks fw nowMs).serve reads).map outcome =
          (upgraded regs hooks fw nowMs).after (out.alive && !out.emitted.any WsFrame.ends)
            (upTo WsFrame.ends out.emitted) := by
      obtain ⟨mid, within, served⟩ := serve_between (c := upgraded regs hooks fw nowMs) rfl ran cut
      rw [served, after_harmless harmless within]
    constructor
    · intro reads reads' cut cut'
      rw [settled cut, settled cut']
    · intro reads d cut served
      have result := settled cut
      rw [served] at result
      obtain ⟨s, handled, same⟩ := Option.map_eq_some_iff.1 result.symm
      obtain ⟨commands, plain⟩ := Prod.mk.inj same
      rw [emitted]
      exact ⟨s, handled, commands.symm, (congrArg WsSession.calls plain.symm :)⟩

/-- A close frame with a status code. -/
def closeBytes : List UInt8 := [0x88, 0x02, 0x03, 0xE8]

/-- The text command `save`. -/
def saveBytes : List UInt8 :=
  [0x81, 0x0E, 0x7B, 0x22, 0x63, 0x6D, 0x64, 0x22, 0x3A, 0x22, 0x73, 0x61, 0x76, 0x65, 0x22, 0x7D]

/-- A connection to an idle device. -/
def idle : WsConn := upgraded (.new 0) ⟨[], 0⟩ (.new ⟨fun _ => 0xFF, [], 0⟩) 0

/-- Behind a close frame in the same read the command is executed, in a read of its own it is not. -/
theorem save_behind_close :
    (idle.serve [closeBytes ++ saveBytes]).map (fun c => (c.commands, c.session.hooks.calls)) =
        some ([saveBytes.drop 2], [.holdingSave]) ∧
      (idle.serve [closeBytes, saveBytes]).map (fun c => (c.commands, c.session.hooks.calls)) =
        some ([], []) := by
  decide +kernel

end WsConn

end IoEdgeHub
