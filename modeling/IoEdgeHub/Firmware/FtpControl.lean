import IoEdgeHub.Lib.Lines
import IoEdgeHub.Firmware.FtpPaths

/-!
# The control connection

`session` of `ftpd.rs`: what arrives on the control connection is read into a buffer of 1024 bytes, and every line that
is complete is handed to `handle_command`.  Bytes arrive and are read in portions of any size.

`control_lines`: the commands are the lines of what was read, each once and in order, however they were cut.
That every command is answered is in `FtpReplies` (`control_answers`).
-/

namespace IoEdgeHub

open Text FtpSession

/-- The connection: the session, the used part of `rbuf`, what has arrived and was not read, what was read, the lines
handed to `handle_command`, what was sent, and whether the client has hung up or a line has filled the buffer.  After
`QUIT`, which is a flag of the session, nothing more is read. -/
structure FtpControl where
  session : FtpSession
  rbuf : List UInt8
  unread : List UInt8
  seen : List UInt8
  commands : List (List UInt8)
  outs : List FtpOut
  ended : Bool

/-- Bytes arrive, the session reads some of them, and the connection ends. -/
inductive ControlEvent where
  | arrive (bytes : List UInt8)
  | read (most : ℕ)
  | hangup

namespace FtpControl

/-- The line buffer. -/
def rbufLen : ℕ := 1024

/-- The first line of a session. -/
def greeting : FtpOut := .line "220 io-edge-hub FTP service ready".toList

/-- A session that begins. -/
def new (slot : Fin 3) : FtpControl := ⟨.new slot, [], [], [], [], [greeting], false⟩

/-- The end of a line. -/
def isLf (b : UInt8) : Bool := b == lf

/-- The line without its CR, and at most 255 bytes of it. -/
def clipLine (raw : List UInt8) : List UInt8 :=
  let len := if raw.length > 0 && raw[raw.length - 1]? = some cr then raw.length - 1 else raw.length
  raw.take (min len 255)

/-- The loop over the complete lines; each takes at least one byte off the buffer.  `env` is what the command with
that number finds around it. -/
def serveLines (env : ℕ → FtpEnv) : ℕ → FtpControl → Option FtpControl
  | 0, c => some c
  | fuel + 1, c =>
    match Lines.cut isLf c.rbuf with
    | none => some (if c.rbuf.length ≥ rbufLen - 1 then { c with ended := true } else c)
    | some (raw, rest) => do
      let (session, outs) ← c.session.handleCommand (env c.commands.length) (clipLine raw)
      serveLines env fuel
        { c with session, rbuf := rest, commands := c.commands ++ [clipLine raw], outs := c.outs ++ outs }

/-- No result is a panic.  A read waits until there is something to read; one without room returns nothing, which ends
the session. -/
def step (env : ℕ → FtpEnv) (c : FtpControl) : ControlEvent → Option FtpControl
  | .arrive bytes => some { c with unread := c.unread ++ bytes }
  | .read most =>
    if c.ended || c.session.quit then some c
    else if rbufLen - c.rbuf.length = 0 then some { c with ended := true }
    else
      let n := min (most + 1) (min (rbufLen - c.rbuf.length) c.unread.length)
      if n = 0 then some c
      else
        let got := c.unread.take n
        serveLines env (c.rbuf.length + n + 1)
          { c with rbuf := c.rbuf ++ got, unread := c.unread.drop n, seen := c.seen ++ got }
  | .hangup => some { c with ended := true }

/-- A session from its greeting on. -/
def run (env : ℕ → FtpEnv) (slot : Fin 3) (events : List ControlEvent) : Option FtpControl :=
  events.foldlM (step env) (new slot)

/-! ## The lines -/

/-- The commands, each with what it finds around it. -/
def script (env : ℕ → FtpEnv) (commands : List (List UInt8)) : List (FtpEnv × List UInt8) :=
  commands.mapIdx fun i text => (env i, text)

theorem script_snoc (env : ℕ → FtpEnv) (commands : List (List UInt8)) (text : List UInt8) :
    script env (commands ++ [text]) = script env commands ++ [(env commands.length, text)] :=
  List.mapIdx_concat

theorem after_snoc {slot : Fin 3} {before : List (FtpEnv × List UInt8)} {s s' : FtpSession} {env : FtpEnv}
    {text : List UInt8} {outs : List FtpOut} (reached : after slot before = some s)
    (ran : s.handleCommand env text = some (s', outs)) : after slot (before ++ [(env, text)]) = some s' := by
  rw [after, List.foldlM_append]
  change (after slot before).bind _ = _
  rw [reached]
  simp [ran]

variable {env : ℕ → FtpEnv} {slot : Fin 3}

/-- Inside the loop: the lines before the buffer are done. -/
structure Serving (env : ℕ → FtpEnv) (slot : Fin 3) (c : FtpControl) (done : List (List UInt8)) : Prop where
  lines : Lines.split isLf c.seen = (done ++ (Lines.split isLf c.rbuf).1, (Lines.split isLf c.rbuf).2)
  commands : c.commands = done.map clipLine
  short : ∀ raw ∈ done, raw.length < rbufLen
  room : c.rbuf.length ≤ rbufLen
  session : after slot (script env c.commands) = some c.session
  going : c.ended = false

/-- Between two reads. -/
structure Served (env : ℕ → FtpEnv) (slot : Fin 3) (c : FtpControl) : Prop where
  commands : c.commands = (Lines.split isLf c.seen).1.map clipLine
  short : ∀ raw ∈ (Lines.split isLf c.seen).1, raw.length < rbufLen
  session : after slot (script env c.commands) = some c.session
  waiting : c.ended = false → c.rbuf = (Lines.split isLf c.seen).2 ∧ c.rbuf.length < rbufLen - 1

theorem Serving.command {c : FtpControl} {done : List (List UInt8)} (serving : Serving env slot c done)
    {raw rest : List UInt8}
    (found : Lines.cut isLf c.rbuf = some (raw, rest)) {session : FtpSession} {outs : List FtpOut}
    (ran : c.session.handleCommand (env c.commands.length) (clipLine raw) = some (session, outs)) :
    Serving env slot { c with session, rbuf := rest, commands := c.commands ++ [clipLine raw], outs := c.outs ++ outs }
      (done ++ [raw]) := by
  have length := Lines.length_cut found
  have room := serving.room
  refine ⟨?_, ?_, ?_, ?_, ?_, serving.going⟩
  · rw [serving.lines, Lines.cut_eq_some found, List.append_assoc]
    rfl
  · rw [List.map_append, serving.commands]
    rfl
  · intro l member
    rcases List.mem_append.1 member with earlier | last
    · exact serving.short l earlier
    · rw [List.mem_singleton.1 last]
      omega
  · change rest.length ≤ rbufLen
    omega
  · rw [script_snoc]
    exact after_snoc serving.session ran

/-- The loop ends with no line left in the buffer. -/
theorem Serving.serveLines {fuel : ℕ} {c c' : FtpControl} {done : List (List UInt8)} (serving : Serving env slot c done)
    (enough : c.rbuf.length < fuel) (ran : serveLines env fuel c = some c') :
    Served env slot c' ∧ c'.seen = c.seen ∧ c'.unread = c.unread ∧
      (c'.ended = true → rbufLen - 1 ≤ (Lines.split isLf c'.seen).2.length) := by
  induction fuel generalizing c done with
  | zero => exact absurd enough (Nat.not_lt_zero _)
  | succ fuel ih =>
    rw [FtpControl.serveLines] at ran
    cases found : Lines.cut isLf c.rbuf with
    | none =>
      have tail := Lines.cut_eq_none found
      have lines := serving.lines
      rw [tail, List.append_nil] at lines
      rw [found] at ran
      cases ran
      have served (b : Bool) (waiting : b = false → c.rbuf.length < rbufLen - 1) :
          Served env slot { c with ended := b } := by
        refine ⟨?_, ?_, serving.session, fun going => ⟨?_, waiting going⟩⟩
        · rw [lines, ← serving.commands]
        · rw [lines]
          exact serving.short
        · rw [lines]
      split
      · rename_i long
        refine ⟨served true nofun, rfl, rfl, fun _ => ?_⟩
        rw [lines]
        exact long
      · rename_i room
        refine ⟨?_, rfl, rfl, fun ended => absurd (serving.going.symm.trans ended) Bool.false_ne_true⟩
        have waits := served c.ended fun _ => Nat.not_le.1 room
        exact waits
    | some p =>
      obtain ⟨raw, rest⟩ := p
      rw [found] at ran
      obtain ⟨⟨session, outs⟩, handled, ran⟩ := Option.bind_eq_some_iff.1 ran
      have length := Lines.length_cut found
      have rest := ih (serving.command found handled) (by change rest.length < fuel; omega) ran
      exact rest

/-- What has arrived. -/
def arrived : List ControlEvent → List UInt8
  | [] => []
  | .arrive bytes :: events => bytes ++ arrived events
  | .read _ :: events => arrived events
  | .hangup :: events => arrived events

theorem arrived_snoc (events : List ControlEvent) (e : ControlEvent) :
    arrived (events ++ [e]) = arrived events ++ arrived [e] := by
  induction events with
  | nil => rfl
  | cons first events ih =>
    cases first with
    | arrive bytes => rw [List.cons_append, arrived, arrived, ih, List.append_assoc]
    | read most => exact ih
    | hangup => exact ih

/-- After some events. -/
structure Control (env : ℕ → FtpEnv) (slot : Fin 3) (events : List ControlEvent) (c : FtpControl) : Prop where
  served : Served env slot c
  stream : c.seen ++ c.unread = arrived events
  ended : c.ended = true → .hangup ∈ events ∨ rbufLen - 1 ≤ (Lines.split isLf c.seen).2.length

theorem Control.step {events : List ControlEvent} {c c' : FtpControl} (control : Control env slot events c)
    (e : ControlEvent) (ran : c.step env e = some c') : Control env slot (events ++ [e]) c' := by
  have later : c.ended = true → .hangup ∈ events ++ [e] ∨ rbufLen - 1 ≤ (Lines.split isLf c.seen).2.length :=
    fun ended => (control.ended ended).imp_left fun before => List.mem_append_left _ before
  cases e with
  | arrive bytes =>
    cases ran
    refine ⟨⟨control.served.commands, control.served.short, control.served.session, control.served.waiting⟩, ?_, later⟩
    rw [arrived_snoc, ← control.stream, List.append_assoc]
    simp [arrived]
  | hangup =>
    cases ran
    refine ⟨⟨control.served.commands, control.served.short, control.served.session, nofun⟩, ?_,
      fun _ => .inl (List.mem_append_right _ List.mem_cons_self)⟩
    rw [arrived_snoc, ← control.stream]
    simp [arrived]
  | read most =>
    have stream : c.seen ++ c.unread = arrived (events ++ [.read most]) := by
      rw [arrived_snoc, ← control.stream]
      simp [arrived]
    unfold FtpControl.step at ran
    dsimp only at ran
    split at ran
    · cases ran
      exact ⟨control.served, stream, later⟩
    rename_i going
    have going : c.ended = false := by
      cases ended : c.ended with
      | false => rfl
      | true => rw [ended] at going; exact absurd rfl going
    obtain ⟨tail, room⟩ := control.served.waiting going
    rw [if_neg (by simp only [rbufLen] at *; omega)] at ran
    split at ran
    · cases ran
      exact ⟨control.served, stream, later⟩
    generalize n_eq : min (most + 1) (min (rbufLen - c.rbuf.length) c.unread.length) = n at ran
    have got : (c.unread.take n).length = n := by
      rw [List.length_take]
      omega
    have size : (c.rbuf ++ c.unread.take n).length = c.rbuf.length + n := by rw [List.length_append, got]
    have serving : Serving env slot
        { c with rbuf := c.rbuf ++ c.unread.take n, unread := c.unread.drop n, seen := c.seen ++ c.unread.take n }
        (Lines.split isLf c.seen).1 := by
      refine ⟨?_, control.served.commands, control.served.short, ?_, control.served.session, going⟩
      · rw [Lines.split_append, ← tail]
      · rw [size]
        omega
    obtain ⟨served, seen, unread, overflow⟩ := serving.serveLines (by rw [size]; omega) ran
    refine ⟨served, ?_, fun ended => .inr (overflow ended)⟩
    rw [seen, unread, List.append_assoc, List.take_append_drop]
    exact stream

theorem control_run {events : List ControlEvent} {c : FtpControl} (ran : run env slot events = some c) :
    Control env slot events c := by
  refine Run.always (Q := Control env slot) ?_ ?_ ran
  · exact ⟨⟨rfl, fun _ no => absurd no List.not_mem_nil, rfl, fun _ => ⟨rfl, (by decide : 0 < rbufLen - 1)⟩⟩, rfl,
      nofun⟩
  · intro before c e c' control stepped
    exact control.step e stepped

/-- However the bytes arrive and are read: the commands handled are the lines of what was read, each once and in their
order, without their line ends and cut to 255 bytes; they are a script of the session.  What is not a line yet waits in
the buffer.  Lines of up to 1022 bytes are always taken, none of 1024 bytes or more ever is: the session ends by itself
only over a line that has grown to 1023 bytes. -/
theorem control_lines {events : List ControlEvent} {c : FtpControl} (ran : run env slot events = some c) :
    c.seen ++ c.unread = arrived events ∧
    c.commands = (Lines.split isLf c.seen).1.map clipLine ∧
    after slot (script env c.commands) = some c.session ∧
    (∀ raw ∈ (Lines.split isLf c.seen).1, raw.length < 1024) ∧
    (c.ended = false → c.rbuf = (Lines.split isLf c.seen).2 ∧ c.rbuf.length < 1023) ∧
    (c.ended = true → .hangup ∈ events ∨ 1023 ≤ (Lines.split isLf c.seen).2.length) := by
  obtain ⟨served, stream, ended⟩ := control_run ran
  exact ⟨stream, served.commands, served.session, served.short, served.waiting, ended⟩

/-- A login that arrives in two pieces, cut inside a line. -/
theorem control_lines_login :
    ∃ c, run (fun _ => .answering) 0
        [.arrive (utf8 "USER ftp\r\nPA"), .read 100, .arrive (utf8 "SS x\r\n"), .read 100] = some c ∧
      c.commands = [utf8 "USER ftp", utf8 "PASS x"] := by
  have seen : (run (fun _ => .answering) 0
      [.arrive (utf8 "USER ftp\r\nPA"), .read 100, .arrive (utf8 "SS x\r\n"), .read 100]).map (·.seen) =
        some (utf8 "USER ftp\r\nPASS x\r\n") := by decide +kernel
  obtain ⟨c, ran, seen⟩ := Option.map_eq_some_iff.1 seen
  refine ⟨c, ran, ?_⟩
  rw [(control_lines ran).2.1, seen]
  decide +kernel

end FtpControl

end IoEdgeHub
