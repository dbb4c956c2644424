import IoEdgeHub.Firmware.Httpd
import IoEdgeHub.Firmware.FwContents

/-!
# The checksum of a WebSocket upload

`ws_session` keeps the checksum of an upload in `fw_crc`, beside the upload itself, and hands it to
`fw::finish`.  It starts at 0 with the session and goes back to 0 only when `finish` was called, so
an upload that `fw_end` gives up early, with `abort`, leaves its checksum to the next one.
`frame_cases` says all that a frame does to the two; `finish_crc_iff` what `finish` gets, and when
that is the checksum of the image.
-/

namespace IoEdgeHub

namespace WsSession

/-! ## All that a frame does to the upload -/

/-- The upload and its checksum are left alone. -/
def SameUpload (s s' : WsSession) : Prop := s'.fw = s.fw ∧ s'.fwCrc = s.fwCrc ∧ s'.calls = s.calls

theorem SameUpload.refl (s : WsSession) : SameUpload s s := ⟨rfl, rfl, rfl⟩

theorem SameUpload.trans {a b c : WsSession} (h : SameUpload a b) (h' : SameUpload b c) :
    SameUpload a c :=
  ⟨h'.1.trans h.1, h'.2.1.trans h.2.1, h'.2.2.trans h.2.2⟩

theorem sameUpload_queueFrame (s : WsSession) (opcode : UInt8) (payload : List UInt8) :
    SameUpload s (s.queueFrame opcode payload) := ⟨rfl, rfl, rfl⟩

theorem sameUpload_reply (s : WsSession) (text : String) : SameUpload s (s.reply text) := ⟨rfl, rfl, rfl⟩

theorem sameUpload_commit (s : WsSession) (r : Option (RegMap × Hooks)) :
    SameUpload s (s.commit r).1 := by
  cases r <;> exact ⟨rfl, rfl, rfl⟩

theorem sameUpload_webCmdReg (s : WsSession) (addr value : ℤ) : SameUpload s (s.webCmdReg addr value).1 := by
  unfold webCmdReg
  split
  · exact .refl s
  split
  · dsimp only
    split <;> exact ⟨rfl, rfl, rfl⟩
  · exact sameUpload_commit s _

theorem sameUpload_setTimestamp (s : WsSession) (ts : UInt32) : SameUpload s (s.setTimestamp ts).1 := by
  unfold setTimestamp
  dsimp only
  split <;> exact ⟨rfl, rfl, rfl⟩

variable {body payload : List UInt8} {e : Option String} {s s' : WsSession}

theorem sameUpload_cfgField {key err : String}
    {valid : ℤ → Bool} {idx : ℕ} (ran : s.cfgField body key valid idx err = some (s', e)) : SameUpload s s' := by
  unfold cfgField at ran
  obtain ⟨v, -, ran⟩ := Option.bind_eq_some_iff.1 ran
  cases v with
  | none =>
    obtain ⟨rfl, -⟩ := Prod.mk.inj (Option.some.inj ran)
    exact .refl s
  | some v =>
    dsimp only at ran
    by_cases ok : valid v = true
    · rw [if_pos ok] at ran
      obtain ⟨rfl, -⟩ := Prod.mk.inj (Option.some.inj ran)
      exact sameUpload_webCmdReg s idx v
    · rw [if_neg ok] at ran
      obtain ⟨rfl, -⟩ := Prod.mk.inj (Option.some.inj ran)
      exact .refl s

theorem sameUpload_cfgFields {fields : List (String × (ℤ → Bool) × ℕ × String)}
    (ran : s.cfgFields body fields = some (s', e)) : SameUpload s s' := by
  induction fields generalizing s with
  | nil =>
    obtain ⟨rfl, -⟩ := Prod.mk.inj (Option.some.inj ran)
    exact .refl s
  | cons field fields ih =>
    obtain ⟨key, valid, idx, err⟩ := field
    obtain ⟨⟨s₁, e₁⟩, first, ran⟩ := Option.bind_eq_some_iff.1 ran
    have same := sameUpload_cfgField first
    cases e₁ with
    | none => exact same.trans (ih ran)
    | some err =>
      obtain ⟨rfl, -⟩ := Prod.mk.inj (Option.some.inj ran)
      exact same

theorem sameUpload_foldl {α : Type} {put : WsSession → α → WsSession}
    (step : ∀ s a, SameUpload s (put s a)) (as : List α) (s : WsSession) :
    SameUpload s (as.foldl put s) := by
  induction as generalizing s with
  | nil => exact .refl s
  | cons a as ih => exact (step s a).trans (ih _)

theorem sameUpload_webCmdCfg (ran : s.webCmdCfg body = some (s', e)) : SameUpload s s' := by
  unfold webCmdCfg at ran
  obtain ⟨ip, -, ran⟩ := Option.bind_eq_some_iff.1 ran
  cases ip with
  | none => exact sameUpload_cfgFields ran
  | some ip =>
    dsimp only at ran
    split at ran
    · obtain ⟨rfl, -⟩ := Prod.mk.inj (Option.some.inj ran)
      exact .refl s
    split at ran
    · obtain ⟨rfl, -⟩ := Prod.mk.inj (Option.some.inj ran)
      exact .refl s
    split at ran
    · obtain ⟨rfl, -⟩ := Prod.mk.inj (Option.some.inj ran)
      exact .refl s
    · exact (sameUpload_foldl (fun s _ => sameUpload_commit s _) _ s).trans (sameUpload_cfgFields ran)

theorem sameUpload_cmdDo (ran : s.cmdDo payload = some s') : SameUpload s s' := by
  unfold cmdDo at ran
  obtain ⟨index, -, ran⟩ := Option.bind_eq_some_iff.1 ran
  obtain ⟨value, -, ran⟩ := Option.bind_eq_some_iff.1 ran
  rcases index with _ | i <;> rcases value with _ | v
  case some.some =>
    dsimp only at ran
    split at ran
    · have same : SameUpload s (s.webWriteDoBit (UInt16.ofNat i.toNat) (v ≠ 0)).1 :=
        sameUpload_commit s _
      split at ran <;> rename_i wrote <;> rw [wrote] at same <;> cases ran
      · exact same.trans (sameUpload_queueFrame ..)
      · exact same.trans (sameUpload_reply ..)
    · cases ran
      exact sameUpload_reply ..
  all_goals
    cases ran
    exact sameUpload_reply ..

theorem sameUpload_cmdReg (ran : s.cmdReg payload = some s') : SameUpload s s' := by
  unfold cmdReg at ran
  obtain ⟨addr, -, ran⟩ := Option.bind_eq_some_iff.1 ran
  obtain ⟨value, -, ran⟩ := Option.bind_eq_some_iff.1 ran
  split at ran <;> cases ran
  · exact (sameUpload_webCmdReg s _ _).trans (sameUpload_reply ..)
  · exact sameUpload_reply ..

theorem sameUpload_cmdTime (ran : s.cmdTime payload = some s') : SameUpload s s' := by
  unfold cmdTime at ran
  obtain ⟨ts, -, ran⟩ := Option.bind_eq_some_iff.1 ran
  split at ran <;> cases ran
  · exact (sameUpload_setTimestamp s _).trans (sameUpload_reply ..)
  · exact sameUpload_reply ..

theorem sameUpload_cmdCfg (ran : s.cmdCfg payload = some s') : SameUpload s s' := by
  unfold cmdCfg at ran
  obtain ⟨⟨s₁, e⟩, cfg, ran⟩ := Option.bind_eq_some_iff.1 ran
  have same := sameUpload_webCmdCfg cfg
  cases e <;> cases ran <;> exact same.trans (sameUpload_reply ..)

/-- What a frame can do to the upload: nothing, or one call of the `fw` module. -/
inductive Effect (s s' : WsSession) : Prop where
  | none (same : SameUpload s s')
  | start (total : ℕ) (keyhash : Option (List UInt8))
    (fw : s'.fw = (s.fw.start total keyhash).1) (crc : s'.fwCrc = s.fwCrc)
    (calls : s'.calls = s.calls ++ [.start total (s.fw.start total keyhash).2])
  | write (data : List UInt8) (active : s.fw.active = true) (fw : s'.fw = (s.fw.write data).1)
    (crc : s'.fwCrc = if (s.fw.write data).2 then crc16Ccitt s.fwCrc data else s.fwCrc)
    (calls : s'.calls = s.calls ++ [.write data (s.fw.write data).2])
  | abort (fw : s'.fw = s.fw.abort) (crc : s'.fwCrc = s.fwCrc)
    (calls : s'.calls = s.calls ++ [.abort])
  | finish (ok : Bool) (active : s.fw.active = true) (idle : s'.fw.active = false)
    (crc : s'.fwCrc = 0) (calls : s'.calls = s.calls ++ [.finish s.fwCrc ok])

theorem Effect.andThen {s'' : WsSession} (h : Effect s s') (same : SameUpload s' s'') :
    Effect s s'' := by
  obtain ⟨fw', crc', calls'⟩ := same
  cases h with
  | none same => exact .none (same.trans ⟨fw', crc', calls'⟩)
  | start total keyhash fw crc calls =>
    exact .start total keyhash (fw'.trans fw) (crc'.trans crc) (calls'.trans calls)
  | write data active fw crc calls =>
    exact .write data active (fw'.trans fw) (crc'.trans crc) (calls'.trans calls)
  | abort fw crc calls => exact .abort (fw'.trans fw) (crc'.trans crc) (calls'.trans calls)
  | finish ok active idle crc calls =>
    exact .finish ok active (fw' ▸ idle) (crc'.trans crc) (calls'.trans calls)

theorem effect_cmdFwStart (ran : s.cmdFwStart payload = some s') : Effect s s' := by
  unfold cmdFwStart at ran
  obtain ⟨size, -, ran⟩ := Option.bind_eq_some_iff.1 ran
  have started (total : ℕ) (keyhash : Option (List UInt8)) : Effect s (s.fwStart total keyhash).1 :=
    .start total keyhash rfl rfl rfl
  dsimp only at ran
  split at ran
  · cases ran
    exact .none (sameUpload_reply ..)
  obtain ⟨b64, -, ran⟩ := Option.bind_eq_some_iff.1 ran
  split at ran
  · cases ran
    exact (started _ none).andThen (sameUpload_reply ..)
  split at ran
  · cases ran
    exact .none (sameUpload_reply ..)
  split at ran
  · cases ran
    exact .none (sameUpload_reply ..)
  · cases ran
    exact (started _ _).andThen (sameUpload_reply ..)

theorem effect_wsFwEnd (active : s.fw.active = true) : Effect s s.wsFwEnd.1 := by
  unfold wsFwEnd
  dsimp only
  split
  · exact .abort rfl rfl rfl
  split
  · exact .abort rfl rfl rfl
  have idle : (s.fwFinish s.fwCrc).1.fw.active = false := Fw.finish_active s.fw _
  have calls : (s.fwFinish s.fwCrc).1.calls =
    s.calls ++ [.finish s.fwCrc (s.fw.finish (some s.fwCrc)).2] := rfl
  rcases finished : s.fwFinish s.fwCrc with ⟨s₁, _ | _⟩ <;> rw [finished] at idle calls
  · exact .finish _ active idle rfl calls
  · dsimp only
    split <;> exact .finish _ active idle rfl calls

theorem effect_cmdFwEnd (s : WsSession) : Effect s s.cmdFwEnd := by
  unfold cmdFwEnd
  split
  · exact .none (sameUpload_reply ..)
  · rename_i active
    have ended := effect_wsFwEnd (by simpa using active)
    dsimp only
    refine ended.andThen (.trans ?_ (sameUpload_reply ..))
    split <;> exact ⟨rfl, rfl, rfl⟩

theorem effect_wsHandleCmd (ran : s.wsHandleCmd payload = some s') : Effect s s' := by
  unfold wsHandleCmd at ran
  obtain ⟨cmd, -, ran⟩ := Option.bind_eq_some_iff.1 ran
  dsimp only at ran
  split at ran
  · exact .none (sameUpload_cmdDo ran)
  split at ran
  · exact .none (sameUpload_cmdReg ran)
  split at ran
  · exact .none (sameUpload_cmdTime ran)
  split at ran
  · exact .none (sameUpload_cmdCfg ran)
  split at ran
  · cases ran
    exact .none ⟨rfl, rfl, rfl⟩
  split at ran
  · cases ran
    exact .none ⟨rfl, rfl, rfl⟩
  split at ran
  · exact effect_cmdFwStart ran
  split at ran <;> cases ran
  · exact effect_cmdFwEnd s
  · exact .none (sameUpload_reply ..)

theorem effect_binaryFrame (s : WsSession) (payload : List UInt8) : Effect s (s.binaryFrame payload) := by
  unfold binaryFrame
  split
  · rename_i active
    have fw : (s.fwWrite payload).1.fw = (s.fw.write payload).1 := rfl
    have crc : (s.fwWrite payload).1.fwCrc = s.fwCrc := rfl
    have calls : (s.fwWrite payload).1.calls = s.calls ++ [.write payload (s.fw.write payload).2] := rfl
    have result : (s.fwWrite payload).2 = (s.fw.write payload).2 := rfl
    rcases written : s.fwWrite payload with ⟨s₁, _ | _⟩ <;> rw [written] at fw crc calls result
    · exact .write payload active fw (by rw [← result]; exact crc) calls
    · exact .write payload active fw (by rw [← result, ← crc]; rfl) calls
  · exact .none (.refl s)

theorem frame_cases {fin : Bool} {opcode : UInt8} (ran : s.frame fin opcode payload = some s') : Effect s s' := by
  unfold frame at ran
  split at ran
  · cases ran
    exact .none ⟨rfl, rfl, rfl⟩
  split at ran
  · exact effect_wsHandleCmd ran
  split at ran
  · cases ran
    exact effect_binaryFrame s payload
  split at ran
  · cases ran
    exact .none ⟨rfl, rfl, rfl⟩
  split at ran
  · cases ran
    exact .none ⟨rfl, rfl, rfl⟩
  split at ran <;> cases ran <;> exact .none ⟨rfl, rfl, rfl⟩

/-! ## Sessions -/

/-- A new session, on the upgrade state it finds. -/
def new (regs : RegMap) (hooks : Hooks) (fw : Fw) (nowMs : ℕ) : WsSession where
  regs
  hooks
  fw
  fwCrc := 0
  out := []
  alive := true
  nowMs
  requests := []
  calls := []

end WsSession

/-- A client frame; or the replies are sent, other tasks change the registers and time goes on. -/
inductive WsEvent where
  | frame (fin : Bool) (opcode : UInt8) (payload : List UInt8)
  | flush (regs : RegMap) (hooks : Hooks) (nowMs : ℕ)

namespace WsSession

/-- A frame, or what other tasks do. -/
def step (s : WsSession) : WsEvent → Option WsSession
  | .frame fin opcode payload => s.frame fin opcode payload
  | .flush regs hooks nowMs => some { s with regs, hooks, nowMs, out := [] }

/-- A session. -/
def run (s : WsSession) (events : List WsEvent) : Option WsSession := events.foldlM step s

theorem step_cases {s s' : WsSession} {event : WsEvent} (ran : s.step event = some s') : Effect s s' := by
  cases event with
  | frame fin opcode payload => exact frame_cases ran
  | flush regs hooks nowMs =>
    cases ran
    exact .none ⟨rfl, rfl, rfl⟩

end WsSession

/-- What the calls of a session have made of an upload: the data accepted since the last successful
start, the part of it that was accepted before the session, the part that the session saw, and the
data of the uploads that the session has given up since its last `finish`. -/
structure Upload where
  accepted : List UInt8
  unseen : List UInt8
  seen : List UInt8
  givenUp : List UInt8

namespace Upload

/-- A session finds an upload that has accepted `before`, and has seen none of it. -/
def found (before : List UInt8) : Upload := ⟨before, before, [], []⟩

/-- A call of the `fw` module. -/
def step (u : Upload) : FwCall → Upload
  | .start _ rc => if rc = 0 then { u with accepted := [], unseen := [], seen := [] } else u
  | .write data ok => if ok then { u with accepted := u.accepted ++ data, seen := u.seen ++ data } else u
  | .abort => { u with seen := [], givenUp := u.givenUp ++ u.seen }
  | .finish _ _ => { u with seen := [], givenUp := [] }

/-- All calls of a session. -/
def after (u : Upload) (calls : List FwCall) : Upload := calls.foldl step u

theorem after_snoc (u : Upload) (calls : List FwCall) (call : FwCall) :
    u.after (calls ++ [call]) = (u.after calls).step call := by
  simp [after]

/-- All data that the session has seen accepted since its last `finish`. -/
def summed (u : Upload) : List UInt8 := u.givenUp ++ u.seen

/-- The checksum of what the session saw is that of what was accepted just when the uploads given up
have the checksum of the data not seen: in both the data seen comes last. -/
theorem crc_iff {u : Upload} (split : u.accepted = u.unseen ++ u.seen) :
    crc16Ccitt 0 u.summed = crc16Ccitt 0 u.accepted ↔
      crc16Ccitt 0 u.givenUp = crc16Ccitt 0 u.unseen := by
  rw [split, summed, crc16Ccitt_append, crc16Ccitt_append]
  exact ⟨fun same => crc16Ccitt_injective same, fun same => by rw [same]⟩

end Upload

namespace WsSession

/-- The checksum is that of all data seen since the last `finish`, given up or not; while an upload
runs, it has accepted what it had before the session and what was seen since. -/
structure Accounted (s : WsSession) (u : Upload) : Prop where
  crc : s.fwCrc = crc16Ccitt 0 u.summed
  running : s.fw.active = true → u.accepted = u.unseen ++ u.seen
  idle : s.fw.active = false → u.seen = []

variable {u₀ : Upload} {s s' : WsSession}

theorem Accounted.step (h : s.Accounted (u₀.after s.calls))
    (effect : Effect s s') : s'.Accounted (u₀.after s'.calls) := by
  cases effect with
  | none same =>
    obtain ⟨fw, crc, calls⟩ := same
    rw [calls]
    exact ⟨crc.trans h.crc, fw ▸ h.running, fw ▸ h.idle⟩
  | start total keyhash fw crc calls =>
    obtain ⟨-, accepted, rejected⟩ := s.fw.start_cases total keyhash
    rw [calls, Upload.after_snoc, Upload.step]
    by_cases ok : (s.fw.start total keyhash).2 = 0
    · -- only an idle device starts, so nothing that was seen is forgotten
      have seen := h.idle (accepted ok).1
      rw [if_pos ok]
      refine ⟨?_, fun _ => rfl, fun _ => rfl⟩
      rw [crc, h.crc, Upload.summed, Upload.summed, seen]
    · rw [if_neg ok]
      have same : s'.fw.active = s.fw.active := by rw [fw, (rejected ok).1]
      exact ⟨crc.trans h.crc, fun active => h.running (same ▸ active), fun idle => h.idle (same ▸ idle)⟩
  | write data active fw crc calls =>
    have still : s'.fw.active = true := by rw [fw, Fw.active_write, active]
    rw [calls, Upload.after_snoc, Upload.step]
    by_cases ok : (s.fw.write data).2 = true
    · rw [if_pos ok] at crc ⊢
      refine ⟨?_, fun _ => ?_, fun idle => absurd (still.symm.trans idle) (by decide)⟩
      · rw [crc, h.crc, ← crc16Ccitt_append, Upload.summed, Upload.summed, List.append_assoc]
      · dsimp only
        rw [h.running active, List.append_assoc]
    · rw [if_neg ok] at crc ⊢
      exact ⟨crc.trans h.crc, fun _ => h.running active, fun idle => absurd (still.symm.trans idle) (by decide)⟩
  | abort fw crc calls =>
    have stopped : s'.fw.active = false := by rw [fw, Fw.abort]
    rw [calls, Upload.after_snoc, Upload.step]
    refine ⟨?_, fun active => absurd (stopped.symm.trans active) (by decide), fun _ => rfl⟩
    rw [crc, h.crc, Upload.summed, Upload.summed, List.append_nil]
  | finish ok active idle crc calls =>
    rw [calls, Upload.after_snoc, Upload.step]
    exact ⟨crc, fun active => absurd (idle.symm.trans active) (by decide), fun _ => rfl⟩

/-- What was true of every `finish` so far: it was given the checksum of the data seen. -/
def Finishes (u₀ : Upload) (calls : List FwCall) : Prop :=
  ∀ pre crc ok post, calls = pre ++ .finish crc ok :: post →
    crc = crc16Ccitt 0 (u₀.after pre).summed ∧
      (u₀.after pre).accepted = (u₀.after pre).unseen ++ (u₀.after pre).seen

theorem Finishes.snoc {calls : List FwCall} {call : FwCall} (old : Finishes u₀ calls)
    (last : ∀ crc ok, call = .finish crc ok → crc = crc16Ccitt 0 (u₀.after calls).summed ∧
      (u₀.after calls).accepted = (u₀.after calls).unseen ++ (u₀.after calls).seen) :
    Finishes u₀ (calls ++ [call]) := by
  intro pre crc ok post split
  rcases List.eq_nil_or_concat post with rfl | ⟨post, x, rfl⟩
  · obtain ⟨rfl, same⟩ := List.append_inj' split rfl
    exact last crc ok (by simpa using same)
  · have shifted : pre ++ .finish crc ok :: post.concat x = (pre ++ .finish crc ok :: post) ++ [x] := by
      simp
    rw [shifted] at split
    exact old pre crc ok post (List.append_inj' split rfl).1

theorem Finishes.step (finishes : Finishes u₀ s.calls)
    (accounted : s.Accounted (u₀.after s.calls)) (effect : Effect s s') : Finishes u₀ s'.calls := by
  cases effect with
  | none same => rwa [same.2.2]
  | start total keyhash fw crc calls => exact calls ▸ finishes.snoc (by simp)
  | write data active fw crc calls => exact calls ▸ finishes.snoc (by simp)
  | abort fw crc calls => exact calls ▸ finishes.snoc (by simp)
  | finish ok active idle crc calls =>
    rw [calls]
    refine finishes.snoc fun c ok' same => ?_
    obtain ⟨rfl, -⟩ := FwCall.finish.inj same
    exact ⟨accounted.crc, accounted.running active⟩

theorem run_accounted (accounted : s.Accounted (u₀.after s.calls))
    (finishes : Finishes u₀ s.calls) {events : List WsEvent} (ran : s.run events = some s') :
    s'.Accounted (u₀.after s'.calls) ∧ Finishes u₀ s'.calls :=
  Run.always (Q := fun _ s => s.Accounted (u₀.after s.calls) ∧ Finishes u₀ s.calls) ⟨accounted, finishes⟩
    (fun _ _ _ _ inv stepped =>
      ⟨inv.1.step (step_cases stepped), inv.2.step inv.1 (step_cases stepped)⟩) ran

/-- In every session, whatever upload it finds, a `finish` is given the checksum of all data that the
session has seen accepted since its last `finish`.  So it is given the checksum of the data accepted
since the last successful start if and only if the uploads given up in between (with `abort`, on the
exits "no data" and "size mismatch" of `fw_end`) have the checksum of the data the session has not
seen; after a start in the session that is the checksum 0 of no data. -/
theorem finish_crc_iff (regs : RegMap) (hooks : Hooks) (fw : Fw) (nowMs : ℕ) (before : List UInt8)
    (events : List WsEvent) (s : WsSession) (ran : (new regs hooks fw nowMs).run events = some s)
    (pre post : List FwCall) (crc : BitVec 16) (ok : Bool)
    (called : s.calls = pre ++ .finish crc ok :: post) :
    crc = crc16Ccitt 0 ((Upload.found before).after pre).summed ∧
      (crc = crc16Ccitt 0 ((Upload.found before).after pre).accepted ↔
        crc16Ccitt 0 ((Upload.found before).after pre).givenUp =
          crc16Ccitt 0 ((Upload.found before).after pre).unseen) := by
  have start : (new regs hooks fw nowMs).Accounted (Upload.found before) :=
    ⟨rfl, fun _ => (List.append_nil _).symm, fun _ => rfl⟩
  have none_yet : Finishes (Upload.found before) (new regs hooks fw nowMs).calls :=
    fun pre crc ok post split => absurd split (by simp [new])
  obtain ⟨value, split⟩ := (run_accounted start none_yet ran).2 pre crc ok post called
  refine ⟨value, ?_⟩
  rw [value]
  exact Upload.crc_iff split

/-! ## Two sessions -/

/-- A session on an idle device. -/
def idleSession : WsSession := new (RegMap.new 0) ⟨[], 0⟩ (.new ⟨fun _ => 0xFF, [], 0⟩) 0

/-- A command. -/
def textFrame (text : String) : WsEvent := .frame true 0x1 (Text.utf8 text)

/-- `fw_start` -/
def startUpload : WsEvent := textFrame "\x7b\"cmd\":\"fw_start\",\"size\":64\x7d"

/-- `fw_end` -/
def endUpload : WsEvent := textFrame "\x7b\"cmd\":\"fw_end\"\x7d"

/-- An upload of 64 zeros. -/
def fullUpload : List WsEvent := [startUpload, .frame true 0x2 (List.replicate 64 0), endUpload]

/-- One byte of an upload that `fw_end` gives up, then a full upload. -/
def shortThenFull (b : UInt8) : List WsEvent := [startUpload, .frame true 0x2 [b], endUpload] ++ fullUpload

theorem shortThenFull_calls (b : UInt8) (one : b = 0 ∨ b = 1) :
    (idleSession.run (shortThenFull b)).map (·.calls) =
      some [.start 64 0, .write [b] true, .abort, .start 64 0, .write (List.replicate 64 0) true,
        .finish (if b = 0 then 0 else 0xFA75) false] := by
  rcases one with rfl | rfl <;> decide +kernel

/-- A given up zero does no harm: its checksum is 0. -/
theorem finish_crc_iff_zero :
    ∃ s pre, idleSession.run (shortThenFull 0) = some s ∧ s.calls = pre ++ [.finish 0 false] ∧
      ((Upload.found []).after pre).givenUp = [0] ∧
      0 = crc16Ccitt 0 ((Upload.found []).after pre).accepted := by
  obtain ⟨s, ran, calls⟩ := Option.map_eq_some_iff.1 (shortThenFull_calls 0 (.inl rfl))
  exact ⟨s, [.start 64 0, .write [0] true, .abort, .start 64 0, .write (List.replicate 64 0) true], ran, calls,
    rfl, (finish_crc_iff _ _ _ _ [] (shortThenFull 0) s ran _ [] 0 false calls).2.2 (by decide +kernel)⟩

/-- The abandoned upload's checksum goes into the next one's. -/
theorem stale_crc_reaches_finish :
    ∃ s pre crc ok, idleSession.run (shortThenFull 1) = some s ∧ s.calls = pre ++ [.finish crc ok] ∧
      crc ≠ crc16Ccitt 0 ((Upload.found []).after pre).accepted := by
  obtain ⟨s, ran, calls⟩ := Option.map_eq_some_iff.1 (shortThenFull_calls 1 (.inr rfl))
  refine ⟨s, [.start 64 0, .write [1] true, .abort, .start 64 0, .write (List.replicate 64 0) true], 0xFA75,
    false, ran, calls, ?_⟩
  decide +kernel

end WsSession

end IoEdgeHub
