import IoEdgeHub.Firmware.RegWriters
import IoEdgeHub.Firmware.Shell
import IoEdgeHub.Firmware.UdpReset
import IoEdgeHub.Firmware.WebCfg
import Mathlib.Data.List.Nodup

/-!
# The writers of the register map

Every operation on `REGS` is a path of single writes, and `RegOp.regWrites` reads those that go to a holding
register off the operation alone: off the bytes of a request, the typed line, or what the configuration
store finds (`Regs.step_wrote`).  What every single write keeps holds after every run of operations
(`Regs.run_keeps`).
-/

namespace IoEdgeHub

open Bytes CfgPlan Run Text

/-! ## Modbus -/

namespace Mb

/-- The registers and hooks of a server. -/
def view (m : Mb) : Regs := (m.regs, m.hooks)

/-- The register FC06 writes. -/
def fc06Writes : List UInt8 → List (UInt16 × UInt16)
  | [a0, a1, v0, v1] => [(getBe16 a0 a1, getBe16 v0 v1)]
  | _ => []

/-- The registers FC16 writes, up to the first that does not exist. -/
def fc16Writes (d : List UInt8) : List (UInt16 × UInt16) :=
  match regsRequest d with
  | some (addr, qty, data) => (singleWrites addr (wordAt data) 0 qty.toNat).takeWhile fun w => w.1.toNat < 18
  | none => []

/-- The holding registers a request writes. -/
def regWrites : List UInt8 → List (UInt16 × UInt16)
  | [] => []
  | fc :: d =>
    if fc = mbFc06HoldingRegWr then fc06Writes d
    else if fc = mbFc16HoldingRegsWr then fc16Writes d
    else []

theorem regWrites_other {fc : UInt8} (single : fc ≠ mbFc06HoldingRegWr) (several : fc ≠ mbFc16HoldingRegsWr)
    (d : List UInt8) : regWrites (fc :: d) = [] := by
  rw [regWrites, if_neg single, if_neg several]

theorem attempt_wrote (ws : List (UInt16 × UInt16)) (s : Regs) :
    Wrote (ws.takeWhile fun w => w.1.toNat < 18) s (attempt writeReg ws s).1 := by
  induction ws generalizing s with
  | nil => exact .refl s
  | cons w ws ih =>
    rw [attempt]
    cases written : writeReg s w with
    | none =>
      have outside : ¬w.1.toNat < 18 := fun inside => by
        have := (isSome_writeReg s w).2 inside
        rw [written] at this
        cases this
      rw [List.takeWhile_cons_of_neg (by simpa using outside)]
      exact .refl s
    | some s' =>
      have inside : w.1.toNat < 18 := (isSome_writeReg s w).1 (Option.isSome_iff_exists.2 ⟨s', written⟩)
      rw [List.takeWhile_cons_of_pos (by simpa using inside)]
      exact (Wrote.holding written).append (ih s')

theorem attemptCoils_wrote (ws : List (UInt16 × Bool)) (s : Regs) : Wrote [] s (attempt writeCoil ws s).1 := by
  induction ws generalizing s with
  | nil => exact .refl s
  | cons w ws ih =>
    rw [attempt]
    cases written : writeCoil s w with
    | none => exact .refl s
    | some s' => exact (Wrote.doBit written).append (ih s')

section Requests

variable {m m' : Mb} {d : List UInt8} {n : ℕ}

theorem SameEffects.wrote (same : SameEffects m m') : Wrote [] m.view m'.view :=
  .of_eq (Prod.ext same.1 same.2)

theorem fc05_wrote (h : m.fc05 d = some (m', n)) : Wrote [] m.view m'.view := by
  unfold fc05 at h
  split at h
  · dsimp only at h
    split at h
    · exact (excRsp_spec h).1.wrote
    · next written => exact (Wrote.doBit (s := m.view) written).kept (echo_sameEffects h).wrote
  · cases h
    exact .refl _

theorem fc06_wrote (h : m.fc06 d = some (m', n)) : Wrote (fc06Writes d) m.view m'.view := by
  unfold fc06 at h
  split at h
  · next a0 a1 v0 v1 =>
    have offered := Wrote.offered m.view (getBe16 a0 a1, getBe16 v0 v1)
    dsimp only [view] at h offered
    split at h
    · next refused =>
      rw [refused] at offered
      exact offered.kept (excRsp_spec h).1.wrote
    · next written =>
      rw [written] at offered
      exact offered.kept (echo_sameEffects h).wrote
  · next shape =>
    cases h
    have none_asked : fc06Writes d = [] := by
      unfold fc06Writes
      split
      · next a0 a1 v0 v1 => exact absurd rfl (shape a0 a1 v0 v1)
      · rfl
    rw [none_asked]
    exact .refl _

theorem fc08_sameEffects (h : m.fc08 d = some (m', n)) : SameEffects m m' := by
  unfold fc08 at h
  split at h
  · dsimp only at h
    split_ifs at h
    case neg => exact (excRsp_spec h).1
    all_goals exact (echo_sameEffects h :)
  · cases h
    exact ⟨rfl, rfl⟩

theorem fc15_wrote (h : m.fc15 d = some (m', n)) : Wrote [] m.view m'.view := by
  cases request : coilsRequest d with
  | none => exact (fc15_no_request request h).wrote
  | some e =>
    rw [fc15_request request] at h
    have coils := attemptCoils_wrote (singleWrites e.1 (coilAt e.2.2) 0 e.2.1.toNat) m.view
    dsimp only at h
    split_ifs at h
    · exact coils.kept (echo_sameEffects h).wrote
    · exact coils.kept (excRsp_spec h).1.wrote

theorem fc16_wrote (h : m.fc16 d = some (m', n)) : Wrote (fc16Writes d) m.view m'.view := by
  unfold fc16Writes
  cases request : regsRequest d with
  | none => exact (fc16_no_request request h).1.wrote
  | some e =>
    rw [fc16_request request] at h
    have regs := attempt_wrote (singleWrites e.1 (wordAt e.2.2) 0 e.2.1.toNat) m.view
    dsimp only at h
    split_ifs at h
    · exact regs.kept (echo_sameEffects h).wrote
    · exact regs.kept (excRsp_spec h).1.wrote

theorem process_wrote {pdu : List UInt8} (h : m.process pdu = some (m', n)) :
    Wrote (regWrites pdu) m.view m'.view := by
  unfold process at h
  split at h
  · cases h
    exact .refl _
  · next fc d =>
    by_cases single : fc = mbFc06HoldingRegWr
    · subst single
      rw [regWrites, if_pos rfl]
      exact (fc06_wrote h :)
    by_cases several : fc = mbFc16HoldingRegsWr
    · subst several
      rw [regWrites, if_neg single, if_pos rfl]
      exact (fc16_wrote h :)
    rw [regWrites_other single several]
    apply of_ite h (fun _ h => (fcReadBits_sameEffects h).wrote)
    intro _ h
    apply of_ite h (fun _ h => (fcReadBits_sameEffects h).wrote)
    intro _ h
    apply of_ite h (fun _ h => (fcReadRegs_sameEffects h).wrote)
    intro _ h
    apply of_ite h (fun _ h => (fcReadRegs_sameEffects h).wrote)
    intro _ h
    apply of_ite h (fun _ h => (fc05_wrote h :))
    intro _ h
    rw [if_neg single] at h
    apply of_ite h (fun _ h => (fc08_sameEffects h).wrote)
    intro _ h
    apply of_ite h (fun _ h => (fc15_wrote h :))
    intro _ h
    rw [if_neg several] at h
    exact (excRsp_spec h).1.wrote

end Requests

end Mb

/-! ## The web server -/

namespace WsSession

/-- The session's view of the registers. -/
def view (s : WsSession) : Regs := (s.regs, s.hooks)

/-- What a register command writes: nothing out of range, and not the reboot trigger. -/
def regWrites (addr value : ℤ) : List (UInt16 × UInt16) :=
  if ¬(0 ≤ addr ∧ addr < modbusHoldingRegisterNumbers) ∨ ¬(0 ≤ value ∧ value ≤ 0xFFFF) then []
  else if addr.toNat = holdingRebootIdx then []
  else [(UInt16.ofNat addr.toNat, UInt16.ofNat value.toNat)]

/-- The register writes of a body with `addr` and `value`. -/
def bodyReg (body : List UInt8) : List (UInt16 × UInt16) :=
  match jsonGetI32 body "addr", jsonGetI32 body "value" with
  | some (some a), some (some v) => regWrites a v
  | _, _ => []

/-- The register writes of a configuration. -/
def bodyCfg (body : List UInt8) : List (UInt16 × UInt16) :=
  match cfgPlan body with
  | some p => p.writes
  | none => []

/-- The register writes of a request. -/
def postWrites (body : List UInt8) : ApiPost → List (UInt16 × UInt16)
  | .reg => bodyReg body
  | .cfg => bodyCfg body
  | _ => []

/-- The register writes of a command. -/
def cmdWrites (payload : List UInt8) : List (UInt16 × UInt16) :=
  match jsonGetStr payload "cmd" with
  | some cmd =>
    if cmd.getD [] = utf8 "reg" then bodyReg payload
    else if cmd.getD [] = utf8 "cfg" then bodyCfg payload
    else []
  | none => []

/-- The register writes of a frame. -/
def frameWrites (fin : Bool) (opcode : UInt8) (payload : List UInt8) : List (UInt16 × UInt16) :=
  if fin && opcode = 0x1 then cmdWrites (payload.take 255) else []

theorem view_queueFrame (s : WsSession) (opcode : UInt8) (payload : List UInt8) :
    (s.queueFrame opcode payload).view = s.view := rfl

theorem view_reply (s : WsSession) (text : String) : (s.reply text).view = s.view := rfl

theorem view_commit (s : WsSession) (r : Option Regs) : (s.commit r).1.view = r.getD s.view := by
  cases r <;> rfl

theorem store_wrote (s : WsSession) (w : UInt16 × UInt16) : Wrote [w] s.view (s.store w).view := by
  rw [store, view_commit]
  exact .offered s.view w

theorem webWriteDoBit_wrote (s : WsSession) (bit : UInt16) (state : Bool) :
    Wrote [] s.view (s.webWriteDoBit bit state).1.view := by
  rw [webWriteDoBit, view_commit]
  exact .offeredBit s.view bit state

theorem webCmdReg_wrote (s : WsSession) (addr value : ℤ) :
    Wrote (regWrites addr value) s.view (s.webCmdReg addr value).1.view := by
  unfold webCmdReg regWrites
  split_ifs
  · exact .refl _
  · exact .refl _
  · exact .refl _
  · exact store_wrote s (UInt16.ofNat addr.toNat, UInt16.ofNat value.toNat)

section Commands

variable {s s' : WsSession} {payload : List UInt8}

theorem webCmdCfg_wrote {err : Option String} (h : s.webCmdCfg payload = some (s', err)) :
    Wrote (bodyCfg payload) s.view s'.view := by
  rw [webCmdCfg_eq] at h
  obtain ⟨p, plan, h⟩ := Option.map_eq_some_iff.1 h
  obtain rfl : (s.carryOut p).1 = s' := congrArg Prod.fst h
  have written := Wrote.foldl view id p.writes (fun s w _ => store_wrote s w) s
  rw [List.map_id] at written
  rw [bodyCfg, plan]
  exact written

theorem setTimestamp_wrote (s : WsSession) (ts : UInt32) : Wrote [] s.view (s.setTimestamp ts).1.view := by
  have called : Wrote [] s.view (s.regs, s.hooks.call (.setTimestamp ts)) := .call s.view trivial
  unfold setTimestamp
  dsimp only
  split_ifs
  · exact called.kept ⟨.single (.clock ts), rfl⟩
  · exact called

theorem wsFwEnd_view (s : WsSession) : s.wsFwEnd.1.view = s.view := by
  unfold wsFwEnd
  dsimp only
  split_ifs
  · rfl
  · rfl
  · rcases finished : s.fwFinish s.fwCrc with ⟨s₁, _ | _⟩
    all_goals
      have kept : s₁.view = s.view := (congrArg (fun r => r.1.view) finished).symm
    · exact kept
    · dsimp only
      split <;> exact kept

theorem cmdFwEnd_view (s : WsSession) : s.cmdFwEnd.view = s.view := by
  unfold cmdFwEnd
  split_ifs
  · rfl
  · dsimp only
    rw [← wsFwEnd_view s]
    split_ifs <;> rfl

theorem cmdFwStart_view (h : s.cmdFwStart payload = some s') : s'.view = s.view := by
  obtain ⟨size, -, h⟩ := Option.bind_eq_some_iff.1 h
  dsimp only at h
  split_ifs at h
  · cases h
    rfl
  · obtain ⟨hash, -, h⟩ := Option.bind_eq_some_iff.1 h
    cases hash with
    | none =>
      cases h
      rfl
    | some b64 =>
      dsimp only at h
      split at h
      · cases h
        rfl
      · split_ifs at h <;> (cases h; rfl)

theorem binaryFrame_view (s : WsSession) (payload : List UInt8) : (s.binaryFrame payload).view = s.view := by
  unfold binaryFrame
  split_ifs
  · rcases written : s.fwWrite payload with ⟨s₁, _ | _⟩
    all_goals exact (congrArg (fun r => r.1.view) written).symm
  · rfl

theorem cmdDo_wrote (h : s.cmdDo payload = some s') : Wrote [] s.view s'.view := by
  obtain ⟨index, -, h⟩ := Option.bind_eq_some_iff.1 h
  obtain ⟨value, -, h⟩ := Option.bind_eq_some_iff.1 h
  match index, value, h with
  | some i, some v, h =>
    dsimp only at h
    split_ifs at h
    · have path := webWriteDoBit_wrote s (UInt16.ofNat i.toNat) (v ≠ 0)
      rcases written : s.webWriteDoBit (UInt16.ofNat i.toNat) (v ≠ 0) with ⟨s₁, _ | _⟩
      · rw [written] at path h
        rw [← Option.some.inj h, view_reply]
        exact path
      · rw [written] at path h
        rw [← Option.some.inj h, view_queueFrame]
        exact path
    · cases h
      exact .refl _
  | none, _, h | some _, none, h =>
    cases h
    exact .refl _

/-- A body with `addr` and `value` is carried out if both are there. -/
theorem bodyReg_wrote {addr value : Option ℤ} (a : jsonGetI32 payload "addr" = some addr)
    (v : jsonGetI32 payload "value" = some value)
    (both : ∀ x y, addr = some x → value = some y → s'.view = (s.webCmdReg x y).1.view)
    (missing : addr = none ∨ value = none → s'.view = s.view) : Wrote (bodyReg payload) s.view s'.view := by
  rw [bodyReg, a, v]
  match addr, value with
  | some x, some y =>
    rw [both x y rfl rfl]
    exact webCmdReg_wrote s x y
  | none, none | none, some _ => exact .of_eq (missing (.inl rfl))
  | some _, none => exact .of_eq (missing (.inr rfl))

theorem cmdReg_wrote (h : s.cmdReg payload = some s') : Wrote (bodyReg payload) s.view s'.view := by
  obtain ⟨addr, a, h⟩ := Option.bind_eq_some_iff.1 h
  obtain ⟨value, v, h⟩ := Option.bind_eq_some_iff.1 h
  refine bodyReg_wrote a v ?_ ?_
  · rintro x y rfl rfl
    cases h
    rfl
  · rintro (rfl | rfl)
    · cases h
      rfl
    · cases addr <;> (cases h; rfl)

theorem cmdTime_wrote (h : s.cmdTime payload = some s') : Wrote [] s.view s'.view := by
  obtain ⟨ts, -, h⟩ := Option.bind_eq_some_iff.1 h
  cases ts with
  | none =>
    cases h
    exact .refl _
  | some ts =>
    cases h
    exact setTimestamp_wrote s _

theorem cmdCfg_wrote (h : s.cmdCfg payload = some s') : Wrote (bodyCfg payload) s.view s'.view := by
  obtain ⟨⟨s₁, err⟩, written, h⟩ := Option.bind_eq_some_iff.1 h
  have path := webCmdCfg_wrote written
  cases err <;> (cases h; exact path)

theorem wsHandleCmd_wrote (h : s.wsHandleCmd payload = some s') : Wrote (cmdWrites payload) s.view s'.view := by
  obtain ⟨cmd, found, h⟩ := Option.bind_eq_some_iff.1 h
  rw [cmdWrites, found]
  dsimp only
  by_cases reg : cmd.getD [] = utf8 "reg"
  · rw [if_pos reg]
    apply of_ite h (fun other _ => absurd (reg.symm.trans other) (by decide))
    intro _ h
    rw [if_pos reg] at h
    exact cmdReg_wrote h
  by_cases cfg : cmd.getD [] = utf8 "cfg"
  · rw [if_neg reg, if_pos cfg]
    apply of_ite h (fun other _ => absurd (cfg.symm.trans other) (by decide))
    intro _ h
    rw [if_neg reg] at h
    apply of_ite h (fun other _ => absurd (cfg.symm.trans other) (by decide))
    intro _ h
    rw [if_pos cfg] at h
    exact cmdCfg_wrote h
  rw [if_neg reg, if_neg cfg]
  apply of_ite h (fun _ h => cmdDo_wrote h)
  intro _ h
  rw [if_neg reg] at h
  apply of_ite h (fun _ h => cmdTime_wrote h)
  intro _ h
  rw [if_neg cfg] at h
  apply of_ite h (fun _ h => Option.some.inj h ▸ .call s.view trivial)
  intro _ h
  apply of_ite h (fun _ h => Option.some.inj h ▸ .refl _)
  intro _ h
  apply of_ite h (fun _ h => .of_eq (cmdFwStart_view h))
  intro _ h
  apply of_ite h (fun _ h => Option.some.inj h ▸ .of_eq (cmdFwEnd_view s))
  intro _ h
  exact Option.some.inj h ▸ .refl _

theorem frame_wrote {fin : Bool} {opcode : UInt8} (h : s.frame fin opcode payload = some s') :
    Wrote (frameWrites fin opcode payload) s.view s'.view := by
  unfold frame at h
  unfold frameWrites
  cases fin with
  | false =>
    cases h
    exact .refl _
  | true =>
    rw [if_neg (by decide)] at h
    by_cases text : opcode = 0x1
    · rw [if_pos text] at h
      rw [if_pos (by simp [text])]
      exact wsHandleCmd_wrote h
    · rw [if_neg text] at h
      rw [if_neg (by simp [text])]
      split_ifs at h
      · cases h
        exact .of_eq (binaryFrame_view s payload)
      all_goals
        cases h
        exact .refl _

end Commands

theorem apiPost_wrote {s : WsSession} {body : List UInt8} {post : ApiPost} {r : WsSession × Bool}
    (h : s.apiPost body post = some r) : Wrote (postWrites body post) s.view r.1.view := by
  cases post with
  | setDo =>
    obtain ⟨index, -, h⟩ := Option.bind_eq_some_iff.1 h
    obtain ⟨value, -, h⟩ := Option.bind_eq_some_iff.1 h
    match index, value, h with
    | some i, some v, h =>
      obtain rfl := Option.some.inj h
      split_ifs
      · exact webWriteDoBit_wrote ..
      · exact .refl _
    | none, _, h | some _, none, h =>
      cases h
      exact .refl _
  | reg =>
    obtain ⟨addr, a, h⟩ := Option.bind_eq_some_iff.1 h
    obtain ⟨value, v, h⟩ := Option.bind_eq_some_iff.1 h
    refine bodyReg_wrote a v ?_ ?_
    · rintro x y rfl rfl
      cases h
      rfl
    · rintro (rfl | rfl)
      · cases h
        rfl
      · cases addr <;> (cases h; rfl)
  | time =>
    obtain ⟨ts, -, h⟩ := Option.bind_eq_some_iff.1 h
    cases ts with
    | none =>
      cases h
      exact .refl _
    | some ts =>
      obtain rfl := Option.some.inj h
      exact setTimestamp_wrote s _
  | save =>
    cases h
    exact .call s.view trivial
  | cfg =>
    obtain ⟨⟨s₁, err⟩, written, h⟩ := Option.bind_eq_some_iff.1 h
    cases h
    exact webCmdCfg_wrote written

end WsSession

/-! ## The shell -/

namespace Shell

/-- The shell's view of the registers. -/
def view (s : Shell) : Regs := (s.regs, s.hooks)

/-- The register writes of `io ip`. -/
def ipLineWrites : List (List Char) → List (UInt16 × UInt16)
  | text :: _ =>
    match parseIp text with
    | none => []
    | some ip => if !ipValid ip then [] else ipWrites ip
  | _ => []

/-- The register writes of `io reg`. -/
def regLineWrites : List (List Char) → List (UInt16 × UInt16)
  | addr :: val :: _ =>
    match parseU32 addr with
    | none => []
    | some addr =>
      if addr ≥ modbusHoldingRegisterNumbers then []
      else
        match parseU32 val with
        | none => []
        | some v => if v > 0xFFFF then [] else [(UInt16.ofNat addr, UInt16.ofNat v)]
  | _ => []

/-- The register write of a parameter command. -/
def paramWrites (table : List (String × (ℕ → Bool) × ℕ)) : List (List Char) → List (UInt16 × UInt16)
  | sub :: val :: _ =>
    match table.find? fun e => e.1.toList = sub with
    | none => []
    | some (_, valid, idx) =>
      match parseU32 val with
      | none => []
      | some v => if valid v then [(UInt16.ofNat idx, UInt16.ofNat v)] else []
  | _ => []

/-- The register writes of a line. -/
def lineWrites (line : List UInt8) : List (UInt16 × UInt16) :=
  match argv line with
  | cmd :: sub :: args =>
    if cmd = "io".toList then
      if sub = "do".toList then []
      else if sub = "rs485".toList then paramWrites rs485Table args
      else if sub = "can".toList then paramWrites canTable args
      else if sub = "ip".toList then ipLineWrites args
      else if sub = "reg".toList then regLineWrites args
      else []
    else []
  | _ => []

theorem view_request (s : Shell) (r : ShellRequest) : (s.request r).view = s.view := rfl

theorem view_commit (s : Shell) (r : Option Regs) : (s.commit r).1.view = r.getD s.view := by
  cases r <;> rfl

theorem regWrite_wrote (s : Shell) (w : UInt16 × UInt16) : Wrote [w] s.view (s.regWrite w.1 w.2).1.view := by
  rw [regWrite, view_commit]
  exact .offered s.view w

theorem cmdIoDoSet_wrote (s : Shell) (ch val : List Char) : Wrote [] s.view (s.cmdIoDoSet ch val).view := by
  unfold cmdIoDoSet
  rcases parseU32 ch with _ | ch
  · exact .refl _
  dsimp only
  split_ifs
  case neg => exact .refl _
  rcases parseU32 val with _ | v
  · exact .refl _
  dsimp only
  split_ifs
  · exact .refl _
  · rw [view_commit]
    exact .offeredBit s.view _ _

theorem cmdIoReg_wrote (s : Shell) (args : List (List Char)) :
    Wrote (regLineWrites args) s.view (s.cmdIoReg args).view := by
  rcases args with _ | ⟨addr, _ | ⟨val, more⟩⟩
  · exact .refl _
  · exact .refl _
  rw [cmdIoReg, regLineWrites]
  rcases parseU32 addr with _ | addr
  · exact .refl _
  dsimp only
  split_ifs
  · exact .refl _
  rcases parseU32 val with _ | v
  · exact .refl _
  dsimp only
  split_ifs
  · exact .refl _
  · exact regWrite_wrote s (UInt16.ofNat addr, UInt16.ofNat v)

theorem ioIp_wrote (s : Shell) (args : List (List Char)) : Wrote (ipLineWrites args) s.view (s.ioIp args).view := by
  rcases args with _ | ⟨text, more⟩
  · exact .refl _
  rw [ioIp, ipLineWrites]
  rcases parseIp text with _ | ip
  · exact .refl _
  dsimp only
  split_ifs
  · exact .refl _
  · rw [view_request]
    exact Wrote.foldl view _ (List.finRange 4) (fun s i _ => regWrite_wrote s (_, _)) s

theorem ioParam_wrote (s : Shell) (table : List (String × (ℕ → Bool) × ℕ)) (args : List (List Char)) :
    Wrote (paramWrites table args) s.view (s.ioParam table args).view := by
  rcases args with _ | ⟨sub, _ | ⟨val, more⟩⟩
  · exact .refl _
  · exact .refl _
  rw [ioParam, paramWrites]
  generalize table.find? (fun e => e.1.toList = sub) = found
  rcases found with _ | ⟨name, valid, idx⟩
  · exact .refl _
  dsimp only
  rcases parseU32 val with _ | v
  · exact .refl _
  dsimp only
  split_ifs
  · exact regWrite_wrote s (UInt16.ofNat idx, UInt16.ofNat v)
  · exact .refl _

theorem dispatch_wrote (s : Shell) (line : List UInt8) : Wrote (lineWrites line) s.view (s.dispatch line).view := by
  unfold dispatch lineWrites
  rcases argv line with _ | ⟨cmd, _ | ⟨sub, args⟩⟩
  · exact .refl _
  · dsimp only
    split_ifs <;> exact .refl _
  · dsimp only
    by_cases io : cmd = "io".toList
    · have other : cmd ≠ "reboot".toList := by
        rw [io]
        decide
      rw [if_pos io, if_neg other, if_pos io]
      unfold ioDispatch
      dsimp only
      by_cases output : sub = "do".toList
      · rw [if_pos output, if_pos output]
        rcases args with _ | ⟨set, _ | ⟨ch, _ | ⟨val, more⟩⟩⟩
        · exact .refl _
        · exact .refl _
        · exact .refl _
        · dsimp only
          split_ifs
          · exact cmdIoDoSet_wrote ..
          · exact .refl _
      rw [if_neg output, if_neg output]
      split_ifs
      · exact ioParam_wrote ..
      · exact ioParam_wrote ..
      · exact ioIp_wrote s args
      · exact cmdIoReg_wrote s args
      all_goals exact .refl _
    · rw [if_neg io, if_neg io]
      split_ifs <;> exact .refl _

end Shell

/-! ## UDP commands and the configuration store -/

/-- The register writes of `SET_IP`. -/
def setIpWrites : List UInt8 → List (UInt16 × UInt16)
  | o1 :: o2 :: o3 :: o4 :: _ => if ipAddrValid o1 o2 o3 o4 then ipWrites #v[o1, o2, o3, o4] else []
  | _ => []

/-- The register writes of `SET_MODBUS`. -/
def setModbusWrites : List UInt8 → List (UInt16 × UInt16)
  | id :: b0 :: b1 :: _ =>
    [(UInt16.ofNat holdingSlaveIdIdx, id.toUInt16), (UInt16.ofNat holdingRs485BaudrateIdx, getBe16 b0 b1)]
  | _ => []

/-- The register writes of a UDP command. -/
def udpWrites (cmd : UInt8) (data : List UInt8) : List (UInt16 × UInt16) :=
  if cmd = udpCmdSetIp then setIpWrites data
  else if cmd = udpCmdSetModbus then setModbusWrites data
  else []

/-- The registers a configuration is put into. -/
def cfgWrites (c : IoCfg) : List (UInt16 × UInt16) := (cfgVals c).map fun p => (UInt16.ofNat p.1, p.2)

/-- The configuration found at the boot. -/
def loadedCfg (w : W25q) : IoCfg :=
  let (w, ra) := w.read cfgSlotA cfgRecLen
  let (_, rb) := w.read cfgSlotB cfgRecLen
  (pickSlot (ra.bind decodeRecord) (rb.bind decodeRecord)).1

/-- The register writes of a factory reset: the defaults, if both slots can be erased. -/
def eraseWrites (w : W25q) : List (UInt16 × UInt16) :=
  match w.erase cfgSlotA cfgSlotSize with
  | (_, false) => []
  | (w, true) =>
    match w.erase cfgSlotB cfgSlotSize with
    | (_, false) => []
    | (_, true) => cfgWrites IoCfg.defaults

theorem applyCfgToRegs_wrote (r : RegMap) (c : IoCfg) (hooks : Hooks) :
    Wrote (cfgWrites c) (r, hooks) (applyCfgToRegs r c, hooks) := by
  have indices : ∀ i ∈ (cfgVals c).map Prod.fst, IsCfgReg i := by
    simp only [cfgVals, List.map_cons, List.map_nil]
    decide
  exact Wrote.foldl (·, hooks) _ (cfgVals c)
    (fun r p mem => .config (r, hooks) (indices p.1 (List.mem_map_of_mem mem))) r

theorem cfgEraseAll_wrote (w : W25q) (r : RegMap) (cfg : Option ℕ × UInt32) (hooks : Hooks) :
    Wrote (eraseWrites w) (r, hooks) ((cfgEraseAll w r cfg).2.2.1, hooks) := by
  unfold cfgEraseAll eraseWrites
  rcases w.erase cfgSlotA cfgSlotSize with ⟨w, _ | _⟩
  · exact .refl _
  dsimp only
  rcases w.erase cfgSlotB cfgSlotSize with ⟨w, _ | _⟩
  · exact .refl _
  · exact applyCfgToRegs_wrote ..

namespace UdpApp

/-- The registers and hooks of the UDP commands. -/
def view (a : UdpApp) : Regs := (a.regs, a.hooks)

/-- `update_holding` of configuration registers, then `holding_save`. -/
theorem update_wrote (a : UdpApp) {vals : List (ℕ × UInt16)} {ws : List (UInt16 × UInt16)}
    (listed : vals.map (fun p => (UInt16.ofNat p.1, p.2)) = ws) (cfg : ∀ p ∈ vals, IsCfgReg p.1) :
    Wrote ws a.view (a.update vals).holdingSave.view := by
  subst listed
  have stored : Wrote (vals.map fun p => (UInt16.ofNat p.1, p.2)) a.view (a.update vals).view := by
    refine Wrote.foldl (·, a.hooks) _ vals (fun r p mem => ?_) a.regs
    have bound : p.1 < 18 := Nat.lt_of_le_of_lt (cfg p mem).2 (by decide)
    have index : (UInt16.ofNat p.1).toNat = p.1 := UInt16.toNat_ofNat_of_lt' (Nat.lt_trans bound (by decide))
    have same : (r.updateHolding (UInt16.ofNat p.1) p.2).getD r =
        { r with holding := r.holding.setIfInBounds p.1 p.2 } := by
      simp [RegMap.updateHolding, index, bound, Vector.setIfInBounds, Vector.set, Array.setIfInBounds]
    rw [same]
    exact .config (r, a.hooks) (cfg p mem)
  exact stored.kept (.call _ trivial)

theorem setIp_wrote (a : UdpApp) (reply data : List UInt8) :
    Wrote (setIpWrites data) a.view (a.setIp reply data).1.view := by
  rcases data with _ | ⟨o1, _ | ⟨o2, _ | ⟨o3, _ | ⟨o4, more⟩⟩⟩⟩
  case cons.cons.cons.cons =>
    rw [setIp, setIpWrites]
    split_ifs
    · rw [replyOk_fst]
      refine update_wrote a rfl ?_
      simp [IsCfgReg, holdingDiEnableIdx, holdingIpOctet1Idx, holdingIpOctet4Idx]
    · rw [replyOk_fst]
      exact .refl _
  all_goals
    rw [setIp, replyOk_fst]
    · exact .refl _
    · simp

theorem setModbus_wrote (a : UdpApp) (reply data : List UInt8) :
    Wrote (setModbusWrites data) a.view (a.setModbus reply data).1.view := by
  rcases data with _ | ⟨id, _ | ⟨b0, _ | ⟨b1, more⟩⟩⟩
  case cons.cons.cons =>
    rw [setModbus, replyOk_fst]
    refine update_wrote a rfl ?_
    simp [IsCfgReg, holdingDiEnableIdx, holdingSlaveIdIdx, holdingRs485BaudrateIdx, holdingIpOctet4Idx]
  all_goals
    rw [setModbus, replyOk_fst]
    · exact .refl _
    · simp

theorem setTime_wrote (accepts : UInt32 → Bool) (a : UdpApp) (reply data : List UInt8) :
    Wrote [] a.view (a.setTime accepts reply data).1.view := by
  unfold setTime
  split
  · rw [replyOk_fst]
    exact .call a.view trivial
  · rw [replyOk_fst]
    exact .refl _

theorem factoryReset_view (a : UdpApp) (reply : List UInt8) (cmd : UInt8) (nowMs : UInt32) :
    (a.factoryReset reply cmd nowMs).1.view = a.view := by
  unfold factoryReset
  split_ifs <;> (rw [replyOk_fst]; rfl)

theorem reboot_view (a : UdpApp) (reply : List UInt8) : (a.reboot reply).1.view = a.view := by
  rw [reboot, replyOk_fst]
  rfl

theorem udpAppCmd_wrote {ver : UdpVersion} {accepts : UInt32 → Bool} {a : UdpApp} {cmd : UInt8}
    {data reply : List UInt8} {nowMs : UInt32} {r : UdpReply}
    (ran : a.udpAppCmd ver accepts cmd data reply nowMs = some r) : Wrote (udpWrites cmd data) a.view r.1.view := by
  by_cases setIp : cmd = udpCmdSetIp
  · subst setIp
    rw [udpAppCmd, if_pos rfl] at ran
    exact Option.some.inj ran ▸ setIp_wrote ..
  by_cases setModbus : cmd = udpCmdSetModbus
  · subst setModbus
    exact Option.some.inj ran ▸ setModbus_wrote ..
  rw [udpAppCmd, if_neg setIp] at ran
  rw [udpWrites, if_neg setIp, if_neg setModbus]
  apply of_ite ran (fun _ ran => getIp_fst ran ▸ .refl _)
  intro _ ran
  rw [if_neg setModbus] at ran
  apply of_ite ran (fun _ ran => getModbus_fst ran ▸ .refl _)
  intro _ ran
  apply of_ite ran (fun _ ran => Option.some.inj ran ▸ setTime_wrote ..)
  intro _ ran
  apply of_ite ran (fun _ ran => getVersion_fst ran ▸ .refl _)
  intro _ ran
  apply of_ite ran (fun _ ran => Option.some.inj ran ▸ .of_eq (reboot_view a reply))
  intro _ ran
  apply of_ite ran (fun _ ran => Option.some.inj ran ▸ .of_eq (factoryReset_view a reply cmd nowMs))
  intro _ ran
  exact Option.some.inj ran ▸ .refl _

end UdpApp

/-! ## Operations -/

/-- Everything that touches `REGS`.  An operation brings along the rest of the state its task has at
that moment; the registers and hooks in it are replaced by the shared ones. -/
inductive RegOp where
  | modbus (srv : MbServer) (out pdu : List UInt8)
  | api (ctx : WsSession) (post : WsSession.ApiPost) (body : List UInt8)
  | ws (ctx : WsSession) (fin : Bool) (opcode : UInt8) (payload : List UInt8)
  | shell (line : List UInt8)
  | udp (ctx : UdpApp) (ver : UdpVersion) (accepts : UInt32 → Bool) (c : UdpCall)
  | cfgLoad (w : W25q)
  | cfgSave
  | cfgErase (w : W25q) (cfg : Option ℕ × UInt32)
  | linkPoll (up : Bool)
  | sample (addr reg : UInt16)

/-- The holding registers an operation writes. -/
def RegOp.regWrites : RegOp → List (UInt16 × UInt16)
  | .modbus _ _ pdu => Mb.regWrites pdu
  | .api _ post body => WsSession.postWrites body post
  | .ws _ fin opcode payload => WsSession.frameWrites fin opcode payload
  | .shell line => Shell.lineWrites line
  | .udp _ _ _ c => udpWrites c.cmd c.data
  | .cfgLoad w => cfgWrites (loadedCfg w)
  | .cfgErase w _ => eraseWrites w
  | .cfgSave | .linkPoll _ | .sample _ _ => []

namespace Regs

/-- The registers at power-up, with nothing driven yet. -/
def start (versionReg : UInt16) (nowEpoch : UInt32) : Regs := (RegMap.new versionReg, ⟨[], nowEpoch⟩)

/-- One operation; no result is a panic. -/
def step (s : Regs) : RegOp → Option Regs
  | .modbus srv out pdu => (Mb.process ⟨srv, out, s.1, s.2⟩ pdu).map fun r => (r.1.regs, r.1.hooks)
  | .api ctx post body =>
    (WsSession.apiPost { ctx with regs := s.1, hooks := s.2 } body post).map fun r => r.1.view
  | .ws ctx fin opcode payload =>
    ({ ctx with regs := s.1, hooks := s.2 }.frame fin opcode payload).map WsSession.view
  | .shell line => some (Shell.dispatch ⟨s.1, s.2, []⟩ line).view
  | .udp ctx ver accepts c => (UdpApp.step ver accepts { ctx with regs := s.1, hooks := s.2 } c).map UdpApp.view
  | .cfgLoad w => some ((bootConfigLoad w s.1).2.2.2, s.2)
  -- `cfg_save` only reads the registers
  | .cfgSave => some s
  | .cfgErase w cfg => some ((cfgEraseAll w s.1 cfg).2.2.1, s.2)
  -- `set_do_led(0)` is what the hook `set_do` calls
  | .linkPoll up =>
    some (if up then s else (s.1.clearDo, s.2.call (.setDo 0)))
  | .sample addr reg => some ((s.1.updateInput addr reg).getD s.1, s.2)

/-- The listed writes are all that an operation does to the address. -/
theorem step_wrote {s s' : Regs} {op : RegOp} (h : s.step op = some s') : Wrote op.regWrites s s' := by
  cases op with
  | modbus srv out pdu =>
    obtain ⟨r, ran, rfl⟩ := Option.map_eq_some_iff.1 h
    exact Mb.process_wrote ran
  | api ctx post body =>
    obtain ⟨r, ran, rfl⟩ := Option.map_eq_some_iff.1 h
    exact WsSession.apiPost_wrote ran
  | ws ctx fin opcode payload =>
    obtain ⟨r, ran, rfl⟩ := Option.map_eq_some_iff.1 h
    exact WsSession.frame_wrote ran
  | shell line =>
    cases h
    exact Shell.dispatch_wrote ⟨s.1, s.2, []⟩ line
  | udp ctx ver accepts c =>
    obtain ⟨a, stepped, rfl⟩ := Option.map_eq_some_iff.1 h
    obtain ⟨r, ran, rfl⟩ := Option.map_eq_some_iff.1 stepped
    exact UdpApp.udpAppCmd_wrote ran
  | cfgLoad w =>
    obtain rfl := Option.some.inj h
    exact applyCfgToRegs_wrote s.1 (loadedCfg w) s.2
  | cfgSave =>
    cases h
    exact .refl _
  | cfgErase w cfg =>
    obtain rfl := Option.some.inj h
    exact cfgEraseAll_wrote ..
  | linkPoll up =>
    cases h
    cases up with
    | true => exact .refl _
    | false => exact ⟨.single .linkDown, .elsewhere (by decide) (.inl (by decide)) rfl⟩
  | sample addr reg =>
    cases h
    cases stored : s.1.updateInput addr reg with
    | none => exact .refl _
    | some r =>
      refine ⟨.single (.input stored), ?_⟩
      unfold RegMap.updateInput at stored
      split_ifs at stored
      cases stored
      rfl

/-- What a single write keeps holds after every run of operations. -/
theorem run_keeps {Q : Regs → Prop} (keeps : ∀ s s', RegWrite s s' → Q s → Q s') {s s' : Regs} (init : Q s)
    {ops : List RegOp} (ran : ops.foldlM step s = some s') : Q s' :=
  Run.always (Q := fun _ s => Q s) init
    (fun _ _ _ _ inv stepped => Run.along keeps (step_wrote stepped).path inv) ran

end Regs

/-! ## Each register once -/

theorem ipWrites_once (ip : Vector UInt8 4) : ((ipWrites ip).map Prod.fst).Nodup := by
  rw [show (ipWrites ip).map Prod.fst = [10, 11, 12, 13] from rfl]
  decide

theorem cfgWrites_once (c : IoCfg) : ((cfgWrites c).map Prod.fst).Nodup := by
  rw [show (cfgWrites c).map Prod.fst = [1, 2, 3, 4, 5, 6, 7, 8, 9, 10, 11, 12, 13] from rfl]
  decide

theorem singleWrites_once {β : Type} (addr : UInt16) (value : ℕ → β) (qty : UInt16) :
    ((singleWrites addr value 0 qty.toNat).map Prod.fst).Nodup := by
  rw [singleWrites, List.map_map]
  refine List.Nodup.map_on ?_ List.nodup_range'
  intro i hi j hj same
  have bound := qty.toNat_lt
  have left := (List.mem_range'_1.1 hi).2
  have right := (List.mem_range'_1.1 hj).2
  have equal := congrArg UInt16.toNat ((UInt16.add_right_inj addr).1 same)
  rw [UInt16.toNat_ofNat', UInt16.toNat_ofNat'] at equal
  omega

theorem Mb.regWrites_once (pdu : List UInt8) : ((regWrites pdu).map Prod.fst).Nodup := by
  unfold regWrites
  split
  · exact List.nodup_nil
  split_ifs
  · unfold fc06Writes
    split
    · exact List.nodup_singleton _
    · exact List.nodup_nil
  · unfold fc16Writes
    split
    · exact (singleWrites_once ..).sublist ((List.takeWhile_sublist _).map Prod.fst)
    · exact List.nodup_nil
  · exact List.nodup_nil

theorem WsSession.bodyReg_once (body : List UInt8) : ((bodyReg body).map Prod.fst).Nodup := by
  unfold bodyReg regWrites
  split
  · split_ifs
    · exact List.nodup_nil
    · exact List.nodup_nil
    · exact List.nodup_singleton _
  · exact List.nodup_nil

theorem WsSession.bodyCfg_once (body : List UInt8) : ((bodyCfg body).map Prod.fst).Nodup := by
  have addrs : configAddrs.Nodup := by decide
  unfold bodyCfg
  cases plan : cfgPlan body with
  | none => exact List.nodup_nil
  | some p => exact addrs.sublist (cfgPlan_addrs plan)

theorem Shell.paramWrites_once (table : List (String × (ℕ → Bool) × ℕ)) (args : List (List Char)) :
    ((paramWrites table args).map Prod.fst).Nodup := by
  unfold paramWrites
  split
  · split
    · exact List.nodup_nil
    split
    · exact List.nodup_nil
    split_ifs
    · exact List.nodup_singleton _
    · exact List.nodup_nil
  · exact List.nodup_nil

theorem Shell.lineWrites_once (line : List UInt8) : ((lineWrites line).map Prod.fst).Nodup := by
  unfold lineWrites
  split
  · split_ifs
    · exact List.nodup_nil
    · exact paramWrites_once ..
    · exact paramWrites_once ..
    · unfold ipLineWrites
      split
      · split
        · exact List.nodup_nil
        split_ifs
        · exact List.nodup_nil
        · exact ipWrites_once _
      · exact List.nodup_nil
    · unfold regLineWrites
      split
      · split
        · exact List.nodup_nil
        split_ifs
        · exact List.nodup_nil
        split
        · exact List.nodup_nil
        split_ifs
        · exact List.nodup_nil
        · exact List.nodup_singleton _
      · exact List.nodup_nil
    · exact List.nodup_nil
    · exact List.nodup_nil
  · exact List.nodup_nil

theorem udpWrites_once (cmd : UInt8) (data : List UInt8) : ((udpWrites cmd data).map Prod.fst).Nodup := by
  unfold udpWrites
  split_ifs
  · unfold setIpWrites
    split
    · split_ifs
      · exact ipWrites_once _
      · exact List.nodup_nil
    · exact List.nodup_nil
  · unfold setModbusWrites
    split
    · exact List.nodup_cons.2 ⟨by simp [holdingSlaveIdIdx, holdingRs485BaudrateIdx], List.nodup_singleton _⟩
    · exact List.nodup_nil
  · exact List.nodup_nil

theorem RegOp.regWrites_once (op : RegOp) : (op.regWrites.map Prod.fst).Nodup := by
  cases op with
  | modbus srv out pdu => exact Mb.regWrites_once pdu
  | api ctx post body =>
    cases post with
    | reg => exact WsSession.bodyReg_once body
    | cfg => exact WsSession.bodyCfg_once body
    | setDo | time | save => exact List.nodup_nil
  | ws ctx fin opcode payload =>
    rw [regWrites, WsSession.frameWrites]
    split_ifs
    · unfold WsSession.cmdWrites
      split
      · split_ifs
        · exact WsSession.bodyReg_once _
        · exact WsSession.bodyCfg_once _
        · exact List.nodup_nil
      · exact List.nodup_nil
    · exact List.nodup_nil
  | shell line => exact Shell.lineWrites_once line
  | udp ctx ver accepts c => exact udpWrites_once c.cmd c.data
  | cfgLoad w => exact cfgWrites_once _
  | cfgErase w cfg =>
    rw [regWrites, eraseWrites]
    split
    · exact List.nodup_nil
    split
    · exact List.nodup_nil
    · exact cfgWrites_once _
  | cfgSave | linkPoll | sample => exact List.nodup_nil

end IoEdgeHub
