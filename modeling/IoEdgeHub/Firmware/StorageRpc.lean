import IoEdgeHub.Firmware.Storage
import IoEdgeHub.Lib.Mailbox

/-!
# Storage RPCs

The FTP sessions and the HTTP tasks send commands to the storage task over `QUEUE`, wait until
`RPC_SEQ` passes the value it had when they sent, and then look into statics that they all share;
the FTP sessions read `FTP_RES`. The counter is moved by commands of any client, and a command that
finds the queue full is dropped while its sender waits. `own_results_of_undisturbed` says when a
session nevertheless reads the result of its own command; one operation in flight at a time is
enough for this (`undisturbed_of_serialised`).
-/

namespace IoEdgeHub

open Mailbox
open Bytes (overwrite)

/-! ## What a command does to the shared statics -/

/-- The commands that end in `RPC_SEQ.fetch_add`. -/
def StorageCmd.bumps : StorageCmd → Bool
  | .write _ | .closeKeepName | .cfgSave | .cfgEraseAll | .del _ => false
  | _ => true

/-- The commands whose result goes to `FTP_RES`. -/
def StorageCmd.writesRes : StorageCmd → Bool
  | .ftpStat _ | .ftpOpenRead .. | .ftpOpenWrite .. | .ftpCloseWrite _ | .ftpRemove _ | .ftpMkdir _
  | .ftpRename .. => true
  | _ => false

namespace Store

/-- `RPC_SEQ` and `FTP_RES`. -/
def answer (s : Store) : UInt32 × FtpRes := (s.rpcSeq, s.ftpRes)

section Frame

variable (s : Store) (env : LfsEnv)

theorem answer_closeHeld (held : Option File) (ok : Bool) : (s.closeHeld held ok).answer = s.answer := by
  cases held <;> rfl

theorem answer_slotCloseAll (slot : Fin 3) : (s.slotCloseAll env slot).answer = s.answer := by
  unfold slotCloseAll
  exact (answer_closeHeld _ _ _).trans (answer_closeHeld _ _ _)

theorem answer_openAppend (env : AppendEnv) (record : List UInt8) (create : Bool) :
    (s.openAppend env record create).1.answer = s.answer := by
  unfold openAppend
  rcases s.hist.path s.paths with _ | p
  · rfl
  · rcases create with _ | _ <;> rcases hasRoom env with _ | _ <;> rcases env.opened with _ | _ <;>
      rcases env.written with _ | _ <;> rfl

theorem answer_ite (b : Bool) (s t : Store) : (if b then s else t).answer = if b then s.answer else t.answer := by
  cases b <;> rfl

theorem answer_cleanupOldFiles (root : List DirEntry) : (s.cleanupOldFiles root).answer = s.answer := rfl

theorem answer_histCreate (env : HistEnv) (record : List UInt8) : (s.histCreate env record).answer = s.answer := by
  have same (st : HistState) : (openAppend { s with hist := st } env.fresh record true).1.answer = s.answer :=
    answer_openAppend ..
  rw [histCreate, answer_ite, answer_cleanupOldFiles, same, ite_self]

theorem answer_histReopen (env : HistEnv) (record : List UInt8) : (s.histReopen env record).answer = s.answer := by
  have same (st : HistState) : (openAppend { s with hist := st } env.retained record false).1.answer = s.answer :=
    answer_openAppend ..
  rw [histReopen, answer_ite, answer_histCreate, ite_self]
  split
  · exact same _
  · rfl

theorem answer_histWrite (env : HistEnv) (d : HisData) : (s.histWrite env d).answer = s.answer := by
  unfold histWrite
  dsimp only
  split
  · rfl
  · rw [answer_histReopen, answer_closeHeld]
    rfl

theorem answer_fileOpen (name : FileName) : (s.fileOpen env name).answer = s.answer := by
  have reset : (s.downloadReset env).answer = s.answer := answer_closeHeld ..
  unfold fileOpen
  dsimp only
  split
  · exact reset
  cases pathOf (s.downloadReset env).paths name with
  | none => exact reset
  | some p =>
    dsimp only
    split <;> exact reset

theorem answer_fileChunk : (s.fileChunk env).answer = s.answer := by
  unfold fileChunk
  dsimp only
  generalize (if s.downloadFile.isSome then env.read.take 2048 else []) = buf
  split
  · rfl
  split
  · exact answer_closeHeld ..
  split
  · exact answer_closeHeld ..
  split
  · exact answer_closeHeld ..
  · rfl

theorem answer_ftpLsOf (path : FtpPath) : (s.ftpLsOf env path).answer = s.answer := by
  unfold ftpLsOf
  cases ftpPathOf s.paths path with
  | none => rfl
  | some p =>
    dsimp only
    split <;> rfl

theorem answer_ftpWriteChunk (slot : Fin 3) (len : ℕ) : (s.ftpWriteChunk env slot len).answer = s.answer := by
  unfold ftpWriteChunk
  dsimp only
  split <;> rfl

theorem answer_ftpReadChunk (slot : Fin 3) : (s.ftpReadChunk env slot).answer = s.answer := by
  unfold ftpReadChunk
  dsimp only
  generalize (if (s.ftpXfer slot).dl.isSome then env.read.take 2048 else []) = buf
  split
  · rfl
  split
  · exact answer_closeHeld ..
  split
  · exact answer_closeHeld ..
  · rfl

theorem answer_write (d : HisData) : (s.handleCmd env (.write d)).answer = s.answer := by
  rw [handleCmd, answer_ite, answer_histWrite, ite_self]

theorem answer_del (name : FileName) : (s.handleCmd env (.del name)).answer = s.answer := by
  rw [handleCmd]
  split <;> rfl

theorem answer_ftpOpenRead (slot : Fin 3) (path : FtpPath) (rest : UInt32) :
    (s.ftpOpenRead env slot path rest).1.answer = s.answer := by
  have closed := answer_slotCloseAll s env slot
  unfold ftpOpenRead
  generalize s.slotCloseAll env slot = t at closed
  dsimp only
  split
  · exact closed
  split
  · exact closed
  split
  · split <;> exact closed
  · exact closed

theorem rpcSeq_ftpOpenWrite (slot : Fin 3) (path : FtpPath) (mode : FtpWrMode) :
    (s.ftpOpenWrite env slot path mode).rpcSeq = s.rpcSeq := by
  have closed := congrArg Prod.fst (answer_slotCloseAll s env slot)
  unfold ftpOpenWrite
  generalize s.slotCloseAll env slot = t at closed
  dsimp only
  split
  · exact closed
  split
  · exact closed
  split
  · split <;> exact closed
  · exact closed

/-- The counter moves once for each of these commands. -/
theorem rpcSeq_handleCmd (cmd : StorageCmd) :
    (s.handleCmd env cmd).rpcSeq = if cmd.bumps then s.rpcSeq + 1 else s.rpcSeq := by
  have seq {t : Store} (same : t.answer = s.answer) : t.rpcSeq = s.rpcSeq := congrArg Prod.fst same
  have bumped {t : Store} (same : t.rpcSeq = s.rpcSeq) : t.bump.rpcSeq = s.rpcSeq + 1 := by
    rw [← same]
    rfl
  cases cmd with
  | write d => exact seq (answer_write ..)
  | closeKeepName => exact seq (answer_closeHeld ..)
  | cfgSave | cfgEraseAll | sync | snapReq => rfl
  | del name => exact seq (answer_del ..)
  | fileOpen name => exact bumped (seq (answer_fileOpen ..))
  | fileChunk => exact bumped (seq (answer_fileChunk ..))
  | ftpStat path =>
    refine bumped ?_
    unfold ftpStat
    split <;> rfl
  | ftpLs path => exact bumped (seq (answer_ftpLsOf ..))
  | ftpOpenRead slot path rest =>
    have opened := seq (s.answer_ftpOpenRead env slot path rest)
    exact bumped (t := (s.ftpOpenRead env slot path rest).1.setRes _) opened
  | ftpOpenWrite slot path mode => exact bumped (rpcSeq_ftpOpenWrite ..)
  | ftpWriteChunk slot len => exact bumped (seq (answer_ftpWriteChunk ..))
  | ftpCloseWrite slot =>
    have closed := seq (s.answer_closeHeld (s.ftpXfer slot).wr env.close)
    exact bumped (t := s.ftpCloseWrite env slot) closed
  | ftpReadChunk slot => exact bumped (seq (answer_ftpReadChunk ..))
  | ftpRemove path =>
    refine bumped ?_
    unfold ftpRemove
    split <;> rfl
  | ftpMkdir path => rfl
  | ftpRename src dst => rfl

/-- The register is left alone by all other commands. -/
theorem ftpRes_handleCmd {cmd : StorageCmd} (other : cmd.writesRes = false) :
    (s.handleCmd env cmd).ftpRes = s.ftpRes := by
  have res {t : Store} (same : t.answer = s.answer) : t.ftpRes = s.ftpRes := congrArg Prod.snd same
  have bumped {t : Store} (same : t.answer = s.answer) : t.bump.ftpRes = s.ftpRes := res (t := t) same
  cases cmd with
  | write d => exact res (answer_write ..)
  | closeKeepName => exact res (answer_closeHeld ..)
  | sync | cfgSave | cfgEraseAll | snapReq => rfl
  | del name => exact res (answer_del ..)
  | fileOpen name => exact bumped (answer_fileOpen ..)
  | fileChunk => exact bumped (answer_fileChunk ..)
  | ftpLs path => exact bumped (answer_ftpLsOf ..)
  | ftpWriteChunk slot len => exact bumped (answer_ftpWriteChunk ..)
  | ftpReadChunk slot => exact bumped (answer_ftpReadChunk ..)
  | ftpStat _ | ftpOpenRead _ _ _ | ftpOpenWrite _ _ _ | ftpCloseWrite _ | ftpRemove _ | ftpMkdir _
  | ftpRename _ _ => cases other

end Frame

end Store

/-- The storage task: its counter is `RPC_SEQ`, its register `FTP_RES`. -/
def storageTask : Server Store LfsEnv StorageCmd UInt32 FtpRes where
  handle := Store.handleCmd
  seq := Store.rpcSeq
  res := Store.ftpRes
  bumps := StorageCmd.bumps
  writes := StorageCmd.writesRes
  seq_handle s env cmd quiet := by rw [s.rpcSeq_handleCmd env cmd, quiet]; rfl
  res_handle s env cmd other := s.ftpRes_handleCmd env other
  bumps_of_writes cmd writes := by cases cmd <;> first | rfl | cases writes

/-! ## The clients -/

/-- The tasks that wait for an answer. -/
inductive Client where
  | ftp (slot : Fin 3)
  | http (task : Fin 2)
deriving DecidableEq, Repr

/-- What a task sends and waits for; a session uses only its own slot. -/
def Client.sends : Client → StorageCmd → Bool
  | .ftp slot, .ftpOpenRead slot' _ _ | .ftp slot, .ftpOpenWrite slot' _ _ | .ftp slot, .ftpWriteChunk slot' _
  | .ftp slot, .ftpCloseWrite slot' | .ftp slot, .ftpReadChunk slot' => slot = slot'
  | .ftp _, .ftpStat _ | .ftp _, .ftpLs _ | .ftp _, .ftpRemove _ | .ftp _, .ftpMkdir _ | .ftp _, .ftpRename _ _ => true
  | .http _, .snapReq | .http _, .fileOpen _ | .http _, .fileChunk => true
  | _, _ => false

/-- Sent to `QUEUE` by a task that goes on: samples, the history switch, the sync of a reboot and of
the shell, and the web's delete. -/
def posted : StorageCmd → Bool
  | .write _ | .closeKeepName | .sync | .del _ => true
  | _ => false

/-- Sent to `CTRL_QUEUE`. -/
def controls : StorageCmd → Bool
  | .cfgSave | .cfgEraseAll => true
  | _ => false

/-- An act of the storage bus. -/
abbrev RpcAct := Act LfsEnv StorageCmd Client

/-- The storage bus. -/
abbrev RpcBus := Bus Store StorageCmd UInt32 FtpRes Client

/-- The act is one of the program's. -/
def taken : RpcAct → Bool
  | .send c cmd => c.sends cmd
  | .post cmd => posted cmd
  | .urge cmd => controls cmd
  | _ => true

namespace RpcBus

/-- One step of the tasks. `QUEUE` holds 8 commands, `CTRL_QUEUE` 4. A task runs until it waits, so
that `rpc_send`, `handle_cmd`, and a look at the counter with the read after it are one step each. -/
def step (b : RpcBus) (a : RpcAct) : Option RpcBus := if taken a then Bus.step storageTask 8 4 b a else none

/-- After a run of the tasks. -/
def after (s : Store) (acts : List RpcAct) : Option RpcBus := acts.foldlM step (.init s)

/-- Whenever the `rpc_wait` of a session returns true and it reads `FTP_RES`, the value is the result
of the command it sent. -/
def OwnResults (s : Store) (acts : List RpcAct) : Prop :=
  Run.Each (fun before act => ∀ (b : RpcBus) slot w, after s before = some b → act = .poll (.ftp slot) →
    b.waits (.ftp slot) = some w → w.job.cmd.writesRes = true → (b.step act).isSome →
      ∀ r, (w.job, r) ∈ b.done ↔ r = b.server.ftpRes) acts

/-- While a session waits to read `FTP_RES`, no command of another task moves the counter before its
own command has been handled, and none writes the register after that. -/
def Undisturbed (s : Store) (acts : List RpcAct) : Prop :=
  Run.Each (fun before act => ∀ b, after s before = some b → Bus.Undisturbed storageTask b act) acts

/-- Nothing that moves the counter is sent while a session waits to read `FTP_RES`, and a session
sends what it will read the result of only when nothing that moves the counter is pending. -/
def Serialised (s : Store) (acts : List RpcAct) : Prop :=
  Run.Each (fun before act => ∀ b, after s before = some b → Bus.Serial storageTask b act) acts

variable {b b' : RpcBus} {a : RpcAct}

theorem step_change (ran : b.step a = some b') : b.Change storageTask a b' := by
  obtain ⟨-, ran⟩ := Option.ite_none_right_eq_some.1 ran
  exact Bus.step_change ran

/-- The counter has passed the snapshot when `rpc_wait` returns true. -/
theorem lt_of_poll {c : Client} {w : Wait StorageCmd UInt32} (waits : b.waits c = some w)
    (returns : (b.step (.poll c)).isSome) : w.seq < b.server.rpcSeq := by
  by_contra behind
  have stuck : b.step (.poll c) = none := by
    simp only [step, taken, Bus.step, waits, if_true]
    exact if_neg behind
  rw [stuck] at returns
  cases returns

/-- A session that is not disturbed reads the result of its own command. -/
theorem own_results_of_undisturbed (s : Store) (acts : List RpcAct) (meets : Undisturbed s acts) :
    OwnResults s acts := by
  intro before act rest split b slot w reached poll waits writes returns r
  have sound : b.Sound storageTask := by
    refine Run.reached (Q := fun _ b => Bus.Sound storageTask b) (Bus.sound_init s) ?_
      (Run.Each.left (split ▸ meets)) reached
    intro before b a b' sound undisturbed ran
    exact sound.change undisturbed (step_change ran)
  subst poll
  exact sound.own_result ⟨_, waits, writes⟩ (lt_of_poll waits returns) r

theorem undisturbed_of_serialised {s : Store} {acts : List RpcAct} (meets : Serialised s acts) :
    Undisturbed s acts := by
  intro before act rest split b reached
  have alone : b.Alone storageTask := by
    refine Run.reached (Q := fun _ b => Bus.Alone storageTask b) ?_ ?_ (Run.Each.left (split ▸ meets)) reached
    · rintro w ⟨c, waits, -⟩
      cases waits
    · intro before b a b' alone serial ran
      exact alone.change serial (step_change ran)
  exact alone.undisturbed

/-- A storage task without files. -/
def blankStore : Store := .new .documented ⟨fun _ => 0xFF, [], 0⟩ (.new 0) (none, 0)

/-- Ask for a file. -/
def statFile (name : UInt8) : StorageCmd := .ftpStat (overwrite (.replicate 96 0) [0x2F, name])

/-- littlefs knows the file, with this size. -/
def present (len : UInt32) : LfsEnv := { Store.allWell with metadata := some ⟨false, len⟩ }

/-- Two sessions ask one after the other, with a sample in between. -/
def inTurn (one two : Client) : List RpcAct :=
  [.send one (statFile 0x61), .post (.write (.di 0 1 1)), .serve (present 5), .poll one,
    .send two (statFile 0x62), .serve Store.allWell, .serve (present 7), .poll two]

theorem stats_in_turn :
    (∃ b, after blankStore ((inTurn (.ftp 0) (.ftp 1)).take 3) = some b ∧ (b.step (.poll (.ftp 0))).isSome ∧
      b.server.ftpRes = (true, false, 5)) ∧
    (∃ b, after blankStore ((inTurn (.ftp 0) (.ftp 1)).take 7) = some b ∧ (b.step (.poll (.ftp 1))).isSome ∧
      b.server.ftpRes = (true, false, 7)) ∧
    OwnResults blankStore (inTurn (.ftp 0) (.ftp 1)) := by
  refine ⟨⟨_, rfl, by decide +kernel, by decide +kernel⟩, ⟨_, rfl, by decide +kernel, by decide +kernel⟩, ?_⟩
  refine own_results_of_undisturbed _ _ (undisturbed_of_serialised ?_)
  refine Run.each_cons.2 ⟨?_, Run.each_cons.2 ⟨fun _ _ => nofun, Run.each_cons.2 ⟨fun _ _ => trivial, ?_⟩⟩⟩
  · intro b start
    cases start
    refine ⟨fun _ j mem => (by cases mem), ?_⟩
    rintro - w ⟨c, waits, -⟩
    cases waits
  refine Run.each_cons.2 ⟨fun _ _ => trivial, Run.each_cons.2 ⟨?_, Run.each_cons.2 ⟨fun _ _ => trivial, ?_⟩⟩⟩
  · intro b ran
    cases ran
    refine ⟨fun _ j mem => ?_, ?_⟩
    · rw [List.mem_singleton.1 mem]
      rfl
    · rintro - w ⟨c, waits, -⟩
      change Function.update (Function.update (fun _ : Client => (none : Option (Wait StorageCmd UInt32))) (.ftp 0) _)
        (.ftp 0) none c = some w at waits
      rw [Function.update_idem, Function.update_apply] at waits
      split at waits <;> cases waits
  exact Run.each_cons.2 ⟨fun _ _ => trivial, Run.each_cons.2 ⟨fun _ _ => trivial, Run.each_nil⟩⟩

/-- Two sessions ask for the size of a file each. Both commands are handled before the first session
looks, and it reads the answer to the second. -/
theorem stat_reads_other :
    ¬ OwnResults blankStore [.send (.ftp 0) (statFile 0x61), .send (.ftp 1) (statFile 0x62),
      .serve (present 5), .serve Store.allWell, .poll (.ftp 0)] := by
  intro own
  let before : List RpcAct := [.send (.ftp 0) (statFile 0x61), .send (.ftp 1) (statFile 0x62),
    .serve (present 5), .serve Store.allWell]
  have computed : (after blankStore before).map (fun b =>
      ((b.waits (.ftp 0)).map (·.job), b.done, b.server.ftpRes, (b.step (.poll (.ftp 0))).isSome)) =
      some (some ⟨0, statFile 0x61⟩,
        [(⟨0, statFile 0x61⟩, (true, false, 5)), (⟨1, statFile 0x62⟩, (false, false, 0))], (false, false, 0), true) :=
    rfl
  obtain ⟨b, reached, fields⟩ := Option.map_eq_some_iff.1 computed
  simp only [Prod.mk.injEq] at fields
  obtain ⟨sent, done, res, returns⟩ := fields
  obtain ⟨w, waits, job⟩ := Option.map_eq_some_iff.1 sent
  have result := own before (.poll (.ftp 0)) [] rfl b 0 w reached rfl waits (by rw [job]; rfl) returns (true, false, 5)
  rw [done, res, job] at result
  exact absurd (result.1 List.mem_cons_self) (by decide)

end RpcBus

end IoEdgeHub
