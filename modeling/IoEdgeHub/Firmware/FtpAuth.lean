import IoEdgeHub.Firmware.Ftpd

/-!
# Who may change the file system over FTP

Every command that changes the file system is queued only while `authed && !anon` holds
(`execute_guarded`). Only `USER` and `PASS` touch these two flags, and they do so separately: a
session that logged in as an anonymous user and then names another user holds both without ever
having given the password. `queued_after_admin` says that this is the only way around it.
-/

namespace IoEdgeHub

open Text (utf8)

/-- The commands that change the file system on behalf of a client. -/
def StorageCmd.changesFs : StorageCmd → Bool
  | .ftpRemove _ | .ftpMkdir _ | .ftpRename _ _ | .ftpOpenWrite _ _ _ => true
  | _ => false

namespace FtpSession

/-- The session may write. -/
def Permitted (s : FtpSession) : Prop := s.authed = true ∧ s.anon = false

/-! ## One command -/

/-- Nothing in the output changes the file system. -/
def Harmless (outs : List FtpOut) : Prop := ∀ cmd, .queued cmd ∈ outs → cmd.changesFs = false

theorem Harmless.append {a b : List FtpOut} (ha : Harmless a) (hb : Harmless b) : Harmless (a ++ b) := by
  intro cmd mem
  rcases List.mem_append.1 mem with h | h
  · exact ha cmd h
  · exact hb cmd h

theorem harmless_line (text : List Char) : Harmless [.line text] := by
  intro cmd mem
  simp at mem

theorem harmless_data (bytes : List (List UInt8)) : Harmless (bytes.map FtpOut.data) := by
  intro cmd mem
  simp at mem

theorem harmless_rpcSend (rpc : Rpc) {cmd : StorageCmd} (keeps : cmd.changesFs = false) :
    Harmless (rpcSend rpc cmd) := by
  intro cmd' mem
  unfold rpcSend at mem
  split at mem
  · rw [List.mem_singleton] at mem
    cases mem
    exact keeps
  · cases mem

/-- A command that leaves the flags alone and changes the file system only if it may. -/
structure Guarded (s s' : FtpSession) (outs : List FtpOut) : Prop where
  authed : s'.authed = s.authed
  anon : s'.anon = s.anon
  harmless : ¬ s.Permitted → Harmless outs

theorem Guarded.of_harmless {s s' : FtpSession} {outs : List FtpOut} (authed : s'.authed = s.authed)
    (anon : s'.anon = s.anon) (harmless : Harmless outs) : Guarded s s' outs :=
  ⟨authed, anon, fun _ => harmless⟩

theorem guarded_reply (s : FtpSession) (text : String) : Guarded s (s.reply text).1 (s.reply text).2 :=
  .of_harmless rfl rfl (harmless_line _)

theorem permitted_of_passed {s : FtpSession} (passed : ¬ (!s.authed || s.anon) = true) : s.Permitted := by
  cases authed : s.authed <;> cases anon : s.anon <;> simp_all [Permitted]

theorem openData_flags (s : FtpSession) (env : FtpEnv) :
    (s.openData env).1.authed = s.authed ∧ (s.openData env).1.anon = s.anon := by
  unfold openData
  split <;> exact ⟨rfl, rfl⟩

section Commands

variable {s s' : FtpSession} {env : FtpEnv} {arg : List Char} {outs : List FtpOut}

theorem guarded_cmdCwd (ran : s.cmdCwd arg = some (s', outs)) : Guarded s s' outs := by
  obtain ⟨cwd, -, ran⟩ := Option.bind_eq_some_iff.1 ran
  cases ran
  exact .of_harmless rfl rfl (harmless_line _)

theorem guarded_cmdPasv (extended : Bool) : Guarded s (s.cmdPasv env extended).1 (s.cmdPasv env extended).2 :=
  .of_harmless rfl rfl (harmless_line _)

theorem guarded_cmdPort {ep : Option Endpoint} {ok bad : String} (ran : s.cmdPort ep ok bad = (s', outs)) :
    Guarded s s' outs := by
  cases ep <;> cases ran <;> exact .of_harmless rfl rfl (harmless_line _)

theorem guarded_cmdList {long : Bool} (ran : s.cmdList env arg long = some (s', outs)) : Guarded s s' outs := by
  obtain ⟨fp, -, ran⟩ := Option.bind_eq_some_iff.1 ran
  have flags := openData_flags s env
  have asked : Harmless (rpcSend env.rpc (.ftpLs (ftpPathBytes fp))) := harmless_rpcSend _ rfl
  split at ran
  · cases ran
    exact .of_harmless rfl rfl (asked.append (harmless_line _))
  · dsimp only at ran
    split at ran <;> cases ran
    · exact .of_harmless flags.1 flags.2 ((asked.append (harmless_line _)).append (harmless_line _))
    · exact .of_harmless flags.1 flags.2
        (((asked.append (harmless_line _)).append (harmless_data _)).append (harmless_line _))

theorem harmless_retrLoop (rest : UInt32) (sends : ℕ) (chunks : List RetrChunk) :
    Harmless (s.retrLoop env rest sends chunks) := by
  induction chunks generalizing sends with
  | nil => exact harmless_rpcSend _ rfl
  | cons c cs ih =>
    have asked : Harmless (rpcSend c.rpc (.ftpReadChunk s.slot)) := harmless_rpcSend _ rfl
    have sent (bytes : List UInt8) : Harmless (rpcSend c.rpc (.ftpReadChunk s.slot) ++ [.data bytes]) :=
      asked.append (harmless_data [bytes])
    unfold retrLoop
    dsimp only
    split
    · exact asked
    split
    · split
      · exact asked
      · exact asked.append (ih sends)
    split
    · exact asked
    split
    · exact sent _
    · exact (sent _).append (ih (sends - 1))

theorem guarded_cmdRetr (ran : s.cmdRetr env arg = some (s', outs)) : Guarded s s' outs := by
  unfold cmdRetr at ran
  split at ran
  · cases ran
    exact guarded_reply ..
  obtain ⟨fp, -, ran⟩ := Option.bind_eq_some_iff.1 ran
  have asked : Harmless (rpcSend env.rpc (.ftpOpenRead s.slot (ftpPathBytes fp) s.rest)) := harmless_rpcSend _ rfl
  have flags := openData_flags { s with rest := 0 } env
  dsimp only at ran
  split at ran
  · cases ran
    exact .of_harmless rfl rfl (asked.append (harmless_line _))
  split at ran <;> cases ran
  · exact .of_harmless flags.1 flags.2
      (((asked.append (harmless_line _)).append (harmless_rpcSend _ rfl)).append (harmless_line _))
  · exact .of_harmless flags.1 flags.2
      (((asked.append (harmless_line _)).append (harmless_retrLoop _ _ _)).append (harmless_line _))

theorem guarded_cmdStor {isAppe : Bool} (ran : s.cmdStor env arg isAppe = some (s', outs)) :
    Guarded s s' outs := by
  unfold cmdStor at ran
  split at ran
  · cases ran
    exact guarded_reply ..
  rename_i passed
  have permitted := permitted_of_passed passed
  obtain ⟨fp, -, ran⟩ := Option.bind_eq_some_iff.1 ran
  have flags := openData_flags { s with rest := 0 } env
  dsimp only at ran
  split at ran
  · cases ran
    exact ⟨rfl, rfl, fun denied => absurd permitted denied⟩
  split at ran
  · cases ran
    exact ⟨flags.1, flags.2, fun denied => absurd permitted denied⟩
  · obtain ⟨result, -, ran⟩ := Option.bind_eq_some_iff.1 ran
    cases ran
    exact ⟨flags.1, flags.2, fun denied => absurd permitted denied⟩

theorem guarded_cmdRemove {ok bad : String} (ran : s.cmdRemove env arg ok bad = some (s', outs)) :
    Guarded s s' outs := by
  unfold cmdRemove at ran
  split at ran
  · cases ran
    exact guarded_reply ..
  rename_i passed
  obtain ⟨fp, -, ran⟩ := Option.bind_eq_some_iff.1 ran
  cases ran
  exact ⟨rfl, rfl, fun denied => absurd (permitted_of_passed passed) denied⟩

theorem guarded_cmdMkd (ran : s.cmdMkd env arg = some (s', outs)) : Guarded s s' outs := by
  unfold cmdMkd at ran
  split at ran
  · cases ran
    exact guarded_reply ..
  rename_i passed
  obtain ⟨fp, -, ran⟩ := Option.bind_eq_some_iff.1 ran
  cases ran
  exact ⟨rfl, rfl, fun denied => absurd (permitted_of_passed passed) denied⟩

theorem guarded_cmdSize (ran : s.cmdSize env arg = some (s', outs)) : Guarded s s' outs := by
  obtain ⟨fp, -, ran⟩ := Option.bind_eq_some_iff.1 ran
  cases ran
  exact .of_harmless rfl rfl ((harmless_rpcSend _ rfl).append (harmless_line _))

theorem guarded_cmdRnfr (ran : s.cmdRnfr env arg = some (s', outs)) : Guarded s s' outs := by
  obtain ⟨fp, -, ran⟩ := Option.bind_eq_some_iff.1 ran
  dsimp only at ran
  split at ran <;> cases ran <;>
    exact .of_harmless rfl rfl ((harmless_rpcSend _ rfl).append (harmless_line _))

theorem guarded_cmdRnto (ran : s.cmdRnto env arg = some (s', outs)) : Guarded s s' outs := by
  obtain ⟨fp, -, ran⟩ := Option.bind_eq_some_iff.1 ran
  cases ran
  refine ⟨rfl, rfl, fun denied => Harmless.append ?_ (harmless_line _)⟩
  split
  · rename_i allowed
    simp only [Bool.and_eq_true, Bool.not_eq_true'] at allowed
    exact absurd ⟨allowed.1.2, allowed.2⟩ denied
  · intro cmd mem
    cases mem

/-- Apart from `USER` and `PASS`, a command leaves the flags alone and changes the file system only
if it may. -/
theorem execute_guarded {verb : Verb} (notUser : verb ≠ .user) (notPass : verb ≠ .pass)
    (ran : s.execute env arg verb = some (s', outs)) : Guarded s s' outs := by
  cases verb with
  | user => exact absurd rfl notUser
  | pass => exact absurd rfl notPass
  | syst | feat | noop | allo | unknown => cases ran; exact guarded_reply ..
  | type | quit | rest => cases ran; exact .of_harmless rfl rfl (harmless_line _)
  | pwd => cases ran; exact .of_harmless rfl rfl (harmless_line _)
  | cwd | cdup => exact guarded_cmdCwd ran
  | pasv | epsv => cases ran; exact guarded_cmdPasv _
  | port | eprt => exact guarded_cmdPort (Option.some.inj ran)
  | list | nlst => exact guarded_cmdList ran
  | retr => exact guarded_cmdRetr ran
  | stor | appe => exact guarded_cmdStor ran
  | dele | rmd | xrmd => exact guarded_cmdRemove ran
  | mkd | xmkd => exact guarded_cmdMkd ran
  | size => exact guarded_cmdSize ran
  | rnfr => exact guarded_cmdRnfr ran
  | rnto => exact guarded_cmdRnto ran

/-- A `USER` that names another user while the session is logged in as an anonymous one. -/
def Switches (s : FtpSession) (line : List UInt8) : Prop :=
  s.authed = true ∧ s.anon = true ∧ (parseLine line).1 = .user ∧ anonymous (parseLine line).2 = false

theorem permitted_cmdUser (permitted : (s.cmdUser arg).1.Permitted) :
    s.Permitted ∨ s.authed = true ∧ s.anon = true ∧ anonymous arg = false := by
  obtain ⟨authed, anon⟩ := permitted
  cases named : s.anon with
  | false => exact .inl ⟨authed, named⟩
  | true => exact .inr ⟨authed, rfl, anon⟩

theorem permitted_cmdPass (permitted : (s.cmdPass arg).1.Permitted) : arg = ftpPass := by
  unfold cmdPass at permitted
  split at permitted
  · rename_i accepted
    have anon : s.anon = false := permitted.2
    rw [anon, Bool.false_or] at accepted
    exact of_decide_eq_true accepted
  · exact absurd permitted.1 Bool.false_ne_true

/-- Only the password and such a `USER` give the permission to write. -/
theorem handleCommand_permitted {line : List UInt8} (ran : s.handleCommand env line = some (s', outs))
    (permitted : s'.Permitted) :
    s.Permitted ∨ parseLine line = (.pass, ftpPass) ∨ s.Switches line := by
  have ran : s.execute env (parseLine line).2 (parseLine line).1 = some (s', outs) := ran
  by_cases user : (parseLine line).1 = .user
  · rw [user] at ran
    obtain rfl : (s.cmdUser _).1 = s' := congrArg Prod.fst (Option.some.inj ran)
    rcases permitted_cmdUser permitted with had | ⟨authed, anon, other⟩
    · exact .inl had
    · exact .inr (.inr ⟨authed, anon, user, other⟩)
  by_cases pass : (parseLine line).1 = .pass
  · rw [pass] at ran
    obtain rfl : (s.cmdPass _).1 = s' := congrArg Prod.fst (Option.some.inj ran)
    exact .inr (.inl (Prod.ext pass (permitted_cmdPass permitted)))
  · have guarded := execute_guarded user pass ran
    exact .inl ⟨guarded.authed ▸ permitted.1, guarded.anon ▸ permitted.2⟩

theorem handleCommand_harmless {line : List UInt8} (ran : s.handleCommand env line = some (s', outs))
    (denied : ¬ s.Permitted) : Harmless outs := by
  have ran : s.execute env (parseLine line).2 (parseLine line).1 = some (s', outs) := ran
  by_cases user : (parseLine line).1 = .user
  · rw [user] at ran
    obtain rfl : (s.cmdUser _).2 = outs := congrArg Prod.snd (Option.some.inj ran)
    exact harmless_line _
  by_cases pass : (parseLine line).1 = .pass
  · rw [pass] at ran
    obtain rfl : (s.cmdPass _).2 = outs := congrArg Prod.snd (Option.some.inj ran)
    unfold cmdPass
    split <;> exact harmless_line _
  · exact (execute_guarded user pass ran).harmless denied

end Commands

/-! ## A session -/

/-- The session after its commands, each with what the environment answers to it; `none` once one
has panicked. -/
def after (slot : Fin 3) (script : List (FtpEnv × List UInt8)) : Option FtpSession :=
  script.foldlM (fun s step => (s.handleCommand step.1 step.2).map Prod.fst) (.new slot)

/-- Some `PASS` carried the admin password. -/
def AdminSeen (script : List (FtpEnv × List UInt8)) : Prop :=
  ∃ step ∈ script, parseLine step.2 = (.pass, ftpPass)

/-- Only a session that has given the password names another user after an anonymous login. -/
def KeepsUser (slot : Fin 3) (script : List (FtpEnv × List UInt8)) : Prop :=
  Run.Each (fun before step => ∀ s, after slot before = some s → s.Switches step.2 → AdminSeen before) script

/-- Every command queued to change the file system comes after the admin password. -/
def Authorised (slot : Fin 3) (script : List (FtpEnv × List UInt8)) : Prop :=
  Run.Each (fun before step => ∀ s s' outs cmd, after slot before = some s →
    s.handleCommand step.1 step.2 = some (s', outs) → .queued cmd ∈ outs → cmd.changesFs = true →
      AdminSeen before) script

theorem AdminSeen.snoc {script : List (FtpEnv × List UInt8)} (seen : AdminSeen script)
    (step : FtpEnv × List UInt8) : AdminSeen (script ++ [step]) := by
  obtain ⟨x, mem, pass⟩ := seen
  exact ⟨x, List.mem_append_left _ mem, pass⟩

/-- Along such a session, `authed && !anon` means that the password was given. -/
theorem permitted_adminSeen {slot : Fin 3} {script : List (FtpEnv × List UInt8)}
    (keeps : KeepsUser slot script) {s : FtpSession} (reached : after slot script = some s)
    (permitted : s.Permitted) : AdminSeen script := by
  refine Run.reached (Q := fun script (s : FtpSession) => s.Permitted → AdminSeen script) ?_ ?_ keeps
    reached permitted
  · intro permitted
    exact absurd permitted.1 Bool.false_ne_true
  · intro before s step s' seen admin stepped permitted
    obtain ⟨⟨s', outs⟩, ran, rfl⟩ := Option.map_eq_some_iff.1 stepped
    rcases handleCommand_permitted ran permitted with had | pass | switch
    · exact (seen had).snoc step
    · exact ⟨step, List.mem_append_right _ List.mem_cons_self, pass⟩
    · exact (admin switch).snoc step

/-- Naming another user after an anonymous login is the only way to change files without the
password. -/
theorem queued_after_admin (slot : Fin 3) (script : List (FtpEnv × List UInt8))
    (keeps : KeepsUser slot script) : Authorised slot script := by
  intro before step rest split s s' outs cmd reached ran queued changes
  by_contra unseen
  have denied : ¬ s.Permitted := by
    intro permitted
    exact unseen (permitted_adminSeen (Run.Each.left (split ▸ keeps)) reached permitted)
  have harmless := handleCommand_harmless ran denied cmd queued
  rw [changes] at harmless
  exact absurd harmless (by decide)

/-- A line of a client. -/
def sends (text : String) : FtpEnv × List UInt8 := (.answering, utf8 text)

theorem authed_deletes :
    ({ FtpSession.new 0 with authed := true } : FtpSession).handleCommand .answering (utf8 "DELE f") =
      some ({ FtpSession.new 0 with authed := true },
        [.queued (.ftpRemove (ftpPathBytes ['/', 'f'])), .line "250 Delete OK".toList]) := by
  have parsed : parseLine (utf8 "DELE f") = (.dele, ['f']) := by decide +kernel
  rw [handleCommand, parsed]
  rfl

theorem admin_deletes :
    (∃ s s' outs, after 0 [sends "USER bob", sends "PASS admin"] = some s ∧
      s.handleCommand .answering (utf8 "DELE f") =
        some (s', .queued (.ftpRemove (ftpPathBytes ['/', 'f'])) :: outs)) ∧
    Authorised 0 [sends "USER bob", sends "PASS admin", sends "DELE f"] := by
  refine ⟨⟨{ FtpSession.new 0 with authed := true }, { FtpSession.new 0 with authed := true },
    [.line "250 Delete OK".toList], by decide +kernel, authed_deletes⟩, queued_after_admin _ _ ?_⟩
  refine Run.each_snoc.2 ⟨Run.each_snoc.2 ⟨Run.each_snoc.2 ⟨Run.each_nil, ?_⟩, ?_⟩, ?_⟩
  · rintro s start ⟨authed, -⟩
    cases start
    exact absurd authed Bool.false_ne_true
  · rintro s - ⟨-, -, user, -⟩
    exact absurd user (by decide +kernel)
  · intro _ _ _
    exact ⟨sends "PASS admin", by simp, by decide +kernel⟩

/-- An anonymous session names another user, and its next command deletes a file. -/
theorem anonymous_deletes :
    ¬ Authorised 0 [sends "USER anonymous", sends "PASS guest", sends "USER bob", sends "DELE f"] := by
  intro authorised
  have seen := authorised [sends "USER anonymous", sends "PASS guest", sends "USER bob"] (sends "DELE f") [] rfl
    { FtpSession.new 0 with authed := true } { FtpSession.new 0 with authed := true }
    [.queued (.ftpRemove (ftpPathBytes ['/', 'f'])), .line "250 Delete OK".toList]
    (.ftpRemove (ftpPathBytes ['/', 'f'])) (by decide +kernel) authed_deletes (by simp) rfl
  obtain ⟨step, mem, pass⟩ := seen
  have unlike : ∀ step ∈ [sends "USER anonymous", sends "PASS guest", sends "USER bob"],
      parseLine step.2 ≠ (.pass, ftpPass) := by decide +kernel
  exact unlike step mem pass

end FtpSession

end IoEdgeHub
