import IoEdgeHub.Firmware.FtpControl
import IoEdgeHub.Firmware.FtpAscii

/-!
# Replies

What a client can rely on.  Every command is answered by exactly one final reply, which is the last thing it sends; a
transfer announces itself by one preliminary reply, and bytes flow on the data connection between the two only
(`answered_handleCommand`).  A connection that carries ASCII never makes the server panic (`control_serves`).
-/

namespace IoEdgeHub

open Text

/-- By the first digit. -/
def isFinal (text : List Char) : Bool := [some '2', some '3', some '4', some '5'].contains text.head?

/-- A reply that another one follows. -/
def isPreliminary (text : List Char) : Bool := text.head? == some '1'

/-- A command for the storage task. -/
def FtpOut.isQueued : FtpOut → Bool
  | .queued _ => true
  | .line _ | .data _ | .staged _ _ => false

/-- A line on the control connection. -/
def FtpOut.isLine : FtpOut → Bool
  | .line _ => true
  | .queued _ | .data _ | .staged _ _ => false

/-- What one command sends. -/
inductive Answered : List FtpOut → Prop
  | plain {asked : List FtpOut} {text : List Char} (only : asked.all FtpOut.isQueued = true)
    (final : isFinal text = true) :
    Answered (asked ++ [.line text])
  | transfer {asked middle : List FtpOut} {opening text : List Char} (only : asked.all FtpOut.isQueued = true)
    (preliminary : isPreliminary opening = true) (silent : middle.any FtpOut.isLine = false)
    (final : isFinal text = true) :
    Answered (asked ++ [.line opening] ++ middle ++ [.line text])

namespace FtpSession

theorem answered_line {text : List Char} (final : isFinal text = true) : Answered [.line text] := by
  have answered : Answered ([] ++ [.line text]) := .plain rfl final
  exact answered

theorem answered_refused {asked : List FtpOut} {opening text : List Char} (only : asked.all FtpOut.isQueued = true)
    (preliminary : isPreliminary opening = true) (final : isFinal text = true) :
    Answered (asked ++ [.line opening] ++ [.line text]) := by
  have answered : Answered (asked ++ [.line opening] ++ [] ++ [.line text]) := .transfer only preliminary rfl final
  rwa [List.append_nil] at answered

theorem queued_rpcSend (rpc : Rpc) (cmd : StorageCmd) : (rpcSend rpc cmd).all FtpOut.isQueued = true := by
  unfold rpcSend
  split <;> rfl

theorem silent_rpcSend (rpc : Rpc) (cmd : StorageCmd) : (rpcSend rpc cmd).any FtpOut.isLine = false := by
  unfold rpcSend
  split <;> rfl

theorem prefix_writePieces (cap : ℕ) (out : List Char) (pieces : List (List Char)) :
    out <+: writePieces cap out pieces := by
  induction pieces generalizing out with
  | nil => exact List.prefix_rfl
  | cons piece pieces ih =>
    rw [writePieces_cons]
    split
    · exact (List.prefix_append out piece).trans (ih _)
    · exact List.prefix_rfl

/-- The text starts with its first piece, if there is room for it. -/
theorem isFinal_writePieces {cap : ℕ} {piece : List Char} (pieces : List (List Char)) (filled : piece ≠ [])
    (fits : byteLen piece ≤ cap) (final : isFinal piece = true) :
    isFinal (writePieces cap [] (piece :: pieces)) = true := by
  have head : (writePieces cap [] (piece :: pieces)).head? = piece.head? := by
    rw [writePieces_cons, List.nil_append, if_pos fits]
    obtain ⟨rest, eq⟩ := prefix_writePieces cap piece pieces
    rw [← eq]
    exact List.head?_append_of_ne_nil _ filled
  rwa [isFinal, head]

section Commands

variable {s s' : FtpSession} {env : FtpEnv} {arg : List Char} {outs : List FtpOut}

theorem answered_cmdCwd (ran : s.cmdCwd arg = some (s', outs)) : Answered outs := by
  obtain ⟨cwd, -, ran⟩ := Option.bind_eq_some_iff.1 ran
  cases ran
  exact answered_line (by decide)

theorem answered_cmdPass (ran : s.cmdPass arg = (s', outs)) : Answered outs := by
  unfold cmdPass at ran
  split at ran <;> cases ran <;> exact answered_line (by decide)

theorem answered_cmdPasv (extended : Bool) : Answered (s.cmdPasv env extended).2 := by
  cases extended
  · exact answered_line (isFinal_writePieces _ (by decide) (by decide) (by decide))
  · exact answered_line (isFinal_writePieces _ (by decide) (by decide) (by decide))

theorem answered_cmdPort {ep : Option Endpoint} {ok bad : String} (okFinal : isFinal ok.toList = true)
    (badFinal : isFinal bad.toList = true) (ran : s.cmdPort ep ok bad = (s', outs)) : Answered outs := by
  cases ep <;> cases ran
  · exact answered_line badFinal
  · exact answered_line okFinal

theorem answered_cmdList {long : Bool} (ran : s.cmdList env arg long = some (s', outs)) : Answered outs := by
  obtain ⟨fp, -, ran⟩ := Option.bind_eq_some_iff.1 ran
  have asked := queued_rpcSend env.rpc (.ftpLs (ftpPathBytes fp))
  split at ran
  · cases ran
    exact .plain asked (by decide)
  · dsimp only at ran
    split at ran <;> cases ran
    · exact answered_refused asked (by decide) (by decide)
    · refine .transfer asked (by decide) ?_ (by decide)
      rw [List.any_map]
      exact List.any_eq_false.2 fun _ _ => Bool.false_ne_true

theorem silent_retrLoop (rest : UInt32) (sends : ℕ) (chunks : List RetrChunk) :
    (s.retrLoop env rest sends chunks).any FtpOut.isLine = false := by
  induction chunks generalizing sends with
  | nil => exact silent_rpcSend ..
  | cons c cs ih =>
    have asked := silent_rpcSend c.rpc (.ftpReadChunk s.slot)
    unfold retrLoop
    dsimp only
    split
    · exact asked
    split
    · split
      · exact asked
      · rw [List.any_append, asked, ih]
        rfl
    split
    · exact asked
    split
    · rw [List.any_append, asked]
      rfl
    · rw [List.any_append, List.any_append, asked, ih]
      rfl

theorem answered_cmdRetr (ran : s.cmdRetr env arg = some (s', outs)) : Answered outs := by
  unfold cmdRetr at ran
  split at ran
  · cases ran
    exact answered_line (by decide)
  obtain ⟨fp, -, ran⟩ := Option.bind_eq_some_iff.1 ran
  have asked := queued_rpcSend env.rpc (.ftpOpenRead s.slot (ftpPathBytes fp) s.rest)
  dsimp only at ran
  split at ran
  · cases ran
    exact .plain asked (by decide)
  split at ran <;> cases ran
  · exact .transfer asked (by decide) (silent_rpcSend ..) (by decide)
  · refine .transfer asked (by decide) (silent_retrLoop ..) ?_
    split <;> decide

theorem silent_storLoop {chunks : List StorChunk} {buf : Vector UInt8 512} {pendingCr : Bool} {handed : List FtpOut}
    {err : Bool} (ran : s.storLoop chunks buf pendingCr = some (handed, err)) : handed.any FtpOut.isLine = false := by
  induction chunks generalizing buf pendingCr handed err with
  | nil => cases ran; rfl
  | cons c cs ih =>
    obtain ⟨⟨buf', wlen, pendingCr'⟩, -, ran⟩ := Option.bind_eq_some_iff.1 ran
    dsimp only at ran
    split at ran
    · split at ran
      · cases ran
        exact silent_rpcSend ..
      · obtain ⟨⟨more, err'⟩, rest, ran⟩ := Option.bind_eq_some_iff.1 ran
        cases ran
        rw [List.any_append, ih rest, Bool.or_false]
        exact silent_rpcSend ..
    · exact ih ran

theorem answered_cmdStor {isAppe : Bool} (ran : s.cmdStor env arg isAppe = some (s', outs)) : Answered outs := by
  unfold cmdStor at ran
  split at ran
  · cases ran
    exact answered_line (by decide)
  obtain ⟨fp, -, ran⟩ := Option.bind_eq_some_iff.1 ran
  dsimp only at ran
  generalize asked_eq : rpcSend env.rpc (.ftpOpenWrite s.slot (ftpPathBytes fp) _) = asked at ran
  have only : asked.all FtpOut.isQueued = true := by
    rw [← asked_eq]
    exact queued_rpcSend ..
  split at ran
  · cases ran
    exact .plain only (by decide)
  split at ran
  · cases ran
    exact .transfer only (by decide) (silent_rpcSend ..) (by decide)
  · obtain ⟨⟨handed, err⟩, looped, ran⟩ := Option.bind_eq_some_iff.1 ran
    cases ran
    have silent : (handed ++ rpcSend env.closing (.ftpCloseWrite s.slot)).any FtpOut.isLine = false := by
      rw [List.any_append, silent_storLoop looped, silent_rpcSend]
      rfl
    rw [List.append_assoc (asked ++ _) handed]
    refine .transfer only (by decide) silent ?_
    split <;> decide

theorem answered_cmdRemove {ok bad : String} (okFinal : isFinal ok.toList = true) (badFinal : isFinal bad.toList = true)
    (ran : s.cmdRemove env arg ok bad = some (s', outs)) : Answered outs := by
  unfold cmdRemove at ran
  split at ran
  · cases ran
    exact answered_line (by decide)
  obtain ⟨fp, -, ran⟩ := Option.bind_eq_some_iff.1 ran
  cases ran
  refine .plain (queued_rpcSend ..) ?_
  split
  · exact okFinal
  · exact badFinal

theorem answered_cmdMkd (ran : s.cmdMkd env arg = some (s', outs)) : Answered outs := by
  unfold cmdMkd at ran
  split at ran
  · cases ran
    exact answered_line (by decide)
  obtain ⟨fp, -, ran⟩ := Option.bind_eq_some_iff.1 ran
  cases ran
  refine .plain (queued_rpcSend ..) ?_
  split
  · exact isFinal_writePieces _ (by decide) (by decide) (by decide)
  · decide

theorem answered_cmdSize (ran : s.cmdSize env arg = some (s', outs)) : Answered outs := by
  obtain ⟨fp, -, ran⟩ := Option.bind_eq_some_iff.1 ran
  cases ran
  refine .plain (queued_rpcSend ..) ?_
  split <;> rfl

theorem answered_cmdRnfr (ran : s.cmdRnfr env arg = some (s', outs)) : Answered outs := by
  obtain ⟨fp, -, ran⟩ := Option.bind_eq_some_iff.1 ran
  dsimp only at ran
  split at ran <;> cases ran <;> exact .plain (queued_rpcSend ..) (by decide)

theorem answered_cmdRnto (ran : s.cmdRnto env arg = some (s', outs)) : Answered outs := by
  obtain ⟨fp, -, ran⟩ := Option.bind_eq_some_iff.1 ran
  cases ran
  refine .plain ?_ ?_
  · split
    · exact queued_rpcSend ..
    · rfl
  · split <;> decide

theorem answered_execute {verb : Verb} (ran : s.execute env arg verb = some (s', outs)) : Answered outs := by
  cases verb with
  | pass => exact answered_cmdPass (Option.some.inj ran)
  | user | syst | feat | type | quit | noop | allo | unknown => cases ran; exact answered_line (by decide)
  | pwd | rest => cases ran; exact answered_line (isFinal_writePieces _ (by decide) (by decide) (by decide))
  | cwd | cdup => exact answered_cmdCwd ran
  | pasv | epsv => cases ran; exact answered_cmdPasv (s := s) _
  | port | eprt => exact answered_cmdPort (by decide) (by decide) (Option.some.inj ran)
  | list | nlst => exact answered_cmdList ran
  | retr => exact answered_cmdRetr ran
  | stor | appe => exact answered_cmdStor ran
  | dele | rmd | xrmd => exact answered_cmdRemove (by decide) (by decide) ran
  | mkd | xmkd => exact answered_cmdMkd ran
  | size => exact answered_cmdSize ran
  | rnfr => exact answered_cmdRnfr ran
  | rnto => exact answered_cmdRnto ran

end Commands

end FtpSession

/-! ## A connection -/

namespace FtpControl

open FtpSession

/-- One answer for each command, behind the greeting. -/
def Answers (c : FtpControl) : Prop :=
  ∃ blocks : List (List FtpOut), blocks.length = c.commands.length ∧ (∀ b ∈ blocks, Answered b) ∧
    c.outs = greeting :: blocks.flatten

theorem Answers.command {c : FtpControl} (answers : c.Answers) {text rest : List UInt8} {session : FtpSession}
    {outs : List FtpOut} (answered : Answered outs) :
    Answers { c with session, rbuf := rest, commands := c.commands ++ [text], outs := c.outs ++ outs } := by
  obtain ⟨blocks, length, each, eq⟩ := answers
  refine ⟨blocks ++ [outs], ?_, ?_, ?_⟩
  · rw [List.length_append, List.length_append, length]
    rfl
  · intro b member
    rcases List.mem_append.1 member with earlier | last
    · exact each b earlier
    · rw [List.mem_singleton.1 last]
      exact answered
  · rw [List.flatten_concat]
    change c.outs ++ outs = _
    rw [eq, List.cons_append]

theorem Answers.serveLines {env : ℕ → FtpEnv} {fuel : ℕ} {c c' : FtpControl} (answers : c.Answers)
    (ran : serveLines env fuel c = some c') : c'.Answers := by
  induction fuel generalizing c with
  | zero =>
    cases ran
    exact answers
  | succ fuel ih =>
    rw [FtpControl.serveLines] at ran
    cases found : Lines.cut isLf c.rbuf with
    | none =>
      rw [found] at ran
      cases ran
      split <;> exact answers
    | some p =>
      rw [found] at ran
      obtain ⟨⟨session, outs⟩, handled, ran⟩ := Option.bind_eq_some_iff.1 ran
      exact ih (answers.command (answered_execute handled)) ran

theorem Answers.step {env : ℕ → FtpEnv} {c c' : FtpControl} (answers : c.Answers) (e : ControlEvent)
    (ran : c.step env e = some c') : c'.Answers := by
  cases e with
  | arrive bytes => cases ran; exact answers
  | hangup => cases ran; exact answers
  | read most =>
    unfold FtpControl.step at ran
    dsimp only at ran
    split at ran
    · cases ran; exact answers
    split at ran
    · cases ran; exact answers
    split at ran
    · cases ran; exact answers
    · refine Answers.serveLines ?_ ran
      exact answers

/-- Over a whole connection the server greets, and then answers the commands one by one, each by one final reply that
ends its answer, with a preliminary reply before any byte on the data connection. -/
theorem control_answers {env : ℕ → FtpEnv} {slot : Fin 3} {events : List ControlEvent} {c : FtpControl}
    (ran : run env slot events = some c) :
    ∃ blocks : List (List FtpOut), blocks.length = c.commands.length ∧ (∀ b ∈ blocks, Answered b) ∧
      c.outs = greeting :: blocks.flatten := by
  refine Run.always (Q := fun _ c => c.Answers) ?_ ?_ ran
  · exact ⟨[], rfl, fun _ no => absurd no List.not_mem_nil, rfl⟩
  · intro before c e c' answers stepped
    exact answers.step e stepped

/-- A listing that is asked for without a data connection. -/
theorem control_answers_listing :
    ∃ c, run (fun _ => { FtpEnv.answering with ls := [⟨utf8 "a", 1, false⟩] }) 0 [.arrive (utf8 "LIST\r\n"), .read 10] =
      some c ∧
      c.commands.length = 1 ∧ ∃ b, Answered b ∧ c.outs = greeting :: b := by
  have handled : (run (fun _ => { FtpEnv.answering with ls := [⟨utf8 "a", 1, false⟩] }) 0
      [.arrive (utf8 "LIST\r\n"), .read 10]).map (·.commands.length) = some 1 := by decide +kernel
  obtain ⟨c, ran, one⟩ := Option.map_eq_some_iff.1 handled
  obtain ⟨blocks, length, each, outs⟩ := control_answers ran
  rw [one] at length
  obtain ⟨b, rfl⟩ := List.length_eq_one_iff.1 length
  refine ⟨c, ran, one, b, each b List.mem_cons_self, ?_⟩
  rw [outs, List.flatten_cons, List.flatten_nil, List.append_nil]

end FtpControl

/-! ## Panics -/

namespace FtpSession

variable {s : FtpSession} {env : FtpEnv} {arg : List Char}

theorem exists_normPath {cwd : List Char} (clean : Clean cwd) (ascii : ∀ c ∈ arg, c.toNat < 128) :
    ∃ path, normPath cwd arg = some path := by
  rw [← Option.isSome_iff_exists, ← Option.ne_none_iff_isSome, Ne, normPath_eq_none_iff clean, Overflows]
  split
  · have start : ∀ c ∈ arg.take 159, c.toNat < 128 := fun c member => ascii c (List.mem_of_mem_take member)
    have short := List.length_take_le 159 arg
    rintro (long | ⟨seg, member, wide⟩)
    · rw [byteLen_ascii start] at long
      omega
    · exact wide (narrow_of_ascii start seg member)
  · rintro ⟨-, seg, member, wide⟩
    exact wide (narrow_of_ascii ascii seg member)

theorem ascii_listPath (ascii : ∀ c ∈ arg, c.toNat < 128) : ∀ c ∈ listPath arg, c.toNat < 128 := by
  unfold listPath
  split
  · exact fun c member => ascii c (List.mem_of_mem_drop member)
  split
  · exact fun c no => absurd no List.not_mem_nil
  · exact ascii

section Resolved

variable {path : List Char} (resolved : normPath s.cwd arg = some path)

include resolved

theorem exists_cmdRetr : ∃ result, s.cmdRetr env arg = some result := by
  unfold cmdRetr
  rw [resolved]
  simp only [Option.bind_eq_bind, Option.bind_some]
  split
  · exact ⟨_, rfl⟩
  split
  · exact ⟨_, rfl⟩
  split <;> exact ⟨_, rfl⟩

theorem exists_cmdStor (isAppe : Bool) : ∃ result, s.cmdStor env arg isAppe = some result := by
  obtain ⟨k, outs, xferErr, looped, -⟩ :=
    ({ s with rest := 0 }.openData env).1.storLoop_rounds env.uploads (.replicate 512 0) false
  unfold cmdStor
  rw [resolved]
  simp only [Option.bind_eq_bind, Option.bind_some]
  split
  · exact ⟨_, rfl⟩
  split
  · exact ⟨_, rfl⟩
  split
  · exact ⟨_, rfl⟩
  · rw [looped]
    exact ⟨_, rfl⟩

theorem exists_cmdRemove (ok bad : String) : ∃ result, s.cmdRemove env arg ok bad = some result := by
  unfold cmdRemove
  rw [resolved]
  split <;> exact ⟨_, rfl⟩

theorem exists_cmdMkd : ∃ result, s.cmdMkd env arg = some result := by
  unfold cmdMkd
  rw [resolved]
  split <;> exact ⟨_, rfl⟩

theorem exists_cmdSize : ∃ result, s.cmdSize env arg = some result := by
  unfold cmdSize
  rw [resolved]
  exact ⟨_, rfl⟩

theorem exists_cmdRnfr : ∃ result, s.cmdRnfr env arg = some result := by
  unfold cmdRnfr
  rw [resolved]
  simp only [Option.bind_eq_bind, Option.bind_some]
  split <;> exact ⟨_, rfl⟩

theorem exists_cmdRnto : ∃ result, s.cmdRnto env arg = some result := by
  unfold cmdRnto
  rw [resolved]
  exact ⟨_, rfl⟩

theorem exists_cmdCwd : ∃ result, s.cmdCwd arg = some result := by
  unfold cmdCwd
  rw [resolved]
  exact ⟨_, rfl⟩

end Resolved

theorem exists_cmdList {path : List Char} (resolved : normPath s.cwd (listPath arg) = some path) (long : Bool) :
    ∃ result, s.cmdList env arg long = some result := by
  unfold cmdList
  rw [resolved]
  simp only [Option.bind_eq_bind, Option.bind_some]
  split
  · exact ⟨_, rfl⟩
  split <;> exact ⟨_, rfl⟩

/-- A command with an ASCII argument does not panic. -/
theorem exists_execute (clean : Clean s.cwd) (ascii : ∀ c ∈ arg, c.toNat < 128) (verb : Verb) :
    ∃ result, s.execute env arg verb = some result := by
  obtain ⟨path, resolved⟩ := exists_normPath clean ascii
  obtain ⟨dir, listed⟩ := exists_normPath clean (ascii_listPath ascii)
  have dots : ∀ c ∈ "..".toList, c.toNat < 128 := by
    intro c member
    have dot : c = '.' := by simpa using member
    rw [dot]
    decide
  obtain ⟨up, parent⟩ := exists_normPath clean dots
  cases verb with
  | user | pass | syst | feat | type | pwd | pasv | epsv | port | eprt | rest | quit | noop | allo | unknown =>
    exact ⟨_, rfl⟩
  | cwd => exact exists_cmdCwd resolved
  | cdup => exact exists_cmdCwd parent
  | list | nlst => exact exists_cmdList listed _
  | retr => exact exists_cmdRetr resolved
  | stor | appe => exact exists_cmdStor resolved _
  | dele | rmd | xrmd => exact exists_cmdRemove resolved _ _
  | mkd | xmkd => exact exists_cmdMkd resolved
  | size => exact exists_cmdSize resolved
  | rnfr => exact exists_cmdRnfr resolved
  | rnto => exact exists_cmdRnto resolved

theorem toNat_ofNat_ascii {n : ℕ} (ascii : n < 128) : (Char.ofNat n).toNat = n := by
  rw [Char.ofNat, dif_pos (.inl (by omega))]
  rfl

theorem trim_subset (cs : List Char) : trim cs ⊆ cs := by
  intro c member
  rw [trim, List.mem_reverse] at member
  have inner := (List.dropWhile_sublist _).subset member
  rw [List.mem_reverse] at inner
  exact (List.dropWhile_sublist _).subset inner

theorem ascii_parseLine {text : List UInt8} (ascii : ∀ b ∈ text, b.toNat < 128) :
    ∀ c ∈ (parseLine text).2, c.toNat < 128 := by
  intro c member
  have inside := List.mem_of_mem_drop (List.mem_of_mem_drop (trim_subset _ member))
  rw [fromUtf8_ascii ascii, Option.getD_some] at inside
  obtain ⟨b, here, rfl⟩ := List.mem_map.1 inside
  rw [toNat_ofNat_ascii (ascii b here)]
  exact ascii b here

theorem exists_handleCommand (clean : Clean s.cwd) {text : List UInt8} (ascii : ∀ b ∈ text, b.toNat < 128) :
    ∃ s' outs, s.handleCommand env text = some (s', outs) ∧ Clean s'.cwd := by
  obtain ⟨⟨s', outs⟩, ran⟩ := exists_execute clean (ascii_parseLine ascii) (parseLine text).1
  refine ⟨s', outs, ran, ?_⟩
  rcases execute_cwd ran with same | ⟨input, moved⟩
  · exact same ▸ clean
  · exact normPath_clean moved

end FtpSession

namespace FtpControl

open FtpSession

variable {env : ℕ → FtpEnv}

theorem clipLine_subset (raw : List UInt8) : clipLine raw ⊆ raw := List.take_subset _ _

theorem exists_serveLines (fuel : ℕ) {c : FtpControl} (clean : Clean c.session.cwd)
    (ascii : ∀ b ∈ c.rbuf, b.toNat < 128) :
    ∃ c', serveLines env fuel c = some c' := by
  induction fuel generalizing c with
  | zero => exact ⟨c, rfl⟩
  | succ fuel ih =>
    rw [serveLines]
    cases found : Lines.cut isLf c.rbuf with
    | none => exact ⟨_, rfl⟩
    | some p =>
      obtain ⟨raw, rest⟩ := p
      obtain ⟨e, -, whole⟩ := Lines.cut_eq_append found
      rw [whole] at ascii
      have before : ∀ b ∈ clipLine raw, b.toNat < 128 :=
        fun b member => ascii b (List.mem_append_left _ (clipLine_subset raw member))
      have behind : ∀ b ∈ rest, b.toNat < 128 :=
        fun b member => ascii b (List.mem_append_right _ (List.mem_cons_of_mem e member))
      obtain ⟨s', outs, handled, clean'⟩ := exists_handleCommand clean before
      dsimp only
      rw [handled]
      exact ih clean' behind

/-- Whatever storage and network answer, and however the bytes are cut: an ASCII client never makes the server panic. -/
theorem control_serves (env : ℕ → FtpEnv) (slot : Fin 3) {events : List ControlEvent}
    (ascii : ∀ b ∈ arrived events, b.toNat < 128) : ∃ c, run env slot events = some c := by
  induction events using List.reverseRecOn with
  | nil => exact ⟨_, rfl⟩
  | append_singleton events e ih =>
    rw [arrived_snoc] at ascii
    obtain ⟨c, ran⟩ := ih fun b member => ascii b (List.mem_append_left _ member)
    obtain ⟨served, stream, -⟩ := control_run ran
    have read : ∀ b ∈ c.seen, b.toNat < 128 := by
      intro b member
      refine ascii b (List.mem_append_left _ ?_)
      rw [← stream]
      exact List.mem_append_left _ member
    have unread : ∀ b ∈ c.unread, b.toNat < 128 := by
      intro b member
      refine ascii b (List.mem_append_left _ ?_)
      rw [← stream]
      exact List.mem_append_right _ member
    have next : run env slot (events ++ [e]) = c.step env e := by
      rw [run, List.foldlM_append]
      change (run env slot events).bind _ = _
      rw [ran]
      simp
    rw [next]
    cases e with
    | arrive bytes => exact ⟨_, rfl⟩
    | hangup => exact ⟨_, rfl⟩
    | read most =>
      unfold step
      dsimp only
      split
      · exact ⟨_, rfl⟩
      rename_i going
      have going : c.ended = false := by
        cases ended : c.ended with
        | false => rfl
        | true => rw [ended] at going; exact absurd rfl going
      split
      · exact ⟨_, rfl⟩
      split
      · exact ⟨_, rfl⟩
      refine exists_serveLines _ (after_clean served.session) fun b member => ?_
      rcases List.mem_append.1 member with waiting | new
      · rw [(served.waiting going).1] at waiting
        exact read b (Lines.split_tail_subset _ waiting)
      · exact unread b (List.mem_of_mem_take new)

/-- Four commands and a line of 300 bytes, cut where the client likes. -/
theorem control_serves_session :
    let events := [.arrive (utf8 "USER anonymous\r\nPASS"), .read 400, .arrive (utf8 " me\r\nCWD /log\r\nPWD\r\n"),
      .read 400, .arrive (List.replicate 300 0x41), .read 400]
    (run (fun _ => .answering) 0 events).map (·.commands.length) = some 4 ∧
      ∃ c, run (fun _ => .answering) 0 events = some c := by
  intro events
  refine ⟨by decide +kernel, control_serves _ 0 fun b member => ?_⟩
  have ascii : (arrived events).all (·.toNat < 128) = true := by decide +kernel
  exact of_decide_eq_true (List.all_eq_true.1 ascii b member)

end FtpControl

end IoEdgeHub
