import IoEdgeHub.Firmware.FtpAscii
import IoEdgeHub.Firmware.StorageCells

/-!
# What an acknowledged transfer has transferred

A transfer is played by three parties: the session (`cmd_retr`, `cmd_stor`), the storage task, and
the data connection.  `retrRounds` and `storRounds` are the storage task and the data connection as the
session meets them, with every outcome of an RPC and of a read or write; they make the environment in
which `cmdRetr` and `cmdStor` run.  The loops have more ways out than flags to record them:
`acknowledged_iff` says when a 226 is right.
-/

namespace IoEdgeHub

open Bytes (overwrite take_overwrite)

/-! ## Downloads: the storage task and the data connection -/

/-- How an RPC for a chunk ends: it is executed, and littlefs reads or fails; or `rpc_wait` gives up
before, and perhaps the queue had no room for it. -/
inductive ReadRpc where
  | executed (env : LfsEnv) (readOk : Bool)
  | timedOut (room : Bool)

/-- One round of the loop: the RPC, and whether the data connection takes the chunk.  A write that
fails may have taken a part of it, but not all. -/
structure RetrRound where
  rpc : ReadRpc
  written : Bool

/-- What the session sees of `FTP_XFER` after a chunk. -/
def RetrChunk.seen (st : Store) (slot : Fin 3) : RetrChunk where
  rpc := ⟨true, true, st.ftpRes⟩
  chunk := (st.ftpXfer slot).chunk.toList.take (st.ftpXfer slot).chunkLen
  eof := (st.ftpXfer slot).eof
  sent := (st.ftpXfer slot).sent

/-- The test at the end of the loop. -/
def RetrChunk.done (size rest : UInt32) (c : RetrChunk) : Bool :=
  c.eof && (c.chunk.isEmpty || c.sent ≥ size || c.sent ≥ size + rest)

/-- The rounds that took place, how many chunks the data connection took, and the storage task after them. -/
structure Download where
  chunks : List RetrChunk
  sends : ℕ
  store : Store

/-- The rounds of a download, as far as the session asks for them. -/
def retrRounds (file : LfsFile) (slot : Fin 3) (size rest : UInt32) : Store → List RetrRound → Download
  | st, [] => ⟨[], 0, st⟩
  | st, round :: rounds =>
    match round.rpc with
    | .timedOut room => ⟨[⟨⟨room, false, st.ftpRes⟩, [], false, 0⟩], 0, st⟩
    | .executed env readOk =>
      let pos := rest.toNat + (st.ftpXfer slot).sent.toNat
      let st := st.handleCmd (file.readAnswer pos readOk env) (.ftpReadChunk slot)
      let c := RetrChunk.seen st slot
      let taken := if c.chunk.isEmpty then 0 else 1
      if !c.chunk.isEmpty && !round.written then ⟨[c], 0, st⟩
      else if c.done size rest then ⟨[c], taken, st⟩
      else
        let d := retrRounds file slot size rest st rounds
        { d with chunks := c :: d.chunks, sends := d.sends + taken }

/-- A chunk is read, its RPC is answered in time, and the data connection takes it. -/
def RetrRound.delivers (round : RetrRound) : Bool :=
  match round.rpc with
  | .executed _ readOk => readOk && round.written
  | .timedOut _ => false

/-- As many rounds as so many bytes need deliver their chunk. -/
def served (left : ℕ) (rounds : List RetrRound) : Bool :=
  let needed := (left + 2047) / 2048
  decide (needed ≤ rounds.length) && (rounds.take needed).all RetrRound.delivers

theorem served_zero (rounds : List RetrRound) : served 0 rounds = true := by simp [served]

theorem served_nil {left : ℕ} (some : 0 < left) : served left [] = false := by
  have needed : 0 < (left + 2047) / 2048 := Nat.div_pos (by omega) (by decide)
  simp [served, Nat.ne_of_gt needed]

theorem served_cons {left : ℕ} (some : 0 < left) (round : RetrRound) (rounds : List RetrRound) :
    served left (round :: rounds) = (round.delivers && served (left - 2048) rounds) := by
  have needed : (left + 2047) / 2048 = (left - 2048 + 2047) / 2048 + 1 := by omega
  simp only [served, needed, List.length_cons, List.take_succ_cons, List.all_cons, Nat.add_le_add_iff_right]
  rw [Bool.and_left_comm]

/-- All outcomes of a download. -/
structure RetrPlay where
  /-- The open is executed before `rpc_wait` gives up. -/
  answered : Bool
  env : LfsEnv
  lenOk : Bool
  rounds : List RetrRound

namespace RetrPlay

variable (play : RetrPlay) (s : FtpSession) (arg : List Char) (store : Store) (file : LfsFile)

/-- The storage task after the open. -/
def opened : Store :=
  store.handleCmd (file.lenAnswer play.lenOk play.env)
    (.ftpOpenRead s.slot (FtpSession.ftpPathBytes ((FtpSession.normPath s.cwd arg).getD [])) s.rest)

/-- The rounds after the open. -/
def download : Download :=
  retrRounds file s.slot ((play.opened s arg store file).ftpXfer s.slot).size s.rest
    (play.opened s arg store file) play.rounds

/-- What `cmdRetr` finds around it. -/
def ftpEnv (env : FtpEnv) : FtpEnv :=
  let st := play.opened s arg store file
  let d := play.download s arg store file
  { env with
    rpc := ⟨true, play.answered, st.ftpRes⟩
    xferSize := (st.ftpXfer s.slot).size
    xferOpen := (st.ftpXfer s.slot).isOpen
    chunks := d.chunks
    sends := d.sends
    xferErr := (d.store.ftpXfer s.slot).err }

theorem ftpEnv_res (env : FtpEnv) :
    (play.ftpEnv s arg store file env).rpc.res = (play.opened s arg store file).ftpRes := rfl

theorem ftpEnv_xferSize (env : FtpEnv) :
    (play.ftpEnv s arg store file env).xferSize = ((play.opened s arg store file).ftpXfer s.slot).size := rfl

theorem ftpEnv_xferErr (env : FtpEnv) :
    (play.ftpEnv s arg store file env).xferErr =
      ((play.download s arg store file).store.ftpXfer s.slot).err := rfl

end RetrPlay

/-! ## One chunk -/

namespace Store

theorem ftpXfer_setXfer (s : Store) (slot : Fin 3) (x : FtpXfer) : (s.setXfer slot x).ftpXfer slot = x := by
  rw [xfer_setXfer, if_pos rfl]

/-- Everything that `ftp_read_chunk` can do to its slot. -/
inductive ReadEffect (x : FtpXfer) (read : List UInt8) (x' : FtpXfer) : Prop where
  | closed (shut : x.isOpen = false) (same : x' = x)
  | atEnd (all : x.sent ≥ x.size) (after : x' = { x with dl := none, eof := true })
  | failed (short : x.sent < x.size) (nothing : x.dl = none ∨ read.take 2048 = [])
    (after : x' = { x with dl := none, eof := true, err := true })
  | filled (short : x.sent < x.size) (some : read.take 2048 ≠ [])
    (after : x' =
      { x with
        chunk := overwrite x.chunk (read.take 2048)
        chunkLen := (read.take 2048).length
        sent := x.sent + UInt32.ofNat (read.take 2048).length
        eof := x.eof || x.sent + UInt32.ofNat (read.take 2048).length ≥ x.size })

theorem readEffect (st : Store) (env : LfsEnv) (slot : Fin 3) :
    ReadEffect (st.ftpXfer slot) env.read ((st.handleCmd env (.ftpReadChunk slot)).ftpXfer slot) := by
  have bumped : (st.handleCmd env (.ftpReadChunk slot)).ftpXfer slot = (st.ftpReadChunk env slot).ftpXfer slot :=
    rfl
  rw [bumped]
  unfold ftpReadChunk
  dsimp only
  split
  · rename_i shut
    exact .closed (by simpa using shut) rfl
  split
  · rename_i all
    exact .atEnd all (ftpXfer_setXfer ..)
  rename_i unfinished
  have short := UInt32.not_le.1 unfinished
  by_cases held : (st.ftpXfer slot).dl.isSome = true
  case neg =>
    simp only [held, if_false, List.isEmpty_nil, if_true, Bool.false_eq_true]
    exact .failed short (.inl (by simpa using held)) (ftpXfer_setXfer ..)
  simp only [held, if_true]
  split
  · rename_i nothing
    exact .failed short (.inr (by simpa using nothing)) (ftpXfer_setXfer ..)
  · rename_i some
    exact .filled short (by simpa using some) (ftpXfer_setXfer ..)

theorem ReadEffect.err {x x' : FtpXfer} {read : List UInt8} (effect : ReadEffect x read x')
    (err : x.err = true) : x'.err = true := by
  cases effect with
  | closed shut same => rw [same, err]
  | atEnd all after => rw [after, err]
  | failed short nothing after => rw [after]
  | filled short some after => rw [after, err]

end Store

/-! ## What the session sends -/

/-- A download has read `k` of `total` bytes, without an error. -/
structure Going (x : FtpXfer) (total k : ℕ) : Prop where
  isOpen : x.isOpen = true
  held : x.dl.isSome = true
  size : x.size.toNat = total
  sent : x.sent.toNat = k
  err : x.err = false
  eof : x.eof = decide (total ≤ k)

theorem Going.next {x x' : FtpXfer} {total k : ℕ} {read : List UInt8} (going : Going x total k)
    (effect : Store.ReadEffect x read x') (some : read ≠ []) (chunk : read.length ≤ 2048)
    (fits : k + read.length ≤ total) (small : total < 2 ^ 31) :
    Going x' total (k + read.length) ∧ x'.chunk.toList.take x'.chunkLen = read := by
  have whole : read.take 2048 = read := List.take_of_length_le chunk
  have filled := List.length_pos_iff.2 some
  cases effect with
  | closed shut same => exact absurd (shut.symm.trans going.isOpen) (by decide)
  | atEnd all after =>
    have := UInt32.le_iff_toNat_le.1 all
    rw [going.size, going.sent] at this
    omega
  | failed short nothing after =>
    rcases nothing with none | empty
    · have held := going.held
      rw [none] at held
      cases held
    · exact absurd (whole.symm.trans empty) some
  | filled short _ after =>
    rw [whole] at after
    have sent : (x.sent + UInt32.ofNat read.length).toNat = k + read.length := by
      rw [UInt32.toNat_add, UInt32.toNat_ofNat', going.sent]
      omega
    have eof : (x.eof || x.sent + UInt32.ofNat read.length ≥ x.size) = decide (total ≤ k + read.length) := by
      have before : ¬total ≤ k := by omega
      simp only [going.eof, ge_iff_le, UInt32.le_iff_toNat_le, going.size, sent]
      simp [before]
    subst after
    exact ⟨⟨going.isOpen, going.held, going.size, sent, going.err, eof⟩, take_overwrite x.chunk chunk⟩

theorem Going.failed {x x' : FtpXfer} {total k : ℕ} (going : Going x total k) (more : k < total)
    (effect : Store.ReadEffect x [] x') : x'.err = true := by
  cases effect with
  | closed shut same => exact absurd (shut.symm.trans going.isOpen) (by decide)
  | atEnd all after =>
    have := UInt32.le_iff_toNat_le.1 all
    rw [going.size, going.sent] at this
    omega
  | failed short nothing after => rw [after]
  | filled short some after => exact absurd rfl some

namespace FtpSession

/-- The bytes as they go over the data connection. -/
def coded (ascii : Bool) (bytes : List UInt8) : List UInt8 := if ascii then lfToCrlf bytes else bytes

theorem coded_append (ascii : Bool) (a b : List UInt8) : coded ascii (a ++ b) = coded ascii a ++ coded ascii b := by
  cases ascii with
  | false => rfl
  | true => exact List.flatMap_append

variable {ascii : Bool} {outs : List FtpOut} {bytes : List UInt8}

theorem coded_eq_nil : coded ascii bytes = [] ↔ bytes = [] := by
  cases ascii with
  | false => exact Iff.rfl
  | true =>
    cases bytes with
    | nil => exact iff_of_true rfl rfl
    | cons b bytes =>
      simp only [coded, if_true, lfToCrlf, List.flatMap_cons, List.append_eq_nil_iff, reduceCtorEq, iff_false,
        not_and]
      split <;> simp

theorem coded_take_iff {j : ℕ} (within : j ≤ bytes.length) :
    coded ascii (bytes.take j) = coded ascii bytes ↔ j = bytes.length := by
  constructor
  · intro same
    have parts := coded_append ascii (bytes.take j) (bytes.drop j)
    rw [List.take_append_drop, same, eq_comm, List.append_right_eq_self, coded_eq_nil] at parts
    have := List.drop_eq_nil_iff.1 parts
    omega
  · rintro rfl
    rw [List.take_length]

/-- The bytes written to the data connection. -/
def sentData (outs : List FtpOut) : List UInt8 :=
  outs.flatMap fun
    | .data bytes => bytes
    | _ => []

@[simp] theorem sentData_append (a b : List FtpOut) : sentData (a ++ b) = sentData a ++ sentData b :=
  List.flatMap_append

@[simp] theorem sentData_rpcSend (rpc : Rpc) (cmd : StorageCmd) : sentData (rpcSend rpc cmd) = [] := by
  unfold rpcSend
  split <;> rfl

@[simp] theorem sentData_line (text : List Char) (outs : List FtpOut) :
    sentData (.line text :: outs) = sentData outs := rfl

@[simp] theorem sentData_nil : sentData [] = [] := rfl

@[simp] theorem sentData_data (bytes : List UInt8) (outs : List FtpOut) :
    sentData (.data bytes :: outs) = bytes ++ sentData outs := rfl

/-- A chunk that arrives is written, and the loop goes on unless it is done. -/
theorem sentData_retrLoop {s : FtpSession} {env : FtpEnv} {rest : UInt32} {c : RetrChunk}
    (arrived : c.rpc.arrived = true) (some : c.chunk ≠ []) (sends : ℕ) (cs : List RetrChunk) :
    sentData (s.retrLoop env rest (sends + 1) (c :: cs)) =
      coded s.typeAscii c.chunk ++
        if c.done env.xferSize rest then [] else sentData (s.retrLoop env rest sends cs) := by
  have filled : c.chunk.isEmpty = false := by simpa using some
  have same : (c.eof && (c.chunk.isEmpty || c.sent ≥ env.xferSize || c.sent ≥ env.xferSize + rest)) =
    c.done env.xferSize rest := rfl
  rw [retrLoop]
  dsimp only
  rw [same]
  simp only [arrived, filled, Bool.not_true, Bool.false_eq_true, if_false, Nat.add_eq_zero_iff,
    one_ne_zero, and_false, Nat.add_sub_cancel]
  split <;> simp [coded]

/-- A chunk that is not written, or does not arrive, is the end. -/
theorem sentData_retrLoop_stop {s : FtpSession} {env : FtpEnv} {rest : UInt32} {c : RetrChunk}
    (stop : c.rpc.arrived = true → c.chunk ≠ []) (cs : List RetrChunk) :
    sentData (s.retrLoop env rest 0 (c :: cs)) = [] := by
  rw [retrLoop]
  by_cases arrived : c.rpc.arrived = true
  · have filled : c.chunk.isEmpty = false := by simpa using stop arrived
    simp [arrived, filled]
  · simp [arrived]

/-- The outputs send a first part of the bytes, and all of them just if the flag says so. -/
def SendsPart (ascii : Bool) (bytes : List UInt8) (outs : List FtpOut) (whole : Bool) : Prop :=
  ∃ j ≤ bytes.length, sentData outs = coded ascii (bytes.take j) ∧ (whole = true ↔ j = bytes.length)

theorem SendsPart.nothing (some : bytes ≠ [])
    (empty : sentData outs = []) : SendsPart ascii bytes outs false := by
  have filled := List.length_pos_iff.2 some
  refine ⟨0, Nat.zero_le _, ?_, iff_of_false (by decide) (by omega)⟩
  rw [empty, List.take_zero]
  exact (coded_eq_nil.2 rfl).symm

theorem SendsPart.all (sent : sentData outs = coded ascii bytes) : SendsPart ascii bytes outs true :=
  ⟨bytes.length, le_rfl, by rw [sent, List.take_length], iff_of_true rfl rfl⟩

theorem SendsPart.after {whole : Bool} {front : List UInt8} {outs' : List FtpOut}
    (part : SendsPart ascii bytes outs whole) (sent : sentData outs' = coded ascii front ++ sentData outs) :
    SendsPart ascii (front ++ bytes) outs' whole := by
  obtain ⟨j, within, tail, all⟩ := part
  refine ⟨front.length + j, by rw [List.length_append]; omega, ?_, ?_⟩
  · rw [sent, tail, List.take_length_add_append, coded_append]
  · rw [all, List.length_append, Nat.add_left_cancel_iff]

/-- So they are all sent just if the flag says so. -/
theorem SendsPart.iff {whole : Bool} (part : SendsPart ascii bytes outs whole) :
    sentData outs = coded ascii bytes ↔ whole = true := by
  obtain ⟨j, within, sent, all⟩ := part
  rw [sent, coded_take_iff within, all]

end FtpSession

section Loop

variable {file : LfsFile} {slot : Fin 3} {size rest : UInt32} {s : FtpSession} {env : FtpEnv}

open FtpSession

variable {st : Store} {k : ℕ}

/-- The loop's last test holds when all has been read. -/
theorem Going.done {total : ℕ} (going : Going (st.ftpXfer slot) total k)
    (sized : size.toNat = total) : (RetrChunk.seen st slot).done size rest = decide (total ≤ k) := by
  unfold RetrChunk.done
  have eof : (RetrChunk.seen st slot).eof = decide (total ≤ k) := going.eof
  have sent : (RetrChunk.seen st slot).sent.toNat = k := going.sent
  rw [eof]
  by_cases all : total ≤ k
  · have reached : (RetrChunk.seen st slot).sent ≥ size := by
      rw [ge_iff_le, UInt32.le_iff_toNat_le, sized, sent]
      exact all
    simp [all, reached]
  · simp [all]

/-- Once a read has failed, the transfer is reported as aborted. -/
theorem retrRounds_err (err : (st.ftpXfer slot).err = true) (rounds : List RetrRound) :
    ((retrRounds file slot size rest st rounds).store.ftpXfer slot).err = true := by
  induction rounds generalizing st with
  | nil => exact err
  | cons round rounds ih =>
    rw [retrRounds]
    split
    · exact err
    · rename_i lfs readOk _
      have kept := (st.readEffect (file.readAnswer (rest.toNat + (st.ftpXfer slot).sent.toNat) readOk lfs)
        slot).err err
      dsimp only
      split
      · exact kept
      split
      · exact kept
      · exact ih kept

/-- A failed read leaves the flag set, whatever happens after it. -/
theorem retrRounds_failed {total : ℕ} (going : Going (st.ftpXfer slot) total k) (more : k < total)
    (lfs : LfsEnv) (written : Bool) (rounds : List RetrRound) :
    ((retrRounds file slot size rest st (⟨.executed lfs false, written⟩ :: rounds)).store.ftpXfer slot).err = true := by
  have err := going.failed more (st.readEffect (file.readAnswer (rest.toNat + k) false lfs) slot)
  simp only [retrRounds, going.sent]
  split
  · exact err
  split
  · exact err
  · exact retrRounds_err err rounds

/-- A read that succeeds takes the next 2048 bytes, or what is left. -/
theorem Going.read {left : List UInt8} (going : Going (st.ftpXfer slot) (k + left.length) k)
    (small : k + left.length < 2 ^ 31) (behind : file.bytes.drop (rest.toNat + k) = left) (more : left ≠ [])
    (lfs : LfsEnv) :
    let st' := st.handleCmd (file.readAnswer (rest.toNat + k) true lfs) (.ftpReadChunk slot)
    Going (st'.ftpXfer slot) (k + left.length) (k + (left.take 2048).length) ∧
      (RetrChunk.seen st' slot).chunk = left.take 2048 := by
  intro st'
  have length := List.length_pos_iff.2 more
  have part : (left.take 2048).length = min 2048 left.length := List.length_take
  have read : (file.readAnswer (rest.toNat + k) true lfs).read = left.take 2048 := by
    simp [LfsFile.readAnswer, behind]
  have effect := st.readEffect (file.readAnswer (rest.toNat + k) true lfs) slot
  rw [read] at effect
  exact going.next effect (List.length_pos_iff.1 (by omega)) (by omega) (by omega) small

/-- What is left behind a full chunk. -/
theorem drop_chunk {pos : ℕ} {left : List UInt8} (behind : file.bytes.drop pos = left) (long : ¬left.length ≤ 2048) :
    (left.take 2048).length + (left.drop 2048).length = left.length ∧
      file.bytes.drop (pos + (left.take 2048).length) = left.drop 2048 ∧ left.drop 2048 ≠ [] := by
  have part : (left.take 2048).length = 2048 := by
    rw [List.length_take]
    omega
  refine ⟨?_, ?_, List.length_pos_iff.1 (by rw [List.length_drop]; omega)⟩
  · rw [← List.length_append, List.take_append_drop]
  · rw [part, ← List.drop_drop, behind]

/-- Without an error, the session sends the bytes from the offset on in order, and all of them exactly
if every round they need delivers its chunk. -/
theorem retrRounds_going (sized : env.xferSize = size) {left : List UInt8}
    (going : Going (st.ftpXfer slot) (k + left.length) k) (small : k + left.length < 2 ^ 31)
    (total : size.toNat = k + left.length)
    (behind : file.bytes.drop (rest.toNat + k) = left) (more : left ≠ []) (rounds : List RetrRound)
    (fine : ((retrRounds file slot size rest st rounds).store.ftpXfer slot).err = false) :
    SendsPart s.typeAscii left
      (s.retrLoop env rest (retrRounds file slot size rest st rounds).sends
        (retrRounds file slot size rest st rounds).chunks)
      (served left.length rounds) := by
  have length := List.length_pos_iff.2 more
  induction rounds generalizing st k left with
  | nil =>
    rw [served_nil length]
    exact .nothing more (sentData_rpcSend ..)
  | cons round rounds ih =>
    rw [served_cons length]
    obtain ⟨⟨lfs, readOk⟩ | room, written⟩ := round
    case timedOut => exact .nothing more (sentData_retrLoop_stop (by intro arrived; cases arrived) [])
    cases readOk with
    | false => exact absurd ((retrRounds_failed going (by omega) lfs written rounds).symm.trans fine) (by decide)
    | true =>
      obtain ⟨going', seen⟩ := going.read small behind more lfs
      simp only [retrRounds, going.sent] at fine ⊢
      generalize st.handleCmd (file.readAnswer (rest.toNat + k) true lfs) (.ftpReadChunk slot) = st' at *
      have part : (left.take 2048).length = min 2048 left.length := List.length_take
      have some : (RetrChunk.seen st' slot).chunk ≠ [] := seen ▸ List.length_pos_iff.1 (by omega)
      have filled : (RetrChunk.seen st' slot).chunk.isEmpty = false := by simpa using some
      simp only [filled, Bool.not_false, Bool.true_and, Bool.false_eq_true, if_false] at fine ⊢
      cases written with
      | false => exact .nothing more (sentData_retrLoop_stop (fun _ => some) [])
      | true =>
        simp only [Bool.not_true, Bool.false_eq_true, if_false] at fine ⊢
        have test : (RetrChunk.seen st' slot).done size rest =
          decide (k + left.length ≤ k + (left.take 2048).length) := going'.done total
        by_cases last : left.length ≤ 2048
        · have done : (RetrChunk.seen st' slot).done size rest = true := by
            rw [test, part]
            exact decide_eq_true (by omega)
          have whole : left.take 2048 = left := List.take_of_length_le last
          rw [if_pos done]
          rw [Nat.sub_eq_zero_of_le last, served_zero]
          apply SendsPart.all
          rw [sentData_retrLoop rfl some, sized, if_pos done, seen, whole, List.append_nil]
        · have goes_on : (RetrChunk.seen st' slot).done size rest = false := by
            rw [test, part]
            exact decide_eq_false (by omega)
          simp only [goes_on, Bool.false_eq_true, if_false] at fine ⊢
          obtain ⟨lengths, behind', more'⟩ := drop_chunk behind last
          have same : (k + (left.take 2048).length) + (left.drop 2048).length = k + left.length := by omega
          rw [Nat.add_assoc] at behind'
          have tail := ih (same ▸ going') (by omega) (by omega) behind' more' fine (List.length_pos_iff.2 more')
          rw [List.length_drop] at tail
          rw [show RetrRound.delivers ⟨.executed lfs true, true⟩ = true from rfl, Bool.true_and]
          nth_rewrite 1 [← List.take_append_drop 2048 left]
          refine tail.after ?_
          rw [sentData_retrLoop rfl some, sized, goes_on, seen]
          rfl

/-- A download that finds no bytes ends without an error and without having sent any. -/
theorem retrRounds_empty (isOpen : (st.ftpXfer slot).isOpen = true)
    (empty : (st.ftpXfer slot).size = 0) (unread : (st.ftpXfer slot).chunkLen = 0)
    (err : (st.ftpXfer slot).err = false) (rounds : List RetrRound) :
    sentData (s.retrLoop env rest (retrRounds file slot size rest st rounds).sends
        (retrRounds file slot size rest st rounds).chunks) = [] ∧
      ((retrRounds file slot size rest st rounds).store.ftpXfer slot).err = false := by
  cases rounds with
  | nil => exact ⟨sentData_rpcSend .., err⟩
  | cons round rounds =>
    obtain ⟨⟨lfs, readOk⟩ | room, written⟩ := round
    case timedOut => exact ⟨sentData_retrLoop_stop (by intro arrived; cases arrived) [], err⟩
    have effect := st.readEffect
      (file.readAnswer (rest.toNat + (st.ftpXfer slot).sent.toNat) readOk lfs) slot
    simp only [retrRounds]
    generalize st.handleCmd _ (.ftpReadChunk slot) = st' at *
    have none_left : ¬(st.ftpXfer slot).sent < (st.ftpXfer slot).size := by
      rw [empty, UInt32.lt_iff_toNat_lt]
      exact Nat.not_lt_zero _
    cases effect with
    | closed shut same => exact absurd (shut.symm.trans isOpen) (by decide)
    | failed short nothing after => exact absurd short none_left
    | filled short some after => exact absurd short none_left
    | atEnd all after =>
      have chunk : (RetrChunk.seen st' slot).chunk = [] := by
        simp [RetrChunk.seen, after, unread]
      have eof : (RetrChunk.seen st' slot).eof = true := by
        simp [RetrChunk.seen, after]
      have done : (RetrChunk.seen st' slot).done size rest = true := by
        simp [RetrChunk.done, chunk, eof]
      have arrived : (RetrChunk.seen st' slot).rpc.arrived = true := rfl
      simp only [chunk, done, List.isEmpty_nil, Bool.not_true, Bool.false_and, Bool.false_eq_true, if_false,
        if_true]
      refine ⟨?_, by rw [after, err]⟩
      simp [retrLoop, chunk, eof, arrived]

end Loop

/-! ## `RETR` -/

namespace Store

theorem ftpOpenRead_xfer {st : Store} {env : LfsEnv} {slot : Fin 3} {path : FtpPath} {rest : UInt32}
    (ok : (st.ftpOpenRead env slot path rest).2 = true) :
    ∃ f, (st.ftpOpenRead env slot path rest).1.ftpXfer slot =
      { FtpXfer.reset (st.ftpXfer slot) with
        size := if env.len.getD 0 < rest then 0 else env.len.getD 0 - rest
        isOpen := true
        dl := some f } := by
  unfold ftpOpenRead at ok ⊢
  dsimp only at ok ⊢
  split at ok
  · cases ok
  rename_i good
  rw [if_neg good]
  cases known : ftpPathOf (st.slotCloseAll env slot).paths path with
  | none =>
    rw [known] at ok
    cases ok
  | some p =>
    rw [known] at ok
    dsimp only at ok ⊢
    split at ok
    case isFalse => cases ok
    rename_i opened
    rw [if_pos opened]
    split at ok
    · cases ok
    rename_i placed
    rw [if_neg placed, ftpXfer_setXfer]
    refine ⟨((st.slotCloseAll env slot).openWith (.ftp slot)).2, ?_⟩
    rw [← xfer_slotCloseAll st env slot]
    rfl

theorem handleCmd_ftpOpenRead (st : Store) (env : LfsEnv) (slot : Fin 3) (path : FtpPath) (rest : UInt32) :
    (st.handleCmd env (.ftpOpenRead slot path rest)).ftpRes.1 = (st.ftpOpenRead env slot path rest).2 ∧
      (st.handleCmd env (.ftpOpenRead slot path rest)).ftpXfer slot =
        (st.ftpOpenRead env slot path rest).1.ftpXfer slot := ⟨rfl, rfl⟩

end Store

theorem RetrPlay.opened_xfer {play : RetrPlay} {s : FtpSession} {arg : List Char} {store : Store}
    {file : LfsFile} (ok : (play.opened s arg store file).ftpRes.1 = true) :
    ∃ f, (play.opened s arg store file).ftpXfer s.slot =
      { Store.FtpXfer.reset (store.ftpXfer s.slot) with
        size :=
          if (file.lenAnswer play.lenOk play.env).len.getD 0 < s.rest then 0
          else (file.lenAnswer play.lenOk play.env).len.getD 0 - s.rest
        isOpen := true
        dl := some f } := by
  unfold opened at ok ⊢
  obtain ⟨res, slot⟩ := store.handleCmd_ftpOpenRead (file.lenAnswer play.lenOk play.env) s.slot
    (FtpSession.ftpPathBytes ((FtpSession.normPath s.cwd arg).getD [])) s.rest
  rw [res] at ok
  rw [slot]
  exact Store.ftpOpenRead_xfer ok

namespace FtpSession

/-- An acknowledged download was opened, its rounds ended without an error, and what they sent is all
that was sent. -/
theorem cmdRetr_complete {s s' : FtpSession} {env : FtpEnv} {arg : List Char} {outs : List FtpOut}
    (ran : s.cmdRetr env arg = some (s', outs)) (last : outs.getLast? = some complete) :
    env.rpc.res.1 = true ∧ env.xferErr = false ∧
      ∃ s₁ : FtpSession, s₁.typeAscii = s.typeAscii ∧
        sentData outs = sentData (s₁.retrLoop env s.rest env.sends env.chunks) := by
  unfold cmdRetr at ran
  split at ran
  · obtain rfl := (Prod.mk.inj (Option.some.inj ran)).2
    exact absurd (Option.some.inj last) (by decide)
  obtain ⟨fp, -, ran⟩ := Option.bind_eq_some_iff.1 ran
  dsimp only at ran
  split at ran
  · obtain rfl := (Prod.mk.inj (Option.some.inj ran)).2
    exact absurd (line_eq_of_complete last) (by decide)
  rename_i opened
  split at ran
  · obtain rfl := (Prod.mk.inj (Option.some.inj ran)).2
    exact absurd (line_eq_of_complete last) (by decide)
  obtain rfl := (Prod.mk.inj (Option.some.inj ran)).2
  have fine : env.xferErr = false := by
    by_contra err
    rw [Bool.not_eq_false] at err
    rw [err] at last
    exact absurd (line_eq_of_complete last) (by decide)
  refine ⟨?_, fine, _, openData_typeAscii { s with rest := 0 } env, ?_⟩
  · simp only [Bool.or_eq_true, Bool.not_eq_true', not_or, Bool.not_eq_false, Bool.and_eq_true] at opened
    exact opened.1.2
  · simp

end FtpSession

section Retr

open FtpSession

variable {play : RetrPlay} {s s' : FtpSession} {env : FtpEnv} {arg : List Char} {store : Store} {file : LfsFile}
  {outs : List FtpOut}

/-- What is left behind the offset, as the open reports it. -/
theorem LfsFile.toNat_left (file : LfsFile) (rest : UInt32) :
    (if file.len < rest then 0 else file.len - rest).toNat = (file.bytes.drop rest.toNat).length := by
  rw [List.length_drop, ← file.toNat_len]
  split
  · rename_i past
    have := UInt32.lt_iff_toNat_lt.1 past
    simp
    omega
  · rename_i inside
    exact UInt32.toNat_sub_of_le _ _ (UInt32.not_lt.1 inside)

/-- The open reports what is left behind the offset; without the length of the file, nothing. -/
theorem RetrPlay.toNat_opened_size (ok : (play.opened s arg store file).ftpRes.1 = true) :
    ((play.opened s arg store file).ftpXfer s.slot).size.toNat =
      if play.lenOk then (file.bytes.drop s.rest.toNat).length else 0 := by
  obtain ⟨f, xfer⟩ := RetrPlay.opened_xfer ok
  rw [xfer]
  cases found : play.lenOk with
  | true =>
    simp only [LfsFile.lenAnswer, if_true, Option.getD_some]
    exact file.toNat_left s.rest
  | false =>
    simp only [LfsFile.lenAnswer, Bool.false_eq_true, if_false, Option.getD_none]
    split
    · rfl
    · rename_i zero
      have : s.rest = 0 := by simpa using zero
      rw [this]
      rfl

/-- What the rounds of a download send when no read fails. -/
theorem RetrPlay.sends_iff (ok : (play.opened s arg store file).ftpRes.1 = true)
    (fine : ((play.download s arg store file).store.ftpXfer s.slot).err = false)
    (sized : env.xferSize = ((play.opened s arg store file).ftpXfer s.slot).size) (s₁ : FtpSession) :
    sentData (s₁.retrLoop env s.rest (play.download s arg store file).sends
        (play.download s arg store file).chunks) =
          coded s₁.typeAscii (file.bytes.drop s.rest.toNat) ↔
      file.bytes.drop s.rest.toNat = [] ∨
        play.lenOk = true ∧ served (file.bytes.drop s.rest.toNat).length play.rounds = true := by
  obtain ⟨f, xfer⟩ := RetrPlay.opened_xfer ok
  have size := RetrPlay.toNat_opened_size ok
  unfold RetrPlay.download at fine ⊢
  by_cases bytes : play.lenOk = true ∧ file.bytes.drop s.rest.toNat ≠ []
  · have some := List.length_pos_iff.2 bytes.2
    rw [if_pos bytes.1] at size
    have going : Going ((play.opened s arg store file).ftpXfer s.slot)
        (0 + (file.bytes.drop s.rest.toNat).length) 0 := by
      refine ⟨?_, ?_, by omega, ?_, ?_, ?_⟩ <;> rw [xfer]
      · rfl
      · rfl
      · rfl
      · exact (decide_eq_false (by omega)).symm
    have small : 0 + (file.bytes.drop s.rest.toNat).length < 2 ^ 31 := by
      have := file.fits
      rw [List.length_drop]
      omega
    rw [(retrRounds_going sized going small (by omega) rfl bytes.2 play.rounds fine).iff]
    simp [bytes]
  · have nothing : ((play.opened s arg store file).ftpXfer s.slot).size = 0 := by
      apply UInt32.toNat_inj.1
      rw [size]
      split
      · rename_i found
        have none_left : file.bytes.drop s.rest.toNat = [] := by
          by_contra some
          exact bytes ⟨found, some⟩
        rw [none_left]
        rfl
      · rfl
    rw [(retrRounds_empty (by rw [xfer]) nothing (by rw [xfer]; rfl) (by rw [xfer]; rfl) play.rounds).1,
      eq_comm, coded_eq_nil]
    constructor
    · exact .inl
    · rintro (none_left | ⟨found, -⟩)
      · exact none_left
      · by_contra some
        exact bytes ⟨found, some⟩

/-- An acknowledged `RETR` has sent exactly the bytes from the offset to the end of the file if and
only if there were none, or the length of the file was found and every round they need delivered its
chunk. -/
theorem retr_complete_iff (ran : s.cmdRetr (play.ftpEnv s arg store file env) arg = some (s', outs))
    (last : outs.getLast? = some complete) :
    sentData outs = coded s.typeAscii (file.bytes.drop s.rest.toNat) ↔
      file.bytes.drop s.rest.toNat = [] ∨
        play.lenOk = true ∧ served (file.bytes.drop s.rest.toNat).length play.rounds = true := by
  obtain ⟨ok, fine, s₁, ascii, sent⟩ := cmdRetr_complete ran last
  rw [RetrPlay.ftpEnv_res] at ok
  rw [RetrPlay.ftpEnv_xferErr] at fine
  rw [sent, ← ascii]
  exact RetrPlay.sends_iff ok fine (RetrPlay.ftpEnv_xferSize play s arg store file env) s₁

end Retr

/-! ## Uploads: the storage task and the data connection -/

/-- How an RPC that writes a chunk, or closes the file, ends. -/
inductive WriteRpc where
  | executed (env : LfsEnv)
  | timedOut (room : Bool)

/-- One round of the loop: what the data connection delivers, and the RPC that writes it. -/
structure StorRound where
  read : DataRead
  rpc : WriteRpc

/-- The session copies a chunk into `FTP_XFER`. -/
def Store.stage (st : Store) (slot : Fin 3) (bytes : List UInt8) : Store :=
  st.setXfer slot { st.ftpXfer slot with chunk := overwrite (st.ftpXfer slot).chunk bytes }

/-- The rounds of an upload as far as the session goes, and the storage task after them.  A read of
which nothing is left to write makes no RPC. -/
def storRounds (s : FtpSession) :
    Store → Vector UInt8 512 → Bool → List StorRound → Option (List StorChunk × Store)
  | st, _, _, [] => some ([], st)
  | st, buf, pendingCr, round :: rounds => do
    let (buf, wlen, pendingCr) ← s.wlen (overwrite buf round.read.bytes) round.read.bytes.length pendingCr
    if wlen = 0 then
      let (chunks, st') ← storRounds s st buf pendingCr rounds
      return (⟨round.read, ⟨false, false, st.ftpRes⟩, false⟩ :: chunks, st')
    else
      let st := st.stage s.slot (buf.toList.take wlen)
      match round.rpc with
      | .timedOut room => return ([⟨round.read, ⟨room, false, st.ftpRes⟩, false⟩], st)
      | .executed env =>
        let st := st.handleCmd env (.ftpWriteChunk s.slot wlen)
        let c : StorChunk := ⟨round.read, ⟨true, true, st.ftpRes⟩, (st.ftpXfer s.slot).werr⟩
        if c.werr then return ([c], st)
        else
          let (chunks, st) ← storRounds s st buf pendingCr rounds
          return (c :: chunks, st)

/-- All outcomes of an upload. -/
structure StorPlay where
  /-- The open is executed before `rpc_wait` gives up. -/
  answered : Bool
  env : LfsEnv
  rounds : List StorRound
  /-- The data connection ends with `Ok(0)`, not with an error; `cmd_stor` leaves its loop for both. -/
  orderly : Bool
  closing : WriteRpc

namespace StorPlay

variable (play : StorPlay) (s : FtpSession) (arg : List Char) (isAppe : Bool) (store : Store)

/-- The storage task after the open. -/
def opened : Store :=
  store.handleCmd play.env
    (.ftpOpenWrite s.slot (FtpSession.ftpPathBytes ((FtpSession.normPath s.cwd arg).getD []))
      (if isAppe then .append else if s.rest > 0 then .rest s.rest else .trunc))

/-- The rounds after the open. -/
def upload : List StorChunk × Store :=
  (storRounds s (play.opened s arg isAppe store) (.replicate 512 0) false play.rounds).getD
    ([], play.opened s arg isAppe store)

/-- What `cmdStor` finds around it. -/
def ftpEnv (env : FtpEnv) : FtpEnv :=
  let (uploads, st) := play.upload s arg isAppe store
  { env with
    rpc := ⟨true, play.answered, (play.opened s arg isAppe store).ftpRes⟩
    uploads
    closing :=
      match play.closing with
      | .executed lfs => ⟨true, true, (st.handleCmd lfs (.ftpCloseWrite s.slot)).ftpRes⟩
      | .timedOut room => ⟨room, false, st.ftpRes⟩ }

/-- What littlefs accepted for the file. -/
def accepted : List UInt8 :=
  ((play.upload s arg isAppe store).2.written.drop (play.opened s arg isAppe store).written.length).flatMap
    fun entry => entry.2

/-- What the data connection delivered. -/
def received : List (List UInt8) := play.rounds.map fun round => round.read.bytes

theorem ftpEnv_res (env : FtpEnv) :
    (play.ftpEnv s arg isAppe store env).rpc.res = (play.opened s arg isAppe store).ftpRes := rfl

theorem ftpEnv_uploads (env : FtpEnv) :
    (play.ftpEnv s arg isAppe store env).uploads = (play.upload s arg isAppe store).1 := rfl

end StorPlay

namespace Store

theorem handleCmd_ftpWriteChunk {st : Store} {slot : Fin 3} {f : File} (held : (st.ftpXfer slot).wr = some f)
    (env : LfsEnv) {len : ℕ} (short : len ≤ 512) :
    (st.handleCmd env (.ftpWriteChunk slot len)).ftpXfer slot =
        { st.ftpXfer slot with
          wpos := 0
          werr := (st.ftpXfer slot).werr || !decide (env.written = some len) } ∧
      (st.handleCmd env (.ftpWriteChunk slot len)).written =
        st.written ++ [(f, ((st.ftpXfer slot).chunk.toList.take len).take (env.written.getD 0))] := by
  have bumped : st.handleCmd env (.ftpWriteChunk slot len) = (st.ftpWriteChunk env slot len).bump := rfl
  rw [bumped]
  unfold ftpWriteChunk
  simp only [held, Nat.min_eq_left short]
  exact ⟨ftpXfer_setXfer .., rfl⟩

/-- A write that leaves `werr` clear has been accepted whole. -/
theorem ftpWriteChunk_accepted {st : Store} {env : LfsEnv} {slot : Fin 3} {f : File} {bytes : List UInt8}
    (held : (st.ftpXfer slot).wr = some f) (short : bytes.length ≤ 512)
    (fine : (((st.stage slot bytes).handleCmd env (.ftpWriteChunk slot bytes.length)).ftpXfer slot).werr = false) :
    (((st.stage slot bytes).handleCmd env (.ftpWriteChunk slot bytes.length)).ftpXfer slot).wr = some f ∧
      ((st.stage slot bytes).handleCmd env (.ftpWriteChunk slot bytes.length)).written =
        st.written ++ [(f, bytes)] := by
  have staged : (st.stage slot bytes).ftpXfer slot =
      { st.ftpXfer slot with chunk := overwrite (st.ftpXfer slot).chunk bytes } := ftpXfer_setXfer ..
  have held' : ((st.stage slot bytes).ftpXfer slot).wr = some f := by rw [staged, held]
  obtain ⟨slot', log⟩ := handleCmd_ftpWriteChunk held' env short
  rw [slot'] at fine ⊢
  have whole : env.written = some bytes.length := by
    simp only [Bool.or_eq_false_iff, Bool.not_eq_false', decide_eq_true_eq] at fine
    exact fine.2
  refine ⟨held', ?_⟩
  have kept : (overwrite (st.ftpXfer slot).chunk bytes).toList.take bytes.length = bytes :=
    take_overwrite _ (by omega)
  rw [log, staged, whole, kept, Option.getD_some, List.take_length]
  rfl

/-- A successful open for writing leaves a file in the slot. -/
theorem ftpOpenWrite_xfer {st : Store} {env : LfsEnv} {slot : Fin 3} {path : FtpPath} {mode : FtpWrMode}
    (ok : (st.handleCmd env (.ftpOpenWrite slot path mode)).ftpRes.1 = true) :
    ∃ f, ((st.handleCmd env (.ftpOpenWrite slot path mode)).ftpXfer slot).wr = some f := by
  have bumped : st.handleCmd env (.ftpOpenWrite slot path mode) = (st.ftpOpenWrite env slot path mode).bump :=
    rfl
  rw [bumped] at ok ⊢
  unfold ftpOpenWrite at ok ⊢
  dsimp only at ok ⊢
  split at ok
  · cases ok
  rename_i good
  rw [if_neg good]
  cases known : ftpPathOf (st.slotCloseAll env slot).paths path with
  | none =>
    rw [known] at ok
    cases ok
  | some p =>
    rw [known] at ok
    dsimp only at ok ⊢
    split at ok
    case isFalse => cases ok
    rename_i opened
    rw [if_pos opened]
    split at ok
    case isFalse => cases ok
    rename_i placed
    rw [if_pos placed]
    exact ⟨_, congrArg FtpXfer.wr (ftpXfer_setXfer ..)⟩

end Store

section Stor

open FtpSession

variable {s s₁ : FtpSession}

theorem FtpSession.wlen_congr (ascii : s₁.typeAscii = s.typeAscii) (buf : Vector UInt8 512) (n : ℕ)
    (pendingCr : Bool) : s₁.wlen buf n pendingCr = s.wlen buf n pendingCr := by
  unfold wlen
  rw [ascii]

/-- The rounds do not panic.  If the session saw no failure, littlefs accepted all that was delivered, as it is
converted. -/
def Accepts (s s₁ : FtpSession) (st : Store) (buf : Vector UInt8 512) (pendingCr : Bool) (rounds : List StorRound) :
    Prop :=
  ∃ chunks st', storRounds s st buf pendingCr rounds = some (chunks, st') ∧
    ∀ outs, s₁.storLoop chunks buf pendingCr = some (outs, false) →
      ∃ log, st'.written = st.written ++ log ∧
        log.flatMap (fun entry => entry.2) = uploaded s.typeAscii pendingCr (rounds.map fun round => round.read.bytes)

section Round

variable {buf buf' : Vector UInt8 512} {bytes : List UInt8} {pendingCr pendingCr' : Bool} {read : DataRead}
  (ran : s.wlen (overwrite buf read.bytes) read.bytes.length pendingCr = some (buf', bytes.length, pendingCr'))
  (written : buf'.toList.take bytes.length = bytes)

include ran written

theorem FtpSession.storLoop_cons (ascii : s₁.typeAscii = s.typeAscii) (rpc : Rpc) (werr : Bool)
    (cs : List StorChunk) :
    s₁.storLoop (⟨read, rpc, werr⟩ :: cs) buf pendingCr =
      if bytes.length > 0 then
        let handed := .staged s₁.slot bytes :: rpcSend rpc (.ftpWriteChunk s₁.slot bytes.length)
        if !rpc.arrived || werr then some (handed, true)
        else (s₁.storLoop cs buf' pendingCr').map fun r => (handed ++ r.1, r.2)
      else s₁.storLoop cs buf' pendingCr' := by
  rw [storLoop, wlen_congr ascii, ran]
  simp only [Option.bind_eq_bind, Option.bind_some, written]
  rcases s₁.storLoop cs buf' pendingCr' with _ | ⟨more, failed⟩ <;> rfl

/-- A round that is not answered, or is answered with an error, fails the upload. -/
theorem FtpSession.storLoop_stopped (ascii : s₁.typeAscii = s.typeAscii) (filled : bytes.length ≠ 0) {rpc : Rpc}
    {werr : Bool} (stops : (!rpc.arrived || werr) = true) (cs : List StorChunk) (outs : List FtpOut) :
    s₁.storLoop (⟨read, rpc, werr⟩ :: cs) buf pendingCr ≠ some (outs, false) := by
  rw [storLoop_cons ran written ascii, if_pos (Nat.pos_of_ne_zero filled)]
  dsimp only
  rw [if_pos stops]
  simp

/-- A round of which something is written, and the storage task executes it. -/
theorem storRounds_executed (filled : bytes.length ≠ 0) (st : Store) (env : LfsEnv) (rounds : List StorRound) :
    storRounds s st buf pendingCr (⟨read, .executed env⟩ :: rounds) =
      let st := (st.stage s.slot bytes).handleCmd env (.ftpWriteChunk s.slot bytes.length)
      let c : StorChunk := ⟨read, ⟨true, true, st.ftpRes⟩, (st.ftpXfer s.slot).werr⟩
      if c.werr then some ([c], st)
      else (storRounds s st buf' pendingCr' rounds).map fun r => (c :: r.1, r.2) := by
  rw [storRounds, ran]
  simp only [Option.bind_eq_bind, Option.bind_some, filled, if_false, written, Option.pure_def]
  split
  · rfl
  · rcases storRounds s _ buf' pendingCr' rounds with _ | ⟨chunks, st'⟩ <;> rfl

section Steps

variable (ascii : s₁.typeAscii = s.typeAscii)
  (step : (if s.typeAscii then asciiRound pendingCr read.bytes else (read.bytes, pendingCr)) = (bytes, pendingCr'))
  {st : Store} {rounds : List StorRound}

include ascii step

theorem Accepts.unwritten (empty : bytes.length = 0) (rpc : WriteRpc) (rest : Accepts s s₁ st buf' pendingCr' rounds) :
    Accepts s s₁ st buf pendingCr (⟨read, rpc⟩ :: rounds) := by
  obtain ⟨chunks, st', uploads, all⟩ := rest
  refine ⟨⟨read, ⟨false, false, st.ftpRes⟩, false⟩ :: chunks, st', ?_, ?_⟩
  · rw [storRounds, ran]
    simp [empty, uploads]
  · intro outs loop
    rw [storLoop_cons ran written ascii, if_neg (by omega)] at loop
    rw [List.map_cons, uploaded, step, List.length_eq_zero_iff.1 empty]
    exact all outs loop

omit step in
/-- A round the storage task does not answer in time. -/
theorem Accepts.timedOut (filled : bytes.length ≠ 0) (room : Bool) :
    Accepts s s₁ st buf pendingCr (⟨read, .timedOut room⟩ :: rounds) := by
  refine ⟨[⟨read, ⟨room, false, (st.stage s.slot bytes).ftpRes⟩, false⟩], st.stage s.slot bytes, ?_, ?_⟩
  · rw [storRounds, ran]
    simp [filled, written]
  · intro outs loop
    exact absurd loop (storLoop_stopped ran written ascii filled rfl _ _)

theorem Accepts.executed (filled : bytes.length ≠ 0) {f : File} (held : (st.ftpXfer s.slot).wr = some f) (env : LfsEnv)
    (rest : ∀ st₁ : Store, (st₁.ftpXfer s.slot).wr = some f → Accepts s s₁ st₁ buf' pendingCr' rounds) :
    Accepts s s₁ st buf pendingCr (⟨read, .executed env⟩ :: rounds) := by
  have short : bytes.length ≤ 512 := by
    have := congrArg List.length written
    rw [List.length_take, Vector.length_toList] at this
    omega
  have accepts (fine : (((st.stage s.slot bytes).handleCmd env
    (.ftpWriteChunk s.slot bytes.length)).ftpXfer s.slot).werr = false) :=
    Store.ftpWriteChunk_accepted held short fine
  unfold Accepts
  rw [storRounds_executed ran written filled]
  generalize (st.stage s.slot bytes).handleCmd env (.ftpWriteChunk s.slot bytes.length) = st₁ at accepts ⊢
  dsimp only
  cases werr : (st₁.ftpXfer s.slot).werr with
  | true =>
    refine ⟨_, st₁, rfl, ?_⟩
    intro outs loop
    exact absurd loop (storLoop_stopped ran written ascii filled rfl _ _)
  | false =>
    obtain ⟨held₁, log₁⟩ := accepts werr
    obtain ⟨chunks, st', uploads, all⟩ := rest st₁ held₁
    refine ⟨_, st', by rw [uploads]; rfl, ?_⟩
    intro outs loop
    rw [storLoop_cons ran written ascii, if_pos (by omega)] at loop
    simp only [Bool.not_true, Bool.or_self, Bool.false_eq_true, if_false] at loop
    obtain ⟨⟨more, failed⟩, going, same⟩ := Option.map_eq_some_iff.1 loop
    obtain rfl : failed = false := (Prod.mk.inj same).2
    obtain ⟨log, logged, bytes'⟩ := all more going
    refine ⟨(f, bytes) :: log, ?_, ?_⟩
    · rw [logged, log₁, List.append_assoc]
      rfl
    · rw [List.map_cons, uploaded, step, List.flatMap_cons, bytes']

end Steps

end Round

theorem storRounds_accepted (ascii : s₁.typeAscii = s.typeAscii) {st : Store} {f : File}
    (held : (st.ftpXfer s.slot).wr = some f) (buf : Vector UInt8 512) (pendingCr : Bool) (rounds : List StorRound) :
    Accepts s s₁ st buf pendingCr rounds := by
  induction rounds generalizing st buf pendingCr with
  | nil => exact ⟨[], st, rfl, fun _ _ => ⟨[], (List.append_nil _).symm, rfl⟩⟩
  | cons round rounds ih =>
    obtain ⟨read, rpc⟩ := round
    obtain ⟨buf', bytes, pendingCr', ran, step, written⟩ := s.wlen_eq pendingCr buf read
    by_cases empty : bytes.length = 0
    · exact .unwritten ran written ascii step empty rpc (ih held buf' pendingCr')
    cases rpc with
    | timedOut room => exact .timedOut ran written ascii empty room
    | executed env => exact .executed ran written ascii step empty held env fun st₁ held₁ => ih held₁ buf' pendingCr'

/-- An acknowledged upload was opened, and the session saw no failure of its rounds. -/
theorem FtpSession.cmdStor_complete {s' : FtpSession} {env : FtpEnv} {arg : List Char} {isAppe : Bool}
    {outs : List FtpOut} (ran : s.cmdStor env arg isAppe = some (s', outs))
    (last : outs.getLast? = some complete) :
    env.rpc.res.1 = true ∧ ∃ s₁ : FtpSession, s₁.typeAscii = s.typeAscii ∧
      ∃ handed, s₁.storLoop env.uploads (.replicate 512 0) false = some (handed, false) := by
  obtain ⟨front, text, rfl, -, other⟩ | ⟨s₁, front, more, back, xferErr, text, ascii, opened, loop, rfl, -, -,
    fine⟩ := cmdStor_cases ran
  · exact absurd (line_eq_of_complete last) other
  · rw [fine (line_eq_of_complete last)] at loop
    exact ⟨opened, s₁, ascii, more, loop⟩

variable {play : StorPlay} {s' : FtpSession} {env : FtpEnv} {arg : List Char} {isAppe : Bool} {store : Store}
  {outs : List FtpOut}

/-- Of an acknowledged `STOR` or `APPE`, littlefs accepted all that was delivered. -/
theorem stor_accepted (ran : s.cmdStor (play.ftpEnv s arg isAppe store env) arg isAppe = some (s', outs))
    (last : outs.getLast? = some complete) :
    play.accepted s arg isAppe store = uploaded s.typeAscii false play.received := by
  obtain ⟨ok, s₁, ascii, handed, loop⟩ := cmdStor_complete ran last
  rw [StorPlay.ftpEnv_res] at ok
  rw [StorPlay.ftpEnv_uploads] at loop
  obtain ⟨f, held⟩ : ∃ f, ((play.opened s arg isAppe store).ftpXfer s.slot).wr = some f :=
    Store.ftpOpenWrite_xfer ok
  obtain ⟨chunks, st', uploads, all⟩ := storRounds_accepted ascii held (.replicate 512 0) false play.rounds
  have result : play.upload s arg isAppe store = (chunks, st') := by
    rw [StorPlay.upload, uploads]
    rfl
  rw [result] at loop
  obtain ⟨log, logged, bytes⟩ := all handed loop
  rw [StorPlay.accepted, result, logged, List.drop_left, bytes]
  rfl

end Stor

/-! ## Both -/

section Both

open FtpSession

/-- An upload as it is meant to be stored. -/
def converted (ascii : Bool) (bytes : List UInt8) : List UInt8 := if ascii then crlfToLf bytes else bytes

theorem uploaded_binary (pendingCr : Bool) (reads : List (List UInt8)) :
    uploaded false pendingCr reads = reads.flatten := by
  induction reads with
  | nil => rfl
  | cons read reads ih => rw [uploaded, List.flatten_cons, ← ih]; rfl

/-- What the session hands over is what was meant, unless a read in ASCII type ends in CR. -/
theorem uploaded_converted_iff (ascii : Bool) {reads : List (List UInt8)} (nonempty : ∀ read ∈ reads, read ≠ []) :
    uploaded ascii false reads = converted ascii reads.flatten ↔
      (ascii = true → ∀ read ∈ reads, endsCr read = false) := by
  cases ascii with
  | false => simp [converted, uploaded_binary]
  | true => simp [converted, uploaded_ascii_iff nonempty]

theorem StorPlay.received_ne_nil (play : StorPlay) : ∀ read ∈ play.received, read ≠ [] := by
  simp only [received, List.mem_map]
  rintro _ ⟨round, -, rfl⟩
  exact round.read.nonempty

/-- When a 226 is right.  For a download, the bytes from the offset to the end of the file were sent if and only if
there were none, or the length of the file was found and every round they need delivered its chunk.  For an upload,
the data connection has ended orderly and all that it delivered was accepted, as it is meant to be converted, if and
only if it has ended orderly and, in ASCII type, delivered no read that ends in CR. -/
theorem acknowledged_iff (s s' : FtpSession) (env : FtpEnv) (arg : List Char) (store : Store)
    (outs : List FtpOut) (last : outs.getLast? = some complete) :
    (∀ (play : RetrPlay) (file : LfsFile),
      s.cmdRetr (play.ftpEnv s arg store file env) arg = some (s', outs) →
        (sentData outs = coded s.typeAscii (file.bytes.drop s.rest.toNat) ↔
          file.bytes.drop s.rest.toNat = [] ∨
            play.lenOk = true ∧ served (file.bytes.drop s.rest.toNat).length play.rounds = true)) ∧
    ∀ (play : StorPlay) (isAppe : Bool),
      s.cmdStor (play.ftpEnv s arg isAppe store env) arg isAppe = some (s', outs) →
        (play.orderly = true ∧
            play.accepted s arg isAppe store = converted s.typeAscii play.received.flatten ↔
          play.orderly = true ∧ (s.typeAscii = true → ∀ read ∈ play.received, endsCr read = false)) := by
  constructor
  · intro play file ran
    exact retr_complete_iff ran last
  · intro play isAppe ran
    rw [stor_accepted ran last, uploaded_converted_iff _ play.received_ne_nil]

/-- A logged in session with a passive port. -/
def plainSession : FtpSession := { FtpSession.new (Fin.last 2) with authed := true, passivePort := 40000 }

/-- A storage task that holds no file. -/
def idleStore : Store := .new .documented ⟨fun _ => 0xFF, [], 0⟩ (.new 0) (none, 0)

/-- A file of two lines. -/
def twoLines : LfsFile := ⟨[0x61, lf, 0x62], by decide⟩

/-- A download whose first chunk ends so. -/
def firstChunk (rpc : ReadRpc) : RetrPlay := ⟨true, Store.allWell, true, [⟨rpc, true⟩]⟩

/-- A read of which littlefs accepts so many bytes. -/
def reads (read : DataRead) (written : ℕ) : StorRound :=
  ⟨read, .executed { Store.allWell with written := some written }⟩

/-- An upload in these reads. -/
def uploadOf (rounds : List StorRound) (orderly : Bool) : StorPlay :=
  ⟨true, Store.allWell, rounds, orderly, .executed Store.allWell⟩

set_option maxRecDepth 4000

/-- In ASCII type, a file of two lines is sent with CR LF, and two lines with CR LF are stored with LF. -/
theorem acknowledged_iff_lines :
    let s := { plainSession with typeAscii := true }
    let down := firstChunk (.executed Store.allWell true)
    let up := uploadOf [reads ⟨[0x61, cr, lf, 0x62], List.cons_ne_nil _ _, by simp⟩ 3] true
    (∃ s' outs, s.cmdRetr (down.ftpEnv s ['f'] idleStore twoLines .answering) ['f'] = some (s', outs) ∧
      outs.getLast? = some complete ∧ sentData outs = [0x61, cr, lf, 0x62]) ∧
    ∃ s' outs, s.cmdStor (up.ftpEnv s ['f'] false idleStore .answering) ['f'] false = some (s', outs) ∧
      outs.getLast? = some complete ∧ up.accepted s ['f'] false idleStore = [0x61, lf, 0x62] := by
  intro s down up
  have downloaded : (s.cmdRetr (down.ftpEnv s ['f'] idleStore twoLines .answering) ['f']).map
      (fun r => r.2.getLast?) = some (some complete) := by
    decide +kernel
  have stored : (s.cmdStor (up.ftpEnv s ['f'] false idleStore .answering) ['f'] false).map
      (fun r => r.2.getLast?) = some (some complete) := by
    decide +kernel
  constructor
  · obtain ⟨⟨s', outs⟩, ran, last⟩ := Option.map_eq_some_iff.1 downloaded
    exact ⟨s', outs, ran, last,
      ((acknowledged_iff s s' .answering ['f'] idleStore outs last).1 down twoLines ran).2 (.inr (by decide))⟩
  · obtain ⟨⟨s', outs⟩, ran, last⟩ := Option.map_eq_some_iff.1 stored
    exact ⟨s', outs, ran, last,
      (((acknowledged_iff s s' .answering ['f'] idleStore outs last).2 up false ran).2 (by decide)).2⟩

/-- A download whose first chunk times out is acknowledged without a byte; an upload whose data connection breaks is
acknowledged too; and so is one in ASCII type whose only line end came in two reads and is lost. -/
theorem acknowledged_without_bytes :
    (plainSession.cmdRetr ((firstChunk (.timedOut true)).ftpEnv plainSession ['f'] idleStore twoLines .answering)
        ['f']).map (fun r => (r.2.getLast?, sentData r.2)) = some (some complete, []) ∧
      (plainSession.cmdStor
          ((uploadOf [reads ⟨[0x61, 0x62], List.cons_ne_nil _ _, by simp⟩ 2] false).ftpEnv plainSession ['f'] false
            idleStore .answering) ['f'] false).map (fun r => r.2.getLast?) = some (some complete) ∧
      let s := { plainSession with typeAscii := true }
      let cut := uploadOf
        [reads ⟨[cr], List.cons_ne_nil _ _, by simp⟩ 1, reads ⟨[lf], List.cons_ne_nil _ _, by simp⟩ 1] true
      (s.cmdStor (cut.ftpEnv s ['f'] false idleStore .answering) ['f'] false).map (fun r => r.2.getLast?) =
          some (some complete) ∧
        cut.accepted s ['f'] false idleStore = [] ∧ converted true cut.received.flatten = [lf] := by
  decide +kernel

end Both

end IoEdgeHub
