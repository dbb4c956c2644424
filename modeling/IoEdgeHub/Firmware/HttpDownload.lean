import Mathlib.Data.List.TakeDrop
import IoEdgeHub.Proto.WebJson
import IoEdgeHub.Firmware.StorageRpc

/-!
# Web downloads

`GET /api/history/download` in the two `http_task`s, with the storage task that reads for both of
them.  A task runs from one await to the next, so it is a function of what happened at the await and
of the statics it finds then; the tasks take turns in any order.  There is one `FILE_DL`, one
`DOWNLOAD_FILE` and one `RPC_SEQ`, and no command names the download it belongs to.

`isolated_of_undisturbed`: a download that has the storage task for itself sends a beginning of its
own file, and all of it when it ends at the announced length.  `mixed_downloads`: two downloads that
overlap do not.

Littlefs answers from the files as they are, and every call succeeds.  Left out: the text of the
headers, what follows an answer on the connection, and other users of the storage task.
-/

namespace IoEdgeHub

open Bytes (overwrite toList_overwrite take_overwrite)

/-! ## The storage task -/

/-- The files, by path. -/
abbrev Disk := List UInt8 → LfsFile

/-- The storage task, and the place in the file that `DOWNLOAD_FILE` reads. -/
structure DlStore where
  store : Store
  file : LfsFile
  pos : ℕ

namespace DlStore

/-- Whether `file_chunk` gets to read. -/
def reads (s : DlStore) : Bool :=
  s.store.fileDl.isOpen && s.store.fileDl.sent < s.store.fileDl.size && s.store.downloadFile.isSome

/-- A command of a download, with the file behind its handle. -/
def handle (disk : Disk) (s : DlStore) : StorageCmd → DlStore
  | .fileOpen name =>
    let file := disk ((pathOf s.store.paths name).getD [])
    let store := s.store.handleCmd (file.lenAnswer true Store.allWell) (.fileOpen name)
    if store.downloadFile.isSome then ⟨store, file, 0⟩ else { s with store }
  | .fileChunk =>
    { s with
      store := s.store.handleCmd (s.file.readAnswer s.pos true Store.allWell) .fileChunk
      pos := s.pos + if s.reads then ((s.file.bytes.drop s.pos).take 2048).length else 0 }
  | cmd => { s with store := s.store.handleCmd Store.allWell cmd }

end DlStore

/-! ## The handler -/

/-- What the handler copies out of `FILE_DL` for a chunk. -/
structure DlSeen where
  chunk : List UInt8
  eof : Bool
  err : Bool
  sent : UInt32
deriving DecidableEq

/-- What a download sees of the storage task. -/
def Store.dlSeen (st : Store) : DlSeen where
  chunk := st.fileDl.chunk.toList.take st.fileDl.chunkLen
  eof := st.fileDl.eof
  err := st.fileDl.err
  sent := st.fileDl.sent

/-- The test at the end of the loop. -/
def DlSeen.ends (seen : DlSeen) (size : UInt32) : Bool := (seen.eof && seen.chunk.isEmpty) || seen.sent ≥ size

/-- The await at which a task stands, with what it keeps across it: `rpc_wait` for the open, the
header, `rpc_wait` for a chunk, the chunk.  A loop that is over has `reached` the announced length, or
was left earlier. -/
inductive DlPhase where
  | idle
  | opening (seq : UInt32)
  | refused
  | header (size : UInt32)
  | asking (size seq : UInt32)
  | writing (size : UInt32) (seen : DlSeen)
  | ended (reached : Bool)
deriving DecidableEq

/-- A connection: the file asked for, where its task stands, and the bytes written behind the header.
`serial` counts its requests. -/
structure DlConn where
  name : List UInt8
  phase : DlPhase
  body : List UInt8
  serial : ℕ
deriving DecidableEq

/-- What ends an await: a request arrives, `rpc_wait` finds that the counter has moved, or gives up, and
a write succeeds, or fails after some bytes. -/
inductive DlEvent where
  | request (query : Option (List UInt8))
  | moved
  | timeout
  | written
  | broken (taken : ℕ)

/-- The buffer of 24 bytes that a name travels in. -/
def nameBuf (name : List UInt8) : FileName := overwrite (.replicate 24 0) (name.take 23)

namespace DlConn

/-- A connection without a download. -/
def new : DlConn := ⟨[], .idle, [], 0⟩

/-- Up to the first await of a request. -/
def begin (conn : DlConn) (st : Store) (query : Option (List UInt8)) : DlConn × Option StorageCmd :=
  match query.bind (urlQueryGet · "name") with
  | none => ({ conn with phase := .refused, body := [], serial := conn.serial + 1 }, none)
  | some name =>
    if historyWebNameValid name then
      (⟨name, .opening st.rpcSeq, [], conn.serial + 1⟩, some (.fileOpen (nameBuf name)))
    else (⟨name, .refused, [], conn.serial + 1⟩, none)

/-- The size is read and announced. -/
def opened (conn : DlConn) (st : Store) : DlConn :=
  if st.fileDl.size = 0 then { conn with phase := .refused }
  else { conn with phase := .header st.fileDl.size }

/-- The loop begins again. -/
def ask (conn : DlConn) (st : Store) (size : UInt32) : DlConn × Option StorageCmd :=
  ({ conn with phase := .asking size st.rpcSeq }, some .fileChunk)

/-- The end of the loop. -/
def goOn (conn : DlConn) (st : Store) (size : UInt32) (seen : DlSeen) : DlConn × Option StorageCmd :=
  if seen.ends size then ({ conn with phase := .ended (seen.sent ≥ size) }, none) else conn.ask st size

/-- A chunk is there. -/
def arrived (conn : DlConn) (st : Store) (size : UInt32) : DlConn × Option StorageCmd :=
  if st.dlSeen.err then ({ conn with phase := .ended false }, none)
  else if st.dlSeen.chunk.isEmpty then conn.goOn st size st.dlSeen
  else ({ conn with phase := .writing size st.dlSeen }, none)

/-- From one await to the next: the connection then, and a command sent on the way. -/
def resume (conn : DlConn) (st : Store) (event : DlEvent) : Option (DlConn × Option StorageCmd) :=
  match event, conn.phase with
  | .request query, .idle | .request query, .refused | .request query, .ended _ => some (conn.begin st query)
  | .moved, .opening seq => if seq < st.rpcSeq then some (conn.opened st, none) else none
  | .moved, .asking size seq => if seq < st.rpcSeq then some (conn.arrived st size) else none
  | .timeout, .opening seq => if st.rpcSeq ≤ seq then some ({ conn with phase := .refused }, none) else none
  | .timeout, .asking _ seq => if st.rpcSeq ≤ seq then some ({ conn with phase := .ended false }, none) else none
  -- the result of writing the header is not looked at
  | .written, .header size | .broken _, .header size => some (conn.ask st size)
  | .written, .writing size seen => some ({ conn with body := conn.body ++ seen.chunk }.goOn st size seen)
  | .broken taken, .writing _ seen =>
    some ({ conn with phase := .ended false, body := conn.body ++ seen.chunk.take taken }, none)
  | _, _ => none

end DlConn

/-! ## The tasks together -/

/-- A command in `QUEUE`, with the request it comes from, which the storage task is not told. -/
structure DlJob where
  task : Fin 2
  serial : ℕ
  cmd : StorageCmd
deriving DecidableEq

/-- The storage task, its queue, and the connections. -/
structure DlHub where
  storage : DlStore
  queue : List DlJob
  conns : Fin 2 → DlConn

/-- The storage task takes the next command, or a task goes on. -/
inductive DlAct where
  | serve
  | resume (task : Fin 2) (event : DlEvent)

namespace DlHub

/-- `QUEUE` holds 8 commands; a failed `try_send` goes unnoticed. -/
def trySend (queue : List DlJob) (job : DlJob) : List DlJob :=
  if queue.length < 8 then queue ++ [job] else queue

/-- One turn of a connection or of the storage task. -/
def step (disk : Disk) (h : DlHub) : DlAct → Option DlHub
  | .serve =>
    match h.queue with
    | [] => none
    | job :: queue => some { h with storage := h.storage.handle disk job.cmd, queue }
  | .resume task event => do
    let (conn, cmd) ← (h.conns task).resume h.storage.store event
    return { h with
      conns := Function.update h.conns task conn
      queue := cmd.elim h.queue fun cmd => trySend h.queue ⟨task, conn.serial, cmd⟩ }

/-- No download has begun. -/
def init (storage : DlStore) : DlHub := ⟨storage, [], fun _ => .new⟩

/-- After the tasks have taken these turns. -/
def after (disk : Disk) (start : DlStore) (acts : List DlAct) : Option DlHub :=
  acts.foldlM (step disk) (init start)

end DlHub

/-- A task needs the storage task from its open until it has copied the last chunk. -/
def DlPhase.engaged : DlPhase → Bool
  | .opening _ | .header _ | .asking _ _ => true
  | .writing size seen => !seen.ends size
  | _ => false

namespace DlHub

/-- The command belongs to what the task is at. -/
def owns (h : DlHub) (task : Fin 2) (job : DlJob) : Bool :=
  job.task = task && job.serial = (h.conns task).serial

/-- While a download of the task is under way, the storage task handles only its commands. -/
def Undisturbed (disk : Disk) (start : DlStore) (task : Fin 2) (acts : List DlAct) : Prop :=
  Run.Each (fun before act => ∀ h, after disk start before = some h → act = .serve →
    (h.conns task).phase.engaged = true → ∀ job ∈ h.queue.head?, h.owns task job = true) acts

end DlHub

/-! ## Names -/

theorem ne_zero_of_historyWebNameValid {name : List UInt8} (valid : historyWebNameValid name = true)
    {b : UInt8} (mem : b ∈ name) : b ≠ 0 ∧ b < 128 := by
  have all := (Bool.and_eq_true_iff.1 valid).2
  have allowed := List.all_eq_true.1 all b mem
  simp only [isAsciiAlphanumeric, Bool.or_eq_true, Bool.and_eq_true, decide_eq_true_eq,
    UInt8.le_iff_toNat_le] at allowed
  rw [UInt8.lt_iff_toNat_lt, Ne, ← UInt8.toNat_inj]
  rcases allowed with ((((⟨low, high⟩ | ⟨low, high⟩) | ⟨low, high⟩) | rfl) | rfl) | rfl <;>
    first | decide | (simp only [UInt8.reduceToNat] at low high ⊢; omega)

/-- A name that fits the buffer is the path that is opened. -/
theorem pathOf_nameBuf {paths : LfsPaths} {name : List UInt8} (valid : historyWebNameValid name = true)
    (short : name.length ≤ 23) : pathOf paths (nameBuf name) = some name := by
  have long : 6 ≤ name.length := by
    simp only [historyWebNameValid, Bool.and_eq_true, decide_eq_true_eq] at valid
    exact valid.1.1.1
  have ascii (b : UInt8) (mem : b ∈ name) := ne_zero_of_historyWebNameValid valid mem
  have buf : (nameBuf name).toList = name ++ 0 :: List.replicate (23 - name.length) 0 := by
    rw [nameBuf, List.take_of_length_le short, toList_overwrite _ (by omega), Vector.toList_replicate,
      List.drop_replicate, ← List.replicate_succ]
    congr 2
    omega
  have none : name.findIdx? (· == 0) = none := by
    rw [List.findIdx?_eq_none_iff]
    intro b mem
    simpa using (ascii b mem).1
  have first : (nameBuf name).toList.findIdx? (· == 0) = some name.length := by
    rw [buf, List.findIdx?_append, none]
    simp [List.findIdx?_cons]
  have cut : (nameBuf name).toList.take (name.length + 1) = name ++ [0] := by
    rw [buf, List.take_length_add_append]
    rfl
  unfold pathOf
  rw [first]
  dsimp only [Option.getD_some]
  rw [cut, if_neg (by simp only [Bool.or_eq_true, decide_eq_true_eq]; omega),
    paths.ascii name fun mem => (ascii 0 mem).1 rfl, if_pos]
  exact List.all_eq_true.2 fun b mem => decide_eq_true (ascii b mem).2

/-! ## What the storage task does for a download -/

namespace Store

theorem fileDl_closeHeld (s : Store) (held : Option File) (ok : Bool) : (s.closeHeld held ok).fileDl = s.fileDl := by
  cases held <;> rfl

theorem downloadFile_closeHeld (s : Store) (held : Option File) (ok : Bool) :
    (s.closeHeld held ok).downloadFile = s.downloadFile := by
  cases held <;> rfl

/-- A chunk that is read; behind the last one the handle is closed. -/
theorem fileChunk_filled (s : Store) (env : LfsEnv) (isOpen : s.fileDl.isOpen = true)
    (short : s.fileDl.sent < s.fileDl.size) (held : s.downloadFile.isSome = true)
    (some : env.read.take 2048 ≠ []) :
    let sent := s.fileDl.sent + UInt32.ofNat (env.read.take 2048).length
    let eof := s.fileDl.eof || decide (sent ≥ s.fileDl.size)
    (s.fileChunk env).fileDl =
        { s.fileDl with
          chunk := overwrite s.fileDl.chunk (env.read.take 2048)
          chunkLen := (env.read.take 2048).length
          sent
          eof } ∧
      (eof = false → (s.fileChunk env).downloadFile = s.downloadFile) := by
  have unfinished : ¬s.fileDl.sent ≥ s.fileDl.size := UInt32.not_le.2 short
  have filled : (env.read.take 2048).isEmpty = false := by simpa using some
  intro sent eof
  unfold fileChunk
  dsimp only
  rw [if_neg (by simp [isOpen]), if_neg unfinished, if_pos held, if_neg (by simp [filled])]
  split
  · rename_i last
    refine ⟨fileDl_closeHeld .., fun going => ?_⟩
    exact absurd (last.symm.trans going) (by decide)
  · exact ⟨rfl, fun _ => rfl⟩

end Store

namespace DlStore

/-- `FILE_DL` and the open handle stand `k` bytes into the file. -/
structure Stands (s : DlStore) (file : LfsFile) (k : ℕ) : Prop where
  isOpen : s.store.fileDl.isOpen = true
  size : s.store.fileDl.size.toNat = file.bytes.length
  sent : s.store.fileDl.sent.toNat = k
  err : s.store.fileDl.err = false
  within : k ≤ file.bytes.length
  eof : k < file.bytes.length → s.store.fileDl.eof = false
  held : k < file.bytes.length → s.store.downloadFile.isSome = true ∧ s.file = file ∧ s.pos = k

variable {disk : Disk} {s : DlStore}

theorem handle_fileOpen (disk : Disk) (s : DlStore) {name : FileName} {path : List UInt8}
    (found : pathOf s.store.paths name = some path) :
    s.handle disk (.fileOpen name) =
      let store := s.store.handleCmd ((disk path).lenAnswer true Store.allWell) (.fileOpen name)
      if store.downloadFile.isSome then ⟨store, disk path, 0⟩ else { s with store } := by
  have file : disk path = disk ((pathOf s.store.paths name).getD []) := by
    rw [found]
    rfl
  rw [file]
  rfl

theorem handle_fileChunk (disk : Disk) (s : DlStore) :
    s.handle disk .fileChunk =
      { s with
        store := s.store.handleCmd (s.file.readAnswer s.pos true Store.allWell) .fileChunk
        pos := s.pos + if s.reads then ((s.file.bytes.drop s.pos).take 2048).length else 0 } := rfl

/-- An open that succeeds stands at the beginning; one that does not leaves no size. -/
theorem opens {name : FileName} {path : List UInt8} (found : pathOf s.store.paths name = some path) :
    (s.handle disk (.fileOpen name)).store.fileDl.size = 0 ∨
      (s.handle disk (.fileOpen name)).Stands (disk path) 0 := by
  let env := (disk path).lenAnswer true Store.allWell
  let reset := s.store.downloadReset env
  have cleared : reset.fileDl =
      { s.store.fileDl with isOpen := false, eof := false, err := false, size := 0, sent := 0, chunkLen := 0 } :=
    Store.fileDl_closeHeld ..
  have closed : reset.downloadFile = none := Store.downloadFile_closeHeld ..
  have same : reset.paths = s.store.paths := Store.closeHeld_paths ..
  have known : pathOf reset.paths name = some path := same ▸ found
  by_cases bad : reset.fsBad = true
  · left
    have kept : s.store.handleCmd env (.fileOpen name) = reset.bump := by
      show (s.store.fileOpen env name).bump = _
      unfold Store.fileOpen
      dsimp only
      rw [if_pos bad]
    have shut : reset.bump.downloadFile.isSome = false := by
      show reset.downloadFile.isSome = false
      rw [closed]
      rfl
    rw [handle_fileOpen disk s found]
    dsimp only
    rw [kept, shut]
    show reset.fileDl.size = 0
    rw [cleared]
  · right
    have opened : s.store.handleCmd env (.fileOpen name) =
        { (reset.openWith .dl).1 with
          fileDl := { reset.fileDl with name, size := (disk path).len, isOpen := true }
          downloadFile := some reset.ledger.next }.bump := by
      show (s.store.fileOpen env name).bump = _
      unfold Store.fileOpen
      dsimp only
      rw [if_neg bad, known]
      rfl
    rw [handle_fileOpen disk s found]
    dsimp only
    rw [opened]
    refine ⟨rfl, (disk path).toNat_len, ?_, ?_, Nat.zero_le _, ?_, fun _ => ⟨rfl, rfl, rfl⟩⟩
    · show reset.fileDl.sent.toNat = 0
      rw [cleared]
      rfl
    · show reset.fileDl.err = false
      rw [cleared]
    · intro _
      show reset.fileDl.eof = false
      rw [cleared]

theorem Stands.sent_add {file : LfsFile} {k n : ℕ} (stands : s.Stands file k) (inside : k + n ≤ file.bytes.length) :
    (s.store.fileDl.sent + UInt32.ofNat n).toNat = k + n := by
  have fits := file.fits
  rw [UInt32.toNat_add, UInt32.toNat_ofNat', stands.sent]
  omega

/-- A chunk that is not the last one does not end the download. -/
theorem Stands.unfinished {file : LfsFile} {k n : ℕ} (stands : s.Stands file k) (more : k + n < file.bytes.length) :
    (s.store.fileDl.eof || decide (s.store.fileDl.sent + UInt32.ofNat n ≥ s.store.fileDl.size)) = false := by
  rw [stands.eof (by omega), Bool.false_or, decide_eq_false_iff_not, ge_iff_le, UInt32.le_iff_toNat_le,
    stands.sent_add (by omega), stands.size]
  omega

/-- While there is something left, a chunk is the next part of the file. -/
theorem Stands.chunk {file : LfsFile} {k : ℕ} (stands : s.Stands file k) (more : k < file.bytes.length) :
    (s.handle disk .fileChunk).Stands file (k + ((file.bytes.drop k).take 2048).length) ∧
      (s.handle disk .fileChunk).store.dlSeen.chunk = (file.bytes.drop k).take 2048 := by
  obtain ⟨held, same, pos⟩ := stands.held more
  generalize readIs : (file.bytes.drop k).take 2048 = read
  have some : read ≠ [] := by
    rw [← readIs, Ne, List.take_eq_nil_iff, List.drop_eq_nil_iff]
    omega
  have small : read.length ≤ 2048 ∧ k + read.length ≤ file.bytes.length := by
    rw [← readIs, List.length_take, List.length_drop]
    omega
  have short : s.store.fileDl.sent < s.store.fileDl.size := by
    rw [UInt32.lt_iff_toNat_lt, stands.sent, stands.size]
    exact more
  have after : s.handle disk .fileChunk =
      ⟨s.store.handleCmd (s.file.readAnswer s.pos true Store.allWell) .fileChunk, file, k + read.length⟩ := by
    have reads : s.reads = true := by simp [DlStore.reads, stands.isOpen, held, short]
    simp only [handle_fileChunk, reads, if_true, same, pos, readIs]
  have answer : (s.file.readAnswer s.pos true Store.allWell).read.take 2048 = read := by
    rw [same, pos, ← readIs]
    exact List.take_take.trans (by rw [Nat.min_self])
  obtain ⟨dl, file'⟩ := s.store.fileChunk_filled _ stands.isOpen short held (answer.symm ▸ some)
  rw [answer] at dl file'
  rw [after]
  generalize s.file.readAnswer s.pos true Store.allWell = env at dl file'
  have bumped : (s.store.handleCmd env .fileChunk).fileDl = (s.store.fileChunk env).fileDl := rfl
  have bumped' : (s.store.handleCmd env .fileChunk).downloadFile = (s.store.fileChunk env).downloadFile := rfl
  constructor
  · refine ⟨?_, ?_, ?_, ?_, small.2, ?_, ?_⟩
    · rw [bumped, dl]
      exact stands.isOpen
    · rw [bumped, dl]
      exact stands.size
    · rw [bumped, dl]
      exact stands.sent_add small.2
    · rw [bumped, dl]
      exact stands.err
    · intro more
      rw [bumped, dl]
      exact stands.unfinished more
    · intro more
      rw [bumped', file' (stands.unfinished more)]
      exact ⟨held, rfl, rfl⟩
  · show (s.store.handleCmd env .fileChunk).fileDl.chunk.toList.take _ = read
    rw [bumped, dl]
    exact take_overwrite _ small.1

/-- The command waits in the queue, or was dropped, and no other has moved the counter since. -/
def Waits (s : DlStore) (own : List StorageCmd) (seq : UInt32) (cmd : StorageCmd) : Prop :=
  s.store.rpcSeq = seq ∧ (own = [] ∨ own = [cmd])

/-- The next chunk has been read, `k` bytes into the file. -/
def Arrived (s : DlStore) (file : LfsFile) (k : ℕ) : Prop :=
  s.Stands file (k + ((file.bytes.drop k).take 2048).length) ∧
    s.store.dlSeen.chunk = (file.bytes.drop k).take 2048

theorem Waits.sent {cmd : StorageCmd} {own : List StorageCmd} (once : own = [] ∨ own = [cmd]) :
    s.Waits own s.store.rpcSeq cmd := ⟨rfl, once⟩

theorem Waits.not_lt {own : List StorageCmd} {seq : UInt32} {cmd : StorageCmd} (waits : s.Waits own seq cmd) :
    ¬seq < s.store.rpcSeq := by
  rw [waits.1]
  exact UInt32.lt_irrefl _

end DlStore

/-! ## A task that is not disturbed -/

namespace DlConn

/-- What a task has written of its file, and where the storage task is for it; `own` are its commands
in the queue. -/
def Sound (conn : DlConn) (file : LfsFile) (s : DlStore) (own : List StorageCmd) : Prop :=
  let k := conn.body.length
  match conn.phase with
  | .idle | .refused => conn.body = []
  | .ended reached => conn.body <+: file.bytes ∧ (reached = true → conn.body = file.bytes)
  | .opening seq =>
    conn.body = [] ∧ historyWebNameValid conn.name = true ∧
      (s.Waits own seq (.fileOpen (nameBuf conn.name)) ∨
        own = [] ∧ (s.store.fileDl.size = 0 ∨ s.Stands file 0))
  | .header size => conn.body = [] ∧ size.toNat = file.bytes.length ∧ size ≠ 0 ∧ own = [] ∧ s.Stands file 0
  | .asking size seq =>
    conn.body <+: file.bytes ∧ size.toNat = file.bytes.length ∧ k < file.bytes.length ∧
      (s.Waits own seq .fileChunk ∧ s.Stands file k ∨ own = [] ∧ s.Arrived file k)
  | .writing size seen =>
    conn.body ++ seen.chunk <+: file.bytes ∧ size.toNat = file.bytes.length ∧ seen.chunk ≠ [] ∧
      seen.sent.toNat = k + seen.chunk.length ∧
      (k + seen.chunk.length < file.bytes.length → own = [] ∧ s.Stands file (k + seen.chunk.length))

variable {conn conn' : DlConn} {file : LfsFile} {s : DlStore} {own own' : List StorageCmd}
  {cmd : Option StorageCmd}

theorem Sound.isolated (sound : conn.Sound file s own) :
    conn.body <+: file.bytes ∧ (conn.phase = .ended true → conn.body = file.bytes) := by
  unfold Sound at sound
  cases stands : conn.phase with
  | idle | refused =>
    rw [stands] at sound
    refine ⟨?_, nofun⟩
    rw [sound]
    exact List.nil_prefix
  | opening seq | header size =>
    rw [stands] at sound
    refine ⟨?_, nofun⟩
    rw [sound.1]
    exact List.nil_prefix
  | asking size seq =>
    rw [stands] at sound
    exact ⟨sound.1, nofun⟩
  | writing size seen =>
    rw [stands] at sound
    exact ⟨(List.prefix_append ..).trans sound.1, nofun⟩
  | ended reached =>
    rw [stands] at sound
    refine ⟨sound.1, fun all => sound.2 ?_⟩
    exact DlPhase.ended.inj all

/-- A task that is done with the storage task does not mind what it does. -/
theorem Sound.of_not_engaged (sound : conn.Sound file s own) (apart : conn.phase.engaged = false)
    (s' : DlStore) (own' : List StorageCmd) : conn.Sound file s' own' := by
  unfold Sound at sound ⊢
  cases stands : conn.phase with
  | opening seq | header size | asking size seq =>
    rw [stands] at apart
    cases apart
  | idle | refused | ended reached =>
    rw [stands] at sound
    exact sound
  | writing size seen =>
    rw [stands] at sound apart
    obtain ⟨part, sizeIs, some, sent, -⟩ := sound
    refine ⟨part, sizeIs, some, sent, fun more => ?_⟩
    have ends : seen.ends size = true := by simpa [DlPhase.engaged] using apart
    have last : seen.sent ≥ size := by
      simpa [DlSeen.ends, List.isEmpty_iff, some] using ends
    rw [ge_iff_le, UInt32.le_iff_toNat_le, sizeIs, sent] at last
    omega

/-- The storage task handles a command of the task. -/
theorem Sound.served {disk : Disk} {cmd : StorageCmd} (sound : conn.Sound (disk conn.name) s (cmd :: own))
    (short : conn.name.length ≤ 23) (engaged : conn.phase.engaged = true) :
    conn.Sound (disk conn.name) (s.handle disk cmd) own := by
  have only {c : StorageCmd} {seq : UInt32} (waits : s.Waits (cmd :: own) seq c) : cmd = c ∧ own = [] := by
    rcases waits.2 with none | one
    · cases none
    · exact List.cons.inj one
  unfold Sound at sound ⊢
  cases stands : conn.phase with
  | idle | refused | ended reached =>
    rw [stands] at engaged
    cases engaged
  | opening seq =>
    rw [stands] at sound
    obtain ⟨empty, valid, waits | ⟨none, -⟩⟩ := sound
    · obtain ⟨rfl, rfl⟩ := only waits
      exact ⟨empty, valid, .inr ⟨rfl, DlStore.opens (pathOf_nameBuf valid short)⟩⟩
    · cases none
  | header size =>
    rw [stands] at sound
    cases sound.2.2.2.1
  | asking size seq =>
    rw [stands] at sound
    obtain ⟨part, sizeIs, more, ⟨waits, place⟩ | ⟨none, -⟩⟩ := sound
    · obtain ⟨rfl, rfl⟩ := only waits
      exact ⟨part, sizeIs, more, .inr ⟨rfl, place.chunk more⟩⟩
    · cases none
  | writing size seen =>
    rw [stands] at sound engaged
    obtain ⟨part, sizeIs, some, sent, free⟩ := sound
    by_cases more : conn.body.length + seen.chunk.length < (disk conn.name).bytes.length
    · cases (free more).1
    · exact ⟨part, sizeIs, some, sent, fun more' => absurd more' more⟩

theorem Sound.ask {size : UInt32} (part : conn.body <+: file.bytes) (sizeIs : size.toNat = file.bytes.length)
    (more : conn.body.length < file.bytes.length) (place : s.Stands file conn.body.length)
    (once : own = [] ∨ own = [.fileChunk]) : (conn.ask s.store size).1.Sound file s own :=
  ⟨part, sizeIs, more, .inl ⟨.sent once, place⟩⟩

/-- The end of the loop, behind a chunk that was written. -/
theorem Sound.goOn {size : UInt32} {seen : DlSeen} (part : conn.body <+: file.bytes)
    (sizeIs : size.toNat = file.bytes.length) (some : seen.chunk ≠ []) (sent : seen.sent.toNat = conn.body.length)
    (free : conn.body.length < file.bytes.length → own = [] ∧ s.Stands file conn.body.length)
    (sends : own' = own ∨ own' = own ++ (conn.goOn s.store size seen).2.toList) :
    (conn.goOn s.store size seen).1.Sound file s own' := by
  have last : seen.ends size = decide (file.bytes.length ≤ conn.body.length) := by
    rw [DlSeen.ends, List.isEmpty_eq_false_iff.2 some, Bool.and_false, Bool.false_or, ← sent, ← sizeIs]
    exact decide_eq_decide.2 UInt32.le_iff_toNat_le
  unfold DlConn.goOn at sends ⊢
  by_cases all : file.bytes.length ≤ conn.body.length
  · rw [last, decide_eq_true all, if_pos rfl]
    exact ⟨part, fun _ => part.eq_of_length_le all⟩
  · obtain ⟨rfl, place⟩ := free (not_le.1 all)
    rw [last, decide_eq_false all] at sends ⊢
    exact .ask part sizeIs (not_le.1 all) place sends

/-- A request begins; nothing of it is in the queue yet. -/
theorem Sound.begin {query : Option (List UInt8)} (begun : conn.begin s.store query = (conn', cmd))
    (sends : own = [] ∨ own = cmd.toList) : conn'.Sound file s own := by
  obtain rfl : _ = conn' := congrArg Prod.fst begun
  obtain rfl : _ = cmd := congrArg Prod.snd begun
  unfold DlConn.begin at sends ⊢
  generalize query.bind (urlQueryGet · "name") = found at sends ⊢
  cases found with
  | none => rfl
  | some name =>
    dsimp only at sends ⊢
    by_cases valid : historyWebNameValid name = true
    · rw [if_pos valid] at sends ⊢
      exact ⟨rfl, valid, .inl (.sent sends)⟩
    · rw [if_neg valid]
      rfl

theorem Sound.opened (empty : conn.body = []) (free : own = [])
    (start : s.store.fileDl.size = 0 ∨ s.Stands file 0) : (conn.opened s.store).Sound file s own := by
  unfold DlConn.opened
  by_cases none : s.store.fileDl.size = 0
  · rw [if_pos none]
    exact empty
  · rw [if_neg none]
    have place := start.resolve_left none
    exact ⟨empty, place.size, none, free, place⟩

theorem Sound.arrived {size : UInt32} (part : conn.body <+: file.bytes) (sizeIs : size.toNat = file.bytes.length)
    (more : conn.body.length < file.bytes.length) (chunk : s.Arrived file conn.body.length) :
    conn.arrived s.store size = ({ conn with phase := .writing size s.store.dlSeen }, none) ∧
      ({ conn with phase := .writing size s.store.dlSeen } : DlConn).Sound file s [] := by
  obtain ⟨place, bytes⟩ := chunk
  rw [← bytes] at place
  have some : s.store.dlSeen.chunk ≠ [] := by
    rw [bytes, Ne, List.take_eq_nil_iff, List.drop_eq_nil_iff]
    omega
  have fine : s.store.dlSeen.err = false := place.err
  have next : conn.body ++ s.store.dlSeen.chunk <+: file.bytes := by
    obtain ⟨rest, whole⟩ := part
    rw [bytes, ← whole, List.drop_left]
    exact (List.prefix_append_right_inj _).2 (List.take_prefix ..)
  constructor
  · rw [DlConn.arrived, fine, List.isEmpty_eq_false_iff.2 some]
    rfl
  · exact ⟨next, sizeIs, some, place.sent, fun _ => ⟨rfl, place⟩⟩

section Resume

variable {event : DlEvent}

theorem Sound.resume_opening {seq : UInt32} (stands : conn.phase = .opening seq) (sound : conn.Sound file s own)
    (inside : ∀ query, event ≠ .request query) (ran : conn.resume s.store event = some (conn', cmd))
    (quiet : cmd = none → own' = own) : conn'.Sound file s own' := by
  unfold Sound at sound
  unfold DlConn.resume at ran
  rw [stands] at ran sound
  obtain ⟨empty, valid, place⟩ := sound
  cases event with
  | request query => exact absurd rfl (inside query)
  | written | broken taken => cases ran
  | moved =>
    obtain ⟨moved, result⟩ := Option.ite_none_right_eq_some.1 ran
    cases result
    rcases place with waits | ⟨free, start⟩
    · exact absurd moved waits.not_lt
    · rw [quiet rfl]
      exact .opened empty free start
  | timeout =>
    obtain ⟨-, result⟩ := Option.ite_none_right_eq_some.1 ran
    cases result
    exact empty

theorem Sound.resume_header {size : UInt32} (stands : conn.phase = .header size) (sound : conn.Sound file s own)
    (inside : ∀ query, event ≠ .request query) (ran : conn.resume s.store event = some (conn', cmd))
    (sends : own' = own ∨ own' = own ++ cmd.toList) : conn'.Sound file s own' := by
  unfold Sound at sound
  unfold DlConn.resume at ran
  rw [stands] at ran sound
  obtain ⟨empty, sizeIs, some, rfl, place⟩ := sound
  have more : conn.body.length < file.bytes.length := by
    rw [empty, ← sizeIs, List.length_nil, Nat.pos_iff_ne_zero, Ne, ← UInt32.toNat_zero, UInt32.toNat_inj]
    exact some
  have part : conn.body <+: file.bytes := by
    rw [empty]
    exact List.nil_prefix
  rw [show (0 : ℕ) = conn.body.length by rw [empty]; rfl] at place
  cases event with
  | request query => exact absurd rfl (inside query)
  | moved | timeout => cases ran
  | written | broken taken =>
    obtain rfl : _ = conn' := congrArg Prod.fst (Option.some.inj ran)
    obtain rfl : _ = cmd := congrArg Prod.snd (Option.some.inj ran)
    exact .ask part sizeIs more place sends

theorem Sound.resume_asking {size seq : UInt32} (stands : conn.phase = .asking size seq)
    (sound : conn.Sound file s own) (inside : ∀ query, event ≠ .request query)
    (ran : conn.resume s.store event = some (conn', cmd)) (quiet : cmd = none → own' = own) :
    conn'.Sound file s own' := by
  unfold Sound at sound
  unfold DlConn.resume at ran
  rw [stands] at ran sound
  obtain ⟨part, sizeIs, more, place⟩ := sound
  cases event with
  | request query => exact absurd rfl (inside query)
  | written | broken taken => cases ran
  | moved =>
    obtain ⟨moved, result⟩ := Option.ite_none_right_eq_some.1 ran
    rcases place with ⟨waits, -⟩ | ⟨rfl, chunk⟩
    · exact absurd moved waits.not_lt
    · obtain ⟨copies, next⟩ := Sound.arrived part sizeIs more chunk
      rw [copies] at result
      cases result
      rw [quiet rfl]
      exact next
  | timeout =>
    obtain ⟨-, result⟩ := Option.ite_none_right_eq_some.1 ran
    cases result
    exact ⟨part, nofun⟩

theorem Sound.resume_writing {size : UInt32} {seen : DlSeen} (stands : conn.phase = .writing size seen)
    (sound : conn.Sound file s own) (inside : ∀ query, event ≠ .request query)
    (ran : conn.resume s.store event = some (conn', cmd)) (sends : own' = own ∨ own' = own ++ cmd.toList) :
    conn'.Sound file s own' := by
  unfold Sound at sound
  unfold DlConn.resume at ran
  rw [stands] at ran sound
  obtain ⟨part, sizeIs, some, sent, free⟩ := sound
  cases event with
  | request query => exact absurd rfl (inside query)
  | moved | timeout => cases ran
  | written =>
    obtain rfl : _ = conn' := congrArg Prod.fst (Option.some.inj ran)
    obtain rfl : _ = cmd := congrArg Prod.snd (Option.some.inj ran)
    rw [← List.length_append] at sent free
    exact .goOn part sizeIs some sent free sends
  | broken taken =>
    cases ran
    refine ⟨?_, nofun⟩
    refine List.IsPrefix.trans ?_ part
    exact (List.prefix_append_right_inj _).2 (List.take_prefix ..)

theorem Sound.resume (sound : conn.Sound file s own) (inside : ∀ query, event ≠ .request query)
    (ran : conn.resume s.store event = some (conn', cmd)) (sends : own' = own ∨ own' = own ++ cmd.toList) :
    conn'.Sound file s own' := by
  have quiet (none : cmd = none) : own' = own := by
    subst none
    simpa using sends
  cases stands : conn.phase with
  | idle | refused | ended reached =>
    -- no task waits, so only a request would go on
    unfold DlConn.resume at ran
    rw [stands] at ran
    cases event with
    | request query => exact absurd rfl (inside query)
    | moved | timeout | written | broken taken => cases ran
  | opening seq => exact sound.resume_opening stands inside ran quiet
  | header size => exact sound.resume_header stands inside ran sends
  | asking size seq => exact sound.resume_asking stands inside ran quiet
  | writing size seen => exact sound.resume_writing stands inside ran sends

end Resume

/-- The request that a connection is at. -/
def tag (conn : DlConn) : List UInt8 × ℕ := (conn.name, conn.serial)

theorem tag_opened (st : Store) : (conn.opened st).tag = conn.tag := by
  unfold DlConn.opened
  split <;> rfl

theorem tag_goOn (st : Store) (size : UInt32) (seen : DlSeen) : (conn.goOn st size seen).1.tag = conn.tag := by
  unfold DlConn.goOn
  split <;> rfl

theorem tag_arrived (st : Store) (size : UInt32) : (conn.arrived st size).1.tag = conn.tag := by
  unfold DlConn.arrived
  split
  · rfl
  split
  · exact tag_goOn ..
  · rfl

theorem resume_tag {event : DlEvent} {st : Store} (inside : ∀ query, event ≠ .request query)
    (ran : conn.resume st event = some (conn', cmd)) : conn'.tag = conn.tag := by
  have of_eq {r : DlConn × Option StorageCmd} (same : r.1.tag = conn.tag) (ends : some r = some (conn', cmd)) :
      conn'.tag = conn.tag := by
    obtain rfl := Option.some.inj ends
    exact same
  unfold DlConn.resume at ran
  split at ran
  case h_1 | h_2 | h_3 => exact absurd rfl (inside _)
  case h_4 =>
    obtain ⟨-, ends⟩ := Option.ite_none_right_eq_some.1 ran
    exact of_eq (tag_opened st) ends
  case h_5 =>
    obtain ⟨-, ends⟩ := Option.ite_none_right_eq_some.1 ran
    exact of_eq (tag_arrived ..) ends
  case h_6 | h_7 =>
    obtain ⟨-, ends⟩ := Option.ite_none_right_eq_some.1 ran
    exact of_eq rfl ends
  case h_8 | h_9 | h_11 => exact of_eq rfl ran
  case h_10 =>
    refine of_eq ?_ ran
    exact tag_goOn ..
  case h_12 => cases ran

theorem resume_request {st : Store} {query : Option (List UInt8)}
    (ran : conn.resume st (.request query) = some (conn', cmd)) : conn.begin st query = (conn', cmd) := by
  unfold DlConn.resume at ran
  cases stands : conn.phase with
  | idle | refused | ended reached =>
    rw [stands] at ran
    exact Option.some.inj ran
  | opening seq | header size | asking size seq | writing size seen =>
    rw [stands] at ran
    cases ran

theorem begin_serial (conn : DlConn) (st : Store) (query : Option (List UInt8)) :
    (conn.begin st query).1.serial = conn.serial + 1 := by
  unfold DlConn.begin
  split
  · rfl
  · split <;> rfl

theorem serial_le {event : DlEvent} {st : Store} (ran : conn.resume st event = some (conn', cmd)) :
    conn.serial ≤ conn'.serial := by
  by_cases begins : ∃ query, event = .request query
  · obtain ⟨query, rfl⟩ := begins
    rw [show conn'.serial = conn.serial + 1 by rw [← begin_serial conn st query, resume_request ran]]
    exact Nat.le_succ _
  · exact (congrArg Prod.snd (resume_tag (fun query eq => begins ⟨query, eq⟩) ran)).ge

end DlConn

/-! ## The tasks take turns -/

namespace DlHub

/-- The commands of a request in the queue. -/
def commands (task : Fin 2) (serial : ℕ) (queue : List DlJob) : List StorageCmd :=
  (queue.filter fun job => job.task = task && job.serial = serial).map DlJob.cmd

/-- The task's own commands in the queue. -/
def pending (h : DlHub) (task : Fin 2) : List StorageCmd := commands task (h.conns task).serial h.queue

theorem commands_append (task : Fin 2) (serial : ℕ) (a b : List DlJob) :
    commands task serial (a ++ b) = commands task serial a ++ commands task serial b := by
  rw [commands, List.filter_append, List.map_append]
  rfl

theorem commands_own (task : Fin 2) (serial : ℕ) (cmd : StorageCmd) :
    commands task serial [⟨task, serial, cmd⟩] = [cmd] := by
  simp [commands]

theorem commands_other {task other : Fin 2} (differs : other ≠ task) (serial : ℕ) (job : DlJob)
    (of_other : job.task = other) : commands task serial [job] = [] := by
  simp [commands, of_other, differs]

/-- Every command in the queue belongs to a request that has begun. -/
def Tidy (h : DlHub) : Prop := ∀ job ∈ h.queue, job.serial ≤ (h.conns job.task).serial

variable {disk : Disk} {h h' : DlHub} {task : Fin 2}

theorem step_resume {event : DlEvent} (ran : h.step disk (.resume task event) = some h') :
    ∃ conn cmd, (h.conns task).resume h.storage.store event = some (conn, cmd) ∧
      h'.storage = h.storage ∧ h'.conns = Function.update h.conns task conn ∧
      (h'.queue = h.queue ∨ ∃ c, cmd = some c ∧ h'.queue = h.queue ++ [⟨task, conn.serial, c⟩]) := by
  obtain ⟨⟨conn, cmd⟩, resumed, rest⟩ := Option.bind_eq_some_iff.1 ran
  cases rest
  refine ⟨conn, cmd, resumed, rfl, rfl, ?_⟩
  cases cmd with
  | none => exact .inl rfl
  | some c =>
    show trySend _ _ = _ ∨ _
    unfold trySend
    split
    · exact .inr ⟨c, rfl, rfl⟩
    · exact .inl rfl

theorem step_serve (ran : h.step disk .serve = some h') :
    ∃ job, h.queue = job :: h'.queue ∧ h'.storage = h.storage.handle disk job.cmd ∧ h'.conns = h.conns := by
  cases queue : h.queue with
  | nil =>
    rw [step, queue] at ran
    cases ran
  | cons job rest =>
    rw [step, queue] at ran
    obtain rfl := Option.some.inj ran
    exact ⟨job, rfl, rfl, rfl⟩

theorem Tidy.step {act : DlAct} (tidy : h.Tidy) (ran : h.step disk act = some h') : h'.Tidy := by
  intro job mem
  cases act with
  | serve =>
    obtain ⟨next, queue, -, conns⟩ := step_serve ran
    rw [conns]
    apply tidy job
    rw [queue]
    exact List.mem_cons_of_mem _ mem
  | resume task event =>
    obtain ⟨conn, cmd, resumed, -, conns, queue⟩ := step_resume ran
    have grows : ∀ t, (h.conns t).serial ≤ (h'.conns t).serial := by
      intro t
      rw [conns]
      by_cases same : t = task
      · subst same
        rw [Function.update_self]
        exact DlConn.serial_le resumed
      · rw [Function.update_of_ne same]
    rcases queue with same | ⟨c, -, more⟩
    · rw [same] at mem
      exact (tidy job mem).trans (grows _)
    · rw [more, List.mem_append, List.mem_singleton] at mem
      rcases mem with old | rfl
      · exact (tidy job old).trans (grows _)
      · rw [conns, Function.update_self]

/-- A request that has not begun has sent nothing. -/
theorem Tidy.commands_next (tidy : h.Tidy) (task : Fin 2) :
    commands task ((h.conns task).serial + 1) h.queue = [] := by
  rw [commands, List.map_eq_nil_iff, List.filter_eq_nil_iff]
  intro job mem
  simp only [Bool.and_eq_true, decide_eq_true_eq, not_and]
  rintro rfl
  have := tidy job mem
  omega

/-- The task is as it should be, if its file name fits. -/
def Fine (disk : Disk) (task : Fin 2) (h : DlHub) : Prop :=
  (h.conns task).name.length ≤ 23 →
    (h.conns task).Sound (disk (h.conns task).name) h.storage (h.pending task)

/-- The storage task executes the request at the head of the queue. -/
theorem Fine.serve (fine : h.Fine disk task)
    (alone : (h.conns task).phase.engaged = true → ∀ job ∈ h.queue.head?, h.owns task job = true)
    (ran : h.step disk .serve = some h') : h'.Fine disk task := by
  obtain ⟨job, queue, storage, conns⟩ := step_serve ran
  intro short
  rw [conns] at short ⊢
  rw [pending, conns, storage]
  have sound := fine short
  by_cases engaged : (h.conns task).phase.engaged = true
  · have own := alone engaged job (by rw [queue]; rfl)
    have head : h.pending task = job.cmd :: commands task (h.conns task).serial h'.queue := by
      rw [pending, queue]
      show ((job :: h'.queue).filter (h.owns task)).map DlJob.cmd = _
      rw [List.filter_cons_of_pos own]
      rfl
    rw [head] at sound
    exact sound.served short engaged
  · exact sound.of_not_engaged (by simpa using engaged) _ _

theorem Fine.resume_other {other : Fin 2} {event : DlEvent} (differs : other ≠ task) (fine : h.Fine disk task)
    (ran : h.step disk (.resume other event) = some h') : h'.Fine disk task := by
  obtain ⟨conn, cmd, -, storage, conns, queue⟩ := step_resume ran
  have unchanged : h'.conns task = h.conns task := by
    rw [conns, Function.update_of_ne (Ne.symm differs)]
  have nothing : h'.pending task = h.pending task := by
    rw [pending, pending, unchanged]
    rcases queue with kept | ⟨c, -, more⟩
    · rw [kept]
    · rw [more, commands_append, commands_other differs _ _ rfl, List.append_nil]
  intro short
  rw [unchanged] at short ⊢
  rw [nothing, storage]
  exact fine short

/-- The task itself goes on: with a new request, or within its request. -/
theorem Fine.resume_self {event : DlEvent} (tidy : h.Tidy) (fine : h.Fine disk task)
    (ran : h.step disk (.resume task event) = some h') : h'.Fine disk task := by
  obtain ⟨conn, cmd, resumed, storage, conns, queue⟩ := step_resume ran
  have now : h'.conns task = conn := by rw [conns, Function.update_self]
  have sends : h'.pending task = commands task conn.serial h.queue ∨
      h'.pending task = commands task conn.serial h.queue ++ cmd.toList := by
    rw [pending, now]
    rcases queue with kept | ⟨c, rfl, more⟩
    · left
      rw [kept]
    · right
      rw [more, commands_append, commands_own]
      rfl
  intro short
  rw [now] at short ⊢
  rw [storage]
  by_cases begins : ∃ query, event = .request query
  · obtain ⟨query, rfl⟩ := begins
    have begun := DlConn.resume_request resumed
    have serial : conn.serial = (h.conns task).serial + 1 := by
      rw [← DlConn.begin_serial _ h.storage.store query, begun]
    rw [serial, tidy.commands_next, List.nil_append] at sends
    exact .begin begun sends
  · have inside : ∀ query, event ≠ .request query := fun query eq => begins ⟨query, eq⟩
    have tag := DlConn.resume_tag inside resumed
    have name : conn.name = (h.conns task).name := congrArg Prod.fst tag
    have serial : conn.serial = (h.conns task).serial := congrArg Prod.snd tag
    rw [name] at short ⊢
    rw [serial] at sends
    exact (fine short).resume inside resumed sends

theorem Fine.step {act : DlAct} (tidy : h.Tidy) (fine : h.Fine disk task)
    (alone : act = .serve → (h.conns task).phase.engaged = true → ∀ job ∈ h.queue.head?, h.owns task job = true)
    (ran : h.step disk act = some h') : h'.Fine disk task := by
  cases act with
  | serve => exact fine.serve (alone rfl) ran
  | resume other event =>
    by_cases same : other = task
    · subst same
      exact fine.resume_self tidy ran
    · exact fine.resume_other same ran

theorem Tidy.init (start : DlStore) : (init start).Tidy := nofun

theorem Fine.init (start : DlStore) : (init start).Fine disk task := fun _ => rfl

/-! ## Downloads of one chunk -/

/-- A task that waits for the last chunk gets what the open handle has left, whatever file that is, and
ends there. -/
theorem last_chunk (disk : Disk) {conn : DlConn} {file : LfsFile} {size seq : UInt32} {k : ℕ} {job : DlJob}
    (queue : h.queue = [job]) (chunk : job.cmd = .fileChunk) (stands : h.conns task = conn)
    (asks : conn.phase = .asking size seq) (counter : h.storage.store.rpcSeq = seq) (moves : seq < seq + 1)
    (place : h.storage.Stands file k) (more : k < file.bytes.length) (last : file.bytes.length ≤ k + 2048)
    (sizeIs : size.toNat = file.bytes.length) :
    ∃ h', [DlAct.serve, .resume task .moved, .resume task .written].foldlM (step disk) h = some h' ∧
      h'.conns task = { conn with phase := .ended true, body := conn.body ++ file.bytes.drop k } := by
  obtain ⟨place', bytes⟩ : (h.storage.handle disk .fileChunk).Arrived file k := place.chunk more
  have rest : (file.bytes.drop k).take 2048 = file.bytes.drop k := by
    apply List.take_of_length_le
    rw [List.length_drop]
    omega
  rw [rest] at place' bytes
  have moved : seq < (h.storage.handle disk .fileChunk).store.rpcSeq := by
    show seq < (h.storage.store.handleCmd _ .fileChunk).rpcSeq
    rw [h.storage.store.rpcSeq_handleCmd, counter]
    exact moves
  generalize stored : h.storage.handle disk .fileChunk = s at place' bytes moved
  have some : s.store.dlSeen.chunk ≠ [] := by
    rw [bytes, Ne, List.drop_eq_nil_iff]
    omega
  have fine : s.store.dlSeen.err = false := place'.err
  have reached : s.store.dlSeen.sent ≥ size := by
    rw [ge_iff_le, UInt32.le_iff_toNat_le, sizeIs]
    show _ ≤ s.store.fileDl.sent.toNat
    rw [place'.sent, List.length_drop]
    omega
  have copies : conn.arrived s.store size = ({ conn with phase := .writing size s.store.dlSeen }, none) := by
    rw [DlConn.arrived, fine, List.isEmpty_eq_false_iff.2 some]
    rfl
  have first : h.step disk .serve = Option.some ⟨s, [], h.conns⟩ := by
    rw [step, queue, ← stored, ← chunk]
  let conns' := Function.update h.conns task { conn with phase := .writing size s.store.dlSeen }
  have second : step disk ⟨s, [], h.conns⟩ (.resume task .moved) = Option.some ⟨s, [], conns'⟩ := by
    simp only [step, stands, DlConn.resume, asks, moved, if_true, copies]
    rfl
  let conn' : DlConn := { conn with phase := .ended true, body := conn.body ++ s.store.dlSeen.chunk }
  have third : step disk ⟨s, [], conns'⟩ (.resume task .written) =
      Option.some ⟨s, [], Function.update conns' task conn'⟩ := by
    have ends : s.store.dlSeen.ends size = true := by simp [DlSeen.ends, reached]
    simp only [step, conns', Function.update_self, DlConn.resume, DlConn.goOn, ends, if_true, decide_eq_true reached]
    rfl
  refine ⟨⟨s, [], Function.update conns' task conn'⟩, ?_, ?_⟩
  · simp only [List.foldlM_cons, List.foldlM_nil, first, second, third, Option.bind_eq_bind, Option.bind_some]
    rfl
  · show Function.update conns' task conn' task = _
    rw [Function.update_self, ← bytes]

/-- The query of a request for `data_` and one more letter. -/
def queryFor (letter : UInt8) : Option (List UInt8) :=
  some [0x6E, 0x61, 0x6D, 0x65, 0x3D, 0x64, 0x61, 0x74, 0x61, 0x5F, letter]

/-- Every file holds the last letter of its name. -/
def letters : Disk := fun path => ⟨path.drop 5 |>.take 1, by rw [List.length_take]; omega⟩

/-- A storage task without files. -/
def idleStorage : DlStore := ⟨.new .documented ⟨fun _ => 0xFF, [], 0⟩ (.new 0) (none, 0), letters [], 0⟩

/-- The first task stands at its first chunk, and the open file holds this one letter. -/
def atFirstChunk (name : List UInt8) (letter : UInt8) (h : DlHub) : Bool :=
  let dl := h.storage.store.fileDl
  let seq := h.storage.store.rpcSeq
  h.queue.map DlJob.cmd = [.fileChunk] ∧ h.conns 0 = ⟨name, .asking 1 seq, [], 1⟩ ∧ seq < seq + 1 ∧
    h.storage.file.bytes = [letter] ∧ h.storage.pos = 0 ∧ h.storage.store.downloadFile.isSome = true ∧
    dl.isOpen = true ∧ dl.size = 1 ∧ dl.sent = 0 ∧ dl.err = false ∧ dl.eof = false

theorem sends_letter {acts : List DlAct} {name : List UInt8} {letter : UInt8}
    (ran : (after letters idleStorage acts).any (atFirstChunk name letter) = true) :
    ∃ h, after letters idleStorage (acts ++ [.serve, .resume 0 .moved, .resume 0 .written]) = some h ∧
      h.conns 0 = ⟨name, .ended true, [letter], 1⟩ := by
  obtain ⟨h, ran, reached⟩ := (Option.any_eq_true ..).1 ran
  simp only [atFirstChunk, decide_eq_true_eq] at reached
  obtain ⟨queue, conn, moves, bytes, pos, held, isOpen, size, sent, err, eof⟩ := reached
  obtain ⟨job, queue, chunk⟩ := List.map_eq_singleton_iff.1 queue
  have place : h.storage.Stands h.storage.file 0 :=
    ⟨isOpen, by rw [size, bytes]; rfl, by rw [sent]; rfl, err, Nat.zero_le _, fun _ => eof, fun _ => ⟨held, rfl, pos⟩⟩
  obtain ⟨h', finishes, conn'⟩ := last_chunk letters queue chunk conn rfl rfl moves place
    (by simp [bytes]) (by simp [bytes]) (by rw [bytes]; rfl)
  refine ⟨h', ?_, ?_⟩
  · rw [after, List.foldlM_append]
    exact (congrArg (· >>= _) ran).trans finishes
  · rw [conn', bytes]
    rfl

/-! ## Isolation -/

/-- In any interleaving, a download that has the storage task for itself, of a file whose name fits the
buffer, has written a beginning of its file, and all of it if its loop ended at the announced length. -/
theorem isolated_of_undisturbed (disk : Disk) (start : DlStore) (acts : List DlAct) (h : DlHub) (task : Fin 2)
    (ran : after disk start acts = some h) (alone : Undisturbed disk start task acts)
    (short : (h.conns task).name.length ≤ 23) :
    (h.conns task).body <+: (disk (h.conns task).name).bytes ∧
      ((h.conns task).phase = .ended true → (h.conns task).body = (disk (h.conns task).name).bytes) := by
  have inv : h.Tidy ∧ h.Fine disk task := by
    refine Run.reached (Q := fun _ h => h.Tidy ∧ h.Fine disk task) ⟨.init start, .init start⟩ ?_ alone ran
    intro before h act h' inv own ran
    exact ⟨inv.1.step ran, inv.2.step inv.1 own ran⟩
  exact (inv.2 short).isolated

/-- Another download has only come to its header when this one begins. -/
def beside : List DlAct :=
  [.resume 1 (.request (queryFor 0x62)), .serve, .resume 1 .moved, .resume 0 (.request (queryFor 0x61)), .serve,
    .resume 0 .moved, .resume 0 .written, .serve, .resume 0 .moved, .resume 0 .written]

theorem isolated_beside :
    ∃ h, after letters idleStorage beside = some h ∧ Undisturbed letters idleStorage 0 beside ∧
      (h.conns 0).phase = .ended true ∧ (h.conns 0).body = (letters (h.conns 0).name).bytes := by
  let own (h : DlHub) : Bool := !(h.conns 0).phase.engaged || h.queue.head?.all (h.owns 0)
  have owned {acts : List DlAct} (checked : (after letters idleStorage acts).all own = true) (h : DlHub)
      (ran : after letters idleStorage acts = some h) (engaged : (h.conns 0).phase.engaged = true) (job : DlJob)
      (mem : job ∈ h.queue.head?) : h.owns 0 job = true := by
    rw [ran, Option.all_some] at checked
    simp only [own, engaged, Bool.not_true, Bool.false_or] at checked
    rw [mem, Option.all_some] at checked
    exact checked
  have other : (after letters idleStorage (beside.take 1)).all own = true := by decide +kernel
  have opening : (after letters idleStorage (beside.take 4)).all own = true := by decide +kernel
  have asking : (after letters idleStorage (beside.take 7)).all own = true := by decide +kernel
  have alone : Undisturbed letters idleStorage 0 beside := by
    refine Run.each_cons.2 ⟨fun _ _ => nofun, Run.each_cons.2 ⟨fun h ran _ => owned other h ran, ?_⟩⟩
    refine Run.each_cons.2 ⟨fun _ _ => nofun, Run.each_cons.2 ⟨fun _ _ => nofun, ?_⟩⟩
    refine Run.each_cons.2 ⟨fun h ran _ => owned opening h ran, Run.each_cons.2 ⟨fun _ _ => nofun, ?_⟩⟩
    refine Run.each_cons.2 ⟨fun _ _ => nofun, Run.each_cons.2 ⟨fun h ran _ => owned asking h ran, ?_⟩⟩
    exact Run.each_cons.2 ⟨fun _ _ => nofun, Run.each_cons.2 ⟨fun _ _ => nofun, Run.each_nil⟩⟩
  have reached : (after letters idleStorage (beside.take 7)).any
      (atFirstChunk [0x64, 0x61, 0x74, 0x61, 0x5F, 0x61] 0x61) = true := by
    decide +kernel
  obtain ⟨h, ran, conn⟩ := sends_letter reached
  have ended : (h.conns 0).phase = .ended true := by rw [conn]
  have isolated := isolated_of_undisturbed letters idleStorage beside h 0 ran alone (by rw [conn]; decide)
  exact ⟨h, ran, alone, ended, isolated.2 ended⟩

/-- The open of a second download comes between the open of the first and its first chunk. -/
def overlap : List DlAct :=
  [.resume 0 (.request (queryFor 0x61)), .serve, .resume 0 .moved,
    .resume 1 (.request (queryFor 0x62)), .serve, .resume 0 .written]

/-- The first download then ends at the announced length, with the bytes of the second file. -/
theorem mixed_downloads :
    ∃ h, after letters idleStorage (overlap ++ [.serve, .resume 0 .moved, .resume 0 .written]) = some h ∧
      (h.conns 0).phase = .ended true ∧ ¬(h.conns 0).body <+: (letters (h.conns 0).name).bytes := by
  have reached : (after letters idleStorage overlap).any
      (atFirstChunk [0x64, 0x61, 0x74, 0x61, 0x5F, 0x61] 0x62) = true := by
    decide +kernel
  obtain ⟨h, ran, conn⟩ := sends_letter reached
  refine ⟨h, ran, ?_⟩
  rw [conn]
  decide +kernel

end DlHub

end IoEdgeHub
