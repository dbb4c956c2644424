import IoEdgeHub.Firmware.HistRetention
import IoEdgeHub.Firmware.Sampling
import IoEdgeHub.Firmware.StorageCells
import IoEdgeHub.Firmware.StorageTask

/-!
# From the inputs to the history files

The sampling tasks, `QUEUE` and the storage task as one system on the shared registers.  A record is made in
a turn of a sampling task, waits in the queue behind whatever else is sent there, and is appended to a file
when the storage task takes it.  It can be lost on the way: the queue is full, recording is off, or littlefs
refuses.  A write that littlefs refuses is taken to append nothing; a part of a record is not modelled.

`step_moves` says what one step moves from where to where.  So, whatever the other tasks and littlefs do, the
files hold records that were made, in the order in which they were made and none of them twice, and what is
read from a file are these records; and nothing is lost in a run in which nothing is refused (`run_records`).
-/

namespace IoEdgeHub

open Run

/-- The record in a command. -/
def StorageCmd.record : StorageCmd → Option HisData
  | .write d => some d
  | _ => none

/-- The task, the records made so far, and what `hist_write` appended to which open file. -/
structure Recorder where
  task : StorageTask
  sampled : List HisData
  logged : List (File × List UInt8)

namespace Recorder

/-- A turn of a sampling task or a change of the holding registers, another command, and what the storage task
does. -/
inductive Act where
  | sample (act : Sampling.Act)
  | send (p : Producer) (other : p.cmd.record = none)
  | mount (first second : Bool)
  | receive (lane : Lane) (env : LfsEnv)

/-- `send_history_data` -/
def sendHistoryData (t : StorageTask) (d : HisData) : StorageTask := t.produce (.other (.write d) rfl)

/-- The registers after a turn, and the records made in it. -/
def turn (r : Recorder) (act : Sampling.Act) : Sampling.State := Sampling.State.step ⟨r.task.store.regs, []⟩ act

/-- The first command in a lane. -/
def first (t : StorageTask) : Lane → Option StorageCmd
  | .queue => t.queue.head?
  | .ctrl => t.ctrl.head?

/-- What a command, once taken, appended to the history. -/
def appended (t t' : StorageTask) : Option StorageCmd → List (File × List UInt8)
  | some (.write _) => t'.store.written.drop t.store.written.length
  | _ => []

/-- One turn of a task. -/
def step (r : Recorder) : Act → Option Recorder
  | .sample act =>
    let s := r.turn act
    let task := { r.task with store := { r.task.store with regs := s.regs } }
    some { r with task := s.sent.foldl sendHistoryData task, sampled := r.sampled ++ s.sent }
  | .send p _ => some { r with task := r.task.produce p }
  | .mount first second => (r.task.step (.mount first second)).map ({ r with task := · })
  | .receive lane env =>
    (r.task.receive env lane).map fun task =>
      { r with task, logged := r.logged ++ appended r.task task (first r.task lane) }

/-- Nothing has been recorded. -/
def start (store : Store) : Recorder := ⟨.start store, [], []⟩

/-- The records in the queue. -/
def pending (r : Recorder) : List HisData := r.task.queue.filterMap StorageCmd.record

/-- The bytes appended to a file. -/
def contents (r : Recorder) (f : File) : List UInt8 := (r.logged.filter (·.1 = f)).flatMap Prod.snd

/-- A record that is taken is written. A new file that can be created is enough for that, since everything else is
tried before. -/
def Writes (t : StorageTask) (env : LfsEnv) : Prop :=
  t.mode = .mounted ∧ t.store.recording env ∧ env.hist.fresh.opened ∧ env.hist.fresh.written

/-- A step that loses no record. -/
def Keeps (r : Recorder) : Act → Prop
  | .sample act => (r.turn act).sent ≠ [] → r.task.queue.length < queueCap
  | .receive lane env => ((first r.task lane).bind StorageCmd.record).isSome → Writes r.task env
  | _ => True

end Recorder

/-! ## One record -/

namespace Store

theorem openAppend_written (s : Store) (env : AppendEnv) (record : List UInt8) (create : Bool) :
    (s.openAppend env record create).1.written =
      s.written ++ if (s.openAppend env record create).2 then [(s.ledger.next, record)] else [] := by
  rw [openAppend_eq]
  rcases env.opens s.paths s.hist create with _ | _ <;> rcases env.written with _ | _ <;> simp [openWith]

theorem written_cleanupOldFiles (s : Store) (root : List DirEntry) :
    (s.cleanupOldFiles root).written = s.written := rfl

theorem path_makeHistName (st : HistState) (paths : LfsPaths) (now : UInt32) :
    (st.set (makeHistName now)).path paths = some (makeHistName now) := by
  have length := length_makeHistName now
  refine st.path_set paths (plain_makeHistName now) (List.ne_nil_of_length_pos ?_) ?_
  · rw [length]
    decide
  · rw [length]
    decide

/-- The rest of `hist_create`, once the name is set. -/
theorem created_written {s : Store} {env : HistEnv} (opens : env.fresh.opens s.paths s.hist true = env.fresh.opened)
    (record : List UInt8) :
    (if (s.openAppend env.fresh record true).2 then (s.openAppend env.fresh record true).1.cleanupOldFiles env.root
      else (s.openAppend env.fresh record true).1).written =
      s.written ++ if env.fresh.opened && env.fresh.written then [(s.ledger.next, record)] else [] := by
  rw [← opens, ← openAppend_done, ← openAppend_written]
  split
  · rw [written_cleanupOldFiles]
  · rfl

theorem histCreate_written (s : Store) (env : HistEnv) (record : List UInt8) :
    (s.histCreate env record).written =
      s.written ++ if env.fresh.opened && env.fresh.written then [(s.ledger.next, record)] else [] := by
  have opens : env.fresh.opens s.paths (s.hist.set (makeHistName env.now)) true = env.fresh.opened := by
    rw [AppendEnv.opens, path_makeHistName, Option.isSome_some, Bool.true_or, Bool.true_and, Bool.true_and]
  exact created_written (s := { s with hist := s.hist.set (makeHistName env.now) }) opens record

theorem histReopen_written (s : Store) (env : HistEnv) (record : List UInt8) :
    ∃ f : Option File, (s.histReopen env record).written = s.written ++ f.toList.map (·, record) ∧
      (env.fresh.opened → env.fresh.written → f.isSome) := by
  unfold histReopen
  dsimp only
  generalize resume env s.hist = st
  by_cases named : st.nameLen > 0
  · rw [if_pos named]
    have appended := openAppend_written { s with hist := st } env.retained record false
    generalize openAppend { s with hist := st } env.retained record false = r at appended ⊢
    obtain ⟨t, _ | _⟩ := r
    · rw [if_neg Bool.false_ne_true, List.append_nil] at appended
      rw [if_neg Bool.false_ne_true, histCreate_written, appended]
      refine ⟨if env.fresh.opened && env.fresh.written then some t.ledger.next else none, ?_, ?_⟩
      · split <;> rfl
      · intro opened written
        rw [opened, written]
        rfl
    · exact ⟨some s.ledger.next, appended, fun _ _ => rfl⟩
  · rw [if_neg named, if_neg Bool.false_ne_true, histCreate_written]
    refine ⟨if env.fresh.opened && env.fresh.written then some s.ledger.next else none, ?_, ?_⟩
    · split <;> rfl
    · intro opened written
      rw [opened, written]
      rfl

theorem histWrite_written (s : Store) (env : HistEnv) (d : HisData) :
    ∃ f : Option File, (s.histWrite env d).written = s.written ++ f.toList.map (·, d.stored) ∧
      (env.fresh.opened → env.fresh.written → f.isSome) := by
  unfold histWrite
  dsimp only
  by_cases stays : s.staysOpen env
  · refine ⟨s.openFile, by rw [if_pos stays]; rfl, fun _ _ => ?_⟩
    rw [staysOpen, Bool.and_eq_true, Bool.and_eq_true] at stays
    exact stays.1.1
  · have closed : ({ s with openFile := none }.closeHeld s.openFile env.closed).written = s.written := by
      cases s.openFile <;> rfl
    obtain ⟨f, written, sure⟩ :=
      histReopen_written ({ s with openFile := none }.closeHeld s.openFile env.closed) env d.stored
    rw [closed] at written
    exact ⟨f, by rw [if_neg stays]; exact written, sure⟩

theorem handleCmd_written (s : Store) (env : LfsEnv) (d : HisData) :
    ∃ f : Option File, (s.handleCmd env (.write d)).written = s.written ++ f.toList.map (·, d.stored) ∧
      (s.recording env → env.hist.fresh.opened → env.hist.fresh.written → f.isSome) := by
  by_cases on : s.recording env
  · have ran : s.handleCmd env (.write d) = s.histWrite env.hist d := if_pos on
    obtain ⟨f, written, sure⟩ := s.histWrite_written env.hist d
    exact ⟨f, by rw [ran, written], fun _ => sure⟩
  · have ran : s.handleCmd env (.write d) = s := if_neg on
    exact ⟨none, by rw [ran]; simp, fun on' => absurd on' on⟩

end Store

/-! ## One step -/

namespace Recorder

variable {r r' : Recorder}

theorem record_cases (cmd : StorageCmd) :
    (∃ d, cmd = .write d) ∨ cmd.record = none ∧ ∀ t t', appended t t' (some cmd) = [] := by
  cases cmd with
  | write d => exact .inl ⟨d, rfl⟩
  | _ => exact .inr ⟨rfl, fun _ _ => rfl⟩

/-- The records among the commands of a lane. -/
def records (cmds : List StorageCmd) : List HisData := cmds.filterMap StorageCmd.record

/-- What a command does to the history files: the records written, each with its file. -/
def entries (done : List (File × HisData)) : List (File × List UInt8) := done.map fun k => (k.1, k.2.stored)

theorem records_trySend (cap : ℕ) (q : List StorageCmd) (cmd : StorageCmd) :
    records (trySend cap q cmd) = records q ++ if q.length < cap then cmd.record.toList else [] := by
  rw [trySend, records, records]
  split
  · rw [List.filterMap_append]
    cases taken : cmd.record <;> simp [taken]
  · rw [List.append_nil]

/-- A command taken from the queue; a record in it may get into a file. -/
theorem receive_queue {t t' : StorageTask} {env : LfsEnv} (ran : t.receive env .queue = some t') :
    ∃ cmd, t.queue = cmd :: t'.queue ∧ t'.ctrl = t.ctrl ∧
      ∀ d, cmd = .write d → ∃ f : Option File, t'.store.written = t.store.written ++ f.toList.map (·, d.stored) ∧
        (Writes t env → f.isSome) := by
  simp only [StorageTask.receive] at ran
  split at ran
  · rename_i cmd rest mode queue
    cases ran
    refine ⟨cmd, queue, rfl, ?_⟩
    rintro d rfl
    obtain ⟨f, written, sure⟩ := t.store.handleCmd_written env d
    exact ⟨f, written, fun writes => sure writes.2.1 writes.2.2.1 writes.2.2.2⟩
  · rename_i cmd rest mode queue
    cases ran
    refine ⟨cmd, queue, rfl, ?_⟩
    rintro d rfl
    refine ⟨none, (List.append_nil _).symm, fun writes => ?_⟩
    have main := writes.1
    rw [mode] at main
    cases main
  · cases ran

theorem receive_ctrl {t t' : StorageTask} {env : LfsEnv} (ran : t.receive env .ctrl = some t') :
    ∃ cmd, t.ctrl = cmd :: t'.ctrl ∧ t'.queue = t.queue := by
  simp only [StorageTask.receive] at ran
  split at ran
  · rename_i cmd rest mode lane
    cases ran
    exact ⟨cmd, lane, rfl⟩
  · cases ran

/-- No record is in the control lane, and the queue is within its bound. -/
structure Tidy (t : StorageTask) : Prop where
  plain : ∀ cmd ∈ t.ctrl, cmd.record = none
  bounded : t.queue.length ≤ queueCap

/-- The records made and queued in a step, and those taken and written. -/
structure Moves (r r' : Recorder) (made queued taken : List HisData) (done : List (File × HisData)) : Prop where
  sampled : r'.sampled = r.sampled ++ made
  built : ∀ d ∈ made, HisData.Built d
  queue : r.pending ++ queued = taken ++ r'.pending
  logged : r'.logged = r.logged ++ entries done
  sent : queued.Sublist made
  written : (done.map Prod.snd).Sublist taken

theorem moves_nothing (sampled : r'.sampled = r.sampled) (queue : r.pending = r'.pending)
    (logged : r'.logged = r.logged) :
    Moves r r' [] [] [] [] where
  sampled := by rw [sampled, List.append_nil]
  built := nofun
  queue := by rw [queue, List.append_nil, List.nil_append]
  logged := by rw [logged, entries, List.map_nil, List.append_nil]
  sent := .slnil
  written := .slnil

theorem turn_sent (r : Recorder) (act : Sampling.Act) :
    ∃ d : Option HisData, (r.turn act).sent = d.toList ∧ ∀ x ∈ d, HisData.Built x := by
  cases act with
  | di now pins =>
    refine ⟨_, List.nil_append _, ?_⟩
    intro x made
    rw [Sampling.diTurn] at made
    dsimp only at made
    split at made <;> cases made
    exact .di ..
  | ai now raw =>
    refine ⟨_, List.nil_append _, ?_⟩
    intro x made
    rw [Sampling.aiTurn] at made
    dsimp only at made
    split at made <;> cases made
    exact .ai ..
  | others holding => exact ⟨none, rfl, fun x made => absurd made (Option.not_mem_none x)⟩

theorem sample_moves (act : Sampling.Act) (ran : r.step (.sample act) = some r') :
    ∃ made queued, Moves r r' made queued [] [] ∧ (r.Keeps (.sample act) → queued = made) := by
  obtain ⟨d, sent, built⟩ := r.turn_sent act
  cases ran
  cases d with
  | none =>
    refine ⟨[], [], moves_nothing ?_ ?_ rfl, fun _ => rfl⟩
    · rw [sent]
      exact List.append_nil _
    · rw [pending, pending, sent]
      rfl
  | some d =>
    refine ⟨[d], if r.task.queue.length < queueCap then [d] else [], ⟨?_, ?_, ?_, ?_, ?_, .slnil⟩, fun keeps => ?_⟩
    · rw [sent]
      rfl
    · exact List.forall_mem_singleton.2 (built d rfl)
    · have queued := records_trySend queueCap r.task.queue (.write d)
      rw [pending, pending, sent]
      exact queued.symm
    · exact (List.append_nil _).symm
    · split
      · exact .refl _
      · exact List.nil_sublist _
    · rw [if_pos (keeps (by rw [sent]; nofun))]

theorem send_moves (p : Producer) (other : p.cmd.record = none) (ran : r.step (.send p other) = some r') :
    Moves r r' [] [] [] [] := by
  cases ran
  apply moves_nothing
  · rfl
  · change records r.task.queue = records (r.task.produce p).queue
    unfold StorageTask.produce
    split
    · rw [records_trySend, other, Option.toList_none, ite_self, List.append_nil]
    · rfl
  · rfl

theorem receive_moves {lane : Lane} {env : LfsEnv} (tidy : Tidy r.task) (ran : r.step (.receive lane env) = some r') :
    ∃ taken done, Moves r r' [] [] taken done ∧ (r.Keeps (.receive lane env) → done.map Prod.snd = taken) := by
  simp only [step, Option.map_eq_some_iff] at ran
  obtain ⟨t, received, rfl⟩ := ran
  cases lane with
  | ctrl =>
    obtain ⟨cmd, lane, queue⟩ := receive_ctrl received
    refine ⟨[], [], moves_nothing rfl ?_ ?_, fun _ => rfl⟩
    · rw [pending, pending, queue]
    · have none := tidy.plain cmd (lane ▸ .head _)
      rcases record_cases cmd with ⟨d, rfl⟩ | ⟨-, nothing⟩
      · cases none
      · rw [first, lane, List.head?_cons, nothing, List.append_nil]
  | queue =>
    obtain ⟨cmd, queue, -, writes⟩ := receive_queue received
    rcases record_cases cmd with ⟨d, rfl⟩ | ⟨none, nothing⟩
    · obtain ⟨f, written, sure⟩ := writes d rfl
      refine ⟨[d], f.toList.map (·, d), ⟨(List.append_nil _).symm, nofun, ?_, ?_, .slnil, ?_⟩, fun keeps => ?_⟩
      · rw [pending, queue, List.append_nil]
        rfl
      · rw [first, queue, List.head?_cons, appended, written, List.drop_left, entries, List.map_map]
        rfl
      · cases f with
        | none => exact List.nil_sublist _
        | some f => exact .refl _
      · obtain ⟨f, rfl⟩ := Option.isSome_iff_exists.1 (sure (keeps (by rw [first, queue]; rfl)))
        rfl
    · refine ⟨[], [], moves_nothing rfl ?_ ?_, fun _ => rfl⟩
      · rw [pending, pending, queue, List.filterMap_cons_none none]
      · rw [first, queue, List.head?_cons, nothing, List.append_nil]

theorem step_moves {a : Act} (tidy : Tidy r.task) (ran : r.step a = some r') :
    ∃ made queued taken done, Moves r r' made queued taken done ∧
      (r.Keeps a → queued = made ∧ done.map Prod.snd = taken) := by
  cases a with
  | sample act =>
    obtain ⟨made, queued, moves, keeps⟩ := sample_moves act ran
    exact ⟨made, queued, [], [], moves, fun kept => ⟨keeps kept, rfl⟩⟩
  | send p other => exact ⟨[], [], [], [], send_moves p other ran, fun _ => ⟨rfl, rfl⟩⟩
  | mount first second =>
    simp only [step, StorageTask.step, Option.map_eq_some_iff] at ran
    obtain ⟨t, mounted, rfl⟩ := ran
    split at mounted <;> cases mounted
    exact ⟨[], [], [], [], moves_nothing rfl rfl rfl, fun _ => ⟨rfl, rfl⟩⟩
  | receive lane env =>
    obtain ⟨taken, done, moves, keeps⟩ := receive_moves tidy ran
    exact ⟨[], [], taken, done, moves, fun kept => ⟨rfl, keeps kept⟩⟩

theorem length_trySend_le {cap : ℕ} {q : List StorageCmd} (bounded : q.length ≤ cap) (cmd : StorageCmd) :
    (trySend cap q cmd).length ≤ cap := by
  rw [trySend]
  split
  · rw [List.length_append, List.length_singleton]
    omega
  · exact bounded

theorem Tidy.produce {t : StorageTask} (tidy : Tidy t) {p : Producer} (plain : p.lane = .ctrl → p.cmd.record = none) :
    Tidy (t.produce p) := by
  unfold StorageTask.produce
  split
  · exact ⟨tidy.plain, length_trySend_le tidy.bounded _⟩
  · rename_i lane
    refine ⟨fun cmd mem => ?_, tidy.bounded⟩
    rw [trySend] at mem
    split at mem
    · rcases List.mem_append.1 mem with old | new
      · exact tidy.plain cmd old
      · rw [List.mem_singleton.1 new]
        exact plain lane
    · exact tidy.plain cmd mem

theorem Tidy.step {a : Act} (tidy : Tidy r.task) (ran : r.step a = some r') : Tidy r'.task := by
  cases a with
  | sample act =>
    obtain ⟨d, sent, -⟩ := r.turn_sent act
    cases ran
    have kept (regs : RegMap) : Tidy { r.task with store := { r.task.store with regs } } := ⟨tidy.plain, tidy.bounded⟩
    rw [sent]
    cases d with
    | none => exact kept _
    | some d =>
      change Tidy (sendHistoryData _ d)
      apply (kept _).produce
      intro lane
      cases lane
  | send p other =>
    cases ran
    exact tidy.produce fun _ => other
  | mount first second =>
    simp only [Recorder.step, StorageTask.step, Option.map_eq_some_iff] at ran
    obtain ⟨t, mounted, rfl⟩ := ran
    split at mounted <;> cases mounted
    exact ⟨tidy.plain, tidy.bounded⟩
  | receive lane env =>
    simp only [Recorder.step, Option.map_eq_some_iff] at ran
    obtain ⟨t, received, rfl⟩ := ran
    have plain := tidy.plain
    have bounded := tidy.bounded
    cases lane with
    | ctrl =>
      obtain ⟨cmd, lane, queue⟩ := receive_ctrl received
      rw [lane] at plain
      exact ⟨fun c mem => plain c (.tail _ mem), queue ▸ bounded⟩
    | queue =>
      obtain ⟨cmd, queue, lane, -⟩ := receive_queue received
      rw [queue, List.length_cons] at bounded
      exact ⟨lane ▸ plain, Nat.le_of_succ_le bounded⟩

/-! ## Runs -/

/-- The records in the files, followed by those in the queue, are among those made, in the same order. -/
structure InOrder (r : Recorder) (kept : List (File × HisData)) : Prop where
  tidy : Tidy r.task
  built : ∀ d ∈ r.sampled, HisData.Built d
  logged : r.logged = entries kept
  order : (kept.map Prod.snd ++ r.pending).Sublist r.sampled

variable {kept done : List (File × HisData)} {made queued taken : List HisData}

theorem InOrder.moves (inOrder : InOrder r kept) (tidy : Tidy r'.task) (moves : Moves r r' made queued taken done) :
    InOrder r' (kept ++ done) where
  tidy := tidy
  built := by
    rw [moves.sampled]
    exact List.forall_mem_append.2 ⟨inOrder.built, moves.built⟩
  logged := by rw [moves.logged, inOrder.logged, entries, entries, entries, List.map_append]
  order := by
    rw [moves.sampled, List.map_append]
    calc (kept.map Prod.snd ++ done.map Prod.snd ++ r'.pending).Sublist (kept.map Prod.snd ++ taken ++ r'.pending) :=
          ((List.Sublist.refl _).append moves.written).append (.refl _)
      _ = kept.map Prod.snd ++ r.pending ++ queued := by
          rw [List.append_assoc, ← moves.queue, List.append_assoc]
      _ |>.Sublist (r.sampled ++ made) := inOrder.order.append moves.sent

/-- Nothing is lost in a step in which all that is made is queued and all that is taken is written. -/
theorem whole_moves (whole : kept.map Prod.snd ++ r.pending = r.sampled) (moves : Moves r r' made queued taken done)
    (sent : queued = made) (written : done.map Prod.snd = taken) :
    (kept ++ done).map Prod.snd ++ r'.pending = r'.sampled := by
  rw [List.map_append, written, List.append_assoc, ← moves.queue, sent, ← List.append_assoc, whole, moves.sampled]

theorem InOrder.decodeAll (inOrder : InOrder r kept) (f : File) :
    HisData.decodeAll (r.contents f) = ((kept.filter (·.1 = f)).map Prod.snd, []) := by
  have stored : r.contents f = HisData.encodeAll ((kept.filter (·.1 = f)).map Prod.snd) := by
    rw [contents, inOrder.logged, entries, List.filter_map, HisData.encodeAll, List.flatMap_map, List.flatMap_map]
    rfl
  rw [stored]
  apply HisData.decodeAll_encodeAll
  intro d mem
  apply inOrder.built
  apply inOrder.order.subset
  apply List.mem_append_left
  exact List.map_subset _ (List.filter_subset_self _) mem

/-- Whatever the tasks and littlefs do, the records read from the history files are records that were made, in the
order in which they were made and none twice, and at most eight wait in the queue; a run that refuses none of them
loses none. -/
theorem run_records {store : Store} {acts : List Act} (ran : acts.foldlM step (start store) = some r) :
    ∃ kept : List (File × HisData),
      (∀ f, HisData.decodeAll (r.contents f) = ((kept.filter (·.1 = f)).map Prod.snd, [])) ∧
      (kept.map Prod.snd ++ r.pending).Sublist r.sampled ∧ r.pending.length ≤ queueCap ∧
      (Each (fun before a => ∀ r, before.foldlM step (start store) = some r → r.Keeps a) acts →
        kept.map Prod.snd ++ r.pending = r.sampled) := by
  have run : ∃ kept, InOrder r kept ∧
      (Each (fun before a => ∀ r, before.foldlM step (start store) = some r → r.Keeps a) acts →
        kept.map Prod.snd ++ r.pending = r.sampled) := by
    generalize held : Each (fun before a => ∀ r, before.foldlM step (start store) = some r → r.Keeps a) acts = Held
    refine reached (Q := fun _ r => ∃ kept, InOrder r kept ∧ (Held → kept.map Prod.snd ++ r.pending = r.sampled))
      (C := fun _ r a => Held → r.Keeps a) ?_ ?_ ?_ ran
    · exact ⟨[], ⟨⟨nofun, Nat.zero_le _⟩, nofun, rfl, .slnil⟩, fun _ => rfl⟩
    · rintro _ r a r' ⟨kept, inOrder, whole⟩ keeps stepped
      obtain ⟨made, queued, taken, done, moves, all⟩ := step_moves inOrder.tidy stepped
      refine ⟨kept ++ done, inOrder.moves (inOrder.tidy.step stepped) moves, fun h => ?_⟩
      exact whole_moves (whole h) moves (all (keeps h)).1 (all (keeps h)).2
    · intro before a after split r' ran' h
      rw [← held] at h
      exact h before a after split r' ran'
  obtain ⟨kept, inOrder, whole⟩ := run
  exact ⟨kept, inOrder.decodeAll, inOrder.order, (List.length_filterMap_le _ _).trans inOrder.tidy.bounded, whole⟩

/-- Recording is on, channel 1 is enabled. -/
def recordingOn : Vector UInt16 18 :=
  ((RegMap.new 1).holding.setIfInBounds holdingHistoryEnableIdx 1).setIfInBounds holdingDiEnableIdx 1

theorem run_records_one :
    let store := { Store.new .documented ⟨fun _ => 0xFF, [], 0⟩ (.new 1) (none, 0) with openFile := some 0 }
    let acts := [.mount true true, .sample (.others recordingOn), .sample (.di 7 fun _ => true),
      .receive .queue Store.allWell, .sample (.di 8 fun _ => false)]
    ∃ (r : Recorder) (kept : List (File × HisData)), acts.foldlM step (start store) = some r ∧
      r.sampled = [.di 7 1 1, .di 8 1 0] ∧ r.pending = [.di 8 1 0] ∧
      (∀ f, HisData.decodeAll (r.contents f) = ((kept.filter (·.1 = f)).map Prod.snd, [])) ∧
      kept.map Prod.snd ++ r.pending = r.sampled := by
  intro store acts
  have ran : ∃ r, acts.foldlM step (start store) = some r ∧ r.sampled = [.di 7 1 1, .di 8 1 0] ∧
      r.pending = [.di 8 1 0] := ⟨_, rfl, by decide +kernel, by decide +kernel⟩
  have keeps : Each (fun before a => ∀ r, before.foldlM step (start store) = some r → r.Keeps a) acts := by
    refine each_cons.2 ⟨?_, each_cons.2 ⟨?_, each_cons.2 ⟨?_, each_cons.2 ⟨?_, each_cons.2 ⟨?_, each_nil⟩⟩⟩⟩⟩
    all_goals
      intro r ran
      cases ran
    · trivial
    · exact fun _ => by decide
    · exact fun _ => by decide
    · exact fun _ => ⟨rfl, rfl, rfl, rfl⟩
    · exact fun _ => by decide
  obtain ⟨r, ran, sampled, pending⟩ := ran
  obtain ⟨kept, read, -, -, whole⟩ := run_records ran
  exact ⟨r, kept, ran, sampled, pending, read, whole keeps⟩

end Recorder

end IoEdgeHub
