import IoEdgeHub.Firmware.Storage

/-!
# The two lanes of the storage task

`storage_task` with its queue, its control lane and all that sends to them.  Once littlefs is mounted
the task takes commands from both lanes.  When it can be mounted neither before nor after formatting,
the task only serves the configuration, but it serves it from `QUEUE`, to which nobody sends
configuration commands: they all go to `CTRL_QUEUE`.  `none_left_behind` says that this is the only way
to leave one behind, `stranded_forever` that it is then never taken.
-/

namespace IoEdgeHub

open Run

/-- The two queues. -/
inductive Lane where
  | queue
  | ctrl
  deriving DecidableEq, Repr

/-- A command for the configuration. -/
def StorageCmd.isCfg : StorageCmd → Bool
  | .cfgSave | .cfgEraseAll => true
  | _ => false

/-- Everything that sends to the task: `Hooks::holding_save`, `Cfg::config_erase_all`, the shell's
`ip`, `save` and `factory`, the web socket's `factory_reset`, and all the others, which send no
configuration command. -/
inductive Producer where
  | holdingSave
  | configEraseAll
  | shellIp
  | shellSave
  | shellFactory
  | wsFactoryReset
  | other (cmd : StorageCmd) (plain : cmd.isCfg = false)

namespace Producer

/-- What a producer sends. -/
def cmd : Producer → StorageCmd
  | holdingSave | shellIp | shellSave => .cfgSave
  | configEraseAll | shellFactory | wsFactoryReset => .cfgEraseAll
  | other cmd _ => cmd

/-- Where it is sent. -/
def lane : Producer → Lane
  | holdingSave | configEraseAll | shellIp | shellSave | shellFactory | wsFactoryReset => .ctrl
  | other .. => .queue

end Producer

/-- The task mounts littlefs, runs its main loop, or serves the configuration alone. -/
inductive TaskMode where
  | mounting
  | mounted
  | offline
  deriving DecidableEq, Repr

/-- The length of the queue. -/
def queueCap : ℕ := 8

/-- The length of the control queue. -/
def ctrlQueueCap : ℕ := 4

/-- A full channel drops what is sent. -/
def trySend (cap : ℕ) (q : List StorageCmd) (cmd : StorageCmd) : List StorageCmd :=
  if q.length < cap then q ++ [cmd] else q

/-- The task, its phase and its queues. -/
structure StorageTask where
  mode : TaskMode
  queue : List StorageCmd
  ctrl : List StorageCmd
  store : Store

/-- A producer sends, the task learns how its two attempts to mount ended, or it takes a command. -/
inductive TaskAct where
  | produce (p : Producer)
  | mount (first second : Bool)
  | receive (lane : Lane) (env : LfsEnv)

namespace StorageTask

/-- The task after boot. -/
def start (store : Store) : StorageTask := ⟨.mounting, [], [], store⟩

/-- The loop without a file system. -/
def offlineCmd (s : Store) : StorageCmd → Store
  | .cfgSave =>
    let (nor, cfg, _) := cfgSave s.nor s.regs s.cfg
    { s with nor, cfg }
  | .cfgEraseAll =>
    let (nor, cfg, regs, _) := cfgEraseAll s.nor s.regs s.cfg
    { s with nor, cfg, regs }
  | _ => s

/-- A command is sent, if there is room. -/
def produce (t : StorageTask) (p : Producer) : StorageTask :=
  match p.lane with
  | .queue => { t with queue := trySend queueCap t.queue p.cmd }
  | .ctrl => { t with ctrl := trySend ctrlQueueCap t.ctrl p.cmd }

/-- No result when the task does not wait on the lane, or nothing is there. -/
def receive (t : StorageTask) (env : LfsEnv) : Lane → Option StorageTask
  | .queue =>
    match t.mode, t.queue with
    | .mounted, cmd :: queue => some { t with queue, store := t.store.handleCmd env cmd }
    | .offline, cmd :: queue => some { t with queue, store := offlineCmd t.store cmd }
    | _, _ => none
  | .ctrl =>
    match t.mode, t.ctrl with
    | .mounted, cmd :: ctrl => some { t with ctrl, store := t.store.handleCmd env cmd }
    | _, _ => none

/-- One turn of the task or of a producer. -/
def step (t : StorageTask) : TaskAct → Option StorageTask
  | .produce p => some (t.produce p)
  | .mount first second =>
    if t.mode = .mounting then some { t with mode := if first || second then .mounted else .offline }
    else none
  | .receive lane env => t.receive env lane

/-- The task waits for input and there is none on the lanes it waits on. -/
def Blocked (t : StorageTask) : Prop :=
  match t.mode with
  | .mounting => False
  | .mounted => t.queue = [] ∧ t.ctrl = []
  | .offline => t.queue = []

/-- While the task is blocked, no configuration command waits in any lane. -/
def NoneLeft (t : StorageTask) : Prop :=
  t.Blocked → ∀ cmd ∈ t.queue ++ t.ctrl, cmd.isCfg = false

/-- A configuration command is sent without a file system, or is waiting when the mount fails. -/
def Strands (t : StorageTask) : TaskAct → Prop
  | .produce p => t.mode = .offline ∧ p.lane = .ctrl
  | .mount first second => (first || second) = false ∧ t.ctrl ≠ []
  | .receive .. => False

/-! ## One step -/

section Step

variable {t t' : StorageTask}

/-- A command is taken from the control lane in the main loop only. -/
theorem receive_cases {lane : Lane} {env : LfsEnv} (ran : t.receive env lane = some t') :
    t'.mode = t.mode ∧ (t'.ctrl = t.ctrl ∨ t.mode = .mounted) := by
  cases lane with
  | queue =>
    simp only [receive] at ran
    split at ran <;> cases ran <;> exact ⟨rfl, .inl rfl⟩
  | ctrl =>
    simp only [receive] at ran
    split at ran <;> cases ran
    rename_i mode _
    exact ⟨rfl, .inr mode⟩

theorem produce_mode (t : StorageTask) (p : Producer) : (t.produce p).mode = t.mode := by
  unfold produce
  split <;> rfl

theorem produce_ctrl (t : StorageTask) (p : Producer) :
    (t.produce p).ctrl = if p.lane = .ctrl then trySend ctrlQueueCap t.ctrl p.cmd else t.ctrl := by
  unfold produce
  split <;> simp_all

/-- Without a file system nothing waits in the control lane. -/
def Served (t : StorageTask) : Prop := t.mode = .offline → t.ctrl = []

theorem Served.step {a : TaskAct} (served : t.Served) (kept : ¬ t.Strands a) (ran : t.step a = some t') :
    t'.Served := by
  cases a with
  | produce p =>
    cases ran
    intro offline
    rw [produce_mode] at offline
    rw [produce_ctrl, if_neg fun lane => kept ⟨offline, lane⟩]
    exact served offline
  | mount first second =>
    simp only [StorageTask.step] at ran
    split at ran <;> cases ran
    intro offline
    by_contra waiting
    refine kept ⟨?_, waiting⟩
    cases mounts : (first || second) with
    | false => rfl
    | true => simp [mounts] at offline
  | receive lane env =>
    intro offline
    obtain ⟨mode, ctrl | main⟩ := receive_cases ran
    · rw [ctrl]
      exact served (mode ▸ offline)
    · rw [mode, main] at offline
      cases offline

theorem Served.noneLeft (served : t.Served) : t.NoneLeft := by
  intro blocked cmd mem
  have empty : t.queue = [] ∧ t.ctrl = [] := by
    unfold Blocked at blocked
    split at blocked
    · exact blocked.elim
    · exact blocked
    · rename_i offline
      exact ⟨blocked, served offline⟩
  rw [empty.1, empty.2] at mem
  cases mem

end Step

/-! ## Runs -/

/-- In a run in which no configuration command is sent while there is no file system, or waits when
the mount fails, none is ever left behind. -/
theorem none_left_behind (store : Store) (acts : List TaskAct) (t : StorageTask)
    (kept : Each (fun before a => ∀ t, before.foldlM step (start store) = some t → ¬ t.Strands a) acts)
    (ran : acts.foldlM step (start store) = some t) : t.NoneLeft := by
  apply Served.noneLeft
  apply reached (Q := fun _ t => Served t) (C := fun _ t a => ¬ t.Strands a) _ _ kept ran
  · intro offline
    cases offline
  · intro _ _ _ _ served kept stepped
    exact served.step kept stepped

theorem none_left_behind_saved :
    let acts := [.mount true true, .produce .holdingSave, .receive .ctrl Store.allWell]
    ∃ t, acts.foldlM step (start (.new .documented ⟨fun _ => 0xFF, [], 0⟩ (.new 1) (none, 0))) = some t ∧
      t.Blocked ∧ t.NoneLeft := by
  intro acts
  refine ⟨_, rfl, ⟨rfl, rfl⟩, ?_⟩
  apply none_left_behind _ acts _ _ rfl
  refine each_cons.2 ⟨?_, each_cons.2 ⟨?_, each_cons.2 ⟨?_, each_nil⟩⟩⟩
  · intro t ran strands
    cases strands.1
  · intro t ran strands
    cases ran
    cases strands.1
  · intro t ran strands
    exact strands

/-- Once there is no file system, the control lane only grows. -/
theorem stranded_forever {t t' : StorageTask} (offline : t.mode = .offline) (acts : List TaskAct)
    (ran : acts.foldlM step t = some t') : t'.mode = .offline ∧ t.ctrl <+: t'.ctrl := by
  apply always (Q := fun _ t' => t'.mode = .offline ∧ t.ctrl <+: t'.ctrl) ⟨offline, List.prefix_rfl⟩ _ ran
  rintro _ s a s' ⟨mode, grown⟩ stepped
  cases a with
  | produce p =>
    cases stepped
    refine ⟨(produce_mode s p).trans mode, ?_⟩
    rw [produce_ctrl, trySend]
    split_ifs
    · exact grown.trans (List.prefix_append ..)
    · exact grown
    · exact grown
  | mount first second =>
    simp only [step] at stepped
    rw [if_neg (by rw [mode]; decide)] at stepped
    cases stepped
  | receive lane env =>
    obtain ⟨mode', ctrl | main⟩ := receive_cases stepped
    · exact ⟨mode'.trans mode, ctrl ▸ grown⟩
    · rw [mode] at main
      cases main

/-- The mount fails twice and a register write asks for a save: the task waits on the empty `QUEUE`
while the command sits in the control lane. -/
theorem save_left_behind :
    let acts := [.mount false false, .produce .holdingSave]
    ∃ t, acts.foldlM step (start (.new .documented ⟨fun _ => 0xFF, [], 0⟩ (.new 1) (none, 0))) = some t ∧
      t.Blocked ∧ .cfgSave ∈ t.ctrl ∧ ¬ t.NoneLeft := by
  intro acts
  refine ⟨_, rfl, rfl, List.mem_singleton.2 rfl, fun none => ?_⟩
  have plain := none rfl .cfgSave (List.mem_singleton.2 rfl)
  cases plain

end StorageTask

end IoEdgeHub
