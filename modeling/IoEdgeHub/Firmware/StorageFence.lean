import IoEdgeHub.Firmware.StorageCells

/-!
# The fence after a failed close

`FS_BAD` is set by a close that fails and bars every later open.  All handlers but one look at it
between closing a handle and opening the next.  `hist_write` looks at it only on entry, so a history
write whose old file cannot be closed still opens the remembered or a new file;
`fenced_iff` says that this is the only way around the fence.
-/

namespace IoEdgeHub

open Handles

namespace Store

section HandleStep

variable {H H' : Holders Cell}

theorem HandleStep.marked (step : HandleStep H H') (sound : H.Sound) (marked : H.Marked) : H'.Marked := by
  cases step with
  | same => exact marked
  | closed c ok => exact marked.close sound c ok
  | reopened c ok => exact (marked.close sound c ok).opening c
  | rejected c ok ok' =>
    exact ((marked.close sound c ok).opening c).close ((sound.close c ok).opening c) c ok'

/-- A command that looks at the flag before it opens a file stays behind the fence. -/
theorem HandleStep.fenced (step : HandleStep H H') (sound : H.Sound) (marked : H.Marked) :
    Fenced H'.ledger.events ↔ Fenced H.ledger.events := by
  have reopened (c : Cell) (ok : Bool) (good : (H.close c ok).bad = false) :
      Fenced ((H.close c ok).opening c).ledger.events ↔ Fenced H.ledger.events := by
    rw [Holders.fenced_opening (marked.close sound c ok), and_iff_left good, Holders.fenced_close]
  cases step with
  | same => rfl
  | closed c ok => exact Holders.fenced_close H c ok
  | reopened c ok good => exact reopened c ok good
  | rejected c ok ok' good => exact (Holders.fenced_close _ c ok').trans (reopened c ok good)

end HandleStep

/-! ## History writes -/

/-- The old file cannot be closed, and a file is opened nevertheless. -/
def OpensFenced (s : Store) (env : HistEnv) : Prop :=
  s.staysOpen env = false ∧ s.openFile.isSome ∧ env.closed = false ∧
    (env.retainedOpens s.paths s.hist ∨ env.freshOpens s.paths s.hist)

/-- The command is such a history write. -/
def BreaksFence (s : Store) (env : LfsEnv) : StorageCmd → Prop
  | .write _ => s.recording env ∧ s.OpensFenced env.hist
  | _ => False

section OpenIf

variable {H : Holders Cell} {c : Cell} {b : Bool}

theorem marked_openIf (marked : H.Marked) : (openIf H c b).Marked := by
  cases b
  · exact marked
  · exact marked.opening c

theorem bad_openIf : (openIf H c b).bad = H.bad := by
  cases b <;> rfl

theorem fenced_openIf (marked : H.Marked) :
    Fenced (openIf H c b).ledger.events ↔ Fenced H.ledger.events ∧ (b → H.bad = false) := by
  cases b
  · simp [openIf]
  · simp [openIf, Holders.fenced_opening marked]

end OpenIf

theorem marked_handleCmd {s : Store} (single : s.Single) (sound : s.holders.Sound)
    (marked : s.holders.Marked) (env : LfsEnv) (cmd : StorageCmd) :
    (s.handleCmd env cmd).holders.Marked := by
  by_cases write : ∃ d, cmd = .write d
  · obtain ⟨d, rfl⟩ := write
    rw [handleCmd_write]
    split
    · rw [holders_histWrite]
      split
      · exact marked
      · exact marked_openIf (marked_openIf (marked.close sound _ _))
    · exact marked
  · exact (handleCmd_handles single env cmd fun d same => write ⟨d, same⟩).step.marked sound marked

/-- After the close of a history write the flag is set exactly if that close failed. -/
theorem bad_close_file {s : Store} (good : s.fsBad = false) (ok : Bool) :
    (s.holders.close .file ok).bad = true ↔ s.openFile.isSome ∧ ok = false := by
  have held : s.holders.table .file = s.openFile := rfl
  rcases file : s.openFile with _ | f
  · rw [Holders.close_empty (held.trans file)]
    simp [holders, good]
  · rw [Holders.close_held (held.trans file)]
    simp [holders, good]

theorem fenced_histWrite {s : Store} (sound : s.holders.Sound) (marked : s.holders.Marked)
    (good : s.fsBad = false) (env : HistEnv) (d : HisData) :
    Fenced (s.histWrite env d).holders.ledger.events ↔
      Fenced s.holders.ledger.events ∧ ¬ s.OpensFenced env := by
  have closed := marked.close sound .file env.closed
  have failed := bad_close_file good env.closed
  rw [holders_histWrite, OpensFenced]
  rcases stays : s.staysOpen env with _ | _
  · rw [if_neg Bool.false_ne_true, fenced_openIf (marked_openIf closed), fenced_openIf closed, bad_openIf,
      Holders.fenced_close, and_assoc]
    refine and_congr_right fun _ => ?_
    rw [← Bool.not_eq_true, failed]
    tauto
  · simp

theorem fenced_handleCmd {s : Store} (single : s.Single) (sound : s.holders.Sound)
    (marked : s.holders.Marked) (env : LfsEnv) (cmd : StorageCmd) :
    Fenced (s.handleCmd env cmd).ledger.events ↔ Fenced s.ledger.events ∧ ¬ s.BreaksFence env cmd := by
  by_cases write : ∃ d, cmd = .write d
  · obtain ⟨d, rfl⟩ := write
    rw [handleCmd_write, BreaksFence]
    by_cases recording : s.recording env = true
    · have good : s.fsBad = false := by simp_all [Store.recording]
      rw [if_pos recording, and_iff_right recording]
      exact fenced_histWrite sound marked good env.hist d
    · rw [if_neg recording]
      simp [recording]
  · have other : ¬ s.BreaksFence env cmd := by
      cases cmd with
      | write d => exact absurd ⟨d, rfl⟩ write
      | _ => exact id
    rw [and_iff_left other]
    exact (handleCmd_handles single env cmd fun d same => write ⟨d, same⟩).step.fenced sound marked

/-! ## Whole runs -/

section Run

variable (paths : LfsPaths) (nor : W25q) (regs : RegMap) (cfg : Option ℕ × UInt32)

theorem marked_run (steps : List (LfsEnv × StorageCmd)) : ((new paths nor regs cfg).run steps).holders.Marked := by
  have start : (new paths nor regs cfg).holders.Marked := by
    simp [new, holders, Holders.Marked, Ledger.Poisoned, Ledger.empty]
  refine (run_kept (Q := fun s => s.Single ∧ s.holders.Sound ∧ s.holders.Marked)
    ⟨single_new paths nor regs cfg, sound_new paths nor regs cfg, start⟩ ?_ steps).2.2
  rintro s env cmd ⟨single, sound, marked⟩
  exact ⟨single_handleCmd single env cmd, sound_handleCmd single sound env cmd,
    marked_handleCmd single sound marked env cmd⟩

/-- Whatever commands the task handles and whatever littlefs answers, no file is opened after a close
has failed exactly if no history write opens a file although its old one could not be closed. -/
theorem fenced_iff (steps : List (LfsEnv × StorageCmd)) :
    Fenced ((new paths nor regs cfg).run steps).ledger.events ↔
      Run.Each (fun before step => ¬ ((new paths nor regs cfg).run before).BreaksFence step.1 step.2) steps := by
  induction steps using List.reverseRecOn with
  | nil => exact ⟨fun _ => Run.each_nil, fun _ => Run.each_nil⟩
  | append_singleton steps step ih =>
    rw [Run.each_snoc, ← ih, run_snoc]
    exact fenced_handleCmd (single_run paths nor regs cfg steps) (sound_run paths nor regs cfg steps)
      (marked_run paths nor regs cfg steps) step.1 step.2

end Run

/-- A rotation closes the full history file in vain and opens the next. -/
theorem history_write_breaks_fence :
    (recorder.run [(allWell, record), (failedClose, record)]).ledger.events =
        [.opened .file 0, .closeFailed 0, .opened .file 1] ∧
      ¬ Fenced (recorder.run [(allWell, record), (failedClose, record)]).ledger.events := by
  refine ⟨events_failedClose, ?_⟩
  rw [events_failedClose]
  intro fenced
  exact fenced [.opened .file 0, .closeFailed 0] _ [] rfl .file 1 rfl 0 (by decide)

end Store

end IoEdgeHub
