import IoEdgeHub.Firmware.Storage

/-!
# Who owns an allocation cell

The handles of the storage task live in five places, one or two for each allocation cell. `holders`
forgets everything else of the task's state; every command but a history write then closes what a
cell holds, or closes it and opens a new file while no close has failed (`handleCmd_handles`). A
history write does not look at `FS_BAD` again after it closed its file, and it opens a second file
over one whose first write failed; `one_owner_iff` says that these are the only ways in which a
cell ever gets a second owner.
-/

namespace IoEdgeHub

open Handles

namespace Store

/-- The place of each cell; a slot has one for reading and one for writing. -/
def holders (s : Store) : Holders Cell where
  table
    | .file => s.openFile
    | .dl => s.downloadFile
    | .ftp slot => (s.ftpXfer slot).dl.or (s.ftpXfer slot).wr
  bad := s.fsBad
  ledger := s.ledger

/-- A slot reads or writes, not both. -/
def Single (s : Store) : Prop := ∀ slot : Fin 3, (s.ftpXfer slot).dl = none ∨ (s.ftpXfer slot).wr = none

/-- Everything a command other than a history write can do to the handles. -/
inductive HandleStep (H : Holders Cell) : Holders Cell → Prop where
  | same : HandleStep H H
  | closed (c : Cell) (ok : Bool) : HandleStep H (H.close c ok)
  | reopened (c : Cell) (ok : Bool) (good : (H.close c ok).bad = false) :
      HandleStep H ((H.close c ok).opening c)
  | rejected (c : Cell) (ok ok' : Bool) (good : (H.close c ok).bad = false) :
      HandleStep H (((H.close c ok).opening c).close c ok')

section HandleStep

variable {H H' : Holders Cell}

theorem HandleStep.sound (step : HandleStep H H') (sound : H.Sound) : H'.Sound := by
  cases step with
  | same => exact sound
  | closed c ok => exact sound.close c ok
  | reopened c ok => exact (sound.close c ok).opening c
  | rejected c ok ok' => exact ((sound.close c ok).opening c).close c ok'

theorem HandleStep.tracked (step : HandleStep H H') (tracked : H.Tracked) : H'.Tracked := by
  have reopened (c : Cell) (ok : Bool) : ((H.close c ok).opening c).Tracked :=
    (tracked.close c ok).opening (Holders.table_close_self H c ok)
  cases step with
  | same => exact tracked
  | closed c ok => exact tracked.close c ok
  | reopened c ok => exact reopened c ok
  | rejected c ok ok' => exact (reopened c ok).close c ok'

theorem HandleStep.oneOwner (step : HandleStep H H') (tracked : H.Tracked) :
    OneOwner H'.ledger.events ↔ OneOwner H.ledger.events := by
  have reopened (c : Cell) (ok : Bool) (good : (H.close c ok).bad = false) :
      OneOwner ((H.close c ok).opening c).ledger.events ↔ OneOwner H.ledger.events :=
    (Holders.oneOwner_opening (tracked.close c ok) good (Holders.table_close_self H c ok)).trans
      (Holders.oneOwner_close H c ok)
  cases step with
  | same => rfl
  | closed c ok => exact Holders.oneOwner_close H c ok
  | reopened c ok good => exact reopened c ok good
  | rejected c ok ok' good => exact (Holders.oneOwner_close _ c ok').trans (reopened c ok good)

theorem HandleStep.oneOwner_before (step : HandleStep H H') (owner : OneOwner H'.ledger.events) :
    OneOwner H.ledger.events := by
  have reopened (c : Cell) (ok : Bool) (owner : OneOwner ((H.close c ok).opening c).ledger.events) :
      OneOwner H.ledger.events :=
    (Holders.oneOwner_close H c ok).1 (Ledger.oneOwner_opening.1 owner).1
  cases step with
  | same => exact owner
  | closed c ok => exact (Holders.oneOwner_close H c ok).1 owner
  | reopened c ok => exact reopened c ok owner
  | rejected c ok ok' => exact reopened c ok ((Holders.oneOwner_close _ c ok').1 owner)

end HandleStep

/-! ## The handlers -/

theorem Holders_ext {H H' : Holders Cell} (table : ∀ c, H.table c = H'.table c) (bad : H.bad = H'.bad)
    (ledger : H.ledger = H'.ledger) : H = H' := by
  cases H
  cases H'
  simp only [Holders.mk.injEq]
  exact ⟨funext table, bad, ledger⟩

variable {s s' : Store}

/-- A holder is emptied and what it held is closed. -/
theorem holders_closeHeld {s₀ : Store} {c : Cell} {held : Option File} (ok : Bool)
    (holds : s.holders.table c = held) (table : ∀ c', s₀.holders.table c' = if c' = c then none else s.holders.table c')
    (bad : s₀.fsBad = s.fsBad) (ledger : s₀.ledger = s.ledger) :
    (s₀.closeHeld held ok).holders = s.holders.close c ok := by
  rcases held with _ | f
  · rw [Holders.close_empty holds]
    refine Holders_ext (fun c' => ?_) bad ledger
    refine (table c').trans ?_
    split
    · rename_i same
      rw [same, holds]
    · rfl
  · rw [Holders.close_held holds]
    refine Holders_ext (fun c' => ?_) (congrArg (· || !ok) bad) (congrArg (·.closing f ok) ledger)
    exact (table c').trans (Function.update_apply ..).symm

theorem holders_closeKeepName (s : Store) (ok : Bool) :
    ({ s with openFile := none }.closeHeld s.openFile ok).holders = s.holders.close .file ok :=
  holders_closeHeld (s := s) ok rfl (fun c => by cases c <;> rfl) rfl rfl

/-- A download handle is closed, whatever else changes. -/
theorem holders_closeDl (s : Store) (dl : FileDl) (ok : Bool) :
    ({ s with downloadFile := none, fileDl := dl }.closeHeld s.downloadFile ok).holders =
      s.holders.close .dl ok :=
  holders_closeHeld (s := s) ok rfl (fun c => by cases c <;> rfl) rfl rfl

theorem closeHeld_setXfer (s : Store) (slot : Fin 3) (x : FtpXfer) (held : Option File) (ok : Bool) :
    (s.closeHeld held ok).setXfer slot x = (s.setXfer slot x).closeHeld held ok := by
  cases held <;> rfl

theorem xfer_setXfer (s : Store) (slot slot' : Fin 3) (x : FtpXfer) :
    ((s.setXfer slot x).ftpXfer slot') = if slot' = slot then x else (s.ftpXfer slot') := by
  unfold setXfer ftpXfer
  rw [Fin.getElem_fin, Vector.getElem_set]
  simp only [Fin.ext_iff, eq_comm, Fin.getElem_fin]

theorem table_setXfer (s : Store) (slot : Fin 3) (x : FtpXfer) (c : Cell) :
    (s.setXfer slot x).holders.table c = if c = .ftp slot then x.dl.or x.wr else s.holders.table c := by
  cases c with
  | file => rfl
  | dl => rfl
  | ftp slot' =>
    simp only [holders, xfer_setXfer, Cell.ftp.injEq]
    split <;> rfl

theorem holders_closeSlot (s : Store) (slot : Fin 3) (x : FtpXfer) (held : Option File) (ok : Bool)
    (holds : s.holders.table (.ftp slot) = held) (noDl : x.dl = none) (noWr : x.wr = none) :
    ((s.closeHeld held ok).setXfer slot x).holders = s.holders.close (.ftp slot) ok := by
  rw [closeHeld_setXfer]
  refine holders_closeHeld (s := s) ok holds (fun c => ?_) rfl rfl
  rw [table_setXfer, noDl, noWr]
  rfl

@[simp] theorem xfer_closeHeld (s : Store) (held : Option File) (ok : Bool) :
    (s.closeHeld held ok).xfer = s.xfer := by
  cases held <;> rfl

theorem Single.setXfer (single : s.Single) (slot : Fin 3) {x : FtpXfer}
    (one : x.dl = none ∨ x.wr = none) : (s.setXfer slot x).Single := by
  intro slot'
  rw [xfer_setXfer]
  split
  · exact one
  · exact single slot'

theorem Single.of_xfer (single : s.Single) (same : s'.xfer = s.xfer) : s'.Single := by
  intro slot
  rw [ftpXfer, same]
  exact single slot

/-- A slot holds at most one handle, so closing both its places closes that one. -/
theorem holders_slotCloseAll (single : s.Single) (env : LfsEnv) (slot : Fin 3) :
    ∃ ok, (s.slotCloseAll env slot).holders = s.holders.close (.ftp slot) ok := by
  have held : s.holders.table (.ftp slot) = (s.ftpXfer slot).dl.or (s.ftpXfer slot).wr := rfl
  have one := single slot
  unfold slotCloseAll
  dsimp only
  generalize (s.ftpXfer slot) = x at held one ⊢
  rcases dl : x.dl with _ | f <;> rw [dl] at held one
  · exact ⟨env.closeWr, holders_closeSlot s slot _ x.wr _ held rfl rfl⟩
  · have wr : x.wr = none := one.resolve_left (by simp)
    rw [wr]
    exact ⟨env.close, holders_closeSlot s slot _ (some f) _ held rfl rfl⟩

theorem xfer_slotCloseAll (s : Store) (env : LfsEnv) (slot : Fin 3) :
    ((s.slotCloseAll env slot).ftpXfer slot) = FtpXfer.reset (s.ftpXfer slot) := by
  rw [slotCloseAll, xfer_setXfer, if_pos rfl]

theorem single_slotCloseAll (single : s.Single) (env : LfsEnv) (slot : Fin 3) :
    (s.slotCloseAll env slot).Single :=
  (single.of_xfer (by simp)).setXfer slot (.inl rfl)

/-- The file that was just opened is put into the slot. -/
theorem holders_openSlot (s : Store) (slot : Fin 3) (x : FtpXfer) (new : x.dl.or x.wr = some s.ledger.next) :
    ((s.openWith (.ftp slot)).1.setXfer slot x).holders = s.holders.opening (.ftp slot) := by
  refine Holders_ext (fun c => ?_) rfl rfl
  rw [table_setXfer, new]
  exact (Function.update_apply ..).symm

/-- The file that was just opened is closed again. -/
theorem holders_openClose (s : Store) {c : Cell} (free : s.holders.table c = none) (ok : Bool) :
    ((s.openWith c).1.closeOrPoison (s.openWith c).2 ok).1.holders = (s.holders.opening c).close c ok := by
  rw [Holders.close_held (Holders.table_opening_self s.holders c)]
  refine Holders_ext (fun c' => ?_) rfl rfl
  refine Eq.trans ?_ (Function.update_apply ..).symm
  split
  · rename_i same
    rw [same]
    exact free
  · rename_i other
    exact (Holders.table_opening_ne (H := s.holders) other).symm

/-- What a handler leaves behind: the handles moved in one of the allowed ways. -/
structure Refines (s s' : Store) : Prop where
  step : HandleStep s.holders s'.holders
  single : s'.Single

theorem Refines.of_eq (single : s.Single) (openFile : s'.openFile = s.openFile)
    (downloadFile : s'.downloadFile = s.downloadFile) (xfer : s'.xfer = s.xfer)
    (fsBad : s'.fsBad = s.fsBad) (ledger : s'.ledger = s.ledger) : Refines s s' := by
  have same : s'.holders = s.holders := by
    simp only [holders, ftpXfer, openFile, downloadFile, xfer, fsBad, ledger]
  exact ⟨same ▸ .same, single.of_xfer xfer⟩

theorem Refines.setRes (refines : Refines s s') (r : FtpRes) : Refines s (s'.setRes r) :=
  ⟨refines.step, refines.single⟩

theorem Refines.bump (refines : Refines s s') : Refines s s'.bump :=
  ⟨refines.step, refines.single⟩

section Slot

variable {s : Store} (single : s.Single) (env : LfsEnv) (slot : Fin 3)

include single

theorem refines_slotCloseAll : Refines s (s.slotCloseAll env slot) := by
  obtain ⟨ok, closed⟩ := holders_slotCloseAll single env slot
  exact ⟨closed ▸ .closed _ ok, single_slotCloseAll single env slot⟩

theorem free_slotCloseAll : (s.slotCloseAll env slot).holders.table (.ftp slot) = none := by
  obtain ⟨ok, closed⟩ := holders_slotCloseAll single env slot
  rw [closed]
  exact Holders.table_close_self ..

/-- After the slot was emptied without a failed close, a file is opened and kept. -/
theorem refines_openSlot (good : (s.slotCloseAll env slot).fsBad = false) {x : FtpXfer}
    (new : x.dl.or x.wr = some (s.slotCloseAll env slot).ledger.next) (one : x.dl = none ∨ x.wr = none) :
    Refines s (((s.slotCloseAll env slot).openWith (.ftp slot)).1.setXfer slot x) := by
  obtain ⟨ok, closed⟩ := holders_slotCloseAll single env slot
  refine ⟨?_, ((single_slotCloseAll single env slot).of_xfer rfl).setXfer slot one⟩
  rw [holders_openSlot _ slot _ new, closed]
  exact .reopened _ ok (closed ▸ good)

/-- Likewise, but the opened file is closed again. -/
theorem refines_openClose (good : (s.slotCloseAll env slot).fsBad = false) (ok' : Bool) :
    Refines s (((s.slotCloseAll env slot).openWith (.ftp slot)).1.closeOrPoison
      ((s.slotCloseAll env slot).openWith (.ftp slot)).2 ok').1 := by
  obtain ⟨ok, closed⟩ := holders_slotCloseAll single env slot
  refine ⟨?_, (single_slotCloseAll single env slot).of_xfer rfl⟩
  rw [holders_openClose _ (free_slotCloseAll single env slot), closed]
  exact .rejected _ ok ok' (closed ▸ good)

theorem refines_ftpOpenRead (path : FtpPath) (rest : UInt32) :
    Refines s (s.ftpOpenRead env slot path rest).1 := by
  have emptied := refines_slotCloseAll single env slot
  have noWr : ((s.slotCloseAll env slot).ftpXfer slot).wr = none := by
    rw [xfer_slotCloseAll]
    rfl
  unfold ftpOpenRead
  dsimp only
  rcases bad : (s.slotCloseAll env slot).fsBad with _ | _
  · rw [if_neg Bool.false_ne_true]
    split
    · exact emptied
    split
    · split
      · exact refines_openClose single env slot bad env.closeNew
      · exact refines_openSlot single env slot bad Option.some_or (.inr noWr)
    · exact emptied
  · rw [if_pos rfl]
    exact emptied

theorem refines_ftpOpenWrite (path : FtpPath) (mode : FtpWrMode) :
    Refines s (s.ftpOpenWrite env slot path mode) := by
  have emptied := refines_slotCloseAll single env slot
  have noDl : ((s.slotCloseAll env slot).ftpXfer slot).dl = none := by
    rw [xfer_slotCloseAll]
    rfl
  unfold ftpOpenWrite
  dsimp only
  rcases bad : (s.slotCloseAll env slot).fsBad with _ | _
  · rw [if_neg Bool.false_ne_true]
    split
    · exact emptied.setRes _
    split
    · split
      · refine Refines.setRes (refines_openSlot single env slot bad ?_ (.inl ?_)) _
        · show ((s.slotCloseAll env slot).ftpXfer slot).dl.or _ = _
          rw [noDl, Option.none_or]
          rfl
        · exact noDl
      · exact (refines_openClose single env slot bad env.closeNew).setRes _
    · exact emptied.setRes _
  · rw [if_pos rfl]
    exact emptied.setRes _

theorem refines_setXfer {x : FtpXfer} (dl : x.dl = (s.ftpXfer slot).dl) (wr : x.wr = (s.ftpXfer slot).wr) :
    Refines s (s.setXfer slot x) := by
  have one : x.dl = none ∨ x.wr = none := by
    rw [dl, wr]
    exact single slot
  refine ⟨?_, single.setXfer slot one⟩
  have same : (s.setXfer slot x).holders = s.holders := by
    refine Holders_ext (fun c => ?_) rfl rfl
    rw [table_setXfer, dl, wr]
    split
    · rename_i here
      rw [here]
      rfl
    · rfl
  rw [same]
  exact .same

theorem refines_ftpWriteChunk (len : ℕ) : Refines s (s.ftpWriteChunk env slot len) := by
  unfold ftpWriteChunk
  dsimp only
  split
  · exact refines_setXfer single slot rfl rfl
  · have kept := refines_setXfer single slot (x := { s.ftpXfer slot with
      wpos := 0, werr := (s.ftpXfer slot).werr || !decide (env.written = some (min len 512)) }) rfl rfl
    exact ⟨kept.step, kept.single⟩

/-- One place of the slot is emptied and closed; the other stays as it is. -/
theorem refines_closePlace {x : FtpXfer} {held : Option File} (ok : Bool)
    (place : held = (s.ftpXfer slot).dl ∧ x.dl = none ∧ x.wr = (s.ftpXfer slot).wr ∨
      held = (s.ftpXfer slot).wr ∧ x.wr = none ∧ x.dl = (s.ftpXfer slot).dl) :
    Refines s ((s.closeHeld held ok).setXfer slot x) := by
  have table : s.holders.table (.ftp slot) = (s.ftpXfer slot).dl.or (s.ftpXfer slot).wr := rfl
  have one := single slot
  rcases held with _ | f
  · refine refines_setXfer single slot ?_ ?_
    · rcases place with ⟨empty, dl, -⟩ | ⟨-, -, dl⟩
      · rw [dl, ← empty]
      · exact dl
    · rcases place with ⟨-, -, wr⟩ | ⟨empty, wr, -⟩
      · exact wr
      · rw [wr, ← empty]
  · have lone : s.holders.table (.ftp slot) = some f ∧ x.dl = none ∧ x.wr = none := by
      rcases place with ⟨held, dl, wr⟩ | ⟨held, wr, dl⟩
      · rw [← held] at one table
        have noWr := one.resolve_left (by simp)
        exact ⟨table.trans Option.some_or, dl, wr.trans noWr⟩
      · rw [← held] at one table
        have noDl := one.resolve_right (by simp)
        exact ⟨by rw [table, noDl, Option.none_or], dl.trans noDl, wr⟩
    refine ⟨?_, (single.of_xfer (by simp)).setXfer slot (.inl lone.2.1)⟩
    rw [holders_closeSlot s slot x _ ok lone.1 lone.2.1 lone.2.2]
    exact .closed _ ok

theorem refines_ftpCloseWrite : Refines s (s.ftpCloseWrite env slot) := by
  unfold ftpCloseWrite
  refine Refines.setRes (refines_closePlace single slot env.close ?_) _
  exact .inr ⟨rfl, rfl, rfl⟩

theorem refines_ftpReadChunk : Refines s (s.ftpReadChunk env slot) := by
  unfold ftpReadChunk
  dsimp only
  split
  · exact .of_eq single rfl rfl rfl rfl rfl
  split
  · exact refines_closePlace single slot env.close (.inl ⟨rfl, rfl, rfl⟩)
  generalize (if (s.ftpXfer slot).dl.isSome = true then env.read.take 2048 else []) = buf
  split
  · exact refines_closePlace single slot env.close (.inl ⟨rfl, rfl, rfl⟩)
  · exact refines_setXfer single slot rfl rfl

end Slot

/-! ## Downloads -/

theorem holders_openDl (s : Store) (dl : FileDl) :
    ({ (s.openWith .dl).1 with fileDl := dl, downloadFile := some s.ledger.next } : Store).holders =
      s.holders.opening .dl :=
  Holders_ext (fun c => by cases c <;> rfl) rfl rfl

theorem refines_fileOpen {s : Store} (single : s.Single) (env : LfsEnv) (name : FileName) :
    Refines s (s.fileOpen env name) := by
  have closed : (s.downloadReset env).holders = s.holders.close .dl env.close := holders_closeDl ..
  have single' : (s.downloadReset env).Single := single.of_xfer (xfer_closeHeld ..)
  have emptied : Refines s (s.downloadReset env) := ⟨closed ▸ .closed _ _, single'⟩
  unfold fileOpen
  dsimp only
  rcases bad : (s.downloadReset env).fsBad with _ | _
  · rw [if_neg Bool.false_ne_true]
    split
    · exact emptied
    split
    · refine ⟨?_, single'.of_xfer rfl⟩
      rw [show (s.downloadReset env |>.openWith .dl).2 = (s.downloadReset env).ledger.next from rfl,
        holders_openDl, closed]
      exact .reopened .dl env.close (closed ▸ bad)
    · exact emptied
  · rw [if_pos rfl]
    exact emptied

theorem refines_fileChunk {s : Store} (single : s.Single) (env : LfsEnv) : Refines s (s.fileChunk env) := by
  have closed (dl : FileDl) :
      Refines s ({ s with downloadFile := none, fileDl := dl }.closeHeld s.downloadFile env.close) := by
    refine ⟨?_, single.of_xfer (by simp)⟩
    rw [holders_closeDl]
    exact .closed _ _
  unfold fileChunk
  dsimp only
  split
  · exact .of_eq single rfl rfl rfl rfl rfl
  split
  · exact closed _
  generalize (if s.downloadFile.isSome = true then env.read.take 2048 else []) = buf
  split
  · exact closed _
  split
  · exact closed _
  · exact .of_eq single rfl rfl rfl rfl rfl

/-! ## Commands -/

/-- Every command but a history write refines an allowed move of the handles. -/
theorem handleCmd_handles {s : Store} (single : s.Single) (env : LfsEnv) (cmd : StorageCmd)
    (other : ∀ d, cmd ≠ .write d) : Refines s (s.handleCmd env cmd) := by
  cases cmd with
  | write d => exact absurd rfl (other d)
  | closeKeepName =>
    refine ⟨?_, single.of_xfer (xfer_closeHeld ..)⟩
    rw [handleCmd, holders_closeKeepName]
    exact .closed _ _
  | sync => exact .of_eq single rfl rfl rfl rfl rfl
  | cfgSave => exact .of_eq single rfl rfl rfl rfl rfl
  | cfgEraseAll => exact .of_eq single rfl rfl rfl rfl rfl
  | snapReq => exact .of_eq single rfl rfl rfl rfl rfl
  | del name =>
    rw [handleCmd]
    split <;> exact .of_eq single rfl rfl rfl rfl rfl
  | fileOpen name => exact (refines_fileOpen single env name).bump
  | fileChunk => exact (refines_fileChunk single env).bump
  | ftpStat path =>
    rw [handleCmd, ftpStat]
    split <;> exact .of_eq single rfl rfl rfl rfl rfl
  | ftpLs path =>
    rw [handleCmd, ftpLsOf]
    split
    · exact .of_eq single rfl rfl rfl rfl rfl
    · dsimp only
      split <;> exact .of_eq single rfl rfl rfl rfl rfl
  | ftpOpenRead slot path rest => exact ((refines_ftpOpenRead single env slot path rest).setRes _).bump
  | ftpOpenWrite slot path mode => exact (refines_ftpOpenWrite single env slot path mode).bump
  | ftpWriteChunk slot len => exact (refines_ftpWriteChunk single env slot len).bump
  | ftpCloseWrite slot => exact (refines_ftpCloseWrite single env slot).bump
  | ftpReadChunk slot => exact (refines_ftpReadChunk single env slot).bump
  | ftpRemove path =>
    rw [handleCmd, ftpRemove]
    split <;> exact .of_eq single rfl rfl rfl rfl rfl
  | ftpMkdir path => exact .of_eq single rfl rfl rfl rfl rfl
  | ftpRename src dst => exact .of_eq single rfl rfl rfl rfl rfl

end Store

/-! ## History writes -/

/-- `open_append` gets as far as a successful open. -/
def AppendEnv.opens (env : AppendEnv) (paths : LfsPaths) (st : HistState) (create : Bool) : Bool :=
  (st.path paths).isSome && (create || Store.hasRoom env) && env.opened

namespace HistEnv

/-- The remembered file is opened. -/
def retainedOpens (env : HistEnv) (paths : LfsPaths) (st : HistState) : Bool :=
  decide ((Store.resume env st).nameLen > 0) && env.retained.opens paths (Store.resume env st) false

/-- A new file is opened. -/
def freshOpens (env : HistEnv) (paths : LfsPaths) (st : HistState) : Bool :=
  !(env.retainedOpens paths st && env.retained.written) &&
    env.fresh.opens paths ((Store.resume env st).set (makeHistName env.now)) true

end HistEnv

namespace Store

/-- A cell is opened if the condition holds. -/
def openIf (H : Holders Cell) (c : Cell) (b : Bool) : Holders Cell := if b then H.opening c else H

section OpenAppend

variable (s : Store) (env : AppendEnv) (record : List UInt8) (create : Bool)

theorem openAppend_eq :
    s.openAppend env record create =
      if env.opens s.paths s.hist create then
        let t := { (s.openWith .file).1 with openFile := some s.ledger.next }
        if env.written then ({ t with written := t.written ++ [(s.ledger.next, record)] }, true) else (t, false)
      else (s, false) := by
  unfold openAppend AppendEnv.opens
  rcases s.hist.path s.paths with _ | p
  · rfl
  · rcases create with _ | _ <;> rcases hasRoom env with _ | _ <;> rcases env.opened with _ | _ <;> rfl

theorem openAppend_done :
    (s.openAppend env record create).2 = (env.opens s.paths s.hist create && env.written) := by
  rw [openAppend_eq]
  rcases env.opens s.paths s.hist create with _ | _ <;> rcases env.written with _ | _ <;> rfl

theorem holders_openAppend :
    (s.openAppend env record create).1.holders = openIf s.holders .file (env.opens s.paths s.hist create) := by
  rw [openAppend_eq]
  rcases env.opens s.paths s.hist create with _ | _ <;> rcases env.written with _ | _
  · rfl
  · rfl
  · exact Holders_ext (fun c => by cases c <;> rfl) rfl rfl
  · exact Holders_ext (fun c => by cases c <;> rfl) rfl rfl

theorem openAppend_frame :
    (s.openAppend env record create).1.hist = s.hist ∧ (s.openAppend env record create).1.paths = s.paths ∧
      (s.openAppend env record create).1.xfer = s.xfer := by
  rw [openAppend_eq]
  rcases env.opens s.paths s.hist create with _ | _ <;> rcases env.written with _ | _ <;> exact ⟨rfl, rfl, rfl⟩

end OpenAppend

/-- The name under which the history goes on is no handle. -/
theorem holders_hist (s : Store) (st : HistState) : ({ s with hist := st } : Store).holders = s.holders := rfl

theorem holders_cleanupOldFiles (s : Store) (root : List DirEntry) :
    (s.cleanupOldFiles root).holders = s.holders := rfl

theorem xfer_cleanupOldFiles (s : Store) (root : List DirEntry) : (s.cleanupOldFiles root).xfer = s.xfer := rfl

theorem holders_histCreate (s : Store) (env : HistEnv) (record : List UInt8) :
    (s.histCreate env record).holders =
      openIf s.holders .file (env.fresh.opens s.paths (s.hist.set (makeHistName env.now)) true) := by
  unfold histCreate
  generalize s.hist.set (makeHistName env.now) = st
  have opened := holders_openAppend { s with hist := st } env.fresh record true
  dsimp only
  split
  · rw [holders_cleanupOldFiles]
    exact opened
  · exact opened

theorem holders_histReopen (s : Store) (env : HistEnv) (record : List UInt8) :
    (s.histReopen env record).holders =
      openIf (openIf s.holders .file (env.retainedOpens s.paths s.hist)) .file (env.freshOpens s.paths s.hist) := by
  unfold histReopen HistEnv.freshOpens HistEnv.retainedOpens
  generalize resume env s.hist = st
  dsimp only
  by_cases named : st.nameLen > 0
  · have opened : (openAppend { s with hist := st } env.retained record false).1.holders =
        openIf s.holders .file (env.retained.opens s.paths st false) := holders_openAppend ..
    have done : (openAppend { s with hist := st } env.retained record false).2 =
        (env.retained.opens s.paths st false && env.retained.written) := openAppend_done ..
    have frame : (openAppend { s with hist := st } env.retained record false).1.hist = st ∧
        (openAppend { s with hist := st } env.retained record false).1.paths = s.paths :=
      ⟨(openAppend_frame ..).1, (openAppend_frame ..).2.1⟩
    rw [if_pos named, decide_eq_true named, Bool.true_and, ← done, ← opened]
    generalize openAppend { s with hist := st } env.retained record false = r at frame ⊢
    rcases r with ⟨t, _ | _⟩
    · rw [if_neg Bool.false_ne_true, holders_histCreate, frame.1, frame.2, Bool.not_false, Bool.true_and]
    · rfl
  · rw [if_neg named, decide_eq_false named, Bool.false_and, Bool.false_and, Bool.not_false, Bool.true_and,
      if_neg Bool.false_ne_true, holders_histCreate, holders_hist]
    rfl

theorem holders_histWrite (s : Store) (env : HistEnv) (d : HisData) :
    (s.histWrite env d).holders =
      if s.staysOpen env then s.holders
      else openIf (openIf (s.holders.close .file env.closed) .file (env.retainedOpens s.paths s.hist)) .file
        (env.freshOpens s.paths s.hist) := by
  have kept : ({ s with openFile := none }.closeHeld s.openFile env.closed).hist = s.hist ∧
      ({ s with openFile := none }.closeHeld s.openFile env.closed).paths = s.paths := by
    cases s.openFile <;> exact ⟨rfl, rfl⟩
  unfold histWrite
  dsimp only
  split
  · rfl
  · rw [holders_histReopen, holders_closeKeepName, kept.1, kept.2]

theorem xfer_ite (b : Bool) (s t : Store) : (if b then s else t).xfer = if b then s.xfer else t.xfer := by
  cases b <;> rfl

theorem xfer_histCreate (s : Store) (env : HistEnv) (record : List UInt8) :
    (s.histCreate env record).xfer = s.xfer := by
  have frame (st : HistState) : (openAppend { s with hist := st } env.fresh record true).1.xfer = s.xfer :=
    (openAppend_frame ..).2.2
  rw [histCreate, xfer_ite, xfer_cleanupOldFiles, frame, ite_self]

theorem xfer_histReopen (s : Store) (env : HistEnv) (record : List UInt8) :
    (s.histReopen env record).xfer = s.xfer := by
  have frame (st : HistState) : (openAppend { s with hist := st } env.retained record false).1.xfer = s.xfer :=
    (openAppend_frame ..).2.2
  rw [histReopen, xfer_ite, xfer_histCreate, ite_self]
  split
  · exact frame _
  · rfl

theorem xfer_histWrite (s : Store) (env : HistEnv) (d : HisData) : (s.histWrite env d).xfer = s.xfer := by
  unfold histWrite
  dsimp only
  split
  · rfl
  · rw [xfer_histReopen, xfer_closeHeld]

/-! ## The rule, step by step -/

/-- A record is written at all. -/
def recording (s : Store) (env : LfsEnv) : Bool :=
  s.regs.getHolding (UInt16.ofNat holdingHistoryEnableIdx) != 0 && !env.fwActive && !s.fsBad

/-- A history write opens a file although its old file could not be closed, or opens a new file over
one it has just opened. -/
def ReusesCell (s : Store) (env : HistEnv) : Prop :=
  s.staysOpen env = false ∧
    (s.openFile.isSome ∧ env.closed = false ∧ (env.retainedOpens s.paths s.hist ∨ env.freshOpens s.paths s.hist) ∨
      env.retainedOpens s.paths s.hist ∧ env.freshOpens s.paths s.hist)

/-- The command is such a history write. -/
def Reuses (s : Store) (env : LfsEnv) : StorageCmd → Prop
  | .write _ => s.recording env ∧ s.ReusesCell env.hist
  | _ => False

theorem handleCmd_write (s : Store) (env : LfsEnv) (d : HisData) :
    s.handleCmd env (.write d) = if s.recording env then s.histWrite env.hist d else s := rfl

theorem single_handleCmd {s : Store} (single : s.Single) (env : LfsEnv) (cmd : StorageCmd) :
    (s.handleCmd env cmd).Single := by
  by_cases write : ∃ d, cmd = .write d
  · obtain ⟨d, rfl⟩ := write
    rw [handleCmd_write]
    split
    · exact single.of_xfer (xfer_histWrite ..)
    · exact single
  · exact (handleCmd_handles single env cmd fun d same => write ⟨d, same⟩).single

section OpenIf

variable {H : Holders Cell} {c : Cell} {b : Bool}

theorem sound_openIf (sound : H.Sound) : (openIf H c b).Sound := by
  cases b
  · exact sound
  · exact sound.opening c

theorem oneOwner_of_openIf (owner : OneOwner (openIf H c b).ledger.events) : OneOwner H.ledger.events := by
  cases b
  · exact owner
  · exact (Ledger.oneOwner_opening.1 owner).1

/-- Opening over an open file breaks the rule, however often. -/
theorem not_oneOwner_openIf {h : ℕ} {b' : Bool} (occupied : H.ledger.Occupied c h) (opens : b ∨ b') :
    ¬ OneOwner (openIf (openIf H c b) c b').ledger.events := by
  intro owner
  cases b with
  | true => exact Holders.not_oneOwner_opening occupied (oneOwner_of_openIf owner)
  | false =>
    obtain rfl : b' = true := by simpa using opens
    exact Holders.not_oneOwner_opening occupied owner

end OpenIf

theorem sound_handleCmd {s : Store} (single : s.Single) (sound : s.holders.Sound) (env : LfsEnv)
    (cmd : StorageCmd) : (s.handleCmd env cmd).holders.Sound := by
  by_cases write : ∃ d, cmd = .write d
  · obtain ⟨d, rfl⟩ := write
    rw [handleCmd_write]
    split
    · rw [holders_histWrite]
      split
      · exact sound
      · exact sound_openIf (sound_openIf (sound.close _ _))
    · exact sound
  · exact (handleCmd_handles single env cmd fun d same => write ⟨d, same⟩).step.sound sound

theorem oneOwner_of_handleCmd {s : Store} (single : s.Single) (env : LfsEnv) (cmd : StorageCmd)
    (owner : OneOwner (s.handleCmd env cmd).ledger.events) : OneOwner s.ledger.events := by
  by_cases write : ∃ d, cmd = .write d
  · obtain ⟨d, rfl⟩ := write
    rw [handleCmd_write] at owner
    split at owner
    · have holders := congrArg (fun H : Holders Cell => OneOwner H.ledger.events) (holders_histWrite s env.hist d)
      have owner' := holders.mp owner
      split at owner'
      · exact owner'
      · exact (Holders.oneOwner_close _ _ _).1 (oneOwner_of_openIf (oneOwner_of_openIf owner'))
    · exact owner
  · exact (handleCmd_handles single env cmd fun d same => write ⟨d, same⟩).step.oneOwner_before owner

/-- A history write that reuses the cell breaks the rule. -/
theorem not_oneOwner_of_reuses {s : Store} (sound : s.holders.Sound) {env : LfsEnv} {cmd : StorageCmd}
    (reuses : s.Reuses env cmd) : ¬ OneOwner (s.handleCmd env cmd).ledger.events := by
  cases cmd with
  | write d =>
    obtain ⟨recording, slow, reuses⟩ := reuses
    have holders := holders_histWrite s env.hist d
    rw [slow, if_neg Bool.false_ne_true] at holders
    rw [handleCmd_write, if_pos recording]
    show ¬ OneOwner (s.histWrite env.hist d).holders.ledger.events
    rw [holders]
    rcases reuses with ⟨isOpen, failed, opens⟩ | ⟨first, second⟩
    · obtain ⟨f, held⟩ := Option.isSome_iff_exists.1 isOpen
      have occupied := sound .file f held
      refine not_oneOwner_openIf (h := f) ?_ opens
      rw [failed, Holders.close_held held]
      exact Ledger.occupied_closing_false.2 occupied
    · rw [first, second]
      exact Holders.not_oneOwner_opening (Ledger.occupied_opening.2 (.inl ⟨rfl, rfl⟩))
  | _ => cases reuses

/-- A history write that opens one file, with its old one closed, keeps track of the open files. -/
theorem tracked_histWrite {s : Store} (tracked : s.holders.Tracked) (good : s.fsBad = false) {env : HistEnv}
    (d : HisData) (clean : ¬ s.ReusesCell env) :
    (s.histWrite env d).holders.Tracked ∧
      (OneOwner s.ledger.events → OneOwner (s.histWrite env d).ledger.events) := by
  show (s.histWrite env d).holders.Tracked ∧
    (OneOwner s.holders.ledger.events → OneOwner (s.histWrite env d).holders.ledger.events)
  rw [holders_histWrite]
  rcases stays : s.staysOpen env with _ | _
  · rw [if_neg Bool.false_ne_true]
    have closed := tracked.close .file env.closed
    have free := Holders.table_close_self s.holders .file env.closed
    have owner := (Holders.oneOwner_close s.holders .file env.closed).2
    have fine (opens : env.retainedOpens s.paths s.hist ∨ env.freshOpens s.paths s.hist) :
        (s.holders.close .file env.closed).bad = false := by
      rcases held : s.holders.table .file with _ | f
      · rw [Holders.close_empty held]
        exact good
      · have ok : env.closed = true := by
          by_contra failed
          have isOpen : s.openFile.isSome := Option.isSome_iff_exists.2 ⟨f, held⟩
          exact clean ⟨stays, .inl ⟨isOpen, Bool.eq_false_of_not_eq_true failed, opens⟩⟩
        rw [Holders.close_held held, ok]
        exact (Bool.or_false _).trans good
    have opening (opens : env.retainedOpens s.paths s.hist ∨ env.freshOpens s.paths s.hist) :
        ((s.holders.close .file env.closed).opening .file).Tracked ∧ (OneOwner s.holders.ledger.events →
          OneOwner ((s.holders.close .file env.closed).opening .file).ledger.events) :=
      ⟨closed.opening free, fun before => (Holders.oneOwner_opening closed (fine opens) free).2 (owner before)⟩
    rcases first : env.retainedOpens s.paths s.hist with _ | _ <;>
      rcases second : env.freshOpens s.paths s.hist with _ | _
    · exact ⟨closed, owner⟩
    · exact opening (.inr second)
    · exact opening (.inl first)
    · exact absurd ⟨stays, .inr ⟨first, second⟩⟩ clean
  · rw [if_pos rfl]
    exact ⟨tracked, id⟩

/-- Any other command keeps it, and keeps track of the open files. -/
theorem tracked_handleCmd {s : Store} (single : s.Single) (tracked : s.holders.Tracked) {env : LfsEnv}
    {cmd : StorageCmd} (clean : ¬ s.Reuses env cmd) :
    (s.handleCmd env cmd).holders.Tracked ∧
      (OneOwner s.ledger.events → OneOwner (s.handleCmd env cmd).ledger.events) := by
  by_cases write : ∃ d, cmd = .write d
  · obtain ⟨d, rfl⟩ := write
    rw [handleCmd_write]
    by_cases recording : s.recording env = true
    · rw [if_pos recording]
      exact tracked_histWrite tracked (by simp_all [Store.recording]) d fun reuses => clean ⟨recording, reuses⟩
    · rw [if_neg recording]
      exact ⟨tracked, id⟩
  · have step := (handleCmd_handles single env cmd fun d same => write ⟨d, same⟩).step
    exact ⟨step.tracked tracked, (step.oneOwner tracked).2⟩

/-! ## Whole runs -/

/-- The task after some commands, each with what littlefs answered. -/
def run (s : Store) (steps : List (LfsEnv × StorageCmd)) : Store :=
  steps.foldl (fun s step => s.handleCmd step.1 step.2) s

theorem run_snoc (s : Store) (steps : List (LfsEnv × StorageCmd)) (step : LfsEnv × StorageCmd) :
    s.run (steps ++ [step]) = (s.run steps).handleCmd step.1 step.2 := by
  simp [run]

theorem run_kept {Q : Store → Prop} {s : Store} (init : Q s)
    (keeps : ∀ s env cmd, Q s → Q (s.handleCmd env cmd)) (steps : List (LfsEnv × StorageCmd)) :
    Q (s.run steps) :=
  Run.kept (Q := fun _ => Q) init (fun _ s step => keeps s step.1 step.2) steps

/-- No command of the run was a history write that reuses its cell. -/
def Clean (s : Store) : List (LfsEnv × StorageCmd) → Prop :=
  Run.Each fun before step => ¬ (s.run before).Reuses step.1 step.2

section Run

variable (paths : LfsPaths) (nor : W25q) (regs : RegMap) (cfg : Option ℕ × UInt32)

theorem single_new : (new paths nor regs cfg).Single := by
  intro slot
  left
  simp [new, ftpXfer, FtpXfer.new]

theorem sound_new : (new paths nor regs cfg).holders.Sound := by
  intro c h held
  cases c <;> simp [new, holders, ftpXfer, FtpXfer.new] at held

theorem single_run (steps : List (LfsEnv × StorageCmd)) : ((new paths nor regs cfg).run steps).Single :=
  run_kept (single_new paths nor regs cfg) (fun _ env cmd single => single_handleCmd single env cmd) steps

theorem sound_run (steps : List (LfsEnv × StorageCmd)) : ((new paths nor regs cfg).run steps).holders.Sound := by
  have start : (new paths nor regs cfg).Single ∧ (new paths nor regs cfg).holders.Sound :=
    ⟨single_new paths nor regs cfg, sound_new paths nor regs cfg⟩
  refine (run_kept (Q := fun s => s.Single ∧ s.holders.Sound) start ?_ steps).2
  rintro s env cmd ⟨single, sound⟩
  exact ⟨single_handleCmd single env cmd, sound_handleCmd single sound env cmd⟩

theorem tracked_run {steps : List (LfsEnv × StorageCmd)} (clean : (new paths nor regs cfg).Clean steps) :
    ((new paths nor regs cfg).run steps).holders.Tracked := by
  induction steps using List.reverseRecOn with
  | nil =>
    rintro c h ⟨opened, -⟩
    cases opened
  | append_singleton steps step ih =>
    obtain ⟨before, last⟩ := Run.each_snoc.1 clean
    rw [run_snoc]
    exact (tracked_handleCmd (single_run paths nor regs cfg steps) (ih before) last).1

/-- Whatever commands the task handles and whatever littlefs answers, a file is opened with an
allocation cell that is still in use exactly if some history write opens a file although its old one
could not be closed, or opens a new file over one whose first write failed. -/
theorem one_owner_iff (steps : List (LfsEnv × StorageCmd)) :
    OneOwner ((new paths nor regs cfg).run steps).ledger.events ↔ (new paths nor regs cfg).Clean steps := by
  induction steps using List.reverseRecOn with
  | nil => exact ⟨fun _ => Run.each_nil, fun _ => Run.each_nil⟩
  | append_singleton steps step ih =>
    rw [Clean, Run.each_snoc, run_snoc, ← Clean, ← ih]
    constructor
    · intro owner
      refine ⟨oneOwner_of_handleCmd (single_run paths nor regs cfg steps) _ _ owner, fun reuses => ?_⟩
      exact not_oneOwner_of_reuses (sound_run paths nor regs cfg steps) reuses owner
    · rintro ⟨owner, last⟩
      exact (tracked_handleCmd (single_run paths nor regs cfg steps)
        (tracked_run paths nor regs cfg (ih.1 owner)) last).2 owner

end Run

/-! ## The two ways to a second owner -/

/-- The task on a device that records its history. -/
def recorder : Store :=
  let regs := RegMap.new 0
  new .documented ⟨fun _ => 0xFF, [], 0⟩ { regs with holding := regs.holding.set holdingHistoryEnableIdx 1 } (none, 0)

/-- A history record. -/
def record : StorageCmd := .write (.di 0 1 1)

/-- The open file has grown to 1 MiB, and its close fails. -/
def failedClose : LfsEnv :=
  { allWell with hist :=
    { allWell.hist with
      len := some histFileMax
      closed := false
      retained := { allWell.hist.retained with metadata := some ⟨false, histFileMax⟩ } } }

/-- The open file is closed; the same file is opened again but still takes nothing. -/
def failedWrite : LfsEnv :=
  { allWell with hist :=
    { allWell.hist with written := false, retained := { allWell.hist.retained with written := false } } }

theorem events_failedClose :
    (recorder.run [(allWell, record), (failedClose, record)]).ledger.events =
      [.opened .file 0, .closeFailed 0, .opened .file 1] := by
  decide +kernel

theorem events_failedWrite :
    (recorder.run [(allWell, record), (failedWrite, record)]).ledger.events =
      [.opened .file 0, .closed 0, .opened .file 1, .opened .file 2] := by
  decide +kernel

/-- A second history record opens `FILE_ALLOC` again while the file before it is still linked: after a rotation
whose close fails, and after a failed first write. -/
theorem history_write_reuses_cell :
    ¬ OneOwner (recorder.run [(allWell, record), (failedClose, record)]).ledger.events ∧
      ¬ OneOwner (recorder.run [(allWell, record), (failedWrite, record)]).ledger.events := by
  rw [events_failedClose, events_failedWrite]
  refine ⟨fun owner => ?_, fun owner => ?_⟩
  · exact owner [.opened .file 0, .closeFailed 0] _ [] rfl .file 1 rfl 0 ⟨by decide, by decide⟩
  · exact owner [.opened .file 0, .closed 0, .opened .file 1] _ [] rfl .file 2 rfl 1 ⟨by decide, by decide⟩

end Store

end IoEdgeHub
