import IoEdgeHub.Firmware.FlashRegions

/-!
# One flash, three users

The upgrade session, the configuration store and littlefs work on one chip through `nor_with`, in whatever order their
tasks take turns, and any flash command may fail.  Their regions are disjoint, so each of them goes through every such
run as if it were alone (`flash_alone`), and an image that is being uploaded ends up in slot1 whatever else is saved in
between (`image_shared`).
-/

namespace IoEdgeHub

open Regions Carrier

/-! ## The upgrade session -/

/-- What a transport is answered. -/
inductive FwAnswer where
  | started (rc : ℤ)
  | written (ok : Bool)
  | finished (ok : Bool)
  | pending (ok : Bool)

/-- The session without its driver, the data of the writes it has accepted, and all answers so far. -/
structure FwRam where
  active : Bool
  failed : Bool
  total : ℕ
  written : ℕ
  page : List UInt8
  inside : written + page.length ≤ total ∧ total ≤ slot1Size
  accepted : List UInt8
  answers : List FwAnswer

/-- What the transports do: a session that ends well is marked for the bootloader in the same turn.  A power cut
resets the session. -/
inductive FwTurn where
  | call (op : FwOp)
  | confirm (crc : Option (BitVec 16)) (permanent : Bool)
  | reset

namespace FwRam

/-- An idle session. -/
def new : FwRam := ⟨false, false, 0, 0, [], by decide, [], []⟩

/-- The session on a driver. -/
def run (ram : FwRam) (nor : W25q) : FwRun :=
  ⟨⟨ram.active, ram.failed, ram.total, ram.written, ram.page, nor⟩, ram.accepted⟩

theorem inside_run (ram : FwRam) (nor : W25q) : (ram.run nor).fw.Inside := ram.inside

/-- What a run keeps apart from the array. -/
def of (r : FwRun) (inside : r.fw.Inside) (answers : List FwAnswer) : FwRam :=
  ⟨r.fw.active, r.fw.failed, r.fw.total, r.fw.written, r.fw.page, inside, r.accepted, answers⟩

end FwRam

/-- What a call returns. -/
def FwOp.answers (s : Fw) : FwOp → List FwAnswer
  | .start total keyhash => [.started (s.start total keyhash).2]
  | .write data => [.written (s.write data).2]
  | .abort => []
  | .finish crc => [.finished (s.finish crc).2]

/-- One turn of an upload, and what it is answered. -/
def FwTurn.perform (r : FwRun) : FwTurn → FwRun × List FwAnswer
  | .call op => (r.step op, op.answers r.fw)
  | .confirm crc permanent =>
    let (fw, ok) := r.fw.finish crc
    if ok then
      let (nor, marked) := bootSetPending fw.nor permanent
      ({ r with fw := { fw with nor } }, [.finished true, .pending marked])
    else ({ r with fw }, [.finished false])
  | .reset => (⟨.new r.fw.nor, []⟩, [])

instance : Carrier FwRun ℕ UInt8 :=
  ⟨fun r => r.fw.nor.mem, fun r m => { r with fw := put r.fw m }, fun _ _ => rfl⟩

theorem FwRun.inside_step {r : FwRun} (inside : r.fw.Inside) (op : FwOp) : (r.step op).fw.Inside := by
  cases op with
  | start total keyhash => exact inside.start total keyhash
  | write data => exact inside.write data
  | abort => exact inside.abort
  | finish crc => exact inside.finish crc

theorem FwTurn.inside_perform {r : FwRun} (inside : r.fw.Inside) (t : FwTurn) : (t.perform r).1.fw.Inside := by
  cases t with
  | call op => exact FwRun.inside_step inside op
  | confirm crc permanent =>
    have ended := inside.finish crc
    unfold perform
    dsimp only
    split <;> exact ended
  | reset => exact ⟨Nat.zero_le 0, Nat.zero_le _⟩

section Firmware

variable {R : Type*} {r : FwRun}

theorem within_fw {f : Fw → Fw × R} (within : Within slot1Region f r.fw) (k : List UInt8 → R → List UInt8)
    (answers : R → List FwAnswer) :
    Within slot1Region (fun r : FwRun => (⟨(f r.fw).1, k r.accepted (f r.fw).2⟩, answers (f r.fw).2)) r where
  kept := within.kept
  same m same := by
    obtain ⟨m', same', eq⟩ := within.same m same
    refine ⟨m', same', ?_⟩
    change ((⟨(f (put r.fw m)).1, k r.accepted (f (put r.fw m)).2⟩ : FwRun), answers (f (put r.fw m)).2) = _
    rw [eq]
    rfl

theorem FwTurn.within_perform (inside : r.fw.Inside) (t : FwTurn) : Within slot1Region (fun r => t.perform r) r := by
  cases t with
  | call op =>
    cases op with
    | start total keyhash =>
      exact within_fw (Fw.within_start total keyhash) (fun all rc => if rc = 0 then [] else all) fun rc => [.started rc]
    | write data =>
      exact within_fw (Fw.within_write inside.2) (fun all ok => if ok then all ++ data else all) fun ok => [.written ok]
    | abort => exact ⟨fun _ _ => rfl, fun m same => ⟨m, same, rfl⟩⟩
    | finish crc => exact within_fw (Fw.within_finish inside crc) (fun all _ => all) fun ok => [.finished ok]
  | confirm crc permanent =>
    have pending (s : Fw) : Within slot1Region (fun s : Fw =>
        ({ s with nor := (bootSetPending s.nor permanent).1 }, (bootSetPending s.nor permanent).2)) s :=
      Fw.within_nor (within_bootSetPending permanent)
    -- no answer of the flag stands for a session that did not end well
    have both := (Fw.within_finish inside crc).bind (g := fun ok s =>
      if ok then ({ s with nor := (bootSetPending s.nor permanent).1 }, some (bootSetPending s.nor permanent).2)
      else (s, none)) (by
      split
      · exact (pending _).bind (g := fun marked s => (s, some marked)) (within_pure _)
      · exact within_pure none)
    refine (within_fw both (fun all _ => all) fun
      | some marked => [.finished true, .pending marked]
      | none => [.finished false]).of_eq fun r => ?_
    unfold perform
    dsimp only
    split <;> rfl
  | reset => exact ⟨fun _ _ => rfl, fun m same => ⟨m, same, rfl⟩⟩

end Firmware

theorem FwRam.of_congr {r r' : FwRun} (inside : r.fw.Inside) (inside' : r'.fw.Inside) {m : Nor.Mem} (eq : r' = put r m)
    {answers answers' : List FwAnswer} (same : answers = answers') :
    FwRam.of r inside answers = FwRam.of r' inside' answers' := by
  subst eq same
  rfl

/-- The session as a user of the flash; each turn comes with the outcomes of its commands. -/
def fwUser : User ℕ UInt8 where
  State := FwRam
  Op := FwTurn × List Outcome
  region := slot1Region
  act ram m o :=
    let r := o.1.perform (ram.run ⟨m, o.2, 0⟩)
    (.of r.1 (o.1.inside_perform (ram.inside_run _)) (ram.answers ++ r.2), r.1.fw.nor.mem)
  kept ram m o := (o.1.within_perform (ram.inside_run ⟨m, o.2, 0⟩)).kept
  same ram o m m' same := by
    obtain ⟨m'', same', eq⟩ := (o.1.within_perform (ram.inside_run ⟨m, o.2, 0⟩)).same m' same
    have there : o.1.perform (ram.run ⟨m', o.2, 0⟩) =
        (put (o.1.perform (ram.run ⟨m, o.2, 0⟩)).1 m'', (o.1.perform (ram.run ⟨m, o.2, 0⟩)).2) := eq
    refine ⟨FwRam.of_congr _ _ (congrArg Prod.fst there) (congrArg (ram.answers ++ ·.2) there).symm, ?_⟩
    change Set.EqOn _ (o.1.perform (ram.run ⟨m', o.2, 0⟩)).1.fw.nor.mem slot1Region
    rw [there]
    exact same'

/-! ## The configuration store -/

/-- The registers, `CFG`, and whether each save and reset so far succeeded. -/
structure CfgRam where
  regs : RegMap
  cfg : Option ℕ × UInt32
  answers : List Bool

/-- A turn of the configuration store. -/
inductive CfgTurn where
  | boot
  | save
  | eraseAll
  | write (regs : RegMap)

/-- `v` is the version register at boot. -/
def CfgTurn.perform (v : UInt16) (ram : CfgRam) : CfgTurn → W25q → W25q × CfgRam
  | .boot, w =>
    let (w, _, cfg, regs) := bootConfigLoad w (RegMap.new v)
    (w, ⟨regs, cfg, []⟩)
  | .save, w =>
    let (w, cfg, ok) := cfgSave w ram.regs ram.cfg
    (w, { ram with cfg, answers := ram.answers ++ [ok] })
  | .eraseAll, w =>
    let (w, cfg, regs, ok) := cfgEraseAll w ram.regs ram.cfg
    (w, { ram with regs, cfg, answers := ram.answers ++ [ok] })
  | .write regs, w => (w, { ram with regs })

theorem CfgTurn.within_perform (v : UInt16) (ram : CfgRam) (t : CfgTurn) (w : W25q) :
    Within cfgRegion (t.perform v ram) w := by
  cases t with
  | boot =>
    exact (within_bootConfigLoad (RegMap.new v)).bind (g := fun x w => (w, CfgRam.mk x.2.2 x.2.1 [])) (within_pure _)
  | save =>
    exact (within_cfgSave ram.regs ram.cfg).bind
      (g := fun x w => (w, { ram with cfg := x.1, answers := ram.answers ++ [x.2] })) (within_pure _)
  | eraseAll =>
    exact (within_cfgEraseAll ram.regs ram.cfg).bind
      (g := fun x w => (w, { ram with regs := x.2.1, cfg := x.1, answers := ram.answers ++ [x.2.2] })) (within_pure _)
  | write regs => exact within_pure _

/-- A user of the flash whose turns are programs of the driver, with the private state as their result. -/
def driverUser {S O : Type} (region : Set ℕ) (perform : S → O → W25q → W25q × S)
    (within : ∀ s o w, Within region (perform s o) w) : User ℕ UInt8 where
  State := S
  Op := O × List Outcome
  region
  act s m o :=
    let r := perform s o.1 ⟨m, o.2, 0⟩
    (r.2, r.1.mem)
  kept s m o := (within s o.1 ⟨m, o.2, 0⟩).kept
  same s o m m' same := by
    obtain ⟨answer, region⟩ := (within s o.1 ⟨m, o.2, 0⟩).agree same
    exact ⟨answer.symm, region⟩

/-- The configuration store in its region. -/
def cfgUser (v : UInt16) : User ℕ UInt8 :=
  driverUser cfgRegion (fun ram (t : CfgTurn) => t.perform v ram) (CfgTurn.within_perform v)

/-! ## Littlefs -/

/-- What littlefs asks for lies within its blocks. -/
inductive LfsTurn where
  | read (off len : ℕ) (fits : off + len ≤ 4096 * LfsNor.lfsBlockCount)
  | write (off : ℕ) (data : List UInt8) (fits : off + data.length ≤ 4096 * LfsNor.lfsBlockCount)
  | erase (off len : ℕ) (fits : off + len ≤ 4096 * LfsNor.lfsBlockCount)

/-- What it was answered. -/
inductive LfsAnswer where
  | bytes (data : Option (List UInt8))
  | count (len : Option ℕ)

/-- One call of littlefs. -/
def LfsTurn.perform (answers : List LfsAnswer) : LfsTurn → W25q → W25q × List LfsAnswer
  | .read off len _, w =>
    let (w, data) := LfsNor.read W25q.flash w off len
    (w, answers ++ [.bytes data])
  | .write off data _, w =>
    let (w, len) := (LfsNor.write W25q.flash w off data).getD (w, none)
    (w, answers ++ [.count len])
  | .erase off len _, w =>
    let (w, len) := LfsNor.erase W25q.flash w off len
    (w, answers ++ [.count len])

theorem LfsTurn.within_perform (answers : List LfsAnswer) (t : LfsTurn) (w : W25q) :
    Within LfsNor.lfsRegion (t.perform answers) w := by
  cases t with
  | read off len fits =>
    exact (LfsNor.within_read fits).bind (g := fun x w => (w, answers ++ [.bytes x])) (within_pure _)
  | write off data fits =>
    exact (LfsNor.within_write fits).bind (g := fun x w => (w, answers ++ [.count x])) (within_pure _)
  | erase off len fits =>
    exact (LfsNor.within_erase fits).bind (g := fun x w => (w, answers ++ [.count x])) (within_pure _)

/-- Littlefs in its region. -/
def lfsUser : User ℕ UInt8 :=
  driverUser LfsNor.lfsRegion (fun answers (t : LfsTurn) => t.perform answers) LfsTurn.within_perform

/-! ## The flash -/

/-- Who uses the flash. -/
inductive FlashUser where
  | firmware
  | config
  | files
deriving DecidableEq

/-- The three users. -/
def flashUsers (v : UInt16) : FlashUser → User ℕ UInt8
  | .firmware => fwUser
  | .config => cfgUser v
  | .files => lfsUser

theorem flashUsers_apart (v : UInt16) :
    Pairwise fun a b => Disjoint (flashUsers v a).region (flashUsers v b).region := by
  have slot1_config : Disjoint slot1Region cfgRegion := Set.Ico_disjoint_Ico.2 (by decide)
  have slot1_files : Disjoint slot1Region LfsNor.lfsRegion := Set.Ico_disjoint_Ico.2 (by decide)
  have config_files : Disjoint cfgRegion LfsNor.lfsRegion := Set.Ico_disjoint_Ico.2 (by decide)
  intro a b ne
  cases a <;> cases b
  · exact absurd rfl ne
  · exact slot1_config
  · exact slot1_files
  · exact slot1_config.symm
  · exact absurd rfl ne
  · exact config_files
  · exact slot1_files.symm
  · exact config_files.symm
  · exact absurd rfl ne

theorem flashUsers_inside (v : UInt16) (u : FlashUser) {a : ℕ} (inside : a ∈ (flashUsers v u).region) :
    a < slot1Size ∨ cfgSlotA ≤ a ∧ a < W25q.chipSize := by
  cases u with
  | firmware => exact .inl inside.2
  | config => exact .inr ⟨inside.1, Nat.lt_of_lt_of_le inside.2 (by decide)⟩
  | files => exact .inr ⟨Nat.le_trans (by decide) inside.1, inside.2⟩

/-- The flash after turns of its users in any order. -/
def flashRun (v : UInt16) (turns : List (Σ u, (flashUsers v u).Op)) (x : Shared (flashUsers v)) :
    Shared (flashUsers v) :=
  turns.foldl (turn (flashUsers v)) x

/-- Whatever the others do in between, and whatever commands fail, each user of the flash is answered as if it were
alone, and its region ends up the same; what lies between the regions never changes. -/
theorem flash_alone (v : UInt16) (turns : List (Σ u, (flashUsers v u).Op)) (x : Shared (flashUsers v)) :
    (∀ u, let mine := (own (flashUsers v) u turns).foldl (flashUsers v u).alone (x.1 u, x.2)
      (flashRun v turns x).1 u = mine.1 ∧ Set.EqOn (flashRun v turns x).2 mine.2 (flashUsers v u).region) ∧
    ∀ a, slot1Size ≤ a → a < cfgSlotA ∨ W25q.chipSize ≤ a → (flashRun v turns x).2 a = x.2 a := by
  refine ⟨fun u => run_alone (flashUsers_apart v) u turns x, fun a lo hi => ?_⟩
  apply run_unowned
  intro u inside
  rcases flashUsers_inside v u inside with slot1 | ⟨config, chip⟩
  · exact Nat.not_lt.2 lo slot1
  · rcases hi with below | above
    · exact Nat.not_lt.2 config below
    · exact Nat.not_lt.2 above chip

/-! ## The image -/

theorem Fw.Holds.congr {s t : Fw} {bytes : List UInt8} (h : s.Holds bytes) (total : t.total = s.total)
    (written : t.written = s.written) (page : t.page = s.page) (same : Set.EqOn s.nor.mem t.nor.mem slot1Region) :
    t.Holds bytes where
  size := total ▸ h.size
  aligned := written ▸ h.aligned
  page_lt := page ▸ h.page_lt
  fits := by
    rw [total, written, page]
    exact h.fits
  contents := by
    have inside := h.fits.trans h.size.2
    rw [written, page, ← h.contents, Nor.read_congr fun a lo hi => (same ⟨lo, by omega⟩).symm]
  blank a lo hi := by
    rw [written] at lo hi
    have inside := h.fits.trans h.size.2
    rw [← same ⟨Nat.zero_le a, by omega⟩]
    exact h.blank a lo hi

theorem FwTurn.sound_perform {r : FwRun} (sound : r.Sound) (t : FwTurn) : (t.perform r).1.Sound := by
  cases t with
  | call op => exact (FwRun.step_sound sound op).1
  | confirm crc permanent =>
    have ended := r.fw.finish_active crc
    intro active
    unfold perform at active
    dsimp only at active
    split at active <;> exact absurd (active.symm.trans ended) Bool.noConfusion
  | reset => exact nofun

/-- The session that runs alone holds what it accepted. -/
theorem fwUser_sound (ops : List fwUser.Op) (m : Nor.Mem) :
    let mine := ops.foldl fwUser.alone (FwRam.new, m)
    (FwRam.run mine.1 ⟨mine.2, [], 0⟩).Sound := by
  refine Run.kept (Q := fun _ (x : FwRam × Nor.Mem) => (FwRam.run x.1 ⟨x.2, [], 0⟩).Sound) ?_ ?_ ops
  · exact nofun
  · intro before x o sound active failed
    have before : (FwRam.run x.1 ⟨x.2, o.2, 0⟩).Sound := fun active failed =>
      (sound active failed).congr rfl rfl rfl fun _ _ => rfl
    have next := o.1.sound_perform before
    exact (next active failed).congr rfl rfl rfl fun _ _ => rfl

/-- Nothing has run yet. -/
def flashStart (v : UInt16) (ram : CfgRam) (m : Nor.Mem) : Shared (flashUsers v) :=
  (fun
    | .firmware => FwRam.new
    | .config => ram
    | .files => ([] : List LfsAnswer), m)

/-- While configurations are saved and files are written, a running upgrade keeps exactly the data it accepted, in slot1
and in the page buffer, and one that ends well has left just this data in slot1. -/
theorem image_shared (v : UInt16) (ram : CfgRam) (m : Nor.Mem) (turns : List (Σ u, (flashUsers v u).Op)) :
    let out := flashRun v turns (flashStart v ram m)
    let s : FwRam := out.1 .firmware
    (s.active = true → s.failed = false → Nor.read out.2 0 s.written ++ s.page = s.accepted ∧
      ∀ a, s.written ≤ a → a < slot1Size → out.2 a = 0xFF) ∧
    ∀ crc plan, let r := (s.run ⟨out.2, plan, 0⟩).fw.finish crc
      r.2 = true → Nor.read r.1.nor.mem 0 s.total = s.accepted ∧ s.accepted.length = s.total ∧
        ∀ c, crc = some c → c = crc16Ccitt 0 s.accepted := by
  intro out s
  obtain ⟨state, region⟩ := run_alone (flashUsers_apart v) .firmware turns (flashStart v ram m)
  have alone := fwUser_sound (own (flashUsers v) .firmware turns) m
  have sound (plan : List Outcome) : (s.run ⟨out.2, plan, 0⟩).Sound := by
    change s = _ at state
    rw [state]
    exact fun active failed => (alone active failed).congr rfl rfl rfl region.symm
  refine ⟨fun active failed => ?_, fun crc plan ok => ?_⟩
  · have h := sound [] active failed
    exact ⟨h.contents, fun a lo hi => h.blank a lo (by change a < s.written + (slot1Size - s.written); omega)⟩
  · obtain ⟨active, failed, -⟩ := Fw.finish_ok ok
    obtain ⟨contents, length, same, -⟩ := Fw.finish_holds ok (sound plan active failed)
    exact ⟨contents, length, same⟩

end IoEdgeHub
