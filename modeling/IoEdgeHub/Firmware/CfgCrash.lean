import IoEdgeHub.Lib.Run
import IoEdgeHub.Firmware.CfgStorage

/-!
# The configuration survives crashes

Runs of a device through saves, power cuts, register writes and reboots.  A boot reads the two
slots and finds again what `CFG` tracked, because a save only ever touches the other slot and a
newer generation only appears there.
-/

namespace IoEdgeHub

/-- The device between two steps.  `active` is no variable of the firmware: it is the configuration
that was last saved or loaded, which the slot tracked in `cfg` should hold. -/
structure Device where
  mem : Nor.Mem
  regs : RegMap
  cfg : Option ℕ × UInt32
  active : IoCfg

namespace Device

/-- Start on the array as it is; the reads of the boot succeed. -/
def boot (v : UInt16) (mem : Nor.Mem) : Device :=
  let (_, active, cfg, regs) := bootConfigLoad ⟨mem, [], 0⟩ (RegMap.new v)
  { mem, regs, cfg, active }

/-- `cfg_save`, with the outcomes of its flash commands, and whether it completed. -/
def save (d : Device) (plan : List Outcome) : Device × Bool :=
  match cfgSave ⟨d.mem, plan, 0⟩ d.regs d.cfg with
  | (w, cfg, true) => ({ d with mem := w.mem, cfg, active := regsToCfg d.regs }, true)
  | (w, cfg, false) => ({ d with mem := w.mem, cfg }, false)

end Device

/-- A power cut inside a save leaves the array as the commands done so far made it; the device then
boots. -/
inductive CfgStep where
  | save (plan : List Outcome)
  | cut (plan : List Outcome)
  | write (regs : RegMap)
  | reboot

/-- A save, not a boot. -/
def CfgStep.isSave : CfgStep → Bool
  | save _ | cut _ => true
  | write _ | reboot => false

namespace Device

/-- One save or boot of a device. -/
def step (v : UInt16) (d : Device) : CfgStep → Device
  | .save plan => (d.save plan).1
  | .cut plan => boot v (d.save plan).1.mem
  | .write regs => { d with regs }
  | .reboot => boot v d.mem

/-- A device from its first boot on. -/
def run (v : UInt16) (mem : Nor.Mem) (steps : List CfgStep) : Device :=
  steps.foldl (step v) (boot v mem)

/-! ## Booting -/

/-- One of the two slots. -/
def IsSlot (s : ℕ) : Prop := s = cfgSlotA ∨ s = cfgSlotB

theorem isSlot_target (slot : Option ℕ) : IsSlot (cfgTarget slot) := by
  unfold cfgTarget IsSlot
  split
  · exact .inr rfl
  · exact .inl rfl

theorem slots_apart {s t : ℕ} (hs : IsSlot s) (ht : IsSlot t) (ne : s ≠ t) :
    s + cfgSlotSize ≤ t ∨ t + cfgSlotSize ≤ s := by
  rcases hs with rfl | rfl <;> rcases ht with rfl | rfl <;>
    simp_all [cfgSlotA, cfgSlotB, cfgSlotSize]

theorem boot_eq (v : UInt16) (mem : Nor.Mem) {c : IoCfg} {cfg : Option ℕ × UInt32}
    (picked : pickSlot (slotRecord mem cfgSlotA) (slotRecord mem cfgSlotB) = (c, cfg)) :
    boot v mem = { mem, regs := applyCfgToRegs (RegMap.new v) c, cfg, active := c } := by
  have readA : (W25q.mk mem [] 0).read cfgSlotA cfgRecLen =
      (⟨mem, [], 0⟩, some (Nor.read mem cfgSlotA cfgRecLen)) := rfl
  have readB : (W25q.mk mem [] 0).read cfgSlotB cfgRecLen =
      (⟨mem, [], 0⟩, some (Nor.read mem cfgSlotB cfgRecLen)) := rfl
  simp only [slotRecord] at picked
  simp only [boot, bootConfigLoad, readA, readB, Option.bind_some, picked]

theorem pickSlot_cases (a b : Option (IoCfg × UInt32)) :
    (a = none ∧ b = none ∧ pickSlot a b = (IoCfg.defaults, none, 0)) ∨
    (∃ c g, a = some (c, g) ∧ pickSlot a b = (c, some cfgSlotA, g)) ∨
    (∃ c g, b = some (c, g) ∧ pickSlot a b = (c, some cfgSlotB, g)) := by
  rcases a with _ | ⟨ca, ga⟩ <;> rcases b with _ | ⟨cb, gb⟩
  · exact .inl ⟨rfl, rfl, rfl⟩
  · exact .inr (.inr ⟨cb, gb, rfl, rfl⟩)
  · exact .inr (.inl ⟨ca, ga, rfl, rfl⟩)
  · by_cases newer : ga ≥ gb
    · exact .inr (.inl ⟨ca, ga, rfl, if_pos newer⟩)
    · exact .inr (.inr ⟨cb, gb, rfl, if_neg newer⟩)

/-- A boot loads the slot whose generation is above the other's. -/
theorem boot_newest (v : UInt16) {mem : Nor.Mem} {s : ℕ} {c : IoCfg} {g : UInt32} (isSlot : IsSlot s)
    (found : slotRecord mem s = some (c, g))
    (newest : ∀ t c' g', IsSlot t → t ≠ s → slotRecord mem t = some (c', g') → g' < g) :
    boot v mem =
      { mem, regs := applyCfgToRegs (RegMap.new v) c, cfg := (some s, g), active := c } := by
  apply boot_eq
  have differ : cfgSlotA ≠ cfgSlotB := by decide
  rcases isSlot with rfl | rfl
  · rcases other : slotRecord mem cfgSlotB with _ | ⟨c', g'⟩
    · rw [found]
      rfl
    · have older := newest cfgSlotB c' g' (.inr rfl) differ.symm other
      rw [found]
      exact if_pos (UInt32.le_of_lt older)
  · rcases other : slotRecord mem cfgSlotA with _ | ⟨c', g'⟩
    · rw [found]
      rfl
    · have older := newest cfgSlotA c' g' (.inl rfl) differ other
      rw [found]
      exact if_neg (UInt32.not_le.2 older)

theorem boot_defaults (v : UInt16) {mem : Nor.Mem} (a : slotRecord mem cfgSlotA = none)
    (b : slotRecord mem cfgSlotB = none) :
    boot v mem = { mem, regs := applyCfgToRegs (RegMap.new v) IoCfg.defaults, cfg := (none, 0),
                   active := IoCfg.defaults } :=
  boot_eq v mem (by rw [a, b]; rfl)

/-! ## The invariant -/

/-- After `n` saves: `CFG` names the slot that holds the active configuration, or no slot, and no
slot holds a generation above `n`. -/
structure Tracked (d : Device) (n : ℕ) : Prop where
  bounded : ∀ s c g, IsSlot s → slotRecord d.mem s = some (c, g) → g.toNat ≤ n
  untracked : d.cfg.1 = none →
    d.active = IoCfg.defaults ∧ d.cfg.2 = 0 ∧ slotRecord d.mem cfgSlotB = none
  tracked : ∀ s, d.cfg.1 = some s → IsSlot s ∧ slotRecord d.mem s = some (d.active, d.cfg.2)

theorem Tracked.gen_le {d : Device} {n : ℕ} (h : Tracked d n) : d.cfg.2.toNat ≤ n := by
  cases slot : d.cfg.1 with
  | none => simp [(h.untracked slot).2.1]
  | some s =>
    obtain ⟨isSlot, found⟩ := h.tracked s slot
    exact h.bounded s _ _ isSlot found

theorem Tracked.boot {v : UInt16} {mem : Nor.Mem} {n : ℕ}
    (bounded : ∀ s c g, IsSlot s → slotRecord mem s = some (c, g) → g.toNat ≤ n) :
    Tracked (boot v mem) n := by
  rcases pickSlot_cases (slotRecord mem cfgSlotA) (slotRecord mem cfgSlotB) with
    ⟨_, b, picked⟩ | ⟨c, g, a, picked⟩ | ⟨c, g, b, picked⟩ <;> rw [boot_eq v mem picked]
  · exact ⟨bounded, fun _ => ⟨rfl, rfl, b⟩, by simp⟩
  · refine ⟨bounded, by simp, fun s slot => ?_⟩
    obtain rfl : cfgSlotA = s := Option.some.inj slot
    exact ⟨.inl rfl, a⟩
  · refine ⟨bounded, by simp, fun s slot => ?_⟩
    obtain rfl : cfgSlotB = s := Option.some.inj slot
    exact ⟨.inr rfl, b⟩

/-! ## One save -/

/-- All that a save does to the device: its effect on the target slot, and `CFG` moved there only
when it completed. -/
theorem save_cases (d : Device) (plan : List Outcome) :
    SaveEffect d.mem (cfgTarget d.cfg.1) (encodeRecord (regsToCfg d.regs) (d.cfg.2 + 1))
      (d.save plan).1.mem (d.save plan).2 ∧
    ((d.save plan).2 = true → (d.save plan).1.cfg = (some (cfgTarget d.cfg.1), d.cfg.2 + 1) ∧
      (d.save plan).1.active = regsToCfg d.regs) ∧
    ((d.save plan).2 = false → (d.save plan).1.cfg = d.cfg ∧ (d.save plan).1.active = d.active) := by
  have effect := saveRecord_mem ⟨d.mem, plan, 0⟩ (cfgTarget d.cfg.1)
    (encodeRecord (regsToCfg d.regs) (d.cfg.2 + 1)) (length_encodeRecord ..)
  unfold save cfgSave
  rcases written : saveRecord ⟨d.mem, plan, 0⟩ (cfgTarget d.cfg.1)
    (encodeRecord (regsToCfg d.regs) (d.cfg.2 + 1)) with ⟨w, _ | _⟩ <;> rw [written] at effect <;>
    simp only [written]
  · exact ⟨effect, by simp, by simp⟩
  · exact ⟨effect, by simp, by simp⟩

theorem fits_slot (cfg : IoCfg) (gen : UInt32) : (encodeRecord cfg gen).length ≤ cfgSlotSize := by
  rw [length_encodeRecord]
  decide

theorem slotRecord_save_other (d : Device) (plan : List Outcome) {s : ℕ} (isSlot : IsSlot s)
    (other : s ≠ cfgTarget d.cfg.1) : slotRecord (d.save plan).1.mem s = slotRecord d.mem s := by
  have apart := slots_apart isSlot (isSlot_target d.cfg.1) other
  have small : cfgRecLen ≤ cfgSlotSize := by decide
  unfold slotRecord
  rw [(save_cases d plan).1.read_apart (fits_slot ..) (by omega)]

section Invariant

variable {d : Device} {n : ℕ}

theorem Tracked.ne_target (h : Tracked d n) {s : ℕ} (slot : d.cfg.1 = some s) :
    s ≠ cfgTarget d.cfg.1 := by
  rw [slot]
  rcases (h.tracked s slot).1 with rfl | rfl <;> decide

theorem gen_succ_le (g : UInt32) : (g + 1).toNat ≤ g.toNat + 1 := by
  rw [UInt32.toNat_add]
  exact Nat.mod_le ..

theorem Tracked.save (h : Tracked d n) (plan : List Outcome) : Tracked (d.save plan).1 (n + 1) := by
  obtain ⟨effect, completed, failed⟩ := save_cases d plan
  refine ⟨fun s c g isSlot found => ?_, fun slot => ?_, fun s slot => ?_⟩
  · by_cases target : s = cfgTarget d.cfg.1
    · subst target
      rcases effect.slotRecord_target with same | new
      · have := h.bounded _ c g isSlot (same ▸ found)
        omega
      · have := h.gen_le
        have := gen_succ_le d.cfg.2
        rw [new c g found]
        omega
    · rw [slotRecord_save_other d plan isSlot target] at found
      have := h.bounded s c g isSlot found
      omega
  · cases ok : (d.save plan).2 with
    | true => rw [(completed ok).1] at slot; exact absurd slot (by simp)
    | false =>
      obtain ⟨cfg, active⟩ := failed ok
      rw [cfg] at slot ⊢
      obtain ⟨defaults, zero, blank⟩ := h.untracked slot
      refine ⟨active.trans defaults, zero, ?_⟩
      rw [slotRecord_save_other d plan (.inr rfl) (by rw [slot]; decide), blank]
  · cases ok : (d.save plan).2 with
    | true =>
      rw [ok] at effect
      obtain ⟨cfg, active⟩ := completed ok
      rw [cfg] at slot ⊢
      obtain rfl : cfgTarget d.cfg.1 = s := Option.some.inj slot
      exact ⟨isSlot_target _, active ▸ effect.slotRecord_ok⟩
    | false =>
      obtain ⟨cfg, active⟩ := failed ok
      rw [cfg] at slot ⊢
      obtain ⟨isSlot, found⟩ := h.tracked s slot
      refine ⟨isSlot, ?_⟩
      rw [slotRecord_save_other d plan isSlot (h.ne_target slot), found, active]

theorem Tracked.step (v : UInt16) (h : Tracked d n) (st : CfgStep) :
    Tracked (d.step v st) (n + if st.isSave then 1 else 0) := by
  cases st with
  | save plan => exact h.save plan
  | cut plan => exact .boot (h.save plan).bounded
  | write regs => exact ⟨h.bounded, h.untracked, h.tracked⟩
  | reboot => exact .boot h.bounded

end Invariant

/-- The invariant holds in every run from erased slots. -/
theorem tracked_run (v : UInt16) {mem : Nor.Mem} (blankA : Nor.Erased mem cfgSlotA cfgSlotSize)
    (blankB : Nor.Erased mem cfgSlotB cfgSlotSize) (steps : List CfgStep) :
    Tracked (run v mem steps) (steps.countP CfgStep.isSave) := by
  have blank {s : ℕ} (isSlot : IsSlot s) : slotRecord mem s = none := by
    rcases isSlot with rfl | rfl
    · exact SaveEffect.slotRecord_blank (blankA _ (Nat.le_refl _) (by decide))
    · exact SaveEffect.slotRecord_blank (blankB _ (Nat.le_refl _) (by decide))
  have start : Tracked (boot v mem) 0 :=
    .boot fun s c g isSlot found => absurd found (by rw [blank isSlot]; simp)
  refine Run.kept (Q := fun steps d => Tracked d (steps.countP CfgStep.isSave)) start ?_ steps
  intro before d st tracked
  rw [List.countP_append, List.countP_singleton]
  exact tracked.step v st

/-! ## What the next boot finds -/

section Save

variable {d : Device} {n : ℕ}

/-- Of the two slots, the one that is not the target is the tracked one. -/
theorem Tracked.other_slot (h : Tracked d n) {s t : ℕ} (slot : d.cfg.1 = some s) (isSlot : IsSlot t)
    (other : t ≠ cfgTarget d.cfg.1) : t = s := by
  have ne := h.ne_target slot
  have := isSlot_target d.cfg.1
  have := (h.tracked s slot).1
  unfold IsSlot at *
  omega

theorem boot_completed (v : UInt16) (h : Tracked d n) (few : n + 1 < 2 ^ 32 - 1) {plan : List Outcome}
    (ok : (d.save plan).2 = true) :
    boot v (d.save plan).1.mem =
      { mem := (d.save plan).1.mem
        regs := applyCfgToRegs (RegMap.new v) (regsToCfg d.regs)
        cfg := (some (cfgTarget d.cfg.1), d.cfg.2 + 1)
        active := regsToCfg d.regs } := by
  have effect := (save_cases d plan).1
  rw [ok] at effect
  refine boot_newest v (isSlot_target _) effect.slotRecord_ok fun t c g isSlot other found => ?_
  rw [slotRecord_save_other d plan isSlot other] at found
  cases slot : d.cfg.1 with
  | none =>
    -- nothing tracked: the target is slot A and slot B holds no record
    have blank := (h.untracked slot).2.2
    have : t = cfgSlotB := isSlot.resolve_left (by rw [slot] at other; exact other)
    rw [this, blank] at found
    exact absurd found (by simp)
  | some s =>
    rw [h.other_slot slot isSlot other, (h.tracked s slot).2] at found
    obtain ⟨_, rfl⟩ := Prod.mk.inj (Option.some.inj found)
    have := h.gen_le
    rw [UInt32.lt_iff_toNat_lt, UInt32.toNat_add, Nat.mod_eq_of_lt (by simp; omega)]
    simp

theorem boot_failed (v : UInt16) (h : Tracked d n) {plan : List Outcome}
    (torn : slotRecord (d.save plan).1.mem (cfgTarget d.cfg.1) = none) :
    boot v (d.save plan).1.mem =
      { mem := (d.save plan).1.mem
        regs := applyCfgToRegs (RegMap.new v) d.active
        cfg := d.cfg
        active := d.active } := by
  cases slot : d.cfg.1 with
  | none =>
    obtain ⟨defaults, zero, blank⟩ := h.untracked slot
    have noB : slotRecord (d.save plan).1.mem cfgSlotB = none := by
      rw [slotRecord_save_other d plan (.inr rfl) (by rw [slot]; decide), blank]
    rw [slot] at torn
    rw [boot_defaults v torn noB, defaults, ← slot, ← zero]
  | some s =>
    obtain ⟨isSlot, found⟩ := h.tracked s slot
    rw [← slotRecord_save_other d plan isSlot (h.ne_target slot)] at found
    rw [boot_newest v isSlot found fun t c g isSlot' other found' => ?_, ← slot]
    by_cases target : t = cfgTarget d.cfg.1
    · rw [target, torn] at found'
      exact absurd found' (by simp)
    · exact absurd (h.other_slot slot isSlot' target) other

end Save

/-- In every run from erased slots with fewer than `2 ^ 32 - 1` saves, take one more save.
If it completes, a boot finds exactly the 13 saved registers, under the next generation.
If it fails or is cut and leaves no record in its slot, a boot finds the configuration, slot and
generation that were active before, or the defaults when no slot was.
In any case the bytes of the active slot are as before. -/
theorem cfgSave_crash_safe (v : UInt16) (mem : Nor.Mem)
    (blankA : Nor.Erased mem cfgSlotA cfgSlotSize) (blankB : Nor.Erased mem cfgSlotB cfgSlotSize)
    (steps : List CfgStep) (few : steps.countP CfgStep.isSave + 1 < 2 ^ 32 - 1)
    (plan : List Outcome) :
    let d := run v mem steps
    let d' := (d.save plan).1
    ((d.save plan).2 = true →
      (∀ (i : ℕ) (h : i < 18), (boot v d'.mem).regs.holding[i] =
        if IsCfgReg i then d.regs.holding[i] else (RegMap.new v).holding[i]) ∧
      (boot v d'.mem).regs.input = (RegMap.new v).input ∧
      (boot v d'.mem).cfg.1 = some (cfgTarget d.cfg.1) ∧
      (boot v d'.mem).cfg.2.toNat = d.cfg.2.toNat + 1) ∧
    (slotRecord d'.mem (cfgTarget d.cfg.1) = none →
      (boot v d'.mem).cfg = d.cfg ∧
      (boot v d'.mem).regs = applyCfgToRegs (RegMap.new v) d.active ∧
      (∀ s, d.cfg.1 = some s → slotRecord d.mem s = some (d.active, d.cfg.2)) ∧
      (d.cfg.1 = none → d.active = IoCfg.defaults ∧ d.cfg.2 = 0)) ∧
    (∀ s, d.cfg.1 = some s → Nor.read d'.mem s cfgSlotSize = Nor.read d.mem s cfgSlotSize) := by
  intro d d'
  have h : Tracked d _ := tracked_run v blankA blankB steps
  refine ⟨fun ok => ?_, fun torn => ?_, fun s slot => ?_⟩
  · rw [boot_completed v h few ok]
    refine ⟨holding_applyCfgToRegs (RegMap.new v) d.regs, applyCfgToRegs_input .., rfl, ?_⟩
    have := h.gen_le
    rw [UInt32.toNat_add, Nat.mod_eq_of_lt (by simp; omega)]
    rfl
  · rw [boot_failed v h torn]
    exact ⟨rfl, rfl, fun s slot => (h.tracked s slot).2,
      fun slot => ⟨(h.untracked slot).1, (h.untracked slot).2.1⟩⟩
  · exact (save_cases d plan).1.read_apart (fits_slot ..)
      (slots_apart (h.tracked s slot).1 (isSlot_target _) (h.ne_target slot))

/-- An erased chip. -/
def blankArray : Nor.Mem := fun _ => 0xFF

/-- A save, and other registers since. -/
def savedOnce : List CfgStep := [.save [], .write (RegMap.new 2)]

/-- The second write fails. -/
def cutSave : List Outcome := [.ok, .ok, .fail 3]

/-- A device that has saved once saves again: the save completes, or is cut. -/
theorem cfgSave_crash_safe_second :
    Nor.Erased blankArray cfgSlotA cfgSlotSize ∧ Nor.Erased blankArray cfgSlotB cfgSlotSize ∧
    (run 1 blankArray savedOnce).cfg = (some cfgSlotA, 1) ∧ ((run 1 blankArray savedOnce).save []).2 = true ∧
    (boot 1 ((run 1 blankArray savedOnce).save []).1.mem).cfg.2.toNat =
      (run 1 blankArray savedOnce).cfg.2.toNat + 1 ∧
    ((run 1 blankArray savedOnce).save cutSave).2 = false ∧
    (boot 1 ((run 1 blankArray savedOnce).save cutSave).1.mem).cfg = (run 1 blankArray savedOnce).cfg := by
  have blankA : Nor.Erased blankArray cfgSlotA cfgSlotSize := fun _ _ _ => rfl
  have blankB : Nor.Erased blankArray cfgSlotB cfgSlotSize := fun _ _ _ => rfl
  have completes : ((run 1 blankArray savedOnce).save []).2 = true := by decide +kernel
  have torn : slotRecord ((run 1 blankArray savedOnce).save cutSave).1.mem
      (cfgTarget (run 1 blankArray savedOnce).cfg.1) = none := by
    decide +kernel
  have safe := cfgSave_crash_safe 1 blankArray blankA blankB savedOnce (by decide)
  exact ⟨blankA, blankB, by decide +kernel, completes, ((safe []).1 completes).2.2.2, by decide +kernel,
    ((safe cutSave).2.1 torn).1⟩

end Device

end IoEdgeHub
