import IoEdgeHub.Firmware.CfgStorage
import IoEdgeHub.Firmware.LfsNor

/-!
# The configuration store of the tests and that of the device

The unit tests run `config_store_init` and `config_store_save_gen`; the device has its own `boot_config_load`
and `cfg_save`, which reach the driver through `nor_with`.  Here these are taken over any flash too, with those of
`CfgStorage` as the instance at the driver (`bootConfigLoad_eq`, `cfgSave_eq`), and then the two stores agree on
every flash, whatever fails (`configStore_agrees`).
-/

namespace IoEdgeHub

variable {σ : Type*}

/-- `boot_config_load`: a slot that cannot be read counts as an invalid one. -/
def bootConfigLoadOn (f : Flash σ) (s : σ) (regs : RegMap) : σ × IoCfg × (Option ℕ × UInt32) × RegMap :=
  let (s, ra) := f.read s cfgSlotA cfgRecLen
  let (s, rb) := f.read s cfgSlotB cfgRecLen
  let (cfg, slot, gen) := pickSlot (ra.bind decodeRecord) (rb.bind decodeRecord)
  (s, cfg, (slot, gen), applyCfgToRegs regs cfg)

/-- `saveRecord` over any flash. -/
def saveRecordOn (f : Flash σ) (s : σ) (tgt : ℕ) (rec : List UInt8) : σ × Bool :=
  match f.erase s tgt cfgSlotSize with
  | (s, false) => (s, false)
  | (s, true) =>
    match f.write s tgt (rec.take cfgHdrLen) with
    | (s, false) => (s, false)
    | (s, true) =>
      match f.write s (tgt + cfgHdrLen) ((rec.take 36).drop cfgHdrLen) with
      | (s, false) => (s, false)
      | (s, true) => f.write s (tgt + cfgCrcOff) (rec.drop 36)

/-- `cfg_save`: `CFG` moves once the whole record is written. -/
def cfgSaveOn (f : Flash σ) (s : σ) (regs : RegMap) (cfg : Option ℕ × UInt32) : σ × (Option ℕ × UInt32) × Bool :=
  let (slot, gen) := cfg
  let record := encodeRecord (regsToCfg regs) (gen + 1)
  let tgt := cfgTarget slot
  match saveRecordOn f s tgt record with
  | (s, true) => (s, (some tgt, gen + 1), true)
  | (s, false) => (s, cfg, false)

/-! ## The driver in its cell -/

section Cell

variable (f : Flash σ) (s : σ)

@[simp] theorem norWith_read (addr len : ℕ) : f.norWith.read (some s) addr len = (f.read s addr len).map some id := rfl

@[simp] theorem norWith_write (addr : ℕ) (data : List UInt8) :
    f.norWith.write (some s) addr data = (f.write s addr data).map some id := rfl

@[simp] theorem norWith_erase (addr len : ℕ) : f.norWith.erase (some s) addr len = (f.erase s addr len).map some id :=
  rfl

theorem bootConfigLoadOn_norWith (regs : RegMap) :
    bootConfigLoadOn f.norWith (some s) regs = (bootConfigLoadOn f s regs).map some id := rfl

theorem saveRecordOn_norWith (tgt : ℕ) (rec : List UInt8) :
    saveRecordOn f.norWith (some s) tgt rec = (saveRecordOn f s tgt rec).map some id := by
  unfold saveRecordOn
  rw [norWith_erase]
  rcases f.erase s tgt cfgSlotSize with ⟨s, _ | _⟩
  · rfl
  dsimp only [Prod.map, id]
  rw [norWith_write]
  rcases f.write s tgt (rec.take cfgHdrLen) with ⟨s, _ | _⟩
  · rfl
  dsimp only [Prod.map, id]
  rw [norWith_write]
  rcases f.write s (tgt + cfgHdrLen) ((rec.take 36).drop cfgHdrLen) with ⟨s, _ | _⟩
  · rfl
  · rfl

theorem cfgSaveOn_norWith (regs : RegMap) (cfg : Option ℕ × UInt32) :
    cfgSaveOn f.norWith (some s) regs cfg = (cfgSaveOn f s regs cfg).map some id := by
  unfold cfgSaveOn
  dsimp only
  rw [saveRecordOn_norWith]
  rcases saveRecordOn f s (cfgTarget cfg.1) (encodeRecord (regsToCfg regs) (cfg.2 + 1)) with ⟨s, _ | _⟩
  · rfl
  · rfl

end Cell

theorem bootConfigLoad_eq (w : W25q) (regs : RegMap) :
    bootConfigLoadOn W25q.flash.norWith (some w) regs = (bootConfigLoad w regs).map some id := rfl

theorem saveRecord_eq (w : W25q) (tgt : ℕ) (rec : List UInt8) :
    saveRecordOn W25q.flash w tgt rec = saveRecord w tgt rec := by
  unfold saveRecordOn saveRecord
  simp only [W25q.flash]
  rcases w.erase tgt cfgSlotSize with ⟨w, _ | _⟩
  · rfl
  dsimp only
  rcases w.write tgt (rec.take cfgHdrLen) with ⟨w, _ | _⟩
  · rfl
  dsimp only
  rcases w.write (tgt + cfgHdrLen) ((rec.take 36).drop cfgHdrLen) with ⟨w, _ | _⟩
  · rfl
  · rfl

theorem cfgSave_eq (w : W25q) (regs : RegMap) (cfg : Option ℕ × UInt32) :
    cfgSaveOn W25q.flash.norWith (some w) regs cfg = (cfgSave w regs cfg).map some id := by
  rw [cfgSaveOn_norWith]
  unfold cfgSaveOn cfgSave
  dsimp only
  rw [saveRecord_eq]
  rcases saveRecord w (cfgTarget cfg.1) (encodeRecord (regsToCfg regs) (cfg.2 + 1)) with ⟨w, _ | _⟩
  · rfl
  · rfl

/-! ## Agreement -/

theorem regsToCfg_applyCfgToRegs (r : RegMap) (c : IoCfg) : regsToCfg (applyCfgToRegs r c) = c := by
  obtain ⟨_, _, _, _, _, _, _, _, _, ip⟩ := c
  obtain ⟨_, _, _, _, rfl⟩ := Bytes.exists_quad ip
  simp only [regsToCfg, IoCfg.mk.injEq]
  refine ⟨?_, ?_, ?_, ?_, ?_, ?_, ?_, ?_, ?_, ?_⟩
  all_goals
    simp [applyCfgToRegs, cfgVals, RegMap.getHolding, holdingDiEnableIdx,
      holdingAiEnableIdx, holdingDiSampleMsIdx, holdingAiSampleMsIdx, holdingHistoryEnableIdx,
      holdingCanIdIdx, holdingCanBaudrateIdx, holdingRs485BaudrateIdx, holdingSlaveIdIdx,
      holdingIpOctet1Idx, holdingIpOctet2Idx, holdingIpOctet3Idx, holdingIpOctet4Idx]
  rfl

/-- Slots that can both be read are chosen between alike. -/
theorem configStoreInit_eq (f : Flash σ) {s sa sb : σ} {ra rb : List UInt8}
    (readA : f.read s cfgSlotA cfgRecLen = (sa, some ra)) (readB : f.read sa cfgSlotB cfgRecLen = (sb, some rb)) :
    configStoreInit f s =
      (sb, some ⟨(pickSlot (decodeRecord ra) (decodeRecord rb)).1,
        (pickSlot (decodeRecord ra) (decodeRecord rb)).2.1⟩) := by
  unfold configStoreInit
  rw [slotRead_eq f readA]
  dsimp only
  rw [slotRead_eq f readB]
  rcases decodeRecord ra with _ | ⟨ca, ga⟩
  · rcases decodeRecord rb with _ | ⟨cb, gb⟩
    · rfl
    · rfl
  · rcases decodeRecord rb with _ | ⟨cb, gb⟩
    · rfl
    · dsimp only [Option.elim, pickSlot]
      split_ifs
      · rfl
      · rfl

theorem bootConfigLoadOn_eq (f : Flash σ) {s sa sb : σ} {ra rb : List UInt8}
    (readA : f.read s cfgSlotA cfgRecLen = (sa, some ra))
    (readB : f.read sa cfgSlotB cfgRecLen = (sb, some rb)) (regs : RegMap) :
    bootConfigLoadOn f s regs =
      (sb, (pickSlot (decodeRecord ra) (decodeRecord rb)).1, (pickSlot (decodeRecord ra) (decodeRecord rb)).2,
        applyCfgToRegs regs (pickSlot (decodeRecord ra) (decodeRecord rb)).1) := by
  unfold bootConfigLoadOn
  simp only [readA, readB]
  rfl

/-- The operations of a save, up to the first that fails. -/
theorem configStoreSaveGen_eq (f : Flash σ) (s : σ) (cfg : IoCfg) (slot : Option ℕ) (gen : UInt32) :
    configStoreSaveGen f s cfg slot gen =
      (saveRecordOn f s (cfgTarget slot) (encodeRecord cfg (gen + 1))).map id fun ok =>
        if ok then some (cfgTarget slot) else none := by
  have crc : ((encodeRecord cfg (gen + 1)).take 40).drop 36 = (encodeRecord cfg (gen + 1)).drop 36 := by
    exact congrArg (List.drop 36) (List.take_of_length_le (Nat.le_of_eq (length_encodeRecord cfg (gen + 1))))
  unfold configStoreSaveGen saveRecordOn
  dsimp only
  rw [crc]
  rw [← cfgTarget]
  rcases f.erase s (cfgTarget slot) cfgSlotSize with ⟨s, _ | _⟩
  · rfl
  dsimp only
  rcases f.write s (cfgTarget slot) ((encodeRecord cfg (gen + 1)).take cfgHdrLen) with ⟨s, _ | _⟩
  · rfl
  dsimp only
  rcases f.write s (cfgTarget slot + cfgHdrLen) (((encodeRecord cfg (gen + 1)).take 36).drop cfgHdrLen) with ⟨s, _ | _⟩
  · rfl
  dsimp only
  rcases f.write s (cfgTarget slot + cfgCrcOff) ((encodeRecord cfg (gen + 1)).drop 36) with ⟨s, _ | _⟩
  · rfl
  · rfl

/-- The two stores do the same on every flash.  Where both slots can be read they load the same configuration
from the same slot.  They save any configuration, beside any slot and generation, with the same operations at the
same addresses with the same bytes, each failing or not, and they succeed together. -/
theorem configStore_agrees (f : Flash σ) (s : σ) (regs : RegMap) :
    (∀ sa sb ra rb, f.read s cfgSlotA cfgRecLen = (sa, some ra) → f.read sa cfgSlotB cfgRecLen = (sb, some rb) →
      ∃ state gen, configStoreInit f s = (sb, some state) ∧
        bootConfigLoadOn f.norWith (some s) regs =
          (some sb, state.cfg, (state.curSlot, gen), applyCfgToRegs regs state.cfg)) ∧
    (∀ slot gen, ∃ s' log saved,
      configStoreSaveGen f.recorded (s, []) (regsToCfg regs) slot gen = ((s', log), saved) ∧
        cfgSaveOn f.recorded.norWith (some (s, [])) regs (slot, gen) =
          (some (s', log), saved.elim (slot, gen) fun tgt => (some tgt, gen + 1), saved.isSome)) ∧
    ∀ cfg, regsToCfg (applyCfgToRegs regs cfg) = cfg := by
  refine ⟨?_, ?_, regsToCfg_applyCfgToRegs regs⟩
  · intro sa sb ra rb readA readB
    refine ⟨_, (pickSlot (decodeRecord ra) (decodeRecord rb)).2.2, configStoreInit_eq f readA readB, ?_⟩
    rw [bootConfigLoadOn_norWith, bootConfigLoadOn_eq f readA readB]
    rfl
  · intro slot gen
    rw [configStoreSaveGen_eq, cfgSaveOn_norWith, cfgSaveOn]
    rcases saveRecordOn f.recorded (s, []) (cfgTarget slot) (encodeRecord (regsToCfg regs) (gen + 1)) with ⟨s', _ | _⟩
    · exact ⟨_, _, none, rfl, rfl⟩
    · exact ⟨_, _, some _, rfl, rfl⟩

/-- The chip after a save: the same state is loaded by either, from the slot of that save. -/
theorem configStore_agrees_saved :
    let w := (cfgSave ⟨fun _ => 0xFF, [], 0⟩ (RegMap.new 1) (none, 0)).1
    (configStoreInit W25q.flash w).2.bind (·.curSlot) = some cfgSlotA ∧
      ∃ state gen, configStoreInit W25q.flash w = (w, some state) ∧
        bootConfigLoadOn W25q.flash.norWith (some w) (RegMap.new 0) =
          (some w, state.cfg, (state.curSlot, gen), applyCfgToRegs (RegMap.new 0) state.cfg) := by
  intro w
  have healthy : w.plan = [] := by decide +kernel
  have readA := W25q.read_healthy healthy (by decide : 0 < cfgRecLen)
    (by decide : cfgSlotA + cfgRecLen ≤ W25q.chipSize)
  have readB := W25q.read_healthy healthy (by decide : 0 < cfgRecLen)
    (by decide : cfgSlotB + cfgRecLen ≤ W25q.chipSize)
  exact ⟨by decide +kernel, (configStore_agrees W25q.flash w (RegMap.new 0)).1 _ _ _ _ readA readB⟩

end IoEdgeHub
