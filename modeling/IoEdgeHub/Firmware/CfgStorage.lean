import IoEdgeHub.Proto.ConfigStore
import IoEdgeHub.Proto.Regmap
import IoEdgeHub.Firmware.W25q

/-!
# Saving and loading the configuration

The configuration part of `storage.rs`.  `CFG` is the pair of the active slot and its generation;
a save goes to the other slot and moves `CFG` only once every flash operation has succeeded.
`saveRecord_mem` says all that a save can do to the array, wherever it fails or is cut.
-/

namespace IoEdgeHub

/-! ## Registers -/

/-- The registers and their values. -/
def cfgVals (c : IoCfg) : List (ℕ × UInt16) :=
  [(holdingDiEnableIdx, c.diEn), (holdingAiEnableIdx, c.aiEn), (holdingDiSampleMsIdx, c.diSi),
    (holdingAiSampleMsIdx, c.aiSi), (holdingHistoryEnableIdx, c.his), (holdingCanIdIdx, c.canId),
    (holdingCanBaudrateIdx, c.canBps), (holdingRs485BaudrateIdx, c.rs485Bps),
    (holdingSlaveIdIdx, c.slaveId), (holdingIpOctet1Idx, c.ip.get 0), (holdingIpOctet2Idx, c.ip.get 1),
    (holdingIpOctet3Idx, c.ip.get 2), (holdingIpOctet4Idx, c.ip.get 3)]

/-- Every index of `cfgVals` is in range. -/
def applyCfgToRegs (r : RegMap) (c : IoCfg) : RegMap :=
  (cfgVals c).foldl (fun r p => { r with holding := r.holding.setIfInBounds p.1 p.2 }) r

/-- `regs_to_cfg` -/
def regsToCfg (r : RegMap) : IoCfg :=
  let g (idx : ℕ) : UInt16 := r.getHolding (UInt16.ofNat idx)
  { diEn := g holdingDiEnableIdx
    aiEn := g holdingAiEnableIdx
    diSi := g holdingDiSampleMsIdx
    aiSi := g holdingAiSampleMsIdx
    his := g holdingHistoryEnableIdx
    canId := g holdingCanIdIdx
    canBps := g holdingCanBaudrateIdx
    rs485Bps := g holdingRs485BaudrateIdx
    slaveId := g holdingSlaveIdIdx
    ip := #v[g holdingIpOctet1Idx, g holdingIpOctet2Idx, g holdingIpOctet3Idx, g holdingIpOctet4Idx] }

/-- The 13 registers that a configuration holds. -/
def IsCfgReg (i : ℕ) : Prop := holdingDiEnableIdx ≤ i ∧ i ≤ holdingIpOctet4Idx

instance (i : ℕ) : Decidable (IsCfgReg i) := inferInstanceAs (Decidable (_ ∧ _))

@[simp] theorem applyCfgToRegs_input (r : RegMap) (c : IoCfg) :
    (applyCfgToRegs r c).input = r.input := by
  simp [applyCfgToRegs, cfgVals]

theorem cfgVals_regsToCfg (r : RegMap) :
    cfgVals (regsToCfg r) = (List.range' 1 13).map fun i => (i, r.getHolding (UInt16.ofNat i)) :=
  rfl

/-- Loading what was saved from `r` brings back its configuration registers and no others. -/
theorem holding_applyCfgToRegs (fresh r : RegMap) (i : ℕ) (h : i < 18) :
    (applyCfgToRegs fresh (regsToCfg r)).holding[i] =
      if IsCfgReg i then r.holding[i] else fresh.holding[i] := by
  unfold applyCfgToRegs
  rw [cfgVals_regsToCfg]
  interval_cases i <;>
    simp [List.range', RegMap.getHolding, IsCfgReg, holdingDiEnableIdx, holdingIpOctet4Idx]

/-! ## Slots -/

/-- What `decode_record` makes of the slot at `s`. -/
def slotRecord (mem : Nor.Mem) (s : ℕ) : Option (IoCfg × UInt32) :=
  decodeRecord (Nor.read mem s cfgRecLen)

/-- The newer generation wins, slot A on a tie. -/
def pickSlot : Option (IoCfg × UInt32) → Option (IoCfg × UInt32) → IoCfg × Option ℕ × UInt32
  | some (ca, ga), some (cb, gb) =>
    if ga ≥ gb then (ca, some cfgSlotA, ga) else (cb, some cfgSlotB, gb)
  | some (c, g), none => (c, some cfgSlotA, g)
  | none, some (c, g) => (c, some cfgSlotB, g)
  | none, none => (IoCfg.defaults, none, 0)

/-- Returns the driver, the configuration loaded, `CFG` and the registers. -/
def bootConfigLoad (w : W25q) (regs : RegMap) : W25q × IoCfg × (Option ℕ × UInt32) × RegMap :=
  let (w, ra) := w.read cfgSlotA cfgRecLen
  let (w, rb) := w.read cfgSlotB cfgRecLen
  let (cfg, slot, gen) := pickSlot (ra.bind decodeRecord) (rb.bind decodeRecord)
  (w, cfg, (slot, gen), applyCfgToRegs regs cfg)

/-- The slot that is not in use. -/
def cfgTarget (slot : Option ℕ) : ℕ := if slot = some cfgSlotA then cfgSlotB else cfgSlotA

/-- The flash operations of a save: erase, header, body, CRC, up to the first that fails. -/
def saveRecord (w : W25q) (tgt : ℕ) (rec : List UInt8) : W25q × Bool :=
  match w.erase tgt cfgSlotSize with
  | (w, false) => (w, false)
  | (w, true) =>
    match w.write tgt (rec.take cfgHdrLen) with
    | (w, false) => (w, false)
    | (w, true) =>
      match w.write (tgt + cfgHdrLen) ((rec.take 36).drop cfgHdrLen) with
      | (w, false) => (w, false)
      | (w, true) => w.write (tgt + cfgCrcOff) (rec.drop 36)

/-- Returns the driver, `CFG` and whether the save succeeded. -/
def cfgSave (w : W25q) (regs : RegMap) (cfg : Option ℕ × UInt32) :
    W25q × (Option ℕ × UInt32) × Bool :=
  let (slot, gen) := cfg
  let record := encodeRecord (regsToCfg regs) (gen + 1)
  let tgt := cfgTarget slot
  match saveRecord w tgt record with
  | (w, true) => (w, (some tgt, gen + 1), true)
  | (w, false) => (w, cfg, false)

/-- Returns the driver, `CFG`, the registers and whether both slots were erased. -/
def cfgEraseAll (w : W25q) (regs : RegMap) (cfg : Option ℕ × UInt32) :
    W25q × (Option ℕ × UInt32) × RegMap × Bool :=
  match w.erase cfgSlotA cfgSlotSize with
  | (w, false) => (w, cfg, regs, false)
  | (w, true) =>
    match w.erase cfgSlotB cfgSlotSize with
    | (w, false) => (w, cfg, regs, false)
    | (w, true) => (w, (none, 0), applyCfgToRegs regs IoCfg.defaults, true)

/-! ## What a save does to the array -/

/-- A save that stops during the erase, or after the first `k` bytes of the record. -/
inductive SaveEffect (mem : Nor.Mem) (tgt : ℕ) (rec : List UInt8) : Nor.Mem → Bool → Prop
  | erasing (k : ℕ) (h : k ≤ cfgSlotSize) : SaveEffect mem tgt rec (Nor.erase mem tgt k) false
  | torn (k : ℕ) (h : k ≤ rec.length) (ok : Bool) (all : ok = true → k = rec.length) :
    SaveEffect mem tgt rec (Nor.program (Nor.erase mem tgt cfgSlotSize) tgt (rec.take k)) ok

theorem saveRecord_mem (w : W25q) (tgt : ℕ) (rec : List UInt8) (length : rec.length = cfgRecLen) :
    SaveEffect w.mem tgt rec (saveRecord w tgt rec).1.mem (saveRecord w tgt rec).2 := by
  have split36 : rec.take 10 ++ ((rec.take 36).drop 10) = rec.take 36 := by
    conv_rhs => rw [← List.take_append_drop 10 (rec.take 36), List.take_take]
    rfl
  have split40 : rec.take 36 ++ rec.drop 36 = rec := List.take_append_drop 36 rec
  have length10 : (rec.take 10).length = 10 := by simp [length, cfgRecLen]
  have length36 : (rec.take 36).length = 36 := by simp [length, cfgRecLen]
  rw [cfgRecLen] at length
  unfold saveRecord
  obtain ⟨k, k_le, mem, all⟩ := W25q.erase_mem w tgt cfgSlotSize
  rcases erased : w.erase tgt cfgSlotSize with ⟨w₁, _ | _⟩ <;> rw [erased] at mem all
  · rw [mem]
    exact .erasing k k_le
  rw [all rfl] at mem
  simp only [cfgHdrLen, cfgCrcOff]
  obtain ⟨k₁, k₁_le, mem₁, all₁⟩ := W25q.write_mem w₁ tgt (rec.take 10)
  rcases header : w₁.write tgt (rec.take 10) with ⟨w₂, _ | _⟩ <;>
    rw [header] at mem₁ all₁
  · rw [mem₁, mem, List.take_take]
    exact .torn _ (by omega) false (by simp)
  rw [all₁ rfl, List.take_length, mem] at mem₁
  obtain ⟨k₂, k₂_le, mem₂, all₂⟩ := W25q.write_mem_append ((rec.take 36).drop 10) mem₁
  rw [length10, split36] at mem₂ all₂
  rcases body : w₂.write (tgt + 10) ((rec.take 36).drop 10) with ⟨w₃, _ | _⟩ <;>
    rw [body] at mem₂ all₂ <;> simp only [body]
  · rw [mem₂, List.take_take]
    exact .torn _ (by omega) false (by simp)
  rw [all₂ rfl, List.take_length] at mem₂
  obtain ⟨k₃, k₃_le, mem₃, all₃⟩ := W25q.write_mem_append (rec.drop 36) mem₂
  rw [length36, split40] at mem₃ all₃
  rw [mem₃]
  exact .torn k₃ (split40 ▸ k₃_le) _ all₃

namespace SaveEffect

variable {mem mem' : Nor.Mem} {tgt : ℕ} {rec : List UInt8} {ok : Bool} {cfg : IoCfg} {gen : UInt32}

theorem outside (effect : SaveEffect mem tgt rec mem' ok) (fits : rec.length ≤ cfgSlotSize) {a : ℕ}
    (out : a < tgt ∨ tgt + cfgSlotSize ≤ a) : mem' a = mem a := by
  cases effect with
  | erasing k h => exact Nor.erase_outside (by omega)
  | torn k h ok all =>
    rw [Nor.program_outside (by simp only [List.length_take]; omega), Nor.erase_outside out]

theorem read_apart (effect : SaveEffect mem tgt rec mem' ok) (fits : rec.length ≤ cfgSlotSize)
    {addr len : ℕ} (apart : addr + len ≤ tgt ∨ tgt + cfgSlotSize ≤ addr) :
    Nor.read mem' addr len = Nor.read mem addr len :=
  Nor.read_congr fun _ lo hi => effect.outside fits (by omega)

/-- What a save that reached the programming leaves in its slot. -/
theorem read_torn (mem : Nor.Mem) (tgt k : ℕ) (h : rec.length = cfgRecLen) :
    Nor.read (Nor.program (Nor.erase mem tgt cfgSlotSize) tgt (rec.take k)) tgt cfgRecLen =
      rec.take k ++ List.replicate (cfgRecLen - k) 0xFF := by
  have blank : Nor.Erased (Nor.erase mem tgt cfgSlotSize) tgt cfgRecLen :=
    (Nor.erased_erase mem tgt cfgSlotSize).mono (Nat.le_refl _)
      (by simp only [cfgRecLen, cfgSlotSize]; omega)
  have short : (rec.take k).length = min k cfgRecLen := by rw [List.length_take, h]
  have rest : cfgRecLen - min k cfgRecLen = cfgRecLen - k := by omega
  rw [Nor.read_program_erased blank (by omega), short, rest]

theorem slotRecord_ok (effect : SaveEffect mem tgt (encodeRecord cfg gen) mem' true) :
    slotRecord mem' tgt = some (cfg, gen) := by
  cases effect with
  | torn k h _ all =>
    have full := all rfl
    rw [slotRecord, read_torn _ _ _ (length_encodeRecord ..), full, List.take_length,
      length_encodeRecord, Nat.sub_self, List.replicate_zero, List.append_nil,
      decodeRecord_encodeRecord]

theorem slotRecord_blank {s : ℕ} (blank : mem s = 0xFF) : slotRecord mem s = none := by
  have first : (Nor.read mem s cfgRecLen).take 4 ≠ cfgMagic := by
    intro same
    have : mem s = 0x49 := by
      have head := congrArg (·[0]?) same
      simpa [Nor.read, cfgRecLen, cfgMagic, List.range_succ_eq_map] using head
    rw [blank] at this
    exact absurd this (by decide)
  rw [slotRecord, decodeRecord, if_pos first]

/-- After any save the target slot is as before, or whatever decodes there is of the new
generation. -/
theorem slotRecord_target (effect : SaveEffect mem tgt (encodeRecord cfg gen) mem' ok) :
    slotRecord mem' tgt = slotRecord mem tgt ∨
      ∀ c g, slotRecord mem' tgt = some (c, g) → g = gen := by
  cases effect with
  | erasing k h =>
    rcases Nat.eq_zero_or_pos k with rfl | pos
    · exact .inl (by rw [Nor.erase_zero])
    · refine .inr fun c g found => ?_
      rw [slotRecord_blank (Nor.erased_erase mem tgt k tgt (Nat.le_refl _) (by omega))] at found
      exact absurd found (by simp)
  | torn k h _ all =>
    refine .inr fun c g found => ?_
    rw [slotRecord, read_torn _ _ _ (length_encodeRecord ..)] at found
    exact decodeRecord_torn found

end SaveEffect

end IoEdgeHub
