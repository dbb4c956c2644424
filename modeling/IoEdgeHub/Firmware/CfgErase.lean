import IoEdgeHub.Firmware.CfgCrash

/-!
# A factory reset cut by a power loss

`cfg_erase_all` erases slot A and then slot B, one block each, and does not look which of them is
active.  Between the two erases the device holds slot B alone, so a cut there boots whatever record
slot B still has: the current one when B is active, an older one when A is.
-/

namespace IoEdgeHub

namespace Device

/-- The power is lost after `k` flash commands: these complete, the next one has no effect. -/
def cutAfter (k : ℕ) : List Outcome := List.replicate k .ok ++ [.fail 0]

/-- The configuration that a boot selects. -/
def selected (v : UInt16) (mem : Nor.Mem) : IoCfg := (boot v mem).active

/-- The array after `k` flash commands of `cfg_erase_all`. -/
def erasedTo (mem : Nor.Mem) (regs : RegMap) (cfg : Option ℕ × UInt32) (k : ℕ) : Nor.Mem :=
  (cfgEraseAll ⟨mem, cutAfter k, 0⟩ regs cfg).1.mem

/-- The array after `k` flash commands of `config_store_erase_all` on the same flash. -/
def storeErasedTo (mem : Nor.Mem) (k : ℕ) : Nor.Mem :=
  (configStoreEraseAll W25q.erase ⟨mem, cutAfter k, 0⟩).1.mem

/-! ## The flash commands of a reset -/

theorem cfgEraseAll_driver (w : W25q) (regs : RegMap) (cfg : Option ℕ × UInt32) :
    (cfgEraseAll w regs cfg).1 = (configStoreEraseAll W25q.erase w).1 := by
  unfold cfgEraseAll configStoreEraseAll
  rcases w.erase cfgSlotA cfgSlotSize with ⟨w₁, _ | _⟩
  · rfl
  · simp only
    rcases w₁.erase cfgSlotB cfgSlotSize with ⟨w₂, _ | _⟩ <;> rfl

/-- A slot is one block, so its erase is one command. -/
theorem erase_slot {s : ℕ} (isSlot : IsSlot s) (w : W25q) :
    w.erase s cfgSlotSize = w.eraseOne s cfgSlotSize := by
  have whole : W25q.eraseChunk s cfgSlotSize = cfgSlotSize := by
    rcases isSlot with rfl | rfl <;> decide
  have legal : ¬(cfgSlotSize = 0 ∨ s % W25q.sectorSize ≠ 0 ∨ cfgSlotSize % W25q.sectorSize ≠ 0 ∨
      s + cfgSlotSize > W25q.chipSize) := by
    rcases isSlot with rfl | rfl <;> decide
  have fuel : cfgSlotSize / W25q.sectorSize = 7 + 1 := rfl
  rw [W25q.erase, if_neg legal, fuel, W25q.eraseLoop, if_neg (by decide), whole, Nat.sub_self]
  rcases w.eraseOne s cfgSlotSize with ⟨w₁, _ | _⟩ <;> rfl

theorem erase_slot_ok {s : ℕ} (isSlot : IsSlot s) (mem : Nor.Mem) (plan : List Outcome) :
    W25q.erase ⟨mem, .ok :: plan, 0⟩ s cfgSlotSize = (⟨Nor.erase mem s cfgSlotSize, plan, 0⟩, true) := by
  rw [erase_slot isSlot]
  rfl

theorem erase_slot_cut {s : ℕ} (isSlot : IsSlot s) (mem : Nor.Mem) (plan : List Outcome) :
    W25q.erase ⟨mem, .fail 0 :: plan, 0⟩ s cfgSlotSize = (⟨mem, plan, 0⟩, false) := by
  have nothing : Nor.erase mem s (min 0 cfgSlotSize) = mem := by
    rw [Nat.zero_min, Nor.erase_zero]
  rw [erase_slot isSlot, W25q.eraseOne]
  simp only [W25q.next, nothing]

theorem storeErasedTo_eq (mem : Nor.Mem) (k : ℕ) :
    storeErasedTo mem k =
      match k with
      | 0 => mem
      | 1 => Nor.erase mem cfgSlotA cfgSlotSize
      | _ + 2 => Nor.erase (Nor.erase mem cfgSlotA cfgSlotSize) cfgSlotB cfgSlotSize := by
  unfold storeErasedTo configStoreEraseAll
  rcases k with _ | _ | k
  · rw [show cutAfter 0 = [.fail 0] from rfl, erase_slot_cut (.inl rfl)]
  · rw [show cutAfter 1 = [.ok, .fail 0] from rfl, erase_slot_ok (.inl rfl)]
    simp only
    rw [erase_slot_cut (.inr rfl)]
  · rw [show cutAfter (k + 2) = .ok :: .ok :: cutAfter k from rfl, erase_slot_ok (.inl rfl)]
    simp only
    rw [erase_slot_ok (.inr rfl)]

theorem erasedTo_eq (mem : Nor.Mem) (regs : RegMap) (cfg : Option ℕ × UInt32) (k : ℕ) :
    erasedTo mem regs cfg k = storeErasedTo mem k := by
  rw [erasedTo, cfgEraseAll_driver, storeErasedTo]

/-! ## What the slots hold on the way -/

theorem slotRecord_erased (mem : Nor.Mem) {s : ℕ} :
    slotRecord (Nor.erase mem s cfgSlotSize) s = none := by
  have pos : 0 < cfgSlotSize := by decide
  exact SaveEffect.slotRecord_blank (Nor.erased_erase mem s cfgSlotSize s (Nat.le_refl _) (by omega))

theorem slotRecord_erase_other (mem : Nor.Mem) {s t : ℕ} (hs : IsSlot s) (ht : IsSlot t) (ne : s ≠ t) :
    slotRecord (Nor.erase mem t cfgSlotSize) s = slotRecord mem s := by
  have apart := slots_apart hs ht ne
  have small : cfgRecLen ≤ cfgSlotSize := by decide
  rw [slotRecord, Nor.read_erase_outside (by omega), slotRecord]

theorem selected_eq (v : UInt16) (mem : Nor.Mem) :
    selected v mem = (pickSlot (slotRecord mem cfgSlotA) (slotRecord mem cfgSlotB)).1 := by
  rcases picked : pickSlot (slotRecord mem cfgSlotA) (slotRecord mem cfgSlotB) with ⟨c, cfg⟩
  rw [selected, boot_eq v mem picked]

theorem boot_slot (v : UInt16) (mem : Nor.Mem) :
    (boot v mem).cfg.1 = (pickSlot (slotRecord mem cfgSlotA) (slotRecord mem cfgSlotB)).2.1 := by
  rcases picked : pickSlot (slotRecord mem cfgSlotA) (slotRecord mem cfgSlotB) with ⟨c, cfg⟩
  rw [boot_eq v mem picked]

/-- With slot A gone a boot takes slot B, or the defaults. -/
theorem selected_erasedA (v : UInt16) (mem : Nor.Mem) :
    selected v (Nor.erase mem cfgSlotA cfgSlotSize) =
      match slotRecord mem cfgSlotB with
      | some (c, _) => c
      | none => IoCfg.defaults := by
  rw [selected_eq, slotRecord_erased, slotRecord_erase_other mem (.inr rfl) (.inl rfl) (by decide)]
  rcases slotRecord mem cfgSlotB with _ | ⟨c, g⟩ <;> rfl

theorem selected_erasedBoth (v : UInt16) (mem : Nor.Mem) :
    selected v (Nor.erase (Nor.erase mem cfgSlotA cfgSlotSize) cfgSlotB cfgSlotSize) =
      IoCfg.defaults := by
  rw [selected_eq, slotRecord_erased, slotRecord_erase_other _ (.inl rfl) (.inr rfl) (by decide),
    slotRecord_erased]
  rfl

/-- What slot B holds is the current configuration unless slot A is the one selected. -/
theorem selected_of_slotB (v : UInt16) {mem : Nor.Mem} {c : IoCfg} {g : UInt32}
    (found : slotRecord mem cfgSlotB = some (c, g)) (active : (boot v mem).cfg.1 ≠ some cfgSlotA) :
    selected v mem = c := by
  rw [boot_slot, found] at active
  rw [selected_eq, found]
  rcases slotA : slotRecord mem cfgSlotA with _ | ⟨ca, ga⟩
  · rfl
  · rw [slotA] at active
    simp only [pickSlot] at active ⊢
    by_cases newer : ga ≥ g
    · rw [if_pos newer] at active
      exact absurd rfl active
    · rw [if_neg newer]

/-! ## The reset -/

/-- Wherever the power is lost in a factory reset, the next boot selects the configuration that was
current or the defaults, exactly when slot B holds no other configuration while slot A is active. -/
theorem eraseAll_never_older_iff (v : UInt16) (mem : Nor.Mem) (regs : RegMap) (cfg : Option ℕ × UInt32) :
    (∀ k, (selected v (erasedTo mem regs cfg k) = selected v mem ∨
          selected v (erasedTo mem regs cfg k) = IoCfg.defaults) ∧
        (selected v (storeErasedTo mem k) = selected v mem ∨
          selected v (storeErasedTo mem k) = IoCfg.defaults)) ↔
      ((boot v mem).cfg.1 = some cfgSlotA → ∀ c g, slotRecord mem cfgSlotB = some (c, g) →
        c = selected v mem ∨ c = IoCfg.defaults) := by
  simp only [erasedTo_eq, and_self]
  constructor
  · intro safe active c g found
    -- the cut between the two erases
    have between := safe 1
    rw [storeErasedTo_eq] at between
    simp only [selected_erasedA, found] at between
    exact between
  · intro same k
    rw [storeErasedTo_eq]
    rcases k with _ | _ | k
    · exact .inl rfl
    · simp only [selected_erasedA]
      rcases found : slotRecord mem cfgSlotB with _ | ⟨c, g⟩
      · exact .inr rfl
      · by_cases active : (boot v mem).cfg.1 = some cfgSlotA
        · exact same active c g found
        · exact .inl (selected_of_slotB v found active).symm
    · exact .inr (selected_erasedBoth v mem)

/-- The slots after a save to B and a later one to A. -/
def twoSaves (older current : IoCfg) : Nor.Mem :=
  Nor.program (Nor.program blankArray cfgSlotB (encodeRecord older 2)) cfgSlotA (encodeRecord current 3)

theorem slotRecord_twoSaves (older current : IoCfg) :
    slotRecord (twoSaves older current) cfgSlotA = some (current, 3) ∧
      slotRecord (twoSaves older current) cfgSlotB = some (older, 2) := by
  have blank (addr len : ℕ) : Nor.Erased blankArray addr len := fun _ _ _ => rfl
  constructor
  · have free : Nor.Erased (Nor.program blankArray cfgSlotB (encodeRecord older 2)) cfgSlotA
        (encodeRecord current 3).length := by
      apply (blank _ _).program
      rw [length_encodeRecord, length_encodeRecord]
      exact .inl (by decide)
    have back := Nor.read_program free
    rw [length_encodeRecord] at back
    rw [slotRecord, twoSaves, back, decodeRecord_encodeRecord]
  · have back := Nor.read_program (blank cfgSlotB (encodeRecord older 2).length)
    rw [length_encodeRecord] at back
    rw [slotRecord, twoSaves, Nor.read_program_outside, back, decodeRecord_encodeRecord]
    rw [length_encodeRecord]
    exact .inr (by decide)

/-- A reset of a device in slot A that loses power after its first erase comes up with the slave
address of the save before. -/
theorem eraseAll_selects_older :
    let older := { IoCfg.defaults with slaveId := 7 }
    let current := { IoCfg.defaults with slaveId := 9 }
    let mem := twoSaves older current
    selected 1 mem = current ∧
      selected 1 (erasedTo mem (RegMap.new 1) (some cfgSlotA, 3) 1) = older ∧
      selected 1 (storeErasedTo mem 1) = older ∧ older ≠ current ∧ older ≠ IoCfg.defaults := by
  intro older current mem
  obtain ⟨slotA, slotB⟩ := slotRecord_twoSaves older current
  have after : selected 1 (storeErasedTo mem 1) = older := by
    rw [storeErasedTo_eq]
    simp only [selected_erasedA, mem, slotB]
  refine ⟨?_, ?_, after, by decide, by decide⟩
  · rw [selected_eq, slotA, slotB]
    rfl
  · rw [erasedTo_eq, after]

end Device

end IoEdgeHub
