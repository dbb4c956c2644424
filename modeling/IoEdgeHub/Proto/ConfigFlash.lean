import IoEdgeHub.Proto.ConfigStore

/-!
# The configuration store over any flash

The part of `config_store.rs` that reads and writes: the trait `Flash`, and loading and saving over it.  An
operation of the flash may fail, with any effect; a recorded flash keeps the operations in order.
-/

namespace IoEdgeHub

open Bytes

/-- The trait; the flash itself is the state. -/
structure Flash (σ : Type*) where
  read : σ → ℕ → ℕ → σ × Option (List UInt8)
  write : σ → ℕ → List UInt8 → σ × Bool
  erase : σ → ℕ → ℕ → σ × Bool

/-- An operation of the flash. -/
inductive FlashOp where
  | read (addr len : ℕ)
  | write (addr : ℕ) (data : List UInt8)
  | erase (addr len : ℕ)
deriving DecidableEq, Repr

variable {σ : Type*}

/-- The same flash with a record of the operations, each with its success. -/
def Flash.recorded (f : Flash σ) : Flash (σ × List (FlashOp × Bool)) where
  read s addr len :=
    let (s', data) := f.read s.1 addr len
    ((s', s.2 ++ [(.read addr len, data.isSome)]), data)
  write s addr data :=
    let (s', ok) := f.write s.1 addr data
    ((s', s.2 ++ [(.write addr data, ok)]), ok)
  erase s addr len :=
    let (s', ok) := f.erase s.1 addr len
    ((s', s.2 ++ [(.erase addr len, ok)]), ok)

/-- What a slot was found to hold. -/
inductive SlotRead where
  | valid (cfg : IoCfg) (gen : UInt32)
  | invalid

/-- No result is a read that failed. -/
def slotRead (f : Flash σ) (s : σ) (addr : ℕ) : σ × Option SlotRead :=
  match f.read s addr cfgRecLen with
  | (s, none) => (s, none)
  | (s, some rec) =>
    if rec.take 4 ≠ cfgMagic then (s, some .invalid)
    else if leNat ((rec.drop 8).take 2) ≠ 26 then (s, some .invalid)
    else if leNat ((rec.drop 36).take 4) ≠ (crc32Ieee (rec.take 36)).toNat then (s, some .invalid)
    else
      let cfg := IoCfg.fromBytes ((rec.drop 10).take 26)
      let gen := UInt32.ofNat (leNat ((rec.drop 4).take 4))
      (s, some (.valid cfg gen))

/-- The slot in use and its generation. -/
structure ConfigState where
  cfg : IoCfg
  curSlot : Option ℕ

/-- The slot with the higher generation, a valid one before an invalid one, else the defaults. -/
def configStoreInit (f : Flash σ) (s : σ) : σ × Option ConfigState :=
  let state : ConfigState := ⟨IoCfg.defaults, none⟩
  match slotRead f s cfgSlotA with
  | (s, none) => (s, none)
  | (s, some a) =>
    match slotRead f s cfgSlotB with
    | (s, none) => (s, none)
    | (s, some b) =>
      match a, b with
      | .valid ca ga, .valid cb gb =>
        if ga ≥ gb then (s, some ⟨ca, some cfgSlotA⟩) else (s, some ⟨cb, some cfgSlotB⟩)
      | .valid c _, .invalid => (s, some ⟨c, some cfgSlotA⟩)
      | .invalid, .valid c _ => (s, some ⟨c, some cfgSlotB⟩)
      | .invalid, .invalid => (s, some state)

/-- Returns the slot written, if every operation succeeded. -/
def configStoreSaveGen (f : Flash σ) (s : σ) (cfg : IoCfg) (curSlot : Option ℕ) (curGen : UInt32) : σ × Option ℕ :=
  let tgt := if curSlot = some cfgSlotA then cfgSlotB else cfgSlotA
  let rec_ := encodeRecord cfg (curGen + 1)
  match f.erase s tgt cfgSlotSize with
  | (s, false) => (s, none)
  | (s, true) =>
    match f.write s tgt (rec_.take cfgHdrLen) with
    | (s, false) => (s, none)
    | (s, true) =>
      match f.write s (tgt + cfgHdrLen) ((rec_.take 36).drop cfgHdrLen) with
      | (s, false) => (s, none)
      | (s, true) =>
        match f.write s (tgt + cfgCrcOff) ((rec_.take 40).drop 36) with
        | (s, false) => (s, none)
        | (s, true) => (s, some tgt)

/-- A slot that can be read holds what its record decodes to. -/
theorem slotRead_eq (f : Flash σ) {s s' : σ} {addr : ℕ} {rec : List UInt8}
    (read : f.read s addr cfgRecLen = (s', some rec)) :
    slotRead f s addr = (s', some ((decodeRecord rec).elim .invalid fun r => .valid r.1 r.2)) := by
  unfold slotRead decodeRecord
  rw [read]
  dsimp only
  split_ifs
  · rfl
  · rfl
  · rfl
  · rfl

end IoEdgeHub
