import IoEdgeHub.Proto.FwTlv
import IoEdgeHub.Firmware.Fw

/-!
# Where the key hash is looked for (`tlv_keyhash_ok` in `fw.rs`)

The offset of the TLV block is the sum of two header fields, and the release build lets it wrap.
`tlvKeyhashChecked` is the same code with every 32-bit sum and difference checked;
`tlvKeyhashOk_arithmetic` says for which headers it overflows, and that only a sum that wraps makes
`tlvKeyhashOk` accept an image without the block it announces.
-/

namespace IoEdgeHub

namespace Fw

open Bytes

/-! ## Checked arithmetic -/

/-- `a + b` at `u32`; `none` is an overflow. -/
def addU32 (a b : ℕ) : Option ℕ := if a + b < 2 ^ 32 then some (a + b) else none

/-- `a - b` at `u32`; `none` is an overflow. -/
def subU32 (a b : ℕ) : Option ℕ := if b ≤ a then some (a - b) else none

/-- `image_tlv_pos` with a checked sum. -/
def imageTlvPosChecked (hdr32 : List UInt8) (hdrSizeExpect : ℕ) : Option (Option ℕ) :=
  if hdr32.length < 16 then some none
  else if leAt hdr32 0 4 ≠ 0x96F3B83D then some none
  else
    let hdrSize := leAt hdr32 8 2
    let imgSize := leAt hdr32 12 4
    if hdrSize ≠ hdrSizeExpect then some none
    else do
      let tlvOff ← addU32 hdrSize imgSize
      if tlvOff % 4 ≠ 0 then return none else return some tlvOff

/-- `tlv_keyhash_ok` with checked sums. -/
def tlvKeyhashChecked (nor : W25q) : Option (W25q × Bool) :=
  match nor.read 0 32 with
  | (nor, none) => some (nor, false)
  | (nor, some hdr) => do
    match ← imageTlvPosChecked hdr imgHdrSize with
    | none => return (nor, false)
    | some tlvOff =>
      if (← addU32 tlvOff 4) > slot1Size then return (nor, false)
      else
        let len := min tlvRead (← subU32 slot1Size tlvOff)
        match nor.read tlvOff len with
        | (nor, none) => return (nor, false)
        | (nor, some tlv) => return (nor, (← Tlv.keyhashRange tlv).map (Tlv.cut tlv) == some fwKeyhash)

/-! ## The header -/

/-- The magic number and the header size are right. -/
def HeaderOk (hdr : List UInt8) : Prop := leAt hdr 0 4 = 0x96F3B83D ∧ leAt hdr 8 2 = imgHdrSize

instance (hdr : List UInt8) : Decidable (HeaderOk hdr) := inferInstanceAs (Decidable (_ ∧ _))

/-- Where the block should be. -/
def tlvStart (hdr : List UInt8) : ℕ := imgHdrSize + leAt hdr 12 4

section Header

variable {hdr : List UInt8} (whole : 16 ≤ hdr.length)

include whole

theorem imageTlvPosChecked_eq :
    imageTlvPosChecked hdr imgHdrSize =
      if HeaderOk hdr then
        if tlvStart hdr < 2 ^ 32 then some (if tlvStart hdr % 4 = 0 then some (tlvStart hdr) else none)
        else none
      else some none := by
  unfold imageTlvPosChecked
  rw [if_neg (by omega)]
  by_cases magic : leAt hdr 0 4 = 0x96F3B83D
  · rw [if_neg (not_not.2 magic)]
    by_cases size : leAt hdr 8 2 = imgHdrSize
    · rw [if_neg (not_not.2 size), if_pos ⟨magic, size⟩, addU32, size, ← tlvStart]
      by_cases fits : tlvStart hdr < 2 ^ 32
      · rw [if_pos fits, if_pos fits, Option.bind_eq_bind, Option.bind_some]
        by_cases aligned : tlvStart hdr % 4 = 0
        · rw [if_neg (not_not.2 aligned), if_pos aligned]
          rfl
        · rw [if_pos aligned, if_neg aligned]
          rfl
      · rw [if_neg fits, if_neg fits]
        rfl
    · rw [if_pos size, if_neg fun ok => size ok.2]
  · rw [if_pos magic, if_neg fun ok => magic ok.1]

/-- The wrapped sum is a multiple of 4 just if the sum is. -/
theorem imageTlvPos_eq :
    imageTlvPos hdr imgHdrSize =
      if HeaderOk hdr ∧ tlvStart hdr % 4 = 0 then some (UInt32.ofNat (tlvStart hdr)) else none := by
  have sum : UInt32.ofNat imgHdrSize + UInt32.ofNat (leAt hdr 12 4) = UInt32.ofNat (tlvStart hdr) :=
    (UInt32.ofNat_add _ _).symm
  have aligned : UInt32.ofNat (tlvStart hdr) % 4 ≠ 0 ↔ tlvStart hdr % 4 ≠ 0 := by
    rw [Ne, ← UInt32.toNat_inj, UInt32.toNat_mod, UInt32.toNat_ofNat']
    simp only [UInt32.reduceToNat]
    omega
  unfold imageTlvPos
  rw [if_neg (by omega)]
  by_cases magic : leAt hdr 0 4 = 0x96F3B83D
  · rw [if_neg (not_not.2 magic)]
    by_cases size : leAt hdr 8 2 = imgHdrSize
    · simp only [size, ne_eq, not_true_eq_false, if_false, sum]
      by_cases four : tlvStart hdr % 4 = 0
      · rw [if_neg (fun odd => aligned.1 odd four), if_pos ⟨⟨magic, size⟩, four⟩]
      · rw [if_pos (aligned.2 four), if_neg fun ok => four ok.2]
    · rw [if_pos size, if_neg fun ok => size ok.1.2]
  · rw [if_pos magic, if_neg fun ok => magic ok.1.1]

end Header

/-! ## The block -/

/-- The block stands at `t`, with the key hash in one of its entries, all inside the slot. -/
structure BlockAt (mem : Nor.Mem) (t : ℕ) : Prop where
  fits : t + 4 ≤ slot1Size
  magic : leNat (Nor.read mem t 2) = 0x6907
  entry : ∃ off ≥ 4, off + 4 + fwKeyhashLen ≤ leNat (Nor.read mem (t + 2) 2) ∧
    t + off + 4 + fwKeyhashLen ≤ slot1Size ∧ leNat (Nor.read mem (t + off) 2) = 0x0001 ∧
    leNat (Nor.read mem (t + off + 2) 2) = fwKeyhashLen ∧
    Nor.read mem (t + off + 4) fwKeyhashLen = fwKeyhash

/-- `tlv_keyhash_ok` behind the header. -/
def keyhashAt (nor : W25q) (t : ℕ) : W25q × Bool :=
  if t + 4 > slot1Size then (nor, false)
  else
    match nor.read t (min tlvRead (slot1Size - t)) with
    | (nor, none) => (nor, false)
    | (nor, some tlv) => (nor, keyhashInTlv tlv == some fwKeyhash)

theorem leAt_read (mem : Nor.Mem) (t : ℕ) {len off w : ℕ} (fits : off + w ≤ len) :
    leAt (Nor.read mem t len) off w = leNat (Nor.read mem (t + off) w) := by
  rw [leAt, Nor.read_slice mem t fits]

theorem blockAt_of_keyhashInTlv {mem : Nor.Mem} {t len : ℕ} (inside : t + len ≤ slot1Size)
    (found : keyhashInTlv (Nor.read mem t len) = some fwKeyhash) : BlockAt mem t := by
  obtain ⟨r, _, same, spec⟩ := Tlv.keyhashRange_spec (Nor.read mem t len)
  obtain ⟨p, rfl, data⟩ := Option.map_eq_some_iff.1 (same.trans found)
  obtain ⟨magic, size, entry⟩ := spec p rfl
  rw [Nor.length_read] at size
  have behind := entry.behind
  have last := entry.size
  have within := entry.inside
  rw [Tlv.cut, last, Nat.add_sub_cancel_left, ← Nor.read_slice mem t (by omega)] at data
  have declared := leAt_read mem t (show 2 + 2 ≤ len by omega)
  have tag := (leAt_read mem t (show p.1 - 4 + 2 ≤ len by omega)).symm.trans entry.tag
  have length := (leAt_read mem t (show p.1 - 2 + 2 ≤ len by omega)).symm.trans entry.len
  rw [leAt_read mem t (by omega)] at magic
  rw [declared] at within size
  obtain ⟨off, start⟩ : ∃ off, p.1 = off + 4 := ⟨p.1 - 4, by omega⟩
  rw [start] at tag length data
  exact ⟨by omega, magic, off, by omega, by omega, by omega, tag, length, data⟩

theorem keyhashAt_true {nor : W25q} {t : ℕ} (ok : (keyhashAt nor t).2 = true) : BlockAt nor.mem t := by
  unfold keyhashAt at ok
  split at ok
  · exact absurd ok (by simp)
  · rename_i fits
    split at ok
    · exact absurd ok (by simp)
    · rename_i tlv read
      obtain rfl := W25q.read_eq_some (congrArg Prod.snd read)
      exact blockAt_of_keyhashInTlv (by omega) (beq_iff_eq.1 ok)

section Small

variable {t : ℕ} (small : t + 4 < 2 ^ 32)

include small

theorem ofNat_add_four_gt : UInt32.ofNat t + 4 > UInt32.ofNat slot1Size ↔ t + 4 > slot1Size := by
  rw [gt_iff_lt, UInt32.lt_iff_toNat_lt, UInt32.toNat_add, UInt32.toNat_ofNat', UInt32.toNat_ofNat',
    Nat.mod_eq_of_lt (by decide : slot1Size < 2 ^ 32), Nat.mod_eq_of_lt (by omega : t < 2 ^ 32)]
  rw [show (4 : UInt32).toNat = 4 from rfl, Nat.mod_eq_of_lt small]

theorem toNat_min_sub (fits : t + 4 ≤ slot1Size) :
    (min (UInt32.ofNat tlvRead) (UInt32.ofNat slot1Size - UInt32.ofNat t)).toNat =
      min tlvRead (slot1Size - t) := by
  have size : (UInt32.ofNat slot1Size).toNat = slot1Size := rfl
  have offset : (UInt32.ofNat t).toNat = t :=
    UInt32.toNat_ofNat_of_lt' (show t < 2 ^ 32 by omega)
  have below : UInt32.ofNat t ≤ UInt32.ofNat slot1Size := by
    rw [UInt32.le_iff_toNat_le, size, offset]
    omega
  have rest : (UInt32.ofNat slot1Size - UInt32.ofNat t).toNat = slot1Size - t := by
    rw [UInt32.toNat_sub_of_le _ _ below, size, offset]
  have read : (UInt32.ofNat tlvRead).toNat = tlvRead := rfl
  rw [show min (UInt32.ofNat tlvRead) _ = if UInt32.ofNat tlvRead ≤ _ then _ else _ from rfl, min_def,
    apply_ite UInt32.toNat]
  simp only [UInt32.le_iff_toNat_le, rest, read]

end Small

variable {nor nor' : W25q}

/-- As long as no sum wraps, the offset is a number. -/
theorem tlvKeyhashOk_of_small {hdr : List UInt8} (read : nor.read 0 32 = (nor', some hdr))
    (whole : 16 ≤ hdr.length) (ok : HeaderOk hdr) (aligned : tlvStart hdr % 4 = 0)
    (small : tlvStart hdr + 4 < 2 ^ 32) : tlvKeyhashOk nor = keyhashAt nor' (tlvStart hdr) := by
  have offset : (UInt32.ofNat (tlvStart hdr)).toNat = tlvStart hdr :=
    UInt32.toNat_ofNat_of_lt' (show tlvStart hdr < 2 ^ 32 by omega)
  rw [tlvKeyhashOk, read]
  dsimp only
  rw [imageTlvPos_eq whole, if_pos ⟨ok, aligned⟩, keyhashAt]
  dsimp only
  by_cases high : tlvStart hdr + 4 > slot1Size
  · rw [if_pos ((ofNat_add_four_gt small).2 high), if_pos high]
  · rw [if_neg (mt (ofNat_add_four_gt small).1 high), if_neg high]
    rcases got : nor'.read (tlvStart hdr) (min tlvRead (slot1Size - tlvStart hdr)) with ⟨nor'', _ | tlv⟩
    · simp only [offset, toNat_min_sub small (Nat.not_lt.1 high), got]
    · simp only [offset, toNat_min_sub small (Nat.not_lt.1 high), got]

/-- At the last offset the sum with 4 wraps to 0, and the flash refuses the read. -/
theorem tlvKeyhashOk_of_last {hdr : List UInt8} (read : nor.read 0 32 = (nor', some hdr))
    (whole : 16 ≤ hdr.length) (ok : HeaderOk hdr) (last : tlvStart hdr + 4 = 2 ^ 32) :
    tlvKeyhashOk nor = (nor', false) := by
  have start : tlvStart hdr = 0xFFFFFFFC := by omega
  have refused (len : ℕ) : nor'.read (UInt32.ofNat 0xFFFFFFFC).toNat len = (nor', none) :=
    if_pos (.inl (by decide))
  rw [tlvKeyhashOk, read]
  dsimp only
  rw [imageTlvPos_eq whole, if_pos ⟨ok, by omega⟩, start]
  dsimp only
  rw [if_neg (by decide), refused]

theorem tlvKeyhashOk_of_bad {hdr : List UInt8} (read : nor.read 0 32 = (nor', some hdr))
    (whole : 16 ≤ hdr.length) (bad : ¬(HeaderOk hdr ∧ tlvStart hdr % 4 = 0)) :
    tlvKeyhashOk nor = (nor', false) := by
  rw [tlvKeyhashOk, read]
  dsimp only
  rw [imageTlvPos_eq whole, if_neg bad]

/-! ## The checked code -/

/-- Some sum on the way overflows. -/
def Overflows (hdr : List UInt8) : Prop :=
  HeaderOk hdr ∧ (2 ^ 32 ≤ tlvStart hdr ∨ tlvStart hdr + 4 = 2 ^ 32)

theorem tlvKeyhashChecked_of_small {hdr : List UInt8}
    (read : nor.read 0 32 = (nor', some hdr)) (whole : 16 ≤ hdr.length) (ok : HeaderOk hdr)
    (aligned : tlvStart hdr % 4 = 0) (small : tlvStart hdr + 4 < 2 ^ 32) :
    tlvKeyhashChecked nor = some (keyhashAt nor' (tlvStart hdr)) := by
  rw [tlvKeyhashChecked, read]
  dsimp only
  rw [imageTlvPosChecked_eq whole, if_pos ok, if_pos (by omega), if_pos aligned, keyhashAt]
  simp only [Option.bind_eq_bind, Option.bind_some]
  rw [addU32, if_pos small, Option.bind_some]
  by_cases high : tlvStart hdr + 4 > slot1Size
  · rw [if_pos high, if_pos high]
    rfl
  · rw [if_neg high, if_neg high, subU32, if_pos (by omega), Option.bind_some]
    rcases nor'.read (tlvStart hdr) (min tlvRead (slot1Size - tlvStart hdr)) with ⟨nor'', _ | tlv⟩
    · rfl
    · obtain ⟨r, ran, same, _⟩ := Tlv.keyhashRange_spec tlv
      simp only [ran, same, Option.bind_some]
      rfl

theorem tlvKeyhashChecked_cases {hdr : List UInt8}
    (read : nor.read 0 32 = (nor', some hdr)) (whole : 16 ≤ hdr.length) :
    Overflows hdr ∧ tlvKeyhashChecked nor = none ∨
      ¬Overflows hdr ∧ tlvKeyhashChecked nor = some (tlvKeyhashOk nor) := by
  by_cases ok : HeaderOk hdr
  · by_cases wraps : 2 ^ 32 ≤ tlvStart hdr
    · refine .inl ⟨⟨ok, .inl wraps⟩, ?_⟩
      rw [tlvKeyhashChecked, read]
      dsimp only
      rw [imageTlvPosChecked_eq whole, if_pos ok, if_neg (by omega)]
      rfl
    by_cases aligned : tlvStart hdr % 4 = 0
    · by_cases last : tlvStart hdr + 4 = 2 ^ 32
      · refine .inl ⟨⟨ok, .inr last⟩, ?_⟩
        rw [tlvKeyhashChecked, read]
        dsimp only
        rw [imageTlvPosChecked_eq whole, if_pos ok, if_pos (by omega), if_pos aligned]
        simp only [Option.bind_eq_bind, Option.bind_some]
        rw [addU32, if_neg (by omega), Option.bind_none]
      · have small : tlvStart hdr + 4 < 2 ^ 32 := by omega
        refine .inr ⟨fun overflows => by have := overflows.2; omega, ?_⟩
        rw [tlvKeyhashChecked_of_small read whole ok aligned small,
          tlvKeyhashOk_of_small read whole ok aligned small]
    · refine .inr ⟨fun overflows => by have := overflows.2; omega, ?_⟩
      rw [tlvKeyhashOk_of_bad read whole fun both => aligned both.2, tlvKeyhashChecked, read]
      dsimp only
      rw [imageTlvPosChecked_eq whole, if_pos ok, if_pos (by omega), if_neg aligned]
      rfl
  · refine .inr ⟨fun overflows => ok overflows.1, ?_⟩
    rw [tlvKeyhashOk_of_bad read whole fun both => ok both.1, tlvKeyhashChecked, read]
    dsimp only
    rw [imageTlvPosChecked_eq whole, if_neg ok]
    rfl

/-- An accepted image has the block it announces, unless the offset of the block wraps. -/
theorem tlvKeyhashOk_true {hdr : List UInt8}
    (read : nor.read 0 32 = (nor', some hdr)) (whole : 16 ≤ hdr.length)
    (accepted : (tlvKeyhashOk nor).2 = true) (inside : tlvStart hdr < 2 ^ 32) :
    BlockAt nor'.mem (tlvStart hdr) := by
  by_cases good : HeaderOk hdr ∧ tlvStart hdr % 4 = 0
  · by_cases last : tlvStart hdr + 4 = 2 ^ 32
    · rw [tlvKeyhashOk_of_last read whole good.1 last] at accepted
      exact absurd accepted (by simp)
    · rw [tlvKeyhashOk_of_small read whole good.1 good.2 (by omega)] at accepted
      exact keyhashAt_true accepted
  · rw [tlvKeyhashOk_of_bad read whole good] at accepted
    exact absurd accepted (by simp)

/-- Of every flash: which headers make the checked code overflow, that the two versions agree
otherwise, and that an accepted image has its block inside the slot unless its offset wraps. -/
theorem tlvKeyhashOk_arithmetic (nor : W25q) :
    (tlvKeyhashChecked nor = none ↔ ∃ hdr, (nor.read 0 32).2 = some hdr ∧ Overflows hdr) ∧
    (∀ r, tlvKeyhashChecked nor = some r → tlvKeyhashOk nor = r) ∧
    ((tlvKeyhashOk nor).2 = true →
      (BlockAt nor.mem (imgHdrSize + leNat (Nor.read nor.mem 12 4)) ↔
        imgHdrSize + leNat (Nor.read nor.mem 12 4) < 2 ^ 32)) := by
  have frame := (nor.read_frame 0 32).1
  rcases read : nor.read 0 32 with ⟨nor', _ | hdr⟩
  · have checked : tlvKeyhashChecked nor = some (nor', false) := by rw [tlvKeyhashChecked, read]
    have wrapped : tlvKeyhashOk nor = (nor', false) := by rw [tlvKeyhashOk, read]
    rw [checked, wrapped]
    exact ⟨by simp, by simp, nofun⟩
  · rw [read] at frame
    obtain rfl := W25q.read_eq_some (congrArg Prod.snd read)
    have whole : 16 ≤ (Nor.read nor.mem 0 32).length := by rw [Nor.length_read]; decide
    have start : tlvStart (Nor.read nor.mem 0 32) = imgHdrSize + leNat (Nor.read nor.mem 12 4) := by
      rw [tlvStart, leAt_read nor.mem 0 (by decide)]
    rw [← start]
    refine ⟨?_, ?_, fun accepted => ⟨fun block => ?_, fun inside => ?_⟩⟩
    · obtain ⟨overflows, checked⟩ | ⟨none, checked⟩ := tlvKeyhashChecked_cases read whole
      · simp [checked, overflows]
      · simp [checked, none]
    · obtain ⟨_, checked⟩ | ⟨_, checked⟩ := tlvKeyhashChecked_cases read whole
      · simp [checked]
      · simp [checked]
    · have fits := block.fits
      exact Nat.lt_of_lt_of_le (by omega) (show slot1Size ≤ 2 ^ 32 by decide)
    · have block := tlvKeyhashOk_true read whole accepted inside
      rwa [show nor'.mem = nor.mem from frame] at block

/-- A flash that starts with a header with this image size field, then a block with the key hash at
`off`. -/
def flashWith (size : List UInt8) (off : ℕ) : W25q where
  mem a :=
    let hdr := [0x3D, 0xB8, 0xF3, 0x96, 0, 0, 0, 0, 0x00, 0x02, 0, 0] ++ size
    let block := [0x07, 0x69, 0x28, 0x00, 0x01, 0x00, 0x20, 0x00] ++ fwKeyhash
    if a < off then hdr.getD a 0 else block.getD (a - off) 0
  plan := []
  refused := 0

theorem tlvKeyhashOk_arithmetic_plain :
    (tlvKeyhashOk (flashWith [0, 0, 0, 0] 0x200)).2 = true ∧
      BlockAt (flashWith [0, 0, 0, 0] 0x200).mem 0x200 := by
  have accepted : (tlvKeyhashOk (flashWith [0, 0, 0, 0] 0x200)).2 = true := by decide +kernel
  have size : leNat (Nor.read (flashWith [0, 0, 0, 0] 0x200).mem 12 4) = 0 := by decide +kernel
  have block := (tlvKeyhashOk_arithmetic (flashWith [0, 0, 0, 0] 0x200)).2.2 accepted
  rw [size] at block
  exact ⟨accepted, block.2 (by decide)⟩

/-- An image size of `0xFFFFFE20` puts the block at `0x20`, inside the header. -/
theorem wrapped_size_accepted :
    (tlvKeyhashOk (flashWith [0x20, 0xFE, 0xFF, 0xFF] 0x20)).2 = true ∧
    imgHdrSize + leNat (Nor.read (flashWith [0x20, 0xFE, 0xFF, 0xFF] 0x20).mem 12 4) + 4 > slot1Size ∧
    tlvKeyhashChecked (flashWith [0x20, 0xFE, 0xFF, 0xFF] 0x20) = none := by
  refine ⟨by decide +kernel, by decide +kernel, ?_⟩
  have overflow : (tlvKeyhashChecked (flashWith [0x20, 0xFE, 0xFF, 0xFF] 0x20)).isNone = true := by
    decide +kernel
  exact Option.isNone_iff_eq_none.1 overflow

end Fw

end IoEdgeHub
