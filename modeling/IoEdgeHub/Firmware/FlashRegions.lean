import IoEdgeHub.Lib.Regions
import IoEdgeHub.Firmware.CfgStorage
import IoEdgeHub.Firmware.FwContents
import IoEdgeHub.Firmware.LfsNor

/-!
# What the users of the flash keep to

The configuration store works on its two slots, the upgrade session on slot1, littlefs on the blocks behind its
offset: every function that drives the chip changes nothing outside its region, and what it does and returns depends on
nothing outside, whatever commands fail.
-/

namespace IoEdgeHub

open Regions Carrier

namespace W25q

instance : Carrier W25q ℕ UInt8 := ⟨W25q.mem, fun w mem => { w with mem }, fun _ _ => rfl⟩

theorem next_put (w : W25q) (m : Nor.Mem) : (put w m).next = (w.next.1, put w.next.2 m) := by
  rcases w with ⟨mem, _ | ⟨o, plan⟩, refused⟩ <;> rfl

variable {r : Set ℕ} {w : W25q}

theorem read_put {addr len : ℕ} (inside : addr + len ≤ chipSize → Set.Ico addr (addr + len) ⊆ r) {m : Nor.Mem}
    (same : Set.EqOn w.mem m r) : (put w m).read addr len = (put (w.read addr len).1 m, (w.read addr len).2) := by
  unfold read
  split
  · rfl
  split
  · rfl
  rename_i chip pos
  have bytes : Nor.read w.mem addr len = Nor.read m addr len :=
    Nor.read_congr fun a lo hi => same (inside (by omega) ⟨lo, hi⟩)
  rw [next_put]
  have mem := next_mem w
  generalize w.next = next at mem
  obtain ⟨_ | done, w'⟩ := next
  · change w'.mem = w.mem at mem
    change (put w' m, some (Nor.read m addr len)) = (put w' m, some (Nor.read w'.mem addr len))
    rw [mem, bytes]
  · rfl

theorem within_read {addr len : ℕ} (inside : addr + len ≤ chipSize → Set.Ico addr (addr + len) ⊆ r) :
    Within r (fun w => w.read addr len) w :=
  within_reads (read_frame w addr len).1 fun _ same => read_put inside same

theorem within_write {addr : ℕ} {buf : List UInt8} (inside : Set.Ico addr (addr + buf.length) ⊆ r) :
    Within r (fun w => w.write addr buf) w where
  kept a outside := by
    obtain ⟨k, part, mem, -⟩ := write_mem w addr buf
    change (w.write addr buf).1.mem a = w.mem a
    have out : ¬(addr ≤ a ∧ a < addr + buf.length) := fun bounds => outside (inside bounds)
    rw [mem, Nor.program_outside]
    rw [List.length_take]
    omega
  same m same := by
    unfold write
    split
    · exact ⟨m, same, rfl⟩
    split
    · exact ⟨m, same, rfl⟩
    rw [next_put]
    have mem := next_mem w
    generalize w.next = next at mem
    obtain ⟨_ | done, w'⟩ := next
    · refine ⟨Nor.program m addr buf, fun a inside => ?_, rfl⟩
      exact Nor.program_congr ((congrFun mem a).trans (same inside))
    · refine ⟨Nor.program m addr (buf.take done), fun a inside => ?_, rfl⟩
      exact Nor.program_congr ((congrFun mem a).trans (same inside))

theorem within_eraseOne {addr size : ℕ} (inside : Set.Ico addr (addr + size) ⊆ r) :
    Within r (fun w => w.eraseOne addr size) w where
  kept a outside := by
    obtain ⟨k, part, mem, -⟩ := eraseOne_mem w addr size
    change (w.eraseOne addr size).1.mem a = w.mem a
    have out : ¬(addr ≤ a ∧ a < addr + size) := fun bounds => outside (inside bounds)
    rw [mem, Nor.erase_outside]
    omega
  same m same := by
    unfold eraseOne
    rw [next_put]
    have mem := next_mem w
    generalize w.next = next at mem
    obtain ⟨_ | done, w'⟩ := next
    · exact ⟨Nor.erase m addr size, fun a inside => Nor.erase_congr ((congrFun mem a).trans (same inside)), rfl⟩
    · exact ⟨Nor.erase m addr (min done size), fun a inside => Nor.erase_congr ((congrFun mem a).trans (same inside)),
        rfl⟩

theorem within_eraseLoop (fuel : ℕ) {addr len : ℕ} (sector : len % sectorSize = 0)
    (inside : Set.Ico addr (addr + len) ⊆ r) : Within r (fun w => eraseLoop fuel w addr len) w := by
  induction fuel generalizing w addr len with
  | zero => exact within_pure _
  | succ fuel ih =>
    simp only [eraseLoop]
    split
    · exact within_pure _
    rename_i some_left
    obtain ⟨-, most, rest⟩ := eraseChunk_le addr sector (Nat.pos_of_ne_zero some_left)
    have left : (len - eraseChunk addr len) % sectorSize = 0 := by
      simp only [sectorSize] at *
      omega
    generalize eraseChunk addr len = chunk at most left
    have first : Set.Ico addr (addr + chunk) ⊆ r := (Set.Ico_subset_Ico_right (by omega)).trans inside
    have rest : Set.Ico (addr + chunk) (addr + chunk + (len - chunk)) ⊆ r :=
      (Set.Ico_subset_Ico (by omega) (by omega)).trans inside
    refine ((within_eraseOne first).andThen fun _ => ih left rest).of_eq fun w => ?_
    rcases w.eraseOne addr chunk with ⟨w', _ | _⟩ <;> rfl

theorem within_erase {addr len : ℕ} (inside : Set.Ico addr (addr + len) ⊆ r) :
    Within r (fun w => w.erase addr len) w := by
  unfold erase
  split
  · exact within_pure _
  · exact within_eraseLoop _ (by omega) inside

end W25q

/-! ## The configuration store -/

/-- Both slots. -/
def cfgRegion : Set ℕ := Set.Ico cfgSlotA (cfgSlotB + cfgSlotSize)

theorem slot_inside {s : ℕ} (isSlot : s = cfgSlotA ∨ s = cfgSlotB) (off : ℕ) {len : ℕ}
    (fits : off + len ≤ cfgSlotSize) :
    Set.Ico (s + off) (s + off + len) ⊆ cfgRegion := by
  apply Set.Ico_subset_Ico
  · rcases isSlot with rfl | rfl <;> simp only [cfgSlotA, cfgSlotB] <;> omega
  · rcases isSlot with rfl | rfl <;> simp only [cfgSlotA, cfgSlotB, cfgSlotSize] at * <;> omega

theorem cfgTarget_cases (slot : Option ℕ) : cfgTarget slot = cfgSlotA ∨ cfgTarget slot = cfgSlotB := by
  unfold cfgTarget
  split
  · exact .inr rfl
  · exact .inl rfl

section Config

variable {w : W25q}

theorem within_erase_slot {s : ℕ} (isSlot : s = cfgSlotA ∨ s = cfgSlotB) :
    Within cfgRegion (fun w => w.erase s cfgSlotSize) w :=
  W25q.within_erase (slot_inside isSlot 0 (by omega))

theorem within_write_slot {s off : ℕ} {buf : List UInt8} (isSlot : s = cfgSlotA ∨ s = cfgSlotB)
    (fits : off + buf.length ≤ cfgSlotSize) : Within cfgRegion (fun w => w.write (s + off) buf) w :=
  W25q.within_write (slot_inside isSlot off fits)

theorem within_read_slot {s : ℕ} (isSlot : s = cfgSlotA ∨ s = cfgSlotB) :
    Within cfgRegion (fun w => w.read s cfgRecLen) w :=
  W25q.within_read fun _ => slot_inside isSlot 0 (by decide)

theorem within_saveRecord {tgt : ℕ} (isSlot : tgt = cfgSlotA ∨ tgt = cfgSlotB) {rec : List UInt8}
    (length : rec.length = cfgRecLen) : Within cfgRegion (fun w => saveRecord w tgt rec) w := by
  have header : 0 + (rec.take cfgHdrLen).length ≤ cfgSlotSize := by
    rw [List.length_take, length]
    decide
  have body : cfgHdrLen + ((rec.take 36).drop cfgHdrLen).length ≤ cfgSlotSize := by
    rw [List.length_drop, List.length_take, length]
    decide
  have crc : cfgCrcOff + (rec.drop 36).length ≤ cfgSlotSize := by
    rw [List.length_drop, length]
    decide
  refine ((within_erase_slot isSlot).andThen fun _ => (within_write_slot isSlot header).andThen fun _ =>
    (within_write_slot isSlot body).andThen fun _ => within_write_slot isSlot crc).of_eq fun w => ?_
  unfold saveRecord
  rcases w.erase tgt cfgSlotSize with ⟨w₁, _ | _⟩
  · rfl
  dsimp only [Nat.add_zero]
  rcases w₁.write tgt (rec.take cfgHdrLen) with ⟨w₂, _ | _⟩
  · rfl
  dsimp only
  rcases w₂.write (tgt + cfgHdrLen) ((rec.take 36).drop cfgHdrLen) with ⟨w₃, _ | _⟩ <;> rfl

theorem within_cfgSave (regs : RegMap) (cfg : Option ℕ × UInt32) :
    Within cfgRegion (fun w => cfgSave w regs cfg) w := by
  have save := within_saveRecord (w := w) (cfgTarget_cases cfg.1)
    (length_encodeRecord (regsToCfg regs) (cfg.2 + 1))
  refine (save.bind (g := fun ok w => (w, bif ok then ((some (cfgTarget cfg.1), cfg.2 + 1), true) else (cfg, false)))
    (within_pure _)).of_eq fun w => ?_
  unfold cfgSave
  dsimp only
  rcases saveRecord w (cfgTarget cfg.1) (encodeRecord (regsToCfg regs) (cfg.2 + 1)) with ⟨w', _ | _⟩ <;> rfl

theorem within_cfgEraseAll (regs : RegMap) (cfg : Option ℕ × UInt32) :
    Within cfgRegion (fun w => cfgEraseAll w regs cfg) w := by
  have both := (within_erase_slot (w := w) (.inl rfl)).andThen fun _ => within_erase_slot (.inr rfl)
  refine (both.bind (g := fun ok w =>
    (w, bif ok then ((none, 0), applyCfgToRegs regs IoCfg.defaults, true) else (cfg, regs, false)))
    (within_pure _)).of_eq fun w => ?_
  unfold cfgEraseAll
  rcases w.erase cfgSlotA cfgSlotSize with ⟨w₁, _ | _⟩
  · rfl
  · dsimp only
    rcases w₁.erase cfgSlotB cfgSlotSize with ⟨w₂, _ | _⟩ <;> rfl

theorem within_bootConfigLoad (regs : RegMap) : Within cfgRegion (fun w => bootConfigLoad w regs) w := by
  let picked (ra rb : Option (List UInt8)) := pickSlot (ra.bind decodeRecord) (rb.bind decodeRecord)
  exact (within_read_slot (.inl rfl)).bind (g := fun ra w =>
      ((w.read cfgSlotB cfgRecLen).1, (picked ra (w.read cfgSlotB cfgRecLen).2).1,
        (picked ra (w.read cfgSlotB cfgRecLen).2).2,
        applyCfgToRegs regs (picked ra (w.read cfgSlotB cfgRecLen).2).1))
    ((within_read_slot (.inr rfl)).bind
      (g := fun rb w => (w, (picked _ rb).1, (picked _ rb).2, applyCfgToRegs regs (picked _ rb).1))
      (within_pure _))

end Config

/-! ## The upgrade session -/

/-- The bytes of slot1. -/
def slot1Region : Set ℕ := Set.Ico 0 slot1Size

theorem slot1_inside {off len : ℕ} (fits : off + len ≤ slot1Size) : Set.Ico off (off + len) ⊆ slot1Region :=
  Set.Ico_subset_Ico (Nat.zero_le off) fits

theorem within_bootSetPending {w : W25q} (permanent : Bool) :
    Within slot1Region (fun w => bootSetPending w permanent) w := by
  have write (w : W25q) (off : ℕ) (data : List UInt8) (inside : off + data.length ≤ slot1Size) :
      Within slot1Region (fun w => w.write off data) w := W25q.within_write (slot1_inside inside)
  cases permanent with
  | false =>
    refine ((write w magicOff bootMagic (by decide)).andThen fun _ =>
      write _ swapInfoOff (trailerFlag bootSwapTypeTest) (by decide)).of_eq fun w => ?_
    unfold bootSetPending
    rcases w.write magicOff bootMagic with ⟨w₁, _ | _⟩ <;> rfl
  | true =>
    refine ((write w magicOff bootMagic (by decide)).andThen fun _ =>
      (write _ imageOkOff (trailerFlag bootFlagSet) (by decide)).andThen fun _ =>
      write _ swapInfoOff (trailerFlag bootSwapTypePerm) (by decide)).of_eq fun w => ?_
    unfold bootSetPending
    rcases w.write magicOff bootMagic with ⟨w₁, _ | _⟩
    · rfl
    dsimp only [if_true]
    rcases w₁.write imageOkOff (trailerFlag bootFlagSet) with ⟨w₂, _ | _⟩ <;> rfl

namespace Fw

instance : Carrier Fw ℕ UInt8 :=
  ⟨fun s => s.nor.mem, fun s m => { s with nor := put s.nor m }, fun _ _ => rfl⟩

variable {r : Set ℕ} {s : Fw}

/-- What the driver keeps to, a session that only runs the driver keeps to. -/
theorem within_nor {R : Type*} {f : W25q → W25q × R} (within : Within r f s.nor) :
    Within r (fun s : Fw => ({ s with nor := (f s.nor).1 }, (f s.nor).2)) s where
  kept := within.kept
  same m same := by
    obtain ⟨m', same', eq⟩ := within.same m same
    refine ⟨m', same', ?_⟩
    change (({ s with nor := (f (put s.nor m)).1 } : Fw), (f (put s.nor m)).2) = _
    rw [eq]
    rfl

theorem within_pageFlush (inside : s.written + s.page.length ≤ slot1Size) : Within slot1Region pageFlush s := by
  by_cases pos : s.page.length > 0
  · have page : Set.Ico s.written (s.written + s.page.length) ⊆ slot1Region := slot1_inside inside
    refine ((within_nor (W25q.within_write page)).bind (g := fun ok s => ({ s with page := [] }, ok)) ?_).congr ?_
      fun m => ?_
    · exact ⟨fun _ _ => rfl, fun m same => ⟨m, same, rfl⟩⟩
    · rw [pageFlush, if_pos pos]
    · exact if_pos pos
  · exact (within_pure true).congr (if_neg pos) fun m => if_neg pos

section Loop

variable {data : List UInt8} {chunk : ℕ} (some_left : ¬data.isEmpty = true)
  (chunk_eq : min (pageSz - s.page.length) data.length = chunk)

include chunk_eq

theorem length_filled : (s.page ++ data.take chunk).length = s.page.length + chunk := by
  rw [List.length_append, List.length_take]
  omega

include some_left

theorem writeLoop_flush (fuel : ℕ) (full : s.page.length + chunk = pageSz) :
    writeLoop (fuel + 1) s data =
      let flushed := ({ s with page := s.page ++ data.take chunk } : Fw).pageFlush
      bif flushed.2 then writeLoop fuel { flushed.1 with written := flushed.1.written + pageSz } (data.drop chunk)
      else ({ flushed.1 with failed := true }, false) := by
  rw [writeLoop, if_neg some_left, chunk_eq, if_pos ((length_filled chunk_eq).trans full)]
  rcases ({ s with page := s.page ++ data.take chunk } : Fw).pageFlush with ⟨s', _ | _⟩ <;> rfl

theorem writeLoop_buffer (fuel : ℕ) (room : s.page.length + chunk ≠ pageSz) :
    writeLoop (fuel + 1) s data = writeLoop fuel { s with page := s.page ++ data.take chunk } (data.drop chunk) := by
  rw [writeLoop, if_neg some_left, chunk_eq, if_neg (by rwa [length_filled chunk_eq])]

end Loop

theorem within_writeLoop (fuel : ℕ) {data : List UInt8} (inside : s.written + s.page.length + data.length ≤ slot1Size) :
    Within slot1Region (fun s => writeLoop fuel s data) s := by
  induction fuel generalizing s data with
  | zero => exact within_pure true
  | succ fuel ih =>
    by_cases empty : data.isEmpty = true
    · exact (within_pure true).of_eq fun s => by rw [writeLoop, if_pos empty]
    generalize chunk_eq : min (pageSz - s.page.length) data.length = chunk
    have length := length_filled chunk_eq
    have dropped : (data.drop chunk).length = data.length - chunk := List.length_drop ..
    have chunk_le : chunk ≤ data.length := by omega
    let filled (s : Fw) : Fw := { s with page := s.page ++ data.take chunk }
    by_cases full : s.page.length + chunk = pageSz
    · have flush : Within slot1Region (fun s => (filled s).pageFlush) s := by
        refine (within_pageFlush ?_).after (u := filled) rfl fun _ => rfl
        change s.written + (s.page ++ data.take chunk).length ≤ slot1Size
        omega
      refine (flush.bind (g := fun ok s => bif ok then writeLoop fuel { s with written := s.written + pageSz }
        (data.drop chunk)
        else ({ s with failed := true }, false)) ?_).congr (writeLoop_flush empty chunk_eq fuel full)
        fun m => writeLoop_flush (s := put s m) empty chunk_eq fuel full
      cases (filled s).pageFlush.2 with
      | false => exact ⟨fun _ _ => rfl, fun m same => ⟨m, same, rfl⟩⟩
      | true =>
        refine (ih ?_).after (u := fun s => { s with written := s.written + pageSz }) rfl fun _ => rfl
        rw [pageFlush_fields]
        change s.written + pageSz + 0 + (data.drop chunk).length ≤ slot1Size
        omega
    · have goes_on : Within slot1Region (fun s => writeLoop fuel (filled s) (data.drop chunk)) s := by
        refine (ih ?_).after (u := filled) rfl fun _ => rfl
        change s.written + (s.page ++ data.take chunk).length + (data.drop chunk).length ≤ slot1Size
        omega
      exact goes_on.congr (writeLoop_buffer empty chunk_eq fuel full)
        fun m => writeLoop_buffer (s := put s m) empty chunk_eq fuel full

theorem within_write {data : List UInt8} (fits : s.total ≤ slot1Size) :
    Within slot1Region (fun s => s.write data) s := by
  by_cases idle : (!s.active || s.failed) = true
  · exact (within_pure false).congr (if_pos idle) fun m => if_pos idle
  by_cases tooLong : s.written + s.page.length + data.length > s.total
  · refine Within.congr (f := fun s => ({ s with failed := true }, false))
      ⟨fun _ _ => rfl, fun m same => ⟨m, same, rfl⟩⟩
      ?_ fun m => ?_
    · rw [write, if_neg idle, if_pos tooLong]
    · exact (if_neg idle).trans (if_pos tooLong)
  · have inside : s.written + s.page.length + data.length ≤ slot1Size := by omega
    refine (within_writeLoop data.length inside).congr ?_ fun m => ?_
    · rw [write, if_neg idle, if_neg tooLong]
    · exact (if_neg idle).trans (if_neg tooLong)

theorem readback_put (fuel : ℕ) {nor : W25q} (off : ℕ) {total : ℕ} (fits : total ≤ slot1Size) (crc : BitVec 16)
    {m : Nor.Mem} (same : Set.EqOn nor.mem m slot1Region) :
    readback fuel (put nor m) off total crc =
      (put (readback fuel nor off total crc).1 m, (readback fuel nor off total crc).2) := by
  induction fuel generalizing nor off crc with
  | zero => rfl
  | succ fuel ih =>
    rw [readback, readback]
    split
    · have frame := nor.read_frame off (min (total - off) readChunk)
      dsimp only
      rw [W25q.read_put (fun _ => slot1_inside (by omega)) same]
      rcases got : nor.read off (min (total - off) readChunk) with ⟨nor', _ | buf⟩
      · rfl
      · rw [got] at frame
        exact ih _ _ (frame.1.symm ▸ same)
    · rfl

/-- The TLV block is read inside slot1, or far beyond the chip. -/
theorem tlv_inside {tlvOff : UInt32} (below : ¬tlvOff + 4 > UInt32.ofNat slot1Size) {len : UInt32}
    (len_eq : len = min (UInt32.ofNat tlvRead) (UInt32.ofNat slot1Size - tlvOff))
    (chip : tlvOff.toNat + len.toNat ≤ W25q.chipSize) : tlvOff.toNat + len.toNat ≤ slot1Size := by
  have size : (UInt32.ofNat slot1Size).toNat = 0x70000 := rfl
  have four : (4 : UInt32).toNat = 4 := rfl
  have small := tlvOff.toNat_lt
  simp only [W25q.chipSize] at chip
  have near : tlvOff.toNat + 4 ≤ 0x70000 := by
    rw [gt_iff_lt, UInt32.lt_iff_toNat_lt, UInt32.toNat_add, size, four] at below
    omega
  have rest : (UInt32.ofNat slot1Size - tlvOff).toNat = 0x70000 - tlvOff.toNat := by
    rw [UInt32.toNat_sub_of_le _ _ (UInt32.le_iff_toNat_le.2 (by omega)), size]
  have len_le : len.toNat ≤ (UInt32.ofNat slot1Size - tlvOff).toNat := by
    rw [len_eq]
    generalize UInt32.ofNat slot1Size - tlvOff = rest
    change (if UInt32.ofNat tlvRead ≤ rest then _ else rest).toNat ≤ rest.toNat
    split
    · exact UInt32.le_iff_toNat_le.1 ‹_›
    · exact Nat.le_refl _
  simp only [slot1Size]
  omega

theorem tlvKeyhashOk_put {nor : W25q} {m : Nor.Mem} (same : Set.EqOn nor.mem m slot1Region) :
    tlvKeyhashOk (put nor m) = (put (tlvKeyhashOk nor).1 m, (tlvKeyhashOk nor).2) := by
  have frame := nor.read_frame 0 32
  unfold tlvKeyhashOk
  rw [W25q.read_put (fun _ => slot1_inside (by decide)) same]
  rcases header : nor.read 0 32 with ⟨nor', _ | hdr⟩
  · rfl
  rw [header] at frame
  dsimp only
  rcases imageTlvPos hdr imgHdrSize with _ | tlvOff
  · rfl
  dsimp only
  split
  · rfl
  · rename_i below
    rw [W25q.read_put (fun chip => slot1_inside (tlv_inside below rfl chip)) (frame.1.symm ▸ same)]
    rcases nor'.read tlvOff.toNat _ with ⟨nor'', _ | tlv⟩ <;> rfl

theorem verify_put (fits : s.total ≤ slot1Size) (crc : Option (BitVec 16)) {m : Nor.Mem}
    (same : Set.EqOn s.nor.mem m slot1Region) : verify (put s m) crc = (put (s.verify crc).1 m, (s.verify crc).2) := by
  have frame := readback_frame (s.total / readChunk + 1) s.nor 0 s.total 0
  have reads : readback ((put s m).total / readChunk + 1) (put s m).nor 0 (put s m).total 0 = _ :=
    readback_put (s.total / readChunk + 1) 0 fits 0 same
  unfold verify
  by_cases short : s.written ≠ s.total
  · rw [if_pos short]
    exact if_pos short
  rw [if_neg short]
  refine (if_neg short).trans ?_
  rw [reads]
  rcases read : readback (s.total / readChunk + 1) s.nor 0 s.total 0 with ⟨nor, _ | crcV⟩
  · rfl
  rw [read] at frame
  have same' : Set.EqOn nor.mem m slot1Region := frame.1.symm ▸ same
  have frame' := tlvKeyhashOk_frame nor
  dsimp only
  rw [tlvKeyhashOk_put same']
  generalize tlvKeyhashOk nor = tlv at frame'
  dsimp only
  split
  · have last : (s.total - 16) + 16 ≤ slot1Size := by
      simp only [slot1Size] at *
      omega
    have tail := W25q.read_put (w := tlv.1) (fun _ => slot1_inside last) (frame'.1.symm ▸ same')
    change (({ s with nor := ((put tlv.1 m).read (s.total - 16) 16).1 } : Fw), false) = _
    rw [tail]
    rfl
  · rfl

theorem within_verify (fits : s.total ≤ slot1Size) (crc : Option (BitVec 16)) :
    Within slot1Region (fun s => s.verify crc) s :=
  within_reads (verify_frame s crc).1 fun _ same => verify_put fits crc same

/-- What every session satisfies, running or not. -/
def Inside (s : Fw) : Prop := s.written + s.page.length ≤ s.total ∧ s.total ≤ slot1Size

theorem within_finish (inside : s.Inside) (crc : Option (BitVec 16)) :
    Within slot1Region (fun s => s.finish crc) s := by
  obtain ⟨fits, small⟩ := inside
  by_cases idle : (!s.active) = true
  · exact (within_pure false).congr (if_pos idle) fun m => if_pos idle
  have active : s.active = true := by simpa using idle
  cases failed : s.failed with
  | true =>
    refine Within.congr (f := fun s => ({ s with active := false }, false))
      ⟨fun _ _ => rfl, fun m same => ⟨m, same, rfl⟩⟩ ?_ fun m => ?_
    · exact (if_neg idle).trans (if_pos failed)
    · exact (if_neg idle).trans (if_pos failed)
  | false =>
    refine ((within_pageFlush (fits.trans small)).bind (g := fun ok t =>
      if ok then verify { t with active := false, written := t.written + s.page.length } crc
      else ({ t with active := false }, false)) ?_).congr (finish_eq active failed crc)
      fun m => finish_eq (s := put s m) active failed crc
    cases s.pageFlush.2 with
    | false => exact ⟨fun _ _ => rfl, fun m same => ⟨m, same, rfl⟩⟩
    | true =>
      refine (within_verify ?_ crc).after
        (u := fun t => { t with active := false, written := t.written + s.page.length }) rfl fun _ => rfl
      rw [pageFlush_fields]
      exact small

theorem start_eq {total : ℕ} {keyhash : Option (List UInt8)} (idle : ¬s.active = true)
    (size : ¬(total < 64 ∨ total > slot1Size)) (key : ¬keyhash.any (· ≠ fwKeyhash) = true) :
    s.start total keyhash =
      bif (s.nor.erase 0 slot1Size).2 then
        ({ s with
            active := true, failed := false, total, written := 0, page := [], nor := (s.nor.erase 0 slot1Size).1 }, 0)
      else ({ s with nor := (s.nor.erase 0 slot1Size).1 }, -1) := by
  rw [start, if_neg idle, if_neg size, if_neg key]
  rcases s.nor.erase 0 slot1Size with ⟨nor, _ | _⟩ <;> rfl

theorem within_start (total : ℕ) (keyhash : Option (List UInt8)) :
    Within slot1Region (fun s => s.start total keyhash) s := by
  by_cases busy : s.active = true
  · exact (within_pure (-3)).congr (if_pos busy) fun m => if_pos busy
  by_cases size : total < 64 ∨ total > slot1Size
  · refine (within_pure (-1)).congr ?_ fun m => ?_
    · exact (if_neg busy).trans (if_pos size)
    · exact (if_neg busy).trans (if_pos size)
  by_cases other : keyhash.any (· ≠ fwKeyhash) = true
  · refine (within_pure (-2)).congr ?_ fun m => ?_
    · exact (if_neg busy).trans ((if_neg size).trans (if_pos other))
    · exact (if_neg busy).trans ((if_neg size).trans (if_pos other))
  have whole : Set.Ico 0 (0 + slot1Size) ⊆ slot1Region := slot1_inside (Nat.le_of_eq (Nat.zero_add slot1Size))
  refine ((within_nor (W25q.within_erase whole)).bind (g := fun ok s =>
    bif ok then ({ s with active := true, failed := false, total, written := 0, page := [] }, 0) else (s, -1)) ?_).congr
    (start_eq busy size other) fun m => start_eq (s := put s m) busy size other
  cases (s.nor.erase 0 slot1Size).2 with
  | false => exact within_pure (-1)
  | true => exact ⟨fun _ _ => rfl, fun m same => ⟨m, same, rfl⟩⟩

/-! ## A session keeps to its image -/

theorem total_verify (crc : Option (BitVec 16)) :
    (s.verify crc).1.written = s.written ∧ (s.verify crc).1.page = s.page ∧ (s.verify crc).1.total = s.total := by
  unfold verify
  split
  · exact ⟨rfl, rfl, rfl⟩
  rcases readback (s.total / readChunk + 1) s.nor 0 s.total 0 with ⟨nor, _ | crcV⟩
  · exact ⟨rfl, rfl, rfl⟩
  dsimp only
  split <;> exact ⟨rfl, rfl, rfl⟩

theorem Inside.writeLoop (fuel : ℕ) {data : List UInt8} (fits : s.written + s.page.length + data.length ≤ s.total)
    (small : s.total ≤ slot1Size) : (writeLoop fuel s data).1.Inside := by
  induction fuel generalizing s data with
  | zero => exact ⟨by change s.written + s.page.length ≤ s.total; omega, small⟩
  | succ fuel ih =>
    by_cases empty : data.isEmpty = true
    · rw [Fw.writeLoop, if_pos empty]
      exact ⟨by change s.written + s.page.length ≤ s.total; omega, small⟩
    generalize chunk_eq : min (pageSz - s.page.length) data.length = chunk
    have length := length_filled chunk_eq
    have dropped : (data.drop chunk).length = data.length - chunk := List.length_drop ..
    by_cases full : s.page.length + chunk = pageSz
    · rw [writeLoop_flush empty chunk_eq fuel full]
      dsimp only
      have fields := pageFlush_fields { s with page := s.page ++ data.take chunk }
      cases ({ s with page := s.page ++ data.take chunk } : Fw).pageFlush.2 with
      | false =>
        rw [fields]
        exact ⟨by change s.written + 0 ≤ s.total; omega, small⟩
      | true =>
        rw [fields]
        apply ih
        · change s.written + pageSz + 0 + (data.drop chunk).length ≤ s.total
          omega
        · exact small
    · rw [writeLoop_buffer empty chunk_eq fuel full]
      apply ih
      · change s.written + (s.page ++ data.take chunk).length + (data.drop chunk).length ≤ s.total
        omega
      · exact small

theorem Inside.write (inside : s.Inside) (data : List UInt8) : (s.write data).1.Inside := by
  unfold Fw.write
  split
  · exact inside
  split
  · exact inside
  · exact .writeLoop _ (by omega) inside.2

theorem Inside.start (inside : s.Inside) (total : ℕ) (keyhash : Option (List UInt8)) :
    (s.start total keyhash).1.Inside := by
  by_cases busy : s.active = true
  · rw [Fw.start, if_pos busy]
    exact inside
  by_cases size : total < 64 ∨ total > slot1Size
  · rw [Fw.start, if_neg busy, if_pos size]
    exact inside
  by_cases other : keyhash.any (· ≠ fwKeyhash) = true
  · rw [Fw.start, if_neg busy, if_neg size, if_pos other]
    exact inside
  rw [start_eq busy size other]
  cases (s.nor.erase 0 slot1Size).2 with
  | false => exact inside
  | true => exact ⟨Nat.zero_le total, by change total ≤ slot1Size; omega⟩

theorem Inside.abort (inside : s.Inside) : s.abort.Inside := ⟨Nat.zero_le _, inside.2⟩

theorem Inside.finish (inside : s.Inside) (crc : Option (BitVec 16)) : (s.finish crc).1.Inside := by
  cases active : s.active with
  | false =>
    rw [Fw.finish, if_pos (by rw [active]; rfl)]
    exact inside
  | true =>
    cases failed : s.failed with
    | true =>
      rw [Fw.finish, if_neg (by rw [active]; exact Bool.false_ne_true)]
      exact (if_pos failed : (if s.failed then _ else _) = _) ▸ inside
    | false =>
      rw [finish_eq active failed]
      have fields := pageFlush_fields s
      split
      · obtain ⟨written, page, total⟩ := total_verify (s := { s.pageFlush.1 with
          active := false, written := s.pageFlush.1.written + s.page.length }) crc
        rw [Inside, written, page, total, fields]
        exact inside
      · rw [fields]
        exact ⟨(Nat.le_add_right _ _).trans inside.1, inside.2⟩

end Fw

/-! ## Littlefs -/

namespace LfsNor

/-- `LFS_BLOCK_COUNT` -/
def lfsBlockCount : ℕ := (0x01000000 - lfsOffset.toNat) / 4096

/-- The blocks, up to the end of the chip. -/
def lfsRegion : Set ℕ := Set.Ico lfsOffset.toNat W25q.chipSize

variable {w : W25q} {off len : ℕ}

theorem toNat_lfsOffset_add (fits : off + len ≤ 4096 * lfsBlockCount) :
    (lfsOffset + UInt32.ofNat off).toNat = lfsOffset.toNat + off ∧ lfsOffset.toNat + off + len ≤ W25q.chipSize := by
  have base : lfsOffset.toNat = 0xF0000 := rfl
  rw [lfsBlockCount, base] at fits
  rw [W25q.chipSize]
  have small : (UInt32.ofNat off).toNat = off := UInt32.toNat_ofNat_of_lt' (by change off < 2 ^ 32; omega)
  rw [UInt32.toNat_add, small, base]
  omega

theorem lfs_inside (fits : off + len ≤ 4096 * lfsBlockCount) :
    Set.Ico (lfsOffset.toNat + off) (lfsOffset.toNat + off + len) ⊆ lfsRegion :=
  Set.Ico_subset_Ico (by omega) (toNat_lfsOffset_add fits).2

theorem within_read (fits : off + len ≤ 4096 * lfsBlockCount) :
    Within lfsRegion (fun w => read W25q.flash w off len) w := by
  unfold read
  rw [(toNat_lfsOffset_add fits).1]
  exact W25q.within_read fun _ => lfs_inside fits

theorem within_erase (fits : off + len ≤ 4096 * lfsBlockCount) :
    Within lfsRegion (fun w => erase W25q.flash w off len) w := by
  unfold erase
  rw [(toNat_lfsOffset_add fits).1]
  refine ((W25q.within_erase (lfs_inside fits)).bind (g := fun ok w => (w, if ok then some len else none))
    (within_pure _)).of_eq fun w => ?_
  have driver : W25q.flash.erase w (lfsOffset.toNat + off) len = w.erase (lfsOffset.toNat + off) len := rfl
  rw [driver]
  rcases w.erase (lfsOffset.toNat + off) len with ⟨w', _ | _⟩ <;> rfl

theorem within_runAll {r : Set ℕ} {parts : List (ℕ × List UInt8)}
    (inside : ∀ p ∈ parts, Set.Ico p.1 (p.1 + p.2.length) ⊆ r) :
    Within r (fun w => Chunks.runAll (writePiece W25q.flash) w parts) w := by
  induction parts generalizing w with
  | nil => exact within_pure true
  | cons p parts ih =>
    have first : Within r (fun w => w.write p.1 p.2) w := W25q.within_write (inside p List.mem_cons_self)
    refine (first.andThen fun _ => ih fun q member => inside q (List.mem_cons_of_mem p member)).of_eq fun w => ?_
    rcases written : w.write p.1 p.2 with ⟨w', _ | _⟩
    · exact Chunks.runAll_cons_false written parts
    · exact Chunks.runAll_cons_true written parts

/-- A write inside the blocks never runs out of fuel. -/
theorem within_write {data : List UInt8} (fits : off + data.length ≤ 4096 * lfsBlockCount) :
    Within lfsRegion (fun w => (write W25q.flash w off data).getD (w, none)) w := by
  have chip := (toNat_lfsOffset_add fits).2
  have pieces_inside : ∀ p ∈ pieces (lfsOffset.toNat + off) data, Set.Ico p.1 (p.1 + p.2.length) ⊆ lfsRegion := by
    intro p member
    have bounds := (tiles_pieces (lfsOffset.toNat + off) data).inside _ (List.mem_map.2 ⟨p, member, rfl⟩)
    exact (Set.Ico_subset_Ico bounds.1 bounds.2).trans (lfs_inside fits)
  refine ((within_runAll pieces_inside).bind (g := fun ok w => (w, if ok then some data.length else none))
    (within_pure _)).of_eq fun w => ?_
  rw [write_eq W25q.flash w chip]
  rfl

end LfsNor

end IoEdgeHub
