import IoEdgeHub.Firmware.W25q
import IoEdgeHub.Lib.Bytes
import IoEdgeHub.Lib.Chunks

/-!
# The NOR driver on the wire

`w25q.rs` as it talks to the chip: chip select, command bytes with a 24-bit address, data, and the busy bit polled after
each program and erase.  The bus is a parameter and may answer, or fail to answer, as it likes; a recorded bus
keeps the transactions.  `erase_covers` reads the erase commands off that record: whatever the bus does they
stay inside the region, and after a success they are aligned blocks that fill it.
-/

namespace IoEdgeHub

open Chunks

/-- The SPI with the chip on it.  A transaction is chip select low, the pieces written, `n` bytes read, chip select
high; no result is a call that failed. -/
structure SpiBus (σ : Type*) where
  transact : σ → List (List UInt8) → ℕ → σ × Option (List UInt8)
  length_read : ∀ {s pieces n bs}, (transact s pieces n).2 = some bs → bs.length = n

/-- What was written in a transaction, and how much was to be read. -/
structure Transaction where
  sent : List UInt8
  wanted : ℕ
deriving DecidableEq, Repr

variable {σ : Type*}

/-- The bus with a record of its transactions. -/
def SpiBus.recorded (bus : SpiBus σ) : SpiBus (σ × List Transaction) where
  transact s pieces n :=
    let (s', answer) := bus.transact s.1 pieces n
    ((s', s.2 ++ [⟨pieces.flatten, n⟩]), answer)
  length_read := bus.length_read

namespace SpiNor

/-- Read the identifier. -/
def cmdJedecId : UInt8 := 0x9F

/-- Enable a write. -/
def cmdWriteEn : UInt8 := 0x06

/-- Program a page. -/
def cmdPageProg : UInt8 := 0x02

/-- Read. -/
def cmdReadData : UInt8 := 0x03

/-- Read the status. -/
def cmdReadSr1 : UInt8 := 0x05

/-- Erase 4 KiB. -/
def cmdSectorEr : UInt8 := 0x20

/-- Erase 32 KiB. -/
def cmdBlockEr32 : UInt8 := 0x52

/-- Erase 64 KiB. -/
def cmdBlockEr64 : UInt8 := 0xD8

/-- The busy bit. -/
def sr1Busy : UInt8 := 0x01

/-- The size of the chip. -/
def chipSize : UInt32 := 0x01000000

/-- The size of a page. -/
def pageSize : UInt32 := 256

/-- The size of a sector. -/
def sectorSize : UInt32 := 4096

/-- The identifier of the chip. -/
def jedec : UInt32 := 0xEF4018

/-- Time for 4 KiB, in ms. -/
def tmo4K : ℕ := 2000

/-- Time for 32 KiB. -/
def tmo32K : ℕ := 8000

/-- Time for 64 KiB. -/
def tmo64K : ℕ := 16000

/-- Time for a page. -/
def tmoProg : ℕ := 50

/-- A command and its address, high byte first. -/
def cmdAddr (cmd : UInt8) (addr : UInt32) : List UInt8 :=
  [cmd, (addr >>> 16).toUInt8, (addr >>> 8).toUInt8, addr.toUInt8]

/-- The test of `write`: data that cross a page or the end of the chip. -/
def crosses (addr : UInt32) (buf : List UInt8) : Bool :=
  addr % pageSize + UInt32.ofNat buf.length > pageSize || addr + UInt32.ofNat buf.length > chipSize

section Driver

variable (bus : SpiBus σ)

/-- A transaction that only writes. -/
def send (s : σ) (pieces : List (List UInt8)) : σ × Bool :=
  let (s, answer) := bus.transact s pieces 0
  (s, answer.isSome)

/-- `jedec_id` -/
def jedecId (s : σ) : σ × UInt32 :=
  match bus.transact s [[cmdJedecId]] 3 with
  | (s, some id) => (s, UInt32.ofNat (Bytes.beNat id))
  | (s, none) => (s, 0)

/-- `new`: is this the chip? -/
def probe (s : σ) : σ × Bool :=
  let (s, id) := jedecId bus s
  (s, id = jedec)

/-- `wren` -/
def wren (s : σ) : σ × Bool := send bus s [[cmdWriteEn]]

/-- `read_sr1` -/
def readSr1 (s : σ) : σ × Option UInt8 :=
  let (s, answer) := bus.transact s [[cmdReadSr1]] 1
  (s, answer.bind List.head?)

/-- `wait_not_busy` with so many polls left. -/
def waitNotBusy : ℕ → σ → σ × Bool
  | 0, s => (s, false)
  | polls + 1, s =>
    match readSr1 bus s with
    | (s, none) => (s, false)
    | (s, some sr) => if sr &&& sr1Busy = 0 then (s, true) else waitNotBusy polls s

/-- The loop of `read`, with fuel; no result is a failed call. -/
def readLoop : ℕ → σ → UInt32 → ℕ → σ × Option (List UInt8)
  | 0, s, _, left => (s, if 0 < left then none else some [])
  | fuel + 1, s, addr, left =>
    if 0 < left then
      let chunk := min left 0xFFFF
      match bus.transact s [cmdAddr cmdReadData addr] chunk with
      | (s, none) => (s, none)
      | (s, some got) =>
        match readLoop fuel s (addr + UInt32.ofNat chunk) (left - chunk) with
        | (s, none) => (s, none)
        | (s, some rest) => (s, some (got ++ rest))
    else (s, some [])

/-- `read` -/
def read (s : σ) (addr : UInt32) (len : ℕ) : σ × Option (List UInt8) :=
  if addr ≥ chipSize ∨ chipSize - addr < UInt32.ofNat len then (s, none)
  else readLoop bus len s addr len

/-- `write` -/
def write (s : σ) (addr : UInt32) (buf : List UInt8) : σ × Bool :=
  if buf.isEmpty then (s, true)
  else if crosses addr buf then (s, false)
  else
    match wren bus s with
    | (s, false) => (s, false)
    | (s, true) =>
      match send bus s [cmdAddr cmdPageProg addr, buf] with
      | (s, false) => (s, false)
      | (s, true) => waitNotBusy bus (tmoProg + 1) s

/-- `erase_one` -/
def eraseOne (s : σ) (addr : UInt32) (cmd : UInt8) (timeoutMs : ℕ) : σ × Bool :=
  match wren bus s with
  | (s, false) => (s, false)
  | (s, true) =>
    match send bus s [cmdAddr cmd addr] with
    | (s, false) => (s, false)
    | (s, true) => waitNotBusy bus (timeoutMs + 1) s

/-- The chunk, the command and the timeout of the next turn. -/
def eraseStep (addr len : UInt32) : UInt32 × UInt8 × ℕ :=
  if addr % 0x10000 = 0 ∧ len ≥ 0x10000 then (0x10000, cmdBlockEr64, tmo64K)
  else if addr % 0x8000 = 0 ∧ len ≥ 0x8000 then (0x8000, cmdBlockEr32, tmo32K)
  else (0x1000, cmdSectorEr, tmo4K)

/-- The loop of `erase`; no result is fuel that has run out. -/
def eraseLoop : ℕ → σ → UInt32 → UInt32 → Option (σ × Bool)
  | 0, s, _, len => if len > 0 then none else some (s, true)
  | fuel + 1, s, addr, len =>
    if len > 0 then
      let (chunk, cmd, tmo) := eraseStep addr len
      match eraseOne bus s addr cmd tmo with
      | (s, false) => some (s, false)
      | (s, true) => eraseLoop fuel s (addr + chunk) (len - chunk)
    else some (s, true)

/-- `erase` -/
def erase (s : σ) (addr len : UInt32) : Option (σ × Bool) :=
  if len = 0 ∨ addr % sectorSize ≠ 0 ∨ len % sectorSize ≠ 0 ∨ addr + len > chipSize then some (s, false)
  else eraseLoop bus (len.toNat / 4096) s addr len

end Driver

theorem crosses_iff {addr : UInt32} {buf : List UInt8} (small : addr.toNat + buf.length < 2 ^ 32) :
    crosses addr buf = true ↔ 256 < addr.toNat % 256 + buf.length ∨ 0x1000000 < addr.toNat + buf.length := by
  have length : (UInt32.ofNat buf.length).toNat = buf.length :=
    UInt32.toNat_ofNat_of_lt' (by change buf.length < 2 ^ 32; omega)
  have page : (addr % pageSize).toNat = addr.toNat % 256 := UInt32.toNat_mod addr pageSize
  have left : addr % pageSize + UInt32.ofNat buf.length > pageSize ↔ 256 < addr.toNat % 256 + buf.length := by
    rw [gt_iff_lt, UInt32.lt_iff_toNat_lt, UInt32.toNat_add, page, length, Nat.mod_eq_of_lt (by omega)]
    rfl
  have right : addr + UInt32.ofNat buf.length > chipSize ↔ 0x1000000 < addr.toNat + buf.length := by
    rw [gt_iff_lt, UInt32.lt_iff_toNat_lt, UInt32.toNat_add, length, Nat.mod_eq_of_lt small]
    rfl
  rw [crosses, Bool.or_eq_true, decide_eq_true_eq, decide_eq_true_eq, left, right]

/-! ## The blocks that are erased -/

/-- The command for a block, and its timeout. -/
def eraseCmd (n : ℕ) : UInt8 × ℕ :=
  if n = 0x10000 then (cmdBlockEr64, tmo64K) else if n = 0x8000 then (cmdBlockEr32, tmo32K) else (cmdSectorEr, tmo4K)

/-- Erase a block by its size. -/
def eraseBlock (bus : SpiBus σ) (s : σ) (t : ℕ × ℕ) : σ × Bool :=
  eraseOne bus s (UInt32.ofNat t.1) (eraseCmd t.2).1 (eraseCmd t.2).2

/-- Start and length in whole sectors. -/
def Sectors (a n : ℕ) : Prop := a % 4096 = 0 ∧ n % 4096 = 0

theorem cuts_eraseChunk : Cuts W25q.eraseChunk Sectors 4096 := by
  rintro a n ⟨start, length⟩ some_left
  obtain ⟨least, most, whole⟩ := W25q.eraseChunk_le a length (Nat.pos_of_ne_zero some_left)
  simp only [W25q.sectorSize] at least whole
  exact ⟨least, most, by omega, by omega⟩

/-- A block is one of three sizes and aligned to its own. -/
def Aligned (t : ℕ × ℕ) : Prop := (t.2 = 0x10000 ∨ t.2 = 0x8000 ∨ t.2 = 0x1000) ∧ t.1 % t.2 = 0

theorem aligned_eraseChunk (a n : ℕ) (sectors : Sectors a n) : Aligned (a, W25q.eraseChunk a n) := by
  unfold Aligned W25q.eraseChunk
  split_ifs with large middle
  · exact ⟨.inl rfl, large.1⟩
  · exact ⟨.inr (.inl rfl), middle.1⟩
  · exact ⟨.inr (.inr rfl), sectors.1⟩

theorem toNat_mod_eq_zero_iff (addr m : UInt32) : addr % m = 0 ↔ addr.toNat % m.toNat = 0 := by
  rw [← UInt32.toNat_inj, UInt32.toNat_mod]
  rfl

/-- The choice of the source is that of the chunks. -/
theorem eraseStep_eq (addr len : UInt32) :
    eraseStep addr len =
      (UInt32.ofNat (W25q.eraseChunk addr.toNat len.toNat), eraseCmd (W25q.eraseChunk addr.toNat len.toNat)) := by
  have large : addr % 0x10000 = 0 ∧ len ≥ 0x10000 ↔ addr.toNat % 0x10000 = 0 ∧ len.toNat ≥ 0x10000 :=
    and_congr (toNat_mod_eq_zero_iff addr 0x10000) UInt32.le_iff_toNat_le
  have middle : addr % 0x8000 = 0 ∧ len ≥ 0x8000 ↔ addr.toNat % 0x8000 = 0 ∧ len.toNat ≥ 0x8000 :=
    and_congr (toNat_mod_eq_zero_iff addr 0x8000) UInt32.le_iff_toNat_le
  unfold eraseStep W25q.eraseChunk
  simp only [large, middle]
  split_ifs
  · rfl
  · rfl
  · rfl

theorem pos_iff (len : UInt32) : len > 0 ↔ len.toNat ≠ 0 := by
  rw [gt_iff_lt, UInt32.lt_iff_toNat_lt]
  exact Nat.pos_iff_ne_zero

/-- The loop is one command for each chunk, up to the first that fails. -/
theorem eraseLoop_eq (bus : SpiBus σ) {fuel : ℕ} (s : σ) {addr len : UInt32} (sectors : Sectors addr.toNat len.toNat)
    (small : addr.toNat + len.toNat < 2 ^ 32) (enough : len.toNat ≤ 4096 * fuel) :
    eraseLoop bus fuel s addr len =
      some (runAll (eraseBlock bus) s (cut W25q.eraseChunk fuel addr.toNat len.toNat)) := by
  induction fuel generalizing s addr len with
  | zero => exact if_neg (mt (pos_iff len).1 (not_not.2 (by omega)))
  | succ fuel ih =>
    rw [eraseLoop, cut]
    by_cases empty : len.toNat = 0
    · rw [if_neg (mt (pos_iff len).1 (not_not.2 empty)), if_pos empty]
      rfl
    · obtain ⟨least, most, next⟩ := cuts_eraseChunk _ _ sectors empty
      rw [if_pos ((pos_iff len).2 empty), if_neg empty, eraseStep_eq]
      generalize W25q.eraseChunk addr.toNat len.toNat = chunk at least most next
      have toNat_chunk : (UInt32.ofNat chunk).toNat = chunk :=
        UInt32.toNat_ofNat_of_lt' (by change chunk < 2 ^ 32; omega)
      have moved : (addr + UInt32.ofNat chunk).toNat = addr.toNat + chunk := by
        rw [UInt32.toNat_add, toNat_chunk, Nat.mod_eq_of_lt (by omega)]
      have left : (len - UInt32.ofNat chunk).toNat = len.toNat - chunk := by
        rw [UInt32.toNat_sub_of_le _ _ (UInt32.le_iff_toNat_le.2 (by rwa [toNat_chunk])), toNat_chunk]
      have same : eraseOne bus s addr (eraseCmd chunk).1 (eraseCmd chunk).2 = eraseBlock bus s (addr.toNat, chunk) := by
        rw [eraseBlock, UInt32.ofNat_toNat]
      dsimp only
      rw [same]
      rcases done : eraseBlock bus s (addr.toNat, chunk) with ⟨s', _ | _⟩
      · rw [runAll_cons_false done]
      · rw [runAll_cons_true done, ← moved, ← left]
        apply ih
        · rwa [moved, left]
        · omega
        · omega

/-! ## The record -/

/-- The erase command of a transaction, as the chip takes it: address and size. -/
def eraseSize (cmd : UInt8) : Option ℕ :=
  if cmd = cmdSectorEr then some 0x1000
  else if cmd = cmdBlockEr32 then some 0x8000
  else if cmd = cmdBlockEr64 then some 0x10000
  else none

/-- The block a transaction erases. -/
def eraseOf (t : Transaction) : Option (ℕ × ℕ) :=
  match t.sent with
  | [cmd, hi, mid, lo] => (eraseSize cmd).map fun n => (Bytes.beNat [hi, mid, lo], n)
  | _ => none

/-- The erase commands on record. -/
def erased (s : σ × List Transaction) : List (ℕ × ℕ) := s.2.filterMap eraseOf

section Record

variable (bus : SpiBus σ) (s : σ × List Transaction)

theorem erased_transact (pieces : List (List UInt8)) (n : ℕ) :
    erased (bus.recorded.transact s pieces n).1 = erased s ++ (eraseOf ⟨pieces.flatten, n⟩).toList := by
  change (s.2 ++ [_]).filterMap eraseOf = _
  rw [List.filterMap_append, List.filterMap_cons, List.filterMap_nil, erased]
  cases eraseOf ⟨pieces.flatten, n⟩ with
  | none => rfl
  | some t => rfl

theorem erased_wren : erased (wren bus.recorded s).1 = erased s := by
  change erased (bus.recorded.transact s [[cmdWriteEn]] 0).1 = _
  rw [erased_transact]
  exact List.append_nil _

theorem erased_readSr1 : erased (readSr1 bus.recorded s).1 = erased s := by
  change erased (bus.recorded.transact s [[cmdReadSr1]] 1).1 = _
  rw [erased_transact]
  exact List.append_nil _

theorem erased_waitNotBusy (polls : ℕ) : erased (waitNotBusy bus.recorded polls s).1 = erased s := by
  induction polls generalizing s with
  | zero => rfl
  | succ polls ih =>
    have polled := erased_readSr1 bus s
    unfold waitNotBusy
    rcases answer : readSr1 bus.recorded s with ⟨s', _ | sr⟩
    · rwa [answer] at polled
    · rw [answer] at polled
      dsimp only
      split_ifs
      · exact polled
      · exact (ih s').trans polled

theorem beNat_cmdAddr {addr : UInt32} (small : addr.toNat < 2 ^ 24) :
    Bytes.beNat [(addr >>> 16).toUInt8, (addr >>> 8).toUInt8, addr.toUInt8] = addr.toNat := by
  have high : ((addr >>> 16).toUInt8).toNat = addr.toNat / 2 ^ 16 % 256 := by
    rw [UInt32.toNat_toUInt8, UInt32.toNat_shiftRight]
    exact congrArg (· % 256) (Nat.shiftRight_eq_div_pow addr.toNat 16)
  have middle : ((addr >>> 8).toUInt8).toNat = addr.toNat / 2 ^ 8 % 256 := by
    rw [UInt32.toNat_toUInt8, UInt32.toNat_shiftRight]
    exact congrArg (· % 256) (Nat.shiftRight_eq_div_pow addr.toNat 8)
  have low : (addr.toUInt8).toNat = addr.toNat % 256 := UInt32.toNat_toUInt8 addr
  change (addr.toUInt8).toNat +
    256 * (((addr >>> 8).toUInt8).toNat + 256 * (((addr >>> 16).toUInt8).toNat + 256 * 0)) = _
  rw [high, middle, low]
  omega

/-- The command of a block is the erase of that block. -/
theorem eraseOf_cmdAddr {t : ℕ × ℕ} (size : t.2 = 0x10000 ∨ t.2 = 0x8000 ∨ t.2 = 0x1000) (small : t.1 < 2 ^ 24) :
    eraseOf ⟨cmdAddr (eraseCmd t.2).1 (UInt32.ofNat t.1), 0⟩ = some t := by
  have toNat_addr : (UInt32.ofNat t.1).toNat = t.1 := UInt32.toNat_ofNat_of_lt' (by change t.1 < 2 ^ 32; omega)
  have known : eraseSize (eraseCmd t.2).1 = some t.2 := by
    rcases size with size | size | size <;> rw [size] <;> rfl
  change ((eraseSize (eraseCmd t.2).1).map fun n => (Bytes.beNat [_, _, _], n)) = some t
  rw [known, beNat_cmdAddr (by rwa [toNat_addr]), toNat_addr]
  rfl

/-- One block: its erase goes on record, unless the write enable before it failed. -/
theorem erased_eraseBlock {t : ℕ × ℕ} (size : t.2 = 0x10000 ∨ t.2 = 0x8000 ∨ t.2 = 0x1000) (small : t.1 < 2 ^ 24) :
    ∃ now, now <+: [t] ∧ erased (eraseBlock bus.recorded s t).1 = erased s ++ now ∧
      ((eraseBlock bus.recorded s t).2 = true → now = [t]) := by
  have enabled := erased_wren bus s
  unfold eraseBlock eraseOne
  rcases answer : wren bus.recorded s with ⟨s₁, _ | _⟩ <;> rw [answer] at enabled
  · exact ⟨[], List.nil_prefix, by rw [List.append_nil]; exact enabled, fun no => absurd no Bool.false_ne_true⟩
  · dsimp only
    have sent : erased (send bus.recorded s₁ [cmdAddr (eraseCmd t.2).1 (UInt32.ofNat t.1)]).1 = erased s ++ [t] := by
      change erased (bus.recorded.transact s₁ _ 0).1 = _
      rw [erased_transact, List.flatten_singleton, eraseOf_cmdAddr size small, enabled]
      rfl
    rcases erasing : send bus.recorded s₁ [cmdAddr (eraseCmd t.2).1 (UInt32.ofNat t.1)] with ⟨s₂, _ | _⟩ <;>
      rw [erasing] at sent
    · exact ⟨[t], List.prefix_rfl, sent, fun no => absurd no Bool.false_ne_true⟩
    · exact ⟨[t], List.prefix_rfl, (erased_waitNotBusy bus s₂ _).trans sent, fun _ => rfl⟩

end Record

/-! ## A bus where every command succeeds -/

/-- Every call succeeds, and the busy bit goes out before the shortest timeout of an erase. -/
structure Serves (bus : SpiBus σ) : Prop where
  answers : ∀ s pieces n, (bus.transact s pieces n).2.isSome
  ready : ∀ s, (waitNotBusy bus (tmo4K + 1) s).2 = true

theorem waitNotBusy_more {bus : SpiBus σ} {polls : ℕ} (more : ℕ) {s : σ} (ready : (waitNotBusy bus polls s).2 = true) :
    waitNotBusy bus (polls + more) s = waitNotBusy bus polls s := by
  induction polls generalizing s with
  | zero => exact absurd ready Bool.false_ne_true
  | succ polls ih =>
    rw [Nat.add_right_comm]
    unfold waitNotBusy at ready ⊢
    rcases answer : readSr1 bus s with ⟨s', _ | sr⟩
    · rfl
    · rw [answer] at ready
      dsimp only at ready ⊢
      split_ifs at ready ⊢ with idle
      · rfl
      · exact ih ready

theorem waitNotBusy_recorded (bus : SpiBus σ) (polls : ℕ) (s : σ × List Transaction) :
    (waitNotBusy bus.recorded polls s).2 = (waitNotBusy bus polls s.1).2 := by
  induction polls generalizing s with
  | zero => rfl
  | succ polls ih =>
    have same : readSr1 bus.recorded s =
        (((readSr1 bus s.1).1, s.2 ++ [⟨[cmdReadSr1], 1⟩]), (readSr1 bus s.1).2) := rfl
    unfold waitNotBusy
    rw [same]
    rcases readSr1 bus s.1 with ⟨s', _ | sr⟩
    · rfl
    · dsimp only
      split_ifs
      · rfl
      · exact ih _

theorem Serves.recorded {bus : SpiBus σ} (serves : Serves bus) : Serves bus.recorded where
  answers s := serves.answers s.1
  ready s := (waitNotBusy_recorded bus _ s).trans (serves.ready s.1)

theorem Serves.send {bus : SpiBus σ} (serves : Serves bus) (s : σ) (pieces : List (List UInt8)) :
    (send bus s pieces).2 = true :=
  serves.answers s pieces 0

theorem Serves.eraseBlock {bus : SpiBus σ} (serves : Serves bus) (s : σ) (t : ℕ × ℕ) :
    (eraseBlock bus s t).2 = true := by
  have patient : ∃ more, (eraseCmd t.2).2 + 1 = tmo4K + 1 + more := by
    refine ⟨(eraseCmd t.2).2 - tmo4K, ?_⟩
    unfold eraseCmd
    split_ifs
    · rfl
    · rfl
    · rfl
  obtain ⟨more, timeout⟩ := patient
  have enabled := serves.send s [[cmdWriteEn]]
  unfold SpiNor.eraseBlock eraseOne
  rw [← wren] at enabled
  rcases answer : wren bus s with ⟨s₁, _ | _⟩ <;> rw [answer] at enabled
  · exact enabled
  dsimp only
  have sent := serves.send s₁ [cmdAddr (eraseCmd t.2).1 (UInt32.ofNat t.1)]
  rcases erasing : SpiNor.send bus s₁ [cmdAddr (eraseCmd t.2).1 (UInt32.ofNat t.1)] with
    ⟨s₂, _ | _⟩ <;> rw [erasing] at sent
  · exact sent
  dsimp only
  rw [timeout, waitNotBusy_more more (serves.ready s₂)]
  exact serves.ready s₂

/-! ## The region -/

/-- A region the driver erases: whole sectors, not empty, on the chip. -/
def Erasable (addr len : UInt32) : Prop :=
  0 < len.toNat ∧ addr.toNat % 4096 = 0 ∧ len.toNat % 4096 = 0 ∧ addr.toNat + len.toNat ≤ 0x1000000

theorem erase_rejects_iff {addr len : UInt32} (small : addr.toNat + len.toNat < 2 ^ 32) :
    (len = 0 ∨ addr % sectorSize ≠ 0 ∨ len % sectorSize ≠ 0 ∨ addr + len > chipSize) ↔ ¬Erasable addr len := by
  have sum : (addr + len).toNat = addr.toNat + len.toNat := by
    rw [UInt32.toNat_add, Nat.mod_eq_of_lt small]
  have chip : addr + len > chipSize ↔ 0x1000000 < addr.toNat + len.toNat := by
    rw [gt_iff_lt, UInt32.lt_iff_toNat_lt, sum]
    rfl
  have empty : len = 0 ↔ len.toNat = 0 := by
    rw [← UInt32.toNat_inj]
    rfl
  have start : addr % sectorSize = 0 ↔ addr.toNat % 4096 = 0 := toNat_mod_eq_zero_iff addr sectorSize
  have length : len % sectorSize = 0 ↔ len.toNat % 4096 = 0 := toNat_mod_eq_zero_iff len sectorSize
  rw [chip, empty, Ne, Ne, start, length, Erasable]
  omega

/-- The blocks of a region, in the order they are erased. -/
def blocks (addr len : UInt32) : List (ℕ × ℕ) := cut W25q.eraseChunk (len.toNat / 4096) addr.toNat len.toNat

section Blocks

variable {addr len : UInt32} (fit : Erasable addr len)
include fit

theorem Erasable.enough : len.toNat ≤ 4096 * (len.toNat / 4096) := by
  have whole := fit.2.2.1
  omega

theorem Erasable.tiles : Tiles addr.toNat (addr.toNat + len.toNat) (blocks addr len) :=
  tiles_cut cuts_eraseChunk (by decide) ⟨fit.2.1, fit.2.2.1⟩ fit.enough

theorem Erasable.aligned : ∀ t ∈ blocks addr len, Aligned t :=
  forall_cut cuts_eraseChunk (fun a n sectors _ => aligned_eraseChunk a n sectors) ⟨fit.2.1, fit.2.2.1⟩

theorem Erasable.below {t : ℕ × ℕ} (member : t ∈ blocks addr len) : t.1 < 2 ^ 24 := by
  have bounds := fit.tiles.inside t member
  have size := (fit.aligned t member).1
  have chip := fit.2.2.2
  omega

theorem erase_eq (bus : SpiBus σ) (s : σ) :
    erase bus s addr len = some (runAll (eraseBlock bus) s (blocks addr len)) := by
  have small : addr.toNat + len.toNat < 2 ^ 32 := Nat.lt_of_le_of_lt fit.2.2.2 (by decide)
  rw [erase, if_neg (mt (erase_rejects_iff small).1 (not_not.2 fit))]
  exact eraseLoop_eq bus s ⟨fit.2.1, fit.2.2.1⟩ small fit.enough

end Blocks

/-- The erase commands of `erase`, read off the wire.  A region that is not erasable fails before any transaction.
Otherwise the loop ends, and whatever the bus does, the commands stay inside the region; after a success, which a
bus that serves makes certain, they are aligned blocks that fill it without overlap. -/
theorem erase_covers (bus : SpiBus σ) (s : σ) {addr len : UInt32} (small : addr.toNat + len.toNat < 2 ^ 32) :
    ∃ s' log ok, erase bus.recorded (s, []) addr len = some ((s', log), ok) ∧
      (¬Erasable addr len → s' = s ∧ log = [] ∧ ok = false) ∧
      (Erasable addr len →
        (∀ t ∈ log.filterMap eraseOf, addr.toNat ≤ t.1 ∧ t.1 + t.2 ≤ addr.toNat + len.toNat) ∧
        (Serves bus → ok = true) ∧
        (ok = true →
          (∀ t ∈ log.filterMap eraseOf, Aligned t) ∧
          (log.filterMap eraseOf).Pairwise (fun t u => t.1 + t.2 ≤ u.1) ∧
          ∀ x, (∃ t ∈ log.filterMap eraseOf, t.1 ≤ x ∧ x < t.1 + t.2) ↔
            addr.toNat ≤ x ∧ x < addr.toNat + len.toNat)) := by
  by_cases fit : Erasable addr len
  · have step (s : σ × List Transaction) (t : ℕ × ℕ) (member : t ∈ blocks addr len) :=
      erased_eraseBlock bus s (fit.aligned t member).1 (fit.below member)
    obtain ⟨issued, part, seen, all⟩ := runAll_issued step (s, [])
    have commands : (runAll (eraseBlock bus.recorded) (s, []) (blocks addr len)).1.2.filterMap eraseOf = issued := seen
    refine ⟨_, _, _, erase_eq fit bus.recorded (s, []), fun no => absurd fit no, fun _ => ⟨?_, ?_, ?_⟩⟩
    · rw [commands]
      exact fun t member => fit.tiles.inside t (part.subset member)
    · exact fun serves => (runAll_serves (fun _ => True)
        (fun s t _ _ => ⟨serves.recorded.eraseBlock s t, trivial⟩) trivial).1
    · intro ok
      rw [commands, all ok]
      exact ⟨fit.aligned, fit.tiles.pairwise, fit.tiles.covers⟩
  · exact ⟨s, [], false, if_pos ((erase_rejects_iff small).2 fit), fun _ => ⟨rfl, rfl, rfl⟩, fun no => absurd no fit⟩

/-- A bus that reads zeros. -/
def quietBus : SpiBus Unit where
  transact _ _ n := ((), some (List.replicate n 0))
  length_read := by
    rintro _ _ n _ ⟨⟩
    exact List.length_replicate

/-- A region of two sectors around blocks of either size, erased over that bus: every one of its bytes and no other. -/
theorem erase_covers_mixed :
    Erasable 0x7000 0x1A000 ∧ Serves quietBus ∧
      blocks 0x7000 0x1A000 = [(0x7000, 0x1000), (0x8000, 0x8000), (0x10000, 0x10000), (0x20000, 0x1000)] ∧
      ∃ log, erase quietBus.recorded ((), []) 0x7000 0x1A000 = some (((), log), true) ∧
        ∀ x, (∃ t ∈ log.filterMap eraseOf, t.1 ≤ x ∧ x < t.1 + t.2) ↔ 0x7000 ≤ x ∧ x < 0x21000 := by
  have fit : Erasable 0x7000 0x1A000 := by
    unfold Erasable
    decide
  have serves : Serves quietBus := ⟨fun _ _ _ => rfl, fun _ => rfl⟩
  obtain ⟨s', log, ok, run, -, region⟩ :=
    erase_covers quietBus () (by decide : (0x7000 : UInt32).toNat + (0x1A000 : UInt32).toNat < 2 ^ 32)
  obtain ⟨-, certain, success⟩ := region fit
  have done := certain serves
  subst done
  exact ⟨fit, serves, by decide, log, run, (success rfl).2.2⟩

end SpiNor

end IoEdgeHub
