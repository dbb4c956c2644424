import Mathlib.Data.List.Induction
import IoEdgeHub.Firmware.LfsNor

/-!
# The driver on the chip

The chip as the driver meets it on the bus: write enable latch, busy time after each program and erase, page programs
that wrap inside their page, erases of the block around an address, and commands ignored while it is busy.  A call
of the SPI may be cut after any number of bytes.  The lemmas named `*_spec` say all that each driver call can do to a
chip that is not busy.
-/

namespace IoEdgeHub

open Chunks SpiNor

/-- The chip and what is to come: how many polls each program or erase stays busy for, and which calls of the SPI are
cut, after how many bytes.  Once the lists are empty there is no delay and no cut. -/
structure NorChip where
  mem : Nor.Mem
  wel : Bool
  busy : ℕ
  waits : List ℕ
  cuts : List (Option ℕ)

namespace NorChip

/-- The data from an address on; behind the end of its page comes the page's beginning. -/
def programPage (m : Nor.Mem) (addr : ℕ) (data : List UInt8) : Nor.Mem :=
  data.zipIdx.foldl (fun m p => Nor.program m (addr - addr % 256 + (addr % 256 + p.2) % 256) [p.1]) m

/-- A program or an erase begins: the latch falls, and the chip is busy. -/
def begins (c : NorChip) (mem : Nor.Mem) : NorChip :=
  { c with mem := mem, wel := false, busy := c.waits.headD 0, waits := c.waits.tail }

/-- The status register: the busy bit and the latch. -/
def status (c : NorChip) : UInt8 := (if 0 < c.busy then 1 else 0) ||| (if c.wel then 2 else 0)

/-- What a command with an address does at the end of its transaction. -/
def effect (c : NorChip) (cmd : UInt8) (addr : ℕ) (data : List UInt8) : NorChip :=
  if cmd = cmdPageProg then
    if c.wel && !data.isEmpty then c.begins (programPage c.mem addr data) else c
  else
    match eraseSize cmd with
    | some size => if c.wel && data.isEmpty then c.begins (Nor.erase c.mem (addr - addr % size) size) else c
    | none => c

/-- A command that wants an address: without all of it nothing happens. -/
def execAddr (c : NorChip) (cmd : UInt8) (args : List UInt8) (n : ℕ) : NorChip × List UInt8 :=
  match args with
  | hi :: mid :: lo :: data =>
    let addr := Bytes.beNat [hi, mid, lo]
    (c.effect cmd addr data, if cmd = cmdReadData then Nor.read c.mem addr n else List.replicate n 0xFF)
  | _ => (c, List.replicate n 0xFF)

/-- The bytes that arrive in a transaction, and the `n` bytes read after them. -/
def exec (c : NorChip) (sent : List UInt8) (n : ℕ) : NorChip × List UInt8 :=
  match sent with
  | [] => (c, List.replicate n 0xFF)
  | cmd :: args =>
    if cmd = cmdReadSr1 then ({ c with busy := c.busy - 1 }, List.replicate n c.status)
    else if 0 < c.busy then (c, List.replicate n 0xFF)
    else if cmd = cmdJedecId then (c, (0xEF :: 0x40 :: 0x18 :: List.replicate n 0xFF).take n)
    else if cmd = cmdWriteEn then ({ c with wel := true }, List.replicate n 0xFF)
    else c.execAddr cmd args n

theorem length_execAddr (c : NorChip) (cmd : UInt8) (args : List UInt8) (n : ℕ) :
    (c.execAddr cmd args n).2.length = n := by
  unfold execAddr
  split
  · dsimp only
    split_ifs
    · exact Nor.length_read ..
    · exact List.length_replicate
  · exact List.length_replicate

theorem length_exec (c : NorChip) (sent : List UInt8) (n : ℕ) : (c.exec sent n).2.length = n := by
  unfold exec
  split
  · exact List.length_replicate
  · split_ifs
    · exact List.length_replicate
    · exact List.length_replicate
    · rw [List.length_take]
      simp
      omega
    · exact List.length_replicate
    · exact length_execAddr ..

/-- One transaction, cut or not. -/
def transact (c : NorChip) (pieces : List (List UInt8)) (n : ℕ) : NorChip × Option (List UInt8) :=
  let cut := c.cuts.headD none
  let c := { c with cuts := c.cuts.tail }
  match cut with
  | none =>
    let (c, bs) := c.exec pieces.flatten n
    (c, some bs)
  | some k => ((c.exec (pieces.flatten.take k) 0).1, none)

/-- The chip on the bus. -/
def bus : SpiBus NorChip where
  transact := transact
  length_read := by
    intro c pieces n bs answered
    unfold transact at answered
    dsimp only at answered
    split at answered
    · rw [← Option.some.inj answered]
      exact length_exec ..
    · cases answered

/-! ## One transaction -/

theorem transact_cases (c : NorChip) (pieces : List (List UInt8)) (n : ℕ) :
    bus.transact c pieces n =
        (({ c with cuts := c.cuts.tail } : NorChip).exec pieces.flatten n).map id some ∨
      ∃ k, bus.transact c pieces n =
        ((({ c with cuts := c.cuts.tail } : NorChip).exec (pieces.flatten.take k) 0).1, none) := by
  change transact c pieces n = _ ∨ ∃ k, transact c pieces n = _
  unfold transact
  rcases c.cuts.headD none with _ | k
  · exact .inl rfl
  · exact .inr ⟨k, rfl⟩

theorem programPage_eq (m : Nor.Mem) {addr : ℕ} {data : List UInt8} (page : addr % 256 + data.length ≤ 256) :
    programPage m addr data = Nor.program m addr data := by
  induction data using List.reverseRecOn with
  | nil => exact (Nor.program_nil m addr).symm
  | append_singleton data b ih =>
    rw [List.length_append, List.length_singleton] at page
    have place : addr - addr % 256 + (addr % 256 + data.length) % 256 = addr + data.length := by omega
    have before := ih (by omega)
    unfold programPage at before ⊢
    rw [List.zipIdx_append, List.foldl_append, before, Nor.program_append]
    simp only [List.zipIdx_cons, List.zipIdx_nil, List.foldl_cons, List.foldl_nil, Nat.zero_add, place]

/-- The commands that take an address. -/
def TakesAddr (cmd : UInt8) : Prop := cmd ≠ cmdReadSr1 ∧ cmd ≠ cmdJedecId ∧ cmd ≠ cmdWriteEn

section Exec

variable {c : NorChip} (ready : c.busy = 0)
include ready

theorem exec_writeEn (n : ℕ) : c.exec [cmdWriteEn] n = ({ c with wel := true }, List.replicate n 0xFF) := by
  rw [exec, if_neg (by decide), if_neg (by omega), if_neg (by decide), if_pos rfl]

theorem exec_cons {cmd : UInt8} (takes : TakesAddr cmd) (args : List UInt8) (n : ℕ) :
    c.exec (cmd :: args) n = c.execAddr cmd args n := by
  rw [exec, if_neg takes.1, if_neg (by omega), if_neg takes.2.1, if_neg takes.2.2]

theorem exec_cmdAddr {cmd : UInt8} (takes : TakesAddr cmd) {addr : UInt32} (small : addr.toNat < 2 ^ 24)
    (data : List UInt8) (n : ℕ) :
    c.exec (cmdAddr cmd addr ++ data) n =
      (c.effect cmd addr.toNat data,
        if cmd = cmdReadData then Nor.read c.mem addr.toNat n else List.replicate n 0xFF) := by
  rw [cmdAddr, List.cons_append, exec_cons ready takes]
  simp only [execAddr, List.cons_append, List.nil_append, beNat_cmdAddr small]

/-- Cut inside the address nothing happens; later, the data are cut. -/
theorem exec_cmdAddr_take {cmd : UInt8} (takes : TakesAddr cmd) {addr : UInt32} (small : addr.toNat < 2 ^ 24)
    (data : List UInt8) (k : ℕ) :
    (c.exec ((cmdAddr cmd addr ++ data).take k) 0).1 =
      if k < 4 then c else c.effect cmd addr.toNat (data.take (k - 4)) := by
  match k with
  | 0 => rfl
  | 1 => exact congrArg Prod.fst (exec_cons ready takes [] 0)
  | 2 => exact congrArg Prod.fst (exec_cons ready takes [(addr >>> 16).toUInt8] 0)
  | 3 => exact congrArg Prod.fst (exec_cons ready takes [(addr >>> 16).toUInt8, (addr >>> 8).toUInt8] 0)
  | k + 4 =>
    have later : (cmdAddr cmd addr ++ data).take (k + 4) = cmdAddr cmd addr ++ data.take k := rfl
    rw [if_neg (by omega), Nat.add_sub_cancel, later, exec_cmdAddr ready takes small]

end Exec

/-! ## What a driver call can do -/

theorem mem_effect_pageProg {c : NorChip} (enabled : c.wel = true) (addr : ℕ) (data : List UInt8) :
    (c.effect cmdPageProg addr data).mem = programPage c.mem addr data := by
  rw [effect, if_pos rfl, enabled, Bool.true_and]
  cases data with
  | nil => rfl
  | cons b data => rfl

theorem effect_erase {c : NorChip} (enabled : c.wel = true) {cmd : UInt8} {size : ℕ} (erase : eraseSize cmd = some size)
    (addr : ℕ) : c.effect cmd addr [] = c.begins (Nor.erase c.mem (addr - addr % size) size) := by
  have other : cmd ≠ cmdPageProg := by
    rintro rfl
    cases erase
  rw [effect, if_neg other, erase, enabled]
  rfl

theorem mem_effect_cuts (c : NorChip) (cuts : List (Option ℕ)) (cmd : UInt8) (addr : ℕ) (data : List UInt8) :
    (({ c with cuts := cuts } : NorChip).effect cmd addr data).mem = (c.effect cmd addr data).mem := by
  unfold effect
  split_ifs
  · rfl
  · rfl
  · cases eraseSize cmd with
    | none => rfl
    | some size => rfl
  · cases eraseSize cmd with
    | none => rfl
    | some size => rfl

theorem wren_spec {c : NorChip} (ready : c.busy = 0) :
    (wren bus c).1.mem = c.mem ∧ (wren bus c).1.busy = 0 ∧ ((wren bus c).2 = true → (wren bus c).1.wel = true) := by
  have enabling := exec_writeEn (c := { c with cuts := c.cuts.tail }) ready 0
  unfold wren send
  rcases transact_cases c [[cmdWriteEn]] 0 with answered | ⟨k, failed⟩
  · have sent : [[cmdWriteEn]].flatten = [cmdWriteEn] := rfl
    rw [answered, sent, enabling]
    exact ⟨rfl, ready, fun _ => rfl⟩
  · rw [failed]
    cases k with
    | zero => exact ⟨rfl, ready, fun no => absurd no Bool.false_ne_true⟩
    | succ k =>
      have sent : [[cmdWriteEn]].flatten.take (k + 1) = [cmdWriteEn] := by simp
      rw [sent, enabling]
      exact ⟨rfl, ready, fun no => absurd no Bool.false_ne_true⟩

theorem readSr1_spec (c : NorChip) :
    (readSr1 bus c).1.mem = c.mem ∧
      ((readSr1 bus c).2 = none ∨ (readSr1 bus c).2 = some c.status ∧ (readSr1 bus c).1.busy = c.busy - 1) := by
  unfold readSr1
  rcases transact_cases c [[cmdReadSr1]] 1 with answered | ⟨k, failed⟩
  · rw [answered]
    exact ⟨rfl, .inr ⟨rfl, rfl⟩⟩
  · rw [failed]
    cases k with
    | zero => exact ⟨rfl, .inl rfl⟩
    | succ k => exact ⟨rfl, .inl rfl⟩

theorem status_idle {c : NorChip} (idle : c.status &&& sr1Busy = 0) : c.busy = 0 := by
  by_contra busy
  rw [status, if_pos (Nat.pos_of_ne_zero busy)] at idle
  split at idle
  · exact absurd idle (by decide)
  · exact absurd idle (by decide)

theorem waitNotBusy_spec (polls : ℕ) (c : NorChip) :
    (waitNotBusy bus polls c).1.mem = c.mem ∧
      ((waitNotBusy bus polls c).2 = true → (waitNotBusy bus polls c).1.busy = 0) := by
  induction polls generalizing c with
  | zero => exact ⟨rfl, fun no => absurd no Bool.false_ne_true⟩
  | succ polls ih =>
    obtain ⟨mem, shown⟩ := readSr1_spec c
    unfold waitNotBusy
    rcases answer : readSr1 bus c with ⟨c', _ | sr⟩ <;> rw [answer] at mem shown
    · exact ⟨mem, fun no => absurd no Bool.false_ne_true⟩
    · obtain ⟨read, left⟩ := shown.resolve_left (by simp)
      dsimp only at mem left ⊢
      split_ifs with idle
      · rw [Option.some.inj read] at idle
        have ready := status_idle idle
        exact ⟨mem, fun _ => left.trans (by rw [ready])⟩
      · exact ⟨(ih c').1.trans mem, (ih c').2⟩

/-- A command with its address and data, sent to a chip that is not busy: it takes effect on a first part of the
data, or the address was cut. -/
theorem send_spec {c : NorChip} (ready : c.busy = 0) {cmd : UInt8} (takes : TakesAddr cmd) {addr : UInt32}
    (small : addr.toNat < 2 ^ 24) {pieces : List (List UInt8)} {data : List UInt8}
    (sent : pieces.flatten = cmdAddr cmd addr ++ data) :
    (send bus c pieces).2 = true ∧ (send bus c pieces).1.mem = (c.effect cmd addr.toNat data).mem ∨
      (send bus c pieces).2 = false ∧ ((send bus c pieces).1.mem = c.mem ∨
        ∃ k, (send bus c pieces).1.mem = (c.effect cmd addr.toNat (data.take k)).mem) := by
  have same (data : List UInt8) := mem_effect_cuts c c.cuts.tail cmd addr.toNat data
  unfold send
  rcases transact_cases c pieces 0 with answered | ⟨k, failed⟩
  · left
    rw [answered, sent, exec_cmdAddr (c := { c with cuts := c.cuts.tail }) ready takes small]
    exact ⟨rfl, same data⟩
  · right
    rw [failed, sent, exec_cmdAddr_take (c := { c with cuts := c.cuts.tail }) ready takes small]
    refine ⟨rfl, ?_⟩
    split_ifs
    · exact .inl rfl
    · exact .inr ⟨k - 4, same _⟩

theorem takesAddr_pageProg : TakesAddr cmdPageProg := by
  unfold TakesAddr
  decide

theorem takesAddr_readData : TakesAddr cmdReadData := by
  unfold TakesAddr
  decide

theorem takesAddr_eraseCmd (n : ℕ) : TakesAddr (eraseCmd n).1 := by
  unfold TakesAddr eraseCmd
  split_ifs
  · decide
  · decide
  · decide

/-- A page program: some first part of the data, all of it when it succeeds. -/
theorem write_spec {c : NorChip} (ready : c.busy = 0) {addr : UInt32} {buf : List UInt8} (nonempty : buf ≠ [])
    (page : addr.toNat % 256 + buf.length ≤ 256) (chip : addr.toNat + buf.length ≤ 0x1000000) :
    ∃ k, (write bus c addr buf).1.mem = Nor.program c.mem addr.toNat (buf.take k) ∧
      ((write bus c addr buf).2 = true → buf.length ≤ k ∧ (write bus c addr buf).1.busy = 0) := by
  have pos := List.length_pos_iff.2 nonempty
  have inside : ¬crosses addr buf = true := by
    rw [crosses_iff (by omega)]
    omega
  have flat : [cmdAddr cmdPageProg addr, buf].flatten = cmdAddr cmdPageProg addr ++ buf := by simp
  have paged {m : Nor.Mem} (k : ℕ) : programPage m addr.toNat (buf.take k) = Nor.program m addr.toNat (buf.take k) := by
    apply programPage_eq
    rw [List.length_take]
    omega
  unfold write
  rw [if_neg (by rwa [List.isEmpty_iff]), if_neg inside]
  obtain ⟨mem₁, ready₁, enabled⟩ := wren_spec ready
  rcases answer : wren bus c with ⟨c₁, _ | _⟩ <;> rw [answer] at mem₁ ready₁ enabled
  · exact ⟨0, mem₁.trans (Nor.program_nil c.mem addr.toNat).symm, fun no => absurd no Bool.false_ne_true⟩
  dsimp only at mem₁ ready₁ enabled ⊢
  have sent := send_spec ready₁ takesAddr_pageProg (by omega) flat
  simp only [mem_effect_pageProg (enabled rfl), paged, mem₁] at sent
  rcases answer₂ : send bus c₁ [cmdAddr cmdPageProg addr, buf] with ⟨c₂, _ | _⟩ <;> rw [answer₂] at sent
  · rcases (sent.resolve_left fun no => absurd no.1 Bool.false_ne_true).2 with same | ⟨k, part⟩
    · exact ⟨0, same.trans (Nor.program_nil c.mem addr.toNat).symm, fun no => absurd no Bool.false_ne_true⟩
    · exact ⟨k, part, fun no => absurd no Bool.false_ne_true⟩
  · have whole := (sent.resolve_right fun no => absurd no.1.symm Bool.false_ne_true).2
    obtain ⟨mem₃, idle⟩ := waitNotBusy_spec (tmoProg + 1) c₂
    refine ⟨buf.length, ?_, fun ok => ⟨Nat.le_refl _, idle ok⟩⟩
    rw [List.take_length]
    exact mem₃.trans (whole.trans (programPage_eq c.mem page))

theorem eraseSize_eraseCmd {n : ℕ} (size : n = 0x10000 ∨ n = 0x8000 ∨ n = 0x1000) :
    eraseSize (eraseCmd n).1 = some n := by
  rcases size with rfl | rfl | rfl
  · rfl
  · rfl
  · rfl

/-- An erase of an aligned block: nothing of it or all of it, all when it succeeds. -/
theorem eraseBlock_spec {c : NorChip} (ready : c.busy = 0) {t : ℕ × ℕ} (aligned : Aligned t) (small : t.1 < 2 ^ 24) :
    ∃ k, (eraseBlock bus c t).1.mem = Nor.erase c.mem t.1 (min k t.2) ∧
      ((eraseBlock bus c t).2 = true → t.2 ≤ k ∧ (eraseBlock bus c t).1.busy = 0) := by
  have toNat_addr : (UInt32.ofNat t.1).toNat = t.1 := UInt32.toNat_ofNat_of_lt' (by change t.1 < 2 ^ 32; omega)
  have flat : [cmdAddr (eraseCmd t.2).1 (UInt32.ofNat t.1)].flatten =
      cmdAddr (eraseCmd t.2).1 (UInt32.ofNat t.1) ++ [] := rfl
  have nothing : c.mem = Nor.erase c.mem t.1 (min 0 t.2) := by rw [Nat.zero_min, Nor.erase_zero]
  have everything : Nor.erase c.mem t.1 t.2 = Nor.erase c.mem t.1 (min t.2 t.2) := by rw [Nat.min_self]
  unfold eraseBlock eraseOne
  obtain ⟨mem₁, ready₁, enabled⟩ := wren_spec ready
  rcases answer : wren bus c with ⟨c₁, _ | _⟩ <;> rw [answer] at mem₁ ready₁ enabled
  · exact ⟨0, mem₁.trans nothing, fun no => absurd no Bool.false_ne_true⟩
  dsimp only at mem₁ ready₁ enabled ⊢
  have sent := send_spec ready₁ (takesAddr_eraseCmd t.2) (by rwa [toNat_addr]) flat
  simp only [List.take_nil, effect_erase (enabled rfl) (eraseSize_eraseCmd aligned.1), begins, toNat_addr, aligned.2,
    Nat.sub_zero,
    mem₁, exists_const] at sent
  rcases answer₂ : send bus c₁ [cmdAddr (eraseCmd t.2).1 (UInt32.ofNat t.1)] with ⟨c₂, _ | _⟩ <;> rw [answer₂] at sent
  · rcases (sent.resolve_left fun no => absurd no.1 Bool.false_ne_true).2 with same | whole
    · exact ⟨0, same.trans nothing, fun no => absurd no Bool.false_ne_true⟩
    · exact ⟨t.2, whole.trans everything, fun no => absurd no Bool.false_ne_true⟩
  · have whole := (sent.resolve_right fun no => absurd no.1.symm Bool.false_ne_true).2
    obtain ⟨mem₃, idle⟩ := waitNotBusy_spec ((eraseCmd t.2).2 + 1) c₂
    exact ⟨t.2, mem₃.trans (whole.trans everything), fun ok => ⟨Nat.le_refl _, idle ok⟩⟩

theorem effect_readData (c : NorChip) (addr : ℕ) (data : List UInt8) : c.effect cmdReadData addr data = c := rfl

theorem transact_readData {c : NorChip} (ready : c.busy = 0) {addr : UInt32} (small : addr.toNat < 2 ^ 24) (n : ℕ) :
    (bus.transact c [cmdAddr cmdReadData addr] n).1.mem = c.mem ∧
      (bus.transact c [cmdAddr cmdReadData addr] n).1.busy = 0 ∧
      ∀ got, (bus.transact c [cmdAddr cmdReadData addr] n).2 = some got → got = Nor.read c.mem addr.toNat n := by
  have flat : [cmdAddr cmdReadData addr].flatten = cmdAddr cmdReadData addr ++ [] := rfl
  rcases transact_cases c [cmdAddr cmdReadData addr] n with answered | ⟨k, failed⟩
  · rw [answered, flat, exec_cmdAddr (c := { c with cuts := c.cuts.tail }) ready takesAddr_readData small,
      effect_readData]
    exact ⟨rfl, ready, fun got same => (Option.some.inj same).symm⟩
  · rw [failed, flat, exec_cmdAddr_take (c := { c with cuts := c.cuts.tail }) ready takesAddr_readData small,
      effect_readData, ite_self]
    exact ⟨rfl, ready, fun got no => by cases no⟩

theorem readLoop_spec (fuel : ℕ) {c : NorChip} (ready : c.busy = 0) {addr : UInt32} {left : ℕ}
    (chip : addr.toNat + left ≤ 2 ^ 24) :
    (readLoop bus fuel c addr left).1.mem = c.mem ∧
      ∀ got, (readLoop bus fuel c addr left).2 = some got →
        got = Nor.read c.mem addr.toNat left ∧ (readLoop bus fuel c addr left).1.busy = 0 := by
  induction fuel generalizing c addr left with
  | zero =>
    unfold readLoop
    refine ⟨rfl, fun got read => ?_⟩
    dsimp only at read
    split_ifs at read with some_left
    have empty : left = 0 := by omega
    rw [empty, ← Option.some.inj read]
    exact ⟨rfl, ready⟩
  | succ fuel ih =>
    rw [readLoop]
    by_cases some_left : 0 < left
    · rw [if_pos some_left]
      dsimp only
      have fits : min left 0xFFFF ≤ left := Nat.min_le_left ..
      generalize min left 0xFFFF = chunk at fits
      have here : addr.toNat < 2 ^ 24 := by omega
      obtain ⟨mem₁, ready₁, data⟩ := transact_readData ready here chunk
      rcases answer : bus.transact c [cmdAddr cmdReadData addr] chunk with
        ⟨c₁, _ | got⟩ <;> rw [answer] at mem₁ ready₁ data
      · exact ⟨mem₁, fun got no => by cases no⟩
      dsimp only at mem₁ ready₁ data ⊢
      have toNat_chunk : (UInt32.ofNat chunk).toNat = chunk :=
        UInt32.toNat_ofNat_of_lt' (by change chunk < 2 ^ 32; omega)
      have moved : (addr + UInt32.ofNat chunk).toNat = addr.toNat + chunk := by
        rw [UInt32.toNat_add, toNat_chunk, Nat.mod_eq_of_lt (by omega)]
      have onward : (addr + UInt32.ofNat chunk).toNat + (left - chunk) ≤ 2 ^ 24 := by omega
      obtain ⟨mem₂, rest⟩ := ih ready₁ onward
      rcases answer₂ : readLoop bus fuel c₁ (addr + UInt32.ofNat chunk) (left - chunk) with ⟨c₂, _ | more⟩ <;>
        rw [answer₂] at mem₂ rest
      · exact ⟨mem₂.trans mem₁, fun got no => by cases no⟩
      · refine ⟨mem₂.trans mem₁, fun all same => ⟨?_, (rest more rfl).2⟩⟩
        rw [← Option.some.inj same, data got rfl, (rest more rfl).1, mem₁, moved, ← Nor.read_add,
          Nat.add_sub_cancel' fits]
    · rw [if_neg some_left]
      refine ⟨rfl, fun got same => ?_⟩
      have empty : left = 0 := by omega
      rw [empty, ← Option.some.inj same]
      exact ⟨rfl, ready⟩

end NorChip

end IoEdgeHub
