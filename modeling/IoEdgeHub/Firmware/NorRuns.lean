import IoEdgeHub.Firmware.NorChip

/-!
# The driver on the chip and on the array

Everything above the driver is proved over `W25q`, an array whose commands have outcomes.  Here the driver on the
chip is shown to do the same: the same results and the same bytes for some outcomes, from a chip that is not busy and
up to the first call that fails (`attempts_refines`).
-/

namespace IoEdgeHub

open Chunks SpiNor

namespace NorChip

/-! ## The array -/

/-- The driver of the array with these outcomes of its commands to come. -/
def array (c : NorChip) (plan : List Outcome) (refused : ℕ) : W25q := ⟨c.mem, plan, refused⟩

variable {c : NorChip} {addr : UInt32} {len : ℕ}

theorem write_refines (ready : c.busy = 0) {buf : List UInt8}
    (small : addr.toNat + buf.length < 2 ^ 32) :
    ∃ plan, ∀ rest r, ∃ r',
      (c.array (plan ++ rest) r).write addr.toNat buf =
        ((write bus c addr buf).1.array rest r', (write bus c addr buf).2) ∧
        ((write bus c addr buf).2 = true → (write bus c addr buf).1.busy = 0) := by
  by_cases empty : buf = []
  · subst empty
    exact ⟨[], fun rest r => ⟨r, rfl, fun _ => ready⟩⟩
  by_cases out : 256 < addr.toNat % 256 + buf.length ∨ 0x1000000 < addr.toNat + buf.length
  · refine ⟨[], fun rest r => ⟨r + 1, ?_, ?_⟩⟩
    all_goals
      unfold write
      rw [if_neg (by rwa [List.isEmpty_iff]), if_pos ((crosses_iff small).2 out)]
    · rw [W25q.write, if_neg (by rwa [List.isEmpty_iff]), if_pos (by exact out)]
      rfl
    · exact fun no => absurd no Bool.false_ne_true
  · have page : addr.toNat % 256 + buf.length ≤ 256 := by omega
    have chip : addr.toNat + buf.length ≤ 0x1000000 := by omega
    obtain ⟨k, mem, success⟩ := write_spec ready empty page chip
    rcases result : write bus c addr buf with ⟨c', _ | _⟩ <;> rw [result] at mem success
    · refine ⟨[.fail k], fun rest r => ⟨r, ?_, fun no => absurd no Bool.false_ne_true⟩⟩
      rw [W25q.write, if_neg (by rwa [List.isEmpty_iff]), if_neg (by exact out), array, array, mem]
      rfl
    · refine ⟨[.ok], fun rest r => ⟨r, ?_, fun _ => (success rfl).2⟩⟩
      rw [List.take_of_length_le (success rfl).1] at mem
      rw [W25q.write, if_neg (by rwa [List.isEmpty_iff]), if_neg (by exact out), array, array, mem]
      rfl

theorem eraseBlock_refines (ready : c.busy = 0) {t : ℕ × ℕ} (aligned : Aligned t) (small : t.1 < 2 ^ 24) :
    ∃ plan, ∀ rest r,
      (c.array (plan ++ rest) r).eraseOne t.1 t.2 = ((eraseBlock bus c t).1.array rest r, (eraseBlock bus c t).2) ∧
        ((eraseBlock bus c t).2 = true → (eraseBlock bus c t).1.busy = 0) := by
  obtain ⟨k, mem, success⟩ := eraseBlock_spec ready aligned small
  rcases result : eraseBlock bus c t with ⟨c', _ | _⟩ <;> rw [result] at mem success
  · refine ⟨[.fail k], fun rest r => ⟨?_, fun no => absurd no Bool.false_ne_true⟩⟩
    rw [array, array, mem]
    rfl
  · refine ⟨[.ok], fun rest r => ⟨?_, fun _ => (success rfl).2⟩⟩
    rw [Nat.min_eq_right (success rfl).1] at mem
    rw [array, array, mem]
    rfl

/-- The block loop of the array is one erase for each chunk. -/
theorem eraseLoop_array {fuel : ℕ} (w : W25q) {addr : ℕ} (sectors : Sectors addr len) (enough : len ≤ 4096 * fuel) :
    W25q.eraseLoop fuel w addr len = runAll (fun w t => w.eraseOne t.1 t.2) w (cut W25q.eraseChunk fuel addr len) := by
  induction fuel generalizing w addr len with
  | zero =>
    have empty : len = 0 := by omega
    rw [empty]
    rfl
  | succ fuel ih =>
    rw [W25q.eraseLoop, cut]
    split_ifs with empty
    · rfl
    · obtain ⟨least, most, next⟩ := cuts_eraseChunk _ _ sectors empty
      rcases erased : w.eraseOne addr (W25q.eraseChunk addr len) with ⟨w', _ | _⟩
      · rw [runAll_cons_false erased]
      · rw [runAll_cons_true erased]
        exact ih w' next (by omega)

theorem runAll_refines {ts : List (ℕ × ℕ)} (good : ∀ t ∈ ts, Aligned t ∧ t.1 < 2 ^ 24) (ready : c.busy = 0) :
    ∃ plan, ∀ rest r,
      runAll (fun (w : W25q) t => w.eraseOne t.1 t.2) (c.array (plan ++ rest) r) ts =
          ((runAll (eraseBlock bus) c ts).1.array rest r, (runAll (eraseBlock bus) c ts).2) ∧
        ((runAll (eraseBlock bus) c ts).2 = true → (runAll (eraseBlock bus) c ts).1.busy = 0) := by
  induction ts generalizing c with
  | nil => exact ⟨[], fun rest r => ⟨rfl, fun _ => ready⟩⟩
  | cons t ts ih =>
    obtain ⟨⟨aligned, small⟩, later⟩ := List.forall_mem_cons.1 good
    obtain ⟨plan, same⟩ := eraseBlock_refines ready aligned small
    rcases result : eraseBlock bus c t with ⟨c', _ | _⟩ <;> rw [result] at same
    · rw [runAll_cons_false result]
      refine ⟨plan, fun rest r => ⟨?_, (same rest r).2⟩⟩
      rw [runAll_cons_false (same rest r).1]
    · rw [runAll_cons_true result]
      obtain ⟨plan', same'⟩ := ih later ((same [] 0).2 rfl)
      refine ⟨plan ++ plan', fun rest r => ⟨?_, (same' rest r).2⟩⟩
      rw [List.append_assoc, runAll_cons_true (same (plan' ++ rest) r).1]
      exact (same' rest r).1

theorem erase_turns_down_iff (addr len : UInt32) :
    (len.toNat = 0 ∨ addr.toNat % W25q.sectorSize ≠ 0 ∨ len.toNat % W25q.sectorSize ≠ 0 ∨
      addr.toNat + len.toNat > W25q.chipSize) ↔ ¬Erasable addr len := by
  rw [Erasable, W25q.sectorSize, W25q.chipSize]
  omega

theorem erase_refines (ready : c.busy = 0) {len : UInt32} (small : addr.toNat + len.toNat < 2 ^ 32) :
    ∃ c' ok, erase bus c addr len = some (c', ok) ∧ ∃ plan, ∀ rest r,
      (c.array (plan ++ rest) r).erase addr.toNat len.toNat = (c'.array rest r, ok) ∧ (ok = true → c'.busy = 0) := by
  by_cases fit : Erasable addr len
  · have array_eq (w : W25q) : w.erase addr.toNat len.toNat =
        runAll (fun w t => w.eraseOne t.1 t.2) w (blocks addr len) := by
      rw [W25q.erase, if_neg (mt (erase_turns_down_iff addr len).1 (not_not.2 fit))]
      exact eraseLoop_array w ⟨fit.2.1, fit.2.2.1⟩ fit.enough
    obtain ⟨plan, same⟩ := runAll_refines (fun t member => ⟨fit.aligned t member, fit.below member⟩) ready
    exact ⟨_, _, erase_eq fit bus c, plan, fun rest r => by rw [array_eq]; exact same rest r⟩
  · refine ⟨c, false, if_pos ((erase_rejects_iff small).2 fit), [],
      fun rest r => ⟨?_, fun no => absurd no Bool.false_ne_true⟩⟩
    exact if_pos ((erase_turns_down_iff addr len).2 fit)

theorem read_rejects_iff (small : len < 2 ^ 32) :
    (addr ≥ chipSize ∨ chipSize - addr < UInt32.ofNat len) ↔
      addr.toNat ≥ W25q.chipSize ∨ W25q.chipSize - addr.toNat < len := by
  have toNat_len : (UInt32.ofNat len).toNat = len := UInt32.toNat_ofNat_of_lt' small
  have high : addr ≥ chipSize ↔ addr.toNat ≥ W25q.chipSize := UInt32.le_iff_toNat_le
  rw [high]
  refine or_congr_right' fun low => ?_
  have below : addr ≤ chipSize := by
    rw [UInt32.le_iff_toNat_le]
    exact Nat.le_of_lt (Nat.not_le.1 low)
  rw [UInt32.lt_iff_toNat_lt, UInt32.toNat_sub_of_le _ _ below, toNat_len]
  rfl

theorem read_refines (ready : c.busy = 0) (addr : UInt32) (small : len < 2 ^ 32) :
    ∃ plan, ∀ rest r,
      (c.array (plan ++ rest) r).read addr.toNat len =
        ((SpiNor.read bus c addr len).1.array rest r, (SpiNor.read bus c addr len).2) ∧
        ((SpiNor.read bus c addr len).2.isSome → (SpiNor.read bus c addr len).1.busy = 0) := by
  unfold SpiNor.read
  by_cases out : addr.toNat ≥ W25q.chipSize ∨ W25q.chipSize - addr.toNat < len
  · rw [if_pos ((read_rejects_iff small).2 out)]
    exact ⟨[], fun rest r => ⟨if_pos out, fun no => absurd no Bool.false_ne_true⟩⟩
  · rw [if_neg (mt (read_rejects_iff small).1 out)]
    have chip : addr.toNat + len ≤ 2 ^ 24 := by
      rw [W25q.chipSize] at out
      omega
    obtain ⟨mem, data⟩ := readLoop_spec len ready chip
    by_cases empty : len = 0
    · subst empty
      refine ⟨[], fun rest r => ⟨?_, fun _ => ready⟩⟩
      rw [W25q.read, if_neg out, if_pos rfl]
      rfl
    · rcases result : readLoop bus len c addr len with ⟨c', _ | got⟩ <;> rw [result] at mem data
      · refine ⟨[.fail 0], fun rest r => ⟨?_, fun no => absurd no Bool.false_ne_true⟩⟩
        rw [W25q.read, if_neg out, if_neg empty, array, array, mem]
        rfl
      · refine ⟨[.ok], fun rest r => ⟨?_, fun _ => (data got rfl).2⟩⟩
        rw [W25q.read, if_neg out, if_neg empty, array, array, mem, (data got rfl).1]
        rfl

end NorChip

/-! ## Runs of driver calls -/

/-- The driver as a flash. -/
def SpiNor.flash {σ : Type*} (bus : SpiBus σ) : Flash σ where
  read s addr len := SpiNor.read bus s (UInt32.ofNat addr) len
  write s addr buf := SpiNor.write bus s (UInt32.ofNat addr) buf
  erase s addr len := (SpiNor.erase bus s (UInt32.ofNat addr) (UInt32.ofNat len)).getD (s, false)

namespace FlashOp

variable {σ : Type*}

/-- The result of a call that returns nothing. -/
def done (ok : Bool) : Option (List UInt8) := if ok then some [] else none

/-- One call; no result is a failure. -/
def perform (f : Flash σ) (s : σ) : FlashOp → σ × Option (List UInt8)
  | .read addr len => f.read s addr len
  | .write addr data => (f.write s addr data).map id done
  | .erase addr len => (f.erase s addr len).map id done

/-- Calls in turn with their results, up to and including the first that fails. -/
def attempts (f : Flash σ) : σ → List FlashOp → σ × List (Option (List UInt8))
  | s, [] => (s, [])
  | s, op :: ops =>
    match op.perform f s with
    | (s, none) => (s, [none])
    | (s, some got) => (attempts f s ops).map id (some got :: ·)

/-- The range of the call is one of 32-bit addresses. -/
def InRange : FlashOp → Prop
  | .read addr len => addr + len < 2 ^ 32
  | .write addr data => addr + data.length < 2 ^ 32
  | .erase addr len => addr + len < 2 ^ 32

end FlashOp

namespace NorChip

open FlashOp

theorem eq_true_of_isSome_done {ok : Bool} (succeeded : (done ok).isSome) : ok = true := by
  cases ok with
  | false => exact absurd succeeded Bool.false_ne_true
  | true => rfl

theorem perform_erase {c c' : NorChip} {addr len : ℕ} {ok : Bool}
    (ended : erase bus c (UInt32.ofNat addr) (UInt32.ofNat len) = some (c', ok)) :
    (FlashOp.erase addr len).perform (SpiNor.flash bus) c = (c', done ok) := by
  change ((erase bus c (UInt32.ofNat addr) (UInt32.ofNat len)).getD (c, false)).map id done = _
  rw [ended]
  rfl

/-- One call does on the chip what it does on the array, for some outcomes of its commands. -/
theorem perform_refines {c : NorChip} (ready : c.busy = 0) {op : FlashOp} (inRange : op.InRange) :
    ∃ plan, ∀ rest r, ∃ r',
      op.perform W25q.flash (c.array (plan ++ rest) r) =
          ((op.perform (SpiNor.flash bus) c).1.array rest r', (op.perform (SpiNor.flash bus) c).2) ∧
        ((op.perform (SpiNor.flash bus) c).2.isSome → (op.perform (SpiNor.flash bus) c).1.busy = 0) := by
  cases op with
  | read addr len =>
    have small : addr + len < 2 ^ 32 := inRange
    have toNat_addr : (UInt32.ofNat addr).toNat = addr :=
      UInt32.toNat_ofNat_of_lt' (Nat.lt_of_le_of_lt (Nat.le_add_right _ _) small)
    obtain ⟨plan, same⟩ := read_refines ready (UInt32.ofNat addr) (by omega : len < 2 ^ 32)
    rw [toNat_addr] at same
    exact ⟨plan, fun rest r => ⟨r, same rest r⟩⟩
  | write addr data =>
    have small : addr + data.length < 2 ^ 32 := inRange
    have toNat_addr : (UInt32.ofNat addr).toNat = addr :=
      UInt32.toNat_ofNat_of_lt' (Nat.lt_of_le_of_lt (Nat.le_add_right _ _) small)
    have fits : (UInt32.ofNat addr).toNat + data.length < 2 ^ 32 := by rwa [toNat_addr]
    obtain ⟨plan, same⟩ := write_refines ready fits
    refine ⟨plan, fun rest r => ?_⟩
    obtain ⟨r', equal, idle⟩ := same rest r
    rw [toNat_addr] at equal
    refine ⟨r', ?_, fun ok => idle (eq_true_of_isSome_done ok)⟩
    change ((c.array (plan ++ rest) r).write addr data).map id done = _
    rw [equal]
    rfl
  | erase addr len =>
    have small : addr + len < 2 ^ 32 := inRange
    have toNat_addr : (UInt32.ofNat addr).toNat = addr :=
      UInt32.toNat_ofNat_of_lt' (Nat.lt_of_le_of_lt (Nat.le_add_right _ _) small)
    have toNat_len : (UInt32.ofNat len).toNat = len :=
      UInt32.toNat_ofNat_of_lt' (Nat.lt_of_le_of_lt (Nat.le_add_left _ _) small)
    have fits : (UInt32.ofNat addr).toNat + (UInt32.ofNat len).toNat < 2 ^ 32 := by rwa [toNat_addr, toNat_len]
    obtain ⟨c', ok, ended, plan, same⟩ := erase_refines ready fits
    rw [toNat_addr, toNat_len] at same
    rw [perform_erase ended]
    refine ⟨plan, fun rest r => ⟨r, ?_, fun succeeded => (same rest r).2 (eq_true_of_isSome_done succeeded)⟩⟩
    change ((c.array (plan ++ rest) r).erase addr len).map id done = _
    rw [(same rest r).1]
    rfl

/-- A run of calls on the chip, up to the first that fails, is one on the array: the same results and the same bytes,
for some outcomes of the commands. -/
theorem attempts_refines {ops : List FlashOp} (inRange : ∀ op ∈ ops, op.InRange) {c : NorChip} (ready : c.busy = 0) :
    ∃ plan, ∀ rest r, ∃ r',
      attempts W25q.flash (c.array (plan ++ rest) r) ops =
        ((attempts (SpiNor.flash bus) c ops).1.array rest r', (attempts (SpiNor.flash bus) c ops).2) := by
  induction ops generalizing c with
  | nil => exact ⟨[], fun rest r => ⟨r, rfl⟩⟩
  | cons op ops ih =>
    obtain ⟨first, later⟩ := List.forall_mem_cons.1 inRange
    obtain ⟨plan, same⟩ := perform_refines ready first
    rcases performed : op.perform (SpiNor.flash bus) c with ⟨c', _ | got⟩ <;> rw [performed] at same
    · refine ⟨plan, fun rest r => ?_⟩
      obtain ⟨r', equal, -⟩ := same rest r
      refine ⟨r', ?_⟩
      rw [attempts, attempts, equal, performed]
    · obtain ⟨-, -, idle⟩ := same [] 0
      obtain ⟨plan', same'⟩ := ih later (idle rfl)
      refine ⟨plan ++ plan', fun rest r => ?_⟩
      obtain ⟨r', equal, -⟩ := same (plan' ++ rest) r
      obtain ⟨r'', equal'⟩ := same' rest r'
      refine ⟨r'', ?_⟩
      rw [attempts, attempts, List.append_assoc, equal, performed]
      dsimp only
      rw [equal']
      rfl

/-- A page program that is cut after two bytes of its data. -/
theorem attempts_refines_cut :
    let c : NorChip := ⟨fun _ => 0xFF, false, 0, [], [none, none, some 6]⟩
    let ops : List FlashOp := [.read 0 4, .write 0x100 [1, 2, 3], .read 0x100 3]
    (∀ op ∈ ops, op.InRange) ∧ c.busy = 0 ∧ ∃ plan, ∀ rest r, ∃ r',
      attempts W25q.flash (c.array (plan ++ rest) r) ops =
        ((attempts (SpiNor.flash bus) c ops).1.array rest r', (attempts (SpiNor.flash bus) c ops).2) := by
  intro c ops
  have inRange : ∀ op ∈ ops, op.InRange := by simp [ops, FlashOp.InRange]
  exact ⟨inRange, rfl, attempts_refines inRange rfl⟩

end NorChip

end IoEdgeHub
