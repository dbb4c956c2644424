import IoEdgeHub.Firmware.RegOps
import IoEdgeHub.Proto.MbDecode

/-!
# Runs of register operations

What holds in every state that the writers of the register map can reach.  The outputs carry the low
byte of the DO register (`outputs_mirror`), and the two trigger registers read 0, so that every
accepted write of a trigger fires it (`triggers_armed`).  Last, the four ways to write one register
are compared (`entry_points_alike_iff`).
-/

namespace IoEdgeHub

open Run

/-! ## The outputs -/

/-- The byte that a call leaves on the outputs. -/
def HookCall.drive (pins : UInt8) : HookCall → UInt8
  | setDo val => val
  | _ => pins

/-- The byte last driven to the outputs, which start low. -/
def Hooks.pins (h : Hooks) : UInt8 := h.calls.foldl HookCall.drive 0

theorem Hooks.pins_call (h : Hooks) (c : HookCall) : (h.call c).pins = c.drive h.pins := by
  simp [Hooks.pins, Hooks.call]

theorem drive_holdingCalls {addr : ℕ} (other : addr ≠ holdingDoIdx) (hi reg : UInt16) (pins : UInt8) :
    (RegMap.holdingCalls hi addr reg).foldl HookCall.drive pins = pins := by
  unfold RegMap.holdingCalls
  split
  · exact absurd rfl other
  · rfl
  · rfl
  · rfl
  · split <;> rfl
  · rfl

namespace Regs

/-- The outputs show the low byte of the DO register. -/
def Mirrors (s : Regs) : Prop := s.1.doByte = s.2.pins

theorem mirrors_holding {s s' : Regs} {addr reg : UInt16} (h : s.1.ioWriteHolding addr reg s.2 = some s')
    (inv : s.Mirrors) : s'.Mirrors := by
  obtain rfl | ⟨inside, -, rfl⟩ := RegMap.ioWriteHolding_cases h
  · exact inv
  · unfold Mirrors RegMap.doByte Hooks.pins at *
    rw [List.foldl_append, ← inv]
    by_cases output : addr.toNat = holdingDoIdx
    · simp only [output, Vector.getElem_set_self]
      rfl
    · rw [drive_holdingCalls output, Vector.getElem_set_ne _ _ output]

theorem mirrors_doBit {s s' : Regs} {bit : UInt16} {state : Bool} (h : s.1.ioWriteDoBit bit state s.2 = some s') :
    s'.Mirrors := by
  unfold RegMap.ioWriteDoBit at h
  split_ifs at h
  all_goals
    cases h
    rw [Mirrors, RegMap.doByte, Hooks.pins_call, Vector.getElem_set_self, toUInt8_and_0xFF]
    rfl

end Regs

theorem RegWrite.mirrors {s s' : Regs} (write : RegWrite s s') (inv : s.Mirrors) : s'.Mirrors := by
  cases write with
  | holding h => exact Regs.mirrors_holding h inv
  | doBit h => exact Regs.mirrors_doBit h
  | config i h v =>
    have other : i ≠ holdingDoIdx := fun same => absurd (same ▸ h) (by decide)
    rw [Regs.Mirrors, RegMap.doByte, Vector.getElem_setIfInBounds_ne (by decide) other]
    exact inv
  | input h =>
    obtain ⟨-, rfl⟩ := RegMap.updateInput_cases h
    exact inv
  | linkDown =>
    rw [Regs.Mirrors, RegMap.doByte, RegMap.clearDo, Hooks.pins_call, Vector.getElem_set_self]
    rfl
  | call c h =>
    rw [Regs.Mirrors, Hooks.pins_call, inv]
    cases c <;> first | rfl | exact absurd h id
  | clock t => exact inv

namespace Regs

/-- Whatever writes the registers, in whatever order: the outputs show the low byte of the DO
register. -/
theorem outputs_mirror (versionReg : UInt16) (nowEpoch : UInt32) (ops : List RegOp) (s : Regs)
    (ran : ops.foldlM step (start versionReg nowEpoch) = some s) :
    s.1.holding[holdingDoIdx].toUInt8 = s.2.pins := by
  have init : Mirrors (start versionReg nowEpoch) := rfl
  exact run_keeps (fun _ _ => RegWrite.mirrors) init ran

/-- Coil 3 switched on over Modbus, then the same register value written again, which skips the
drive. -/
theorem outputs_mirror_coil : ∃ s : Regs,
    [RegOp.modbus .new (List.replicate 5 0) [5, 0, 3, 0xFF, 0],
      .modbus .new (List.replicate 5 0) [6, 0, 0, 0, 8]].foldlM step (start 0 0) = some s ∧
    s.2.pins = 8 ∧ s.1.holding[holdingDoIdx].toUInt8 = s.2.pins := by
  have ran : [RegOp.modbus .new (List.replicate 5 0) [5, 0, 3, 0xFF, 0],
      .modbus .new (List.replicate 5 0) [6, 0, 0, 0, 8]].foldlM step (start 0 0) =
      some ({ RegMap.new 0 with holding := (RegMap.new 0).holding.set 0 8 }, ⟨[.setDo 8], 0⟩) := rfl
  exact ⟨_, ran, rfl, outputs_mirror 0 0 _ _ ran⟩

/-! ## The trigger registers -/

/-- Both triggers read 0. -/
structure Armed (s : Regs) : Prop where
  save : s.1.holding[holdingConfigSaveIdx] = 0
  reboot : s.1.holding[holdingRebootIdx] = 0

theorem armed_iff {s : Regs} :
    s.Armed ↔ ∀ i (h : i < 18), i = holdingConfigSaveIdx ∨ i = holdingRebootIdx → s.1.holding[i] = 0 := by
  constructor
  · rintro armed i h (rfl | rfl)
    exacts [armed.save, armed.reboot]
  · intro zero
    exact ⟨zero _ (by decide) (.inl rfl), zero _ (by decide) (.inr rfl)⟩

/-- A register store that leaves both triggers alone. -/
theorem Armed.store {s s' : Regs} (armed : s.Armed)
    (same : ∀ i (h : i < 18), i = holdingConfigSaveIdx ∨ i = holdingRebootIdx →
      s'.1.holding[i] = s.1.holding[i]) : s'.Armed := by
  refine armed_iff.2 fun i h trigger => ?_
  rw [same i h trigger]
  exact armed_iff.1 armed i h trigger

theorem Armed.setDo {s : Regs} (armed : s.Armed) (v : UInt16) (hooks : Hooks) :
    Armed ({ s.1 with holding := s.1.holding.set holdingDoIdx v }, hooks) := by
  refine armed.store fun i h trigger => ?_
  have other : holdingDoIdx ≠ i := by
    rintro rfl
    revert trigger
    decide
  exact Vector.getElem_set_ne (by decide) h other

end Regs

theorem RegWrite.armed {s s' : Regs} (write : RegWrite s s') (inv : s.Armed) : s'.Armed := by
  cases write with
  | holding h =>
    obtain rfl | ⟨inside, -, rfl⟩ := RegMap.ioWriteHolding_cases h
    · exact inv
    · refine Regs.armed_iff.2 fun i hi trigger => ?_
      rw [Vector.getElem_set]
      split_ifs with here
      · rw [here, RegMap.heldValue, if_pos trigger]
      · exact Regs.armed_iff.1 inv i hi trigger
  | doBit h =>
    unfold RegMap.ioWriteDoBit at h
    split_ifs at h
    all_goals
      cases h
      exact inv.setDo _ _
  | config i h v =>
    refine inv.store fun j hj trigger => ?_
    have other : i ≠ j := by
      rintro rfl
      revert h
      rcases trigger with rfl | rfl <;> decide
    exact Vector.getElem_setIfInBounds_ne hj other
  | input h =>
    obtain ⟨-, rfl⟩ := RegMap.updateInput_cases h
    exact ⟨inv.save, inv.reboot⟩
  | linkDown => exact inv.setDo _ _
  | call c h => exact ⟨inv.save, inv.reboot⟩
  | clock t => exact ⟨inv.save, inv.reboot⟩

/-! ### Accepted writes of a trigger -/

namespace Mb

/-- The request asks for a value in a holding register. -/
inductive Asks : List UInt8 → ℕ → UInt16 → Prop
  | single (a0 a1 v0 v1 : UInt8) :
    Asks [mbFc06HoldingRegWr, a0, a1, v0, v1] (getBe16 a0 a1).toNat (getBe16 v0 v1)
  | several (a0 a1 q0 q1 nb : UInt8) (data : List UInt8) (i : ℕ) (h : i < (getBe16 q0 q1).toNat) :
    Asks (mbFc16HoldingRegsWr :: a0 :: a1 :: q0 :: q1 :: nb :: data) ((getBe16 a0 a1).toNat + i)
      (wordAt data i)

/-- What an accepted request that asks for a register writes: that register, lower ones before it and
higher ones after it. -/
structure Wrote (s s' : Regs) (addr : ℕ) (value : UInt16) where
  before : List (UInt16 × UInt16)
  reg : UInt16
  after : List (UInt16 × UInt16)
  ran : attempt writeReg (before ++ (reg, value) :: after) s = (s', true)
  at_addr : reg.toNat = addr
  lower : ∀ e ∈ before, e.1.toNat < addr
  higher : ∀ e ∈ after, addr < e.1.toNat

theorem Asks.wrote {m m' : Mb} {pdu : List UInt8} {addr : ℕ} {value : UInt16} {n : ℕ}
    (asks : Asks pdu addr value) (answered : m.process pdu = some (m', n)) (accepted : Accepted m' n) :
    Nonempty (Wrote (m.regs, m.hooks) (m'.regs, m'.hooks) addr value) := by
  cases asks with
  | single a0 a1 v0 v1 =>
    have written := fc06_accepted (m := { m with srv := _ }) answered accepted
    exact ⟨[], _, [], by rw [List.nil_append, attempt, written]; rfl, rfl, by simp, by simp⟩
  | several a0 a1 q0 q1 nb data i h =>
    obtain ⟨addr, qty, data', request, ran⟩ := fc16_accepted (m := { m with srv := _ }) answered accepted
    have pos := regsRequest_pos request
    obtain ⟨rfl, rfl, rfl⟩ := regsRequest_fields request
    have fits : (getBe16 a0 a1).toNat + (getBe16 q0 q1).toNat ≤ 18 := by
      have flag := congrArg Prod.snd (attempt_singleWrites isSome_writeReg (getBe16 a0 a1) (wordAt data')
        pos (by decide) (m.regs, m.hooks))
      rw [ran] at flag
      simpa using flag.symm
    have address (j : ℕ) (hj : j < (getBe16 q0 q1).toNat) :
        (getBe16 a0 a1 + UInt16.ofNat j).toNat = (getBe16 a0 a1).toNat + j := by
      rw [UInt16.toNat_add, UInt16.toNat_ofNat']
      omega
    obtain ⟨k, split⟩ := Nat.exists_eq_add_of_lt h
    refine ⟨⟨singleWrites (getBe16 a0 a1) (wordAt data') 0 i, _,
      singleWrites (getBe16 a0 a1) (wordAt data') (i + 1) k, ?_, address i h, ?_, ?_⟩⟩
    · rw [← ran, split, Nat.add_assoc, singleWrites_add, Nat.zero_add, singleWrites_succ]
    · intro e he
      obtain ⟨j, hj, rfl⟩ := List.mem_map.1 he
      have := List.mem_range'_1.1 hj
      rw [address j (by omega)]
      omega
    · intro e he
      obtain ⟨j, hj, rfl⟩ := List.mem_map.1 he
      have := List.mem_range'_1.1 hj
      rw [address j (by omega)]
      omega

end Mb

/-- The calls that a trigger register makes, and no other register. -/
theorem mem_holdingCalls {hi reg : UInt16} {addr : ℕ} {c : HookCall} (mem : c ∈ RegMap.holdingCalls hi addr reg) :
    (c = .holdingSave → addr = holdingConfigSaveIdx) ∧
      (c = .historySync ∨ c = .rebootCold → addr = holdingRebootIdx) := by
  unfold RegMap.holdingCalls at mem
  split at mem
  case h_4 => exact ⟨fun _ => rfl, by rintro (rfl | rfl) <;> simp at mem⟩
  case h_5 =>
    refine ⟨?_, fun _ => rfl⟩
    rintro rfl
    split at mem <;> simp at mem
  all_goals simp_all

theorem le_of_mem_holdingCalls {hi reg : UInt16} {addr : ℕ} {c : HookCall}
    (mem : c ∈ RegMap.holdingCalls hi addr reg) : addr ≤ holdingRebootIdx := by
  unfold RegMap.holdingCalls at mem
  split at mem
  case h_6 => cases mem
  all_goals decide

namespace Regs

variable {s s' : Regs} {value : UInt16}

/-- The calls of a list of writes, each made by one of its registers. -/
theorem attempt_calls {es : List (UInt16 × UInt16)} (ran : attempt writeReg es s = (s', true)) :
    ∃ new, s'.2.calls = s.2.calls ++ new ∧
      ∀ c ∈ new, ∃ e ∈ es, ∃ hi, c ∈ RegMap.holdingCalls hi e.1.toNat e.2 := by
  induction es generalizing s with
  | nil =>
    cases ran
    exact ⟨[], by simp, by simp⟩
  | cons e es ih =>
    rw [attempt] at ran
    cases written : writeReg s e with
    | none =>
      rw [written] at ran
      cases ran
    | some s₁ =>
      rw [written] at ran
      obtain ⟨new, calls, made⟩ := ih ran
      have later : ∀ c ∈ new, ∃ e' ∈ e :: es, ∃ hi, c ∈ RegMap.holdingCalls hi e'.1.toNat e'.2 := by
        intro c hc
        obtain ⟨e', he', call⟩ := made c hc
        exact ⟨e', List.mem_cons_of_mem e he', call⟩
      rcases RegMap.ioWriteHolding_cases written with same | ⟨inside, -, stored⟩
      · rw [same] at calls
        exact ⟨new, calls, later⟩
      · rw [stored, List.append_assoc] at calls
        refine ⟨_, calls, fun c hc => ?_⟩
        rcases List.mem_append.1 hc with first | rest
        · exact ⟨e, List.mem_cons_self, _, first⟩
        · exact later c rest

theorem Armed.attempt {es : List (UInt16 × UInt16)} {all : Bool} (armed : s.Armed)
    (ran : attempt writeReg es s = (s', all)) : s'.Armed := by
  have path : RegWrites s (Run.attempt writeReg es s).1 :=
    attempt_path (fun s e s' (written : writeReg s e = some s') => .holding written) es s
  rw [ran] at path
  exact along (fun _ _ write => write.armed) path armed

/-- The calls around the register that was asked for. -/
theorem wrote_calls {addr : ℕ} (armed : s.Armed) (wrote : Mb.Wrote s s' addr value)
    (trigger : addr = holdingConfigSaveIdx ∨ addr = holdingRebootIdx) (nonzero : value ≠ 0) :
    ∃ before hi after, s'.2.calls = s.2.calls ++ before ++ RegMap.holdingCalls hi addr value ++ after ∧
      (∀ c ∈ before, ∃ a < addr, ∃ hi v, c ∈ RegMap.holdingCalls hi a v) ∧
      ∀ c ∈ after, ∃ a > addr, ∃ hi v, c ∈ RegMap.holdingCalls hi a v := by
  obtain ⟨before, reg, after, ran, rfl, lower, higher⟩ := wrote
  rw [attempt_append] at ran
  rcases first : attempt writeReg before s with ⟨s₁, _ | _⟩
  · rw [first] at ran
    simp at ran
  have inside : reg.toNat < 18 := by
    rcases trigger with at_save | at_reboot
    · rw [at_save]
      decide
    · rw [at_reboot]
      decide
  -- the trigger still reads 0 when its turn comes
  have fresh : s₁.1.holding[reg.toNat] ≠ value := by
    rw [armed_iff.1 (armed.attempt first) reg.toNat inside trigger]
    exact nonzero.symm
  have written : writeReg s₁ (reg, value) = some _ := RegMap.ioWriteHolding_new s₁.2 inside fresh
  rw [first, if_pos rfl, attempt, written] at ran
  obtain ⟨new₁, calls₁, made₁⟩ := attempt_calls first
  obtain ⟨new₂, calls₂, made₂⟩ := attempt_calls ran
  refine ⟨new₁, s₁.1.holding[14], new₂, ?_, ?_, ?_⟩
  · rw [calls₂, calls₁]
  · intro c hc
    obtain ⟨e, he, hi, call⟩ := made₁ c hc
    exact ⟨e.1.toNat, lower e he, hi, e.2, call⟩
  · intro c hc
    obtain ⟨e, he, hi, call⟩ := made₂ c hc
    exact ⟨e.1.toNat, higher e he, hi, e.2, call⟩

/-- A non-zero value in the save register: one `holding_save`. -/
theorem save_fires (armed : s.Armed)
    (wrote : Mb.Wrote s s' holdingConfigSaveIdx value) (nonzero : value ≠ 0) :
    ∃ new, s'.2.calls = s.2.calls ++ new ∧ new.count .holdingSave = 1 := by
  obtain ⟨before, hi, after, calls, lower, higher⟩ := wrote_calls armed wrote (.inl rfl) nonzero
  have fired : RegMap.holdingCalls hi holdingConfigSaveIdx value = [.holdingSave] := rfl
  refine ⟨before ++ [.holdingSave] ++ after, by rw [calls, fired]; simp, ?_⟩
  have noBefore : .holdingSave ∉ before := by
    intro mem
    obtain ⟨a, lt, hi, v, call⟩ := lower _ mem
    exact absurd ((mem_holdingCalls call).1 rfl) lt.ne
  have noAfter : .holdingSave ∉ after := by
    intro mem
    obtain ⟨a, gt, hi, v, call⟩ := higher _ mem
    exact absurd ((mem_holdingCalls call).1 rfl) gt.ne'
  simp [List.count_append, List.count_eq_zero_of_not_mem noBefore, List.count_eq_zero_of_not_mem noAfter]

/-- A non-zero value in the reboot register: one `history_sync`, then one `reboot_cold`, and nothing
after them. -/
theorem reboot_fires (armed : s.Armed)
    (wrote : Mb.Wrote s s' holdingRebootIdx value) (nonzero : value ≠ 0) :
    ∃ before, s'.2.calls = s.2.calls ++ before ++ [.historySync, .rebootCold] ∧
      .historySync ∉ before ∧ .rebootCold ∉ before := by
  obtain ⟨before, hi, after, calls, lower, higher⟩ := wrote_calls armed wrote (.inr rfl) nonzero
  have fired : RegMap.holdingCalls hi holdingRebootIdx value = [.historySync, .rebootCold] :=
    if_pos nonzero
  have last : after = [] := by
    apply List.eq_nil_iff_forall_not_mem.2
    intro c mem
    obtain ⟨a, gt, hi, v, call⟩ := higher c mem
    exact absurd (le_of_mem_holdingCalls call) (Nat.not_le.2 gt)
  refine ⟨before, by rw [calls, fired, last, List.append_nil], fun mem => ?_, fun mem => ?_⟩
  · obtain ⟨a, lt, hi, v, call⟩ := lower _ mem
    exact absurd ((mem_holdingCalls call).2 (.inl rfl)) lt.ne
  · obtain ⟨a, lt, hi, v, call⟩ := lower _ mem
    exact absurd ((mem_holdingCalls call).2 (.inr rfl)) lt.ne

/-- Whatever writes the registers, in whatever order: both triggers read 0, so an accepted write of a
non-zero value fires its trigger once, again and again. -/
theorem triggers_armed (versionReg : UInt16) (nowEpoch : UInt32) (ops : List RegOp) (s : Regs)
    (ran : ops.foldlM step (start versionReg nowEpoch) = some s) :
    s.1.holding[holdingConfigSaveIdx] = 0 ∧ s.1.holding[holdingRebootIdx] = 0 ∧
    ∀ (srv : MbServer) (out pdu : List UInt8) (m' : Mb) (n : ℕ) (value : UInt16),
      Mb.process ⟨srv, out, s.1, s.2⟩ pdu = some (m', n) → m'.Accepted n → value ≠ 0 →
      (Mb.Asks pdu holdingConfigSaveIdx value →
        ∃ new, m'.hooks.calls = s.2.calls ++ new ∧ new.count .holdingSave = 1) ∧
      (Mb.Asks pdu holdingRebootIdx value →
        ∃ before, m'.hooks.calls = s.2.calls ++ before ++ [.historySync, .rebootCold] ∧
          .historySync ∉ before ∧ .rebootCold ∉ before) := by
  have init : Armed (start versionReg nowEpoch) := ⟨rfl, rfl⟩
  have armed : Armed s := run_keeps (fun _ _ => RegWrite.armed) init ran
  refine ⟨armed.save, armed.reboot, fun srv out pdu m' n value answered accepted nonzero => ⟨?_, ?_⟩⟩
  · intro asks
    obtain ⟨wrote⟩ := asks.wrote answered accepted
    exact save_fires armed wrote nonzero
  · intro asks
    obtain ⟨wrote⟩ := asks.wrote answered accepted
    exact reboot_fires armed wrote nonzero

/-- Save, reboot, and save again: the second save fires like the first. -/
theorem triggers_armed_again :
    let s : Regs := (RegMap.new 0, ⟨[.holdingSave, .historySync, .rebootCold], 0⟩)
    [RegOp.modbus .new (List.replicate 5 0) [6, 0, 0x10, 0, 1],
      .modbus .new (List.replicate 5 0) [6, 0, 0x11, 0, 1]].foldlM step (start 0 0) = some s ∧
    ∃ new, [.holdingSave, .historySync, .rebootCold, .holdingSave] = s.2.calls ++ new ∧
      new.count .holdingSave = 1 := by
  intro s
  have ran : [RegOp.modbus .new (List.replicate 5 0) [6, 0, 0x10, 0, 1],
      .modbus .new (List.replicate 5 0) [6, 0, 0x11, 0, 1]].foldlM step (start 0 0) = some s := rfl
  have answered : Mb.process ⟨.new, List.replicate 5 0, s.1, s.2⟩ [6, 0, 0x10, 0, 1] =
      some (⟨⟨#v[1, 0, 0, 1, 0]⟩, [6, 0, 0x10, 0, 1], RegMap.new 0,
        ⟨[.holdingSave, .historySync, .rebootCold, .holdingSave], 0⟩⟩, 5) := rfl
  have accepted : Mb.Accepted ⟨⟨#v[1, 0, 0, 1, 0]⟩, [6, 0, 0x10, 0, 1], RegMap.new 0,
      ⟨[.holdingSave, .historySync, .rebootCold, .holdingSave], 0⟩⟩ 5 := by
    refine ⟨by decide, ?_⟩
    rintro ⟨-, b, first, bit⟩
    cases first
    exact bit (by decide)
  exact ⟨ran, ((triggers_armed 0 0 _ s ran).2.2 _ _ _ _ _ 1 answered accepted (by decide)).1
    (.single 0 0x10 0 1)⟩

/-! ## Four ways to write a register -/

/-- A request to write a register. -/
def fc06Pdu (addr value : UInt16) : List UInt8 := mbFc06HoldingRegWr :: (putBe16 addr ++ putBe16 value)

/-- FC16 with one register. -/
def fc16Pdu (addr value : UInt16) : List UInt8 :=
  mbFc16HoldingRegsWr :: (putBe16 addr ++ ([0, 1, 2] ++ putBe16 value))

/-- The same registers and hook calls follow from every way to write `value` to `addr`: over Modbus,
by the web command, and by the shell however the two numbers are typed. -/
structure AllWrite (s : Regs) (addr value : UInt16) (s' : Regs) : Prop where
  fc06 (srv : MbServer) (out : List UInt8) (full : out.length = mbServerPduMax) :
    s.step (.modbus srv out (fc06Pdu addr value)) = some s'
  fc16 (srv : MbServer) (out : List UInt8) (full : out.length = mbServerPduMax) :
    s.step (.modbus srv out (fc16Pdu addr value)) = some s'
  web (ctx : WsSession) :
    (WsSession.webCmdReg { ctx with regs := s.1, hooks := s.2 } addr.toNat value.toNat).1.view = s'
  shell (requests : List ShellRequest) (a v : List Char) (typed : Shell.parseU32 a = some addr.toNat)
    (typedValue : Shell.parseU32 v = some value.toNat) :
    (Shell.ioDispatch ⟨s.1, s.2, requests⟩ ["reg".toList, a, v]).view = s'

section Entries

variable {s s' : Regs} {addr value : UInt16}

/-- A request that is echoed leaves what its handler wrote. -/
theorem step_echo {m : Mb} {fc : UInt8} {a b : UInt16} (low : fc &&& 0x80 = 0)
    (full : m.out.length = mbServerPduMax) :
    ((m.echo fc a b).map fun r => (r.1.regs, r.1.hooks)) = some (m.regs, m.hooks) := by
  obtain ⟨m', ran, -⟩ := Mb.echo_answers full low a b
  obtain ⟨regs, hooks⟩ := Mb.echo_sameEffects ran
  rw [ran, Option.map_some, regs, hooks]

theorem step_fc06 (written : s.1.ioWriteHolding addr value s.2 = some s') (srv : MbServer) {out : List UInt8}
    (full : out.length = mbServerPduMax) : s.step (.modbus srv out (fc06Pdu addr value)) = some s' := by
  have handled (m : Mb) (regs : m.regs = s.1) (hooks : m.hooks = s.2) :
      m.fc06 (putBe16 addr ++ putBe16 value) =
        { m with regs := s'.1, hooks := s'.2 }.echo mbFc06HoldingRegWr addr value := by
    simp only [Mb.fc06, putBe16, List.cons_append, List.nil_append, getBe16_putBe16, regs, hooks, written]
  have ran := handled ⟨(srv.diagCount .busMsg).diagCount .srvMsg, out, s.1, s.2⟩ rfl rfl
  rw [step, fc06Pdu]
  exact (congrArg _ ran).trans (step_echo (by decide) full)

theorem step_fc16 (inside : addr.toNat < 18) (written : s.1.ioWriteHolding addr value s.2 = some s')
    (srv : MbServer) {out : List UInt8} (full : out.length = mbServerPduMax) :
    s.step (.modbus srv out (fc16Pdu addr value)) = some s' := by
  have request : Mb.regsRequest (putBe16 addr ++ ([0, 1, 2] ++ putBe16 value)) =
      some (addr, 1, putBe16 value) := by
    have area : addr < mbFpExtensionsAddr :=
      UInt16.lt_iff_toNat_lt.2 (Nat.lt_of_lt_of_le inside (by decide))
    simp only [Mb.regsRequest, putBe16, List.cons_append, List.nil_append, getBe16_putBe16]
    exact if_pos ⟨by decide, by decide, area, rfl, by decide, by simp⟩
  have single : singleWrites addr (wordAt (putBe16 value)) 0 1 = [(addr, value)] := by
    simp [singleWrites, wordAt, putBe16, getBe16_putBe16]
  have handled (m : Mb) (regs : m.regs = s.1) (hooks : m.hooks = s.2) :
      m.fc16 (putBe16 addr ++ ([0, 1, 2] ++ putBe16 value)) =
        { m with regs := s'.1, hooks := s'.2 }.echo mbFc16HoldingRegsWr addr 1 := by
    have all : attempt writeReg [(addr, value)] (m.regs, m.hooks) = (s', true) := by
      rw [attempt, writeReg, regs, hooks, written]
      rfl
    rw [Mb.fc16_request request, show (1 : UInt16).toNat = 1 from rfl, single, all]
    rfl
  have ran := handled ⟨(srv.diagCount .busMsg).diagCount .srvMsg, out, s.1, s.2⟩ rfl rfl
  rw [step, fc16Pdu]
  exact (congrArg _ ran).trans (step_echo (by decide) full)

theorem view_webCmdReg (ctx : WsSession) (inside : addr.toNat < 18)
    (written : s.1.ioWriteHolding addr value s.2 = some s') :
    (WsSession.webCmdReg { ctx with regs := s.1, hooks := s.2 } addr.toNat value.toNat).1.view =
      if addr.toNat = holdingRebootIdx then s else s' := by
  have bound := value.toNat_lt
  unfold WsSession.webCmdReg
  rw [if_neg (by simp only [modbusHoldingRegisterNumbers]; omega)]
  simp only [Int.toNat_natCast, UInt16.ofNat_toNat, written]
  split_ifs
  · rfl
  · rfl
  · rfl

theorem view_ioReg (requests : List ShellRequest) {a v : List Char} (inside : addr.toNat < 18)
    (typed : Shell.parseU32 a = some addr.toNat) (typedValue : Shell.parseU32 v = some value.toNat)
    (written : s.1.ioWriteHolding addr value s.2 = some s') :
    (Shell.ioDispatch ⟨s.1, s.2, requests⟩ ["reg".toList, a, v]).view = s' := by
  have bound := value.toNat_lt
  have dispatched (sh : Shell) : sh.ioDispatch ["reg".toList, a, v] = sh.cmdIoReg [a, v] := by
    simp [Shell.ioDispatch]
  rw [dispatched, Shell.cmdIoReg]
  simp only [typed, typedValue]
  rw [if_neg (by simp only [modbusHoldingRegisterNumbers]; omega), if_neg (by omega)]
  simp only [Shell.regWrite, UInt16.ofNat_toNat, written]
  rfl

/-- A write that leaves no trace at the reboot register is of the value stored there. -/
theorem stored_of_untouched (at_reboot : addr.toNat = holdingRebootIdx)
    (written : s.1.ioWriteHolding addr value s.2 = some s) : s.1.holding[holdingRebootIdx] = value := by
  by_contra new
  have inside : addr.toNat < 18 := by
    rw [at_reboot]
    decide
  have fresh : s.1.holding[addr.toNat] ≠ value := by simpa only [at_reboot] using new
  rw [RegMap.ioWriteHolding_new s.2 inside fresh, Option.some.injEq, Prod.ext_iff] at written
  obtain ⟨regs, hooks⟩ := written
  have zero : s.1.holding[holdingRebootIdx] = 0 := by
    rw [← regs]
    simp only [at_reboot, Vector.getElem_set_self]
    rfl
  have nonzero : value ≠ 0 := fun h => new (zero.trans h.symm)
  have calls := congrArg Hooks.calls hooks
  have fired : RegMap.holdingCalls s.1.holding[14] holdingRebootIdx value = [.historySync, .rebootCold] :=
    if_pos nonzero
  simp [at_reboot, fired] at calls

end Entries

/-- The entry points agree except at the reboot register, where the web command does not go through the
register map; there they agree only on the value already stored. -/
theorem entry_points_alike_iff (s : Regs) (addr : Fin 18) (value : UInt16) :
    (∃ s', AllWrite s (UInt16.ofNat addr) value s') ↔
      ((addr : ℕ) = holdingRebootIdx → s.1.holding[holdingRebootIdx] = value) := by
  have at_addr : (UInt16.ofNat (addr : ℕ)).toNat = addr := by
    rw [UInt16.toNat_ofNat']
    omega
  have inside : (UInt16.ofNat (addr : ℕ)).toNat < 18 := by omega
  obtain ⟨t, written⟩ : ∃ t, s.1.ioWriteHolding (UInt16.ofNat (addr : ℕ)) value s.2 = some t :=
    Option.isSome_iff_exists.1 ((isSome_writeReg s (UInt16.ofNat (addr : ℕ), value)).2 inside)
  constructor
  · rintro ⟨s', all⟩ here
    have modbus : s' = t := by
      have ran := all.fc06 .new (List.replicate mbServerPduMax 0) (List.length_replicate)
      rw [step_fc06 written .new List.length_replicate] at ran
      exact (Option.some.inj ran).symm
    have web : s = s' := by
      have view := all.web .idleSession
      rwa [view_webCmdReg .idleSession inside written, if_pos (at_addr.trans here)] at view
    rw [← modbus, ← web] at written
    exact stored_of_untouched (at_addr.trans here) written
  · intro stored
    refine ⟨t, fun srv out full => step_fc06 written srv full,
      fun srv out full => step_fc16 inside written srv full, fun ctx => ?_,
      fun requests a v typed typedValue => view_ioReg requests inside typed typedValue written⟩
    rw [view_webCmdReg ctx inside written]
    split_ifs with here
    · have same : s.1.holding[(UInt16.ofNat (addr : ℕ)).toNat] = value := by
        simpa only [here] using stored (at_addr.symm.trans here)
      rw [RegMap.ioWriteHolding_same s.2 inside same] at written
      exact Option.some.inj written
    · rfl

/-- A reboot ordered over Modbus syncs the history and reboots; the web command calls no hook. -/
theorem reboot_entries_differ :
    (start 0 0).step (.modbus .new (List.replicate mbServerPduMax 0) (fc06Pdu 0x11 1)) =
      some (RegMap.new 0, ⟨[.historySync, .rebootCold], 0⟩) ∧
    (WsSession.idleSession.webCmdReg 0x11 1).1.view = start 0 0 ∧
    ¬ ∃ s', AllWrite (start 0 0) 0x11 1 s' := by
  have written : (start 0 0).1.ioWriteHolding 0x11 1 (start 0 0).2 =
      some (RegMap.new 0, ⟨[.historySync, .rebootCold], 0⟩) := rfl
  have modbus := step_fc06 written .new (List.length_replicate (n := mbServerPduMax) (a := 0))
  have web : (WsSession.idleSession.webCmdReg 0x11 1).1.view = start 0 0 :=
    view_webCmdReg .idleSession (by decide) written
  refine ⟨modbus, web, ?_⟩
  rintro ⟨s', all⟩
  have after := all.fc06 .new (List.replicate mbServerPduMax 0) List.length_replicate
  rw [modbus, ← all.web .idleSession, Option.some.injEq] at after
  exact absurd (after.trans web) (by decide)

end Regs

end IoEdgeHub
