import IoEdgeHub.Firmware.CfgStorage
import IoEdgeHub.Proto.MbWrites

/-!
# Writes to the register map

`REGS` is written by the Modbus server, the web server, the shell, the UDP commands, the
configuration store, the link monitor and the sampling tasks.  `RegWrite` lists the single writes
that these are made of, so that what each single write keeps holds in every state the firmware can
reach.  `Wrote` is a path of such writes together with the list of those that go to a holding register
by its address; the address of the device, in four of them, changes by the listed writes alone (`Puts`).
-/

namespace IoEdgeHub

open Bytes Relation Run

/-- The register map, and the hook calls its writers have made. -/
abbrev Regs := RegMap × Hooks

/-! ## Single writes -/

/-- The calls that a writer makes without a register behind them. -/
def HookCall.Direct : HookCall → Prop
  | holdingSave | setTimestamp _ => True
  | _ => False

/-- One write, with the hook calls that belong to it. -/
inductive RegWrite (s : Regs) : Regs → Prop
  | holding {addr reg : UInt16} {s' : Regs} (h : s.1.ioWriteHolding addr reg s.2 = some s') : RegWrite s s'
  | doBit {bit : UInt16} {state : Bool} {s' : Regs} (h : s.1.ioWriteDoBit bit state s.2 = some s') :
    RegWrite s s'
  | config (i : ℕ) (h : IsCfgReg i) (v : UInt16) :
    RegWrite s ({ s.1 with holding := s.1.holding.setIfInBounds i v }, s.2)
  | input {addr reg : UInt16} {r : RegMap} (h : s.1.updateInput addr reg = some r) : RegWrite s (r, s.2)
  | linkDown : RegWrite s (s.1.clearDo, s.2.call (.setDo 0))
  | call (c : HookCall) (h : c.Direct) : RegWrite s (s.1, s.2.call c)
  | clock (t : UInt32) : RegWrite s (s.1, { s.2 with nowEpoch := t })

/-- A path of single writes. -/
abbrev RegWrites : Regs → Regs → Prop := ReflTransGen RegWrite

/-! ## The address -/

/-- The static address that `net::setup` gives to the stack. -/
def setupIp (r : RegMap) : Vector UInt8 4 :=
  #v[r.holding[holdingIpOctet1Idx].toUInt8, r.holding[holdingIpOctet1Idx + 1].toUInt8,
    r.holding[holdingIpOctet1Idx + 2].toUInt8, r.holding[holdingIpOctet1Idx + 3].toUInt8]

/-- The sender shares our /24. -/
def sameSubnet24 (r : RegMap) (sender : Vector UInt8 4) : Bool :=
  sender.toList.take 3 =
    [r.holding[holdingIpOctet1Idx].toUInt8, r.holding[holdingIpOctet1Idx + 1].toUInt8,
      r.holding[holdingIpOctet1Idx + 2].toUInt8]

/-- A register write as the address shows it. -/
def putOctet (ip : Vector UInt8 4) (w : UInt16 × UInt16) : Vector UInt8 4 :=
  if holdingIpOctet1Idx ≤ w.1.toNat then ip.setIfInBounds (w.1.toNat - holdingIpOctet1Idx) w.2.toUInt8 else ip

/-- The address changes by these writes and by nothing else. -/
def Puts (ws : List (UInt16 × UInt16)) (s s' : Regs) : Prop := setupIp s'.1 = ws.foldl putOctet (setupIp s.1)

theorem getElem_setupIp (r : RegMap) {i : ℕ} (h : i < 4) (inside : holdingIpOctet1Idx + i < 18) :
    (setupIp r)[i] = r.holding[holdingIpOctet1Idx + i].toUInt8 := by
  match i, h with
  | 0, _ => rfl
  | 1, _ => rfl
  | 2, _ => rfl
  | 3, _ => rfl

theorem getElem_putOctet (ip : Vector UInt8 4) (w : UInt16 × UInt16) {i : ℕ} (h : i < 4) :
    (putOctet ip w)[i] = if w.1.toNat = holdingIpOctet1Idx + i then w.2.toUInt8 else ip[i] := by
  unfold putOctet
  by_cases above : holdingIpOctet1Idx ≤ w.1.toNat
  · rw [if_pos above, Vector.getElem_setIfInBounds]
    exact if_congr (by omega) rfl rfl
  · rw [if_neg above, if_neg (by omega)]

/-- A write of the octet that is there, or of none. -/
theorem putOctet_same {ip : Vector UInt8 4} {w : UInt16 × UInt16}
    (same : ∀ i : Fin 4, w.1.toNat = holdingIpOctet1Idx + i → w.2.toUInt8 = ip.get i) : putOctet ip w = ip := by
  apply Vector.ext
  intro i h
  rw [getElem_putOctet ip w h]
  split_ifs with here
  · exact same ⟨i, h⟩ here
  · rfl

theorem putOctet_elsewhere (ip : Vector UInt8 4) {w : UInt16 × UInt16}
    (elsewhere : ∀ i < 4, w.1.toNat ≠ holdingIpOctet1Idx + i) : putOctet ip w = ip :=
  putOctet_same fun i here => absurd here (elsewhere i i.isLt)

theorem getElem_foldl_putOctet {ws : List (UInt16 × UInt16)} (ip : Vector UInt8 4) {i : ℕ} (h : i < 4)
    (others : ∀ w ∈ ws, w.1.toNat ≠ holdingIpOctet1Idx + i) : (ws.foldl putOctet ip)[i] = ip[i] := by
  induction ws generalizing ip with
  | nil => rfl
  | cons w ws ih =>
    rw [List.foldl_cons, ih _ fun w' mem => others w' (.tail _ mem), getElem_putOctet ip w h,
      if_neg (others w (.head _))]

/-- The writes leave an address as it is exactly if each of them stores the octet that is there. -/
theorem foldl_putOctet_eq_iff {ws : List (UInt16 × UInt16)} (once : (ws.map Prod.fst).Nodup) (ip : Vector UInt8 4) :
    ws.foldl putOctet ip = ip ↔
      ∀ w ∈ ws, ∀ i : Fin 4, w.1.toNat = holdingIpOctet1Idx + i → w.2.toUInt8 = ip.get i := by
  constructor
  · intro same w mem i here
    -- behind this write no other goes to its register
    obtain ⟨before, after, rfl⟩ := List.append_of_mem mem
    have others : ∀ w' ∈ after, w'.1.toNat ≠ holdingIpOctet1Idx + i := by
      intro w' later clash
      have apart := (List.nodup_append.1 (List.map_append ▸ once)).2.1
      rw [List.map_cons, List.nodup_cons] at apart
      exact apart.1 (List.mem_map.2 ⟨w', later, UInt16.toNat_inj.1 (clash.trans here.symm)⟩)
    have last : (_ : Vector UInt8 4)[(i : ℕ)] = ip[(i : ℕ)] := congrArg (·[(i : ℕ)]) same
    rw [List.foldl_append, List.foldl_cons, getElem_foldl_putOctet _ i.isLt others, getElem_putOctet _ w i.isLt,
      if_pos here] at last
    exact last
  · intro each
    clear once
    induction ws with
    | nil => rfl
    | cons w ws ih =>
      rw [List.foldl_cons, putOctet_same (each w (.head _))]
      exact ih fun w' mem => each w' (.tail _ mem)

namespace Puts

variable {s s' s'' : Regs} {ws ws' : List (UInt16 × UInt16)}

theorem refl (s : Regs) : Puts [] s s := rfl

theorem append (first : Puts ws s s') (second : Puts ws' s' s'') : Puts (ws ++ ws') s s'' := by
  rw [Puts, second, first, List.foldl_append]

theorem kept (first : Puts ws s s') (second : Puts [] s' s'') : Puts ws s s'' := Eq.trans second first

theorem of_holding
    (octets : ∀ (i : ℕ) (h : i < 4) (inside : holdingIpOctet1Idx + i < 18),
      s'.1.holding[holdingIpOctet1Idx + i].toUInt8 = (ws.foldl putOctet (setupIp s.1))[i]) : Puts ws s s' := by
  apply Vector.ext
  intro i h
  have inside : holdingIpOctet1Idx + i < 18 := by
    simp only [holdingIpOctet1Idx]
    omega
  rw [getElem_setupIp _ h inside]
  exact octets i h inside

theorem set {w : UInt16 × UInt16} {v : UInt16} (inside : w.1.toNat < 18)
    (stored : ∀ i < 4, w.1.toNat = holdingIpOctet1Idx + i → v = w.2)
    (regs : s'.1 = { s.1 with holding := s.1.holding.set w.1.toNat v }) : Puts [w] s s' := by
  apply of_holding
  intro i h bound
  simp only [regs, List.foldl_cons, List.foldl_nil, getElem_putOctet _ w h, getElem_setupIp _ h bound,
    Vector.getElem_set]
  split_ifs with here
  · rw [stored i h here]
  · rfl

/-- A write to a register that is not one of the address. -/
theorem elsewhere {i : ℕ} (inside : i < 18) (away : i < holdingIpOctet1Idx ∨ holdingIpOctet4Idx < i) {v : UInt16}
    (regs : s'.1 = { s.1 with holding := s.1.holding.set i v }) : Puts [] s s' := by
  apply of_holding
  intro j h bound
  have apart : i ≠ holdingIpOctet1Idx + j := by
    simp only [holdingIpOctet1Idx, holdingIpOctet4Idx] at away ⊢
    omega
  simp only [regs, List.foldl_nil, getElem_setupIp _ h bound, Vector.getElem_set, if_neg apart]

theorem holding {addr reg : UInt16} (written : s.1.ioWriteHolding addr reg s.2 = some s') :
    Puts [(addr, reg)] s s' := by
  have inside : addr.toNat < 18 := (isSome_writeReg s (addr, reg)).1 (Option.isSome_iff_exists.2 ⟨s', written⟩)
  by_cases same : s.1.holding[addr.toNat] = reg
  · rw [RegMap.ioWriteHolding_same s.2 inside same] at written
    obtain rfl := Option.some.inj written
    refine set (v := reg) inside (fun _ _ _ => rfl) ?_
    rw [← same, Vector.set_getElem_self]
  · rw [RegMap.ioWriteHolding_new s.2 inside same] at written
    obtain rfl := Option.some.inj written
    refine set inside (fun i h here => ?_) rfl
    rw [RegMap.heldValue, if_neg]
    simp only [holdingIpOctet1Idx, holdingConfigSaveIdx, holdingRebootIdx] at here ⊢
    omega

theorem doBit {bit : UInt16} {state : Bool} (written : s.1.ioWriteDoBit bit state s.2 = some s') : Puts [] s s' := by
  unfold RegMap.ioWriteDoBit at written
  split at written
  · cases written
  rw [← Option.some.inj written]
  exact elsewhere (by decide) (.inl (by decide)) rfl

theorem offered (s : Regs) (w : UInt16 × UInt16) : Puts [w] s ((s.1.ioWriteHolding w.1 w.2 s.2).getD s) := by
  cases written : s.1.ioWriteHolding w.1 w.2 s.2 with
  | some s' => exact holding written
  | none =>
    have outside : ¬w.1.toNat < 18 := by
      rw [← isSome_writeReg s w, writeReg, written]
      decide
    refine (putOctet_elsewhere _ fun i h here => ?_).symm
    simp only [holdingIpOctet1Idx] at here
    omega

end Puts

/-! ## Listed writes -/

/-- A path of single writes, and those of them that go to a holding register by its address. -/
structure Wrote (ws : List (UInt16 × UInt16)) (s s' : Regs) : Prop where
  path : RegWrites s s'
  puts : Puts ws s s'

namespace Wrote

variable {s s' s'' : Regs} {ws ws' : List (UInt16 × UInt16)}

theorem refl (s : Regs) : Wrote [] s s := ⟨.refl, rfl⟩

theorem of_eq (same : s' = s) : Wrote [] s s' := same ▸ refl s

theorem append (first : Wrote ws s s') (second : Wrote ws' s' s'') : Wrote (ws ++ ws') s s'' :=
  ⟨first.path.trans second.path, first.puts.append second.puts⟩

theorem kept (first : Wrote ws s s') (second : Wrote [] s' s'') : Wrote ws s s'' :=
  ⟨first.path.trans second.path, first.puts.kept second.puts⟩

theorem holding {addr reg : UInt16} (written : s.1.ioWriteHolding addr reg s.2 = some s') :
    Wrote [(addr, reg)] s s' := ⟨.single (.holding written), .holding written⟩

theorem doBit {bit : UInt16} {state : Bool} (written : s.1.ioWriteDoBit bit state s.2 = some s') :
    Wrote [] s s' := ⟨.single (.doBit written), .doBit written⟩

theorem call (s : Regs) {c : HookCall} (direct : c.Direct) : Wrote [] s (s.1, s.2.call c) :=
  ⟨.single (.call c direct), rfl⟩

theorem offered (s : Regs) (w : UInt16 × UInt16) : Wrote [w] s ((s.1.ioWriteHolding w.1 w.2 s.2).getD s) := by
  refine ⟨?_, .offered s w⟩
  cases written : s.1.ioWriteHolding w.1 w.2 s.2 with
  | none => exact .refl
  | some s' => exact .single (.holding written)

theorem offeredBit (s : Regs) (bit : UInt16) (state : Bool) :
    Wrote [] s ((s.1.ioWriteDoBit bit state s.2).getD s) := by
  cases written : s.1.ioWriteDoBit bit state s.2 with
  | none => exact refl s
  | some s' => exact doBit written

theorem config (s : Regs) {p : ℕ × UInt16} (cfg : IsCfgReg p.1) :
    Wrote [(UInt16.ofNat p.1, p.2)] s ({ s.1 with holding := s.1.holding.setIfInBounds p.1 p.2 }, s.2) := by
  have bound : p.1 < 18 := Nat.lt_of_le_of_lt cfg.2 (by decide)
  have index : (UInt16.ofNat p.1).toNat = p.1 := UInt16.toNat_ofNat_of_lt' (Nat.lt_trans bound (by decide))
  refine ⟨.single (.config p.1 cfg p.2), .set (v := p.2) (index.symm ▸ bound) (fun _ _ _ => rfl) ?_⟩
  simp [index, Vector.setIfInBounds, Vector.set, Array.setIfInBounds, bound]

/-- Writes made one after the other, in a state that shows the registers. -/
theorem foldl {σ α : Type} (view : σ → Regs) {f : σ → α → σ} (w : α → UInt16 × UInt16) (as : List α)
    (each : ∀ s, ∀ a ∈ as, Wrote [w a] (view s) (view (f s a))) (s : σ) :
    Wrote (as.map w) (view s) (view (as.foldl f s)) := by
  induction as generalizing s with
  | nil => exact refl _
  | cons a as ih =>
    have rest := ih (fun s b mem => each s b (List.mem_cons_of_mem a mem)) (f s a)
    exact (each s a List.mem_cons_self).append rest

end Wrote

end IoEdgeHub
