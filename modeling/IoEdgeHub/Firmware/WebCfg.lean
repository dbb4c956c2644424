import IoEdgeHub.Firmware.WsUpload

/-!
# The web configuration (`web_cmd_cfg` in `httpd.rs`)

The fields of a command are checked and written one after the other; an invalid one ends the command
when those before it are already written.  `cfgPlan` is what a command asks for, without a session:
the writes in their order and the error it ends with.  `webCmdCfg_eq` shows that the command carries out
its plan.
-/

namespace IoEdgeHub

open Text

/-- Register writes, and the error after them. -/
structure CfgPlan where
  writes : List (UInt16 × UInt16)
  err : Option String
deriving DecidableEq, Repr

namespace CfgPlan

/-- Writes in front of a plan. -/
def before (writes : List (UInt16 × UInt16)) (p : CfgPlan) : CfgPlan := { p with writes := writes ++ p.writes }

/-- The write of a field, if its value fits a register. -/
def fieldWrite (idx : ℕ) (v : ℤ) : List (UInt16 × UInt16) :=
  if 0 ≤ v ∧ v ≤ 0xFFFF then [(UInt16.ofNat idx, UInt16.ofNat v.toNat)] else []

/-- What the numeric fields ask for. -/
def fields (body : List UInt8) : List (String × (ℤ → Bool) × ℕ × String) → Option CfgPlan
  | [] => some ⟨[], none⟩
  | (key, valid, idx, err) :: rest => do
    match ← jsonGetI32 body key with
    | none => fields body rest
    | some v =>
      if valid v then return (← fields body rest).before (fieldWrite idx v) else return ⟨[], some err⟩

/-- The writes of an address. -/
def ipWrites (oct : Vector UInt8 4) : List (UInt16 × UInt16) :=
  (List.finRange 4).map fun i : Fin 4 => (UInt16.ofNat (holdingIpOctet1Idx + i), (oct.get i).toUInt16)

end CfgPlan

open CfgPlan

/-- What a command asks for. -/
def cfgPlan (body : List UInt8) : Option CfgPlan := do
  match ← jsonGetStr body "ip" with
  | none => fields body WsSession.cfgFieldTable
  | some ip =>
    match fromUtf8 ip with
    | none => return ⟨[], none⟩
    | some text =>
      match WsSession.parseIp text with
      | none => return ⟨[], some "invalid ip"⟩
      | some oct =>
        if !WsSession.octetsValid oct.toList then return ⟨[], some "invalid ip"⟩
        else return (← fields body WsSession.cfgFieldTable).before (ipWrites oct)

namespace WsSession

/-- One write of a plan. -/
def store (s : WsSession) (w : UInt16 × UInt16) : WsSession :=
  (s.commit (s.regs.ioWriteHolding w.1 w.2 s.hooks)).1

/-- A session after a plan. -/
def carryOut (s : WsSession) (p : CfgPlan) : WsSession × Option String := (p.writes.foldl store s, p.err)

theorem carryOut_before (s : WsSession) (ws : List (UInt16 × UInt16)) (p : CfgPlan) :
    s.carryOut (p.before ws) = (ws.foldl store s).carryOut p := by
  simp [carryOut, CfgPlan.before, List.foldl_append]

/-! ## The command carries out its plan -/

/-- Outside the trigger `web_cmd_reg` is a plain write. -/
theorem webCmdReg_eq (s : WsSession) {idx : ℕ} (inside : idx < 18) (other : idx ≠ holdingRebootIdx) (v : ℤ) :
    (s.webCmdReg idx v).1 = (fieldWrite idx v).foldl store s := by
  have range : (0 ≤ (idx : ℤ) ∧ (idx : ℤ) < (modbusHoldingRegisterNumbers : ℤ)) := by
    simp only [modbusHoldingRegisterNumbers]
    omega
  unfold webCmdReg fieldWrite
  by_cases fits : 0 ≤ v ∧ v ≤ 0xFFFF
  · rw [if_neg (by simp [range, fits]), if_neg (by simpa using other), if_pos fits]
    rfl
  · rw [if_pos (.inr fits), if_neg fits]
    rfl

theorem cfgFields_eq (body : List UInt8) {table : List (String × (ℤ → Bool) × ℕ × String)}
    (plain : ∀ f ∈ table, f.2.2.1 < 18 ∧ f.2.2.1 ≠ holdingRebootIdx) (s : WsSession) :
    s.cfgFields body table = (fields body table).map s.carryOut := by
  induction table generalizing s with
  | nil => rfl
  | cons f rest ih =>
    obtain ⟨key, valid, idx, err⟩ := f
    obtain ⟨inside, other⟩ := plain _ (List.mem_cons_self ..)
    have later := ih fun f mem => plain f (List.mem_cons_of_mem _ mem)
    rw [cfgFields, fields, cfgField]
    rcases jsonGetI32 body key with _ | _ | v
    · rfl
    · exact later s
    · simp only [Option.bind_eq_bind, Option.bind_some]
      by_cases ok : valid v = true
      · simp only [ok, if_true, Option.pure_def, Option.bind_some, webCmdReg_eq s inside other, later]
        rcases fields body rest with _ | p
        · rfl
        · simp [carryOut_before]
      · simp only [ok, Option.pure_def, Option.bind_some]
        rfl

theorem foldl_ipWrites (s : WsSession) (oct : Vector UInt8 4) :
    (ipWrites oct).foldl store s = (List.finRange 4).foldl (fun (s : WsSession) (i : Fin 4) =>
      (s.commit (s.regs.ioWriteHolding (UInt16.ofNat (holdingIpOctet1Idx + i)) (oct.get i).toUInt16 s.hooks)).1)
      s := by
  rw [ipWrites, List.foldl_map]
  rfl

theorem webCmdCfg_eq (s : WsSession) (body : List UInt8) : s.webCmdCfg body = (cfgPlan body).map s.carryOut := by
  have plain : ∀ f ∈ cfgFieldTable, f.2.2.1 < 18 ∧ f.2.2.1 ≠ holdingRebootIdx := by
    simp [cfgFieldTable, holdingRs485BaudrateIdx, holdingSlaveIdIdx, holdingCanBaudrateIdx, holdingCanIdIdx,
      holdingRebootIdx]
  unfold webCmdCfg cfgPlan
  rcases jsonGetStr body "ip" with _ | _ | ip
  · rfl
  · exact cfgFields_eq body plain s
  · simp only [Option.bind_eq_bind, Option.bind_some]
    rcases fromUtf8 ip with _ | text
    · rfl
    dsimp only
    rcases parseIp text with _ | oct
    · rfl
    dsimp only
    split
    · rfl
    · rw [cfgFields_eq body plain, ← foldl_ipWrites]
      rcases fields body cfgFieldTable with _ | p
      · simp only [Option.map_none, Option.bind_none]
      · exact congrArg some (carryOut_before s (ipWrites oct) p).symm

/-! ## The registers of a plan -/

/-- The configuration registers: the CAN id to the last octet of the address. -/
def IsConfig (w : UInt16 × UInt16) : Prop := 6 ≤ w.1.toNat ∧ w.1.toNat ≤ 13

theorem heldValue_config {a : ℕ} (low : 6 ≤ a) (high : a ≤ 13) (value : UInt16) : RegMap.heldValue a value = value := by
  rw [RegMap.heldValue, if_neg]
  simp only [holdingConfigSaveIdx, holdingRebootIdx]
  omega

/-- A configuration register holds what it is given, and no hook belongs to it. -/
theorem ioWriteHolding_config (r : RegMap) (hooks : Hooks) {addr : UInt16} (low : 6 ≤ addr.toNat)
    (high : addr.toNat ≤ 13) (value : UInt16) :
    r.ioWriteHolding addr value hooks =
      some ({ r with holding := r.holding.set addr.toNat value (Nat.lt_of_le_of_lt high (by decide)) }, hooks) := by
  have inside : addr.toNat < 18 := Nat.lt_of_le_of_lt high (by decide)
  by_cases same : r.holding[addr.toNat] = value
  · rw [RegMap.ioWriteHolding_same hooks inside same, ← same, Vector.set_getElem_self]
  · have quiet : RegMap.holdingCalls r.holding[14] addr.toNat value = [] := by
      generalize addr.toNat = i at low high
      interval_cases i <;> rfl
    rw [RegMap.ioWriteHolding_new hooks inside same, heldValue_config low high, quiet, List.append_nil]

theorem store_config (s : WsSession) {w : UInt16 × UInt16} (config : IsConfig w) :
    s.store w = { s with regs := { s.regs with
      holding := s.regs.holding.set w.1.toNat w.2 (Nat.lt_of_le_of_lt config.2 (by decide)) } } := by
  rw [store, ioWriteHolding_config _ _ config.1 config.2]
  rfl

variable {p : CfgPlan} {ws : List (UInt16 × UInt16)} {body : List UInt8}

theorem foldl_store_hooks (config : ∀ w ∈ ws, IsConfig w) (s : WsSession) :
    (ws.foldl store s).hooks = s.hooks := by
  induction ws generalizing s with
  | nil => rfl
  | cons w ws ih =>
    rw [List.foldl_cons, ih fun v mem => config v (List.mem_cons_of_mem _ mem), store_config s (config w (.head _))]

theorem foldl_store_same (config : ∀ w ∈ ws, IsConfig w) {s : WsSession}
    (same : ∀ w ∈ ws, s.regs.getHolding w.1 = w.2) : ws.foldl store s = s := by
  induction ws with
  | nil => rfl
  | cons w ws ih =>
    have inside : w.1.toNat < 18 := Nat.lt_of_le_of_lt (config w (.head _)).2 (by decide)
    have held : s.regs.holding[w.1.toNat] = w.2 := by
      simpa [RegMap.getHolding, inside] using same w (.head _)
    rw [List.foldl_cons, store_config s (config w (.head _)), ← held, Vector.set_getElem_self]
    exact ih (fun v mem => config v (List.mem_cons_of_mem _ mem)) fun v mem => same v (List.mem_cons_of_mem _ mem)

theorem foldl_store_other (config : ∀ w ∈ ws, IsConfig w) {a : UInt16}
    (other : a ∉ ws.map (·.1)) (s : WsSession) : (ws.foldl store s).regs.getHolding a = s.regs.getHolding a := by
  induction ws generalizing s with
  | nil => rfl
  | cons w ws ih =>
    rw [List.map_cons, List.mem_cons, not_or] at other
    have apart : w.1.toNat ≠ a.toNat := fun h => other.1 (UInt16.toNat_inj.mp h).symm
    rw [List.foldl_cons, ih (fun v mem => config v (List.mem_cons_of_mem _ mem)) other.2,
      store_config s (config w (.head _))]
    simp only [RegMap.getHolding, Vector.getElem?_set_ne _ apart]

theorem foldl_store_written (config : ∀ w ∈ ws, IsConfig w)
    (once : (ws.map (·.1)).Nodup) {w : UInt16 × UInt16} (mem : w ∈ ws) (s : WsSession) :
    (ws.foldl store s).regs.getHolding w.1 = w.2 := by
  induction ws generalizing s with
  | nil => cases mem
  | cons v ws ih =>
    have config' : ∀ w ∈ ws, IsConfig w := fun u mem => config u (List.mem_cons_of_mem _ mem)
    rw [List.map_cons, List.nodup_cons] at once
    rw [List.foldl_cons]
    rcases List.mem_cons.mp mem with rfl | later
    · rw [foldl_store_other config' once.1, store_config s (config w (.head _))]
      have inside : w.1.toNat < 18 := Nat.lt_of_le_of_lt (config w (.head _)).2 (by decide)
      simp [RegMap.getHolding]
    · exact ih config' once.2 later _

/-! ## The cases of a plan -/

/-- The plan of a field and those after it. -/
inductive FieldCase (body : List UInt8) (key : String) (valid : ℤ → Bool) (idx : ℕ) (err : String)
    (rest : List (String × (ℤ → Bool) × ℕ × String)) : CfgPlan → Prop
  | absent {p : CfgPlan} (getter : jsonGetI32 body key = some none) (tail : fields body rest = some p) :
    FieldCase body key valid idx err rest p
  | valid {v : ℤ} {q : CfgPlan} (getter : jsonGetI32 body key = some (some v)) (ok : valid v = true)
    (tail : fields body rest = some q) : FieldCase body key valid idx err rest (q.before (fieldWrite idx v))
  | invalid {v : ℤ} (getter : jsonGetI32 body key = some (some v)) : FieldCase body key valid idx err rest
    ⟨[], some err⟩

theorem fields_cons {key : String} {valid : ℤ → Bool} {idx : ℕ} {err : String}
    {rest : List (String × (ℤ → Bool) × ℕ × String)} (h : fields body ((key, valid, idx, err) :: rest) = some p) :
    FieldCase body key valid idx err rest p := by
  rw [fields] at h
  rcases getter : jsonGetI32 body key with _ | _ | v
  · simp [getter] at h
  · simp only [getter, Option.bind_eq_bind, Option.bind_some] at h
    exact .absent getter h
  · simp only [getter, Option.bind_eq_bind, Option.bind_some] at h
    split at h
    case isTrue ok =>
      rcases tail : fields body rest with _ | q
      · simp [tail] at h
      · simp only [tail, Option.bind_some, Option.pure_def, Option.some.injEq] at h
        exact h ▸ .valid getter ok tail
    case isFalse =>
      cases h
      exact .invalid getter

/-- The plan of a command. -/
inductive PlanCase (body : List UInt8) : CfgPlan → Prop
  | numeric {p : CfgPlan} (getter : jsonGetStr body "ip" = some none) (tail : fields body cfgFieldTable = some p) :
    PlanCase body p
  | undecoded {ip : List UInt8} (getter : jsonGetStr body "ip" = some (some ip)) (bad : fromUtf8 ip = none) :
    PlanCase body ⟨[], none⟩
  | invalid {ip : List UInt8} (getter : jsonGetStr body "ip" = some (some ip)) : PlanCase body ⟨[], some "invalid ip"⟩
  | address {ip : List UInt8} {text : List Char} {oct : Vector UInt8 4} {q : CfgPlan}
    (getter : jsonGetStr body "ip" = some (some ip)) (decoded : fromUtf8 ip = some text)
    (parsed : parseIp text = some oct)
    (tail : fields body cfgFieldTable = some q) : PlanCase body (q.before (ipWrites oct))

theorem cfgPlan_case (h : cfgPlan body = some p) : PlanCase body p := by
  unfold cfgPlan at h
  rcases getter : jsonGetStr body "ip" with _ | _ | ip
  · simp [getter] at h
  · simp only [getter, Option.bind_eq_bind, Option.bind_some] at h
    exact .numeric getter h
  simp only [getter, Option.bind_eq_bind, Option.bind_some] at h
  rcases decoded : fromUtf8 ip with _ | text
  · simp only [decoded] at h
    cases h
    exact .undecoded getter decoded
  rcases parsed : parseIp text with _ | oct
  · simp only [decoded, parsed] at h
    cases h
    exact .invalid getter
  simp only [decoded, parsed] at h
  split at h
  · cases h
    exact .invalid getter
  · rcases tail : fields body cfgFieldTable with _ | q
    · simp [tail] at h
    · simp only [tail, Option.bind_some, Option.pure_def, Option.some.injEq] at h
      exact h ▸ .address getter decoded parsed tail

/-! ## A command that fails -/

theorem fields_addrs (body : List UInt8) {table : List (String × (ℤ → Bool) × ℕ × String)}
    (h : fields body table = some p) :
    (p.writes.map (·.1)).Sublist (table.map fun f => UInt16.ofNat f.2.2.1) := by
  induction table generalizing p with
  | nil =>
    cases h
    exact .slnil
  | cons f rest ih =>
    cases fields_cons h with
    | absent _ tail => exact (ih tail).cons _
    | valid _ _ tail =>
      simp only [CfgPlan.before, List.map_append, List.map_cons]
      unfold fieldWrite
      split
      · exact (ih tail).cons_cons _
      · exact (ih tail).cons _
    | invalid => exact List.nil_sublist _

/-- The registers a plan may write, each at most once. -/
def configAddrs : List UInt16 := [10, 11, 12, 13, 8, 9, 7, 6]

theorem cfgPlan_addrs (h : cfgPlan body = some p) :
    (p.writes.map (·.1)).Sublist configAddrs := by
  have numeric : cfgFieldTable.map (fun f => UInt16.ofNat f.2.2.1) = [8, 9, 7, 6] := rfl
  have address (oct : Vector UInt8 4) : (ipWrites oct).map (·.1) = [10, 11, 12, 13] := rfl
  cases cfgPlan_case h with
  | numeric _ tail => exact (numeric ▸ fields_addrs body tail).trans (List.sublist_append_right [10, 11, 12, 13] _)
  | undecoded => exact List.nil_sublist _
  | invalid => exact List.nil_sublist _
  | address _ _ _ tail =>
    rw [CfgPlan.before, List.map_append, address]
    exact (numeric ▸ fields_addrs body tail).append_left [10, 11, 12, 13]

theorem cfgPlan_config (h : cfgPlan body = some p) : ∀ w ∈ p.writes, IsConfig w := by
  have all : ∀ a ∈ configAddrs, 6 ≤ a.toNat ∧ a.toNat ≤ 13 := by simp [configAddrs]
  exact fun w mem => all w.1 ((cfgPlan_addrs h).subset (List.mem_map_of_mem mem))

/-- A command that fails calls no hook, and leaves the registers as they were exactly if the fields before the
invalid one ask for what they hold already. -/
theorem webCmdCfg_failed {s s' : WsSession} {body : List UInt8} {err : String}
    (failed : s.webCmdCfg body = some (s', some err)) :
    s'.hooks = s.hooks ∧
      (s'.regs = s.regs ↔ ∃ p ∈ cfgPlan body, ∀ w ∈ p.writes, s.regs.getHolding w.1 = w.2) := by
  rw [webCmdCfg_eq, Option.map_eq_some_iff] at failed
  obtain ⟨p, plan, ran⟩ := failed
  have after : p.writes.foldl store s = s' := congrArg Prod.fst ran
  have config := cfgPlan_config plan
  refine ⟨after ▸ foldl_store_hooks config s, fun same => ⟨p, plan, fun w mem => ?_⟩, ?_⟩
  · have once : (p.writes.map (·.1)).Nodup := (cfgPlan_addrs plan).nodup (by decide)
    rw [← same, ← after]
    exact foldl_store_written config once mem s
  · rintro ⟨q, plan', same⟩
    obtain rfl : p = q := Option.some.inj (plan.symm.trans plan')
    rw [← after, foldl_store_same config same]

/-- A body with a slave id and a CAN id that is out of its range. -/
def badCanId (sid : String) : List UInt8 := utf8 ("\x7b\"sid\":" ++ sid ++ ",\"can_id\":0\x7d")

theorem webCmdCfg_failed_held :
    ∃ s', idleSession.webCmdCfg (badCanId "1") = some (s', some "invalid can id") ∧
      s'.hooks = idleSession.hooks ∧ s'.regs = idleSession.regs := by
  have ends : (idleSession.webCmdCfg (badCanId "1")).map (·.2) = some (some "invalid can id") := rfl
  have plan : cfgPlan (badCanId "1") = some ⟨[(9, 1)], some "invalid can id"⟩ := rfl
  have held : ∀ w ∈ [((9 : UInt16), (1 : UInt16))], idleSession.regs.getHolding w.1 = w.2 := by
    rintro w (_ | ⟨_, ⟨⟩⟩)
    rfl
  obtain ⟨⟨s', _⟩, ran, rfl⟩ := Option.map_eq_some_iff.1 ends
  obtain ⟨hooks, regs⟩ := webCmdCfg_failed ran
  exact ⟨s', ran, hooks, regs.2 ⟨_, plan, held⟩⟩

/-- The slave id is changed by a command that is refused for its CAN id. -/
theorem refused_cfg_sets_slave_id :
    ∃ s', idleSession.webCmdCfg (badCanId "7") = some (s', some "invalid can id") ∧
      idleSession.regs.getHolding 9 = 1 ∧ s'.regs.getHolding 9 = 7 := by
  have ends : (idleSession.webCmdCfg (badCanId "7")).map (fun r => (r.1.regs.getHolding 9, r.2)) =
      some (7, some "invalid can id") := rfl
  obtain ⟨⟨s', _⟩, ran, shown⟩ := Option.map_eq_some_iff.1 ends
  obtain ⟨sid, rfl⟩ := Prod.mk.inj shown
  exact ⟨s', ran, rfl, sid⟩

end WsSession

end IoEdgeHub
