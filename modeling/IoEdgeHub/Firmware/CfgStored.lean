import IoEdgeHub.Firmware.Shell
import IoEdgeHub.Firmware.WebCfg

/-!
# Acknowledged configuration values

The ranges of the configuration commands are those of 32-bit numbers, the registers have 16 bits.  A
command that reports success has stored what it was given, except for a baud rate above `0xFFFF`, which
the web command drops and the shell cuts to 16 bits, and for an address that is not UTF-8, which ends the
web command before it has stored anything.
-/

namespace IoEdgeHub

open Text CfgPlan

namespace WsSession

/-! ## The web command -/

/-- The registers hold every value the getters find in the body. -/
structure CfgStored (body : List UInt8) (r : RegMap) : Prop where
  ip : ∀ ip, jsonGetStr body "ip" = some (some ip) → ∃ text oct, fromUtf8 ip = some text ∧
    parseIp text = some oct ∧ ∀ i : Fin 4, r.getHolding (UInt16.ofNat (holdingIpOctet1Idx + i)) = (oct.get i).toUInt16
  numeric : ∀ f ∈ cfgFieldTable, ∀ v, jsonGetI32 body f.1 = some (some v) →
    ((r.getHolding (UInt16.ofNat f.2.2.1)).toNat : ℤ) = v

/-- A plan without an error has found every value valid, and writes it if it fits. -/
theorem fields_writes (body : List UInt8) {table : List (String × (ℤ → Bool) × ℕ × String)} {p : CfgPlan}
    (h : fields body table = some p) (good : p.err = none) {f : String × (ℤ → Bool) × ℕ × String} (mem : f ∈ table)
    {v : ℤ} (got : jsonGetI32 body f.1 = some (some v)) :
    f.2.1 v = true ∧ ∀ w ∈ fieldWrite f.2.2.1 v, w ∈ p.writes := by
  induction table generalizing p with
  | nil => cases mem
  | cons g rest ih =>
    cases fields_cons h with
    | absent getter tail =>
      rcases List.mem_cons.1 mem with rfl | later
      · exact absurd (getter.symm.trans got) (by simp)
      · exact ih tail good later
    | valid getter ok tail =>
      rcases List.mem_cons.1 mem with rfl | later
      · obtain rfl := Option.some.inj (Option.some.inj (getter.symm.trans got))
        exact ⟨ok, fun w mem => List.mem_append_left _ mem⟩
      · obtain ⟨ok', written⟩ := ih tail good later
        exact ⟨ok', fun w mem => List.mem_append_right _ (written w mem)⟩
    | invalid => cases good

/-- The valid values of a field are not negative, and only those of the baud rate may be too large. -/
theorem cfgFieldTable_valid {f : String × (ℤ → Bool) × ℕ × String} (mem : f ∈ cfgFieldTable) {v : ℤ}
    (valid : f.2.1 v = true) : 0 ≤ v ∧ (f.1 = "rs485" ∨ v ≤ 0xFFFF) := by
  simp only [cfgFieldTable, List.mem_cons, List.not_mem_nil, or_false] at mem
  rcases mem with rfl | rfl | rfl | rfl <;> simp at valid <;> simp <;> omega

/-- A plan without an error has all the writes of the address and of the numeric fields, if the address is text. -/
theorem cfgPlan_writes {body : List UInt8} {p : CfgPlan} (h : cfgPlan body = some p) (good : p.err = none)
    (isText : ∀ ip, jsonGetStr body "ip" = some (some ip) → (fromUtf8 ip).isSome = true) :
    (∀ ip, jsonGetStr body "ip" = some (some ip) → ∃ text oct, fromUtf8 ip = some text ∧ parseIp text = some oct ∧
      ∀ w ∈ ipWrites oct, w ∈ p.writes) ∧
    ∃ q, fields body cfgFieldTable = some q ∧ q.err = none ∧ ∀ w ∈ q.writes, w ∈ p.writes := by
  cases cfgPlan_case h with
  | numeric getter tail => exact ⟨by simp [getter], p, tail, good, fun _ mem => mem⟩
  | undecoded getter bad =>
    have text := isText _ getter
    rw [bad] at text
    cases text
  | invalid => cases good
  | address getter decoded parsed tail =>
    refine ⟨?_, _, tail, good, fun w mem => List.mem_append_right _ mem⟩
    intro ip got
    obtain rfl := Option.some.inj (Option.some.inj (getter.symm.trans got))
    exact ⟨_, _, decoded, parsed, fun w mem => List.mem_append_left _ mem⟩

theorem webCmdCfg_acknowledged {s s' : WsSession} {body : List UInt8} (ran : s.webCmdCfg body = some (s', none)) :
    CfgStored body s'.regs ↔
      (∀ ip, jsonGetStr body "ip" = some (some ip) → (fromUtf8 ip).isSome = true) ∧
      ∀ v, jsonGetI32 body "rs485" = some (some v) → v ≤ 0xFFFF := by
  constructor
  · intro stored
    refine ⟨fun ip got => ?_, fun v got => ?_⟩
    · obtain ⟨text, _, decoded, -⟩ := stored.ip ip got
      rw [decoded]
      rfl
    · have baud : ((s'.regs.getHolding (UInt16.ofNat holdingRs485BaudrateIdx)).toNat : ℤ) = v :=
        stored.numeric _ (List.mem_cons_self ..) v got
      have := (s'.regs.getHolding (UInt16.ofNat holdingRs485BaudrateIdx)).toNat_lt
      omega
  · rintro ⟨isText, small⟩
    rw [webCmdCfg_eq, Option.map_eq_some_iff] at ran
    obtain ⟨p, plan, ended⟩ := ran
    obtain ⟨after, good⟩ := Prod.mk.inj ended
    have config := cfgPlan_config plan
    have once : (p.writes.map (·.1)).Nodup := (cfgPlan_addrs plan).nodup (by decide)
    have held {w : UInt16 × UInt16} (mem : w ∈ p.writes) : s'.regs.getHolding w.1 = w.2 :=
      after ▸ foldl_store_written config once mem s
    obtain ⟨address, q, numeric, fine, sub⟩ := cfgPlan_writes plan good isText
    refine ⟨fun ip got => ?_, fun f mem v got => ?_⟩
    · obtain ⟨text, oct, decoded, parsed, written⟩ := address ip got
      refine ⟨text, oct, decoded, parsed, fun i => ?_⟩
      exact held (written _ (List.mem_map_of_mem (List.mem_finRange i)))
    · obtain ⟨valid, written⟩ := fields_writes body numeric fine mem got
      obtain ⟨nonneg, range⟩ := cfgFieldTable_valid mem valid
      have fits : v ≤ 0xFFFF := range.elim (fun rs485 => small v (rs485 ▸ got)) id
      have stored := held (sub _
        (written _ (by rw [fieldWrite, if_pos ⟨nonneg, fits⟩]; exact List.mem_singleton_self _)))
      rw [stored, UInt16.toNat_ofNat', Nat.mod_eq_of_lt (by omega)]
      omega

end WsSession

namespace Shell

/-! ## The shell -/

/-- The parameter commands of the shell. -/
def paramTables : List (String × List (String × (ℕ → Bool) × ℕ)) := [("rs485", rs485Table), ("can", canTable)]

theorem regWrite_config (s : Shell) {addr : UInt16} (low : 6 ≤ addr.toNat) (high : addr.toNat ≤ 13) (value : UInt16) :
    (s.regWrite addr value).1 = { s with regs := { s.regs with
      holding := s.regs.holding.set addr.toNat value (Nat.lt_of_le_of_lt high (by decide)) } } := by
  rw [regWrite, WsSession.ioWriteHolding_config _ _ low high]
  rfl

/-- A configuration register holds what it is given. -/
theorem regWrite_held (s : Shell) {addr : UInt16} (low : 6 ≤ addr.toNat) (high : addr.toNat ≤ 13) (value : UInt16) :
    (s.regWrite addr value).1.regs.getHolding addr = value := by
  rw [regWrite_config s low high]
  simp [RegMap.getHolding]

/-- The number that an accepted parameter command leaves in its register. -/
theorem dispatch_param (s : Shell) {line : List UInt8} {cmd : String} {table : List (String × (ℕ → Bool) × ℕ)}
    (known : (cmd, table) ∈ paramTables) {e : String × (ℕ → Bool) × ℕ} (entry : e ∈ table) {val : List Char}
    {more : List (List Char)} (words : argv line = "io".toList :: cmd.toList :: e.1.toList :: val :: more) {v : ℕ}
    (typed : parseU32 val = some v) (valid : e.2.1 v = true) :
    (s.dispatch line).regs.getHolding (UInt16.ofNat e.2.2) = UInt16.ofNat v := by
  have command : s.dispatch line = s.ioParam table (e.1.toList :: val :: more) ∧
      table.find? (fun f => f.1.toList = e.1.toList) = some e ∧
      6 ≤ (UInt16.ofNat e.2.2).toNat ∧ (UInt16.ofNat e.2.2).toNat ≤ 13 := by
    rw [dispatch, words]
    simp only [paramTables, List.mem_cons, Prod.mk.injEq, List.not_mem_nil, or_false] at known
    rcases known with ⟨rfl, rfl⟩ | ⟨rfl, rfl⟩
    · rw [rs485Table, List.mem_cons, List.mem_singleton] at entry
      rcases entry with rfl | rfl <;> exact ⟨rfl, rfl, by decide, by decide⟩
    · rw [canTable, List.mem_cons, List.mem_singleton] at entry
      rcases entry with rfl | rfl <;> exact ⟨rfl, rfl, by decide, by decide⟩
  obtain ⟨ran, found, low, high⟩ := command
  rw [ran, ioParam, found]
  dsimp only
  rw [typed]
  dsimp only
  rw [if_pos valid]
  exact regWrite_held s low high _

end Shell

/-- Which acknowledged values are the stored ones, over the web and on the shell. -/
theorem acknowledged_stored (body line : List UInt8) :
    (∀ s s' : WsSession, s.webCmdCfg body = some (s', none) →
      (WsSession.CfgStored body s'.regs ↔
        (∀ ip, jsonGetStr body "ip" = some (some ip) → (fromUtf8 ip).isSome = true) ∧
        ∀ v, jsonGetI32 body "rs485" = some (some v) → v ≤ 0xFFFF)) ∧
    ∀ s : Shell, ∀ c ∈ Shell.paramTables, ∀ e ∈ c.2, ∀ (val : List Char) (more : List (List Char)) (v : ℕ),
      Shell.argv line = "io".toList :: c.1.toList :: e.1.toList :: val :: more →
      Shell.parseU32 val = some v → e.2.1 v = true →
      (((s.dispatch line).regs.getHolding (UInt16.ofNat e.2.2)).toNat = v ↔ v ≤ 0xFFFF) := by
  refine ⟨fun s s' ran => WsSession.webCmdCfg_acknowledged ran, ?_⟩
  intro s c known e entry val more v words typed valid
  rw [s.dispatch_param known entry words typed valid, UInt16.toNat_ofNat']
  omega

/-- The body that sets the baud rate. -/
def baudBody (baud : String) : List UInt8 := utf8 ("\x7b\"rs485\":" ++ baud ++ "\x7d")

theorem acknowledged_stored_baud :
    (∃ s', WsSession.idleSession.webCmdCfg (baudBody "57600") = some (s', none) ∧
      WsSession.CfgStored (baudBody "57600") s'.regs) ∧
    ((Shell.dispatch ⟨RegMap.new 0, ⟨[], 0⟩, []⟩ (utf8 "io rs485 baud 57600")).regs.getHolding 8).toNat = 57600 := by
  have ends : (WsSession.idleSession.webCmdCfg (baudBody "57600")).map (·.2) = some none := rfl
  have noIp : jsonGetStr (baudBody "57600") "ip" = some none := rfl
  have baud : jsonGetI32 (baudBody "57600") "rs485" = some (some 57600) := rfl
  obtain ⟨⟨s', _⟩, ran, rfl⟩ := Option.map_eq_some_iff.1 ends
  obtain ⟨web, shell⟩ := acknowledged_stored (baudBody "57600") (utf8 "io rs485 baud 57600")
  refine ⟨⟨s', ran, (web _ _ ran).2 ⟨fun ip got => ?_, fun v got => ?_⟩⟩, ?_⟩
  · rw [noIp] at got
    cases got
  · rw [baud] at got
    cases got
    decide
  · exact (shell _ _ (List.mem_cons_self) _ (List.mem_cons_self) "57600".toList [] 57600 (by decide +kernel)
      (by decide +kernel) (by decide)).2 (by decide)

/-- 115200 baud is acknowledged by both; the web command leaves the default of 9600, the shell stores 49664. -/
theorem fast_baud_not_stored :
    (∃ s', WsSession.idleSession.webCmdCfg (baudBody "115200") = some (s', none) ∧
      jsonGetI32 (baudBody "115200") "rs485" = some (some 115200) ∧ s'.regs.getHolding 8 = 9600) ∧
    Shell.argv (utf8 "io rs485 baud 115200") = ["io".toList, "rs485".toList, "baud".toList, "115200".toList] ∧
    Shell.parseU32 "115200".toList = some 115200 ∧
    ((Shell.dispatch ⟨RegMap.new 0, ⟨[], 0⟩, []⟩ (utf8 "io rs485 baud 115200")).regs.getHolding 8) = 49664 := by
  have ends : (WsSession.idleSession.webCmdCfg (baudBody "115200")).map (fun r => (r.1.regs.getHolding 8, r.2)) =
      some (9600, none) := rfl
  obtain ⟨⟨s', _⟩, ran, shown⟩ := Option.map_eq_some_iff.1 ends
  obtain ⟨baud, rfl⟩ := Prod.mk.inj shown
  exact ⟨⟨s', ran, rfl, baud⟩, by decide +kernel, by decide +kernel, by decide +kernel⟩

end IoEdgeHub
