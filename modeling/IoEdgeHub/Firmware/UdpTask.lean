import IoEdgeHub.Firmware.RegOps

/-!
# Who may configure the device

`udp_task` answers a host of its own /24, and any host that asks for the address.  The network stack
takes its address from the registers once, when `net::setup` runs; the filter of `udp_task` and the
address that FTP announces for passive transfers are read from the registers every time.  They stay
what the stack was set up with exactly as long as every operation that writes to the address writes the
octets that are there (`address_waits_iff`); `SET_IP` to another address takes effect at once
(`reboot_dropped_after_setIp`).
-/

namespace IoEdgeHub

open Run

/-! ## Addresses -/

/-- The address in the replies to `PASV`. -/
def localIp (r : RegMap) : Vector UInt8 4 :=
  #v[(r.getHolding (UInt16.ofNat holdingIpOctet1Idx)).toUInt8,
    (r.getHolding (UInt16.ofNat holdingIpOctet2Idx)).toUInt8,
    (r.getHolding (UInt16.ofNat holdingIpOctet3Idx)).toUInt8,
    (r.getHolding (UInt16.ofNat holdingIpOctet4Idx)).toUInt8]

/-- The /24 of an address. -/
def inSubnet24 (ip sender : Vector UInt8 4) : Bool :=
  sender.toList.take 3 = ip.toList.take 3

theorem localIp_eq_setupIp (r : RegMap) : localIp r = setupIp r := by
  simp [localIp, setupIp, RegMap.getHolding, holdingIpOctet1Idx, holdingIpOctet2Idx, holdingIpOctet3Idx,
    holdingIpOctet4Idx]

theorem sameSubnet24_eq (r : RegMap) (sender : Vector UInt8 4) :
    sameSubnet24 r sender = inSubnet24 (setupIp r) sender := rfl

/-! ## The task -/

/-- The command any host may send. -/
def udpCmdBcastAllowed (cmd : UInt8) : Bool := cmd == udpCmdGetIp

/-- A datagram, and the tick count at which it is handled. -/
structure Datagram where
  sender : Vector UInt8 4
  bytes : List UInt8
  ticks : ℕ
  deriving DecidableEq, Repr

/-- Where a reply goes. -/
inductive UdpTarget where
  | sender
  | broadcast
  deriving DecidableEq, Repr

/-- One turn of the loop: the state, the reply if one is sent, and whether the device resets. -/
structure UdpTurn where
  app : UdpApp
  sent : Option (UdpTarget × List UInt8)
  reset : Bool
  deriving DecidableEq, Repr

/-- The debug and firmware commands, which are answered before the configuration commands and touch
none of the state here; their replies are left out. -/
def otherChannel (cmd : UInt8) : Bool := cmd ∈ [0xFA, 0xFB, 0xFC, 0x01, 0x02, 0x03, 0x06]

namespace UdpApp

/-- The command passes the filter. -/
def admits (a : UdpApp) (sender : Vector UInt8 4) (cmd : UInt8) : Bool :=
  sameSubnet24 a.regs sender || udpCmdBcastAllowed cmd

/-- What `udp_task` does with a datagram; no result is a panic. -/
def turn (ver : UdpVersion) (accepts : UInt32 → Bool) (a : UdpApp) (d : Datagram) : Option UdpTurn :=
  match d.bytes with
  | [] => some ⟨a, none, false⟩
  | cmd :: data =>
    let same := sameSubnet24 a.regs d.sender
    if !same && !udpCmdBcastAllowed cmd then some ⟨a, none, false⟩
    else if otherChannel cmd then some ⟨a, none, false⟩
    else do
      let (a, reply, n) ← a.udpAppCmd ver accepts cmd data (List.replicate 64 0) (nowMs32 d.ticks)
      if n = 0 then return ⟨a, none, false⟩
      else
        let (st, reset) := a.st.takeRebootPending
        return ⟨{ a with st }, some (if same then .sender else .broadcast, reply.take n), reset⟩

end UdpApp

/-- A datagram for `udp_task`, or another operation on the registers. -/
inductive NetOp where
  | datagram (d : Datagram)
  | other (op : RegOp)

namespace UdpApp

/-- One datagram or operation. -/
def netStep (ver : UdpVersion) (accepts : UInt32 → Bool) (a : UdpApp) : NetOp → Option UdpApp
  | .datagram d => (a.turn ver accepts d).map UdpTurn.app
  | .other op => (a.view.step op).map fun s => { a with regs := s.1, hooks := s.2 }

variable {ver : UdpVersion} {accepts : UInt32 → Bool}

/-- The states of a run, from the one at boot on. -/
def Visits (ver : UdpVersion) (accepts : UInt32 → Bool) (boot : UdpApp) (ops : List NetOp) (a : UdpApp) : Prop :=
  ∃ before, before <+: ops ∧ before.foldlM (netStep ver accepts) boot = some a

/-- `a'` is a state of the run that comes after `a`, or `a` itself. -/
def Later (ver : UdpVersion) (accepts : UInt32 → Bool) (boot : UdpApp) (ops : List NetOp) (a a' : UdpApp) :
    Prop :=
  ∃ before mid, before ++ mid <+: ops ∧ before.foldlM (netStep ver accepts) boot = some a ∧
    mid.foldlM (netStep ver accepts) a = some a'

/-- Everything goes by the address that the stack was set up with. -/
structure Waits (ver : UdpVersion) (accepts : UInt32 → Bool) (boot : UdpApp) (ops : List NetOp) : Prop where
  filter (a : UdpApp) (visited : Visits ver accepts boot ops a) (sender : Vector UInt8 4) :
    sameSubnet24 a.regs sender = inSubnet24 (setupIp boot.regs) sender
  passive (a : UdpApp) (visited : Visits ver accepts boot ops a) : localIp a.regs = setupIp boot.regs
  reboot (a a' : UdpApp) (later : Later ver accepts boot ops a a') (sender : Vector UInt8 4) :
    a.admits sender udpCmdSetIp = true → a'.admits sender udpCmdReboot = true

/-- The register writes of an operation: of a datagram, only if it passes the filter. -/
def netWrites (a : UdpApp) : NetOp → List (UInt16 × UInt16)
  | .datagram d =>
    match d.bytes with
    | [] => []
    | cmd :: data => if a.admits d.sender cmd then udpWrites cmd data else []
  | .other op => op.regWrites

theorem udpWrites_otherChannel {cmd : UInt8} (other : otherChannel cmd = true) (data : List UInt8) :
    udpWrites cmd data = [] := by
  unfold udpWrites
  split_ifs with setIp setModbus
  · exact absurd (setIp ▸ other) (by decide)
  · exact absurd (setModbus ▸ other) (by decide)
  · rfl

/-- A turn does to the address what its command does. -/
theorem turn_puts {a : UdpApp} {d : Datagram} {t : UdpTurn} (turned : a.turn ver accepts d = some t) :
    Puts (a.netWrites (.datagram d)) a.view t.app.view := by
  obtain ⟨sender, bytes, ticks⟩ := d
  rcases bytes with _ | ⟨cmd, data⟩
  · cases turned
    exact .refl _
  have filter : (!sameSubnet24 a.regs sender && !udpCmdBcastAllowed cmd) = !a.admits sender cmd :=
    (Bool.not_or ..).symm
  simp only [turn, filter] at turned
  rw [netWrites]
  dsimp only
  cases admitted : a.admits sender cmd with
  | true =>
    rw [admitted, if_neg (by decide)] at turned
    rw [if_pos rfl]
    by_cases other : otherChannel cmd = true
    · rw [if_pos other] at turned
      cases turned
      rw [udpWrites_otherChannel other]
      exact .refl _
    · rw [if_neg other] at turned
      obtain ⟨⟨a', reply, n⟩, ran, turned⟩ := Option.bind_eq_some_iff.1 turned
      have puts := (udpAppCmd_wrote ran).puts
      by_cases silent : n = 0
      · rw [if_pos silent] at turned
        cases turned
        exact puts
      · rw [if_neg silent] at turned
        cases turned
        exact puts
  | false =>
    rw [admitted, if_pos (by decide)] at turned
    cases turned
    exact .refl _

theorem netStep_puts {a a' : UdpApp} {op : NetOp} (stepped : a.netStep ver accepts op = some a') :
    setupIp a'.regs = (a.netWrites op).foldl putOctet (setupIp a.regs) := by
  cases op with
  | datagram d =>
    obtain ⟨t, turned, rfl⟩ := Option.map_eq_some_iff.1 stepped
    exact turn_puts turned
  | other op =>
    obtain ⟨s, ran, rfl⟩ := Option.map_eq_some_iff.1 stepped
    exact (Regs.step_wrote ran).puts

theorem netWrites_once (a : UdpApp) (op : NetOp) : ((a.netWrites op).map Prod.fst).Nodup := by
  cases op with
  | datagram d =>
    rw [netWrites]
    split
    · exact List.nodup_nil
    split_ifs
    · exact udpWrites_once ..
    · exact List.nodup_nil
  | other op => exact op.regWrites_once

/-- Whatever the operations of the run write to the address are the octets that are there.  An operation that
panics is the end of the run. -/
def LeavesAddress (ver : UdpVersion) (accepts : UInt32 → Bool) (boot : UdpApp) (ops : List NetOp) : Prop :=
  Each (fun before op => ∀ a, before.foldlM (netStep ver accepts) boot = some a →
    (a.netStep ver accepts op).isSome →
      ∀ w ∈ a.netWrites op, ∀ i : Fin 4, w.1.toNat = holdingIpOctet1Idx + i → w.2.toUInt8 = (setupIp a.regs).get i) ops

/-- A step leaves the address exactly if its writes do. -/
theorem netStep_leaves_iff {a a' : UdpApp} {op : NetOp} (stepped : a.netStep ver accepts op = some a') :
    setupIp a'.regs = setupIp a.regs ↔
      ∀ w ∈ a.netWrites op, ∀ i : Fin 4, w.1.toNat = holdingIpOctet1Idx + i →
        w.2.toUInt8 = (setupIp a.regs).get i := by
  rw [netStep_puts stepped, foldl_putOctet_eq_iff (a.netWrites_once op)]

theorem LeavesAddress.visited {boot a : UdpApp} {ops : List NetOp} (leaves : LeavesAddress ver accepts boot ops)
    (visited : Visits ver accepts boot ops a) : setupIp a.regs = setupIp boot.regs := by
  obtain ⟨before, ⟨after, rfl⟩, ran⟩ := visited
  have meets : Each (fun before op => ∀ a, before.foldlM (netStep ver accepts) boot = some a →
      ∀ a', a.netStep ver accepts op = some a' → setupIp a'.regs = setupIp a.regs) before := by
    intro pre op post split a reached a' stepped
    exact (netStep_leaves_iff stepped).2
      (leaves.left pre op post split a reached (Option.isSome_iff_exists.2 ⟨a', stepped⟩))
  refine @Run.reached _ _ _ boot _ _ (fun _ a => setupIp a.regs = setupIp boot.regs) rfl ?_ _ meets ran
  intro _ a op a' inv same stepped
  exact (same a' stepped).trans inv

theorem Later.visits {boot a a' : UdpApp} {ops : List NetOp} (later : Later ver accepts boot ops a a') :
    Visits ver accepts boot ops a ∧ Visits ver accepts boot ops a' := by
  obtain ⟨before, mid, ⟨after, split⟩, ran, ran'⟩ := later
  refine ⟨⟨before, ⟨mid ++ after, by rw [← split, List.append_assoc]⟩, ran⟩, before ++ mid, ⟨after, split⟩, ?_⟩
  rw [List.foldlM_append, ran]
  exact ran'

/-- The filter and the passive address stay those of the stack exactly as long as every operation that
writes to the address writes the octets that are there. -/
theorem address_waits_iff (ver : UdpVersion) (accepts : UInt32 → Bool) (boot : UdpApp) (ops : List NetOp) :
    Waits ver accepts boot ops ↔ LeavesAddress ver accepts boot ops := by
  constructor
  · intro waits before op after split a reached survives
    obtain ⟨a', stepped⟩ := Option.isSome_iff_exists.1 survives
    have here : Visits ver accepts boot ops a := ⟨before, ⟨op :: after, split.symm⟩, reached⟩
    have next : Visits ver accepts boot ops a' := by
      refine ⟨before ++ [op], ⟨after, by simp [split]⟩, ?_⟩
      rw [List.foldlM_append, reached]
      simp [stepped]
    rw [← netStep_leaves_iff stepped, ← localIp_eq_setupIp, ← localIp_eq_setupIp, waits.passive a here,
      waits.passive a' next]
  · intro leaves
    have filter (a : UdpApp) (visited : Visits ver accepts boot ops a) (sender : Vector UInt8 4) :
        sameSubnet24 a.regs sender = inSubnet24 (setupIp boot.regs) sender := by
      rw [sameSubnet24_eq, leaves.visited visited]
    refine ⟨filter, fun a visited => (localIp_eq_setupIp a.regs).trans (leaves.visited visited), ?_⟩
    intro a a' later sender admitted
    have same : sameSubnet24 a.regs sender = true := by
      simpa [admits, udpCmdBcastAllowed, udpCmdSetIp, udpCmdGetIp] using admitted
    rw [filter a later.visits.1] at same
    rw [admits, filter a' later.visits.2, same, Bool.true_or]

/-! ## An address that is set -/

/-- A device fresh from the factory, at 192.168.12.101. -/
def factory : UdpApp := .start (RegMap.new 0) ⟨[], 0⟩

/-- A host of its subnet. -/
def host : Vector UInt8 4 := #v[192, 168, 12, 5]

/-- A version. -/
def version0 : UdpVersion := ⟨0, 0, 0, Vector.replicate 6 0⟩

/-- `SET_IP 10.0.0.2` -/
def moveAway : Datagram := ⟨host, [udpCmdSetIp, 10, 0, 0, 2], 1000⟩

/-- The device after it. -/
def moved : UdpApp where
  regs.holding := #v[0, 0xFFFF, 0x000F, 200, 200, 0, 0x0111, 250, 9600, 1, 10, 0, 0, 2, 0, 0, 0, 0]
  regs.input := #v[0, 0, 0, 0, 0, 0]
  hooks := ⟨[.holdingSave], 0⟩
  erases := 0
  st := .new

/-- `REBOOT` -/
def rebootOrder : Datagram := ⟨host, [udpCmdReboot], 2000⟩

/-- The host that set the address is answered, and its `REBOOT` is then dropped: the registers already
hold the new address, while the stack is still at the old one.  Without the `SET_IP` the same order
resets the device. -/
theorem reboot_dropped_after_setIp :
    factory.turn version0 (fun _ => false) moveAway = some ⟨moved, some (.sender, [udpCmdSetIp, 1]), false⟩ ∧
    moved.turn version0 (fun _ => false) rebootOrder = some ⟨moved, none, false⟩ ∧
    (factory.turn version0 (fun _ => false) rebootOrder).map UdpTurn.reset = some true ∧
    setupIp factory.regs = #v[192, 168, 12, 101] ∧ localIp moved.regs = #v[10, 0, 0, 2] ∧
    ¬ Waits version0 (fun _ => false) factory [.datagram moveAway] := by
  have answered : factory.turn version0 (fun _ => false) moveAway =
      some ⟨moved, some (.sender, [udpCmdSetIp, 1]), false⟩ := by decide +kernel
  refine ⟨answered, by decide +kernel, by decide +kernel, by decide +kernel, by decide +kernel, fun waits => ?_⟩
  have reached : [NetOp.datagram moveAway].foldlM (netStep version0 fun _ => false) factory = some moved := by
    simp [netStep, answered]
  have announced := waits.passive moved ⟨_, List.prefix_rfl, reached⟩
  exact absurd announced (by decide +kernel)

end UdpApp

end IoEdgeHub
