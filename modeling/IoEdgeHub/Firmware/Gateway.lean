import IoEdgeHub.Firmware.Mbtcp
import IoEdgeHub.Proto.MbReplies
import Mathlib.Data.Option.Defs
import Mathlib.Logic.Function.Basic

/-!
# One server, three masters

The RTU task and the two TCP connections (`rtu.rs`, `mbtcp.rs`) share one server, its counters and the
registers.  Each of them collects a request in buffers of its own and enters the server, in a critical section,
when the request is complete; meanwhile the others, and all other tasks, go on.  The buffers are reused: a
reply is built over an earlier one, a frame over the rest of a longer one.

`AtomicServer` is what this is for: no buffers, a connection is the bytes of its unfinished request, and a
request is answered in one step from the server's state at that moment.  In every interleaving the masters get
exactly its replies, in its order, and the shared state is its state (`gateway_refines`).
-/

namespace IoEdgeHub

open Bytes Feed

/-- Who sends a request. -/
inductive Master where
  | rtu
  | tcp (i : Fin 2)
  deriving DecidableEq, Repr

/-- The bytes of an idle line that was busy, a connection that opens, gets a byte or ends, and what the other
tasks do to the registers.  The flag says whether the socket takes the reply to a request that ends with this
byte. -/
inductive GatewayAct where
  | line (chunk : List UInt8)
  | opened (i : Fin 2)
  | byte (i : Fin 2) (b : UInt8) (written : Bool)
  | ended (i : Fin 2)
  | others (f : RegMap → Hooks → RegMap × Hooks)

/-- The server, the buffers of the RTU task, the open connections, and the replies sent. -/
structure Gateway where
  bus : MbBus
  rtu : RtuFrame
  tx : List UInt8
  conns : Fin 2 → Option MbtcpConn
  sent : List (Master × List UInt8)

/-- The unit of the RTU task: the register at boot. -/
def bootUnit (bus : MbBus) : UInt8 := (bus.regs.getHolding (UInt16.ofNat holdingSlaveIdIdx)).toUInt8

namespace Gateway

/-- Both lines after boot. -/
def start (bus : MbBus) : Gateway :=
  ⟨bus, RtuFrame.new.bind (bootUnit bus), List.replicate 259 0, fun _ => none, []⟩

/-- One turn of `rtu_task`. -/
def line (g : Gateway) (chunk : List UInt8) : Option Gateway :=
  if chunk.isEmpty then some g
  else do
    let (rtu, bus, tx, reply) ← (g.rtu.rxFeed chunk).t35Expired g.bus g.tx
    match reply with
    | none => return { g with bus, rtu, tx }
    | some len => return { g with bus, rtu, tx, sent := g.sent ++ [(.rtu, ← slice tx 0 len)] }

/-- A byte on a connection: it goes into the frame, and a complete request is answered.  `serve` stores several
bytes at once (`MbtcpConn.serveChunk_eq`), but others can come in between any two requests of a read. -/
def byte (g : Gateway) (i : Fin 2) (b : UInt8) (written : Bool) : Option Gateway :=
  match g.conns i with
  | none => some g
  | some c => do
    let out ← MbtcpConn.feedByte ⟨fun _ bus => bus, fun _ => written⟩ { c with bus := g.bus } b
    return { g with
      bus := out.state.bus
      conns := Function.update g.conns i (if out.alive then some out.state else none)
      sent := g.sent ++ (out.state.sent.drop c.sent.length).map (.tcp i, ·) }

/-- A byte or an expiry. -/
def step (g : Gateway) : GatewayAct → Option Gateway
  | .line chunk => g.line chunk
  | .opened i => some { g with conns := Function.update g.conns i (some (.start g.bus)) }
  | .byte i b written => g.byte i b written
  | .ended i => some { g with conns := Function.update g.conns i none }
  | .others f =>
    let (regs, hooks) := f g.bus.regs g.bus.hooks
    some { g with bus := { g.bus with regs, hooks } }

end Gateway

/-! ## The server without buffers -/

namespace MbBus

/-- The response to a PDU, empty for none. -/
def ask (b : MbBus) (pdu : List UInt8) : MbBus × List UInt8 :=
  match b.decode pdu (List.replicate mbServerPduMax 0) with
  | some (b', out, n) => (b', out.take n)
  | none => (b, [])

/-- What the bytes between two silences come to. -/
def rtuAnswer (b : MbBus) (unit : UInt8) (bs : List UInt8) : MbBus × Option (List UInt8) :=
  if bs = [] then (b, none)
  else if bs.length < rtuFrameMin ∨ rtuFrameMax < bs.length then ((b.count .busMsg).count .noResp, none)
  else if ¬ RtuFrame.CrcOk bs then (((b.count .busMsg).count .crcErr).count .noResp, none)
  else if bs.head? ≠ some 0 ∧ bs.head? ≠ some unit then ((b.count .busMsg).count .noResp, none)
  else
    let (b', rsp) := b.ask ((bs.drop 1).take (bs.length - 3))
    if rsp = [] ∨ bs.headD 0 = 0 then (b'.count .noResp, none) else (b', some (rtuAdu (bs.headD 0) rsp))

/-- What an ADU comes to. -/
def tcpAnswer (b : MbBus) : List UInt8 → MbBus × Option (List UInt8)
  | t0 :: t1 :: p0 :: p1 :: l0 :: l1 :: unitId :: fc :: rest =>
    if getBe16 p0 p1 ≠ 0 then
      (b, some ([t0, t1, p0, p1] ++ putBe16 3 ++ [unitId, fc ||| 0x80, mbExcServerDeviceFailure]))
    else
      let (b', rsp) := b.ask (aduPdu l0 l1 fc rest)
      if unitId = 0 ∨ rsp = [] then (b'.count .noResp, none) else (b', some (tcpAdu (getBe16 t0 t1) unitId rsp))
  | _ => (b, none)

end MbBus

/-- The ADU that the bytes of a connection have come to: the header, then what its length field says. -/
def completeAdu (bs : List UInt8) : Option (List UInt8) :=
  if bs.length < 8 then none
  else (mbapFrameLen bs).bind fun len => if len ≤ bs.length then some (bs.take len) else none

/-- The server, the unit of the RTU line, the bytes of the unfinished request on each open connection, and the
replies sent. -/
structure AtomicServer where
  bus : MbBus
  unit : UInt8
  heard : Fin 2 → Option (List UInt8)
  sent : List (Master × List UInt8)

namespace AtomicServer

/-- The server after boot. -/
def start (bus : MbBus) : AtomicServer := ⟨bus, bootUnit bus, fun _ => none, []⟩

/-- Bytes on the serial line. -/
def line (s : AtomicServer) (chunk : List UInt8) : AtomicServer :=
  let (bus, reply) := s.bus.rtuAnswer s.unit chunk
  { s with bus, sent := s.sent ++ reply.toList.map (.rtu, ·) }

/-- A request is answered in the step in which it is complete; a reply that cannot be sent ends the connection. -/
def byte (s : AtomicServer) (i : Fin 2) (b : UInt8) (written : Bool) : AtomicServer :=
  match s.heard i with
  | none => s
  | some bs =>
    match completeAdu (bs ++ [b]) with
    | none => { s with heard := Function.update s.heard i (some (bs ++ [b])) }
    | some adu =>
      let (bus, reply) := s.bus.tcpAnswer adu
      if reply.isNone || written then
        { s with bus, heard := Function.update s.heard i (some []), sent := s.sent ++ reply.toList.map (.tcp i, ·) }
      else { s with bus, heard := Function.update s.heard i none }

/-- A request is answered at once. -/
def step (s : AtomicServer) : GatewayAct → AtomicServer
  | .line chunk => s.line chunk
  | .opened i => { s with heard := Function.update s.heard i (some []) }
  | .byte i b written => s.byte i b written
  | .ended i => { s with heard := Function.update s.heard i none }
  | .others f =>
    let (regs, hooks) := f s.bus.regs s.bus.hooks
    { s with bus := { s.bus with regs, hooks } }

end AtomicServer

/-! ## Requests -/

namespace MbBus

/-- The decoder gives this response in every buffer. -/
theorem ask_eq (b : MbBus) {pdu : List UInt8} (nonempty : pdu ≠ []) (short : pdu.length ≤ 256) :
    (b.ask pdu).2.length ≤ 252 ∧ ∀ out, out.length = 256 →
      ∃ out', b.decode pdu out = some ((b.ask pdu).1, out', (b.ask pdu).2.length) ∧ out'.length = 256 ∧
        out'.take (b.ask pdu).2.length = (b.ask pdu).2 := by
  obtain ⟨b', rsp, small, all⟩ := b.decode_answered nonempty short
  obtain ⟨out, decoded, -, whole⟩ := all (List.replicate mbServerPduMax 0) List.length_replicate
  have asked : b.ask pdu = (b', rsp) := by
    rw [ask, decoded]
    dsimp only
    rw [whole]
  rw [asked]
  exact ⟨small, all⟩

theorem rtuDeliver_ask (b : MbBus) {pdu : List UInt8} (nonempty : pdu ≠ []) (short : pdu.length ≤ 256)
    {tx : List UInt8} (room : tx.length = 259) (unit : UInt8) :
    ∃ tx' reply, tx'.length = 259 ∧ (∀ k ∈ reply, k ≤ 259) ∧
      (reply.map fun k => tx'.take k) =
        (if (b.ask pdu).2 = [] ∨ unit = 0 then none else some (rtuAdu unit (b.ask pdu).2)) ∧
      rtuDeliver b tx unit pdu =
        some (if (b.ask pdu).2 = [] ∨ unit = 0 then (b.ask pdu).1.count .noResp else (b.ask pdu).1, tx', reply) := by
  obtain ⟨small, all⟩ := b.ask_eq nonempty short
  obtain ⟨out, decoded, full, whole⟩ := all (List.replicate mbServerPduMax 0) List.length_replicate
  rw [rtuDeliver, decoded, Option.bind_some]
  simp only [List.length_eq_zero_iff]
  split
  · exact ⟨tx, none, room, fun k sent => absurd sent (Option.not_mem_none k), rfl, rfl⟩
  · obtain ⟨tx', replied, length, frame⟩ := RtuFrame.rtuReply_eq room full small unit
    rw [whole] at frame
    refine ⟨tx', some ((b.ask pdu).2.length + 3), length, ?_, congrArg some frame, ?_⟩
    · rintro k ⟨⟩
      omega
    · rw [replied]
      rfl

theorem expired_rtuAnswer (b : MbBus) (unit : UInt8) (bs : List UInt8) {tx : List UInt8} (room : tx.length = 259) :
    ∃ tx' reply, tx'.length = 259 ∧ (∀ k ∈ reply, k ≤ 259) ∧
      (reply.map fun k => tx'.take k) = (b.rtuAnswer unit bs).2 ∧
      RtuFrame.expired unit bs b tx = some ((b.rtuAnswer unit bs).1, tx', reply) := by
  unfold RtuFrame.expired rtuAnswer
  split
  · exact ⟨tx, none, room, fun k sent => absurd sent (Option.not_mem_none k), rfl, rfl⟩
  split
  · exact ⟨tx, none, room, fun k sent => absurd sent (Option.not_mem_none k), rfl, rfl⟩
  rename_i sized
  split
  · exact ⟨tx, none, room, fun k sent => absurd sent (Option.not_mem_none k), rfl, rfl⟩
  split
  · exact ⟨tx, none, room, fun k sent => absurd sent (Option.not_mem_none k), rfl, rfl⟩
  have long : 4 ≤ bs.length ∧ bs.length ≤ 256 := by
    rw [rtuFrameMin, rtuFrameMax] at sized
    omega
  have length : ((bs.drop 1).take (bs.length - 3)).length = bs.length - 3 := by
    rw [List.length_take, List.length_drop]
    omega
  obtain ⟨tx', reply, full, fits, said, ran⟩ := b.rtuDeliver_ask
    (List.ne_nil_of_length_pos (by omega) : (bs.drop 1).take (bs.length - 3) ≠ []) (by omega) room (bs.headD 0)
  refine ⟨tx', reply, full, fits, ?_, ?_⟩
  · rw [said]
    dsimp only
    split <;> rfl
  · rw [ran]
    dsimp only
    split <;> rfl

theorem mbtcpAduProcess_tcpAnswer (b : MbBus) (adu : List UInt8) {out : List UInt8}
    (room : out.length = mbtcpAduTxMax) :
    ∃ out' n, out'.length = mbtcpAduTxMax ∧ n ≤ mbtcpAduTxMax ∧
      (b.tcpAnswer adu).2 = (if n = 0 then none else some (out'.take n)) ∧
      mbtcpAduProcess b adu out = some ((b.tcpAnswer adu).1, out', n) := by
  have size : mbtcpAduTxMax = 263 := rfl
  unfold tcpAnswer
  split
  · rename_i t0 t1 p0 p1 l0 l1 unitId fc rest
    by_cases own : getBe16 p0 p1 = 0
    · obtain ⟨least, most, -⟩ := mbtcpPduLen_le (getBe16 l0 l1) (by omega : 8 ≤ rest.length + 8)
      rw [← length_aduPdu l0 l1 fc rest] at least most
      obtain ⟨small, all⟩ := b.ask_eq (List.ne_nil_of_length_pos least) (by omega)
      obtain ⟨out', ran, full, whole⟩ := all (out.drop 7) (by rw [List.length_drop]; omega)
      rw [if_neg (not_not.2 own), mbtcpAduProcess_own t0 t1 own l0 l1 unitId fc rest room ran]
      simp only [List.length_eq_zero_iff]
      split
      · refine ⟨_, 0, ?_, Nat.zero_le _, rfl, rfl⟩
        rw [List.length_append, List.length_take]
        omega
      · refine ⟨_, _, ?_, ?_, ?_, rfl⟩
        · simp [putBe16, full, size]
        · omega
        · rw [if_neg (by omega)]
          have next : UInt16.ofNat (b.ask (aduPdu l0 l1 fc rest)).2.length + 1 =
              UInt16.ofNat ((b.ask (aduPdu l0 l1 fc rest)).2.length + 1) := (UInt16.ofNat_add ..).symm
          rw [next, Nat.add_comm 7]
          change some (tcpAdu _ unitId _) = some (putBe16 _ ++ putBe16 0 ++ putBe16 _ ++ unitId :: List.take _ out')
          rw [whole]
          rfl
    · rw [if_pos own, mbtcpAduProcess, if_neg (by omega), if_pos own, mbtcpRefuse_eq (by omega)]
      refine ⟨_, 9, ?_, by omega, ?_, rfl⟩
      · simp [putBe16, room, size]
      · rw [putBe16_getBe16, putBe16_getBe16]
        rfl
  · rename_i short
    refine ⟨out, 0, room, Nat.zero_le _, rfl, ?_⟩
    unfold mbtcpAduProcess
    split
    · exact absurd rfl (short _ _ _ _ _ _ _ _ _)
    · rfl

end MbBus

/-! ## Connections -/

namespace MbtcpConn

/-- The frame buffer of an open connection holds the bytes of its unfinished request. -/
structure Buffers (c : MbtcpConn) (bs : List UInt8) : Prop where
  filling : c.Filling
  flen : c.flen = bs.length
  frame : c.frame.take bs.length = bs

theorem buffers_start (bus : MbBus) : (start bus).Buffers [] := ⟨filling_start bus, rfl, rfl⟩

variable {c : MbtcpConn} {bs : List UInt8}

theorem Buffers.put (buffers : c.Buffers bs) (b : UInt8) :
    Bytes.put c.frame c.flen b = some (c.frame.set c.flen b) ∧
      (c.frame.set c.flen b).take (bs ++ [b]).length = bs ++ [b] := by
  obtain ⟨w, -, below, most⟩ := buffers.filling.want
  have size := buffers.filling.size
  have flen := buffers.flen
  refine ⟨if_pos (by omega), ?_⟩
  rw [flen, List.length_append, List.length_singleton, List.take_set, List.take_succ_eq_append_getElem (by omega),
    buffers.frame, List.set_append_right _ _ (Nat.le_refl _), Nat.sub_self, List.set_cons_zero]

theorem completeAdu_eq {frame : List UInt8} (size : frame.length = 264) (whole : frame.take bs.length = bs)
    (inside : bs.length ≤ 262) :
    ∃ len, mbapFrameLen frame = some len ∧ len ≤ 262 ∧
      completeAdu bs = if 8 ≤ bs.length ∧ len ≤ bs.length then some (frame.take len) else none := by
  obtain ⟨len, known, -, most⟩ := mbapFrameLen_eq size
  refine ⟨len, known, most, ?_⟩
  unfold completeAdu
  by_cases short : bs.length < 8
  · rw [if_pos short, if_neg (by omega)]
  · have same : mbapFrameLen bs = some len := by
      rw [← known]
      apply mbapFrameLen_congr
      intro i early
      rw [← whole, List.getElem?_take_of_lt (by omega)]
    rw [if_neg short, same, Option.bind_some]
    by_cases all : len ≤ bs.length
    · have front : bs.take len = frame.take len := by
        rw [← whole, List.take_take, Nat.min_eq_left all]
      rw [if_pos all, if_pos ⟨by omega, all⟩, front]
    · rw [if_neg all, if_neg (by omega)]

/-- What the connection becomes when the bytes of its request are `bs`. -/
structure Settled (c : MbtcpConn) (bus : MbBus) (bs : List UInt8) (written : Bool)
    (out : Out MbtcpConn (List UInt8)) : Prop where
  waiting : completeAdu bs = none → out.alive = true ∧ out.state.bus = bus ∧ out.state.sent = c.sent ∧
    out.state.Buffers bs
  answered : ∀ adu, completeAdu bs = some adu → out.state.bus = (bus.tcpAnswer adu).1 ∧
    out.alive = ((bus.tcpAnswer adu).2.isNone || written) ∧
    (out.alive = true → out.state.Buffers [] ∧ out.state.sent = c.sent ++ (bus.tcpAnswer adu).2.toList) ∧
    (out.alive = false → out.state.sent = c.sent)

/-- A complete request is answered, and unless the reply cannot be sent the buffers are free for the next one. -/
theorem answer_tcpAnswer {len : ℕ} (size : c.frame.length = 264) (room : c.out.length = mbtcpAduTxMax)
    (known : mbapFrameLen c.frame = some len) (short : len ≤ 262) (written : Bool) :
    ∃ out, c.answer ⟨fun _ bus => bus, fun _ => written⟩ = some out ∧
      out.state.bus = (c.bus.tcpAnswer (c.frame.take len)).1 ∧
      out.alive = ((c.bus.tcpAnswer (c.frame.take len)).2.isNone || written) ∧
      (out.alive = true → out.state.Buffers [] ∧
        out.state.sent = c.sent ++ (c.bus.tcpAnswer (c.frame.take len)).2.toList) ∧
      (out.alive = false → out.state.sent = c.sent) := by
  have cut : slice c.frame 0 len = some (c.frame.take len) := slice_eq (Nat.zero_le _) (by omega)
  obtain ⟨out, n, length, small, said, ran⟩ := c.bus.mbtcpAduProcess_tcpAnswer (c.frame.take len) room
  have ready (sent : List (List UInt8)) (calls : ℕ) (bus : MbBus) :
      Buffers ⟨c.frame, 0, out, bus, calls, sent⟩ [] := ⟨⟨size, length, fun _ _ => .inl (Nat.zero_lt_succ 7)⟩, rfl, rfl⟩
  rw [answer, known, Option.bind_some, cut, Option.bind_some, ran, Option.bind_some]
  dsimp only
  by_cases silent : n = 0
  · rw [if_pos silent] at said
    rw [if_pos silent, said]
    refine ⟨_, rfl, rfl, rfl, fun _ => ⟨ready _ _ _, (List.append_nil _).symm⟩, ?_⟩
    exact fun dead => absurd dead.symm Bool.false_ne_true
  · have reply : slice out 0 n = some (out.take n) := slice_eq (Nat.zero_le _) (by omega)
    rw [if_neg silent] at said
    rw [if_neg silent, reply, Option.map_some, said]
    refine ⟨_, rfl, ?_⟩
    cases written with
    | false => exact ⟨rfl, rfl, fun alive => absurd alive Bool.false_ne_true, fun _ => rfl⟩
    | true => exact ⟨rfl, rfl, fun _ => ⟨ready _ _ _, rfl⟩, fun dead => absurd dead.symm Bool.false_ne_true⟩

theorem Buffers.feedByte (buffers : c.Buffers bs) (bus : MbBus) (b : UInt8) (written : Bool) :
    ∃ out, MbtcpConn.feedByte ⟨fun _ bus => bus, fun _ => written⟩ { c with bus } b = some out ∧
      c.Settled bus (bs ++ [b]) written out := by
  obtain ⟨stored, whole⟩ := buffers.put b
  obtain ⟨w, -, below, most⟩ := buffers.filling.want
  have flen := buffers.flen
  have room := buffers.filling.room
  have size : (c.frame.set c.flen b).length = 264 := by rw [List.length_set, buffers.filling.size]
  have count : (bs ++ [b]).length = bs.length + 1 := List.length_append
  generalize c.frame.set c.flen b = frame at stored whole size
  generalize bs ++ [b] = bs' at whole count
  obtain ⟨len, known, short, complete⟩ := completeAdu_eq size whole (by omega)
  rw [MbtcpConn.feedByte, stored, Option.bind_some, settle]
  dsimp only
  rw [known, Option.bind_some]
  by_cases full : 8 ≤ bs'.length ∧ len ≤ bs'.length
  · rw [if_pos full] at complete
    obtain ⟨out, ran, answered⟩ :=
      answer_tcpAnswer (c := ⟨frame, c.flen + 1, c.out, bus, c.calls, c.sent⟩) size room known short written
    rw [if_pos (by omega)]
    refine ⟨out, ran, fun none => ?_, fun adu some => ?_⟩
    · rw [complete] at none
      cases none
    · cases complete.symm.trans some
      exact answered
  · rw [if_neg full] at complete
    rw [if_neg (by omega)]
    refine ⟨_, rfl, fun _ => ⟨rfl, rfl, rfl, ⟨size, room, ?_⟩, by dsimp only; omega, whole⟩, ?_⟩
    · intro len' known'
      cases known.symm.trans known'
      dsimp only
      omega
    · intro adu some
      cases complete.symm.trans some

end MbtcpConn

/-! ## The gateway -/

namespace Gateway

/-- The gateway with its buffers, and the server without. -/
structure Shows (g : Gateway) (s : AtomicServer) : Prop where
  bus : g.bus = s.bus
  idle : g.rtu.Idle
  unit : g.rtu.srvUnit = s.unit
  tx : g.tx.length = 259
  conns : ∀ i, Option.Rel MbtcpConn.Buffers (g.conns i) (s.heard i)
  sent : g.sent = s.sent

theorem shows_start (bus : MbBus) : Shows (start bus) (.start bus) where
  bus := rfl
  idle := ⟨rfl, rfl⟩
  unit := rfl
  tx := List.length_replicate
  conns _ := .none
  sent := rfl

variable {g : Gateway} {s : AtomicServer}

theorem Shows.update (shows : Shows g s) (i : Fin 2) {c : Option MbtcpConn} {bs : Option (List UInt8)}
    (rel : Option.Rel MbtcpConn.Buffers c bs) (j : Fin 2) :
    Option.Rel MbtcpConn.Buffers (Function.update g.conns i c j) (Function.update s.heard i bs j) := by
  by_cases same : j = i
  · subst same
    rwa [Function.update_self, Function.update_self]
  · rw [Function.update_of_ne same, Function.update_of_ne same]
    exact shows.conns j

theorem Shows.line (shows : Shows g s) (chunk : List UInt8) :
    ∃ g', g.line chunk = some g' ∧ Shows g' (s.line chunk) := by
  obtain ⟨tx, reply, room, fits, said, ran⟩ := s.bus.expired_rtuAnswer s.unit chunk shows.tx
  unfold Gateway.line AtomicServer.line
  split
  · rename_i empty
    rw [List.isEmpty_iff.1 empty]
    refine ⟨g, rfl, ⟨shows.bus, shows.idle, shows.unit, shows.tx, shows.conns, ?_⟩⟩
    exact shows.sent.trans (List.append_nil _).symm
  · obtain ⟨rtu, idle, unit, expired⟩ := RtuFrame.feed_t35Expired ran g.rtu [chunk] shows.idle shows.unit
      List.flatten_singleton
    change (g.rtu.rxFeed chunk).t35Expired s.bus g.tx = _ at expired
    rw [shows.bus, expired]
    dsimp only [Option.bind_eq_bind, Option.bind_some]
    rw [← said]
    cases reply with
    | none =>
      exact ⟨_, rfl, ⟨rfl, idle, unit, room, shows.conns, shows.sent.trans (List.append_nil _).symm⟩⟩
    | some k =>
      have cut : slice tx 0 k = some (tx.take k) := slice_eq (Nat.zero_le _) (by rw [room]; exact fits k rfl)
      dsimp only
      rw [cut]
      exact ⟨_, rfl, ⟨rfl, idle, unit, room, shows.conns, by rw [shows.sent]; rfl⟩⟩

theorem Shows.byte (shows : Shows g s) (i : Fin 2) (b : UInt8) (written : Bool) :
    ∃ g', g.byte i b written = some g' ∧ Shows g' (s.byte i b written) := by
  have conn := shows.conns i
  unfold Gateway.byte AtomicServer.byte
  generalize g.conns i = c? at conn ⊢
  generalize s.heard i = bs? at conn ⊢
  cases conn with
  | none => exact ⟨g, rfl, shows⟩
  | @some c bs buffers =>
    dsimp only
    obtain ⟨out, ran, settled⟩ := buffers.feedByte g.bus b written
    rw [ran]
    dsimp only [Option.bind_eq_bind, Option.bind_some]
    refine ⟨_, rfl, ?_⟩
    have bus := shows.bus
    cases complete : completeAdu (bs ++ [b]) with
    | none =>
      obtain ⟨alive, same, sent, next⟩ := settled.waiting complete
      refine ⟨same.trans bus, shows.idle, shows.unit, shows.tx, ?_, ?_⟩
      · rw [alive]
        exact shows.update i (.some next)
      · rw [sent, List.drop_length, shows.sent]
        exact List.append_nil _
    | some adu =>
      obtain ⟨state, alive, sends, fails⟩ := settled.answered adu complete
      rw [bus] at state alive sends
      dsimp only
      rw [← alive]
      cases up : out.alive with
      | true =>
        obtain ⟨next, sent⟩ := sends up
        refine ⟨state, shows.idle, shows.unit, shows.tx, shows.update i (.some next), ?_⟩
        rw [sent, List.drop_left, shows.sent]
        rfl
      | false =>
        refine ⟨state, shows.idle, shows.unit, shows.tx, shows.update i .none, ?_⟩
        rw [fails up, List.drop_length, shows.sent]
        exact List.append_nil _

theorem Shows.step (shows : Shows g s) (a : GatewayAct) : ∃ g', g.step a = some g' ∧ Shows g' (s.step a) := by
  cases a with
  | line chunk => exact shows.line chunk
  | opened i =>
    exact ⟨_, rfl, ⟨shows.bus, shows.idle, shows.unit, shows.tx, shows.update i (.some (MbtcpConn.buffers_start _)),
      shows.sent⟩⟩
  | byte i b written => exact shows.byte i b written
  | ended i => exact ⟨_, rfl, ⟨shows.bus, shows.idle, shows.unit, shows.tx, shows.update i .none, shows.sent⟩⟩
  | others f =>
    refine ⟨_, rfl, ⟨?_, shows.idle, shows.unit, shows.tx, shows.conns, shows.sent⟩⟩
    dsimp only [AtomicServer.step]
    rw [shows.bus]

/-- In every interleaving of the RTU line, the connections and the other tasks no access leaves a buffer, and the
masters get the replies of a server that answers one whole request after the other. -/
theorem gateway_refines (bus : MbBus) (acts : List GatewayAct) :
    ∃ g, acts.foldlM step (start bus) = some g ∧ g.bus = (acts.foldl AtomicServer.step (.start bus)).bus ∧
      g.sent = (acts.foldl AtomicServer.step (.start bus)).sent ∧
      ∀ i, (g.conns i).isSome = ((acts.foldl AtomicServer.step (.start bus)).heard i).isSome := by
  obtain ⟨g, ran, shows⟩ := Run.served (Q := fun acts g => Shows g (acts.foldl AtomicServer.step (.start bus)))
    (shows_start bus) (fun before g a shows => by rw [List.foldl_append]; exact shows.step a) acts
  refine ⟨g, ran, shows.bus, shows.sent, fun i => ?_⟩
  have rel := shows.conns i
  generalize g.conns i = c at rel ⊢
  generalize (acts.foldl AtomicServer.step (.start bus)).heard i = bs at rel ⊢
  cases rel <;> rfl

end Gateway

end IoEdgeHub
