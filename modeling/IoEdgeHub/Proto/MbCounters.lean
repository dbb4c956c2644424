import IoEdgeHub.Proto.RtuFrame
import IoEdgeHub.Proto.MbtcpAdu
import Mathlib.Logic.Function.Basic

/-!
# What the diagnostic counters count

RTU frames and TCP ADUs reach one server in any order.  `Seen` lists what a frame can do to it;
the counters of a whole run follow from that, both as exact saturated counts between clear requests
and as the order among them that holds throughout.
-/

namespace IoEdgeHub

/-! ## Saturating counters -/

namespace MbServer

variable {s : MbServer} {n : MbDiag → ℕ}

theorem idx_inj {c d : MbDiag} : (c.idx : ℕ) = d.idx ↔ c = d := by
  cases c <;> cases d <;> decide

theorem diagGet_diagCount_self (s : MbServer) (c : MbDiag) :
    (s.diagCount c).diagGet c = if s.diagGet c = 0xFFFF then 0xFFFF else s.diagGet c + 1 :=
  Vector.getElem_set_self c.idx.isLt

theorem diagGet_diagCount_ne (s : MbServer) {c d : MbDiag} (other : d ≠ c) :
    (s.diagCount c).diagGet d = s.diagGet d := by
  have apart : (c.idx : ℕ) ≠ d.idx := fun same => other (idx_inj.1 same).symm
  exact Vector.getElem_set_ne c.idx.isLt d.idx.isLt apart

/-- The counters stand at the numbers `n`, as far as they go. -/
def Shows (s : MbServer) (n : MbDiag → ℕ) : Prop := ∀ c, (s.diagGet c).toNat = min 65535 (n c)

theorem shows_new : Shows .new fun _ => 0 := by
  intro c
  cases c <;> decide

theorem Shows.of_eq {n' : MbDiag → ℕ} (shown : s.Shows n) (same : ∀ c, n c = n' c) : s.Shows n' := by
  rwa [← funext same]

theorem Shows.diagCount (shown : s.Shows n) (c : MbDiag) :
    (s.diagCount c).Shows (Function.update n c (n c + 1)) := by
  intro d
  by_cases same : d = c
  · subst same
    have before := shown d
    rw [diagGet_diagCount_self, Function.update_self]
    split
    · rename_i top
      rw [top] at before
      have : (65535 : UInt16).toNat = 65535 := rfl
      omega
    · rename_i below
      have : (s.diagGet d).toNat ≠ 65535 := fun top => below (UInt16.toNat_inj.1 top)
      have : (1 : UInt16).toNat = 1 := rfl
      rw [UInt16.toNat_add]
      omega
  · rw [diagGet_diagCount_ne s same, Function.update_of_ne same]
    exact shown d

end MbServer

/-- What the decoder counts for a PDU with the response `rsp`. -/
def decodes (rsp : List UInt8) (n : MbDiag → ℕ) : MbDiag → ℕ
  | .busMsg => n .busMsg + 1
  | .srvMsg => n .srvMsg + 1
  | .exc => n .exc + if isExceptionRsp rsp then 1 else 0
  | c => n c

theorem MbBus.Decoded.shows {b b' : MbBus} {pdu out : List UInt8} {k : ℕ} {n : MbDiag → ℕ}
    (decoded : b.Decoded pdu b' out k) (shown : b.srv.Shows n) (kept : Mb.isClear pdu = false) :
    b'.srv.Shows (decodes (out.take k) n) := by
  have received := (shown.diagCount .busMsg).diagCount .srvMsg
  rw [decoded.counted, kept]
  split
  · rename_i exception
    refine (received.diagCount .exc).of_eq fun c => ?_
    cases c <;> simp [decodes, exception]
  · rename_i normal
    refine received.of_eq fun c => ?_
    cases c <;> simp [decodes, normal]

/-- The order among the counts that no clear request disturbs. -/
def MbServer.Ordered (s : MbServer) : Prop :=
  ∃ n, s.Shows n ∧ n .exc ≤ n .srvMsg ∧ n .srvMsg ≤ n .busMsg ∧ n .crcErr ≤ n .noResp

theorem MbServer.ordered_new : Ordered .new := ⟨_, shows_new, by decide⟩

/-- The two counters at the upper ends of the order may grow on their own. -/
theorem MbServer.Ordered.diagCount {s : MbServer} (ordered : s.Ordered) {c : MbDiag}
    (upper : c = .busMsg ∨ c = .noResp) : (s.diagCount c).Ordered := by
  obtain ⟨n, shown, exc, srv, crc⟩ := ordered
  refine ⟨_, shown.diagCount c, ?_⟩
  rcases upper with rfl | rfl
  · simp only [Function.update, reduceCtorEq, dite_true, dite_false]
    omega
  · simp only [Function.update, reduceCtorEq, dite_true, dite_false]
    omega

theorem MbBus.Decoded.ordered {b b' : MbBus} {pdu out : List UInt8} {k : ℕ}
    (decoded : b.Decoded pdu b' out k) (ordered : b.srv.Ordered) : b'.srv.Ordered := by
  obtain ⟨n, shown, exc, srv, crc⟩ := ordered
  cases clear : Mb.isClear pdu with
  | false =>
    refine ⟨_, decoded.shows shown clear, ?_, Nat.succ_le_succ srv, crc⟩
    simp only [decodes]
    split <;> omega
  | true =>
    have counted := decoded.counted
    rw [clear, if_pos rfl] at counted
    rw [counted]
    split
    · refine ⟨_, ((shown.diagCount .busMsg).diagCount .srvMsg).diagCount .exc, ?_⟩
      simp only [Function.update, reduceCtorEq, dite_true, dite_false]
      omega
    · exact MbServer.ordered_new

/-! ## Frames of both transports -/

/-- The bytes between two expiries in the feeds they came in, or one TCP ADU. -/
inductive BusFrame where
  | rtu (chunks : List (List UInt8))
  | tcp (adu : List UInt8)

namespace BusFrame

/-- At least one byte before the expiry, or an ADU of at least eight bytes with protocol id 0. -/
def counts : BusFrame → Bool
  | rtu chunks => !chunks.flatten.isEmpty
  | tcp adu => isModbusAdu adu

/-- An RTU frame of 4 to 256 bytes with a wrong CRC. -/
def crcWrong : BusFrame → Bool
  | rtu chunks => decide (4 ≤ chunks.flatten.length ∧ chunks.flatten.length ≤ 256 ∧ ¬ RtuFrame.CrcOk chunks.flatten)
  | tcp _ => false

end BusFrame

/-- The RTU assembler and the server; `seen` lists the frames, each with whether it was answered. -/
structure MbLine where
  frame : RtuFrame
  bus : MbBus
  seen : List (BusFrame × Bool)

namespace MbLine

/-- The line after power-up, with no byte of a frame received. -/
def boot (frame : RtuFrame) (regs : RegMap) (hooks : Hooks) : MbLine := ⟨frame.reset, ⟨.new, regs, hooks, []⟩, []⟩

/-- A frame on the line. -/
def step (l : MbLine) (e : BusFrame) : Option MbLine :=
  match e with
  | .rtu chunks =>
    ((l.frame.feed chunks).t35Expired l.bus (List.replicate 259 0)).map fun r =>
      ⟨r.1, r.2.1, l.seen ++ [(e, r.2.2.2.isSome)]⟩
  | .tcp adu =>
    (mbtcpAduProcess l.bus adu (List.replicate mbtcpAduTxMax 0)).map fun r =>
      ⟨l.frame, r.1, l.seen ++ [(e, decide (r.2.2 ≠ 0))]⟩

/-- What the frames so far come to, counter by counter. -/
def tally (l : MbLine) : MbDiag → ℕ
  | .busMsg => l.seen.countP (·.1.counts)
  | .noResp => l.seen.countP fun x => x.1.counts && !x.2
  | .srvMsg => l.bus.decoded.length
  | .exc => l.bus.decoded.countP (isExceptionRsp ·.2)
  | .crcErr => l.seen.countP (·.1.crcWrong)

end MbLine

/-! ## One frame -/

/-- What a frame can do to the server, by whether it counts, is answered and has a wrong CRC. -/
inductive Seen (b : MbBus) : Bool → Bool → Bool → MbBus → Prop
  | ignored (answered : Bool) : Seen b false answered false b
  | refused : Seen b true false false ((b.count .busMsg).count .noResp)
  | corrupt : Seen b true false true (((b.count .busMsg).count .crcErr).count .noResp)
  | silent {pdu b' out n} (decoded : b.Decoded pdu b' out n) : Seen b true false false (b'.count .noResp)
  | answered {pdu b' out n} (decoded : b.Decoded pdu b' out n) : Seen b true true false b'

theorem expired_seen (unit : UInt8) (bs : List UInt8) (b : MbBus) {tx : List UInt8} (room : tx.length = 259) :
    ∃ b' tx' reply, RtuFrame.expired unit bs b tx = some (b', tx', reply) ∧
      Seen b (!bs.isEmpty) reply.isSome
        (decide (4 ≤ bs.length ∧ bs.length ≤ 256 ∧ ¬ RtuFrame.CrcOk bs)) b' := by
  unfold RtuFrame.expired
  by_cases empty : bs = []
  · subst empty
    exact ⟨_, _, _, if_pos rfl, .ignored false⟩
  have counts : (!bs.isEmpty) = true := by simpa using empty
  rw [if_neg empty, counts]
  have most : rtuFrameMax = 256 := rfl
  have least : rtuFrameMin = 4 := rfl
  by_cases wrong : bs.length < rtuFrameMin ∨ rtuFrameMax < bs.length
  · have size : ¬(4 ≤ bs.length ∧ bs.length ≤ 256 ∧ ¬ RtuFrame.CrcOk bs) := by omega
    rw [if_pos wrong, decide_eq_false size]
    exact ⟨_, _, _, rfl, .refused⟩
  rw [if_neg wrong]
  by_cases crc : RtuFrame.CrcOk bs
  · have good : ¬(4 ≤ bs.length ∧ bs.length ≤ 256 ∧ ¬ RtuFrame.CrcOk bs) := fun bad => bad.2.2 crc
    rw [if_neg (not_not.2 crc), decide_eq_false good]
    split
    · exact ⟨_, _, _, rfl, .refused⟩
    have length : ((bs.drop 1).take (bs.length - 3)).length = bs.length - 3 := by simp; omega
    obtain ⟨b', out, n, -, decoded, delivered⟩ := RtuFrame.rtuDeliver_eq b room
      (List.length_pos_iff.1 (by omega)) (by omega : ((bs.drop 1).take (bs.length - 3)).length ≤ 256) (bs.headD 0)
    split at delivered
    · exact ⟨_, _, _, delivered, .silent decoded⟩
    · obtain ⟨tx', delivered, -⟩ := delivered
      exact ⟨_, _, _, delivered, .answered decoded⟩
  · have bad : 4 ≤ bs.length ∧ bs.length ≤ 256 ∧ ¬ RtuFrame.CrcOk bs := ⟨by omega, by omega, crc⟩
    rw [if_pos crc, decide_eq_true bad]
    exact ⟨_, _, _, rfl, .corrupt⟩

theorem mbtcpAduProcess_seen (b : MbBus) (adu : List UInt8) {out : List UInt8}
    (room : out.length = mbtcpAduTxMax) :
    ∃ b' out' n, mbtcpAduProcess b adu out = some (b', out', n) ∧
      Seen b (isModbusAdu adu) (decide (n ≠ 0)) false b' := by
  cases modbus : isModbusAdu adu with
  | false =>
    obtain ⟨out', n, ran, -⟩ := mbtcpAduProcess_foreign b room modbus
    exact ⟨b, out', n, ran, .ignored _⟩
  | true =>
    obtain ⟨pdu, b', rsp, n, decoded, out', -, ran | ran⟩ := mbtcpAduProcess_modbus b room modbus
    · exact ⟨_, _, _, ran, .silent decoded⟩
    · refine ⟨_, _, _, ran, ?_⟩
      rw [decide_eq_true (by omega : 7 + n ≠ 0)]
      exact .answered decoded

theorem Seen.ordered {b b' : MbBus} {counts replied wrong : Bool} (seen : Seen b counts replied wrong b')
    (ordered : b.srv.Ordered) : b'.srv.Ordered := by
  cases seen with
  | ignored => exact ordered
  | refused => exact (ordered.diagCount (.inl rfl)).diagCount (.inr rfl)
  | corrupt =>
    obtain ⟨n, shown, exc, srv, crc⟩ := ordered
    refine ⟨_, ((shown.diagCount .busMsg).diagCount .crcErr).diagCount .noResp, ?_⟩
    simp only [Function.update, reduceCtorEq, dite_true, dite_false]
    omega
  | silent decoded => exact (decoded.ordered ordered).diagCount (.inr rfl)
  | answered decoded => exact decoded.ordered ordered

/-- A server of which the order holds reports it. -/
theorem MbServer.Ordered.reported {s : MbServer} (ordered : s.Ordered) :
    s.diagGet .exc ≤ s.diagGet .srvMsg ∧ s.diagGet .srvMsg ≤ s.diagGet .busMsg ∧
      s.diagGet .crcErr ≤ s.diagGet .noResp := by
  obtain ⟨n, shown, exc, srv, crc⟩ := ordered
  simp only [UInt16.le_iff_toNat_le, shown _]
  omega

namespace MbLine

variable {l l' : MbLine}

/-- Every frame is dealt with, in one of the ways of `Seen`. -/
theorem step_seen (idle : l.frame.Idle) (e : BusFrame) :
    ∃ l' replied, l.step e = some l' ∧ l'.frame.Idle ∧ l'.seen = l.seen ++ [(e, replied)] ∧
      Seen l.bus e.counts replied e.crcWrong l'.bus := by
  cases e with
  | rtu chunks =>
    have holds := idle.holds.feed chunks
    rw [List.nil_append] at holds
    obtain ⟨b', tx', reply, ran, seen⟩ := expired_seen l.frame.srvUnit chunks.flatten l.bus
      (List.length_replicate (n := 259) (a := (0 : UInt8)))
    refine ⟨⟨_, b', _⟩, reply.isSome, ?_, RtuFrame.idle_reset (l.frame.feed chunks), rfl, seen⟩
    rw [step, holds.t35Expired, ran]
    rfl
  | tcp adu =>
    obtain ⟨b', out', n, ran, seen⟩ := mbtcpAduProcess_seen l.bus adu
      (List.length_replicate (n := mbtcpAduTxMax) (a := (0 : UInt8)))
    refine ⟨⟨l.frame, b', _⟩, decide (n ≠ 0), ?_, idle, rfl, seen⟩
    rw [step, ran]
    rfl

/-- A frame adds to the tally what it adds to the counters, unless it clears them. -/
theorem shows_tally {e : BusFrame} {replied : Bool} (seen : Seen l.bus e.counts replied e.crcWrong l'.bus)
    (logged : l'.seen = l.seen ++ [(e, replied)]) (kept : ∀ d ∈ l'.bus.decoded, Mb.isClear d.1 = false)
    (shown : l.bus.srv.Shows l.tally) : l'.bus.srv.Shows l'.tally := by
  obtain ⟨frame, b', log⟩ := l'
  generalize counts : e.counts = k at seen
  generalize wrong : e.crcWrong = w at seen
  dsimp only at seen logged kept ⊢
  subst logged
  cases seen with
  | ignored =>
    refine shown.of_eq fun c => ?_
    cases c <;> simp [tally, counts, wrong]
  | refused =>
    refine ((shown.diagCount .busMsg).diagCount .noResp).of_eq fun c => ?_
    cases c <;> simp [tally, counts, wrong, MbBus.count]
  | corrupt =>
    refine (((shown.diagCount .busMsg).diagCount .crcErr).diagCount .noResp).of_eq fun c => ?_
    cases c <;> simp [tally, counts, wrong, MbBus.count]
  | @silent pdu b' out n decoded =>
    have ran := (decoded.shows shown (kept (pdu, out.take n) (by simp [MbBus.count, decoded.logged])))
    refine (ran.diagCount .noResp).of_eq fun c => ?_
    cases c <;> simp [tally, counts, wrong, MbBus.count, decoded.logged, decodes, List.countP_singleton]
  | @answered pdu b' out n decoded =>
    refine (decoded.shows shown (kept (pdu, out.take n) (by simp [decoded.logged]))).of_eq fun c => ?_
    cases c <;> simp [tally, counts, wrong, decoded.logged, decodes, List.countP_singleton]

theorem decoded_grows {l : MbLine} {counts replied wrong : Bool} {b' : MbBus}
    (seen : Seen l.bus counts replied wrong b') : l.bus.decoded <+: b'.decoded := by
  cases seen with
  | ignored => exact List.prefix_rfl
  | refused => exact List.prefix_rfl
  | corrupt => exact List.prefix_rfl
  | silent decoded => exact decoded.logged ▸ List.prefix_append _ _
  | answered decoded => exact decoded.logged ▸ List.prefix_append _ _

/-- What holds after any frames. -/
structure Sound (l : MbLine) (frames : List BusFrame) : Prop where
  idle : l.frame.Idle
  all : l.seen.map Prod.fst = frames
  ordered : l.bus.srv.Ordered
  counted : (∀ d ∈ l.bus.decoded, Mb.isClear d.1 = false) → l.bus.srv.Shows l.tally

theorem sound_boot (frame : RtuFrame) (regs : RegMap) (hooks : Hooks) : (boot frame regs hooks).Sound [] := by
  refine ⟨RtuFrame.idle_reset frame, rfl, MbServer.ordered_new, fun _ => MbServer.shows_new.of_eq fun c => ?_⟩
  cases c <;> rfl

theorem Sound.step {frames : List BusFrame} (sound : l.Sound frames) (e : BusFrame) :
    ∃ l', l.step e = some l' ∧ l'.Sound (frames ++ [e]) := by
  obtain ⟨l', replied, stepped, idle, logged, seen⟩ := step_seen sound.idle e
  refine ⟨l', stepped, idle, ?_, seen.ordered sound.ordered, fun kept => ?_⟩
  · rw [logged, List.map_append, sound.all]
    rfl
  · apply shows_tally seen logged kept
    exact sound.counted fun d before => kept d ((decoded_grows seen).subset before)

theorem sound_run (frame : RtuFrame) (regs : RegMap) (hooks : Hooks) (frames : List BusFrame) :
    ∃ l, frames.foldlM MbLine.step (boot frame regs hooks) = some l ∧ l.Sound frames := by
  refine Run.served (Q := fun frames (l : MbLine) => l.Sound frames) ?_ ?_ frames
  · exact sound_boot frame regs hooks
  · intro before l e sound
    exact sound.step e

/-- RTU frames and TCP ADUs in any order are all dealt with.  As long as no clear request was decoded
every counter stands at the number of what it counts, up to 65535; and with clear requests anywhere
there are never more exceptions than decoded PDUs, more of these than frames on the bus, or more CRC
errors than frames without a response. -/
theorem counters_account (frame : RtuFrame) (regs : RegMap) (hooks : Hooks) (frames : List BusFrame) :
    ∃ l, frames.foldlM MbLine.step (boot frame regs hooks) = some l ∧ l.seen.map Prod.fst = frames ∧
      ((∀ d ∈ l.bus.decoded, Mb.isClear d.1 = false) → ∀ c, (l.bus.srv.diagGet c).toNat = min 65535 (l.tally c)) ∧
      l.bus.srv.diagGet .exc ≤ l.bus.srv.diagGet .srvMsg ∧
      l.bus.srv.diagGet .srvMsg ≤ l.bus.srv.diagGet .busMsg ∧
      l.bus.srv.diagGet .crcErr ≤ l.bus.srv.diagGet .noResp := by
  obtain ⟨l, ran, sound⟩ := sound_run frame regs hooks frames
  exact ⟨l, ran, sound.all, sound.counted, sound.ordered.reported⟩

end MbLine

end IoEdgeHub
