import IoEdgeHub.Lib.Feed
import IoEdgeHub.Proto.MbtcpAdu

/-!
# Modbus TCP connections

`mbtcp.rs`: `serve` cuts what it reads from the socket into ADUs by their MBAP length and answers them
one by one.  `serveChunk_eq` shows that its copy loop does the same as storing the bytes one at a time
(`feedByte`); the independence of how the stream is cut, and what becomes of whole ADUs, are read off
the byte machine.  The half-frame deadline is left out.
-/

namespace IoEdgeHub

open Bytes Feed

/-- Total on-wire length of the ADU in `frame`, with the MBAP length clamped. -/
def mbapFrameLen (frame : List UInt8) : Option ℕ := do
  let hi ← frame[4]?
  let lo ← frame[5]?
  return 6 + (min (getBe16 hi lo) 256).toNat

/-- What surrounds a connection, by the number of ADUs it has processed: what others do to the server
before the next one, and whether the socket takes the reply to it. -/
structure MbtcpEnv where
  others : ℕ → MbBus → MbBus
  written : ℕ → Bool

/-- The variables of `serve`, the shared server, and the replies sent. -/
structure MbtcpConn where
  frame : List UInt8
  flen : ℕ
  out : List UInt8
  bus : MbBus
  calls : ℕ
  sent : List (List UInt8)

namespace MbtcpConn

variable (env : MbtcpEnv)

/-- A connection that begins. -/
def start (bus : MbBus) : MbtcpConn :=
  ⟨List.replicate 264 0, 0, List.replicate mbtcpAduTxMax 0, bus, 0, []⟩

/-- Process the ADU in the frame buffer and send the reply; a failed write ends the connection. -/
def answer (s : MbtcpConn) : Option (Out MbtcpConn (List UInt8)) :=
  (mbapFrameLen s.frame).bind fun len =>
    (slice s.frame 0 len).bind fun adu =>
      (mbtcpAduProcess (env.others s.calls s.bus) adu s.out).bind fun r =>
        let s' := { s with bus := r.1, out := r.2.1, calls := s.calls + 1 }
        if r.2.2 = 0 then some ⟨{ s' with flen := 0 }, [adu], true⟩
        else (slice r.2.1 0 r.2.2).map fun reply =>
          if env.written s.calls then ⟨{ s' with flen := 0, sent := s.sent ++ [reply] }, [adu], true⟩
          else ⟨s', [adu], false⟩

/-- After a copy: answer the ADU if it is complete. -/
def settle (s : MbtcpConn) : Option (Out MbtcpConn (List UInt8)) :=
  (mbapFrameLen s.frame).bind fun len =>
    if 8 ≤ s.flen ∧ len ≤ s.flen then s.answer env else some ⟨s, [], true⟩

/-- Up to where the frame buffer is filled next: the header first, then the rest. -/
def want (s : MbtcpConn) : Option ℕ := if s.flen < 8 then some 8 else mbapFrameLen s.frame

/-- The inner loop over the `rbuf.length` bytes of one read, from `ix` on. -/
def serveChunk : ℕ → MbtcpConn → List UInt8 → ℕ → Option (Out MbtcpConn (List UInt8))
  | fuel, s, rbuf, ix =>
    if ix < rbuf.length then
      match fuel with
      | 0 => none
      | fuel + 1 =>
        s.want.bind fun want =>
          if want < s.flen then none
          else
            let take := min (rbuf.length - ix) (want - s.flen)
            (slice rbuf ix (ix + take)).bind fun bytes =>
              (copyIn s.frame s.flen bytes).bind fun frame =>
                ({ s with frame, flen := s.flen + take }.settle env).bind fun first =>
                  first.andThen fun s => serveChunk fuel s rbuf (ix + take)
    else some ⟨s, [], true⟩

/-- One element per read; a read of nothing means that the peer has closed. -/
def serve : MbtcpConn → List (List UInt8) → Option (Out MbtcpConn (List UInt8))
  | s, [] => some ⟨s, [], true⟩
  | s, rbuf :: reads =>
    if rbuf.length = 0 then some ⟨s, [], false⟩
    else (serveChunk env rbuf.length s rbuf 0).bind fun first => first.andThen fun s => serve s reads

/-- Store one byte. -/
def feedByte (s : MbtcpConn) (b : UInt8) : Option (Out MbtcpConn (List UInt8)) :=
  (put s.frame s.flen b).bind fun frame => { s with frame, flen := s.flen + 1 }.settle env

/-! ## The frame buffer -/

theorem mbapFrameLen_eq {frame : List UInt8} (size : frame.length = 264) :
    ∃ len, mbapFrameLen frame = some len ∧ 6 ≤ len ∧ len ≤ 262 := by
  obtain ⟨hi, fourth⟩ : ∃ b, frame[4]? = some b := ⟨_, List.getElem?_eq_getElem (by omega)⟩
  obtain ⟨lo, fifth⟩ : ∃ b, frame[5]? = some b := ⟨_, List.getElem?_eq_getElem (by omega)⟩
  refine ⟨6 + (min (getBe16 hi lo) 256).toNat, ?_, Nat.le_add_right _ _, ?_⟩
  · rw [mbapFrameLen, fourth, fifth]
    rfl
  · exact Nat.add_le_add_left (toNat_clamp_le (getBe16 hi lo)) 6

/-- The length is known from the first six bytes. -/
theorem mbapFrameLen_congr {a b : List UInt8} (same : ∀ i < 6, a[i]? = b[i]?) :
    mbapFrameLen a = mbapFrameLen b := by
  rw [mbapFrameLen, mbapFrameLen, same 4 (by decide), same 5 (by decide)]

/-- The frame buffer is open: its ADU is not complete. -/
structure Filling (s : MbtcpConn) : Prop where
  size : s.frame.length = 264
  room : s.out.length = mbtcpAduTxMax
  partly : ∀ len, mbapFrameLen s.frame = some len → s.flen < 8 ∨ s.flen < len

theorem filling_start (bus : MbBus) : (start bus).Filling :=
  ⟨List.length_replicate, List.length_replicate, fun _ _ => .inl (Nat.zero_lt_succ 7)⟩

variable {s : MbtcpConn}

theorem Filling.want (filling : s.Filling) : ∃ w, s.want = some w ∧ s.flen < w ∧ w ≤ 262 := by
  obtain ⟨len, known, least, most⟩ := mbapFrameLen_eq filling.size
  unfold MbtcpConn.want
  split
  · exact ⟨8, rfl, by assumption, by decide⟩
  · rename_i header
    exact ⟨len, known, (filling.partly len known).resolve_left header, most⟩

/-- The ADU is processed once, and the buffer is empty again unless the write failed. -/
theorem answer_eq (size : s.frame.length = 264) (room : s.out.length = mbtcpAduTxMax) {len : ℕ}
    (known : mbapFrameLen s.frame = some len) (inside : len ≤ 262) :
    ∃ s' alive, s.answer env = some ⟨s', [s.frame.take len], alive⟩ ∧ (alive = true → s'.Filling ∧ s'.flen = 0) ∧
      ((∀ k, env.written k = true) → alive = true) := by
  have cut : slice s.frame 0 len = some (s.frame.take len) := slice_eq (Nat.zero_le _) (by omega)
  obtain ⟨b', out', n, ran, length, small⟩ :=
    mbtcpAduProcess_total (env.others s.calls s.bus) (s.frame.take len) room
  have reply : slice out' 0 n = some (out'.take n) := slice_eq (Nat.zero_le _) (by omega)
  have ready (sent : List (List UInt8)) : (⟨s.frame, 0, out', b', s.calls + 1, sent⟩ : MbtcpConn).Filling :=
    ⟨size, length, fun _ _ => .inl (Nat.zero_lt_succ 7)⟩
  rw [answer, known, Option.bind_some, cut, Option.bind_some, ran, Option.bind_some]
  dsimp only
  split
  · exact ⟨_, _, rfl, fun _ => ⟨ready _, rfl⟩, fun _ => rfl⟩
  · rw [reply, Option.map_some]
    split
    · exact ⟨_, _, rfl, fun _ => ⟨ready _, rfl⟩, fun _ => rfl⟩
    · rename_i failed
      exact ⟨_, _, rfl, fun no => (by cases no), fun all => absurd (all _) failed⟩

theorem settle_total (size : s.frame.length = 264) (room : s.out.length = mbtcpAduTxMax) :
    ∃ out, s.settle env = some out ∧ (out.alive = true → out.state.Filling) := by
  obtain ⟨len, known, least, most⟩ := mbapFrameLen_eq size
  rw [settle, known, Option.bind_some]
  split
  · obtain ⟨s', alive, ran, ready, -⟩ := answer_eq env size room known most
    exact ⟨_, ran, fun up => (ready up).1⟩
  · rename_i partly
    refine ⟨_, rfl, fun _ => ⟨size, room, fun len' known' => ?_⟩⟩
    cases known.symm.trans known'
    by_contra complete
    exact partly (by dsimp only at complete; omega)

theorem Filling.settle (filling : s.Filling) : s.settle env = some ⟨s, [], true⟩ := by
  obtain ⟨len, known, -⟩ := mbapFrameLen_eq filling.size
  have partly := filling.partly len known
  rw [MbtcpConn.settle, known, Option.bind_some, if_neg (by omega)]

/-! ## Copying is storing byte by byte -/

/-- A byte before the wanted position keeps the buffer open, and the position. -/
theorem Filling.next (filling : s.Filling) {w : ℕ} (wants : s.want = some w) (below : s.flen + 1 < w) (b : UInt8) :
    ({ s with frame := s.frame.set s.flen b, flen := s.flen + 1 } : MbtcpConn).Filling ∧
      ({ s with frame := s.frame.set s.flen b, flen := s.flen + 1 } : MbtcpConn).want = some w := by
  have size : (s.frame.set s.flen b).length = 264 := by rw [List.length_set, filling.size]
  unfold MbtcpConn.want at wants ⊢
  by_cases header : s.flen < 8
  · rw [if_pos header] at wants
    cases wants
    exact ⟨⟨size, filling.room, fun _ _ => .inl below⟩, if_pos below⟩
  · rw [if_neg header] at wants
    have same : mbapFrameLen (s.frame.set s.flen b) = some w := by
      rw [← wants]
      apply mbapFrameLen_congr
      intro i early
      exact List.getElem?_set_ne (by omega)
    refine ⟨⟨size, filling.room, fun len known => .inr ?_⟩, ?_⟩
    · cases same.symm.trans known
      exact below
    · rw [if_neg (by dsimp only; omega)]
      exact same

/-- Bytes up to the wanted position take effect together at the end of the copy. -/
theorem Filling.consume {bytes : List UInt8} (filling : s.Filling) (nonempty : bytes ≠ []) {w : ℕ}
    (wants : s.want = some w) (upTo : s.flen + bytes.length ≤ w) :
    ∃ frame, copyIn s.frame s.flen bytes = some frame ∧
      Feed.consume (feedByte env) s bytes = { s with frame, flen := s.flen + bytes.length }.settle env := by
  obtain ⟨w', wants', -, most⟩ := filling.want
  cases wants.symm.trans wants'
  have size := filling.size
  induction bytes generalizing s with
  | nil => exact absurd rfl nonempty
  | cons b rest ih =>
    simp only [List.length_cons] at upTo
    have stored : put s.frame s.flen b = some (s.frame.set s.flen b) := if_pos (by omega)
    rw [copyIn_cons, stored, Option.bind_some]
    rcases eq_or_ne rest [] with rfl | more
    · refine ⟨s.frame.set s.flen b, ?_, ?_⟩
      · rw [copyIn, if_pos (by simp; omega), List.append_nil, List.length_nil, Nat.add_zero, List.take_append_drop]
      · rw [consume_singleton, feedByte, stored]
        rfl
    · have pos := List.length_pos_iff.2 more
      obtain ⟨filling₁, wants₁⟩ := filling.next wants (by omega) b
      obtain ⟨frame, copied, ran⟩ := ih filling₁ more wants₁ (by dsimp only; omega) wants₁ filling₁.size
      refine ⟨frame, copied, ?_⟩
      rw [Feed.consume, feedByte, stored, Option.bind_some, filling₁.settle env, Option.bind_some, andThen_silent, ran]
      simp only [List.length_cons, Nat.add_assoc, Nat.add_comm 1]

/-- The copy loop is the byte machine; one pass per byte is fuel enough. -/
theorem serveChunk_eq (filling : s.Filling) {fuel : ℕ} {rbuf : List UInt8} {ix : ℕ}
    (enough : rbuf.length - ix ≤ fuel) :
    serveChunk env fuel s rbuf ix = consume (feedByte env) s (rbuf.drop ix) := by
  induction fuel generalizing s ix with
  | zero =>
    rw [serveChunk, if_neg (by omega), List.drop_of_length_le (by omega)]
    rfl
  | succ fuel ih =>
    rw [serveChunk]
    split
    · rename_i more
      obtain ⟨w, wants, below, -⟩ := filling.want
      rw [wants, Option.bind_some, if_neg (by omega)]
      dsimp only
      generalize taken : min (rbuf.length - ix) (w - s.flen) = take
      have cut : slice rbuf ix (ix + take) = some ((rbuf.drop ix).take take) := by
        rw [slice_eq (by omega) (by omega), Nat.add_sub_cancel_left]
      have length : ((rbuf.drop ix).take take).length = take := by simp; omega
      obtain ⟨frame, copied, ran⟩ := filling.consume env
        (List.length_pos_iff.1 (by omega) : (rbuf.drop ix).take take ≠ []) wants (by omega)
      rw [length] at ran
      have whole : rbuf.drop ix = (rbuf.drop ix).take take ++ rbuf.drop (ix + take) := by
        rw [← List.drop_drop, List.take_append_drop]
      rw [cut, Option.bind_some, copied, Option.bind_some, whole, consume_append, ran]
      obtain ⟨⟨s', events, alive⟩, settled, filling'⟩ := settle_total env
        (s := { s with frame, flen := s.flen + take }) ((length_copyIn copied).trans filling.size) filling.room
      rw [settled, Option.bind_some, Option.bind_some]
      cases alive with
      | false => rfl
      | true => rw [andThen_alive, andThen_alive, ih (filling' rfl) (by omega)]
    · rw [List.drop_of_length_le (by omega)]
      rfl

theorem feedByte_total (filling : s.Filling) (b : UInt8) :
    ∃ out, feedByte env s b = some out ∧ (out.alive = true → out.state.Filling) := by
  obtain ⟨w, -, below, most⟩ := filling.want
  have size := filling.size
  have stored : put s.frame s.flen b = some (s.frame.set s.flen b) := if_pos (by omega)
  rw [feedByte, stored, Option.bind_some]
  exact settle_total env (by rw [List.length_set, size]) filling.room

/-- The whole connection is the byte machine on the stream. -/
theorem serve_eq (filling : s.Filling) {reads : List (List UInt8)} (nonempty : ∀ rbuf ∈ reads, 1 ≤ rbuf.length) :
    serve env s reads = consume (feedByte env) s reads.flatten := by
  induction reads generalizing s with
  | nil => rfl
  | cons rbuf reads ih =>
    have now := nonempty rbuf List.mem_cons_self
    rw [serve, if_neg (by omega), serveChunk_eq env filling (Nat.sub_le _ _), List.drop_zero, List.flatten_cons,
      consume_append]
    obtain ⟨⟨s', events, alive⟩, ran, filling'⟩ :=
      consume_total (fun s b (filling₁ : s.Filling) => feedByte_total env filling₁ b) filling rbuf
    rw [ran, Option.bind_some, Option.bind_some]
    cases alive with
    | false => rfl
    | true =>
      rw [andThen_alive, andThen_alive, ih (filling' rfl) fun r later => nonempty r (List.mem_cons_of_mem _ later)]

/-! ## Whole ADUs -/

/-- The length field is between 2 and 256 and counts the bytes after it. -/
def IsAdu : List UInt8 → Prop
  | _ :: _ :: _ :: _ :: l0 :: l1 :: rest =>
    2 ≤ (getBe16 l0 l1).toNat ∧ (getBe16 l0 l1).toNat ≤ 256 ∧ rest.length = (getBe16 l0 l1).toNat
  | _ => False

theorem IsAdu.frameLen {a : List UInt8} (adu : IsAdu a) :
    mbapFrameLen a = some a.length ∧ 8 ≤ a.length ∧ a.length ≤ 262 := by
  unfold IsAdu at adu
  split at adu
  · rename_i l0 l1 rest
    obtain ⟨least, most, length⟩ := adu
    have clamp : min (getBe16 l0 l1) 256 = getBe16 l0 l1 := if_pos (UInt16.le_iff_toNat_le.2 most)
    refine ⟨?_, by simp; omega, by simp; omega⟩
    simp only [mbapFrameLen, List.getElem?_cons_succ, List.getElem?_cons_zero, clamp, Option.bind_eq_bind,
      Option.bind_some, List.length_cons, length]
    rw [Nat.add_comm]
    rfl
  · exact adu.elim

/-- The buffer holds exactly an ADU: it is processed. -/
theorem settle_adu {a : List UInt8} (adu : IsAdu a) (size : s.frame.length = 264)
    (room : s.out.length = mbtcpAduTxMax) (full : s.flen = a.length) (holds : s.frame.take a.length = a) :
    ∃ s' alive, s.settle env = some ⟨s', [a], alive⟩ ∧ (alive = true → s'.Filling ∧ s'.flen = 0) ∧
      ((∀ k, env.written k = true) → alive = true) := by
  obtain ⟨known, least, most⟩ := adu.frameLen
  have same : mbapFrameLen s.frame = some a.length := by
    rw [← known]
    apply mbapFrameLen_congr
    intro i early
    rw [← holds, List.getElem?_take_of_lt (by omega)]
  rw [settle, same, Option.bind_some, if_pos (by omega)]
  have answered := answer_eq env size room same most
  rwa [holds] at answered

/-- Between two ADUs. -/
def Ready (s : MbtcpConn) : Prop := s.Filling ∧ s.flen = 0

/-- An ADU that comes in whole is processed once, with exactly its bytes. -/
theorem consume_adu {a : List UInt8} (adu : IsAdu a) (ready : s.Ready) :
    ∃ s' alive, consume (feedByte env) s a = some ⟨s', [a], alive⟩ ∧ (alive = true → s'.Ready) ∧
      ((∀ k, env.written k = true) → alive = true) := by
  obtain ⟨filling, empty⟩ := ready
  obtain ⟨known, least, most⟩ := adu.frameLen
  have header : (a.take 8).length = 8 := by simp; omega
  obtain ⟨frame₁, copied₁, ran₁⟩ := filling.consume env (List.length_pos_iff.1 (by omega) : a.take 8 ≠ [])
    (if_pos (by omega) : s.want = some 8) (by omega)
  have size₁ := (length_copyIn copied₁).trans filling.size
  have holds₁ := take_copyIn copied₁
  rw [header, empty, Nat.zero_add, List.take_zero, List.nil_append] at holds₁
  rw [header, empty, Nat.zero_add] at ran₁
  rcases eq_or_ne (a.drop 8) [] with short | more
  · have eight : a.length = 8 := by
      have := List.drop_eq_nil_iff.1 short
      omega
    have whole : a.take 8 = a := List.take_of_length_le (by omega)
    rw [whole] at ran₁ holds₁
    rw [ran₁]
    exact settle_adu env adu size₁ filling.room eight.symm (by rw [eight, holds₁])
  · have rest := List.length_pos_iff.2 more
    rw [List.length_drop] at rest
    have same : mbapFrameLen frame₁ = some a.length := by
      rw [← known]
      apply mbapFrameLen_congr
      intro i early
      rw [← List.getElem?_take_of_lt (by omega : i < 8), holds₁, List.getElem?_take_of_lt (by omega)]
    -- the header is in: the buffer is still open and wants the rest
    have filling₁ : ({ s with frame := frame₁, flen := 8 } : MbtcpConn).Filling := by
      refine ⟨size₁, filling.room, fun len known' => .inr ?_⟩
      cases same.symm.trans known'
      dsimp only
      omega
    obtain ⟨frame₂, copied₂, ran₂⟩ := filling₁.consume env more (same : _ = some a.length)
      (by rw [List.length_drop]; dsimp only; omega)
    have holds₂ := take_copyIn copied₂
    rw [holds₁, List.take_append_drop, List.length_drop, Nat.add_sub_cancel' least] at holds₂
    have split : consume (feedByte env) s a = consume (feedByte env) s (a.take 8 ++ a.drop 8) := by
      rw [List.take_append_drop]
    rw [split, consume_append, ran₁, filling₁.settle env, Option.bind_some, andThen_silent, ran₂]
    refine settle_adu env adu ?_ filling.room ?_ holds₂
    · exact (length_copyIn copied₂).trans size₁
    · rw [List.length_drop]
      exact Nat.add_sub_cancel' least

theorem consume_adus {adus : List (List UInt8)} (whole : ∀ a ∈ adus, IsAdu a) (ready : s.Ready) :
    ∃ out, consume (feedByte env) s adus.flatten = some out ∧ out.emitted <+: adus ∧
      (out.alive = true → out.emitted = adus ∧ out.state.flen = 0) ∧
      ((∀ k, env.written k = true) → out.alive = true) := by
  have each (a : List UInt8) (member : a ∈ adus) (s : MbtcpConn) (ready : s.Ready) :
      ∃ s' alive, (alive = true → s'.Ready) ∧ consume (feedByte env) s (id a) = some ⟨s', [id a], alive⟩ := by
    obtain ⟨s', alive, fed, next, -⟩ := consume_adu env (whole a member) ready
    exact ⟨s', alive, next, fed⟩
  obtain ⟨out, ran, before, done⟩ := consume_frames_until each ready
  rw [List.flatMap_id] at ran
  rw [List.map_id] at before done
  refine ⟨out, ran, before, fun alive => ⟨(done alive).1, (done alive).2.2⟩, fun written => ?_⟩
  have every (a : List UInt8) (member : a ∈ adus) (s : MbtcpConn) (ready : s.Ready) :
      ∃ s', s'.Ready ∧ consume (feedByte env) s (id a) = some ⟨s', [id a], true⟩ := by
    obtain ⟨s', alive, fed, next, up⟩ := consume_adu env (whole a member) ready
    rw [up written] at fed
    exact ⟨s', next (up written), fed⟩
  obtain ⟨s', -, ran'⟩ := consume_frames every ready
  rw [List.flatMap_id, ran] at ran'
  cases ran'
  rfl

/-- Whole ADUs, cut anyhow into reads of 1 to 300 bytes, are processed once each, in order and with
exactly their bytes, as long as the socket takes the replies.  For any byte stream no access leaves a
buffer, and what is processed and what remains do not depend on the cut. -/
theorem serve_framing (bus : MbBus) :
    (∀ adus reads : List (List UInt8), (∀ a ∈ adus, IsAdu a) → (∀ r ∈ reads, 1 ≤ r.length ∧ r.length ≤ 300) →
      reads.flatten = adus.flatten →
      ∃ out, serve env (start bus) reads = some out ∧ out.emitted <+: adus ∧
        (out.alive = true → out.emitted = adus ∧ out.state.flen = 0) ∧
        ((∀ k, env.written k = true) → out.alive = true)) ∧
    (∀ stream : List UInt8, ∃ out, ∀ reads : List (List UInt8),
      (∀ r ∈ reads, 1 ≤ r.length ∧ r.length ≤ 300) → reads.flatten = stream →
      serve env (start bus) reads = some out) := by
  constructor
  · intro adus reads whole sizes cut
    rw [serve_eq env (filling_start bus) fun r read => (sizes r read).1, cut]
    exact consume_adus env whole ⟨filling_start bus, rfl⟩
  · intro stream
    obtain ⟨out, ran, -⟩ := consume_total (fun s b (filling : s.Filling) => feedByte_total env filling b)
      (filling_start bus) stream
    refine ⟨out, fun reads sizes cut => ?_⟩
    rw [serve_eq env (filling_start bus) fun r read => (sizes r read).1, cut, ran]

end MbtcpConn

end IoEdgeHub
