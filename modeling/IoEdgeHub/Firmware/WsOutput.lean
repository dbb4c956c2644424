import IoEdgeHub.Firmware.WsUpload
import IoEdgeHub.Lib.Framing
import IoEdgeHub.Proto.Ws

/-!
# The output buffer of a WebSocket session

`ws_queue_frame` appends the header and the payload of a frame to a 768-byte vector in two steps, and
each step takes all of its bytes or none.  The buffer holds whole frames exactly as long as at every
call both steps fit or neither has anything to add (`whole_frames_iff`).  After any other call it
never holds whole frames again: a header without its payload announces more than the buffer can still
take, and a payload without its header is a single byte that fills the buffer.
-/

namespace IoEdgeHub

open Framing Run

/-! ## Server frames -/

/-- A frame as it is handed to `ws_queue_frame`; no payload is longer than what the parser delivers. -/
structure ServerFrame where
  opcode : UInt8
  payload : List UInt8
  fits : payload.length ≤ payloadMax

namespace ServerFrame

/-- The header of a frame. -/
def header (f : ServerFrame) : List UInt8 := WsSession.wsFrameHdr f.opcode f.payload.length

/-- The frame on the wire: the header, then as many bytes as it announces. -/
def bytes (f : ServerFrame) : List UInt8 := f.header ++ f.payload

/-- `ws_queue_frame` -/
def queue (out : List UInt8) (f : ServerFrame) : List UInt8 :=
  WsSession.extendOut (WsSession.extendOut out f.header) f.payload

/-- The length of a frame, read from its header. -/
def total : List UInt8 → Option ℕ
  | _ :: l :: rest =>
    if l.toNat < 126 then some (2 + l.toNat)
    else
      match rest with
      | hi :: lo :: _ => if l = 126 then some (4 + (hi.toNat * 256 + lo.toNat)) else none
      | _ => none
  | _ => none

theorem length_header (f : ServerFrame) : f.header.length = if f.payload.length < 126 then 2 else 4 := by
  have small : f.payload.length ≤ 0xFFFF := f.fits.trans (by decide)
  unfold header WsSession.wsFrameHdr
  split_ifs <;> rfl

theorem total_header (f : ServerFrame) (rest : List UInt8) : total (f.header ++ rest) = some f.bytes.length := by
  have small : f.payload.length ≤ 0xFFFF := f.fits.trans (by decide)
  rw [bytes, List.length_append, length_header]
  unfold header WsSession.wsFrameHdr
  by_cases short : f.payload.length < 126
  · have byte : (UInt8.ofNat f.payload.length).toNat = f.payload.length := by
      rw [UInt8.toNat_ofNat']
      omega
    simp [total, short, byte]
  · have hi : (UInt8.ofNat (f.payload.length / 256)).toNat = f.payload.length / 256 := by
      rw [UInt8.toNat_ofNat']
      omega
    have lo : (UInt8.ofNat f.payload.length).toNat = f.payload.length % 256 := by
      rw [UInt8.toNat_ofNat']
    rw [if_neg short, if_neg short, if_pos small]
    simp only [List.cons_append, List.nil_append, total, hi, lo]
    rw [if_neg (by decide), if_pos trivial]
    congr 2
    omega

theorem delimits : Delimits bytes total where
  nonempty f := by
    have := length_header f
    intro empty
    rw [bytes, List.append_eq_nil_iff] at empty
    rw [empty.1] at this
    split_ifs at this
  reads f rest := by
    rw [bytes, List.append_assoc]
    exact total_header f _

/-! ## One call -/

/-- At this fill level the call adds the whole frame, or nothing. -/
def Clean (fill : ℕ) (f : ServerFrame) : Prop :=
  fill + f.bytes.length ≤ 768 ∨
    768 < fill + f.header.length ∧ (f.payload = [] ∨ 768 < fill + f.payload.length)

/-- The buffer ends in a piece of a frame that nothing can complete. -/
inductive Broken (out : List UInt8) : Prop
  | header (front rest : List UInt8) (split : out = front ++ rest) (whole : Whole bytes front) (n : ℕ)
    (announced : ∀ more, total (rest ++ more) = some n) (beyond : 768 < front.length + n) : Broken out
  | byte (front : List UInt8) (b : UInt8) (split : out = front ++ [b]) (whole : Whole bytes front)
    (full : out.length = 768) : Broken out

variable {out : List UInt8}

theorem Broken.not_whole (broken : Broken out) (room : out.length ≤ 768) : ¬ Whole bytes out := by
  intro all
  cases broken with
  | header front rest split whole n announced beyond =>
    have read : total rest = some n := by simpa using announced []
    have some_bytes : rest ≠ [] := by
      rintro rfl
      simp [total] at read
    rw [split] at all room
    obtain ⟨m, read', complete, -⟩ := delimits.complete (delimits.whole_right whole all) some_bytes
    rw [read] at read'
    cases read'
    rw [List.length_append] at room
    omega
  | byte front b split whole full =>
    rw [split] at all
    obtain ⟨m, read, -, -⟩ := delimits.complete (delimits.whole_right whole all) (List.cons_ne_nil _ _)
    cases read

theorem extendOut_fits {more : List UInt8} (fits : out.length + more.length ≤ 768) :
    WsSession.extendOut out more = out ++ more := if_pos fits

theorem extendOut_over {more : List UInt8} (beyond : 768 < out.length + more.length) :
    WsSession.extendOut out more = out := if_neg (Nat.not_le.2 beyond)

theorem length_extendOut (room : out.length ≤ 768) (more : List UInt8) :
    (WsSession.extendOut out more).length ≤ 768 := by
  unfold WsSession.extendOut
  split_ifs with fits
  · rwa [List.length_append]
  · exact room

theorem length_queue (room : out.length ≤ 768) (f : ServerFrame) :
    (queue out f).length ≤ 768 :=
  length_extendOut (length_extendOut room _) _

/-- What is broken stays broken, whatever is appended. -/
theorem Broken.extendOut (broken : Broken out) (more : List UInt8) :
    Broken (WsSession.extendOut out more) := by
  unfold WsSession.extendOut
  split_ifs with fits
  · cases broken with
    | header front rest split whole n announced beyond =>
      refine .header front (rest ++ more) (by rw [split, List.append_assoc]) whole n (fun r => ?_) beyond
      rw [List.append_assoc]
      exact announced _
    | byte front b split whole full =>
      have nothing : more = [] := List.eq_nil_of_length_eq_zero (by omega)
      rw [nothing, List.append_nil]
      exact .byte front b split whole full
  · exact broken

theorem whole_queue (whole : Whole bytes out) {f : ServerFrame}
    (clean : Clean out.length f) : Whole bytes (queue out f) := by
  have sum : f.bytes.length = f.header.length + f.payload.length := List.length_append
  rcases clean with fits | ⟨noHeader, noPayload⟩
  · have headerFits : out.length + f.header.length ≤ 768 := by omega
    rw [queue, extendOut_fits headerFits, extendOut_fits (by rw [List.length_append]; omega), List.append_assoc]
    exact whole.snoc f
  · rw [queue, extendOut_over noHeader]
    rcases noPayload with empty | beyond
    · rw [empty]
      simpa [WsSession.extendOut] using whole
    · rwa [extendOut_over beyond]

theorem broken_queue (whole : Whole bytes out) (room : out.length ≤ 768) {f : ServerFrame}
    (unclean : ¬ Clean out.length f) : Broken (queue out f) := by
  have sum : f.bytes.length = f.header.length + f.payload.length := List.length_append
  have length := length_header f
  rw [Clean, not_or, not_and_or, not_or] at unclean
  obtain ⟨beyond, part⟩ := unclean
  by_cases header : out.length + f.header.length ≤ 768
  · rw [queue, extendOut_fits header, extendOut_over (by rw [List.length_append]; omega)]
    exact .header out f.header rfl whole _ (total_header f) (by omega)
  · -- a header that does not fit leaves room for one byte at most
    obtain ⟨some_bytes, fits⟩ : f.payload ≠ [] ∧ ¬ 768 < out.length + f.payload.length := by
      rcases part with noHeader | part
      · omega
      · exact part
    have pos : 0 < f.payload.length := List.length_pos_iff.2 some_bytes
    have single : f.payload.length = 1 := by
      split_ifs at length <;> omega
    obtain ⟨b, payload⟩ := List.length_eq_one_iff.1 single
    have payloadFits : out.length + f.payload.length ≤ 768 := Nat.not_lt.1 fits
    rw [queue, extendOut_over (Nat.not_le.1 header), extendOut_fits payloadFits, payload]
    have two : f.header.length = 2 := by rw [length, if_pos (by omega)]
    exact .byte out b rfl whole (by rw [List.length_append, List.length_singleton]; omega)

/-! ## All calls of a chunk -/

/-- The buffer after the calls made for one chunk. -/
def queued (calls : List ServerFrame) : List UInt8 := calls.foldl queue []

theorem queued_cases (calls : List ServerFrame) :
    (queued calls).length ≤ 768 ∧
    ((Each (fun before f => Clean (queued before).length f) calls ∧ Whole bytes (queued calls)) ∨
      (¬ Each (fun before f => Clean (queued before).length f) calls ∧ Broken (queued calls))) := by
  induction calls using List.reverseRecOn with
  | nil => exact ⟨by decide, .inl ⟨each_nil, whole_nil⟩⟩
  | append_singleton calls f ih =>
    obtain ⟨room, state⟩ := ih
    have step : queued (calls ++ [f]) = queue (queued calls) f := by simp [queued]
    rw [step, each_snoc]
    refine ⟨length_queue room f, ?_⟩
    rcases state with ⟨each, whole⟩ | ⟨unclean, broken⟩
    · by_cases clean : Clean (queued calls).length f
      · exact .inl ⟨⟨each, clean⟩, whole_queue whole clean⟩
      · exact .inr ⟨fun h => clean h.2, broken_queue whole room clean⟩
    · exact .inr ⟨fun h => unclean h.1, (broken.extendOut _).extendOut _⟩

/-- The buffer holds whole frames exactly if every call added its whole frame or nothing. -/
theorem whole_frames_iff (calls : List ServerFrame) :
    Whole bytes (queued calls) ↔ Each (fun before f => Clean (queued before).length f) calls := by
  obtain ⟨room, ⟨each, whole⟩ | ⟨unclean, broken⟩⟩ := queued_cases calls
  · exact ⟨fun _ => each, fun _ => whole⟩
  · exact ⟨fun whole => absurd whole (broken.not_whole room), fun each => absurd each unclean⟩

/-! ## A pong without its payload -/

/-- The answer to a ping of 765 bytes. -/
def longPong : ServerFrame := ⟨0xA, List.replicate 765 0, by rw [List.length_replicate]; decide⟩

/-- A ping of 765 bytes is answered with the four header bytes alone, which announce 765 more. -/
theorem pong_header_alone :
    (WsSession.idleSession.frame true 0x9 (List.replicate 765 0)).map (·.out) = some [0x8A, 126, 2, 253] ∧
    queued [longPong] = [0x8A, 126, 2, 253] ∧ ¬ Whole bytes (queued [longPong]) := by
  have answer : queued [longPong] = [0x8A, 126, 2, 253] := by decide +kernel
  have length : longPong.payload.length = 765 := List.length_replicate
  have unclean : ¬ Clean 0 longPong := by
    have four : longPong.header.length = 4 := by rw [length_header, length]; rfl
    rw [Clean, bytes, List.length_append, four, length]
    omega
  refine ⟨by decide +kernel, answer, Broken.not_whole ?_ (by rw [answer]; decide)⟩
  rw [queued, List.foldl_cons, List.foldl_nil]
  exact broken_queue whole_nil (Nat.zero_le _) unclean

end ServerFrame

end IoEdgeHub
