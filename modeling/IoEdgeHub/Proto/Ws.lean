import IoEdgeHub.Lib.Feed

/-!
# The client frame parser (`ws.rs`)

`WsParser::feed` takes the bytes of a connection as they arrive and calls back at each completed
frame. The callback sees the parser, so an event here carries the part of the payload buffer that
belongs to the frame. A result `none` is an index out of range.
-/

namespace IoEdgeHub

/-- The longest payload that is kept. -/
def payloadMax : ℕ := 10 * 1024 + 16

/-- What a byte leads to. -/
inductive WsFeed where
  | header
  | len16
  | len64
  | mask
  | payload
deriving DecidableEq, Repr

/-- `FeedEvent::Frame`, with the payload bytes the callback finds in the parser. -/
structure WsFrame where
  fin : Bool
  opcode : UInt8
  payloadLen : ℕ
  payload : List UInt8
deriving DecidableEq, Repr

/-- The state of the frame parser. -/
structure WsParser where
  state : WsFeed
  hdr : Vector UInt8 10
  hdrGot : ℕ
  fin : Bool
  opcode : UInt8
  masked : Bool
  mask : Vector UInt8 4
  plen : ℕ
  got : ℕ
  payload : Vector UInt8 payloadMax

namespace WsParser

open Feed (Out)
open Bytes (store store_of_lt)

/-- `WsParser::new` -/
def new : WsParser where
  state := .header
  hdr := .replicate 10 0
  hdrGot := 0
  fin := false
  opcode := 0
  masked := false
  mask := .replicate 4 0
  plen := 0
  got := 0
  payload := .replicate payloadMax 0

/-- Take the byte and go on. -/
def go (p : WsParser) : Option (Out WsParser WsFrame) := some ⟨p, [], true⟩

/-- `return false`. -/
def close (p : WsParser) : Option (Out WsParser WsFrame) := some ⟨p, [], false⟩

/-- The state after the length is known. -/
def afterLen (p : WsParser) : WsFeed := if p.masked then .mask else .payload

/-- One of the first two bytes. -/
def headerByte (p : WsParser) (b : UInt8) : Option (Out WsParser WsFrame) := do
  let hdr ← store p.hdr p.hdrGot b
  if p.hdrGot + 1 < 2 then
    go { p with hdr, hdrGot := p.hdrGot + 1 }
  else
    let p : WsParser :=
      { p with
        hdr
        fin := hdr[0] &&& 0x80 != 0
        opcode := hdr[0] &&& 0x0F
        masked := hdr[1] &&& 0x80 != 0
        plen := (hdr[1] &&& 0x7F).toNat
        got := 0
        hdrGot := 0 }
    if p.plen = 126 then go { p with state := .len16 }
    else if p.plen = 127 then go { p with state := .len64 }
    else if p.plen > payloadMax then close p
    else go { p with state := p.afterLen }

/-- One byte of a 16-bit length. -/
def len16Byte (p : WsParser) (b : UInt8) : Option (Out WsParser WsFrame) := do
  let hdr ← store p.hdr p.hdrGot b
  if p.hdrGot + 1 = 2 then
    let p := { p with hdr, hdrGot := p.hdrGot + 1, plen := hdr[0].toNat <<< 8 ||| hdr[1].toNat }
    if p.plen > payloadMax then close p
    else go { p with hdrGot := 0, state := p.afterLen }
  else go { p with hdr, hdrGot := p.hdrGot + 1 }

/-- The eight length bytes, most significant first. -/
def len64 (hdr : Vector UInt8 10) : UInt64 :=
  (hdr.toList.take 8).foldl (fun v b => v <<< 8 ||| b.toUInt64) 0

/-- `v as usize`: the firmware's target has 32-bit addresses. -/
def asUsize (v : UInt64) : ℕ := v.toNat % 2 ^ 32

/-- One byte of a 64-bit length. -/
def len64Byte (p : WsParser) (b : UInt8) : Option (Out WsParser WsFrame) := do
  let hdr ← store p.hdr p.hdrGot b
  let p := { p with hdr, hdrGot := p.hdrGot + 1 }
  if p.hdrGot = 8 then
    if asUsize (len64 hdr) > payloadMax then close p
    else go { p with plen := asUsize (len64 hdr), hdrGot := 0, state := p.afterLen }
  else go p

/-- One byte of the key. -/
def maskByte (p : WsParser) (b : UInt8) : Option (Out WsParser WsFrame) := do
  let mask ← store p.mask p.hdrGot b
  if p.hdrGot + 1 = 4 then go { p with mask, hdrGot := 0, state := .payload }
  else go { p with mask, hdrGot := p.hdrGot + 1 }

/-- The byte as it is kept: unmasked with the key byte of its position. -/
def unmask (p : WsParser) (b : UInt8) : UInt8 :=
  if p.masked then b ^^^ p.mask[p.got % 4] else b

/-- One byte of the payload. -/
def payloadByte (p : WsParser) (b : UInt8) : Option (Out WsParser WsFrame) :=
  if h : p.got < payloadMax then
    let p := { p with payload := p.payload.set p.got (p.unmask b), got := p.got + 1 }
    if p.got = p.plen then
      some ⟨{ p with state := .header, hdrGot := 0 },
        [⟨p.fin, p.opcode, p.got, p.payload.toList.take p.got⟩], true⟩
    else go p
  else close p

/-- The body of the loop in `feed`. -/
def feedByte (p : WsParser) (b : UInt8) : Option (Out WsParser WsFrame) :=
  match p.state with
  | .header => p.headerByte b
  | .len16 => p.len16Byte b
  | .len64 => p.len64Byte b
  | .mask => p.maskByte b
  | .payload => p.payloadByte b

/-- `feed` -/
def feed (p : WsParser) (data : List UInt8) : Option (Out WsParser WsFrame) :=
  Feed.consume feedByte p data

/-- Successive calls of `feed`; the session ends at the first one that returns false. -/
def feedChunks (p : WsParser) (chunks : List (List UInt8)) : Option (Out WsParser WsFrame) :=
  Feed.consumeChunks feedByte p chunks

/-- The fields set by the first two bytes of a frame. -/
def withHead (p : WsParser) (a b : UInt8) : WsParser :=
  { p with
    hdr := (p.hdr.set 0 a).set 1 b
    fin := a &&& 0x80 != 0
    opcode := a &&& 0x0F
    masked := b &&& 0x80 != 0
    plen := (b &&& 0x7F).toNat
    got := 0
    hdrGot := 0 }

theorem feedChunks_eq_feed (p : WsParser) (chunks : List (List UInt8)) :
    p.feedChunks chunks = p.feed chunks.flatten :=
  Feed.consumeChunks_eq p chunks

/-! ## A byte completes at most one frame -/

variable {out : Out WsParser WsFrame} {b : UInt8} {p : WsParser}

theorem go_silent (ran : go p = some out) : out.emitted = [] := by
  obtain rfl := Option.some.inj ran
  rfl

theorem close_silent (ran : close p = some out) :
    out.emitted = [] := by
  obtain rfl := Option.some.inj ran
  rfl

theorem headerByte_silent (ran : p.headerByte b = some out) : out.emitted = [] := by
  unfold headerByte at ran
  obtain ⟨hdr, -, ran⟩ := Option.bind_eq_some_iff.1 ran
  dsimp only at ran
  split at ran
  · exact go_silent ran
  split at ran
  · exact go_silent ran
  split at ran
  · exact go_silent ran
  split at ran
  · exact close_silent ran
  · exact go_silent ran

theorem len16Byte_silent (ran : p.len16Byte b = some out) : out.emitted = [] := by
  unfold len16Byte at ran
  obtain ⟨hdr, -, ran⟩ := Option.bind_eq_some_iff.1 ran
  dsimp only at ran
  split at ran
  · split at ran
    · exact close_silent ran
    · exact go_silent ran
  · exact go_silent ran

theorem len64Byte_silent (ran : p.len64Byte b = some out) : out.emitted = [] := by
  unfold len64Byte at ran
  obtain ⟨hdr, -, ran⟩ := Option.bind_eq_some_iff.1 ran
  dsimp only at ran
  split at ran
  · split at ran
    · exact close_silent ran
    · exact go_silent ran
  · exact go_silent ran

theorem maskByte_silent (ran : p.maskByte b = some out) : out.emitted = [] := by
  unfold maskByte at ran
  obtain ⟨mask, -, ran⟩ := Option.bind_eq_some_iff.1 ran
  split at ran
  · exact go_silent ran
  · exact go_silent ran

theorem feedByte_single (p : WsParser) (b : UInt8) (out : Out WsParser WsFrame)
    (ran : p.feedByte b = some out) : out.emitted.length ≤ 1 := by
  unfold feedByte at ran
  split at ran
  · simp [headerByte_silent ran]
  · simp [len16Byte_silent ran]
  · simp [len64Byte_silent ran]
  · simp [maskByte_silent ran]
  · unfold payloadByte at ran
    split at ran
    · dsimp only at ran
      split at ran
      · obtain rfl := Option.some.inj ran
        exact le_rfl
      · simp [go_silent ran]
    · simp [close_silent ran]

/-- What a frame carries: as many bytes as the parser has got, at least one and no more than there is room for. -/
theorem feedByte_frame (ran : p.feedByte b = some out)
    {f : WsFrame} (completed : f ∈ out.emitted) :
    f.payloadLen = out.state.got ∧ 1 ≤ f.payloadLen ∧ f.payloadLen ≤ payloadMax ∧ f.payload.length = f.payloadLen := by
  have silent (none : out.emitted = []) : False := by
    rw [none] at completed
    cases completed
  unfold feedByte at ran
  split at ran
  · exact (silent (headerByte_silent ran)).elim
  · exact (silent (len16Byte_silent ran)).elim
  · exact (silent (len64Byte_silent ran)).elim
  · exact (silent (maskByte_silent ran)).elim
  · unfold payloadByte at ran
    split at ran
    · rename_i room
      dsimp only at ran
      split at ran
      · obtain rfl := Option.some.inj ran
        obtain rfl := List.mem_singleton.1 completed
        refine ⟨rfl, Nat.succ_pos p.got, room, ?_⟩
        rw [List.length_take, Vector.length_toList]
        exact Nat.min_eq_left room
      · exact (silent (go_silent ran)).elim
    · exact (silent (close_silent ran)).elim

/-! ## No byte makes the parser panic -/

/-- How many header bytes a state collects. -/
def headerRoom : WsFeed → ℕ
  | .header => 2
  | .len16 => 2
  | .len64 => 8
  | .mask => 4
  | .payload => 1

/-- The collecting states still have room for the next byte. -/
def Sound (p : WsParser) : Prop := p.hdrGot < headerRoom p.state

theorem afterLen_sound (p : WsParser) : 0 < headerRoom p.afterLen := by
  unfold afterLen
  split <;> decide

theorem headerByte_sound (state : p.state = .header) (sound : p.hdrGot < 2) (b : UInt8) :
    ∃ out, p.headerByte b = some out ∧ (out.alive → out.state.Sound) := by
  rw [headerByte, store_of_lt _ _ (by omega : p.hdrGot < 10)]
  simp only [Option.bind_eq_bind, Option.bind_some]
  split
  · refine ⟨_, rfl, fun _ => ?_⟩
    simp only [Sound, state, headerRoom]
    omega
  split
  · exact ⟨_, rfl, fun _ => (by decide : 0 < 2)⟩
  split
  · exact ⟨_, rfl, fun _ => (by decide : 0 < 8)⟩
  split
  · exact ⟨_, rfl, fun h => by cases h⟩
  · exact ⟨_, rfl, fun _ => afterLen_sound _⟩

theorem len16Byte_sound (state : p.state = .len16) (sound : p.hdrGot < 2) (b : UInt8) :
    ∃ out, p.len16Byte b = some out ∧ (out.alive → out.state.Sound) := by
  rw [len16Byte, store_of_lt _ _ (by omega : p.hdrGot < 10)]
  simp only [Option.bind_eq_bind, Option.bind_some]
  split
  · split
    · exact ⟨_, rfl, fun h => by cases h⟩
    · exact ⟨_, rfl, fun _ => afterLen_sound _⟩
  · refine ⟨_, rfl, fun _ => ?_⟩
    simp only [Sound, state, headerRoom]
    omega

theorem len64Byte_sound (state : p.state = .len64) (sound : p.hdrGot < 8) (b : UInt8) :
    ∃ out, p.len64Byte b = some out ∧ (out.alive → out.state.Sound) := by
  rw [len64Byte, store_of_lt _ _ (by omega : p.hdrGot < 10)]
  simp only [Option.bind_eq_bind, Option.bind_some]
  split
  · split
    · exact ⟨_, rfl, fun h => by cases h⟩
    · exact ⟨_, rfl, fun _ => afterLen_sound _⟩
  · refine ⟨_, rfl, fun _ => ?_⟩
    simp only [Sound, state, headerRoom]
    omega

theorem maskByte_sound (state : p.state = .mask) (sound : p.hdrGot < 4) (b : UInt8) :
    ∃ out, p.maskByte b = some out ∧ (out.alive → out.state.Sound) := by
  rw [maskByte, store_of_lt _ _ sound]
  simp only [Option.bind_eq_bind, Option.bind_some]
  split
  · exact ⟨_, rfl, fun _ => (by decide : 0 < 1)⟩
  · refine ⟨_, rfl, fun _ => ?_⟩
    simp only [Sound, state, headerRoom]
    omega

theorem payloadByte_sound (sound : p.Sound) (b : UInt8) :
    ∃ out, p.payloadByte b = some out ∧ (out.alive → out.state.Sound) := by
  unfold payloadByte
  split
  · dsimp only
    split
    · exact ⟨_, rfl, fun _ => (by decide : 0 < 2)⟩
    · exact ⟨_, rfl, fun _ => sound⟩
  · exact ⟨_, rfl, fun h => by cases h⟩

theorem feedByte_sound (p : WsParser) (b : UInt8) (sound : p.Sound) :
    ∃ out, p.feedByte b = some out ∧ (out.alive → out.state.Sound) := by
  have room := sound
  unfold feedByte
  unfold Sound at room
  rcases state : p.state with _ | _ | _ | _ | _ <;> rw [state] at room
  · exact headerByte_sound state room b
  · exact len16Byte_sound state room b
  · exact len64Byte_sound state room b
  · exact maskByte_sound state room b
  · exact payloadByte_sound sound b

theorem feed_total (stream : List UInt8) : ∃ out, new.feed stream = some out := by
  obtain ⟨out, ran, -⟩ := Feed.consume_total feedByte_sound (by decide : new.hdrGot < 2) stream
  exact ⟨out, ran⟩

/-- The parser is safe: whatever chunks a fresh one is fed, up to the first call that returns false, no index is
out of range and each frame has between one and `PAYLOAD_MAX` bytes, as many as the parser then says it has got. -/
theorem feedChunks_safe (chunks : List (List UInt8)) :
    ∃ out, new.feedChunks chunks = some out ∧
      (∀ f ∈ out.emitted, 1 ≤ f.payloadLen ∧ f.payloadLen ≤ payloadMax ∧ f.payload.length = f.payloadLen) ∧
      ∀ (p : WsParser) (b : UInt8) (byte : Out WsParser WsFrame), p.feedByte b = some byte →
        ∀ f ∈ byte.emitted, f.payloadLen = byte.state.got := by
  obtain ⟨out, ran⟩ := feed_total chunks.flatten
  refine ⟨out, ?_, ?_, ?_⟩
  · rw [feedChunks_eq_feed, ran]
  · refine Feed.consume_emitted ?_ ran
    intro p b byte step f completed
    exact (feedByte_frame step completed).2
  · intro p b byte step f completed
    exact (feedByte_frame step completed).1

/-- The only byte of a frame that is not masked. -/
theorem feedChunks_safe_byte :
    ∃ byte, feedByte { new with state := .payload, plen := 1 } 0x61 = some byte ∧ byte.emitted.length = 1 ∧
      ∀ f ∈ byte.emitted, f.payloadLen = byte.state.got := by
  obtain ⟨-, -, -, got⟩ := feedChunks_safe []
  exact ⟨_, rfl, rfl, got { new with state := .payload, plen := 1 } 0x61 _ rfl⟩

end WsParser

end IoEdgeHub
