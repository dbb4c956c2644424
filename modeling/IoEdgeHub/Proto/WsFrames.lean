import IoEdgeHub.Proto.Ws
import Mathlib.Data.List.Basic

/-!
# What the parser makes of a client's frames

`ClientFrame.wire` is a frame as a client sends it: any opcode, masked or not, the length in any
field that holds it. Cut anywhere, the wire bytes of a list of frames give exactly the frames up to
the first empty one (`feed_frames`); an empty frame leaves the parser waiting for a byte of payload
that never completes it, so every later frame is lost.
-/

namespace IoEdgeHub

open Bytes

/-- The width of the length field of a frame. -/
inductive LenForm where
  | len7
  | len16
  | len64
deriving DecidableEq, Repr

/-- A length that the form can hold. -/
def LenForm.Fits : LenForm → ℕ → Prop
  | .len7, n => n ≤ 125
  | .len16, n => n < 2 ^ 16
  | .len64, n => n < 2 ^ 64

instance : (form : LenForm) → (n : ℕ) → Decidable (form.Fits n)
  | .len7, n => inferInstanceAs (Decidable (n ≤ 125))
  | .len16, n => inferInstanceAs (Decidable (n < 2 ^ 16))
  | .len64, n => inferInstanceAs (Decidable (n < 2 ^ 64))

/-- A frame as a client sends it. -/
structure ClientFrame where
  fin : Bool
  opcode : Fin 16
  key : Option (Vector UInt8 4)
  form : LenForm
  payload : List UInt8
  fits : form.Fits payload.length
  bounded : payload.length ≤ payloadMax

namespace ClientFrame

/-- The seven length bits of the second byte. -/
def lenCode (f : ClientFrame) : ℕ :=
  match f.form with
  | .len7 => f.payload.length
  | .len16 => 126
  | .len64 => 127

/-- The two bytes and the length. -/
def head (f : ClientFrame) : List UInt8 :=
  [(if f.fin then 0x80 else 0) ||| UInt8.ofNat f.opcode,
    (if f.key.isSome then 0x80 else 0) ||| UInt8.ofNat f.lenCode]

/-- The extended length, most significant byte first. -/
def lenBytes (f : ClientFrame) : List UInt8 :=
  match f.form with
  | .len7 => []
  | .len16 => (toLe 2 f.payload.length).reverse
  | .len64 => (toLe 8 f.payload.length).reverse

/-- The key, if there is one. -/
def keyBytes (f : ClientFrame) : List UInt8 :=
  match f.key with
  | none => []
  | some key => key.toList

/-- The payload under a key. -/
def maskWith (key : Vector UInt8 4) (payload : List UInt8) : List UInt8 :=
  payload.mapIdx fun i b => b ^^^ key[i % 4]

/-- The payload as it is sent. -/
def body (f : ClientFrame) : List UInt8 :=
  match f.key with
  | none => f.payload
  | some key => maskWith key f.payload

/-- The frame as it is sent. -/
def wire (f : ClientFrame) : List UInt8 := f.head ++ f.lenBytes ++ f.keyBytes ++ f.body

/-- What the session is to be told about the frame. -/
def event (f : ClientFrame) : WsFrame :=
  ⟨f.fin, UInt8.ofNat f.opcode, f.payload.length, f.payload⟩

theorem lenCode_lt (f : ClientFrame) : f.lenCode < 128 := by
  have fits := f.fits
  unfold lenCode
  rcases h : f.form with _ | _ | _ <;> rw [h] at fits <;> simp only [LenForm.Fits] at fits ⊢ <;> omega

theorem length_body (f : ClientFrame) : f.body.length = f.payload.length := by
  unfold body
  cases f.key <;> simp [maskWith]

theorem maskWith_maskWith (key : Vector UInt8 4) (payload : List UInt8) :
    maskWith key (maskWith key payload) = payload := by
  refine List.ext_getElem (by simp [maskWith]) fun i _ _ => ?_
  simp only [maskWith, List.getElem_mapIdx]
  rw [UInt8.xor_assoc, UInt8.xor_self, UInt8.xor_zero]

end ClientFrame

namespace WsParser

open ClientFrame

/-! ## Reading the header -/

/-- Between two frames. -/
def Ready (p : WsParser) : Prop := p.state = .header ∧ p.hdrGot = 0

/-- The first two bytes of the frame are known. -/
structure Expects (p : WsParser) (f : ClientFrame) : Prop where
  fin : p.fin = f.fin
  opcode : p.opcode = UInt8.ofNat f.opcode
  masked : p.masked = f.key.isSome
  got : p.got = 0
  hdrGot : p.hdrGot = 0

/-- So is its length. -/
structure LenKnown (p : WsParser) (f : ClientFrame) : Prop extends p.Expects f where
  plen : p.plen = f.payload.length
  state : p.state = p.afterLen

/-- So is the key, if there is one. -/
structure BodyNext (p : WsParser) (f : ClientFrame) : Prop extends p.Expects f where
  plen : p.plen = f.payload.length
  state : p.state = .payload
  mask : ∀ key, f.key = some key → p.mask = key

theorem first_byte : ∀ (fin : Bool) (opcode : Fin 16),
    let b : UInt8 := (if fin then 0x80 else 0) ||| UInt8.ofNat opcode
    (b &&& 0x80 != 0) = fin ∧ b &&& 0x0F = UInt8.ofNat opcode := by
  decide

theorem second_byte : ∀ (masked : Bool) (n : Fin 128),
    let b : UInt8 := (if masked then 0x80 else 0) ||| UInt8.ofNat n
    (b &&& 0x80 != 0) = masked ∧ (b &&& 0x7F).toNat = n := by
  decide +kernel

/-- The state the second byte leads to. -/
def afterHead (p : WsParser) : WsFeed :=
  if p.plen = 126 then .len16 else if p.plen = 127 then .len64 else p.afterLen

variable {f : ClientFrame} {p : WsParser}

theorem feed_two (ready : p.Ready) (a b : UInt8) :
    p.feed [a, b] =
      some ⟨{ p.withHead a b with state := (p.withHead a b).afterHead }, [], true⟩ := by
  obtain ⟨state, hdrGot⟩ := ready
  have small : (b &&& 0x7F).toNat ≤ payloadMax := by
    have : (b &&& 0x7F).toNat ≤ 127 := by
      rw [UInt8.toNat_and]
      exact Nat.and_le_right
    unfold payloadMax
    omega
  have one : p.feedByte a = some ⟨{ p with hdr := p.hdr.set 0 a, hdrGot := 1 }, [], true⟩ := by
    simp [feedByte, state, headerByte, hdrGot, store_of_lt, go]
  rw [feed, Feed.consume, one, Option.bind_some, Feed.andThen_silent, Feed.consume_singleton]
  simp only [feedByte, state, headerByte]
  rw [store_of_lt _ _ (by decide)]
  by_cases medium : (b &&& 0x7F).toNat = 126
  · simp [-UInt8.toNat_and, go, withHead, afterHead, medium]
  by_cases long : (b &&& 0x7F).toNat = 127
  · simp [-UInt8.toNat_and, go, withHead, afterHead, long]
  · simp [-UInt8.toNat_and, go, withHead, afterHead, afterLen, medium, long, small.not_gt]

theorem feed_head (ready : p.Ready) (f : ClientFrame) :
    ∃ p', p.feed f.head = some ⟨p', [], true⟩ ∧ p'.Expects f ∧
      p'.plen = f.lenCode ∧ p'.state = p'.afterHead := by
  obtain ⟨fin, opcode⟩ := first_byte f.fin f.opcode
  obtain ⟨masked, code⟩ := second_byte f.key.isSome ⟨f.lenCode, f.lenCode_lt⟩
  exact ⟨_, feed_two ready _ _, ⟨fin, opcode, masked, rfl, rfl⟩, code, rfl⟩

/-! ## The length -/

theorem toNat_push (v : UInt64) (b : UInt8) (small : v.toNat < 2 ^ 56) :
    (v <<< 8 ||| b.toUInt64).toNat = b.toNat + 256 * v.toNat := by
  have hb : b.toNat < 2 ^ 8 := b.toNat_lt
  have shifted : (v <<< 8).toNat = v.toNat <<< 8 := by
    rw [UInt64.toNat_shiftLeft, Nat.mod_eq_of_lt]
    · rfl
    · rw [Nat.shiftLeft_eq]
      exact Nat.mul_lt_mul_of_pos_right small (by decide)
  rw [UInt64.toNat_or, shifted, UInt8.toNat_toUInt64, ← Nat.shiftLeft_add_eq_or_of_lt hb,
    Nat.shiftLeft_eq]
  omega

/-- Eight bytes, most significant first, are read as the number they stand for. -/
theorem toNat_foldl_push (bs : List UInt8) (short : bs.length ≤ 8) :
    (bs.reverse.foldl (fun (v : UInt64) b => v <<< 8 ||| b.toUInt64) 0).toNat = leNat bs := by
  induction bs with
  | nil => rfl
  | cons b bs ih =>
    rw [List.length_cons] at short
    have tail := ih (by omega)
    have bound : leNat bs < 2 ^ 56 :=
      (leNat_lt bs).trans_le (Nat.pow_le_pow_right (by decide : 0 < 256) (by omega : bs.length ≤ 7))
    rw [List.reverse_cons, List.foldl_append, List.foldl_cons, List.foldl_nil,
      toNat_push _ _ (by rw [tail]; exact bound), tail, leNat]

/-- A 16-bit length, as a sender's bytes may have it. -/
theorem feed_len16_bytes (state : p.state = .len16) (hdrGot : p.hdrGot = 0) (hi lo : UInt8) :
    (payloadMax < leNat [lo, hi] → ∃ p', p.feed [hi, lo] = some ⟨p', [], false⟩) ∧
      (leNat [lo, hi] ≤ payloadMax → ∃ hdr, p.feed [hi, lo] =
        some ⟨{ p with hdr, hdrGot := 0, plen := leNat [lo, hi], state := p.afterLen }, [], true⟩) := by
  have one : p.feedByte hi = some ⟨{ p with hdr := p.hdr.set 0 hi, hdrGot := 1 }, [], true⟩ := by
    simp [feedByte, state, len16Byte, hdrGot, store_of_lt, go]
  have value : hi.toNat <<< 8 ||| lo.toNat = leNat [lo, hi] := by
    rw [← Nat.shiftLeft_add_eq_or_of_lt (lo.toNat_lt : lo.toNat < 2 ^ 8), Nat.shiftLeft_eq, leNat, leNat, leNat]
    omega
  rw [feed, Feed.consume, one, Option.bind_some, Feed.andThen_silent, Feed.consume_singleton]
  simp only [feedByte, state, len16Byte]
  rw [store_of_lt _ _ (by decide)]
  refine ⟨fun long => ?_, fun fits => ⟨(p.hdr.set 0 hi).set 1 lo, ?_⟩⟩
  · simp [close, value, long]
  · simp [go, value, fits.not_gt, afterLen]

theorem feed_len16 (state : p.state = .len16) (hdrGot : p.hdrGot = 0) {n : ℕ}
    (fits : n ≤ payloadMax) :
    ∃ hdr, p.feed (toLe 2 n).reverse =
      some ⟨{ p with hdr, hdrGot := 0, plen := n, state := p.afterLen }, [], true⟩ := by
  have value : leNat [UInt8.ofNat n, UInt8.ofNat (n / 256)] = n := by
    unfold payloadMax at fits
    exact leNat_toLe_of_lt (by omega : n < 256 ^ 2)
  have read := (feed_len16_bytes state hdrGot (UInt8.ofNat (n / 256)) (UInt8.ofNat n)).2
  rw [value] at read
  exact read fits

/-- Fewer than eight length bytes are kept in order. -/
theorem feed_len64_part (state : p.state = .len64) (hdrGot : p.hdrGot = 0)
    (bs : List UInt8) (short : bs.length < 8) :
    ∃ hdr : Vector UInt8 10, hdr.toList.take bs.length = bs ∧
      p.feed bs = some ⟨{ p with hdr, hdrGot := bs.length }, [], true⟩ := by
  have each (hdr : Vector UInt8 10) (i : ℕ) (b : UInt8) (below : i < 7) : ∃ _ : i < 10,
      feedByte { p with hdr, hdrGot := i } b =
        some ⟨{ p with hdr := hdr.set i b, hdrGot := i + 1 }, [], true⟩ := by
    refine ⟨by omega, ?_⟩
    simp only [feedByte, state, len64Byte]
    rw [store_of_lt _ _ (by omega : i < 10)]
    simp [go, show i + 1 ≠ 8 by omega]
  obtain ⟨hdr, read, ran⟩ := Feed.consume_copy each p.hdr (Nat.le_of_lt_succ short)
  refine ⟨hdr, read, ?_⟩
  rwa [← hdrGot] at ran

/-- A 64-bit length, as a sender's bytes may have it: what counts is its low half. -/
theorem feed_len64_bytes (state : p.state = .len64) (hdrGot : p.hdrGot = 0) {bs : List UInt8}
    (eight : bs.length = 8) :
    (payloadMax < leNat bs.reverse % 2 ^ 32 → ∃ p', p.feed bs = some ⟨p', [], false⟩) ∧
      (leNat bs.reverse % 2 ^ 32 ≤ payloadMax → ∃ hdr, p.feed bs =
        some ⟨{ p with hdr, hdrGot := 0, plen := leNat bs.reverse % 2 ^ 32, state := p.afterLen }, [], true⟩) := by
  obtain ⟨first, last, rfl⟩ := (List.eq_nil_or_concat bs).resolve_left (by rintro rfl; cases eight)
  rw [List.concat_eq_append] at eight ⊢
  have seven : first.length = 7 := by simpa using eight
  obtain ⟨hdr, read, ran⟩ := feed_len64_part state hdrGot first (by omega)
  rw [seven] at read ran
  have value : asUsize (len64 (hdr.set 7 last)) = leNat (first ++ [last]).reverse % 2 ^ 32 := by
    rw [asUsize, len64, take_set, read, ← toNat_foldl_push _ (by simp [seven]), List.reverse_reverse]
  rw [feed, Feed.consume_append_silent ran, Feed.consume_singleton]
  simp only [feedByte, state, len64Byte]
  rw [store_of_lt _ _ (by decide)]
  refine ⟨fun long => ?_, fun fits => ⟨hdr.set 7 last, ?_⟩⟩
  · simp only [Option.bind_eq_bind, Option.bind_some, value, if_true, if_pos long]
    exact ⟨_, rfl⟩
  · simp only [Option.bind_eq_bind, Option.bind_some, value, if_true, if_neg fits.not_gt]
    rfl

theorem feed_len64 (state : p.state = .len64) (hdrGot : p.hdrGot = 0) {n : ℕ}
    (fits : n ≤ payloadMax) :
    ∃ hdr, p.feed (toLe 8 n).reverse =
      some ⟨{ p with hdr, hdrGot := 0, plen := n, state := p.afterLen }, [], true⟩ := by
  have value : leNat (toLe 8 n).reverse.reverse % 2 ^ 32 = n := by
    unfold payloadMax at fits
    rw [List.reverse_reverse, leNat_toLe_of_lt (by omega), Nat.mod_eq_of_lt (by omega)]
  have read := (feed_len64_bytes state hdrGot (by simp : (toLe 8 n).reverse.length = 8)).2
  rw [value] at read
  exact read fits

/-- After the length field the parser knows how long the frame is. -/
theorem feed_length (ready : p.Ready) (f : ClientFrame) :
    ∃ p', p.feed (f.head ++ f.lenBytes) = some ⟨p', [], true⟩ ∧ p'.LenKnown f := by
  obtain ⟨p', ran, expects, code, state⟩ := feed_head ready f
  rw [feed, Feed.consume_append_silent ran]
  have fits := f.fits
  unfold lenCode at code
  unfold lenBytes
  unfold afterHead at state
  rcases form : f.form with _ | _ | _ <;> rw [form] at code fits <;> simp only at code ⊢
  · have short : p'.plen ≤ 125 := by
      rw [code]
      exact fits
    rw [if_neg (by omega), if_neg (by omega)] at state
    exact ⟨p', rfl, expects, code, state⟩
  · rw [if_pos code] at state
    obtain ⟨hdr, done⟩ := feed_len16 state expects.hdrGot f.bounded
    exact ⟨_, done, ⟨expects.fin, expects.opcode, expects.masked, expects.got, rfl⟩, rfl, rfl⟩
  · rw [if_neg (by omega), if_pos code] at state
    obtain ⟨hdr, done⟩ := feed_len64 state expects.hdrGot f.bounded
    exact ⟨_, done, ⟨expects.fin, expects.opcode, expects.masked, expects.got, rfl⟩, rfl, rfl⟩

/-! ## The key -/

theorem feed_mask_part (state : p.state = .mask) (hdrGot : p.hdrGot = 0)
    (bs : List UInt8) (short : bs.length < 4) :
    ∃ mask : Vector UInt8 4, mask.toList.take bs.length = bs ∧
      p.feed bs = some ⟨{ p with mask, hdrGot := bs.length }, [], true⟩ := by
  have each (mask : Vector UInt8 4) (i : ℕ) (b : UInt8) (below : i < 3) : ∃ _ : i < 4,
      feedByte { p with mask, hdrGot := i } b =
        some ⟨{ p with mask := mask.set i b, hdrGot := i + 1 }, [], true⟩ := by
    refine ⟨by omega, ?_⟩
    simp only [feedByte, state, maskByte]
    rw [store_of_lt _ _ (by omega : i < 4)]
    simp [go, show i + 1 ≠ 4 by omega]
  obtain ⟨mask, read, ran⟩ := Feed.consume_copy each p.mask (Nat.le_of_lt_succ short)
  refine ⟨mask, read, ?_⟩
  rwa [← hdrGot] at ran

theorem feed_mask (state : p.state = .mask) (hdrGot : p.hdrGot = 0)
    (key : Vector UInt8 4) :
    p.feed key.toList = some ⟨{ p with mask := key, hdrGot := 0, state := .payload }, [], true⟩ := by
  have whole (v : Vector UInt8 4) : v.toList.take 4 = v.toList := List.take_of_length_le (by simp)
  have bytes : key.toList.take 3 ++ [key[3]] = key.toList := by
    rw [← take_set key key[3] (by decide), Vector.set_getElem_self, whole]
  obtain ⟨mask, read, ran⟩ := feed_mask_part state hdrGot (key.toList.take 3) (by simp)
  simp only [List.length_take, Vector.length_toList, show min 3 4 = 3 from rfl] at read ran
  have full : mask.set 3 key[3] = key := by
    rw [← Vector.toList_inj, ← whole, take_set, read, bytes]
  rw [← bytes, feed, Feed.consume_append_silent ran, Feed.consume_singleton]
  simp only [feedByte, state, maskByte]
  rw [store_of_lt _ _ (by decide), full]
  rfl

/-- After the key the parser knows everything but the payload. -/
theorem feed_key (ready : p.Ready) (f : ClientFrame) :
    ∃ p', p.feed (f.head ++ f.lenBytes ++ f.keyBytes) = some ⟨p', [], true⟩ ∧ p'.BodyNext f := by
  obtain ⟨p', ran, known⟩ := feed_length ready f
  rw [feed, Feed.consume_append_silent ran]
  have state := known.state
  have masked := known.masked
  unfold afterLen at state
  unfold keyBytes
  rcases hasKey : f.key with _ | key <;> rw [hasKey] at masked <;> rw [masked] at state
  · exact ⟨p', rfl, known.toExpects, known.plen, state, by simp [hasKey]⟩
  · refine ⟨_, feed_mask state known.hdrGot key, ⟨known.fin, known.opcode, known.masked, known.got, rfl⟩,
      known.plen, rfl, ?_⟩
    rintro _ same
    rw [hasKey] at same
    exact Option.some.inj same

/-! ## The payload -/

/-- What the byte at position `i` of the payload is kept as. -/
def unmaskAt (p : WsParser) (i : ℕ) (b : UInt8) : UInt8 :=
  if p.masked then b ^^^ p.mask[i % 4] else b

theorem BodyNext.mapIdx_body (next : p.BodyNext f) :
    f.body.mapIdx p.unmaskAt = f.payload := by
  have masked := next.masked
  unfold body
  rcases hasKey : f.key with _ | key <;> rw [hasKey] at masked
  · have plain : p.unmaskAt = fun _ b => b := by
      funext i b
      rw [unmaskAt, masked]
      rfl
    rw [plain]
    exact List.ext_getElem (by simp) fun i _ _ => by simp
  · have keyed : p.unmaskAt = fun i b => b ^^^ key[i % 4] := by
      funext i b
      rw [unmaskAt, masked, next.mask key hasKey]
      rfl
    rw [keyed]
    exact maskWith_maskWith key f.payload

/-- As long as the frame is not complete, its bytes are unmasked into the buffer. -/
theorem feed_payload_part (state : p.state = .payload) (got : p.got = 0)
    (bs : List UInt8) (incomplete : bs.length < p.plen) (room : bs.length ≤ payloadMax) :
    ∃ payload : Vector UInt8 payloadMax, payload.toList.take bs.length = bs.mapIdx p.unmaskAt ∧
      p.feed bs = some ⟨{ p with payload, got := bs.length }, [], true⟩ := by
  have each (payload : Vector UInt8 payloadMax) (i : ℕ) (b : UInt8) (below : i < bs.length) :
      ∃ _ : i < payloadMax, feedByte { p with payload, got := i } b =
        some ⟨{ p with payload := payload.set i (p.unmaskAt i b), got := i + 1 }, [], true⟩ := by
    have inside : i < payloadMax := by omega
    refine ⟨inside, ?_⟩
    simp only [feedByte, state, payloadByte]
    rw [dif_pos inside, if_neg (by omega)]
    simp [go, unmask, unmaskAt]
  obtain ⟨payload, read, ran⟩ := Feed.consume_collect each p.payload (Nat.le_refl _)
  refine ⟨payload, read, ?_⟩
  rwa [← got] at ran

/-- The last byte of a non-empty frame completes it. -/
theorem feed_body (next : p.BodyNext f) (filled : f.payload ≠ []) :
    ∃ p', p'.Ready ∧ p.feed f.body = some ⟨p', [f.event], true⟩ := by
  have nonempty : f.body ≠ [] := by
    rw [← List.length_pos_iff, length_body]
    exact List.length_pos_iff.2 filled
  have whole := next.mapIdx_body
  have length := f.length_body
  have bounded := f.bounded
  obtain ⟨bs, b, split⟩ := (List.eq_nil_or_concat f.body).resolve_left nonempty
  rw [List.concat_eq_append] at split
  rw [split] at whole length ⊢
  rw [List.mapIdx_concat] at whole
  rw [List.length_append, List.length_singleton] at length
  obtain ⟨payload, read, ran⟩ := feed_payload_part next.state next.got bs (by rw [next.plen]; omega) (by omega)
  rw [feed, Feed.consume_append_silent ran, Feed.consume_singleton]
  simp only [feedByte, next.state, payloadByte]
  rw [dif_pos (by omega), if_pos (by rw [next.plen]; omega)]
  have kept : (payload.set bs.length (p.unmaskAt bs.length b)).toList.take (bs.length + 1) = f.payload := by
    rw [take_set, read, whole]
  let p' : WsParser :=
    { p with
      payload := payload.set bs.length (p.unmaskAt bs.length b)
      got := bs.length + 1
      state := .header
      hdrGot := 0 }
  refine ⟨p', ⟨rfl, rfl⟩, ?_⟩
  rw [event, ← next.fin, ← next.opcode, ← length, ← kept]
  rfl

theorem feed_frame (filled : f.payload ≠ []) (ready : p.Ready) :
    ∃ p', p'.Ready ∧ p.feed f.wire = some ⟨p', [f.event], true⟩ := by
  obtain ⟨p', ran, next⟩ := feed_key ready f
  rw [wire, feed, Feed.consume_append_silent ran]
  exact feed_body next filled

/-! ## An empty frame -/

/-- Waiting for the payload of an empty frame. -/
def Starved (p : WsParser) : Prop := p.state = .payload ∧ p.plen = 0

theorem Starved.feedByte (b : UInt8) (starved : p.Starved) :
    ∃ p' alive, p'.Starved ∧ p.feedByte b = some ⟨p', [], alive⟩ := by
  obtain ⟨state, plen⟩ := starved
  simp only [WsParser.feedByte, state, payloadByte]
  by_cases room : p.got < payloadMax
  · rw [dif_pos room, if_neg (by omega)]
    refine ⟨_, true, ?_, rfl⟩
    exact ⟨rfl, plen⟩
  · rw [dif_neg room]
    exact ⟨p, false, ⟨state, plen⟩, rfl⟩

/-- From an empty frame on nothing is emitted, whatever follows. -/
theorem feed_empty (empty : f.payload = []) (ready : p.Ready)
    (rest : List UInt8) :
    ∃ p' alive, p'.Starved ∧ p.feed (f.wire ++ rest) = some ⟨p', [], alive⟩ := by
  obtain ⟨p₁, ran, next⟩ := feed_key ready f
  have starved : p₁.Starved := ⟨next.state, by rw [next.plen, empty]; rfl⟩
  have nobody : f.body = [] := by
    rw [← List.length_eq_zero_iff, length_body, empty]
    rfl
  rw [wire, nobody, List.append_nil, feed, Feed.consume_append_silent ran]
  exact Feed.consume_trapped (fun _ b h => h.feedByte b) starved rest

/-! ## Lists of frames -/

theorem new_ready : new.Ready := ⟨rfl, rfl⟩

theorem feed_filled {fs : List ClientFrame} (filled : ∀ f ∈ fs, f.payload ≠ []) :
    ∃ p, p.Ready ∧ new.feed (fs.flatMap wire) = some ⟨p, fs.map event, true⟩ :=
  Feed.consume_frames (fun f hf _ ready => feed_frame (filled f hf) ready) new_ready

/-- If there is an empty frame, the frames before the first one are all that is ever emitted. -/
theorem feed_starved {fs : List ClientFrame} (some_empty : ∃ f ∈ fs, f.payload = []) (ready : p.Ready) :
    ∃ p' alive, p'.Starved ∧ p.feed (fs.flatMap wire) =
      some ⟨p', (fs.takeWhile fun f => f.payload ≠ []).map event, alive⟩ := by
  induction fs generalizing p with
  | nil => simp at some_empty
  | cons f fs ih =>
    rw [List.flatMap_cons]
    by_cases empty : f.payload = []
    · rw [List.takeWhile_cons_of_neg (by simpa using empty)]
      exact feed_empty empty ready (fs.flatMap wire)
    · have later : ∃ f ∈ fs, f.payload = [] := by simpa [empty] using some_empty
      obtain ⟨p₁, ready₁, first⟩ := feed_frame empty ready
      obtain ⟨p', alive, starved, rest⟩ := ih later ready₁
      refine ⟨p', alive, starved, ?_⟩
      unfold feed at first rest ⊢
      rw [List.takeWhile_cons_of_pos (by simpa using empty), Feed.consume_append, first,
        Option.bind_some, Feed.andThen_alive, rest]
      rfl

/-- The frames of a client are reported exactly, wherever their bytes are cut, if and only if none
of them is empty. -/
theorem feedChunks_frames_iff (fs : List ClientFrame) (chunks : List (List UInt8))
    (cut : chunks.flatten = fs.flatMap wire) :
    (∃ p, new.feedChunks chunks = some ⟨p, fs.map event, true⟩ ∧ p.state = .header) ↔
      ∀ f ∈ fs, f.payload ≠ [] := by
  rw [feedChunks_eq_feed, cut]
  constructor
  · rintro ⟨p, ran, state⟩ f hf empty
    obtain ⟨p', alive, starved, ran'⟩ := feed_starved ⟨f, hf, empty⟩ new_ready
    have same : p = p' := congrArg Feed.Out.state (Option.some.inj (ran.symm.trans ran'))
    rw [same, starved.1] at state
    cases state
  · intro filled
    obtain ⟨p, ready, ran⟩ := feed_filled filled
    exact ⟨p, ran, ready.1⟩

/-- A masked text frame, "Hello". -/
def hello : ClientFrame where
  fin := true
  opcode := 1
  key := some #v[0x37, 0xFA, 0x21, 0x3D]
  form := .len7
  payload := [0x48, 0x65, 0x6C, 0x6C, 0x6F]
  fits := by decide
  bounded := by decide

/-- A ping without payload. -/
def emptyPing : ClientFrame where
  fin := true
  opcode := 9
  key := some #v[0x37, 0xFA, 0x21, 0x3D]
  form := .len7
  payload := []
  fits := by decide
  bounded := by decide

theorem feedChunks_frames_hello :
    [[0x81, 0x85, 0x37, 0xFA], [0x21, 0x3D, 0x7F, 0x9F, 0x4D], [0x51, 0x58]].flatten = [hello].flatMap wire ∧
      ∃ p, new.feedChunks [[0x81, 0x85, 0x37, 0xFA], [0x21, 0x3D, 0x7F, 0x9F, 0x4D], [0x51, 0x58]] =
        some ⟨p, [hello.event], true⟩ ∧ p.state = .header :=
  ⟨by decide, (feedChunks_frames_iff [hello] _ (by decide)).2 (by decide)⟩

theorem feed_emptyPing_hello :
    (new.feedChunks [[emptyPing, hello].flatMap wire]).map
      (fun out => (out.emitted, out.alive, out.state.state)) = some ([], true, .payload) := by
  decide +kernel

/-- After an empty ping the text frame behind it is swallowed and the parser never gets back to a
header. -/
theorem empty_ping_swallows_hello :
    ¬ ∃ p, new.feedChunks [[emptyPing, hello].flatMap wire] =
      some ⟨p, [emptyPing.event, hello.event], true⟩ ∧ p.state = .header := by
  rintro ⟨p, ran, -⟩
  have swallowed := feed_emptyPing_hello
  rw [ran] at swallowed
  cases swallowed

/-! ## Headers that announce too much -/

/-- The seven length bits of the second byte of a header. -/
def lenBits (b : UInt8) : ℕ := (b &&& 0x7F).toNat

/-- The width of the length field behind the second byte. -/
def lenForm (b : UInt8) : LenForm := if lenBits b = 126 then .len16 else if lenBits b = 127 then .len64 else .len7

/-- How many bytes such a field has. -/
def extLen : LenForm → ℕ
  | .len7 => 0
  | .len16 => 2
  | .len64 => 8

/-- A header as far as its length, with any bytes. -/
structure FrameHeader where
  first : UInt8
  second : UInt8
  ext : List UInt8
  whole : ext.length = extLen (lenForm second)

namespace FrameHeader

/-- The form of the length. -/
def form (h : FrameHeader) : LenForm := lenForm h.second

/-- The header as it is sent. -/
def bytes (h : FrameHeader) : List UInt8 := [h.first, h.second] ++ h.ext

/-- The payload length the header announces. -/
def announced (h : FrameHeader) : ℕ := if h.form = .len7 then lenBits h.second else leNat h.ext.reverse

theorem announced_len7 {h : FrameHeader} (form : h.form = .len7) : h.announced ≤ 127 := by
  rw [announced, if_pos form, lenBits, UInt8.toNat_and]
  exact Nat.and_le_right

end FrameHeader

/-- The first two bytes of a header lead to its length field. -/
theorem feed_first_two {p : WsParser} (ready : p.Ready) (h : FrameHeader) :
    ∃ q, p.feed [h.first, h.second] = some ⟨q, [], true⟩ ∧ q.hdrGot = 0 ∧
      (h.form = .len16 → q.state = .len16) ∧ (h.form = .len64 → q.state = .len64) := by
  refine ⟨_, feed_two ready h.first h.second, rfl, ?_⟩
  have plen : (p.withHead h.first h.second).plen = lenBits h.second := rfl
  unfold FrameHeader.form lenForm afterHead
  rw [plen]
  split_ifs <;> simp

/-- The parser goes on behind a header that announces too much only if the length has 64 bits and its low half
passes for a length. -/
theorem feed_oversized {p : WsParser} (ready : p.Ready) {h : FrameHeader} (tooLong : payloadMax < h.announced) :
    ∃ p', p.feed h.bytes = some ⟨p', [], decide (h.form = .len64 ∧ h.announced % 2 ^ 32 ≤ payloadMax)⟩ := by
  obtain ⟨q, head, fresh, state16, state64⟩ := feed_first_two ready h
  have whole : h.ext.length = extLen h.form := h.whole
  rw [FrameHeader.bytes, feed, Feed.consume_append_silent head]
  rcases form : h.form with _ | _ | _
  · have short := h.announced_len7 form
    unfold payloadMax at tooLong
    omega
  · rw [form] at whole
    obtain ⟨hi, lo, two⟩ := List.length_eq_two.1 whole
    rw [FrameHeader.announced, if_neg (by simp [form]), two] at tooLong
    rw [two, decide_eq_false (by simp)]
    exact (feed_len16_bytes (state16 form) fresh hi lo).1 tooLong
  · rw [form] at whole
    have value : h.announced = leNat h.ext.reverse := by rw [FrameHeader.announced, if_neg (by simp [form])]
    obtain ⟨refused, taken⟩ := feed_len64_bytes (state64 form) fresh whole
    rw [value]
    by_cases low : leNat h.ext.reverse % 2 ^ 32 ≤ payloadMax
    · obtain ⟨hdr, ran⟩ := taken low
      rw [decide_eq_true ⟨rfl, low⟩]
      exact ⟨_, ran⟩
    · rw [decide_eq_false fun h => low h.2]
      exact refused (Nat.lt_of_not_le low)

/-- At a frame boundary, a header that announces more than the buffer holds ends the session with its last length
byte, wherever the bytes are cut and whatever follows, if and only if it is not a 64-bit length with a low half
that passes for a length. -/
theorem feedChunks_oversized_iff {pre : List UInt8} {frames : List WsFrame} {p : WsParser}
    (before : new.feed pre = some ⟨p, frames, true⟩) (boundary : p.Ready) (h : FrameHeader)
    (tooLong : payloadMax < h.announced) :
    (∀ rest chunks, chunks.flatten = pre ++ h.bytes ++ rest →
        ∃ p', new.feedChunks chunks = some ⟨p', frames, false⟩) ↔
      ¬(h.form = .len64 ∧ h.announced % 2 ^ 32 ≤ payloadMax) := by
  obtain ⟨p', ran⟩ := feed_oversized boundary tooLong
  have header : new.feed (pre ++ h.bytes) =
      some ⟨p', frames, decide (h.form = .len64 ∧ h.announced % 2 ^ 32 ≤ payloadMax)⟩ := by
    unfold feed at before ran ⊢
    rw [Feed.consume_append, before, Option.bind_some, Feed.andThen_alive, ran]
    simp
  constructor
  · intro closes accepted
    obtain ⟨q, closed⟩ := closes [] [pre ++ h.bytes] (by simp)
    rw [feedChunks_eq_feed, List.flatten_singleton, header, decide_eq_true accepted] at closed
    cases closed
  · intro refused rest chunks cut
    rw [decide_eq_false refused] at header
    unfold feed at header
    refine ⟨p', ?_⟩
    rw [feedChunks_eq_feed, cut, feed, Feed.consume_append, header]
    rfl

/-- Ten bytes that announce `2 ^ 32 + 5` bytes of payload. -/
def wrapping : FrameHeader := ⟨0x82, 0x7F, [0, 0, 0, 1, 0, 0, 0, 5], rfl⟩

/-- And four that announce 65535. -/
def sixtyFourK : FrameHeader := ⟨0x82, 0x7E, [0xFF, 0xFF], rfl⟩

theorem feedChunks_oversized_sixtyFourK :
    payloadMax < sixtyFourK.announced ∧
      ∃ p', new.feedChunks [[0x82], [0x7E, 0xFF], [0xFF]] = some ⟨p', [], false⟩ := by
  have tooLong : payloadMax < sixtyFourK.announced := by decide
  have nothing : new.feed [] = some ⟨new, [], true⟩ := rfl
  exact ⟨tooLong, (feedChunks_oversized_iff nothing new_ready sixtyFourK tooLong).2 (by decide) [] _ (by decide)⟩

/-- The frame is taken for one of five bytes. -/
theorem wrapping_length_accepted :
    payloadMax < wrapping.announced ∧
      (new.feedChunks [wrapping.bytes ++ [1, 2, 3, 4, 5]]).map (fun out => (out.emitted, out.alive)) =
        some ([⟨true, 2, 5, [1, 2, 3, 4, 5]⟩], true) := by
  refine ⟨by decide, ?_⟩
  decide +kernel

end WsParser

end IoEdgeHub
