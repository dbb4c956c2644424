import IoEdgeHub.Firmware.HttpServe
import IoEdgeHub.Proto.Base64
import IoEdgeHub.Proto.WsSha1

/-!
# The WebSocket handshake

`serve` answers an upgrade with the accept key: the SHA-1 of the client's key and a fixed GUID, in base64
(`ws_accept_key`).  The response is written to a string of 160 bytes with the error ignored; it always fits, so
the client gets the key whole (`upgrade_answered`).
-/

namespace IoEdgeHub

open Text

/-- `GUID` -/
def wsGuid : List UInt8 := utf8 "258EAFA5-E914-47DA-95CA-C5AB0DC85B11"

/-- The accept key; an encoding that is not 28 characters long is the failed assertion. -/
def wsAcceptKey (fuel : ℕ) (key24 : List UInt8) : Option (List UInt8) := do
  let digest ← Sha1.digest fuel [key24, wsGuid]
  let out := b64Encode digest 28
  if out.length = 28 then some out else none

namespace Http

/-- The response in front of the accept key. -/
def switchingHead : String :=
  "HTTP/1.1 101 Switching Protocols\r\nUpgrade: websocket\r\nConnection: Upgrade\r\nSec-WebSocket-Accept: "

/-- The response to an upgrade: `write!` into 160 bytes. -/
def switching (accept : List UInt8) : List UInt8 :=
  utf8 (String.ofList (writePieces 160 [] [switchingHead.toList, (fromUtf8 accept).getD [], "\r\n\r\n".toList]))

end Http

/-! ## Characters of the key -/

theorem length_sha1 (text : List UInt8) : (Fips180.sha1 text).length = 20 := by
  simp [Fips180.sha1, Fips180.bytes, Bytes.length_toBe]

theorem b64Table_ascii : ∀ i < 64, (b64Table[i]?.getD 0).toNat < 128 := by
  decide +kernel

theorem b64Char_ascii (v : UInt32) : (b64Char v).toNat < 128 := by
  rw [b64Char_eq]
  exact b64Table_ascii _ (Nat.mod_lt _ (by decide))

theorem b64Group_ascii {chunk : List UInt8} {c : UInt8} (mem : c ∈ b64Group chunk) : c.toNat < 128 := by
  rcases List.mem_append.1 mem with char | pad
  · have := List.mem_of_mem_take char
    simp only [List.mem_cons, List.not_mem_nil, or_false] at this
    rcases this with rfl | rfl | rfl | rfl <;> exact b64Char_ascii _
  · rw [(List.mem_replicate.1 pad).2]
    decide

theorem b64Full_ascii {src : List UInt8} {c : UInt8} (mem : c ∈ b64Full src) : c.toNat < 128 := by
  obtain ⟨chunk, -, inside⟩ := List.mem_flatMap.1 mem
  exact b64Group_ascii inside

/-! ## The answer -/

/-- The accept key of the standard; the assertion never fails. -/
theorem wsAcceptKey_eq {key : List UInt8} (size : key.length = 24) {fuel : ℕ} (enough : 64 ≤ fuel) :
    wsAcceptKey fuel key = some (b64Full (Fips180.sha1 (key ++ wsGuid))) := by
  have text : [key, wsGuid].flatten = key ++ wsGuid := by
    rw [List.flatten_cons, List.flatten_singleton]
  have guid : wsGuid.length = 36 := by decide +kernel
  have short : [key, wsGuid].flatten.length < 2 ^ 61 := by
    rw [text, List.length_append, size, guid]
    decide
  have encoded : b64Encode (Fips180.sha1 (key ++ wsGuid)) 28 = b64Full (Fips180.sha1 (key ++ wsGuid)) := by
    apply b64Encode_eq
    rw [length_sha1]
  have whole : (b64Full (Fips180.sha1 (key ++ wsGuid))).length = 28 := by rw [length_b64Full, length_sha1]
  rw [wsAcceptKey, Sha1.digest_eq _ short enough, text]
  dsimp only [Option.bind_eq_bind, Option.bind_some]
  rw [encoded, if_pos whole]

namespace Http

/-- A key of ASCII characters that is short enough reaches the client as it is. -/
theorem switching_eq {accept : List UInt8} (ascii : ∀ c ∈ accept, c.toNat < 128) (short : accept.length ≤ 59) :
    switching accept = utf8 switchingHead ++ accept ++ utf8 "\r\n\r\n" := by
  have decoded := fromUtf8_ascii ascii
  have head : byteLen switchingHead.toList = 97 := by decide +kernel
  have tail : byteLen "\r\n\r\n".toList = 4 := by decide +kernel
  have size := byteLen_fromUtf8 decoded
  rw [switching, decoded, Option.getD_some, writePieces_cons, List.nil_append, if_pos (by omega), writePieces_cons,
    byteLen_append, if_pos (by omega), writePieces_cons, byteLen_append, byteLen_append, if_pos (by omega), writePieces,
    utf8_eq, String.toList_ofList, List.flatMap_append, List.flatMap_append, ← utf8_eq, ← utf8_eq,
    ← fromUtf8_eq_some_iff.1 decoded]

theorem length_wsExtractKey {hdr key : List UInt8} (found : wsExtractKey hdr = some key) : key.length = 24 := by
  obtain ⟨v, -, taken⟩ := Option.bind_eq_some_iff.1 found
  split_ifs at taken with few
  cases taken
  rw [List.length_take]
  omega

/-- Every upgrade that is taken is answered with the accept key of its key, whole. -/
theorem upgrade_answered {wsFree : Bool} {hdr key : List UInt8} (taken : upgrade wsFree hdr = .upgrade key) {fuel : ℕ}
    (enough : 64 ≤ fuel) :
    ∃ accept, wsAcceptKey fuel key = some accept ∧
      switching accept = utf8 switchingHead ++ accept ++ utf8 "\r\n\r\n" ∧
      accept = b64Full (Fips180.sha1 (key ++ wsGuid)) := by
  have found : wsExtractKey hdr = some key := by
    unfold upgrade at taken
    split_ifs at taken
    split at taken
    · next extracted =>
      cases taken
      exact extracted
    · cases taken
  refine ⟨_, wsAcceptKey_eq (length_wsExtractKey found) enough, switching_eq (fun c mem => b64Full_ascii mem) ?_, rfl⟩
  rw [length_b64Full, length_sha1]
  decide

theorem upgrade_answered_nonce :
    let hdr := utf8 "GET /ws HTTP/1.1\r\nSec-WebSocket-Key: dGhlIHNhbXBsZSBub25jZQ==\r\n\r\n"
    let key := utf8 "dGhlIHNhbXBsZSBub25jZQ=="
    upgrade true hdr = .upgrade key ∧
      ∃ accept, wsAcceptKey 64 key = some accept ∧
        switching accept = utf8 switchingHead ++ accept ++ utf8 "\r\n\r\n" ∧
        accept = b64Full (Fips180.sha1 (key ++ wsGuid)) := by
  intro hdr key
  have taken : upgrade true hdr = .upgrade key := by decide +kernel
  exact ⟨taken, upgrade_answered taken (le_refl 64)⟩

end Http

end IoEdgeHub
