import IoEdgeHub.Proto.FwUpg

/-!
# base64: the encoder of `ws.rs` and the decoder of `fw_upg.rs`

The encoder turns three bytes at a time into four characters; the decoder shifts characters into an
accumulator of which only the bits not yet written out matter.  Four characters bring it back to where
it started with three bytes written (`b64Loop_group`), so it undoes the encoder.
-/

namespace IoEdgeHub

/-! ## The encoder -/

/-- `B64` -/
def b64Table : List UInt8 := "ABCDEFGHIJKLMNOPQRSTUVWXYZabcdefghijklmnopqrstuvwxyz0123456789+/".toUTF8.toList

/-- `B64[(v & 63) as usize]` -/
def b64Char (v : UInt32) : UInt8 := b64Table[(v &&& 63).toNat]?.getD 0

/-- `src.chunks(3)` -/
def chunks3 : List UInt8 → List (List UInt8)
  | [] => []
  | [a] => [[a]]
  | [a, b] => [[a, b]]
  | a :: b :: c :: rest => [a, b, c] :: chunks3 rest

/-- The characters of a chunk, padded to four. -/
def b64Group (chunk : List UInt8) : List UInt8 :=
  let b (i : ℕ) : UInt32 := (chunk[i]?.getD 0).toUInt32
  let v := (b 0 <<< 16) ||| (b 1 <<< 8) ||| b 2
  let chars := [b64Char (v >>> 18), b64Char (v >>> 12), b64Char (v >>> 6), b64Char v]
  let keep :=
    match chunk.length with
    | 1 => 2
    | 2 => 3
    | _ => 4
  chars.take keep ++ List.replicate (4 - keep) 0x3D

/-- One character, while there is room for it. -/
def b64Put (room : ℕ) (out : List UInt8) (c : UInt8) : List UInt8 := if out.length < room then out ++ [c] else out

/-- What is written to a buffer of `room` bytes. -/
def b64Encode (src : List UInt8) (room : ℕ) : List UInt8 :=
  (chunks3 src).foldl (fun out chunk => (b64Group chunk).foldl (b64Put room) out) []

example : b64Encode "io".toUTF8.toList 4 = "aW8=".toUTF8.toList := by decide +kernel

/-- All characters of a text. -/
def b64Full (src : List UInt8) : List UInt8 := (chunks3 src).flatMap b64Group

theorem foldl_b64Put (room : ℕ) (cs out : List UInt8) (fits : out.length + cs.length ≤ room) :
    cs.foldl (b64Put room) out = out ++ cs := by
  induction cs generalizing out with
  | nil => exact (List.append_nil _).symm
  | cons c cs ih =>
    rw [List.length_cons] at fits
    rw [List.foldl_cons, b64Put, if_pos (by omega), ih _ (by rw [List.length_append, List.length_singleton]; omega),
      List.append_assoc]
    rfl

theorem length_b64Group (chunk : List UInt8) : (b64Group chunk).length = 4 := by
  unfold b64Group
  dsimp only
  split <;> rfl

theorem b64Full_cons (a b c : UInt8) (rest : List UInt8) :
    b64Full (a :: b :: c :: rest) = b64Group [a, b, c] ++ b64Full rest := by
  rw [b64Full, chunks3, List.flatMap_cons]
  rfl

theorem length_b64Full (src : List UInt8) : (b64Full src).length = 4 * ((src.length + 2) / 3) := by
  induction src using chunks3.induct with
  | case1 => simp [b64Full, chunks3]
  | case2 a => simp [b64Full, chunks3, length_b64Group]
  | case3 a b => simp [b64Full, chunks3, length_b64Group]
  | case4 a b c rest ih =>
    rw [b64Full_cons, List.length_append, length_b64Group, ih]
    simp only [List.length_cons]
    omega

theorem b64Encode_eq {src : List UInt8} {room : ℕ} (fits : 4 * ((src.length + 2) / 3) ≤ room) :
    b64Encode src room = b64Full src := by
  rw [← length_b64Full] at fits
  rw [b64Encode, ← List.foldl_flatMap]
  exact foldl_b64Put room (b64Full src) [] (by rw [List.length_nil, Nat.zero_add]; exact fits)

/-! ## The decoder -/

theorem b64Val_b64Table : ∀ i < 64, b64Val (b64Table[i]?.getD 0) = some (UInt32.ofNat i) := by
  decide +kernel

theorem b64Char_eq (v : UInt32) : b64Char v = b64Table[v.toNat % 64]?.getD 0 := by
  have low : (v &&& 63).toNat = v.toNat % 64 := by
    rw [UInt32.toNat_and]
    exact Nat.and_two_pow_sub_one_eq_mod v.toNat 6
  rw [b64Char, low]

theorem b64Val_b64Char (v : UInt32) : b64Val (b64Char v) = some (UInt32.ofNat (v.toNat % 64)) := by
  rw [b64Char_eq]
  exact b64Val_b64Table _ (Nat.mod_lt _ (by decide))

variable {k : UInt32} {d n : ℕ}

theorem toNat_shl (v : UInt32) (count : k.toNat = n) (small : n < 32) :
    (v <<< k).toNat = v.toNat * 2 ^ n % 2 ^ 32 := by
  rw [UInt32.toNat_shiftLeft, count, Nat.mod_eq_of_lt small, Nat.shiftLeft_eq]

theorem toNat_shr (v : UInt32) (count : k.toNat = n) (small : n < 32) :
    (v >>> k).toNat = v.toNat / 2 ^ n := by
  rw [UInt32.toNat_shiftRight, count, Nat.mod_eq_of_lt small, Nat.shiftRight_eq_div_pow]

theorem toNat_shift_in (acc : UInt32) (small : d < 64) :
    ((acc <<< 6) ||| UInt32.ofNat d).toNat = acc.toNat * 2 ^ 6 % 2 ^ 32 + d := by
  have value : (UInt32.ofNat d).toNat = d := by
    rw [UInt32.toNat_ofNat']
    omega
  have shifted : acc.toNat * 2 ^ 6 % 2 ^ 32 = (acc.toNat % 2 ^ 26) <<< 6 := by
    rw [Nat.shiftLeft_eq]
    omega
  rw [UInt32.toNat_or, value, toNat_shl acc (n := 6) rfl (by decide), shifted,
    ← Nat.shiftLeft_add_eq_or_of_lt small, ← shifted]

/-- Three bytes in one number. -/
def triple (a b c : UInt8) : UInt32 := (a.toUInt32 <<< 16) ||| (b.toUInt32 <<< 8) ||| c.toUInt32

theorem toNat_triple (a b c : UInt8) : (triple a b c).toNat = a.toNat * 65536 + b.toNat * 256 + c.toNat := by
  have ha := a.toNat_lt
  have hb := b.toNat_lt
  have hc := c.toNat_lt
  have high : (a.toUInt32 <<< 16).toNat = a.toNat <<< 16 := by
    rw [toNat_shl _ (n := 16) rfl (by decide), UInt8.toNat_toUInt32, Nat.shiftLeft_eq]
    omega
  have middle : (b.toUInt32 <<< 8).toNat = b.toNat <<< 8 := by
    rw [toNat_shl _ (n := 8) rfl (by decide), UInt8.toNat_toUInt32, Nat.shiftLeft_eq]
    omega
  have below : b.toNat <<< 8 < 2 ^ 16 := by
    rw [Nat.shiftLeft_eq]
    omega
  have two : a.toNat <<< 16 + b.toNat <<< 8 = (a.toNat * 256 + b.toNat) <<< 8 := by
    simp only [Nat.shiftLeft_eq]
    omega
  rw [triple, UInt32.toNat_or, UInt32.toNat_or, high, middle, UInt8.toNat_toUInt32,
    ← Nat.shiftLeft_add_eq_or_of_lt below, two, ← Nat.shiftLeft_add_eq_or_of_lt hc, Nat.shiftLeft_eq]
  omega

/-- What the decoder reads from the `n`-th bit on, where the encoder has shifted `v`. -/
theorem b64Val_shr (v : UInt32) (count : k.toNat = n) (small : n < 32) :
    b64Val (b64Char (v >>> k)) = some (UInt32.ofNat (v.toNat / 2 ^ n % 64)) := by
  rw [b64Val_b64Char, toNat_shr v count small]

/-- A character that leaves too few bits for a byte. -/
theorem b64Loop_wait {c : UInt8} (read : b64Val c = some (UInt32.ofNat d)) (small : d < 64)
    (acc nbits : UInt32) (few : ¬nbits + 6 ≥ 8) (room : ℕ) (rest : List UInt8) :
    ∃ acc', b64Loop acc nbits room (c :: rest) = b64Loop acc' (nbits + 6) room rest ∧
      acc'.toNat = acc.toNat * 2 ^ 6 % 2 ^ 32 + d := by
  refine ⟨_, ?_, toNat_shift_in acc small⟩
  rw [b64Loop, read]
  exact if_neg few

theorem b64Loop_emit {c : UInt8} (read : b64Val c = some (UInt32.ofNat d)) (small : d < 64)
    (acc nbits : UInt32) (enough : nbits + 6 ≥ 8) (count : (nbits + 6 - 8).toNat = n) (left : n < 32)
    (byte : UInt8) (emitted : (acc.toNat * 2 ^ 6 % 2 ^ 32 + d) / 2 ^ n % 256 = byte.toNat) (room : ℕ)
    (rest : List UInt8) :
    ∃ acc', b64Loop acc nbits (room + 1) (c :: rest) = (b64Loop acc' (nbits + 6 - 8) room rest).map (byte :: ·) ∧
      acc'.toNat = acc.toNat * 2 ^ 6 % 2 ^ 32 + d := by
  refine ⟨_, ?_, toNat_shift_in acc small⟩
  have same : (((acc <<< 6) ||| UInt32.ofNat d) >>> (nbits + 6 - 8)).toUInt8 = byte := by
    apply UInt8.toNat_inj.1
    rw [UInt32.toNat_toUInt8, toNat_shr _ count left, toNat_shift_in acc small]
    exact emitted
  rw [b64Loop, read]
  refine (if_pos enough).trans ?_
  rw [← same]
  rcases b64Loop ((acc <<< 6) ||| UInt32.ofNat d) (nbits + 6 - 8) room rest with _ | out
  · rfl
  · rfl

section Group

variable (a b c : UInt8) (acc : UInt32) (room : ℕ) (rest : List UInt8)

/-- The first two characters of three bytes bring the first byte, whatever is left in the accumulator. -/
theorem b64Loop_first :
    ∃ acc', b64Loop acc 0 (room + 1) (b64Char (triple a b c >>> 18) :: b64Char (triple a b c >>> 12) :: rest) =
        (b64Loop acc' 4 room rest).map (a :: ·) ∧ acc'.toNat % 16 = (triple a b c).toNat / 2 ^ 12 % 16 := by
  have ha := a.toNat_lt
  have hb := b.toNat_lt
  have hc := c.toNat_lt
  have value := toNat_triple a b c
  obtain ⟨acc₁, waited, value₁⟩ := b64Loop_wait (b64Val_shr (triple a b c) (k := 18) (n := 18) rfl (by decide))
    (Nat.mod_lt _ (by decide)) acc 0 (by decide) (room + 1) (b64Char (triple a b c >>> 12) :: rest)
  obtain ⟨acc₂, emitted, value₂⟩ := b64Loop_emit (b64Val_shr (triple a b c) (k := 12) (n := 12) rfl (by decide))
    (Nat.mod_lt _ (by decide)) acc₁ 6 (by decide) (n := 4) rfl (by decide) a (by omega) room rest
  exact ⟨acc₂, waited.trans emitted, by omega⟩

theorem b64Loop_second (held : acc.toNat % 16 = (triple a b c).toNat / 2 ^ 12 % 16) :
    ∃ acc', b64Loop acc 4 (room + 1) (b64Char (triple a b c >>> 6) :: rest) =
        (b64Loop acc' 2 room rest).map (b :: ·) ∧ acc'.toNat % 4 = (triple a b c).toNat / 2 ^ 6 % 4 := by
  have hb := b.toNat_lt
  have hc := c.toNat_lt
  have value := toNat_triple a b c
  obtain ⟨acc', emitted, value'⟩ := b64Loop_emit (b64Val_shr (triple a b c) (k := 6) (n := 6) rfl (by decide))
    (Nat.mod_lt _ (by decide)) acc 4 (by decide) (n := 2) rfl (by decide) b (by omega) room rest
  exact ⟨acc', emitted, by omega⟩

/-- The fourth character brings the third byte and leaves nothing over. -/
theorem b64Loop_third (held : acc.toNat % 4 = (triple a b c).toNat / 2 ^ 6 % 4) :
    ∃ acc', b64Loop acc 2 (room + 1) (b64Char (triple a b c) :: rest) = (b64Loop acc' 0 room rest).map (c :: ·) := by
  have hc := c.toNat_lt
  have value := toNat_triple a b c
  obtain ⟨acc', emitted, -⟩ := b64Loop_emit (b64Val_b64Char (triple a b c))
    (Nat.mod_lt _ (by decide)) acc 2 (by decide) (n := 0) rfl (by decide) c (by omega) room rest
  exact ⟨acc', emitted⟩

/-- Four characters bring three bytes, and the loop is where it was. -/
theorem b64Loop_group :
    ∃ acc', b64Loop acc 0 (room + 3) (b64Group [a, b, c] ++ rest) =
      (b64Loop acc' 0 room rest).map (fun out => a :: b :: c :: out) := by
  obtain ⟨acc₁, first, held₁⟩ := b64Loop_first a b c acc (room + 2)
    (b64Char (triple a b c >>> 6) :: b64Char (triple a b c) :: rest)
  obtain ⟨acc₂, second, held₂⟩ := b64Loop_second a b c acc₁ (room + 1) (b64Char (triple a b c) :: rest) held₁
  obtain ⟨acc₃, third⟩ := b64Loop_third a b c acc₂ room rest held₂
  refine ⟨acc₃, first.trans ?_⟩
  rw [second, third, Option.map_map, Option.map_map]
  rfl

end Group

theorem b64Char_ne_pad (v : UInt32) : b64Char v ≠ 0x3D := by
  intro pad
  have read := b64Val_b64Char v
  rw [pad] at read
  exact absurd read (by simp [b64Val])

theorem takeWhile_chars (vs : List UInt32) (rest : List UInt8) :
    (vs.map b64Char ++ rest).takeWhile (· ≠ 0x3D) = vs.map b64Char ++ rest.takeWhile (· ≠ 0x3D) := by
  apply List.takeWhile_append_of_pos
  intro c mem
  obtain ⟨v, -, rfl⟩ := List.mem_map.1 mem
  exact decide_eq_true (b64Char_ne_pad v)

theorem takeWhile_group (a b c : UInt8) (rest : List UInt8) :
    (b64Group [a, b, c] ++ rest).takeWhile (· ≠ 0x3D) = b64Group [a, b, c] ++ rest.takeWhile (· ≠ 0x3D) :=
  takeWhile_chars [triple a b c >>> 18, triple a b c >>> 12, triple a b c >>> 6, triple a b c] rest

theorem takeWhile_one (a : UInt8) :
    (b64Full [a]).takeWhile (· ≠ 0x3D) = [b64Char (triple a 0 0 >>> 18), b64Char (triple a 0 0 >>> 12)] := by
  have full : b64Full [a] = [triple a 0 0 >>> 18, triple a 0 0 >>> 12].map b64Char ++ [0x3D, 0x3D] := by
    simp [b64Full, chunks3, b64Group, triple]
  rw [full, takeWhile_chars]
  rfl

theorem takeWhile_two (a b : UInt8) :
    (b64Full [a, b]).takeWhile (· ≠ 0x3D) =
      [b64Char (triple a b 0 >>> 18), b64Char (triple a b 0 >>> 12), b64Char (triple a b 0 >>> 6)] := by
  have full : b64Full [a, b] =
      [triple a b 0 >>> 18, triple a b 0 >>> 12, triple a b 0 >>> 6].map b64Char ++ [0x3D] := by
    simp [b64Full, chunks3, b64Group, triple]
  rw [full, takeWhile_chars]
  rfl

theorem b64Loop_b64Full (src : List UInt8) (acc : UInt32) {room : ℕ} (fits : src.length ≤ room) :
    b64Loop acc 0 room ((b64Full src).takeWhile (· ≠ 0x3D)) = some src := by
  induction src using chunks3.induct generalizing acc room with
  | case1 => simp [b64Full, chunks3, b64Loop]
  | case2 a =>
    obtain ⟨left, rfl⟩ := Nat.exists_eq_add_of_le' fits
    obtain ⟨acc', first, -⟩ := b64Loop_first a 0 0 acc left []
    rw [takeWhile_one]
    exact first
  | case3 a b =>
    obtain ⟨left, rfl⟩ := Nat.exists_eq_add_of_le' fits
    obtain ⟨acc₁, first, held⟩ := b64Loop_first a b 0 acc (left + 1) [b64Char (triple a b 0 >>> 6)]
    obtain ⟨acc₂, second, -⟩ := b64Loop_second a b 0 acc₁ left [] held
    rw [takeWhile_two]
    refine first.trans ?_
    rw [second]
    rfl
  | case4 a b c rest ih =>
    rw [List.length_cons, List.length_cons, List.length_cons] at fits
    obtain ⟨left, rfl⟩ := Nat.exists_eq_add_of_le' (Nat.le_trans (Nat.le_add_left 3 rest.length) fits)
    obtain ⟨acc', group⟩ := b64Loop_group a b c acc left ((b64Full rest).takeWhile (· ≠ 0x3D))
    rw [b64Full_cons, takeWhile_group, group, ih acc' (by omega)]
    rfl

theorem length_b64Full_le (src : List UInt8) :
    (b64Full src).length ≤ ((b64Full src).takeWhile (· ≠ 0x3D)).length + 2 := by
  induction src using chunks3.induct with
  | case1 => simp [b64Full, chunks3]
  | case2 a =>
    rw [takeWhile_one, length_b64Full]
    simp
  | case3 a b =>
    rw [takeWhile_two, length_b64Full]
    simp
  | case4 a b c rest ih =>
    rw [b64Full_cons, takeWhile_group, List.length_append, List.length_append]
    omega

/-- The decoder undoes the encoder: of what the encoder wrote to a large enough buffer it gives back,
in a large enough buffer, the very bytes. -/
theorem b64Decode_b64Encode (src : List UInt8) {dst out : ℕ} (fits : 4 * ((src.length + 2) / 3) ≤ dst)
    (roomy : src.length ≤ out) : b64Decode (b64Encode src dst) out = some src := by
  have pad := length_b64Full_le src
  have whole := length_b64Full src
  rw [b64Encode_eq fits, b64Decode]
  refine (if_neg ?_).trans (b64Loop_b64Full src 0 roomy)
  rintro (many | ragged)
  · omega
  · omega

/-- The empty text, one byte over and two bytes over, each in buffers of exactly the size needed. -/
theorem b64Decode_b64Encode_tight :
    b64Decode (b64Encode [] 0) 0 = some [] ∧
      b64Decode (b64Encode [0xFB, 0xFF, 0x00, 0x3D] 8) 4 = some [0xFB, 0xFF, 0x00, 0x3D] ∧
      b64Decode (b64Encode [0x69, 0x6F] 4) 2 = some [0x69, 0x6F] :=
  ⟨b64Decode_b64Encode [] (by decide) (by decide), b64Decode_b64Encode [0xFB, 0xFF, 0x00, 0x3D] (by decide) (by decide),
    b64Decode_b64Encode [0x69, 0x6F] (by decide) (by decide)⟩

end IoEdgeHub
