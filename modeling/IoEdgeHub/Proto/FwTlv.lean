import IoEdgeHub.Proto.FwUpg

/-!
# TLV blocks (`keyhash_in_tlv` in `fw_upg.rs`)

`keyhashRange` is `keyhash_in_tlv` with its cursor, where an index or a slice outside the input and a
sum outside the 32 bits of the target's `usize` is a panic (`none`).  None ever is, and it finds what
`keyhashInTlv` finds (`keyhashRange_spec`).  A `TlvEntry` is an entry as an image carries it;
`keyhashInTlv_block` says what is found in a block of entries.
-/

namespace IoEdgeHub

open Bytes

/-! ## The walk with its cursor -/

namespace Tlv

/-- `u16::from_le_bytes([tlv[off], tlv[off + 1]])` -/
def le16 (tlv : List UInt8) (off : ℕ) : Option ℕ := do
  return leNat [← tlv[off]?, ← tlv[off + 1]?]

/-- The loop from `off` on: the range of the slice. -/
def walk (tlv : List UInt8) (stop off : ℕ) : Option (Option (ℕ × ℕ)) :=
  if off + 4 ≥ 2 ^ 32 then none
  else if off + 4 ≤ stop then do
    let tag ← le16 tlv off
    let len ← le16 tlv (off + 2)
    if tag = 0x0001 ∧ len = fwKeyhashLen then
      let s := off + 4
      if s + len ≥ 2 ^ 32 then none
      else if s + len ≤ stop then
        let _ ← slice tlv s (s + len)
        return some (s, s + len)
      else return none
    else
      let next := off + (4 + (len + 3) / 4 * 4)
      if next ≥ 2 ^ 32 then none else walk tlv stop next
  else some none
termination_by stop - off

/-- `keyhash_in_tlv`: the range of the slice. -/
def keyhashRange (tlv : List UInt8) : Option (Option (ℕ × ℕ)) :=
  if tlv.length < 4 then some none
  else do
    let magic ← le16 tlv 0
    let size ← le16 tlv 2
    if magic ≠ 0x6907 ∨ size = 0 ∨ size > tlv.length then return none
    else walk tlv (min size tlv.length) 4

/-- The bytes of a range. -/
def cut (tlv : List UInt8) (r : ℕ × ℕ) : List UInt8 := (tlv.drop r.1).take (r.2 - r.1)

theorem le16_eq {tlv : List UInt8} {off : ℕ} (inside : off + 2 ≤ tlv.length) :
    le16 tlv off = some (leAt tlv off 2) := by
  have first : tlv.drop off = tlv[off] :: tlv[off + 1] :: tlv.drop (off + 2) := by
    rw [List.drop_eq_getElem_cons (by omega), List.drop_eq_getElem_cons (by omega)]
  rw [le16, leAt, first, List.getElem?_eq_getElem (by omega), List.getElem?_eq_getElem (by omega)]
  rfl

theorem leAt_lt (tlv : List UInt8) (off w : ℕ) : leAt tlv off w < 256 ^ w := by
  refine Nat.lt_of_lt_of_le (leNat_lt _) (Nat.pow_le_pow_right (by decide) ?_)
  exact List.length_take_le _ _

/-- The range of a KEYHASH entry's data, behind `off`. -/
structure Found (tlv : List UInt8) (stop off : ℕ) (p : ℕ × ℕ) : Prop where
  behind : off + 4 ≤ p.1
  size : p.2 = p.1 + fwKeyhashLen
  inside : p.2 ≤ stop
  tag : leAt tlv (p.1 - 4) 2 = 0x0001
  len : leAt tlv (p.1 - 2) 2 = fwKeyhashLen

/-- The loop takes no index outside the input and no sum outside its type. -/
theorem walk_spec {tlv : List UInt8} {stop : ℕ} (inside : stop ≤ tlv.length) (small : stop < 2 ^ 16) (fuel : ℕ)
    {off : ℕ} (near : off < 2 ^ 18) (enough : stop ≤ off + fuel) :
    ∃ r, walk tlv stop off = some r ∧ r.map (cut tlv) = keyhashScan tlv stop fuel off ∧
      ∀ p ∈ r, Found tlv stop off p := by
  induction fuel generalizing off with
  | zero =>
    refine ⟨none, ?_, rfl, nofun⟩
    rw [walk, if_neg (by omega), if_neg (by omega)]
  | succ fuel ih =>
    rw [walk, keyhashScan, if_neg (by omega)]
    by_cases more : off + 4 ≤ stop
    · have bound := leAt_lt tlv (off + 2) 2
      rw [if_pos more, if_pos more, le16_eq (by omega), le16_eq (by omega)]
      simp only [Option.bind_eq_bind, Option.bind_some]
      by_cases keyhash : leAt tlv off 2 = 0x0001 ∧ leAt tlv (off + 2) 2 = fwKeyhashLen
      · rw [if_pos keyhash, if_pos keyhash, if_neg (by omega)]
        by_cases fits : off + 4 + leAt tlv (off + 2) 2 ≤ stop
        · rw [if_pos fits, if_pos fits, slice_eq (Nat.le_add_right ..) (by omega)]
          refine ⟨_, rfl, ?_, ?_⟩
          · rw [Option.map_some, cut, Nat.add_sub_cancel_left]
          · rintro p ⟨⟩
            exact ⟨le_rfl, by rw [keyhash.2], fits, keyhash.1, keyhash.2⟩
        · rw [if_neg fits, if_neg fits]
          exact ⟨none, rfl, rfl, nofun⟩
      · rw [if_neg keyhash, if_neg keyhash, if_neg (by omega)]
        obtain ⟨r, ran, same, within⟩ :=
          ih (by omega : off + (4 + (leAt tlv (off + 2) 2 + 3) / 4 * 4) < 2 ^ 18) (by omega)
        refine ⟨r, ran, ?_, fun p mem => ?_⟩
        · rw [same, Nat.add_assoc off 4]
        · obtain ⟨behind, size, high, tag, len⟩ := within p mem
          exact ⟨by omega, size, high, tag, len⟩
    · rw [if_neg more, if_neg more]
      exact ⟨none, rfl, rfl, nofun⟩

/-- The whole function: no panic, the result of `keyhashInTlv`, inside the declared size. -/
theorem keyhashRange_spec (tlv : List UInt8) :
    ∃ r, keyhashRange tlv = some r ∧ r.map (cut tlv) = keyhashInTlv tlv ∧
      ∀ p ∈ r, leAt tlv 0 2 = 0x6907 ∧ leAt tlv 2 2 ≤ tlv.length ∧ Found tlv (leAt tlv 2 2) 4 p := by
  unfold keyhashRange keyhashInTlv
  by_cases short : tlv.length < 4
  · rw [if_pos short, if_pos short]
    exact ⟨none, rfl, rfl, nofun⟩
  · rw [if_neg short, if_neg short, le16_eq (by omega), le16_eq (by omega)]
    simp only [Option.bind_eq_bind, Option.bind_some]
    by_cases bad : leAt tlv 0 2 ≠ 0x6907 ∨ leAt tlv 2 2 = 0 ∨ leAt tlv 2 2 > tlv.length
    · rw [if_pos bad, if_pos bad]
      exact ⟨none, rfl, rfl, nofun⟩
    · rw [if_neg bad, if_neg bad]
      rw [not_or, not_or, not_not, not_lt] at bad
      rw [Nat.min_eq_left bad.2.2]
      obtain ⟨r, ran, same, within⟩ := walk_spec bad.2.2 (leAt_lt tlv 2 2) _ (by decide) (Nat.le_add_left _ 4)
      exact ⟨r, ran, same, fun p mem => ⟨bad.1, bad.2.2, within p mem⟩⟩

end Tlv

/-! ## Blocks of entries -/

/-- An entry of a block: its data is padded to a multiple of 4. -/
structure TlvEntry where
  tag : UInt16
  data : List UInt8
  pad : List UInt8
  short : data.length < 2 ^ 16
  padded : data.length + pad.length = (data.length + 3) / 4 * 4

namespace TlvEntry

/-- Tag, length and data, padded. -/
def bytes (e : TlvEntry) : List UInt8 := toLe 2 e.tag.toNat ++ toLe 2 e.data.length ++ e.data ++ e.pad

/-- The entry the check looks for. -/
def isKeyhash (e : TlvEntry) : Bool := e.tag = 1 ∧ e.data.length = fwKeyhashLen

/-- Entries behind the head of their block; its size counts the head. -/
def block (es : List TlvEntry) : List UInt8 :=
  toLe 2 0x6907 ++ toLe 2 (4 + (es.flatMap bytes).length) ++ es.flatMap bytes

theorem length_bytes (e : TlvEntry) : e.bytes.length = 4 + (e.data.length + 3) / 4 * 4 := by
  have := e.padded
  simp only [bytes, List.length_append, length_toLe]
  omega

theorem leAt_append (pre b : List UInt8) (k w : ℕ) : leAt (pre ++ b) (pre.length + k) w = leAt b k w := by
  rw [leAt, leAt, List.drop_append, List.drop_eq_nil_of_le (Nat.le_add_right ..), List.nil_append,
    Nat.add_sub_cancel_left]

theorem leAt_toLe (w n : ℕ) (rest : List UInt8) : leAt (toLe w n ++ rest) 0 w = n % 256 ^ w := by
  rw [leAt, List.drop_zero, List.take_left' (length_toLe w n), leNat_toLe]

/-- The two numbers of an entry's head, wherever it stands. -/
theorem leAt_bytes (pre : List UInt8) (e : TlvEntry) (rest : List UInt8) :
    leAt (pre ++ (e.bytes ++ rest)) pre.length 2 = e.tag.toNat ∧
      leAt (pre ++ (e.bytes ++ rest)) (pre.length + 2) 2 = e.data.length := by
  have tag := leAt_append pre (e.bytes ++ rest) 0 2
  have len := leAt_append pre (e.bytes ++ rest) 2 2
  have second := leAt_append (toLe 2 e.tag.toNat) (toLe 2 e.data.length ++ (e.data ++ (e.pad ++ rest))) 0 2
  rw [length_toLe] at second
  rw [Nat.add_zero] at tag
  simp only [bytes, List.append_assoc] at tag len ⊢
  rw [tag, len, second, leAt_toLe, leAt_toLe]
  exact ⟨Nat.mod_eq_of_lt e.tag.toNat_lt, Nat.mod_eq_of_lt e.short⟩

theorem keyhashScan_entries (es : List TlvEntry) (pre rest : List UInt8) (fuel : ℕ)
    (enough : (es.flatMap bytes).length < 4 * fuel + 4) :
    keyhashScan (pre ++ (es.flatMap bytes ++ rest)) (pre.length + (es.flatMap bytes).length) fuel pre.length =
      (es.find? isKeyhash).map data := by
  induction es generalizing pre fuel with
  | nil =>
    cases fuel with
    | zero => rfl
    | succ fuel =>
      rw [keyhashScan, if_neg (by simp)]
      rfl
  | cons e es ih =>
    rw [List.flatMap_cons, List.length_append, length_bytes] at enough ⊢
    rcases fuel with _ | fuel
    · omega
    obtain ⟨tag, len⟩ := leAt_bytes pre e (es.flatMap bytes ++ rest)
    rw [List.append_assoc, keyhashScan, if_pos (by omega)]
    simp only [tag, len]
    have next : pre.length + 4 + (e.data.length + 3) / 4 * 4 = (pre ++ e.bytes).length := by
      rw [List.length_append, length_bytes, Nat.add_assoc]
    by_cases here : e.isKeyhash = true
    · have test : e.tag.toNat = 0x0001 ∧ e.data.length = fwKeyhashLen := by
        obtain ⟨one, size⟩ := of_decide_eq_true here
        exact ⟨by rw [one]; rfl, size⟩
      have := e.padded
      rw [if_pos test, if_pos (by omega), List.find?_cons_of_pos here]
      have head : (toLe 2 e.tag.toNat ++ toLe 2 e.data.length).length = 4 := rfl
      simp only [bytes, List.append_assoc, Option.map_some]
      rw [← List.append_assoc (toLe 2 _), List.drop_append, List.drop_eq_nil_of_le (by omega), List.nil_append,
        Nat.add_sub_cancel_left, List.drop_left' head, List.take_left]
    · have test : ¬(e.tag.toNat = 0x0001 ∧ e.data.length = fwKeyhashLen) := by
        rintro ⟨one, size⟩
        exact here (decide_eq_true ⟨UInt16.toNat_inj.1 one, size⟩)
      rw [if_neg test, List.find?_cons_of_neg here, next]
      have later := ih (pre ++ e.bytes) fuel (by omega)
      rw [List.append_assoc, List.length_append, length_bytes, Nat.add_assoc] at later
      rw [List.length_append, length_bytes]
      exact later

/-- What is found in a block, whatever follows it. -/
theorem keyhashInTlv_block {es : List TlvEntry} (fits : (block es).length ≤ 65535) (rest : List UInt8) :
    keyhashInTlv (block es ++ rest) = (es.find? isKeyhash).map data := by
  have length : (block es).length = 4 + (es.flatMap bytes).length := by
    rw [block, List.length_append]
    rfl
  have text : block es ++ rest = toLe 2 0x6907 ++ (toLe 2 (4 + (es.flatMap bytes).length) ++
      (es.flatMap bytes ++ rest)) := by
    rw [block, List.append_assoc, List.append_assoc]
  have magic : leAt (block es ++ rest) 0 2 = 0x6907 := by
    rw [text, leAt_toLe]
    rfl
  have size : leAt (block es ++ rest) 2 2 = 4 + (es.flatMap bytes).length := by
    have second := leAt_append (toLe 2 0x6907) (toLe 2 (4 + (es.flatMap bytes).length) ++
      (es.flatMap bytes ++ rest)) 0 2
    rw [length_toLe] at second
    rw [text, second, leAt_toLe]
    omega
  have walk := keyhashScan_entries es (toLe 2 0x6907 ++ toLe 2 (4 + (es.flatMap bytes).length)) rest
    (4 + (es.flatMap bytes).length) (by omega)
  rw [keyhashInTlv, magic, size, List.length_append, length, if_neg (by omega), if_neg (by omega),
    Nat.min_eq_left (by omega), text, ← List.append_assoc (toLe 2 0x6907)]
  exact walk

/-- The key hash of a block of entries is the data of its first KEYHASH entry; and whatever the input is, the walk
comes to an end without leaving it, with a slice inside the declared size. -/
theorem keyhash_walk :
    (∀ (es : List TlvEntry) (rest : List UInt8), (block es).length ≤ 65535 →
      keyhashInTlv (block es ++ rest) = (es.find? isKeyhash).map data) ∧
    ∀ tlv : List UInt8, ∃ r, Tlv.keyhashRange tlv = some r ∧ keyhashInTlv tlv = r.map (Tlv.cut tlv) ∧
      ∀ p ∈ r, p.1 ≤ p.2 ∧ p.2 ≤ leAt tlv 2 2 ∧ leAt tlv 2 2 ≤ tlv.length := by
  refine ⟨fun es rest fits => keyhashInTlv_block fits rest, fun tlv => ?_⟩
  obtain ⟨r, ran, same, within⟩ := Tlv.keyhashRange_spec tlv
  refine ⟨r, ran, same.symm, fun p mem => ?_⟩
  obtain ⟨-, whole, found⟩ := within p mem
  exact ⟨found.size ▸ Nat.le_add_right .., found.inside, whole⟩

/-- A hash of three bytes, which needs padding, and the key hash. -/
def twoEntries : List TlvEntry :=
  [⟨0x10, [1, 2, 3], [0xFF], by decide, by decide⟩, ⟨0x01, fwKeyhash, [], by decide, by decide⟩]

theorem keyhash_walk_twoEntries :
    (block twoEntries).length = 48 ∧ keyhashInTlv (block twoEntries ++ [0xFF]) = some fwKeyhash := by
  have length : (block twoEntries).length = 48 := by decide +kernel
  refine ⟨length, ?_⟩
  rw [keyhash_walk.1 twoEntries [0xFF] (by omega)]
  rfl

end TlvEntry

end IoEdgeHub
