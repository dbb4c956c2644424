import IoEdgeHub.Lib.Fips180

/-!
# SHA-1 of the handshake

`Sha1` of `ws.rs`: a hash value, a count of bytes and a buffer for the block that is not whole yet.  One
relation between the text and these three, `Sha1.Absorbed`, is kept by `update` for every piece
(`exists_update`); `finalize` pads through `update`, so its loop keeps it too and stops where 56 bytes
are in the buffer (`exists_padLoop`).
-/

namespace IoEdgeHub

open Fips180 (Five)

/-- The state of the digest: registers, length and buffer. -/
structure Sha1 where
  h : Five
  total : UInt64
  /-- 64 bytes -/
  buf : List UInt8
  bufLen : ℕ
deriving DecidableEq, Repr

namespace Sha1

/-- `Sha1::new` -/
def new : Sha1 :=
  { h := ⟨0x67452301, 0xEFCDAB89, 0x98BADCFE, 0x10325476, 0xC3D2E1F0⟩
    total := 0
    buf := List.replicate 64 0
    bufLen := 0 }

/-! ## One block -/

/-- `u32::rotate_left` -/
def rotateLeft (x n : UInt32) : UInt32 := (x <<< n) ||| (x >>> (32 - n))

/-- `u32::from_be_bytes` of four bytes of a block -/
def wordAt (p : List UInt8) (i : ℕ) : UInt32 :=
  UInt32.ofNat (Bytes.beNat [p[4 * i]?.getD 0, p[4 * i + 1]?.getD 0, p[4 * i + 2]?.getD 0, p[4 * i + 3]?.getD 0])

/-- The first loop over `w` -/
def loadWords (p : List UInt8) (w : List UInt32) : List UInt32 :=
  (List.range' 0 16).foldl (fun w i => w.set i (wordAt p i)) w

/-- What the second loop over `w` stores at `i` -/
def nextWord (w : List UInt32) (i : ℕ) : UInt32 :=
  let word (j : ℕ) := w[j]?.getD 0
  rotateLeft (word (i - 3) ^^^ word (i - 8) ^^^ word (i - 14) ^^^ word (i - 16)) 1

/-- The 80 words of a block. -/
def extendWords (w : List UInt32) : List UInt32 :=
  (List.range' 16 64).foldl (fun w i => w.set i (nextWord w i)) w

/-- One of the 80 rounds. -/
def roundOf (v : Five) (wi : UInt32) (i : ℕ) : Five :=
  let (f, k) : UInt32 × UInt32 :=
    if i ≤ 19 then ((v.b &&& v.c) ||| (~~~v.b &&& v.d), 0x5A827999)
    else if i ≤ 39 then (v.b ^^^ v.c ^^^ v.d, 0x6ED9EBA1)
    else if i ≤ 59 then ((v.b &&& v.c) ||| (v.b &&& v.d) ||| (v.c &&& v.d), 0x8F1BBCDC)
    else (v.b ^^^ v.c ^^^ v.d, 0xCA62C1D6)
  let tmp := rotateLeft v.a 5 + f + v.e + k + wi
  { e := v.d, d := v.c, c := rotateLeft v.b 30, b := v.a, a := tmp }

/-- `block`: the hash value after `p` -/
def block (h : Five) (p : List UInt8) : Five :=
  let w := extendWords (loadWords p (List.replicate 80 0))
  let v := w.zipIdx.foldl (fun v wi => roundOf v wi.1 wi.2) h
  ⟨h.a + v.a, h.b + v.b, h.c + v.c, h.d + v.d, h.e + v.e⟩

/-! ## The text in pieces -/

/-- Fill up the buffer, and what is left of the data. -/
def refill (s : Sha1) (data : List UInt8) : Option (Sha1 × List UInt8) :=
  if s.bufLen > 0 then do
    let take := min (64 - s.bufLen) data.length
    let buf ← Bytes.copyIn s.buf s.bufLen (data.take take)
    let s := { s with buf := buf, bufLen := s.bufLen + take }
    let data := data.drop take
    if s.bufLen = 64 then return ({ s with h := block s.h s.buf, bufLen := 0 }, data) else return (s, data)
  else some (s, data)

/-- The `while` loop over whole blocks -/
def wholeBlocks (h : Five) (data : List UInt8) : Five × List UInt8 :=
  if data.length ≥ 64 then wholeBlocks (block h (data.take 64)) (data.drop 64) else (h, data)
termination_by data.length

/-- What is left of the data goes to the buffer. -/
def keepRest (s : Sha1) (data : List UInt8) : Option Sha1 :=
  if data ≠ [] then (Bytes.copyIn s.buf 0 data).map fun buf => { s with buf := buf, bufLen := data.length } else some s

/-- `update` -/
def update (s : Sha1) (data : List UInt8) : Option Sha1 := do
  let s := { s with total := s.total + UInt64.ofNat data.length }
  let (s, data) ← s.refill data
  let (h, data) := wholeBlocks s.h data
  keepRest { s with h := h } data

/-- The loop of `finalize`, for at most `fuel - 1` zero bytes -/
def padLoop : ℕ → Sha1 → Option Sha1
  | 0, _ => none
  | fuel + 1, s => if s.bufLen ≠ 56 then (s.update [0]).bind (padLoop fuel) else some s

/-- `finalize` -/
def finalize (fuel : ℕ) (s : Sha1) : Option (List UInt8) := do
  let bits := s.total * 8
  let s ← s.update [0x80]
  let s ← padLoop fuel s
  let last ← Bytes.copyIn s.buf 56 (Bytes.toBe 8 bits.toNat)
  let h := block s.h last
  return [h.a, h.b, h.c, h.d, h.e].flatMap fun x => Bytes.toBe 4 x.toNat

/-- The pieces one by one, then `finalize` -/
def digest (fuel : ℕ) (pieces : List (List UInt8)) : Option (List UInt8) := do
  (← pieces.foldlM update new).finalize fuel

/-! ## The block function is that of the standard -/

theorem take_four {l : List UInt8} {k : ℕ} (inside : k + 4 ≤ l.length) :
    (l.drop k).take 4 = [l[k]?.getD 0, l[k + 1]?.getD 0, l[k + 2]?.getD 0, l[k + 3]?.getD 0] := by
  have long : 4 ≤ (l.drop k).length := by
    rw [List.length_drop]
    omega
  have here (j : ℕ) : l[k + j]? = (l.drop k)[j]? := List.getElem?_drop.symm
  rw [here 1, here 2, here 3, ← Nat.add_zero k, here 0, Nat.add_zero]
  match l.drop k, long with
  | a :: b :: c :: d :: rest, _ => rfl

variable {h : Five} {p text : List UInt8} {s : Sha1} {fuel : ℕ}

theorem wordAt_eq (size : p.length = 64) {i : ℕ} (inside : i < 16) :
    wordAt p i = Fips180.message p i := by
  rw [wordAt, Fips180.message, take_four (by omega)]

theorem ch_eq (x y z : UInt32) : (x &&& y) ||| (~~~x &&& z) = Fips180.ch x y z := by
  apply UInt32.toBitVec_inj.1
  simp only [Fips180.ch, UInt32.toBitVec_or, UInt32.toBitVec_and, UInt32.toBitVec_xor, UInt32.toBitVec_not]
  ext i inside
  simp only [BitVec.getElem_or, BitVec.getElem_and, BitVec.getElem_xor, BitVec.getElem_not]
  cases x.toBitVec[i] <;> simp

theorem maj_eq (x y z : UInt32) : (x &&& y) ||| (x &&& z) ||| (y &&& z) = Fips180.maj x y z := by
  apply UInt32.toBitVec_inj.1
  simp only [Fips180.maj, UInt32.toBitVec_or, UInt32.toBitVec_and, UInt32.toBitVec_xor]
  ext i inside
  simp only [BitVec.getElem_or, BitVec.getElem_and, BitVec.getElem_xor]
  cases x.toBitVec[i] <;> cases y.toBitVec[i] <;> simp

theorem roundOf_eq (p : List UInt8) (v : Five) (i : ℕ) : roundOf v (Fips180.W p i) i = Fips180.round p v i := by
  simp only [roundOf, Fips180.round, Fips180.f, Fips180.K, ← Nat.lt_succ_iff, ch_eq, maj_eq]
  split_ifs <;> rfl

theorem nextWord_eq (p : List UInt8) (w : List UInt32) (i : ℕ) (late : 16 ≤ i)
    (done : w.take i = (List.range i).map (Fips180.W p)) : nextWord w i = Fips180.W p i := by
  have word {j : ℕ} (before : j < i) : w[j]?.getD 0 = Fips180.W p j := by
    rw [← List.getElem?_take_of_lt before, done, List.getElem?_map, List.getElem?_range before]
    rfl
  rw [Fips180.W, if_neg (by omega)]
  dsimp only [nextWord]
  rw [word (by omega), word (by omega), word (by omega), word (by omega)]
  rfl

theorem extendWords_loadWords (size : p.length = 64) :
    extendWords (loadWords p (List.replicate 80 0)) = (List.range 80).map (Fips180.W p) := by
  have first (w : List UInt32) (i : ℕ) (_ : 0 ≤ i) (_ : w.take i = (List.range i).map (wordAt p)) :
      wordAt p i = wordAt p i := rfl
  obtain ⟨loaded, length⟩ := Bytes.take_fill (wordAt p) (fun _ i => wordAt p i) (List.replicate 80 0) (a := 0)
    rfl first 16 (by decide)
  have schedule : (loadWords p (List.replicate 80 0)).take 16 = (List.range 16).map (Fips180.W p) := by
    refine loaded.trans (List.map_congr_left ?_)
    intro i mem
    have inside := List.mem_range.1 mem
    rw [wordAt_eq size inside, Fips180.W, if_pos inside]
  obtain ⟨extended, whole⟩ := Bytes.take_fill (Fips180.W p) nextWord _ schedule (nextWord_eq p) 64 (by
    rw [loadWords, length, List.length_replicate])
  rw [loadWords, length, List.length_replicate] at whole
  rw [← extended]
  exact (List.take_of_length_le (Nat.le_of_eq whole)).symm

theorem block_eq (h : Five) (size : p.length = 64) : block h p = Fips180.compress h p := by
  have enumerated : ((List.range 80).map (Fips180.W p)).zipIdx = (List.range 80).map fun t => (Fips180.W p t, t) := by
    apply List.ext_getElem
    · simp
    · intro i _ _
      simp
  rw [block, extendWords_loadWords size, enumerated, List.foldl_map]
  simp only [roundOf_eq]
  rw [Fips180.compress]
  simp only [UInt32.add_comm]

/-! ## The pieces of a text -/

/-- The text is the whole blocks in the hash value and the bytes kept. -/
def Seen (text : List UInt8) (h : Five) (kept : List UInt8) : Prop :=
  Blocks.Seen 64 Fips180.compress Fips180.initial text h kept

theorem Seen.push {kept : List UInt8} (seen : Seen text h kept) (more : List UInt8) :
    Seen (text ++ more) h (kept ++ more) := Blocks.Seen.push seen more

theorem Seen.block {kept : List UInt8} (seen : Seen text h (p ++ kept)) (size : p.length = 64) :
    Seen text (block h p) kept := by
  rw [block_eq h size]
  exact Blocks.Seen.fold seen size

/-- What a state knows of the text that has gone into it. -/
structure Absorbed (text : List UInt8) (s : Sha1) : Prop where
  size : s.buf.length = 64
  inside : s.bufLen < 64
  counted : s.total = UInt64.ofNat text.length
  seen : Seen text s.h (s.buf.take s.bufLen)

theorem absorbed_new : Absorbed [] new := ⟨rfl, by decide, rfl, Blocks.seen_nil⟩

theorem Absorbed.bufLen_eq (a : Absorbed text s) : s.bufLen = text.length % 64 := by
  have size := a.size
  have inside := a.inside
  have kept : (s.buf.take s.bufLen).length = s.bufLen := by
    rw [List.length_take]
    omega
  rw [a.seen.length_mod (by omega), kept]

/-- Either the data end in the buffer, or the buffer is empty for the rest of them. -/
theorem exists_refill (size : s.buf.length = 64) (inside : s.bufLen < 64)
    (seen : Seen text s.h (s.buf.take s.bufLen)) (data : List UInt8) :
    ∃ s' rest, s.refill data = some (s', rest) ∧ s'.buf.length = 64 ∧ s'.bufLen < 64 ∧ s'.total = s.total ∧
      (rest = [] ∨ s'.bufLen = 0) ∧ Seen (text ++ data) s'.h (s'.buf.take s'.bufLen ++ rest) := by
  by_cases filled : s.bufLen > 0
  · set n := min (64 - s.bufLen) data.length with count
    have first : (data.take n).length = n := by
      rw [List.length_take]
      omega
    have room : s.bufLen + (data.take n).length ≤ s.buf.length := by omega
    obtain ⟨buf, copied, length⟩ := Bytes.exists_copyIn room
    have kept : buf.take (s.bufLen + n) = s.buf.take s.bufLen ++ data.take n := by
      rw [← Bytes.take_copyIn copied, first]
    have pushed : Seen (text ++ data) s.h (buf.take (s.bufLen + n) ++ data.drop n) := by
      rw [kept, List.append_assoc, List.take_append_drop]
      exact seen.push data
    rw [refill, if_pos filled]
    dsimp only
    rw [← count, copied]
    by_cases full : s.bufLen + n = 64
    · refine ⟨_, _, if_pos full, length.trans size, Nat.zero_lt_succ 63, rfl, .inr rfl, ?_⟩
      rw [full, List.take_of_length_le (by omega)] at pushed
      exact pushed.block (by omega)
    · refine ⟨_, _, if_neg full, length.trans size, ?_, rfl, .inl ?_, pushed⟩
      · change s.bufLen + n < 64
        omega
      · apply List.drop_eq_nil_of_le
        omega
  · have empty : s.bufLen = 0 := by omega
    refine ⟨s, data, if_neg filled, size, inside, rfl, .inr empty, ?_⟩
    exact seen.push data

theorem wholeBlocks_seen {data : List UInt8} (seen : Seen text h data) :
    (wholeBlocks h data).2.length < 64 ∧ Seen text (wholeBlocks h data).1 (wholeBlocks h data).2 := by
  fun_induction wholeBlocks h data with
  | case1 h data whole ih =>
    apply ih
    apply Seen.block
    · rw [List.take_append_drop]
      exact seen
    · rw [List.length_take]
      omega
  | case2 h data short => exact ⟨Nat.lt_of_not_le short, seen⟩

theorem exists_keepRest {rest : List UInt8} (size : s.buf.length = 64) (empty : s.bufLen = 0)
    (counted : s.total = UInt64.ofNat text.length) (short : rest.length < 64) (seen : Seen text s.h rest) :
    ∃ s', s.keepRest rest = some s' ∧ Absorbed text s' := by
  by_cases none_left : rest = []
  · refine ⟨s, if_neg (not_not.2 none_left), size, by omega, counted, ?_⟩
    rw [empty, List.take_zero, ← none_left]
    exact seen
  · have room : 0 + rest.length ≤ s.buf.length := by omega
    obtain ⟨buf, copied, length⟩ := Bytes.exists_copyIn room
    have kept : buf.take rest.length = rest := by
      have taken := Bytes.take_copyIn copied
      rwa [Nat.zero_add, List.take_zero, List.nil_append] at taken
    rw [keepRest, if_pos none_left, copied]
    refine ⟨_, rfl, length.trans size, short, counted, ?_⟩
    change Seen text s.h (buf.take rest.length)
    rw [kept]
    exact seen

theorem exists_update (a : Absorbed text s) (data : List UInt8) :
    ∃ s', s.update data = some s' ∧ Absorbed (text ++ data) s' := by
  have counted : s.total + UInt64.ofNat data.length = UInt64.ofNat (text ++ data).length := by
    rw [a.counted, List.length_append, UInt64.ofNat_add]
  obtain ⟨s₁, rest, refilled, size, inside, total, empty, seen⟩ :=
    exists_refill (s := { s with total := s.total + UInt64.ofNat data.length }) a.size a.inside a.seen data
  have updated : s.update data = keepRest { s₁ with h := (wholeBlocks s₁.h rest).1 } (wholeBlocks s₁.h rest).2 := by
    rw [update, refilled]
    rfl
  rcases empty with rfl | empty
  · have none_left : wholeBlocks s₁.h [] = (s₁.h, []) := by
      rw [wholeBlocks]
      rfl
    rw [none_left] at updated
    rw [List.append_nil] at seen
    exact ⟨s₁, updated, size, inside, total.trans counted, seen⟩
  · rw [empty, List.take_zero, List.nil_append] at seen
    obtain ⟨short, seen⟩ := wholeBlocks_seen seen
    rw [updated]
    exact exists_keepRest size empty (total.trans counted) short seen

theorem exists_updates (pieces : List (List UInt8)) (a : Absorbed text s) :
    ∃ s', pieces.foldlM update s = some s' ∧ Absorbed (text ++ pieces.flatten) s' := by
  induction pieces generalizing text s with
  | nil =>
    rw [List.flatten_nil, List.append_nil]
    exact ⟨s, rfl, a⟩
  | cons piece pieces ih =>
    obtain ⟨s₁, updated, a₁⟩ := exists_update a piece
    obtain ⟨s₂, rest, a₂⟩ := ih a₁
    rw [List.foldlM_cons, updated, List.flatten_cons, ← List.append_assoc]
    exact ⟨s₂, rest, a₂⟩

/-! ## The padding -/

/-- The loop ends with 56 bytes in the buffer, after as many zeros as that takes. -/
theorem exists_padLoop {k : ℕ} (enough : k < fuel) (a : Absorbed text s)
    (least : k < 64) (reached : (text.length + k) % 64 = 56) :
    ∃ s', padLoop fuel s = some s' ∧ Absorbed (text ++ List.replicate k 0) s' ∧ s'.bufLen = 56 := by
  obtain ⟨fuel, rfl⟩ := Nat.exists_eq_succ_of_ne_zero (Nat.ne_zero_of_lt enough)
  have here := a.bufLen_eq
  induction k generalizing fuel text s with
  | zero =>
    refine ⟨s, if_neg ?_, ?_, ?_⟩
    · omega
    · rw [List.replicate_zero, List.append_nil]
      exact a
    · omega
  | succ k ih =>
    obtain ⟨s₁, updated, a₁⟩ := exists_update a [0]
    obtain ⟨more, rfl⟩ := Nat.exists_eq_add_of_lt (show 0 < fuel by omega)
    rw [Nat.zero_add] at *
    obtain ⟨s₂, looped, a₂, full⟩ := ih a₁ (by omega) (by rw [List.length_append, List.length_singleton]; omega)
      more (by omega) a₁.bufLen_eq
    refine ⟨s₂, ?_, ?_, full⟩
    · rw [padLoop, if_pos (by omega), updated]
      exact looped
    · rw [List.replicate_succ, ← List.singleton_append, ← List.append_assoc]
      exact a₂

theorem finalize_eq (a : Absorbed text s) (short : text.length < 2 ^ 61) (enough : Fips180.zeros text.length < fuel) :
    s.finalize fuel = some (Fips180.sha1 text) := by
  have bits : (s.total * 8).toNat = 8 * text.length := by
    rw [a.counted, UInt64.toNat_mul, UInt64.toNat_ofNat']
    change text.length % 2 ^ 64 * 8 % 2 ^ 64 = 8 * text.length
    omega
  have value : Fips180.zeros text.length = (119 - text.length % 64) % 64 := rfl
  obtain ⟨s₁, marked, a₁⟩ := exists_update a [0x80]
  obtain ⟨s₂, looped, a₂, full⟩ := exists_padLoop enough a₁ (Fips180.zeros_lt _)
    (by rw [List.length_append, List.length_singleton]; omega)
  have room : 56 + (Bytes.toBe 8 (8 * text.length)).length ≤ s₂.buf.length := by
    rw [Bytes.length_toBe, a₂.size]
  obtain ⟨last, copied, length⟩ := Bytes.exists_copyIn room
  have filled : last = s₂.buf.take s₂.bufLen ++ Bytes.toBe 8 (8 * text.length) := by
    rw [full, ← Bytes.take_copyIn copied, Bytes.length_toBe, List.take_of_length_le (by rw [length, a₂.size])]
  have padded := a₂.seen.push (Bytes.toBe 8 (8 * text.length))
  rw [← filled, ← List.append_nil last] at padded
  have hashed := Blocks.Seen.whole (by decide) (padded.block (length.trans a₂.size))
  rw [finalize, marked]
  dsimp only [Option.bind_eq_bind, Option.bind_some]
  rw [looped, bits]
  dsimp only [Option.bind_some]
  rw [copied]
  dsimp only [Option.bind_some]
  rw [hashed]
  rfl

theorem digest_eq (pieces : List (List UInt8)) (short : pieces.flatten.length < 2 ^ 61) (enough : 64 ≤ fuel) :
    digest fuel pieces = some (Fips180.sha1 pieces.flatten) := by
  obtain ⟨s, updated, a⟩ := exists_updates pieces absorbed_new
  rw [digest, updated]
  exact finalize_eq a short (Nat.lt_of_lt_of_le (Fips180.zeros_lt _) enough)

example : Fips180.sha1 "abc".toUTF8.toList = [0xA9, 0x99, 0x3E, 0x36, 0x47, 0x06, 0x81, 0x6A, 0xBA, 0x3E, 0x25, 0x71,
    0x78, 0x50, 0xC2, 0x6C, 0x9C, 0xD0, 0xD8, 0x9D] := by
  have text : "abc".toUTF8.toList = [[0x61], [0x62, 0x63]].flatten := by decide +kernel
  apply Option.some_inj.1
  rw [text, ← digest_eq [[0x61], [0x62, 0x63]] (by decide) (le_refl 64)]
  decide +kernel

/-- The streaming hash is SHA-1: for every text of less than 2⁶¹ bytes, in any pieces.  The loop of
`finalize` has ended by then: the zeros of the padding are less than 64. -/
theorem digest_eq_sha1 (pieces : List (List UInt8)) (short : pieces.flatten.length < 2 ^ 61) {fuel : ℕ}
    (enough : 64 ≤ fuel) :
    digest fuel pieces = some (Fips180.sha1 pieces.flatten) ∧
      ∀ others : List (List UInt8), others.flatten = pieces.flatten → digest fuel others = digest fuel pieces := by
  refine ⟨digest_eq pieces short enough, ?_⟩
  intro others same
  rw [digest_eq pieces short enough, digest_eq others (same ▸ short) enough, same]

/-- 60 bytes at once and in two pieces: the length no longer fits behind them. -/
theorem digest_eq_sha1_sixty :
    digest 64 [List.replicate 60 0x61] = some (Fips180.sha1 (List.replicate 60 0x61)) ∧
      digest 64 [List.replicate 50 0x61, [], List.replicate 10 0x61] = digest 64 [List.replicate 60 0x61] :=
  let hashed := digest_eq_sha1 [List.replicate 60 0x61] (by decide) (le_refl 64)
  ⟨hashed.1, hashed.2 _ rfl⟩

end Sha1

end IoEdgeHub
