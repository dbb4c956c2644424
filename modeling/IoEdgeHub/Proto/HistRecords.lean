import IoEdgeHub.Proto.History

/-!
# Reading history files back (`HisData` in `history.rs`)

A file holds records of two lengths back to back, without anything between them.  A record is read from
its own bytes whatever follows them (`fromBytes_stored`), so a file can be read in only one way.
-/

namespace IoEdgeHub

open Bytes

namespace HisData

/-- A little-endian word; no result is an index out of range. -/
def wordAt (b : List UInt8) (i : ℕ) : Option UInt16 := do
  let lo ← b[i]?
  let hi ← b[i + 1]?
  return UInt16.ofNat (leNat [lo, hi])

/-- No result is a panic, `some none` a refused record. -/
def fromBytes (b : List UInt8) : Option (Option HisData) :=
  if b.length < diRecLen then some none
  else do
    let ty ← wordAt b 0
    if ty = diType then
      let timestamps := UInt32.ofNat (leNat (← slice b 2 6))
      let enStatus ← wordAt b 6
      let value ← wordAt b 8
      return some ⟨ty, timestamps, enStatus, quad value 0 0 0⟩
    else if ty = aiType ∧ b.length ≥ aiRecLen then
      let v₀ ← wordAt b 8
      let v₁ ← wordAt b 10
      let v₂ ← wordAt b 12
      let v₃ ← wordAt b 14
      let timestamps := UInt32.ofNat (leNat (← slice b 2 6))
      let enStatus ← wordAt b 6
      return some ⟨ty, timestamps, enStatus, quad v₀ v₁ v₂ v₃⟩
    else return none

/-- The bytes of a record in a file. -/
def stored (d : HisData) : List UInt8 := d.toBytes.take d.recLen

/-- The records the sampling tasks make. -/
inductive Built : HisData → Prop
  | di (timestamps : UInt32) (diEn diValue : UInt16) : Built (di timestamps diEn diValue)
  | ai (timestamps : UInt32) (aiEn : UInt16) (aiValue : Vector UInt16 aiNum) : Built (ai timestamps aiEn aiValue)

/-! ## One record -/

theorem wordAt_append (pre rest : List UInt8) (w : UInt16) {i : ℕ} (here : i = pre.length) :
    wordAt (pre ++ (le16 w ++ rest)) i = some w := by
  have two : leNat (toLe 2 w.toNat) = w.toNat := leNat_toLe_of_lt w.toNat_lt
  have bytes : le16 w = [UInt8.ofNat w.toNat, UInt8.ofNat (w.toNat / 256)] := rfl
  subst here
  have next : pre.length + 1 - pre.length = 1 := by omega
  rw [wordAt, List.getElem?_append_right (Nat.le_refl _), List.getElem?_append_right (Nat.le_add_right _ 1), bytes,
    Nat.sub_self, next]
  change some (UInt16.ofNat (leNat (toLe 2 w.toNat))) = some w
  rw [two, UInt16.ofNat_toNat]

theorem stamp_append (pre rest : List UInt8) (ts : UInt32) (two : pre.length = 2) :
    slice (pre ++ (toLe 4 ts.toNat ++ rest)) 2 6 = some (toLe 4 ts.toNat) := by
  rw [slice_eq (by decide) (by simp [two]; omega), List.drop_left' two, List.take_left' (length_toLe 4 _)]

theorem stamp_value (ts : UInt32) : UInt32.ofNat (leNat (toLe 4 ts.toNat)) = ts := by
  have four : leNat (toLe 4 ts.toNat) = ts.toNat := leNat_toLe_of_lt ts.toNat_lt
  rw [four, UInt32.ofNat_toNat]

variable {d : HisData} {b : List UInt8}

/-- A record is read from its own bytes, whatever follows them. -/
theorem fromBytes_stored (built : Built d) (rest : List UInt8) :
    fromBytes (d.stored ++ rest) = some (some d) := by
  cases built with
  | di ts en v =>
    have bytes : (di ts en v).stored ++ rest = le16 diType ++ (toLe 4 ts.toNat ++ (le16 en ++ (le16 v ++ rest))) := rfl
    have ty := wordAt_append [] (toLe 4 ts.toNat ++ (le16 en ++ (le16 v ++ rest))) diType (i := 0) rfl
    have stamp := stamp_append (le16 diType) (le16 en ++ (le16 v ++ rest)) ts rfl
    have status := wordAt_append (le16 diType ++ toLe 4 ts.toNat) (le16 v ++ rest) en (i := 6) rfl
    have value := wordAt_append (le16 diType ++ toLe 4 ts.toNat ++ le16 en) rest v (i := 8) rfl
    simp only [List.append_assoc, List.nil_append] at ty stamp status value
    rw [bytes, fromBytes, if_neg (by simp [le16, diRecLen]; omega)]
    simp only [ty, stamp, status, value, Option.bind_eq_bind, Option.bind_some, if_true, stamp_value]
    rfl
  | ai ts en vs =>
    obtain ⟨a, b, c, e, rfl⟩ := exists_quad vs
    have bytes : (ai ts en (quad a b c e)).stored ++ rest = le16 aiType ++ (toLe 4 ts.toNat ++ (le16 en ++ (le16 a ++
      (le16 b ++ (le16 c ++ (le16 e ++ rest)))))) := rfl
    have ty := wordAt_append [] (toLe 4 ts.toNat ++ (le16 en ++ (le16 a ++ (le16 b ++ (le16 c ++ (le16 e ++ rest))))))
      aiType (i := 0) rfl
    have stamp := stamp_append (le16 aiType) (le16 en ++ (le16 a ++ (le16 b ++ (le16 c ++ (le16 e ++ rest))))) ts rfl
    have status := wordAt_append (le16 aiType ++ toLe 4 ts.toNat)
        (le16 a ++ (le16 b ++ (le16 c ++ (le16 e ++ rest)))) en
      (i := 6) rfl
    have v₀ := wordAt_append (le16 aiType ++ toLe 4 ts.toNat ++ le16 en) (le16 b ++ (le16 c ++ (le16 e ++ rest))) a
      (i := 8) rfl
    have v₁ := wordAt_append (le16 aiType ++ toLe 4 ts.toNat ++ le16 en ++ le16 a) (le16 c ++ (le16 e ++ rest)) b
      (i := 10) rfl
    have v₂ := wordAt_append (le16 aiType ++ toLe 4 ts.toNat ++ le16 en ++ le16 a ++ le16 b) (le16 e ++ rest) c
      (i := 12) rfl
    have v₃ := wordAt_append (le16 aiType ++ toLe 4 ts.toNat ++ le16 en ++ le16 a ++ le16 b ++ le16 c) rest e
      (i := 14) rfl
    have other : aiType ≠ diType := by decide
    have long : (le16 aiType ++ (toLe 4 ts.toNat ++ (le16 en ++ (le16 a ++ (le16 b ++ (le16 c ++ (le16 e ++
        rest))))))).length ≥ aiRecLen := by
      simp [le16, aiRecLen]
      omega
    simp only [List.append_assoc, List.nil_append] at ty stamp status v₀ v₁ v₂ v₃
    rw [bytes, fromBytes, if_neg (Nat.not_lt.2 (Nat.le_trans (by decide) long))]
    simp only [ty, stamp, status, v₀, v₁, v₂, v₃, Option.bind_eq_bind, Option.bind_some, other, long, if_false, if_true,
      and_self, stamp_value]
    rfl

theorem length_stored (built : Built d) : d.stored.length = d.recLen := by
  cases built with
  | di ts en v => rfl
  | ai ts en vs =>
    obtain ⟨a, b, c, e, rfl⟩ := exists_quad vs
    rfl

theorem length_of_fromBytes (read : fromBytes b = some (some d)) :
    diRecLen ≤ b.length := by
  by_contra short
  rw [fromBytes, if_pos (Nat.lt_of_not_le short)] at read
  cases read

theorem recLen_pos (d : HisData) : 0 < d.recLen := by
  unfold recLen diRecLen aiRecLen
  split <;> decide

theorem drop_recLen_lt (read : fromBytes b = some (some d)) :
    (b.drop d.recLen).length < b.length := by
  have := recLen_pos d
  have : 0 < b.length := Nat.lt_of_lt_of_le (by decide) (length_of_fromBytes read)
  rw [List.length_drop]
  omega

/-! ## Files -/

/-- The records at the front of a file, and what is left behind the last of them. -/
def decodeAll (b : List UInt8) : List HisData × List UInt8 :=
  match read : fromBytes b with
  | some (some d) =>
    have := drop_recLen_lt read
    let (ds, rest) := decodeAll (b.drop d.recLen)
    (d :: ds, rest)
  | _ => ([], b)
termination_by b.length
decreasing_by exact this

/-- The bytes of a file. -/
def encodeAll (ds : List HisData) : List UInt8 := ds.flatMap stored

theorem decodeAll_nil : decodeAll [] = ([], []) := by
  have none : fromBytes [] = some none := rfl
  rw [decodeAll]
  split
  case h_1 d read =>
    rw [none] at read
    cases read
  case h_2 => rfl

theorem decodeAll_read (read : fromBytes b = some (some d)) :
    decodeAll b = (d :: (decodeAll (b.drop d.recLen)).1, (decodeAll (b.drop d.recLen)).2) := by
  rw [decodeAll]
  split
  case h_1 d' read' =>
    obtain rfl := Option.some.inj (Option.some.inj (read.symm.trans read'))
    rfl
  case h_2 other => exact absurd read (other d)

/-- A file of records is read back completely, and only so. -/
theorem decodeAll_encodeAll (ds : List HisData) (built : ∀ d ∈ ds, Built d) : decodeAll (encodeAll ds) = (ds, []) := by
  induction ds with
  | nil => exact decodeAll_nil
  | cons d ds ih =>
    obtain ⟨first, others⟩ := List.forall_mem_cons.1 built
    have bytes : encodeAll (d :: ds) = d.stored ++ encodeAll ds := List.flatMap_cons ..
    rw [bytes, decodeAll_read (fromBytes_stored first _), List.drop_left' (length_stored first), ih others]

theorem decodeAll_encodeAll_pair :
    decodeAll (encodeAll [di 0x11223344 0xFFFF 0x0F0F, ai 42 0x000F #v[100, 200, 300, 400]]) =
      ([di 0x11223344 0xFFFF 0x0F0F, ai 42 0x000F #v[100, 200, 300, 400]], []) :=
  decodeAll_encodeAll _ (List.forall_mem_cons.2 ⟨.di .., List.forall_mem_cons.2 ⟨.ai .., fun _ none => nomatch none⟩⟩)

end HisData

end IoEdgeHub
