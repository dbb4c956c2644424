import IoEdgeHub.Firmware.SpiNor
import IoEdgeHub.Proto.ConfigFlash

/-!
# The file system's storage

`LfsNor` of `storage.rs`: littlefs reads, writes and erases blocks at an offset of the NOR, reached through `nor_with`.
A write is cut at the pages of the chip; the pieces are those of `Chunks.cut`, so that none crosses a page, they lie one
behind the other, and together they are the data (`write_splits`).
-/

namespace IoEdgeHub

open Chunks

variable {σ : Type*}

/-- `nor_with`: the driver in its cell, where it may be absent. -/
def Flash.norWith (f : Flash σ) : Flash (Option σ) where
  read
    | none, _, _ => (none, none)
    | some s, addr, len => (f.read s addr len).map some id
  write
    | none, _, _ => (none, false)
    | some s, addr, data => (f.write s addr data).map some id
  erase
    | none, _, _ => (none, false)
    | some s, addr, len => (f.erase s addr len).map some id

/-- The array as a flash. -/
def W25q.flash : Flash W25q := ⟨W25q.read, W25q.write, W25q.erase⟩

namespace LfsNor

/-- `LFS_OFFSET` -/
def lfsOffset : UInt32 := 0x000F0000

section Storage

variable (f : Flash σ)

/-- `read` -/
def read (s : σ) (off len : ℕ) : σ × Option (List UInt8) := f.read s (lfsOffset + UInt32.ofNat off).toNat len

/-- The loop of `write`, from byte `p` of the data; no result is fuel that has run out. -/
def writeLoop (data : List UInt8) : ℕ → σ → UInt32 → ℕ → Option (σ × Bool)
  | 0, s, _, p => if p < data.length then none else some (s, true)
  | fuel + 1, s, addr, p =>
    if p < data.length then
      let chunk := min (256 - (addr % 256).toNat) (data.length - p)
      match f.write s addr.toNat ((data.drop p).take chunk) with
      | (s, false) => some (s, false)
      | (s, true) => writeLoop data fuel s (addr + UInt32.ofNat chunk) (p + chunk)
    else some (s, true)

/-- Returns the number of bytes written, or nothing on an error. -/
def write (s : σ) (off : ℕ) (data : List UInt8) : Option (σ × Option ℕ) :=
  (writeLoop f data data.length s (lfsOffset + UInt32.ofNat off) 0).map fun (s, ok) =>
    (s, if ok then some data.length else none)

/-- `erase` -/
def erase (s : σ) (off len : ℕ) : σ × Option ℕ :=
  match f.erase s (lfsOffset + UInt32.ofNat off).toNat len with
  | (s, true) => (s, some len)
  | (s, false) => (s, none)

end Storage

/-! ## The pieces of a write -/

/-- As much as the page has left. -/
def pageChunk (a n : ℕ) : ℕ := min (256 - a % 256) n

theorem cuts_pageChunk : Cuts pageChunk (fun _ _ => True) 1 := by
  intro a n _ some_left
  unfold pageChunk
  refine ⟨?_, Nat.min_le_right .., trivial⟩
  omega

/-- The pieces of data that go to `base`. -/
def pieces (base : ℕ) (data : List UInt8) : List (ℕ × List UInt8) :=
  (cut pageChunk data.length base data.length).map fun t => (t.1, (data.drop (t.1 - base)).take t.2)

/-- A piece within a page. -/
def writePiece (f : Flash σ) (s : σ) (p : ℕ × List UInt8) : σ × Bool := f.write s p.1 p.2

variable {data : List UInt8} {base : ℕ}

/-- The loop writes the chunks that are left, up to the first that fails. -/
theorem writeLoop_eq (f : Flash σ) (data : List UInt8) {fuel p : ℕ} (s : σ) {addr : UInt32}
    (here : addr.toNat = base + p)
    (inside : p ≤ data.length) (small : base + data.length < 2 ^ 32) (enough : data.length - p ≤ fuel) :
    writeLoop f data fuel s addr p =
      some (runAll (writePiece f) s ((cut pageChunk fuel (base + p) (data.length - p)).map fun t =>
        (t.1, (data.drop (t.1 - base)).take t.2))) := by
  induction fuel generalizing s addr p with
  | zero => exact if_neg (by omega)
  | succ fuel ih =>
    rw [writeLoop, cut]
    by_cases done : data.length - p = 0
    · rw [if_neg (by omega), if_pos done]
      rfl
    · have page : (addr % 256).toNat = (base + p) % 256 := by
        rw [UInt32.toNat_mod, here]
        rfl
      obtain ⟨least, most, -⟩ := cuts_pageChunk (base + p) (data.length - p) trivial done
      have chunk_eq : min (256 - (base + p) % 256) (data.length - p) = pageChunk (base + p) (data.length - p) := rfl
      rw [if_pos (by omega), if_neg done, page, chunk_eq, List.map_cons]
      generalize pageChunk (base + p) (data.length - p) = chunk at least most
      have toNat_chunk : (UInt32.ofNat chunk).toNat = chunk :=
        UInt32.toNat_ofNat_of_lt' (by change chunk < 2 ^ 32; omega)
      have moved : (addr + UInt32.ofNat chunk).toNat = base + (p + chunk) := by
        rw [UInt32.toNat_add, toNat_chunk, here, Nat.mod_eq_of_lt (by omega), Nat.add_assoc]
      have piece : writePiece f s (base + p, (data.drop (base + p - base)).take chunk) =
          f.write s addr.toNat ((data.drop p).take chunk) := by
        rw [writePiece, Nat.add_sub_cancel_left, here]
      dsimp only
      rcases written : f.write s addr.toNat ((data.drop p).take chunk) with ⟨s', _ | _⟩
      · rw [runAll_cons_false (piece.trans written)]
      · rw [runAll_cons_true (piece.trans written)]
        have rest := ih s' moved (by omega) (by omega)
        rwa [← Nat.add_assoc, ← Nat.sub_sub] at rest

theorem tiles_cut_pageChunk (base n : ℕ) : Tiles base (base + n) (cut pageChunk n base n) :=
  tiles_cut cuts_pageChunk Nat.one_pos trivial (by omega)

theorem length_slice {n : ℕ} (length : data.length = n) {t : ℕ × ℕ}
    (member : t ∈ cut pageChunk n base n) : ((data.drop (t.1 - base)).take t.2).length = t.2 := by
  have bounds := (tiles_cut_pageChunk base n).inside t member
  rw [List.length_take, List.length_drop]
  omega

theorem tiles_pieces (base : ℕ) (data : List UInt8) :
    Tiles base (base + data.length) ((pieces base data).map fun p => (p.1, p.2.length)) := by
  have same : (pieces base data).map (fun p => (p.1, p.2.length)) = cut pageChunk data.length base data.length := by
    rw [pieces, List.map_map]
    conv_rhs => rw [← List.map_id (cut pageChunk data.length base data.length)]
    refine List.map_congr_left fun t member => ?_
    exact Prod.ext rfl (length_slice rfl member)
  rw [same]
  exact tiles_cut_pageChunk base data.length

theorem flatten_pieces (base : ℕ) (data : List UInt8) : ((pieces base data).map Prod.snd).flatten = data := by
  have joined := (tiles_cut_pageChunk base data.length).flatten_slices data (Nat.le_refl base)
  rw [Nat.sub_self, List.drop_zero, Nat.add_sub_cancel_left, List.take_length] at joined
  rw [pieces, List.map_map]
  exact joined

theorem page_pieces {p : ℕ × List UInt8} (member : p ∈ pieces base data) :
    p.1 % 256 + p.2.length ≤ 256 := by
  obtain ⟨t, chunk, rfl⟩ := List.mem_map.1 member
  have page : ∀ t ∈ cut pageChunk data.length base data.length, t.1 % 256 + t.2 ≤ 256 := by
    refine forall_cut cuts_pageChunk (fun a n _ _ => ?_) trivial
    unfold pageChunk
    omega
  dsimp only
  rw [length_slice rfl chunk]
  exact page t chunk

theorem crosses_pieces (chip : base + data.length ≤ W25q.chipSize) {p : ℕ × List UInt8}
    (member : p ∈ pieces base data) : p.2 ≠ [] ∧ SpiNor.crosses (UInt32.ofNat p.1) p.2 = false := by
  have tile : (p.1, p.2.length) ∈ (pieces base data).map fun p => (p.1, p.2.length) := List.mem_map.2 ⟨p, member, rfl⟩
  have bounds := (tiles_pieces base data).inside _ tile
  have page := page_pieces member
  rw [W25q.chipSize] at chip
  have toNat_addr : (UInt32.ofNat p.1).toNat = p.1 := UInt32.toNat_ofNat_of_lt' (by change p.1 < 2 ^ 32; omega)
  refine ⟨List.length_pos_iff.1 ((tiles_pieces base data).pos _ tile), Bool.eq_false_iff.2 ?_⟩
  rw [Ne, SpiNor.crosses_iff (by omega), toNat_addr]
  omega

/-! ## The write -/

theorem write_eq (f : Flash σ) (s : σ) {off : ℕ} (fits : lfsOffset.toNat + off + data.length ≤ W25q.chipSize) :
    write f s off data =
      some ((runAll (writePiece f) s (pieces (lfsOffset.toNat + off) data)).map id
        fun ok => if ok then some data.length else none) := by
  rw [W25q.chipSize] at fits
  have toNat_off : (UInt32.ofNat off).toNat = off := UInt32.toNat_ofNat_of_lt' (by change off < 2 ^ 32; omega)
  have toNat_addr : (lfsOffset + UInt32.ofNat off).toNat = lfsOffset.toNat + off + 0 := by
    rw [UInt32.toNat_add, toNat_off, Nat.mod_eq_of_lt (by omega), Nat.add_zero]
  rw [write, writeLoop_eq f data s toNat_addr (Nat.zero_le _) (by omega) (by omega)]
  rfl

/-- A write is cut into pieces one behind the other from its first address on, none of them empty or across a page,
which together are the data.  Either the driver writes all of them, or it fails on one: then that is the last call
and the write is an error. -/
theorem write_splits (f : Flash σ) (s : σ) {off : ℕ} {data : List UInt8}
    (fits : lfsOffset.toNat + off + data.length ≤ W25q.chipSize) :
    ∃ parts : List (ℕ × List UInt8),
      Tiles (lfsOffset.toNat + off) (lfsOffset.toNat + off + data.length) (parts.map fun p => (p.1, p.2.length)) ∧
      (parts.map Prod.snd).flatten = data ∧
      (∀ p ∈ parts, p.2 ≠ [] ∧ p.1 % 256 + p.2.length ≤ 256 ∧ SpiNor.crosses (UInt32.ofNat p.1) p.2 = false) ∧
      ∃ s' log answer, write f.recorded (s, []) off data = some ((s', log), answer) ∧
        (answer = some data.length ∧ log = parts.map (fun p => (.write p.1 p.2, true)) ∨
          answer = none ∧ ∃ before p after, parts = before ++ p :: after ∧
            log = before.map (fun p => (.write p.1 p.2, true)) ++ [(.write p.1 p.2, false)]) := by
  refine ⟨pieces (lfsOffset.toNat + off) data, tiles_pieces _ data, flatten_pieces _ data, ?_, _, _, _,
    write_eq f.recorded (s, []) fits, ?_⟩
  · intro p member
    exact ⟨(crosses_pieces fits member).1, page_pieces member, (crosses_pieces fits member).2⟩
  · have entered (s : σ × List (FlashOp × Bool)) (p : ℕ × List UInt8) :
        (writePiece f.recorded s p).1.2 = s.2 ++ [(.write p.1 p.2, (writePiece f.recorded s p).2)] := rfl
    rcases runAll_record Prod.snd (fun p ok => (FlashOp.write p.1 p.2, ok)) entered (s, [])
      (pieces (lfsOffset.toNat + off) data) with ⟨ok, log⟩ | ⟨failed, log⟩
    · exact .inl ⟨if_pos ok, log⟩
    · exact .inr ⟨if_neg (Bool.eq_false_iff.1 failed), log⟩

/-- A write of 300 bytes, 16 bytes before a page ends. -/
theorem write_splits_page :
    lfsOffset.toNat + 0xF0 + (List.replicate 300 (7 : UInt8)).length ≤ W25q.chipSize ∧
      ∃ parts : List (ℕ × List UInt8), (parts.map Prod.snd).flatten = List.replicate 300 7 ∧
        ∀ p ∈ parts, p.2 ≠ [] ∧ p.1 % 256 + p.2.length ≤ 256 := by
  have fits : lfsOffset.toNat + 0xF0 + (List.replicate 300 (7 : UInt8)).length ≤ W25q.chipSize := by
    rw [List.length_replicate]
    decide
  obtain ⟨parts, -, joined, good, -⟩ := write_splits W25q.flash ⟨fun _ => 0xFF, [], 0⟩ fits
  exact ⟨fits, parts, joined, fun p member => ⟨(good p member).1, (good p member).2.1⟩⟩

/-! ## The array of the driver -/

end LfsNor

end IoEdgeHub
