import IoEdgeHub.Firmware.Fw
import IoEdgeHub.Lib.Pieces

/-!
# The firmware channel over CAN

`fw_can.rs`: commands (0x101), image data (0x103) and the key hash in numbered pieces (0x104).  The pieces
of the key hash may come in any order; what they leave in the buffer and in the mask is followed by
`Keyhash`, one frame at a time, and START hands the hash over once the mask is full.
-/

namespace IoEdgeHub

open Bytes

namespace FwCan

/-- Commands. -/
def platformRx : ℕ := 0x101

/-- Replies. -/
def platformTx : ℕ := 0x102

/-- Pieces of the image. -/
def fwDataRx : ℕ := 0x103

/-- Pieces of the key hash. -/
def keyhashRx : ℕ := 0x104

/-- The version text. -/
def versionTx : ℕ := 0x105

/-- Start an upload. -/
def cmdStartUpdate : ℕ := 0

/-- Confirm an upload. -/
def cmdConfirm : ℕ := 1

/-- Ask for the version. -/
def cmdVersion : ℕ := 2

/-- Reboot. -/
def cmdReboot : ℕ := 3

/-- So many bytes have arrived. -/
def codeOffset : ℕ := 0

/-- The image is complete. -/
def codeUpdateSuccess : ℕ := 1

/-- The version follows. -/
def codeVersion : ℕ := 2

/-- The image is confirmed. -/
def codeConfirm : ℕ := 3

/-- The flash failed. -/
def codeFlashError : ℕ := 4

/-- The transfer failed. -/
def codeTransferError : ℕ := 5

/-- The key hash is wrong. -/
def codeKeyhashError : ℕ := 6

/-- The argument of a confirmation. -/
def confirmMagic : ℕ := 0x55AA55AA

/-- Hash bytes in a frame. -/
def keyhashChunk : ℕ := 7

/-- Frames of a hash. -/
def keyhashChunks : ℕ := (fwKeyhashLen + keyhashChunk - 1) / keyhashChunk

/-- All frames have arrived. -/
def keyhashFullMask : UInt8 := ((1 : UInt16) <<< UInt16.ofNat keyhashChunks).toUInt8 - 1

/-- A reply every so many bytes. -/
def ackInterval : ℕ := 64

/-- A frame that is sent, the request to flush the history, and the reset. -/
inductive CanOut where
  | frame (id : ℕ) (data : List UInt8)
  | sync
  | reboot
deriving DecidableEq, Repr

end FwCan

/-- The session, and the key hash as far as it has come. -/
structure FwCan where
  fw : Fw
  rxKeybuf : List UInt8
  keyChunkMask : UInt8

namespace FwCan

/-- The state after boot. -/
def new (fw : Fw) : FwCan := ⟨fw, List.replicate fwKeyhashLen 0, 0⟩

/-- A reply with its code and argument. -/
def fwReply (code arg : ℕ) : CanOut := .frame platformTx (toLe 4 code ++ toLe 4 arg)

/-- `handle_keyhash`; no result is an index out of range. -/
def handleKeyhash (data rxKeybuf : List UInt8) (mask : UInt8) : Option (List UInt8 × UInt8) :=
  match data with
  | [] => some (rxKeybuf, mask)
  | first :: _ =>
    let seq := first.toNat
    if seq ≥ keyhashChunks then some (rxKeybuf, mask)
    else if fwKeyhashLen < seq * keyhashChunk then none
    else
      let rem := fwKeyhashLen - seq * keyhashChunk
      let chunk := min rem keyhashChunk
      if data.length < 1 + chunk then some (rxKeybuf, mask)
      else do
        let piece ← slice data 1 (1 + chunk)
        let rxKeybuf ← copyIn rxKeybuf (seq * keyhashChunk) piece
        return (rxKeybuf, mask ||| 1 <<< first)

/-- The key hash handed to `fw::start`, and the mask after that. -/
def takeKeyhash (rxKeybuf : List UInt8) (mask : UInt8) : Option (List UInt8) × UInt8 :=
  if mask &&& keyhashFullMask = keyhashFullMask then (some rxKeybuf, 0) else (none, mask)

/-- The frames of the version text, seven characters each. -/
def versionFrames (version : List UInt8) : List CanOut :=
  (List.range ((version.length + 6) / 7)).map fun i =>
    let chunk := (version.drop (7 * i)).take 7
    .frame versionTx (UInt8.ofNat i :: (chunk ++ List.replicate (7 - chunk.length) 0))

/-- `handle_platform` -/
def handlePlatform (version : List UInt8) (s : FwCan) (data : List UInt8) : FwCan × List CanOut :=
  if data.length ≠ 8 then (s, [fwReply codeFlashError 0])
  else
    let cmd := leNat (data.take 4)
    let arg := leNat (data.drop 4)
    if cmd = cmdStartUpdate then
      let (kh, mask) := takeKeyhash s.rxKeybuf s.keyChunkMask
      let (fw, rc) := s.fw.abort.start arg kh
      let s := { s with fw := fw, keyChunkMask := mask }
      if rc = -2 then (s, [fwReply codeKeyhashError 0])
      else if rc ≠ 0 then (s, [fwReply codeFlashError 0])
      else (s, [fwReply codeOffset 0])
    else if cmd = cmdConfirm then
      if !s.fw.active then (s, [fwReply codeTransferError 0])
      else
        match s.fw.finish none with
        | (fw, false) => ({ s with fw := fw }, [fwReply codeTransferError 0])
        | (fw, true) =>
          match bootSetPending fw.nor (arg ≠ 0) with
          | (nor, false) => ({ s with fw := { fw with nor := nor } }, [fwReply codeTransferError 0])
          | (nor, true) => ({ s with fw := { fw with nor := nor } }, [fwReply codeConfirm confirmMagic])
    else if cmd = cmdVersion then (s, fwReply codeVersion version.length :: versionFrames version)
    else if cmd = cmdReboot then (s, [.sync, .reboot])
    else (s, [])

/-- `handle_fw_data` -/
def handleFwData (s : FwCan) (data : List UInt8) : FwCan × List CanOut :=
  if !s.fw.active then (s, [fwReply codeTransferError 0])
  else
    match s.fw.write data with
    | (fw, false) => ({ s with fw := fw }, [fwReply codeFlashError 0])
    | (fw, true) =>
      let s := { s with fw := fw }
      if fw.received = fw.totalOf then (s, [fwReply codeUpdateSuccess fw.received])
      else if fw.received % ackInterval = 0 then (s, [fwReply codeOffset fw.received])
      else (s, [])

/-- A frame with its identifier; no result is an index out of range. -/
def receive (version : List UInt8) (s : FwCan) (id : ℕ) (data : List UInt8) : Option (FwCan × List CanOut) :=
  if id = platformRx then some (s.handlePlatform version data)
  else if id = fwDataRx then some (s.handleFwData data)
  else if id = keyhashRx then
    (handleKeyhash data s.rxKeybuf s.keyChunkMask).map fun (rxKeybuf, mask) =>
      ({ s with rxKeybuf := rxKeybuf, keyChunkMask := mask }, [])
  else some (s, [])

/-! ## The key hash -/

/-- A frame with piece `i` of the hash behind its number. -/
def Carries (hash data : List UInt8) (i : ℕ) : Prop :=
  ∃ rest, data = UInt8.ofNat i :: (Pieces.piece keyhashChunk hash i ++ rest)

/-- The length of piece `i`. -/
def chunkLen (i : ℕ) : ℕ := min (fwKeyhashLen - keyhashChunk * i) keyhashChunk

/-- An empty frame, one with too high a number, and one that is too short for its piece. -/
def Idle (data : List UInt8) : Prop :=
  ∀ first rest, data = first :: rest → 5 ≤ first.toNat ∨ rest.length < chunkLen first.toNat

variable {buf data hash : List UInt8} {mask : UInt8} {i : ℕ} {arrived : ℕ → Prop}

theorem chunkLen_fits (few : i < 5) : keyhashChunk * i + chunkLen i ≤ fwKeyhashLen := by
  simp only [chunkLen, fwKeyhashLen, keyhashChunk]
  omega

theorem length_piece (size : hash.length = fwKeyhashLen) (i : ℕ) :
    (Pieces.piece keyhashChunk hash i).length = chunkLen i := by
  rw [Pieces.piece, List.length_take, List.length_drop, size, chunkLen, Nat.min_comm]

theorem handleKeyhash_cons {first : UInt8} (few : first.toNat < 5) (rest buf : List UInt8) (mask : UInt8) :
    handleKeyhash (first :: rest) buf mask =
      if rest.length < chunkLen first.toNat then some (buf, mask)
      else (copyIn buf (keyhashChunk * first.toNat) (rest.take (chunkLen first.toNat))).map
        (·, mask ||| 1 <<< first) := by
  have counts : ¬first.toNat ≥ keyhashChunks := Nat.not_le.2 few
  have fits := chunkLen_fits few
  have chunk : min (fwKeyhashLen - keyhashChunk * first.toNat) keyhashChunk = chunkLen first.toNat := rfl
  have inside : ¬fwKeyhashLen < keyhashChunk * first.toNat := by omega
  have length : (first :: rest).length < 1 + chunkLen first.toNat ↔ rest.length < chunkLen first.toNat := by
    rw [List.length_cons]
    omega
  unfold handleKeyhash
  dsimp only
  rw [if_neg counts, Nat.mul_comm first.toNat, if_neg inside, chunk]
  by_cases short : rest.length < chunkLen first.toNat
  · rw [if_pos (length.2 short), if_pos short]
  · rw [if_neg (mt length.1 short), if_neg short, slice_eq (Nat.le_add_right 1 _) (by rw [List.length_cons]; omega),
      Nat.add_sub_cancel_left, List.drop_one, List.tail_cons]
    exact Option.map_eq_bind.symm

theorem handleKeyhash_idle (idle : Idle data) (buf : List UInt8) (mask : UInt8) :
    handleKeyhash data buf mask = some (buf, mask) := by
  cases data with
  | nil => rfl
  | cons first rest =>
    rcases Nat.lt_or_ge first.toNat 5 with few | high
    · rw [handleKeyhash_cons few, if_pos ((idle first rest rfl).resolve_left (Nat.not_le.2 few))]
    · exact if_pos high

theorem exists_handleKeyhash (data : List UInt8) (size : buf.length = fwKeyhashLen) (mask : UInt8) :
    ∃ buf' mask', handleKeyhash data buf mask = some (buf', mask') ∧ buf'.length = fwKeyhashLen := by
  by_cases idle : Idle data
  · exact ⟨buf, mask, handleKeyhash_idle idle buf mask, size⟩
  · unfold Idle at idle
    push Not at idle
    obtain ⟨first, rest, rfl, few, long⟩ := idle
    have room : keyhashChunk * first.toNat + (rest.take (chunkLen first.toNat)).length ≤ buf.length := by
      rw [List.length_take_of_le long, size]
      exact chunkLen_fits few
    obtain ⟨buf', copied, length⟩ := exists_copyIn room
    refine ⟨buf', mask ||| 1 <<< first, ?_, length.trans size⟩
    rw [handleKeyhash_cons few, if_neg (Nat.not_lt.2 long), copied]
    rfl

theorem Carries.number {k : ℕ} (carries : Carries hash data i) (also : Carries hash data k)
    (few : i < 5) (few' : k < 5) : k = i := by
  obtain ⟨rest, rfl⟩ := carries
  obtain ⟨rest', same⟩ := also
  have first : UInt8.ofNat i = UInt8.ofNat k := (List.cons.inj same).1
  have numbers := congrArg UInt8.toNat first
  rw [UInt8.toNat_ofNat_of_lt' (by change i < 256; omega),
    UInt8.toNat_ofNat_of_lt' (by change k < 256; omega)] at numbers
  exact numbers.symm

theorem Idle.not_carries (idle : Idle data) (size : hash.length = fwKeyhashLen) {k : ℕ} (few : k < 5) :
    ¬Carries hash data k := by
  rintro ⟨rest, rfl⟩
  have number : (UInt8.ofNat k).toNat = k := UInt8.toNat_ofNat_of_lt' (by change k < 256; omega)
  have short := idle _ _ rfl
  rw [number, List.length_append, length_piece size] at short
  omega

/-- The buffer and the mask after pieces of the hash with the numbers `arrived`. -/
structure Keyhash (hash buf : List UInt8) (mask : UInt8) (arrived : ℕ → Prop) : Prop where
  filled : Pieces.Filled keyhashChunk hash buf arrived
  marks : Pieces.Marks mask arrived
  few : ∀ i, arrived i → i < 5

theorem keyhash_none (size : hash.length = fwKeyhashLen) (room : buf.length = fwKeyhashLen) :
    Keyhash hash buf 0 fun _ => False :=
  ⟨Pieces.filled_none keyhashChunk (room.trans size.symm), Pieces.marks_zero, fun _ no => no.elim⟩

theorem Keyhash.congr {arrived' : ℕ → Prop}
    (keyhash : Keyhash hash buf mask arrived) (same : ∀ k, arrived k ↔ arrived' k) :
    Keyhash hash buf mask arrived' := by
  have equal : arrived = arrived' := funext fun k => propext (same k)
  rwa [← equal]

theorem Keyhash.piece (keyhash : Keyhash hash buf mask arrived)
    (size : hash.length = fwKeyhashLen) (few : i < 5) (carries : Carries hash data i) :
    ∃ buf' mask', handleKeyhash data buf mask = some (buf', mask') ∧
      Keyhash hash buf' mask' fun k => arrived k ∨ k = i := by
  obtain ⟨rest, rfl⟩ := carries
  have number : (UInt8.ofNat i).toNat = i := UInt8.toNat_ofNat_of_lt' (by change i < 256; omega)
  have length := length_piece size i
  have room : keyhashChunk * i + (Pieces.piece keyhashChunk hash i).length ≤ buf.length := by
    rw [length, keyhash.filled.size, size]
    exact chunkLen_fits few
  obtain ⟨buf', copied, -⟩ := exists_copyIn room
  refine ⟨buf', mask ||| 1 <<< UInt8.ofNat i, ?_, ?_⟩
  · rw [handleKeyhash_cons (by rwa [number]), number, if_neg (by rw [List.length_append]; omega),
      List.take_left' length, copied]
    rfl
  · have small : (UInt8.ofNat i).toNat < 8 := by omega
    have marks := keyhash.marks.set small
    rw [number] at marks
    refine ⟨keyhash.filled.put (by decide) copied, marks, ?_⟩
    rintro k (before | rfl)
    · exact keyhash.few k before
    · exact few

/-- A frame that carries one of the five pieces, or that does nothing. -/
def Fits (hash data : List UInt8) : Prop := (∃ i < 5, Carries hash data i) ∨ Idle data

theorem Keyhash.frame (keyhash : Keyhash hash buf mask arrived)
    (size : hash.length = fwKeyhashLen) (fits : Fits hash data) :
    ∃ buf' mask', handleKeyhash data buf mask = some (buf', mask') ∧
      Keyhash hash buf' mask' fun k => arrived k ∨ k < 5 ∧ Carries hash data k := by
  rcases fits with ⟨i, few, carries⟩ | idle
  · obtain ⟨buf', mask', handled, next⟩ := keyhash.piece size few carries
    refine ⟨buf', mask', handled, next.congr fun k => or_congr_right ⟨?_, ?_⟩⟩
    · rintro rfl
      exact ⟨few, carries⟩
    · rintro ⟨few', also⟩
      exact carries.number also few few'
  · refine ⟨buf, mask, handleKeyhash_idle idle buf mask, keyhash.congr fun k => (or_iff_left ?_).symm⟩
    rintro ⟨few, carries⟩
    exact idle.not_carries size few carries

/-- The frames as they come, one after the other. -/
def handleKeyhashes (frames : List (List UInt8)) (rxKeybuf : List UInt8) (mask : UInt8) : Option (List UInt8 × UInt8) :=
  frames.foldlM (fun s data => handleKeyhash data s.1 s.2) (rxKeybuf, mask)

theorem exists_handleKeyhashes (frames : List (List UInt8)) (size : buf.length = fwKeyhashLen) (mask : UInt8) :
    ∃ buf' mask', handleKeyhashes frames buf mask = some (buf', mask') ∧ buf'.length = fwKeyhashLen := by
  induction frames generalizing buf mask with
  | nil => exact ⟨buf, mask, rfl, size⟩
  | cons data frames ih =>
    obtain ⟨buf₁, mask₁, handled, size₁⟩ := exists_handleKeyhash data size mask
    rw [handleKeyhashes, List.foldlM_cons, handled]
    exact ih size₁ mask₁

theorem Keyhash.frames (size : hash.length = fwKeyhashLen) {frames : List (List UInt8)}
    (fits : ∀ data ∈ frames, Fits hash data) (keyhash : Keyhash hash buf mask arrived) :
    ∃ buf' mask', handleKeyhashes frames buf mask = some (buf', mask') ∧
      Keyhash hash buf' mask' fun k => arrived k ∨ k < 5 ∧ ∃ data ∈ frames, Carries hash data k := by
  induction frames generalizing buf mask arrived with
  | nil => exact ⟨buf, mask, rfl, keyhash.congr fun k => by simp⟩
  | cons data frames ih =>
    obtain ⟨buf₁, mask₁, handled, next⟩ := keyhash.frame size (fits data List.mem_cons_self)
    obtain ⟨buf', mask', run, last⟩ := ih (fun d later => fits d (List.mem_cons_of_mem _ later)) next
    refine ⟨buf', mask', ?_, last.congr fun k => ?_⟩
    · rw [handleKeyhashes, List.foldlM_cons, handled]
      exact run
    · rw [or_assoc, ← and_or_left]
      simp only [List.mem_cons, exists_eq_or_imp]

theorem Keyhash.full_iff (keyhash : Keyhash hash buf mask arrived) :
    mask = keyhashFullMask ↔ ∀ i < 5, arrived i := by
  have bits : ∀ i, keyhashFullMask.toNat.testBit i = decide (i < 5) := Nat.testBit_two_pow_sub_one 5
  constructor
  · rintro rfl i few
    rw [← keyhash.marks i, bits i]
    exact decide_eq_true few
  · intro all
    rw [← UInt8.toNat_inj]
    apply Nat.eq_of_testBit_eq
    intro i
    rw [bits i, Bool.eq_iff_iff, decide_eq_true_eq, keyhash.marks i]
    exact ⟨keyhash.few i, all i⟩

/-- START looks at the bits of the mask only, and there are no others. -/
theorem Keyhash.takeKeyhash_eq (keyhash : Keyhash hash buf mask arrived) :
    takeKeyhash buf mask = if mask = keyhashFullMask then (some buf, 0) else (none, mask) := by
  have small : mask.toNat < 2 ^ 5 := by
    apply Nat.lt_pow_two_of_testBit
    intro i high
    rw [Bool.eq_false_iff, Ne, keyhash.marks i]
    intro marked
    exact absurd (keyhash.few i marked) (Nat.not_lt.2 high)
  have whole : mask &&& keyhashFullMask = mask := by
    rw [← UInt8.toNat_inj, UInt8.toNat_and]
    exact Nat.and_two_pow_sub_one_of_lt_two_pow small
  rw [takeKeyhash, whole]

theorem Keyhash.whole (keyhash : Keyhash hash buf mask arrived)
    (size : hash.length = fwKeyhashLen) (all : ∀ i < 5, arrived i) : buf = hash := by
  apply keyhash.filled.whole
  intro j inside
  apply all
  change j / 7 < 5
  rw [size] at inside
  change j < 32 at inside
  omega

/-- Frames in any order, repeated or idle: the mask is full exactly when all five pieces have come, the buffer is
then the hash, and START takes it.  No frame at all, of this hash or not, is indexed out of range. -/
theorem handleKeyhashes_assembles {buf : List UInt8} (room : buf.length = fwKeyhashLen) :
    (∀ frames mask, (handleKeyhashes frames buf mask).isSome) ∧
    ∀ hash : List UInt8, hash.length = fwKeyhashLen → ∀ frames, (∀ data ∈ frames, Fits hash data) →
      ∃ buf' mask, handleKeyhashes frames buf 0 = some (buf', mask) ∧
        (mask = keyhashFullMask ↔ ∀ i < 5, ∃ data ∈ frames, Carries hash data i) ∧
        (mask = keyhashFullMask → buf' = hash) ∧
        takeKeyhash buf' mask = if mask = keyhashFullMask then (some hash, 0) else (none, mask) := by
  constructor
  · intro frames mask
    obtain ⟨buf', mask', handled, -⟩ := exists_handleKeyhashes frames room mask
    rw [handled]
    rfl
  · intro hash size frames fits
    obtain ⟨buf', mask, handled, keyhash⟩ := (keyhash_none size room).frames size fits
    have full : mask = keyhashFullMask → buf' = hash := fun all => keyhash.whole size (keyhash.full_iff.1 all)
    refine ⟨buf', mask, handled, ?_, full, ?_⟩
    · rw [keyhash.full_iff]
      refine forall₂_congr fun i few => ?_
      rw [false_or, and_iff_right few]
    · rw [keyhash.takeKeyhash_eq]
      split_ifs with all
      · rw [full all]
      · rfl

/-- The frame a host sends for piece `i`. -/
def keyhashFrame (hash : List UInt8) (i : ℕ) : List UInt8 := UInt8.ofNat i :: Pieces.piece keyhashChunk hash i

theorem carries_keyhashFrame (hash : List UInt8) (i : ℕ) : Carries hash (keyhashFrame hash i) i :=
  ⟨[], by rw [List.append_nil, keyhashFrame]⟩

/-- The last piece first, one twice, and a frame with a number out of range before them. -/
theorem handleKeyhashes_assembles_shuffled :
    handleKeyhashes ([9, 1] :: [4, 0, 2, 1, 0, 3].map (keyhashFrame (List.replicate 32 7))) (List.replicate 32 0) 0 =
      some (List.replicate 32 7, keyhashFullMask) := by
  have fits : ∀ data ∈ [9, 1] :: [4, 0, 2, 1, 0, 3].map (keyhashFrame (List.replicate 32 7)),
    Fits (List.replicate 32 7) data := by
    intro data sent
    rcases List.mem_cons.1 sent with rfl | sent
    · right
      rintro _ _ ⟨⟩
      left
      decide
    · obtain ⟨i, number, rfl⟩ := List.mem_map.1 sent
      exact .inl ⟨i, (by decide : ∀ i ∈ [4, 0, 2, 1, 0, 3], i < 5) i number, carries_keyhashFrame _ i⟩
  have room : (List.replicate 32 (0 : UInt8)).length = fwKeyhashLen := by decide
  obtain ⟨buf', mask, handled, full, same, -⟩ := (handleKeyhashes_assembles room).2 _ (by decide) _ fits
  have all : mask = keyhashFullMask := by
    rw [full]
    intro i few
    refine ⟨_, List.mem_cons_of_mem _ (List.mem_map_of_mem ?_), carries_keyhashFrame _ i⟩
    exact (by decide : ∀ i < 5, i ∈ [4, 0, 2, 1, 0, 3]) i few
  rw [handled, same all, all]

/-! ## Every frame -/

end FwCan

end IoEdgeHub
