import IoEdgeHub.Firmware.FwContents

/-!
# The MCUboot trailer behind an image

`boot_set_pending` programs its trailer into the last 40 bytes of slot1, which it expects to be
erased.  `start` admits an image of any size up to the whole slot, so the last bytes of a long
image lie under the trailer.  Programming only clears bits: image and trailer both come out right
exactly when every image byte in a trailer position already has the trailer's value.
-/

namespace IoEdgeHub

/-- The swap type that is requested. -/
def swapType (permanent : Bool) : UInt8 := if permanent then bootSwapTypePerm else bootSwapTypeTest

/-- The flag `image_ok`. -/
def imageOk (permanent : Bool) : UInt8 := if permanent then bootFlagSet else 0xFF

/-- The byte that the trailer needs at an address of slot1, if it needs one there. -/
def trailerByte (permanent : Bool) (a : ℕ) : Option UInt8 :=
  if a = swapInfoOff then some (swapType permanent)
  else if a = imageOkOff then some (imageOk permanent)
  else if magicOff ≤ a then bootMagic[a - magicOff]?
  else none

variable {permanent : Bool}

theorem trailerByte_lt {a : ℕ} {b : UInt8} (needed : trailerByte permanent a = some b) :
    swapInfoOff ≤ a ∧ a < slot1Size := by
  have swap : swapInfoOff < slot1Size := by decide
  have ok : swapInfoOff ≤ imageOkOff ∧ imageOkOff < slot1Size := by decide
  have magic : swapInfoOff ≤ magicOff ∧ magicOff + 16 = slot1Size := by decide
  unfold trailerByte at needed
  split_ifs at needed
  · omega
  · omega
  · have inside : a - magicOff < bootMagic.length := (List.getElem?_eq_some_iff.1 needed).1
    have length : bootMagic.length = 16 := rfl
    omega

/-- The trailer is in place. -/
structure TrailerSet (mem : Nor.Mem) (permanent : Bool) : Prop where
  magic : Nor.read mem magicOff 16 = bootMagic
  swap : mem swapInfoOff = swapType permanent
  imageOk : mem imageOkOff = IoEdgeHub.imageOk permanent

theorem trailerSet_iff {mem : Nor.Mem} :
    TrailerSet mem permanent ↔ ∀ a b, trailerByte permanent a = some b → mem a = b := by
  constructor
  · rintro ⟨magic, swap, ok⟩ a b needed
    unfold trailerByte at needed
    split_ifs at needed with isSwap isOk isMagic
    · rw [isSwap, swap, Option.some.inj needed]
    · rw [isOk, ok, Option.some.inj needed]
    · obtain ⟨inside, value⟩ := List.getElem?_eq_some_iff.1 needed
      have bytes := (Nor.read_eq_iff.1 magic).2 (a - magicOff) inside
      rwa [Nat.add_sub_cancel' isMagic, value] at bytes
  · intro bytes
    refine ⟨Nor.read_eq_iff.2 ⟨rfl, fun i h => ?_⟩, bytes _ _ (if_pos rfl), bytes _ _ ?_⟩
    · apply bytes
      have apart : swapInfoOff < magicOff ∧ imageOkOff < magicOff := by decide
      rw [trailerByte, if_neg (by omega), if_neg (by omega), if_pos (by omega),
        Nat.add_sub_cancel_left, List.getElem?_eq_getElem h]
    · rw [trailerByte, if_neg (by decide), if_pos rfl]

/-! ## What `boot_set_pending` programs -/

/-- The mask that programming `data` at `addr` puts on the byte at `a`. -/
def progMask (addr : ℕ) (data : List UInt8) (a : ℕ) : UInt8 :=
  if addr ≤ a then data[a - addr]?.getD 0xFF else 0xFF

theorem progMask_outside {addr a : ℕ} {data : List UInt8} (out : a < addr ∨ addr + data.length ≤ a) :
    progMask addr data a = 0xFF := by
  unfold progMask
  split
  · rw [List.getElem?_eq_none (by omega), Option.getD_none]
  · rfl

/-- The three programs together need exactly the trailer's bytes. -/
theorem trailer_mask (permanent : Bool) (a : ℕ) :
    progMask magicOff bootMagic a &&&
      (if permanent then progMask imageOkOff (trailerFlag bootFlagSet) a else 0xFF) &&&
      progMask swapInfoOff (trailerFlag (swapType permanent)) a =
    (trailerByte permanent a).getD 0xFF := by
  have inside : ∀ j < 40, ∀ permanent : Bool,
      progMask magicOff bootMagic (swapInfoOff + j) &&&
        (if permanent then progMask imageOkOff (trailerFlag bootFlagSet) (swapInfoOff + j) else 0xFF) &&&
        progMask swapInfoOff (trailerFlag (swapType permanent)) (swapInfoOff + j) =
      (trailerByte permanent (swapInfoOff + j)).getD 0xFF := by decide +kernel
  by_cases within : swapInfoOff ≤ a ∧ a < swapInfoOff + 40
  · obtain ⟨j, rfl⟩ := Nat.exists_eq_add_of_le within.1
    exact inside j (by omega) permanent
  · have slot : swapInfoOff + 40 = slot1Size := by decide
    have ok : swapInfoOff ≤ imageOkOff ∧ imageOkOff + 8 ≤ slot1Size := by decide
    have magic : swapInfoOff ≤ magicOff ∧ magicOff + 16 ≤ slot1Size := by decide
    have magicLength : bootMagic.length = 16 := rfl
    have flagLength (b : UInt8) : (trailerFlag b).length = 8 := rfl
    have noByte : trailerByte permanent a = none := by
      by_contra some
      obtain ⟨b, needed⟩ := Option.ne_none_iff_exists'.1 some
      have := trailerByte_lt needed
      omega
    rw [progMask_outside (by omega), progMask_outside (by rw [flagLength]; omega),
      progMask_outside (by rw [flagLength]; omega), noByte]
    cases permanent <;> rfl

/-- A request that succeeds masks slot1 with the trailer and changes nothing else. -/
theorem bootSetPending_mem {nor : W25q} (ok : (bootSetPending nor permanent).2 = true)
    (a : ℕ) :
    (bootSetPending nor permanent).1.mem a = nor.mem a &&& (trailerByte permanent a).getD 0xFF := by
  have program (m : Nor.Mem) (addr : ℕ) (data : List UInt8) :
      Nor.program m addr data a = m a &&& progMask addr data a := Nor.program_eq_and m addr data a
  rw [← trailer_mask, ← UInt8.and_assoc, ← UInt8.and_assoc, ← program]
  unfold bootSetPending at ok ⊢
  have magic := @W25q.write_ok nor magicOff bootMagic
  rcases first : nor.write magicOff bootMagic with ⟨nor₁, _ | _⟩ <;> rw [first] at ok magic
  · exact absurd ok (by simp)
  rw [← magic rfl]
  cases permanent with
  | false =>
    simp only [Bool.false_eq_true, if_false, Nor.and_ff] at ok ⊢
    exact (congrFun (W25q.write_ok ok) a).trans (program ..)
  | true =>
    have flag := @W25q.write_ok nor₁ imageOkOff (trailerFlag bootFlagSet)
    simp only [if_true] at ok ⊢
    rcases second : nor₁.write imageOkOff (trailerFlag bootFlagSet) with ⟨nor₂, _ | _⟩ <;>
      rw [second] at ok flag
    · exact absurd ok (by simp)
    rw [← program, ← flag rfl]
    exact (congrFun (W25q.write_ok ok) a).trans (program ..)

/-! ## Image and trailer -/

/-- No image byte is in the trailer's way. -/
def ClearOfTrailer (image : List UInt8) (permanent : Bool) : Prop :=
  ∀ a b, trailerByte permanent a = some b → ∀ h : a < image.length, image[a] = b

/-- An image that ends before the trailer is clear of it. -/
theorem clearOfTrailer_short {image : List UInt8} (short : image.length ≤ swapInfoOff) :
    ClearOfTrailer image permanent := by
  intro a b needed h
  have := trailerByte_lt needed
  omega

/-- Over an image followed by erased flash, the request leaves both the trailer and the image right
exactly when the image is clear of the trailer. -/
theorem trailer_and_image_iff {nor : W25q} {image : List UInt8}
    (ok : (bootSetPending nor permanent).2 = true)
    (contents : Nor.read nor.mem 0 image.length = image)
    (blank : Nor.Erased nor.mem image.length (slot1Size - image.length)) :
    TrailerSet (bootSetPending nor permanent).1.mem permanent ∧
      Nor.read (bootSetPending nor permanent).1.mem 0 image.length = image ↔
    ClearOfTrailer image permanent := by
  have masked := bootSetPending_mem ok
  have bytes := (Nor.read_eq_iff.1 contents).2
  simp only [Nat.zero_add] at bytes
  rw [trailerSet_iff]
  constructor
  · rintro ⟨trailer, intact⟩ a b needed h
    have kept := (Nor.read_eq_iff.1 intact).2 a h
    rw [Nat.zero_add] at kept
    rw [← kept, trailer a b needed]
  · intro clear
    refine ⟨fun a b needed => ?_, Nor.read_eq_iff.2 ⟨rfl, fun a h => ?_⟩⟩
    · rw [masked, needed, Option.getD_some]
      by_cases h : a < image.length
      · rw [bytes a h, clear a b needed h, UInt8.and_self]
      · have := trailerByte_lt needed
        rw [blank a (by omega) (by omega), Nor.ff_and]
    · rw [Nat.zero_add, masked, bytes a h]
      cases needed : trailerByte permanent a with
      | none => exact Nor.and_ff _
      | some b => rw [clear a b needed h, Option.getD_some, UInt8.and_self]

/-- For every run in which `finish` and then `boot_set_pending` return true: slot1 holds the magic,
the swap type, the `image_ok` flag and the uploaded image, all of them, if and only if no image
byte in a trailer position differs from the trailer's. -/
theorem bootSetPending_after_finish (nor : W25q) (ops : List FwOp) (crc : Option (BitVec 16))
    (permanent : Bool) (finished : ((FwRun.run nor ops).fw.finish crc).2 = true)
    (pending : (bootSetPending ((FwRun.run nor ops).fw.finish crc).1.nor permanent).2 = true) :
    let r := FwRun.run nor ops
    let mem := (bootSetPending (r.fw.finish crc).1.nor permanent).1.mem
    (Nor.read mem magicOff 16 = bootMagic ∧ mem swapInfoOff = (if permanent then 3 else 2) ∧
      mem imageOkOff = (if permanent then 1 else 0xFF) ∧ Nor.read mem 0 r.fw.total = r.accepted) ↔
    ClearOfTrailer r.accepted permanent := by
  intro r mem
  obtain ⟨active, failed, _⟩ := Fw.finish_ok finished
  have holds : r.fw.Holds r.accepted := (FwRun.run_sound nor ops).1 active failed
  obtain ⟨contents, length, _, blank⟩ := Fw.finish_holds finished holds
  rw [← length] at contents blank ⊢
  rw [← trailer_and_image_iff pending contents blank]
  constructor
  · rintro ⟨magic, swap, ok, intact⟩
    exact ⟨⟨magic, swap, ok⟩, intact⟩
  · rintro ⟨⟨magic, swap, ok⟩, intact⟩
    exact ⟨magic, swap, ok, intact⟩

/-! ## Uploads on a bus without failures -/

namespace Fw

variable {s : Fw}

theorem start_healthy (idle : s.active = false) (healthy : s.nor.plan = []) {total : ℕ}
    (least : 64 ≤ total) (most : total ≤ slot1Size) :
    (s.start total none).2 = 0 ∧ (s.start total none).1.active = true ∧
    (s.start total none).1.failed = false ∧ (s.start total none).1.total = total ∧
    (s.start total none).1.nor.plan = [] := by
  have erased : (s.nor.erase 0 slot1Size).2 = true ∧ (s.nor.erase 0 slot1Size).1.plan = [] :=
    W25q.erase_healthy healthy (by decide) rfl (by decide) (by decide)
  rw [start, if_neg (by simp [idle]), if_neg (by omega), if_neg (by simp)]
  rcases result : s.nor.erase 0 slot1Size with ⟨nor, _ | _⟩ <;> rw [result] at erased
  · exact absurd erased.1 (by simp)
  · exact ⟨rfl, rfl, rfl, rfl, erased.2⟩

theorem write_healthy {bytes data : List UInt8} (h : s.Holds bytes) (active : s.active = true)
    (failed : s.failed = false) (healthy : s.nor.plan = [])
    (small : bytes.length + data.length ≤ s.total) :
    (s.write data).2 = true ∧ (s.write data).1.active = true ∧ (s.write data).1.failed = false ∧
    (s.write data).1.total = s.total ∧ (s.write data).1.nor.plan = [] := by
  have length := h.length
  have wrote := writeLoop_holds data.length data h small (Nat.le_refl _)
  obtain ⟨ok, plan⟩ := wrote.healthy healthy
  rw [write, if_neg (by simp [active, failed]), if_neg (by omega)]
  exact ⟨ok, wrote.active.trans active, (wrote.accepted ok).2.trans failed, wrote.total, plan⟩

/-- A complete upload whose key hash is in place passes `finish`. -/
theorem finish_healthy {bytes : List UInt8} (h : s.Holds bytes) (active : s.active = true)
    (failed : s.failed = false) (healthy : s.nor.plan = []) (full : bytes.length = s.total)
    (keyhash : ∀ nor : W25q, nor.plan = [] → Nor.read nor.mem 0 s.total = bytes →
      tlvKeyhashOk nor = (nor, true)) :
    (s.finish none).2 = true ∧ (s.finish none).1.nor.plan = [] := by
  obtain ⟨flushed, plan⟩ := pageFlush_healthy h.flushable healthy
  have written : s.written + s.page.length = s.total := h.length.symm.trans full
  have contents := (pageFlush_mem h.flushable flushed).1
  rw [written, h.contents] at contents
  have fields := pageFlush_fields s
  have chip : s.total ≤ W25q.chipSize := h.size.2.trans (by decide)
  obtain ⟨crcV, read⟩ := readback_healthy (s.total / readChunk + 1) plan 0 chip 0
  rw [finish_eq active failed, if_pos flushed, fields]
  rw [verify, if_neg (by simpa using written)]
  dsimp only
  rw [read]
  dsimp only
  rw [keyhash _ plan contents]
  exact ⟨rfl, plan⟩

end Fw

/-- A session that uploads the image in one write, from a blank array. -/
def upload (image : List UInt8) : FwRun :=
  FwRun.run ⟨fun _ => 0xFF, [], 0⟩ [.start image.length none, .write image]

theorem upload_spec {image : List UInt8} (least : 64 ≤ image.length)
    (most : image.length ≤ slot1Size) :
    (upload image).accepted = image ∧ (upload image).fw.Holds image ∧
    (upload image).fw.total = image.length ∧ (upload image).fw.active = true ∧
    (upload image).fw.failed = false ∧ (upload image).fw.nor.plan = [] := by
  have blank : (Fw.new ⟨fun _ => 0xFF, [], 0⟩).nor.plan = [] := rfl
  obtain ⟨started, active, failed, total, plan⟩ := Fw.start_healthy rfl blank least most
  have holds := ((Fw.start_cases _ image.length none).2.1 started).2
  obtain ⟨written, active', failed', total', plan'⟩ :=
    Fw.write_healthy holds active failed plan (by rw [total]; exact Nat.le_of_eq (Nat.zero_add _))
  have result : upload image =
      ⟨(((Fw.new ⟨fun _ => 0xFF, [], 0⟩).start image.length none).1.write image).1, image⟩ := by
    simp [upload, FwRun.run, FwRun.step, started, written]
  have sound : (upload image).Sound := (FwRun.run_sound _ _).1
  rw [result] at sound ⊢
  exact ⟨rfl, sound active' failed', total'.trans total, active', failed', plan'⟩

/-- The first kilobyte of a minimal image: the header, then a TLV block with only the key hash. -/
def imageHead : List UInt8 :=
  [0x3D, 0xB8, 0xF3, 0x96, 0, 0, 0, 0, 0x00, 0x02, 0, 0, 0, 0, 0, 0] ++ List.replicate 496 0 ++
    ([0x07, 0x69, 0x28, 0x00, 0x01, 0x00, 0x20, 0x00] ++ fwKeyhash ++ List.replicate 472 0)

theorem tlvKeyhashOk_imageHead {nor : W25q} (healthy : nor.plan = [])
    (head : Nor.read nor.mem 0 1024 = imageHead) : Fw.tlvKeyhashOk nor = (nor, true) := by
  have header : Nor.read nor.mem 0 32 = imageHead.take 32 := by
    have slice := Nor.read_slice nor.mem 0 (show 0 + 32 ≤ 1024 by decide)
    rwa [head] at slice
  have tlv : Nor.read nor.mem 512 512 = (imageHead.drop 512).take 512 := by
    have slice := Nor.read_slice nor.mem 0 (show 512 + 512 ≤ 1024 by decide)
    rwa [head] at slice
  have pos : imageTlvPos (imageHead.take 32) imgHdrSize = some 512 := by decide +kernel
  have found : keyhashInTlv ((imageHead.drop 512).take 512) = some fwKeyhash := by decide +kernel
  have len : (min (UInt32.ofNat tlvRead) (UInt32.ofNat slot1Size - 512)).toNat = 512 := by
    decide +kernel
  rw [Fw.tlvKeyhashOk, W25q.read_healthy healthy (by decide) (by decide), header]
  dsimp only
  rw [pos]
  dsimp only
  rw [if_neg (by decide), len, show (512 : UInt32).toNat = 512 from rfl,
    W25q.read_healthy healthy (by decide) (by decide), tlv]
  dsimp only
  rw [found, beq_self_eq_true]

/-- Every image with this head, of any size that `start` admits, passes `finish`. -/
theorem upload_finish (rest : List UInt8) (most : (imageHead ++ rest).length ≤ slot1Size) :
    ((upload (imageHead ++ rest)).fw.finish none).2 = true ∧
    ((upload (imageHead ++ rest)).fw.finish none).1.nor.plan = [] := by
  have headLength : imageHead.length = 1024 := by decide +kernel
  have least : 64 ≤ (imageHead ++ rest).length := by
    rw [List.length_append]
    omega
  obtain ⟨_, holds, total, active, failed, plan⟩ := upload_spec least most
  refine Fw.finish_healthy holds active failed plan total.symm fun nor healthy contents => ?_
  apply tlvKeyhashOk_imageHead healthy
  have inside : 0 + 1024 ≤ (upload (imageHead ++ rest)).fw.total := by
    rw [total, List.length_append]
    omega
  have slice := Nor.read_slice nor.mem 0 inside
  rwa [contents, List.drop_zero, List.take_left' headLength] at slice

theorem bootSetPending_healthy {nor : W25q} (healthy : nor.plan = []) (permanent : Bool) :
    (bootSetPending nor permanent).2 = true := by
  have write {nor : W25q} (healthy : nor.plan = []) {addr : ℕ} {buf : List UInt8}
      (fits : addr % 256 + buf.length ≤ 256 ∧ addr + buf.length ≤ slot1Size) :
      (nor.write addr buf).2 = true ∧ (nor.write addr buf).1.plan = [] :=
    W25q.write_healthy healthy fits.1 (fits.2.trans (by decide))
  unfold bootSetPending
  have magic : (nor.write magicOff bootMagic).2 = true ∧ (nor.write magicOff bootMagic).1.plan = [] :=
    write healthy (by decide)
  rcases first : nor.write magicOff bootMagic with ⟨nor₁, _ | _⟩ <;> rw [first] at magic
  · exact absurd magic.1 (by simp)
  cases permanent with
  | false => exact (write magic.2 (by decide)).1
  | true =>
    have flag : (nor₁.write imageOkOff (trailerFlag bootFlagSet)).2 = true ∧
        (nor₁.write imageOkOff (trailerFlag bootFlagSet)).1.plan = [] := write magic.2 (by decide)
    simp only [if_true]
    rcases second : nor₁.write imageOkOff (trailerFlag bootFlagSet) with ⟨nor₂, _ | _⟩ <;>
      rw [second] at flag
    · exact absurd flag.1 (by simp)
    · exact (write flag.2 (by decide)).1

theorem upload_pending_byte {image : List UInt8} (least : 64 ≤ image.length)
    (most : image.length ≤ slot1Size) {permanent : Bool}
    (finished : ((upload image).fw.finish none).2 = true)
    (pending : (bootSetPending ((upload image).fw.finish none).1.nor permanent).2 = true)
    {a : ℕ} (h : a < image.length) :
    (bootSetPending ((upload image).fw.finish none).1.nor permanent).1.mem a =
      image[a] &&& (trailerByte permanent a).getD 0xFF := by
  obtain ⟨_, holds, total, _⟩ := upload_spec least most
  have bytes := (Nor.read_eq_iff.1 (Fw.finish_holds finished holds).1).2 a h
  rw [Nat.zero_add] at bytes
  rw [bootSetPending_mem pending, bytes]

theorem zero_byte_loses_magic {image : List UInt8} (least : 64 ≤ image.length)
    (most : image.length ≤ slot1Size) {permanent : Bool}
    (finished : ((upload image).fw.finish none).2 = true)
    (pending : (bootSetPending ((upload image).fw.finish none).1.nor permanent).2 = true)
    (inside : magicOff < image.length) (zero : image[magicOff] = 0) :
    Nor.read (bootSetPending ((upload image).fw.finish none).1.nor permanent).1.mem magicOff 16 ≠
      bootMagic := by
  intro magic
  have first := (Nor.read_eq_iff.1 magic).2 0 (by decide)
  rw [Nat.add_zero, upload_pending_byte least most finished pending inside, zero,
    UInt8.zero_and] at first
  exact absurd first (by decide)

theorem bootSetPending_after_finish_short :
    ((upload imageHead).fw.finish none).2 = true ∧
    (bootSetPending ((upload imageHead).fw.finish none).1.nor true).2 = true ∧
    Nor.read (bootSetPending ((upload imageHead).fw.finish none).1.nor true).1.mem magicOff 16 =
      bootMagic := by
  have length : imageHead.length = 1024 := by decide +kernel
  have ready := upload_finish [] (by rw [List.append_nil, length]; decide)
  rw [List.append_nil] at ready
  have pending := bootSetPending_healthy ready.2 true
  have accepted := (upload_spec (by omega : 64 ≤ imageHead.length) (by rw [length]; decide)).1
  have short : ClearOfTrailer (upload imageHead).accepted true := by
    apply clearOfTrailer_short
    rw [accepted, length]
    decide
  generalize imageHead = image at *
  exact ⟨ready.1, pending, ((bootSetPending_after_finish ⟨fun _ => 0xFF, [], 0⟩
    [.start image.length none, .write image] none true ready.1 pending).2 short).1⟩

/-- Zeros behind the head up to the end of the slot are admitted, and the magic is lost. -/
theorem zeros_lose_magic {n : ℕ} (full : 1024 + n = slot1Size) {image : List UInt8}
    (zeros : image = imageHead ++ List.replicate n 0) :
    ((upload image).fw.finish none).2 = true ∧
    (bootSetPending ((upload image).fw.finish none).1.nor true).2 = true ∧
    Nor.read (bootSetPending ((upload image).fw.finish none).1.nor true).1.mem magicOff 16 ≠
      bootMagic := by
  have headLength : imageHead.length = 1024 := by decide +kernel
  have length : image.length = slot1Size := by
    rw [zeros, List.length_append, headLength, List.length_replicate, full]
  have slot : magicOff < slot1Size ∧ 1024 ≤ magicOff ∧ 64 ≤ slot1Size := by decide
  have ready : ((upload image).fw.finish none).2 = true ∧
      ((upload image).fw.finish none).1.nor.plan = [] := by
    rw [zeros]
    exact upload_finish _ (zeros ▸ Nat.le_of_eq length)
  have inside : magicOff < image.length := by omega
  have zero : image[magicOff] = 0 := by
    simp only [zeros]
    rw [List.getElem_append_right (by omega), List.getElem_replicate]
  have pending := bootSetPending_healthy ready.2 true
  exact ⟨ready.1, pending,
    zero_byte_loses_magic (by omega) (Nat.le_of_eq length) ready.1 pending inside zero⟩

/-- An image of zeros behind its head that fills the whole slot. -/
def fullImage : List UInt8 := imageHead ++ List.replicate (slot1Size - 1024) 0

theorem full_image_loses_magic :
    ((upload fullImage).fw.finish none).2 = true ∧
    (bootSetPending ((upload fullImage).fw.finish none).1.nor true).2 = true ∧
    Nor.read (bootSetPending ((upload fullImage).fw.finish none).1.nor true).1.mem magicOff 16 ≠
      bootMagic := by
  have zeros : fullImage = imageHead ++ List.replicate (slot1Size - 1024) 0 := by rw [fullImage]
  exact zeros_lose_magic (by decide) zeros

end IoEdgeHub
