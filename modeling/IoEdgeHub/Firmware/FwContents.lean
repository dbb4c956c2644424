import IoEdgeHub.Lib.Run
import IoEdgeHub.Firmware.Fw

/-!
# What slot1 holds during an upgrade

`Fw.Holds s bytes` says that the pages already programmed, followed by the page buffer, are
`bytes`, and that the rest of slot1 is still erased.  Every accepted write extends `bytes` by its
data (`Fw.writeLoop_holds`); a successful `finish` leaves exactly `bytes` in slot1
(`Fw.finish_holds`).
-/

namespace IoEdgeHub

namespace Fw

/-- The session has taken in `bytes` and nothing else. -/
structure Holds (s : Fw) (bytes : List UInt8) : Prop where
  size : 64 ≤ s.total ∧ s.total ≤ slot1Size
  aligned : s.written % pageSz = 0
  page_lt : s.page.length < pageSz
  fits : s.written + s.page.length ≤ s.total
  contents : Nor.read s.nor.mem 0 s.written ++ s.page = bytes
  blank : Nor.Erased s.nor.mem s.written (slot1Size - s.written)

variable {s : Fw} {bytes : List UInt8}

theorem Holds.length (h : s.Holds bytes) :
    bytes.length = s.written + s.page.length := by
  simp [← h.contents]

/-! ## Flushing the page buffer -/

/-- The buffer lies in one erased page of slot1. -/
structure Flushable (s : Fw) : Prop where
  aligned : s.written % pageSz = 0
  small : s.page.length ≤ pageSz
  inside : s.written + s.page.length ≤ slot1Size
  blank : Nor.Erased s.nor.mem s.written (slot1Size - s.written)

theorem Holds.flushable (h : s.Holds bytes) : s.Flushable :=
  ⟨h.aligned, Nat.le_of_lt h.page_lt, h.fits.trans h.size.2, h.blank⟩

theorem Flushable.in_page (h : s.Flushable) :
    s.written % W25q.pageSize + s.page.length ≤ W25q.pageSize := by
  have aligned : s.written % W25q.pageSize = 0 := h.aligned
  rw [aligned, Nat.zero_add]
  exact h.small

theorem Flushable.in_chip (h : s.Flushable) : s.written + s.page.length ≤ W25q.chipSize :=
  h.inside.trans (by decide)

theorem pageFlush_fields (s : Fw) :
    s.pageFlush.1 = { s with page := [], nor := s.pageFlush.1.nor } := by
  unfold pageFlush
  split
  · rfl
  · rename_i empty
    have : s.page = [] := List.length_eq_zero_iff.1 (by omega)
    cases s
    simp_all

theorem pageFlush_refused (h : s.Flushable) :
    s.pageFlush.1.nor.refused = s.nor.refused := by
  unfold pageFlush
  split
  · exact W25q.write_refused h.in_page h.in_chip
  · rfl

/-- A flush that succeeds appends the buffer to what was programmed and keeps the rest erased. -/
theorem pageFlush_mem (h : s.Flushable) (ok : s.pageFlush.2 = true) :
    Nor.read s.pageFlush.1.nor.mem 0 (s.written + s.page.length) =
      Nor.read s.nor.mem 0 s.written ++ s.page ∧
    Nor.Erased s.pageFlush.1.nor.mem (s.written + s.page.length)
      (slot1Size - (s.written + s.page.length)) := by
  have mem : s.pageFlush.1.nor.mem = Nor.program s.nor.mem s.written s.page := by
    unfold pageFlush at ok ⊢
    split at ok
    · rename_i pos
      rw [if_pos pos]
      exact W25q.write_ok ok
    · rename_i empty
      rw [if_neg empty, List.length_eq_zero_iff.1 (by omega : s.page.length = 0), Nor.program_nil]
  have inside := h.inside
  rw [mem]
  constructor
  · rw [Nor.read_add, Nor.read_program_outside (by omega), Nat.zero_add,
      Nor.read_program (h.blank.mono (Nat.le_refl _) (by omega))]
  · exact (h.blank.mono (by omega) (by omega)).program (by omega)

/-- Whatever becomes of a flush, the pages before it stay. -/
theorem pageFlush_before (s : Fw) :
    Nor.read s.pageFlush.1.nor.mem 0 s.written = Nor.read s.nor.mem 0 s.written := by
  unfold pageFlush
  split
  · obtain ⟨k, -, mem, -⟩ := W25q.write_mem s.nor s.written s.page
    dsimp only
    rw [mem, Nor.read_program_outside (by omega)]
  · rfl

theorem pageFlush_healthy (h : s.Flushable) (healthy : s.nor.plan = []) :
    s.pageFlush.2 = true ∧ s.pageFlush.1.nor.plan = [] := by
  unfold pageFlush
  split
  · exact W25q.write_healthy healthy h.in_page h.in_chip
  · exact ⟨rfl, healthy⟩

/-! ## Writing -/

theorem Holds.buffer {data : List UInt8} (h : s.Holds bytes) (chunk : ℕ)
    (room : s.page.length + (data.take chunk).length < pageSz)
    (small : bytes.length + data.length ≤ s.total) :
    ({ s with page := s.page ++ data.take chunk } : Fw).Holds (bytes ++ data.take chunk) where
  size := h.size
  aligned := h.aligned
  page_lt := by simpa using room
  fits := by
    have := h.length
    have := List.length_take_le' chunk data
    simp only [List.length_append] at *
    omega
  contents := by rw [← h.contents, List.append_assoc]
  blank := h.blank

/-- A flush has failed: the buffer is gone, and the pages before it are a first part of `bytes`. -/
structure Broken (s : Fw) (bytes : List UInt8) : Prop where
  failed : s.failed = true
  page : s.page = []
  contents : Nor.read s.nor.mem 0 s.written <+: bytes

/-- What is known of `r`, a session after a call and the result of the call, when the call adds to the
session `s` the data that makes `bytes` of what it holds. -/
structure Wrote (s : Fw) (bytes : List UInt8) (r : Fw × Bool) : Prop where
  active : r.1.active = s.active
  total : r.1.total = s.total
  refused : r.1.nor.refused = s.nor.refused
  accepted : r.2 = true → r.1.Holds bytes ∧ r.1.failed = s.failed
  lost : r.2 = false → r.1.Broken bytes
  healthy : s.nor.plan = [] → r.2 = true ∧ r.1.nor.plan = []

theorem Holds.wrote (h : s.Holds bytes) : s.Wrote bytes (s, true) :=
  ⟨rfl, rfl, rfl, fun _ => ⟨h, rfl⟩, nofun, fun healthy => ⟨rfl, healthy⟩⟩

theorem Holds.fill {piece : List UInt8} (h : s.Holds bytes)
    (full : s.page.length + piece.length = pageSz) (fits : s.written + pageSz ≤ s.total) :
    ({ s with page := s.page ++ piece } : Fw).Flushable := by
  have length : (s.page ++ piece).length = pageSz := by rw [List.length_append, full]
  refine ⟨h.aligned, Nat.le_of_eq length, ?_, h.blank⟩
  rw [length]
  exact fits.trans h.size.2

/-- A full buffer that is flushed becomes the last of the programmed pages. -/
theorem Holds.flushed {piece : List UInt8} (h : s.Holds bytes)
    (full : s.page.length + piece.length = pageSz) (fits : s.written + pageSz ≤ s.total)
    (ok : ({ s with page := s.page ++ piece } : Fw).pageFlush.2 = true) :
    let s' := ({ s with page := s.page ++ piece } : Fw).pageFlush.1
    ({ s' with written := s'.written + pageSz } : Fw).Holds (bytes ++ piece) := by
  intro s'
  have fields : s' = { s with page := [], nor := s'.nor } := pageFlush_fields _
  obtain ⟨contents, blank⟩ := pageFlush_mem (h.fill full fits) ok
  rw [List.length_append, full] at contents blank
  rw [fields]
  refine ⟨h.size, ?_, (by decide : 0 < pageSz), fits, ?_, blank⟩
  · exact (Nat.add_mod_right s.written pageSz).trans h.aligned
  · rw [List.append_nil, ← h.contents, List.append_assoc]
    exact contents

theorem Holds.broken (h : s.Holds bytes) (piece rest : List UInt8) :
    let s' := ({ s with page := s.page ++ piece } : Fw).pageFlush.1
    ({ s' with failed := true } : Fw).Broken (bytes ++ rest) := by
  intro s'
  have fields : s' = { s with page := [], nor := s'.nor } := pageFlush_fields _
  have before := pageFlush_before { s with page := s.page ++ piece }
  refine ⟨rfl, by rw [fields], ?_⟩
  rw [fields, ← h.contents, List.append_assoc]
  exact ⟨_, congrArg (· ++ _) before⟩

section Page

variable {s : Fw} {bytes piece : List UInt8} (h : s.Holds bytes) (full : s.page.length + piece.length = pageSz)
  (fits : s.written + pageSz ≤ s.total)

include h full fits

theorem Holds.wrote_broken (ok : ({ s with page := s.page ++ piece } : Fw).pageFlush.2 = false) (rest : List UInt8) :
    s.Wrote (bytes ++ rest) ({ ({ s with page := s.page ++ piece } : Fw).pageFlush.1 with failed := true }, false) := by
  have flushable := h.fill full fits
  have broken := h.broken piece rest
  have fields := pageFlush_fields { s with page := s.page ++ piece }
  have works := pageFlush_healthy flushable
  refine ⟨by rw [fields], by rw [fields], pageFlush_refused flushable, nofun, fun _ => broken, fun healthy => ?_⟩
  rw [(works healthy).1] at ok
  cases ok

/-- What the call does after a page counts for the session before it. -/
theorem Holds.wrote_flushed {all : List UInt8} {r : Fw × Bool}
    (rest : ({ ({ s with page := s.page ++ piece } : Fw).pageFlush.1 with
      written := ({ s with page := s.page ++ piece } : Fw).pageFlush.1.written + pageSz } : Fw).Wrote all r) :
    s.Wrote all r := by
  have flushable := h.fill full fits
  have fields := pageFlush_fields { s with page := s.page ++ piece }
  have refused := pageFlush_refused flushable
  have works := pageFlush_healthy flushable
  generalize ({ s with page := s.page ++ piece } : Fw).pageFlush = flushed at *
  have total : flushed.1.total = s.total := by rw [fields]
  have active : flushed.1.active = s.active := by rw [fields]
  have failed : flushed.1.failed = s.failed := by rw [fields]
  refine ⟨rest.active.trans active, rest.total.trans total, rest.refused.trans refused, fun done => ?_, rest.lost,
    fun healthy => rest.healthy (works healthy).2⟩
  obtain ⟨holds, same⟩ := rest.accepted done
  exact ⟨holds, same.trans failed⟩

end Page

/-- The loop takes in all of its data, or fails the session. -/
theorem writeLoop_holds (fuel : ℕ) {s : Fw} {bytes : List UInt8} (data : List UInt8)
    (h : s.Holds bytes) (small : bytes.length + data.length ≤ s.total) (enough : data.length ≤ fuel) :
    s.Wrote (bytes ++ data) (writeLoop fuel s data) := by
  induction fuel generalizing s bytes data with
  | zero =>
    obtain rfl : data = [] := List.length_eq_zero_iff.1 (by omega)
    rw [List.append_nil]
    exact h.wrote
  | succ fuel ih =>
    by_cases empty : data.isEmpty = true
    · obtain rfl := List.isEmpty_iff.1 empty
      rw [List.append_nil]
      exact h.wrote
    have pos : 0 < data.length := List.length_pos_iff.2 (by simpa using empty)
    have room := h.page_lt
    have length := h.length
    rw [writeLoop, if_neg empty]
    generalize chunk_eq : min (pageSz - s.page.length) data.length = chunk
    have taken : (data.take chunk).length = chunk := by simp; omega
    have whole : bytes ++ data = bytes ++ data.take chunk ++ data.drop chunk := by
      rw [List.append_assoc, List.take_append_drop]
    have dropped : (data.drop chunk).length = data.length - chunk := List.length_drop ..
    simp only [List.length_append, taken]
    by_cases full : s.page.length + chunk = pageSz
    · rw [if_pos full]
      have fits : s.written + pageSz ≤ s.total := by omega
      rw [← taken] at full
      have flushed := h.flushed full fits
      have broken := fun ok => h.wrote_broken full fits ok data
      have goes_on := @Holds.wrote_flushed s bytes (data.take chunk) h full fits (bytes ++ data)
      have total := congrArg Fw.total (pageFlush_fields { s with page := s.page ++ data.take chunk })
      generalize ({ s with page := s.page ++ data.take chunk } : Fw).pageFlush = result at *
      obtain ⟨s', _ | _⟩ := result
      · exact broken rfl
      · refine goes_on ?_
        rw [whole]
        refine ih (data.drop chunk) (flushed rfl) ?_ (by omega)
        simp only [List.length_append, taken, dropped] at total ⊢
        omega
    · rw [if_neg full, whole]
      have holds := h.buffer chunk (by rw [taken]; omega) small
      obtain ⟨active, total, refused, accepted, lost, healthy⟩ := ih (data.drop chunk) holds
        (by simp only [List.length_append, taken, dropped]; omega) (by omega)
      exact ⟨active, total, refused, accepted, lost, healthy⟩

theorem active_pageFlush (s : Fw) : s.pageFlush.1.active = s.active := by
  unfold pageFlush
  split <;> rfl

theorem active_writeLoop (fuel : ℕ) (s : Fw) (data : List UInt8) :
    (writeLoop fuel s data).1.active = s.active := by
  induction fuel generalizing s data with
  | zero => rfl
  | succ fuel ih =>
    rw [writeLoop]
    split
    · rfl
    dsimp only
    split
    · have flushed := active_pageFlush
        { s with page := s.page ++ data.take (min (pageSz - s.page.length) data.length) }
      split <;> rename_i result <;> rw [result] at flushed
      · exact flushed
      · exact (ih _ _).trans flushed
    · exact ih _ _

theorem active_write (s : Fw) (data : List UInt8) : (s.write data).1.active = s.active := by
  unfold write
  split
  · rfl
  split
  · rfl
  · exact active_writeLoop _ s data

/-! ## Finishing -/

theorem readback_frame (fuel : ℕ) (nor : W25q) (off total : ℕ) (crc : BitVec 16) :
    (readback fuel nor off total crc).1.mem = nor.mem ∧
    (readback fuel nor off total crc).1.refused = nor.refused := by
  induction fuel generalizing nor off crc with
  | zero => exact ⟨rfl, rfl⟩
  | succ fuel ih =>
    rw [readback]
    split
    · dsimp only
      have frame := nor.read_frame off (min (total - off) readChunk)
      rcases got : nor.read off (min (total - off) readChunk) with ⟨nor', _ | buf⟩ <;>
        rw [got] at frame
      · exact frame
      · have rest := ih nor' (off + min (total - off) readChunk) (crc16Ccitt crc buf)
        exact ⟨rest.1.trans frame.1, rest.2.trans frame.2⟩
    · exact ⟨rfl, rfl⟩

/-- A readback that succeeds computes the CRC of the bytes in the array. -/
theorem readback_crc (fuel : ℕ) {nor : W25q} {off total : ℕ} {crc crcV : BitVec 16}
    (enough : total - off ≤ readChunk * fuel)
    (got : (readback fuel nor off total crc).2 = some crcV) :
    crcV = crc16Ccitt crc (Nor.read nor.mem off (total - off)) := by
  induction fuel generalizing nor off crc with
  | zero =>
    have none_left : total - off = 0 := by omega
    rw [none_left, Nor.read_zero]
    exact (Option.some.inj got).symm
  | succ fuel ih =>
    rw [readback] at got
    split at got
    · dsimp only at got
      generalize n_eq : min (total - off) readChunk = n at got
      have frame := nor.read_frame off n
      have value := @W25q.read_eq_some nor off n
      rcases read : nor.read off n with ⟨nor', _ | buf⟩ <;> rw [read] at frame value got
      · exact absurd got (by simp)
      · have rest := ih (by simp only [readChunk] at *; omega) got
        rw [value rfl, frame.1, ← crc16Ccitt_append, ← Nor.read_add] at rest
        rw [rest, show n + (total - (off + n)) = total - off by omega]
    · have none_left : total - off = 0 := by omega
      rw [none_left, Nor.read_zero]
      exact (Option.some.inj got).symm

theorem tlvKeyhashOk_frame (nor : W25q) :
    (tlvKeyhashOk nor).1.mem = nor.mem ∧ (tlvKeyhashOk nor).1.refused = nor.refused := by
  unfold tlvKeyhashOk
  have frame := nor.read_frame 0 32
  rcases header : nor.read 0 32 with ⟨nor₁, _ | hdr⟩ <;> rw [header] at frame
  · exact frame
  dsimp only at frame ⊢
  rcases imageTlvPos hdr imgHdrSize with _ | tlvOff
  · exact frame
  dsimp only
  split
  · exact frame
  · have frame' := nor₁.read_frame tlvOff.toNat
      (min (UInt32.ofNat tlvRead) (UInt32.ofNat slot1Size - tlvOff)).toNat
    split <;> rename_i read <;> rw [read] at frame' <;>
      exact ⟨frame'.1.trans frame.1, frame'.2.trans frame.2⟩

theorem pageFlush_active (s : Fw) (b : Bool) :
    ({ s with active := b } : Fw).pageFlush =
      ({ s.pageFlush.1 with active := b }, s.pageFlush.2) := by
  unfold pageFlush
  split <;> rfl

theorem verify_frame (s : Fw) (crc : Option (BitVec 16)) :
    (s.verify crc).1.nor.mem = s.nor.mem ∧ (s.verify crc).1.nor.refused = s.nor.refused ∧
    (s.verify crc).1.active = s.active := by
  unfold verify
  split
  · exact ⟨rfl, rfl, rfl⟩
  have frame := readback_frame (s.total / readChunk + 1) s.nor 0 s.total 0
  rcases read : readback (s.total / readChunk + 1) s.nor 0 s.total 0 with ⟨nor, _ | crcV⟩ <;>
    rw [read] at frame
  · exact ⟨frame.1, frame.2, rfl⟩
  dsimp only
  have frame' := tlvKeyhashOk_frame nor
  split
  · have frame'' := (tlvKeyhashOk nor).1.read_frame (s.total - 16) 16
    exact ⟨frame''.1.trans (frame'.1.trans frame.1), frame''.2.trans (frame'.2.trans frame.2), rfl⟩
  · exact ⟨frame'.1.trans frame.1, frame'.2.trans frame.2, rfl⟩

theorem verify_ok {s : Fw} {crc : Option (BitVec 16)} (ok : (s.verify crc).2 = true) :
    s.written = s.total ∧
    ∃ crcV, (readback (s.total / readChunk + 1) s.nor 0 s.total 0).2 = some crcV ∧
      ∀ c, crc = some c → crcV = c := by
  unfold verify at ok
  by_cases full : s.written = s.total
  · rw [if_neg (by simpa using full)] at ok
    rcases read : readback (s.total / readChunk + 1) s.nor 0 s.total 0 with ⟨nor, _ | crcV⟩ <;>
      rw [read] at ok
    · exact absurd ok (by simp)
    refine ⟨full, crcV, rfl, ?_⟩
    rintro c rfl
    by_contra differ
    simp [differ] at ok
  · rw [if_pos full] at ok
    exact absurd ok (by simp)

theorem finish_eq {s : Fw} (active : s.active = true) (failed : s.failed = false)
    (crc : Option (BitVec 16)) :
    s.finish crc =
      if s.pageFlush.2 then
        verify { s.pageFlush.1 with active := false, written := s.pageFlush.1.written + s.page.length } crc
      else ({ s.pageFlush.1 with active := false }, false) := by
  rw [finish, if_neg (by simp [active])]
  dsimp only
  rw [if_neg (by simp [failed]), pageFlush_active]
  rcases s.pageFlush with ⟨s', _ | _⟩ <;> rfl

/-- A session that is not running or has failed is turned down without touching the driver. -/
theorem finish_idle {s : Fw} (idle : s.active = true → s.failed = true) (crc : Option (BitVec 16)) :
    (s.finish crc).1.nor = s.nor ∧ (s.finish crc).2 = false := by
  unfold finish
  cases active : s.active with
  | false => exact ⟨rfl, rfl⟩
  | true =>
    dsimp only [Bool.not_true, Bool.false_eq_true]
    rw [if_neg (by simp), if_pos (idle active)]
    exact ⟨rfl, rfl⟩

theorem finish_active (s : Fw) (crc : Option (BitVec 16)) : (s.finish crc).1.active = false := by
  cases active : s.active with
  | false => rw [finish, if_pos (by simp [active])]; exact active
  | true =>
    cases failed : s.failed with
    | true => rw [finish, if_neg (by simp [active])]; dsimp only; rw [if_pos failed]
    | false =>
      rw [finish_eq active failed]
      split
      · rw [(verify_frame ..).2.2]
      · rfl

theorem readback_healthy (fuel : ℕ) {nor : W25q} (healthy : nor.plan = []) (off : ℕ) {total : ℕ}
    (chip : total ≤ W25q.chipSize) (crc : BitVec 16) :
    ∃ crcV, readback fuel nor off total crc = (nor, some crcV) := by
  induction fuel generalizing off crc with
  | zero => exact ⟨crc, rfl⟩
  | succ fuel ih =>
    rw [readback]
    split
    · have pos : 0 < min (total - off) readChunk := by
        simp only [readChunk]
        omega
      dsimp only
      rw [W25q.read_healthy healthy pos (by omega)]
      exact ih _ _
    · exact ⟨crc, rfl⟩

/-- All that `finish` does to the array is to program the tail page. -/
theorem finish_nor {s : Fw} (active : s.active = true) (failed : s.failed = false)
    (crc : Option (BitVec 16)) :
    (s.finish crc).1.nor.mem = s.pageFlush.1.nor.mem ∧
    (s.finish crc).1.nor.refused = s.pageFlush.1.nor.refused := by
  rw [finish_eq active failed]
  split
  · exact ⟨(verify_frame ..).1, (verify_frame ..).2.1⟩
  · exact ⟨rfl, rfl⟩

theorem finish_ok {s : Fw} {crc : Option (BitVec 16)} (ok : (s.finish crc).2 = true) :
    s.active = true ∧ s.failed = false ∧ s.pageFlush.2 = true ∧
    s.written + s.page.length = s.total ∧
    ∃ crcV, (readback (s.total / readChunk + 1) s.pageFlush.1.nor 0 s.total 0).2 = some crcV ∧
      ∀ c, crc = some c → crcV = c := by
  have running : s.active = true ∧ s.failed = false := by
    by_contra idle
    have turnedDown := (finish_idle (s := s) (by simpa using idle) crc).2
    rw [ok] at turnedDown
    exact absurd turnedDown (by simp)
  obtain ⟨active, failed⟩ := running
  have fields := pageFlush_fields s
  have written : s.pageFlush.1.written = s.written := by rw [fields]
  have total : s.pageFlush.1.total = s.total := by rw [fields]
  rw [finish_eq active failed] at ok
  split at ok
  · rename_i flushed
    obtain ⟨full, checked⟩ := verify_ok ok
    simp only [written, total] at full checked
    exact ⟨active, failed, flushed, full, checked⟩
  · exact absurd ok (by simp)

/-- A `finish` that succeeds was given exactly `total` bytes, and their CRC; the rest of slot1 is
still erased. -/
theorem finish_holds {s : Fw} {bytes : List UInt8} {crc : Option (BitVec 16)}
    (ok : (s.finish crc).2 = true) (h : s.Holds bytes) :
    Nor.read (s.finish crc).1.nor.mem 0 s.total = bytes ∧ bytes.length = s.total ∧
    (∀ c, crc = some c → c = crc16Ccitt 0 bytes) ∧
    Nor.Erased (s.finish crc).1.nor.mem s.total (slot1Size - s.total) := by
  obtain ⟨active, failed, flushed, full, crcV, read, same⟩ := finish_ok ok
  obtain ⟨contents, blank⟩ := pageFlush_mem h.flushable flushed
  rw [full, h.contents] at contents
  rw [full] at blank
  rw [(finish_nor active failed crc).1]
  have value := readback_crc _ (by simp only [readChunk]; omega) read
  rw [Nat.sub_zero, contents] at value
  exact ⟨contents, h.length.trans full, fun c given => (same c given).symm.trans value, blank⟩

/-! ## Starting -/

/-- A start either leaves the session alone, or begins one on an erased slot. -/
theorem start_cases (s : Fw) (total : ℕ) (keyhash : Option (List UInt8)) :
    (s.start total keyhash).1.nor.refused = s.nor.refused ∧
    ((s.start total keyhash).2 = 0 → s.active = false ∧ (s.start total keyhash).1.Holds []) ∧
    ((s.start total keyhash).2 ≠ 0 → (s.start total keyhash).1.active = s.active ∧
      (s.active = true → (s.start total keyhash).1 = s)) := by
  unfold start
  split
  · exact ⟨rfl, by simp, by simp⟩
  rename_i idle
  split
  · exact ⟨rfl, by simp, by simp⟩
  rename_i size
  split
  · exact ⟨rfl, by simp, by simp⟩
  obtain ⟨k, _, mem, all⟩ := s.nor.erase_mem 0 slot1Size
  have refused := s.nor.erase_refused 0 slot1Size
  rcases erased : s.nor.erase 0 slot1Size with ⟨nor, _ | _⟩ <;> rw [erased] at mem all refused
  · exact ⟨refused, by simp, fun _ => ⟨rfl, fun active => absurd active idle⟩⟩
  · have sized : 64 ≤ total ∧ total ≤ slot1Size := by omega
    refine ⟨refused, fun _ => ⟨by simpa using idle, ⟨sized, rfl, ?_, Nat.zero_le _, rfl, ?_⟩⟩, by simp⟩
    · exact (by decide : 0 < pageSz)
    · rw [all rfl] at mem
      dsimp only at mem ⊢
      rw [mem]
      exact Nor.erased_erase _ 0 slot1Size

theorem start_fields {s : Fw} {total : ℕ} {keyhash : Option (List UInt8)}
    (started : (s.start total keyhash).2 = 0) :
    (s.start total keyhash).1.active = true ∧ (s.start total keyhash).1.total = total := by
  unfold start at started ⊢
  split at started
  · simp at started
  split at started
  · simp at started
  split at started
  · simp at started
  rename_i idle size key
  rw [if_neg idle, if_neg size, if_neg key]
  rcases erased : s.nor.erase 0 slot1Size with ⟨nor, _ | _⟩
  · rw [erased] at started
    simp at started
  · exact ⟨rfl, rfl⟩

end Fw

/-! ## Runs -/

/-- A call of the session interface. -/
inductive FwOp where
  | start (total : ℕ) (keyhash : Option (List UInt8))
  | write (data : List UInt8)
  | abort
  | finish (crc : Option (BitVec 16))

/-- The session, and the data of every write it has accepted since its last start. -/
structure FwRun where
  fw : Fw
  accepted : List UInt8

namespace FwRun

/-- One call of a session. -/
def step (r : FwRun) : FwOp → FwRun
  | .start total keyhash =>
    let (fw, rc) := r.fw.start total keyhash
    { fw, accepted := if rc = 0 then [] else r.accepted }
  | .write data =>
    let (fw, ok) := r.fw.write data
    { fw, accepted := if ok then r.accepted ++ data else r.accepted }
  | .abort => { r with fw := r.fw.abort }
  | .finish crc => { r with fw := (r.fw.finish crc).1 }

/-- A sequence of calls after reset. -/
def run (nor : W25q) (ops : List FwOp) : FwRun := ops.foldl step ⟨.new nor, []⟩

/-- While a session runs without failure it holds the accepted data. -/
def Sound (r : FwRun) : Prop := r.fw.active = true → r.fw.failed = false → r.fw.Holds r.accepted

theorem step_sound {r : FwRun} (h : r.Sound) (op : FwOp) :
    (r.step op).Sound ∧ (r.step op).fw.nor.refused = r.fw.nor.refused := by
  cases op with
  | start total keyhash =>
    obtain ⟨refused, started, rejected⟩ := r.fw.start_cases total keyhash
    refine ⟨fun active failed => ?_, refused⟩
    by_cases ok : (r.fw.start total keyhash).2 = 0
    · simpa [step, ok] using (started ok).2
    · obtain ⟨same, unchanged⟩ := rejected ok
      have running : r.fw.active = true := same ▸ active
      simp only [step, unchanged running, ok, if_false] at failed ⊢
      exact h running failed
  | write data =>
    simp only [step, Fw.write]
    split
    · rename_i idle
      exact ⟨h, rfl⟩
    rename_i running
    simp only [Bool.or_eq_true, Bool.not_eq_true', not_or, Bool.not_eq_false, Bool.not_eq_true] at running
    have holds := h running.1 running.2
    split
    · exact ⟨fun _ failed => by simp at failed, rfl⟩
    rename_i small
    have length := holds.length
    have wrote := Fw.writeLoop_holds data.length data holds (by omega) (Nat.le_refl _)
    refine ⟨fun _ notFailed => ?_, wrote.refused⟩
    by_cases ok : (Fw.writeLoop data.length r.fw data).2 = true
    · simpa [ok] using (wrote.accepted ok).1
    · have broken := wrote.lost (by simpa using ok)
      rw [broken.failed] at notFailed
      exact absurd notFailed (by simp)
  | abort => exact ⟨fun active _ => by simp [step, Fw.abort] at active, rfl⟩
  | finish crc =>
    refine ⟨fun active _ => ?_, ?_⟩
    · simp only [step, Fw.finish_active] at active
      exact absurd active (by simp)
    by_cases running : r.fw.active = true ∧ r.fw.failed = false
    · have holds := h running.1 running.2
      exact (Fw.finish_nor running.1 running.2 crc).2.trans (Fw.pageFlush_refused holds.flushable)
    · exact congrArg W25q.refused (Fw.finish_idle (by simpa using running) crc).1

theorem run_sound (nor : W25q) (ops : List FwOp) :
    (run nor ops).Sound ∧ (run nor ops).fw.nor.refused = nor.refused := by
  refine Run.kept (Q := fun _ (r : FwRun) => r.Sound ∧ r.fw.nor.refused = nor.refused) ?_ ?_ ops
  · exact ⟨fun active _ => by simp [Fw.new] at active, rfl⟩
  · rintro before r op ⟨sound, refused⟩
    obtain ⟨next, same⟩ := step_sound sound op
    exact ⟨next, same.trans refused⟩

end FwRun

/-- In every sequence of calls, whatever the bus does: a running session that has not failed holds
exactly the data it accepted, in whole pages of slot1 and then in the page buffer, and the rest of
slot1 is erased; no page program is turned down; and a `finish` that succeeds leaves exactly the
accepted data in slot1, of the announced length and with the given CRC. -/
theorem fw_session_contents (nor : W25q) (ops : List FwOp) :
    let r := FwRun.run nor ops
    (r.fw.active = true → r.fw.failed = false →
      (64 ≤ r.fw.total ∧ r.fw.total ≤ slot1Size) ∧ r.fw.written % 256 = 0 ∧
      r.fw.page.length < 256 ∧ r.fw.written + r.fw.page.length ≤ r.fw.total ∧
      Nor.read r.fw.nor.mem 0 r.fw.written ++ r.fw.page = r.accepted ∧
      ∀ a, r.fw.written ≤ a → a < slot1Size → r.fw.nor.mem a = 0xFF) ∧
    r.fw.nor.refused = nor.refused ∧
    ∀ crc, (r.fw.finish crc).2 = true →
      Nor.read (r.fw.finish crc).1.nor.mem 0 r.fw.total = r.accepted ∧
      r.accepted.length = r.fw.total ∧
      ∀ c, crc = some c → c = crc16Ccitt 0 r.accepted := by
  intro r
  obtain ⟨sound, refused⟩ : r.Sound ∧ r.fw.nor.refused = nor.refused := FwRun.run_sound nor ops
  refine ⟨fun active failed => ?_, refused, fun crc ok => ?_⟩
  · have h := sound active failed
    exact ⟨h.size, h.aligned, h.page_lt, h.fits, h.contents,
      fun a lo hi => h.blank a lo (by omega)⟩
  · obtain ⟨active, failed, _⟩ := Fw.finish_ok ok
    obtain ⟨contents, length, crcOk, _⟩ := Fw.finish_holds ok (sound active failed)
    exact ⟨contents, length, crcOk⟩

end IoEdgeHub
