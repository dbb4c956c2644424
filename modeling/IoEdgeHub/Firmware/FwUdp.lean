import IoEdgeHub.Firmware.FwTrailer

/-!
# The firmware channel over UDP

`fw_udp_cmd` of `net.rs`.  DATA_V2 carries an offset and is written only if the offset is the number of
bytes received so far, in pieces of at most 256 bytes with a yield after each; the host goes back to the
offset in the reply.  `Fw.Takes` says that the session holds a first part of the image, also after a
failed flash write; every DATA_V2 of the image keeps it.  During a yield, and between two datagrams,
other tasks may use the flash outside slot1.
-/

namespace IoEdgeHub

open Bytes

namespace Fw

/-- The DATA_V2 loop.  `others n` is what other tasks do to the flash while `n` bytes are still to be
written. -/
def writePieces (others : ℕ → W25q → W25q) : ℕ → Fw → List UInt8 → Fw
  | 0, s, _ => s
  | fuel + 1, s, data =>
    if data.isEmpty then s
    else
      let n := min data.length 256
      let s := (s.write (data.take n)).1
      let data := data.drop n
      if data.isEmpty then s
      else writePieces others fuel { s with nor := others data.length s.nor } data

end Fw

/-- The session and the bytes of the reply, none for a datagram that is dropped; `none` for a command of
another channel. -/
def fwUdpCmd (others : ℕ → W25q → W25q) (s : Fw) (cmd : UInt8) (payload : List UInt8) :
    Option (Fw × List UInt8) :=
  if cmd = 0x01 then
    if payload.length < 4 then some (s, [])
    else
      let kh := if payload.length ≥ 4 + 32 then some ((payload.drop 4).take 32) else none
      let (s, rc) := s.start (leNat (payload.take 4)) kh
      some (s, [0x01, if rc = 0 then 1 else if rc = -2 then 2 else 0] ++ putLe16 1400)
  else if cmd = 0x02 then
    if payload.length > 511 then some (s, [])
    else
      let s := (s.write payload).1
      some (s, 0x02 :: toLe 4 s.received)
  else if cmd = 0x06 then
    if payload.length < 5 then some (s, [])
    else
      let data := payload.drop 4
      let s := if leNat (payload.take 4) = s.received then s.writePieces others data.length data else s
      some (s, 0x06 :: toLe 4 s.received)
  else if cmd = 0x03 then
    match payload with
    | test :: c0 :: c1 :: _ =>
      match s.finish (some (getLe16 c0 c1).toBitVec) with
      | (s, false) => some (s, [0x03, 0])
      | (s, true) =>
        let (nor, ok) := bootSetPending s.nor (test = 0)
        some ({ s with nor }, [0x03, if ok then 1 else 0])
    | _ => some (s, [])
  else none

namespace Fw

/-! ## The flash writes of a call -/

/-- The outcomes of the page programs of `writeLoop`. -/
def loopFlushes : ℕ → Fw → List UInt8 → List Bool
  | 0, _, _ => []
  | fuel + 1, s, data =>
    if data.isEmpty then []
    else
      let chunk := min (pageSz - s.page.length) data.length
      let s := { s with page := s.page ++ data.take chunk }
      let data := data.drop chunk
      if s.page.length = pageSz then
        match s.pageFlush with
        | (_, false) => [false]
        | (s, true) => true :: loopFlushes fuel { s with written := s.written + pageSz } data
      else loopFlushes fuel s data

/-- Which page programs of a write succeed. -/
def flushes (s : Fw) (data : List UInt8) : List Bool :=
  if !s.active || s.failed then []
  else if s.written + s.page.length + data.length > s.total then []
  else loopFlushes data.length s data

/-- The outcomes of the page programs of `writePieces`. -/
def pieceFlushes (others : ℕ → W25q → W25q) : ℕ → Fw → List UInt8 → List Bool
  | 0, _, _ => []
  | fuel + 1, s, data =>
    if data.isEmpty then []
    else
      let n := min data.length 256
      let rest := data.drop n
      let s' := (s.write (data.take n)).1
      s.flushes (data.take n) ++
        if rest.isEmpty then [] else pieceFlushes others fuel { s' with nor := others rest.length s'.nor } rest

/-- The loop reports a failure exactly if a page program failed. -/
theorem writeLoop_snd (fuel : ℕ) (s : Fw) (data : List UInt8) :
    (writeLoop fuel s data).2 = (loopFlushes fuel s data).all id := by
  induction fuel generalizing s data with
  | zero => rfl
  | succ fuel ih =>
    rw [writeLoop, loopFlushes]
    dsimp only
    split
    · rfl
    split
    · rcases pageFlush _ with ⟨s', _ | _⟩
      · rfl
      · exact ih _ _
    · exact ih _ _

/-! ## A session on an image -/

/-- The session was started for `image` and holds its first `received` bytes; if it has not failed it is
ready for the next ones. -/
structure Takes (s : Fw) (image : List UInt8) : Prop where
  active : s.active = true
  total : s.total = image.length
  size : image.length ≤ slot1Size
  fits : s.received ≤ image.length
  contents : Nor.read s.nor.mem 0 s.written ++ s.page = image.take s.received
  holds : s.failed = false → s.Holds (image.take s.received)

variable {s : Fw} {image : List UInt8}

/-- What others do outside slot1 makes no difference. -/
theorem Takes.elsewhere (takes : s.Takes image) {nor : W25q} (same : ∀ a < slot1Size, nor.mem a = s.nor.mem a) :
    ({ s with nor } : Fw).Takes image := by
  have inside : s.written ≤ slot1Size := by
    have := takes.fits
    have := takes.size
    unfold received at *
    omega
  have read : Nor.read nor.mem 0 s.written = Nor.read s.nor.mem 0 s.written :=
    Nor.read_congr fun a _ below => same a (by omega)
  have contents : Nor.read nor.mem 0 s.written ++ s.page = image.take s.received := by
    rw [read, takes.contents]
  refine ⟨takes.active, takes.total, takes.size, takes.fits, contents, fun running => ?_⟩
  have holds := takes.holds running
  refine ⟨holds.size, holds.aligned, holds.page_lt, holds.fits, contents, fun a from_ below => ?_⟩
  rw [same a (by omega)]
  exact holds.blank a from_ below

theorem take_append_slice {r : ℕ} {data : List UInt8} (slice : data <+: image.drop r) :
    image.take r ++ data = image.take (r + data.length) := by
  rw [List.take_add, ← List.prefix_iff_eq_take.1 slice]

/-- A session that was given the next `n` bytes of the image has them all, or has failed with a first
part of the image. -/
theorem Takes.of_wrote (takes : s.Takes image) {n : ℕ} (room : s.received + n ≤ image.length)
    {r : Fw × Bool} (wrote : s.Wrote (image.take (s.received + n)) r) :
    r.1.Takes image ∧ (r.2 = true → r.1.received = s.received + n) ∧ (r.2 = false → r.1.failed = true) := by
  obtain ⟨s', ok⟩ := r
  have active : s'.active = true := wrote.active.trans takes.active
  have total : s'.total = image.length := wrote.total.trans takes.total
  cases ok with
  | true =>
    obtain ⟨holds, -⟩ := wrote.accepted rfl
    have grown : s'.received = s.received + n := by
      rw [received, ← holds.length, List.length_take, Nat.min_eq_left room]
    have fits : s'.received ≤ image.length := by omega
    rw [← grown] at holds
    exact ⟨⟨active, total, takes.size, fits, holds.contents, fun _ => holds⟩, fun _ => grown, nofun⟩
  | false =>
    obtain ⟨broken, page, contents⟩ := wrote.lost rfl
    dsimp only at broken page contents
    have count : s'.received = s'.written := by rw [received, page]; rfl
    have part : Nor.read s'.nor.mem 0 s'.written <+: image := contents.trans (List.take_prefix _ _)
    have fits := part.length_le
    have value := List.prefix_iff_eq_take.1 part
    rw [Nor.length_read, ← count] at fits
    rw [Nor.length_read] at value
    refine ⟨⟨active, total, takes.size, fits, ?_, fun running => ?_⟩, nofun, fun _ => broken⟩
    · rw [page, List.append_nil, count, value]
    · rw [broken] at running
      cases running

/-- A write of the next bytes of the image, or any write to a failed session. -/
theorem Takes.write (takes : s.Takes image) {data : List UInt8}
    (next : s.failed = true ∨ data <+: image.drop s.received) :
    (s.write data).1.Takes image ∧
      ((s.write data).1.failed = true ∨
        s.failed = false ∧ (s.write data).1.received = s.received + data.length) ∧
      ((∀ ok ∈ s.flushes data, ok = true) → s.received ≤ (s.write data).1.received) := by
  cases failed : s.failed with
  | true =>
    have refused : s.write data = (s, false) := if_pos (by simp [failed])
    rw [refused]
    exact ⟨takes, .inl failed, fun _ => Nat.le_refl _⟩
  | false =>
    have slice := next.resolve_left (by simp [failed])
    have length : (image.take s.received).length = s.received := by
      rw [List.length_take, Nat.min_eq_left takes.fits]
    have room : s.received + data.length ≤ image.length := by
      have := slice.length_le
      have := takes.fits
      rw [List.length_drop] at *
      omega
    have running : ¬(!s.active || s.failed) = true := by simp [takes.active, failed]
    have small : ¬ s.written + s.page.length + data.length > s.total := by
      have := takes.total
      unfold received at room
      omega
    rw [Fw.write, flushes, if_neg running, if_neg running, if_neg small, if_neg small]
    have wrote := writeLoop_holds data.length data (takes.holds failed)
      (by rw [length, takes.total]; exact room) (Nat.le_refl _)
    rw [take_append_slice slice] at wrote
    obtain ⟨takes', grown, lost⟩ := takes.of_wrote room wrote
    refine ⟨takes', ?_, fun all => ?_⟩
    · cases ok : (writeLoop data.length s data).2 with
      | true => exact .inr ⟨rfl, grown ok⟩
      | false => exact .inl (lost ok)
    · have ok : (writeLoop data.length s data).2 = true := by
        rw [writeLoop_snd]
        exact List.all_eq_true.2 all
      rw [grown ok]
      exact Nat.le_add_right _ _

/-- A datagram's data is written piece by piece, up to a flash write that fails. -/
theorem Takes.writePieces {others : ℕ → W25q → W25q}
    (apart : ∀ n w, ∀ a < slot1Size, (others n w).mem a = w.mem a) (fuel : ℕ) (takes : s.Takes image)
    {data : List UInt8} (next : s.failed = true ∨ data <+: image.drop s.received) :
    (s.writePieces others fuel data).Takes image ∧
      ((∀ ok ∈ s.pieceFlushes others fuel data, ok = true) →
        s.received ≤ (s.writePieces others fuel data).received) := by
  induction fuel generalizing s data with
  | zero => exact ⟨takes, fun _ => Nat.le_refl _⟩
  | succ fuel ih =>
    rw [Fw.writePieces, pieceFlushes]
    split
    · exact ⟨takes, fun _ => Nat.le_refl _⟩
    dsimp only
    generalize pieces : min data.length 256 = n
    have taken : (data.take n).length = n := by simp; omega
    obtain ⟨takes₁, grown, kept⟩ := takes.write (next.imp_right (List.take_prefix n data).trans)
    split
    · rw [List.append_nil]
      exact ⟨takes₁, kept⟩
    -- the next piece starts where this one ended, unless the session has failed
    have next₁ : (s.write (data.take n)).1.failed = true ∨
        data.drop n <+: image.drop (s.write (data.take n)).1.received := by
      refine grown.imp_right ?_
      rintro ⟨running, count⟩
      obtain ⟨rest, whole⟩ := next.resolve_left (by simp [running])
      refine ⟨rest, ?_⟩
      rw [count, taken, ← List.drop_drop, ← whole, List.drop_append_of_le_length (by omega)]
    obtain ⟨takes₂, kept₂⟩ := ih (takes₁.elsewhere (apart (data.drop n).length _)) next₁
    refine ⟨takes₂, fun all => ?_⟩
    have first := kept fun ok member => all ok (List.mem_append_left _ member)
    have rest := kept₂ fun ok member => all ok (List.mem_append_right _ member)
    exact first.trans rest

/-- A successful START begins a session on an image of the announced length. -/
theorem start_takes {s₀ : Fw} {keyhash : Option (List UInt8)} (started : (s₀.start image.length keyhash).2 = 0) :
    (s₀.start image.length keyhash).1.Takes image := by
  obtain ⟨-, holds⟩ := (start_cases s₀ image.length keyhash).2.1 started
  obtain ⟨active, total⟩ := start_fields started
  have none_yet : (s₀.start image.length keyhash).1.received = 0 := holds.length.symm
  refine ⟨active, total, ?_, by omega, ?_, fun _ => ?_⟩
  · rw [← total]
    exact holds.size.2
  · rw [holds.contents, none_yet, List.take_zero]
  · rwa [none_yet, List.take_zero]

/-- The status byte of the reply to START is 1 exactly if the session has begun. -/
theorem fwUdpCmd_start {others : ℕ → W25q → W25q} {s₀ s : Fw} {payload : List UInt8}
    (announced : leNat (payload.take 4) = image.length)
    (started : fwUdpCmd others s₀ 0x01 payload = some (s, [0x01, 0x01, 0x78, 0x05])) : s.Takes image := by
  unfold fwUdpCmd at started
  rw [if_pos rfl] at started
  split at started
  · simp at started
  rw [announced] at started
  dsimp only at started
  generalize (if payload.length ≥ 4 + 32 then some ((payload.drop 4).take 32) else none) = keyhash at started
  obtain ⟨rfl, reply⟩ := Prod.mk.inj (Option.some.inj started)
  apply start_takes
  by_contra refused
  rw [if_neg refused] at reply
  split at reply
  · simp at reply
  · simp at reply

end Fw

/-! ## Datagrams -/

/-- A DATA_V2 datagram with bytes of the image from its offset on, and what other tasks do to the flash
before it and at its yields, all of it outside slot1. -/
structure DataV2 (image : List UInt8) where
  off : ℕ
  data : List UInt8
  before : W25q → W25q
  others : ℕ → W25q → W25q
  nonempty : data ≠ []
  slice : data <+: image.drop off
  apart : ∀ w, ∀ a < slot1Size, (before w).mem a = w.mem a ∧ ∀ n, (others n w).mem a = w.mem a

namespace DataV2

variable {image : List UInt8}

/-- The session when the datagram arrives. -/
def arrive (d : DataV2 image) (s : Fw) : Fw := { s with nor := d.before s.nor }

/-- What the channel makes of the datagram. -/
def send (d : DataV2 image) (s : Fw) : Option (Fw × List UInt8) :=
  fwUdpCmd d.others (d.arrive s) 0x06 (toLe 4 d.off ++ d.data)

/-- The outcomes of the flash writes it leads to. -/
def flushes (d : DataV2 image) (s : Fw) : List Bool :=
  if d.off = s.received then (d.arrive s).pieceFlushes d.others d.data.length d.data else []

theorem send_eq (d : DataV2 image) {s : Fw} (size : image.length ≤ slot1Size) :
    let s' := if d.off = s.received then (d.arrive s).writePieces d.others d.data.length d.data else d.arrive s
    d.send s = some (s', 0x06 :: toLe 4 s'.received) := by
  intro s'
  have pos := List.length_pos_iff.2 d.nonempty
  have inside : d.off < 256 ^ 4 := by
    have := d.slice.length_le
    rw [List.length_drop] at this
    have : slot1Size < 256 ^ 4 := by decide
    omega
  have head : (toLe 4 d.off ++ d.data).take 4 = toLe 4 d.off := List.take_left' (length_toLe ..)
  have tail : (toLe 4 d.off ++ d.data).drop 4 = d.data := List.drop_left' (length_toLe ..)
  have long : ¬(toLe 4 d.off ++ d.data).length < 5 := by
    rw [List.length_append, length_toLe]
    omega
  unfold send fwUdpCmd
  rw [if_neg (by decide), if_neg (by decide), if_pos rfl, if_neg long, head, tail,
    leNat_toLe_of_lt inside]
  rfl

/-- A datagram in any order keeps the session on the image and is answered with the bytes received. -/
theorem send_takes (d : DataV2 image) {s : Fw} (takes : s.Takes image) :
    ∃ s', d.send s = some (s', 0x06 :: toLe 4 s'.received) ∧ s'.Takes image ∧
      ((∀ ok ∈ d.flushes s, ok = true) → s.received ≤ s'.received) := by
  refine ⟨_, d.send_eq takes.size, ?_⟩
  have arrived : (d.arrive s).Takes image := takes.elsewhere fun a below => (d.apart s.nor a below).1
  unfold flushes
  split
  · rename_i expected
    have slice : d.data <+: image.drop (d.arrive s).received := expected ▸ d.slice
    exact arrived.writePieces (fun n w a below => (d.apart w a below).2 n) d.data.length (.inr slice)
  · exact ⟨arrived, fun _ => Nat.le_refl _⟩

/-- The session after the datagrams that arrived. -/
def deliver (s : Fw) (ds : List (DataV2 image)) : Option Fw :=
  ds.foldlM (fun s d => (d.send s).map Prod.fst) s

theorem deliver_takes {s : Fw} (takes : s.Takes image) (ds : List (DataV2 image)) :
    ∃ t, deliver s ds = some t ∧ t.Takes image := by
  refine Run.served (Q := fun _ (s : Fw) => s.Takes image) takes ?_ ds
  intro before s d takes
  obtain ⟨s', sent, takes', -⟩ := d.send_takes takes
  exact ⟨s', by rw [sent]; rfl, takes'⟩

/-- After a successful START, DATA_V2 datagrams of the image may be lost, repeated and reordered in any
way and cut into slices of any length.  The session always holds exactly the first `received` bytes of
the image, every reply carries `received`, and it only goes back when a flash write fails. -/
theorem deliver_holds_prefix {others : ℕ → W25q → W25q} {s₀ s : Fw} {payload : List UInt8}
    (announced : leNat (payload.take 4) = image.length)
    (started : fwUdpCmd others s₀ 0x01 payload = some (s, [0x01, 0x01, 0x78, 0x05])) (ds : List (DataV2 image)) :
    ∃ t, deliver s ds = some t ∧ Nor.read t.nor.mem 0 t.written ++ t.page = image.take t.received ∧
      ∀ d : DataV2 image, ∃ t' reply, d.send t = some (t', 0x06 :: reply) ∧ leNat reply = t'.received ∧
        ((∀ ok ∈ d.flushes t, ok = true) → t.received ≤ t'.received) := by
  obtain ⟨t, ran, takes⟩ := deliver_takes (Fw.fwUdpCmd_start announced started) ds
  refine ⟨t, ran, takes.contents, fun d => ?_⟩
  obtain ⟨t', sent, takes', kept⟩ := d.send_takes takes
  refine ⟨t', _, sent, leNat_toLe_of_lt ?_, kept⟩
  have := takes'.fits
  have := takes'.size
  have : slot1Size < 256 ^ 4 := by decide
  omega

/-- An image of two pages. -/
def twoPages : List UInt8 := (List.range 512).map UInt8.ofNat

/-- One page of it, on a quiet device. -/
def pageAt (off : ℕ) (inside : off < 512) : DataV2 twoPages where
  off
  data := (twoPages.drop off).take 256
  before := id
  others _ := id
  nonempty := by
    apply List.ne_nil_of_length_pos
    rw [List.length_take, List.length_drop, twoPages, List.length_map, List.length_range]
    omega
  slice := List.take_prefix ..
  apart _ _ _ := ⟨rfl, fun _ => rfl⟩

/-- The second page comes first and is dropped; then both pages arrive, the first one twice. -/
theorem deliver_holds_prefix_pages :
    ∃ s, fwUdpCmd (fun _ => id) (.new ⟨fun _ => 0xFF, [], 0⟩) 0x01 [0, 2, 0, 0] =
        some (s, [0x01, 0x01, 0x78, 0x05]) ∧
      ∃ t, deliver s [pageAt 256 (by decide), pageAt 0 (by decide), pageAt 0 (by decide), pageAt 256 (by decide)] =
          some t ∧ t.received = 512 ∧ Nor.read t.nor.mem 0 t.written ++ t.page = twoPages := by
  have started : fwUdpCmd (fun _ => id) (.new ⟨fun _ => 0xFF, [], 0⟩) 0x01 [0, 2, 0, 0] =
      some (((Fw.new ⟨fun _ => 0xFF, [], 0⟩).start 512 none).1, [0x01, 0x01, 0x78, 0x05]) := by
    have begun : ((Fw.new ⟨fun _ => 0xFF, [], 0⟩).start 512 none).2 = 0 :=
      (Fw.start_healthy rfl rfl (by decide) (by decide)).1
    unfold fwUdpCmd
    rw [if_pos rfl, if_neg (by decide)]
    dsimp only
    rw [if_neg (by decide), show leNat (List.take 4 [0, 2, 0, 0]) = 512 from rfl, begun]
    rfl
  let ds := [pageAt 256 (by decide), pageAt 0 (by decide), pageAt 0 (by decide), pageAt 256 (by decide)]
  have whole : (deliver ((Fw.new ⟨fun _ => 0xFF, [], 0⟩).start 512 none).1 ds).map Fw.received = some 512 := by
    decide +kernel
  obtain ⟨t, ran, holds, -⟩ := deliver_holds_prefix (by decide +kernel : leNat _ = twoPages.length) started ds
  rw [ran] at whole
  have received : t.received = 512 := Option.some.inj whole
  refine ⟨_, started, t, ran, received, ?_⟩
  rw [holds, received]
  exact List.take_of_length_le (by rw [twoPages, List.length_map, List.length_range])

end DataV2

end IoEdgeHub
