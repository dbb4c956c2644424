import IoEdgeHub.Firmware.Ftpd
import IoEdgeHub.Lib.Squeeze

/-!
# Uploads in ASCII type

`cmd_stor` turns CR LF into LF inside the 512 byte buffer it reads into, and holds back a CR at the
end of a read. `convertAscii_eq` says what one read becomes, `storLoop_rounds` what a whole upload
does. A CR that is held back is never written again, nor is the LF it belongs to: every read that
ends in CR loses one byte of the converted stream (`length_uploaded`), so that the file is the
converted stream exactly when no read ends in CR (`cmdStor_ascii_iff`).
-/

namespace IoEdgeHub

open Bytes (overwrite store store_of_lt take_set take_overwrite)
open Squeeze (dropBefore dropBefore_append dropBefore_concat)

namespace FtpSession

/-! ## What the conversion is for -/

/-- Every CR LF becomes LF; all other bytes stay. -/
def crlfToLf (bytes : List UInt8) : List UInt8 := dropBefore cr lf bytes

@[simp] theorem crlfToLf_pair (rest : List UInt8) : crlfToLf (cr :: lf :: rest) = lf :: crlfToLf rest := by
  simp [crlfToLf, dropBefore, show lf ≠ cr by decide]

theorem crlfToLf_other {b : UInt8} {rest : List UInt8} (single : ¬ (b = cr ∧ rest.head? = some lf)) :
    crlfToLf (b :: rest) = b :: crlfToLf rest := by
  rw [crlfToLf, dropBefore, if_neg single, crlfToLf]

/-! ## One read -/

/-- The part of a read that is converted: an LF after a CR that is held back is skipped. -/
def unskipped (pendingCr : Bool) (read : List UInt8) : List UInt8 :=
  read.drop (if pendingCr && read.head? = some lf then 1 else 0)

/-- What a read is turned into, and whether its last CR is held back. -/
def asciiRound (pendingCr : Bool) (read : List UInt8) : List UInt8 × Bool :=
  let rest := unskipped pendingCr read
  if rest.getLast? = some cr then ((crlfToLf rest).dropLast, true) else (crlfToLf rest, false)

section Compact

variable {n i : ℕ} {buf : Vector UInt8 512}

theorem unread_nil (done : n ≤ i) : (buf.toList.take n).drop i = [] :=
  List.drop_eq_nil_of_le (by simp; omega)

theorem unread_cons (inside : i < n) (bound : i < 512) :
    (buf.toList.take n).drop i = buf[i] :: (buf.toList.take n).drop (i + 1) := by
  rw [List.drop_eq_getElem_cons (by simp; omega)]
  simp

theorem head_unread : ((buf.toList.take n).drop i).head? = if i < n then buf[i]? else none := by
  rw [List.head?_drop, List.getElem?_take]
  simp

/-- The loop appends the conversion of what is left, and leaves the last byte of the read alone. -/
theorem compact_spec (fuel : ℕ) (buf : Vector UInt8 512) (i o : ℕ) (size : n ≤ 512) (behind : o ≤ i)
    (enough : n ≤ i + fuel) :
    ∃ buf' o', compact n fuel buf i o = some (buf', o') ∧
      buf'.toList.take o' = buf.toList.take o ++ crlfToLf ((buf.toList.take n).drop i) ∧
      o' = o + (crlfToLf ((buf.toList.take n).drop i)).length ∧ buf'[n - 1]? = buf[n - 1]? := by
  induction fuel generalizing buf i o with
  | zero =>
    rw [unread_nil (i := i) (by omega)]
    exact ⟨buf, o, rfl, by simp [crlfToLf, dropBefore], rfl, rfl⟩
  | succ fuel ih =>
    rw [compact]
    by_cases inside : i < n
    · have bound : i < 512 := by omega
      rw [if_pos inside, Vector.getElem?_eq_getElem bound, unread_cons inside bound]
      simp only [Option.bind_eq_bind, Option.bind_some]
      have test : (buf[i] = cr && i + 1 < n && buf[i + 1]? = some lf) =
          decide (buf[i] = cr ∧ ((buf.toList.take n).drop (i + 1)).head? = some lf) := by
        rw [head_unread]
        by_cases more : i + 1 < n <;> simp [more]
      rw [test]
      by_cases pair : buf[i] = cr ∧ ((buf.toList.take n).drop (i + 1)).head? = some lf
      · rw [if_pos (decide_eq_true pair), crlfToLf, dropBefore, if_pos pair]
        exact ih buf (i + 1) o (by omega) (by omega)
      · rw [if_neg (by simpa using pair), store_of_lt _ _ (by omega : o < 512), crlfToLf_other pair]
        obtain ⟨buf', o', ran, written, count, last⟩ :=
          ih (buf.set o buf[i]) (i + 1) (o + 1) (by omega) (by omega)
        have unread : ((buf.set o buf[i]).toList.take n).drop (i + 1) = (buf.toList.take n).drop (i + 1) := by
          rw [Vector.toList_set, List.take_set, List.drop_set_of_lt (by omega)]
        rw [unread] at written count
        refine ⟨buf', o', ran, ?_, ?_, ?_⟩
        · rw [written, take_set, List.append_assoc, List.singleton_append]
        · rw [count, List.length_cons]
          omega
        · rw [last, Vector.getElem?_set]
          split
          · rename_i here
            -- the last byte is only ever written over by itself
            obtain rfl : o = i := by omega
            rw [← here, Vector.getElem?_eq_getElem bound]
          · rfl
    · rw [if_neg inside, unread_nil (by omega)]
      exact ⟨buf, o, rfl, by simp [crlfToLf, dropBefore], rfl, rfl⟩

end Compact

theorem crlfToLf_concat_cr (bytes : List UInt8) : crlfToLf (bytes ++ [cr]) = crlfToLf bytes ++ [cr] :=
  dropBefore_concat (by decide) bytes

theorem crlfToLf_ne_nil {bytes : List UInt8} (ends : bytes.getLast? = some cr) : crlfToLf bytes ≠ [] := by
  obtain ⟨front, rfl⟩ := List.getLast?_eq_some_iff.1 ends
  rw [crlfToLf_concat_cr]
  exact List.concat_ne_nil _ _

theorem convertAscii_eq (pendingCr : Bool) (buf : Vector UInt8 512) {bytes : List UInt8} (nonempty : bytes ≠ [])
    (fits : bytes.length ≤ 512) :
    ∃ buf', convertAscii (overwrite buf bytes) bytes.length pendingCr =
        some (buf', (asciiRound pendingCr bytes).1.length, (asciiRound pendingCr bytes).2) ∧
      buf'.toList.take (asciiRound pendingCr bytes).1.length = (asciiRound pendingCr bytes).1 := by
  have held := take_overwrite buf fits
  have positive : 0 < bytes.length := List.length_pos_iff.2 nonempty
  generalize overwrite buf bytes = full at held ⊢
  have same (k : ℕ) (inside : k < bytes.length) : full[k]? = bytes[k]? := by
    rw [← held, List.getElem?_take_of_lt inside, Vector.getElem?_toList]
  have skip : (pendingCr && bytes.length > 0 && full[0] = lf) = (pendingCr && bytes.head? = some lf) := by
    rw [List.head?_eq_getElem?, ← same 0 positive]
    simp [positive]
  unfold convertAscii asciiRound unskipped
  rw [skip]
  generalize (if pendingCr && bytes.head? = some lf then 1 else 0) = start
  obtain ⟨buf', o', ran, written, rfl, last⟩ :=
    compact_spec bytes.length full start 0 fits (Nat.zero_le _) (Nat.le_add_left _ _)
  rw [held, List.take_zero, List.nil_append, Nat.zero_add] at written
  rw [held, Nat.zero_add] at ran
  simp only [ran, Option.bind_eq_bind, Option.bind_some]
  rw [last, same _ (by omega), ← List.getLast?_eq_getElem?]
  by_cases ends : (bytes.drop start).getLast? = some cr
  · have nonempty := List.length_pos_iff.2 (crlfToLf_ne_nil ends)
    rw [if_pos ends]
    rw [List.getLast?_drop] at ends
    split at ends
    · cases ends
    · rename_i before
      rw [if_pos (by simp [ends, nonempty]; omega), List.length_dropLast]
      refine ⟨buf', rfl, ?_⟩
      rw [List.dropLast_eq_take, ← written, List.take_take]
      simp
  · rw [if_neg ends]
    rw [List.getLast?_drop] at ends
    rw [if_neg (by split at ends <;> simp_all)]
    exact ⟨buf', rfl, written⟩

/-! ## A whole upload -/

/-- What the reads of an upload are handed over as. -/
def uploaded (ascii : Bool) : Bool → List (List UInt8) → List UInt8
  | _, [] => []
  | pendingCr, read :: reads =>
    let (bytes, pendingCr) := if ascii then asciiRound pendingCr read else (read, pendingCr)
    bytes ++ uploaded ascii pendingCr reads

/-- The bytes that go to `FtpWriteChunk`. -/
def handed (outs : List FtpOut) : List UInt8 :=
  outs.flatMap fun
    | .staged _ bytes => bytes
    | _ => []

@[simp] theorem handed_append (a b : List FtpOut) : handed (a ++ b) = handed a ++ handed b :=
  List.flatMap_append

@[simp] theorem handed_nil : handed [] = [] := rfl

@[simp] theorem handed_line (text : List Char) (outs : List FtpOut) : handed (.line text :: outs) = handed outs :=
  rfl

@[simp] theorem handed_rpcSend (rpc : Rpc) (cmd : StorageCmd) : handed (rpcSend rpc cmd) = [] := by
  unfold rpcSend
  split <;> rfl

/-- One read of either type, as it stands in the buffer. -/
theorem wlen_eq (s : FtpSession) (pendingCr : Bool) (buf : Vector UInt8 512) (read : DataRead) :
    ∃ buf' bytes pendingCr',
      s.wlen (overwrite buf read.bytes) read.bytes.length pendingCr = some (buf', bytes.length, pendingCr') ∧
      (if s.typeAscii then asciiRound pendingCr read.bytes else (read.bytes, pendingCr)) = (bytes, pendingCr') ∧
      buf'.toList.take bytes.length = bytes := by
  unfold wlen
  cases s.typeAscii with
  | false => exact ⟨_, _, _, rfl, rfl, take_overwrite buf read.fits⟩
  | true =>
    obtain ⟨buf', ran, written⟩ := convertAscii_eq pendingCr buf read.nonempty read.fits
    exact ⟨buf', _, _, ran, rfl, written⟩

/-- An upload never panics. It takes the reads up to the first failed write, all of them if none
fails, and hands over what they are converted to. -/
theorem storLoop_rounds (s : FtpSession) (chunks : List StorChunk) (buf : Vector UInt8 512) (pendingCr : Bool) :
    ∃ k outs xferErr, s.storLoop chunks buf pendingCr = some (outs, xferErr) ∧
      (xferErr = false → chunks.take k = chunks) ∧
      handed outs = uploaded s.typeAscii pendingCr ((chunks.take k).map (·.read.bytes)) := by
  induction chunks generalizing buf pendingCr with
  | nil => exact ⟨0, [], false, rfl, fun _ => rfl, rfl⟩
  | cons c cs ih =>
    obtain ⟨buf', bytes, pendingCr', ran, step, written⟩ := s.wlen_eq pendingCr buf c.read
    obtain ⟨k, outs, xferErr, rest, whole, more⟩ := ih buf' pendingCr'
    have next (n : ℕ) : uploaded s.typeAscii pendingCr (((c :: cs).take (n + 1)).map (·.read.bytes)) =
        bytes ++ uploaded s.typeAscii pendingCr' ((cs.take n).map (·.read.bytes)) := by
      rw [List.take_succ_cons, List.map_cons, uploaded, step]
    have whole' (fine : xferErr = false) : (c :: cs).take (k + 1) = c :: cs := by
      rw [List.take_succ_cons, whole fine]
    have staged (cmd : StorageCmd) : handed (.staged s.slot bytes :: rpcSend c.rpc cmd) = bytes := by
      rw [← List.singleton_append, handed_append, handed_rpcSend]
      simp [handed]
    rw [storLoop, ran]
    simp only [Option.bind_eq_bind, Option.bind_some, written]
    by_cases some_bytes : bytes.length > 0
    · rw [if_pos some_bytes]
      split
      · exact ⟨1, _, true, rfl, fun fine => absurd fine (by decide), by rw [staged, next 0]; simp [uploaded]⟩
      · rw [rest]
        exact ⟨k + 1, _, xferErr, rfl, whole', by rw [handed_append, staged, more, next]⟩
    · rw [if_neg some_bytes]
      have empty : bytes = [] := List.length_eq_zero_iff.1 (by omega)
      exact ⟨k + 1, outs, xferErr, rest, whole', by rw [more, next, empty, List.nil_append]⟩

/-! ## What a held back CR costs -/

/-- The read ends in CR. -/
def endsCr (read : List UInt8) : Bool := read.getLast? = some cr

/-- The CR held back from the reads before. -/
def heldCr (pendingCr : Bool) : List UInt8 := if pendingCr then [cr] else []

/-- A CR that is held back counts for one byte of the conversion, with the LF after it or alone. -/
theorem length_held (pendingCr : Bool) {read : List UInt8} (tail : List UInt8) (nonempty : read ≠ []) :
    (crlfToLf (heldCr pendingCr ++ (read ++ tail))).length =
      (heldCr pendingCr).length + (crlfToLf (unskipped pendingCr read ++ tail)).length := by
  obtain ⟨b, rest, rfl⟩ := List.exists_cons_of_ne_nil nonempty
  cases pendingCr with
  | false => simp [heldCr, unskipped]
  | true =>
    by_cases pair : b = lf
    · subst pair
      simp [heldCr, unskipped]
      omega
    · have single : ¬ (cr = cr ∧ (b :: (rest ++ tail)).head? = some lf) := by simpa using pair
      simp [heldCr, unskipped, pair, crlfToLf_other single]
      omega

theorem endsCr_unskipped (pendingCr : Bool) (read : List UInt8) :
    (unskipped pendingCr read).getLast? = some cr ↔ endsCr read = true := by
  unfold unskipped endsCr
  split
  · rename_i skipped
    obtain ⟨rest, rfl⟩ : ∃ rest, read = lf :: rest :=
      List.head?_eq_some_iff.1 (of_decide_eq_true (Bool.and_eq_true_iff.1 skipped).2)
    cases rest with
    | nil => decide
    | cons b rest => simp [List.getLast?_cons_cons]
  · simp

/-- A read is converted as if the CR it ends in came with the next one. -/
theorem asciiRound_spec (pendingCr : Bool) (read tail : List UInt8) :
    (asciiRound pendingCr read).2 = endsCr read ∧ crlfToLf (unskipped pendingCr read ++ tail) =
      (asciiRound pendingCr read).1 ++ crlfToLf (heldCr (endsCr read) ++ tail) := by
  have ends := endsCr_unskipped pendingCr read
  unfold asciiRound
  cases cut : endsCr read with
  | false =>
    rw [cut, Bool.false_eq_true, iff_false] at ends
    dsimp only
    rw [if_neg ends]
    exact ⟨rfl, dropBefore_append (.inl ends)⟩
  | true =>
    obtain ⟨front, same⟩ := List.getLast?_eq_some_iff.1 (ends.2 cut)
    dsimp only
    rw [if_pos (ends.2 cut), same, crlfToLf_concat_cr, List.dropLast_concat, List.append_assoc]
    exact ⟨rfl, dropBefore_append (.inr fun same => absurd (Option.some.inj same) (by decide))⟩

theorem length_uploaded (pendingCr : Bool) {reads : List (List UInt8)} (nonempty : ∀ read ∈ reads, read ≠ []) :
    (uploaded true pendingCr reads).length + reads.countP endsCr + (heldCr pendingCr).length =
      (crlfToLf (heldCr pendingCr ++ reads.flatten)).length := by
  induction reads generalizing pendingCr with
  | nil => cases pendingCr <;> rfl
  | cons read reads ih =>
    obtain ⟨pending, part⟩ := asciiRound_spec pendingCr read reads.flatten
    have rest := ih (endsCr read) fun r mem => nonempty r (List.mem_cons_of_mem _ mem)
    have cost : (heldCr (endsCr read)).length = if endsCr read then 1 else 0 := by cases endsCr read <;> rfl
    rw [List.flatten_cons, length_held pendingCr _ (nonempty read List.mem_cons_self), part, List.countP_cons,
      uploaded, if_pos rfl]
    dsimp only
    rw [pending, List.length_append, List.length_append, ← rest, cost]
    omega

theorem uploaded_whole {reads : List (List UInt8)} (whole : ∀ read ∈ reads, endsCr read = false) :
    uploaded true false reads = crlfToLf reads.flatten := by
  induction reads with
  | nil => rfl
  | cons read reads ih =>
    obtain ⟨pending, part⟩ := asciiRound_spec false read reads.flatten
    rw [whole read List.mem_cons_self] at pending part
    rw [List.flatten_cons, uploaded, if_pos rfl]
    dsimp only
    rw [pending, ih fun r mem => whole r (List.mem_cons_of_mem _ mem)]
    exact part.symm

/-- The conversion is right exactly when no read ends in CR. -/
theorem uploaded_ascii_iff {reads : List (List UInt8)} (nonempty : ∀ read ∈ reads, read ≠ []) :
    uploaded true false reads = crlfToLf reads.flatten ↔ ∀ read ∈ reads, endsCr read = false := by
  constructor
  · intro right
    have count : (uploaded true false reads).length + reads.countP endsCr + 0 =
        (crlfToLf reads.flatten).length := length_uploaded false nonempty
    rw [right] at count
    have none_ends : reads.countP endsCr = 0 := by omega
    intro read mem
    exact Bool.eq_false_iff.2 (List.countP_eq_zero.1 none_ends read mem)
  · exact uploaded_whole

/-! ## `STOR` and `APPE` -/

/-- The acknowledgement. -/
def complete : FtpOut := .line "226 Transfer complete".toList

/-- The last line of an acknowledged transfer is the acknowledgement. -/
theorem line_eq_of_complete {front : List FtpOut} {text : List Char}
    (last : (front ++ [FtpOut.line text]).getLast? = some complete) : FtpOut.line text = complete := by
  rw [List.getLast?_concat] at last
  exact Option.some.inj last

/-- The outputs hand over the first `k` reads; all of them if they end in the acknowledgement. -/
def Takes (ascii : Bool) (uploads : List StorChunk) (outs : List FtpOut) (k : ℕ) : Prop :=
  (outs.getLast? = some complete → uploads.take k = uploads) ∧
    handed outs = uploaded ascii false ((uploads.take k).map (·.read.bytes))

theorem takes_none {ascii : Bool} {uploads : List StorChunk} {front : List FtpOut} {text : List Char}
    (quiet : handed front = []) (other : FtpOut.line text ≠ complete) :
    Takes ascii uploads (front ++ [.line text]) 0 :=
  ⟨fun last => absurd (line_eq_of_complete last) other, by simp [quiet, uploaded]⟩

theorem openData_typeAscii (s : FtpSession) (env : FtpEnv) : (s.openData env).1.typeAscii = s.typeAscii := by
  unfold openData
  split <;> rfl

/-- All that an upload can come to: it ends before its loop, with another reply, or the loop runs. -/
theorem cmdStor_cases {s s' : FtpSession} {env : FtpEnv} {arg : List Char} {isAppe : Bool} {outs : List FtpOut}
    (ran : s.cmdStor env arg isAppe = some (s', outs)) :
    (∃ front text, outs = front ++ [.line text] ∧ handed front = [] ∧ FtpOut.line text ≠ complete) ∨
      ∃ (s₁ : FtpSession) (front more back : List FtpOut) (xferErr : Bool) (text : List Char),
        s₁.typeAscii = s.typeAscii ∧ env.rpc.res.1 = true ∧
        s₁.storLoop env.uploads (.replicate 512 0) false = some (more, xferErr) ∧
        outs = front ++ more ++ back ++ [.line text] ∧ handed front = [] ∧ handed back = [] ∧
        (FtpOut.line text = complete → xferErr = false) := by
  unfold cmdStor at ran
  split at ran
  · obtain rfl := (Prod.mk.inj (Option.some.inj ran)).2
    exact .inl ⟨[], _, rfl, handed_nil, by decide⟩
  obtain ⟨fp, -, ran⟩ := Option.bind_eq_some_iff.1 ran
  dsimp only at ran
  split at ran
  · obtain rfl := (Prod.mk.inj (Option.some.inj ran)).2
    exact .inl ⟨_, _, rfl, handed_rpcSend _ _, by decide⟩
  rename_i opened
  split at ran
  · obtain rfl := (Prod.mk.inj (Option.some.inj ran)).2
    exact .inl ⟨_, _, rfl, by simp, by decide⟩
  obtain ⟨⟨more, xferErr⟩, loop, ran⟩ := Option.bind_eq_some_iff.1 ran
  obtain rfl := (Prod.mk.inj (Option.some.inj ran)).2
  refine .inr ⟨_, _, more, _, xferErr, _, openData_typeAscii { s with rest := 0 } env, ?_, loop, rfl, by simp,
    by simp, ?_⟩
  · simp only [Bool.not_eq_true', Bool.not_eq_false, Bool.and_eq_true] at opened
    exact opened.2
  · intro acknowledged
    cases xferErr with
    | false => rfl
    | true => exact absurd acknowledged (by simp [complete])

theorem cmdStor_takes {s s' : FtpSession} {env : FtpEnv} {arg : List Char} {isAppe : Bool} {outs : List FtpOut}
    (ran : s.cmdStor env arg isAppe = some (s', outs)) : ∃ k, Takes s.typeAscii env.uploads outs k := by
  obtain ⟨front, text, rfl, quiet, other⟩ | ⟨s₁, front, more, back, xferErr, text, ascii, -, loop, rfl, quiet,
    quiet', fine⟩ := cmdStor_cases ran
  · exact ⟨0, takes_none quiet other⟩
  · obtain ⟨k, more', xferErr', loop', whole, bytes⟩ := storLoop_rounds s₁ env.uploads (.replicate 512 0) false
    rw [loop'] at loop
    cases loop
    refine ⟨k, fun last => whole (fine (line_eq_of_complete last)), ?_⟩
    simp [quiet, quiet', bytes, ascii]

/-- Of an upload in ASCII type, the first `k` reads are taken, all of them if it is acknowledged. They
are written as the converted stream exactly when none of them ends in CR. -/
theorem cmdStor_ascii_iff {s s' : FtpSession} {env : FtpEnv} {arg : List Char} {isAppe : Bool}
    {outs : List FtpOut} (ascii : s.typeAscii = true) (ran : s.cmdStor env arg isAppe = some (s', outs)) :
    ∃ k, (outs.getLast? = some complete → env.uploads.take k = env.uploads) ∧
      (handed outs = crlfToLf ((env.uploads.take k).map (·.read.bytes)).flatten ↔
        ∀ c ∈ env.uploads.take k, endsCr c.read.bytes = false) := by
  obtain ⟨k, whole, bytes⟩ := cmdStor_takes ran
  refine ⟨k, whole, ?_⟩
  rw [bytes, ascii, uploaded_ascii_iff (by simp only [List.mem_map]; rintro _ ⟨c, -, rfl⟩; exact c.read.nonempty)]
  exact List.forall_mem_map

/-- A logged in session in ASCII type. -/
def asciiSession : FtpSession :=
  { FtpSession.new 0 with authed := true, typeAscii := true, passivePort := 40000 }

/-- A read of two bytes that is written without an error. -/
def arrives (a b : UInt8) : StorChunk :=
  ⟨⟨[a, b], List.cons_ne_nil _ _, by simp⟩, ⟨true, true, (true, false, 0)⟩, false⟩

theorem cmdStor_ascii_lines :
    let uploads := [arrives cr lf, arrives cr 0x61]
    ∃ s' outs, asciiSession.cmdStor { FtpEnv.answering with uploads } ['f'] false = some (s', outs) ∧
      ∃ k, (outs.getLast? = some complete → uploads.take k = uploads) ∧
        (handed outs = crlfToLf ((uploads.take k).map (·.read.bytes)).flatten ↔
          ∀ c ∈ uploads.take k, endsCr c.read.bytes = false) := by
  intro uploads
  have answered : (asciiSession.cmdStor { FtpEnv.answering with uploads } ['f'] false).isSome = true := by
    decide +kernel
  obtain ⟨⟨s', outs⟩, ran⟩ := Option.isSome_iff_exists.1 answered
  exact ⟨s', outs, ran, cmdStor_ascii_iff rfl ran⟩

/-- A pair that is cut between two reads is lost: the file is `ab`, without the line end. -/
theorem cmdStor_loses_line_end :
    let uploads := [arrives 0x61 cr, arrives lf 0x62]
    ∃ s' outs, asciiSession.cmdStor { FtpEnv.answering with uploads } ['f'] false = some (s', outs) ∧
      outs.getLast? = some complete ∧ handed outs = [0x61, 0x62] ∧
      crlfToLf (uploads.map (·.read.bytes)).flatten = [0x61, lf, 0x62] := by
  intro uploads
  have result : (asciiSession.cmdStor { FtpEnv.answering with uploads } ['f'] false).map
      (fun r => (r.2.getLast?, handed r.2)) = some (some complete, [0x61, 0x62]) := by
    decide +kernel
  obtain ⟨⟨s', outs⟩, ran, both⟩ := Option.map_eq_some_iff.1 result
  obtain ⟨last, bytes⟩ := Prod.mk.inj both
  exact ⟨s', outs, ran, last, bytes, by decide +kernel⟩

end FtpSession

end IoEdgeHub
