import IoEdgeHub.Proto.MbWrites

/-!
# What the decoder answers

With the 256-byte output buffer of both transports, `process` comes to an answer for every request
PDU: no access leaves a buffer and the response is at most 252 bytes long.  The only exceptions it
builds are those it counts, and only a clear request resets the counters (`process_runs`).
-/

namespace IoEdgeHub

open Bytes Run

namespace Mb

/-! ## What is written over the buffer -/

section Writes

variable (srv : MbServer) {out : List UInt8} (regs : RegMap) (hooks : Hooks)

theorem put_two {out : List UInt8} (room : 2 ≤ out.length) (a b : UInt8) :
    ∃ out', put out 0 a = some out' ∧ put out' 1 b = some ([a, b] ++ out.drop 2) := by
  have first : put out 0 a = some ([a] ++ out.drop 1) := put_append [] rfl (List.ne_nil_of_length_pos (by omega)) a
  have second := put_append [a] rfl (List.ne_nil_of_length_pos (by simp; omega) : out.drop 1 ≠ []) b
  rw [List.drop_drop] at second
  exact ⟨_, first, second⟩

theorem excRsp_eq (room : 2 ≤ out.length) (fc code : UInt8) :
    excRsp ⟨srv, out, regs, hooks⟩ fc code =
      some (⟨srv.diagCount .exc, [fc ||| 0x80, code] ++ out.drop 2, regs, hooks⟩, 2) := by
  obtain ⟨out', first, second⟩ := put_two room (fc ||| 0x80) code
  simp only [excRsp, Option.bind_eq_bind, first, second, Option.bind_some]
  rfl

theorem echo_eq (room : 5 ≤ out.length) (fc : UInt8) (a b : UInt16) :
    echo ⟨srv, out, regs, hooks⟩ fc a b =
      some (⟨srv, [fc] ++ putBe16 a ++ putBe16 b ++ out.drop 5, regs, hooks⟩, 5) := by
  have two (x : UInt16) : (putBe16 x).length = 2 := rfl
  have first : put out 0 fc = some ([fc] ++ out.drop 1) := put_append [] rfl (List.ne_nil_of_length_pos (by omega)) fc
  have second : copyIn ([fc] ++ out.drop 1) 1 (putBe16 a) = some ([fc] ++ putBe16 a ++ out.drop 3) := by
    rw [copyIn_append [fc] (show 1 = [fc].length from rfl) (by rw [two, List.length_drop]; omega), List.drop_drop]
    rfl
  have third : copyIn ([fc] ++ putBe16 a ++ out.drop 3) 3 (putBe16 b) =
      some ([fc] ++ putBe16 a ++ putBe16 b ++ out.drop 5) := by
    rw [copyIn_append ([fc] ++ putBe16 a) (show 3 = ([fc] ++ putBe16 a).length from rfl)
      (by rw [two, List.length_drop]; omega), List.drop_drop]
    rfl
  simp only [echo, Option.bind_eq_bind, first, second, third, Option.bind_some]
  rfl

end Writes

/-! ## Answers -/

/-- The request that clears the counters: FC08 with subfunction 0x000A. -/
def isClear : List UInt8 → Bool
  | [fc, s0, s1, _, _] => decide (fc = mbFc08Diagnostics ∧ getBe16 s0 s1 = mbFc08SubfClrCtr)
  | _ => false

/-- What a handler leaves behind in the buffer and in the counters. -/
structure Answers (m m' : Mb) (n : ℕ) (clears : Bool) : Prop where
  length : m'.out.length = m.out.length
  small : n ≤ 252
  counted : (IsException m' n ∧ m'.srv = m.srv.diagCount .exc) ∨
    (¬ IsException m' n ∧ m'.srv = if clears then .new else m.srv)

/-- A handler runs to an answer. -/
def Runs (m : Mb) (clears : Bool) (r : Option (Mb × ℕ)) : Prop :=
  ∃ m' n, r = some (m', n) ∧ Answers m m' n clears

section Runs

variable {m : Mb} {fc : UInt8}

/-- What a handler wrote into the buffer before it answers makes no difference. -/
theorem Runs.of_srv {t : Mb} {clears : Bool} {r : Option (Mb × ℕ)} (runs : Runs t clears r)
    (length : t.out.length = m.out.length) (srv : t.srv = m.srv) : Runs m clears r := by
  obtain ⟨m', n, ran, answers⟩ := runs
  refine ⟨m', n, ran, answers.length.trans length, answers.small, ?_⟩
  rw [← srv]
  exact answers.counted

theorem runs_silent (m : Mb) (clears : Bool) (kept : clears = false) : Runs m clears (some (m, 0)) := by
  refine ⟨m, 0, rfl, rfl, by decide, .inr ⟨fun exception => ?_, by rw [kept]; rfl⟩⟩
  exact absurd exception.1 (by decide)

/-- The first two bytes of a reply: the function code, and a byte count or an exception code. -/
theorem put_head {out : List UInt8} (full : out.length = 256) (fc second : UInt8) :
    put out 0 fc = some (out.set 0 fc) ∧ put (out.set 0 fc) 1 second = some ((out.set 0 fc).set 1 second) ∧
      ((out.set 0 fc).set 1 second).length = 256 ∧ ((out.set 0 fc).set 1 second)[0]? = some fc := by
  have length : (out.set 0 fc).length = 256 := by rw [List.length_set, full]
  refine ⟨if_pos (by omega), if_pos (by omega), by rw [List.length_set, length], ?_⟩
  rw [List.getElem?_set_ne (by decide), List.getElem?_set_self (by omega)]

theorem excRsp_runs (full : m.out.length = 256) (fc code : UInt8) : Runs m false (m.excRsp fc code) := by
  have ran := excRsp_eq m.srv m.regs m.hooks (by omega : 2 ≤ m.out.length) fc code
  have length : ([fc ||| 0x80, code] ++ m.out.drop 2).length = m.out.length := by
    rw [List.length_append, List.length_drop, List.length_cons, List.length_singleton]
    omega
  exact ⟨_, 2, ran, length, by decide, .inl ⟨⟨by decide, fc ||| 0x80, rfl, exception_bit fc⟩, rfl⟩⟩

theorem echo_answers (full : m.out.length = 256) (low : fc &&& 0x80 = 0) (a b : UInt16) :
    ∃ m', m.echo fc a b = some (m', 5) ∧ m'.out.length = 256 ∧ ¬ IsException m' 5 ∧ m'.srv = m.srv := by
  have ran := echo_eq m.srv m.regs m.hooks (by omega : 5 ≤ m.out.length) fc a b
  have length : ([fc] ++ putBe16 a ++ putBe16 b ++ m.out.drop 5).length = 256 := by
    rw [List.length_append, List.length_drop, show ([fc] ++ putBe16 a ++ putBe16 b).length = 5 from rfl]
    omega
  exact ⟨_, ran, length, echo_spec low ran, rfl⟩

theorem echo_runs (full : m.out.length = 256) (low : fc &&& 0x80 = 0) (a b : UInt16) :
    Runs m false (m.echo fc a b) := by
  obtain ⟨m', ran, length, normal, srv⟩ := echo_answers full low a b
  exact ⟨m', 5, ran, length.trans full.symm, by decide, .inr ⟨normal, srv⟩⟩

end Runs

/-! ## Reads -/

theorem readBits_total (rd : UInt16 → Option Bool) {nb : ℕ} (n i : ℕ) (addr : UInt16) (out : List UInt8)
    (room : 2 + nb ≤ out.length) (fits : i + n ≤ 8 * nb) :
    ∃ out' ok, readBits rd n i addr out = some (out', ok) ∧ out'.length = out.length ∧
      out'.take 2 = out.take 2 := by
  induction n generalizing i addr out with
  | zero => exact ⟨out, true, rfl, rfl, rfl⟩
  | succ n ih =>
    unfold readBits
    split
    · exact ⟨out, false, rfl, rfl, rfl⟩
    · exact ih (i + 1) (addr + 1) out room (by omega)
    · have inside : 2 + i / 8 < out.length := by omega
      rw [List.getElem?_eq_getElem inside]
      simp only [Option.bind_eq_bind, Option.bind_some]
      rw [put, if_pos inside]
      simp only [Option.bind_some]
      generalize out[2 + i / 8] ||| 1 <<< UInt8.ofNat (i % 8) = b
      obtain ⟨out', ok, ran, length, head⟩ :=
        ih (i + 1) (addr + 1) (out.set (2 + i / 8) b) (by simpa using room) (by omega)
      refine ⟨out', ok, ran, by rw [length, List.length_set], ?_⟩
      rw [head, List.take_set_of_le (by omega)]

theorem readRegs_total {size : ℕ} (table : size < 2 ^ 16) (rd : UInt16 → UInt16) (n i : ℕ) (addr : UInt16)
    (out : List UInt8) (room : 2 + (i + n) * 2 ≤ out.length) :
    ∃ out' ok, readRegs size rd n i addr out = some (out', ok) ∧ out'.length = out.length ∧
      out'[0]? = out[0]? := by
  induction n generalizing i addr out with
  | zero => exact ⟨out, true, rfl, rfl, rfl⟩
  | succ n ih =>
    unfold readRegs
    split
    · exact ⟨out, false, rfl, rfl, rfl⟩
    · rename_i inside
      have below : addr ≠ 0xFFFF := by
        rintro rfl
        have : (0xFFFF : UInt16).toNat = 65535 := rfl
        omega
      have two : (putBe16 (rd addr)).length = 2 := rfl
      obtain ⟨o, copied⟩ : ∃ o, copyIn out (2 + i * 2) (putBe16 (rd addr)) = some o :=
        ⟨_, if_pos (by omega)⟩
      have kept := getElem?_copyIn_lt copied (j := 0) (by omega)
      have same : o.length = out.length := length_copyIn copied
      obtain ⟨out', ok, ran, length, head⟩ := ih (i + 1) (addr + 1) o (by omega)
      refine ⟨out', ok, ?_, length.trans same, head.trans kept⟩
      rw [copied]
      exact (if_neg below).trans ran

section Handlers

variable {m : Mb}

theorem not_isException_of_head {m' : Mb} {n : ℕ} {fc : UInt8} (low : fc &&& 0x80 = 0)
    (head : m'.out[0]? = some fc) : ¬ IsException m' n := by
  rintro ⟨-, b, found, bit⟩
  rw [head, Option.some.injEq] at found
  exact bit (found ▸ low)

theorem fcReadBits_runs (full : m.out.length = 256) {fc : UInt8} (low : fc &&& 0x80 = 0)
    (rd : RegMap → UInt16 → Option Bool) (d : List UInt8) : Runs m false (fcReadBits fc rd m d) := by
  unfold fcReadBits
  split
  · rename_i a0 a1 q0 q1
    dsimp only
    split
    · exact excRsp_runs full fc _
    rename_i quantity
    have pos : 0 < getBe16 q0 q1 := UInt16.pos_iff_ne_zero.2 fun zero => quantity (.inl zero)
    have top : (getBe16 q0 q1).toNat ≤ 2000 :=
      UInt16.le_iff_toNat_le.1 (UInt16.not_lt.1 fun big => quantity (.inr big))
    rw [toNat_numBytes pos]
    generalize (getBe16 q0 q1).toNat = qty at top
    generalize bytes : (qty - 1) / 8 + 1 = nb
    obtain ⟨first, second, length, head⟩ := put_head full fc (UInt8.ofNat nb)
    generalize (m.out.set 0 fc).set 1 (UInt8.ofNat nb) = started at second length head
    obtain ⟨o, copied⟩ : ∃ o, copyIn started 2 (List.replicate nb 0) = some o :=
      ⟨_, if_pos (by rw [List.length_replicate]; omega)⟩
    have length₁ : o.length = 256 := (length_copyIn copied).trans length
    have head₁ : o[0]? = some fc := (getElem?_copyIn_lt copied (by decide)).trans head
    obtain ⟨out, ok, read, length₂, head₂⟩ :=
      readBits_total (rd m.regs) qty 0 (getBe16 a0 a1) o (by omega : 2 + nb ≤ o.length) (by omega)
    simp only [Option.bind_eq_bind, first, Option.bind_some, second, copied, read]
    have same : out.length = 256 := length₂.trans length₁
    cases ok with
    | true =>
      refine ⟨_, _, rfl, same.trans full.symm, by omega, .inr ⟨?_, rfl⟩⟩
      have kept := congrArg (fun l => l[0]?) head₂
      simp only [List.getElem?_take_of_lt (by decide : 0 < 2)] at kept
      exact not_isException_of_head low (kept.trans head₁)
    | false => exact (excRsp_runs (m := { m with out }) same fc _).of_srv (same.trans full.symm) rfl
  · exact runs_silent m false rfl

theorem fcReadRegs_runs (full : m.out.length = 256) {fc : UInt8} (low : fc &&& 0x80 = 0) {size : ℕ}
    (table : size < 2 ^ 16) (rd : Mb → UInt16 → UInt16) (d : List UInt8) :
    Runs m false (fcReadRegs fc size rd m d) := by
  unfold fcReadRegs
  split
  · rename_i a0 a1 q0 q1
    dsimp only
    split
    · exact excRsp_runs full fc _
    split
    · exact excRsp_runs full fc _
    rename_i quantity _
    have top : (getBe16 q0 q1).toNat ≤ 125 :=
      UInt16.le_iff_toNat_le.1 (UInt16.not_lt.1 fun big => quantity (.inr big))
    generalize (getBe16 q0 q1).toNat = qty at top
    obtain ⟨first, second, length, head⟩ := put_head full fc (UInt8.ofNat (qty * 2))
    generalize (m.out.set 0 fc).set 1 (UInt8.ofNat (qty * 2)) = started at second length head
    obtain ⟨out, ok, read, length₁, head₁⟩ :=
      readRegs_total table (rd m) qty 0 (getBe16 a0 a1) started (by omega)
    simp only [Option.bind_eq_bind, first, Option.bind_some, second, read]
    have same : out.length = 256 := length₁.trans length
    cases ok with
    | true =>
      refine ⟨_, _, rfl, same.trans full.symm, by omega, .inr ⟨?_, rfl⟩⟩
      exact not_isException_of_head low (head₁.trans head)
    | false => exact (excRsp_runs (m := { m with out }) same fc _).of_srv (same.trans full.symm) rfl
  · exact runs_silent m false rfl

/-! ## Writes and diagnostics -/

/-- The end of a write: the echo or an exception, after the registers have changed. -/
theorem written_runs (full : m.out.length = 256) {fc : UInt8} (low : fc &&& 0x80 = 0) (regs : RegMap)
    (hooks : Hooks) (a b : UInt16) (code : UInt8) (ok : Bool) :
    Runs m false (if ok then { m with regs, hooks }.echo fc a b else { m with regs, hooks }.excRsp fc code) := by
  have start : ({ m with regs, hooks } : Mb).out.length = 256 := full
  cases ok with
  | true => exact (echo_runs start low a b).of_srv rfl rfl
  | false => exact (excRsp_runs start fc code).of_srv rfl rfl

theorem fc05_runs (full : m.out.length = 256) (d : List UInt8) : Runs m false (m.fc05 d) := by
  unfold fc05
  split
  · dsimp only
    split
    · exact excRsp_runs full _ _
    · exact written_runs full (by decide) _ _ _ _ 0 true
  · exact runs_silent m false rfl

theorem fc06_runs (full : m.out.length = 256) (d : List UInt8) : Runs m false (m.fc06 d) := by
  unfold fc06
  split
  · dsimp only
    split
    · exact excRsp_runs full _ _
    · exact written_runs full (by decide) _ _ _ _ 0 true
  · exact runs_silent m false rfl

theorem fc08_runs (full : m.out.length = 256) (d : List UInt8) :
    Runs m (isClear (mbFc08Diagnostics :: d)) (m.fc08 d) := by
  unfold fc08
  split
  · rename_i s0 s1 d0 d1
    have clear : isClear [mbFc08Diagnostics, s0, s1, d0, d1] = decide (getBe16 s0 s1 = mbFc08SubfClrCtr) := by
      simp [isClear]
    have reply (srv : MbServer) (data : UInt16) :=
      echo_answers (m := { m with srv }) full (by decide : mbFc08Diagnostics &&& 0x80 = 0) (getBe16 s0 s1) data
    -- a reply that leaves the counters alone
    have query (other : getBe16 s0 s1 ≠ mbFc08SubfClrCtr) (data : UInt16) :
        Runs m (decide (getBe16 s0 s1 = mbFc08SubfClrCtr))
          ({ m with srv := m.srv }.echo mbFc08Diagnostics (getBe16 s0 s1) data) := by
      rw [decide_eq_false other]
      exact echo_runs full (by decide) _ _
    rw [clear]
    dsimp only
    apply iteInduction
    · intro h₁
      exact query (by rw [h₁]; decide) _
    intro _
    apply iteInduction
    · intro h₂
      obtain ⟨m', ran, length, normal, srv⟩ := reply .new (getBe16 d0 d1)
      rw [decide_eq_true h₂]
      exact ⟨m', 5, ran, length.trans full.symm, by decide, .inr ⟨normal, srv⟩⟩
    intro h₂
    -- the five counters
    iterate 5
      apply iteInduction
      · intro _
        exact query h₂ _
      intro _
    rw [decide_eq_false h₂]
    exact excRsp_runs full _ _
  · rename_i other
    apply runs_silent
    unfold isClear
    split
    · rename_i s0 s1 d0 d1 same
      exact absurd (List.cons.inj same).2 (other s0 s1 d0 d1)
    · rfl

theorem fc15_runs (full : m.out.length = 256) (d : List UInt8) : Runs m false (m.fc15 d) := by
  unfold fc15
  split
  · rename_i a0 a1 q0 q1 nb d5 rest
    dsimp only
    split
    · exact excRsp_runs full _ _
    rename_i quantity
    split
    · exact excRsp_runs full _ _
    rename_i count
    have pos : 0 < getBe16 q0 q1 := UInt16.pos_iff_ne_zero.2 fun zero => quantity (.inl zero)
    have covered : 0 + (getBe16 q0 q1).toNat ≤ 8 * (d5 :: rest).length := by
      rw [toNat_numBytes pos] at count
      simp only [List.length_cons] at count ⊢
      omega
    rw [writeCoils_eq _ _ _ _ _ _ _ covered (by simp)]
    exact written_runs full (by decide) _ _ _ _ _ _
  · exact runs_silent m false rfl

theorem fc16_runs (full : m.out.length = 256) {d : List UInt8} (short : d.length ≤ 255) :
    Runs m false (m.fc16 d) := by
  unfold fc16
  split
  · rename_i a0 a1 q0 q1 nb d5 rest
    simp only [List.length_cons] at short ⊢
    split
    · exact excRsp_runs full _ _
    rename_i quantity
    split
    · exact excRsp_runs full _ _
    rw [if_neg (by omega)]
    split
    · exact excRsp_runs full _ _
    rename_i len
    have pos : 0 < getBe16 q0 q1 := UInt16.pos_iff_ne_zero.2 fun zero => quantity (.inl zero)
    have top : getBe16 q0 q1 ≤ 125 := UInt16.not_lt.1 fun big => quantity (.inr big)
    rw [if_neg (toUInt8_ne_zero pos top)]
    split
    · exact excRsp_runs full _ _
    rename_i ratio
    have covered : 2 * (0 + (getBe16 q0 q1).toNat) ≤ (d5 :: rest).length := by
      have := regs_enough pos top (not_not.1 ratio)
      simp only [List.length_cons]
      omega
    rw [writeRegs_eq _ _ _ _ _ _ covered]
    exact written_runs full (by decide) _ _ _ _ _ _
  · exact runs_silent m false rfl

end Handlers

/-! ## The decoder -/

theorem isClear_of_ne {fc : UInt8} (other : fc ≠ mbFc08Diagnostics) (d : List UInt8) :
    isClear (fc :: d) = false := by
  unfold isClear
  split
  · rename_i same
    obtain ⟨rfl, -⟩ := List.cons.inj same
    simp [other]
  · rfl

/-- The state in which a handler starts. -/
def received (m : Mb) : Mb := { m with srv := (m.srv.diagCount .busMsg).diagCount .srvMsg }

/-- Every request comes to an answer, and the counters say which. -/
theorem process_runs {m : Mb} (full : m.out.length = 256) {fc : UInt8} {d : List UInt8}
    (short : d.length ≤ 255) : Runs m.received (isClear (fc :: d)) (m.process (fc :: d)) := by
  have start : m.received.out.length = 256 := full
  have other (ne : fc ≠ mbFc08Diagnostics) {r : Option (Mb × ℕ)} (runs : Runs m.received false r) :
      Runs m.received (isClear (fc :: d)) r := by
    rwa [isClear_of_ne ne]
  unfold process
  dsimp only
  apply iteInduction
  · intro h₁
    exact other (by rw [h₁]; decide) (fcReadBits_runs start (by decide) _ d)
  intro _
  apply iteInduction
  · intro h₂
    exact other (by rw [h₂]; decide) (fcReadBits_runs start (by decide) _ d)
  intro _
  apply iteInduction
  · intro h₃
    exact other (by rw [h₃]; decide) (fcReadRegs_runs start (by decide) (by decide) _ d)
  intro _
  apply iteInduction
  · intro h₄
    exact other (by rw [h₄]; decide) (fcReadRegs_runs start (by decide) (by decide) _ d)
  intro _
  apply iteInduction
  · intro h₅
    exact other (by rw [h₅]; decide) (fc05_runs start d)
  intro _
  apply iteInduction
  · intro h₆
    exact other (by rw [h₆]; decide) (fc06_runs start d)
  intro _
  apply iteInduction
  · intro h₈
    rw [h₈]
    exact fc08_runs start d
  intro h₈
  apply iteInduction
  · intro _
    exact other h₈ (fc15_runs start d)
  intro _
  apply iteInduction
  · intro _
    exact other h₈ (fc16_runs start short)
  intro _
  exact other h₈ (excRsp_runs start fc _)

end Mb

/-! ## The server both transports share -/

/-- A response whose function code has bit 7 set. -/
def isExceptionRsp (rsp : List UInt8) : Bool := rsp.head?.any (· &&& 0x80 != 0)

/-- The server, the registers and the hooks; `decoded` lists the PDUs handed to the decoder, each with
the response it built. -/
structure MbBus where
  srv : MbServer
  regs : RegMap
  hooks : Hooks
  decoded : List (List UInt8 × List UInt8)

namespace MbBus

/-- A server that has seen nothing yet. -/
def fresh : MbBus := ⟨.new, .new 0, ⟨[], 0⟩, []⟩

/-- One counter of a bus goes up. -/
def count (b : MbBus) (c : MbDiag) : MbBus := { b with srv := b.srv.diagCount c }

/-- `process` with the given output buffer; returns the buffer and the response length. -/
def decode (b : MbBus) (pdu out : List UInt8) : Option (MbBus × List UInt8 × ℕ) :=
  (Mb.process ⟨b.srv, out, b.regs, b.hooks⟩ pdu).map fun r =>
    (⟨r.1.srv, r.1.regs, r.1.hooks, b.decoded ++ [(pdu, r.1.out.take r.2)]⟩, r.1.out, r.2)

/-- What the decoder does with a PDU: the response it builds and what it counts. -/
structure Decoded (b : MbBus) (pdu : List UInt8) (b' : MbBus) (out : List UInt8) (n : ℕ) : Prop where
  length : out.length = 256
  small : n ≤ 252
  logged : b'.decoded = b.decoded ++ [(pdu, out.take n)]
  counted : b'.srv =
    if isExceptionRsp (out.take n) then ((b.srv.diagCount .busMsg).diagCount .srvMsg).diagCount .exc
    else if Mb.isClear pdu then .new
    else (b.srv.diagCount .busMsg).diagCount .srvMsg

theorem isExceptionRsp_iff (m : Mb) (n : ℕ) :
    isExceptionRsp (m.out.take n) = true ↔ Mb.IsException m n := by
  unfold isExceptionRsp Mb.IsException
  rcases n with _ | n
  · simp
  · rcases m.out with _ | ⟨b, out⟩ <;> simp

theorem decode_decoded (b : MbBus) {pdu out : List UInt8} (nonempty : pdu ≠ []) (short : pdu.length ≤ 256)
    (full : out.length = 256) : ∃ b' out' n, b.decode pdu out = some (b', out', n) ∧ Decoded b pdu b' out' n := by
  obtain ⟨fc, d, rfl⟩ := List.exists_cons_of_ne_nil nonempty
  have runs : Mb.Runs _ _ (Mb.process ⟨b.srv, out, b.regs, b.hooks⟩ (fc :: d)) :=
    Mb.process_runs full (by simp only [List.length_cons] at short; omega)
  obtain ⟨m', n, ran, length, small, counted⟩ := runs
  refine ⟨_, _, _, by rw [decode, ran]; rfl, length.trans full, small, rfl, ?_⟩
  rw [← isExceptionRsp_iff] at counted
  rcases counted with ⟨exception, srv⟩ | ⟨normal, srv⟩
  · rw [if_pos exception]
    exact srv
  · rw [if_neg normal]
    exact srv

end MbBus

end IoEdgeHub
