import IoEdgeHub.Proto.MbtcpAdu
import IoEdgeHub.Proto.RtuFrame

/-!
# Response PDUs

The decoder writes its response over whatever the output buffer held.  `Answered` says that a handler,
as a function of the buffer, always comes to the same response, and that this response is well formed;
`process_answered` shows it for every request.  So the two transports, which give the decoder different
buffers, send the same response.
-/

namespace IoEdgeHub

open Bytes

namespace Mb

/-! ## One response for every buffer -/

/-- The response to a request with function code `fc`: none, an exception, or a normal one, which has a
byte count if it is the response to a read and five bytes otherwise. -/
def WellFormed (fc : UInt8) (rsp : List UInt8) : Prop :=
  rsp.length ≤ 252 ∧
    (rsp = [] ∨ (∃ code, (code = 1 ∨ code = 2 ∨ code = 3) ∧ rsp = [fc ||| 0x80, code]) ∨
      rsp[0]? = some fc ∧
        if fc = 1 ∨ fc = 2 ∨ fc = 3 ∨ fc = 4 then rsp[1]?.map UInt8.toNat = some (rsp.length - 2)
        else rsp.length = 5)

/-- A handler, as a function of the 256-byte output buffer, comes to one well-formed response and one
state, whatever the buffer holds. -/
def Answered (fc : UInt8) (handler : List UInt8 → Option (Mb × ℕ)) : Prop :=
  ∃ srv regs hooks rsp, WellFormed fc rsp ∧ ∀ out, out.length = 256 →
    ∃ out', handler out = some (⟨srv, out', regs, hooks⟩, rsp.length) ∧ out'.length = 256 ∧
      out'.take rsp.length = rsp

section Answered

variable {srv : MbServer} {regs : RegMap} {hooks : Hooks} {fc : UInt8}

theorem Answered.ite {c : Prop} [Decidable c] {a b : List UInt8 → Option (Mb × ℕ)}
    (pos : c → Answered fc a) (neg : ¬c → Answered fc b) : Answered fc fun out => if c then a out else b out := by
  by_cases h : c
  · simpa only [if_pos h] using pos h
  · simpa only [if_neg h] using neg h

theorem wellFormed_exception {code : UInt8} (known : code = 1 ∨ code = 2 ∨ code = 3) :
    WellFormed fc [fc ||| 0x80, code] :=
  ⟨(by decide : 2 ≤ 252), .inr (.inl ⟨code, known, rfl⟩)⟩

theorem answered_dropped (handler : Mb → List UInt8 → Option (Mb × ℕ)) {d : List UInt8}
    (drops : ∀ m, handler m d = some (m, 0)) : Answered fc fun out => handler ⟨srv, out, regs, hooks⟩ d :=
  ⟨srv, regs, hooks, [], ⟨by decide, .inl rfl⟩, fun out full => ⟨out, drops _, full, rfl⟩⟩

theorem answered_excRsp {code : UInt8} (known : code = 1 ∨ code = 2 ∨ code = 3) :
    Answered fc fun out => excRsp ⟨srv, out, regs, hooks⟩ fc code := by
  refine ⟨srv.diagCount .exc, regs, hooks, [fc ||| 0x80, code], wellFormed_exception known, fun out full => ?_⟩
  refine ⟨_, excRsp_eq srv regs hooks (by omega) fc code, ?_, rfl⟩
  simp [full]

/-- A handler that fills the buffer and then sends what it filled in, or an exception. -/
theorem answered_filled {handler : List UInt8 → Option (Mb × ℕ)} (srv : MbServer) (regs : RegMap) (hooks : Hooks)
    (ok : Bool) (rsp : List UInt8)
    (formed : ok = true → WellFormed fc rsp)
    (filled : ∀ out, out.length = 256 → ∃ out', out'.length = 256 ∧ (ok = true → out'.take rsp.length = rsp) ∧
      handler out = if ok then some (⟨srv, out', regs, hooks⟩, rsp.length)
        else excRsp ⟨srv, out', regs, hooks⟩ fc mbExcIllegalDataAddr) :
    Answered fc handler := by
  cases ok with
  | true =>
    refine ⟨srv, regs, hooks, rsp, formed rfl, fun out full => ?_⟩
    obtain ⟨out', length, whole, ran⟩ := filled out full
    exact ⟨out', ran, length, whole rfl⟩
  | false =>
    refine ⟨srv.diagCount .exc, regs, hooks, [fc ||| 0x80, mbExcIllegalDataAddr],
      wellFormed_exception (.inr (.inl rfl)), fun out full => ?_⟩
    obtain ⟨out', length, -, ran⟩ := filled out full
    refine ⟨_, ran.trans (excRsp_eq srv regs hooks (by omega) fc mbExcIllegalDataAddr), ?_, rfl⟩
    simp [length]

theorem answered_echo (other : ¬(fc = 1 ∨ fc = 2 ∨ fc = 3 ∨ fc = 4)) (a b : UInt16) :
    Answered fc fun out => echo ⟨srv, out, regs, hooks⟩ fc a b := by
  refine ⟨srv, regs, hooks, [fc] ++ putBe16 a ++ putBe16 b, ⟨?_, .inr (.inr ⟨rfl, ?_⟩)⟩, fun out full => ?_⟩
  · exact (by decide : 5 ≤ 252)
  · rw [if_neg other]
    rfl
  · refine ⟨_, echo_eq srv regs hooks (by omega) fc a b, ?_, List.take_left ..⟩
    simp [putBe16, full]

end Answered

/-! ## Reads -/

/-- The bit loop leaves alone what lies behind its bytes. -/
theorem readBits_append (rd : UInt16 → Option Bool) {nb : ℕ} (n i : ℕ) (addr : UInt16) {pre : List UInt8}
    (room : 2 + nb ≤ pre.length) (fits : i + n ≤ 8 * nb) (rest : List UInt8) :
    readBits rd n i addr (pre ++ rest) = (readBits rd n i addr pre).map fun r => (r.1 ++ rest, r.2) := by
  induction n generalizing i addr pre with
  | zero => rfl
  | succ n ih =>
    unfold readBits
    rcases rd addr with _ | _ | _
    · rfl
    · exact ih (i + 1) (addr + 1) room (by omega)
    · have inside : 2 + i / 8 < pre.length := by omega
      have longer : 2 + i / 8 < (pre ++ rest).length := by
        rw [List.length_append]
        omega
      simp only [Option.bind_eq_bind, List.getElem?_append_left inside, List.getElem?_eq_getElem inside, put,
        if_pos inside, if_pos longer, Option.bind_some, List.set_append_left _ _ inside]
      exact ih (i + 1) (addr + 1) (by rwa [List.length_set]) (by omega)

/-- The bytes of `n` registers from `addr` on. -/
def words (rd : UInt16 → UInt16) : ℕ → UInt16 → List UInt8
  | 0, _ => []
  | n + 1, addr => putBe16 (rd addr) ++ words rd n (addr + 1)

theorem length_words (rd : UInt16 → UInt16) (n : ℕ) (addr : UInt16) : (words rd n addr).length = 2 * n := by
  induction n generalizing addr with
  | zero => rfl
  | succ n ih =>
    rw [words, List.length_append, ih, show (putBe16 (rd addr)).length = 2 from rfl]
    omega

/-- The register loop refuses the first address outside the table; the bytes it writes do not depend on
the buffer. -/
theorem readRegs_words {size : ℕ} (table : size < 2 ^ 16) (rd : UInt16 → UInt16) (n i : ℕ) (addr : UInt16)
    {out : List UInt8} (room : 2 + (i + n) * 2 ≤ out.length) :
    ∃ out', readRegs size rd n i addr out = some (out', decide (n = 0 ∨ addr.toNat + n ≤ size)) ∧
      out'.length = out.length ∧
      (n = 0 ∨ addr.toNat + n ≤ size → out'.take (2 + (i + n) * 2) = out.take (2 + i * 2) ++ words rd n addr) := by
  induction n generalizing i addr out with
  | zero => exact ⟨out, rfl, rfl, fun _ => by simp [words]⟩
  | succ n ih =>
    by_cases inside : addr.toNat ≥ size
    · refine ⟨out, ?_, rfl, fun fits => by omega⟩
      rw [readRegs, if_pos inside, decide_eq_false (by omega)]
    · have next : (addr + 1).toNat = addr.toNat + 1 := by
        rw [UInt16.toNat_add, show (1 : UInt16).toNat = 1 from rfl, Nat.mod_eq_of_lt (by omega)]
      have below : addr ≠ 0xFFFF := by
        rintro rfl
        exact absurd next (by decide)
      have two : (putBe16 (rd addr)).length = 2 := rfl
      obtain ⟨o, copied⟩ : ∃ o, copyIn out (2 + i * 2) (putBe16 (rd addr)) = some o := ⟨_, if_pos (by omega)⟩
      have same := length_copyIn copied
      have written := take_copyIn copied
      obtain ⟨out', ran, length', whole⟩ := ih (i + 1) (addr + 1) (by omega : 2 + (i + 1 + n) * 2 ≤ o.length)
      have last : n = 0 ∨ (addr + 1).toNat + n ≤ size ↔ n + 1 = 0 ∨ addr.toNat + (n + 1) ≤ size := by
        rw [next]
        omega
      refine ⟨out', ?_, length'.trans same, fun good => ?_⟩
      · rw [readRegs, if_neg inside]
        simp only [Option.bind_eq_bind, copied, Option.bind_some, if_neg below, ran, last]
      · rw [show i + (n + 1) = i + 1 + n by omega, whole (last.2 good), words, ← List.append_assoc, ← written, two,
          show 2 + i * 2 + 2 = 2 + (i + 1) * 2 by omega]

section Handlers

variable {srv : MbServer} {regs : RegMap} {hooks : Hooks} {fc : UInt8} {d : List UInt8}

/-- The handlers of fixed length drop any other request. -/
theorem four_bytes (d : List UInt8) :
    (∃ a0 a1 b0 b1, d = [a0, a1, b0, b1]) ∨ ∀ a0 a1 b0 b1, d ≠ [a0, a1, b0, b1] := by
  by_cases shape : ∃ a0 a1 b0 b1, d = [a0, a1, b0, b1]
  · exact .inl shape
  · exact .inr fun a0 a1 b0 b1 same => shape ⟨a0, a1, b0, b1, same⟩

theorem wellFormed_read (read : fc = 1 ∨ fc = 2 ∨ fc = 3 ∨ fc = 4) {rsp : List UInt8} {nb : ℕ}
    (length : rsp.length = nb + 2) (small : nb ≤ 250) (head : rsp.take 2 = [fc, UInt8.ofNat nb]) :
    WellFormed fc rsp := by
  obtain ⟨x, y, rest, rfl⟩ : ∃ x y rest, rsp = x :: y :: rest := by
    rcases rsp with _ | ⟨x, _ | ⟨y, rest⟩⟩
    · simp at length
    · simp at length
    · exact ⟨x, y, rest, rfl⟩
  obtain ⟨rfl, rfl⟩ : x = fc ∧ y = UInt8.ofNat nb := by simpa using head
  refine ⟨by omega, .inr (.inr ⟨rfl, ?_⟩)⟩
  rw [if_pos read, length]
  simp
  omega

/-- FC01 and FC02 past the quantity check: the loop over a buffer of just the response. -/
theorem fcReadBits_filled {m : Mb} (full : m.out.length = 256) {rd : RegMap → UInt16 → Option Bool}
    {a0 a1 q0 q1 : UInt8} (quantity : ¬(getBe16 q0 q1 = 0 ∨ getBe16 q0 q1 > 2000)) {nb : ℕ}
    (bytes : ((getBe16 q0 q1).toNat - 1) / 8 + 1 = nb) {rsp : List UInt8} {ok : Bool}
    (ran : readBits (rd m.regs) (getBe16 q0 q1).toNat 0 (getBe16 a0 a1)
      ([fc, UInt8.ofNat nb] ++ List.replicate nb 0) = some (rsp, ok)) (size : rsp.length = nb + 2) :
    fcReadBits fc rd m [a0, a1, q0, q1] =
      if ok then some ({ m with out := rsp ++ m.out.drop (nb + 2) }, rsp.length)
      else excRsp { m with out := rsp ++ m.out.drop (nb + 2) } fc mbExcIllegalDataAddr := by
  have pos : 0 < getBe16 q0 q1 := UInt16.pos_iff_ne_zero.2 fun zero => quantity (.inl zero)
  have top : (getBe16 q0 q1).toNat ≤ 2000 :=
    UInt16.le_iff_toNat_le.1 (UInt16.not_lt.1 fun big => quantity (.inr big))
  simp only [fcReadBits, if_neg quantity, toNat_numBytes pos, bytes]
  obtain ⟨started, first, second⟩ := put_two (by omega : 2 ≤ m.out.length) fc (UInt8.ofNat nb)
  have third : copyIn ([fc, UInt8.ofNat nb] ++ m.out.drop 2) 2 (List.replicate nb 0) =
      some ([fc, UInt8.ofNat nb] ++ List.replicate nb 0 ++ m.out.drop (nb + 2)) := by
    rw [copyIn_append [fc, UInt8.ofNat nb] (show 2 = [fc, UInt8.ofNat nb].length from rfl)
      (by rw [List.length_replicate, List.length_drop]; omega), List.length_replicate, List.drop_drop,
      Nat.add_comm 2]
  have fourth := readBits_append (rd m.regs) (getBe16 q0 q1).toNat 0 (getBe16 a0 a1)
    (by simp; omega : 2 + nb ≤ ([fc, UInt8.ofNat nb] ++ List.replicate nb 0).length) (by omega) (m.out.drop (nb + 2))
  rw [ran] at fourth
  simp only [Option.bind_eq_bind, first, second, third, fourth, Option.map_some, Option.bind_some, size]
  rfl

theorem fcReadBits_answered (read : fc = 1 ∨ fc = 2 ∨ fc = 3 ∨ fc = 4) (rd : RegMap → UInt16 → Option Bool)
    (d : List UInt8) : Answered fc fun out => fcReadBits fc rd ⟨srv, out, regs, hooks⟩ d := by
  obtain ⟨a0, a1, q0, q1, rfl⟩ | other := four_bytes d
  · by_cases quantity : getBe16 q0 q1 = 0 ∨ getBe16 q0 q1 > 2000
    · simp only [fcReadBits, if_pos quantity]
      exact answered_excRsp (.inr (.inr rfl))
    have top : (getBe16 q0 q1).toNat ≤ 2000 :=
      UInt16.le_iff_toNat_le.1 (UInt16.not_lt.1 fun big => quantity (.inr big))
    generalize bytes : ((getBe16 q0 q1).toNat - 1) / 8 + 1 = nb
    obtain ⟨rsp, ok, ran, length, head⟩ := readBits_total (rd regs) (getBe16 q0 q1).toNat 0 (getBe16 a0 a1)
      ([fc, UInt8.ofNat nb] ++ List.replicate nb 0) (by simp; omega : 2 + nb ≤ _) (by omega)
    have size : rsp.length = nb + 2 := by rw [length]; simp
    refine answered_filled srv regs hooks ok rsp (fun _ => wellFormed_read read size (by omega) head) fun out full => ?_
    exact ⟨rsp ++ out.drop (nb + 2), by simp [size, full]; omega, fun _ => List.take_left ..,
      fcReadBits_filled (m := ⟨srv, out, regs, hooks⟩) full quantity bytes ran size⟩
  · refine answered_dropped (fcReadBits fc rd) fun m => ?_
    unfold fcReadBits
    split
    · exact absurd rfl (other _ _ _ _)
    · rfl

theorem fcReadRegs_filled {m : Mb} (full : m.out.length = 256) (fc : UInt8) {size : ℕ} (table : size < 2 ^ 16)
    (rd : RegMap → Hooks → UInt16 → UInt16) {a0 a1 q0 q1 : UInt8}
    (quantity : ¬(getBe16 q0 q1 = 0 ∨ getBe16 q0 q1 > 125)) (area : ¬getBe16 a0 a1 ≥ mbFpExtensionsAddr) :
    ∃ out', out'.length = 256 ∧
      ((getBe16 a0 a1).toNat + (getBe16 q0 q1).toNat ≤ size →
        out'.take ((getBe16 q0 q1).toNat * 2 + 2) = [fc, UInt8.ofNat ((getBe16 q0 q1).toNat * 2)] ++
          words (rd m.regs m.hooks) (getBe16 q0 q1).toNat (getBe16 a0 a1)) ∧
      fcReadRegs fc size (fun m => rd m.regs m.hooks) m [a0, a1, q0, q1] =
        if decide ((getBe16 a0 a1).toNat + (getBe16 q0 q1).toNat ≤ size) then
          some ({ m with out := out' }, (getBe16 q0 q1).toNat * 2 + 2)
        else excRsp { m with out := out' } fc mbExcIllegalDataAddr := by
  have pos : (getBe16 q0 q1).toNat ≠ 0 := fun zero => quantity (.inl (UInt16.toNat_inj.1 zero))
  have top : (getBe16 q0 q1).toNat ≤ 125 :=
    UInt16.le_iff_toNat_le.1 (UInt16.not_lt.1 fun big => quantity (.inr big))
  simp only [fcReadRegs, if_neg quantity, if_neg area]
  generalize (getBe16 q0 q1).toNat = qty at pos top
  obtain ⟨started, first, second⟩ := put_two (by omega : 2 ≤ m.out.length) fc (UInt8.ofNat (qty * 2))
  obtain ⟨out', ran, length, whole⟩ := readRegs_words table (rd m.regs m.hooks) qty 0 (getBe16 a0 a1)
    (by simp [full]; omega : 2 + (0 + qty) * 2 ≤ ([fc, UInt8.ofNat (qty * 2)] ++ m.out.drop 2).length)
  refine ⟨out', by rw [length]; simp [full], fun fits => ?_, ?_⟩
  · rw [show qty * 2 + 2 = 2 + (0 + qty) * 2 by omega, whole (.inr fits)]
    rfl
  · simp only [Option.bind_eq_bind, first, second, ran, Option.bind_some, pos, false_or]
    rfl

theorem fcReadRegs_answered (read : fc = 1 ∨ fc = 2 ∨ fc = 3 ∨ fc = 4) {size : ℕ} (table : size < 2 ^ 16)
    (rd : RegMap → Hooks → UInt16 → UInt16) (d : List UInt8) :
    Answered fc fun out => fcReadRegs fc size (fun m => rd m.regs m.hooks) ⟨srv, out, regs, hooks⟩ d := by
  obtain ⟨a0, a1, q0, q1, rfl⟩ | other := four_bytes d
  · by_cases quantity : getBe16 q0 q1 = 0 ∨ getBe16 q0 q1 > 125
    · simp only [fcReadRegs, if_pos quantity]
      exact answered_excRsp (.inr (.inr rfl))
    by_cases area : getBe16 a0 a1 ≥ mbFpExtensionsAddr
    · simp only [fcReadRegs, if_neg quantity, if_pos area]
      exact answered_excRsp (.inl rfl)
    have top : (getBe16 q0 q1).toNat ≤ 125 :=
      UInt16.le_iff_toNat_le.1 (UInt16.not_lt.1 fun big => quantity (.inr big))
    have total : ([fc, UInt8.ofNat ((getBe16 q0 q1).toNat * 2)] ++
        words (rd regs hooks) (getBe16 q0 q1).toNat (getBe16 a0 a1)).length = (getBe16 q0 q1).toNat * 2 + 2 := by
      simp [length_words]
      omega
    refine answered_filled srv regs hooks (decide ((getBe16 a0 a1).toNat + (getBe16 q0 q1).toNat ≤ size)) _
      (fun _ => wellFormed_read read total (by omega) rfl) fun out full => ?_
    rw [total]
    obtain ⟨out', length, whole, ran⟩ :=
      fcReadRegs_filled (m := ⟨srv, out, regs, hooks⟩) full fc table rd quantity area
    exact ⟨out', length, fun fits => whole (of_decide_eq_true fits), ran⟩
  · refine answered_dropped (fcReadRegs fc size (fun m => rd m.regs m.hooks)) fun m => ?_
    unfold fcReadRegs
    split
    · exact absurd rfl (other _ _ _ _)
    · rfl

/-! ## Writes and diagnostics -/

theorem fc05_answered (d : List UInt8) : Answered mbFc05CoilWr fun out => fc05 ⟨srv, out, regs, hooks⟩ d := by
  obtain ⟨a0, a1, v0, v1, rfl⟩ | other := four_bytes d
  · simp only [fc05]
    rcases regs.ioWriteDoBit (getBe16 a0 a1) (getBe16 v0 v1 != 0) hooks with _ | ⟨regs', hooks'⟩
    · exact answered_excRsp (.inr (.inl rfl))
    · exact answered_echo (by decide) _ _
  · refine answered_dropped fc05 fun m => ?_
    unfold fc05
    split
    · exact absurd rfl (other _ _ _ _)
    · rfl

theorem fc06_answered (d : List UInt8) : Answered mbFc06HoldingRegWr fun out => fc06 ⟨srv, out, regs, hooks⟩ d := by
  obtain ⟨a0, a1, v0, v1, rfl⟩ | other := four_bytes d
  · simp only [fc06]
    rcases regs.ioWriteHolding (getBe16 a0 a1) (getBe16 v0 v1) hooks with _ | ⟨regs', hooks'⟩
    · exact answered_excRsp (.inr (.inl rfl))
    · exact answered_echo (by decide) _ _
  · refine answered_dropped fc06 fun m => ?_
    unfold fc06
    split
    · exact absurd rfl (other _ _ _ _)
    · rfl

theorem fc08_answered (d : List UInt8) : Answered mbFc08Diagnostics fun out => fc08 ⟨srv, out, regs, hooks⟩ d := by
  obtain ⟨s0, s1, d0, d1, rfl⟩ | other := four_bytes d
  · simp only [fc08]
    -- the seven subfunctions
    iterate 7
      apply Answered.ite
      · intro _
        exact answered_echo (by decide) _ _
      intro _
    exact answered_excRsp (.inl rfl)
  · refine answered_dropped fc08 fun m => ?_
    unfold fc08
    split
    · exact absurd rfl (other _ _ _ _)
    · rfl

/-- The multi-writes drop a request of less than six bytes. -/
theorem six_bytes (d : List UInt8) :
    (∃ a0 a1 q0 q1 nb d5 rest, d = a0 :: a1 :: q0 :: q1 :: nb :: d5 :: rest) ∨
      ∀ a0 a1 q0 q1 nb d5 rest, d ≠ a0 :: a1 :: q0 :: q1 :: nb :: d5 :: rest := by
  by_cases shape : ∃ a0 a1 q0 q1 nb d5 rest, d = a0 :: a1 :: q0 :: q1 :: nb :: d5 :: rest
  · exact .inl shape
  · exact .inr fun a0 a1 q0 q1 nb d5 rest same => shape ⟨a0, a1, q0, q1, nb, d5, rest, same⟩

theorem answered_written (other : ¬(fc = 1 ∨ fc = 2 ∨ fc = 3 ∨ fc = 4)) (ok : Bool) (a b : UInt16) :
    Answered fc fun out =>
      if ok then echo ⟨srv, out, regs, hooks⟩ fc a b
      else excRsp ⟨srv, out, regs, hooks⟩ fc mbExcIllegalDataAddr := by
  apply Answered.ite
  · intro _
    exact answered_echo other a b
  · intro _
    exact answered_excRsp (.inr (.inl rfl))

theorem fc15_answered (d : List UInt8) : Answered mbFc15CoilsWr fun out => fc15 ⟨srv, out, regs, hooks⟩ d := by
  obtain ⟨a0, a1, q0, q1, nb, d5, rest, rfl⟩ | other := six_bytes d
  · simp only [fc15]
    apply Answered.ite
    · intro _
      exact answered_excRsp (.inr (.inr rfl))
    intro quantity
    apply Answered.ite
    · intro _
      exact answered_excRsp (.inr (.inr rfl))
    intro count
    have pos : 0 < getBe16 q0 q1 := UInt16.pos_iff_ne_zero.2 fun zero => quantity (.inl zero)
    have covered : 0 + (getBe16 q0 q1).toNat ≤ 8 * (d5 :: rest).length := by
      rw [toNat_numBytes pos] at count
      simp only [List.length_cons] at count ⊢
      omega
    simp only [writeCoils_eq _ _ _ _ _ _ _ covered (by simp), Option.bind_eq_bind, Option.bind_some]
    exact answered_written (by decide) _ _ _
  · refine answered_dropped fc15 fun m => ?_
    unfold fc15
    split
    · exact absurd rfl (other _ _ _ _ _ _ _)
    · rfl

theorem fc16_answered {d : List UInt8} (short : d.length ≤ 255) :
    Answered mbFc16HoldingRegsWr fun out => fc16 ⟨srv, out, regs, hooks⟩ d := by
  obtain ⟨a0, a1, q0, q1, nb, d5, rest, rfl⟩ | other := six_bytes d
  · simp only [fc16]
    simp only [List.length_cons] at short ⊢
    apply Answered.ite
    · intro _
      exact answered_excRsp (.inr (.inr rfl))
    intro quantity
    apply Answered.ite
    · intro _
      exact answered_excRsp (.inl rfl)
    intro _
    have pos : 0 < getBe16 q0 q1 := UInt16.pos_iff_ne_zero.2 fun zero => quantity (.inl zero)
    have top : getBe16 q0 q1 ≤ 125 := UInt16.not_lt.1 fun big => quantity (.inr big)
    -- neither the subtraction nor the division fails
    apply Answered.ite
    · intro below
      omega
    intro _
    apply Answered.ite
    · intro _
      exact answered_excRsp (.inr (.inr rfl))
    intro len
    apply Answered.ite
    · intro zero
      exact absurd zero (toUInt8_ne_zero pos top)
    intro _
    apply Answered.ite
    · intro _
      exact answered_excRsp (.inr (.inr rfl))
    intro ratio
    have covered : 2 * (0 + (getBe16 q0 q1).toNat) ≤ (d5 :: rest).length := by
      have := regs_enough pos top (not_not.1 ratio)
      simp only [List.length_cons]
      omega
    simp only [writeRegs_eq _ _ _ _ _ _ covered, Option.bind_eq_bind, Option.bind_some]
    exact answered_written (by decide) _ _ _
  · refine answered_dropped fc16 fun m => ?_
    unfold fc16
    split
    · exact absurd rfl (other _ _ _ _ _ _ _)
    · rfl

/-- Every request has its response, whatever the buffer held before. -/
theorem process_answered (srv : MbServer) (regs : RegMap) (hooks : Hooks) (fc : UInt8) {d : List UInt8}
    (short : d.length ≤ 255) : Answered fc fun out => process ⟨srv, out, regs, hooks⟩ (fc :: d) := by
  simp only [process]
  apply Answered.ite
  · rintro rfl
    exact fcReadBits_answered (.inl rfl) _ d
  intro _
  apply Answered.ite
  · rintro rfl
    exact fcReadBits_answered (.inr (.inl rfl)) _ d
  intro _
  apply Answered.ite
  · rintro rfl
    exact fcReadRegs_answered (.inr (.inr (.inl rfl))) (by decide) (fun r h addr => r.ioReadHolding addr h) d
  intro _
  apply Answered.ite
  · rintro rfl
    exact fcReadRegs_answered (.inr (.inr (.inr rfl))) (by decide) (fun r _ addr => r.getInput addr) d
  intro _
  apply Answered.ite
  · rintro rfl
    exact fc05_answered d
  intro _
  apply Answered.ite
  · rintro rfl
    exact fc06_answered d
  intro _
  apply Answered.ite
  · rintro rfl
    exact fc08_answered d
  intro _
  apply Answered.ite
  · rintro rfl
    exact fc15_answered d
  intro _
  apply Answered.ite
  · rintro rfl
    exact fc16_answered short
  intro _
  exact answered_excRsp (.inl rfl)

end Handlers

end Mb

/-! ## TCP replies -/

/-- The reply of `n` bytes in `out` has the transaction and the unit of the request, and its length
field counts what follows it. -/
def EchoesHeader (adu out : List UInt8) (n : ℕ) : Prop :=
  out.take 2 = adu.take 2 ∧ out[6]? = adu[6]? ∧
    ∃ l0 l1, (out.drop 4).take 2 = [l0, l1] ∧ (getBe16 l0 l1).toNat = n - 6

/-- A reply begins with the transaction, the protocol, the length and the unit. -/
theorem echoesHeader_of {adu rest : List UInt8} {t0 t1 unitId : UInt8} {protoId len : UInt16} {n : ℕ}
    (trans : adu.take 2 = [t0, t1]) (unit : adu[6]? = some unitId) (length : len.toNat = n - 6) :
    EchoesHeader adu (putBe16 (getBe16 t0 t1) ++ putBe16 protoId ++ putBe16 len ++ unitId :: rest) n := by
  refine ⟨?_, ?_, (len >>> 8).toUInt8, len.toUInt8, rfl, ?_⟩
  · rw [putBe16_getBe16, trans]
    rfl
  · rw [unit]
    rfl
  · rw [getBe16_putBe16, length]

/-- `decode` gives the response that the request has in every buffer. -/
theorem MbBus.decode_answered (b : MbBus) {pdu : List UInt8} (nonempty : pdu ≠ []) (short : pdu.length ≤ 256) :
    ∃ b' rsp, rsp.length ≤ 252 ∧ ∀ out, out.length = 256 →
      ∃ out', b.decode pdu out = some (b', out', rsp.length) ∧ out'.length = 256 ∧ out'.take rsp.length = rsp := by
  obtain ⟨fc, d, rfl⟩ := List.exists_cons_of_ne_nil nonempty
  rw [List.length_cons] at short
  obtain ⟨srv, regs, hooks, rsp, formed, all⟩ := Mb.process_answered b.srv b.regs b.hooks fc (by omega : d.length ≤ 255)
  refine ⟨⟨srv, regs, hooks, b.decoded ++ [(fc :: d, rsp)]⟩, rsp, formed.1, fun out full => ?_⟩
  obtain ⟨out', ran, length, whole⟩ := all out full
  dsimp only at ran
  refine ⟨out', ?_, length, whole⟩
  rw [decode, ran, Option.map_some, whole]

/-- The PDU of an ADU: what follows the header, as far as the length field goes. -/
def aduPdu (l0 l1 fc : UInt8) (rest : List UInt8) : List UInt8 :=
  (fc :: rest).take (mbtcpPduLen (getBe16 l0 l1) (rest.length + 8))

theorem length_aduPdu (l0 l1 fc : UInt8) (rest : List UInt8) :
    (aduPdu l0 l1 fc rest).length = mbtcpPduLen (getBe16 l0 l1) (rest.length + 8) := by
  obtain ⟨-, -, inside⟩ := mbtcpPduLen_le (getBe16 l0 l1) (by omega : 8 ≤ rest.length + 8)
  rw [aduPdu, List.length_take, List.length_cons]
  omega

/-- An ADU of this protocol: its PDU goes to the decoder, and the response follows the header. -/
theorem mbtcpAduProcess_own {b b' : MbBus} (t0 t1 : UInt8) {p0 p1 : UInt8} (own : getBe16 p0 p1 = 0)
    (l0 l1 unitId fc : UInt8) (rest : List UInt8) {out out' : List UInt8} (room : out.length = mbtcpAduTxMax)
    {n : ℕ} (ran : b.decode (aduPdu l0 l1 fc rest) (out.drop 7) = some (b', out', n)) :
    mbtcpAduProcess b (t0 :: t1 :: p0 :: p1 :: l0 :: l1 :: unitId :: fc :: rest) out =
      if unitId = 0 ∨ n = 0 then some (b'.count .noResp, out.take 7 ++ out', 0)
      else some (b', putBe16 (getBe16 t0 t1) ++ putBe16 0 ++ putBe16 (UInt16.ofNat n + 1) ++ unitId :: out',
        7 + n) := by
  have size : mbtcpAduTxMax = 263 := rfl
  obtain ⟨-, -, inside⟩ := mbtcpPduLen_le (getBe16 l0 l1) (by omega : 8 ≤ rest.length + 8)
  have cut : slice (t0 :: t1 :: p0 :: p1 :: l0 :: l1 :: unitId :: fc :: rest) 7
      (7 + mbtcpPduLen (getBe16 l0 l1) (rest.length + 8)) = some (aduPdu l0 l1 fc rest) := by
    rw [slice_eq (by omega) (by simp only [List.length_cons]; omega), Nat.add_sub_cancel_left]
    rfl
  have header : (out.take 7).length = 7 := by
    rw [List.length_take]
    omega
  have behind : (out.take 7 ++ out').drop 7 = out' := List.drop_left' header
  simp only [mbtcpAduProcess, List.length_cons, cut, own, ran, Option.bind_some]
  rw [if_neg (by omega), if_neg (by simp), mbtcpReply_eq (by rw [List.length_append]; omega), behind]
  simp

theorem mbtcpAduProcess_echoes (b : MbBus) (adu : List UInt8) {out : List UInt8} (room : out.length = mbtcpAduTxMax) :
    ∃ b' out' n, mbtcpAduProcess b adu out = some (b', out', n) ∧ (n ≠ 0 → EchoesHeader adu out' n) := by
  have size : mbtcpAduTxMax = 263 := rfl
  by_cases whole : ∃ t0 t1 p0 p1 l0 l1 unitId fc rest, adu = t0 :: t1 :: p0 :: p1 :: l0 :: l1 :: unitId :: fc :: rest
  · obtain ⟨t0, t1, p0, p1, l0, l1, unitId, fc, rest, rfl⟩ := whole
    by_cases own : getBe16 p0 p1 = 0
    · obtain ⟨least, most, -⟩ := mbtcpPduLen_le (getBe16 l0 l1) (by omega : 8 ≤ rest.length + 8)
      rw [← length_aduPdu l0 l1 fc rest] at least most
      obtain ⟨b', rsp, small, all⟩ := b.decode_answered (List.ne_nil_of_length_pos least) (by omega)
      obtain ⟨out', ran, -, -⟩ := all (out.drop 7) (by rw [List.length_drop]; omega)
      rw [mbtcpAduProcess_own t0 t1 own l0 l1 unitId fc rest room ran]
      split
      · exact ⟨_, _, 0, rfl, fun silent => absurd rfl silent⟩
      · refine ⟨_, _, _, rfl, fun _ => echoesHeader_of rfl rfl ?_⟩
        rw [UInt16.toNat_add, UInt16.toNat_ofNat']
        have : (1 : UInt16).toNat = 1 := rfl
        omega
    · have refused : mbtcpAduProcess b (t0 :: t1 :: p0 :: p1 :: l0 :: l1 :: unitId :: fc :: rest) out =
          some (b, putBe16 (getBe16 t0 t1) ++ putBe16 (getBe16 p0 p1) ++ putBe16 3 ++
            unitId :: ([fc ||| 0x80, mbExcServerDeviceFailure] ++ out.drop 9), 9) := by
        rw [mbtcpAduProcess, if_neg (by omega), if_pos own, mbtcpRefuse_eq (by omega)]
        simp
      exact ⟨b, _, 9, refused, fun _ => echoesHeader_of rfl rfl (by decide : (3 : UInt16).toNat = 9 - 6)⟩
  · have short : mbtcpAduProcess b adu out = some (b, out, 0) := by
      unfold mbtcpAduProcess
      split
      · exact absurd ⟨_, _, _, _, _, _, _, _, _, rfl⟩ whole
      · rfl
    exact ⟨b, out, 0, short, fun silent => absurd rfl silent⟩

/-- Every request PDU has one well-formed response of at most 252 bytes, whatever the output buffer held
before, and no access leaves a buffer.  A TCP reply is addressed as its request and counts its length. -/
theorem replies_wellFormed :
    (∀ (fc : UInt8) (d : List UInt8), d.length ≤ 255 → ∀ srv regs hooks,
      ∃ srv' regs' hooks' rsp, Mb.WellFormed fc rsp ∧ ∀ out : Vector UInt8 256, ∃ out',
        Mb.process ⟨srv, out.toList, regs, hooks⟩ (fc :: d) = some (⟨srv', out', regs', hooks'⟩, rsp.length) ∧
          out'.length = 256 ∧ out'.take rsp.length = rsp) ∧
    ∀ (b : MbBus) (adu : List UInt8) (out : Vector UInt8 mbtcpAduTxMax), ∃ b' out' n,
      mbtcpAduProcess b adu out.toList = some (b', out', n) ∧ (n ≠ 0 → EchoesHeader adu out' n) := by
  constructor
  · intro fc d short srv regs hooks
    obtain ⟨srv', regs', hooks', rsp, formed, all⟩ := Mb.process_answered srv regs hooks fc short
    exact ⟨srv', regs', hooks', rsp, formed, fun out => all out.toList out.length_toList⟩
  · intro b adu out
    exact mbtcpAduProcess_echoes b adu out.length_toList

/-- A request for the eight coils. -/
theorem replies_wellFormed_coils :
    [(0 : UInt8), 0, 0, 8].length ≤ 255 ∧
      ∃ srv' regs' hooks' rsp, Mb.WellFormed 1 rsp ∧ ∀ out : Vector UInt8 256, ∃ out',
        Mb.process ⟨.new, out.toList, .new 0, ⟨[], 0⟩⟩ [1, 0, 0, 0, 8] =
            some (⟨srv', out', regs', hooks'⟩, rsp.length) ∧
          out'.length = 256 ∧ out'.take rsp.length = rsp :=
  ⟨by decide, replies_wellFormed.1 1 [0, 0, 0, 8] (by decide) .new (.new 0) ⟨[], 0⟩⟩

/-! ## One request on both transports -/

/-- A PDU as an RTU frame. -/
def rtuAdu (unit : UInt8) (pdu : List UInt8) : List UInt8 := (unit :: pdu) ++ crcLe (unit :: pdu)

/-- A PDU as a TCP ADU. -/
def tcpAdu (transId : UInt16) (unit : UInt8) (pdu : List UInt8) : List UInt8 :=
  putBe16 transId ++ putBe16 0 ++ putBe16 (UInt16.ofNat (pdu.length + 1)) ++ unit :: pdu

theorem mbtcpPduLen_own {k : ℕ} (nonempty : 1 ≤ k) (short : k ≤ 253) :
    mbtcpPduLen (UInt16.ofNat (k + 1)) (k + 7) = k := by
  have value : (UInt16.ofNat (k + 1)).toNat = k + 1 := by
    rw [UInt16.toNat_ofNat']
    omega
  have clamp : min (UInt16.ofNat (k + 1)) mbtcpMbapLenClamp = UInt16.ofNat (k + 1) := by
    apply if_pos
    rw [UInt16.le_iff_toNat_le, value]
    exact (by omega : k + 1 ≤ 256)
  have two : UInt16.ofNat (k + 1) ≥ 2 := by
    rw [ge_iff_le, UInt16.le_iff_toNat_le, value]
    exact (by omega : 2 ≤ k + 1)
  have length : (UInt16.ofNat (k + 1) - 2 + 1).toNat = k := by
    rw [UInt16.toNat_add, UInt16.toNat_sub, value]
    simp only [UInt16.reduceToNat]
    omega
  unfold mbtcpPduLen
  dsimp only
  rw [clamp, if_pos two, length]
  omega

theorem accepts_rtuAdu (unit : UInt8) {pdu : List UInt8} (nonempty : 1 ≤ pdu.length) (short : pdu.length ≤ 253) :
    RtuFrame.Accepts unit (rtuAdu unit pdu) := by
  have length : (rtuAdu unit pdu).length = pdu.length + 3 := by simp [rtuAdu, crcLe, putLe16]
  exact ⟨by omega, by omega, RtuFrame.crcOk_append _, .inr rfl⟩

section Response

variable {b b' : MbBus} {unit : UInt8} {pdu rsp : List UInt8}

theorem expired_rtuAdu (nonempty : 1 ≤ pdu.length) (short : pdu.length ≤ 253) (unicast : unit ≠ 0) {o : List UInt8}
    (decoded : b.decode pdu (List.replicate mbServerPduMax 0) = some (b', o, rsp.length)) (full : o.length = 256)
    (whole : o.take rsp.length = rsp) (small : rsp.length ≤ 252) {tx : List UInt8} (room : tx.length = 259) :
    if rsp = [] then RtuFrame.expired unit (rtuAdu unit pdu) b tx = some (b'.count .noResp, tx, none)
    else ∃ tx', RtuFrame.expired unit (rtuAdu unit pdu) b tx = some (b', tx', some (rsp.length + 3)) ∧
      tx'.take (rsp.length + 3) = rtuAdu unit rsp := by
  have length : (rtuAdu unit pdu).length = pdu.length + 3 := by simp [rtuAdu, crcLe, putLe16]
  have inner : ((rtuAdu unit pdu).drop 1).take ((rtuAdu unit pdu).length - 3) = pdu := by
    rw [length, Nat.add_sub_cancel]
    exact List.take_left
  have expires := RtuFrame.expired_of_accepts b tx (accepts_rtuAdu unit nonempty short)
  rw [inner, show (rtuAdu unit pdu).headD 0 = unit from rfl, rtuDeliver, decoded, Option.bind_some] at expires
  split
  · rename_i silent
    rw [expires, silent]
    rfl
  · rename_i answered
    obtain ⟨tx', replied, -, frame⟩ := RtuFrame.rtuReply_eq room full small unit
    rw [if_neg (by simp [answered, unicast]), replied] at expires
    refine ⟨tx', expires, ?_⟩
    rw [frame, whole]
    rfl

theorem mbtcpAduProcess_tcpAdu (nonempty : 1 ≤ pdu.length) (short : pdu.length ≤ 253) (unicast : unit ≠ 0)
    (transId : UInt16) {out o : List UInt8} (room : out.length = mbtcpAduTxMax)
    (decoded : b.decode pdu (out.drop 7) = some (b', o, rsp.length)) (whole : o.take rsp.length = rsp) :
    if rsp = [] then mbtcpAduProcess b (tcpAdu transId unit pdu) out = some (b'.count .noResp, out.take 7 ++ o, 0)
    else ∃ out', mbtcpAduProcess b (tcpAdu transId unit pdu) out = some (b', out', 7 + rsp.length) ∧
      out'.take (7 + rsp.length) = tcpAdu transId unit rsp := by
  obtain ⟨fc, d, rfl⟩ := List.exists_cons_of_length_pos nonempty
  rw [List.length_cons] at nonempty short
  have len := getBe16_putBe16 (UInt16.ofNat (d.length + 1 + 1))
  generalize high : (UInt16.ofNat (d.length + 1 + 1) >>> 8).toUInt8 = l0 at len
  generalize low : (UInt16.ofNat (d.length + 1 + 1)).toUInt8 = l1 at len
  have request : tcpAdu transId unit (fc :: d) =
      (transId >>> 8).toUInt8 :: transId.toUInt8 :: 0 :: 0 :: l0 :: l1 :: unit :: fc :: d := by
    rw [← high, ← low]
    rfl
  have inner : aduPdu l0 l1 fc d = fc :: d := by
    rw [aduPdu, len, mbtcpPduLen_own nonempty short]
    exact List.take_of_length_le le_rfl
  rw [← inner] at decoded
  have ran := mbtcpAduProcess_own (transId >>> 8).toUInt8 transId.toUInt8 (by decide : getBe16 0 0 = 0) l0 l1 unit fc d
    room decoded
  rw [← request, getBe16_putBe16] at ran
  split
  · rename_i silent
    rw [ran, if_pos (.inr (List.length_eq_zero_iff.2 silent))]
  · rename_i answered
    rw [if_neg (by simp [answered, unicast])] at ran
    refine ⟨_, ran, ?_⟩
    have next : UInt16.ofNat rsp.length + 1 = UInt16.ofNat (rsp.length + 1) := (UInt16.ofNat_add ..).symm
    have header : (putBe16 transId ++ putBe16 0 ++ putBe16 (UInt16.ofNat rsp.length + 1) ++ unit :: o).take
        (rsp.length + 7) = putBe16 transId ++ putBe16 0 ++ putBe16 (UInt16.ofNat rsp.length + 1) ++
          unit :: o.take rsp.length := rfl
    rw [Nat.add_comm, header, whole, next]
    rfl

end Response

/-- A PDU that arrives over either transport comes to the same server, registers and hook calls, and to
the same response: none on both, or one that is framed for each. -/
theorem transports_agree {pdu : List UInt8} (nonempty : 1 ≤ pdu.length) (short : pdu.length ≤ 253)
    {unit : UInt8} (unicast : unit ≠ 0) (transId : UInt16) (b : MbBus) (f : RtuFrame)
    (chunks : List (List UInt8)) (idle : f.Idle) (own : f.srvUnit = unit)
    (cut : chunks.flatten = rtuAdu unit pdu) (tx : Vector UInt8 259) (out : Vector UInt8 mbtcpAduTxMax) :
    ∃ b' f' tx' out' rsp,
      (f.feed chunks).t35Expired b tx.toList =
        some (f', b', tx', if rsp = [] then none else some (rsp.length + 3)) ∧
      mbtcpAduProcess b (tcpAdu transId unit pdu) out.toList =
        some (b', out', if rsp = [] then 0 else 7 + rsp.length) ∧
      (rsp ≠ [] → tx'.take (rsp.length + 3) = rtuAdu unit rsp ∧
        out'.take (7 + rsp.length) = tcpAdu transId unit rsp) := by
  obtain ⟨b', rsp, small, all⟩ := b.decode_answered (List.ne_nil_of_length_pos nonempty) (by omega)
  obtain ⟨o, decoded, full, whole⟩ := all (List.replicate mbServerPduMax 0) List.length_replicate
  obtain ⟨o', decoded', -, whole'⟩ := all (out.toList.drop 7) (by rw [List.length_drop, out.length_toList]; rfl)
  have rtu := expired_rtuAdu nonempty short unicast decoded full whole small tx.length_toList
  have tcp := mbtcpAduProcess_tcpAdu nonempty short unicast transId out.length_toList decoded' whole'
  by_cases silent : rsp = []
  · rw [if_pos silent] at rtu tcp
    obtain ⟨f', -, -, ran⟩ := RtuFrame.feed_t35Expired rtu f chunks idle own cut
    refine ⟨b'.count .noResp, f', tx.toList, out.toList.take 7 ++ o', rsp, ?_, ?_,
      fun answered => absurd silent answered⟩
    · rw [ran, if_pos silent]
    · rw [tcp, if_pos silent]
  · rw [if_neg silent] at rtu tcp
    obtain ⟨tx', expires, frame⟩ := rtu
    obtain ⟨out', processed, adu⟩ := tcp
    obtain ⟨f', -, -, ran⟩ := RtuFrame.feed_t35Expired expires f chunks idle own cut
    refine ⟨b', f', tx', out', rsp, ?_, ?_, fun _ => ⟨frame, adu⟩⟩
    · rw [ran, if_neg silent]
    · rw [processed, if_neg silent]

/-- A read request for the first holding register. -/
theorem transports_agree_read :
    ∃ b' f' tx' out' rsp,
      (RtuFrame.new.feed [rtuAdu 1 [3, 0, 0, 0, 1]]).t35Expired .fresh (Vector.replicate 259 0).toList =
        some (f', b', tx', if rsp = [] then none else some (rsp.length + 3)) ∧
      mbtcpAduProcess .fresh (tcpAdu 7 1 [3, 0, 0, 0, 1]) (Vector.replicate mbtcpAduTxMax 0).toList =
        some (b', out', if rsp = [] then 0 else 7 + rsp.length) ∧
      (rsp ≠ [] → tx'.take (rsp.length + 3) = rtuAdu 1 rsp ∧ out'.take (7 + rsp.length) = tcpAdu 7 1 rsp) :=
  transports_agree (by decide) (by decide) (by decide) 7 .fresh .new _ ⟨rfl, rfl⟩ rfl List.flatten_singleton _ _

end IoEdgeHub
