import IoEdgeHub.Firmware.CfgStored
import IoEdgeHub.Lib.Words
import IoEdgeHub.Proto.UdpCfg

/-!
# The ways to set the IP address

The address is set by the shell (`io ip`), by the web configuration and by the UDP command `SET_IP`, each
with a parser and a validity test of its own.  The shell reads octets of up to three digits and tests for
255 in the first octet only; the web reads them as Rust numbers; the web and UDP refuse a first octet from
224 on.
-/

namespace IoEdgeHub

open Bytes Text

/-- The words of a text are numerals for the four octets. -/
def Dotted (words : List (List Char)) (text : List Char) (ip : Vector UInt8 4) : Prop :=
  List.Forall₂ (Numeral 255) words (ip.toList.map UInt8.toNat) ∧ text = ['.'].intercalate words

/-- No sign and at most three digits. -/
def PlainOctet (w : List Char) : Prop := '+' ∉ w ∧ w.length ≤ 3

instance (w : List Char) : Decidable (PlainOctet w) := inferInstanceAs (Decidable (_ ∧ _))

/-! ## Parsers -/

theorem forall₂_octets {words : List (List Char)} {n₁ n₂ n₃ n₄ : ℕ}
    (numerals : List.Forall₂ (Numeral 255) words [n₁, n₂, n₃, n₄]) :
    List.Forall₂ (Numeral 255) words
      ((quad (UInt8.ofNat n₁) (UInt8.ofNat n₂) (UInt8.ofNat n₃) (UInt8.ofNat n₄)).toList.map UInt8.toNat) := by
  have small := le_of_forall₂ numerals
  obtain ⟨a, rfl⟩ := exists_octet (small n₁ (by simp))
  obtain ⟨b, rfl⟩ := exists_octet (small n₂ (by simp))
  obtain ⟨c, rfl⟩ := exists_octet (small n₃ (by simp))
  obtain ⟨d, rfl⟩ := exists_octet (small n₄ (by simp))
  simp only [UInt8.ofNat_toNat]
  exact numerals

variable {text : List Char} {ip : Vector UInt8 4}

theorem Dotted.splitOn {words : List (List Char)} (dotted : Dotted words text ip) : text.splitOn '.' = words := by
  obtain ⟨numerals, rfl⟩ := dotted
  exact List.splitOn_intercalate '.' (not_mem_of_forall₂ (by decide) (by decide) numerals)
    (by rw [← List.length_pos_iff, numerals.length_eq]; simp)

theorem webParseIp_eq_some :
    WsSession.parseIp text = some ip ↔ ∃ words, Dotted words text ip := by
  unfold WsSession.parseIp
  constructor
  · intro parsed
    split at parsed
    case h_1 n₁ n₂ n₃ n₄ all =>
      cases parsed
      have each := Words.map_eq_map_some.1 (all.trans (by rfl : _ = [n₁, n₂, n₃, n₄].map some))
      exact ⟨_, forall₂_octets (each.imp fun w n => parseUnsigned_eq_some.1), (List.intercalate_splitOn '.').symm⟩
    case h_2 => cases parsed
  · rintro ⟨words, dotted⟩
    obtain ⟨a, b, c, d, rfl⟩ := exists_quad ip
    have all := Words.map_eq_map_some.2 (dotted.1.imp fun w n => parseUnsigned_eq_some.2)
    rw [dotted.splitOn, all]
    simp [quad]

theorem isDigit_ascii {c : Char} (digit : c.isDigit = true) : c.toNat < 128 := by
  simp only [Char.isDigit, Bool.and_eq_true, decide_eq_true_eq, ge_iff_le, UInt32.le_iff_toNat_le] at digit
  exact Nat.lt_of_le_of_lt digit.2 (by decide)

/-- The shell's octets are the numerals without a sign and with at most three digits. -/
theorem parseOctet_eq_some {w : List Char} {n : ℕ} :
    Shell.parseOctet w = some n ↔ PlainOctet w ∧ Numeral 255 w n := by
  have digits_iff (numeral : Numeral 255 w n) : (∀ c ∈ w, c.isDigit = true) ↔ '+' ∉ w := by
    constructor
    · exact fun all plus => absurd (all '+' plus) (by decide)
    · exact fun unsigned c mem => (numeral.chars c mem).resolve_left fun h => unsigned (h ▸ mem)
  have size (all : ∀ c ∈ w, c.isDigit = true) : byteLen w = w.length :=
    byteLen_ascii fun c mem => isDigit_ascii (all c mem)
  unfold Shell.parseOctet PlainOctet
  constructor
  · intro read
    split at read
    case isTrue => cases read
    case isFalse good =>
      have numeral := parseUnsigned_eq_some.1 read
      obtain ⟨⟨-, short⟩, all⟩ : (w ≠ [] ∧ byteLen w ≤ 3) ∧ ∀ c ∈ w, c.isDigit = true := by simpa using good
      exact ⟨⟨(digits_iff numeral).1 all, size all ▸ short⟩, numeral⟩
  · rintro ⟨⟨unsigned, short⟩, numeral⟩
    have all := (digits_iff numeral).2 unsigned
    have some : w ≠ [] := by
      obtain ⟨_, rfl | rfl, some, -⟩ := numeral
      · exact some
      · exact List.cons_ne_nil _ _
    rw [if_neg (by simpa [some, size all] using ⟨short, all⟩)]
    exact parseUnsigned_eq_some.2 numeral

theorem shellParseIp_eq_some :
    Shell.parseIp text = some ip ↔ ∃ words, Dotted words text ip ∧ ∀ w ∈ words, PlainOctet w := by
  unfold Shell.parseIp
  constructor
  · intro parsed
    split at parsed
    case h_1 n₁ n₂ n₃ n₄ all =>
      cases parsed
      have each := Words.map_eq_map_some.1 (all.trans (by rfl : _ = [n₁, n₂, n₃, n₄].map some))
      obtain ⟨plain, numerals⟩ := (List.forall₂_and_left _ _).1 (each.imp fun w n => parseOctet_eq_some.1)
      exact ⟨_, ⟨forall₂_octets numerals, (List.intercalate_splitOn '.').symm⟩, plain⟩
    case h_2 => cases parsed
  · rintro ⟨words, dotted, plain⟩
    obtain ⟨a, b, c, d, rfl⟩ := exists_quad ip
    have all := Words.map_eq_map_some.2
      (((List.forall₂_and_left _ _).2 ⟨plain, dotted.1⟩).imp fun w n => parseOctet_eq_some.2)
    rw [dotted.splitOn, all]
    simp [quad]

/-! ## Registers -/

/-- The address registers hold the four octets. -/
def HoldsIp (r : RegMap) (ip : Vector UInt8 4) : Prop :=
  ∀ i : Fin 4, r.getHolding (UInt16.ofNat (holdingIpOctet1Idx + i)) = (ip.get i).toUInt16

theorem HoldsIp.unique {r : RegMap} {ip' : Vector UInt8 4} (holds : HoldsIp r ip) (holds' : HoldsIp r ip') :
    ip = ip' := by
  refine Vector.ext fun i inside => ?_
  have same := congrArg UInt16.toNat ((holds ⟨i, inside⟩).symm.trans (holds' ⟨i, inside⟩))
  rw [UInt8.toNat_toUInt16, UInt8.toNat_toUInt16] at same
  exact UInt8.toNat_inj.1 same

/-- The registers with an address in them. -/
def withIp (r : RegMap) (ip : Vector UInt8 4) : RegMap :=
  (CfgPlan.ipWrites ip).foldl (fun r w => (r.updateHolding w.1 w.2).getD r) r

theorem holdsIp_withIp (r : RegMap) (ip : Vector UInt8 4) : HoldsIp (withIp r ip) ip := by
  rintro ⟨i, inside⟩
  have written : (withIp r ip).holding = (((r.holding.set 10 (ip.get 0).toUInt16).set 11 (ip.get 1).toUInt16).set 12
      (ip.get 2).toUInt16).set 13 (ip.get 3).toUInt16 := rfl
  rw [RegMap.getHolding, written]
  interval_cases i
  · simp [holdingIpOctet1Idx]
  · simp [holdingIpOctet1Idx]
  · simp [holdingIpOctet1Idx]
  · simp [holdingIpOctet1Idx]

/-! ## The shell -/

/-- The characters between the words of a line. -/
def isBlankChar (c : Char) : Bool := c == ' ' || c == '\t'

/-- The words of a text. -/
def blankWords (text : List Char) : List (List Char) := (text.splitOnP isBlankChar).filter (· ≠ [])

theorem utf8EncodeChar_blank (c : Char) (blank : isBlankChar c = true) :
    ∃ b : UInt8, String.utf8EncodeChar c = [b] ∧ (b == 0x20 || b == 0x09) = true := by
  simp only [isBlankChar, Bool.or_eq_true, beq_iff_eq] at blank
  rcases blank with rfl | rfl
  · exact ⟨0x20, by decide, rfl⟩
  · exact ⟨0x09, by decide, rfl⟩

theorem utf8EncodeChar_solid (c : Char) (solid : isBlankChar c = false) :
    ∀ b ∈ String.utf8EncodeChar c, (b == 0x20 || b == 0x09) = false := by
  intro b mem
  rw [Bool.eq_false_iff]
  intro blank
  simp only [Bool.or_eq_true, beq_iff_eq] at blank
  have code := toNat_of_mem_utf8EncodeChar (by rcases blank with rfl | rfl <;> decide) mem
  have same : c = ' ' ∨ c = '\t' := by
    rcases blank with rfl | rfl
    · exact .inl (Char.toNat_inj.1 code)
    · exact .inr (Char.toNat_inj.1 code)
  rcases same with rfl | rfl <;> exact absurd solid (by decide)

/-- A typed line is cut into the words of its text. -/
theorem argv_utf8 (line : String) : Shell.argv (utf8 line) = (blankWords line.toList).take Shell.argMax := by
  have parts := Words.splitOnP_flatMap utf8EncodeChar_blank utf8EncodeChar_solid line.toList
  have filled : ((line.toList.splitOnP isBlankChar).map (·.flatMap String.utf8EncodeChar)).filter (· ≠ []) =
      (blankWords line.toList).map (·.flatMap String.utf8EncodeChar) := by
    rw [List.filter_map, blankWords]
    congr 1
    refine List.filter_congr fun w _ => ?_
    cases w with
    | nil => rfl
    | cons c w =>
      have some : String.utf8EncodeChar c ≠ [] := by
        rw [← List.length_pos_iff, String.length_utf8EncodeChar]
        exact c.utf8Size_pos
      simp [some]
  rw [Shell.argv, utf8_eq, parts, filled, ← List.map_take, List.map_map]
  refine (List.map_congr_left fun w _ => ?_).trans (List.map_id _)
  have decoded : fromUtf8 (w.flatMap String.utf8EncodeChar) = some w := fromUtf8_eq_some_iff.2 rfl
  rw [Function.comp_apply, decoded]
  rfl

/-- The line that sets the address. -/
def ipLine (text : List Char) : List UInt8 := utf8 ("io ip " ++ String.ofList text)

/-- The shell takes a text for an address: on the line with it, it asks for the configuration to be saved, with the
octets stored. -/
def ShellAccepts (s : Shell) (text : List Char) (ip : Vector UInt8 4) : Prop :=
  (s.dispatch (ipLine text)).requests = s.requests ++ [.cfgSave] ∧ HoldsIp (s.dispatch (ipLine text)).regs ip

theorem foldl_regWrite (s : Shell) (ip : Vector UInt8 4) :
    (List.finRange 4).foldl (fun (s : Shell) (i : Fin 4) =>
      (s.regWrite (UInt16.ofNat (holdingIpOctet1Idx + i)) (ip.get i).toUInt16).1) s =
      { s with regs := withIp s.regs ip } := by
  have all : List.finRange 4 = [0, 1, 2, 3] := by decide
  rw [all]
  simp only [List.foldl_cons, List.foldl_nil]
  rw [Shell.regWrite_config _ (by decide) (by decide), Shell.regWrite_config _ (by decide) (by decide),
    Shell.regWrite_config _ (by decide) (by decide), Shell.regWrite_config _ (by decide) (by decide)]
  rfl

theorem ioIp_cons (s : Shell) (word : List Char) (more : List (List Char)) :
    s.ioIp (word :: more) =
      match (Shell.parseIp word).filter Shell.ipValid with
      | none => s
      | some ip => Shell.request { s with regs := withIp s.regs ip } .cfgSave := by
  rw [Shell.ioIp]
  rcases Shell.parseIp word with _ | ip
  · rfl
  · dsimp only
    rw [foldl_regWrite]
    by_cases valid : Shell.ipValid ip = true
    · rw [Option.filter_some_pos valid]
      simp [valid]
    · rw [Option.filter_some_neg (Bool.not_eq_true _ ▸ valid)]
      simp [valid]

theorem blankWords_ipLine (text : List Char) :
    blankWords ("io ip ".toList ++ text) = "io".toList :: "ip".toList :: blankWords text := by
  have split : ("io ip ".toList ++ text).splitOnP isBlankChar =
      "io".toList :: "ip".toList :: text.splitOnP isBlankChar := by
    have front : "io ip ".toList ++ text = "io".toList ++ ' ' :: ("ip".toList ++ ' ' :: text) := rfl
    rw [front, List.splitOnP_append_cons _ _ rfl, List.splitOnP_append_cons _ _ rfl,
      List.splitOnP_eq_singleton (by simp [isBlankChar]), List.splitOnP_eq_singleton (by simp [isBlankChar])]
    rfl
  rw [blankWords, split]
  rfl

/-- The line sets the address that its text begins with; a text without a word sets none. -/
theorem dispatch_ipLine (s : Shell) (text : List Char) :
    s.dispatch (ipLine text) =
      match (blankWords text).head?.bind fun word => (Shell.parseIp word).filter Shell.ipValid with
      | none => s
      | some ip => Shell.request { s with regs := withIp s.regs ip } .cfgSave := by
  have words : Shell.argv (ipLine text) = "io".toList :: "ip".toList :: (blankWords text).take 4 := by
    have line : ("io ip " ++ String.ofList text).toList = "io ip ".toList ++ text :=
      String.toList_append.trans (congrArg ("io ip ".toList ++ ·) String.toList_ofList)
    rw [ipLine, argv_utf8, line, blankWords_ipLine]
    rfl
  have command : s.dispatch (ipLine text) = s.ioIp ((blankWords text).take 4) := by
    rw [Shell.dispatch, words]
    rfl
  rw [command]
  rcases blankWords text with _ | ⟨word, more⟩
  · rfl
  · rw [List.take_succ_cons, ioIp_cons, List.head?_cons, Option.bind_some]

/-- A word, written as the four octets, that the shell takes. -/
def PlainIp (word : List Char) (ip : Vector UInt8 4) : Prop :=
  Shell.ipValid ip = true ∧ ∃ words, Dotted words word ip ∧ ∀ w ∈ words, PlainOctet w

theorem filter_parseIp {word : List Char} :
    (Shell.parseIp word).filter Shell.ipValid = some ip ↔ PlainIp word ip := by
  rw [PlainIp, ← shellParseIp_eq_some, Option.filter_eq_some_iff, and_comm]

theorem shellAccepts_iff {s : Shell} :
    ShellAccepts s text ip ↔ ∃ word ∈ (blankWords text).head?, PlainIp word ip := by
  have read (ip : Vector UInt8 4) : ((blankWords text).head?.bind fun word =>
      (Shell.parseIp word).filter Shell.ipValid) = some ip ↔ ∃ word ∈ (blankWords text).head?, PlainIp word ip := by
    simp only [Option.bind_eq_some_iff, filter_parseIp, Option.mem_def]
  rw [← read, ShellAccepts, dispatch_ipLine]
  rcases (blankWords text).head?.bind fun word => (Shell.parseIp word).filter Shell.ipValid with _ | ip'
  · exact iff_of_false (fun accepted => by simp at accepted) nofun
  · constructor
    · rintro ⟨-, holds⟩
      rw [(holdsIp_withIp s.regs ip').unique holds]
    · rintro same
      obtain rfl := Option.some.inj same
      exact ⟨rfl, holdsIp_withIp _ _⟩

/-! ## The web -/

namespace WsSession

/-- The web configuration takes the address in its body: it does not complain about it, with the octets stored. -/
def Accepts (run : WsSession × Option String) (ip : Vector UInt8 4) : Prop :=
  run.2 ≠ some "invalid ip" ∧ HoldsIp run.1.regs ip

theorem fields_err {body : List UInt8} {table : List (String × (ℤ → Bool) × ℕ × String)} {p : CfgPlan}
    (h : CfgPlan.fields body table = some p) {err : String} (failed : p.err = some err) :
    err ∈ table.map (·.2.2.2) := by
  induction table generalizing p with
  | nil =>
    cases h
    cases failed
  | cons f rest ih =>
    cases fields_cons h with
    | absent _ tail => exact .tail _ (ih tail failed)
    | valid _ _ tail => exact .tail _ (ih tail failed)
    | invalid =>
      cases failed
      exact .head _

theorem cfgPlan_ip {body bytes : List UInt8} {text : List Char} (field : jsonGetStr body "ip" = some (some bytes))
    (decoded : fromUtf8 bytes = some text) :
    cfgPlan body =
      match (parseIp text).filter fun oct => octetsValid oct.toList with
      | none => some ⟨[], some "invalid ip"⟩
      | some oct => (CfgPlan.fields body cfgFieldTable).map (·.before (CfgPlan.ipWrites oct)) := by
  unfold cfgPlan
  simp only [field, Option.bind_eq_bind, Option.bind_some, decoded]
  rcases parseIp text with _ | oct
  · rfl
  · dsimp only
    by_cases valid : octetsValid oct.toList = true
    · simp only [Option.filter_some, valid, Bool.not_true, Bool.false_eq_true, if_false, if_true]
      rcases CfgPlan.fields body cfgFieldTable with _ | q
      · rfl
      · rfl
    · simp only [Option.filter_some, valid, Bool.not_false, if_true, Bool.false_eq_true, if_false]
      rfl

/-- A command whose address can be read accepts it exactly if its octets are those of a unicast host. -/
theorem webCmdCfg_ip {s : WsSession} {body bytes : List UInt8} {text : List Char}
    (field : jsonGetStr body "ip" = some (some bytes)) (decoded : fromUtf8 bytes = some text)
    {run : WsSession × Option String} (ran : s.webCmdCfg body = some run) {ip : Vector UInt8 4} :
    Accepts run ip ↔ octetsValid ip.toList = true ∧ ∃ words, Dotted words text ip := by
  rw [webCmdCfg_eq, Option.map_eq_some_iff] at ran
  obtain ⟨p, plan, rfl⟩ := ran
  have shape := plan
  rw [cfgPlan_ip field decoded] at shape
  rw [← webParseIp_eq_some, Accepts]
  rcases taken : (parseIp text).filter fun oct => octetsValid oct.toList with _ | oct
  · rw [taken] at shape
    cases shape
    refine iff_of_false (fun accepted => accepted.1 rfl) fun ⟨valid, parsed⟩ => ?_
    simp [parsed, valid] at taken
  · simp only [taken, Option.map_eq_some_iff] at shape
    obtain ⟨q, tail, rfl⟩ := shape
    obtain ⟨parsed, valid⟩ := Option.filter_eq_some_iff.1 taken
    have other : q.err ≠ some "invalid ip" := fun failed => absurd (fields_err tail failed) (by decide)
    have once := (cfgPlan_addrs plan).nodup (by decide)
    have holds : HoldsIp (s.carryOut (q.before (CfgPlan.ipWrites oct))).1.regs oct := fun i =>
      foldl_store_written (cfgPlan_config plan) once
        (List.mem_append_left _ (List.mem_map_of_mem (List.mem_finRange i))) s
    constructor
    · rintro ⟨-, holds'⟩
      obtain rfl := holds.unique holds'
      exact ⟨valid, parsed⟩
    · rintro ⟨-, parsed'⟩
      obtain rfl := Option.some.inj (parsed.symm.trans parsed')
      exact ⟨other, holds⟩

end WsSession

/-! ## UDP -/

/-- `SET_IP` is answered with an ok, with the octets stored. -/
def UdpAccepts (run : Option UdpReply) (ip : Vector UInt8 4) : Prop :=
  ∃ a reply', run = some (a, reply', 2) ∧ reply'.take 2 = [udpCmdSetIp, 1] ∧ HoldsIp a.regs ip

theorem udpAccepts_iff (ver : UdpVersion) (accepts : UInt32 → Bool) (u : UdpApp) {reply : List UInt8} (nowMs : UInt32)
    (room : 2 ≤ reply.length) (ip : Vector UInt8 4) :
    UdpAccepts (u.udpAppCmd ver accepts udpCmdSetIp ip.toList reply nowMs) ip ↔
      WsSession.octetsValid ip.toList = true := by
  obtain ⟨a, b, c, d, rfl⟩ := exists_quad ip
  have answer (v : UdpApp) (ok : UInt8) : v.replyOk reply udpCmdSetIp ok = (v, (reply.set 0 udpCmdSetIp).set 1 ok, 2) ∧
      ((reply.set 0 udpCmdSetIp).set 1 ok).take 2 = [udpCmdSetIp, ok] := by
    obtain ⟨x, y, rest, rfl⟩ : ∃ x y rest, reply = x :: y :: rest := by
      match reply, room with
      | x :: y :: rest, _ => exact ⟨x, y, rest, rfl⟩
    exact ⟨if_neg (Nat.not_lt.2 room), rfl⟩
  have command : u.udpAppCmd ver accepts udpCmdSetIp (quad a b c d).toList reply nowMs =
      some (u.setIp reply [a, b, c, d]) := rfl
  have common : WsSession.octetsValid (quad a b c d).toList = ipAddrValid a b c d := rfl
  rw [command, common, UdpApp.setIp, UdpAccepts]
  by_cases valid : ipAddrValid a b c d = true
  · rw [if_pos valid, (answer _ _).1]
    refine iff_of_true ⟨_, _, rfl, (answer u 1).2, ?_⟩ valid
    exact holdsIp_withIp u.regs (quad a b c d)
  · rw [if_neg valid, (answer _ _).1]
    refine iff_of_false (fun ⟨_, _, same, ok, _⟩ => ?_) valid
    cases same
    rw [(answer u 0).2] at ok
    exact absurd ok (by decide)

/-! ## Agreement -/

theorem octetsValid_iff (a b c d : UInt8) :
    WsSession.octetsValid (quad a b c d).toList = true ↔
      d.toNat ≠ 0 ∧ d.toNat ≠ 255 ∧ a.toNat ≠ 0 ∧ a.toNat ≠ 127 ∧ a.toNat < 224 := by
  have octets : WsSession.octetsValid (quad a b c d).toList = ipAddrValid a b c d := rfl
  rw [octets, ipAddrValid]
  simp only [Bool.or_eq_true, beq_iff_eq, decide_eq_true_eq, ge_iff_le, UInt8.le_iff_toNat_le, ← UInt8.toNat_inj,
    UInt8.reduceToNat]
  split_ifs <;> simp <;> omega

theorem ipValid_iff (a b c d : UInt8) :
    Shell.ipValid (quad a b c d) = true ↔
      d.toNat ≠ 0 ∧ d.toNat ≠ 255 ∧ a.toNat ≠ 0 ∧ a.toNat ≠ 127 ∧ a.toNat < 255 := by
  have octets : Shell.ipValid (quad a b c d) = !(a == 0 || a == 127 || a ≥ 255 || d == 0 || d == 255) := rfl
  rw [octets]
  simp only [Bool.not_eq_true', Bool.or_eq_false_iff, beq_eq_false_iff_ne, decide_eq_false_iff_not, ge_iff_le,
    UInt8.le_iff_toNat_le, ← UInt8.toNat_inj, ne_eq, UInt8.reduceToNat]
  omega

/-- The first octets that only the shell lets pass: multicast and reserved addresses. -/
def BeyondUnicast (ip : Vector UInt8 4) : Prop :=
  match ip.toList with
  | [a, _, _, d] => 224 ≤ a.toNat ∧ a.toNat < 255 ∧ d.toNat ≠ 0 ∧ d.toNat ≠ 255
  | _ => False

/-- The shell's test and the common one differ in the first octets 224 to 254. -/
theorem ipValid_cases (ip : Vector UInt8 4) :
    (Shell.ipValid ip = true ↔ WsSession.octetsValid ip.toList = true ∨ BeyondUnicast ip) ∧
      ¬(WsSession.octetsValid ip.toList = true ∧ BeyondUnicast ip) := by
  obtain ⟨a, b, c, d, rfl⟩ := exists_quad ip
  have range : BeyondUnicast (quad a b c d) ↔ 224 ≤ a.toNat ∧ a.toNat < 255 ∧ d.toNat ≠ 0 ∧ d.toNat ≠ 255 := Iff.rfl
  rw [ipValid_iff, octetsValid_iff, range]
  omega

/-- The canonical dotted form. -/
def dottedForm (ip : Vector UInt8 4) : List Char := ['.'].intercalate (ip.toList.map fun o => decChars o.toNat)

theorem dotted_dottedForm (ip : Vector UInt8 4) :
    ∃ words, Dotted words (dottedForm ip) ip ∧ ∀ w ∈ words, PlainOctet w := by
  refine ⟨_, ⟨?_, rfl⟩, ?_⟩
  · rw [List.forall₂_map_left_iff, List.forall₂_map_right_iff, List.forall₂_same]
    exact fun o _ => numeral_decChars (toNat_le_255 o)
  · intro w mem
    obtain ⟨o, -, rfl⟩ := List.mem_map.1 mem
    refine ⟨fun plus => absurd (isDigit_of_mem_decChars plus) (by decide), ?_⟩
    rw [decChars_eq]
    exact (Nat.length_toDigits_le_iff (by decide) (by decide)).2 (Nat.lt_of_le_of_lt (toNat_le_255 o) (by decide))

/-- The texts that one of the shell and the web takes for an address and the other does not.  The web alone takes an
address of a unicast host with a sign or more than three digits in an octet.  The shell alone takes a plain address
with a first octet from 224 to 254, and one with blanks before it or anything behind it and a blank. -/
def TakenOnce (text : List Char) : Prop :=
  (∃ words ip, Dotted words text ip ∧ WsSession.octetsValid ip.toList = true ∧ ∃ w ∈ words, ¬PlainOctet w) ∨
    ∃ word ∈ (blankWords text).head?, ∃ ip, PlainIp word ip ∧ (word ≠ text ∨ BeyondUnicast ip)

variable {text : List Char} {ip : Vector UInt8 4}

theorem Dotted.blankWords {words : List (List Char)} (dotted : Dotted words text ip) : blankWords text = [text] := by
  obtain ⟨numerals, rfl⟩ := dotted
  have free {sep : Char} (plus : sep ≠ '+') (digit : sep.isDigit = false) (dot : sep ≠ '.') :
      sep ∉ ['.'].intercalate words := Words.not_mem_join dot (not_mem_of_forall₂ plus digit numerals)
  have solid : ∀ c ∈ ['.'].intercalate words, isBlankChar c = false := by
    intro c mem
    rw [Bool.eq_false_iff]
    intro blank
    simp only [isBlankChar, Bool.or_eq_true, beq_iff_eq] at blank
    rcases blank with rfl | rfl
    · exact free (by decide) (by decide) (by decide) mem
    · exact free (by decide) (by decide) (by decide) mem
  have filled : ['.'].intercalate words ≠ [] := by
    have number := numerals.length_eq
    obtain ⟨w, rest, rfl⟩ : ∃ w rest, words = w :: rest :=
      List.exists_cons_of_ne_nil (by rw [← List.length_pos_iff, number]; simp)
    obtain ⟨w', rest, rfl⟩ : ∃ w' rest', rest = w' :: rest' :=
      List.exists_cons_of_ne_nil (by rw [← List.length_pos_iff]; simp at number; omega)
    simp [List.intercalate_cons_cons]
  rw [IoEdgeHub.blankWords, List.splitOnP_eq_singleton solid]
  simp [filled]

theorem shell_web_agree {s : Shell} {w : WsSession} {body bytes : List UInt8}
    (field : jsonGetStr body "ip" = some (some bytes)) (decoded : fromUtf8 bytes = some text)
    {run : WsSession × Option String} (ran : w.webCmdCfg body = some run) :
    (∀ ip, ShellAccepts s text ip ↔ WsSession.Accepts run ip) ↔ ¬TakenOnce text := by
  simp only [shellAccepts_iff, WsSession.webCmdCfg_ip field decoded ran]
  constructor
  · rintro agree (⟨words, ip, dotted, valid, w, mem, odd⟩ | ⟨word, first, ip, plain, apart⟩)
    · obtain ⟨word, first, -, words', dotted', plain⟩ := (agree ip).2 ⟨valid, words, dotted⟩
      rw [dotted.blankWords] at first
      obtain rfl := Option.some.inj first
      obtain rfl := dotted.splitOn.symm.trans dotted'.splitOn
      exact odd (plain w mem)
    · obtain ⟨valid, words, dotted⟩ := (agree ip).1 ⟨word, first, plain⟩
      rw [dotted.blankWords] at first
      rcases apart with more | beyond
      · exact more (Option.some.inj first).symm
      · exact (ipValid_cases ip).2 ⟨valid, beyond⟩
  · intro never ip
    constructor
    · rintro ⟨word, first, plain⟩
      have same : word = text := by
        by_contra more
        exact never (.inr ⟨word, first, ip, plain, .inl more⟩)
      subst same
      obtain ⟨valid, words, dotted, -⟩ := id plain
      rcases (ipValid_cases ip).1.1 valid with common | beyond
      · exact ⟨common, words, dotted⟩
      · exact absurd (.inr ⟨word, first, ip, plain, .inr beyond⟩) never
    · rintro ⟨valid, words, dotted⟩
      refine ⟨text, by rw [dotted.blankWords]; rfl, (ipValid_cases ip).1.2 (.inl valid), words, dotted, fun w mem => ?_⟩
      by_contra odd
      exact never (.inl ⟨words, ip, dotted, valid, w, mem, odd⟩)

/-- On the dotted form of an address the web agrees with `SET_IP`, and the shell unless the first octet is from
224 to 254. -/
theorem dottedForm_accepted (s : Shell) {w : WsSession} {body bytes : List UInt8}
    (field : jsonGetStr body "ip" = some (some bytes)) (decoded : fromUtf8 bytes = some (dottedForm ip))
    {run : WsSession × Option String} (ran : w.webCmdCfg body = some run) :
    (WsSession.Accepts run ip ↔ WsSession.octetsValid ip.toList = true) ∧
      (ShellAccepts s (dottedForm ip) ip ↔ WsSession.octetsValid ip.toList = true ∨ BeyondUnicast ip) := by
  obtain ⟨words, dotted, plain⟩ := dotted_dottedForm ip
  rw [WsSession.webCmdCfg_ip field decoded ran, shellAccepts_iff, dotted.blankWords, ← (ipValid_cases ip).1]
  refine ⟨and_iff_left ⟨words, dotted⟩, ?_⟩
  constructor
  · rintro ⟨word, first, valid, -⟩
    exact valid
  · intro valid
    exact ⟨dottedForm ip, rfl, valid, words, dotted, plain⟩

/-- Where the three ways to set the address agree. -/
theorem ip_entries_agree (text : List Char) (ip : Vector UInt8 4) :
    (∀ (s : Shell) (w : WsSession) (body bytes : List UInt8) (run : WsSession × Option String),
      jsonGetStr body "ip" = some (some bytes) → fromUtf8 bytes = some text → w.webCmdCfg body = some run →
      ((∀ ip, ShellAccepts s text ip ↔ WsSession.Accepts run ip) ↔ ¬TakenOnce text)) ∧
    ∀ (s : Shell) (w : WsSession) (body bytes : List UInt8) (run : WsSession × Option String) (ver : UdpVersion)
      (accepts : UInt32 → Bool) (u : UdpApp) (reply : List UInt8) (nowMs : UInt32),
      jsonGetStr body "ip" = some (some bytes) → fromUtf8 bytes = some (dottedForm ip) →
      w.webCmdCfg body = some run → 2 ≤ reply.length →
      (UdpAccepts (u.udpAppCmd ver accepts udpCmdSetIp ip.toList reply nowMs) ip ↔ WsSession.Accepts run ip) ∧
      ((UdpAccepts (u.udpAppCmd ver accepts udpCmdSetIp ip.toList reply nowMs) ip ↔
          ShellAccepts s (dottedForm ip) ip) ↔ ¬BeyondUnicast ip) := by
  refine ⟨fun s w body bytes run field decoded ran => shell_web_agree field decoded ran, ?_⟩
  intro s w body bytes run ver accepts u reply nowMs field decoded ran room
  obtain ⟨web, shell⟩ := dottedForm_accepted s field decoded ran
  have apart := (ipValid_cases ip).2
  rw [udpAccepts_iff ver accepts u nowMs room, web, shell]
  tauto

/-- The body that sets the address. -/
def ipBody (ip : String) : List UInt8 := utf8 ("\x7b\"ip\":\"" ++ ip ++ "\"\x7d")

/-- A shell after boot. -/
def idleShell : Shell := ⟨RegMap.new 0, ⟨[], 0⟩, []⟩

theorem not_takenOnce {words : List (List Char)} (dotted : Dotted words text ip) (plain : ∀ w ∈ words, PlainOctet w)
    (unicast : ¬BeyondUnicast ip) :
    ¬TakenOnce text := by
  rintro (⟨words', ip', dotted', -, w, mem, odd⟩ | ⟨word, first, ip', ⟨-, words', dotted', -⟩, apart⟩)
  · rw [← dotted'.splitOn, dotted.splitOn] at mem
    exact odd (plain w mem)
  · rw [dotted.blankWords] at first
    obtain rfl := Option.some.inj first
    obtain rfl := Option.some.inj ((webParseIp_eq_some.2 ⟨words, dotted⟩).symm.trans
      (webParseIp_eq_some.2 ⟨words', dotted'⟩))
    exact apart.elim (fun more => more rfl) unicast

theorem ip_entries_agree_private :
    ∃ run, WsSession.idleSession.webCmdCfg (ipBody "10.0.0.9") = some run ∧
      (∀ ip, ShellAccepts idleShell "10.0.0.9".toList ip ↔ WsSession.Accepts run ip) ∧
      (UdpAccepts (UdpApp.udpAppCmd ⟨1, 2, 3, Vector.replicate 6 0x61⟩ (fun _ => true) ⟨RegMap.new 0, ⟨[], 0⟩, 0, .new⟩
          udpCmdSetIp (quad 10 0 0 9).toList [0, 0] 0) (quad 10 0 0 9) ↔
        ShellAccepts idleShell (dottedForm (quad 10 0 0 9)) (quad 10 0 0 9)) := by
  obtain ⟨run, ran⟩ := Option.isSome_iff_exists.1
    (by decide +kernel : (WsSession.idleSession.webCmdCfg (ipBody "10.0.0.9")).isSome = true)
  have field : jsonGetStr (ipBody "10.0.0.9") "ip" = some (some (utf8 "10.0.0.9")) := by decide +kernel
  have decoded : fromUtf8 (utf8 "10.0.0.9") = some "10.0.0.9".toList := fromUtf8_utf8 _
  have form : dottedForm (quad 10 0 0 9) = "10.0.0.9".toList := by decide +kernel
  have unicast : ¬BeyondUnicast (quad 10 0 0 9) := fun beyond => absurd beyond.1 (by decide)
  refine ⟨run, ran, ?_, ?_⟩
  · obtain ⟨words, dotted, plain⟩ := dotted_dottedForm (quad 10 0 0 9)
    exact ((ip_entries_agree "10.0.0.9".toList (quad 10 0 0 9)).1 idleShell _ _ _ run field decoded ran).2
      (form ▸ not_takenOnce dotted plain unicast)
  · exact (((ip_entries_agree "10.0.0.9".toList (quad 10 0 0 9)).2 idleShell _ _ _ run _ _ _ [0, 0] 0 field
      (decoded.trans (congrArg some form.symm)) ran (by decide)).2).2 unicast

/-- A multicast address is stored by the shell and refused by the web and by UDP; a signed octet the other way round;
and the shell does not look at what follows the address. -/
theorem ip_entries_differ :
    (idleShell.dispatch (utf8 "io ip 224.0.0.1")).requests = [.cfgSave] ∧
    (idleShell.dispatch (utf8 "io ip 224.0.0.1")).regs.ipOctets = [224, 0, 0, 1] ∧
    (WsSession.idleSession.webCmdCfg (ipBody "224.0.0.1")).map (·.2) = some (some "invalid ip") ∧
    (UdpApp.udpAppCmd ⟨1, 2, 3, Vector.replicate 6 0x61⟩ (fun _ => true) ⟨RegMap.new 0, ⟨[], 0⟩, 0, .new⟩ udpCmdSetIp
      [224, 0, 0, 1] [0, 0] 0).map (·.2) = some ([udpCmdSetIp, 0], 2) ∧
    idleShell.dispatch (utf8 "io ip +10.0.0.9") = idleShell ∧
    (WsSession.idleSession.webCmdCfg (ipBody "+10.0.0.9")).map (fun r => (r.1.regs.ipOctets, r.2)) =
      some ([10, 0, 0, 9], none) ∧
    (idleShell.dispatch (utf8 "io ip 10.0.0.9 x")).regs.ipOctets = [10, 0, 0, 9] ∧
    (WsSession.idleSession.webCmdCfg (ipBody "10.0.0.9 x")).map (·.2) = some (some "invalid ip") := by
  refine ⟨?_, ?_, ?_, ?_, ?_, ?_, ?_, ?_⟩ <;> decide +kernel

end IoEdgeHub
