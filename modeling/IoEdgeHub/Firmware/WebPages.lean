import IoEdgeHub.Lib.Json
import IoEdgeHub.Firmware.Httpd
import IoEdgeHub.Firmware.Storage

/-!
# Pages of the web server

The JSON texts that `httpd.rs` serves and pushes: the IO, register and device snapshots, and the list of
the history files.  Each is written piece by piece into a string of fixed capacity.  No snapshot is ever
cut, and a client that parses one finds the registers and the state of the device in it
(`snapshots_read`).  The list ends early when its string fills up, but it always is a list of the newest
files (`listing_reads`).
-/

namespace IoEdgeHub

open Text Json Bytes

/-! ## What the pages show -/

/-- What a build puts into the image: `FW_VERSION`, `FW_BUILD` and the page; the flash holds no longer one. -/
structure Release where
  version : Word
  build : Word
  indexGz : List UInt8
  short : version.bytes.length + build.bytes.length ≤ 256
  inFlash : indexGz.length ≤ 512 * 1024

/-- One entry of `FS_SNAP`: a name, filled up with NULs, and a size. -/
structure SnapEntry where
  name : Vector UInt8 20
  size : UInt32

/-- The snapshot of the files. -/
structure FsSnap where
  entries : List SnapEntry
  free : UInt32
  total : UInt32

/-- The device as the web server finds it; `queue` is the storage task's, `rebooting` tells that a cold reboot is
scheduled. -/
structure Site where
  web : WsSession
  release : Release
  mac : Vector UInt8 6
  linkUp : Bool
  uptimeMs : UInt64
  snap : FsSnap
  queue : List StorageCmd
  rebooting : Bool

/-- A key or a fixed text. -/
def word (s : String) : Word := .of (utf8 s)

/-! ## Arrays of numbers -/

/-- The numbers of an array, each but the first behind a comma. -/
def numberCalls (ns : List ℕ) : List (List (List UInt8)) :=
  ns.mapIdx fun i n => [if i > 0 then utf8 "," else [], dec n]

theorem numberCalls_cons (n : ℕ) (ns : List ℕ) :
    numberCalls (n :: ns) = [[], dec n] :: ns.map fun n => [utf8 ",", dec n] := by
  rw [numberCalls, List.mapIdx_cons]
  congr 1
  exact List.ext_getElem (by simp) (by simp)

theorem flatten_numberCalls (ns : List ℕ) :
    (numberCalls ns).flatten.flatten = (renderItems (ns.map .num)).tail := by
  cases ns with
  | nil => rfl
  | cons n ns =>
    have rest : (ns.map fun n => [utf8 ",", dec n]).flatten.flatten = renderItems (ns.map .num) := by
      induction ns with
      | nil => rfl
      | cons n ns ih =>
        rw [List.map_cons, List.flatten_cons, List.flatten_append, ih, List.map_cons, renderItems, Doc.render]
        simp [show utf8 "," = [0x2C] from rfl]
    rw [numberCalls_cons, List.flatten_cons, List.flatten_append, rest, List.map_cons, renderItems, Doc.render,
      List.tail_cons]
    simp

/-- The same array in the text of the IO snapshot. -/
theorem commaSep_numbers (ns : List ℕ) : WsSession.commaSep (ns.map dec) = (renderItems (ns.map .num)).tail := by
  rw [WsSession.commaSep]
  induction ns with
  | nil => rfl
  | cons n ns ih =>
    cases ns with
    | nil => simp [renderItems, Doc.render]
    | cons m ns =>
      simp only [List.map_cons, List.intersperse_cons_cons, List.flatten_cons, renderItems, List.tail_cons,
        Doc.render] at ih ⊢
      rw [ih]
      rfl

theorem length_renderItems_le {ns : List ℕ} {k : ℕ} (short : ∀ n ∈ ns, (dec n).length ≤ k) :
    (renderItems (ns.map .num)).length ≤ (k + 1) * ns.length := by
  induction ns with
  | nil => exact Nat.le_refl 0
  | cons n ns ih =>
    obtain ⟨first, rest⟩ := List.forall_mem_cons.1 short
    have := ih rest
    simp only [List.map_cons, renderItems, Doc.render, List.length_cons, List.length_append, Nat.mul_succ]
    omega

theorem length_numbers_le {ns : List ℕ} {k : ℕ} (short : ∀ n ∈ ns, (dec n).length ≤ k) :
    (renderItems (ns.map .num)).tail.length ≤ (k + 1) * ns.length := by
  rw [List.length_tail]
  exact (Nat.sub_le _ _).trans (length_renderItems_le short)

theorem length_dec16 (v : UInt16) : (dec v.toNat).length ≤ 5 :=
  length_dec (by decide) (Nat.lt_of_lt_of_le v.toNat_lt (by decide))

theorem length_dec32 (v : UInt32) : (dec v.toNat).length ≤ 10 :=
  length_dec (by decide) (Nat.lt_of_lt_of_le v.toNat_lt (by decide))

theorem length_dec64 (v : UInt64) : (dec v.toNat).length ≤ 20 :=
  length_dec (by decide) (Nat.lt_of_lt_of_le v.toNat_lt (by decide))

/-! ## The registers -/

/-- The holding registers as a page shows them. -/
def holdingValues (r : RegMap) (hooks : Hooks) : List ℕ :=
  (List.range modbusHoldingRegisterNumbers).map fun i => (r.ioReadHolding (UInt16.ofNat i) hooks).toNat

/-- The input registers. -/
def inputValues (r : RegMap) : List ℕ :=
  (List.range modbusInputRegisterNumbers).map fun i => (r.getInput (UInt16.ofNat i)).toNat

/-- `build_regs_json` -/
def buildRegsJson (r : RegMap) (hooks : Hooks) : List UInt8 :=
  writeCalls 256 []
    ([[utf8 "\x7b\"t\":\"regs\",\"holding\":["]] ++ (numberCalls (holdingValues r hooks) ++
      ([[utf8 "],\"input\":["]] ++ (numberCalls (inputValues r) ++ [[utf8 "]\x7d"]]))))

/-- The document of the registers. -/
def regsDoc (r : RegMap) (hooks : Hooks) : Doc :=
  .obj [(word "t", .str (word "regs")), (word "holding", .arr ((holdingValues r hooks).map .num)),
    (word "input", .arr ((inputValues r).map .num))]

theorem buildRegsJson_eq (r : RegMap) (hooks : Hooks) : buildRegsJson r hooks = (regsDoc r hooks).render := by
  have holding : ∀ n ∈ holdingValues r hooks, (dec n).length ≤ 5 := by
    simp only [holdingValues, List.forall_mem_map]
    exact fun i _ => length_dec16 _
  have input : ∀ n ∈ inputValues r, (dec n).length ≤ 5 := by
    simp only [inputValues, List.forall_mem_map]
    exact fun i _ => length_dec16 _
  have holding_size := length_numbers_le holding
  have input_size := length_numbers_le input
  simp only [holdingValues, inputValues, List.length_map, List.length_range] at holding_size input_size
  have text : ([[utf8 "\x7b\"t\":\"regs\",\"holding\":["]] ++ (numberCalls (holdingValues r hooks) ++
      ([[utf8 "],\"input\":["]] ++ (numberCalls (inputValues r) ++ [[utf8 "]\x7d"]])))).flatten.flatten =
      utf8 "\x7b\"t\":\"regs\",\"holding\":[" ++ ((renderItems ((holdingValues r hooks).map .num)).tail ++
        (utf8 "],\"input\":[" ++ ((renderItems ((inputValues r).map .num)).tail ++ utf8 "]\x7d"))) := by
    simp only [List.flatten_append, List.flatten_cons, List.flatten_nil, List.append_nil, flatten_numberCalls]
  rw [buildRegsJson, writeCalls_eq, List.nil_append, text]
  · simp only [regsDoc, Doc.render, renderMembers, List.tail_cons, List.cons_append, List.append_assoc, List.nil_append]
    rfl
  · rw [text]
    simp only [List.length_append, List.length_nil, holdingValues, inputValues]
    change 0 + (23 + (_ + (11 + (_ + 2)))) ≤ 256
    simp only [modbusHoldingRegisterNumbers, modbusInputRegisterNumbers] at holding_size input_size ⊢
    omega

/-! ## The inputs and outputs -/

/-- The bits of a register as an array shows them. -/
def bitValues (v : UInt16) (count : ℕ) : List ℕ := (List.range count).map fun i => (v.toNat.testBit i).toNat

/-- The document of the inputs and outputs. -/
def ioDoc (r : RegMap) (nowMs : ℕ) : Doc :=
  .obj [(word "t", .str (word "io")),
    (word "di", .arr ((bitValues (r.getInput (UInt16.ofNat inputDiIdx)) diNum).map .num)),
    (word "do", .arr ((bitValues (r.getHolding (UInt16.ofNat holdingDoIdx)) doNum).map .num)),
    (word "ai", .arr (((List.range aiNum).map fun i => (r.getInput (UInt16.ofNat (inputAi0Idx + i))).toNat).map .num)),
    (word "di_en", .num (r.getHolding (UInt16.ofNat holdingDiEnableIdx)).toNat),
    (word "ai_en", .num (r.getHolding (UInt16.ofNat holdingAiEnableIdx)).toNat),
    (word "ms", .num nowMs)]

theorem map_bit (v : UInt16) {count : ℕ} (small : count ≤ 16) :
    ((List.range count).map fun i => dec ((v >>> UInt16.ofNat i) &&& 1).toNat) = (bitValues v count).map dec := by
  rw [bitValues, List.map_map]
  apply List.map_congr_left
  intro i mem
  have inside := Nat.lt_of_lt_of_le (List.mem_range.1 mem) small
  rw [Bytes.toNat_bit_uint16, UInt16.toNat_ofNat_of_lt' (Nat.lt_trans inside (by decide)), Nat.mod_eq_of_lt inside]
  rfl

/-- The analog inputs. -/
def aiValues (r : RegMap) : List ℕ :=
  (List.range aiNum).map fun i => (r.getInput (UInt16.ofNat (inputAi0Idx + i))).toNat

theorem buildIoJson_text (r : RegMap) (nowMs : ℕ) :
    WsSession.buildIoJson r nowMs = utf8 "\x7b\"t\":\"io\",\"di\":[" ++
      ((renderItems ((bitValues (r.getInput (UInt16.ofNat inputDiIdx)) diNum).map .num)).tail ++
      (utf8 "],\"do\":[" ++ ((renderItems
        ((bitValues (r.getHolding (UInt16.ofNat holdingDoIdx)) doNum).map .num)).tail ++
      (utf8 "],\"ai\":[" ++ ((renderItems ((aiValues r).map .num)).tail ++
      (utf8 "],\"di_en\":" ++ (dec (r.getHolding (UInt16.ofNat holdingDiEnableIdx)).toNat ++
      (utf8 ",\"ai_en\":" ++ (dec (r.getHolding (UInt16.ofNat holdingAiEnableIdx)).toNat ++
      (utf8 ",\"ms\":" ++ (dec nowMs ++ utf8 "\x7d"))))))))))) := by
  have ai : (List.range aiNum).map (fun i => dec (r.getInput (UInt16.ofNat (inputAi0Idx + i))).toNat) =
      (aiValues r).map dec := List.map_map.symm
  unfold WsSession.buildIoJson
  dsimp only
  rw [map_bit _ (by decide : diNum ≤ 16), map_bit _ (by decide : doNum ≤ 16), ai]
  simp only [commaSep_numbers, List.append_assoc]

theorem buildIoJson_eq (r : RegMap) (nowMs : ℕ) : WsSession.buildIoJson r nowMs = (ioDoc r nowMs).render := by
  simp only [buildIoJson_text, ioDoc, Doc.render, renderMembers, List.tail_cons, List.cons_append, List.append_assoc,
    List.nil_append]
  rfl

theorem length_bitValues (v : UInt16) (count : ℕ) :
    (renderItems ((bitValues v count).map .num)).tail.length ≤ 2 * count := by
  have one : ∀ n ∈ bitValues v count, (dec n).length ≤ 1 := by
    simp only [bitValues, List.forall_mem_map]
    intro i _
    cases v.toNat.testBit i <;> exact length_dec (by decide) (by decide)
  simpa [bitValues] using length_numbers_le one

theorem length_buildIoJson (r : RegMap) (uptimeMs : UInt64) :
    (WsSession.buildIoJson r uptimeMs.toNat).length ≤ 256 := by
  have di := length_bitValues (r.getInput (UInt16.ofNat inputDiIdx)) diNum
  have dos := length_bitValues (r.getHolding (UInt16.ofNat holdingDoIdx)) doNum
  have ai : (renderItems ((aiValues r).map .num)).tail.length ≤ 6 * aiNum := by
    have short : ∀ n ∈ aiValues r, (dec n).length ≤ 5 := by
      simp only [aiValues, List.forall_mem_map]
      exact fun i _ => length_dec16 _
    simpa [aiValues] using length_numbers_le short
  have diEn := length_dec16 (r.getHolding (UInt16.ofNat holdingDiEnableIdx))
  have aiEn := length_dec16 (r.getHolding (UInt16.ofNat holdingAiEnableIdx))
  have ms := length_dec64 uptimeMs
  simp only [diNum, doNum, aiNum] at di dos ai
  rw [buildIoJson_text]
  simp only [List.length_append]
  change 16 + (_ + (8 + (_ + (8 + (_ + (10 + (_ + (9 + (_ + (6 + (_ + 1))))))))))) ≤ 256
  simp only [diNum, doNum]
  omega

/-! ## The device -/

/-- `{:02x}` -/
def hex2 (b : UInt8) : List UInt8 := utf8 (String.ofList [Nat.digitChar (b.toNat / 16), Nat.digitChar (b.toNat % 16)])

theorem utf8EncodeChar_digitChar : ∀ d < 16, (String.utf8EncodeChar (Nat.digitChar d)).length = 1 ∧
    (String.utf8EncodeChar (Nat.digitChar d)).all isOrdinary = true := by
  decide +kernel

theorem hex2_ordinary (b : UInt8) : (hex2 b).length = 2 ∧ ∀ x ∈ hex2 b, isOrdinary x = true := by
  have bound := b.toNat_lt
  obtain ⟨one, high⟩ := utf8EncodeChar_digitChar (b.toNat / 16) (by omega)
  obtain ⟨one', low⟩ := utf8EncodeChar_digitChar (b.toNat % 16) (by omega)
  rw [hex2, utf8_eq, String.toList_ofList, List.flatMap_cons, List.flatMap_cons, List.flatMap_nil, List.append_nil]
  refine ⟨by rw [List.length_append, one, one'], List.forall_mem_append.2 ⟨?_, ?_⟩⟩
  · exact List.all_eq_true.1 high
  · exact List.all_eq_true.1 low

theorem dec_ordinary (n : ℕ) : ∀ b ∈ dec n, isOrdinary b = true := by
  intro b mem
  have range := digit_of_mem_dec mem
  have all : ∀ k < 58, 48 ≤ k → isOrdinary (UInt8.ofNat k) = true := by decide
  simpa using all b.toNat (by omega) range.1

/-- The pieces of a text with a fixed one between any two of them. -/
def joined (sep : String) (parts : List (List UInt8)) : List (List UInt8) := parts.intersperse (utf8 sep)

theorem joined_ordinary {sep : String} {parts : List (List UInt8)} (plain : ∀ b ∈ utf8 sep, isOrdinary b = true)
    (ordinary : ∀ p ∈ parts, ∀ b ∈ p, isOrdinary b = true) : ∀ b ∈ (joined sep parts).flatten, isOrdinary b = true := by
  rw [joined]
  induction parts with
  | nil => nofun
  | cons p parts ih =>
    obtain ⟨first, rest⟩ := List.forall_mem_cons.1 ordinary
    have tail := ih rest
    cases parts with
    | nil => simpa using first
    | cons q parts =>
      simp only [List.intersperse_cons_cons, List.flatten_cons, List.forall_mem_append] at tail ⊢
      exact ⟨first, plain, tail⟩

theorem length_joined_le {sep : String} {parts : List (List UInt8)} {k : ℕ} (short : ∀ p ∈ parts, p.length ≤ k) :
    (joined sep parts).flatten.length ≤ (k + (utf8 sep).length) * parts.length := by
  rw [joined]
  induction parts with
  | nil => exact Nat.zero_le _
  | cons p parts ih =>
    obtain ⟨first, rest⟩ := List.forall_mem_cons.1 short
    have tail := ih rest
    rw [List.length_cons, Nat.mul_succ]
    cases parts with
    | nil =>
      simp only [List.intersperse_singleton, List.flatten_cons, List.flatten_nil, List.append_nil]
      omega
    | cons q parts =>
      simp only [List.intersperse_cons_cons, List.flatten_cons, List.length_append] at tail ⊢
      omega

/-- The hardware address in pieces. -/
def macPieces (mac : Vector UInt8 6) : List (List UInt8) := joined ":" (mac.toList.map hex2)

/-- The address in pieces. -/
def ipPieces (r : RegMap) : List (List UInt8) :=
  joined "." ([holdingIpOctet1Idx, holdingIpOctet2Idx, holdingIpOctet3Idx, holdingIpOctet4Idx].map fun i =>
    dec (r.getHolding (UInt16.ofNat i)).toNat)

/-- The hardware address as a word. -/
def macWord (mac : Vector UInt8 6) : Word where
  bytes := (macPieces mac).flatten
  ordinary := joined_ordinary (List.forall_mem_singleton.2 rfl) (List.forall_mem_map.2 fun b _ => (hex2_ordinary b).2)

/-- The address as a word. -/
def ipWord (r : RegMap) : Word where
  bytes := (ipPieces r).flatten
  ordinary := joined_ordinary (List.forall_mem_singleton.2 rfl) (List.forall_mem_map.2 fun _ _ => dec_ordinary _)

theorem length_macPieces (mac : Vector UInt8 6) : (macPieces mac).flatten.length ≤ 18 := by
  have two : ∀ p ∈ mac.toList.map hex2, p.length ≤ 2 := List.forall_mem_map.2 fun b _ => (hex2_ordinary b).1.le
  have size : (macPieces mac).flatten.length ≤ (2 + 1) * (mac.toList.map hex2).length := length_joined_le two
  rwa [List.length_map, Vector.length_toList] at size

theorem length_ipPieces (r : RegMap) : (ipPieces r).flatten.length ≤ 24 :=
  length_joined_le (List.forall_mem_map.2 fun _ _ => length_dec16 _)

/-- `true` or `false`. -/
def boolText (b : Bool) : List UInt8 := utf8 (if b then "true" else "false")

theorem length_boolText (b : Bool) : (boolText b).length ≤ 5 := by
  cases b <;> decide

/-- The beginning of the text, as far as the address of the interface. -/
def infoHead (s : Site) : List (List UInt8) :=
  [utf8 "\x7b\"t\":\"info\",\"version\":\"", s.release.version.bytes, utf8 "\",\"build\":\"", s.release.build.bytes,
    utf8 "\",\"board\":\"io_edge_f407vet6\",\"hclk_mhz\":168,\"flash_kb\":512,\"sram_kb\":192,\"mac\":\""]

/-- The settings, from the quote behind the IP address on. -/
def infoSettings (r : RegMap) : List (List UInt8) :=
  [utf8 "\",\"slave_id\":", dec (r.getHolding (UInt16.ofNat holdingSlaveIdIdx)).toNat,
    utf8 ",\"rs485_baud\":", dec (r.getHolding (UInt16.ofNat holdingRs485BaudrateIdx)).toNat,
    utf8 ",\"can_id\":", dec (r.getHolding (UInt16.ofNat holdingCanIdIdx)).toNat,
    utf8 ",\"can_baud\":", dec (r.getHolding (UInt16.ofNat holdingCanBaudrateIdx)).toNat]

/-- The state in the page. -/
def infoState (s : Site) : List (List UInt8) :=
  [utf8 ",\"uptime_ms\":", dec s.uptimeMs.toNat, utf8 ",\"time\":", dec s.web.hooks.nowEpoch.toNat,
    utf8 ",\"hist_en\":", boolText (s.web.regs.getHolding (UInt16.ofNat holdingHistoryEnableIdx) != 0),
    utf8 ",\"lfs_free\":", dec s.snap.free.toNat, utf8 ",\"lfs_total\":", dec s.snap.total.toNat,
    utf8 ",\"net_up\":", boolText s.linkUp,
    utf8 ",\"di_ms\":", dec (s.web.regs.getHolding (UInt16.ofNat holdingDiSampleMsIdx)).toNat,
    utf8 ",\"ai_ms\":", dec (s.web.regs.getHolding (UInt16.ofNat holdingAiSampleMsIdx)).toNat, utf8 "\x7d"]

/-- `build_info_json` -/
def buildInfoJson (s : Site) : List UInt8 :=
  writeBytes 704 [] (infoHead s ++ (macPieces s.mac ++ (utf8 "\",\"ip\":\"" :: (ipPieces s.web.regs ++
    (infoSettings s.web.regs ++ infoState s)))))

/-- What identifies the device. -/
def identityMembers (s : Site) : List (Word × Doc) :=
  [(word "t", .str (word "info")), (word "version", .str s.release.version), (word "build", .str s.release.build),
    (word "board", .str (word "io_edge_f407vet6")), (word "hclk_mhz", .num 168), (word "flash_kb", .num 512),
    (word "sram_kb", .num 192), (word "mac", .str (macWord s.mac)), (word "ip", .str (ipWord s.web.regs))]

/-- Its settings. -/
def settingsMembers (r : RegMap) : List (Word × Doc) :=
  [(word "slave_id", .num (r.getHolding (UInt16.ofNat holdingSlaveIdIdx)).toNat),
    (word "rs485_baud", .num (r.getHolding (UInt16.ofNat holdingRs485BaudrateIdx)).toNat),
    (word "can_id", .num (r.getHolding (UInt16.ofNat holdingCanIdIdx)).toNat),
    (word "can_baud", .num (r.getHolding (UInt16.ofNat holdingCanBaudrateIdx)).toNat)]

/-- Its state. -/
def stateMembers (s : Site) : List (Word × Doc) :=
  [(word "uptime_ms", .num s.uptimeMs.toNat), (word "time", .num s.web.hooks.nowEpoch.toNat),
    (word "hist_en", .bool (s.web.regs.getHolding (UInt16.ofNat holdingHistoryEnableIdx) != 0)),
    (word "lfs_free", .num s.snap.free.toNat), (word "lfs_total", .num s.snap.total.toNat),
    (word "net_up", .bool s.linkUp),
    (word "di_ms", .num (s.web.regs.getHolding (UInt16.ofNat holdingDiSampleMsIdx)).toNat),
    (word "ai_ms", .num (s.web.regs.getHolding (UInt16.ofNat holdingAiSampleMsIdx)).toNat)]

/-- The document of the device. -/
def infoDoc (s : Site) : Doc := .obj (identityMembers s ++ (settingsMembers s.web.regs ++ stateMembers s))

theorem flatten_infoHead (s : Site) :
    (infoHead s).flatten ++ ((macWord s.mac).bytes ++ (utf8 "\",\"ip\":\"" ++ ((ipWord s.web.regs).bytes ++ [0x22]))) =
      0x7B :: (renderMembers (identityMembers s)).tail := by
  simp only [infoHead, identityMembers, Doc.render, renderMembers, Word.quoted, List.tail_cons, List.cons_append,
    List.append_assoc, List.nil_append, List.flatten_cons, List.flatten_nil, List.append_nil]
  rfl

theorem flatten_infoSettings (r : RegMap) : (infoSettings r).flatten = 0x22 :: renderMembers (settingsMembers r) := by
  simp only [infoSettings, settingsMembers, Doc.render, renderMembers, Word.quoted, List.cons_append,
    List.append_assoc, List.nil_append, List.flatten_cons, List.flatten_nil, List.append_nil]
  rfl

theorem flatten_infoState (s : Site) : (infoState s).flatten = renderMembers (stateMembers s) ++ [0x7D] := by
  simp only [infoState, stateMembers, Doc.render, renderMembers, Word.quoted, List.cons_append,
    List.append_assoc, List.nil_append, List.flatten_cons, List.flatten_nil, List.append_nil]
  rfl

theorem length_infoHead (s : Site) : (infoHead s).flatten.length ≤ 370 := by
  have size : (infoHead s).flatten.length ≤ _ := length_flatten_le
    (.cons (by decide : _ ≤ 23) (.cons le_rfl (.cons (by decide : _ ≤ 11) (.cons le_rfl
      (.cons (by decide : _ ≤ 80) .nil)))))
  have release := s.release.short
  simp only [List.sum_cons, List.sum_nil] at size
  omega

theorem length_infoSettings (r : RegMap) : (infoSettings r).flatten.length ≤ 69 :=
  length_flatten_le
    (.cons (by decide : _ ≤ 13) (.cons (length_dec16 _) (.cons (by decide : _ ≤ 14) (.cons (length_dec16 _)
      (.cons (by decide : _ ≤ 10)
        (.cons (length_dec16 _) (.cons (by decide : _ ≤ 12) (.cons (length_dec16 _) .nil))))))))

theorem length_infoState (s : Site) : (infoState s).flatten.length ≤ 156 :=
  length_flatten_le
    (.cons (by decide : _ ≤ 13) (.cons (length_dec64 _) (.cons (by decide : _ ≤ 8) (.cons (length_dec32 _)
      (.cons (by decide : _ ≤ 11) (.cons (length_boolText _) (.cons (by decide : _ ≤ 12) (.cons (length_dec32 _)
      (.cons (by decide : _ ≤ 13) (.cons (length_dec32 _) (.cons (by decide : _ ≤ 10) (.cons (length_boolText _)
      (.cons (by decide : _ ≤ 9) (.cons (length_dec16 _) (.cons (by decide : _ ≤ 9) (.cons (length_dec16 _)
      (.cons (by decide : _ ≤ 1) .nil)))))))))))))))))

theorem buildInfoJson_eq (s : Site) : buildInfoJson s = (infoDoc s).render := by
  have mac := length_macPieces s.mac
  have ip := length_ipPieces s.web.regs
  have head := length_infoHead s
  have settings := length_infoSettings s.web.regs
  have state := length_infoState s
  have members : (renderMembers (identityMembers s ++ (settingsMembers s.web.regs ++ stateMembers s))).tail =
      (renderMembers (identityMembers s)).tail ++ (renderMembers (settingsMembers s.web.regs) ++
        renderMembers (stateMembers s)) := by
    rw [renderMembers_append, renderMembers_append]
    rfl
  have text : (infoDoc s).render = 0x7B :: (renderMembers (identityMembers s)).tail ++
      (renderMembers (settingsMembers s.web.regs) ++ (infoState s).flatten) := by
    rw [infoDoc, Doc.render, members, flatten_infoState, List.append_assoc, List.append_assoc]
    rfl
  rw [buildInfoJson, writeBytes_eq]
  · rw [text, ← flatten_infoHead]
    simp only [List.flatten_append, List.flatten_cons, flatten_infoSettings, List.nil_append, List.append_assoc,
      List.cons_append]
    rfl
  · simp only [List.flatten_append, List.flatten_cons, List.length_append, List.length_nil]
    change 0 + (_ + (_ + (8 + _))) ≤ 704
    omega

/-- No snapshot is cut, and what a client parses is the state of the device. -/
theorem snapshots_read (s : Site) :
    ((WsSession.buildIoJson s.web.regs s.uptimeMs.toNat).length ≤ 256 ∧
      parse (WsSession.buildIoJson s.web.regs s.uptimeMs.toNat) = some (ioDoc s.web.regs s.uptimeMs.toNat)) ∧
    parse (buildRegsJson s.web.regs s.web.hooks) = some (regsDoc s.web.regs s.web.hooks) ∧
    parse (buildInfoJson s) = some (infoDoc s) := by
  refine ⟨⟨length_buildIoJson _ _, ?_⟩, ?_, ?_⟩
  · rw [buildIoJson_eq, parse_render]
  · rw [buildRegsJson_eq, parse_render]
  · rw [buildInfoJson_eq, parse_render]

/-! ## The history files -/

/-- The length of the root partition in bytes. -/
def lfsTotal : UInt32 := 0x00F10000

/-- An entry in the snapshot. -/
def SnapEntry.of (e : DirEntry) : SnapEntry := ⟨overwrite (.replicate 20 0) (e.name.take 20), e.size⟩

/-- The first sixteen history files of the root. -/
def snapFiles (root : List DirEntry) : List DirEntry :=
  (root.filter fun e => Store.isHistName e.name (min e.name.length 20)).take 16

/-- The greatest name first; `blocks` is what `available_blocks` answers.  The order of files whose names agree in 20
bytes is not specified. -/
def fsSnapshot (root : List DirEntry) (blocks : Option UInt32) : FsSnap where
  entries := ((snapFiles root).map .of).mergeSort fun a b => decide (b.name.toList ≤ a.name.toList)
  free := (blocks.map (· * 4096)).getD 0
  total := lfsTotal

/-- The name of an entry; one that is not UTF-8 is not shown. -/
def SnapEntry.nameText (e : SnapEntry) : List UInt8 :=
  let name := e.name.toList.takeWhile (· != 0)
  if (fromUtf8 name).isSome then name else []

/-- The entries from the `i`-th on, as long as 64 bytes are left for each. -/
def listingLoop (out : List UInt8) (i : ℕ) : List SnapEntry → List UInt8
  | [] => out
  | e :: es =>
    if out.length + 64 > 704 then out
    else
      listingLoop (writeBytes 704 out [if i > 0 then utf8 "," else [], utf8 "\x7b\"name\":\"", e.nameText,
        utf8 "\",\"size\":", dec e.size.toNat, utf8 "\x7d"]) (i + 1) es

/-- The answer to `GET /api/history`. -/
def historyJson (snap : FsSnap) : List UInt8 :=
  writeBytes 704 (listingLoop (writeBytes 704 [] [utf8 "\x7b\"files\":["]) 0 snap.entries) [utf8 "]\x7d"]

/-- A name that needs no escape. -/
def SnapEntry.Plain (e : SnapEntry) : Prop := ∀ b ∈ e.nameText, isOrdinary b = true

/-- The document of a file. -/
def entryDoc (e : SnapEntry) : Doc := .obj [(word "name", .str (.of e.nameText)), (word "size", .num e.size.toNat)]

/-- The document of the files. -/
def filesDoc (es : List SnapEntry) : Doc := .obj [(word "files", .arr (es.map entryDoc))]

theorem length_nameText (e : SnapEntry) : e.nameText.length ≤ 20 := by
  unfold SnapEntry.nameText
  dsimp only
  split
  · exact (List.takeWhile_sublist _).length_le.trans e.name.length_toList.le
  · exact Nat.zero_le _

/-- The pieces of an entry are the text of its document, behind a comma or not. -/
theorem entry_text {e : SnapEntry} (plain : e.Plain) (i : ℕ) :
    [if i > 0 then utf8 "," else [], utf8 "\x7b\"name\":\"", e.nameText, utf8 "\",\"size\":", dec e.size.toNat,
      utf8 "\x7d"].flatten = (if i > 0 then utf8 "," else []) ++ (entryDoc e).render := by
  simp only [entryDoc, Doc.render, renderMembers, Word.quoted, Word.bytes_of plain, List.flatten_cons, List.flatten_nil,
    List.append_nil, List.tail_cons, List.cons_append, List.append_assoc, List.nil_append]
  rfl

theorem length_entry (e : SnapEntry) (i : ℕ) :
    [if i > 0 then utf8 "," else [], utf8 "\x7b\"name\":\"", e.nameText, utf8 "\",\"size\":", dec e.size.toNat,
      utf8 "\x7d"].flatten.length ≤ 50 := by
  have comma : (if i > 0 then utf8 "," else []).length ≤ 1 := by split <;> decide
  exact length_flatten_le (.cons comma (.cons (by decide : _ ≤ 9) (.cons (length_nameText e)
    (.cons (by decide : _ ≤ 9) (.cons (length_dec32 _) (.cons (by decide : _ ≤ 1) .nil))))))

/-- The text of the list while it is written: the entries so far. -/
def listed (es : List SnapEntry) : List UInt8 := utf8 "\x7b\"files\":[" ++ (renderItems (es.map entryDoc)).tail

theorem listed_snoc (es : List SnapEntry) (e : SnapEntry) :
    listed (es ++ [e]) = listed es ++ ((if es.length > 0 then utf8 "," else []) ++ (entryDoc e).render) := by
  cases es with
  | nil => simp [listed, renderItems]
  | cons f es =>
    simp only [listed, renderItems_eq, List.map_append, List.flatMap_append, List.map_cons, List.map_nil,
      List.flatMap_cons, List.flatMap_nil, List.cons_append, List.tail_cons, List.append_assoc, List.append_nil,
      List.length_cons, Nat.zero_lt_succ, gt_iff_lt, if_true]
    rfl

theorem write_entry (done : List SnapEntry) {e : SnapEntry} (plain : e.Plain) (room : (listed done).length ≤ 640) :
    writeBytes 704 (listed done) [if done.length > 0 then utf8 "," else [], utf8 "\x7b\"name\":\"", e.nameText,
      utf8 "\",\"size\":", dec e.size.toNat, utf8 "\x7d"] = listed (done ++ [e]) ∧
      (listed (done ++ [e])).length ≤ (listed done).length + 50 := by
  have size := length_entry e done.length
  have added := entry_text plain done.length
  have snoc := listed_snoc done e
  rw [← added] at snoc
  refine ⟨?_, ?_⟩
  · rw [writeBytes_eq (by omega), snoc]
  · rw [snoc, List.length_append]
    omega

/-- The list grows from the front, and ends early only when less than 64 bytes are left. -/
theorem listingLoop_eq {es : List SnapEntry} (plain : ∀ e ∈ es, e.Plain) (done : List SnapEntry)
    (room : (listed done).length ≤ 690) :
    ∃ k ≤ es.length, listingLoop (listed done) done.length es = listed (done ++ es.take k) ∧
      (listed (done ++ es.take k)).length ≤ 690 ∧ (k < es.length → 640 < (listed (done ++ es.take k)).length) := by
  induction es generalizing done with
  | nil => exact ⟨0, Nat.le_refl 0, by simp [listingLoop], by simpa using room, nofun⟩
  | cons e es ih =>
    obtain ⟨first, rest⟩ := List.forall_mem_cons.1 plain
    rw [listingLoop]
    by_cases full : (listed done).length + 64 > 704
    · refine ⟨0, Nat.zero_le _, ?_, by simpa using room, fun _ => ?_⟩
      · rw [if_pos full, List.take_zero, List.append_nil]
      · rw [List.take_zero, List.append_nil]
        omega
    · obtain ⟨written, size⟩ := write_entry done first (by omega)
      obtain ⟨k, inside, text, short, early⟩ := ih rest (done ++ [e]) (by omega)
      rw [if_neg full, written]
      rw [List.length_append, List.length_singleton] at text
      rw [List.append_assoc, List.singleton_append] at text short early
      exact ⟨k + 1, Nat.succ_le_succ inside, text, short, fun lt => early (Nat.lt_of_succ_lt_succ lt)⟩

theorem length_listed {es : List SnapEntry} (plain : ∀ e ∈ es, e.Plain) : (listed es).length ≤ 10 + 50 * es.length := by
  induction es using List.reverseRecOn with
  | nil => decide
  | append_singleton es e ih =>
    obtain ⟨rest, last⟩ := List.forall_mem_append.1 plain
    have before := ih rest
    have size := length_entry e es.length
    rw [entry_text (last e (.head _))] at size
    have count : (es ++ [e]).length = es.length + 1 := List.length_append
    rw [listed_snoc, List.length_append, count]
    omega

theorem historyJson_eq {snap : FsSnap} (plain : ∀ e ∈ snap.entries, e.Plain) :
    ∃ k, min 13 snap.entries.length ≤ k ∧ historyJson snap = (filesDoc (snap.entries.take k)).render := by
  have start : writeBytes 704 [] [utf8 "\x7b\"files\":["] = listed [] := rfl
  obtain ⟨k, inside, text, short, early⟩ := listingLoop_eq plain [] (by decide)
  rw [List.nil_append] at text short early
  refine ⟨k, ?_, ?_⟩
  · by_contra few
    have size : (listed (snap.entries.take k)).length ≤ _ :=
      length_listed fun e mem => plain e (List.mem_of_mem_take mem)
    rw [List.length_take, Nat.min_eq_left inside] at size
    have := early (by omega)
    omega
  · have two : ([utf8 "]\x7d"] : List (List UInt8)).flatten.length = 2 := rfl
    rw [historyJson, start]
    change writeBytes 704 (listingLoop (listed []) ([] : List SnapEntry).length snap.entries) _ = _
    rw [text, writeBytes_eq (by omega)]
    simp only [listed, filesDoc, Doc.render, renderMembers, List.tail_cons, List.cons_append, List.append_assoc,
      List.nil_append]
    rfl

/-- Padding with NULs keeps the order of two names. -/
theorem padded_lt {n m : List UInt8} (noNul : 0 ∉ m) {a b : ℕ} (same : n.length + a = m.length + b) (less : n < m) :
    n ++ List.replicate a 0 < m ++ List.replicate b 0 := by
  induction n generalizing m with
  | nil =>
    cases m with
    | nil => exact absurd less (List.lt_irrefl _)
    | cons y m =>
      obtain ⟨a, rfl⟩ : ∃ c, a = c + 1 := ⟨m.length + b, by simp at same; omega⟩
      rw [List.nil_append, List.replicate_succ, List.cons_append, List.cons_lt_cons_iff]
      exact .inl (UInt8.pos_iff_ne_zero.2 (List.ne_of_not_mem_cons noNul).symm)
  | cons x n ih =>
    cases m with
    | nil => exact absurd less (List.not_lt_nil _)
    | cons y m =>
      rw [List.cons_lt_cons_iff] at less
      rw [List.cons_append, List.cons_append, List.cons_lt_cons_iff]
      refine less.imp_right ?_
      rintro ⟨equal, later⟩
      refine ⟨equal, ih (List.not_mem_of_not_mem_cons noNul) ?_ later⟩
      simp only [List.length_cons] at same
      omega

/-- A name of printing ASCII characters other than quotes and backslashes. -/
def PlainName (e : DirEntry) : Prop := ∀ b ∈ e.name, isOrdinary b = true ∧ b.toNat < 128

instance (e : DirEntry) : Decidable (PlainName e) := inferInstanceAs (Decidable (∀ b ∈ e.name, _))

theorem toList_of (e : DirEntry) :
    (SnapEntry.of e).name.toList = e.name.take 20 ++ List.replicate (20 - (e.name.take 20).length) 0 := by
  rw [SnapEntry.of, toList_overwrite _ (List.length_take_le _ _), Vector.toList_replicate, List.drop_replicate]

theorem PlainName.noNul {e : DirEntry} (plain : PlainName e) : 0 ∉ e.name.take 20 := fun mem =>
  absurd (plain 0 (List.mem_of_mem_take mem)).1 (by decide)

theorem PlainName.nameText {e : DirEntry} (plain : PlainName e) : (SnapEntry.of e).nameText = e.name.take 20 := by
  have name : (SnapEntry.of e).name.toList.takeWhile (· != 0) = e.name.take 20 := by
    have solid : ∀ b ∈ e.name.take 20, (b != 0) = true := by
      intro b mem
      refine bne_iff_ne.2 ?_
      rintro rfl
      exact plain.noNul mem
    rw [toList_of, List.takeWhile_append_of_pos solid]
    cases 20 - (e.name.take 20).length with
    | zero => simp
    | succ n => simp [List.replicate_succ]
  have ascii := fromUtf8_ascii (b := e.name.take 20) fun b mem => (plain b (List.mem_of_mem_take mem)).2
  simp [SnapEntry.nameText, name, ascii]

/-- What a listing shows of a file. -/
def fileDoc (e : DirEntry) : Doc := .obj [(word "name", .str (.of (e.name.take 20))), (word "size", .num e.size.toNat)]

/-- Where no name needs an escape, a client reads a list of history files from the answer to `GET /api/history`: the
newest of the first sixteen in the root, in order, at least thirteen of them or all. -/
theorem listing_reads (root : List DirEntry) (blocks : Option UInt32) (plain : ∀ e ∈ snapFiles root, PlainName e) :
    ∃ (order : List DirEntry) (k : ℕ), order.Perm (snapFiles root) ∧
      order.Pairwise (fun a b => b.name.take 20 ≤ a.name.take 20) ∧
      min 13 order.length ≤ k ∧
      parse (historyJson (fsSnapshot root blocks)) =
        some (.obj [(word "files", .arr ((order.take k).map fileDoc))]) := by
  let newer (a b : DirEntry) : Bool := decide ((SnapEntry.of b).name.toList ≤ (SnapEntry.of a).name.toList)
  let order := (snapFiles root).mergeSort newer
  have perm : order.Perm (snapFiles root) := List.mergeSort_perm _ _
  have entries : (fsSnapshot root blocks).entries = order.map .of := by
    refine (List.map_mergeSort (r := newer) ?_).symm
    intro _ _ _ _
    rfl
  have name (e : DirEntry) (mem : e ∈ order) := (plain e (perm.subset mem)).nameText
  have shown : ∀ e ∈ (fsSnapshot root blocks).entries, e.Plain := by
    rw [entries]
    refine List.forall_mem_map.2 fun e mem b inside => ?_
    rw [name e mem] at inside
    exact (plain e (perm.subset mem) b (List.mem_of_mem_take inside)).1
  obtain ⟨k, many, text⟩ := historyJson_eq shown
  refine ⟨order, k, perm, ?_, by simpa [entries] using many, ?_⟩
  · have sorted : order.Pairwise fun a b => newer a b = true := by
      apply List.pairwise_mergeSort
      · intro a b c first second
        simp only [newer, decide_eq_true_eq] at first second ⊢
        exact List.le_trans second first
      · intro a b
        simp only [newer, Bool.or_eq_true, decide_eq_true_eq]
        exact List.le_total _ _
    refine sorted.imp_of_mem fun {a b} memA memB after => ?_
    rw [← List.not_lt]
    intro less
    refine List.not_lt.2 (of_decide_eq_true after) ?_
    rw [toList_of, toList_of]
    refine padded_lt (plain b (perm.subset memB)).noNul ?_ less
    have := List.length_take_le 20 a.name
    have := List.length_take_le 20 b.name
    omega
  · rw [text, parse_render, filesDoc, entries, ← List.map_take, List.map_map]
    refine congrArg some (congrArg Doc.obj (congrArg (fun d => [(word "files", Doc.arr d)]) ?_))
    refine List.map_congr_left fun e mem => ?_
    rw [Function.comp_apply, entryDoc, name e (List.mem_of_mem_take mem)]
    rfl

/-- Two history files. -/
def twoFiles : List DirEntry := [⟨utf8 "data_0101_120000.raw", 4096, false⟩, ⟨utf8 "data_0102_080000.raw", 16, false⟩]

theorem listing_reads_two :
    (∀ e ∈ snapFiles twoFiles, PlainName e) ∧
      ∃ (order : List DirEntry) (k : ℕ), order.Perm (snapFiles twoFiles) ∧
        order.Pairwise (fun a b => b.name.take 20 ≤ a.name.take 20) ∧ min 13 order.length ≤ k ∧
        parse (historyJson (fsSnapshot twoFiles none)) =
          some (.obj [(word "files", .arr ((order.take k).map fileDoc))]) :=
  ⟨by decide +kernel, listing_reads twoFiles none (by decide +kernel)⟩

/-- A quote in a name is not escaped. -/
example : (parse (historyJson ⟨[.of ⟨utf8 "data_\"a", 1, false⟩], 0, 0⟩)).isNone = true := by decide +kernel

end IoEdgeHub
