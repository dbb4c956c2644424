import IoEdgeHub.Firmware.WsUpload
import IoEdgeHub.Proto.JsonFlat

/-!
# Setting the clock over the web

`POST /api/time` and the WebSocket command `time` read `ts` with `json_get_i32`, cast it to 32 unsigned bits and
leave the window to `set_timestamp`.  The window ends in the year 2100, past what the getter reads, and the cast
carries the lowest negative numbers into it (`setsTime_cast`).
-/

namespace IoEdgeHub

open Text

/-- The number, of any size. -/
def FlatValue.int? : FlatValue → Option ℤ
  | .int neg n => some (if neg then -n else n)
  | _ => none

theorem FlatValue.i32?_of_int? {v : FlatValue} {z : ℤ} (number : v.int? = some z) :
    v.i32? = if -2 ^ 31 ≤ z ∧ z ≤ 2 ^ 31 - 1 then some z else none := by
  cases v with
  | int neg n =>
    cases number
    rfl
  | str => cases number
  | bool => cases number

namespace WsSession

/-- The window of `ts_valid`. -/
def InWindow (z : ℤ) : Prop := tsMin.toNat ≤ z ∧ z ≤ tsMax.toNat

instance (z : ℤ) : Decidable (InWindow z) := inferInstanceAs (Decidable (_ ∧ _))

/-- Success for the numbers of the window only, and the clock shows the number then. -/
def SetsTime (z : ℤ) (s : WsSession) (ok : Bool) : Prop :=
  (ok = true ↔ InWindow z) ∧ (ok = true → (s.hooks.nowEpoch.toNat : ℤ) = z)

/-- Where the number of a member reaches the clock as it is written. -/
def TimeRead (m : FlatMember) (z : ℤ) : Prop :=
  if m.preColon.Blank then ¬(2 ^ 31 ≤ z ∧ z ≤ tsMax.toNat) ∧ ¬(-2 ^ 31 ≤ z ∧ z ≤ tsMax.toNat - 2 ^ 32)
  else ¬InWindow z

/-- What both handlers do with the number they read. -/
def timeFrom (s : WsSession) : Option ℤ → WsSession × Bool
  | some ts => s.setTimestamp (UInt32.ofNat (ts % 2 ^ 32).toNat)
  | none => (s, false)

theorem apiPost_time (s : WsSession) (body : List UInt8) :
    s.apiPost body .time = (jsonGetI32 body "ts").map s.timeFrom := by
  rw [apiPost]
  rcases jsonGetI32 body "ts" with _ | _ | ts <;> rfl

theorem cmdTime_eq (s : WsSession) (payload : List UInt8) :
    s.cmdTime payload = (jsonGetI32 payload "ts").map fun ts =>
      (s.timeFrom ts).1.reply (if (s.timeFrom ts).2 then okReply else failReply) := by
  rw [cmdTime]
  rcases jsonGetI32 payload "ts" with _ | _ | ts <;> rfl

theorem wsHandleCmd_time {s : WsSession} {payload : List UInt8}
    (cmd : jsonGetStr payload "cmd" = some (some (utf8 "time"))) :
    s.wsHandleCmd payload = s.cmdTime payload := by
  rw [wsHandleCmd, cmd]
  rfl

theorem wsHandleCmd_unread {s : WsSession} {payload : List UInt8} (cmd : jsonGetStr payload "cmd" = some none) :
    s.wsHandleCmd payload = some (s.reply (errReply "unknown cmd")) := by
  rw [wsHandleCmd, cmd]
  rfl

theorem setTimestamp_ok (s : WsSession) (ts : UInt32) : (s.setTimestamp ts).2 = true ↔ InWindow ts.toNat := by
  rw [setTimestamp, InWindow, Nat.cast_le, Nat.cast_le, ← UInt32.le_iff_toNat_le, ← UInt32.le_iff_toNat_le]
  split
  case isTrue inside => simp [inside]
  case isFalse outside => simp [outside]

theorem nowEpoch_setTimestamp {s : WsSession} {ts : UInt32} (ok : (s.setTimestamp ts).2 = true) :
    (s.setTimestamp ts).1.hooks.nowEpoch = ts := by
  rw [setTimestamp] at ok ⊢
  split at ok
  case isTrue inside => rw [if_pos inside]
  case isFalse => cases ok

theorem setsTime_setTimestamp (z : ℤ) (s : WsSession) (ts : UInt32) :
    SetsTime z (s.setTimestamp ts).1 (s.setTimestamp ts).2 ↔
      (InWindow ts.toNat ↔ InWindow z) ∧ (InWindow ts.toNat → (ts.toNat : ℤ) = z) := by
  rw [SetsTime, ← s.setTimestamp_ok ts]
  refine and_congr_right fun _ => forall_congr' fun ok => ?_
  rw [nowEpoch_setTimestamp ok]

theorem setsTime_refused (z : ℤ) (s : WsSession) : SetsTime z s false ↔ ¬InWindow z := by
  simp [SetsTime]

/-- The cast adds 2^32 to a negative number, and of those only the low ones end up in the window. -/
theorem setsTime_cast (s : WsSession) {z : ℤ} (range : -2 ^ 31 ≤ z ∧ z ≤ 2 ^ 31 - 1) :
    SetsTime z (s.timeFrom (some z)).1 (s.timeFrom (some z)).2 ↔ ¬z ≤ tsMax.toNat - 2 ^ 32 := by
  have low : tsMin.toNat = 946684800 := rfl
  have high : tsMax.toNat = 4102444800 := rfl
  have word : ((UInt32.ofNat (z % 2 ^ 32).toNat).toNat : ℤ) = if 0 ≤ z then z else z + 2 ^ 32 := by
    rw [UInt32.toNat_ofNat']
    split <;> omega
  rw [timeFrom, setsTime_setTimestamp, word, InWindow, InWindow, low, high]
  split
  case isTrue => exact iff_of_true ⟨Iff.rfl, fun _ => rfl⟩ (by omega)
  case isFalse => omega

theorem setsTime_member (s : WsSession) {m : FlatMember} {z : ℤ} (number : m.value.int? = some z) :
    SetsTime z (s.timeFrom (m.found.bind rawI32)).1 (s.timeFrom (m.found.bind rawI32)).2 ↔ TimeRead m z := by
  have low : tsMin.toNat = 946684800 := rfl
  have high : tsMax.toNat = 4102444800 := rfl
  rw [m.found_i32, TimeRead, FlatValue.i32?_of_int? number]
  by_cases blank : m.preColon.Blank
  · rw [if_pos blank, if_pos blank]
    by_cases range : -2 ^ 31 ≤ z ∧ z ≤ 2 ^ 31 - 1
    · rw [if_pos range, s.setsTime_cast range]
      omega
    · rw [if_neg range, timeFrom, setsTime_refused, InWindow]
      omega
  · rw [if_neg blank, if_neg blank, timeFrom, setsTime_refused]

/-- On which bodies the two handlers set the clock to the number and refuse what is outside the window. -/
theorem webTime_window (s : WsSession) (o : FlatObject) {m : FlatMember} (member : o.find (utf8 "ts") = some m) {z : ℤ}
    (number : m.value.int? = some z) :
    (∃ s' ok, s.apiPost o.bytes .time = some (s', ok) ∧ (SetsTime z s' ok ↔ TimeRead m z)) ∧
    ∀ c ∈ o.find (utf8 "cmd"), c.value.str? = some (utf8 "time") →
      ∃ s' text, s.wsHandleCmd o.bytes = some (s'.reply text) ∧
        (SetsTime z s' (text = okReply) ↔
          if c.preColon.Blank ∧ c.postColon.Blank ∧ c.postValue.bytes = [] then TimeRead m z else ¬InWindow z) := by
  have ts : jsonGetI32 o.bytes "ts" = some (m.found.bind rawI32) := by
    rw [jsonGetI32, o.jsonRawValue_bytes (by decide), member]
    rfl
  have correct := s.setsTime_member number
  constructor
  · exact ⟨_, _, by rw [apiPost_time, ts]; rfl, correct⟩
  · intro c named time
    have cmd : jsonGetStr o.bytes "cmd" = some (c.found.bind rawStr) := by
      rw [jsonGetStr, o.jsonRawValue_bytes (by decide), named]
      rfl
    rw [c.found_str, time] at cmd
    split at cmd
    case isTrue read =>
      refine ⟨_, _, by rw [wsHandleCmd_time cmd, cmdTime_eq, ts, Option.map_some], ?_⟩
      rw [if_pos read, ← correct]
      cases (s.timeFrom (m.found.bind rawI32)).2 <;> rfl
    case isFalse unread =>
      refine ⟨s, _, wsHandleCmd_unread cmd, ?_⟩
      rw [if_neg unread, ← setsTime_refused z s]
      rfl

/-- The member `"ts":n`. -/
def tsMember (neg : Bool) (n : ℕ) : FlatMember :=
  ⟨.empty, utf8 "ts", .empty, .empty, .int neg n, .empty, List.all_iff_forall_prop.1 rfl⟩

/-- The member `"cmd":"time"`. -/
def timeCmd : FlatMember :=
  ⟨.empty, utf8 "cmd", .empty, .empty,
    .str [.plain 0x74 (by decide), .plain 0x69 (by decide), .plain 0x6D (by decide), .plain 0x65 (by decide)],
    .empty, List.all_iff_forall_prop.1 rfl⟩

/-- The text `{"cmd":"time","ts":n}`. -/
def timeBody (neg : Bool) (n : ℕ) : FlatObject :=
  ⟨.empty, .empty, [timeCmd, tsMember neg n], .empty, (by decide : [utf8 "cmd", utf8 "ts"].Nodup)⟩

theorem webTime_window_now :
    (∃ s' ok, idleSession.apiPost (timeBody false 1700000000).bytes .time = some (s', ok) ∧ SetsTime 1700000000 s' ok) ∧
    ∃ s' text, idleSession.wsHandleCmd (timeBody false 1700000000).bytes = some (s'.reply text) ∧
      SetsTime 1700000000 s' (text = okReply) := by
  have read : TimeRead (tsMember false 1700000000) 1700000000 := by
    unfold TimeRead
    decide
  obtain ⟨⟨s', ok, ran, post⟩, cmd⟩ :=
    webTime_window idleSession (timeBody false 1700000000) (m := tsMember false 1700000000) rfl rfl
  obtain ⟨s'', text, handled, ws⟩ := cmd timeCmd rfl rfl
  refine ⟨⟨s', ok, ran, post.2 read⟩, s'', text, handled, ws.2 ?_⟩
  rwa [if_pos (by decide)]

/-- A time of the year 2038 is refused, and -2^31 sets the clock to the same time. -/
theorem webTime_past_2038 :
    InWindow 2147483648 ∧ ¬InWindow (-2147483648) ∧
    (idleSession.apiPost (timeBody false 2147483648).bytes .time).map (·.2) = some false ∧
    (idleSession.apiPost (timeBody true 2147483648).bytes .time).map (fun r => (r.1.hooks.nowEpoch, r.2)) =
      some (2147483648, true) ∧
    idleSession.wsHandleCmd (timeBody false 2147483648).bytes = some (idleSession.reply failReply) ∧
    (∃ s' : WsSession, idleSession.wsHandleCmd (timeBody true 2147483648).bytes = some (s'.reply okReply) ∧
      s'.hooks.nowEpoch = 2147483648) := by
  exact ⟨by decide, by decide, rfl, rfl, rfl, ⟨_, rfl, rfl⟩⟩

end WsSession

end IoEdgeHub
