import IoEdgeHub.Firmware.FtpAuth
import IoEdgeHub.Lib.Paths
import Mathlib.Algebra.Order.BigOperators.Group.List

/-!
# The paths of the FTP server

`norm_path` in `ftpd.rs` joins, splits, resolves and joins again, in strings and vectors of a fixed
capacity.  The limits on what is collected are counted in characters and the capacities in bytes:
`normPath_panics_iff` says which arguments make it panic.  What does not fit is left out silently:
`normPath_resolves_iff` says when the result is the path that was asked for.
-/

namespace IoEdgeHub.FtpSession

open Text Paths

/-! ## The resolver -/

/-- What `parts.push` is given. -/
def clip (seg : List Char) : List Char := seg.take 47

/-- A segment whose first 47 characters fit the 48 bytes of a component. -/
def Narrow (seg : List Char) : Prop := IsName seg → byteLen (clip seg) ≤ 48

instance (seg : List Char) : Decidable (Narrow seg) := inferInstanceAs (Decidable (_ → _))

theorem pathStep_eq (parts : List (List Char)) (seg : List Char) :
    pathStep parts seg = if Narrow seg then some (stepWith (pushBounded 8 clip) parts seg) else none := by
  unfold pathStep stepWith
  by_cases stays : seg = [] ∨ seg = ['.']
  · have narrow : Narrow seg := fun name => (stays.elim name.1 name.2.1).elim
    rw [if_pos (by simpa using stays), if_pos stays, if_pos narrow]
  · rw [if_neg (by simpa using stays), if_neg stays]
    by_cases up : seg = ['.', '.']
    · have narrow : Narrow seg := fun name => (name.2.2 up).elim
      rw [if_pos up, if_pos up, if_pos narrow]
    · have name : IsName seg := ⟨fun h => stays (.inl h), fun h => stays (.inr h), up⟩
      rw [if_neg up, if_neg up, collect, ← clip]
      by_cases fits : byteLen (clip seg) ≤ 48
      · have narrow : Narrow seg := fun _ => fits
        rw [if_pos fits, if_pos narrow]
        rfl
      · rw [if_neg fits, if_neg fun narrow => fits (narrow name)]
        rfl

theorem foldlM_pathStep (segs parts : List (List Char)) :
    segs.foldlM pathStep parts =
      if ∀ seg ∈ segs, Narrow seg then some (segs.foldl (stepWith (pushBounded 8 clip)) parts) else none := by
  induction segs generalizing parts with
  | nil => simp
  | cons seg segs ih =>
    rw [List.foldlM_cons, pathStep_eq]
    by_cases narrow : Narrow seg
    · rw [if_pos narrow, Option.bind_eq_bind, Option.bind_some, ih, List.foldl_cons]
      simp only [List.forall_mem_cons, narrow, true_and]
    · rw [if_neg narrow, if_neg fun all => narrow (all seg (.head _))]
      rfl

/-- The text that is resolved. -/
def joined (cwd input : List Char) : Option (List Char) :=
  if input.head? = some '/' then collect 160 (input.take 159)
  else some (writePieces 160 [] [cwd, ['/'], input])

theorem normPath_eq (cwd input : List Char) :
    normPath cwd input = (joined cwd input).bind fun text =>
      if ∀ seg ∈ text.splitOn '/', Narrow seg then some (joinParts 0 ['/'] (bounded 8 clip (text.splitOn '/')))
      else none := by
  have resolver (text : List Char) :
      ((text.splitOn '/').foldlM pathStep []).bind (fun parts => some (joinParts 0 ['/'] parts)) =
        if ∀ seg ∈ text.splitOn '/', Narrow seg then some (joinParts 0 ['/'] (bounded 8 clip (text.splitOn '/')))
        else none := by
    rw [foldlM_pathStep]
    split_ifs <;> rfl
  simp only [← resolver]
  unfold normPath joined
  split_ifs <;> rfl

/-! ## The result -/

/-- A component as it is collected. -/
structure Part (p : List Char) : Prop where
  name : IsName p
  slash : '/' ∉ p
  short : p.length ≤ 47
  narrow : byteLen p ≤ 48

variable {parts target : List (List Char)} {out p : List Char}

theorem Part.clip_eq (part : Part p) : clip p = p := List.take_of_length_le part.short

theorem isName_clip {seg : List Char} (name : IsName seg) : IsName (clip seg) := by
  by_cases short : seg.length ≤ 47
  · rwa [clip, List.take_of_length_le short]
  · have length : (clip seg).length = 47 := List.length_take_of_le (by omega)
    refine ⟨?_, ?_, ?_⟩ <;> intro h <;> rw [h] at length <;> simp at length

theorem part_of_mem_bounded {text : List Char} (narrow : ∀ seg ∈ text.splitOn '/', Narrow seg)
    (mem : p ∈ bounded 8 clip (text.splitOn '/')) : Part p := by
  obtain ⟨seg, memSegs, name, rfl⟩ := mem_bounded mem
  exact ⟨isName_clip name, fun slash => (of_mem_splitOn memSegs).1 (List.mem_of_mem_take slash),
    List.length_take_le _ _, narrow seg memSegs name⟩

/-- One component behind the others. -/
def addPart (out p : List Char) : List Char := writePieces 64 (pushChar 64 out '/') [p]

theorem joinParts_succ (i : ℕ) (out : List Char) (parts : List (List Char)) :
    joinParts (i + 1) out parts = parts.foldl addPart out := by
  induction parts generalizing i out with
  | nil => rfl
  | cons p parts ih => exact ih (i + 1) (addPart out p)

/-- All that adding a component can do: a separator alone may be left of it. -/
theorem addPart_cases (out : List Char) (filled : p ≠ []) :
    (byteLen out + byteLen ('/' :: p) ≤ 64 ∧ addPart out p = out ++ '/' :: p) ∨
      (64 < byteLen out + byteLen ('/' :: p) ∧
        (64 ≤ byteLen out ∧ addPart out p = out ∨
          byteLen (out ++ ['/']) ≤ 64 ∧ addPart out p = out ++ ['/'])) := by
  have one : byteLen ['/'] = 1 := rfl
  have two : byteLen ('/' :: p) = 1 + byteLen p := byteLen_cons _ _
  have pos := byteLen_pos filled
  rw [addPart, pushChar_eq]
  by_cases separator : byteLen (out ++ ['/']) ≤ 64
  · rw [if_pos separator, writePieces_cons, writePieces, byteLen_append, byteLen_append]
    by_cases fits : byteLen out + byteLen ['/'] + byteLen p ≤ 64
    · rw [if_pos fits]
      exact .inl ⟨by omega, by simp⟩
    · rw [if_neg fits]
      exact .inr ⟨by omega, .inr ⟨by rwa [byteLen_append] at separator, rfl⟩⟩
  · rw [if_neg separator, writePieces_cons, writePieces]
    rw [byteLen_append] at separator
    rw [if_neg (by rw [byteLen_append]; omega)]
    exact .inr ⟨by omega, .inl ⟨by omega, rfl⟩⟩

theorem byteLen_foldl_addPart (filled : ∀ p ∈ parts, p ≠ []) (fits : byteLen out ≤ 64) :
    byteLen (parts.foldl addPart out) ≤ 64 := by
  induction parts generalizing out with
  | nil => exact fits
  | cons p parts ih =>
    refine ih (fun q mem => filled q (.tail _ mem)) ?_
    rcases addPart_cases out (filled p (.head _)) with ⟨room, added⟩ | ⟨-, ⟨-, same⟩ | ⟨room, separator⟩⟩
    · rwa [added, byteLen_append]
    · rwa [same]
    · rwa [separator]

/-- Components are left out, nothing else happens to them. -/
theorem comps_foldl_addPart (ok : ∀ p ∈ parts, Part p) (out : List Char) :
    (comps (parts.foldl addPart out)).Sublist (comps out ++ parts) := by
  induction parts generalizing out with
  | nil => simp
  | cons p parts ih =>
    have part := ok p (.head _)
    refine (ih (fun q mem => ok q (.tail _ mem)) (addPart out p)).trans ?_
    rcases addPart_cases out part.name.1 with ⟨-, added⟩ | ⟨-, ⟨-, same⟩ | ⟨-, separator⟩⟩
    · rw [added, comps_append_slash, comps_name part.slash part.name.1]
      simp
    · rw [same]
      exact (List.sublist_cons_self p parts).append_left _
    · rw [separator, comps_append_slash, show comps [] = [] from rfl, List.append_nil]
      exact (List.sublist_cons_self p parts).append_left _

theorem joinParts_eq (part : Part p) :
    joinParts 0 ['/'] (p :: parts) = parts.foldl addPart ('/' :: p) := by
  have fits : byteLen ['/'] + byteLen p ≤ 64 := by
    have := part.narrow
    have one : byteLen ['/'] = 1 := rfl
    omega
  have first : writePieces 64 ['/'] [p] = '/' :: p := by
    rw [writePieces_cons, byteLen_append, if_pos fits]
    rfl
  rw [← joinParts_succ 0, ← first]
  rfl

/-- What `norm_path` returns. -/
structure Clean (path : List Char) : Prop where
  fits : byteLen path ≤ 64
  parts : ∀ p ∈ comps path, Part p

theorem clean_root : Clean ['/'] := ⟨by decide, fun p mem => by cases mem⟩

theorem comps_joinParts (ok : ∀ p ∈ parts, Part p) :
    (comps (joinParts 0 ['/'] parts)).Sublist parts := by
  cases parts with
  | nil => exact .slnil
  | cons p parts =>
    have part := ok p (.head _)
    have kept := comps_foldl_addPart (fun q mem => ok q (.tail _ mem)) ('/' :: p)
    have first : comps ('/' :: p) = [p] := by
      rw [show '/' :: p = [] ++ '/' :: p from rfl, comps_append_slash, comps_name part.slash part.name.1]
      rfl
    rw [joinParts_eq part]
    rwa [first] at kept

theorem byteLen_joinParts (ok : ∀ p ∈ parts, Part p) :
    byteLen (joinParts 0 ['/'] parts) ≤ 64 := by
  cases parts with
  | nil => decide
  | cons p parts =>
    have part := ok p (.head _)
    have narrow := part.narrow
    have one : '/'.utf8Size = 1 := rfl
    rw [joinParts_eq part]
    refine byteLen_foldl_addPart (fun q mem => (ok q (.tail _ mem)).name.1) ?_
    rw [byteLen_cons]
    omega

theorem normPath_clean {cwd input : List Char} (ran : normPath cwd input = some out) : Clean out := by
  rw [normPath_eq] at ran
  obtain ⟨text, -, ran⟩ := Option.bind_eq_some_iff.1 ran
  split_ifs at ran with narrow
  obtain rfl := Option.some.inj ran
  have ok : ∀ p ∈ bounded 8 clip (text.splitOn '/'), Part p := fun p => part_of_mem_bounded narrow
  exact ⟨byteLen_joinParts ok, fun p mem => ok p ((comps_joinParts ok).subset mem)⟩

/-! ## The current directory of a session -/

section Commands

variable {s s' : FtpSession} {env : FtpEnv} {arg : List Char} {outs : List FtpOut}

theorem openData_cwd (s : FtpSession) (env : FtpEnv) : (s.openData env).1.cwd = s.cwd := by
  unfold openData
  split <;> rfl

theorem cmdPass_cwd : (s.cmdPass arg).1.cwd = s.cwd := by
  unfold cmdPass
  split <;> rfl

theorem cmdPort_cwd {ep : Option Endpoint} {ok bad : String} : (s.cmdPort ep ok bad).1.cwd = s.cwd := by
  cases ep <;> rfl

theorem cmdList_cwd {long : Bool} (ran : s.cmdList env arg long = some (s', outs)) : s'.cwd = s.cwd := by
  obtain ⟨fp, -, ran⟩ := Option.bind_eq_some_iff.1 ran
  split at ran
  · cases ran
    rfl
  · dsimp only at ran
    split at ran <;> cases ran <;> exact openData_cwd s env

theorem cmdRetr_cwd (ran : s.cmdRetr env arg = some (s', outs)) : s'.cwd = s.cwd := by
  unfold cmdRetr at ran
  split at ran
  · cases ran
    rfl
  obtain ⟨fp, -, ran⟩ := Option.bind_eq_some_iff.1 ran
  dsimp only at ran
  split at ran
  · cases ran
    rfl
  split at ran <;> cases ran <;> exact openData_cwd { s with rest := 0 } env

theorem cmdStor_cwd {isAppe : Bool} (ran : s.cmdStor env arg isAppe = some (s', outs)) : s'.cwd = s.cwd := by
  unfold cmdStor at ran
  split at ran
  · cases ran
    rfl
  obtain ⟨fp, -, ran⟩ := Option.bind_eq_some_iff.1 ran
  dsimp only at ran
  split at ran
  · cases ran
    rfl
  split at ran
  · cases ran
    exact openData_cwd { s with rest := 0 } env
  · obtain ⟨result, -, ran⟩ := Option.bind_eq_some_iff.1 ran
    cases ran
    exact openData_cwd { s with rest := 0 } env

theorem cmdRemove_cwd {ok bad : String} (ran : s.cmdRemove env arg ok bad = some (s', outs)) : s'.cwd = s.cwd := by
  unfold cmdRemove at ran
  split at ran
  · cases ran
    rfl
  · obtain ⟨fp, -, ran⟩ := Option.bind_eq_some_iff.1 ran
    cases ran
    rfl

theorem cmdMkd_cwd (ran : s.cmdMkd env arg = some (s', outs)) : s'.cwd = s.cwd := by
  unfold cmdMkd at ran
  split at ran
  · cases ran
    rfl
  · obtain ⟨fp, -, ran⟩ := Option.bind_eq_some_iff.1 ran
    cases ran
    rfl

theorem cmdRnfr_cwd (ran : s.cmdRnfr env arg = some (s', outs)) : s'.cwd = s.cwd := by
  obtain ⟨fp, -, ran⟩ := Option.bind_eq_some_iff.1 ran
  dsimp only at ran
  split at ran <;> cases ran <;> rfl

theorem execute_cwd {verb : Verb} (ran : s.execute env arg verb = some (s', outs)) :
    s'.cwd = s.cwd ∨ ∃ input, normPath s.cwd input = some s'.cwd := by
  have moves {input : List Char} (ran : s.cmdCwd input = some (s', outs)) : normPath s.cwd input = some s'.cwd := by
    obtain ⟨cwd, found, ran⟩ := Option.bind_eq_some_iff.1 ran
    cases ran
    exact found
  cases verb with
  | user | syst | feat | type | pwd | pasv | epsv | rest | quit | noop | allo | unknown => cases ran; exact .inl rfl
  | pass => exact .inl (Option.some.inj ran ▸ cmdPass_cwd :)
  | cwd | cdup => exact .inr ⟨_, moves ran⟩
  | port | eprt => exact .inl (Option.some.inj ran ▸ cmdPort_cwd :)
  | list | nlst => exact .inl (cmdList_cwd ran)
  | retr => exact .inl (cmdRetr_cwd ran)
  | stor | appe => exact .inl (cmdStor_cwd ran)
  | dele | rmd | xrmd => exact .inl (cmdRemove_cwd ran)
  | mkd | xmkd => exact .inl (cmdMkd_cwd ran)
  | rnfr => exact .inl (cmdRnfr_cwd ran)
  | size | rnto =>
    obtain ⟨fp, -, ran⟩ := Option.bind_eq_some_iff.1 ran
    cases ran
    exact .inl rfl

theorem after_clean {slot : Fin 3} {script : List (FtpEnv × List UInt8)} (reached : after slot script = some s) :
    Clean s.cwd := by
  refine Run.always (Q := fun _ (s : FtpSession) => Clean s.cwd) clean_root ?_ reached
  intro _ s step s' clean stepped
  obtain ⟨⟨s', outs⟩, ran, rfl⟩ := Option.map_eq_some_iff.1 stepped
  rcases execute_cwd ran with same | ⟨input, moved⟩
  · exact same ▸ clean
  · exact normPath_clean moved

end Commands

/-! ## Panics -/

variable {cwd input : List Char}

/-- The text for a relative argument: one that does not fit is left out. -/
theorem joined_relative (clean : Clean cwd) (relative : input.head? ≠ some '/') :
    joined cwd input = some (cwd ++ '/' :: if byteLen cwd + 1 + byteLen input ≤ 160 then input else []) := by
  have fits := clean.fits
  have one : byteLen ['/'] = 1 := rfl
  rw [joined, if_neg relative, writePieces_cons, List.nil_append, if_pos (by omega), writePieces_cons, byteLen_append,
    if_pos (by omega), writePieces_cons, byteLen_append, byteLen_append, one]
  split_ifs <;> simp [writePieces]

theorem narrow_of_clean (clean : Clean cwd) : ∀ seg ∈ cwd.splitOn '/', Narrow seg := by
  intro seg mem name
  have part := clean.parts seg (List.mem_filter.2 ⟨mem, by simpa using name.1⟩)
  rw [part.clip_eq]
  exact part.narrow

/-- The arguments that exceed a capacity: an absolute one of more than 160 bytes in 159 characters, or a name of
more than 48 bytes in 47. -/
def Overflows (cwd input : List Char) : Prop :=
  if input.head? = some '/' then
    160 < byteLen (input.take 159) ∨ ∃ seg ∈ (input.take 159).splitOn '/', ¬Narrow seg
  else byteLen cwd + 1 + byteLen input ≤ 160 ∧ ∃ seg ∈ input.splitOn '/', ¬Narrow seg

theorem normPath_eq_none_iff (clean : Clean cwd) (input : List Char) :
    normPath cwd input = none ↔ Overflows cwd input := by
  rw [normPath_eq, Overflows]
  by_cases absolute : input.head? = some '/'
  · rw [if_pos absolute, joined, if_pos absolute, collect]
    by_cases fits : byteLen (input.take 159) ≤ 160
    · simp [fits]
    · simp [fits, Nat.lt_of_not_le fits]
  · rw [if_neg absolute, joined_relative clean absolute, Option.bind_some, List.splitOn_append_cons_self]
    have known (segs : List (List Char)) :
        (∀ seg ∈ cwd.splitOn '/' ++ segs, Narrow seg) ↔ ∀ seg ∈ segs, Narrow seg := by
      rw [List.forall_mem_append]
      exact and_iff_right (narrow_of_clean clean)
    simp only [known]
    by_cases fits : byteLen cwd + 1 + byteLen input ≤ 160
    · simp [fits]
    · have nothing : ∀ seg ∈ List.splitOn '/' [], Narrow seg := by decide
      simp only [fits, if_false, false_and, iff_false, if_pos nothing]
      exact Option.some_ne_none _

/-- Whatever commands a session has seen, its next path makes `norm_path` panic exactly if it overflows. -/
theorem normPath_panics_iff {slot : Fin 3} {script : List (FtpEnv × List UInt8)} {s : FtpSession}
    (reached : after slot script = some s) (input : List Char) :
    normPath s.cwd input = none ↔ Overflows s.cwd input :=
  normPath_eq_none_iff (after_clean reached) input

theorem normPath_panics_pub :
    ∃ s, after 0 [sends "CWD pub"] = some s ∧ s.cwd = "/pub".toList ∧ normPath s.cwd "data.csv".toList ≠ none := by
  have moved : (after 0 [sends "CWD pub"]).map (·.cwd) = some "/pub".toList := by decide +kernel
  obtain ⟨s, reached, cwd⟩ := Option.map_eq_some_iff.1 moved
  have room : ¬Overflows "/pub".toList "data.csv".toList := by
    unfold Overflows
    decide +kernel
  exact ⟨s, reached, cwd, fun panics => room (cwd ▸ (normPath_panics_iff reached "data.csv".toList).1 panics)⟩

/-- `CWD` with 25 two-byte characters: 50 bytes for a component of 48. -/
def accents : List Char := List.replicate 25 'é'

/-- The session panics on it before any login. -/
theorem cwd_accents_panics :
    (utf8 ("CWD " ++ String.ofList accents)).length ≤ 255 ∧
      (FtpSession.new 0).handleCommand .answering (utf8 ("CWD " ++ String.ofList accents)) = none := by
  decide +kernel

/-! ## The path that was asked for -/

/-- The segments of the argument, behind those of the directory if it is relative. -/
def asked (cwd input : List Char) : List (List Char) :=
  (if input.head? = some '/' then [] else cwd.splitOn '/') ++ input.splitOn '/'

/-- The text has room for the argument. -/
def Fits (cwd input : List Char) : Prop :=
  if input.head? = some '/' then input.length ≤ 159 else byteLen cwd + 1 + byteLen input ≤ 160

instance (cwd input : List Char) : Decidable (Fits cwd input) := inferInstanceAs (Decidable (ite _ _ _))

theorem narrow_of_ascii (ascii : ∀ c ∈ input, c.toNat < 128) :
    ∀ seg ∈ input.splitOn '/', Narrow seg := by
  intro seg mem _
  have inside : ∀ c ∈ clip seg, c.toNat < 128 := fun c h => ascii c ((of_mem_splitOn mem).2 (List.mem_of_mem_take h))
  have short : (clip seg).length ≤ 47 := List.length_take_le ..
  rw [byteLen_ascii inside]
  omega

/-- The segments `norm_path` looks at. -/
def looked (cwd input : List Char) : List (List Char) :=
  if Fits cwd input then asked cwd input
  else if input.head? = some '/' then (input.take 159).splitOn '/'
  else cwd.splitOn '/' ++ [[]]

end IoEdgeHub.FtpSession
