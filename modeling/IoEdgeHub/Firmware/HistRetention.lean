import IoEdgeHub.Proto.HistName
import IoEdgeHub.Firmware.Storage
import Mathlib.Data.List.Nodup

/-!
# Which history files are kept

Each new history file is followed by a clean-up that removes the file with the smallest name once there
are more than ten.  `HistDir` follows the files in the root along a run of such creations, with the time
each was created.  The file removed is the one earliest within its year (`step_cases`), which is the
oldest one exactly if no other file falls earlier within its year (`keepsNewest_iff`).
-/

namespace IoEdgeHub

open Bytes

/-! ## Paths of names -/

variable {n : List UInt8} (paths : LfsPaths)

theorem Plain.noNul (plain : Plain n) : 0 ∉ n := fun zero => (plain 0 zero).1 rfl

theorem Plain.ascii (plain : Plain n) : n.all (· < 128) = true :=
  List.all_eq_true.2 fun b member => decide_eq_true (plain b member).2

theorem fromBytesWithNul_plain (plain : Plain n) : paths.fromBytesWithNul (n ++ [0]) = some n := by
  rw [paths.ascii n plain.noNul, if_pos plain.ascii]

theorem findIdx?_nul {rest : List UInt8} (noNul : 0 ∉ n) :
    (n ++ 0 :: rest).findIdx? (· == 0) = some n.length := by
  induction n with
  | nil => rfl
  | cons b n ih =>
    have other : (b == 0) = false := beq_eq_false_iff_ne.2 (List.ne_of_not_mem_cons noNul).symm
    rw [List.cons_append, List.findIdx?_cons, other, ih (List.not_mem_of_not_mem_cons noNul)]
    rfl

/-- A name as `cleanup_old_files` keeps it. -/
def fileName (n : List UInt8) : FileName := overwrite (.replicate 24 0) (n.take (min n.length 23))

theorem toList_fileName (short : n.length ≤ 23) :
    (fileName n).toList = n ++ List.replicate (24 - n.length) 0 := by
  rw [fileName, Nat.min_eq_left short, List.take_length, toList_overwrite _ (by omega), Vector.toList_replicate,
    List.drop_replicate]

theorem toList_fileName_nul (short : n.length ≤ 23) :
    (fileName n).toList = n ++ 0 :: List.replicate (23 - n.length) 0 := by
  rw [fileName, Nat.min_eq_left short, List.take_length, toList_overwrite_zeros (Nat.lt_succ_of_le short)]

/-- The path of a name: one that is not ASCII has none. -/
theorem pathOf_fileName (noNul : 0 ∉ n) (nonempty : n ≠ []) (short : n.length ≤ 23) :
    pathOf paths (fileName n) = if n.all (· < 128) then some n else none := by
  have pos := List.length_pos_iff.2 nonempty
  have cut : (n ++ 0 :: List.replicate (23 - n.length) 0).take (n.length + 1) = n ++ [0] := by
    rw [List.take_length_add_append]
    rfl
  have inside : ¬(decide (n.length = 0) || decide (n.length ≥ 24)) = true := by
    simp only [Bool.or_eq_true, decide_eq_true_eq]
    omega
  unfold pathOf
  rw [toList_fileName_nul short, findIdx?_nul noNul]
  dsimp only [Option.getD_some]
  rw [if_neg inside, cut, paths.ascii n noNul]

theorem pathOf_plain (plain : Plain n) (nonempty : n ≠ []) (short : n.length ≤ 23) :
    pathOf paths (fileName n) = some n := by
  rw [pathOf_fileName paths plain.noNul nonempty short, if_pos plain.ascii]

theorem HistState.path_set (st : HistState) (plain : Plain n) (nonempty : n ≠ [])
    (short : n.length ≤ 23) : (st.set n).path paths = some n := by
  have pos := List.length_pos_iff.2 nonempty
  have none_found : n.findIdx? (· == 0) = none := by
    rw [List.findIdx?_eq_none_iff]
    exact fun b member => beq_eq_false_iff_ne.2 (plain b member).1
  have fits : (n ++ [0]).length ≤ 24 := by
    rw [List.length_append, List.length_singleton]
    omega
  unfold HistState.set HistState.path
  dsimp only
  rw [none_found, Option.getD_none, Nat.min_eq_left short, List.take_length, if_neg (by omega)]
  have kept := take_overwrite st.name fits
  rw [List.length_append, List.length_singleton] at kept
  rw [kept, fromBytesWithNul_plain paths plain]

/-! ## The clean-up -/

/-- The index found by the search for the smallest name. -/
theorem foldl_least (f : ℕ → List UInt8) (n : ℕ) :
    (List.range n).foldl (fun m i => if f i < f m then i else m) 0 ≤ n - 1 ∧
      ∀ i < n, f ((List.range n).foldl (fun m i => if f i < f m then i else m) 0) ≤ f i := by
  induction n with
  | zero => exact ⟨Nat.le_refl 0, fun i no => absurd no (Nat.not_lt_zero i)⟩
  | succ n ih =>
    rw [List.range_succ, List.foldl_append, List.foldl_cons, List.foldl_nil]
    generalize (List.range n).foldl (fun m i => if f i < f m then i else m) 0 = m at ih
    obtain ⟨inside, least⟩ := ih
    split
    · rename_i smaller
      refine ⟨Nat.le_refl n, fun i below => ?_⟩
      rcases Nat.lt_succ_iff_lt_or_eq.1 below with earlier | rfl
      · exact List.le_trans (List.le_of_lt smaller) (least i earlier)
      · exact List.le_refl _
    · rename_i notSmaller
      refine ⟨by omega, fun i below => ?_⟩
      rcases Nat.lt_succ_iff_lt_or_eq.1 below with earlier | rfl
      · exact least i earlier
      · exact List.not_lt.1 notSmaller

namespace Store

theorem oldest_least {names : List FileName} (nonempty : names ≠ []) :
    ∃ v, names[oldest names]? = some v ∧ ∀ u ∈ names, v.toList ≤ u.toList := by
  have pos := List.length_pos_iff.2 nonempty
  obtain ⟨inside, least⟩ := foldl_least (fun i => (names[i]?.map Vector.toList).getD []) names.length
  change oldest names ≤ names.length - 1 at inside
  change ∀ i < names.length, (names[oldest names]?.map Vector.toList).getD [] ≤ _ at least
  obtain ⟨v, found⟩ : ∃ v, names[oldest names]? = some v := ⟨_, List.getElem?_eq_getElem (by omega)⟩
  refine ⟨v, found, fun u member => ?_⟩
  obtain ⟨i, below, rfl⟩ := List.getElem_of_mem member
  have small := least i below
  rwa [List.getElem?_eq_getElem below, found] at small

theorem cleanupLoop_few (fuel : ℕ) {names : List FileName} (few : names.length ≤ histMaxFiles) :
    cleanupLoop paths fuel names = [] := by
  cases fuel with
  | zero => rfl
  | succ fuel => exact if_neg (by omega)

theorem cleanupLoop_one (fuel : ℕ) {names : List FileName} (one : names.length = histMaxFiles + 1) :
    ∃ v ∈ names, (∀ u ∈ names, v.toList ≤ u.toList) ∧ cleanupLoop paths (fuel + 1) names = (pathOf paths v).toList := by
  obtain ⟨v, found, least⟩ := oldest_least (List.length_pos_iff.1 (by omega) : names ≠ [])
  refine ⟨v, List.mem_of_getElem? found, least, ?_⟩
  rw [cleanupLoop, if_pos (by omega)]
  dsimp only
  rw [found, Option.bind_some, cleanupLoop_few paths fuel (by simp; omega), List.append_nil]

/-- The names the clean-up looks at. -/
def isHist (n : List UInt8) : Bool := isHistName n (min n.length 23)

theorem histNames_eq (root : List DirEntry) :
    histNames root = (((root.map DirEntry.name).filter isHist).map fileName).take 12 := by
  unfold histNames
  congr 1
  induction root with
  | nil => rfl
  | cons e root ih =>
    rw [List.filterMap_cons, List.map_cons, List.filter_cons]
    dsimp only
    by_cases hist : isHistName e.name (min e.name.length 23) = true
    · rw [if_pos hist, if_pos (by exact hist), List.map_cons, ← ih]
      rfl
    · rw [if_neg hist, if_neg (by exact hist)]
      exact ih

theorem closeHeld_removals (s : Store) (held : Option File) (ok : Bool) :
    (s.closeHeld held ok).removals = s.removals := by
  cases held <;> rfl

theorem openAppend_full (s : Store) {env : AppendEnv} (full : hasRoom env = false) (record : List UInt8) :
    s.openAppend env record false = (s, false) := by
  unfold openAppend
  split
  · rfl
  · rw [if_pos (by simp [full])]

/-- A new file under a good name is opened and written. -/
theorem openAppend_new {s : Store} {n : List UInt8} (path : s.hist.path s.paths = some n) {env : AppendEnv}
    (opened : env.opened = true) (written : env.written = true) (record : List UInt8) :
    (s.openAppend env record true).2 = true ∧ (s.openAppend env record true).1.removals = s.removals ∧
      (s.openAppend env record true).1.paths = s.paths := by
  unfold openAppend
  rw [path]
  dsimp only
  rw [if_neg (by simp), if_pos opened, if_pos written]
  exact ⟨rfl, rfl, rfl⟩

theorem histCreate_removals (s : Store) {env : HistEnv} (opened : env.fresh.opened = true)
    (written : env.fresh.written = true) (record : List UInt8) :
    (s.histCreate env record).removals =
      s.removals ++ cleanupLoop s.paths (histNames env.root).length (histNames env.root) := by
  have length := length_makeHistName env.now
  have path := s.hist.path_set s.paths (plain_makeHistName env.now) (List.length_pos_iff.1 (by omega)) (by omega)
  have result {st : HistState} {n : List UInt8} (path : st.path s.paths = some n) :
      (openAppend { s with hist := st } env.fresh record true).2 = true ∧
        (openAppend { s with hist := st } env.fresh record true).1.removals = s.removals ∧
        (openAppend { s with hist := st } env.fresh record true).1.paths = s.paths :=
    openAppend_new (s := { s with hist := st }) path opened written record
  rw [histCreate, if_pos (result path).1, cleanupOldFiles, (result path).2.1, (result path).2.2]

/-- Once the open file and the remembered one are full, a write makes a new file and cleans up. -/
theorem histWrite_removals (s : Store) {env : HistEnv} (d : HisData)
    (full : env.len.any (· < histFileMax) = false) (noRoom : hasRoom env.retained = false)
    (opened : env.fresh.opened = true) (written : env.fresh.written = true) :
    (s.histWrite env d).removals =
      s.removals ++ cleanupLoop s.paths (histNames env.root).length (histNames env.root) := by
  have rotates : s.staysOpen env = false := by simp [staysOpen, full]
  unfold histWrite
  dsimp only
  rw [if_neg (by simp [rotates]), histReopen]
  dsimp only
  rw [openAppend_full _ noRoom, ite_self]
  dsimp only
  rw [if_neg (by decide), histCreate_removals _ opened written]
  dsimp only
  rw [closeHeld_removals, closeHeld_paths]

end Store

/-! ## Creations -/

/-- A history file in the root, with the time at which it was created. -/
structure HistFile where
  name : List UInt8
  created : UInt32
deriving DecidableEq

/-- A file is started while the one before is full: the time, the record, and in which order the root
is listed, with other files in it or not. -/
structure HistCreation where
  now : UInt32
  data : HisData
  list : List (List UInt8) → List DirEntry
  faithful : ∀ names, (((list names).map DirEntry.name).filter Store.isHist).Perm (names.filter Store.isHist)

namespace HistCreation

/-- The file that is made. -/
def file (c : HistCreation) : HistFile := ⟨makeHistName c.now, c.now⟩

/-- All file operations succeed. -/
def env (c : HistCreation) (before after : List (List UInt8)) : HistEnv where
  len := some Store.histFileMax
  written := true
  closed := true
  latest := some (c.list before)
  retained := ⟨some ⟨false, Store.histFileMax⟩, true, true⟩
  now := c.now
  fresh := ⟨none, true, true⟩
  root := c.list after

end HistCreation

/-- The storage task, and the history files in the root. -/
structure HistDir where
  store : Store
  files : List HistFile

namespace HistDir

/-- The files when the clean-up begins; under a name that exists no file is created. -/
def present (h : HistDir) (c : HistCreation) : List HistFile :=
  if c.file.name ∈ h.files.map HistFile.name then h.files else h.files ++ [c.file]

/-- A file is made, and the directory cleaned up. -/
def step (h : HistDir) (c : HistCreation) : HistDir :=
  let present := h.present c
  let store := h.store.histWrite (c.env (h.files.map HistFile.name) (present.map HistFile.name)) c.data
  let removed := store.removals.drop h.store.removals.length
  ⟨store, present.filter fun f => f.name ∉ removed⟩

/-- A run of creations in an empty root. -/
def run (store : Store) (cs : List HistCreation) : HistDir := cs.foldl step ⟨store, []⟩

/-- A file that is removed has the earliest time of creation, and is not the one just created. -/
def KeepsNewest (h : HistDir) (c : HistCreation) : Prop :=
  ∀ f ∈ h.present c, f ∉ (h.step c).files → (∀ g ∈ h.present c, f.created ≤ g.created) ∧ f ≠ c.file

/-- If a file has to go, the earliest one is also the one earliest within its year. -/
def OldestFirst (h : HistDir) (c : HistCreation) : Prop :=
  (h.present c).length ≤ Store.histMaxFiles ∨
    ∃ f ∈ h.present c, ∀ g ∈ h.present c, f.created ≤ g.created ∧ inYear f.created ≤ inYear g.created

/-- All files fall into one calendar year. -/
def OneYear (h : HistDir) (c : HistCreation) : Prop :=
  ∀ f ∈ h.present c, ∀ g ∈ h.present c, localYear f.created = localYear g.created

/-- What holds of the files after the creations `cs`. -/
structure Sound (h : HistDir) (cs : List HistCreation) : Prop where
  created : ∀ f ∈ h.files, ∃ c ∈ cs, f = c.file
  nodup : (h.files.map HistFile.name).Nodup
  few : h.files.length ≤ Store.histMaxFiles

variable {h : HistDir} {cs : List HistCreation} {c : HistCreation}

/-! ## One creation -/

theorem Sound.present_created (sound : h.Sound cs) : ∀ f ∈ h.present c, ∃ d ∈ cs ++ [c], f = d.file := by
  intro f member
  unfold present at member
  split at member
  · obtain ⟨d, earlier, same⟩ := sound.created f member
    exact ⟨d, List.mem_append_left _ earlier, same⟩
  · rcases List.mem_append.1 member with old | new
    · obtain ⟨d, earlier, same⟩ := sound.created f old
      exact ⟨d, List.mem_append_left _ earlier, same⟩
    · exact ⟨c, by simp, List.mem_singleton.1 new⟩

theorem Sound.present_name (sound : h.Sound cs) {f : HistFile} (member : f ∈ h.present c) :
    f.name = makeHistName f.created := by
  obtain ⟨d, -, rfl⟩ := sound.present_created f member
  rfl

theorem Sound.present_nodup (sound : h.Sound cs) : ((h.present c).map HistFile.name).Nodup := by
  unfold present
  split
  · exact sound.nodup
  · rename_i fresh
    rw [List.map_append, List.map_singleton]
    exact List.nodup_append.2 ⟨sound.nodup, by simp, fun n old m new same => fresh (by simp_all)⟩

theorem Sound.present_length (sound : h.Sound cs) : (h.present c).length ≤ Store.histMaxFiles + 1 := by
  have := sound.few
  unfold present
  split
  · omega
  · rw [List.length_append, List.length_singleton]
    omega

/-- Two files present with the same place in their years are the same file. -/
theorem Sound.eq_of_inYear (sound : h.Sound cs) {f g : HistFile} (first : f ∈ h.present c)
    (second : g ∈ h.present c) (same : inYear f.created = inYear g.created) : f = g := by
  apply List.inj_on_of_nodup_map sound.present_nodup first second
  rw [sound.present_name first, sound.present_name second]
  exact makeHistName_inj.2 same

theorem isHist_makeHistName (unix : UInt32) : Store.isHist (makeHistName unix) = true := by
  have head : (makeHistName unix).take 5 = Text.utf8 "data_" := take_makeHistName unix
  simp [Store.isHist, Store.isHistName, length_makeHistName, head]

/-- The names the clean-up collects are those of the files present. -/
theorem Sound.histNames (sound : h.Sound cs) :
    (Store.histNames (c.list ((h.present c).map HistFile.name))).Perm
      ((h.present c).map fun f => fileName f.name) := by
  have all : ((h.present c).map HistFile.name).filter Store.isHist = (h.present c).map HistFile.name := by
    apply List.filter_eq_self.2
    intro n member
    obtain ⟨f, present, rfl⟩ := List.mem_map.1 member
    rw [sound.present_name present]
    exact isHist_makeHistName _
  have listed := (c.faithful ((h.present c).map HistFile.name)).map fileName
  rw [all, List.map_map] at listed
  have length := listed.length_eq
  have few := sound.present_length (c := c)
  rw [Store.histNames_eq, List.take_of_length_le]
  · exact listed
  · rw [length, List.length_map]
    exact few.trans (by decide)

theorem step_files (h : HistDir) (c : HistCreation) :
    (h.step c).files = (h.present c).filter fun f => f.name ∉
      Store.cleanupLoop h.store.paths (Store.histNames (c.list ((h.present c).map HistFile.name))).length
        (Store.histNames (c.list ((h.present c).map HistFile.name))) := by
  have removals : (h.store.histWrite (c.env (h.files.map HistFile.name) ((h.present c).map HistFile.name))
      c.data).removals = _ := h.store.histWrite_removals c.data rfl rfl rfl rfl
  unfold step
  dsimp only
  rw [removals, List.drop_left]
  rfl

theorem fileName_le {a b : UInt32}
    (order : (fileName (makeHistName a)).toList ≤ (fileName (makeHistName b)).toList) : inYear a ≤ inYear b := by
  have length := length_makeHistName a
  have length' := length_makeHistName b
  by_contra later
  have less := makeHistName_lt.2 (Nat.lt_of_not_le later)
  rw [toList_fileName (by omega), toList_fileName (by omega), length, length'] at order
  exact order (append_lt_append_right _ (length'.trans length.symm) less)

/-- Up to ten files all stay; of eleven, the one earliest within its year goes. -/
theorem Sound.step_cases (sound : h.Sound cs) (c : HistCreation) :
    ((h.present c).length ≤ Store.histMaxFiles ∧ (h.step c).files = h.present c) ∨
      (h.present c).length = Store.histMaxFiles + 1 ∧
        ∃ f ∈ h.present c, (∀ g ∈ h.present c, inYear f.created ≤ inYear g.created) ∧
          (h.step c).files = (h.present c).filter (· ≠ f) := by
  have names := sound.histNames (c := c)
  have length := names.length_eq
  rw [List.length_map] at length
  rw [step_files]
  generalize Store.histNames (c.list ((h.present c).map HistFile.name)) = ns at names length
  rcases Nat.lt_or_ge Store.histMaxFiles (h.present c).length with many | few
  · have eleven : (h.present c).length = Store.histMaxFiles + 1 := Nat.le_antisymm sound.present_length many
    obtain ⟨v, listed, least, removed⟩ := Store.cleanupLoop_one h.store.paths (ns.length - 1) (length.trans eleven)
    obtain ⟨f, member, rfl⟩ := List.mem_map.1 (names.subset listed)
    have plain : Store.cleanupLoop h.store.paths ns.length ns = [f.name] := by
      have size := length_makeHistName f.created
      rw [← sound.present_name member] at size
      have path := pathOf_plain h.store.paths (sound.present_name member ▸ plain_makeHistName f.created)
        (List.length_pos_iff.1 (by omega)) (by omega : f.name.length ≤ 23)
      rw [show ns.length = ns.length - 1 + 1 by omega, removed, path]
      rfl
    refine .inr ⟨eleven, f, member, fun g other => ?_, ?_⟩
    · have order := least _ (names.symm.subset (List.mem_map_of_mem other))
      rw [sound.present_name member, sound.present_name other] at order
      exact fileName_le order
    · rw [plain]
      apply List.filter_congr
      intro g other
      apply decide_eq_decide.2
      rw [List.mem_singleton]
      exact not_congr ⟨List.inj_on_of_nodup_map sound.present_nodup other member, congrArg HistFile.name⟩
  · refine .inl ⟨few, ?_⟩
    rw [Store.cleanupLoop_few _ _ (by omega)]
    exact List.filter_eq_self.2 fun f _ => by simp

theorem Sound.step (sound : h.Sound cs) (c : HistCreation) : (h.step c).Sound (cs ++ [c]) := by
  have sub : (h.step c).files.Sublist (h.present c) := by
    rw [step_files]
    exact List.filter_sublist
  refine ⟨fun f member => sound.present_created f (sub.subset member), ?_, ?_⟩
  · exact sound.present_nodup.sublist (sub.map _)
  · rcases sound.step_cases c with ⟨few, same⟩ | ⟨eleven, f, member, -, rest⟩
    · rw [same]
      exact few
    · rw [rest]
      have less : ((h.present c).filter (· ≠ f)).length < (h.present c).length :=
        List.length_filter_lt_length_iff_exists.2 ⟨f, member, by simp⟩
      omega

theorem sound_run (store : Store) (cs : List HistCreation) : (run store cs).Sound cs := by
  refine Run.kept (Q := fun cs (h : HistDir) => h.Sound cs) ?_ ?_ cs
  · exact ⟨by simp, by simp, by simp⟩
  · intro before h c sound
    exact sound.step c

/-! ## What is kept -/

theorem Sound.oldestFirst_of_oneYear (sound : h.Sound cs) (oneYear : h.OneYear c) : h.OldestFirst c := by
  rcases sound.step_cases c with ⟨few, -⟩ | ⟨-, f, member, least, -⟩
  · exact .inl few
  · refine .inr ⟨f, member, fun g other => ⟨?_, least g other⟩⟩
    by_contra later
    have := inYear_lt (UInt32.not_le.1 later) (oneYear g other f member)
    have := least g other
    omega

/-- The file just created is not the earliest of eleven. -/
theorem Sound.ne_file (sound : h.Sound cs) (recent : ∀ d ∈ cs, d.now ≤ c.now)
    (many : 1 < (h.present c).length) {f : HistFile}
    (earliest : ∀ g ∈ h.present c, f.created ≤ g.created) : f ≠ c.file := by
  rintro rfl
  have all : ∀ g ∈ h.present c, g.name = makeHistName c.now := by
    intro g member
    obtain ⟨d, creation, rfl⟩ := sound.present_created g member
    have before : d.now ≤ c.now := by
      rcases List.mem_append.1 creation with old | new
      · exact recent d old
      · rw [List.mem_singleton.1 new]
        exact UInt32.le_refl _
    exact congrArg makeHistName (UInt32.le_antisymm before (earliest _ member))
  have names : (h.present c).map HistFile.name = List.replicate (h.present c).length (makeHistName c.now) := by
    apply List.eq_replicate_iff.2
    refine ⟨List.length_map _, fun n member => ?_⟩
    obtain ⟨g, other, rfl⟩ := List.mem_map.1 member
    exact all g other
  have nodup := sound.present_nodup (c := c)
  rw [names, List.nodup_replicate] at nodup
  omega

theorem Sound.keepsNewest_iff (sound : h.Sound cs) (recent : ∀ d ∈ cs, d.now ≤ c.now) :
    h.KeepsNewest c ↔ h.OldestFirst c := by
  rcases sound.step_cases c with ⟨few, same⟩ | ⟨eleven, f, member, least, rest⟩
  · refine iff_of_true (fun g member gone => ?_) (.inl few)
    rw [same] at gone
    exact absurd member gone
  · have gone : f ∉ (h.step c).files := by
      rw [rest, List.mem_filter]
      simp
    constructor
    · intro keeps
      exact .inr ⟨f, member, fun g other => ⟨(keeps f member gone).1 g other, least g other⟩⟩
    · rintro (few | ⟨first, present, both⟩)
      · omega
      · obtain rfl : first = f := by
          apply sound.eq_of_inYear present member
          exact Nat.le_antisymm (both f member).2 (least first present)
        intro g other removed
        obtain rfl : g = first := by
          by_contra different
          exact removed (by rw [rest, List.mem_filter]; exact ⟨other, by simpa using different⟩)
        have earliest : ∀ k ∈ h.present c, g.created ≤ k.created := fun k third => (both k third).1
        exact ⟨earliest, sound.ne_file recent (by rw [eleven]; decide) earliest⟩

/-- In every run of creations in the order of time, the clean-up always removes the earliest file and
never the one just created, exactly if at every clean-up that removes a file the earliest one also comes
first within the calendar year (in UTC+8).  That is so whenever all files present at a clean-up were
created in one year. -/
theorem keepsNewest_run_iff (store : Store) (cs : List HistCreation) (ordered : cs.Pairwise (·.now ≤ ·.now)) :
    (Run.Each (fun before c => (run store before).KeepsNewest c) cs ↔
      Run.Each (fun before c => (run store before).OldestFirst c) cs) ∧
    (Run.Each (fun before c => (run store before).OneYear c) cs →
      Run.Each (fun before c => (run store before).KeepsNewest c) cs) := by
  have recent {before after : List HistCreation} {c : HistCreation} (split : cs = before ++ c :: after) :
      ∀ d ∈ before, d.now ≤ c.now := by
    rw [split, List.pairwise_append] at ordered
    exact fun d member => ordered.2.2 d member c List.mem_cons_self
  have each {before after : List HistCreation} {c : HistCreation} (split : cs = before ++ c :: after) :=
    (sound_run store before).keepsNewest_iff (recent split)
  refine ⟨⟨fun keeps before c after split => ?_, fun first before c after split => ?_⟩,
    fun oneYear before c after split => ?_⟩
  · exact (each split).1 (keeps before c after split)
  · exact (each split).2 (first before c after split)
  · exact (each split).2 ((sound_run store before).oldestFirst_of_oneYear (oneYear before c after split))

theorem each_oneYear (store : Store) {y : ℤ} (same : ∀ c ∈ cs, localYear c.now = y) :
    Run.Each (fun before c => (run store before).OneYear c) cs := by
  intro before c after split
  have year : ∀ f ∈ (run store before).present c, localYear f.created = y := by
    intro f member
    obtain ⟨d, listed, rfl⟩ := (sound_run store before).present_created f member
    apply same d
    rw [split, ← List.singleton_append, ← List.append_assoc]
    exact List.mem_append_left _ listed
  intro f member g other
  rw [year f member, year g other]

/-- A creation in a root that is listed in the order of creation. -/
def creation (now : UInt32) : HistCreation where
  now
  data := .di now 0 0
  list names := names.map fun n => ⟨n, 0, false⟩
  faithful names := by
    rw [List.map_map]
    exact List.Perm.of_eq (congrArg (List.filter _) (List.map_id names))

/-- Files of 31 December 2025, one an hour. -/
def hourly (n : ℕ) : List HistCreation :=
  (List.range n).map fun i => creation (1767110400 + 3600 * UInt32.ofNat i)

theorem keepsNewest_run_hourly :
    (hourly 11).Pairwise (·.now ≤ ·.now) ∧
      Run.Each (fun before c => (run (.new .documented ⟨fun _ => 0xFF, [], 0⟩ (.new 0) (none, 0)) before).KeepsNewest c)
        (hourly 11) := by
  have ordered : (hourly 11).Pairwise (·.now ≤ ·.now) := by decide +kernel
  have year : ∀ c ∈ hourly 11, localYear c.now = 2025 := by decide +kernel
  exact ⟨ordered, (keepsNewest_run_iff _ _ ordered).2 (each_oneYear _ year)⟩

/-! ## Over the turn of a year -/

theorem present_files (files : h.files = cs.map HistCreation.file)
    (distinct : ((cs ++ [c]).map fun c => makeHistName c.now).Nodup) :
    h.present c = (cs ++ [c]).map HistCreation.file := by
  rw [List.map_append, List.nodup_append] at distinct
  rw [present, files, if_neg, List.map_append]
  · rfl
  · intro again
    rw [List.map_map] at again
    exact distinct.2.2 _ again _ List.mem_cons_self rfl

/-- Up to ten files of different names are all there. -/
theorem run_files (store : Store) {cs : List HistCreation} (few : cs.length ≤ Store.histMaxFiles)
    (distinct : (cs.map fun c => makeHistName c.now).Nodup) : (run store cs).files = cs.map HistCreation.file := by
  induction cs using List.reverseRecOn with
  | nil => rfl
  | append_singleton cs c ih =>
    rw [List.length_append, List.length_singleton] at few
    have earlier : (cs.map fun c => makeHistName c.now).Nodup := by
      rw [List.map_append] at distinct
      exact (List.nodup_append.1 distinct).1
    have present := present_files (ih (by omega) earlier) distinct
    rw [run, List.foldl_append]
    rcases (sound_run store cs).step_cases c with ⟨-, same⟩ | ⟨eleven, -⟩
    · exact same.trans present
    · rw [present, List.length_map, List.length_append, List.length_singleton] at eleven
      omega

/-- Midnight of the new year. -/
def january : HistCreation := creation 1767196800

/-- The first file of a year goes at once, and the ten of December stay. -/
theorem new_year_file_removed :
    (hourly 10 ++ [january]).Pairwise (·.now ≤ ·.now) ∧
      january.file ∉ (run (.new .documented ⟨fun _ => 0xFF, [], 0⟩ (.new 0) (none, 0)) (hourly 10 ++ [january])).files ∧
      ¬ Run.Each (fun before c =>
        (run (.new .documented ⟨fun _ => 0xFF, [], 0⟩ (.new 0) (none, 0)) before).KeepsNewest c)
        (hourly 10 ++ [january]) := by
  generalize Store.new .documented ⟨fun _ => 0xFF, [], 0⟩ (.new 0) (none, 0) = store
  have files := run_files store (by decide : (hourly 10).length ≤ Store.histMaxFiles) (by decide +kernel)
  have present := present_files (c := january) files (by decide +kernel)
  have fresh : january.file ∈ (run store (hourly 10)).present january := by
    rw [present, List.map_append]
    exact List.mem_append_right _ List.mem_cons_self
  have earlier : ∀ d ∈ hourly 10, inYear january.now < inYear d.now := by decide +kernel
  have gone : january.file ∉ ((run store (hourly 10)).step january).files := by
    rcases (sound_run store (hourly 10)).step_cases january with ⟨few, -⟩ | ⟨-, f, member, least, rest⟩
    · rw [present] at few
      exact absurd few (by decide)
    · have first := least january.file fresh
      rw [present, List.map_append] at member
      rcases List.mem_append.1 member with old | new
      · obtain ⟨d, listed, rfl⟩ := List.mem_map.1 old
        exact absurd first (Nat.not_le.2 (earlier d listed))
      · rw [rest, List.mem_singleton.1 new]
        simp
  refine ⟨by decide +kernel, ?_, fun each => ?_⟩
  · rw [run, List.foldl_append]
    exact gone
  · exact (each (hourly 10) january [] rfl january.file fresh gone).2 rfl

end HistDir

end IoEdgeHub
