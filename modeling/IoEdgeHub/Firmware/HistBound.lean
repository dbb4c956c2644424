import IoEdgeHub.Firmware.HistRetention
import IoEdgeHub.Lib.Evict

/-!
# How many history files are kept

`cleanup_old_files` gathers the names of the history files, at most twelve of them, and removes the
smallest until ten are left.  For any directory this is a division of the names gathered into those
removed and the greatest (`cleanupLoop_split`, turn by turn).  What is left in the directory is what it
should be exactly if the names were all gathered and those to go have a path (`retained_iff`).
-/

namespace IoEdgeHub.Store

open Bytes Evict

/-! ## The directory -/

/-- The history files in the root. -/
def histIn (root : List DirEntry) : List (List UInt8) := (root.map DirEntry.name).filter isHist

/-- The names left in the root, every remove succeeding. -/
def leftAfter (s : Store) (root : List DirEntry) : List (List UInt8) :=
  let removed := (s.cleanupOldFiles root).removals.drop s.removals.length
  (root.map DirEntry.name).filter fun n => !removed.contains n

/-- Distinct names of at most 23 bytes; a name ends at its NUL. -/
structure Listing (root : List DirEntry) : Prop where
  distinct : (root.map DirEntry.name).Nodup
  short : ∀ n ∈ root.map DirEntry.name, n.length ≤ 23
  noNul : ∀ n ∈ root.map DirEntry.name, 0 ∉ n

/-- The history files left are the greatest, ten of them or all, and everything else is there. -/
structure Retained (s : Store) (root : List DirEntry) : Prop where
  few : ((s.leftAfter root).filter isHist).length = min (histIn root).length histMaxFiles
  greatest : ∀ n ∈ histIn root, n ∉ s.leftAfter root → ∀ m ∈ s.leftAfter root, isHist m = true → n < m
  others : ∀ n ∈ root.map DirEntry.name, isHist n = false → n ∈ s.leftAfter root

/-- The history files all fit the vector, and those with ten greater ones have ASCII names. -/
def Rotates (root : List DirEntry) : Prop :=
  (histIn root).length ≤ 12 ∧
    ∀ n ∈ histIn root, histMaxFiles ≤ ((histIn root).filter (n < ·)).length → n.all (· < 128) = true

instance (root : List DirEntry) : Decidable (Rotates root) := inferInstanceAs (Decidable (_ ∧ _))

/-! ## Names and their buffers -/

/-- The name in a buffer. -/
def nameOf (v : FileName) : List UInt8 := v.toList.takeWhile (· ≠ 0)

theorem nameOf_fileName {n : List UInt8} (noNul : 0 ∉ n) (short : n.length ≤ 23) : nameOf (fileName n) = n := by
  rw [nameOf, toList_fileName_nul short, takeWhile_nul noNul]

theorem lt_of_padded {n m : List UInt8} (noNul : 0 ∉ n) {a b : ℕ} (same : n.length + a = m.length + b)
    (less : n ++ List.replicate a 0 < m ++ List.replicate b 0) : n < m := by
  induction n generalizing m with
  | nil =>
    cases m with
    | nil =>
      obtain rfl : a = b := by simpa using same
      exact absurd less (List.lt_irrefl _)
    | cons y m => exact List.nil_lt_cons y m
  | cons x n ih =>
    obtain ⟨notFirst, notLater⟩ := And.intro (List.ne_of_not_mem_cons noNul) (List.not_mem_of_not_mem_cons noNul)
    cases m with
    | nil =>
      obtain ⟨b, rfl⟩ : ∃ c, b = c + 1 := ⟨n.length + a, by simp at same; omega⟩
      rw [List.nil_append, List.replicate_succ, List.cons_append, List.cons_lt_cons_iff] at less
      rcases less with below | ⟨zero, -⟩
      · exact absurd below (by simp)
      · exact absurd zero.symm notFirst
    | cons y m =>
      rw [List.cons_append, List.cons_append, List.cons_lt_cons_iff] at less
      rw [List.cons_lt_cons_iff]
      refine less.imp_right ?_
      rintro ⟨equal, later⟩
      refine ⟨equal, ih notLater ?_ later⟩
      simp only [List.length_cons] at same
      omega

theorem lt_of_fileName_lt {n m : List UInt8} (noNul : 0 ∉ n) (short : n.length ≤ 23) (short' : m.length ≤ 23)
    (less : (fileName n).toList < (fileName m).toList) : n < m := by
  rw [toList_fileName short, toList_fileName short'] at less
  exact lt_of_padded noNul (by omega) less

/-! ## The loop -/

/-- Order of the buffers, as the loop compares them. -/
def Below (u v : FileName) : Prop := u.toList < v.toList

/-- Each turn takes out a smallest name, until ten are left. -/
theorem cleanupLoop_split (paths : LfsPaths) {fuel : ℕ} {names : List FileName} (enough : names.length ≤ fuel)
    (distinct : names.Nodup) :
    ∃ gone kept, Split Below histMaxFiles names gone kept ∧
      cleanupLoop paths fuel names = gone.filterMap (pathOf paths) := by
  induction fuel generalizing names with
  | zero =>
    refine ⟨[], names, split_few (by omega), rfl⟩
  | succ fuel ih =>
    by_cases many : names.length > histMaxFiles
    · obtain ⟨v, found, least⟩ := oldest_least (List.length_pos_iff.1 (by omega) : names ≠ [])
      have taken := perm_swapRemove found (.replicate 24 0)
      have apart := List.nodup_cons.1 (taken.nodup_iff.1 distinct)
      have shorter := taken.length_eq
      rw [List.length_cons] at shorter
      obtain ⟨gone, kept, split, removed⟩ := ih (by omega) apart.2
      refine ⟨v :: gone, kept, split.turn many taken ?_, ?_⟩
      · intro u member
        have order := least u (taken.mem_iff.2 (List.mem_cons_of_mem v member))
        rcases List.le_iff_lt_or_eq.1 order with less | same
        · exact less
        · rw [Vector.toList_inj.1 same] at apart
          exact absurd member apart.1
      · rw [cleanupLoop, if_pos many]
        dsimp only
        rw [found, Option.bind_some, removed, List.filterMap_cons]
        rcases pathOf paths v with _ | path
        · rfl
        · rfl
    · exact ⟨[], names, split_few (by omega), if_neg many⟩

/-! ## What is removed and what is left -/

theorem isHist_ne_nil {n : List UInt8} (hist : isHist n = true) : n ≠ [] := by
  rintro rfl
  exact absurd hist (by decide)

theorem exists_of_mem_histNames {root : List DirEntry} {v : FileName} (member : v ∈ histNames root) :
    ∃ n ∈ histIn root, v = fileName n := by
  rw [histNames_eq] at member
  obtain ⟨n, listed, rfl⟩ := List.mem_map.1 (List.mem_of_mem_take member)
  exact ⟨n, listed, rfl⟩

section Left

variable {s : Store} {root : List DirEntry} {removed : List (List UInt8)}
  (removals : (s.cleanupOldFiles root).removals.drop s.removals.length = removed)

include removals

theorem mem_leftAfter {n : List UInt8} : n ∈ s.leftAfter root ↔ n ∈ root.map DirEntry.name ∧ n ∉ removed := by
  rw [leftAfter, removals, List.mem_filter, Bool.not_eq_true', List.contains_eq_mem, decide_eq_false_iff_not]

/-- The history files left are those not removed. -/
theorem filter_leftAfter : (s.leftAfter root).filter isHist = (histIn root).filter (· ∉ removed) := by
  rw [leftAfter, removals, histIn, List.filter_filter, List.filter_filter]
  apply List.filter_congr
  intro n _
  rw [Bool.and_comm, List.contains_eq_mem, decide_not]

end Left

section Gathered

variable {root : List DirEntry} (listing : Listing root)

include listing

theorem Listing.nameOf_fileName {n : List UInt8} (member : n ∈ histIn root) : nameOf (fileName n) = n := by
  have listed := (List.mem_filter.1 member).1
  exact Store.nameOf_fileName (listing.noNul n listed) (listing.short n listed)

theorem Listing.pathOf_fileName (paths : LfsPaths) {n : List UInt8} (member : n ∈ histIn root) :
    pathOf paths (fileName n) = if n.all (· < 128) then some n else none := by
  obtain ⟨listed, hist⟩ := List.mem_filter.1 member
  exact IoEdgeHub.pathOf_fileName paths (listing.noNul n listed) (isHist_ne_nil hist) (listing.short n listed)

theorem Listing.lt_of_fileName_lt {n m : List UInt8} (member : n ∈ histIn root) (member' : m ∈ histIn root)
    (less : (fileName n).toList < (fileName m).toList) : n < m := by
  have listed := (List.mem_filter.1 member).1
  have listed' := (List.mem_filter.1 member').1
  exact Store.lt_of_fileName_lt (listing.noNul n listed) (listing.short n listed) (listing.short m listed') less

theorem Listing.map_nameOf : (histNames root).map nameOf = (histIn root).take 12 := by
  have whole : (histIn root).map (nameOf ∘ fileName) = histIn root := by
    conv_rhs => rw [← List.map_id (histIn root)]
    apply List.map_congr_left
    intro n member
    rw [Function.comp_apply, listing.nameOf_fileName member, id_eq]
  have names : histNames root = ((histIn root).map fileName).take 12 := histNames_eq root
  rw [names, List.map_take, List.map_map, whole]

theorem Listing.nodup_histIn : (histIn root).Nodup := listing.distinct.filter _

theorem Listing.nodup_histNames : (histNames root).Nodup := by
  apply List.Nodup.of_map nameOf
  rw [listing.map_nameOf]
  exact listing.nodup_histIn.sublist (List.take_sublist 12 _)

/-- Of the names gathered the smallest go, if they have a path. -/
theorem Listing.exists_removed (s : Store) :
    ∃ gone kept, Split (· < ·) histMaxFiles ((histIn root).take 12) gone kept ∧
      (s.cleanupOldFiles root).removals.drop s.removals.length = gone.filter (·.all (· < 128)) := by
  obtain ⟨gone, kept, split, removed⟩ := cleanupLoop_split s.paths (Nat.le_refl _) listing.nodup_histNames
  refine ⟨gone.map nameOf, kept.map nameOf, ?_, ?_⟩
  · rw [← listing.map_nameOf]
    apply split.map
    intro u first v second less
    obtain ⟨n, member, rfl⟩ := exists_of_mem_histNames first
    obtain ⟨m, member', rfl⟩ := exists_of_mem_histNames second
    rw [listing.nameOf_fileName member, listing.nameOf_fileName member']
    exact listing.lt_of_fileName_lt member member' less
  · have dropped : (s.cleanupOldFiles root).removals.drop s.removals.length =
        gone.filterMap (pathOf s.paths) := by
      rw [← removed]
      exact List.drop_left
    rw [dropped, ← List.filterMap_eq_filter, List.filterMap_map]
    apply List.filterMap_congr
    intro v member
    obtain ⟨n, listed, rfl⟩ := exists_of_mem_histNames (split.perm.mem_iff.2 (List.mem_append_left _ member))
    rw [listing.pathOf_fileName s.paths listed, Function.comp_apply, listing.nameOf_fileName listed, Option.guard_def]

theorem Listing.length_left {removed : List (List UInt8)} (distinct : removed.Nodup)
    (inside : ∀ n ∈ removed, n ∈ histIn root) :
    ((histIn root).filter (· ∉ removed)).length + removed.length = (histIn root).length := by
  have same : ((histIn root).filter (· ∈ removed)).Perm removed := by
    apply (List.perm_ext_iff_of_nodup (listing.nodup_histIn.filter _) distinct).2
    intro n
    rw [List.mem_filter, decide_eq_true_eq]
    exact ⟨And.right, fun gone => ⟨inside n gone, gone⟩⟩
  have parts := List.length_eq_length_filter_add (l := histIn root) (· ∈ removed)
  simp only [decide_not]
  rw [same.length_eq] at parts
  omega

/-- Where all history files were gathered and those to go are removed, the greatest are left. -/
theorem Listing.retained {s : Store} {gone kept : List (List UInt8)}
    (split : Split (· < ·) histMaxFiles (histIn root) gone kept)
    (removals : (s.cleanupOldFiles root).removals.drop s.removals.length = gone) : Retained s root := by
  have listed {n : List UInt8} (member : n ∈ gone) : n ∈ histIn root :=
    split.perm.mem_iff.2 (List.mem_append_left _ member)
  have nodup := (split.perm.nodup_iff.1 listing.nodup_histIn).of_append_left
  refine ⟨?_, ?_, ?_⟩
  · have count := listing.length_left nodup fun n => listed
    have length := split.length_gone
    rw [filter_leftAfter removals]
    omega
  · intro n hist absent m stays hist'
    have inRoot := (List.mem_filter.1 hist).1
    have removed : n ∈ gone := by
      by_contra other
      exact absent ((mem_leftAfter removals).2 ⟨inRoot, other⟩)
    obtain ⟨inRoot', stays⟩ := (mem_leftAfter removals).1 stays
    have member := split.perm.mem_iff.1 (List.mem_filter.2 ⟨inRoot', hist'⟩)
    exact split.below n removed m ((List.mem_append.1 member).resolve_left stays)
  · intro n inRoot other
    refine (mem_leftAfter removals).2 ⟨inRoot, ?_⟩
    intro member
    rw [(List.mem_filter.1 (listed member)).2] at other
    cases other

/-- Each history file that is left over the ten is one too many. -/
theorem Listing.rotates {s : Store} {gone kept : List (List UInt8)}
    (split : Split (· < ·) histMaxFiles ((histIn root).take 12) gone kept)
    (removals : (s.cleanupOldFiles root).removals.drop s.removals.length = gone.filter (·.all (· < 128)))
    (retained : Retained s root) : Rotates root := by
  have listed {n : List UInt8} (member : n ∈ gone) : n ∈ histIn root :=
    List.mem_of_mem_take (split.perm.mem_iff.2 (List.mem_append_left _ member))
  have nodup := (split.perm.nodup_iff.1 (listing.nodup_histIn.sublist (List.take_sublist 12 _))).of_append_left
  have count := listing.length_left (nodup.filter (·.all (· < 128))) fun n member => listed (List.mem_filter.1 member).1
  have few := retained.few
  rw [filter_leftAfter removals] at few
  have some_go := List.length_filter_le (·.all (· < 128)) gone
  have length := split.length_gone
  rw [List.length_take] at length
  have ten : histMaxFiles = 10 := rfl
  have all : (histIn root).length ≤ 12 := by omega
  have full : (gone.filter (·.all (· < 128))).length = gone.length := by omega
  refine ⟨all, ?_⟩
  intro n member above
  rw [List.take_of_length_le all] at split
  exact List.length_filter_eq_length_iff.1 full n ((split.mem_gone_iff member).2 above)

end Gathered

/-- The retention bound holds exactly for directories in which the clean-up gathers every history file
and those to go have a path: then, and only then, the ten greatest history files are left, or all if there
are fewer, and nothing else is removed. -/
theorem retained_iff {root : List DirEntry} (listing : Listing root) (s : Store) : Retained s root ↔ Rotates root := by
  obtain ⟨gone, kept, split, removals⟩ := listing.exists_removed s
  constructor
  · exact listing.rotates split removals
  · rintro ⟨all, ascii⟩
    rw [List.take_of_length_le all] at split
    have removed : gone.filter (·.all (· < 128)) = gone := by
      apply List.filter_eq_self.2
      intro n member
      have listed := split.perm.mem_iff.2 (List.mem_append_left _ member)
      exact ascii n listed ((split.mem_gone_iff listed).1 member)
    rw [removed] at removals
    exact listing.retained split removals

/-- Files `data_a`, `data_b` and so on, `n` of them. -/
def lettered (n : ℕ) : List DirEntry :=
  (List.range n).map fun i => ⟨Text.utf8 "data_" ++ [UInt8.ofNat (0x61 + i)], 0, false⟩

/-- Twelve files: two go and ten are left. -/
theorem retained_iff_twelve :
    Listing (lettered 12) ∧ Rotates (lettered 12) ∧ ∀ s : Store, Retained s (lettered 12) := by
  have listing : Listing (lettered 12) := ⟨by decide +kernel, by decide +kernel, by decide +kernel⟩
  have rotates : Rotates (lettered 12) := by decide +kernel
  exact ⟨listing, rotates, fun s => (retained_iff listing s).2 rotates⟩

/-- Paths end at their first NUL, so that they are all checked alike. -/
theorem pathOf_documented (paths : LfsPaths) (name : FileName) : pathOf paths name = pathOf .documented name := by
  unfold pathOf
  cases found : name.toList.findIdx? (· == 0) with
  | none => rfl
  | some k =>
    obtain ⟨below, zero, before⟩ := List.findIdx?_eq_some_iff_getElem.1 found
    have cut : name.toList.take (k + 1) = name.toList.take k ++ [0] := by
      rw [List.take_succ_eq_append_getElem below, eq_of_beq zero]
    have noNul : 0 ∉ name.toList.take k := by
      intro mem
      obtain ⟨i, inside, same⟩ := List.mem_take_iff_getElem.1 mem
      exact before i (by omega) (beq_iff_eq.2 same)
    dsimp only [Option.getD_some]
    rw [cut, paths.ascii _ noNul, LfsPaths.documented.ascii _ noNul]

theorem cleanupLoop_documented (paths : LfsPaths) (fuel : ℕ) (names : List FileName) :
    cleanupLoop paths fuel names = cleanupLoop .documented fuel names := by
  have same : pathOf paths = pathOf .documented := funext (pathOf_documented paths)
  induction fuel generalizing names with
  | zero => rfl
  | succ fuel ih => simp only [cleanupLoop, same, ih]

/-- Thirteen files: eleven are left, and with the listing the other way round `data_a` stays while two greater
ones go. -/
theorem retained_thirteen :
    Listing (lettered 13) ∧ ∀ s : Store,
      ((s.leftAfter (lettered 13)).filter isHist).length = 11 ∧ ¬Retained s (lettered 13) ∧
        Text.utf8 "data_a" ∈ s.leftAfter (lettered 13).reverse ∧
        Text.utf8 "data_c" ∈ (lettered 13).map DirEntry.name ∧
          Text.utf8 "data_c" ∉ s.leftAfter (lettered 13).reverse := by
  have listing : Listing (lettered 13) := ⟨by decide +kernel, by decide +kernel, by decide +kernel⟩
  refine ⟨listing, fun s => ?_⟩
  have forward : (s.cleanupOldFiles (lettered 13)).removals.drop s.removals.length =
      [Text.utf8 "data_a", Text.utf8 "data_b"] :=
    List.drop_left.trans ((cleanupLoop_documented ..).trans (by decide +kernel))
  have backward : (s.cleanupOldFiles (lettered 13).reverse).removals.drop s.removals.length =
      [Text.utf8 "data_b", Text.utf8 "data_c"] :=
    List.drop_left.trans ((cleanupLoop_documented ..).trans (by decide +kernel))
  have eleven : ((s.leftAfter (lettered 13)).filter isHist).length = 11 := by
    rw [filter_leftAfter forward]
    decide +kernel
  refine ⟨eleven, ?_, ?_, by decide +kernel, ?_⟩
  · intro retained
    exact absurd (eleven.symm.trans retained.few) (by decide +kernel)
  · exact (mem_leftAfter backward).2 ⟨by decide +kernel, by decide +kernel⟩
  · exact fun stays => absurd ((mem_leftAfter backward).1 stays).2 (by decide +kernel)

end IoEdgeHub.Store
