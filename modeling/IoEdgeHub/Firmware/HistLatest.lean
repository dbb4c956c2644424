import IoEdgeHub.Firmware.HistBound
import IoEdgeHub.Lib.Leads

/-!
# The history file that is resumed

`find_latest` copies each name greater than those before into one buffer and returns the buffer without the
length.  `Keeps` says what the buffer holds entry by entry: the leading names, one over the other.
`HistState::set` reads up to the first NUL, so the name resumed is `smear` of the leading names, and it is the
greatest name exactly when no leading name is longer (`held_findLatest_iff`).
-/

namespace IoEdgeHub

open Bytes Leads

/-- The name that is held. -/
def HistState.held (st : HistState) : List UInt8 := st.name.toList.take st.nameLen

namespace Store

/-- The names of the history files as they are listed, each cut to 23 bytes. -/
def cutNames (root : List DirEntry) : List (List UInt8) := (histIn root).map (·.take 23)

/-- The buffer and the length after the leading names `ls`. -/
structure Keeps (best : FileName × ℕ) (ls : List (List UInt8)) : Prop where
  buffer : best.1.toList = smear ls ++ List.replicate (24 - (smear ls).length) 0
  length : best.2 = (ls.getLast?.getD []).length
  sized : ∀ n ∈ ls, n ≠ [] ∧ n.length ≤ 23

theorem keeps_nil : Keeps (.replicate 24 0, 0) [] :=
  ⟨Vector.toList_replicate, rfl, fun _ no => absurd no List.not_mem_nil⟩

variable {best : FileName × ℕ} {ls : List (List UInt8)}

theorem Keeps.fits (keeps : Keeps best ls) : (smear ls).length ≤ 23 :=
  length_smear_le_iff.2 fun n member => (keeps.sized n member).2

/-- The test of the source compares with the last leading name. -/
theorem Keeps.test (keeps : Keeps best ls) (b : List UInt8) :
    (best.2 = 0 || best.1.toList.take best.2 < b : Bool) = ls.getLast?.all (· < b) := by
  rcases List.eq_nil_or_concat ls with rfl | ⟨ls, last, rfl⟩
  · have zero : best.2 = 0 := keeps.length
    rw [decide_eq_true zero]
    rfl
  · rw [List.concat_eq_append] at keeps ⊢
    have nonempty := (keeps.sized last (List.mem_append_right _ (List.mem_singleton_self last))).1
    have length := keeps.length
    have buffer := keeps.buffer
    rw [List.getLast?_concat, Option.getD_some] at length
    rw [smear_concat, List.append_assoc] at buffer
    have some_left : best.2 ≠ 0 := fun zero => nonempty (List.length_eq_zero_iff.1 (length.symm.trans zero))
    rw [List.getLast?_concat, Option.all_some, decide_eq_false some_left, Bool.false_or, buffer, length, List.take_left]

/-- A name that leads is copied over the one before. -/
theorem Keeps.copy (keeps : Keeps best ls) {b : List UInt8}
    (nonempty : b ≠ []) (short : b.length ≤ 23) : Keeps (overwrite best.1 b, b.length) (ls ++ [b]) where
  buffer := by
    have fits := keeps.fits
    rw [toList_overwrite _ (by omega), keeps.buffer, List.drop_append, List.drop_replicate, smear_concat,
      List.append_assoc]
    congr 3
    rw [List.length_append, List.length_drop]
    omega
  length := by rw [List.getLast?_concat, Option.getD_some]
  sized := by
    rw [List.forall_mem_append, List.forall_mem_singleton]
    exact ⟨keeps.sized, nonempty, short⟩

theorem isHist_length {n : List UInt8} (hist : isHist n = true) : 5 < n.length := by
  unfold isHist isHistName at hist
  have long := of_decide_eq_true (Bool.and_eq_true_iff.1 hist).1
  omega

theorem latestStep_of_not_isHist (best : FileName × ℕ) {e : DirEntry} (other : isHist e.name = false) :
    latestStep best e = best := by
  unfold isHist at other
  unfold latestStep
  dsimp only
  rw [other, Bool.false_and]
  rfl

theorem Keeps.step (keeps : Keeps best ls) {e : DirEntry}
    (hist : isHist e.name = true) : Keeps (latestStep best e) (lead ls (e.name.take 23)) := by
  have long := isHist_length hist
  have cut : e.name.take (min e.name.length 23) = e.name.take 23 := by
    rw [Nat.min_comm, ← List.take_take, List.take_length]
  have length : (e.name.take 23).length = min e.name.length 23 := by
    rw [List.length_take, Nat.min_comm]
  unfold isHist at hist
  unfold latestStep lead
  dsimp only
  rw [hist, Bool.true_and, cut, keeps.test]
  split_ifs
  · rw [← length]
    exact keeps.copy (List.length_pos_iff.1 (by omega)) (by omega)
  · exact keeps

theorem keeps_foldl (root : List DirEntry) :
    Keeps (root.foldl latestStep (.replicate 24 0, 0)) (leads (cutNames root)) := by
  induction root using List.reverseRecOn with
  | nil => exact keeps_nil
  | append_singleton root e ih =>
    rw [List.foldl_append, List.foldl_cons, List.foldl_nil, cutNames, histIn, List.map_append, List.filter_append,
      List.map_append]
    rcases Bool.eq_false_or_eq_true (isHist e.name) with hist | other
    · have one : (([e].map DirEntry.name).filter isHist).map (·.take 23) = [e.name.take 23] := by simp [hist]
      rw [one, leads_concat]
      exact ih.step hist
    · have none_added : (([e].map DirEntry.name).filter isHist).map (·.take 23) = [] := by simp [other]
      rw [none_added, List.append_nil, latestStep_of_not_isHist _ other]
      exact ih

theorem held_set (st : HistState) {text rest : List UInt8} (noNul : 0 ∉ text) (short : text.length ≤ 23) :
    (st.set (text ++ 0 :: rest)).held = text := by
  have fits : (text ++ [0]).length ≤ 24 := by
    rw [List.length_append, List.length_singleton]
    omega
  unfold HistState.set HistState.held
  dsimp only
  rw [findIdx?_nul noNul, Option.getD_some, Nat.min_eq_left short, List.take_left, toList_overwrite st.name fits,
    List.append_assoc, List.take_left]

theorem Keeps.held_set (keeps : Keeps best ls)
    (noNul : ∀ n ∈ ls, 0 ∉ n) (st : HistState) : (st.set best.1.toList).held = smear ls := by
  have fits := keeps.fits
  have nul : 24 - (smear ls).length = 23 - (smear ls).length + 1 := by omega
  rw [keeps.buffer, nul, List.replicate_succ]
  refine Store.held_set st ?_ fits
  intro zero
  obtain ⟨n, member, inside⟩ := mem_smear zero
  exact noNul n member inside

theorem noNul_cutNames {root : List DirEntry} (noNul : ∀ e ∈ root, 0 ∉ e.name) {n : List UInt8}
    (member : n ∈ cutNames root) :
    0 ∉ n := by
  obtain ⟨whole, hist, rfl⟩ := List.mem_map.1 member
  obtain ⟨e, entry, rfl⟩ := List.mem_map.1 (List.mem_filter.1 hist).1
  exact fun zero => noNul e entry (List.mem_of_mem_take zero)

/-- The result is the buffer, unless nothing was copied into it. -/
theorem findLatest_eq (root : List DirEntry) :
    findLatest (some root) =
      if cutNames root = [] then none else some (root.foldl latestStep (.replicate 24 0, 0)).1 := by
  have keeps := keeps_foldl root
  have copied : (root.foldl latestStep (.replicate 24 0, 0)).2 = 0 ↔ cutNames root = [] := by
    rw [keeps.length]
    constructor
    · intro zero
      by_contra listed
      obtain ⟨m, last, -, -⟩ := exists_getLast?_leads listed
      rw [last, Option.getD_some] at zero
      exact (keeps.sized m (List.mem_of_getLast? last)).1 (List.length_eq_zero_iff.1 zero)
    · intro none_listed
      rw [none_listed]
      rfl
  change (if _ = 0 then none else some _) = _
  simp only [copied]

/-- The name resumed, whatever the listing: the leading names, one over the other. -/
theorem held_findLatest {root : List DirEntry} (noNul : ∀ e ∈ root, 0 ∉ e.name) {v : FileName}
    (found : findLatest (some root) = some v) (st : HistState) :
    (st.set v.toList).held = smear (leads (cutNames root)) := by
  rw [findLatest_eq] at found
  split_ifs at found
  rw [← Option.some.inj found]
  apply (keeps_foldl root).held_set
  intro n leading
  obtain ⟨before, after, split, -⟩ := mem_leads.1 leading
  exact noNul_cutNames noNul (split ▸ List.mem_append_right _ List.mem_cons_self)

/-- The name resumed is the greatest one exactly when no name greater than all those before it is longer. -/
theorem held_findLatest_iff {root : List DirEntry} (noNul : ∀ e ∈ root, 0 ∉ e.name) (st : HistState) :
    (findLatest (some root) = none ↔ cutNames root = []) ∧
    ∀ v, findLatest (some root) = some v →
      ∃ greatest ∈ cutNames root, (∀ n ∈ cutNames root, n ≤ greatest) ∧
        ((st.set v.toList).held = greatest ↔
          ∀ before n after, cutNames root = before ++ n :: after → (∀ b ∈ before, b < n) →
            n.length ≤ greatest.length) := by
  constructor
  · rw [findLatest_eq, ite_eq_left_iff]
    simp
  · intro v found
    have listed : cutNames root ≠ [] := by
      intro none_listed
      rw [findLatest_eq, if_pos none_listed] at found
      cases found
    obtain ⟨m, last, member, greatest⟩ := exists_getLast?_leads listed
    obtain ⟨ls, split⟩ := List.getLast?_eq_some_iff.1 last
    refine ⟨m, member, greatest, ?_⟩
    rw [held_findLatest noNul found, split, smear_concat_iff]
    constructor
    · intro shorter before n after here greater
      have leading := mem_leads.2 ⟨before, after, here, greater⟩
      rw [split, List.mem_append, List.mem_singleton] at leading
      rcases leading with earlier | rfl
      · exact shorter n earlier
      · exact Nat.le_refl _
    · intro shorter n earlier
      have leading : n ∈ leads (cutNames root) := split ▸ List.mem_append_left _ earlier
      obtain ⟨before, after, here, greater⟩ := mem_leads.1 leading
      exact shorter before n after here greater

/-- A directory of empty files. -/
def listing (names : List String) : List DirEntry := names.map fun n => ⟨Text.utf8 n, 0, false⟩

/-- A greater name that is longer covers the one before. -/
theorem held_findLatest_iff_longer :
    (∀ e ∈ listing ["data_a", "data_bXX"], 0 ∉ e.name) ∧
      ∀ st : HistState, ∃ v, findLatest (some (listing ["data_a", "data_bXX"])) = some v ∧
        (st.set v.toList).held = Text.utf8 "data_bXX" := by
  have noNul : ∀ e ∈ listing ["data_a", "data_bXX"], 0 ∉ e.name := by decide +kernel
  have names : cutNames (listing ["data_a", "data_bXX"]) =
      [Text.utf8 "data_a", Text.utf8 "data_bXX"] := by decide +kernel
  refine ⟨noNul, fun st => ?_⟩
  obtain ⟨none_iff, held⟩ := held_findLatest_iff noNul st
  rw [names] at none_iff held
  obtain ⟨v, found⟩ := Option.ne_none_iff_exists'.1 (mt none_iff.1 (List.cons_ne_nil _ _))
  obtain ⟨greatest, member, most, same⟩ := held v found
  have last : greatest = Text.utf8 "data_bXX" := by
    rcases List.mem_pair.1 member with rfl | rfl
    · exact absurd (most _ (List.mem_pair.2 (.inr rfl))) (by decide +kernel)
    · rfl
  refine ⟨v, found, (same.2 ?_).trans last⟩
  intro before n after split _
  have inside : n ∈ [Text.utf8 "data_a", Text.utf8 "data_bXX"] := split ▸ List.mem_append_right _ List.mem_cons_self
  rw [last]
  rcases List.mem_pair.1 inside with rfl | rfl
  · decide +kernel
  · decide +kernel

/-- A greater name that is shorter keeps the end of the one before: no such file is listed. -/
theorem held_findLatest_stale :
    cutNames (listing ["data_aXX", "data_b"]) = [Text.utf8 "data_aXX", Text.utf8 "data_b"] ∧
      Text.utf8 "data_aXX" < Text.utf8 "data_b" ∧
      Text.utf8 "data_bXX" ∉ (listing ["data_aXX", "data_b"]).map DirEntry.name ∧
      ∀ st : HistState, ∃ v, findLatest (some (listing ["data_aXX", "data_b"])) = some v ∧
        (st.set v.toList).held = Text.utf8 "data_bXX" := by
  have names : cutNames (listing ["data_aXX", "data_b"]) =
      [Text.utf8 "data_aXX", Text.utf8 "data_b"] := by decide +kernel
  have noNul : ∀ e ∈ listing ["data_aXX", "data_b"], 0 ∉ e.name := by decide +kernel
  refine ⟨names, by decide +kernel, by decide +kernel, fun st => ?_⟩
  have found := (findLatest_eq (listing ["data_aXX", "data_b"])).trans
      (if_neg (by rw [names]; exact List.cons_ne_nil _ _))
  refine ⟨_, found, ?_⟩
  rw [held_findLatest noNul found, names]
  decide +kernel

end Store

end IoEdgeHub
