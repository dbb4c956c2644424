import IoEdgeHub.Firmware.HttpDownload

/-!
# The names of history files (`/api/history/download`, `/api/history/delete`)

Both routes check a name with `history_web_name_valid`, which lets 31 bytes pass, and send it to the
storage task in a buffer that keeps 23 of them.  `webName_path` says which names arrive unchanged.
-/

namespace IoEdgeHub

open Bytes Text

/-- `POST /api/history/delete`: what is queued, and whether the answer is `json_ok`; `room` is the outcome of
`try_send`. -/
def historyDelete (room : Bool) (body : Option (List UInt8)) : Option (Option StorageCmd × Bool) := do
  match ← jsonGetStr (body.getD []) "name" with
  | none => return (none, false)
  | some name =>
    if historyWebNameValid name then return (if room then some (.del (nameBuf name)) else none, room)
    else return (none, false)

theorem historyWebNameValid_take {name : List UInt8} (valid : historyWebNameValid name = true) :
    historyWebNameValid (name.take 23) = true := by
  simp only [historyWebNameValid, Bool.and_eq_true, decide_eq_true_eq] at valid ⊢
  obtain ⟨⟨⟨low, high⟩, start⟩, all⟩ := valid
  refine ⟨⟨⟨?_, ?_⟩, ?_⟩, ?_⟩
  · rw [List.length_take]
    omega
  · rw [List.length_take]
    omega
  · rw [List.isPrefixOf_iff_prefix] at start ⊢
    obtain ⟨rest, rfl⟩ := start
    exact ⟨rest.take 18, (List.take_length_add_append ..).symm⟩
  · exact List.all_eq_true.2 fun b mem => List.all_eq_true.1 all b (List.mem_of_mem_take mem)

/-- The path of a valid name is its first 23 bytes. -/
theorem pathOf_nameBuf_take {paths : LfsPaths} {name : List UInt8} (valid : historyWebNameValid name = true) :
    pathOf paths (nameBuf name) = some (name.take 23) := by
  have same : nameBuf name = nameBuf (name.take 23) := by rw [nameBuf, nameBuf, List.take_take, Nat.min_self]
  rw [same]
  exact pathOf_nameBuf (historyWebNameValid_take valid) (List.length_take_le _ _)

theorem pathOf_nameBuf_iff {paths : LfsPaths} {name : List UInt8} (valid : historyWebNameValid name = true) :
    pathOf paths (nameBuf name) = some name ↔ name.length ≤ 23 := by
  rw [pathOf_nameBuf_take valid, Option.some.injEq, List.take_eq_self_iff]

/-- The storage task gets the file that a request names just if the name has at most 23 bytes; else it gets the one
that the first 23 bytes name. -/
theorem webName_path (paths : LfsPaths) (name : List UInt8) (valid : historyWebNameValid name = true) :
    (∀ (conn : DlConn) (st : Store) (query : Option (List UInt8)), query.bind (urlQueryGet · "name") = some name →
      ∃ nb, (conn.begin st query).2 = some (.fileOpen nb) ∧ pathOf paths nb = some (name.take 23) ∧
        (pathOf paths nb = some name ↔ name.length ≤ 23)) ∧
    ∀ body : Option (List UInt8), jsonGetStr (body.getD []) "name" = some (some name) →
      ∃ nb, (∀ room, historyDelete room body = some (if room then some (.del nb) else none, room)) ∧
        pathOf paths nb = some (name.take 23) ∧ (pathOf paths nb = some name ↔ name.length ≤ 23) := by
  constructor
  · intro conn st query named
    refine ⟨nameBuf name, ?_, pathOf_nameBuf_take valid, pathOf_nameBuf_iff valid⟩
    simp only [DlConn.begin, named, if_pos valid]
  · intro body named
    refine ⟨nameBuf name, fun room => ?_, pathOf_nameBuf_take valid, pathOf_nameBuf_iff valid⟩
    simp only [historyDelete, named, Option.bind_eq_bind, Option.bind_some, if_pos valid, Option.pure_def]

/-- A name of 24 bytes, and the one of its first 23. -/
def longName : List UInt8 := utf8 "data_0123456789_abcdefgh"

/-- A name of 23 bytes. -/
def shortName : List UInt8 := utf8 "data_0123456789_abcdefg"

theorem webName_path_short : historyWebNameValid shortName = true ∧
    ∃ nb, (DlConn.new.begin DlHub.idleStorage.store (some (utf8 "name=" ++ shortName))).2 = some (.fileOpen nb) ∧
      pathOf .documented nb = some shortName := by
  have valid : historyWebNameValid shortName = true := by decide +kernel
  have query : urlQueryGet (utf8 "name=" ++ shortName) "name" = some shortName := by decide +kernel
  obtain ⟨nb, asked, -, same⟩ :=
    (webName_path .documented shortName valid).1 _ _ (some (utf8 "name=" ++ shortName)) query
  exact ⟨valid, nb, asked, same.2 (by decide)⟩

/-- A request for the long name gets the file with the short one, and to delete it is to delete that one. -/
theorem long_name_other_file :
    historyWebNameValid longName = true ∧ shortName ≠ longName ∧
    (DlConn.new.begin DlHub.idleStorage.store (some (utf8 "name=" ++ longName))).2 =
      some (.fileOpen (nameBuf longName)) ∧
    historyDelete true (some (utf8 "\x7b\"name\":\"data_0123456789_abcdefgh\"\x7d")) =
      some (some (.del (nameBuf longName)), true) ∧
    pathOf .documented (nameBuf longName) = some shortName := by
  have valid : historyWebNameValid longName = true := by decide +kernel
  have query : urlQueryGet (utf8 "name=" ++ longName) "name" = some longName := by decide +kernel
  have field : jsonGetStr (utf8 "\x7b\"name\":\"data_0123456789_abcdefgh\"\x7d") "name" = some (some longName) := by
    decide +kernel
  refine ⟨valid, by decide +kernel, ?_, ?_, by decide +kernel⟩
  · simp only [DlConn.begin, Option.bind_some, query, if_pos valid]
  · simp only [historyDelete, Option.getD_some, field, Option.bind_eq_bind, Option.bind_some, if_pos valid, if_true,
      Option.pure_def]

end IoEdgeHub
