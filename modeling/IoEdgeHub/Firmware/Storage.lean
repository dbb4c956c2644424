import IoEdgeHub.Lib.Handles
import IoEdgeHub.Lib.Text
import IoEdgeHub.Proto.History
import IoEdgeHub.Firmware.CfgStorage

/-!
# The storage task

`handle_cmd` of `storage.rs` with the statics it shares with the servers. littlefs is not modelled:
every call of it returns what an `LfsEnv` says, so the results hold whatever it answers. An open
file is a handle of the ledger; the allocation cell a file was opened with stays occupied until the
file is closed.

Left out: the root listing for the web page (`FS_SNAP`), of which nothing here is read back.
-/

namespace IoEdgeHub

open Handles (Ledger)
open Bytes (overwrite)

/-! ## Commands -/

/-- Path buffers: 96 bytes for FTP, 24 for the web server. -/
abbrev FtpPath := Vector UInt8 96

/-- A name in its buffer. -/
abbrev FileName := Vector UInt8 24

/-- How a file is opened for writing. -/
inductive FtpWrMode where
  | trunc
  | append
  | rest (pos : UInt32)
deriving DecidableEq

/-- The three FTP tasks run with slots 0, 1 and 2. -/
inductive StorageCmd where
  | write (d : HisData)
  | closeKeepName
  | sync
  | cfgSave
  | cfgEraseAll
  | snapReq
  | del (name : FileName)
  | fileOpen (name : FileName)
  | fileChunk
  | ftpStat (path : FtpPath)
  | ftpLs (path : FtpPath)
  | ftpOpenRead (slot : Fin 3) (path : FtpPath) (rest : UInt32)
  | ftpOpenWrite (slot : Fin 3) (path : FtpPath) (mode : FtpWrMode)
  | ftpWriteChunk (slot : Fin 3) (len : ℕ)
  | ftpCloseWrite (slot : Fin 3)
  | ftpReadChunk (slot : Fin 3)
  | ftpRemove (path : FtpPath)
  | ftpMkdir (path : FtpPath)
  | ftpRename (src dst : FtpPath)
deriving DecidableEq

/-! ## Shared state -/

/-- `FILE_ALLOC`, `DL_ALLOC` and `FTP_ALLOC[slot]`. -/
inductive Cell where
  | file
  | dl
  | ftp (slot : Fin 3)
deriving DecidableEq, Repr

/-- An open `File`, as its number in the ledger. -/
abbrev File := ℕ

/-- The state of a transfer. -/
structure FtpXfer where
  dl : Option File
  wr : Option File
  size : UInt32
  sent : UInt32
  chunk : Vector UInt8 2048
  chunkLen : ℕ
  eof : Bool
  err : Bool
  werr : Bool
  isOpen : Bool
  wpos : ℕ

/-- No transfer. -/
def FtpXfer.new : FtpXfer := ⟨none, none, 0, 0, .replicate 2048 0, 0, false, false, false, false, 0⟩

/-- The state of a web download. -/
structure FileDl where
  name : FileName
  size : UInt32
  sent : UInt32
  chunk : Vector UInt8 2048
  chunkLen : ℕ
  isOpen : Bool
  eof : Bool
  err : Bool

/-- No download. -/
def FileDl.new : FileDl := ⟨.replicate 24 0, 0, 0, .replicate 2048 0, 0, false, false, false⟩

/-- One entry of `FTP_LS`: the name cut to 23 bytes, the size and the type. -/
structure LsEntry where
  name : List UInt8
  size : UInt32
  isDir : Bool
deriving DecidableEq

/-- The history file being written, as it is remembered while it is closed. -/
structure HistState where
  name : FileName
  nameLen : ℕ

/-- No history file is remembered. -/
def HistState.new : HistState := ⟨.replicate 24 0, 0⟩

/-- `FTP_RES`: ok, is_dir, size. -/
abbrev FtpRes := Bool × Bool × UInt32

/-- `Path::from_bytes_with_nul` of littlefs2, which is not part of the repository, as far as it is relied on. -/
structure LfsPaths where
  fromBytesWithNul : List UInt8 → Option (List UInt8)
  ascii (path : List UInt8) (noNul : 0 ∉ path) :
    fromBytesWithNul (path ++ [0]) = if path.all (· < 128) then some path else none

/-- The check as littlefs2 documents it. -/
def LfsPaths.documented : LfsPaths where
  fromBytesWithNul b :=
    let p := b.dropLast
    if b.getLast? = some 0 && !p.contains 0 && p.all (· < 128) then some p else none
  ascii path noNul := by
    have inside : path.contains 0 = false := by
      rw [← Bool.not_eq_true, List.contains_iff_mem]
      exact noNul
    simp only [List.dropLast_concat, List.getLast?_concat, inside]
    rfl

/-- The state of the task and the statics it writes. -/
structure Store where
  paths : LfsPaths
  openFile : Option File
  downloadFile : Option File
  xfer : Vector FtpXfer 3
  fileDl : FileDl
  ftpRes : FtpRes
  ftpLs : List LsEntry
  fsBad : Bool
  rpcSeq : UInt32
  hist : HistState
  nor : W25q
  regs : RegMap
  cfg : Option ℕ × UInt32
  /-- Which files were opened with which cell, and closed. -/
  ledger : Ledger Cell
  /-- The paths handed to `remove`. -/
  removals : List (List UInt8)
  /-- What was written to the open files. -/
  written : List (File × List UInt8)

/-- The state in which the main loop starts: `OPEN_FILE` holds no file. -/
def Store.new (paths : LfsPaths) (nor : W25q) (regs : RegMap) (cfg : Option ℕ × UInt32) : Store where
  paths
  openFile := none
  downloadFile := none
  xfer := .replicate 3 .new
  fileDl := .new
  ftpRes := (false, false, 0)
  ftpLs := []
  fsBad := false
  rpcSeq := 0
  hist := .new
  nor
  regs
  cfg
  ledger := .empty
  removals := []
  written := []

/-! ## What littlefs answers -/

/-- What `metadata` tells. -/
structure FileMeta where
  isDir : Bool
  len : UInt32

/-- An entry of a directory. -/
structure DirEntry where
  name : List UInt8
  size : UInt32
  isDir : Bool

/-- The calls of `open_append`. -/
structure AppendEnv where
  metadata : Option FileMeta
  opened : Bool
  written : Bool

/-- The calls of `hist_write`, in their order: on the open file, to find the newest file, on the
file with the retained name, on a new file, and to list the root for the clean-up. -/
structure HistEnv where
  len : Option UInt32
  written : Bool
  closed : Bool
  latest : Option (List DirEntry)
  retained : AppendEnv
  now : UInt32
  fresh : AppendEnv
  root : List DirEntry

/-- The answers during one command. A handler makes each call at most once, with two exceptions:
`slot_close_all` closes a read and a write handle (`close`, `closeWr`), and an opened file that
cannot be positioned is closed again (`closeNew`). -/
structure LfsEnv where
  fwActive : Bool
  hist : HistEnv
  close : Bool
  closeWr : Bool
  closeNew : Bool
  opened : Bool
  len : Option UInt32
  seek : Bool
  read : List UInt8
  written : Option ℕ
  metadata : Option FileMeta
  dir : List DirEntry
  pathOp : Bool

/-- A file; littlefs keeps no longer ones. -/
structure LfsFile where
  bytes : List UInt8
  fits : bytes.length < 2 ^ 31

namespace LfsFile

/-- The length of a file. -/
def len (file : LfsFile) : UInt32 := UInt32.ofNat file.bytes.length

theorem toNat_len (file : LfsFile) : file.len.toNat = file.bytes.length := by
  have := file.fits
  rw [len, UInt32.toNat_ofNat']
  exact Nat.mod_eq_of_lt (by omega)

/-- Answers of littlefs where `file.len()` may fail. -/
def lenAnswer (file : LfsFile) (ok : Bool) (env : LfsEnv) : LfsEnv :=
  { env with len := if ok then some file.len else none }

/-- Answers of littlefs where a read at a position may fail. -/
def readAnswer (file : LfsFile) (pos : ℕ) (ok : Bool) (env : LfsEnv) : LfsEnv :=
  { env with read := if ok then (file.bytes.drop pos).take 2048 else [] }

end LfsFile

/-! ## Paths -/

/-- `path_of` -/
def pathOf (paths : LfsPaths) (name : FileName) : Option (List UInt8) :=
  let len := (name.toList.findIdx? (· == 0)).getD 24
  if len = 0 || len ≥ 24 then none else paths.fromBytesWithNul (name.toList.take (len + 1))

/-- The path of an FTP command. -/
def ftpPathOf (paths : LfsPaths) (path : FtpPath) : Option (List UInt8) :=
  let len := (path.toList.findIdx? (· == 0)).getD 0
  if len = 0 || len ≥ 96 then none else paths.fromBytesWithNul (path.toList.take (len + 1))

namespace HistState

/-- Keep a name, cut at its first NUL and to 23 bytes. -/
def set (st : HistState) (n : List UInt8) : HistState :=
  let l := min ((n.findIdx? (· == 0)).getD n.length) 23
  { name := overwrite st.name (n.take l ++ [0]), nameLen := l }

/-- The path of the history file. -/
def path (st : HistState) (paths : LfsPaths) : Option (List UInt8) :=
  if st.nameLen = 0 then none else paths.fromBytesWithNul (st.name.toList.take (st.nameLen + 1))

end HistState

namespace Store

/-! ## Handles -/

/-- A close; a cell whose close fails is not used again. -/
def closeOrPoison (s : Store) (f : File) (ok : Bool) : Store × Bool :=
  ({ s with ledger := s.ledger.closing f ok, fsBad := s.fsBad || !ok }, ok)

/-- Close what a holder held, if anything. -/
def closeHeld (s : Store) (held : Option File) (ok : Bool) : Store :=
  match held with
  | some f => (s.closeOrPoison f ok).1
  | none => s

theorem closeHeld_paths (s : Store) (held : Option File) (ok : Bool) : (s.closeHeld held ok).paths = s.paths := by
  cases held <;> rfl

/-- A successful `open` with the cell. -/
def openWith (s : Store) (cell : Cell) : Store × File :=
  ({ s with ledger := s.ledger.opening cell }, s.ledger.next)

/-- `FTP_XFER[slot]` -/
def ftpXfer (s : Store) (slot : Fin 3) : FtpXfer := s.xfer[slot]

/-- The transfer of one slot. -/
def setXfer (s : Store) (slot : Fin 3) (x : FtpXfer) : Store := { s with xfer := s.xfer.set slot x }

/-- `FTP_RES` -/
def setRes (s : Store) (r : FtpRes) : Store := { s with ftpRes := r }

/-- A command is done. -/
def bump (s : Store) : Store := { s with rpcSeq := s.rpcSeq + 1 }

/-! ## The history file -/

/-- `HIST_FILE_MAX` -/
def histFileMax : UInt32 := 1024 * 1024

/-- `HIST_MAX_FILES` -/
def histMaxFiles : ℕ := 10

/-- The open file is taken out, synced and put back. -/
def histSync (s : Store) : Store := s

/-- The name of a history file. -/
def isHistName (name : List UInt8) (len : ℕ) : Bool := len > 5 && name.take 5 = Text.utf8 "data_"

/-- The buffer and the length of the greatest name so far, and one more entry. -/
def latestStep (best : FileName × ℕ) (e : DirEntry) : FileName × ℕ :=
  let bl := min e.name.length 23
  let b := e.name.take bl
  if isHistName e.name bl && (best.2 = 0 || best.1.toList.take best.2 < b) then (overwrite best.1 b, bl)
  else best

/-- `find_latest` -/
def findLatest (dir : Option (List DirEntry)) : Option FileName := do
  let best := (← dir).foldl latestStep (.replicate 24 0, 0)
  if best.2 = 0 then none else some best.1

/-- The history files in the root, at most twelve of them. -/
def histNames (root : List DirEntry) : List FileName :=
  (root.filterMap fun e =>
    let l := min e.name.length 23
    if isHistName e.name l then some (overwrite (.replicate 24 0) (e.name.take l)) else none).take 12

/-- The first of the smallest names. -/
def oldest (names : List FileName) : ℕ :=
  let nameAt (i : ℕ) : List UInt8 := (names[i]?.map Vector.toList).getD []
  (List.range names.length).foldl (fun m i => if nameAt i < nameAt m then i else m) 0

/-- The paths removed until at most `histMaxFiles` names are left; each round drops one name. -/
def cleanupLoop (paths : LfsPaths) : ℕ → List FileName → List (List UInt8)
  | 0, _ => []
  | fuel + 1, names =>
    if names.length > histMaxFiles then
      let i := oldest names
      let path := names[i]?.bind (pathOf paths)
      let rest := (names.set i (names.getLast?.getD (.replicate 24 0))).dropLast
      path.toList ++ cleanupLoop paths fuel rest
    else []

/-- `cleanup_old_files` -/
def cleanupOldFiles (s : Store) (root : List DirEntry) : Store :=
  let names := histNames root
  { s with removals := s.removals ++ cleanupLoop s.paths names.length names }

/-- The file is there and below the size limit. -/
def hasRoom (env : AppendEnv) : Bool := env.metadata.any (·.len < histFileMax)

/-- Returns whether the record was written; the file stays open either way. -/
def openAppend (s : Store) (env : AppendEnv) (record : List UInt8) (create : Bool) : Store × Bool :=
  match s.hist.path s.paths with
  | none => (s, false)
  | some _ =>
    if !create && !hasRoom env then (s, false)
    else if env.opened then
      let (s, file) := s.openWith .file
      let s := { s with openFile := some file }
      if env.written then ({ s with written := s.written ++ [(file, record)] }, true) else (s, false)
    else (s, false)

/-- The remembered name, else that of the newest file. -/
def resume (env : HistEnv) (st : HistState) : HistState :=
  if st.nameLen = 0 then
    match findLatest env.latest with
    | some latest => st.set latest.toList
    | none => st
  else st

/-- Start a new file, and keep the number of files bounded. -/
def histCreate (s : Store) (env : HistEnv) (record : List UInt8) : Store :=
  let r := { s with hist := s.hist.set (makeHistName env.now) }.openAppend env.fresh record true
  if r.2 then r.1.cleanupOldFiles env.root else r.1

/-- The reopen path: the remembered or newest file, else a new one. -/
def histReopen (s : Store) (env : HistEnv) (record : List UInt8) : Store :=
  let s := { s with hist := resume env s.hist }
  let r := if s.hist.nameLen > 0 then s.openAppend env.retained record false else (s, false)
  if r.2 then r.1 else r.1.histCreate env record

/-- The record goes into the file that is still open. -/
def staysOpen (s : Store) (env : HistEnv) : Bool :=
  s.openFile.isSome && env.len.any (· < histFileMax) && env.written

/-- `hist_write` -/
def histWrite (s : Store) (env : HistEnv) (d : HisData) : Store :=
  let record := d.toBytes.take d.recLen
  if s.staysOpen env then { s with written := s.written ++ s.openFile.toList.map (·, record) }
  else ({ s with openFile := none }.closeHeld s.openFile env.closed).histReopen env record

/-! ## FTP -/

/-- `ftp_stat` -/
def ftpStat (s : Store) (env : LfsEnv) (path : FtpPath) : Store :=
  match (ftpPathOf s.paths path).bind fun _ => env.metadata with
  | some md => s.setRes (true, md.isDir, md.len)
  | none => s.setRes (false, false, 0)

/-- A listing holds 16 entries; a single file is listed as itself. -/
def ftpLsOf (s : Store) (env : LfsEnv) (path : FtpPath) : Store :=
  match ftpPathOf s.paths path with
  | none => { s with ftpLs := [] }
  | some p =>
    let file := env.metadata.filter (!·.isDir)
    match file with
    | some md =>
      let base := (p.reverse.takeWhile (· != 0x2F)).reverse
      { s with ftpLs := [⟨base.take 23, md.len, false⟩] }
    | none =>
      let named := env.dir.filter fun e => e.name != Text.utf8 "." && e.name != Text.utf8 ".."
      { s with ftpLs := (named.take 16).map fun e => ⟨e.name.take 23, e.size, e.isDir⟩ }

/-- The slot between two transfers. -/
def FtpXfer.reset (x : FtpXfer) : FtpXfer :=
  { x with
    dl := none
    wr := none
    isOpen := false
    eof := false
    err := false
    werr := false
    size := 0
    sent := 0
    chunkLen := 0
    wpos := 0 }

/-- Close the handles the slot still holds before its cell is used again. -/
def slotCloseAll (s : Store) (env : LfsEnv) (slot : Fin 3) : Store :=
  let x := s.ftpXfer slot
  ((s.closeHeld x.dl env.close).closeHeld x.wr env.closeWr).setXfer slot (FtpXfer.reset x)

/-- `ftp_open_read` -/
def ftpOpenRead (s : Store) (env : LfsEnv) (slot : Fin 3) (path : FtpPath) (rest : UInt32) :
    Store × Bool :=
  let s := s.slotCloseAll env slot
  if s.fsBad then (s, false)
  else
    match ftpPathOf s.paths path with
    | none => (s, false)
    | some _ =>
      if env.opened then
        let (s, file) := s.openWith (.ftp slot)
        let size := env.len.getD 0
        if rest > 0 && !env.seek then ((s.closeOrPoison file env.closeNew).1, false)
        else
          let size := if size < rest then 0 else size - rest
          (s.setXfer slot { s.ftpXfer slot with size, isOpen := true, dl := some file }, true)
      else (s, false)

/-- Whether an opened file could be positioned. -/
def FtpWrMode.seekOk (env : LfsEnv) : FtpWrMode → Bool
  | .trunc => true
  | .append | .rest _ => env.seek

/-- `ftp_open_write` -/
def ftpOpenWrite (s : Store) (env : LfsEnv) (slot : Fin 3) (path : FtpPath) (mode : FtpWrMode) : Store :=
  let s := s.slotCloseAll env slot
  if s.fsBad then s.setRes (false, false, 0)
  else
    match ftpPathOf s.paths path with
    | none => s.setRes (false, false, 0)
    | some _ =>
      if env.opened then
        let (s, file) := s.openWith (.ftp slot)
        if FtpWrMode.seekOk env mode then
          (s.setXfer slot { s.ftpXfer slot with wr := some file }).setRes (true, false, 0)
        else (s.closeOrPoison file env.closeNew).1.setRes (false, false, 0)
      else s.setRes (false, false, 0)

/-- The handle is taken out for the write and put back. -/
def ftpWriteChunk (s : Store) (env : LfsEnv) (slot : Fin 3) (len : ℕ) : Store :=
  let x := s.ftpXfer slot
  let l := min len 512
  match x.wr with
  | none => s.setXfer slot { x with wpos := 0 }
  | some f =>
    let ok := env.written = some l
    let bytes := (x.chunk.toList.take l).take (env.written.getD 0)
    { s.setXfer slot { x with wpos := 0, werr := x.werr || !ok } with written := s.written ++ [(f, bytes)] }

/-- `ftp_close_write` -/
def ftpCloseWrite (s : Store) (env : LfsEnv) (slot : Fin 3) : Store :=
  let x := s.ftpXfer slot
  let ok := x.wr.isNone || env.close
  let s := (s.closeHeld x.wr env.close).setXfer slot { x with wr := none }
  s.setRes (ok && !x.werr, false, 0)

/-- `ftp_read_chunk` -/
def ftpReadChunk (s : Store) (env : LfsEnv) (slot : Fin 3) : Store :=
  let x := s.ftpXfer slot
  if !x.isOpen then s
  else if x.sent ≥ x.size then
    (s.closeHeld x.dl env.close).setXfer slot { x with dl := none, eof := true }
  else
    let buf := if x.dl.isSome then env.read.take 2048 else []
    if buf.isEmpty then
      (s.closeHeld x.dl env.close).setXfer slot { x with dl := none, eof := true, err := true }
    else
      let sent := x.sent + UInt32.ofNat buf.length
      s.setXfer slot
        { x with
          chunk := overwrite x.chunk buf
          chunkLen := buf.length
          sent
          eof := x.eof || sent ≥ x.size }

/-- `ftp_path_op`, for `remove`. -/
def ftpRemove (s : Store) (env : LfsEnv) (path : FtpPath) : Store :=
  match ftpPathOf s.paths path with
  | some p => { s with removals := s.removals ++ [p] }.setRes (env.pathOp, false, 0)
  | none => s.setRes (false, false, 0)

/-- `ftp_path_op`, for `create_dir`. -/
def ftpMkdir (s : Store) (env : LfsEnv) (path : FtpPath) : Store :=
  s.setRes ((ftpPathOf s.paths path).isSome && env.pathOp, false, 0)

/-- `ftp_rename` -/
def ftpRename (s : Store) (env : LfsEnv) (src dst : FtpPath) : Store :=
  s.setRes ((ftpPathOf s.paths src).isSome && (ftpPathOf s.paths dst).isSome && env.pathOp, false, 0)

/-! ## Web downloads -/

/-- Close a stale download and forget its progress. -/
def downloadReset (s : Store) (env : LfsEnv) : Store :=
  { s with
    downloadFile := none
    fileDl :=
      { s.fileDl with
        isOpen := false
        eof := false
        err := false
        size := 0
        sent := 0
        chunkLen := 0 } }.closeHeld s.downloadFile env.close

/-- `file_open` -/
def fileOpen (s : Store) (env : LfsEnv) (name : FileName) : Store :=
  let s := s.downloadReset env
  if s.fsBad then s
  else
    match pathOf s.paths name with
    | none => s
    | some _ =>
      if env.opened then
        let (s, file) := s.openWith .dl
        { s with
          fileDl := { s.fileDl with name, size := env.len.getD 0, isOpen := true }
          downloadFile := some file }
      else s

/-- `file_chunk` -/
def fileChunk (s : Store) (env : LfsEnv) : Store :=
  let dl := s.fileDl
  let file := s.downloadFile
  if !dl.isOpen then s
  else if dl.sent ≥ dl.size then
    { s with downloadFile := none, fileDl := { dl with eof := true } }.closeHeld file env.close
  else
    let buf := if file.isSome then env.read.take 2048 else []
    if buf.isEmpty then
      { s with downloadFile := none, fileDl := { dl with err := true, eof := true } }.closeHeld file env.close
    else
      let sent := dl.sent + UInt32.ofNat buf.length
      let eof := dl.eof || sent ≥ dl.size
      let dl := { dl with chunk := overwrite dl.chunk buf, chunkLen := buf.length, sent, eof }
      if eof then { s with downloadFile := none, fileDl := dl }.closeHeld file env.close
      else { s with fileDl := dl }

/-! ## The task -/

/-- `handle_cmd` -/
def handleCmd (s : Store) (env : LfsEnv) : StorageCmd → Store
  | .write d =>
    if s.regs.getHolding (UInt16.ofNat holdingHistoryEnableIdx) != 0 && !env.fwActive &&
      !s.fsBad then s.histWrite env.hist d else s
  | .closeKeepName => { s with openFile := none }.closeHeld s.openFile env.close
  | .sync => s.histSync.bump
  | .cfgSave =>
    let (nor, cfg, _) := IoEdgeHub.cfgSave s.nor s.regs s.cfg
    { s with nor, cfg }
  | .cfgEraseAll =>
    let (nor, cfg, regs, _) := IoEdgeHub.cfgEraseAll s.nor s.regs s.cfg
    { s with nor, cfg, regs }
  | .snapReq => s.histSync.bump
  | .del name =>
    match pathOf s.paths name with
    | some p => { s with removals := s.removals ++ [p] }
    | none => s
  | .fileOpen name => (s.histSync.fileOpen env name).bump
  | .fileChunk => (s.fileChunk env).bump
  | .ftpStat path => (s.ftpStat env path).bump
  | .ftpLs path => (s.histSync.ftpLsOf env path).bump
  | .ftpOpenRead slot path rest =>
    let (s, ok) := s.histSync.ftpOpenRead env slot path rest
    (s.setRes (ok, false, (s.ftpXfer slot).size)).bump
  | .ftpOpenWrite slot path mode => (s.ftpOpenWrite env slot path mode).bump
  | .ftpWriteChunk slot len => (s.ftpWriteChunk env slot len).bump
  | .ftpCloseWrite slot => (s.ftpCloseWrite env slot).bump
  | .ftpReadChunk slot => (s.ftpReadChunk env slot).bump
  | .ftpRemove path => (s.ftpRemove env path).bump
  | .ftpMkdir path => (s.ftpMkdir env path).bump
  | .ftpRename src dst => (s.ftpRename env src dst).bump

/-- Every call succeeds and every file is empty. -/
def allWell : LfsEnv :=
  let append : AppendEnv := ⟨some ⟨false, 0⟩, true, true⟩
  { fwActive := false
    hist := ⟨some 0, true, true, none, append, 0, append, []⟩
    close := true
    closeWr := true
    closeNew := true
    opened := true
    len := some 0
    seek := true
    read := []
    written := none
    metadata := none
    dir := []
    pathOp := true }

end Store

end IoEdgeHub
