import IoEdgeHub.Lib.Bytes
import IoEdgeHub.Lib.Text

/-!
# The line editor of the debug shell

`shell_task` in `shell.rs`, byte by byte: typing, erasing, cursor keys, the history and the completion
of commands.  Every index and every range is checked; `none` is a panic.  What is sent to the console,
and the lines that are handed to the commands, are the outputs of a byte.
-/

namespace IoEdgeHub

open Text
open Bytes (store slice overwrite)

/-- `LINE_MAX`, with the NUL. -/
def lineMax : ℕ := 96

/-- The line buffer. -/
abbrev ShellLine := Vector UInt8 lineMax

/-- Bytes sent, a line of text, and a line that is executed. -/
inductive ShellOut where
  | raw (bytes : List UInt8)
  | line (text : List Char)
  | dispatch (line : List UInt8)
  deriving DecidableEq, Repr

namespace ShellLine

/-- An empty line. -/
def empty : ShellLine := .replicate lineMax 0

/-- The bytes before the first NUL. -/
def cstr (line : ShellLine) : List UInt8 := line.toList.takeWhile (· ≠ 0)

/-- A cleared line with `src` copied to its beginning. -/
def loadLine (src : List UInt8) : Option ShellLine :=
  if src.length ≤ lineMax then some (overwrite empty src) else none

/-- `copy_within(lo..hi, dest)` -/
def copyWithin (l : ShellLine) (lo hi dest : ℕ) : Option ShellLine :=
  if lo ≤ hi ∧ hi ≤ lineMax ∧ dest + (hi - lo) ≤ lineMax then
    some (.ofFn fun i =>
      if dest ≤ i ∧ i < dest + (hi - lo) then l[lo + (i - dest)]?.getD 0 else l.get i)
  else none

end ShellLine

open ShellLine

/-- The prompt. -/
def prompt : ShellOut := .raw (utf8 "io> ")

/-- `ESC [`, a count and a direction, in 12 bytes. -/
def cursorMove (count : ℕ) (dir : Char) : List UInt8 :=
  utf8 (String.ofList (writePieces 12 [] [['\x1B', '['], decChars count, [dir]]))

/-- Append to the 112 bytes of the `redraw` buffer. -/
def redrawPut (buf piece : List UInt8) : Option (List UInt8) :=
  if buf.length + piece.length ≤ lineMax + 16 then some (buf ++ piece) else none

/-- `redraw` -/
def ShellLine.redraw (line : ShellLine) (n pos : ℕ) : Option ShellOut := do
  let buf ← redrawPut [] (utf8 "\rio> ")
  let buf ← redrawPut buf (← slice line.toList 0 n)
  let buf ← redrawPut buf (utf8 "\x1B[K")
  let buf ← if pos < n then redrawPut buf (cursorMove (n - pos) 'D') else some buf
  return .raw buf

/-! ## History -/

/-- `newest` is only ever set modulo `HIST_MAX`. -/
structure Hist where
  lines : Vector ShellLine 8
  len : ℕ
  newest : Fin 8

namespace Hist

/-- No line is kept. -/
def new : Hist := ⟨.replicate 8 empty, 0, 0⟩

/-- The newest line is this one. -/
def isNewest (h : Hist) (line : List UInt8) : Option Bool :=
  let cur := h.lines.get h.newest
  if h.len = 0 then some false
  else do
    let front ← slice cur.toList 0 line.length
    if front ≠ line then return false
    return (← cur[line.length]?) = 0

/-- Keep a line. -/
def store (h : Hist) (line : List UInt8) : Option Hist := do
  if ← h.isNewest line then return h
  let newest := h.newest + 1
  let slot := overwrite empty (line.take (lineMax - 1))
  return ⟨h.lines.set newest slot newest.isLt, if h.len < 8 then h.len + 1 else h.len, newest⟩

/-- 0 is the newest line; nothing past the oldest. -/
def get (h : Hist) (nav : ℕ) : Option (List UInt8) :=
  if nav ≥ h.len then none else some (h.lines.get (Fin.ofNat 8 (h.newest + 8 - nav))).cstr

end Hist

/-! ## Completion -/

/-- A command and its subcommands. -/
inductive Cmd where
  | mk (name : String) (sub : List Cmd)

namespace Cmd

/-- The name of a command. -/
def name : Cmd → String
  | .mk name _ => name

/-- The subcommands. -/
def sub : Cmd → List Cmd
  | .mk _ sub => sub

/-- The name as it is typed. -/
def bytes (c : Cmd) : List UInt8 := utf8 c.name

/-- A command without subcommands. -/
def leaf (name : String) : Cmd := .mk name []

end Cmd

/-- Behind `io do`. -/
def ioDoCmds : List Cmd := [.leaf "set"]

/-- Behind `io rs485`. -/
def ioRs485Cmds : List Cmd := [.leaf "baud", .leaf "sid"]

/-- Behind `io can`. -/
def ioCanCmds : List Cmd := [.leaf "id", .leaf "bps"]

/-- Behind `io`. -/
def ioCmds : List Cmd :=
  [.leaf "help", .leaf "info", .leaf "di", .mk "do" ioDoCmds, .leaf "ai", .mk "rs485" ioRs485Cmds,
    .mk "can" ioCanCmds, .leaf "ip", .leaf "reg", .leaf "save", .leaf "factory"]

/-- All commands. -/
def rootCmds : List Cmd := [.leaf "help", .leaf "tasks", .leaf "ps", .leaf "reboot", .mk "io" ioCmds]

namespace ShellLine

/-- A blank or a tab. -/
def isBlank (b : UInt8) : Bool := b == 0x20 || b == 0x09

/-- Move `i` over the bytes with a property; `left` is what is left up to `n`. -/
def skip (p : UInt8 → Bool) (l : ShellLine) : ℕ → ℕ → Option ℕ
  | 0, i => some i
  | left + 1, i => do if p (← l[i]?) then skip p l left (i + 1) else some i

/-- The table behind a complete word, if the tree goes on. -/
def descend (tbl : List Cmd) (word : List UInt8) : Option (List Cmd) :=
  match tbl.find? fun c => c.bytes = word with
  | none => none
  | some c => if c.sub.isEmpty then none else some c.sub

/-- The loop of `complete_level`: the table for the last word, its start and its length.  Every round
moves on, so `n + 1` rounds are enough. -/
def completeLevelFrom (line : ShellLine) (n : ℕ) :
    ℕ → Option (List Cmd) → ℕ → Option (Option (List Cmd) × ℕ × ℕ)
  | 0, _, _ => none
  | fuel + 1, tbl, i =>
    if i < n then do
      let w ← skip isBlank line (n - i) i
      if w = n then return (tbl, n, 0)
      let i ← skip (!isBlank ·) line (n - w) w
      if i = n then return (tbl, w, i - w)
      let tbl ←
        match tbl with
        | none => some none
        | some t => (slice line.toList w i).map (descend t)
      completeLevelFrom line n fuel tbl i
    else some (tbl, n, 0)

/-- The commands that may stand at the cursor. -/
def completeLevel (line : ShellLine) (n : ℕ) : Option (Option (List Cmd) × ℕ × ℕ) :=
  completeLevelFrom line n (n + 1) (some rootCmds) 0

/-- The commands of a table that begin with the last word, at most 16. -/
def candidates (line : ShellLine) (wstart wlen : ℕ) : List Cmd → List Cmd → Option (List Cmd)
  | [], cand => some cand
  | c :: tbl, cand =>
    if c.bytes.length ≥ wlen then do
      let word ← slice line.toList wstart (wstart + wlen)
      if c.bytes.take wlen = word ∧ cand.length < 16 then candidates line wstart wlen tbl (cand ++ [c])
      else candidates line wstart wlen tbl cand
    else candidates line wstart wlen tbl cand

/-- What can complete the last word, and how long that is. -/
def offered (line : ShellLine) (n : ℕ) : Option (List Cmd × ℕ) := do
  match ← completeLevel line n with
  | (none, _, wlen) => return ([], wlen)
  | (some tbl, wstart, wlen) => return (← candidates line wstart wlen tbl [], wlen)

/-- Write bytes behind the line, as long as `room` more would fit. -/
def append (room : ℕ) : List UInt8 → ShellLine → ℕ → Option (ShellLine × ℕ)
  | [], line, n => some (line, n)
  | b :: bs, line, n =>
    if n + room ≥ lineMax then some (line, n) else do append room bs (← store line n b) (n + 1)

/-- The rest of the only command, and a blank. -/
def completeOne (line : ShellLine) (n : ℕ) (rest : List UInt8) : Option (ShellLine × ℕ × List ShellOut) := do
  let (line, m) ← append 2 rest line n
  let line ← store line m 0x20
  let line ← store line (m + 1) 0
  return (line, m + 1, [.raw (← slice line.toList n (m + 1))])

/-- How far two names agree, up to a limit. -/
def commonUpTo : ℕ → List UInt8 → List UInt8 → ℕ
  | limit + 1, a :: as, b :: bs => if a = b then commonUpTo limit as bs + 1 else 0
  | _, _, _ => 0

/-- How far all names agree. -/
def lcp (first : Cmd) (others : List Cmd) : ℕ :=
  others.foldl (fun len c => commonUpTo len first.bytes c.bytes) first.bytes.length

/-- The names in a row, in 128 bytes. -/
def candidateRow (first : Cmd) (others : List Cmd) : List Char :=
  others.foldl (fun row c => writePieces 128 row [[' ', ' '], c.name.toList])
    (writePieces 128 [] [[], first.name.toList])

/-- What all commands agree on; then they are listed. -/
def completeMany (line : ShellLine) (n wlen : ℕ) (first : Cmd) (others : List Cmd) :
    Option (ShellLine × ℕ × List ShellOut) := do
  let (line, n) ← append 1 ((first.bytes.take (lcp first others)).drop wlen) line n
  let line ← store line n 0
  return (line, n, [.raw (utf8 "\r\n"), .line (candidateRow first others), prompt, .raw (← slice line.toList 0 n)])

/-- `complete` -/
def complete (line : ShellLine) (n : ℕ) : Option (ShellLine × ℕ × List ShellOut) := do
  match ← offered line n with
  | ([], _) => return (line, n, [])
  | ([c], wlen) => completeOne line n (c.bytes.drop wlen)
  | (c :: others, wlen) => completeMany line n wlen c others

end ShellLine

/-! ## The editor -/

/-- The variables of `shell_task`; `nav` is -1 while a new line is edited. -/
structure ShellEditor where
  line : ShellLine
  draft : ShellLine
  n : ℕ
  pos : ℕ
  esc : UInt8
  nav : ℤ
  prevCr : Bool
  hist : Hist

namespace ShellEditor

/-- An editor at its prompt. -/
def new : ShellEditor where
  line := empty
  draft := empty
  n := 0
  pos := 0
  esc := 0
  nav := -1
  prevCr := false
  hist := .new

/-- The editor and what it prints; none is a panic. -/
abbrev Result := Option (ShellEditor × List ShellOut)

/-- Edit another line. -/
def edit (e : ShellEditor) (src : List UInt8) : Result := do
  let line ← loadLine src
  return ({ e with line, n := src.length, pos := src.length }, [← redraw line src.length src.length])

/-- An older line. -/
def arrowUp (e : ShellEditor) : Result :=
  let e :=
    if e.nav < 0 then { e with draft := e.line, nav := 0 }
    else if e.nav + 1 < e.hist.len then { e with nav := e.nav + 1 }
    else e
  match e.hist.get e.nav.toNat with
  | some h => e.edit h
  | none => some (e, [])

/-- A newer line. -/
def arrowDown (e : ShellEditor) : Result :=
  if e.nav < 0 then some (e, [])
  else
    let e := { e with nav := e.nav - 1 }
    if e.nav < 0 then e.edit e.draft.cstr
    else
      match e.hist.get e.nav.toNat with
      | some h => e.edit h
      | none => some (e, [])

/-- The last byte of a cursor key. -/
def arrow (e : ShellEditor) (c : UInt8) : Result :=
  if c = 0x43 then
    some (if e.pos < e.n then ({ e with pos := e.pos + 1 }, [.raw (utf8 "\x1B[C")]) else (e, []))
  else if c = 0x44 then
    some (if e.pos > 0 then ({ e with pos := e.pos - 1 }, [.raw (utf8 "\x1B[D")]) else (e, []))
  else if c = 0x41 then e.arrowUp
  else if c = 0x42 then e.arrowDown
  else some (e, [])

/-- The line is done. -/
def enter (e : ShellEditor) : Result :=
  if e.n ≠ 0 then do
    let text ← slice e.line.toList 0 e.n
    let hist ← e.hist.store text
    let line ← store e.line 0 0
    return ({ e with hist, nav := -1, n := 0, pos := 0, line }, [.raw (utf8 "\r\n"), .dispatch text, prompt])
  else some (e, [.raw (utf8 "\r\n"), prompt])

/-- Backspace. -/
def erase (e : ShellEditor) : Result :=
  if e.pos > 0 then do
    let line ← e.line.copyWithin e.pos e.n (e.pos - 1)
    let line ← store line (e.n - 1) 0
    let e := { e with line, n := e.n - 1, pos := e.pos - 1 }
    return (e, [← if e.pos = e.n then some (.raw [0x08, 0x20, 0x08]) else redraw e.line e.n e.pos])
  else some (e, [])

/-- Completion. -/
def tab (e : ShellEditor) : Result := do
  let moved := if e.pos < e.n then [.raw (cursorMove (e.n - e.pos) 'C')] else []
  let (line, n, outs) ← complete e.line e.n
  return ({ e with line, n, pos := n }, moved ++ outs)

/-- A character at the cursor. -/
def insert (e : ShellEditor) (c : UInt8) : Result :=
  if e.pos = e.n then do
    let line ← store e.line e.n c
    let line ← store line (e.n + 1) 0
    return ({ e with line, n := e.n + 1, pos := e.n + 1 }, [.raw [c]])
  else do
    let line ← e.line.copyWithin e.pos e.n (e.pos + 1)
    let line ← store line e.pos c
    let line ← store line (e.n + 1) 0
    return ({ e with line, n := e.n + 1, pos := e.pos + 1 }, [← redraw line (e.n + 1) (e.pos + 1)])

/-- A byte outside an escape sequence. -/
def key (e : ShellEditor) (c : UInt8) : Result :=
  if c = 0x0A ∧ e.prevCr then some ({ e with prevCr := false }, [])
  else if c = 0x0D ∨ c = 0x0A then { e with prevCr := c == 0x0D }.enter
  else
    let e := { e with prevCr := false }
    if c = 0x08 ∨ c = 0x7F then e.erase
    else if c = 0x09 then e.tab
    else if (0x20 ≤ c ∧ c < 0x7F) ∧ e.n + 2 < lineMax then e.insert c
    else some (e, [])

/-- The body of the loop, for the byte `c`. -/
def step (e : ShellEditor) (c : UInt8) : Result :=
  if e.esc ≠ 0 then
    if e.esc = 1 ∧ (c = 0x5B ∨ c = 0x4F) then some ({ e with esc := 2 }, [])
    else if e.esc = 2 ∧ (0x30 ≤ c ∧ c ≤ 0x39 ∨ c = 0x3B) then some (e, [])
    else if 0x41 ≤ c ∧ c ≤ 0x44 then { e with esc := 0 }.arrow c
    else some ({ e with esc := 0 }, [])
  else if c = 0x1B then some ({ e with esc := 1 }, [])
  else e.key c

/-- The editor after the bytes received since the start. -/
def run (bytes : List UInt8) : Option ShellEditor := bytes.foldlM (fun e c => (e.step c).map (·.1)) new

end ShellEditor

end IoEdgeHub
