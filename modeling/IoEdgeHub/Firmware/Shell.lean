import IoEdgeHub.Lib.Text
import IoEdgeHub.Proto.Regmap

/-!
# The debug shell

The commands of `shell.rs` on the serial console: how a line is cut into words, how numbers and
addresses are read, and what the commands that change anything do.  What a command prints is left
out, so the commands that only print leave the state as it is.
-/

namespace IoEdgeHub

open Text

/-- What a command asks of the rest of the firmware. -/
inductive ShellRequest where
  | cfgSave
  | cfgEraseAll
  | sync
  | reboot
  deriving DecidableEq, Repr

/-- The state the commands work on, with the requests made so far. -/
structure Shell where
  regs : RegMap
  hooks : Hooks
  requests : List ShellRequest
  deriving DecidableEq, Repr

namespace Shell

/-! ## Words and numbers -/

/-- `ARG_MAX` -/
def argMax : ℕ := 6

/-- The words of a line, at most `argMax`; a word that is not UTF-8 counts as empty. -/
def argv (line : List UInt8) : List (List Char) :=
  (((line.splitOnP fun b => b == 0x20 || b == 0x09).filter (· ≠ [])).take argMax).map fun word =>
    (fromUtf8 word).getD []

/-- A number in decimal, or in hexadecimal after `0x`. -/
def parseU32 : List Char → Option ℕ
  | '0' :: 'x' :: digits => fromStrRadix 16 0xFFFFFFFF digits
  | '0' :: 'X' :: digits => fromStrRadix 16 0xFFFFFFFF digits
  | digits => fromStrRadix 10 0xFFFFFFFF digits

/-- One octet: up to three digits, no sign. -/
def parseOctet (p : List Char) : Option ℕ :=
  if p.isEmpty || byteLen p > 3 || !p.all Char.isDigit then none else parseUnsigned 255 p

/-- `parse_ip` -/
def parseIp (text : List Char) : Option (Vector UInt8 4) :=
  match (text.splitOn '.').map parseOctet with
  | [some a, some b, some c, some d] =>
    some (Bytes.quad (UInt8.ofNat a) (UInt8.ofNat b) (UInt8.ofNat c) (UInt8.ofNat d))
  | _ => none

/-! ## Commands -/

/-- Ask another task. -/
def request (s : Shell) (r : ShellRequest) : Shell := { s with requests := s.requests ++ [r] }

/-- Carry out a register write, if it is accepted. -/
def commit (s : Shell) : Option (RegMap × Hooks) → Shell × Bool
  | some (regs, hooks) => ({ s with regs, hooks }, true)
  | none => (s, false)

/-- A register write that may be refused. -/
def regWrite (s : Shell) (addr value : UInt16) : Shell × Bool :=
  s.commit (s.regs.ioWriteHolding addr value s.hooks)

/-- `reboot` -/
def cmdReboot (s : Shell) : Shell := (s.request .sync).request .reboot

/-- `io do set` -/
def cmdIoDoSet (s : Shell) (ch val : List Char) : Shell :=
  match parseU32 ch with
  | none => s
  | some ch =>
    if ¬(1 ≤ ch ∧ ch ≤ 8) then s
    else
      match parseU32 val with
      | none => s
      | some v =>
        if v > 1 then s
        else (s.commit (s.regs.ioWriteDoBit (UInt16.ofNat ch - 1) (v != 0) s.hooks)).1

/-- `io reg` -/
def cmdIoReg (s : Shell) : List (List Char) → Shell
  | addr :: val :: _ =>
    match parseU32 addr with
    | none => s
    | some addr =>
      if addr ≥ modbusHoldingRegisterNumbers then s
      else
        match parseU32 val with
        | none => s
        | some v => if v > 0xFFFF then s else (s.regWrite (UInt16.ofNat addr) (UInt16.ofNat v)).1
  | _ => s

/-- A parameter command `sub value`: the table gives the accepted values and the register of each
subcommand.  The value is cut to 16 bits after the check. -/
def ioParam (s : Shell) (table : List (String × (ℕ → Bool) × ℕ)) : List (List Char) → Shell
  | sub :: val :: _ =>
    match table.find? fun e => e.1.toList = sub with
    | none => s
    | some (_, valid, idx) =>
      match parseU32 val with
      | none => s
      | some v => if valid v then (s.regWrite (UInt16.ofNat idx) (UInt16.ofNat v)).1 else s
  | _ => s

/-- `io rs485` -/
def rs485Table : List (String × (ℕ → Bool) × ℕ) :=
  [("baud", fun v => 1200 ≤ v ∧ v ≤ 115200, holdingRs485BaudrateIdx),
    ("sid", fun v => 1 ≤ v ∧ v ≤ 247, holdingSlaveIdIdx)]

/-- `io can` -/
def canTable : List (String × (ℕ → Bool) × ℕ) :=
  [("id", fun v => 1 ≤ v ∧ v ≤ 0x7FF, holdingCanIdIdx),
    ("bps", fun v => v ∈ [50, 100, 125, 250, 500, 800, 1000], holdingCanBaudrateIdx)]

/-- Only 255 is refused above 223 in the first octet, unlike in `ip_addr_valid`. -/
def ipValid (ip : Vector UInt8 4) : Bool :=
  match ip.toList with
  | [a, _, _, d] => !(a == 0 || a == 127 || a ≥ 255 || d == 0 || d == 255)
  | _ => false

/-- `io ip` -/
def ioIp (s : Shell) : List (List Char) → Shell
  | text :: _ =>
    match parseIp text with
    | none => s
    | some ip =>
      if !ipValid ip then s
      else
        let put (s : Shell) (i : Fin 4) : Shell :=
          (s.regWrite (UInt16.ofNat (holdingIpOctet1Idx + i)) (ip.get i).toUInt16).1
        ((List.finRange 4).foldl put s).request .cfgSave
  | _ => s

/-- `io_dispatch` -/
def ioDispatch (s : Shell) : List (List Char) → Shell
  | [] => s
  | cmd :: args =>
    if cmd = "do".toList then
      match args with
      | sub :: ch :: val :: _ => if sub = "set".toList then s.cmdIoDoSet ch val else s
      | _ => s
    else if cmd = "rs485".toList then s.ioParam rs485Table args
    else if cmd = "can".toList then s.ioParam canTable args
    else if cmd = "ip".toList then s.ioIp args
    else if cmd = "reg".toList then s.cmdIoReg args
    else if cmd = "save".toList then s.request .cfgSave
    else if cmd = "factory".toList then (s.request .cfgEraseAll).request .reboot
    else s

/-- One line, as the line editor hands it over. -/
def dispatch (s : Shell) (line : List UInt8) : Shell :=
  match argv line with
  | [] => s
  | cmd :: args =>
    if cmd = "reboot".toList then s.cmdReboot
    else if cmd = "io".toList then s.ioDispatch args
    else s

end Shell

end IoEdgeHub
