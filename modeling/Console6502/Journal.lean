/-
  The journal: what a machine did, as data.

  Three kinds of thing are recorded: the transactions on the bus, the notices that an observer may
  want to log, and the calls of the handler for fatal errors.  A journal lists its events newest
  first, so that recording one is a step in front; `accesses`, `notices` and `reports` give each
  kind back in the order of time.
-/
import Console6502.Fault

namespace Console6502

/-- A transaction on the bus, with its outcome. -/
inductive Access where
  /-- A read and the byte that answered it, if one did. -/
  | read (address : Word) (answer : Option Byte)
  /-- A write and whether it was accepted. -/
  | write (address : Word) (value : Byte) (accepted : Bool)
deriving DecidableEq, Repr

/-- How urgent a notice is. -/
inductive Level where
  | error
  | warn
  | debug
  | trace
deriving DecidableEq, Repr

/-- The name of a level in a log. -/
def Level.name : Level → String
  | error => "ERROR"
  | warn => "WARN"
  | debug => "DEBUG"
  | trace => "TRACE"

/-- The registers in front of an instruction. -/
structure TraceLine where
  address : Word
  opcode : Byte
  mnemonic : String
  a : Byte
  x : Byte
  y : Byte
  status : Byte
  sp : Byte
  cycle : Nat
deriving DecidableEq, Repr

/-- The line of a trace: address, opcode, mnemonic, registers and the cycle counter. -/
def TraceLine.text (l : TraceLine) : String :=
  s!"{Hex.word l.address}  {Hex.byte l.opcode}  {l.mnemonic}  A:{Hex.byte l.a} X:{Hex.byte l.x} " ++
  s!"Y:{Hex.byte l.y} P:{Hex.byte l.status} SP:{Hex.byte l.sp} CYC:{l.cycle}"

/-- What is worth a line in a log. -/
inductive Notice where
  /-- A board with this number went into the cartridge slot. -/
  | attached (board : Nat)
  | testRead (address : Word)
  | testWrite (address : Word) (value : Byte)
  /-- The switchable bank of a banked board was selected. -/
  | bankSwitched (bank : Nat)
  | reset (pc : Word) (sp : Byte)
  | interrupted (vector : InterruptVector) (source target : Word)
  | broke (target : Word)
  | executing (line : TraceLine)
  | fatal (error : CpuFault) (pc : Word)
deriving DecidableEq, Repr

namespace Notice

/-- The level that a notice is logged at. -/
def level : Notice → Level
  | fatal .. => .error
  | testRead .. | testWrite .. => .warn
  | attached .. | bankSwitched .. | reset .. | interrupted .. | broke .. => .debug
  | executing .. => .trace

/-- The wording of a notice. -/
def message : Notice → String
  | attached board => s!"attached mapper {board}"
  | testRead a => s!"read from disabled test-mode register ${Hex.word a}"
  | testWrite a v => s!"write ${Hex.byte v} to disabled test-mode register ${Hex.word a} dropped"
  | bankSwitched bank => s!"uxrom: switched $8000 bank to {bank}"
  | reset pc sp => s!"reset: pc=${Hex.word pc} sp=${Hex.byte sp}"
  | interrupted v source target =>
      s!"{v.name} taken at ${Hex.word source} -> ${Hex.word target}"
  | broke target => s!"BRK -> ${Hex.word target}"
  | executing line => line.text
  | fatal error pc => s!"fatal: {error.message} (pc=${Hex.word pc})"

/-- The record that a log keeps of a notice. -/
def text (n : Notice) : String := n.level.name ++ " " ++ n.message

end Notice

/-- One entry of a journal. -/
inductive Event where
  | access (access : Access)
  | notice (notice : Notice)
  /-- The board in the cartridge slot was reset. -/
  | boardReset
  /-- The handler for fatal errors was called.  A handler is known by its label; without one the
      call is heard by nobody. -/
  | fatal (handler : Option String) (error : CpuFault)
deriving DecidableEq, Repr

/-- Events, newest first. -/
abbrev Journal := List Event

namespace Journal

/-- The transactions, oldest first. -/
def accesses (j : Journal) : List Access :=
  j.reverse.filterMap fun
    | .access a => some a
    | _ => none

/-- The notices, oldest first. -/
def notices (j : Journal) : List Notice :=
  j.reverse.filterMap fun
    | .notice n => some n
    | _ => none

/-- The calls of a fatal handler, oldest first. -/
def fatals (j : Journal) : List (Option String × CpuFault) :=
  j.reverse.filterMap fun
    | .fatal handler error => some (handler, error)
    | _ => none

/-- What the handlers said: the label of each that was called and the message it was given. -/
def reports (j : Journal) : List String :=
  j.fatals.filterMap fun (handler, error) =>
    handler.map fun label => label ++ ": " ++ error.message

end Journal

end Console6502
