/-
  The machine: processor, bus and journal together.

  Work on a machine is a value of `Exec`, which threads the machine through and may stop with an
  error of the processor.  A failure keeps what was done before it, so the machine of a failed run
  is as real as that of a successful one.  Every transaction on the bus goes through `Machine.read`
  and `Machine.write`, which also enter it into the journal.
-/
import Console6502.Bus
import Console6502.Cpu

namespace Console6502

/-- Processor, bus, and what has happened so far. -/
structure Machine (β : Type) where
  cpu : Cpu := {}
  bus : Bus β := {}
  journal : Journal := []
deriving DecidableEq, Inhabited

namespace Machine

variable {β : Type} [Board β]

/-- Enters a notice into the journal. -/
def note (m : Machine β) (n : Notice) : Machine β := { m with journal := .notice n :: m.journal }

/-- Enters a transaction into the journal, and behind it what is worth noting about it. -/
def record (m : Machine β) (access : Access) (notice : Option Notice) : Machine β :=
  let journal := .access access :: m.journal
  match notice with
  | none => { m with journal }
  | some n => { m with journal := .notice n :: journal }

/-- Reads a byte from the bus. -/
def read (a : Word) : EStateM BusFault (Machine β) Byte := fun m =>
  match m.bus.read a with
  | .ok v => .ok v (m.record (.read a (some v)) (Bus.readNotice? a))
  | .error e => .error e (m.record (.read a none) (Bus.readNotice? a))

/-- Writes a byte to the bus. -/
def write (a : Word) (v : Byte) : EStateM BusFault (Machine β) Unit := fun m =>
  match m.bus.write a v with
  | .ok bus => .ok () { m.record (.write a v true) (m.bus.writeNotice? a v) with bus }
  | .error e => .error e (m.record (.write a v false) (m.bus.writeNotice? a v))

/-- Reads a word: the low byte at the address, the high byte behind it. -/
def wordAt (a : Word) : EStateM BusFault (Machine β) Word := do
  let low ← read a
  let high ← read (a + 1)
  return Word.ofBytes low high

/-- Writes bytes one behind the other, up to the first that is refused. -/
def writeBytes (a : Word) : List Byte → EStateM BusFault (Machine β) Unit
  | [] => pure ()
  | v :: rest => do
    write a v
    writeBytes (a + 1) rest

/-- Looks at `n` bytes one behind the other; there is none where a read is refused. -/
def readBytes (a : Word) : Nat → EStateM BusFault (Machine β) (List (Option Byte))
  | 0 => pure []
  | n + 1 => do
    let v ← tryCatch (some <$> read a) fun _ => pure none
    let rest ← readBytes (a + 1) n
    return v :: rest

/-- Puts a board into the cartridge slot. -/
def attach (m : Machine β) (board : β) : Machine β :=
  { m with bus := { m.bus with board := some board } }.note (.attached (Board.number board))

/-- A machine with this board in the slot, or with an empty slot. -/
def ofBoard : Option β → Machine β
  | some board => attach {} board
  | none => {}

/-- Resets the bus. -/
def resetBus (m : Machine β) : Machine β :=
  let journal := if m.bus.board.isSome then .boardReset :: m.journal else m.journal
  { m with bus := m.bus.reset, journal }

end Machine

/-- Work on a machine that the processor may fail at. -/
abbrev Exec (β : Type) := EStateM CpuFault (Machine β)

namespace Exec

variable {β : Type} [Board β]

/-- The processor as it is. -/
def cpu : Exec β Cpu := fun m => .ok m.cpu m

/-- Changes the processor. -/
def update (f : Cpu → Cpu) : Exec β Unit := fun m => .ok () { m with cpu := f m.cpu }

/-- Enters a notice into the journal. -/
def note (n : Notice) : Exec β Unit := fun m => .ok () (m.note n)

/-- Reads a byte for the processor. -/
def read (a : Word) : Exec β Byte := (Machine.read a).adaptExcept CpuFault.ofBus

/-- Writes a byte for the processor. -/
def write (a : Word) (v : Byte) : Exec β Unit := (Machine.write a v).adaptExcept CpuFault.ofBus

/-- Takes the byte at the program counter.  The counter moves on only if there is one. -/
def nextByte : Exec β Byte := do
  let v ← read (← cpu).pc
  update (·.skip 1)
  return v

/-- Takes a one-byte operand. -/
def operandByte : Exec β Byte := do
  let v ← nextByte
  update fun c => { c with low := v }
  return v

/-- Takes a two-byte operand. -/
def operandPair : Exec β Word := do
  let low ← operandByte
  let high ← nextByte
  update fun c => { c with high := high }
  return Word.ofBytes low high

/-- Pushes a byte.  The stack pointer moves down only if the write is accepted. -/
def push (v : Byte) : Exec β Unit := do
  write (← cpu).pushAddress v
  update fun c => { c with sp := c.sp - 1 }

/-- Pulls the byte above the stack pointer, which moves up if the byte is there. -/
def pull : Exec β Byte := do
  let sp := (← cpu).sp + 1
  let v ← read (Cpu.stackCell sp)
  update fun c => { c with sp := sp }
  return v

/-- Pushes a word, high byte first, so that it lies in memory low byte first. -/
def pushWord (w : Word) : Exec β Unit := do
  push (Word.high w)
  push (Word.low w)

/-- Pulls a word, low byte first. -/
def pullWord : Exec β Word := do
  let low ← pull
  let high ← pull
  return Word.ofBytes low high

end Exec

end Console6502
