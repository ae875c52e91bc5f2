/-
  The state of the processor.

  Beside its registers the processor keeps the opcode and the operand bytes of its last
  instruction, a count of cycles, and the level of its two interrupt inputs: the NMI input latches a
  request until it is served, the IRQ line stays as the outside sets it.
-/
import Console6502.Settings
import Console6502.InterruptVector
import Console6502.Status

namespace Console6502

/-- The registers that instructions load, store and count with. -/
inductive Register where
  | a
  | x
  | y
deriving DecidableEq, Repr

/-- The letter of a register. -/
def Register.letter : Register → Char
  | a => 'A'
  | x => 'X'
  | y => 'Y'

/-- The state of the processor. -/
structure Cpu where
  a : Byte := 0
  x : Byte := 0
  y : Byte := 0
  sp : Byte := defaultResetStack
  pc : Word := 0
  status : Status := {}
  /-- The opcode of the last instruction begun. -/
  opcode : Byte := 0
  /-- Its first operand byte, zero if it has none. -/
  low : Byte := 0
  /-- Its second operand byte, zero if it has none. -/
  high : Byte := 0
  /-- Cycles since the last reset. -/
  cycle : Nat := 0
  nmiPending : Bool := false
  irqLine : Bool := false
deriving DecidableEq, Repr

namespace Cpu

/-- The value of a register. -/
def get (c : Cpu) : Register → Byte
  | .a => c.a
  | .x => c.x
  | .y => c.y

/-- Sets a register and no flag. -/
def put (c : Cpu) (r : Register) (v : Byte) : Cpu :=
  match r with
  | .a => { c with a := v }
  | .x => { c with x := v }
  | .y => { c with y := v }

/-- Sets a register, and zero and negative by its new value. -/
def load (c : Cpu) (r : Register) (v : Byte) : Cpu :=
  { c.put r v with status := c.status.ofResult v }

/-- Moves the program counter on. -/
def skip (c : Cpu) (n : Word) : Cpu := { c with pc := c.pc + n }

/-- The operand bytes as one word. -/
def operand (c : Cpu) : Word := Word.ofBytes c.low c.high

/-- The address in page one that a stack pointer means. -/
def stackCell (sp : Byte) : Word := Word.ofBytes sp 0x01

/-- The address that the next push writes. -/
def pushAddress (c : Cpu) : Word := stackCell c.sp

/-- Adds to the count of cycles. -/
def charge (c : Cpu) (n : Nat) : Cpu := { c with cycle := c.cycle + n }

/-- Latches a request for an NMI. -/
def latchNmi (c : Cpu) : Cpu := { c with nmiPending := true }

/-- Sets the level of the IRQ line. -/
def driveIrq (c : Cpu) (asserted : Bool) : Cpu := { c with irqLine := asserted }

/-- The interrupt that has to be entered before the next instruction: a latched NMI first, then an
    asserted IRQ line unless interrupts are disabled. -/
def dueInterrupt (c : Cpu) : Option InterruptVector :=
  if c.nmiPending then some .nmi
  else if c.irqLine && !c.status.interruptDisable then some .irq
  else none

/-- The state after an interrupt was entered: an NMI clears its latch, an IRQ leaves its line. -/
def acknowledge (c : Cpu) : InterruptVector → Cpu
  | .nmi => { c with nmiPending := false }
  | _ => c

/-- The state with a new instruction begun, the program counter behind its opcode. -/
def begin (c : Cpu) (opcode : Byte) : Cpu :=
  { c with opcode, low := 0, high := 0, pc := c.pc + 1 }

/-- The state after the reset sequence: the IRQ line is all that is kept. -/
def restart (c : Cpu) (pc : Word) (sp : Byte) : Cpu := { pc, sp, irqLine := c.irqLine }

end Cpu

end Console6502
