/-
  Interrupts and the reset sequence.

  Both go through the vector table, and both read it before they touch anything else: where the
  table cannot be read, the processor stays as it was.  Entering an interrupt pushes the program
  counter and the status, disables interrupts and goes on at the vector.
-/
import Console6502.Machine

namespace Console6502.Exec

variable {β : Type} [Board β]

/-- Reads one byte of the vector table; the error of a failed read names the vector. -/
def vectorByte (v : InterruptVector) (a : Word) : Exec β Byte :=
  (Machine.read a).adaptExcept fun _ => .vector v a

/-- Reads a vector. -/
def vectorTarget (v : InterruptVector) : Exec β Word := do
  let low ← vectorByte v v.address
  let high ← vectorByte v (v.address + 1)
  return Word.ofBytes low high

/-- Runs the reset sequence with this stack pointer. -/
def reset (sp : Byte) : Exec β Unit := do
  let pc ← vectorTarget .reset
  update (·.restart pc sp)
  note (.reset pc sp)

/-- Enters an interrupt.  The break bit of the pushed status is set for the software interrupt. -/
def enter (v : InterruptVector) (brk : Bool) : Exec β Unit := do
  let target ← vectorTarget v
  pushWord (← cpu).pc
  push ((← cpu).status.stackByte brk)
  update fun c => { c with status := c.status.set .interruptDisable true, pc := target }

/-- Enters an interrupt that came from outside. -/
def hardwareEntry (v : InterruptVector) : Exec β Unit := do
  let source := (← cpu).pc
  enter v false
  note (.interrupted v source (← cpu).pc)

/-- The software interrupt: skips the padding byte and enters through the IRQ vector. -/
def softwareEntry : Exec β Unit := do
  update (·.skip 1)
  enter .irq true
  note (.broke (← cpu).pc)

end Console6502.Exec
