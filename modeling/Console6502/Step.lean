/-
  One step of the processor: an interrupt that is due, or else one instruction.

  An opcode that is no instruction is refused before anything changes.  The cycles of a step are
  charged last, so a step that fails costs nothing.
-/
import Console6502.Clock
import Console6502.Effect
import Console6502.Instruction.Timing

namespace Console6502

/-- The cycles that an operation takes beyond its base count: one for a read that left its page, one
    for a branch that is taken and another one if its target is in another page. -/
def Operation.extraCycles (operation : Operation) (operand : Operand) (status : Status) : Nat :=
  match operation with
  | .branch flag value => if status.get flag = value then 1 + operand.crossed.toNat else 0
  | _ => if operation.paysPageCross then operand.crossed.toNat else 0

/-- The line that a trace shows in front of an instruction. -/
def Instruction.traceLine (i : Instruction) (c : Cpu) : TraceLine where
  address := c.pc
  opcode := i.opcode
  mnemonic := i.operation.mnemonic
  a := c.a
  x := c.x
  y := c.y
  status := c.status.toByte
  sp := c.sp
  cycle := c.cycle

namespace Exec

variable {β : Type} [Board β]

/-- Reads the opcode at the program counter, which does not move yet. -/
def readInstruction : Exec β Instruction := do
  let pc := (← cpu).pc
  let opcode ← read pc
  match Instruction.decode? opcode with
  | some i => return i
  | none => throw (.illegalOpcode opcode pc)

/-- Executes an instruction and returns its cycles. -/
def execute (i : Instruction) : Exec β Nat := do
  note (.executing (i.traceLine (← cpu)))
  update (·.begin i.opcode)
  let operand ← locate i.mode
  let extra := i.operation.extraCycles operand (← cpu).status
  perform i.operation operand
  let cycles := Timing.ofOpcode i.opcode + extra
  update (·.charge cycles)
  return cycles

/-- Enters an interrupt that is due and returns its cycles. -/
def interrupt (v : InterruptVector) : Exec β Nat := do
  hardwareEntry v
  update fun c => (c.acknowledge v).charge Timing.interruptEntry
  return Timing.interruptEntry

/-- One step: returns the cycles it took. -/
def step : Exec β Nat := do
  match (← cpu).dueInterrupt with
  | some v => interrupt v
  | none => execute (← readInstruction)

/-- Steps until the counter has gone on by at least `budget` cycles and returns how far it has. -/
def runFor (budget : Nat) : Exec β Nat := do
  let start := (← cpu).cycle
  let _ ← Clock.Loop.runFrom { more := fun _ m => m.cpu.cycle - start < budget, action := step } 0
  return (← cpu).cycle - start

end Exec

end Console6502
