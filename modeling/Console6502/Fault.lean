/-
  What can go wrong.

  A bus transaction fails where nothing answers.  The processor stops on a failed transaction, on a
  failed read of the vector table, and on an opcode that is no instruction.  Each error is a cause
  with the address it happened at; the wording is in the two `message` functions.
-/
import Console6502.Hex
import Console6502.InterruptVector

namespace Console6502

/-- A bus transaction that nothing answered. -/
inductive BusFault where
  | read (address : Word)
  | write (address : Word)
deriving DecidableEq, Repr

/-- The message for a failed transaction. -/
def BusFault.message : BusFault → String
  | .read a => s!"bus read failed at ${Hex.word a}"
  | .write a => s!"bus write failed at ${Hex.word a}"

/-- Why the processor stopped. -/
inductive CpuFault where
  | read (address : Word)
  | write (address : Word)
  /-- A byte of the vector table could not be read. -/
  | vector (vector : InterruptVector) (address : Word)
  /-- The byte at this address is no official opcode. -/
  | illegalOpcode (opcode : Byte) (address : Word)
deriving DecidableEq, Repr

namespace CpuFault

/-- The processor's error for a failed transaction. -/
def ofBus : BusFault → CpuFault
  | .read a => .read a
  | .write a => .write a

/-- The message for a stopped processor. -/
def message : CpuFault → String
  | read a => s!"could not read byte at ${Hex.word a}"
  | write a => s!"could not write byte at ${Hex.word a}"
  | vector v a => s!"could not read {v.name} vector at ${Hex.word a}"
  | illegalOpcode op a => s!"illegal opcode ${Hex.byte op} at ${Hex.word a}"

end CpuFault

end Console6502
