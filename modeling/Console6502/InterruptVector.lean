/-
  The vector table: three words at the top of the address space that say where to go on.
-/
import Console6502.Word

namespace Console6502

/-- What sends the processor through the vector table.  BRK shares the vector of the IRQ line. -/
inductive InterruptVector where
  | nmi
  | reset
  | irq
deriving DecidableEq, Repr

namespace InterruptVector

/-- The address of the low byte; the high byte follows it. -/
def address : InterruptVector → Word
  | nmi => 0xFFFA
  | reset => 0xFFFC
  | irq => 0xFFFE

/-- The name in messages. -/
def name : InterruptVector → String
  | nmi => "Nmi"
  | reset => "Reset"
  | irq => "Irq"

end InterruptVector

end Console6502
