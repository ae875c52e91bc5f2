/-
  Cartridge boards.

  A board answers the cartridge part of the address space in two steps.  It first says what lies
  behind an address, a `Target`, or that nothing does; only then is a byte loaded or stored there.
  A board that maps nothing at an address refuses the transaction.
-/
import Console6502.Journal

namespace Console6502

/-- What lies behind an address of a cartridge. -/
inductive Target where
  /-- An offset into the program ROM. -/
  | rom (offset : Nat)
  /-- An offset into the program RAM. -/
  | ram (offset : Nat)
  /-- A control register of the board, known by the address written to. -/
  | register (address : Word)
deriving DecidableEq, Repr

/-- What a board in the cartridge slot can do. -/
class Board (β : Type) where
  /-- The number of the board type. -/
  number : β → Nat
  /-- What a read at an address reaches, if anything. -/
  readTarget? : β → Word → Option Target
  /-- What a write at an address reaches, if anything. -/
  writeTarget? : β → Word → Option Target
  /-- The byte behind a target. -/
  load : β → Target → Byte
  /-- The board after a byte was stored behind a target. -/
  store : β → Target → Byte → β
  /-- The board with its registers in their first state; memory is kept. -/
  reset : β → β
  /-- What is worth noting about a store, told before it is made. -/
  notice? : β → Target → Byte → Option Notice

namespace Board

variable {β : Type} [Board β]

/-- The byte that a read at an address yields. -/
def read? (b : β) (a : Word) : Option Byte := (readTarget? b a).map (load b)

/-- The board after a write at an address. -/
def write? (b : β) (a : Word) (v : Byte) : Option β :=
  (writeTarget? b a).map fun t => store b t v

end Board

end Console6502
