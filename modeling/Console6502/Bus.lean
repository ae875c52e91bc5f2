/-
  The bus: the only way to memory.

  Each address belongs to a region and each region to a storage.  RAM and the register windows
  always answer; the test-mode window reads as zero and drops what is written; the cartridge answers
  where a board is present and maps the address, and refuses otherwise.
-/
import Console6502.Board.Basic
import Console6502.Memory.Region
import Console6502.Memory.Window

namespace Console6502

/-- Memory and registers on the bus, and the board in the cartridge slot. -/
structure Bus (β : Type) where
  ram : Ram := .zero
  picture : PictureRegisters := .zero
  sound : SoundRegisters := .zero
  board : Option β := none
deriving DecidableEq

namespace Bus

variable {β : Type} [Board β]

/-- The byte at an address. -/
def read (b : Bus β) (a : Word) : Except BusFault Byte :=
  match AddressRegion.of a with
  | .ram => .ok (b.ram.read a)
  | .picture => .ok (b.picture.read a)
  | .sound => .ok (b.sound.read a)
  | .testMode => .ok 0
  | .cartridge =>
    match b.board.bind (Board.read? · a) with
    | some v => .ok v
    | none => .error (.read a)

/-- The bus after a byte was written to an address. -/
def write (b : Bus β) (a : Word) (v : Byte) : Except BusFault (Bus β) :=
  match AddressRegion.of a with
  | .ram => .ok { b with ram := b.ram.write a v }
  | .picture => .ok { b with picture := b.picture.write a v }
  | .sound => .ok { b with sound := b.sound.write a v }
  | .testMode => .ok b
  | .cartridge =>
    match b.board.bind (Board.write? · a v) with
    | some board => .ok { b with board := some board }
    | none => .error (.write a)

/-- What is worth noting about a read. -/
def readNotice? (a : Word) : Option Notice :=
  match AddressRegion.of a with
  | .testMode => some (.testRead a)
  | _ => none

/-- What is worth noting about a write. -/
def writeNotice? (b : Bus β) (a : Word) (v : Byte) : Option Notice :=
  match AddressRegion.of a with
  | .testMode => some (.testWrite a v)
  | .cartridge => do
    let board ← b.board
    let target ← Board.writeTarget? board a
    Board.notice? board target v
  | _ => none

/-- Clears RAM and the register windows and resets the board, which keeps its memory. -/
def reset (b : Bus β) : Bus β where
  board := b.board.map Board.reset

end Bus

end Console6502
