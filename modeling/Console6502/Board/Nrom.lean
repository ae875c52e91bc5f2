/-
  The plain board, number 0.

  Program ROM of any size repeats through $8000-$FFFF, program RAM through $6000-$7FFF.  There are
  no registers: the ROM refuses writes, and an absent memory refuses everything.
-/
import Console6502.Board.Basic
import Console6502.Board.Wrap

namespace Console6502

/-- A board with fixed program ROM and optional program RAM. -/
structure Nrom where
  rom : Array Byte
  ram : Array Byte
deriving DecidableEq, Repr

namespace Nrom

/-- The board for a ROM image, with this much RAM, all zero. -/
def ofImage (rom : Array Byte) (ramSize : Nat) : Nrom := ⟨rom, Array.replicate ramSize 0⟩

/-- Whether the ROM is a single bank of 16 kilobytes. -/
def isSingleBank (b : Nrom) : Bool := b.rom.size == 16384

/-- Whether there is program RAM. -/
def hasRam (b : Nrom) : Bool := !b.ram.isEmpty

/-- What an address of the RAM window reaches. -/
def ramTarget? (b : Nrom) (a : Word) : Option Target :=
  if b.hasRam then some (.ram (wrap b.ram.size (a.toNat - 0x6000))) else none

/-- What an address of the ROM window reaches. -/
def romTarget? (b : Nrom) (a : Word) : Option Target :=
  if b.rom.isEmpty then none else some (.rom (wrap b.rom.size (a.toNat - 0x8000)))

/-- What a read reaches. -/
def readTarget? (b : Nrom) (a : Word) : Option Target :=
  if a < 0x6000 then none
  else if a < 0x8000 then b.ramTarget? a
  else b.romTarget? a

/-- What a write reaches: nothing but RAM. -/
def writeTarget? (b : Nrom) (a : Word) : Option Target :=
  if a < 0x6000 then none
  else if a < 0x8000 then b.ramTarget? a
  else none

/-- The byte behind a target, zero where there is none. -/
def load (b : Nrom) : Target → Byte
  | .rom i => b.rom.getD i 0
  | .ram i => b.ram.getD i 0
  | .register _ => 0

/-- Stores into RAM; every other store is lost. -/
def store (b : Nrom) (t : Target) (v : Byte) : Nrom :=
  match t with
  | .ram i => { b with ram := b.ram.setIfInBounds i v }
  | _ => b

end Nrom

instance : Board Nrom where
  number _ := 0
  readTarget? := Nrom.readTarget?
  writeTarget? := Nrom.writeTarget?
  load := Nrom.load
  store := Nrom.store
  reset b := b
  notice? _ _ _ := none

end Console6502
