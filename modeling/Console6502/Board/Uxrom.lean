/-
  The banked board, number 2.

  The program ROM is a row of 16-kilobyte banks.  One of them shows at $8000-$BFFF and can be
  switched by a write anywhere in $8000-$FFFF; the last one always shows at $C000-$FFFF.  The bank
  number is held in eight bits, so at most 255 banks are in use.
-/
import Console6502.Board.Basic

namespace Console6502

/-- A board with a switchable bank of program ROM. -/
structure Uxrom where
  rom : Array Byte
  /-- The bank that shows at $8000. -/
  bank : Nat
deriving DecidableEq, Repr

/-- Why an image cannot go onto a banked board. -/
inductive ImageFault where
  /-- The image is not one or more whole banks. -/
  | partialBank
deriving DecidableEq, Repr

/-- The message for an unusable image. -/
def ImageFault.message : ImageFault → String
  | partialBank => "UxROM PRG must be a non-zero multiple of 16K"

namespace Uxrom

/-- The bytes in a bank. -/
def bankSize : Nat := 16384

/-- The board for a ROM image, its first bank selected. -/
def ofImage (rom : Array Byte) : Except ImageFault Uxrom :=
  if rom.size % bankSize = 0 ∧ ¬ rom.isEmpty then .ok ⟨rom, 0⟩ else .error .partialBank

/-- The number of banks in use: at least one, at most what eight bits can count. -/
def banks (b : Uxrom) : Nat := max 1 (min (b.rom.size / bankSize) 255)

/-- The offset into the ROM of an address, with this bank showing there. -/
def offset (bank : Nat) (a : Word) : Nat := bank * bankSize + a.toNat % bankSize

/-- What a read reaches. -/
def readTarget? (b : Uxrom) (a : Word) : Option Target :=
  if a < 0x8000 then none
  else if a < 0xC000 then some (.rom (offset b.bank a))
  else some (.rom (offset (b.banks - 1) a))

/-- What a write reaches: the bank register, from $8000 on. -/
def writeTarget? (_ : Uxrom) (a : Word) : Option Target :=
  if a < 0x8000 then none else some (.register a)

/-- The byte behind a target, zero where there is none. -/
def load (b : Uxrom) : Target → Byte
  | .rom i => b.rom.getD i 0
  | _ => 0

/-- The bank that a byte written to the register selects. -/
def selected (b : Uxrom) (v : Byte) : Nat := v.toNat % b.banks

/-- A store to the register switches the bank; every other store is lost. -/
def store (b : Uxrom) (t : Target) (v : Byte) : Uxrom :=
  match t with
  | .register _ => { b with bank := b.selected v }
  | _ => b

/-- A switch of the bank is worth noting. -/
def notice? (b : Uxrom) (t : Target) (v : Byte) : Option Notice :=
  match t with
  | .register _ => some (.bankSwitched (b.selected v))
  | _ => none

end Uxrom

instance : Board Uxrom where
  number _ := 2
  readTarget? := Uxrom.readTarget?
  writeTarget? := Uxrom.writeTarget?
  load := Uxrom.load
  store := Uxrom.store
  reset b := { b with bank := 0 }
  notice? := Uxrom.notice?

end Console6502
