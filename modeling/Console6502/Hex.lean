/-
  Hexadecimal text: upper case, padded with zeros to the width of the value.
-/
import Console6502.Word

namespace Console6502.Hex

/-- The digit for a number below sixteen. -/
def digit (n : Nat) : Char := Char.ofNat (if n < 10 then 48 + n else 55 + n)

/-- Two digits for a byte. -/
def byte (b : Byte) : String := String.ofList [digit (b.toNat / 16), digit (b.toNat % 16)]

/-- Four digits for a word. -/
def word (w : Word) : String := byte (Word.high w) ++ byte (Word.low w)

example : word 0x0A9F = "0A9F" := by decide

end Console6502.Hex
