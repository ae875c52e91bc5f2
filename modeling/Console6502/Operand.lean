/-
  Operands: what an addressing mode denotes.

  Locating an operand takes the operand bytes behind the opcode and follows the pointers of the
  indirect modes.  Pointers in page zero never leave it, and the pointer of an indirect jump never
  leaves its page.
-/
import Console6502.Instruction.Operation
import Console6502.Machine

namespace Console6502

/-- What an instruction works on. -/
inductive Operand where
  | implied
  | accumulator
  | immediate (value : Byte)
  /-- A place in memory, and whether getting there left a page. -/
  | memory (address : Word) (crossed : Bool)
deriving DecidableEq, Repr

namespace Operand

/-- The address of an operand in memory. -/
def address? : Operand → Option Word
  | memory a _ => some a
  | _ => none

/-- Whether getting to the operand left a page. -/
def crossed : Operand → Bool
  | memory _ c => c
  | _ => false

/-- The place at an address that was given as such. -/
def place (a : Word) : Operand := memory a false

/-- The place that is reached at `target` from `source`. -/
def reached (source target : Word) : Operand := memory target (Word.leavesPage source target)

/-- The place `index` bytes behind `base`. -/
def indexed (base : Word) (index : Byte) : Operand := reached base (base + Word.ofByte index)

/-- The place a signed distance away from `next`. -/
def relative (next : Word) (distance : Byte) : Operand :=
  reached next (next + Word.ofSigned distance)

end Operand

namespace Exec

variable {β : Type} [Board β]

/-- The word that lies in page zero, its low byte at `pointer`; the cell behind the last one is the
    first. -/
def pointerAt (pointer : Byte) : Exec β Word := do
  let low ← read (Word.ofByte pointer)
  let high ← read (Word.ofByte (pointer + 1))
  return Word.ofBytes low high

/-- The target of an indirect jump.  Its high byte comes from the page of its low byte. -/
def jumpTarget (pointer : Word) : Exec β Word := do
  let low ← read pointer
  let high ← read (Word.ofBytes (Word.low pointer + 1) (Word.high pointer))
  return Word.ofBytes low high

/-- Takes the operand bytes of a mode and finds what they denote. -/
def locate : AddressingMode → Exec β Operand
  | .implied => return .implied
  | .accumulator => return .accumulator
  | .immediate => return .immediate (← operandByte)
  | .zeroPage => return .place (Word.ofByte (← operandByte))
  | .zeroPageX => do
    let v ← operandByte
    return .place (Word.ofByte (v + (← cpu).x))
  | .zeroPageY => do
    let v ← operandByte
    return .place (Word.ofByte (v + (← cpu).y))
  | .absolute => return .place (← operandPair)
  | .absoluteX => do
    let base ← operandPair
    return .indexed base (← cpu).x
  | .absoluteY => do
    let base ← operandPair
    return .indexed base (← cpu).y
  | .indirect => do
    let pointer ← operandPair
    return .place (← jumpTarget pointer)
  | .indexedIndirect => do
    let v ← operandByte
    return .place (← pointerAt (v + (← cpu).x))
  | .indirectIndexed => do
    let pointer ← operandByte
    let base ← pointerAt pointer
    return .indexed base (← cpu).y
  | .relative => do
    let distance ← operandByte
    return .relative (← cpu).pc distance

/-- The byte that an operand denotes. -/
def value : Operand → Exec β Byte
  | .implied => return 0
  | .accumulator => return (← cpu).a
  | .immediate v => return v
  | .memory a _ => read a

end Exec

end Console6502
