/-
  What instructions do.

  An `Operation` says what happens, an `AddressingMode` to what.  Operations are grouped by their
  effect: a family such as "load a register" is one constructor with the register as an argument.
-/
import Console6502.Arithmetic
import Console6502.Cpu

namespace Console6502

/-- How an instruction names its operand. -/
inductive AddressingMode where
  | implied
  | accumulator
  | immediate
  | zeroPage
  | zeroPageX
  | zeroPageY
  | absolute
  | absoluteX
  | absoluteY
  /-- A pointer in memory, for jumps. -/
  | indirect
  /-- A pointer in page zero, found with X. -/
  | indexedIndirect
  /-- A pointer in page zero, to which Y is added. -/
  | indirectIndexed
  | relative
deriving DecidableEq, Repr

namespace AddressingMode

/-- The name in listings. -/
def name : AddressingMode → String
  | implied => "Implied"
  | accumulator => "Accumulator"
  | immediate => "Immediate"
  | zeroPage => "ZeroPage"
  | zeroPageX => "ZeroPageX"
  | zeroPageY => "ZeroPageY"
  | absolute => "Absolute"
  | absoluteX => "AbsoluteX"
  | absoluteY => "AbsoluteY"
  | indirect => "Indirect"
  | indexedIndirect => "IndexedIndirect"
  | indirectIndexed => "IndirectIndexed"
  | relative => "Relative"

/-- The bytes that follow the opcode. -/
def operandBytes : AddressingMode → Nat
  | implied | accumulator => 0
  | immediate | zeroPage | zeroPageX | zeroPageY | indexedIndirect | indirectIndexed | relative => 1
  | absolute | absoluteX | absoluteY | indirect => 2

end AddressingMode

/-- The effect of an instruction. -/
inductive Operation where
  | load (target : Register)
  | store (source : Register)
  /-- Combines the accumulator with the operand bit by bit. -/
  | logic (how : Logic)
  | add
  | subtract
  | compare (register : Register)
  /-- Tests bits of the operand under the accumulator as a mask. -/
  | bitTest
  /-- Modifies the accumulator or a byte of memory in place. -/
  | modify (how : Modifier)
  | increment (register : Register)
  | decrement (register : Register)
  | transfer (source target : Register)
  | stackToX
  | xToStack
  | pushA
  | pullA
  | pushStatus
  | pullStatus
  | jump
  | call
  | returnFromCall
  | returnFromInterrupt
  /-- The software interrupt. -/
  | brk
  /-- Jumps if a flag has this value. -/
  | branch (flag : Flag) (value : Bool)
  | setFlag (flag : Flag) (value : Bool)
  | nop
deriving DecidableEq, Repr

namespace Operation

/-- The three letters of an assembler. -/
def mnemonic : Operation → String
  | load r => "LD".push r.letter
  | store r => "ST".push r.letter
  | logic .or => "ORA"
  | logic .and => "AND"
  | logic .xor => "EOR"
  | add => "ADC"
  | subtract => "SBC"
  | compare .a => "CMP"
  | compare r => "CP".push r.letter
  | bitTest => "BIT"
  | modify .shiftLeft => "ASL"
  | modify .rotateLeft => "ROL"
  | modify .shiftRight => "LSR"
  | modify .rotateRight => "ROR"
  | modify .increment => "INC"
  | modify .decrement => "DEC"
  | increment r => "IN".push r.letter
  | decrement r => "DE".push r.letter
  | transfer s t => ("T".push s.letter).push t.letter
  | stackToX => "TSX"
  | xToStack => "TXS"
  | pushA => "PHA"
  | pullA => "PLA"
  | pushStatus => "PHP"
  | pullStatus => "PLP"
  | jump => "JMP"
  | call => "JSR"
  | returnFromCall => "RTS"
  | returnFromInterrupt => "RTI"
  | brk => "BRK"
  | branch .negative false => "BPL"
  | branch .negative true => "BMI"
  | branch .zero false => "BNE"
  | branch .zero true => "BEQ"
  | branch f v => ("B".push f.letter).push (if v then 'S' else 'C')
  | setFlag f v => (if v then "SE" else "CL").push f.letter
  | nop => "NOP"

/-- Whether an operation reads its operand and pays a cycle when indexing leaves the page. -/
def paysPageCross : Operation → Bool
  | load _ | logic _ | add | subtract | compare _ => true
  | _ => false

end Operation

end Console6502
