/-
  Decoding opcodes.

  The low two bits of an opcode choose a class, the high three a row and the three between a
  column of it.  The accumulator class is regular; the two others are regular up to the columns that
  hold instructions without an operand.  What no rule covers is no instruction.
-/
import Console6502.Instruction.Operation

namespace Console6502

/-- The classes that the low two bits of an opcode tell apart. -/
inductive OpcodeClass where
  /-- Control flow, the Y register, stack and flags. -/
  | control
  /-- Arithmetic and logic on the accumulator. -/
  | accumulator
  /-- Shifts, counting in memory, and the X register. -/
  | modify
  /-- No official instruction ends in these bits. -/
  | illegal
deriving DecidableEq, Repr

/-- The class of an opcode. -/
def OpcodeClass.of (opcode : Byte) : OpcodeClass :=
  match (opcode.extractLsb' 0 2).toNat with
  | 0 => control
  | 1 => accumulator
  | 2 => modify
  | _ => illegal

/-- An opcode with its meaning. -/
structure Instruction where
  opcode : Byte
  operation : Operation
  mode : AddressingMode
deriving DecidableEq, Repr

namespace Instruction

/-- The operation of a row in the accumulator class. -/
def accumulatorRow : Nat → Operation
  | 0 => .logic .or
  | 1 => .logic .and
  | 2 => .logic .xor
  | 3 => .add
  | 4 => .store .a
  | 5 => .load .a
  | 6 => .compare .a
  | _ => .subtract

/-- The addressing mode of a column in the accumulator class. -/
def accumulatorColumn : Nat → AddressingMode
  | 0 => .indexedIndirect
  | 1 => .zeroPage
  | 2 => .immediate
  | 3 => .absolute
  | 4 => .indirectIndexed
  | 5 => .zeroPageX
  | 6 => .absoluteY
  | _ => .absoluteX

/-- The accumulator class: every row with every column, except a store to a constant. -/
def ofAccumulator? (row column : Nat) : Option (Operation × AddressingMode) :=
  if row = 4 ∧ column = 2 then none else some (accumulatorRow row, accumulatorColumn column)

/-- The operation of a row in the modify class. -/
def modifyRow : Nat → Operation
  | 0 => .modify .shiftLeft
  | 1 => .modify .rotateLeft
  | 2 => .modify .shiftRight
  | 3 => .modify .rotateRight
  | 4 => .store .x
  | 5 => .load .x
  | 6 => .modify .decrement
  | _ => .modify .increment

/-- The modify class.  The X register itself is indexed by Y. -/
def ofModify? (row column : Nat) : Option (Operation × AddressingMode) :=
  match column, row with
  | 0, 5 => some (.load .x, .immediate)
  | 1, _ => some (modifyRow row, .zeroPage)
  | 2, 4 => some (.transfer .x .a, .implied)
  | 2, 5 => some (.transfer .a .x, .implied)
  | 2, 6 => some (.decrement .x, .implied)
  | 2, 7 => some (.nop, .implied)
  | 2, _ => some (modifyRow row, .accumulator)
  | 3, _ => some (modifyRow row, .absolute)
  | 5, 4 => some (.store .x, .zeroPageY)
  | 5, 5 => some (.load .x, .zeroPageY)
  | 5, _ => some (modifyRow row, .zeroPageX)
  | 6, 4 => some (.xToStack, .implied)
  | 6, 5 => some (.stackToX, .implied)
  | 7, 4 => none
  | 7, 5 => some (.load .x, .absoluteY)
  | 7, _ => some (modifyRow row, .absoluteX)
  | _, _ => none

/-- The flag that a pair of rows branches on. -/
def branchFlag : Nat → Flag
  | 0 => .negative
  | 1 => .overflow
  | 2 => .carry
  | _ => .zero

/-- The control class. -/
def ofControl? (row column : Nat) : Option (Operation × AddressingMode) :=
  match column, row with
  | 0, 0 => some (.brk, .implied)
  | 0, 1 => some (.call, .absolute)
  | 0, 2 => some (.returnFromInterrupt, .implied)
  | 0, 3 => some (.returnFromCall, .implied)
  | 0, 5 => some (.load .y, .immediate)
  | 0, 6 => some (.compare .y, .immediate)
  | 0, 7 => some (.compare .x, .immediate)
  | 1, 1 => some (.bitTest, .zeroPage)
  | 1, 4 => some (.store .y, .zeroPage)
  | 1, 5 => some (.load .y, .zeroPage)
  | 1, 6 => some (.compare .y, .zeroPage)
  | 1, 7 => some (.compare .x, .zeroPage)
  | 2, 0 => some (.pushStatus, .implied)
  | 2, 1 => some (.pullStatus, .implied)
  | 2, 2 => some (.pushA, .implied)
  | 2, 3 => some (.pullA, .implied)
  | 2, 4 => some (.decrement .y, .implied)
  | 2, 5 => some (.transfer .a .y, .implied)
  | 2, 6 => some (.increment .y, .implied)
  | 2, 7 => some (.increment .x, .implied)
  | 3, 1 => some (.bitTest, .absolute)
  | 3, 2 => some (.jump, .absolute)
  | 3, 3 => some (.jump, .indirect)
  | 3, 4 => some (.store .y, .absolute)
  | 3, 5 => some (.load .y, .absolute)
  | 3, 6 => some (.compare .y, .absolute)
  | 3, 7 => some (.compare .x, .absolute)
  | 4, _ => some (.branch (branchFlag (row / 2)) (row % 2 == 1), .relative)
  | 5, 4 => some (.store .y, .zeroPageX)
  | 5, 5 => some (.load .y, .zeroPageX)
  | 6, 0 => some (.setFlag .carry false, .implied)
  | 6, 1 => some (.setFlag .carry true, .implied)
  | 6, 2 => some (.setFlag .interruptDisable false, .implied)
  | 6, 3 => some (.setFlag .interruptDisable true, .implied)
  | 6, 4 => some (.transfer .y .a, .implied)
  | 6, 5 => some (.setFlag .overflow false, .implied)
  | 6, 6 => some (.setFlag .decimal false, .implied)
  | 6, 7 => some (.setFlag .decimal true, .implied)
  | 7, 5 => some (.load .y, .absoluteX)
  | _, _ => none

/-- The operation and the mode of an opcode, if it is official. -/
def meaning? (opcode : Byte) : Option (Operation × AddressingMode) :=
  let row := (opcode.extractLsb' 5 3).toNat
  let column := (opcode.extractLsb' 2 3).toNat
  match OpcodeClass.of opcode with
  | .control => ofControl? row column
  | .accumulator => ofAccumulator? row column
  | .modify => ofModify? row column
  | .illegal => none

/-- The instruction of an opcode, if it is official. -/
def decode? (opcode : Byte) : Option Instruction :=
  (meaning? opcode).map fun (operation, mode) => { opcode, operation, mode }

/-- The length in bytes.  BRK keeps a padding byte behind its opcode. -/
def length (i : Instruction) : Nat :=
  match i.operation with
  | .brk => 2
  | _ => 1 + i.mode.operandBytes

/-- Mnemonic and mode, for a reader. -/
def text (i : Instruction) : String := i.operation.mnemonic ++ " (" ++ i.mode.name ++ ")"

end Instruction

end Console6502
