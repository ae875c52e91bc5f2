/-
  The opcode table.

  The decoder works out what an opcode means from its bits.  Here stands what it should come to, as
  a data sheet has it: the 56 mnemonics, and for each of them its opcodes with their modes
  (`Mnemonic.encodings`).  Nothing of the decoder occurs in it.

  `Instruction.meaning?_eq` says that the decoder and the table agree on all 256 bytes, on those that
  are no instruction as well.
-/
import Console6502.Proofs.StepPlan

namespace Console6502

/-- The names of the instructions. -/
inductive Mnemonic where
  | lda | ldx | ldy | sta | stx | sty
  | ora | and | eor | adc | sbc | cmp | cpx | cpy | bit
  | asl | rol | lsr | ror | inc | dec
  | inx | iny | dex | dey | tax | tay | txa | tya | tsx | txs
  | pha | php | pla | plp
  | jmp | jsr | rts | rti | brk
  | bpl | bmi | bvc | bvs | bcc | bcs | bne | beq
  | clc | sec | cli | sei | clv | cld | sed
  | nop
deriving DecidableEq, Repr

namespace Mnemonic

/-- All mnemonics. -/
def all : List Mnemonic := [
  lda, ldx, ldy, sta, stx, sty, ora, and, eor, adc, sbc, cmp, cpx, cpy, bit,
  asl, rol, lsr, ror, inc, dec, inx, iny, dex, dey, tax, tay, txa, tya, tsx, txs,
  pha, php, pla, plp, jmp, jsr, rts, rti, brk,
  bpl, bmi, bvc, bvs, bcc, bcs, bne, beq, clc, sec, cli, sei, clv, cld, sed, nop]

/-- The opcodes of a mnemonic, each with its addressing mode. -/
def encodings : Mnemonic → List (Byte × AddressingMode)
  | lda => [(0xA9, .immediate), (0xA5, .zeroPage), (0xB5, .zeroPageX), (0xAD, .absolute),
      (0xBD, .absoluteX), (0xB9, .absoluteY), (0xA1, .indexedIndirect), (0xB1, .indirectIndexed)]
  | ldx => [(0xA2, .immediate), (0xA6, .zeroPage), (0xB6, .zeroPageY), (0xAE, .absolute),
      (0xBE, .absoluteY)]
  | ldy => [(0xA0, .immediate), (0xA4, .zeroPage), (0xB4, .zeroPageX), (0xAC, .absolute),
      (0xBC, .absoluteX)]
  | sta => [(0x85, .zeroPage), (0x95, .zeroPageX), (0x8D, .absolute), (0x9D, .absoluteX),
      (0x99, .absoluteY), (0x81, .indexedIndirect), (0x91, .indirectIndexed)]
  | stx => [(0x86, .zeroPage), (0x96, .zeroPageY), (0x8E, .absolute)]
  | sty => [(0x84, .zeroPage), (0x94, .zeroPageX), (0x8C, .absolute)]
  | ora => [(0x09, .immediate), (0x05, .zeroPage), (0x15, .zeroPageX), (0x0D, .absolute),
      (0x1D, .absoluteX), (0x19, .absoluteY), (0x01, .indexedIndirect), (0x11, .indirectIndexed)]
  | and => [(0x29, .immediate), (0x25, .zeroPage), (0x35, .zeroPageX), (0x2D, .absolute),
      (0x3D, .absoluteX), (0x39, .absoluteY), (0x21, .indexedIndirect), (0x31, .indirectIndexed)]
  | eor => [(0x49, .immediate), (0x45, .zeroPage), (0x55, .zeroPageX), (0x4D, .absolute),
      (0x5D, .absoluteX), (0x59, .absoluteY), (0x41, .indexedIndirect), (0x51, .indirectIndexed)]
  | adc => [(0x69, .immediate), (0x65, .zeroPage), (0x75, .zeroPageX), (0x6D, .absolute),
      (0x7D, .absoluteX), (0x79, .absoluteY), (0x61, .indexedIndirect), (0x71, .indirectIndexed)]
  | sbc => [(0xE9, .immediate), (0xE5, .zeroPage), (0xF5, .zeroPageX), (0xED, .absolute),
      (0xFD, .absoluteX), (0xF9, .absoluteY), (0xE1, .indexedIndirect), (0xF1, .indirectIndexed)]
  | cmp => [(0xC9, .immediate), (0xC5, .zeroPage), (0xD5, .zeroPageX), (0xCD, .absolute),
      (0xDD, .absoluteX), (0xD9, .absoluteY), (0xC1, .indexedIndirect), (0xD1, .indirectIndexed)]
  | cpx => [(0xE0, .immediate), (0xE4, .zeroPage), (0xEC, .absolute)]
  | cpy => [(0xC0, .immediate), (0xC4, .zeroPage), (0xCC, .absolute)]
  | bit => [(0x24, .zeroPage), (0x2C, .absolute)]
  | asl => [(0x0A, .accumulator), (0x06, .zeroPage), (0x16, .zeroPageX), (0x0E, .absolute),
      (0x1E, .absoluteX)]
  | rol => [(0x2A, .accumulator), (0x26, .zeroPage), (0x36, .zeroPageX), (0x2E, .absolute),
      (0x3E, .absoluteX)]
  | lsr => [(0x4A, .accumulator), (0x46, .zeroPage), (0x56, .zeroPageX), (0x4E, .absolute),
      (0x5E, .absoluteX)]
  | ror => [(0x6A, .accumulator), (0x66, .zeroPage), (0x76, .zeroPageX), (0x6E, .absolute),
      (0x7E, .absoluteX)]
  | inc => [(0xE6, .zeroPage), (0xF6, .zeroPageX), (0xEE, .absolute), (0xFE, .absoluteX)]
  | dec => [(0xC6, .zeroPage), (0xD6, .zeroPageX), (0xCE, .absolute), (0xDE, .absoluteX)]
  | inx => [(0xE8, .implied)]
  | iny => [(0xC8, .implied)]
  | dex => [(0xCA, .implied)]
  | dey => [(0x88, .implied)]
  | tax => [(0xAA, .implied)]
  | tay => [(0xA8, .implied)]
  | txa => [(0x8A, .implied)]
  | tya => [(0x98, .implied)]
  | tsx => [(0xBA, .implied)]
  | txs => [(0x9A, .implied)]
  | pha => [(0x48, .implied)]
  | php => [(0x08, .implied)]
  | pla => [(0x68, .implied)]
  | plp => [(0x28, .implied)]
  | jmp => [(0x4C, .absolute), (0x6C, .indirect)]
  | jsr => [(0x20, .absolute)]
  | rts => [(0x60, .implied)]
  | rti => [(0x40, .implied)]
  | brk => [(0x00, .implied)]
  | bpl => [(0x10, .relative)]
  | bmi => [(0x30, .relative)]
  | bvc => [(0x50, .relative)]
  | bvs => [(0x70, .relative)]
  | bcc => [(0x90, .relative)]
  | bcs => [(0xB0, .relative)]
  | bne => [(0xD0, .relative)]
  | beq => [(0xF0, .relative)]
  | clc => [(0x18, .implied)]
  | sec => [(0x38, .implied)]
  | cli => [(0x58, .implied)]
  | sei => [(0x78, .implied)]
  | clv => [(0xB8, .implied)]
  | cld => [(0xD8, .implied)]
  | sed => [(0xF8, .implied)]
  | nop => [(0xEA, .implied)]

/-- The entry of the table at an opcode, if there is one. -/
def ofOpcode? (opcode : Byte) : Option (Mnemonic × AddressingMode) :=
  all.findSome? fun what =>
    (what.encodings.find? fun entry => entry.1 == opcode).map fun entry => (what, entry.2)

/-- The operation that the executor performs under this name. -/
def operation : Mnemonic → Operation
  | lda => .load .a
  | ldx => .load .x
  | ldy => .load .y
  | sta => .store .a
  | stx => .store .x
  | sty => .store .y
  | ora => .logic .or
  | and => .logic .and
  | eor => .logic .xor
  | adc => .add
  | sbc => .subtract
  | cmp => .compare .a
  | cpx => .compare .x
  | cpy => .compare .y
  | bit => .bitTest
  | asl => .modify .shiftLeft
  | rol => .modify .rotateLeft
  | lsr => .modify .shiftRight
  | ror => .modify .rotateRight
  | inc => .modify .increment
  | dec => .modify .decrement
  | inx => .increment .x
  | iny => .increment .y
  | dex => .decrement .x
  | dey => .decrement .y
  | tax => .transfer .a .x
  | tay => .transfer .a .y
  | txa => .transfer .x .a
  | tya => .transfer .y .a
  | tsx => .stackToX
  | txs => .xToStack
  | pha => .pushA
  | php => .pushStatus
  | pla => .pullA
  | plp => .pullStatus
  | jmp => .jump
  | jsr => .call
  | rts => .returnFromCall
  | rti => .returnFromInterrupt
  | brk => .brk
  | bpl => .branch .negative false
  | bmi => .branch .negative true
  | bvc => .branch .overflow false
  | bvs => .branch .overflow true
  | bcc => .branch .carry false
  | bcs => .branch .carry true
  | bne => .branch .zero false
  | beq => .branch .zero true
  | clc => .setFlag .carry false
  | sec => .setFlag .carry true
  | cli => .setFlag .interruptDisable false
  | sei => .setFlag .interruptDisable true
  | clv => .setFlag .overflow false
  | cld => .setFlag .decimal false
  | sed => .setFlag .decimal true
  | nop => .nop

/-- No opcode stands in two places. -/
theorem ofOpcode?_eq_some_iff {opcode : Byte} {what : Mnemonic} {mode : AddressingMode} :
    ofOpcode? opcode = some (what, mode) ↔ (opcode, mode) ∈ what.encodings := by
  constructor
  · intro h
    obtain ⟨what', -, hfound⟩ := List.exists_of_findSome?_eq_some h
    obtain ⟨entry, hentry, heq⟩ := Option.map_eq_some_iff.mp hfound
    obtain ⟨rfl, rfl⟩ := Prod.mk.inj heq
    have hopcode : entry.1 = opcode := by simpa using List.find?_some hentry
    rw [← hopcode]
    exact List.mem_of_find?_eq_some hentry
  · intro h
    have hall : ∀ what ∈ all, ∀ entry ∈ what.encodings,
        ofOpcode? entry.1 = some (what, entry.2) := by
      decide +kernel
    have hmem : what ∈ all := by
      cases what <;> decide
    exact hall what hmem _ h

end Mnemonic

namespace Instruction

/-- The decoder agrees with the table on every byte. -/
theorem meaning?_eq (opcode : Byte) :
    meaning? opcode =
      (Mnemonic.ofOpcode? opcode).map fun (what, mode) => (what.operation, mode) := by
  revert opcode
  decide +kernel

/-- The instruction of an opcode that the table has. -/
theorem decode?_of_mem {opcode : Byte} {what : Mnemonic} {mode : AddressingMode}
    (h : (opcode, mode) ∈ what.encodings) :
    decode? opcode = some ⟨opcode, what.operation, mode⟩ := by
  rw [decode?, meaning?_eq, Mnemonic.ofOpcode?_eq_some_iff.mpr h]
  rfl

theorem decode?_eq_none_iff {opcode : Byte} :
    decode? opcode = none ↔ Mnemonic.ofOpcode? opcode = none := by
  rw [decode?, meaning?_eq, Option.map_eq_none_iff, Option.map_eq_none_iff]

end Instruction

end Console6502
