/-
  How long instructions take.

  Every opcode has a base count; stores and modifications already hold their fixed extra cycle in
  it.  Two things add to the base: a read whose index leaves the page, and a branch that is taken.
-/
import Console6502.Instruction.Decode

namespace Console6502

/-- The base counts of all opcodes, by high and then by low digit; zero where there is no
    instruction. -/
def Timing.table : Vector (Vector Nat 16) 16 := #v[
  #v[7, 6, 0, 0, 0, 3, 5, 0, 3, 2, 2, 0, 0, 4, 6, 0],
  #v[2, 5, 0, 0, 0, 4, 6, 0, 2, 4, 0, 0, 0, 4, 7, 0],
  #v[6, 6, 0, 0, 3, 3, 5, 0, 4, 2, 2, 0, 4, 4, 6, 0],
  #v[2, 5, 0, 0, 0, 4, 6, 0, 2, 4, 0, 0, 0, 4, 7, 0],
  #v[6, 6, 0, 0, 0, 3, 5, 0, 3, 2, 2, 0, 3, 4, 6, 0],
  #v[2, 5, 0, 0, 0, 4, 6, 0, 2, 4, 0, 0, 0, 4, 7, 0],
  #v[6, 6, 0, 0, 0, 3, 5, 0, 4, 2, 2, 0, 5, 4, 6, 0],
  #v[2, 5, 0, 0, 0, 4, 6, 0, 2, 4, 0, 0, 0, 4, 7, 0],
  #v[0, 6, 0, 0, 3, 3, 3, 0, 2, 0, 2, 0, 4, 4, 4, 0],
  #v[2, 6, 0, 0, 4, 4, 4, 0, 2, 5, 2, 0, 0, 5, 0, 0],
  #v[2, 6, 2, 0, 3, 3, 3, 0, 2, 2, 2, 0, 4, 4, 4, 0],
  #v[2, 5, 0, 0, 4, 4, 4, 0, 2, 4, 2, 0, 4, 4, 4, 0],
  #v[2, 6, 0, 0, 3, 3, 5, 0, 2, 2, 2, 0, 4, 4, 6, 0],
  #v[2, 5, 0, 0, 0, 4, 6, 0, 2, 4, 0, 0, 0, 4, 7, 0],
  #v[2, 6, 0, 0, 3, 3, 5, 0, 2, 2, 2, 0, 4, 4, 6, 0],
  #v[2, 5, 0, 0, 0, 4, 6, 0, 2, 4, 0, 0, 0, 4, 7, 0]]

/-- The base count of an opcode. -/
def Timing.ofOpcode (opcode : Byte) : Nat :=
  let high : Fin 16 := (opcode.extractLsb' 4 4).toFin
  let low : Fin 16 := (opcode.extractLsb' 0 4).toFin
  Timing.table[high][low]

/-- The cycles that entering an interrupt takes. -/
def Timing.interruptEntry : Nat := 7

/-- An opcode has a base count exactly if it is an instruction. -/
theorem Timing.ofOpcode_eq_zero_iff (opcode : Byte) :
    Timing.ofOpcode opcode = 0 ↔ Instruction.decode? opcode = none := by
  revert opcode
  decide +kernel

end Console6502
