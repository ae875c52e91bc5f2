/-
  What the addressing modes denote.

  `AddressingMode.operandOf` gives the operand of a mode outright, from the registers and from the
  bytes on the bus, for a processor whose program counter is at the first operand byte.
  `AddressingMode.attempts` lists what finding it asks of the bus: the operand bytes in order, then
  the two bytes of a pointer.  `Exec.Follows.locate` says that `Exec.locate` does just this.
-/
import Console6502.Operand
import Console6502.Proofs.Follows

namespace Console6502

variable {β : Type} [Board β]

/-- The word at an address. -/
def Bus.wordAt (b : Bus β) (a : Word) : Word := Word.ofBytes (b.peek a) (b.peek (a + 1))

/-- The word in page zero; the cell behind the last one is the first. -/
def Bus.zeroPageWord (b : Bus β) (p : Byte) : Word :=
  Word.ofBytes (b.peek (Word.ofByte p)) (b.peek (Word.ofByte (p + 1)))

/-- The word at an address, both bytes from one page. -/
def Bus.pageWord (b : Bus β) (a : Word) : Word :=
  Word.ofBytes (b.peek a) (b.peek (Word.ofBytes (Word.low a + 1) (Word.high a)))

/-- The processor after this many operand bytes, of which there are at most two. -/
def Cpu.taking (c : Cpu) (b : Bus β) : Nat → Cpu
  | 0 => c
  | 1 => { c with pc := c.pc + 1, low := b.peek c.pc }
  | _ => { c with pc := c.pc + 2, low := b.peek c.pc, high := b.peek (c.pc + 1) }

/-- Taking operand bytes moves the program counter and keeps the bytes. -/
theorem Cpu.taking_frame (c : Cpu) (b : Bus β) (n : Nat) :
    c.taking b n =
      { c with
        pc := (c.taking b n).pc, low := (c.taking b n).low, high := (c.taking b n).high } := by
  unfold Cpu.taking
  split <;> rfl

/-- The attempts to read this many operand bytes. -/
def Cpu.fetches (c : Cpu) (b : Bus β) : Nat → List Attempt
  | 0 => []
  | 1 => [⟨.read c.pc, c⟩]
  | _ => [⟨.read c.pc, c⟩, ⟨.read (c.pc + 1), c.taking b 1⟩]

namespace AddressingMode

/-- The operand that a mode denotes. -/
def operandOf (mode : AddressingMode) (c : Cpu) (b : Bus β) : Operand :=
  match mode with
  | implied => .implied
  | accumulator => .accumulator
  | immediate => .immediate (b.peek c.pc)
  | zeroPage => .place (Word.ofByte (b.peek c.pc))
  | zeroPageX => .place (Word.ofByte (b.peek c.pc + c.x))
  | zeroPageY => .place (Word.ofByte (b.peek c.pc + c.y))
  | absolute => .place (b.wordAt c.pc)
  | absoluteX => .indexed (b.wordAt c.pc) c.x
  | absoluteY => .indexed (b.wordAt c.pc) c.y
  | indirect => .place (b.pageWord (b.wordAt c.pc))
  | indexedIndirect => .place (b.zeroPageWord (b.peek c.pc + c.x))
  | indirectIndexed => .indexed (b.zeroPageWord (b.peek c.pc)) c.y
  | relative => .relative (c.pc + 1) (b.peek c.pc)

/-- The bytes of the pointer that a mode goes through. -/
def pointer (mode : AddressingMode) (c : Cpu) (b : Bus β) : List Request :=
  let ofPage (p : Byte) : List Request := [.read (Word.ofByte p), .read (Word.ofByte (p + 1))]
  match mode with
  | indirect =>
    let w := b.wordAt c.pc
    [.read w, .read (Word.ofBytes (Word.low w + 1) (Word.high w))]
  | indexedIndirect => ofPage (b.peek c.pc + c.x)
  | indirectIndexed => ofPage (b.peek c.pc)
  | _ => []

/-- The attempts that finding the operand makes. -/
def attempts (mode : AddressingMode) (c : Cpu) (b : Bus β) : List Attempt :=
  c.fetches b mode.operandBytes ++ Attempt.all (mode.pointer c b) (c.taking b mode.operandBytes)

end AddressingMode

namespace Exec.Follows

variable {m : Machine β}

theorem operandByte :
    Follows Exec.operandByte m (m.cpu.fetches m.bus 1) (m.bus.peek m.cpu.pc)
      (m.cpu.taking m.bus 1) := by
  refine bind_of_reads (q := []) nextByte (by simp [Request.isWrite]) fun j => ?_
  exact update_pure _ _

theorem operandPair :
    Follows Exec.operandPair m (m.cpu.fetches m.bus 2) (m.bus.wordAt m.cpu.pc)
      (m.cpu.taking m.bus 2) := by
  unfold Cpu.fetches Cpu.taking
  rw [← Word.add_one_add_one]
  refine bind_of_reads (p := [_]) operandByte (by simp [Request.isWrite]) fun j => ?_
  refine bind_of_reads (q := []) nextByte (by simp [Request.isWrite]) fun j => ?_
  exact update_pure _ _

theorem pointerAt (p : Byte) :
    Follows (Exec.pointerAt p) m
      [⟨.read (Word.ofByte p), m.cpu⟩, ⟨.read (Word.ofByte (p + 1)), m.cpu⟩]
      (m.bus.zeroPageWord p) m.cpu := by
  refine bind_of_reads (p := [_]) (read _) (by simp [Request.isWrite]) fun j => ?_
  exact bind_of_reads (q := []) (read _) (by simp [Request.isWrite]) fun j => pure _

theorem jumpTarget (w : Word) :
    Follows (Exec.jumpTarget w) m
      [⟨.read w, m.cpu⟩, ⟨.read (Word.ofBytes (Word.low w + 1) (Word.high w)), m.cpu⟩]
      (m.bus.pageWord w) m.cpu := by
  refine bind_of_reads (p := [_]) (read _) (by simp [Request.isWrite]) fun j => ?_
  exact bind_of_reads (q := []) (read _) (by simp [Request.isWrite]) fun j => pure _

/-- A mode that needs nothing but its operand byte. -/
theorem operandByte_bind {α : Type} {f : Byte → Exec β α} {q : List Attempt} {v : α}
    (hf : ∀ j, Follows (f (m.bus.peek m.cpu.pc)) ⟨m.cpu.taking m.bus 1, m.bus, j⟩ q v
      (m.cpu.taking m.bus 1)) :
    Follows (Exec.operandByte >>= f) m (m.cpu.fetches m.bus 1 ++ q) v (m.cpu.taking m.bus 1) :=
  bind_of_reads operandByte (by simp [Cpu.fetches, Request.isWrite]) hf

theorem operandPair_bind {α : Type} {f : Word → Exec β α} {q : List Attempt} {v : α}
    (hf : ∀ j, Follows (f (m.bus.wordAt m.cpu.pc)) ⟨m.cpu.taking m.bus 2, m.bus, j⟩ q v
      (m.cpu.taking m.bus 2)) :
    Follows (Exec.operandPair >>= f) m (m.cpu.fetches m.bus 2 ++ q) v (m.cpu.taking m.bus 2) :=
  bind_of_reads operandPair (by simp [Cpu.fetches, Request.isWrite]) hf

/-- Locating an operand takes the operand bytes, follows the pointer, and finds what the mode
    denotes. -/
theorem locate (mode : AddressingMode) :
    Follows (Exec.locate mode) m (mode.attempts m.cpu m.bus) (mode.operandOf m.cpu m.bus)
      (m.cpu.taking m.bus mode.operandBytes) := by
  cases mode with
  | implied | accumulator => exact pure _
  | immediate | zeroPage => exact operandByte_bind fun j => pure _
  | zeroPageX | zeroPageY | relative => exact operandByte_bind fun j => cpu_bind (pure _)
  | absolute => exact operandPair_bind fun j => pure _
  | absoluteX | absoluteY => exact operandPair_bind fun j => cpu_bind (pure _)
  | indirect =>
    refine operandPair_bind fun j => ?_
    exact bind_of_reads (jumpTarget _) (by simp [Request.isWrite]) fun j => pure _
  | indexedIndirect =>
    refine operandByte_bind fun j => cpu_bind ?_
    exact bind_of_reads (pointerAt _) (by simp [Request.isWrite]) fun j => pure _
  | indirectIndexed =>
    refine operandByte_bind fun j => ?_
    refine bind_of_reads (pointerAt _) (by simp [Request.isWrite]) fun j => ?_
    exact cpu_bind (pure _)

end Exec.Follows

end Console6502
