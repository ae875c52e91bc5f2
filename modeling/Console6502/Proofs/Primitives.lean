/-
  What the work of the processor is made of.

  A step is a long way from a single transaction, but all that lies between are sequences: the
  processor looks at itself, changes itself, asks the bus for one byte at a time, takes note of
  something, or stops.  `Exec.Made` says of a piece of work that it is put together from these and
  from nothing else, and `Made.step` and `Made.reset` say so of steps and of the reset sequence.  A
  law of all work then needs one case for each primitive and one for sequences.
-/
import Console6502.Step

namespace Console6502

/-- A notice that the processor itself takes, as against those of the bus and of the board. -/
inductive Notice.OfCpu : Notice → Prop
  | executing (line : TraceLine) : OfCpu (.executing line)
  | interrupted (v : InterruptVector) (source target : Word) : OfCpu (.interrupted v source target)
  | broke (target : Word) : OfCpu (.broke target)
  | reset (pc : Word) (sp : Byte) : OfCpu (.reset pc sp)

namespace Exec

variable {β : Type} [Board β]

/-- Work that is put together from the primitives of the processor. -/
inductive Made : {α : Type} → Exec β α → Prop
  | pure {α : Type} (v : α) : Made (Pure.pure v : Exec β α)
  | throw {α : Type} (e : CpuFault) : Made (MonadExcept.throw e : Exec β α)
  | bind {α γ : Type} {x : Exec β α} {f : α → Exec β γ} (hx : Made x) (hf : ∀ v, Made (f v)) :
    Made (x >>= f)
  | cpu : Made Exec.cpu
  | update (g : Cpu → Cpu) : Made (Exec.update g)
  | note {n : Notice} (h : n.OfCpu) : Made (Exec.note n)
  /-- A read, whatever its refusal comes to. -/
  | adapted_read (a : Word) (f : BusFault → CpuFault) : Made ((Machine.read a).adaptExcept f)
  | write (a : Word) (v : Byte) : Made (Exec.write a v)

namespace Made

theorem read (a : Word) : Made (Exec.read a : Exec β Byte) := adapted_read a _

theorem vectorByte (v : InterruptVector) (a : Word) : Made (Exec.vectorByte v a : Exec β Byte) :=
  adapted_read a _

/-! ## Operand bytes, the stack, and the vector table -/

theorem nextByte : Made (Exec.nextByte : Exec β Byte) :=
  cpu.bind fun _ => (read _).bind fun _ => (update _).bind fun _ => pure _

theorem operandByte : Made (Exec.operandByte : Exec β Byte) :=
  nextByte.bind fun _ => (update _).bind fun _ => pure _

theorem operandPair : Made (Exec.operandPair : Exec β Word) :=
  operandByte.bind fun _ => nextByte.bind fun _ => (update _).bind fun _ => pure _

theorem push (v : Byte) : Made (Exec.push v : Exec β Unit) :=
  cpu.bind fun _ => (write _ v).bind fun _ => update _

theorem pull : Made (Exec.pull : Exec β Byte) :=
  cpu.bind fun _ => (read _).bind fun _ => (update _).bind fun _ => pure _

theorem pushWord (w : Word) : Made (Exec.pushWord w : Exec β Unit) :=
  (push _).bind fun _ => push _

theorem pullWord : Made (Exec.pullWord : Exec β Word) :=
  pull.bind fun _ => pull.bind fun _ => pure _

theorem vectorTarget (v : InterruptVector) : Made (Exec.vectorTarget v : Exec β Word) :=
  (vectorByte v _).bind fun _ => (vectorByte v _).bind fun _ => pure _

theorem enter (v : InterruptVector) (brk : Bool) : Made (Exec.enter v brk : Exec β Unit) :=
  (vectorTarget v).bind fun _ => cpu.bind fun _ => (pushWord _).bind fun _ =>
    cpu.bind fun _ => (push _).bind fun _ => update _

theorem hardwareEntry (v : InterruptVector) : Made (Exec.hardwareEntry v : Exec β Unit) :=
  cpu.bind fun _ => (enter v false).bind fun _ => cpu.bind fun _ => note (.interrupted v _ _)

theorem softwareEntry : Made (Exec.softwareEntry : Exec β Unit) :=
  (update _).bind fun _ => (enter .irq true).bind fun _ => cpu.bind fun _ => note (.broke _)

/-! ## Operands -/

theorem pointerAt (p : Byte) : Made (Exec.pointerAt p : Exec β Word) :=
  (read _).bind fun _ => (read _).bind fun _ => pure _

theorem jumpTarget (w : Word) : Made (Exec.jumpTarget w : Exec β Word) :=
  (read _).bind fun _ => (read _).bind fun _ => pure _

theorem locate (mode : AddressingMode) : Made (Exec.locate mode : Exec β Operand) := by
  cases mode with
  | implied | accumulator => exact pure _
  | immediate | zeroPage => exact operandByte.bind fun _ => pure _
  | zeroPageX | zeroPageY | relative => exact operandByte.bind fun _ => cpu.bind fun _ => pure _
  | absolute => exact operandPair.bind fun _ => pure _
  | absoluteX | absoluteY => exact operandPair.bind fun _ => cpu.bind fun _ => pure _
  | indirect => exact operandPair.bind fun _ => (jumpTarget _).bind fun _ => pure _
  | indexedIndirect =>
    exact operandByte.bind fun _ => cpu.bind fun _ => (pointerAt _).bind fun _ => pure _
  | indirectIndexed =>
    exact operandByte.bind fun _ => (pointerAt _).bind fun _ => cpu.bind fun _ => pure _

theorem value (operand : Operand) : Made (Exec.value operand : Exec β Byte) := by
  cases operand with
  | implied | immediate v => exact pure _
  | accumulator => exact cpu.bind fun _ => pure _
  | memory a crossed => exact read a

/-! ## Operations -/

theorem value_update (operand : Operand) (f : Byte → Cpu → Cpu) :
    Made (Exec.value operand >>= fun v => Exec.update (f v) : Exec β Unit) :=
  (value operand).bind fun _ => update _

theorem storeAt (operand : Operand) (v : Byte) : Made (Exec.storeAt operand v : Exec β Unit) := by
  cases operand with
  | memory a crossed => exact write a v
  | implied | accumulator | immediate v => exact pure ()

theorem modifyAt (how : Modifier) (operand : Operand) :
    Made (Exec.modifyAt how operand : Exec β Unit) := by
  cases operand with
  | accumulator =>
    rw [Exec.modifyAt]
    exact update _
  | memory a crossed =>
    exact (read a).bind fun _ => (write a _).bind fun _ => cpu.bind fun _ =>
      (write a _).bind fun _ => update _
  | implied | immediate v => exact pure ()

theorem jumpTo (operand : Operand) : Made (Exec.jumpTo operand : Exec β Unit) := by
  cases operand with
  | memory a crossed => exact update fun c => { c with pc := a }
  | implied | accumulator | immediate v => exact pure ()

theorem perform (operation : Operation) (operand : Operand) :
    Made (Exec.perform operation operand : Exec β Unit) := by
  cases operation with
  | load | logic | add | subtract | compare | bitTest => exact value_update operand _
  | store r => exact cpu.bind fun _ => storeAt operand _
  | modify how => exact modifyAt how operand
  | increment r => exact update fun c => c.load r (c.get r + 1)
  | decrement r => exact update fun c => c.load r (c.get r - 1)
  | transfer source target => exact update fun c => c.load target (c.get source)
  | stackToX => exact update fun c => c.load .x c.sp
  | xToStack => exact update fun c => { c with sp := c.x }
  | setFlag flag v => exact update fun c => { c with status := c.status.set flag v }
  | pushA | pushStatus => exact cpu.bind fun _ => push _
  | pullA | pullStatus => exact pull.bind fun _ => update _
  | jump => exact jumpTo operand
  | call => exact cpu.bind fun _ => (pushWord _).bind fun _ => jumpTo operand
  | returnFromCall => exact pullWord.bind fun _ => update _
  | returnFromInterrupt => exact pull.bind fun _ => pullWord.bind fun _ => update _
  | brk => exact softwareEntry
  | branch flag v =>
    refine cpu.bind fun c => ?_
    split
    · exact jumpTo operand
    · exact pure ()
  | nop => exact pure ()

/-! ## Steps and resets -/

/-- An instruction behind its announcement. -/
theorem announced (i : Instruction) :
    Made (do
      Exec.update (·.begin i.opcode)
      let operand ← Exec.locate i.mode
      let extra := i.operation.extraCycles operand (← Exec.cpu).status
      Exec.perform i.operation operand
      Exec.update (·.charge (Timing.ofOpcode i.opcode + extra))
      return Timing.ofOpcode i.opcode + extra : Exec β Nat) :=
  (update _).bind fun _ => (locate i.mode).bind fun _ => cpu.bind fun _ =>
    (perform i.operation _).bind fun _ => (update _).bind fun _ => pure _

theorem execute (i : Instruction) : Made (Exec.execute i : Exec β Nat) :=
  cpu.bind fun _ => (note (.executing _)).bind fun _ => announced i

theorem readInstruction : Made (Exec.readInstruction : Exec β Instruction) := by
  refine cpu.bind fun c => (read _).bind fun opcode => ?_
  split
  · exact pure _
  · exact throw _

/-- A step is made of the primitives. -/
theorem step : Made (Exec.step : Exec β Nat) := by
  refine cpu.bind fun c => ?_
  split
  · exact (hardwareEntry _).bind fun _ => (update _).bind fun _ => pure _
  · exact readInstruction.bind fun i => execute i

/-- The reset sequence is made of the primitives. -/
theorem reset (sp : Byte) : Made (Exec.reset sp : Exec β Unit) :=
  (vectorTarget .reset).bind fun _ => (update _).bind fun _ => note (.reset _ _)

end Made

end Exec

end Console6502
