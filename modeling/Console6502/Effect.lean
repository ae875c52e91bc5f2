/-
  Executing operations.

  `Exec.perform` applies an operation to its operand.  Whatever can fail comes first in each case:
  registers and flags change only once the bus has answered.
-/
import Console6502.Interrupt
import Console6502.Operand

namespace Console6502

namespace Cpu

/-- Combines the accumulator with a byte. -/
def combine (c : Cpu) (how : Logic) (v : Byte) : Cpu := c.load .a (how.apply c.a v)

/-- Puts a sum into the accumulator, its carry and overflow into the flags. -/
def loadSum (c : Cpu) (s : Addition) : Cpu :=
  { c with status := (c.status.set .carry s.carry).set .overflow s.overflow }.load .a s.value

/-- Adds a byte and the carry to the accumulator. -/
def add (c : Cpu) (v : Byte) : Cpu := c.loadSum (Addition.of c.a v c.status.carry)

/-- Subtracts a byte and the borrow from the accumulator. -/
def subtract (c : Cpu) (v : Byte) : Cpu := c.loadSum (Addition.ofDifference c.a v c.status.carry)

/-- Compares a register with a byte: the carry says that the register is not less. -/
def compare (c : Cpu) (r : Register) (v : Byte) : Cpu :=
  let difference := c.get r - v
  { c with status := (c.status.set .carry (decide (v ≤ c.get r))).ofResult difference }

/-- Tests a byte: zero by its bits under the accumulator, negative and overflow by its top bits. -/
def testBits (c : Cpu) (v : Byte) : Cpu :=
  { c with
    status := ((c.status.set .zero (c.a &&& v == 0)).set .negative v.msb).set .overflow
      (v.getLsbD 6) }

/-- The flags after a modification: its carry, and zero and negative by the new byte. -/
def noteModified (c : Cpu) (v : Byte) (carry : Bool) : Cpu :=
  { c with status := (c.status.set .carry carry).ofResult v }

end Cpu

namespace Exec

variable {β : Type} [Board β]

/-- Stores a byte where an operand is in memory. -/
def storeAt (operand : Operand) (v : Byte) : Exec β Unit :=
  match operand.address? with
  | some a => write a v
  | none => pure ()

/-- Modifies a byte in place.  In memory the old byte is written back before the new one, and a
    board sees both writes. -/
def modifyAt (how : Modifier) : Operand → Exec β Unit
  | .accumulator => update fun c =>
      let (v, carry) := how.apply c.status.carry c.a
      { c with a := v }.noteModified v carry
  | .memory a _ => do
      let old ← read a
      write a old
      let (v, carry) := how.apply (← cpu).status.carry old
      write a v
      update (·.noteModified v carry)
  | _ => pure ()

/-- Goes on at the place of an operand. -/
def jumpTo (operand : Operand) : Exec β Unit :=
  match operand.address? with
  | some a => update fun c => { c with pc := a }
  | none => pure ()

/-- Calls a subroutine: the address of the last byte of the call goes onto the stack. -/
def callTo (operand : Operand) : Exec β Unit := do
  pushWord ((← cpu).pc - 1)
  jumpTo operand

/-- Goes on behind the call that pushed the word on the stack. -/
def returnFromCall : Exec β Unit := do
  let pc ← pullWord
  update fun c => { c with pc := pc + 1 }

/-- Takes status and program counter from the stack. -/
def returnFromInterrupt : Exec β Unit := do
  let status ← pull
  let pc ← pullWord
  update fun c => { c with status := .ofStackByte status, pc }

/-- Jumps if a flag has this value. -/
def branchTo (flag : Flag) (value : Bool) (operand : Operand) : Exec β Unit := do
  if (← cpu).status.get flag = value then jumpTo operand else pure ()

/-- Applies an operation to its operand. -/
def perform (operation : Operation) (operand : Operand) : Exec β Unit :=
  match operation with
  | .load r => do
    let v ← value operand
    update (·.load r v)
  | .store r => do storeAt operand ((← cpu).get r)
  | .logic how => do
    let v ← value operand
    update (·.combine how v)
  | .add => do
    let v ← value operand
    update (·.add v)
  | .subtract => do
    let v ← value operand
    update (·.subtract v)
  | .compare r => do
    let v ← value operand
    update (·.compare r v)
  | .bitTest => do
    let v ← value operand
    update (·.testBits v)
  | .modify how => modifyAt how operand
  | .increment r => update fun c => c.load r (c.get r + 1)
  | .decrement r => update fun c => c.load r (c.get r - 1)
  | .transfer source target => update fun c => c.load target (c.get source)
  | .stackToX => update fun c => c.load .x c.sp
  | .xToStack => update fun c => { c with sp := c.x }
  | .pushA => do push (← cpu).a
  | .pullA => do
    let v ← pull
    update (·.load .a v)
  | .pushStatus => do push ((← cpu).status.stackByte true)
  | .pullStatus => do
    let v ← pull
    update fun c => { c with status := .ofStackByte v }
  | .jump => jumpTo operand
  | .call => callTo operand
  | .returnFromCall => returnFromCall
  | .returnFromInterrupt => returnFromInterrupt
  | .brk => softwareEntry
  | .branch flag v => branchTo flag v operand
  | .setFlag flag v => update fun c => { c with status := c.status.set flag v }
  | .nop => pure ()

end Exec

end Console6502
