/-
  What the operations mean.

  The meaning of an operation has three parts, each given outright from the processor behind its
  operand bytes, the operand, and the bytes on the bus: what it reads (`Operation.reads`), what it
  then writes (`Operation.writes`), and the processor that it leaves (`Operation.outcome`), with all
  arithmetic in integers.  `Exec.Follows.perform` says that `Exec.perform` does just this.
-/
import Console6502.Proofs.Addressing
import Console6502.Proofs.IntegerLaws

namespace Console6502

variable {β : Type} [Board β]

/-- The byte that an operand denotes. -/
def Operand.byteOf (operand : Operand) (c : Cpu) (b : Bus β) : Byte :=
  match operand with
  | .implied => 0
  | .accumulator => c.a
  | .immediate v => v
  | .memory a _ => b.peek a

/-- The read of an operand, if it lies in memory. -/
def Operand.reads : Operand → List Request
  | .memory a _ => [.read a]
  | _ => []

/-- The processor that goes on at an operand, if that is a place. -/
def Cpu.goingTo (c : Cpu) (operand : Operand) : Cpu :=
  match operand.address? with
  | some a => { c with pc := a }
  | none => c

/-- The byte that lies this far above the stack pointer. -/
def Bus.stackByte (b : Bus β) (c : Cpu) (n : Byte) : Byte := b.peek (Cpu.stackCell (c.sp + n))

namespace Operation

/-- What an operation reads beyond the instruction and its pointer. -/
def reads (operation : Operation) (operand : Operand) (c : Cpu) : List Request :=
  match operation with
  | load _ | logic _ | add | subtract | compare _ | bitTest | modify _ => operand.reads
  | pullA | pullStatus => [.read (Cpu.stackCell (c.sp + 1))]
  | returnFromCall => Request.pullWord c.sp
  | returnFromInterrupt => .read (Cpu.stackCell (c.sp + 1)) :: Request.pullWord (c.sp + 1)
  | brk => Request.vectorWord .irq
  | _ => []

/-- What an operation then writes.  A modification writes the old byte back before the new one. -/
def writes (operation : Operation) (operand : Operand) (c : Cpu) (b : Bus β) : List Request :=
  match operation with
  | store r =>
    match operand.address? with
    | some a => [.write a (c.get r)]
    | none => []
  | modify how =>
    match operand.address? with
    | some a =>
      [.write a (b.peek a), .write a (how.outcome c.status.carry (b.peek a)).1]
    | none => []
  | pushA => [.write (Cpu.stackCell c.sp) c.a]
  | pushStatus => [.write (Cpu.stackCell c.sp) (c.status.stackByte true)]
  | call => Request.pushWord c.sp (c.pc - 1)
  | brk => Request.pushWord c.sp (c.pc + 1) ++
      [.write (Cpu.stackCell (c.sp - 2)) (c.status.stackByte true)]
  | _ => []

/-- The processor that an operation leaves. -/
def outcome (operation : Operation) (operand : Operand) (c : Cpu) (b : Bus β) : Cpu :=
  let v := operand.byteOf c b
  match operation with
  | load r => c.loaded r v
  | store _ => c
  | logic .or => c.loaded .a (c.a ||| v)
  | logic .and => c.loaded .a (c.a &&& v)
  | logic .xor => c.loaded .a (c.a ^^^ v)
  | add =>
    c.summed (c.a.toNat + v.toNat + c.status.carry.toNat)
      (decide (255 < c.a.toNat + v.toNat + c.status.carry.toNat))
      (c.a.toInt + v.toInt + c.status.carry.toNat)
  | subtract =>
    c.summed (c.a.toNat - v.toNat - (1 - c.status.carry.toNat))
      (decide (0 ≤ (c.a.toNat : Int) - v.toNat - (1 - c.status.carry.toNat)))
      (c.a.toInt - v.toInt - (1 - c.status.carry.toNat))
  | compare r =>
    { c with
      status := (c.status.set .carry (decide (v.toNat ≤ (c.get r).toNat))).judge
        (BitVec.ofInt 8 ((c.get r).toNat - v.toNat)) }
  | bitTest =>
    { c with
      status := ((c.status.set .zero (decide ((c.a &&& v).toNat = 0))).set .negative
        (decide (128 ≤ v.toNat))).set .overflow (v.getLsbD 6) }
  | modify how =>
    let (v', carry) := how.outcome c.status.carry v
    match operand with
    | .accumulator =>
      { c with a := v', status := (c.status.set .carry carry).judge v' }
    | .memory _ _ => { c with status := (c.status.set .carry carry).judge v' }
    | _ => c
  | increment r => c.loaded r (BitVec.ofNat 8 (((c.get r).toNat + 1) % 256))
  | decrement r => c.loaded r (BitVec.ofInt 8 ((c.get r).toNat - 1))
  | transfer s t => c.loaded t (c.get s)
  | stackToX => c.loaded .x c.sp
  | xToStack => { c with sp := c.x }
  | pushA | pushStatus => { c with sp := c.sp - 1 }
  | pullA => { c with sp := c.sp + 1 }.loaded .a (b.stackByte c 1)
  | pullStatus => { c with sp := c.sp + 1, status := .ofStackByte (b.stackByte c 1) }
  | jump => c.goingTo operand
  | call => { c with sp := c.sp - 2 }.goingTo operand
  | returnFromCall =>
    { c with sp := c.sp + 2, pc := Word.ofBytes (b.stackByte c 1) (b.stackByte c 2) + 1 }
  | returnFromInterrupt =>
    { c with
      sp := c.sp + 3
      status := .ofStackByte (b.stackByte c 1)
      pc := Word.ofBytes (b.stackByte c 2) (b.stackByte c 3) }
  | brk => (c.skip 1).entered (b.vectorWord .irq)
  | branch flag value => if c.status.get flag = value then c.goingTo operand else c
  | setFlag flag value => { c with status := c.status.set flag value }
  | nop => c

/-- No operation touches the bytes of the instruction, the cycle counter or the interrupt inputs. -/
theorem outcome_frame (operation : Operation) (operand : Operand) (c : Cpu) (b : Bus β) :
    operation.outcome operand c b =
      { operation.outcome operand c b with
        opcode := c.opcode, low := c.low, high := c.high, cycle := c.cycle
        nmiPending := c.nmiPending, irqLine := c.irqLine } := by
  have hput : ∀ (d : Cpu) (r : Register) (v : Byte), d.loaded r v =
      { d.loaded r v with
        opcode := d.opcode, low := d.low, high := d.high, cycle := d.cycle
        nmiPending := d.nmiPending, irqLine := d.irqLine } := by
    intro d r v
    cases r <;> rfl
  have hgo : ∀ d : Cpu, d.goingTo operand =
      { d.goingTo operand with
        opcode := d.opcode, low := d.low, high := d.high, cycle := d.cycle
        nmiPending := d.nmiPending, irqLine := d.irqLine } := by
    intro d
    cases operand <;> rfl
  cases operation with
  | load r => exact hput c r _
  | logic how => cases how <;> exact hput c .a _
  | modify how => cases operand <;> rfl
  | increment r => exact hput c r _
  | decrement r => exact hput c r _
  | transfer s t => exact hput c t _
  | stackToX => exact hput c .x _
  | pullA => exact hput _ .a _
  | jump => exact hgo c
  | call => exact hgo _
  | branch flag value =>
    unfold outcome
    simp only
    split
    · exact hgo c
    · rfl
  | _ => rfl

/-- The processor that a refusal leaves behind: the one before the operation, but for BRK, which
    has skipped its padding byte by then. -/
def left (operation : Operation) (c : Cpu) : Cpu :=
  match operation with
  | brk => c.skip 1
  | _ => c

/-- The attempts of an operation. -/
def attempts (operation : Operation) (operand : Operand) (c : Cpu) (b : Bus β) : List Attempt :=
  Attempt.all (operation.reads operand c ++ operation.writes operand c b) (operation.left c)

end Operation

namespace Exec.Follows

variable {m : Machine β}

theorem value (operand : Operand) :
    Follows (Exec.value operand) m (Attempt.all operand.reads m.cpu)
      (operand.byteOf m.cpu m.bus) m.cpu := by
  cases operand with
  | implied | immediate v => exact pure _
  | accumulator => exact cpu_bind (pure _)
  | memory a crossed => exact read a

/-- An operation that does nothing but use up the byte of its operand. -/
theorem value_update (operand : Operand) (f : Byte → Cpu → Cpu) :
    Follows (Exec.value operand >>= fun v => Exec.update (f v)) m
      (Attempt.all (operand.reads ++ []) m.cpu) () (f (operand.byteOf m.cpu m.bus) m.cpu) := by
  rw [List.append_nil, ← List.append_nil (Attempt.all _ _)]
  refine bind_of_reads (value operand) ?_ fun j => update _
  cases operand <;> simp [Operand.reads, Attempt.all, Request.isWrite]

theorem storeAt (operand : Operand) (r : Register) :
    Follows (Exec.storeAt operand (m.cpu.get r)) m
      ((Operation.store r).attempts operand m.cpu m.bus) () m.cpu := by
  cases operand with
  | memory a crossed => exact write a _
  | implied | accumulator | immediate v => exact pure (m := m) ()

theorem modifyAt (how : Modifier) (operand : Operand) :
    Follows (Exec.modifyAt how operand) m ((Operation.modify how).attempts operand m.cpu m.bus) ()
      ((Operation.modify how).outcome operand m.cpu m.bus) := by
  simp only [Operation.outcome, ← Modifier.apply_eq]
  cases operand with
  | implied | immediate v => exact pure (m := m) ()
  | accumulator =>
    exact (update (m := m) fun c =>
      let (v, carry) := how.apply c.status.carry c.a
      { c with a := v }.noteModified v carry).congr (Cpu.noteModified_eq _ _ _)
  | memory a crossed =>
    simp only [Operation.attempts, Operation.writes, ← Modifier.apply_eq, ← Cpu.noteModified_eq]
    refine bind_of_reads (p := [_]) (read a) (by simp [Request.isWrite]) fun j => ?_
    refine bind (p := [_]) (write a _) fun j => cpu_bind ?_
    exact bind (q := []) (write a _) fun j => update _

theorem jumpTo (operand : Operand) :
    Follows (Exec.jumpTo operand) m [] () (m.cpu.goingTo operand) := by
  cases operand with
  | memory a crossed => exact update (m := m) fun c => { c with pc := a }
  | implied | accumulator | immediate v => exact pure (m := m) ()

theorem callTo (operand : Operand) :
    Follows (Exec.callTo operand) m (Operation.call.attempts operand m.cpu m.bus) ()
      (Operation.call.outcome operand m.cpu m.bus) := by
  refine cpu_bind ?_
  exact bind (q := []) (pushWord (m.cpu.pc - 1) m.cpu) fun j => jumpTo operand

theorem returnFromCall (operand : Operand) :
    Follows Exec.returnFromCall m (Operation.returnFromCall.attempts operand m.cpu m.bus) ()
      (Operation.returnFromCall.outcome operand m.cpu m.bus) := by
  exact bind_of_reads (q := []) (pullWord m.cpu)
    (Attempt.forall_all (Request.pullWord_are_reads _) _) fun j => update _

theorem returnFromInterrupt (operand : Operand) :
    Follows Exec.returnFromInterrupt m
      (Operation.returnFromInterrupt.attempts operand m.cpu m.bus) ()
      (Operation.returnFromInterrupt.outcome operand m.cpu m.bus) := by
  simp only [Operation.outcome, Bus.stackByte]
  rw [← Byte.add_one_add_two m.cpu.sp, ← Byte.add_one_add_one m.cpu.sp]
  refine bind_of_reads (p := [_]) (pull m.cpu) (by simp [Request.isWrite]) fun j => ?_
  refine bind_of_reads (q := []) (pullWord m.cpu)
    (Attempt.forall_all (Request.pullWord_are_reads _) _) fun j => ?_
  exact update _

theorem softwareEntry (operand : Operand) :
    Follows Exec.softwareEntry m (Operation.brk.attempts operand m.cpu m.bus) ()
      (Operation.brk.outcome operand m.cpu m.bus) := by
  refine bind (p := []) (update (·.skip 1)) fun j => ?_
  refine bind (q := []) (enter .irq true) fun j => ?_
  exact cpu_bind (note _)

/-- Performing an operation asks the bus for its reads and then for its writes, and leaves its
    outcome. -/
theorem perform (operation : Operation) (operand : Operand) :
    Follows (Exec.perform operation operand) m (operation.attempts operand m.cpu m.bus) ()
      (operation.outcome operand m.cpu m.bus) := by
  cases operation with
  | load r =>
    simp only [Operation.outcome, ← Cpu.load_eq]
    exact value_update operand fun v => (·.load r v)
  | store r => exact cpu_bind (storeAt operand r)
  | logic how =>
    cases how <;>
    · simp only [Operation.outcome, ← Cpu.load_eq]
      exact value_update operand fun v => (·.combine _ v)
  | add =>
    simp only [Operation.outcome, ← Cpu.add_eq]
    exact value_update operand fun v => (·.add v)
  | subtract =>
    simp only [Operation.outcome, ← Cpu.subtract_eq]
    exact value_update operand fun v => (·.subtract v)
  | compare r =>
    simp only [Operation.outcome, ← Cpu.compare_eq]
    exact value_update operand fun v => (·.compare r v)
  | bitTest =>
    simp only [Operation.outcome, ← Cpu.testBits_eq]
    exact value_update operand fun v => (·.testBits v)
  | modify how => exact modifyAt how operand
  | increment r =>
    simp only [Operation.outcome, ← Byte.succ_eq, ← Cpu.load_eq]
    exact update (m := m) fun c => c.load r (c.get r + 1)
  | decrement r =>
    simp only [Operation.outcome, ← Byte.pred_eq, ← Cpu.load_eq]
    exact update (m := m) fun c => c.load r (c.get r - 1)
  | transfer s t =>
    simp only [Operation.outcome, ← Cpu.load_eq]
    exact update (m := m) fun c => c.load t (c.get s)
  | stackToX =>
    simp only [Operation.outcome, ← Cpu.load_eq]
    exact update (m := m) fun c => c.load .x c.sp
  | xToStack => exact update (m := m) fun c => { c with sp := c.x }
  | pushA => exact cpu_bind (push _ m.cpu)
  | pullA =>
    simp only [Operation.outcome, ← Cpu.load_eq]
    exact bind_of_reads (q := []) (pull m.cpu) (by simp [Request.isWrite]) fun j => update _
  | pushStatus => exact cpu_bind (push _ m.cpu)
  | pullStatus =>
    exact bind_of_reads (q := []) (pull m.cpu) (by simp [Request.isWrite]) fun j => update _
  | jump => exact jumpTo operand
  | call => exact callTo operand
  | returnFromCall => exact returnFromCall operand
  | returnFromInterrupt => exact returnFromInterrupt operand
  | brk => exact softwareEntry operand
  | branch flag v =>
    refine cpu_bind ?_
    simp only [Operation.outcome]
    by_cases h : m.cpu.status.get flag = v
    · rw [if_pos h, if_pos h]
      exact jumpTo operand
    · rw [if_neg h, if_neg h]
      exact pure (m := m) ()
  | setFlag flag v => exact update (m := m) fun c => { c with status := c.status.set flag v }
  | nop => exact pure (m := m) ()

end Exec.Follows

end Console6502
