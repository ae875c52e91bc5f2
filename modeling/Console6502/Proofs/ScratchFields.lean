/-
  The scratch fields of the processor.

  The processor keeps the opcode and the operand bytes of its last instruction, and a count of
  cycles.  They are there to be looked at from outside: no step reads one of them before it has
  written it.  Two processors that differ in these four fields alone (`Cpu.SameButScratch`) go in
  lockstep on equal buses, their counters at a constant distance.  An instruction overwrites opcode
  and operand bytes before it does anything else, so behind the first one that succeeds the counters
  are the only difference (`Machine.same_bytes_of_executed`), and that stays so.
-/
import Console6502.Proofs.InterruptLatch
import Console6502.Proofs.Lockstep

namespace Console6502

variable {β : Type} [Board β]

namespace Cpu

/-- The processor with another count of cycles. -/
def withCycle (c : Cpu) (n : Nat) : Cpu := { c with cycle := n }

/-- Processors that differ in the bytes of their last instruction and in the count of cycles only,
    the counters at this distance.  Where `bytes` holds, they differ in the counters only. -/
structure SameButScratch (bytes : Prop) (distance : Int) (c d : Cpu) : Prop where
  rest : d = { c with opcode := d.opcode, low := d.low, high := d.high, cycle := d.cycle }
  cycle : (d.cycle : Int) - c.cycle = distance
  same : bytes → d.opcode = c.opcode ∧ d.low = c.low ∧ d.high = c.high

variable {bytes : Prop} {distance : Int} {c d : Cpu} {b : Bus β}

theorem sameButScratch_withCycle {n : Nat} (h : (n : Int) - c.cycle = distance) :
    SameButScratch bytes distance c (c.withCycle n) :=
  ⟨rfl, h, fun _ => ⟨rfl, rfl, rfl⟩⟩

namespace SameButScratch

theorem of_bytes (h : SameButScratch True distance c d) : SameButScratch bytes distance c d :=
  ⟨h.rest, h.cycle, fun _ => h.same trivial⟩

/-- To begin an instruction is to forget the last one. -/
theorem begin (h : SameButScratch bytes distance c d) (opcode : Byte) :
    d.begin opcode = (c.begin opcode).withCycle d.cycle := by
  rw [h.rest]
  rfl

theorem dueInterrupt (h : SameButScratch bytes distance c d) :
    d.dueInterrupt = c.dueInterrupt := by
  rw [h.rest]
  rfl

theorem entry (h : SameButScratch bytes distance c d) (v : InterruptVector) (brk : Bool) :
    Request.entry d v brk = Request.entry c v brk := by
  rw [h.rest]
  rfl

theorem charge_entered (h : SameButScratch bytes distance c d) (target : Word)
    (v : InterruptVector) (n : Nat) :
    SameButScratch bytes distance (((c.entered target).acknowledge v).charge n)
      (((d.entered target).acknowledge v).charge n) := by
  have hcycle : ∀ e : Cpu, (((e.entered target).acknowledge v).charge n).cycle = e.cycle + n := by
    intro e
    cases v <;> rfl
  refine ⟨?_, ?_, fun hb => ?_⟩
  · rw [h.rest]
    cases v <;> rfl
  · rw [hcycle, hcycle, ← h.cycle]
    omega
  · obtain ⟨hopcode, hlow, hhigh⟩ := h.same hb
    cases v <;> exact ⟨hopcode, hlow, hhigh⟩

end SameButScratch

theorem taking_withCycle (c : Cpu) (n k : Nat) :
    (c.withCycle n).taking b k = (c.taking b k).withCycle n := by
  unfold taking
  split <;> rfl

end Cpu

/-! ## One instruction -/

theorem Operation.outcome_withCycle (operation : Operation) (operand : Operand) (c : Cpu) (n : Nat)
    (b : Bus β) :
    operation.outcome operand (c.withCycle n) b = (operation.outcome operand c b).withCycle n := by
  have hbyte : operand.byteOf (c.withCycle n) b = operand.byteOf c b := by cases operand <;> rfl
  have hload : ∀ (d : Cpu) (r : Register) (v : Byte),
      (d.withCycle n).loaded r v = (d.loaded r v).withCycle n := by
    intro d r v
    cases r <;> rfl
  have hget : ∀ r, (c.withCycle n).get r = c.get r := by
    intro r
    cases r <;> rfl
  have hgo : ∀ d : Cpu, (d.withCycle n).goingTo operand = (d.goingTo operand).withCycle n := by
    intro d
    cases operand <;> rfl
  unfold outcome
  simp only [hbyte]
  cases operation with
  | load r => exact hload c r _
  | logic how => cases how <;> exact hload c .a _
  | modify how => cases operand <;> rfl
  | compare r =>
    simp only [hget]
    rfl
  | increment r | decrement r =>
    simp only [hget]
    exact hload c r _
  | transfer source target =>
    simp only [hget]
    exact hload c target _
  | stackToX => exact hload c .x _
  | pullA => exact hload { c with sp := c.sp + 1 } .a _
  | jump => exact hgo c
  | call => exact hgo { c with sp := c.sp - 2 }
  | branch flag value =>
    have hstatus : (c.withCycle n).status = c.status := rfl
    simp only [hstatus]
    split
    · exact hgo c
    · rfl
  | _ => rfl

namespace Instruction

variable {bytes : Prop} {distance : Int} {c d : Cpu} {b : Bus β} {i : Instruction}

theorem operand_scratch (h : c.SameButScratch bytes distance d) : i.operand d b = i.operand c b := by
  unfold operand
  rw [h.begin]
  cases i.mode <;> rfl

theorem taken_scratch (h : c.SameButScratch bytes distance d) :
    i.taken d b = (i.taken c b).withCycle d.cycle := by
  rw [taken, h.begin, Cpu.taking_withCycle]
  rfl

theorem cycles_scratch (h : c.SameButScratch bytes distance d) : i.cycles d b = i.cycles c b := by
  have hstatus : d.status = c.status := by rw [h.rest]
  rw [cycles, cycles, operand_scratch h, hstatus]

/-- An instruction leaves processors that differ in the counters only. -/
theorem after_scratch (h : c.SameButScratch bytes distance d) :
    (i.after c b).SameButScratch True distance (i.after d b) := by
  have hcycle : ((i.operation.outcome (i.operand c b) (i.taken c b) b).charge
      (i.cycles c b)).cycle = c.cycle + i.cycles c b := by
    rw [Operation.outcome_frame]
    show (i.taken c b).cycle + _ = _
    rw [taken, Cpu.taking_frame]
    rfl
  rw [after, after, operand_scratch h, taken_scratch h, cycles_scratch h, Operation.outcome_withCycle]
  refine ⟨rfl, ?_, fun _ => ⟨rfl, rfl, rfl⟩⟩
  rw [hcycle, ← h.cycle]
  show ((d.cycle + _ : Nat) : Int) - _ = _
  omega

/-- Both make the same attempts, and a refusal leaves the same but for the scratch fields. -/
theorem attempts_scratch (h : c.SameButScratch bytes distance d) :
    Attempt.Matched (Cpu.SameButScratch bytes distance) (i.attempts c b) (i.attempts d b) := by
  have htaking : ∀ n, ((c.begin i.opcode).taking b n).SameButScratch bytes distance
      ((d.begin i.opcode).taking b n) := by
    intro n
    rw [h.begin, Cpu.taking_withCycle]
    refine Cpu.sameButScratch_withCycle ?_
    rw [Cpu.taking_frame]
    exact h.cycle
  have hpc : (d.begin i.opcode).pc = (c.begin i.opcode).pc := by
    rw [h.begin]
    rfl
  have hx : (d.begin i.opcode).x = (c.begin i.opcode).x := by
    rw [h.begin]
    rfl
  have hrequests : ∀ operand,
      i.operation.reads operand (i.taken d b) ++ i.operation.writes operand (i.taken d b) b =
        i.operation.reads operand (i.taken c b) ++
          i.operation.writes operand (i.taken c b) b := by
    intro operand
    rw [taken_scratch h]
    cases i.operation with
    | store r => cases operand <;> cases r <;> rfl
    | _ => rfl
  have hleft : (i.operation.left (i.taken c b)).SameButScratch bytes distance
      (i.operation.left (i.taken d b)) := by
    have htaken := htaking i.mode.operandBytes
    cases i.operation with
    | brk => exact ⟨by rw [Operation.left, taken, htaken.rest]; rfl, htaken.cycle, htaken.same⟩
    | _ => exact htaken
  refine (AddressingMode.matched_attempts hpc hx htaking).append ?_
  rw [operand_scratch h]
  exact Attempt.matched_all (hrequests _) hleft

end Instruction

/-! ## Steps and runs -/

namespace Machine

variable {bytes : Prop} {distance : Int} {m m' : Machine β}

/-- At an instruction, the second machine follows it with the first one's cycles. -/
theorem scratch_follows (h : m.InStep (Cpu.SameButScratch bytes distance) m')
    (hq : m.cpu.dueInterrupt = none) {i : Instruction}
    (hi : m.bus.instruction? m.cpu.pc = some i) :
    Exec.Follows Exec.step m' (⟨.read m'.cpu.pc, m'.cpu⟩ :: i.attempts m'.cpu m.bus)
      (i.cycles m.cpu m.bus) (i.after m'.cpu m.bus) := by
  have hpc : m'.cpu.pc = m.cpu.pc := by rw [h.cpu.rest]
  have hfollows : Exec.Follows Exec.step m'
      (⟨.read m'.cpu.pc, m'.cpu⟩ :: i.attempts m'.cpu m'.bus) (i.cycles m'.cpu m'.bus)
      (i.after m'.cpu m'.bus) :=
    Exec.step_instruction (h.cpu.dueInterrupt.trans hq) (by rw [h.bus, hpc, hi])
  rwa [h.bus, Instruction.cycles_scratch h.cpu] at hfollows

theorem scratch_step (h : m.InStep (Cpu.SameButScratch bytes distance) m') :
    Agree (InStep (Cpu.SameButScratch bytes distance)) (Exec.step m) (Exec.step m') := by
  have hdue := h.cpu.dueInterrupt
  have hpc : m'.cpu.pc = m.cpu.pc := by rw [h.cpu.rest]
  refine Exec.step_agree (fun _ _ h => h) h hdue hpc (fun v hv => ?_) fun i hq hi => ?_
  · have hentry := Exec.step_entry (hdue.trans hv)
    rw [h.bus] at hentry
    exact (Exec.step_entry hv).agree hentry h.bus
      (Attempt.matched_all (h.cpu.entry v false) h.cpu) (h.cpu.charge_entered _ v _)
  · refine (Exec.step_instruction hq hi).agree (scratch_follows h hq hi) h.bus ?_
      (Instruction.after_scratch h.cpu).of_bytes
    exact .cons ⟨by rw [hpc], h.cpu⟩ (Instruction.attempts_scratch h.cpu)

/-- The step from here is an instruction, and it succeeds. -/
def CompletesInstruction (m : Machine β) : Prop :=
  m.Executes ∧ ∃ n m', Exec.step m = .ok n m'

/-- Behind an instruction that succeeds the bytes of the last instruction are the same. -/
theorem same_bytes_of_executed (h : m.InStep (Cpu.SameButScratch bytes distance) m')
    (hm : m.CompletesInstruction) :
    m.afterStep.InStep (Cpu.SameButScratch True distance) m'.afterStep := by
  obtain ⟨hexecutes, n, m₁, hstep⟩ := hm
  have hq := executes_iff.mp hexecutes
  have hagree := scratch_step h
  rw [hstep] at hagree
  cases hstep' : Exec.step m' with
  | error e m₁' =>
    rw [hstep'] at hagree
    cases hagree
  | ok n' m₁' =>
    rw [hstep'] at hagree
    cases hagree with
    | ok states =>
      obtain ⟨-, ⟨v, hv, -⟩ | ⟨i, -, hi, -, hcpu⟩⟩ := Exec.step_ok_cases hstep
      · rw [hq] at hv
        cases hv
      · obtain ⟨-, -, hcpu', -⟩ := (scratch_follows h hq hi).ok hstep'
        rw [afterStep_of_ok hstep, afterStep_of_ok hstep']
        refine ⟨?_, states.bus⟩
        rw [hcpu, hcpu']
        exact Instruction.after_scratch h.cpu

theorem scratch_run (h : m.InStep (Cpu.SameButScratch bytes distance) m') (l : List Stimulus) :
    m'.results l = m.results l ∧ (m.run l).InStep (Cpu.SameButScratch bytes distance) (m'.run l) := by
  refine lockstep (P := fun _ => True) (fun _ _ h _ => scratch_step h) ?_ ?_ h
    fun _ _ _ => trivial
  · intro c d h
    exact ⟨congrArg Cpu.latchNmi h.rest, h.cycle, h.same⟩
  · intro c d asserted h
    exact ⟨congrArg (·.driveIrq asserted) h.rest, h.cycle, h.same⟩

/-- Whatever opcode, operand bytes and count of cycles a processor starts with, on any board and
    through any steps and interrupt inputs: all steps return the same or stop with the same error,
    the bus is left the same, and so is the processor but for these four fields, the counters at
    the distance that they had at first.  Once an instruction has succeeded, the counters are all
    that differs. -/
theorem scratch_fields_inert (m : Machine β) (opcode low high : Byte) (cycle : Nat)
    (journal : Journal) (l : List Stimulus) :
    let m' : Machine β := ⟨{ m.cpu with opcode, low, high, cycle }, m.bus, journal⟩
    let distance : Int := cycle - m.cpu.cycle
    m'.results l = m.results l ∧ (m'.run l).bus = (m.run l).bus ∧
      (m.run l).cpu.SameButScratch False distance (m'.run l).cpu ∧
      ∀ before after, l = before ++ .step :: after → (m.run before).CompletesInstruction →
        (m.run l).cpu.SameButScratch True distance (m'.run l).cpu := by
  intro m' distance
  have hstart : m.InStep (Cpu.SameButScratch False distance) m' := ⟨⟨rfl, rfl, nofun⟩, rfl⟩
  obtain ⟨hresults, hrun⟩ := scratch_run hstart l
  refine ⟨hresults, hrun.bus, hrun.cpu, ?_⟩
  rintro before after rfl hbefore
  have hpast := same_bytes_of_executed (scratch_run hstart before).2 hbefore
  have hrest := (scratch_run hpast after).2.cpu
  rw [run_append, run_append]
  exact hrest

/-- The idle machine with another past. -/
def idleLater : Machine Nrom :=
  ⟨{ idle.cpu with opcode := 0x6C, low := 0x34, high := 0x12, cycle := 100 }, idle.bus, []⟩

/-- A NOP and the entry of an NMI: nothing is left of the past but 100 cycles. -/
theorem idleLater_run :
    idleLater.results [.step, .requestNmi, .step] = [.ok 2, .ok 7] ∧
      (idleLater.run [.step, .requestNmi, .step]).cpu.opcode = 0xEA ∧
      (idleLater.run [.step, .requestNmi, .step]).cpu.cycle = 109 := by
  obtain ⟨hresults, -, -, hsame⟩ :=
    idle.scratch_fields_inert 0x6C 0x34 0x12 100 [] [.step, .requestNmi, .step]
  have hlater := hsame [] [.requestNmi, .step] rfl ⟨executes_iff.mpr rfl, _, _, rfl⟩
  have hidle : (idle.run [.step, .requestNmi, .step]).cpu.opcode = 0xEA ∧
      (idle.run [.step, .requestNmi, .step]).cpu.cycle = 9 := ⟨rfl, rfl⟩
  have hcycle : (idleLater.run [.step, .requestNmi, .step]).cpu.cycle -
      ((idle.run [.step, .requestNmi, .step]).cpu.cycle : Int) = 100 := hlater.cycle
  rw [hidle.2] at hcycle
  exact ⟨hresults.trans rfl, (hlater.same trivial).1.trans hidle.1, by omega⟩

end Machine

end Console6502
