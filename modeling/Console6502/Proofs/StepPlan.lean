/-
  The plan of a step.

  What one step asks of the bus, what it returns and which processor it leaves are known from the
  processor and the bus before it.  A step that is due an interrupt enters it (`step_entry`); any
  other reads an opcode and, where that is official, executes its instruction (`step_instruction`).
  `Cpu.plan` lists the requests of all these cases, and `step_plan` says that every step follows it,
  but for one at an opcode that is not official, which stops behind the read of it
  (`step_illegal`).
-/
import Console6502.Proofs.Meaning
import Console6502.Step

namespace Console6502

variable {β : Type} [Board β]

/-- The instruction at an address, if its opcode can be read and is official. -/
def Bus.instruction? (b : Bus β) (a : Word) : Option Instruction :=
  match b.read a with
  | .ok opcode => Instruction.decode? opcode
  | .error _ => none

/-- The reads of this many bytes, one behind the other. -/
def Request.bytes (a : Word) : Nat → List Request
  | 0 => []
  | n + 1 => .read a :: Request.bytes (a + 1) n

namespace Instruction

/-- The processor that has taken the opcode and the operand bytes. -/
def taken (i : Instruction) (c : Cpu) (b : Bus β) : Cpu :=
  (c.begin i.opcode).taking b i.mode.operandBytes

/-- The operand of an instruction. -/
def operand (i : Instruction) (c : Cpu) (b : Bus β) : Operand :=
  i.mode.operandOf (c.begin i.opcode) b

/-- The attempts that an instruction makes behind the one for its opcode. -/
def attempts (i : Instruction) (c : Cpu) (b : Bus β) : List Attempt :=
  i.mode.attempts (c.begin i.opcode) b ++
    i.operation.attempts (i.operand c b) (i.taken c b) b

/-- The cycles that an instruction takes. -/
def cycles (i : Instruction) (c : Cpu) (b : Bus β) : Nat :=
  Timing.ofOpcode i.opcode + i.operation.extraCycles (i.operand c b) c.status

/-- The processor that an instruction leaves. -/
def after (i : Instruction) (c : Cpu) (b : Bus β) : Cpu :=
  (i.operation.outcome (i.operand c b) (i.taken c b) b).charge (i.cycles c b)

/-- What an instruction asks of the bus, in order: its own bytes, the bytes of the pointer that its
    mode goes through, what the operation reads, and what it writes. -/
def requests (i : Instruction) (c : Cpu) (b : Bus β) : List Request :=
  Request.bytes c.pc (1 + i.mode.operandBytes) ++ (i.mode.pointer (c.begin i.opcode) b ++
    (i.operation.reads (i.operand c b) (i.taken c b) ++
      i.operation.writes (i.operand c b) (i.taken c b) b))

/-- What a look at all opcodes finds to hold of every instruction. -/
theorem of_decode? {P : Instruction → Prop} [DecidablePred P]
    (hall : ∀ opcode, (decode? opcode).all fun i => P i) {opcode : Byte} {i : Instruction}
    (h : decode? opcode = some i) : P i := by
  have hi := hall opcode
  rw [h] at hi
  exact of_decide_eq_true hi

theorem opcode_of_decode? {opcode : Byte} {i : Instruction} (h : decode? opcode = some i) :
    i.opcode = opcode := by
  obtain ⟨_, _, rfl⟩ := Option.map_eq_some_iff.mp h
  rfl

end Instruction

theorem Bus.instruction?_of_read {b : Bus β} {a : Word} {opcode : Byte}
    (h : b.read a = .ok opcode) : b.instruction? a = Instruction.decode? opcode := by
  rw [Bus.instruction?, h]

theorem Bus.read_of_instruction? {b : Bus β} {a : Word} {i : Instruction}
    (h : b.instruction? a = some i) :
    b.read a = .ok i.opcode ∧ Instruction.decode? i.opcode = some i := by
  unfold Bus.instruction? at h
  split at h
  · next opcode hr =>
    rw [Instruction.opcode_of_decode? h]
    exact ⟨hr, h⟩
  · cases h

namespace Cpu

/-- What a step asks of the bus, if nothing is refused. -/
def plan (c : Cpu) (b : Bus β) : List Request :=
  match c.dueInterrupt with
  | some v => Request.entry c v false
  | none =>
    match b.instruction? c.pc with
    | some i => i.requests c b
    | none => [.read c.pc]

/-- The same requests, each with the processor that its refusal leaves. -/
def attempts (c : Cpu) (b : Bus β) : List Attempt :=
  match c.dueInterrupt with
  | some v => Attempt.all (Request.entry c v false) c
  | none =>
    match b.instruction? c.pc with
    | some i => ⟨.read c.pc, c⟩ :: i.attempts c b
    | none => [⟨.read c.pc, c⟩]

end Cpu

theorem Instruction.map_request_attempts (i : Instruction) (c : Cpu) (b : Bus β) :
    (⟨.read c.pc, c⟩ :: i.attempts c b).map Attempt.request = i.requests c b := by
  have hfetches : ((c.begin i.opcode).fetches b i.mode.operandBytes).map Attempt.request =
      Request.bytes (c.pc + 1) i.mode.operandBytes := by
    cases i.mode <;> rfl
  unfold Instruction.attempts Instruction.requests AddressingMode.attempts Operation.attempts
  rw [List.map_cons, List.map_append, List.map_append, hfetches, Attempt.map_request_all,
    Attempt.map_request_all, Nat.add_comm 1, Request.bytes, List.append_assoc, List.cons_append]

theorem Cpu.map_request_attempts (c : Cpu) (b : Bus β) :
    (c.attempts b).map Attempt.request = c.plan b := by
  unfold Cpu.attempts Cpu.plan
  cases c.dueInterrupt with
  | some v => exact Attempt.map_request_all _ c
  | none =>
    cases b.instruction? c.pc with
    | some i => exact i.map_request_attempts c b
    | none => rfl

/-- An instruction leaves the interrupt inputs as they are. -/
theorem Instruction.inputs_after (i : Instruction) (c : Cpu) (b : Bus β) :
    (i.after c b).nmiPending = c.nmiPending ∧ (i.after c b).irqLine = c.irqLine := by
  have hpending : (i.taken c b).nmiPending = c.nmiPending := by
    rw [Instruction.taken, Cpu.taking_frame]
    rfl
  have hline : (i.taken c b).irqLine = c.irqLine := by
    rw [Instruction.taken, Cpu.taking_frame]
    rfl
  unfold Instruction.after
  rw [Operation.outcome_frame]
  exact ⟨hpending, hline⟩

theorem Cpu.status_taking (c : Cpu) (b : Bus β) (n : Nat) :
    (c.taking b n).status = c.status := by
  rw [taking_frame]

theorem AddressingMode.attempts_are_reads (mode : AddressingMode) (c : Cpu) (b : Bus β) :
    ∀ t ∈ mode.attempts c b, t.request.isWrite = false := by
  cases mode <;>
    simp [attempts, Cpu.fetches, pointer, operandBytes, Attempt.all, Request.isWrite]

namespace Exec.Follows

variable {m : Machine β}

theorem execute (i : Instruction) :
    Follows (Exec.execute i) m (i.attempts m.cpu m.bus) (i.cycles m.cpu m.bus)
      (i.after m.cpu m.bus) := by
  refine cpu_bind ?_
  refine bind (p := []) (note _) fun j => ?_
  refine bind (p := []) (update (·.begin i.opcode)) fun j => ?_
  refine bind_of_reads (locate i.mode) (i.mode.attempts_are_reads _ _) fun j => ?_
  refine cpu_bind ?_
  rw [← List.append_nil (Operation.attempts _ _ _ _)]
  refine bind (perform i.operation _) fun j => ?_
  simp only [Cpu.status_taking]
  exact update_pure (·.charge (i.cycles m.cpu m.bus)) _

end Exec.Follows

namespace Exec

variable {m : Machine β}

/-- A step that is due an interrupt enters it. -/
theorem step_entry {v : InterruptVector} (h : m.cpu.dueInterrupt = some v) :
    Follows step m (Attempt.all (Request.entry m.cpu v false) m.cpu) Timing.interruptEntry
      (((m.cpu.entered (m.bus.vectorWord v)).acknowledge v).charge Timing.interruptEntry) := by
  refine Follows.cpu_bind ?_
  rw [h]
  have hentry : Follows (hardwareEntry v) m (Attempt.all (Request.entry m.cpu v false) m.cpu) ()
      (m.cpu.entered (m.bus.vectorWord v)) := by
    refine Follows.cpu_bind ?_
    rw [← List.append_nil (Attempt.all _ _)]
    exact (Follows.enter v false).bind fun j => Follows.cpu_bind (Follows.note _)
  rw [← List.append_nil (Attempt.all _ _)]
  exact hentry.bind fun j => Follows.update_pure _ _

/-- A step that is due an interrupt enters it. -/
theorem step_of_due {v : InterruptVector} (h : m.cpu.dueInterrupt = some v) :
    step m = interrupt v m := by
  change (match m.cpu.dueInterrupt with
    | some v => interrupt v
    | none => readInstruction >>= execute : Exec β Nat) m = _
  rw [h]

/-- A step that is not due an interrupt reads an instruction and executes it. -/
theorem step_of_quiet (hq : m.cpu.dueInterrupt = none) :
    step m = (readInstruction >>= execute) m := by
  change (match m.cpu.dueInterrupt with
    | some v => interrupt v
    | none => readInstruction >>= execute : Exec β Nat) m = _
  rw [hq]

/-- Where the opcode at the program counter is official, it is what is read. -/
theorem Follows.readInstruction {i : Instruction} (hi : m.bus.instruction? m.cpu.pc = some i) :
    Follows Exec.readInstruction m [⟨.read m.cpu.pc, m.cpu⟩] i m.cpu := by
  obtain ⟨hr, hd⟩ := Bus.read_of_instruction? hi
  refine cpu_bind ?_
  refine bind_of_reads (q := []) (read m.cpu.pc) (by simp [Request.isWrite]) fun j => ?_
  rw [Bus.peek_of_read hr, hd]
  exact pure i

/-- A step at an official opcode executes its instruction. -/
theorem step_instruction {i : Instruction} (hq : m.cpu.dueInterrupt = none)
    (hi : m.bus.instruction? m.cpu.pc = some i) :
    Follows step m (⟨.read m.cpu.pc, m.cpu⟩ :: i.attempts m.cpu m.bus) (i.cycles m.cpu m.bus)
      (i.after m.cpu m.bus) := by
  have hstep : Follows (readInstruction >>= execute) m
      ([⟨.read m.cpu.pc, m.cpu⟩] ++ i.attempts m.cpu m.bus) (i.cycles m.cpu m.bus)
      (i.after m.cpu m.bus) :=
    (Follows.readInstruction hi).bind_of_reads (by simp [Request.isWrite]) fun j =>
      Follows.execute i
  constructor
  · rw [step_of_quiet hq]
    exact hstep.granted
  · rw [step_of_quiet hq]
    exact hstep.refused

/-- A step at an official opcode that is granted all that its instruction asks for. -/
theorem step_granted {i : Instruction} {b' : Bus β} (hq : m.cpu.dueInterrupt = none)
    (hi : m.bus.instruction? m.cpu.pc = some i)
    (hb : m.bus.grant (i.requests m.cpu m.bus) = some b') :
    ∃ j, step m = .ok (i.cycles m.cpu m.bus) ⟨i.after m.cpu m.bus, b', j⟩ := by
  rw [← i.map_request_attempts, Bus.grant_eq_some_iff] at hb
  obtain ⟨hnone, rfl⟩ := hb
  obtain ⟨j, hok, -⟩ := (step_instruction hq hi).granted hnone
  exact ⟨j, hok⟩

/-- A step that cannot read its opcode ends there. -/
theorem step_unreadable {e : BusFault} (hq : m.cpu.dueInterrupt = none)
    (h : m.bus.read m.cpu.pc = .error e) (n : Nat) (c : Cpu) :
    Follows step m [⟨.read m.cpu.pc, m.cpu⟩] n c := by
  have ha : m.bus.answer (.read m.cpu.pc) = none := Bus.answer_of_read_error rfl h
  have hs : (m.bus.serve [⟨.read m.cpu.pc, m.cpu⟩]).refused = some ⟨.read m.cpu.pc, m.cpu⟩ := by
    rw [Bus.serve_cons_of_none (t := ⟨.read m.cpu.pc, m.cpu⟩) ha]
  have hread : Follows readInstruction m [⟨.read m.cpu.pc, m.cpu⟩] ⟨0, .nop, .implied⟩ m.cpu :=
    Follows.cpu_bind ((Follows.read m.cpu.pc).bind_of_refused hs _ _ _)
  have hstep := hread.bind_of_refused hs execute n c
  constructor
  · rw [step_of_quiet hq]
    exact hstep.granted
  · rw [step_of_quiet hq]
    exact hstep.refused

/-- A step at an opcode that is not official changes nothing. -/
theorem step_illegal {opcode : Byte} (hq : m.cpu.dueInterrupt = none)
    (h : m.bus.read m.cpu.pc = .ok opcode) (hd : Instruction.decode? opcode = none) :
    ∃ j, step m = .error (.illegalOpcode opcode m.cpu.pc) ⟨m.cpu, m.bus, j⟩ ∧
      j.accesses = m.journal.accesses ++ [.read m.cpu.pc (some opcode)] := by
  have hs : m.bus.serve [⟨.read m.cpu.pc, m.cpu⟩] =
      ⟨[.read m.cpu.pc (some opcode)], m.bus, none⟩ := by
    have ha : m.bus.answer (.read m.cpu.pc) = some m.bus := Bus.answer_of_read_ok rfl h
    rw [Bus.serve_cons_of_some (t := ⟨.read m.cpu.pc, m.cpu⟩) ha]
    rw [Request.granted, Bus.peek_of_read h]
    rfl
  obtain ⟨j, hr, hj⟩ := (Follows.read (m := m) m.cpu.pc).granted (by rw [hs])
  rw [hs] at hr hj
  refine ⟨j, ?_, hj⟩
  rw [step_of_quiet hq]
  apply bind_of_error
  refine (bind_of_ok hr _).trans ?_
  rw [Bus.peek_of_read h, hd]
  rfl

/-- Every step follows the plan, or stops at an opcode that is not official. -/
theorem step_plan (m : Machine β) :
    (∃ opcode, m.cpu.dueInterrupt = none ∧ m.bus.read m.cpu.pc = .ok opcode ∧
      Instruction.decode? opcode = none) ∨
    ∃ n c, Follows step m (m.cpu.attempts m.bus) n c := by
  unfold Cpu.attempts
  cases hq : m.cpu.dueInterrupt with
  | some v => exact .inr ⟨_, _, step_entry hq⟩
  | none =>
    cases hr : m.bus.read m.cpu.pc with
    | error e =>
      have hi : m.bus.instruction? m.cpu.pc = none := by rw [Bus.instruction?, hr]
      rw [hi]
      exact .inr ⟨0, m.cpu, step_unreadable hq hr 0 m.cpu⟩
    | ok opcode =>
      have hi := Bus.instruction?_of_read hr
      rw [hi]
      cases hd : Instruction.decode? opcode with
      | none => exact .inl ⟨opcode, rfl, rfl, hd⟩
      | some i =>
        rw [hd] at hi
        exact .inr ⟨_, _, step_instruction hq hi⟩

/-- A step that succeeds has entered an interrupt or executed an instruction, and was granted its
    plan. -/
theorem step_ok_cases {m' : Machine β} {n : Nat} (h : step m = .ok n m') :
    m.bus.grant (m.cpu.plan m.bus) = some m'.bus ∧
    ((∃ v, m.cpu.dueInterrupt = some v ∧ n = Timing.interruptEntry ∧
      m'.cpu =
        ((m.cpu.entered (m.bus.vectorWord v)).acknowledge v).charge Timing.interruptEntry) ∨
    ∃ i, m.cpu.dueInterrupt = none ∧ m.bus.instruction? m.cpu.pc = some i ∧
      n = i.cycles m.cpu m.bus ∧ m'.cpu = i.after m.cpu m.bus) := by
  rw [← Cpu.map_request_attempts, Bus.grant_eq_some_iff, Cpu.attempts]
  cases hq : m.cpu.dueInterrupt with
  | some v =>
    obtain ⟨hnone, hn, hcpu, hbus, -⟩ := (step_entry hq).ok h
    exact ⟨⟨hnone, hbus.symm⟩, .inl ⟨v, rfl, hn, hcpu⟩⟩
  | none =>
    cases hr : m.bus.read m.cpu.pc with
    | error e =>
      obtain ⟨hnone, -⟩ := (step_unreadable hq hr 0 m.cpu).ok h
      have ha : m.bus.answer (.read m.cpu.pc) = none := Bus.answer_of_read_error rfl hr
      rw [Bus.serve_cons_of_none (t := ⟨.read m.cpu.pc, m.cpu⟩) ha] at hnone
      cases hnone
    | ok opcode =>
      have hi := Bus.instruction?_of_read hr
      rw [hi]
      cases hd : Instruction.decode? opcode with
      | none =>
        obtain ⟨j, herr, -⟩ := step_illegal hq hr hd
        rw [herr] at h
        cases h
      | some i =>
        rw [hd] at hi
        obtain ⟨hnone, hn, hcpu, hbus, -⟩ := (step_instruction hq hi).ok h
        exact ⟨⟨hnone, hbus.symm⟩, .inr ⟨i, rfl, rfl, hn, hcpu⟩⟩

end Exec

end Console6502
