/-
  The length of an instruction and what a step consumes.

  `Instruction.length` says how many bytes an instruction has.  A step takes just these bytes: it
  goes on behind them unless the instruction goes elsewhere, BRK and JSR push the address behind
  them or that of the last of them, and the processor keeps the bytes that it has read.

  Whether a branch was taken shows in the cycles of the step: only a branch that is taken takes
  longer than its base count (`Instruction.HasBranched`).
-/
import Console6502.Proofs.EffectiveAddress
import Console6502.Proofs.ReturnTransparency

namespace Console6502

variable {β : Type} [Board β]

/-- The operations that go elsewhere whatever the flags are. -/
def Operation.redirects : Operation → Bool
  | brk | call | returnFromCall | returnFromInterrupt | jump => true
  | _ => false

/-- The instruction is a branch and took longer than its base count. -/
def Instruction.HasBranched (i : Instruction) (cycles : Nat) : Prop :=
  i.operation.isBranch = true ∧ Timing.ofOpcode i.opcode < cycles

theorem Bus.answers_of_grant {b b' : Bus β} {p : List Request}
    (hp : ∀ r ∈ p, r.isWrite = false) (h : b.grant p = some b') :
    ∀ r ∈ p, b.Answers r.address := by
  rw [← Attempt.map_request_all p {}, Bus.grant_eq_some_iff] at h
  have hanswers := (Bus.serve_reads_iff (Attempt.forall_all hp {})).mp h.1
  exact fun r hr => hanswers ⟨r, {}⟩ (List.mem_map.mpr ⟨r, hr, rfl⟩)

/-- An operation that does not redirect leaves the program counter where it is, unless it is a
    branch whose flag has the value that it asks for. -/
theorem Operation.pc_outcome {operation : Operation} (h : operation.redirects = false)
    {c : Cpu} (hbranch : ∀ flag value, operation = .branch flag value →
      c.status.get flag ≠ value) (operand : Operand) (b : Bus β) :
    (operation.outcome operand c b).pc = c.pc := by
  have hput : ∀ (d : Cpu) (r : Register) (v : Byte), (d.loaded r v).pc = d.pc := by
    intro d r v
    cases r <;> rfl
  cases operation with
  | load r | increment r | decrement r | transfer s r => exact hput c r _
  | logic how => cases how <;> rfl
  | modify how => cases operand <;> rfl
  | branch flag value =>
    unfold outcome
    simp only
    rw [if_neg (hbranch flag value rfl)]
  | brk | call | returnFromCall | returnFromInterrupt | jump => cases h
  | _ => rfl

namespace Instruction

variable {i : Instruction} {c : Cpu} {b b' : Bus β}

/-- Behind its operand bytes an instruction is behind its whole length, but for the padding byte
    of BRK. -/
theorem pc_taken (h : i.operation ≠ .brk) :
    (i.taken c b).pc = c.pc + BitVec.ofNat 16 i.length := by
  have hlength : i.length = 1 + i.mode.operandBytes := by
    unfold length
    split
    · contradiction
    · rfl
  rw [taken, Cpu.pc_taking _ b i.mode.operandBytes_le, hlength, BitVec.ofNat_add,
    ← BitVec.add_assoc]
  rfl

/-- The bytes of a granted instruction are on the bus. -/
theorem answers_bytes (h : b.grant (i.requests c b) = some b') :
    b.Answers c.pc ∧ ∀ r ∈ Request.bytes (c.pc + 1) i.mode.operandBytes, b.Answers r.address := by
  have hreads : ∀ r ∈ Request.bytes c.pc (1 + i.mode.operandBytes), r.isWrite = false := by
    cases i.mode <;> simp [Request.bytes, AddressingMode.operandBytes, Request.isWrite]
  rw [requests, Bus.grant_append] at h
  obtain ⟨b'', hbytes, -⟩ := Option.bind_eq_some_iff.mp h
  have hanswers := Bus.answers_of_grant hreads hbytes
  rw [Nat.add_comm, Request.bytes] at hanswers
  exact List.forall_mem_cons.mp hanswers

/-- An instruction keeps its opcode and its operand bytes. -/
theorem bytes_after (i : Instruction) (c : Cpu) (b : Bus β) :
    (i.after c b).opcode = i.opcode ∧ (i.after c b).low = (i.taken c b).low ∧
      (i.after c b).high = (i.taken c b).high := by
  have hopcode : (i.taken c b).opcode = i.opcode := by
    rw [taken, Cpu.taking_frame]
    rfl
  unfold after
  rw [Operation.outcome_frame]
  exact ⟨hopcode, rfl, rfl⟩

/-- A branch takes longer than its base count exactly if its flag has the value that it asks for. -/
theorem hasBranched_iff {flag : Flag} {value : Bool} (h : i.operation = .branch flag value) :
    i.HasBranched (i.cycles c b) ↔ c.status.get flag = value := by
  have hbranch : i.operation.isBranch = true := by
    rw [h]
    rfl
  rw [HasBranched, and_iff_right hbranch, cycles, h, Operation.extraCycles]
  by_cases hflag : c.status.get flag = value
  · rw [if_pos hflag]
    exact iff_of_true (by omega) hflag
  · rw [if_neg hflag]
    exact iff_of_false (by omega) hflag

/-- An instruction that neither redirects nor branches goes on behind its bytes. -/
theorem pc_after (hstays : i.operation.redirects = false)
    (hbranch : ¬ i.HasBranched (i.cycles c b)) :
    (i.after c b).pc = c.pc + BitVec.ofNat 16 i.length := by
  have hflag : ∀ flag value, i.operation = .branch flag value →
      (i.taken c b).status.get flag ≠ value := by
    intro flag value hop hflag
    rw [taken, Cpu.status_taking] at hflag
    exact hbranch ((hasBranched_iff hop).mpr hflag)
  have hbrk : i.operation ≠ .brk := by
    intro hop
    rw [hop] at hstays
    cases hstays
  rw [← pc_taken (b := b) hbrk]
  exact Operation.pc_outcome hstays hflag _ b

/-- A branch that is taken goes on a signed distance behind its two bytes. -/
theorem pc_after_branch {flag : Flag} {value : Bool} (hmode : i.mode = .relative)
    (h : i.operation = .branch flag value) (hflag : c.status.get flag = value) :
    (i.after c b).pc = BitVec.ofInt 16 (c.pc.toNat + 2 + (b.peek (c.pc + 1)).toInt) := by
  have hpc : (i.after c b).pc = c.pc + 1 + 1 + Word.ofSigned (b.peek (c.pc + 1)) := by
    have hstatus : (i.taken c b).status.get flag = value := by
      rw [taken, Cpu.status_taking]
      exact hflag
    rw [after, h, Operation.outcome, if_pos hstatus, operand, hmode]
    rfl
  apply BitVec.eq_of_toNat_eq
  rw [hpc, Word.add_ofSigned, Word.add_one_add_one, BitVec.toNat_ofInt, BitVec.toNat_ofInt,
    BitVec.toNat_add]
  change ((((c.pc.toNat + 2) % 65536 : Nat) + (b.peek (c.pc + 1)).toInt) % 65536).toNat = _
  omega

end Instruction

/-- What a processor has of an instruction behind it: the opcode, and the operand bytes as far as
    the mode has them, otherwise zero.  BRK does not read its padding byte. -/
structure Cpu.KeepsBytes (c c' : Cpu) (b : Bus β) (operandBytes : Nat) : Prop where
  opcode : b.read c.pc = .ok c'.opcode
  low : if 0 < operandBytes then b.read (c.pc + 1) = .ok c'.low else c'.low = 0
  high : if 1 < operandBytes then b.read (c.pc + 2) = .ok c'.high else c'.high = 0

theorem Instruction.keepsBytes_after {i : Instruction} {c : Cpu} {b b' : Bus β}
    (hi : b.instruction? c.pc = some i) (h : b.grant (i.requests c b) = some b') :
    c.KeepsBytes (i.after c b) b i.mode.operandBytes := by
  obtain ⟨hopcode, hlow, hhigh⟩ := i.bytes_after c b
  have htaken : (c.begin i.opcode).HasTaken b i.mode.operandBytes (i.taken c b) :=
    Cpu.hasTaken_taking i.mode.operandBytes_le (answers_bytes h).2
  have hfirst : BitVec.ofNat 16 (c.begin i.opcode).pc.toNat = c.pc + 1 := Word.ofNat_toNat _
  have hsecond : BitVec.ofNat 16 ((c.begin i.opcode).pc.toNat + 1) = c.pc + 2 :=
    (Word.ofNat_toNat_add_one _).trans (Word.add_one_add_one c.pc)
  refine ⟨hopcode ▸ (Bus.read_of_instruction? hi).1, ?_, ?_⟩
  · rw [hlow, ← hfirst]
    exact htaken.low
  · rw [hhigh, ← hsecond]
    exact htaken.high

/-- Of an instruction with an operand byte that byte can be read. -/
theorem Instruction.read_operand {i : Instruction} {c : Cpu} {b b' : Bus β}
    (hbytes : i.mode.operandBytes = 1) (h : b.grant (i.requests c b) = some b') :
    b.read (c.pc + 1) = .ok (b.peek (c.pc + 1)) := by
  have hanswers := (answers_bytes h).2
  rw [hbytes] at hanswers
  exact Bus.read_of_answers (hanswers _ (List.mem_cons_self ..))

/-- A step that executes an instruction consumes the bytes of its length and no others.

    It goes on behind them, unless the operation goes elsewhere or is a branch that is taken.  A
    branch is taken exactly if its flag has the value that it asks for, and then goes on the signed
    distance behind them that its operand byte stands for.  BRK pushes the address behind them, JSR
    that of the last one.  The opcode and the operand bytes are kept. -/
theorem Exec.instruction_length (m m' : Machine β) (n : Nat) (i : Instruction)
    (hq : m.cpu.dueInterrupt = none) (hi : m.bus.instruction? m.cpu.pc = some i)
    (h : Exec.step m = .ok n m') :
    (i.operation.redirects = false → ¬ i.HasBranched n →
      m'.cpu.pc = m.cpu.pc + BitVec.ofNat 16 i.length) ∧
    (∀ flag value, i.operation = .branch flag value →
      (i.HasBranched n ↔ m.cpu.status.get flag = value) ∧
      (i.HasBranched n → ∃ distance, m.bus.read (m.cpu.pc + 1) = .ok distance ∧
        m'.cpu.pc = BitVec.ofInt 16 (m.cpu.pc.toNat + 2 + distance.toInt))) ∧
    (i.operation = .brk → m'.cpu.sp = m.cpu.sp - 3 ∧
      m'.HoldsReturn (m.cpu.pc + BitVec.ofNat 16 i.length) (m.cpu.status.stackByte true)) ∧
    (i.operation = .call → m'.cpu.sp = m.cpu.sp - 2 ∧
      m'.HoldsCall (m.cpu.pc + BitVec.ofNat 16 i.length - 1)) ∧
    m.cpu.KeepsBytes m'.cpu m.bus i.mode.operandBytes := by
  have hd := (Bus.read_of_instruction? hi).2
  obtain ⟨hbus, ⟨v, hv, -⟩ | ⟨i', -, hi', rfl, hcpu⟩⟩ := Exec.step_ok_cases h
  · rw [hq] at hv
    cases hv
  obtain rfl := Option.some.inj (hi.symm.trans hi')
  rw [Cpu.plan, hq, hi] at hbus
  refine ⟨?_, ?_, ?_, ?_, ?_⟩
  · intro hstays hbranch
    rw [hcpu]
    exact Instruction.pc_after hstays hbranch
  · intro flag value hop
    have hmode : i.mode = .relative := (Instruction.isBranch_iff hd).mp (by rw [hop]; rfl)
    have hbranched := Instruction.hasBranched_iff (c := m.cpu) (b := m.bus) hop
    refine ⟨hbranched, fun htaken => ⟨_, Instruction.read_operand (by rw [hmode]; rfl) hbus, ?_⟩⟩
    rw [hcpu]
    exact Instruction.pc_after_branch hmode hop (hbranched.mp htaken)
  · intro hop
    have hlength : i.length = 2 := by rw [Instruction.length, hop]
    have hat : m.IsAt .brk := ⟨hq, i, hi, hop⟩
    obtain ⟨hheld, hsp⟩ := hat.holdsReturn h
    rw [hlength]
    exact ⟨hsp, hheld⟩
  · intro hop
    have hlength : i.length = 3 := by
      rw [Instruction.length, hop, (Instruction.mode_of_stack hd).1 hop]
      rfl
    have hat : m.IsAt .call := ⟨hq, i, hi, hop⟩
    obtain ⟨hheld, hsp⟩ := hat.holdsCall h
    have hlast : m.cpu.pc + BitVec.ofNat 16 i.length - 1 = m.cpu.pc + 2 := by
      rw [hlength]
      bv_omega
    rw [hlast]
    exact ⟨hsp, hheld⟩
  · rw [hcpu]
    exact Instruction.keepsBytes_after hi hbus

/-! ## Lengths at work -/

namespace Machine

/-- A ROM full of the opcode of LDA, and BNE, JSR and BRK one behind the other in the picture
    registers. -/
def lined (pc : Word) : Machine Nrom where
  cpu := { pc }
  bus :=
    { picture := ((PictureRegisters.zero.setCell 0 0xD0).setCell 1 0x80).setCell 2 0x20
      board := some (Nrom.ofImage #[0xAD] 0) }

/-- An LDA in the last byte of memory has its operand at the beginning of memory.  The branch goes
    back as far as it can, JSR pushes the address of its last byte, and BRK the one behind its
    padding byte. -/
theorem lined_lengths :
    (∃ n m', Exec.step (lined 0xFFFF) = .ok n m' ∧ m'.cpu.pc = 2 ∧
      (lined 0xFFFF).cpu.KeepsBytes m'.cpu (lined 0xFFFF).bus 2) ∧
    (∃ n m', Exec.step (lined 0x2000) = .ok n m' ∧
      ∃ distance, (lined 0x2000).bus.read 0x2001 = .ok distance ∧
        m'.cpu.pc = BitVec.ofInt 16 (0x2002 + distance.toInt)) ∧
    (∃ n m', Exec.step (lined 0x2002) = .ok n m' ∧ m'.HoldsCall 0x2004) ∧
    ∃ n m', Exec.step (lined 0x2005) = .ok n m' ∧ m'.HoldsReturn 0x2007 0x30 := by
  refine ⟨?_, ?_, ?_, ?_⟩
  · obtain ⟨hpc, -, -, -, hbytes⟩ := Exec.instruction_length (lined 0xFFFF) _ 4
      ⟨0xAD, .load .a, .absolute⟩ rfl rfl rfl
    exact ⟨4, _, rfl, hpc rfl (by simp [Instruction.HasBranched, Operation.isBranch]), hbytes⟩
  · obtain ⟨-, hbranch, -⟩ := Exec.instruction_length (lined 0x2000) _ 4
      ⟨0xD0, .branch .zero false, .relative⟩ rfl rfl rfl
    obtain ⟨htaken, htarget⟩ := hbranch .zero false rfl
    exact ⟨4, _, rfl, htarget (htaken.mpr rfl)⟩
  · obtain ⟨-, -, -, hcall, -⟩ := Exec.instruction_length (lined 0x2002) _ 6
      ⟨0x20, .call, .absolute⟩ rfl rfl rfl
    exact ⟨6, _, rfl, (hcall rfl).2⟩
  · obtain ⟨-, -, hbrk, -⟩ := Exec.instruction_length (lined 0x2005) _ 7
      ⟨0x00, .brk, .implied⟩ rfl rfl rfl
    exact ⟨7, _, rfl, (hbrk rfl).2⟩

end Machine

end Console6502
