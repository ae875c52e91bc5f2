/-
  The cycles of a step.

  A step costs the entry of its opcode in the table of base counts, which is zero for the bytes that
  are no opcode only, and at most two penalties, each given outright here: one cycle where indexing
  carries into the high byte of the address (`Instruction.indexPenalty`), and one or two for a branch
  that is taken (`Instruction.branchPenalty`).  Steps charge what they report, failures charge
  nothing, so the counter never goes back.
-/
import Console6502.Board.Nrom
import Console6502.Proofs.FailureAtomicity
import Console6502.Proofs.Run

namespace Console6502

/-! ## Pages -/

theorem Word.toNat_high (w : Word) : (Word.high w).toNat = w.toNat / 256 := by
  have hw := w.isLt
  rw [Word.high, BitVec.extractLsb'_toNat, Nat.shiftRight_eq_div_pow]
  omega

theorem Word.toNat_low (w : Word) : (Word.low w).toNat = w.toNat % 256 := by
  rw [Word.low, BitVec.toNat_setWidth]

/-- Adding a byte leaves the page exactly if there is a carry out of the low byte. -/
theorem Word.leavesPage_add_ofByte (w : Word) (v : Byte) :
    Word.leavesPage w (w + Word.ofByte v) = decide (255 < (Word.low w).toNat + v.toNat) := by
  have hw := w.isLt
  have hv := v.isLt
  have hsum : (w + Word.ofByte v).toNat = (w.toNat + v.toNat) % 65536 := by
    have hwide : (Word.ofByte v).toNat = v.toNat := by
      rw [Word.ofByte, BitVec.toNat_setWidth]
      omega
    rw [BitVec.toNat_add, hwide]
  rw [Bool.eq_iff_iff, Word.leavesPage, bne_iff_ne, decide_eq_true_eq, ne_eq, ← BitVec.toNat_inj,
    Word.toNat_high, Word.toNat_high, hsum, Word.toNat_low]
  omega

/-! ## Penalties -/

/-- The instructions that pay for indexing: LDA, LDX, LDY, ORA, AND, EOR, ADC, SBC and CMP. -/
def Operation.paysForIndexing : Operation → Bool
  | load _ | logic _ | add | subtract | compare .a => true
  | _ => false

/-- Whether an operation is a branch. -/
def Operation.isBranch : Operation → Bool
  | branch _ _ => true
  | _ => false

/-- The modes `abs,X`, `abs,Y` and `(zp),Y`. -/
def AddressingMode.isIndexed : AddressingMode → Bool
  | absoluteX | absoluteY | indirectIndexed => true
  | _ => false

variable {β : Type} [Board β]

/-- The address that one of these modes adds an index to, and the index. -/
def AddressingMode.indexing (mode : AddressingMode) (c : Cpu) (b : Bus β) : Option (Word × Byte) :=
  match mode with
  | absoluteX => some (b.wordAt c.pc, c.x)
  | absoluteY => some (b.wordAt c.pc, c.y)
  | indirectIndexed => some (b.zeroPageWord (b.peek c.pc), c.y)
  | _ => none

/-- Where a branch goes: a signed distance away from the next instruction. -/
def Cpu.branchTarget (c : Cpu) (b : Bus β) : Word :=
  c.pc + 2 + Word.ofSigned (b.peek (c.pc + 1))

namespace Instruction

/-- One cycle if the instruction pays for indexing and the low byte of the address before it and the
    index exceed a byte. -/
def indexPenalty (i : Instruction) (c : Cpu) (b : Bus β) : Nat :=
  match i.mode.indexing (c.begin i.opcode) b with
  | some (base, index) =>
    if i.operation.paysForIndexing ∧ 255 < (Word.low base).toNat + index.toNat then 1 else 0
  | none => 0

/-- One cycle for a branch that is taken, and one more if its target lies in another page than the
    next instruction. -/
def branchPenalty (i : Instruction) (c : Cpu) (b : Bus β) : Nat :=
  match i.operation with
  | .branch flag value =>
    if c.status.get flag = value then
      if Word.high (c.branchTarget b) = Word.high (c.pc + 2) then 1 else 2
    else 0
  | _ => 0

/-- The branches are what is relative. -/
theorem isBranch_iff {opcode : Byte} {i : Instruction} (h : decode? opcode = some i) :
    i.operation.isBranch = true ↔ i.mode = .relative :=
  of_decode? (P := fun i => i.operation.isBranch = true ↔ i.mode = .relative)
    (by decide +kernel) h

/-- Comparisons with an index register are never indexed. -/
theorem paysPageCross_eq {opcode : Byte} {i : Instruction} (h : decode? opcode = some i) :
    i.mode.isIndexed = true → i.operation.paysPageCross = i.operation.paysForIndexing :=
  of_decode? (P := fun i =>
    i.mode.isIndexed = true → i.operation.paysPageCross = i.operation.paysForIndexing)
    (by decide +kernel) h

/-- The base count leaves room for the penalties. -/
theorem base_bounds {opcode : Byte} {i : Instruction} (h : decode? opcode = some i) :
    2 ≤ Timing.ofOpcode i.opcode ∧
      Timing.ofOpcode i.opcode + (if i.mode.isIndexed ∧ i.operation.paysForIndexing then 1 else 0) +
        (if i.operation.isBranch then 2 else 0) ≤ 7 :=
  of_decode? (P := fun i => 2 ≤ Timing.ofOpcode i.opcode ∧
    Timing.ofOpcode i.opcode + (if i.mode.isIndexed ∧ i.operation.paysForIndexing then 1 else 0) +
      (if i.operation.isBranch then 2 else 0) ≤ 7) (by decide +kernel) h

theorem indexPenalty_le (i : Instruction) (c : Cpu) (b : Bus β) :
    i.indexPenalty c b ≤ if i.mode.isIndexed ∧ i.operation.paysForIndexing then 1 else 0 := by
  unfold indexPenalty
  by_cases hpays : i.operation.paysForIndexing
  · cases i.mode <;> simp only [AddressingMode.indexing, AddressingMode.isIndexed, hpays] <;>
      split <;> simp
  · cases i.mode <;> simp [AddressingMode.indexing, hpays]

theorem branchPenalty_le (i : Instruction) (c : Cpu) (b : Bus β) :
    i.branchPenalty c b ≤ if i.operation.isBranch then 2 else 0 := by
  unfold branchPenalty
  split
  · next hop =>
    rw [hop]
    simp only [Operation.isBranch, if_true]
    split
    · split <;> omega
    · omega
  · exact Nat.zero_le _

end Instruction

/-- An operand that was indexed lies in another page exactly if the low byte was exceeded. -/
theorem AddressingMode.crossed_operandOf {mode : AddressingMode} (hmode : mode ≠ .relative)
    (c : Cpu) (b : Bus β) :
    (mode.operandOf c b).crossed =
      match mode.indexing c b with
      | some (base, index) => decide (255 < (Word.low base).toNat + index.toNat)
      | none => false := by
  cases mode with
  | absoluteX | absoluteY | indirectIndexed => exact Word.leavesPage_add_ofByte _ _
  | relative => exact absurd rfl hmode
  | _ => rfl

namespace Instruction

theorem extraCycles_of_branch {i : Instruction} {flag : Flag} {value : Bool}
    (hop : i.operation = .branch flag value) (hmode : i.mode = .relative) (c : Cpu) (b : Bus β) :
    i.operation.extraCycles (i.operand c b) c.status = i.branchPenalty c b := by
  have hcrossed : (i.operand c b).crossed =
      (Word.high (c.pc + 2) != Word.high (c.branchTarget b)) := by
    rw [operand, hmode, Cpu.branchTarget, ← Word.add_one_add_one]
    rfl
  simp only [branchPenalty, Operation.extraCycles, hop]
  by_cases htaken : c.status.get flag = value
  · rw [if_pos htaken, if_pos htaken, hcrossed]
    by_cases hpage : Word.high (c.branchTarget b) = Word.high (c.pc + 2)
    · rw [if_pos hpage, hpage, bne_self_eq_false]
      rfl
    · rw [if_neg hpage, bne_iff_ne.mpr (Ne.symm hpage)]
      rfl
  · rw [if_neg htaken, if_neg htaken]

theorem extraCycles_of_not_branch {i : Instruction} (hop : i.operation.isBranch = false)
    (hmode : i.mode ≠ .relative)
    (hpays : i.mode.isIndexed = true → i.operation.paysPageCross = i.operation.paysForIndexing)
    (c : Cpu) (b : Bus β) :
    i.operation.extraCycles (i.operand c b) c.status = i.indexPenalty c b := by
  have hextra : i.operation.extraCycles (i.operand c b) c.status =
      if i.operation.paysPageCross then (i.operand c b).crossed.toNat else 0 := by
    unfold Operation.extraCycles
    split
    · next h =>
      rw [h] at hop
      cases hop
    · rfl
  rw [hextra, operand, AddressingMode.crossed_operandOf hmode, indexPenalty]
  cases hindexing : i.mode.indexing (c.begin i.opcode) b with
  | none => exact ite_self 0
  | some pair =>
    have hindexed : i.mode.isIndexed = true := by
      revert hindexing
      cases i.mode <;> intro hindexing <;> first | rfl | cases hindexing
    rw [hpays hindexed]
    by_cases hp : i.operation.paysForIndexing
    · by_cases hc : 255 < (Word.low pair.1).toNat + pair.2.toNat <;> simp [hp, hc]
    · simp [hp]

theorem branchPenalty_of_not_branch {i : Instruction} (hop : i.operation.isBranch = false)
    (c : Cpu) (b : Bus β) : i.branchPenalty c b = 0 := by
  have hle := i.branchPenalty_le c b
  rw [hop] at hle
  exact Nat.le_zero.mp hle

theorem indexPenalty_of_branch {i : Instruction} (hop : i.operation.isBranch = true) (c : Cpu)
    (b : Bus β) : i.indexPenalty c b = 0 := by
  have hpays : i.operation.paysForIndexing = false := by
    revert hop
    cases i.operation <;> intro hop <;> first | rfl | cases hop
  have hle := i.indexPenalty_le c b
  rw [hpays] at hle
  simpa using hle

/-- The cycles beyond the base count are the two penalties. -/
theorem extraCycles_eq {opcode : Byte} {i : Instruction} (h : decode? opcode = some i) (c : Cpu)
    (b : Bus β) :
    i.operation.extraCycles (i.operand c b) c.status =
      i.indexPenalty c b + i.branchPenalty c b := by
  have hrelative := isBranch_iff h
  cases hop : i.operation.isBranch with
  | true =>
    obtain ⟨flag, value, hbranch⟩ : ∃ flag value, i.operation = .branch flag value := by
      revert hop
      cases i.operation <;> intro hop <;> first | exact ⟨_, _, rfl⟩ | cases hop
    rw [indexPenalty_of_branch hop, Nat.zero_add]
    exact extraCycles_of_branch hbranch (hrelative.mp hop) c b
  | false =>
    have hmode : i.mode ≠ .relative := by
      intro hmode
      rw [hrelative.mpr hmode] at hop
      cases hop
    rw [branchPenalty_of_not_branch hop]
    exact extraCycles_of_not_branch hop hmode (paysPageCross_eq h) c b

/-- An instruction takes its base count and its penalties. -/
theorem cycles_eq {opcode : Byte} {i : Instruction} (h : decode? opcode = some i) (c : Cpu)
    (b : Bus β) :
    i.cycles c b =
      Timing.ofOpcode i.opcode + i.indexPenalty c b + i.branchPenalty c b := by
  rw [cycles, extraCycles_eq h, Nat.add_assoc]

theorem cycles_bounds {opcode : Byte} {i : Instruction} (h : decode? opcode = some i) (c : Cpu)
    (b : Bus β) : 2 ≤ i.cycles c b ∧ i.cycles c b ≤ 7 := by
  -- the table leaves room for the largest penalty that each opcode can come to
  obtain ⟨hlow, hhigh⟩ := base_bounds h
  have hindex := i.indexPenalty_le c b
  have hbranch := i.branchPenalty_le c b
  rw [cycles_eq h]
  omega

end Instruction

/-! ## The counter -/

theorem Cpu.cycle_taking (c : Cpu) (b : Bus β) (n : Nat) : (c.taking b n).cycle = c.cycle := by
  rw [taking_frame]

/-- No operation charges cycles by itself. -/
theorem Operation.cycle_outcome (operation : Operation) (operand : Operand) (c : Cpu) (b : Bus β) :
    (operation.outcome operand c b).cycle = c.cycle := by
  rw [outcome_frame]

theorem Instruction.cycle_after (i : Instruction) (c : Cpu) (b : Bus β) :
    (i.after c b).cycle = c.cycle + i.cycles c b := by
  have h := i.operation.cycle_outcome (i.operand c b) (i.taken c b) b
  rw [Instruction.taken, Cpu.cycle_taking] at h
  exact congrArg (· + i.cycles c b) h

namespace Machine

/-- A step charges what it reports. -/
theorem cycle_of_ok {m m' : Machine β} {n : Nat} (h : Exec.step m = .ok n m') :
    m'.cpu.cycle = m.cpu.cycle + n := by
  obtain ⟨-, ⟨v, -, rfl, hcpu⟩ | ⟨i, -, -, rfl, hcpu⟩⟩ := Exec.step_ok_cases h
  · rw [hcpu]
    cases v <;> rfl
  · rw [hcpu]
    exact i.cycle_after m.cpu m.bus

/-- A failed step charges nothing. -/
theorem cycle_of_error {m m' : Machine β} {e : CpuFault} (h : Exec.step m = .error e m') :
    m'.cpu.cycle = m.cpu.cycle := by
  rw [Exec.step_error_cpu h]

theorem cycle_react_le (m : Machine β) (s : Stimulus) : m.cpu.cycle ≤ (m.react s).cpu.cycle := by
  cases s with
  | step =>
    show m.cpu.cycle ≤ m.afterStep.cpu.cycle
    unfold afterStep
    split
    · next n m' h =>
      rw [cycle_of_ok h]
      omega
    · next e m' h => exact Nat.le_of_eq (cycle_of_error h).symm
  | requestNmi | driveIrq asserted => exact Nat.le_refl _

/-- The counter never goes back. -/
theorem cycle_run_le (m : Machine β) (l : List Stimulus) : m.cpu.cycle ≤ (m.run l).cpu.cycle := by
  refine run_invariant (P := fun m' => m.cpu.cycle ≤ m'.cpu.cycle) ?_ m l (Nat.le_refl _)
  intro m' s h
  exact Nat.le_trans h (m'.cycle_react_le s)

end Machine

/-- The base count of an opcode stands in the table by the high and by the low digit of the opcode,
    and is not zero if the opcode is official. -/
theorem Instruction.base_eq {opcode : Byte} {i : Instruction} (h : decode? opcode = some i) :
    Timing.ofOpcode i.opcode =
      (Timing.table.get (Fin.ofNat 16 (i.opcode.toNat / 16))).get (Fin.ofNat 16 i.opcode.toNat) ∧
    Timing.ofOpcode i.opcode ≠ 0 := by
  have hall : ∀ opcode : Byte, Timing.ofOpcode opcode =
      (Timing.table.get (Fin.ofNat 16 (opcode.toNat / 16))).get (Fin.ofNat 16 opcode.toNat) := by
    decide +kernel
  refine ⟨hall _, fun hzero => ?_⟩
  rw [Timing.ofOpcode_eq_zero_iff, opcode_of_decode? h, h] at hzero
  cases hzero

/-- The cycles of a step.  A step that succeeds charges what it reports, between two and seven
    cycles: seven for the entry of an interrupt, and otherwise what the table has at the high and
    the low digit of the opcode, which is not zero, with the penalties for indexing and for a
    branch.  A step that fails charges nothing, and so the counter never goes back in a run. -/
theorem Exec.step_cycles (m : Machine β) :
    (match Exec.step m with
    | .ok n m' =>
      m'.cpu.cycle = m.cpu.cycle + n ∧ 2 ≤ n ∧ n ≤ 7 ∧
      match m.cpu.dueInterrupt with
      | some _ => n = 7
      | none => ∃ i base, m.bus.instruction? m.cpu.pc = some i ∧
        base = (Timing.table.get (Fin.ofNat 16 (i.opcode.toNat / 16))).get
          (Fin.ofNat 16 i.opcode.toNat) ∧ base ≠ 0 ∧
        n = base + i.indexPenalty m.cpu m.bus + i.branchPenalty m.cpu m.bus
    | .error _ m' => m'.cpu.cycle = m.cpu.cycle) ∧
    ∀ l l', (m.run l).cpu.cycle ≤ (m.run (l ++ l')).cpu.cycle := by
  constructor
  · cases h : Exec.step m with
    | error e m' => exact Machine.cycle_of_error h
    | ok n m' =>
      have hcharged := Machine.cycle_of_ok h
      obtain ⟨-, ⟨v, hq, hn, -⟩ | ⟨i, hq, hi, hn, -⟩⟩ := step_ok_cases h
      · have hseven : n = 7 := hn
        simp only [hq]
        exact ⟨hcharged, by omega, by omega, hseven⟩
      · have hd := (Bus.read_of_instruction? hi).2
        obtain ⟨hlow, hhigh⟩ := Instruction.cycles_bounds hd m.cpu m.bus
        obtain ⟨hbase, hofficial⟩ := Instruction.base_eq hd
        simp only [hq]
        rw [hn] at hcharged ⊢
        exact ⟨hcharged, hlow, hhigh, i, _, hi, hbase, hofficial,
          Instruction.cycles_eq hd m.cpu m.bus⟩
  · intro l l'
    rw [Machine.run_append]
    exact (m.run l).cycle_run_le l'

namespace Machine

/-- JMP $2000 lies in the picture registers. -/
def jumping : Machine Nrom where
  cpu := { pc := 0x2000 }
  bus := { picture := (PictureRegisters.zero.write 0x2000 0x4C).write 0x2002 0x20 }

/-- BRK lies in the first cell of memory. -/
def breaking : Machine Nrom where
  bus := { board := some (Nrom.ofImage #[0x4C, 0x00, 0x80] 0) }

/-- LDA $20FF,X lies in the picture registers, and X is one. -/
def crossing : Machine Nrom where
  cpu := { pc := 0x2000, x := 1 }
  bus :=
    { picture := ((PictureRegisters.zero.write 0x2000 0xBD).write 0x2001 0xFF).write 0x2002 0x20 }

/-- A jump, a software interrupt, and a read that leaves its page. -/
theorem counted_steps :
    (∃ m', Exec.step jumping = .ok 3 m') ∧ (∃ m', Exec.step breaking = .ok 7 m') ∧
      ∃ m', Exec.step crossing = .ok 5 m' := by
  -- what the counts come to where the step succeeds at a known instruction
  have hcount : ∀ (m : Machine Nrom) (i : Instruction), m.cpu.dueInterrupt = none →
      m.bus.instruction? m.cpu.pc = some i → (∃ n m', Exec.step m = .ok n m') →
      ∃ m', Exec.step m = .ok ((Timing.table.get (Fin.ofNat 16 (i.opcode.toNat / 16))).get
        (Fin.ofNat 16 i.opcode.toNat) + i.indexPenalty m.cpu m.bus +
          i.branchPenalty m.cpu m.bus) m' := by
    rintro m i hq hi ⟨n, m', hstep⟩
    have hcycles := (Exec.step_cycles m).1
    rw [hstep] at hcycles
    simp only [hq] at hcycles
    obtain ⟨-, -, -, i', base, hi', rfl, -, hn⟩ := hcycles
    obtain rfl : i = i' := Option.some.inj (hi.symm.trans hi')
    exact ⟨m', hn ▸ hstep⟩
  exact ⟨hcount jumping ⟨0x4C, .jump, .absolute⟩ rfl rfl ⟨_, _, rfl⟩,
    hcount breaking ⟨0x00, .brk, .implied⟩ rfl rfl ⟨_, _, rfl⟩,
    hcount crossing ⟨0xBD, .load .a, .absoluteX⟩ rfl rfl ⟨_, _, rfl⟩⟩

end Machine

end Console6502
