/-
  How long an entry masks the IRQ line.

  An entry disables interrupts, and so does BRK.  From there on no IRQ is entered, however the line
  moves, until an instruction that can enable interrupts is executed: CLI, or one of the two that
  take the status from the stack (`Operation.Unmasks`).  Every other instruction, a further entry
  and a step that fails keep the mask (`Machine.masked_afterStep`), and so do rows of them
  (`Machine.masked_run`).  So between an IRQ that was taken and the next entry of one there is such
  an instruction.  An entry that cannot read its vector masks nothing, and is followed by another
  one at once (`Machine.vectorless_reentry`).
-/
import Console6502.Proofs.ReturnTransparency
import Console6502.Proofs.StatusFlags

namespace Console6502

variable {β : Type} [Board β]

/-! ## Operations -/

/-- The operations that can enable interrupts: CLI, PLP and RTI. -/
def Operation.Unmasks (operation : Operation) : Prop :=
  operation = .setFlag .interruptDisable false ∨ operation = .pullStatus ∨
    operation = .returnFromInterrupt

/-- Every other operation keeps the mask. -/
theorem Operation.masked_outcome {operation : Operation} (h : ¬ operation.Unmasks)
    (operand : Operand) {c : Cpu} (hc : c.status.interruptDisable = true) (b : Bus β) :
    (operation.outcome operand c b).status.interruptDisable = true := by
  by_cases hflag : Flag.interruptDisable ∈ operation.affects
  · cases operation with
    | brk => exact Status.get_set_self _ _ _
    | setFlag flag on =>
      obtain rfl := List.mem_singleton.mp hflag
      cases on with
      | true => exact Status.get_set_self _ _ _
      | false => exact absurd (.inl rfl) h
    | pullStatus => exact absurd (.inr (.inl rfl)) h
    | returnFromInterrupt => exact absurd (.inr (.inr rfl)) h
    | _ => simp [affects] at hflag
  · exact (get_status_outcome hflag (by decide) operand c b).trans hc

/-! ## Steps -/

namespace Machine

variable {m m' : Machine β} {n : Nat} {l : List Stimulus}

/-- The step from here enters an interrupt, and succeeds. -/
def Takes (m : Machine β) (v : InterruptVector) : Prop :=
  ∃ n m', Exec.step m = .ok n m' ∧ m.Entered m' v

/-- The step from here masks the IRQ line: it takes an NMI or an IRQ, or it executes BRK. -/
def Masks (m : Machine β) : Prop :=
  m.Takes .nmi ∨ m.Takes .irq ∨ m.IsAt .brk ∧ ∃ n m', Exec.step m = .ok n m'

/-- The step from here executes an instruction that can enable interrupts, and succeeds. -/
def Unmasks (m : Machine β) : Prop :=
  ∃ n m' i, Exec.step m = .ok n m' ∧ m.Executed m' n i ∧ i.operation.Unmasks

/-- No step of a run from here on unmasks the line. -/
def NeverUnmasks (m : Machine β) (l : List Stimulus) : Prop :=
  ∀ before after, l = before ++ .step :: after → ¬ (m.run before).Unmasks

theorem Takes.masked {v : InterruptVector} (h : m.Takes v) :
    m.afterStep.cpu.status.interruptDisable = true := by
  obtain ⟨n, m', hstep, hentered⟩ := h
  rw [afterStep_of_ok hstep, hentered.status]
  exact Status.get_set_self _ _ _

theorem Masks.masked (h : m.Masks) : m.afterStep.cpu.status.interruptDisable = true := by
  rcases h with hnmi | hirq | ⟨hbrk, n, m', hstep⟩
  · exact hnmi.masked
  · exact hirq.masked
  · obtain ⟨i, -, hop, -, hcpu⟩ := hbrk.of_ok hstep
    rw [afterStep_of_ok hstep, hcpu, Instruction.after, hop]
    exact Status.get_set_self _ _ _

/-- A step that does not unmask the line keeps it masked, whether it succeeds or fails. -/
theorem masked_afterStep (hm : m.cpu.status.interruptDisable = true) (h : ¬ m.Unmasks) :
    m.afterStep.cpu.status.interruptDisable = true := by
  cases hstep : Exec.step m with
  | error e m' =>
    have hafter : m.afterStep = m' := by rw [afterStep, hstep]
    rw [hafter, Exec.status_of_error hstep]
    exact hm
  | ok n m' =>
    rw [afterStep_of_ok hstep]
    rcases entered_or_executed hstep with ⟨v, hentered⟩ | ⟨i, hexecuted⟩
    · rw [hentered.status]
      exact Status.get_set_self _ _ _
    · obtain ⟨operand, c, hc, hstatus⟩ := hexecuted.status
      rw [hstatus]
      refine Operation.masked_outcome (fun hop => h ⟨n, m', i, hstep, hexecuted, hop⟩) operand ?_ _
      rw [hc]
      exact hm

/-- What never unmasks the line keeps it masked. -/
theorem masked_run (hm : m.cpu.status.interruptDisable = true) (h : m.NeverUnmasks l) :
    (m.run l).cpu.status.interruptDisable = true := by
  induction l generalizing m with
  | nil => exact hm
  | cons s l ih =>
    have hs : (m.react s).cpu.status.interruptDisable = true := by
      cases s with
      | step => exact masked_afterStep hm (h [] l rfl)
      | requestNmi | driveIrq asserted => exact hm
    exact ih hs fun before after hl => h (s :: before) after (by rw [hl, List.cons_append])

/-- While interrupts are disabled no IRQ is entered. -/
theorem not_enters_of_masked (hm : m.cpu.status.interruptDisable = true) : ¬ m.Enters .irq := by
  intro hirq
  have hclear := (m.cpu.dueInterrupt_eq_irq_iff.mp (enters_iff.mp hirq)).2.2
  rw [hm] at hclear
  cases hclear

theorem run_step_append (past l : List Stimulus) :
    m.run (past ++ .step :: l) = (m.run past).afterStep.run l := run_append m past (.step :: l)

/-! ## Runs -/

/-- In a run of steps that succeed or fail, of requests for an NMI and of changes of the IRQ line:
    where an IRQ was entered with success and another one is entered later, with or without success,
    some step between the two has executed CLI, PLP or RTI.  And behind an NMI, an IRQ or a BRK that
    was taken with success, for as long as no step executes one of these, interrupts stay disabled
    and no IRQ is entered, however the line moves. -/
theorem no_irq_reentry (m : Machine β) :
    (∀ past between, (m.run past).Takes .irq → (m.run (past ++ .step :: between)).Enters .irq →
      ∃ before after, between = before ++ .step :: after ∧
        (m.run (past ++ .step :: before)).Unmasks) ∧
    ∀ past l, (m.run past).Masks →
      (∀ before after, l = before ++ .step :: after →
        ¬ (m.run (past ++ .step :: before)).Unmasks) →
      (m.run (past ++ .step :: l)).cpu.status.interruptDisable = true ∧
        ¬ (m.run (past ++ .step :: l)).Enters .irq := by
  have hmasked : ∀ past l, (m.run past).Masks →
      (∀ before after, l = before ++ .step :: after →
        ¬ (m.run (past ++ .step :: before)).Unmasks) →
      (m.run (past ++ .step :: l)).cpu.status.interruptDisable = true := by
    intro past l hmasks hnever
    simp only [run_step_append] at hnever ⊢
    exact masked_run hmasks.masked hnever
  refine ⟨fun past between htakes henters => ?_, fun past l hmasks hnever => ?_⟩
  · by_contra hnone
    simp only [not_exists, not_and] at hnone
    exact not_enters_of_masked (hmasked past between (.inr (.inl htakes)) hnone) henters
  · have hafter := hmasked past l hmasks hnever
    exact ⟨hafter, not_enters_of_masked hafter⟩

/-- A machine whose interrupts all go to $8000, with a CLI there and then a NOP, and with its IRQ line
    asserted. -/
def hasty : Machine Nrom where
  cpu := { pc := 0x8000, irqLine := true }
  bus := { board := some (Nrom.ofImage #[0x58, 0xEA, 0x00, 0x80] 0) }

theorem takes_of_due {v : InterruptVector} (h : m.cpu.dueInterrupt = some v)
    (hstep : Exec.step m = .ok n m') : m.Takes v := by
  have henters := enters_of_due h
  rw [Enters, hstep] at henters
  exact ⟨n, m', hstep, henters.2⟩

/-- It takes an IRQ, executes the CLI, and takes an IRQ again.  Until the CLI no IRQ is entered, also
    where the line has been moved and an NMI has been requested. -/
theorem hasty_reentry :
    hasty.Takes .irq ∧ (hasty.run [.step]).Unmasks ∧ (hasty.run [.step, .step]).Enters .irq ∧
      ¬ (hasty.run [.step, .driveIrq false, .requestNmi, .driveIrq true]).Enters .irq := by
  obtain ⟨hbetween, hafter⟩ := no_irq_reentry hasty
  have hfirst : hasty.Takes .irq := takes_of_due (n := 7) rfl rfl
  have hagain : (hasty.run [.step, .step]).Enters .irq := enters_of_due rfl
  obtain ⟨before, after, hsplit, hunmasks⟩ := hbetween [] [.step] hfirst hagain
  obtain rfl : before = [] := by
    cases before with
    | nil => rfl
    | cons s before => simp at hsplit
  refine ⟨hfirst, hunmasks, hagain, (hafter [] _ (.inr (.inl hfirst)) ?_).2⟩
  intro before after hl
  have hmem : Stimulus.step ∈ [.driveIrq false, .requestNmi, .driveIrq true] := by
    rw [hl]
    exact List.mem_append_right before (List.mem_cons_self ..)
  simp at hmem

/-- A machine with an empty slot and a NOP in the first cell of memory, its IRQ line asserted. -/
def vectorless : Machine Nrom where
  cpu := { irqLine := true }
  bus := { ram := Ram.zero.write 0 0xEA }

/-- Two steps fail one behind the other at the vector of the IRQ.  Both are entries of it, with
    nothing between them, so an entry that fails does not keep the next one off. -/
theorem vectorless_reentry :
    (∃ m', Exec.step vectorless = .error (.vector .irq 0xFFFE) m') ∧
    (∃ m', Exec.step (vectorless.run [.step]) = .error (.vector .irq 0xFFFE) m') ∧
    ¬ ∀ past between, (vectorless.run past).Enters .irq →
      (vectorless.run (past ++ .step :: between)).Enters .irq →
        ∃ before after, between = before ++ .step :: after ∧
          (vectorless.run (past ++ .step :: before)).Unmasks := by
  refine ⟨⟨_, rfl⟩, ⟨_, rfl⟩, fun hclaim => ?_⟩
  have hfirst : (vectorless.run []).Enters .irq := enters_of_due rfl
  have hagain : (vectorless.run [.step]).Enters .irq := enters_of_due rfl
  obtain ⟨before, after, hsplit, -⟩ := hclaim [] [] hfirst hagain
  cases before <;> cases hsplit

end Machine

end Console6502
