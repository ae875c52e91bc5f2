/-
  The flags that a step can change.

  `Operation.affects` names the flags that an operation can change; every other flag is behind it
  what it was before (`Operation.get_status_outcome`).  An entry masks the IRQ line and changes no
  other flag, and a step that fails changes none.  So what becomes of one flag over a run is a matter
  of the few operations that name it.
-/
import Console6502.Proofs.InterruptLatch

namespace Console6502

/-- The flags that an operation can change. -/
def Operation.affects : Operation → List Flag
  | load _ | logic _ | increment _ | decrement _ | transfer _ _ | stackToX | pullA =>
    [.zero, .negative]
  | add | subtract => [.carry, .zero, .overflow, .negative]
  | compare _ | modify _ => [.carry, .zero, .negative]
  | bitTest => [.zero, .overflow, .negative]
  | setFlag flag _ => [flag]
  | brk => [.interruptDisable]
  | pullStatus | returnFromInterrupt => Flag.all
  | _ => []

namespace Operation

variable {β : Type} [Board β] {operation : Operation} {flag : Flag}

/-- The latches that an operation does not name it leaves as they are. -/
theorem get_status_outcome (h : flag ∉ operation.affects) (hon : flag ≠ .alwaysOn)
    (operand : Operand) (c : Cpu) (b : Bus β) :
    (operation.outcome operand c b).status.get flag = c.status.get flag := by
  have hne : ∀ {f : Flag}, f ∈ operation.affects → flag ≠ f := fun hf heq => h (heq ▸ hf)
  have hgo : ∀ d : Cpu, (d.goingTo operand).status = d.status := by
    intro d
    cases operand <;> rfl
  have hjudge : ∀ (s : Status) (v : Byte), .zero ∈ operation.affects →
      .negative ∈ operation.affects → (s.judge v).get flag = s.get flag :=
    fun s v hz hn => s.get_judge (hne hz) (hne hn) hon v
  have hset : ∀ (s : Status) {f : Flag} (on : Bool), f ∈ operation.affects →
      (s.set f on).get flag = s.get flag :=
    fun s f on hf => s.get_set_of_ne (hne hf).symm hon on
  cases operation with
  | load r | increment r | decrement r | transfer source target | stackToX | pullA =>
    exact hjudge _ _ (by simp [affects]) (by simp [affects])
  | logic how => cases how <;> exact hjudge _ _ (by simp [affects]) (by simp [affects])
  | add | subtract =>
    refine (hjudge _ _ (by simp [affects]) (by simp [affects])).trans ?_
    rw [hset _ _ (by simp [affects]), hset _ _ (by simp [affects])]
  | compare r =>
    refine (hjudge _ _ (by simp [affects]) (by simp [affects])).trans ?_
    exact hset _ _ (by simp [affects])
  | modify how =>
    have hjudged : ∀ (carry : Bool) (v : Byte),
        ((c.status.set .carry carry).judge v).get flag = c.status.get flag := by
      intro carry v
      rw [hjudge _ _ (by simp [affects]) (by simp [affects]), hset _ _ (by simp [affects])]
    cases operand with
    | implied | immediate v => rfl
    | accumulator | memory a crossed => exact hjudged _ _
  | bitTest =>
    simp only [outcome]
    rw [hset _ _ (by simp [affects]), hset _ _ (by simp [affects]), hset _ _ (by simp [affects])]
  | setFlag f on => exact hset _ _ (by simp [affects])
  | brk => exact hset _ _ (by simp [affects])
  | pullStatus | returnFromInterrupt => exact absurd (by cases flag <;> decide) h
  | jump | call => rw [outcome, hgo]
  | branch f on =>
    unfold outcome
    simp only
    split
    · rw [hgo]
    · rfl
  | store r | xToStack | pushA | pushStatus | returnFromCall | nop => rfl

/-- Every way in which an operation writes the status keeps bit 5 on, or puts it on. -/
theorem alwaysOn_outcome (operation : Operation) (operand : Operand) {c : Cpu}
    (hc : c.status.get .alwaysOn = true) (b : Bus β) :
    (operation.outcome operand c b).status.get .alwaysOn = true := by
  have hgo : ∀ d : Cpu, (d.goingTo operand).status = d.status := by
    intro d
    cases operand <;> rfl
  have hjudge : ∀ (s : Status) (v : Byte), s.get .alwaysOn = true →
      (s.judge v).get .alwaysOn = true :=
    fun s v hs => Status.get_set_alwaysOn _ (s.get_set_alwaysOn hs _ _) _ _
  have hcarry : ∀ on, (c.status.set .carry on).get .alwaysOn = true :=
    fun on => c.status.get_set_alwaysOn hc _ on
  cases operation with
  | load r | increment r | decrement r | transfer source target | stackToX | pullA =>
    exact hjudge _ _ hc
  | logic how => cases how <;> exact hjudge _ _ hc
  | add | subtract => exact hjudge _ _ (Status.get_set_alwaysOn _ (hcarry _) _ _)
  | compare r => exact hjudge _ _ (hcarry _)
  | modify how =>
    cases operand with
    | implied | immediate v => exact hc
    | accumulator | memory a crossed => exact hjudge _ _ (hcarry _)
  | bitTest =>
    have hzero := fun on => c.status.get_set_alwaysOn hc .zero on
    exact Status.get_set_alwaysOn _ (Status.get_set_alwaysOn _ (hzero _) _ _) _ _
  | setFlag f on => exact c.status.get_set_alwaysOn hc f on
  | brk => exact c.status.get_set_alwaysOn hc _ _
  | pullStatus | returnFromInterrupt => exact Status.alwaysOn_ofStackByte _
  | jump | call => rw [outcome, hgo, hc]
  | branch f on =>
    unfold outcome
    simp only
    split
    · rw [hgo, hc]
    · exact hc
  | store r | xToStack | pushA | pushStatus | returnFromCall | nop => exact hc

end Operation

/-! ## Steps -/

section Steps

variable {β : Type} [Board β] {m m' : Machine β} {n : Nat}

/-- A step that succeeds has entered an interrupt or executed an instruction. -/
theorem Machine.entered_or_executed (h : Exec.step m = .ok n m') :
    (∃ v, m.Entered m' v) ∨ ∃ i, m.Executed m' n i := by
  cases hq : m.cpu.dueInterrupt with
  | some v =>
    have henters := enters_of_due hq
    rw [Enters, h] at henters
    exact .inl ⟨v, henters.2⟩
  | none =>
    have hexecutes := executes_of_quiet hq
    rw [Executes, h] at hexecutes
    exact .inr hexecutes

theorem Machine.Entered.status {v : InterruptVector} (h : m.Entered m' v) :
    m'.cpu.status = m.cpu.status.set .interruptDisable true := by
  rw [h.cpu]
  cases v <;> rfl

/-- The status behind an instruction is that behind its operation. -/
theorem Machine.Executed.status {i : Instruction} (h : m.Executed m' n i) :
    ∃ operand c, c.status = m.cpu.status ∧
      m'.cpu.status = (i.operation.outcome operand c m.bus).status := by
  refine ⟨i.operand m.cpu m.bus, i.taken m.cpu m.bus, Cpu.status_taking _ _ _, ?_⟩
  rw [h.cpu]
  rfl

theorem Machine.Executed.get_status {i : Instruction} (h : m.Executed m' n i) {flag : Flag}
    (hflag : flag ∉ i.operation.affects) (hon : flag ≠ .alwaysOn) :
    m'.cpu.status.get flag = m.cpu.status.get flag := by
  obtain ⟨operand, c, hc, hstatus⟩ := h.status
  rw [hstatus, Operation.get_status_outcome hflag hon, hc]

theorem Exec.status_of_error {e : CpuFault} (h : step m = .error e m') :
    m'.cpu.status = m.cpu.status := by
  rw [step_error_cpu h]

end Steps

end Console6502
