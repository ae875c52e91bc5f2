/-
  Which steps enter an interrupt.

  What a step turned out to be shows in its outcome and in the log.  `Machine.Enters` says that it
  entered an interrupt, or failed at the vector and changed nothing; `Machine.Executes` says that it
  was one instruction, or failed in it or before it.  Which of these it is depends on the interrupt
  inputs alone (`enters_iff`, `executes_iff`).

  The NMI input is a latch: a request sets it, a step that succeeds leaves it clear, and a step that
  fails leaves it as it was.  So over a run an NMI is entered exactly by those steps before which
  there was a request since the last step.  The IRQ line is what it was last driven to.
-/
import Console6502.Board.Nrom
import Console6502.Proofs.FailureAtomicity
import Console6502.Proofs.JournalGrowth
import Console6502.Proofs.Run
import Mathlib.Data.List.DropRight

namespace Console6502

variable {β : Type} [Board β]

/-! ## What a step turns out to be -/

namespace Machine

/-- Behind an entry: the bus has taken what an entry pushes, the processor goes on at the vector
    with interrupts disabled and the interrupt acknowledged, and the log says that it was taken. -/
structure Entered (m m' : Machine β) (v : InterruptVector) : Prop where
  bus : m.bus.grant (Request.entry m.cpu v false) = some m'.bus
  cpu : m'.cpu =
    ((m.cpu.entered (m.bus.vectorWord v)).acknowledge v).charge Timing.interruptEntry
  notices : m'.journal.notices =
    m.journal.notices ++ [.interrupted v m.cpu.pc (m.bus.vectorWord v)]

/-- Behind an entry that could not read its vector: nothing has happened. -/
structure Unentered (m m' : Machine β) (v : InterruptVector) (e : CpuFault) : Prop where
  error : ∃ a, e = .vector v a
  bus : m'.bus = m.bus
  cpu : m'.cpu = m.cpu
  notices : m'.journal.notices = m.journal.notices

/-- The step from here is an entry through this vector, successful or not. -/
def Enters (m : Machine β) (v : InterruptVector) : Prop :=
  match Exec.step m with
  | .ok n m' => n = Timing.interruptEntry ∧ m.Entered m' v
  | .error e m' => m.Unentered m' v e

/-- The log has a new notice. -/
def Notes (m m' : Machine β) (n : Notice) : Prop :=
  ∃ l, m'.journal.notices = m.journal.notices ++ l ∧ n ∈ l

/-- Behind an instruction: it is the one at the program counter, the bus has granted all that it
    asks for, the processor is the one that it leaves, and it was announced in the log. -/
structure Executed (m m' : Machine β) (n : Nat) (i : Instruction) : Prop where
  instruction : m.bus.instruction? m.cpu.pc = some i
  bus : m.bus.grant (i.requests m.cpu m.bus) = some m'.bus
  cpu : m'.cpu = i.after m.cpu m.bus
  cycles : n = i.cycles m.cpu m.bus
  notices : m.Notes m' (.executing (i.traceLine m.cpu))

/-- The step from here is one instruction; or it fails in the instruction at the program counter,
    or there is none. -/
def Executes (m : Machine β) : Prop :=
  match Exec.step m with
  | .ok n m' => ∃ i, m.Executed m' n i
  | .error e m' =>
    (∃ i, m.bus.instruction? m.cpu.pc = some i ∧ m'.cpu = i.stalled m.cpu m.bus ∧
      m.Notes m' (.executing (i.traceLine m.cpu))) ∨
    (m.bus.instruction? m.cpu.pc = none ∧ m'.cpu = m.cpu ∧
      (e = .read m.cpu.pc ∨ ∃ opcode, e = .illegalOpcode opcode m.cpu.pc))

end Machine

/-! ## Entries in the log -/

namespace Exec

variable {m : Machine β}

/-- An entry is taken note of behind its transactions, and only if it succeeds. -/
theorem notices_of_entry {v : InterruptVector} (h : m.cpu.dueInterrupt = some v) :
    match Exec.step m with
    | .ok _ m' =>
      m'.journal.notices = m.journal.notices ++ [.interrupted v m.cpu.pc m'.cpu.pc]
    | .error _ m' => m'.journal.notices = m.journal.notices := by
  obtain ⟨l, hl, haccess⟩ := Adds.enter v false m
  have hquiet := Journal.notices_of_isAccess haccess
  rw [step_of_due h]
  cases henter : enter v false m with
  | error e m' =>
    have herror : interrupt v m = .error e m' := bind_of_error (bind_of_error henter _) _
    rw [stateAfter_of_error henter] at hl
    rw [herror]
    show m'.journal.notices = m.journal.notices
    rw [hl, Journal.notices_append, hquiet, List.append_nil]
  | ok u m' =>
    have hentry : hardwareEntry v m = .ok () (m'.note (.interrupted v m.cpu.pc m'.cpu.pc)) :=
      bind_of_ok henter _
    have hok : interrupt v m = .ok Timing.interruptEntry
        { m'.note (.interrupted v m.cpu.pc m'.cpu.pc) with
          cpu := (m'.cpu.acknowledge v).charge Timing.interruptEntry } := bind_of_ok hentry _
    have hpc : ((m'.cpu.acknowledge v).charge Timing.interruptEntry).pc = m'.cpu.pc := by
      cases v <;> rfl
    rw [stateAfter_of_ok henter] at hl
    rw [hok]
    simp only [hpc]
    show Journal.notices ([.notice _] ++ m'.journal) = _
    rw [Journal.notices_append, hl, Journal.notices_append, hquiet, List.append_nil]
    rfl

/-- An instruction is announced in the log, whatever comes of it. -/
theorem notes_of_instruction {i : Instruction} (hq : m.cpu.dueInterrupt = none)
    (hi : m.bus.instruction? m.cpu.pc = some i) :
    m.Notes (stateAfter Exec.step m) (.executing (i.traceLine m.cpu)) := by
  have hserve : (m.bus.serve [⟨.read m.cpu.pc, m.cpu⟩]).refused = none := by
    have ha := Bus.answer_of_read_ok (r := .read m.cpu.pc) rfl (Bus.read_of_instruction? hi).1
    rw [Bus.serve_cons_of_some (t := ⟨.read m.cpu.pc, m.cpu⟩) ha]
    rfl
  obtain ⟨j, hread, -⟩ := (Follows.readInstruction hi).granted hserve
  obtain ⟨l, hl, -⟩ := Adds.readInstruction m
  rw [stateAfter_of_ok hread] at hl
  obtain ⟨l', hl'⟩ := execute_announces i ⟨m.cpu, (m.bus.serve [⟨.read m.cpu.pc, m.cpu⟩]).bus, j⟩
  have hstep : stateAfter Exec.step m =
      stateAfter (execute i) ⟨m.cpu, (m.bus.serve [⟨.read m.cpu.pc, m.cpu⟩]).bus, j⟩ := by
    rw [stateAfter, step_of_quiet hq, bind_of_ok hread, stateAfter]
  refine ⟨Journal.notices (l' ++ .notice (.executing (i.traceLine m.cpu)) :: l), ?_, ?_⟩
  · rw [hstep, hl', ← Journal.notices_append]
    simp only at hl
    rw [hl, List.append_assoc]
    rfl
  · exact Journal.mem_notices.mpr (List.mem_append_right l' (List.mem_cons_self ..))

end Exec

/-! ## The interrupt inputs decide -/

namespace Machine

variable {m m' : Machine β} {v w : InterruptVector}

theorem enters_of_due (h : m.cpu.dueInterrupt = some v) : m.Enters v := by
  have hnotices := Exec.notices_of_entry h
  unfold Enters
  cases hstep : Exec.step m with
  | ok n m' =>
    rw [hstep] at hnotices
    obtain ⟨hbus, ⟨w, hw, hn, hcpu⟩ | ⟨i, hq, -⟩⟩ := Exec.step_ok_cases hstep
    · obtain rfl := Option.some.inj (h.symm.trans hw)
      rw [Cpu.plan, h] at hbus
      have hpc : m'.cpu.pc = m.bus.vectorWord v := by
        rw [hcpu]
        cases v <;> rfl
      have hlog : m'.journal.notices =
          m.journal.notices ++ [.interrupted v m.cpu.pc m'.cpu.pc] := hnotices
      rw [hpc] at hlog
      exact ⟨hn, hbus, hcpu, hlog⟩
    · rw [h] at hq
      cases hq
  | error e m' =>
    rw [hstep] at hnotices
    have hnot : m.cpu.dueInterrupt = none → m.bus.instruction? m.cpu.pc = none := by
      intro hq
      rw [h] at hq
      cases hq
    obtain ⟨hearly, hcpu, hbus, -⟩ := Exec.step_error_early hstep hnot
    obtain ⟨t, ht, he, -⟩ := (Exec.step_entry h).error hstep
    obtain ⟨-, ⟨a, ha⟩, -⟩ := Request.entry_refused ht
    exact ⟨⟨a, he.trans ha⟩, hbus, hcpu, hnotices⟩

theorem executes_of_quiet (hq : m.cpu.dueInterrupt = none) : m.Executes := by
  have hnotes : ∀ i, m.bus.instruction? m.cpu.pc = some i →
      m.Notes (stateAfter Exec.step m) (.executing (i.traceLine m.cpu)) :=
    fun i hi => Exec.notes_of_instruction hq hi
  unfold Executes
  cases hstep : Exec.step m with
  | ok n m' =>
    rw [stateAfter_of_ok hstep] at hnotes
    obtain ⟨hbus, ⟨w, hw, -⟩ | ⟨i, -, hi, hn, hcpu⟩⟩ := Exec.step_ok_cases hstep
    · rw [hq] at hw
      cases hw
    · rw [Cpu.plan, hq, hi] at hbus
      exact ⟨i, hi, hbus, hcpu, hn, hnotes i hi⟩
  | error e m' =>
    rw [stateAfter_of_error hstep] at hnotes
    cases hi : m.bus.instruction? m.cpu.pc with
    | some i =>
      obtain ⟨-, hcpu, -⟩ := Exec.step_error_late hstep hq hi
      exact .inl ⟨i, rfl, hcpu, hnotes i hi⟩
    | none =>
      obtain ⟨-, hcpu, -⟩ := Exec.step_error_early hstep fun _ => hi
      refine .inr ⟨rfl, hcpu, ?_⟩
      cases hr : m.bus.read m.cpu.pc with
      | error f =>
        obtain ⟨t, ht, rfl, -⟩ :=
          (Exec.step_unreadable hq hr 0 m.cpu).error_of_reads (by simp [Request.isWrite]) hstep
        rw [List.mem_singleton.mp ht]
        exact .inl rfl
      | ok opcode =>
        rw [Bus.instruction?_of_read hr] at hi
        obtain ⟨j, herr, -⟩ := Exec.step_illegal hq hr hi
        rw [herr] at hstep
        cases hstep
        exact .inr ⟨opcode, rfl⟩

theorem Enters.unique (hv : m.Enters v) (hw : m.Enters w) : v = w := by
  unfold Enters at hv hw
  cases hstep : Exec.step m with
  | ok n m' =>
    rw [hstep] at hv hw
    have h := hv.2.notices.symm.trans hw.2.notices
    cases List.append_cancel_left h
    rfl
  | error e m' =>
    rw [hstep] at hv hw
    obtain ⟨a, ha⟩ := hv.error
    obtain ⟨a', ha'⟩ := hw.error
    cases ha.symm.trans ha'
    rfl

theorem Enters.not_executes (hv : m.Enters v) : ¬ m.Executes := by
  intro hx
  unfold Enters at hv
  unfold Executes at hx
  cases hstep : Exec.step m with
  | ok n m' =>
    -- the log of an entry has one new notice, and that is no announcement
    rw [hstep] at hv hx
    obtain ⟨i, hi⟩ := hx
    obtain ⟨l, hl, hmem⟩ := hi.notices
    rw [hv.2.notices] at hl
    rw [← List.append_cancel_left hl] at hmem
    cases List.mem_singleton.mp hmem
  | error e m' =>
    rw [hstep] at hv hx
    obtain ⟨a, rfl⟩ := hv.error
    rcases hx with ⟨i, -, -, l, hl, hmem⟩ | ⟨-, -, he | ⟨opcode, he⟩⟩
    · rw [hv.notices] at hl
      rw [List.self_eq_append_right.mp hl] at hmem
      cases hmem
    · cases he
    · cases he

theorem enters_iff : m.Enters v ↔ m.cpu.dueInterrupt = some v := by
  constructor
  · intro hv
    cases hq : m.cpu.dueInterrupt with
    | none => exact absurd (executes_of_quiet hq) hv.not_executes
    | some w => rw [hv.unique (enters_of_due hq)]
  · exact enters_of_due

theorem executes_iff : m.Executes ↔ m.cpu.dueInterrupt = none := by
  constructor
  · intro hx
    cases hq : m.cpu.dueInterrupt with
    | none => rfl
    | some w => exact absurd hx (enters_of_due hq).not_executes
  · exact executes_of_quiet

end Machine

namespace Cpu

theorem dueInterrupt_eq_nmi_iff (c : Cpu) :
    c.dueInterrupt = some .nmi ↔ c.nmiPending = true := by
  unfold dueInterrupt
  cases c.nmiPending <;> cases c.irqLine <;> cases c.status.interruptDisable <;> simp

theorem dueInterrupt_eq_irq_iff (c : Cpu) :
    c.dueInterrupt = some .irq ↔
      c.nmiPending = false ∧ c.irqLine = true ∧ c.status.interruptDisable = false := by
  unfold dueInterrupt
  cases c.nmiPending <;> cases c.irqLine <;> cases c.status.interruptDisable <;> simp

theorem dueInterrupt_eq_none_iff (c : Cpu) :
    c.dueInterrupt = none ↔
      c.nmiPending = false ∧ (c.irqLine = true → c.status.interruptDisable = true) := by
  unfold dueInterrupt
  cases c.nmiPending <;> cases c.irqLine <;> cases c.status.interruptDisable <;> simp

theorem dueInterrupt_ne_reset (c : Cpu) : c.dueInterrupt ≠ some .reset := by
  unfold dueInterrupt
  cases c.nmiPending <;> cases c.irqLine <;> cases c.status.interruptDisable <;> simp

end Cpu

/-! ## The latch -/

namespace Machine

/-- A step that succeeds leaves no NMI pending: either none was, or it entered one. -/
theorem nmiPending_of_ok {m m' : Machine β} {n : Nat} (h : Exec.step m = .ok n m') :
    m'.cpu.nmiPending = false := by
  obtain ⟨-, ⟨v, hv, -, hcpu⟩ | ⟨i, hq, -, -, hcpu⟩⟩ := Exec.step_ok_cases h
  · rw [hcpu]
    cases v with
    | nmi => rfl
    | reset => exact absurd hv m.cpu.dueInterrupt_ne_reset
    | irq => exact (m.cpu.dueInterrupt_eq_irq_iff.mp hv).1
  · rw [hcpu, (i.inputs_after m.cpu m.bus).1]
    exact (m.cpu.dueInterrupt_eq_none_iff.mp hq).1

theorem afterStep_of_ok {m m' : Machine β} {n : Nat} (h : Exec.step m = .ok n m') :
    m.afterStep = m' := by
  rw [afterStep, h]

theorem nmiPending_of_error {m m' : Machine β} {e : CpuFault} (h : Exec.step m = .error e m') :
    m'.cpu.nmiPending = m.cpu.nmiPending := by
  rw [Exec.step_error_cpu h]

/-- All the steps of a run succeed. -/
def AllSucceed (m : Machine β) : List Stimulus → Prop
  | [] => True
  | s :: l => (s = .step → ∃ n m', Exec.step m = .ok n m') ∧ (m.react s).AllSucceed l

theorem allSucceed_append (m : Machine β) (l l' : List Stimulus) :
    m.AllSucceed (l ++ l') ↔ m.AllSucceed l ∧ (m.run l).AllSucceed l' := by
  induction l generalizing m with
  | nil => simp [AllSucceed, run]
  | cons s l ih =>
    rw [List.cons_append, AllSucceed, AllSucceed, ih, and_assoc]
    rfl

theorem run_singleton (m : Machine β) (s : Stimulus) : m.run [s] = m.react s := rfl

/-- An NMI is pending behind steps that succeed exactly if one was requested since the last. -/
theorem nmiPending_run {m : Machine β} (hm : m.cpu.nmiPending = false) {l : List Stimulus}
    (hl : m.AllSucceed l) :
    (m.run l).cpu.nmiPending = true ↔ Stimulus.requestNmi ∈ l.rtakeWhile (· ≠ .step) := by
  induction l using List.reverseRecOn with
  | nil => simp [run, hm]
  | append_singleton l s ih =>
    obtain ⟨hpast, hs, -⟩ := (m.allSucceed_append l [s]).mp hl
    rw [run_append, run_singleton]
    cases s with
    | step =>
      obtain ⟨n, m', hstep⟩ := hs rfl
      have hafter : (m.run l).react .step = m' := afterStep_of_ok hstep
      rw [hafter, nmiPending_of_ok hstep]
      simp
    | requestNmi =>
      have hrequest : ((m.run l).react .requestNmi).cpu.nmiPending = true := rfl
      simp [hrequest]
    | driveIrq asserted =>
      have hkept : ((m.run l).react (.driveIrq asserted)).cpu.nmiPending =
          (m.run l).cpu.nmiPending := rfl
      rw [hkept, ih hpast]
      simp

/-- A pending NMI stays pending until there is a step. -/
theorem nmiPending_run_of_no_step {m : Machine β} (hm : m.cpu.nmiPending = true)
    {l : List Stimulus} (hl : .step ∉ l) : (m.run l).cpu.nmiPending = true := by
  induction l generalizing m with
  | nil => exact hm
  | cons s l ih =>
    obtain ⟨hs, hrest⟩ := List.ne_and_not_mem_of_not_mem_cons hl
    cases s with
    | step => exact absurd rfl hs
    | requestNmi => exact ih (m := m.react .requestNmi) rfl hrest
    | driveIrq asserted => exact ih (m := m.react (.driveIrq asserted)) hm hrest

/-! ## The line -/

/-- Steps leave the IRQ line as it is, whether they succeed or fail. -/
theorem irqLine_afterStep (m : Machine β) : m.afterStep.cpu.irqLine = m.cpu.irqLine := by
  unfold afterStep
  split
  · next n m' h =>
    obtain ⟨-, ⟨v, -, -, hcpu⟩ | ⟨i, -, -, -, hcpu⟩⟩ := Exec.step_ok_cases h
    · rw [hcpu]
      cases v <;> rfl
    · rw [hcpu, (i.inputs_after m.cpu m.bus).2]
  · next e m' h => rw [Exec.step_error_cpu h]

/-- The level of the IRQ line behind a stimulus. -/
def lineAfter (line : Bool) : Stimulus → Bool
  | .driveIrq asserted => asserted
  | _ => line

theorem irqLine_run (m : Machine β) (l : List Stimulus) :
    (m.run l).cpu.irqLine = l.foldl lineAfter m.cpu.irqLine := by
  induction l generalizing m with
  | nil => rfl
  | cons s l ih =>
    have hs : (m.react s).cpu.irqLine = lineAfter m.cpu.irqLine s := by
      cases s with
      | step => exact m.irqLine_afterStep
      | requestNmi | driveIrq asserted => rfl
    rw [List.foldl_cons, ← hs]
    exact ih (m.react s)

end Machine

/-- A reset keeps the IRQ line, and drops a pending NMI if it succeeds. -/
theorem Exec.reset_inputs (m : Machine β) (sp : Byte) :
    match Exec.reset sp m with
    | .ok _ m' => m'.cpu.irqLine = m.cpu.irqLine ∧ m'.cpu.nmiPending = false
    | .error _ m' =>
      m'.cpu.irqLine = m.cpu.irqLine ∧ m'.cpu.nmiPending = m.cpu.nmiPending := by
  cases h : Exec.reset sp m with
  | ok u m' =>
    obtain ⟨-, -, hcpu, -⟩ := (Follows.reset sp).ok h
    show m'.cpu.irqLine = m.cpu.irqLine ∧ m'.cpu.nmiPending = false
    rw [hcpu]
    exact ⟨rfl, rfl⟩
  | error e m' =>
    have hreads := Attempt.forall_all (Request.vectorWord_are_reads .reset) m.cpu
    obtain ⟨t, ht, -, hcpu, -⟩ := (Follows.reset sp).error_of_reads hreads h
    obtain ⟨r, -, rfl⟩ := List.mem_map.mp ht
    show m'.cpu.irqLine = m.cpu.irqLine ∧ m'.cpu.nmiPending = m.cpu.nmiPending
    rw [hcpu]
    exact ⟨rfl, rfl⟩

/-! ## Arbitration -/

/-- A step is an NMI entry if an NMI is pending, otherwise an IRQ entry if the line is asserted and
    interrupts are not disabled, and otherwise an instruction.  With no NMI pending at the start
    and steps that succeed, the NMI entries of a run are the steps before which an NMI was requested
    since the last step.  An NMI entry that fails is tried again by the next step.  The IRQ line
    is what it was last driven to, also behind a reset, and a reset that succeeds drops a pending
    NMI. -/
theorem Machine.interrupt_arbitration (m : Machine β) :
    (m.Enters .nmi ↔ m.cpu.nmiPending = true) ∧
    (m.Enters .irq ↔
      m.cpu.nmiPending = false ∧ m.cpu.irqLine = true ∧ m.cpu.status.interruptDisable = false) ∧
    (m.Executes ↔
      m.cpu.nmiPending = false ∧
        (m.cpu.irqLine = true → m.cpu.status.interruptDisable = true)) ∧
    (m.cpu.nmiPending = false → ∀ past, m.AllSucceed past →
      ((m.run past).Enters .nmi ↔ Stimulus.requestNmi ∈ past.rtakeWhile (· ≠ .step))) ∧
    (∀ e m', Exec.step m = .error e m' → m.Enters .nmi →
      m'.cpu.nmiPending = true ∧ ∀ l, Stimulus.step ∉ l → (m'.run l).Enters .nmi) ∧
    (∀ l, (m.run l).cpu.irqLine = l.foldl lineAfter m.cpu.irqLine) ∧
    ∀ sp, match Exec.reset sp m with
      | .ok _ m' => m'.cpu.irqLine = m.cpu.irqLine ∧ m'.cpu.nmiPending = false
      | .error _ m' =>
        m'.cpu.irqLine = m.cpu.irqLine ∧ m'.cpu.nmiPending = m.cpu.nmiPending := by
  have hnmi : ∀ m : Machine β, m.Enters .nmi ↔ m.cpu.nmiPending = true :=
    fun m => enters_iff.trans m.cpu.dueInterrupt_eq_nmi_iff
  refine ⟨hnmi m, enters_iff.trans m.cpu.dueInterrupt_eq_irq_iff,
    executes_iff.trans m.cpu.dueInterrupt_eq_none_iff, ?_, ?_, m.irqLine_run,
    Exec.reset_inputs m⟩
  · intro hm past hpast
    exact (hnmi _).trans (nmiPending_run hm hpast)
  · intro e m' hstep hentry
    have hpending : m'.cpu.nmiPending = true := by
      rw [nmiPending_of_error hstep]
      exact (hnmi m).mp hentry
    exact ⟨hpending, fun l hl => (hnmi _).mpr (nmiPending_run_of_no_step hpending hl)⟩

/-- A machine at a NOP, on a board that is full of NOPs. -/
def Machine.idle : Machine Nrom where
  cpu := { pc := 0x8000 }
  bus := { board := some (Nrom.ofImage #[0xEA] 0) }

/-- Two requests make the next step an NMI entry, and only that one; on an empty slot the entry
    fails, and the next step tries again. -/
theorem Machine.idle_interrupted :
    (idle.run [.requestNmi, .requestNmi]).Enters .nmi ∧
    ¬ (idle.run [.requestNmi, .requestNmi, .step, .driveIrq true]).Enters .nmi ∧
    ∃ e m', Exec.step ({ cpu := { nmiPending := true } } : Machine Nrom) = .error e m' ∧
      (m'.run [.driveIrq true]).Enters .nmi := by
  obtain ⟨-, -, -, hrun, -⟩ := idle.interrupt_arbitration
  refine ⟨?_, ?_, _, _, rfl, ?_⟩
  · refine (hrun rfl [.requestNmi, .requestNmi] ⟨nofun, nofun, trivial⟩).mpr ?_
    decide
  · refine mt (hrun rfl [.requestNmi, .requestNmi, .step, .driveIrq true]
      ⟨nofun, nofun, fun _ => ⟨_, _, rfl⟩, nofun, trivial⟩).mp ?_
    decide
  · obtain ⟨hentry, -, -, -, hagain, -⟩ :=
      interrupt_arbitration ({ cpu := { nmiPending := true } } : Machine Nrom)
    exact (hagain _ _ rfl (hentry.mpr rfl)).2 _ (by decide)

end Console6502
