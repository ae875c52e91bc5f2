/-
  Clocking for a number of cycles.

  A step takes from two to seven cycles, of the processor as of a console, so a row of steps comes
  to any budget of cycles soon and overshoots it by little.  What the bounds rest on is that every
  official opcode is charged at least two cycles and at most seven, penalties included
  (`Instruction.cycles_bounds`), and that the counter goes on by what a step reports.
-/
import Console6502.Proofs.RunComposition

namespace Console6502

variable {β : Type} [Board β] {l : List Nat}

/-- The processor, clocked for a number of cycles. -/
theorem Exec.runFor_bounds (m : Machine β) (n : Nat) :
    ∃ l, Clock.Spends Exec.step n m l (Exec.runFor n m) ∧
      match Exec.runFor n m with
      | .ok total m' => l.length ≤ (n + 1) / 2 ∧ n ≤ total ∧ total ≤ n + 6 ∧
          (n = 0 → l = [] ∧ total = 0) ∧ m'.cpu.cycle = m.cpu.cycle + total
      | .error _ m' => l.length + 1 ≤ (n + 1) / 2 ∧ m'.cpu.cycle = m.cpu.cycle + l.sum := by
  obtain ⟨l, hl, hbounds⟩ := Exec.paced.spendFrom_bounds n m
  rw [runFor_eq_spendFrom]
  refine ⟨l, hl, ?_⟩
  generalize Clock.spendFrom Exec.step 0 n m = r at hl hbounds
  cases hl with
  | done takes least enough =>
    obtain ⟨hlength, -, hsum⟩ := hbounds
    refine ⟨hlength, enough, hsum, ?_, Machine.cycle_of_takes takes⟩
    rintro rfl
    obtain rfl : l = [] := List.eq_nil_of_length_eq_zero (Nat.le_zero.mp hlength)
    exact ⟨rfl, rfl⟩
  | stopped takes short failure =>
    refine ⟨hbounds, ?_⟩
    rw [Machine.cycle_of_error failure]
    exact Machine.cycle_of_takes takes

namespace Console

variable {c c' : Console β}

/-- Behind a step that succeeds the console has power. -/
theorem powered_of_takes (h : Clock.Takes step c l c') (hstart : c.powered = true ∨ l ≠ []) :
    c'.powered = true := by
  cases h with
  | nil => exact hstart.resolve_right fun hne => hne rfl
  | cons first rest => exact ((Clocked.step.ok first).1.takes rest).2.powered

/-- The console, clocked for one video frame. -/
theorem frame_bounds (c : Console β) :
    let budget := c.settings.video.frameCycles
    ∃ l, Clock.Spends step budget c l (frame c) ∧
      match frame c with
      | .ok total c' => l.length ≤ (budget + 1) / 2 ∧ budget ≤ total ∧ total ≤ budget + 6 ∧
          c'.machine.cpu.cycle = c.startCycle + total
      | .error _ c' => l.length + 1 ≤ (budget + 1) / 2 ∧
          (c.powered = true ∨ l ≠ [] → c'.machine.cpu.cycle = c.startCycle + l.sum) := by
  intro budget
  obtain ⟨l, hl, hbounds⟩ := Clock.Paced.spendFrom_bounds paced budget c
  rw [frame_eq, Clock.forCycles_eq paced.pos]
  refine ⟨l, hl, ?_⟩
  generalize Clock.spendFrom step 0 budget c = r at hl hbounds
  cases hl with
  | done takes least enough =>
    obtain ⟨hlength, -, hsum⟩ := hbounds
    refine ⟨hlength, enough, hsum, cycle_of_takes takes (.inr ?_)⟩
    rintro rfl
    exact frameCycles_ne_zero c.settings (Nat.le_zero.mp enough)
  | stopped takes short failure =>
    refine ⟨hbounds, fun hstart => ?_⟩
    rw [cycle_of_step_error (powered_of_takes takes hstart) failure]
    exact cycle_of_takes takes hstart

/-- Frames that succeed one behind the other, on a console with power. -/
theorem frames_bounds (hp : c.powered = true) (h : Clock.Takes frame c l c') :
    l.length * c.settings.video.frameCycles ≤ l.sum ∧
      l.sum ≤ l.length * (c.settings.video.frameCycles + 6) ∧
      c'.machine.cpu.cycle = c.machine.cpu.cycle + l.sum := by
  induction h with
  | nil => simp
  | @cons c d _ n l first _ ih =>
    obtain ⟨hruns, hsettings⟩ := Clocked.frame.ok first
    obtain ⟨_, _, hbounds⟩ := frame_bounds c
    rw [first, startCycle, if_pos hp] at hbounds
    obtain ⟨-, hlow, hhigh, hcycle⟩ := hbounds
    obtain ⟨hlow', hhigh', hcycle'⟩ := ih hruns.powered
    rw [hsettings] at hlow' hhigh'
    rw [List.length_cons, List.sum_cons, Nat.succ_mul, Nat.succ_mul]
    omega

/-- Clocking for a number of cycles, from any machine and on any console:

    * the loops come to an end, behind the least number of steps that reaches the budget, or behind
      the first step that fails, whose error they return with the effects of all steps before it;
    * there are at most half as many steps as the budget has cycles, rounded up, the one that fails
      included;
    * the total is the sum of what the steps report, overshoots by six at most, and is what the
      counter goes on by; a failure leaves the cycles of the steps before it counted, from zero on
      if the first of them switched the console on;
    * frames that succeed one behind the other add up, each with its own overshoot. -/
theorem cycle_budgets (m : Machine β) (n : Nat) (c : Console β) :
    (∃ l, Clock.Spends Exec.step n m l (Exec.runFor n m) ∧
      match Exec.runFor n m with
      | .ok total m' => l.length ≤ (n + 1) / 2 ∧ n ≤ total ∧ total ≤ n + 6 ∧
          (n = 0 → l = [] ∧ total = 0) ∧ m'.cpu.cycle = m.cpu.cycle + total
      | .error _ m' => l.length + 1 ≤ (n + 1) / 2 ∧ m'.cpu.cycle = m.cpu.cycle + l.sum) ∧
    (let budget := c.settings.video.frameCycles
    (∃ l, Clock.Spends step budget c l (frame c) ∧
      match frame c with
      | .ok total c' => l.length ≤ (budget + 1) / 2 ∧ budget ≤ total ∧ total ≤ budget + 6 ∧
          c'.machine.cpu.cycle = c.startCycle + total
      | .error _ c' => l.length + 1 ≤ (budget + 1) / 2 ∧
          (c.powered = true ∨ l ≠ [] → c'.machine.cpu.cycle = c.startCycle + l.sum)) ∧
    (c.powered = true → ∀ l c', Clock.Takes frame c l c' →
      l.length * budget ≤ l.sum ∧ l.sum ≤ l.length * (budget + 6) ∧
        c'.machine.cpu.cycle = c.machine.cpu.cycle + l.sum)) :=
  ⟨Exec.runFor_bounds m n, frame_bounds c, fun hp _ _ h => frames_bounds hp h⟩

end Console

/-! ## A console that never stops -/

/-- A jump to itself: the same three bytes, over and over, are the program and the vectors. -/
def loopBoard : Nrom := Nrom.ofImage #[0x4C, 0x00, 0x80] 0

/-- The instruction that these bytes are at $8000. -/
def loopJump : Instruction := ⟨0x4C, .jump, .absolute⟩

/-- A machine that is about to jump to where it is, with no interrupt to come. -/
structure Machine.Loops (m : Machine Nrom) : Prop where
  board : m.bus.board = some loopBoard
  pc : m.cpu.pc = 0x8000
  nmiPending : m.cpu.nmiPending = false
  irqLine : m.cpu.irqLine = false

/-- The jump takes three cycles and leads back to itself. -/
theorem Machine.Loops.step {m : Machine Nrom} (h : m.Loops) :
    ∃ m', Exec.step m = .ok 3 m' ∧ m'.Loops := by
  have hopcode : m.bus.read 0x8000 = .ok 0x4C := by
    rw [Bus.read, h.board]
    rfl
  have hlow : m.bus.read (0x8000 + 1) = .ok 0x00 := by
    rw [Bus.read, h.board]
    rfl
  have hhigh : m.bus.read (0x8000 + 1 + 1) = .ok 0x80 := by
    rw [Bus.read, h.board]
    rfl
  have hquiet : m.cpu.dueInterrupt = none := by
    rw [Cpu.dueInterrupt, h.nmiPending, h.irqLine]
    rfl
  have hjump : m.bus.instruction? m.cpu.pc = some loopJump := by
    rw [h.pc, Bus.instruction?_of_read hopcode]
    rfl
  have hgrant : m.bus.grant (loopJump.requests m.cpu m.bus) = some m.bus := by
    change m.bus.grant (Request.bytes m.cpu.pc 3) = some m.bus
    rw [h.pc]
    simp only [Request.bytes, Bus.grant, Option.bind_some,
      Bus.answer_of_read_ok (r := .read _) rfl hopcode,
      Bus.answer_of_read_ok (r := .read _) rfl hlow,
      Bus.answer_of_read_ok (r := .read _) rfl hhigh]
  obtain ⟨j, hstep⟩ := Exec.step_granted hquiet hjump hgrant
  have hpc : (loopJump.after m.cpu m.bus).pc = 0x8000 := by
    change Word.ofBytes (m.bus.peek (m.cpu.pc + 1)) (m.bus.peek (m.cpu.pc + 1 + 1)) = 0x8000
    rw [h.pc, Bus.peek_of_read hlow, Bus.peek_of_read hhigh]
    rfl
  obtain ⟨hnmi, hirq⟩ := loopJump.inputs_after m.cpu m.bus
  have hcycles : loopJump.cycles m.cpu m.bus = 3 := rfl
  rw [hcycles] at hstep
  exact ⟨⟨loopJump.after m.cpu m.bus, m.bus, j⟩, hstep,
    ⟨h.board, hpc, hnmi.trans h.nmiPending, hirq.trans h.irqLine⟩⟩

namespace Console

/-- A console that runs with such a machine goes on for ever. -/
theorem step_of_loops {c : Console Nrom} (hc : c.Runs) (h : c.machine.Loops) :
    ∃ c', step c = .ok 3 c' ∧ c'.Runs ∧ c'.machine.Loops := by
  obtain ⟨m', hstep, hm'⟩ := h.step
  refine ⟨{ c with machine := m' }, ?_, ⟨hc.powered, hc.halted⟩, hm'⟩
  rw [hc.step_eq, attempt_of_ok hstep]

/-- Every frame of such a console succeeds. -/
theorem frame_of_loops {c : Console Nrom} (hc : c.Runs) (h : c.machine.Loops) :
    ∃ total c', frame c = .ok total c' := by
  obtain ⟨l, hl, -⟩ := frame_bounds c
  cases hr : frame c with
  | ok total c' => exact ⟨total, c', rfl⟩
  | error e c' =>
    rw [hr] at hl
    cases hl with
    | @stopped d _ _ takes _ failure =>
      have hloops : d.Runs ∧ d.machine.Loops := by
        refine takes.preserves (P := fun d => d.Runs ∧ d.machine.Loops) ?_ ⟨hc, h⟩
        rintro d n d' ⟨hd, hm⟩ hstep
        obtain ⟨d'', hstep', hloops⟩ := step_of_loops hd hm
        rw [hstep'] at hstep
        cases hstep
        exact hloops
      obtain ⟨d', hstep, -⟩ := step_of_loops hloops.1 hloops.2
      rw [hstep] at failure
      cases failure

/-- A console that was switched on with the jump in its slot. -/
def looping : Console Nrom := stateAfter switchOn (ofBoard (some loopBoard) { video := .pal })

/-- A frame of jumps takes the 33248 cycles of its budget, or up to six more; a budget of no cycles
    takes no step. -/
theorem looping_frames :
    ∃ total c', frame looping = .ok total c' ∧ 33248 ≤ total ∧ total ≤ 33248 + 6 ∧
      c'.machine.cpu.cycle = total ∧ Exec.runFor 0 looping.machine = .ok 0 looping.machine ∧
      ∃ l, l = [] ∧ Clock.Spends Exec.step 0 looping.machine l (.ok 0 looping.machine) := by
  have hruns : looping.Runs := ⟨rfl, rfl⟩
  have hnone : Exec.runFor 0 looping.machine = .ok 0 looping.machine := by
    rw [Exec.runFor_eq_spendFrom, Clock.spendFrom_zero]
  obtain ⟨total, c', hframe⟩ := frame_of_loops hruns ⟨rfl, rfl, rfl, rfl⟩
  obtain ⟨⟨l, hl, hrun⟩, -, hframes⟩ := cycle_budgets looping.machine 0 looping
  rw [hnone] at hl hrun
  obtain ⟨-, -, -, hempty, -⟩ := hrun
  have hrow : Clock.Takes frame looping [total] c' := .cons hframe (.nil c')
  obtain ⟨hlow, hhigh, hcycle⟩ := hframes hruns.powered [total] c' hrow
  rw [List.length_singleton, List.sum_singleton, Nat.one_mul] at hlow hhigh
  refine ⟨total, c', hframe, hlow, hhigh, ?_, hnone, l, (hempty rfl).1, hl⟩
  rw [hcycle, List.sum_singleton]
  exact Nat.zero_add total

end Console

end Console6502
