/-
  Clocking by the counter.

  The processor is clocked by its own counter, and a console adds up the cycles that its steps
  report.  The counter goes on by what a step reports, so the two come to the same
  (`Exec.runFor_eq`).  That either of them comes to an end rests on this: every official opcode is
  charged at least two cycles (`Instruction.cycles_bounds`).
-/
import Console6502.Proofs.CycleAccounting
import Console6502.Proofs.TimedRuns

namespace Console6502

variable {β : Type} [Board β]

/-- The counter goes on by the cycles of the steps. -/
theorem Machine.cycle_of_takes {m m' : Machine β} {l : List Nat}
    (h : Clock.Takes Exec.step m l m') : m'.cpu.cycle = m.cpu.cycle + l.sum :=
  h.advance (fun m => m.cpu.cycle) cycle_of_ok

namespace Exec

theorem paced : Clock.Paced (step : Exec β Nat) := by
  intro m n m' h
  obtain ⟨-, ⟨v, -, hn, -⟩ | ⟨i, -, hi, hn, -⟩⟩ := step_ok_cases h
  · rw [hn]
    decide
  · rw [hn]
    exact Instruction.cycles_bounds (Bus.read_of_instruction? hi).2 m.cpu m.bus

/-- The test of the counter is the test of the cycles that the steps report, and what the counter
    has gone on by is their sum. -/
theorem runFor_eq (budget : Nat) :
    runFor budget = (Clock.forCycles step budget : Exec β Nat) := by
  funext m
  have hloop : (Clock.Loop.mk (fun _ m' => m'.cpu.cycle - m.cpu.cycle < budget) step).runFrom 0 m =
      Clock.spendFrom (step : Exec β Nat) 0 budget m := by
    refine Clock.Loop.runFrom_eq_spendFrom (P := fun spent m' =>
      m'.cpu.cycle = m.cpu.cycle + spent) ?_ paced.pos ?_ rfl
    · intro spent m' h
      dsimp only
      rw [h, Nat.add_sub_cancel_left]
    · intro spent m' cycles m'' h hstep
      rw [Machine.cycle_of_ok hstep, h, Nat.add_assoc]
  rw [Clock.forCycles_eq paced.pos]
  obtain ⟨l, hl⟩ := paced.spends budget m
  cases hr : Clock.spendFrom step 0 budget m with
  | ok total m' =>
    rw [hr] at hl
    cases hl with
    | done takes least enough =>
      have hcounter := Machine.cycle_of_takes takes
      refine (bind_of_ok (hloop.trans hr)
        fun _ => cpu >>= fun c => pure (c.cycle - m.cpu.cycle)).trans ?_
      change EStateM.Result.ok (m'.cpu.cycle - m.cpu.cycle) m' = _
      rw [hcounter, Nat.add_sub_cancel_left]
  | error e m' => exact bind_of_error (hloop.trans hr) _

/-- Clocking the processor, by what is left of the budget. -/
theorem runFor_eq_spendFrom (budget : Nat) :
    runFor budget = (Clock.spendFrom step 0 budget : Exec β Nat) := by
  rw [runFor_eq, Clock.forCycles_eq paced.pos]

end Exec

end Console6502
