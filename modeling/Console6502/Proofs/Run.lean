/-
  Runs of the processor.

  A run is a row of stimuli from outside: the processor is clocked for one step, is sent an NMI, or
  has its IRQ line driven.  A step that fails is part of a run like any other, and the run goes on
  from the machine that the failure left.
-/
import Console6502.Step

namespace Console6502

/-- What the outside does to a machine. -/
inductive Stimulus where
  | step
  | requestNmi
  | driveIrq (asserted : Bool)
deriving DecidableEq, Repr

namespace Machine

variable {β : Type} [Board β]

/-- The machine after a step, successful or not. -/
def afterStep (m : Machine β) : Machine β :=
  match Exec.step m with
  | .ok _ m' => m'
  | .error _ m' => m'

/-- The machine after a stimulus. -/
def react (m : Machine β) : Stimulus → Machine β
  | .step => m.afterStep
  | .requestNmi => { m with cpu := m.cpu.latchNmi }
  | .driveIrq asserted => { m with cpu := m.cpu.driveIrq asserted }

/-- The machine after a run. -/
def run (m : Machine β) (l : List Stimulus) : Machine β := l.foldl react m

theorem run_append (m : Machine β) (l l' : List Stimulus) :
    m.run (l ++ l') = (m.run l).run l' := by
  unfold run
  exact List.foldl_append

/-- What every stimulus preserves, every run preserves. -/
theorem run_invariant {P : Machine β → Prop} (hstep : ∀ m s, P m → P (m.react s)) (m : Machine β)
    (l : List Stimulus) (h : P m) : P (m.run l) := by
  induction l generalizing m with
  | nil => exact h
  | cons s l ih => exact ih (m.react s) (hstep m s h)

end Machine

end Console6502
