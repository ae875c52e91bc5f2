/-
  Two runs side by side.

  Two runs of the same work agree (`Agree`) if both succeed with the same value or both fail with
  the same error.  Work respects a relation of states (`Respects`) if from related states on it
  agrees and leaves related states.  There is one rule for sequences and one for each of the two
  loops, so what a step respects, every row of steps does.

  A relation of machines that everything a console does to its machine respects
  (`Machine.Congruence`) gives one of consoles that every command respects (`Alike.obey`).  An
  invariant is a special case: it is a relation of each state with itself.
-/
import Console6502.Proofs.HaltProtocol
import Console6502.Proofs.BusRun

namespace Console6502

/-- Both succeed with the same value or both fail with the same error, and leave related states. -/
inductive Agree {ε σ α : Type} (R : σ → σ → Prop) :
    EStateM.Result ε σ α → EStateM.Result ε σ α → Prop
  | ok {v : α} {s t : σ} (states : R s t) : Agree R (.ok v s) (.ok v t)
  | error {e : ε} {s t : σ} (states : R s t) : Agree R (.error e s) (.error e t)

theorem Agree.mono_after {ε σ α : Type} {R R' : σ → σ → Prop} {x : EStateM ε σ α} {s t : σ}
    (h : Agree R (x s) (x t))
    (hR : R (stateAfter x s) (stateAfter x t) → R' (stateAfter x s) (stateAfter x t)) :
    Agree R' (x s) (x t) := by
  unfold stateAfter at hR
  generalize x s = r at h hR
  generalize x t = r' at h hR
  cases h with
  | ok states => exact .ok (hR states)
  | error states => exact .error (hR states)

/-- From related states on, the work agrees with itself. -/
def Respects {ε σ α : Type} (R : σ → σ → Prop) (x : EStateM ε σ α) : Prop :=
  ∀ s t, R s t → Agree R (x s) (x t)

namespace Respects

variable {ε σ α γ : Type} {R : σ → σ → Prop} {x : EStateM ε σ α} {s t : σ}

theorem pure (v : α) : Respects R (Pure.pure v : EStateM ε σ α) := fun _ _ h => .ok h

theorem bind {f : α → EStateM ε σ γ} (hx : Respects R x) (hf : ∀ v, Respects R (f v)) :
    Respects R (x >>= f) := by
  intro s t h
  have hst := hx s t h
  change Agree R (EStateM.bind x f s) (EStateM.bind x f t)
  rw [EStateM.bind, EStateM.bind]
  generalize x s = r at hst
  generalize x t = r' at hst
  cases hst with
  | @ok v s' t' states => exact hf v s' t' states
  | error states => exact .error states

theorem map (f : α → γ) (hx : Respects R x) : Respects R (f <$> x) := by
  rw [map_eq_pure_bind]
  exact hx.bind fun v => pure (f v)

/-- What work leaves true, it respects as a relation of each state with itself. -/
theorem of_invariant {P : σ → Prop} (h : ∀ s, P s → P (stateAfter x s)) :
    Respects (fun s t => s = t ∧ P s) x := by
  rintro s _ ⟨rfl, hs⟩
  have hafter := h s hs
  cases hx : x s with
  | ok v s' =>
    rw [stateAfter_of_ok hx] at hafter
    exact .ok ⟨rfl, hafter⟩
  | error e s' =>
    rw [stateAfter_of_error hx] at hafter
    exact .error ⟨rfl, hafter⟩

section Loops

variable {action : EStateM ε σ Nat}

theorem repeatFrom (h : Respects R action) (spent n : Nat) :
    Respects R (Clock.repeatFrom action spent n) := by
  induction n generalizing spent with
  | zero => exact fun _ _ hst => .ok hst
  | succ n ih =>
    rw [Clock.repeatFrom_succ]
    exact h.bind fun cycles => ih (spent + cycles)

theorem spendFrom (h : Respects R action) (spent remaining : Nat) :
    Respects R (Clock.spendFrom action spent remaining) := by
  induction remaining using Nat.strongRecOn generalizing spent with
  | ind remaining ih =>
    by_cases hzero : remaining = 0
    · intro s t hst
      rw [Clock.spendFrom, Clock.spendFrom.eq_def action spent remaining t, if_pos hzero,
        if_pos hzero]
      exact .ok hst
    · rw [Clock.spendFrom_of_ne_zero action spent hzero]
      exact h.bind fun cycles => ih (remaining - max 1 cycles) (by omega) (spent + cycles)

end Loops

end Respects

/-! ## Machines and consoles -/

variable {β : Type} [Board β]

/-- A relation of machines that everything which happens to a machine in a console respects: what
    the processor does, what the bus and the windows are told from outside, a change to the
    processor, a halt. -/
structure Machine.Congruence (R : Machine β → Machine β → Prop) : Prop where
  step : Respects R Exec.step
  reset : ∀ sp, Respects R (Exec.reset sp)
  read : ∀ a, Respects R (Machine.read a)
  write : ∀ a v, Respects R (Machine.write a v)
  update : ∀ (f : Cpu → Cpu) {m m'}, R m m' →
    R { m with cpu := f m.cpu } { m' with cpu := f m'.cpu }
  react : ∀ (event : BusEvent) {m m'}, R m m' →
    R { m with bus := m.bus.react event } { m' with bus := m'.bus.react event }
  resetBus : ∀ {m m'}, R m m' → R m.resetBus m'.resetBus
  halt : ∀ (e : CpuFault) {c d : Console β}, c.handler = d.handler → R c.machine d.machine →
    R (c.halt e).machine (d.halt e).machine

/-- Consoles with related machines that are otherwise equal. -/
structure Console.Alike (R : Machine β → Machine β → Prop) (c d : Console β) : Prop where
  machine : R c.machine d.machine
  settings : c.settings = d.settings
  handler : c.handler = d.handler
  halted : c.halted = d.halted
  powered : c.powered = d.powered

namespace Console.Alike

variable {R : Machine β → Machine β → Prop} {c d : Console β}

omit [Board β] in
theorem of_machine {m m' : Machine β} (h : Alike R c d) (hm : R m m') :
    Alike R { c with machine := m } { d with machine := m' } :=
  ⟨hm, h.settings, h.handler, h.halted, h.powered⟩

section

variable (hR : Machine.Congruence R)
include hR

theorem attempt {α : Type} {work : Exec β α} (hwork : Respects R work) :
    Respects (Alike R) (Console.attempt work) := by
  intro c d h
  have hmachine := hwork c.machine d.machine h.machine
  rw [Console.attempt, Console.attempt]
  generalize work c.machine = r at hmachine
  generalize work d.machine = r' at hmachine
  cases hmachine with
  | ok states => exact .ok (h.of_machine states)
  | @error e m m' states =>
    have hhalt := hR.halt e (c := { c with machine := m }) (d := { d with machine := m' })
      h.handler states
    exact .error ⟨hhalt, h.settings, h.handler, rfl, h.powered⟩

theorem switchOn : Respects (Alike R) (Console.switchOn : ConsoleM β Unit) := by
  intro c d h
  rw [switchOn_eq, switchOn_eq, h.settings]
  exact attempt hR (hR.reset _) _ _ ⟨h.machine, rfl, h.handler, rfl, rfl⟩

theorem reset : Respects (Alike R) (Console.reset : ConsoleM β Unit) := by
  intro c d h
  exact switchOn hR _ _ (h.of_machine (hR.resetBus h.machine))

theorem poweredStep : Respects (Alike R) (Console.poweredStep : ConsoleM β Nat) := by
  intro c d h
  cases he : c.halted with
  | some e =>
    rw [poweredStep_of_halted he, poweredStep_of_halted (h.halted ▸ he)]
    exact .error h
  | none =>
    rw [poweredStep_of_running he, poweredStep_of_running (h.halted ▸ he)]
    exact attempt hR hR.step c d h

theorem step : Respects (Alike R) (Console.step : ConsoleM β Nat) := by
  intro c d h
  rw [step_eq, step_eq, ← h.powered]
  cases c.powered with
  | true => exact poweredStep hR c d h
  | false => exact (switchOn hR).bind (fun _ => poweredStep hR) c d h

theorem frame : Respects (Alike R) (Console.frame : ConsoleM β Nat) := by
  intro c d h
  rw [frame_eq, frame_eq, ← h.settings, Clock.forCycles_eq Console.paced.pos]
  exact (step hR).spendFrom 0 _ c d h

/-- Every command respects what the machine of a console respects. -/
theorem obey (command : Command) :
    Respects (Alike R) (Console.obey command : ConsoleM β (Option Nat)) := by
  cases command with
  | switchOn => exact (switchOn hR).map _
  | reset => exact (reset hR).map _
  | step => exact (step hR).map some
  | steps n => exact ((step hR).repeatFrom 0 n).map some
  | frame => exact (frame hR).map some
  | requestNmi => exact fun c d h => .ok (h.of_machine (hR.update Cpu.latchNmi h.machine))
  | driveIrq asserted =>
    exact fun c d h => .ok (h.of_machine (hR.update (·.driveIrq asserted) h.machine))
  | setHandler label =>
    exact fun c d h => .ok ⟨h.machine, h.settings, rfl, h.halted, h.powered⟩

end

end Console.Alike

end Console6502
