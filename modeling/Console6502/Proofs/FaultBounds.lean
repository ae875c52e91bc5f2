/-
  Which errors a history can come to.

  `Confines P Q x` says of work that it leaves `P` true of the state, and that `Q` holds of its
  error if it fails.  There is one rule for sequences and one for each of the two loops, so errors
  that are confined for a step and for the reset sequence (`Machine.Confined`) are confined for every
  row of acts on a machine and for every history of a console, however long.  What carries the
  history of a console is that the error which halted it is one of these errors, too
  (`Console.Guarded`).
-/
import Console6502.Proofs.Acts

namespace Console6502

/-- `P` holds of the state that is left, and `Q` of the error if there is one. -/
inductive Lands {ε σ α : Type} (P : σ → Prop) (Q : ε → Prop) : EStateM.Result ε σ α → Prop
  | ok {v : α} {s : σ} (state : P s) : Lands P Q (.ok v s)
  | error {e : ε} {s : σ} (state : P s) (error : Q e) : Lands P Q (.error e s)

/-- From states with `P` on, the work leaves `P` true and fails with errors in `Q` only. -/
def Confines {ε σ α : Type} (P : σ → Prop) (Q : ε → Prop) (x : EStateM ε σ α) : Prop :=
  ∀ s, P s → Lands P Q (x s)

namespace Confines

variable {ε σ α γ : Type} {P : σ → Prop} {Q : ε → Prop} {x : EStateM ε σ α}

theorem bind {f : α → EStateM ε σ γ} (hx : Confines P Q x) (hf : ∀ v, Confines P Q (f v)) :
    Confines P Q (x >>= f) := by
  intro s hs
  have hlands := hx s hs
  cases h : x s with
  | ok v s' =>
    rw [h] at hlands
    rw [bind_of_ok h]
    cases hlands with
    | ok state => exact hf v s' state
  | error e s' =>
    rw [h] at hlands
    rw [bind_of_error h]
    cases hlands with
    | error state error => exact .error state error

theorem map (hx : Confines P Q x) (f : α → γ) : Confines P Q (f <$> x) := by
  rw [map_eq_pure_bind]
  exact hx.bind fun _ _ hs => .ok hs

section Loops

variable {action : EStateM ε σ Nat}

theorem repeatFrom (h : Confines P Q action) (spent n : Nat) :
    Confines P Q (Clock.repeatFrom action spent n) := by
  induction n generalizing spent with
  | zero => exact fun _ hs => .ok hs
  | succ n ih =>
    rw [Clock.repeatFrom_succ]
    exact h.bind fun cycles => ih (spent + cycles)

theorem spendFrom (h : Confines P Q action) (spent remaining : Nat) :
    Confines P Q (Clock.spendFrom action spent remaining) := by
  induction remaining using Nat.strongRecOn generalizing spent with
  | ind remaining ih =>
    by_cases hzero : remaining = 0
    · intro s hs
      rw [Clock.spendFrom, if_pos hzero]
      exact .ok hs
    · rw [Clock.spendFrom_of_ne_zero action spent hzero]
      exact h.bind fun cycles => ih (remaining - max 1 cycles) (by omega) (spent + cycles)

end Loops

/-- A reply that reports a failure reports an error of the work. -/
theorem respond {Q : CpuFault → Prop} {x : EStateM CpuFault σ α} (h : Confines P Q x) {s : σ}
    (hs : P s) {reply : α → Reply} (hreply : ∀ v e, reply v ≠ .failed e) {e : CpuFault}
    (he : (respond x reply .failed s).1 = .failed e) : Q e := by
  have hlands := h s hs
  unfold Console6502.respond at he
  cases hx : x s with
  | ok v s' =>
    rw [hx] at he
    exact absurd he (hreply v e)
  | error e' s' =>
    rw [hx] at he hlands
    obtain rfl := Reply.failed.inj he
    cases hlands with
    | error state error => exact error

end Confines

/-- A reply to a transaction with the bus reports no failure of the processor. -/
theorem respond_ne_failed {σ α : Type} (work : EStateM BusFault σ α) {reply : α → Reply}
    (hreply : ∀ v e, reply v ≠ .failed e) (s : σ) (e : CpuFault) :
    (respond work reply .refused s).1 ≠ .failed e := by
  unfold respond
  cases work s with
  | ok v s' => exact hreply v e
  | error f s' => exact nofun

variable {β : Type} [Board β]

/-- What events leave true of the bus, and what confines the errors of a step and of the reset
    sequence on such a bus. -/
structure Machine.Confined (P : Bus β → Prop) (Q : CpuFault → Prop) : Prop where
  react : ∀ b event, P b → P (b.react event)
  step : Confines (fun m : Machine β => P m.bus) Q Exec.step
  reset : ∀ sp, Confines (fun m : Machine β => P m.bus) Q (Exec.reset sp)

variable {P : Bus β → Prop} {Q : CpuFault → Prop}

/-! ## Machines -/

namespace Machine.Confined

theorem undertake (h : Confined P Q) {m : Machine β} (hm : P m.bus) (act : Act) {e : CpuFault}
    (he : (m.undertake act).1 = .failed e) : Q e := by
  cases act with
  | step => exact h.step.respond hm (by simp) he
  | runFor budget =>
    have hrun : Confines (fun m : Machine β => P m.bus) Q (Exec.runFor budget) := by
      rw [Exec.runFor_eq_spendFrom]
      exact h.step.spendFrom 0 budget
    exact hrun.respond hm (by simp) he
  | reset sp => exact (h.reset sp).respond hm (by simp) he
  | adjust f => cases he
  | event event =>
    cases event with
    | write a v => exact absurd he (respond_ne_failed _ (by simp) m e)
    | setPicture i v | setSound i v | reset => cases he
  | read a => exact absurd he (respond_ne_failed _ (by simp) m e)

/-- The errors of a row of acts are confined. -/
theorem acts (h : Confined P Q) {m : Machine β} (hm : P m.bus) {l : List Act} {e : CpuFault}
    (he : .failed e ∈ m.answers l) : Q e := by
  induction l generalizing m with
  | nil => cases he
  | cons act l ih =>
    rcases List.mem_cons.mp he with he | he
    · exact h.undertake hm act he.symm
    · exact ih ((Congruence.of_bus h.react).undertake ⟨rfl, hm⟩ act).2.2 he

end Machine.Confined

/-! ## Consoles -/

namespace Console

/-- The bus of the console has `P`, and if the console is halted it is by an error in `Q`. -/
structure Guarded (P : Bus β → Prop) (Q : CpuFault → Prop) (c : Console β) : Prop where
  bus : P c.machine.bus
  halted : ∀ e, c.halted = some e → Q e

variable {c : Console β}

omit [Board β] in
theorem confines_attempt {α : Type} {work : Exec β α}
    (h : Confines (fun m : Machine β => P m.bus) Q work) :
    Confines (Guarded P Q) Q (attempt work) := by
  intro c hc
  have hlands := h c.machine hc.bus
  cases hw : work c.machine with
  | ok v m =>
    rw [hw] at hlands
    rw [attempt_of_ok hw]
    cases hlands with
    | ok state => exact .ok ⟨state, hc.halted⟩
  | error e m =>
    rw [hw] at hlands
    rw [attempt_of_error hw]
    cases hlands with
    | error state error =>
      exact .error ⟨state, fun e' he' => Option.some.inj he' ▸ error⟩ error

omit [Board β] in
/-- A transaction neither halts the console nor reports a failure of the processor. -/
theorem transact_halted {α : Type} (work : EStateM BusFault (Machine β) α) {reply : α → Reply}
    (hreply : ∀ v e, reply v ≠ .failed e) (e : CpuFault) :
    (c.transact work reply).2.halted = c.halted ∧ (c.transact work reply).1 ≠ .failed e := by
  unfold transact
  cases work c.machine with
  | ok v m => exact ⟨rfl, hreply v e⟩
  | error f m => exact ⟨rfl, nofun⟩

/-- Only a command halts a console or reports a failure of the processor. -/
theorem meet_halted {i : Intervention β} (hi : ∀ command, i ≠ .command command) (e : CpuFault) :
    (c.meet i).2.halted = c.halted ∧ (c.meet i).1 ≠ .failed e := by
  cases i with
  | command command => exact absurd rfl (hi command)
  | adjust f | insert board => exact ⟨rfl, nofun⟩
  | event event =>
    cases event with
    | write a v => exact transact_halted _ (by simp) e
    | setPicture i v | setSound i v | reset => exact ⟨rfl, nofun⟩
  | read a => exact transact_halted _ (by simp) e

end Console

namespace Machine.Confined

variable {c : Console β} (h : Confined P Q)
include h

open Console

theorem console_switchOn : Confines (Guarded P Q) Q (switchOn : ConsoleM β Unit) := by
  intro c hc
  rw [switchOn_eq]
  exact confines_attempt (h.reset _) _ ⟨hc.bus, nofun⟩

theorem console_reset : Confines (Guarded P Q) Q (Console.reset : ConsoleM β Unit) := by
  intro c hc
  exact h.console_switchOn (c.modifyMachine Machine.resetBus)
    ⟨h.react c.machine.bus .reset hc.bus, hc.halted⟩

theorem console_poweredStep : Confines (Guarded P Q) Q (poweredStep : ConsoleM β Nat) := by
  intro c hc
  cases he : c.halted with
  | some e =>
    rw [poweredStep_of_halted he]
    exact .error hc (hc.halted e he)
  | none =>
    rw [poweredStep_of_running he]
    exact confines_attempt h.step c hc

theorem console_step : Confines (Guarded P Q) Q (Console.step : ConsoleM β Nat) := by
  intro c hc
  rw [step_eq]
  cases c.powered with
  | true => exact h.console_poweredStep c hc
  | false => exact h.console_switchOn.bind (fun _ => h.console_poweredStep) c hc

theorem console_frame : Confines (Guarded P Q) Q (Console.frame : ConsoleM β Nat) := by
  intro c hc
  rw [frame_eq, Clock.forCycles_eq Console.paced.pos]
  exact h.console_step.spendFrom 0 _ c hc

/-- The errors of every command are confined. -/
theorem obey (command : Command) :
    Confines (Guarded P Q) Q (Console.obey command : ConsoleM β (Option Nat)) := by
  cases command with
  | switchOn => exact h.console_switchOn.map _
  | reset => exact h.console_reset.map _
  | step => exact h.console_step.map some
  | steps n => exact (h.console_step.repeatFrom 0 n).map some
  | frame => exact h.console_frame.map some
  | requestNmi | driveIrq asserted | setHandler label => exact fun c hc => .ok ⟨hc.bus, hc.halted⟩

theorem answer (hc : c.Guarded P Q) (command : Command) :
    (c.answer command).2.Guarded P Q ∧ ∀ e, (c.answer command).1 = .failed e → Q e := by
  have hlands := h.obey command c hc
  rw [Console.answer]
  generalize Console.obey command c = r at hlands
  cases hlands with
  | @ok cycles c' state =>
    cases cycles with
    | none => exact ⟨state, fun e he => absurd he (by simp)⟩
    | some n => exact ⟨state, fun e he => absurd he (by simp)⟩
  | @error e c' state error => exact ⟨state, fun e' he' => Reply.failed.inj he' ▸ error⟩

theorem meet (hc : c.Guarded P Q) {i : Intervention β} (hi : i.keepsCartridge = true) :
    (c.meet i).2.Guarded P Q ∧ ∀ e, (c.meet i).1 = .failed e → Q e := by
  by_cases hcommand : ∃ command, i = .command command
  · obtain ⟨command, rfl⟩ := hcommand
    exact h.answer hc command
  · have hquiet := meet_halted (c := c) (i := i) fun command hi => hcommand ⟨command, hi⟩
    have hbus : P (c.meet i).2.machine.bus :=
      undergo_invariant (l := [i]) h.react hc.bus fun j hj => List.mem_singleton.mp hj ▸ hi
    refine ⟨⟨hbus, fun e he => ?_⟩, fun e he => absurd he (hquiet e).2⟩
    exact hc.halted e ((hquiet e).1.symm.trans he)

/-- The errors of a history are confined. -/
theorem undergo (hc : c.Guarded P Q) {l : List (Intervention β)}
    (hl : ∀ i ∈ l, i.keepsCartridge = true) :
    (c.undergo l).Guarded P Q ∧ ∀ e, .failed e ∈ c.replies l → Q e := by
  induction l generalizing c with
  | nil => exact ⟨hc, nofun⟩
  | cons i l ih =>
    obtain ⟨hi, hrest⟩ := List.forall_mem_cons.mp hl
    obtain ⟨hmeet, hreply⟩ := h.meet hc hi
    obtain ⟨hafter, hreplies⟩ := ih hmeet hrest
    refine ⟨hafter, fun e he => ?_⟩
    rcases List.mem_cons.mp he with he | he
    · exact hreply e he.symm
    · exact hreplies e he

end Machine.Confined

end Console6502
