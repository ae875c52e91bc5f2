/-
  Two machines in lockstep.

  Two machines with equal buses go in lockstep as long as what they ask of the bus does not show
  where their processors differ.  Then the bus answers both alike, refuses both at the same attempt
  if at all, and is left the same (`Bus.serve_matched`); so a step that follows matched plans comes
  to the same result on both machines (`Exec.Follows.agree`).

  What every step keeps, every run keeps (`Machine.lockstep`): the steps of the two runs return the
  same results or errors, and the machines are related at the end.
-/
import Console6502.Proofs.Run
import Console6502.Proofs.StepPlan
import Console6502.Proofs.TwoRuns
import Mathlib.Data.List.Forall2

namespace Console6502

variable {β : Type} [Board β] {S : Cpu → Cpu → Prop}

/-! ## Matched attempts -/

/-- The same request, and related processors left behind. -/
structure Attempt.Matches (S : Cpu → Cpu → Prop) (t u : Attempt) : Prop where
  request : u.request = t.request
  left : S t.left u.left

/-- Rows of attempts that match one by one. -/
abbrev Attempt.Matched (S : Cpu → Cpu → Prop) : List Attempt → List Attempt → Prop :=
  List.Forall₂ (Attempt.Matches S)

theorem Attempt.matched_all {plan plan' : List Request} {c d : Cpu} (h : plan' = plan)
    (hS : S c d) : Matched S (all plan c) (all plan' d) := by
  subst h
  induction plan' with
  | nil => exact .nil
  | cons r plan ih => exact .cons ⟨rfl, hS⟩ ih

theorem Attempt.Matched.append {p p' q q' : List Attempt} (hp : Matched S p p')
    (hq : Matched S q q') : Matched S (p ++ q) (p' ++ q') := List.rel_append hp hq

theorem Attempt.matched_self (p : List Attempt) : Matched Eq p p :=
  List.forall₂_same.mpr fun _ _ => ⟨rfl, rfl⟩

/-- The bus answers matched rows alike: it grants both or refuses both at the same place. -/
theorem Bus.serve_matched {b : Bus β} {p q : List Attempt} (h : Attempt.Matched S p q) :
    (b.serve q).bus = (b.serve p).bus ∧
      ((b.serve p).refused = none ∧ (b.serve q).refused = none ∨
        ∃ t u, (b.serve p).refused = some t ∧ (b.serve q).refused = some u ∧ t.Matches S u) := by
  induction h generalizing b with
  | nil => exact ⟨rfl, .inl ⟨rfl, rfl⟩⟩
  | @cons t u p q ht hpq ih =>
    cases hanswer : b.answer t.request with
    | none =>
      rw [serve_cons_of_none hanswer, serve_cons_of_none (ht.request ▸ hanswer)]
      exact ⟨rfl, .inr ⟨t, u, rfl, rfl, ht⟩⟩
    | some b' =>
      rw [serve_cons_of_some hanswer, serve_cons_of_some (ht.request ▸ hanswer)]
      exact ih

/-- What a mode asks for depends on the program counter and X only. -/
theorem AddressingMode.matched_attempts {mode : AddressingMode} {c d : Cpu} {b : Bus β}
    (hpc : d.pc = c.pc) (hx : d.x = c.x) (hS : ∀ n, S (c.taking b n) (d.taking b n)) :
    Attempt.Matched S (mode.attempts c b) (mode.attempts d b) := by
  have hfetches : ∀ n, Attempt.Matched S (c.fetches b n) (d.fetches b n) := by
    intro n
    match n with
    | 0 => exact .nil
    | 1 => exact .cons ⟨by rw [hpc], hS 0⟩ .nil
    | n + 2 => exact .cons ⟨by rw [hpc], hS 0⟩ (.cons ⟨by rw [hpc], hS 1⟩ .nil)
  have hpointer : mode.pointer d b = mode.pointer c b := by
    unfold pointer
    rw [hpc, hx]
  exact (hfetches _).append (Attempt.matched_all hpointer (hS _))

/-! ## Steps -/

/-- Equal buses, and related processors. -/
structure Machine.InStep (S : Cpu → Cpu → Prop) (m m' : Machine β) : Prop where
  cpu : S m.cpu m'.cpu
  bus : m'.bus = m.bus

theorem Agree.mono {ε σ α : Type} {R R' : σ → σ → Prop} {r r' : EStateM.Result ε σ α}
    (h : Agree R r r') (hR : ∀ s t, R s t → R' s t) : Agree R' r r' := by
  cases h with
  | ok states => exact .ok (hR _ _ states)
  | error states => exact .error (hR _ _ states)

namespace Exec

/-- Work that follows matched plans comes to the same on both machines. -/
theorem Follows.agree {α : Type} {x : Exec β α} {m m' : Machine β} {p q : List Attempt} {v : α}
    {c d : Cpu} (hx : Follows x m p v c) (hx' : Follows x m' q v d) (hbus : m'.bus = m.bus)
    (hpq : Attempt.Matched S p q) (hS : S c d) : Agree (Machine.InStep S) (x m) (x m') := by
  obtain ⟨hafter, ⟨hp, hq⟩ | ⟨t, u, hp, hq, htu⟩⟩ := Bus.serve_matched (b := m.bus) hpq
  · rw [← hbus] at hq hafter
    obtain ⟨j, hok, -⟩ := hx.granted hp
    obtain ⟨j', hok', -⟩ := hx'.granted hq
    rw [hok, hok']
    exact .ok ⟨hS, hbus ▸ hafter⟩
  · rw [← hbus] at hq hafter
    obtain ⟨j, herror, -⟩ := hx.refused t hp
    obtain ⟨j', herror', -⟩ := hx'.refused u hq
    rw [herror, herror', htu.request]
    exact .error ⟨htu.left, hbus ▸ hafter⟩

variable {m m' : Machine β} {R : Machine β → Machine β → Prop}

/-- Steps of two machines agree if they do so where they enter an interrupt and where there is an
    instruction.  At an opcode that cannot be read or is not official nothing changes. -/
theorem step_agree (hR : ∀ n n', n.InStep S n' → R n n') (h : m.InStep S m')
    (hdue : m'.cpu.dueInterrupt = m.cpu.dueInterrupt) (hpc : m'.cpu.pc = m.cpu.pc)
    (hentry : ∀ v, m.cpu.dueInterrupt = some v → Agree R (step m) (step m'))
    (hinstruction : ∀ i, m.cpu.dueInterrupt = none → m.bus.instruction? m.cpu.pc = some i →
      Agree R (step m) (step m')) : Agree R (step m) (step m') := by
  cases hq : m.cpu.dueInterrupt with
  | some v => exact hentry v hq
  | none =>
    rw [hq] at hdue
    cases hr : m.bus.read m.cpu.pc with
    | error e =>
      have hr' : m'.bus.read m'.cpu.pc = .error e := by rw [h.bus, hpc, hr]
      have hread : Attempt.Matched S [⟨.read m.cpu.pc, m.cpu⟩] [⟨.read m'.cpu.pc, m'.cpu⟩] :=
        .cons ⟨by rw [hpc], h.cpu⟩ .nil
      exact ((step_unreadable hq hr 0 m.cpu).agree (step_unreadable hdue hr' 0 m'.cpu) h.bus
        hread h.cpu).mono hR
    | ok opcode =>
      have hr' : m'.bus.read m'.cpu.pc = .ok opcode := by rw [h.bus, hpc, hr]
      cases hd : Instruction.decode? opcode with
      | some i => exact hinstruction i hq (by rw [Bus.instruction?_of_read hr, hd])
      | none =>
        obtain ⟨j, herror, -⟩ := step_illegal hq hr hd
        obtain ⟨j', herror', -⟩ := step_illegal hdue hr' hd
        rw [herror, herror', hpc]
        exact .error (hR _ _ ⟨h.cpu, h.bus⟩)

end Exec

/-! ## Runs -/

namespace Machine

/-- What the next step returns, or the error that it stops with. -/
def result (m : Machine β) : Except CpuFault Nat :=
  match Exec.step m with
  | .ok n _ => .ok n
  | .error e _ => .error e

/-- What the steps of a run return. -/
def results (m : Machine β) : List Stimulus → List (Except CpuFault Nat)
  | [] => []
  | s :: l =>
    match s with
    | .step => m.result :: (m.react s).results l
    | _ => (m.react s).results l

theorem result_of_agree {R : Machine β → Machine β → Prop} {m m' : Machine β}
    (h : Agree R (Exec.step m) (Exec.step m')) :
    m'.result = m.result ∧ R m.afterStep m'.afterStep := by
  unfold result afterStep
  generalize Exec.step m = r at h
  generalize Exec.step m' = r' at h
  cases h with
  | ok states => exact ⟨rfl, states⟩
  | error states => exact ⟨rfl, states⟩

/-- A relation of processors that steps and interrupt inputs keep, a run keeps, and all its steps
    return the same.  What the steps need is asked of the first machine only. -/
theorem lockstep {P : Machine β → Prop}
    (hstep : ∀ m m', m.InStep S m' → P m → Agree (InStep S) (Exec.step m) (Exec.step m'))
    (hnmi : ∀ c d, S c d → S c.latchNmi d.latchNmi)
    (hirq : ∀ c d asserted, S c d → S (c.driveIrq asserted) (d.driveIrq asserted))
    {m m' : Machine β} (h : m.InStep S m') {l : List Stimulus}
    (hP : ∀ before after, l = before ++ .step :: after → P (m.run before)) :
    m'.results l = m.results l ∧ (m.run l).InStep S (m'.run l) := by
  induction l generalizing m m' with
  | nil => exact ⟨rfl, h⟩
  | cons s l ih =>
    have hrest : ∀ before after, l = before ++ .step :: after →
        P ((m.react s).run before) :=
      fun before after hl => hP (s :: before) after (by rw [hl]; rfl)
    cases s with
    | step =>
      obtain ⟨hresult, hafter⟩ := result_of_agree (hstep m m' h (hP [] l rfl))
      have hreact : (m.react .step).InStep S (m'.react .step) := hafter
      obtain ⟨hresults, hrun⟩ := ih hreact hrest
      refine ⟨?_, hrun⟩
      rw [results, results, hresult, hresults]
    | requestNmi =>
      have hreact : (m.react .requestNmi).InStep S (m'.react .requestNmi) :=
        ⟨hnmi _ _ h.cpu, h.bus⟩
      exact ih hreact hrest
    | driveIrq asserted =>
      have hreact : (m.react (.driveIrq asserted)).InStep S (m'.react (.driveIrq asserted)) :=
        ⟨hirq _ _ asserted h.cpu, h.bus⟩
      exact ih hreact hrest

end Machine

end Console6502
