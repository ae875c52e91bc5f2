/-
  What can be done to a machine.

  A machine that is part of no console can be stepped, run for some cycles and reset; its processor
  can be changed, its bus written to, read or reset, and the registers of a window set.  Each of
  these acts has a reply, and a row of them leaves a machine.  Machines that are related give the
  same replies to the same acts and stay related (`Congruence.acts`).
-/
import Console6502.Proofs.Interventions

namespace Console6502

/-- What the outside can do to a machine. -/
inductive Act where
  | step
  | runFor (budget : Nat)
  /-- The reset sequence of the processor. -/
  | reset (sp : Byte)
  /-- A change to the processor: to an input, to a register, or to its whole state at once. -/
  | adjust (f : Cpu → Cpu)
  | event (event : BusEvent)
  | read (address : Word)

/-- What comes of work: a reply, and the state behind it. -/
def respond {ε σ α : Type} (work : EStateM ε σ α) (reply : α → Reply) (refusal : ε → Reply)
    (s : σ) : Reply × σ :=
  match work s with
  | .ok v s' => (reply v, s')
  | .error e s' => (refusal e, s')

theorem respond_state {ε σ α : Type} (work : EStateM ε σ α) (reply : α → Reply)
    (refusal : ε → Reply) (s : σ) : (respond work reply refusal s).2 = stateAfter work s := by
  unfold respond stateAfter
  cases work s <;> rfl

theorem Respects.respond {ε σ α : Type} {R : σ → σ → Prop} {work : EStateM ε σ α} {s t : σ}
    (h : Respects R work) (hst : R s t) (reply : α → Reply) (refusal : ε → Reply) :
    (respond work reply refusal s).1 = (respond work reply refusal t).1 ∧
      R (respond work reply refusal s).2 (respond work reply refusal t).2 := by
  have hagree := h s t hst
  unfold Console6502.respond
  generalize work s = r at hagree
  generalize work t = r' at hagree
  cases hagree with
  | ok states => exact ⟨rfl, states⟩
  | error states => exact ⟨rfl, states⟩

namespace Machine

variable {β : Type} [Board β]

/-- The reply to an event on the bus, and the machine behind it. -/
def hear (m : Machine β) (event : BusEvent) : Reply × Machine β :=
  match event with
  | .write a v => respond (write a v) (fun _ => .done) .refused m
  | .reset => (.done, m.resetBus)
  | .setPicture _ _ | .setSound _ _ => (.done, { m with bus := m.bus.react event })

/-- The reply to an act, and the machine behind it. -/
def undertake (m : Machine β) : Act → Reply × Machine β
  | .step => respond Exec.step .cycles .failed m
  | .runFor budget => respond (Exec.runFor budget) .cycles .failed m
  | .reset sp => respond (Exec.reset sp) (fun _ => .done) .failed m
  | .adjust f => (.done, { m with cpu := f m.cpu })
  | .event event => m.hear event
  | .read a => respond (read a) .byte .refused m

/-- The machine behind a row of acts. -/
def acts (m : Machine β) (l : List Act) : Machine β := l.foldl (fun m act => (m.undertake act).2) m

/-- The replies to a row of acts. -/
def answers (m : Machine β) : List Act → List Reply
  | [] => []
  | act :: l => (m.undertake act).1 :: (m.undertake act).2.answers l

/-- What every act of a row leaves true, the row leaves true. -/
theorem acts_invariant {P : Machine β → Prop} {l : List Act}
    (h : ∀ act ∈ l, ∀ m, P m → P (m.undertake act).2) {m : Machine β} (hm : P m) :
    P (m.acts l) := by
  induction l generalizing m with
  | nil => exact hm
  | cons act l ih =>
    obtain ⟨hact, hrest⟩ := List.forall_mem_cons.mp h
    exact ih hrest (hact m hm)

/-- What a step leaves true, a run for some cycles leaves true. -/
theorem runFor_invariant {P : Machine β → Prop} (h : ∀ m, P m → P (stateAfter Exec.step m))
    (budget : Nat) (m : Machine β) (hm : P m) : P (stateAfter (Exec.runFor budget) m) := by
  have hrun := (Respects.of_invariant h).spendFrom 0 budget m m ⟨rfl, hm⟩
  rw [Exec.runFor_eq_spendFrom]
  unfold stateAfter
  generalize Clock.spendFrom Exec.step 0 budget m = r at hrun
  cases hrun with
  | ok states => exact states.2
  | error states => exact states.2

namespace Congruence

variable {R : Machine β → Machine β → Prop} {m m' : Machine β}

theorem hear (hR : Congruence R) (h : R m m') (event : BusEvent) :
    (m.hear event).1 = (m'.hear event).1 ∧ R (m.hear event).2 (m'.hear event).2 := by
  cases event with
  | write a v => exact (hR.write a v).respond h _ _
  | setPicture i v => exact ⟨rfl, hR.react (.setPicture i v) h⟩
  | setSound i v => exact ⟨rfl, hR.react (.setSound i v) h⟩
  | reset => exact ⟨rfl, hR.resetBus h⟩

theorem undertake (hR : Congruence R) (h : R m m') (act : Act) :
    (m.undertake act).1 = (m'.undertake act).1 ∧ R (m.undertake act).2 (m'.undertake act).2 := by
  cases act with
  | step => exact hR.step.respond h _ _
  | runFor budget =>
    have hrun : Respects R (Exec.runFor budget) := by
      rw [Exec.runFor_eq_spendFrom]
      exact hR.step.spendFrom 0 budget
    exact hrun.respond h _ _
  | reset sp => exact (hR.reset sp).respond h _ _
  | adjust f => exact ⟨rfl, hR.update f h⟩
  | event event => exact hR.hear h event
  | read a => exact (hR.read a).respond h _ _

/-- Related machines give the same replies and stay related. -/
theorem acts (hR : Congruence R) (h : R m m') (l : List Act) :
    m.answers l = m'.answers l ∧ R (m.acts l) (m'.acts l) := by
  induction l generalizing m m' with
  | nil => exact ⟨rfl, h⟩
  | cons act l ih =>
    obtain ⟨hreply, hstep⟩ := hR.undertake h act
    obtain ⟨hreplies, hafter⟩ := ih hstep
    rw [answers, answers, hreply, hreplies]
    exact ⟨rfl, hafter⟩

end Congruence

end Machine

end Console6502
