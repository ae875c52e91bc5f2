/-
  What can happen to a console.

  Beside the commands that it obeys, a console can have its processor changed, its bus written to,
  read or reset, the registers of a window set, and another board put into its slot.  Each of these
  interventions has a reply, and a row of them leaves a console.  Consoles that are alike give the
  same replies to the same interventions and stay alike (`Alike.undergo`).
-/
import Console6502.Proofs.Congruences

namespace Console6502

/-- What the outside can do to a console. -/
inductive Intervention (β : Type) where
  | command (command : Command)
  /-- A change to the processor: to a register, or to its whole state at once. -/
  | adjust (f : Cpu → Cpu)
  /-- A write or a reset of the bus, or a register of a window set from its other side. -/
  | event (event : BusEvent)
  | read (address : Word)
  /-- Another board in the cartridge slot. -/
  | insert (board : β)

/-- What an intervention is answered. -/
inductive Reply where
  | done
  | cycles (n : Nat)
  | byte (value : Byte)
  | failed (error : CpuFault)
  | refused (error : BusFault)
deriving DecidableEq, Repr

/-- Whether an intervention leaves the board in the slot. -/
def Intervention.keepsCartridge {β : Type} : Intervention β → Bool
  | insert _ => false
  | _ => true

namespace Console

variable {β : Type} [Board β]

/-- A transaction with the bus of the console. -/
def transact {α : Type} (c : Console β) (work : EStateM BusFault (Machine β) α)
    (reply : α → Reply) : Reply × Console β :=
  match work c.machine with
  | .ok v machine => (reply v, { c with machine })
  | .error e machine => (.refused e, { c with machine })

/-- The reply to a command, and the console behind it. -/
def answer (c : Console β) (command : Command) : Reply × Console β :=
  match obey command c with
  | .ok none c' => (.done, c')
  | .ok (some n) c' => (.cycles n, c')
  | .error e c' => (.failed e, c')

/-- The reply to an event on the bus, and the console behind it. -/
def hear (c : Console β) (event : BusEvent) : Reply × Console β :=
  match event with
  | .write a v => c.transact (Machine.write a v) fun _ => .done
  | .reset => (.done, c.modifyMachine Machine.resetBus)
  | .setPicture _ _ | .setSound _ _ =>
    (.done, c.modifyMachine fun m => { m with bus := m.bus.react event })

/-- The reply to an intervention, and the console behind it. -/
def meet (c : Console β) : Intervention β → Reply × Console β
  | .command command => c.answer command
  | .adjust f => (.done, c.modifyCpu f)
  | .event event => c.hear event
  | .read a => c.transact (Machine.read a) .byte
  | .insert board => (.done, c.modifyMachine (·.attach board))

/-- An event reaches the bus and nothing else but the journal. -/
theorem hear_eq (c : Console β) (event : BusEvent) :
    ∃ journal, (c.hear event).2 =
      { c with machine := ⟨c.machine.cpu, c.machine.bus.react event, journal⟩ } := by
  cases event with
  | setPicture i v | setSound i v | reset => exact ⟨_, rfl⟩
  | write a v =>
    rw [hear, transact, Machine.write, Bus.react]
    cases c.machine.bus.write a v with
    | ok b =>
      dsimp only
      rw [Machine.record_eq]
      exact ⟨_, rfl⟩
    | error e =>
      dsimp only
      rw [Machine.record_eq]
      exact ⟨_, rfl⟩

/-- The console behind a row of interventions. -/
def undergo (c : Console β) (l : List (Intervention β)) : Console β :=
  l.foldl (fun c i => (c.meet i).2) c

/-- The replies to a row of interventions. -/
def replies (c : Console β) : List (Intervention β) → List Reply
  | [] => []
  | i :: l => (c.meet i).1 :: (c.meet i).2.replies l

namespace Alike

variable {R : Machine β → Machine β → Prop} {c d : Console β}

omit [Board β] in
theorem transact {α : Type} {work : EStateM BusFault (Machine β) α} (hwork : Respects R work)
    (h : Alike R c d) (reply : α → Reply) :
    (c.transact work reply).1 = (d.transact work reply).1 ∧
      Alike R (c.transact work reply).2 (d.transact work reply).2 := by
  have hmachine := hwork c.machine d.machine h.machine
  rw [Console.transact, Console.transact]
  generalize work c.machine = r at hmachine
  generalize work d.machine = r' at hmachine
  cases hmachine with
  | ok states => exact ⟨rfl, h.of_machine states⟩
  | error states => exact ⟨rfl, h.of_machine states⟩

variable (hR : Machine.Congruence R)
include hR

theorem answer (h : Alike R c d) (command : Command) :
    (c.answer command).1 = (d.answer command).1 ∧
      Alike R (c.answer command).2 (d.answer command).2 := by
  have hobey := obey hR command c d h
  rw [Console.answer, Console.answer]
  generalize Console.obey command c = r at hobey
  generalize Console.obey command d = r' at hobey
  cases hobey with
  | @ok cycles _ _ states =>
    cases cycles with
    | none => exact ⟨rfl, states⟩
    | some n => exact ⟨rfl, states⟩
  | error states => exact ⟨rfl, states⟩

theorem hear (h : Alike R c d) (event : BusEvent) :
    (c.hear event).1 = (d.hear event).1 ∧ Alike R (c.hear event).2 (d.hear event).2 := by
  cases event with
  | write a v => exact transact (hR.write a v) h _
  | setPicture i v => exact ⟨rfl, h.of_machine (hR.react (.setPicture i v) h.machine)⟩
  | setSound i v => exact ⟨rfl, h.of_machine (hR.react (.setSound i v) h.machine)⟩
  | reset => exact ⟨rfl, h.of_machine (hR.resetBus h.machine)⟩

theorem meet (h : Alike R c d) {i : Intervention β}
    (hi : i.keepsCartridge = true ∨
      ∀ board m m', R m m' → R (m.attach board) (m'.attach board)) :
    (c.meet i).1 = (d.meet i).1 ∧ Alike R (c.meet i).2 (d.meet i).2 := by
  cases i with
  | command command => exact h.answer hR command
  | adjust f => exact ⟨rfl, h.of_machine (hR.update f h.machine)⟩
  | event event => exact h.hear hR event
  | read a => exact transact (hR.read a) h _
  | insert board =>
    have hattach := hi.resolve_left Bool.false_ne_true
    exact ⟨rfl, h.of_machine (hattach board _ _ h.machine)⟩

/-- Consoles that are alike go on alike. -/
theorem undergo (h : Alike R c d) {l : List (Intervention β)}
    (hl : ∀ i ∈ l, i.keepsCartridge = true ∨
      ∀ board m m', R m m' → R (m.attach board) (m'.attach board)) :
    c.replies l = d.replies l ∧ Alike R (c.undergo l) (d.undergo l) := by
  induction l generalizing c d with
  | nil => exact ⟨rfl, h⟩
  | cons i l ih =>
    obtain ⟨hi, hrest⟩ := List.forall_mem_cons.mp hl
    obtain ⟨hreply, hstep⟩ := h.meet hR hi
    obtain ⟨hreplies, hafter⟩ := ih hstep hrest
    rw [replies, replies, hreply, hreplies]
    exact ⟨rfl, hafter⟩

end Alike

/-- What the events of a bus leave true, a history that keeps the cartridge leaves true. -/
theorem undergo_invariant {P : Bus β → Prop} (hP : ∀ b event, P b → P (b.react event))
    {c : Console β} (hc : P c.machine.bus) {l : List (Intervention β)}
    (hl : ∀ i ∈ l, i.keepsCartridge = true) : P (c.undergo l).machine.bus := by
  have hself : Alike (fun m m' => m = m' ∧ P m.bus) c c := ⟨⟨rfl, hc⟩, rfl, rfl, rfl, rfl⟩
  exact (hself.undergo (.of_bus hP) fun i hi => .inl (hl i hi)).2.machine.2

end Console

end Console6502
