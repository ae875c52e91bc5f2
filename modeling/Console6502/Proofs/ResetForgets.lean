/-
  A reset forgets the past.

  Behind a reset nothing is left of what happened to a console but the level of its IRQ line and
  the bytes of its program RAM.  `Console.Renewed` says so of one console: its processor is the one
  that the reset sequence sets up, its memory is clear, its cartridge is the one that was built.
  Two such consoles differ in the line and in the RAM only, and where these are made equal the
  consoles are alike, so they go on alike whatever happens to them (`Console.reset_forgets`).
-/
import Console6502.Proofs.CartridgeMemory
import Console6502.Proofs.Interventions

namespace Console6502

/-- An intervention that reaches only what a reset keeps: the IRQ line, and through the bus the
    program RAM. -/
def Intervention.Tunes : Intervention Cartridge → Prop
  | command (.driveIrq _) => True
  | event (.write a _) => 0x6000 ≤ a ∧ a < 0x8000
  | _ => False

/-- Where a cartridge has programs begin. -/
def Cartridge.resetVector (board : Cartridge) : Word :=
  Bus.vectorWord { board := some board } .reset

/-- Below the ROM a write to a clear bus changes the program RAM, or nothing. -/
theorem Bus.react_write_below_program (board : Cartridge) (r : Array Byte) {a : Word}
    (ha : 0x6000 ≤ a) (ha' : a < 0x8000) (v : Byte) :
    ∃ r', Bus.react { board := some (board.withRam r) } (.write a v) =
      { board := some (board.withRam r') } := by
  rw [react, write_cartridge (by bv_omega), Option.bind_some]
  cases hw : Board.write? (board.withRam r) a v with
  | none => exact ⟨r, rfl⟩
  | some b =>
    have hb := Cartridge.write?_below ha' hw
    rw [Cartridge.withRam_withRam] at hb
    exact ⟨b.ram, by rw [← hb]; rfl⟩

/-- Where the slot holds a cartridge that was built, the reset sequence succeeds. -/
theorem Cartridge.Built.reset {board : Cartridge} (h : board.Built) {m : Machine Cartridge}
    (hm : m.bus.Holds board.Renews) (sp : Byte) :
    ∃ j, Exec.reset sp m = .ok () ⟨m.cpu.restart board.resetVector sp, m.bus, j⟩ := by
  obtain ⟨w, hw⟩ := h.vector .reset
  obtain ⟨hword, hgranted⟩ := hw m.bus hm
  have hvector : board.resetVector = w := (hw _ ⟨board, rfl, h.renews⟩).1
  have hreads := Attempt.forall_all (Request.vectorWord_are_reads .reset) m.cpu
  obtain ⟨j, hreset, -⟩ := (Exec.Follows.reset sp).granted (hgranted m.cpu)
  rw [Bus.serve_bus_of_reads hreads, hword, ← hvector] at hreset
  exact ⟨j, hreset⟩

namespace Console

/-- The program RAM of the cartridge in the slot. -/
def programRam (c : Console Cartridge) : Array Byte := c.machine.bus.board.elim #[] Cartridge.ram

/-- The calls of handlers that the journal tells of. -/
def calls {β : Type} (c : Console β) : List (Option String × CpuFault) := c.machine.journal.fatals

variable {board : Cartridge} {c d : Console Cartridge} {r : Array Byte}

/-! ## Consoles behind a reset -/

/-- The console is as the reset sequence leaves it, with this cartridge in its slot. -/
structure Renewed (board : Cartridge) (c : Console Cartridge) : Prop where
  cpu : c.machine.cpu = c.machine.cpu.restart board.resetVector c.settings.resetStack
  bus : c.machine.bus = { board := some (board.withRam c.programRam) }
  runs : c.Runs

theorem bus_of_withRam (h : c.machine.bus = { board := some (board.withRam r) }) :
    c.machine.bus = { board := some (board.withRam c.programRam) } := by
  have hram : c.programRam = (board.withRam r).ram := by
    rw [programRam, h]
    rfl
  rw [h, hram, Cartridge.withRam_ram_withRam]

/-- On a clear bus with a cartridge that was built, the reset sequence succeeds. -/
theorem switchOn_renews (hbuilt : board.Built)
    (hbus : c.machine.bus = { board := some (board.withRam r) }) :
    ∃ c', switchOn c = .ok () c' ∧ c'.Renewed board ∧
      c'.machine.cpu.irqLine = c.machine.cpu.irqLine ∧ c'.machine.bus = c.machine.bus ∧
      c'.settings = c.settings ∧ c'.handler = c.handler := by
  let on : Console Cartridge := { c with halted := none, powered := true }
  have hholds : on.machine.bus.Holds board.Renews :=
    ⟨_, congrArg Bus.board hbus, hbuilt.renews_withRam r⟩
  obtain ⟨j, hreset⟩ := hbuilt.reset hholds on.settings.resetStack
  refine ⟨_, attempt_of_ok hreset, ⟨rfl, bus_of_withRam hbus, rfl, rfl⟩, rfl, rfl, rfl, rfl⟩

theorem Renewed.meet (h : c.Renewed board) {i : Intervention Cartridge} (hi : i.Tunes) :
    (c.meet i).2.Renewed board ∧ (c.meet i).2.settings = c.settings ∧
      (c.meet i).2.handler = c.handler := by
  cases i with
  | command command =>
    cases command with
    | driveIrq asserted =>
      exact ⟨⟨congrArg (·.driveIrq asserted) h.cpu, h.bus, h.runs.powered, h.runs.halted⟩, rfl, rfl⟩
    | switchOn | reset | step | steps | frame | requestNmi | setHandler => exact hi.elim
  | event event =>
    cases event with
    | write a v =>
      obtain ⟨journal, hafter⟩ := c.hear_eq (.write a v)
      obtain ⟨r, hreact⟩ :=
        Bus.react_write_below_program board c.programRam hi.1 hi.2 v
      rw [← h.bus] at hreact
      change (c.hear (.write a v)).2.Renewed board ∧ (c.hear (.write a v)).2.settings = c.settings ∧
        (c.hear (.write a v)).2.handler = c.handler
      rw [hafter]
      exact ⟨⟨h.cpu, bus_of_withRam hreact, h.runs.powered, h.runs.halted⟩, rfl, rfl⟩
    | setPicture | setSound | reset => exact hi.elim
  | adjust | read | insert => exact hi.elim

theorem Renewed.undergo (h : c.Renewed board) {l : List (Intervention Cartridge)}
    (hl : ∀ i ∈ l, i.Tunes) :
    (c.undergo l).Renewed board ∧ (c.undergo l).settings = c.settings ∧
      (c.undergo l).handler = c.handler := by
  induction l generalizing c with
  | nil => exact ⟨h, rfl, rfl⟩
  | cons i l ih =>
    obtain ⟨hi, hrest⟩ := List.forall_mem_cons.mp hl
    obtain ⟨hmeet, hsettings, hhandler⟩ := h.meet hi
    obtain ⟨hafter, hsettings', hhandler'⟩ := ih hmeet hrest
    exact ⟨hafter, hsettings'.trans hsettings, hhandler'.trans hhandler⟩

/-- Renewed consoles that agree in what a reset keeps are alike. -/
theorem Renewed.alike (hc : c.Renewed board) (hd : d.Renewed board)
    (hsettings : c.settings = d.settings) (hhandler : c.handler = d.handler)
    (hline : c.machine.cpu.irqLine = d.machine.cpu.irqLine)
    (hram : c.programRam = d.programRam) : Alike (Machine.Same c.calls d.calls) c d where
  machine := by
    refine ⟨?_, ?_, [], (List.append_nil _).symm, (List.append_nil _).symm⟩
    · rw [hc.cpu, hd.cpu, Cpu.restart, Cpu.restart, hline, hsettings]
    · rw [hc.bus, hd.bus, hram]
  settings := hsettings
  handler := hhandler
  halted := hc.runs.halted.trans hd.runs.halted.symm
  powered := hc.runs.powered.trans hd.runs.powered.symm

/-- Whatever happened to a console whose cartridge was built from an image that is not empty, and
    was not replaced since: a reset succeeds, and leaves the console as a fresh one with the same
    cartridge and the same settings is when it was switched on, but for the level of the IRQ line
    and the program RAM, which stay as they were.

    Let the lines of the two consoles then be driven and their program RAM be written until the
    lines and the RAM are equal.  From there on any further interventions get the same replies from
    both consoles, leave equal processors, buses, halts and power switches, and make the same calls
    of the handler. -/
theorem reset_forgets (board : Cartridge) (hbuilt : board.Built) (start : Console Cartridge)
    (hslot : start.machine.bus.board = some board) (past : List (Intervention Cartridge))
    (hpast : ∀ i ∈ past, i.keepsCartridge = true) :
    let c := start.undergo past
    let fresh : Console Cartridge := { ofBoard (some board) c.settings with handler := c.handler }
    ∃ c' d', reset c = .ok () c' ∧ switchOn fresh = .ok () d' ∧
      c'.machine.cpu = { d'.machine.cpu with irqLine := c.machine.cpu.irqLine } ∧
      c'.machine.bus = { d'.machine.bus with board := some (board.withRam c.programRam) } ∧
      d'.machine.bus = { board := some board } ∧
      c'.powered = d'.powered ∧ c'.halted = d'.halted ∧ c'.settings = d'.settings ∧
      ∀ tuning tuning' : List (Intervention Cartridge),
        (∀ i ∈ tuning, i.Tunes) → (∀ i ∈ tuning', i.Tunes) →
        let c₁ := c'.undergo tuning
        let d₁ := d'.undergo tuning'
        c₁.machine.cpu.irqLine = d₁.machine.cpu.irqLine → c₁.programRam = d₁.programRam →
        ∀ future, c₁.replies future = d₁.replies future ∧
          Alike (Machine.Same c₁.calls d₁.calls) (c₁.undergo future) (d₁.undergo future) := by
  intro c fresh
  obtain ⟨b, hb, hrenews⟩ : c.machine.bus.Holds board.Renews :=
    undergo_invariant Cartridge.holds_renews_react ⟨board, hslot, hbuilt.renews⟩ hpast
  have hram : c.programRam = b.ram := by
    rw [programRam, hb]
    rfl
  have hcleared : (c.modifyMachine Machine.resetBus).machine.bus =
      { board := some (board.withRam c.programRam) } := by
    change ({ board := c.machine.bus.board.map Board.reset } : Bus Cartridge) = _
    rw [hb, Option.map_some, hrenews, hram]
  have hfresh : fresh.machine.bus = { board := some (board.withRam board.ram) } := by
    rw [Cartridge.withRam_ram]
    rfl
  obtain ⟨c', hreset, hc', hline, hbus, hsettings, hhandler⟩ := switchOn_renews hbuilt hcleared
  obtain ⟨d', hon, hd', hline', hbus', hsettings', hhandler'⟩ := switchOn_renews hbuilt hfresh
  have hequal : c'.settings = d'.settings ∧ c'.handler = d'.handler :=
    ⟨hsettings.trans hsettings'.symm, hhandler.trans hhandler'.symm⟩
  refine ⟨c', d', hreset, hon, ?_, ?_, ?_, ?_, ?_, hequal.1, ?_⟩
  · rw [hc'.cpu, hd'.cpu, Cpu.restart, Cpu.restart, hline, hequal.1]
    rfl
  · rw [hbus, hbus', hcleared, hfresh]
  · rw [hbus', hfresh, Cartridge.withRam_ram]
  · exact hc'.runs.powered.trans hd'.runs.powered.symm
  · exact hc'.runs.halted.trans hd'.runs.halted.symm
  · intro tuning tuning' ht ht' c₁ d₁ hlines hrams future
    obtain ⟨hc₁, hcsettings, hchandler⟩ := hc'.undergo ht
    obtain ⟨hd₁, hdsettings, hdhandler⟩ := hd'.undergo ht'
    have halike : Alike (Machine.Same c₁.calls d₁.calls) c₁ d₁ :=
      hc₁.alike hd₁ (hcsettings.trans (hequal.1.trans hdsettings.symm))
        (hchandler.trans (hequal.2.trans hdhandler.symm)) hlines hrams
    exact halike.undergo (Machine.Same.congruence _ _) fun i _ => .inr fun board _ _ h =>
      h.attach board

/-- A board full of NOPs with a single byte of RAM. -/
def notebook : Cartridge := .nrom (Nrom.ofImage #[0xEA] 1)

/-- Interventions that leave marks everywhere: a step of the processor, a byte in the RAM of the
    board, one in a window, a register set, the line asserted. -/
def marks : List (Intervention Cartridge) :=
  [.command .step, .event (.write 0x6000 7), .event (.setPicture 3 1), .adjust ({ · with a := 9 }),
    .command (.driveIrq true)]

/-- A console with all these marks, reset. -/
def forgetful : Console Cartridge :=
  stateAfter reset ((ofBoard (some notebook) {}).undergo marks)

/-- A fresh console with the same board, switched on, its line asserted and the byte written. -/
def rewritten : Console Cartridge :=
  (stateAfter switchOn (ofBoard (some notebook) {})).undergo
    [.command (.driveIrq true), .event (.write 0x6000 7)]

/-- The byte and the line are all that is left of the marks, and nothing that comes later can tell
    the two consoles apart. -/
theorem marks_forgotten :
    forgetful.machine.cpu.a = 0 ∧ forgetful.machine.bus.picture = .zero ∧
      forgetful.machine.cpu.irqLine = true ∧ forgetful.programRam = #[7] ∧
      ∀ future, forgetful.replies future = rewritten.replies future ∧
        Alike (Machine.Same forgetful.calls rewritten.calls) (forgetful.undergo future)
          (rewritten.undergo future) := by
  obtain ⟨c', d', hreset, hon, hcpu, hbus, hbus', -, -, -, hfuture⟩ :=
    reset_forgets notebook (.nrom rfl 1) (ofBoard (some notebook) {}) rfl marks (by decide)
  obtain rfl : forgetful = c' := stateAfter_of_ok hreset
  obtain rfl : stateAfter switchOn (ofBoard (some notebook) {}) = d' := stateAfter_of_ok hon
  have hbyte : forgetful.programRam = #[7] := by
    rw [programRam, hbus]
    rfl
  have htunes : ∀ i ∈ [.command (.driveIrq true), .event (.write 0x6000 7)],
      Intervention.Tunes i := by
    simp [Intervention.Tunes]
  refine ⟨?_, ?_, ?_, hbyte, hfuture [] _ nofun htunes ?_ ?_⟩
  · rw [hcpu]
    rfl
  · rw [hbus, hbus']
  · rw [hcpu]
    rfl
  · change forgetful.machine.cpu.irqLine = rewritten.machine.cpu.irqLine
    rw [hcpu]
    rfl
  · change forgetful.programRam = rewritten.programRam
    rw [hbyte]
    rfl

end Console

end Console6502
