/-
  How a console halts.

  Work on a console that runs either succeeds and tells no handler, or halts the console and tells
  the handler once: `Console.Ends` says so of one piece of work, and there is a rule for sequences
  and one for each of the two loops.  Work that clocks the console (`Console.Clocked`) also respects
  a halt, and switches a console on that was never powered.

  A history is a row of commands from outside.  `Console.halt_protocol` says, for a console with any
  history, what the next command does to the halt, to the handler and to the log.  The one invariant
  it needs is that a console which is halted is powered (`Console.Sound`): only then is a step of a
  console without power sure to come to the reset sequence.
-/
import Console6502.Board.Cartridge
import Console6502.Console
import Console6502.Proofs.CycleCounter
import Console6502.Proofs.JournalGrowth

namespace Console6502

/-! ## Calls of the handler and records of level ERROR -/

/-- The notices of level ERROR, oldest first. -/
def Journal.errors (j : Journal) : List Notice := j.notices.filter (·.level = .error)

/-- Boards of this kind leave the level ERROR to the console. -/
def Board.LogsNoErrors (β : Type) [Board β] : Prop :=
  ∀ (b : β) (t : Target) (v : Byte) (n : Notice), Board.notice? b t v = some n → n.level ≠ .error

theorem Nrom.logsNoErrors : Board.LogsNoErrors Nrom := by
  intro b t v n h
  cases h

theorem Uxrom.logsNoErrors : Board.LogsNoErrors Uxrom := by
  intro b t v n h
  cases t with
  | register a =>
    obtain rfl := Option.some.inj h
    exact Level.noConfusion
  | rom offset => cases h
  | ram offset => cases h

theorem Cartridge.logsNoErrors : Board.LogsNoErrors Cartridge := by
  intro b
  cases b with
  | nrom b => exact Nrom.logsNoErrors b
  | uxrom b => exact Uxrom.logsNoErrors b

namespace Journal

theorem fatals_append (l j : Journal) : (l ++ j).fatals = j.fatals ++ l.fatals := by
  simp [fatals, List.filterMap_append]

/-- Entries that tell no handler. -/
theorem fatals_of_silent {l : Journal} (h : l.fatals = []) (j : Journal) :
    (l ++ j).fatals = j.fatals := by
  rw [fatals_append, h, List.append_nil]

theorem errors_append (l j : Journal) : (l ++ j).errors = j.errors ++ l.errors := by
  rw [errors, notices_append, List.filter_append]
  rfl

variable {β : Type} [Board β]

theorem fatals_of_ordinary {l : Journal} (h : ∀ e ∈ l, e.Ordinary β) : l.fatals = [] := by
  unfold fatals
  rw [List.filterMap_eq_nil_iff]
  intro e he
  cases h e (List.mem_reverse.mp he) <;> rfl

theorem errors_of_ordinary {l : Journal} (hβ : Board.LogsNoErrors β)
    (h : ∀ e ∈ l, e.Ordinary β) : l.errors = [] := by
  unfold errors
  rw [List.filter_eq_nil_iff]
  intro n hn
  rw [decide_eq_true_iff]
  cases h _ (mem_notices.mp hn) with
  | board hb => exact hβ _ _ _ _ hb
  | testRead | testWrite | executing | interrupted | broke | reset =>
    exact Level.noConfusion

end Journal

namespace Console

variable {β : Type} [Board β] {α γ : Type} {c c' c'' : Console β}

/-- From `c` to `c'` the handler was told of these errors and of no other, and each was logged once
    as an error. -/
structure Tells (c c' : Console β) (faults : List CpuFault) : Prop where
  handler : c'.handler = c.handler
  settings : c'.settings = c.settings
  calls : c'.machine.journal.fatals = c.machine.journal.fatals ++ faults.map (c.handler, ·)
  records : Board.LogsNoErrors β → c'.machine.journal.errors =
    c.machine.journal.errors ++ faults.map (.fatal · c'.machine.cpu.pc)

namespace Tells

theorem refl (c : Console β) : Tells c c [] where
  handler := rfl
  settings := rfl
  calls := (List.append_nil _).symm
  records _ := (List.append_nil _).symm

theorem trans {faults : List CpuFault} (h : Tells c c' []) (h' : Tells c' c'' faults) :
    Tells c c'' faults where
  handler := h'.handler.trans h.handler
  settings := h'.settings.trans h.settings
  calls := by rw [h'.calls, h.calls, h.handler, List.map_nil, List.append_nil]
  records hβ := by rw [h'.records hβ, h.records hβ, List.map_nil, List.append_nil]

/-- Whatever adds ordinary events only tells nobody. -/
theorem of_ordinary {l : Journal} (hhandler : c'.handler = c.handler)
    (hsettings : c'.settings = c.settings)
    (hjournal : c'.machine.journal = l ++ c.machine.journal) (hl : ∀ e ∈ l, e.Ordinary β) :
    Tells c c' [] where
  handler := hhandler
  settings := hsettings
  calls := by rw [hjournal, Journal.fatals_append, Journal.fatals_of_ordinary hl, List.map_nil]
  records hβ := by
    rw [hjournal, Journal.errors_append, Journal.errors_of_ordinary hβ hl, List.map_nil]

theorem halt (c : Console β) (e : CpuFault) : Tells c (c.halt e) [e] where
  handler := rfl
  settings := rfl
  calls := Journal.fatals_append [.fatal c.handler e, .notice _] c.machine.journal
  records _ := Journal.errors_append [.fatal c.handler e, .notice _] c.machine.journal

theorem resetBus (c : Console β) : Tells c (c.modifyMachine Machine.resetBus) [] := by
  cases hboard : c.machine.bus.board.isSome with
  | false =>
    have hjournal : (c.modifyMachine Machine.resetBus).machine.journal = c.machine.journal := by
      simp [modifyMachine, Machine.resetBus, hboard]
    exact of_ordinary (l := []) rfl rfl hjournal (by simp)
  | true =>
    have hjournal : (c.modifyMachine Machine.resetBus).machine.journal =
        [.boardReset] ++ c.machine.journal := by
      simp [modifyMachine, Machine.resetBus, hboard]
    refine ⟨rfl, rfl, ?_, fun _ => ?_⟩
    · rw [hjournal, Journal.fatals_append]
      rfl
    · rw [hjournal, Journal.errors_append]
      rfl

end Tells

/-! ## Work that succeeds or halts the console -/

/-- The console is powered and not halted. -/
structure Runs (c : Console β) : Prop where
  powered : c.powered = true
  halted : c.halted = none

/-- What work comes to: the console runs and nobody was told, or the console is halted by the error
    that the work stopped with, and the handler was told of it once. -/
inductive Ends (c : Console β) : EStateM.Result CpuFault (Console β) α → Prop
  | ok {v : α} {c' : Console β} (tells : Tells c c' []) (runs : c'.Runs) : Ends c (.ok v c')
  | error {e : CpuFault} {c' : Console β} (tells : Tells c c' [e]) (powered : c'.powered = true)
    (halted : c'.halted = some e) : Ends c (.error e c')

theorem Ends.of_tells {r : EStateM.Result CpuFault (Console β) α} (h : Tells c c' [])
    (hr : Ends c' r) : Ends c r := by
  cases hr with
  | ok tells runs => exact .ok (h.trans tells) runs
  | error tells powered halted => exact .error (h.trans tells) powered halted

theorem Ends.bind {x : ConsoleM β α} {f : α → ConsoleM β γ} (hx : Ends c (x c))
    (hf : ∀ v c', c'.Runs → Ends c' (f v c')) : Ends c ((x >>= f) c) := by
  cases h : x c with
  | ok v c' =>
    rw [h] at hx
    cases hx with
    | ok tells runs =>
      rw [bind_of_ok h]
      exact (hf v c' runs).of_tells tells
  | error e c' =>
    rw [h] at hx
    cases hx with
    | error tells powered halted =>
      rw [bind_of_error h]
      exact .error tells powered halted

omit [Board β] in
theorem attempt_of_ok {work : Exec β α} {v : α} {m : Machine β} (h : work c.machine = .ok v m) :
    attempt work c = .ok v { c with machine := m } := by
  rw [attempt, h]

omit [Board β] in
theorem attempt_of_error {work : Exec β α} {e : CpuFault} {m : Machine β}
    (h : work c.machine = .error e m) :
    attempt work c = .error e ({ c with machine := m }.halt e) := by
  rw [attempt, h]

/-- Work of the processor that adds ordinary events ends as it should. -/
theorem attempt_ends {work : Exec β α} (h : Exec.Adds (Event.Ordinary β) work) (hc : c.Runs) :
    Ends c (attempt work c) := by
  obtain ⟨l, hl, hordinary⟩ := h c.machine
  unfold attempt
  cases hw : work c.machine with
  | ok v m =>
    rw [stateAfter_of_ok hw] at hl
    exact .ok (.of_ordinary rfl rfl hl hordinary) ⟨hc.powered, hc.halted⟩
  | error e m =>
    rw [stateAfter_of_error hw] at hl
    have htells : Tells c { c with machine := m } [] := .of_ordinary rfl rfl hl hordinary
    exact .error (htells.trans (.halt _ e)) hc.powered rfl

theorem switchOn_eq (c : Console β) :
    switchOn c = attempt (Exec.reset c.settings.resetStack)
      { c with halted := none, powered := true } :=
  rfl

theorem switchOn_ends (c : Console β) : Ends c (switchOn c) := by
  have htells : Tells c { c with halted := none, powered := true } [] :=
    ⟨rfl, rfl, (List.append_nil _).symm, fun _ => (List.append_nil _).symm⟩
  exact (attempt_ends (Exec.Adds.reset _) ⟨rfl, rfl⟩).of_tells htells

theorem reset_ends (c : Console β) : Ends c (reset c) :=
  (switchOn_ends _).of_tells (.resetBus c)

/-! ## Work that clocks the console -/

/-- Work that clocks the console: it ends as it should where the console runs, is refused where the
    console is halted, and switches the console on first where it has no power. -/
structure Clocked (x : ConsoleM β α) : Prop where
  ends : ∀ c, c.Runs → Ends c (x c)
  refused : ∀ c e, c.powered = true → c.halted = some e → x c = .error e c
  powersUp : ∀ c, c.powered = false → x c = (switchOn >>= fun _ => x) c

theorem Clocked.bind {x : ConsoleM β α} {f : α → ConsoleM β γ} (hx : Clocked x)
    (hf : ∀ v c, c.Runs → Ends c (f v c)) : Clocked (x >>= f) where
  ends c hc := (hx.ends c hc).bind hf
  refused c e hp he := bind_of_error (hx.refused c e hp he) f
  powersUp c hp := by
    rw [← bind_assoc]
    change EStateM.bind x f c = EStateM.bind (switchOn >>= fun _ => x) f c
    rw [EStateM.bind, hx.powersUp c hp]
    rfl

theorem Clocked.map {x : ConsoleM β α} (hx : Clocked x) (f : α → γ) : Clocked (f <$> x) :=
  hx.bind fun _ c hc => .ok (.refl c) hc

theorem Clocked.ends_of_not_halted {x : ConsoleM β α} (hx : Clocked x) (hc : c.halted = none) :
    Ends c (x c) := by
  cases hp : c.powered with
  | true => exact hx.ends c ⟨hp, hc⟩
  | false =>
    rw [hx.powersUp c hp]
    exact (switchOn_ends c).bind fun _ c' hc' => hx.ends c' hc'

/-! ## Steps and rows of steps -/

/-- A step of a console that has power. -/
def poweredStep : ConsoleM β Nat := do
  match (← get).halted with
  | some e => throw e
  | none => attempt Exec.step

theorem step_eq (c : Console β) :
    step c = (if c.powered then poweredStep else switchOn >>= fun _ => poweredStep) c :=
  rfl

theorem step_of_powered (hp : c.powered = true) : step c = poweredStep c := by
  rw [step_eq, hp]
  rfl

theorem poweredStep_of_halted {e : CpuFault} (he : c.halted = some e) :
    poweredStep c = .error e c := by
  change (match c.halted with
    | some e => throw e
    | none => attempt Exec.step : ConsoleM β Nat) c = _
  rw [he]
  rfl

theorem poweredStep_of_running (he : c.halted = none) :
    poweredStep c = attempt Exec.step c := by
  change (match c.halted with
    | some e => throw e
    | none => attempt Exec.step : ConsoleM β Nat) c = _
  rw [he]

/-- Where the reset sequence succeeds the console has power, and the rest of a step is a step. -/
theorem step_of_unpowered (hp : c.powered = false) :
    step c = (switchOn >>= fun _ => step) c := by
  rw [step_eq, hp]
  have hends := switchOn_ends c
  cases h : switchOn c with
  | ok v c' =>
    rw [h] at hends
    cases hends with
    | ok tells runs =>
      change (switchOn >>= fun _ => poweredStep) c = _
      rw [bind_of_ok h, bind_of_ok h, step_of_powered runs.powered]
  | error e c' =>
    change (switchOn >>= fun _ => poweredStep) c = _
    rw [bind_of_error h, bind_of_error h]

theorem Clocked.step : Clocked (Console.step : ConsoleM β Nat) where
  ends c hc := by
    rw [step_of_powered hc.powered, poweredStep_of_running hc.halted]
    exact attempt_ends Exec.Adds.step hc
  refused c e hp he := by rw [step_of_powered hp, poweredStep_of_halted he]
  powersUp c hp := step_of_unpowered hp

theorem poweredStep_paced : Clock.Paced (poweredStep : ConsoleM β Nat) := by
  intro c n c' h
  cases he : c.halted with
  | some e =>
    rw [poweredStep_of_halted he] at h
    cases h
  | none =>
    rw [poweredStep_of_running he] at h
    cases hs : Exec.step c.machine with
    | ok cycles m =>
      rw [attempt_of_ok hs] at h
      cases h
      exact Exec.paced hs
    | error e m =>
      rw [attempt_of_error hs] at h
      cases h

/-- A step that succeeds reports the cycles of a step of the processor. -/
theorem paced : Clock.Paced (step : ConsoleM β Nat) := by
  intro c n c' h
  rw [step_eq] at h
  cases hp : c.powered with
  | true =>
    rw [hp] at h
    exact poweredStep_paced h
  | false =>
    rw [hp] at h
    change (switchOn >>= fun _ => poweredStep) c = _ at h
    cases hs : switchOn c with
    | ok v d =>
      rw [bind_of_ok hs] at h
      exact poweredStep_paced h
    | error e d =>
      rw [bind_of_error hs] at h
      cases h

section Loops

variable {action : ConsoleM β Nat}

/-- Steps that each succeed or halt the console do so together: a row of them goes on only while the
    console runs, and the first that fails is its last. -/
theorem Ends.repeatFrom (h : ∀ c, c.Runs → Ends c (action c)) (spent n : Nat) (hc : c.Runs) :
    Ends c (Clock.repeatFrom action spent n c) := by
  induction n generalizing spent c with
  | zero => exact .ok (.refl c) hc
  | succ n ih =>
    rw [Clock.repeatFrom_succ]
    exact (h c hc).bind fun cycles c' hc' => ih (spent + cycles) hc'

theorem Ends.spendFrom (h : ∀ c, c.Runs → Ends c (action c)) (spent remaining : Nat)
    (hc : c.Runs) : Ends c (Clock.spendFrom action spent remaining c) := by
  induction remaining using Nat.strongRecOn generalizing spent c with
  | ind remaining ih =>
    by_cases hzero : remaining = 0
    · rw [Clock.spendFrom, if_pos hzero]
      exact .ok (.refl c) hc
    · rw [Clock.spendFrom_of_ne_zero action spent hzero]
      -- A step counts for one cycle at least, so fewer remain behind it.
      refine (h c hc).bind fun cycles c' hc' => ih (remaining - max 1 cycles) ?_ _ hc'
      omega

/-- A row of one step or more clocks the console if its steps do. -/
theorem Clocked.forSteps (h : Clocked action) (n : Nat) :
    Clocked (Clock.forSteps action (n + 1)) := by
  rw [Clock.forSteps, Clock.repeatFrom_succ]
  exact h.bind fun _ _ hc => Ends.repeatFrom h.ends _ _ hc

theorem Clocked.forCycles (h : Clocked action) (hpaced : Clock.Paced action) {budget : Nat}
    (hb : budget ≠ 0) : Clocked (Clock.forCycles action budget) := by
  rw [Clock.forCycles_eq hpaced.pos, Clock.spendFrom_of_ne_zero action 0 hb]
  exact h.bind fun _ _ hc => Ends.spendFrom h.ends _ _ hc

end Loops

theorem frameCycles_ne_zero (s : Settings) : s.video.frameCycles ≠ 0 := by
  cases s.video <;> decide

theorem frame_eq (c : Console β) :
    frame c = Clock.forCycles step c.settings.video.frameCycles c :=
  rfl

/-- A frame is a row of steps for as many cycles as the settings say, and the reset sequence does
    not change the settings. -/
theorem Clocked.frame : Clocked (Console.frame : ConsoleM β Nat) where
  ends c hc := (Clocked.step.forCycles paced (frameCycles_ne_zero c.settings)).ends c hc
  refused c e hp he :=
    (Clocked.step.forCycles paced (frameCycles_ne_zero c.settings)).refused c e hp he
  powersUp c hp := by
    have hrow := (Clocked.step.forCycles paced (frameCycles_ne_zero c.settings)).powersUp c hp
    have hends := switchOn_ends c
    rw [frame_eq, hrow]
    cases hs : switchOn c with
    | ok v c' =>
      rw [hs] at hends
      cases hends with
      | ok tells runs => rw [bind_of_ok hs, bind_of_ok hs, frame_eq, tells.settings]
    | error e c' => rw [bind_of_error hs, bind_of_error hs]

end Console

/-! ## Commands -/

/-- What the outside asks of a console. -/
inductive Command where
  | switchOn
  | reset
  | step
  | steps (n : Nat)
  | frame
  | requestNmi
  | driveIrq (asserted : Bool)
  | setHandler (label : String)
deriving DecidableEq, Repr

namespace Command

/-- Whether a command starts the console anew. -/
def restarts : Command → Bool
  | switchOn | reset => true
  | _ => false

/-- Whether a command clocks the console; a row of no steps does not. -/
def clocks : Command → Bool
  | step | frame => true
  | steps n => n != 0
  | _ => false

/-- Whether the console has power behind a command, even if it had none before. -/
def powers (command : Command) : Bool := command.restarts || command.clocks

/-- The handler that is installed behind a command. -/
def installs (handler : Option String) : Command → Option String
  | setHandler label => some label
  | _ => handler

theorem restarts_of_clocks {command : Command} (h : command.clocks = true) :
    command.restarts = false := by
  cases command <;> first | rfl | cases h

theorem installs_of_powers {command : Command} (h : command.powers = true)
    (handler : Option String) : command.installs handler = handler := by
  cases command <;> first | rfl | cases h

end Command

namespace Console

variable {β : Type} [Board β] {c : Console β}

/-- Obeys a command and returns the cycles that it reports, if it reports any. -/
def obey : Command → ConsoleM β (Option Nat)
  | .switchOn => (fun _ => none) <$> switchOn
  | .reset => (fun _ => none) <$> reset
  | .step => some <$> step
  | .steps n => some <$> steps n
  | .frame => some <$> frame
  | .requestNmi => fun c => .ok none (c.modifyCpu Cpu.latchNmi)
  | .driveIrq asserted => fun c => .ok none (c.modifyCpu (·.driveIrq asserted))
  | .setHandler label => fun c => .ok none (c.setHandler label)

/-- The console behind a command, whether it succeeded or failed. -/
def after (c : Console β) (command : Command) : Console β := stateAfter (obey command) c

/-- The console behind a row of commands. -/
def history (c : Console β) (l : List Command) : Console β := l.foldl after c

theorem after_of_ok {command : Command} {v : Option Nat} {c' : Console β}
    (h : obey command c = .ok v c') : c.after command = c' :=
  stateAfter_of_ok h

theorem after_of_error {command : Command} {e : CpuFault} {c' : Console β}
    (h : obey command c = .error e c') : c.after command = c' :=
  stateAfter_of_error h

theorem Ends.of_restarts {command : Command} (h : command.restarts = true) (c : Console β) :
    Ends c (obey command c) := by
  cases command with
  | switchOn => exact (switchOn_ends c).bind fun _ c' hc' => .ok (.refl c') hc'
  | reset => exact (reset_ends c).bind fun _ c' hc' => .ok (.refl c') hc'
  | step | steps | frame | requestNmi | driveIrq | setHandler => cases h

theorem Clocked.of_clocks {command : Command} (h : command.clocks = true) :
    Clocked (obey command : ConsoleM β (Option Nat)) := by
  cases command with
  | step => exact Clocked.step.map some
  | frame => exact Clocked.frame.map some
  | steps n =>
    cases n with
    | zero => cases h
    | succ n => exact (Clocked.step.forSteps n).map some
  | switchOn | reset | requestNmi | driveIrq | setHandler => cases h

/-- The invariant: a console that is halted is powered. -/
def Sound (c : Console β) : Prop := c.halted ≠ none → c.powered = true

/-- All that a command can do to a console. -/
inductive Reaction (c : Console β) (command : Command) : Prop
  /-- It starts or clocks the console and succeeds. -/
  | succeeds {v : Option Nat} (powers : command.powers = true)
    (free : command.restarts = true ∨ c.halted = none)
    (result : obey command c = .ok v (c.after command))
    (tells : Tells c (c.after command) []) (runs : (c.after command).Runs)
  /-- It starts or clocks the console and halts it. -/
  | fails {e : CpuFault} (powers : command.powers = true)
    (free : command.restarts = true ∨ c.halted = none)
    (result : obey command c = .error e (c.after command))
    (tells : Tells c (c.after command) [e]) (powered : (c.after command).powered = true)
    (halted : (c.after command).halted = some e)
  /-- It finds the console halted and does nothing. -/
  | refused {e : CpuFault} (clocks : command.clocks = true) (halted : c.halted = some e)
    (result : obey command c = .error e c)
  /-- It neither starts nor clocks the console. -/
  | idle {v : Option Nat} (powers : command.powers = false)
    (result : obey command c = .ok v (c.after command))
    (halted : (c.after command).halted = c.halted)
    (powered : (c.after command).powered = c.powered)
    (handler : (c.after command).handler = command.installs c.handler)
    (journal : (c.after command).machine.journal = c.machine.journal)

theorem Ends.reaction {command : Command} (h : Ends c (obey command c))
    (powers : command.powers = true) (free : command.restarts = true ∨ c.halted = none) :
    Reaction c command := by
  cases hr : obey command c with
  | ok v c' =>
    rw [hr, ← after_of_ok hr] at h
    cases h with
    | ok tells runs => exact .succeeds powers free (after_of_ok hr ▸ hr) tells runs
  | error e c' =>
    rw [hr, ← after_of_error hr] at h
    cases h with
    | error tells powered halted =>
      exact .fails powers free (after_of_error hr ▸ hr) tells powered halted

theorem Sound.reaction (hc : c.Sound) (command : Command) : Reaction c command := by
  cases hr : command.restarts with
  | true =>
    have hp : command.powers = true := by rw [Command.powers, hr, Bool.true_or]
    exact (Ends.of_restarts hr c).reaction hp (.inl hr)
  | false =>
    cases hk : command.clocks with
    | true =>
      have hp : command.powers = true := by rw [Command.powers, hk, Bool.or_true]
      have hclocked : Clocked (obey command : ConsoleM β (Option Nat)) := .of_clocks hk
      cases he : c.halted with
      | none => exact (hclocked.ends_of_not_halted he).reaction hp (.inr he)
      | some e =>
        have hpowered : c.powered = true := hc (by rw [he]; exact Option.some_ne_none e)
        exact .refused hk he (hclocked.refused c e hpowered he)
    | false =>
      have hp : command.powers = false := by rw [Command.powers, hr, hk, Bool.or_false]
      cases command with
      | requestNmi | driveIrq | setHandler => exact .idle hp rfl rfl rfl rfl rfl
      | steps n =>
        cases n with
        | zero => exact .idle hp rfl rfl rfl rfl rfl
        | succ n => cases hk
      | step | frame => cases hk
      | switchOn | reset => cases hr

/-! ## Histories -/

namespace Sound

theorem after (hc : c.Sound) (command : Command) : (c.after command).Sound := by
  intro h
  cases hc.reaction command with
  | succeeds _ _ _ _ runs => exact runs.powered
  | fails _ _ _ _ powered => exact powered
  | refused _ halted result =>
    rw [after_of_error result] at h ⊢
    exact hc h
  | idle _ _ halted powered =>
    rw [powered]
    exact hc (halted ▸ h)

theorem powered_after (hc : c.Sound) (command : Command) :
    (c.after command).powered = (c.powered || command.powers) := by
  cases hc.reaction command with
  | succeeds powers _ _ _ runs => rw [runs.powered, powers, Bool.or_true]
  | fails powers _ _ _ powered => rw [powered, powers, Bool.or_true]
  | refused _ halted result =>
    have hpowered : c.powered = true := hc (by rw [halted]; exact Option.some_ne_none _)
    rw [after_of_error result, hpowered, Bool.true_or]
  | idle powers _ _ powered => rw [powered, powers, Bool.or_false]

theorem handler_after (hc : c.Sound) (command : Command) :
    (c.after command).handler = command.installs c.handler := by
  cases hc.reaction command with
  | succeeds powers _ _ tells => rw [tells.handler, Command.installs_of_powers powers]
  | fails powers _ _ tells => rw [tells.handler, Command.installs_of_powers powers]
  | refused clocks _ result =>
    have powers : command.powers = true := by rw [Command.powers, clocks, Bool.or_true]
    rw [after_of_error result, Command.installs_of_powers powers]
  | idle _ _ _ _ handler => exact handler

theorem history (hc : c.Sound) (l : List Command) : (c.history l).Sound := by
  induction l generalizing c with
  | nil => exact hc
  | cons command l ih => exact ih (hc.after command)

theorem powered_history (hc : c.Sound) (l : List Command) :
    (c.history l).powered = (c.powered || l.any Command.powers) := by
  induction l generalizing c with
  | nil => exact (Bool.or_false _).symm
  | cons command l ih =>
    have hrest := ih (hc.after command)
    rw [hc.powered_after command, Bool.or_assoc] at hrest
    exact hrest

theorem handler_history (hc : c.Sound) (l : List Command) :
    (c.history l).handler = l.foldl Command.installs c.handler := by
  induction l generalizing c with
  | nil => rfl
  | cons command l ih =>
    have hrest := ih (hc.after command)
    rw [hc.handler_after command] at hrest
    exact hrest

end Sound

/-! ## The protocol -/

/-- A command that the handler has to hear of: it halts a console that was not halted, or it starts
    the console anew and fails. -/
def Alarms (c : Console β) (command : Command) : Prop :=
  (c.halted = none ∧ (c.after command).halted ≠ none) ∨
  (command.restarts = true ∧ ∃ e, obey command c = .error e (c.after command))

/-- What the handler and the log are told by a command: of a command that alarms, the error that it
    stops with and that halts the console from then on; of any other, nothing. -/
theorem Sound.tells (hc : c.Sound) (command : Command) :
    (c.Alarms command → ∃ e, obey command c = .error e (c.after command) ∧
      (c.after command).halted = some e ∧ Tells c (c.after command) [e]) ∧
    (¬ c.Alarms command →
      (c.after command).machine.journal.fatals = c.machine.journal.fatals ∧
      (Board.LogsNoErrors β →
        (c.after command).machine.journal.errors = c.machine.journal.errors)) := by
  cases hc.reaction command with
  | succeeds powers free result tells runs =>
    have hnot : ¬ c.Alarms command := by
      rintro (⟨-, hhalted⟩ | ⟨-, e, hresult⟩)
      · exact hhalted runs.halted
      · rw [result] at hresult
        cases hresult
    refine ⟨fun h => absurd h hnot, fun _ => ⟨?_, fun hβ => ?_⟩⟩
    · rw [tells.calls, List.map_nil, List.append_nil]
    · rw [tells.records hβ, List.map_nil, List.append_nil]
  | @fails e powers free result tells powered halted =>
    have halarms : c.Alarms command := by
      rcases free with hrestarts | hfree
      · exact .inr ⟨hrestarts, e, result⟩
      · exact .inl ⟨hfree, by rw [halted]; exact Option.some_ne_none e⟩
    exact ⟨fun _ => ⟨e, result, halted, tells⟩, fun h => absurd halarms h⟩
  | refused clocks halted result =>
    have hnot : ¬ c.Alarms command := by
      rintro (⟨hfree, -⟩ | ⟨hrestarts, -⟩)
      · rw [halted] at hfree
        cases hfree
      · rw [Command.restarts_of_clocks clocks] at hrestarts
        cases hrestarts
    rw [after_of_error result]
    exact ⟨fun h => absurd h hnot, fun _ => ⟨rfl, fun _ => rfl⟩⟩
  | idle powers result halted powered handler journal =>
    have hnot : ¬ c.Alarms command := by
      rintro (⟨hfree, hhalted⟩ | ⟨-, e, hresult⟩)
      · exact hhalted (halted.trans hfree)
      · rw [result] at hresult
        cases hresult
    refine ⟨fun h => absurd h hnot, fun _ => ⟨?_, fun _ => ?_⟩⟩
    · rw [journal]
    · rw [Journal.errors, Journal.errors, journal]

/-- A halt stays until a command that starts the console anew succeeds. -/
theorem Sound.clears (hc : c.Sound) (command : Command) (h : c.halted ≠ none) :
    (c.after command).halted = none ↔
      command.restarts = true ∧ ∃ v, obey command c = .ok v (c.after command) := by
  cases hc.reaction command with
  | @succeeds v powers free result tells runs =>
    exact ⟨fun _ => ⟨free.resolve_right h, v, result⟩, fun _ => runs.halted⟩
  | fails powers free result tells powered halted =>
    constructor
    · intro hnone
      rw [halted] at hnone
      cases hnone
    · rintro ⟨-, v, hresult⟩
      rw [result] at hresult
      cases hresult
  | refused clocks halted result =>
    rw [after_of_error result]
    constructor
    · exact fun hnone => absurd hnone h
    · rintro ⟨hrestarts, -⟩
      rw [Command.restarts_of_clocks clocks] at hrestarts
      cases hrestarts
  | idle powers result halted =>
    rw [halted]
    constructor
    · exact fun hnone => absurd hnone h
    · rintro ⟨hrestarts, -⟩
      rw [Command.powers, hrestarts, Bool.true_or] at powers
      cases powers

/-- How a console halts.  Behind any history of a console that started without power and not halted:

    * a command that halts the console, or that starts it anew and fails, returns the error that
      halts the console from then on, the handler that was installed last is called with it once,
      and it is logged once as an error; no other command calls a handler or logs an error;
    * the console is powered if and only if some command started or clocked it, and always if it is
      halted;
    * while it is halted, the commands that clock it return the error that halted it, and change
      nothing;
    * a halt is cleared only by starting the console anew with success;
    * without power, the commands that clock the console do what they do behind switching it on. -/
theorem halt_protocol (machine : Machine β) (settings : Settings) (handler : Option String)
    (past : List Command) (next : Command) :
    let c : Console β := history { machine, settings, handler } past
    let c' := c.after next
    (c.Alarms next → ∃ e, obey next c = .error e c' ∧ c'.halted = some e ∧
      c'.machine.journal.fatals =
        c.machine.journal.fatals ++ [(past.foldl Command.installs handler, e)] ∧
      (Board.LogsNoErrors β → c'.machine.journal.errors =
        c.machine.journal.errors ++ [.fatal e c'.machine.cpu.pc])) ∧
    (¬ c.Alarms next → c'.machine.journal.fatals = c.machine.journal.fatals ∧
      (Board.LogsNoErrors β → c'.machine.journal.errors = c.machine.journal.errors)) ∧
    c.powered = past.any Command.powers ∧
    (c.halted ≠ none → c.powered = true) ∧
    (∀ e, c.halted = some e → next.clocks = true → obey next c = .error e c) ∧
    (c.halted ≠ none →
      (c'.halted = none ↔ next.restarts = true ∧ ∃ v, obey next c = .ok v c')) ∧
    (c.powered = false → next.clocks = true →
      obey next c = (switchOn >>= fun _ => obey next) c) := by
  intro c c'
  have hfresh : Sound { machine, settings, handler : Console β } := fun h => absurd rfl h
  have hc : c.Sound := hfresh.history past
  have hhandler : c.handler = past.foldl Command.installs handler := hfresh.handler_history past
  have hpowered : c.powered = past.any Command.powers :=
    (hfresh.powered_history past).trans (Bool.false_or _)
  refine ⟨fun halarms => ?_, (hc.tells next).2, hpowered, hc, ?_, hc.clears next, ?_⟩
  · obtain ⟨e, hresult, hhalted, htells⟩ := (hc.tells next).1 halarms
    refine ⟨e, hresult, hhalted, ?_, htells.records⟩
    rw [htells.calls, hhandler]
    rfl
  · intro e he hclocks
    have hon : c.powered = true := hc (by rw [he]; exact Option.some_ne_none e)
    exact (Clocked.of_clocks hclocks).refused c e hon he
  · intro hoff hclocks
    exact (Clocked.of_clocks hclocks).powersUp c hoff

/-- A console with an empty slot halts at its first step, and its handler is told once. -/
theorem empty_slot_halts :
    let c : Console Cartridge := history {} [.setHandler "lamp"]
    let c' := c.after .step
    let e : CpuFault := .vector .reset 0xFFFC
    c.Alarms .step ∧ c'.machine.journal.fatals = [(some "lamp", e)] ∧
      c'.machine.journal.errors = [.fatal e 0] ∧
      obey .step c = (switchOn >>= fun _ => obey .step) c ∧
      obey .frame c' = .error e c' ∧
      (c'.after .requestNmi).machine.journal.fatals = [(some "lamp", e)] ∧
      ((c'.after .reset).halted = none ↔
        Command.reset.restarts = true ∧ ∃ v, obey .reset c' = .ok v (c'.after .reset)) := by
  intro c c' e
  have hhalted : c'.halted = some e := rfl
  have hsome : c'.halted ≠ none := by rw [hhalted]; exact Option.some_ne_none e
  have halarms : c.Alarms .step := .inl ⟨rfl, hsome⟩
  obtain ⟨hfirst, -, -, -, -, -, hoff⟩ :=
    halt_protocol (β := Cartridge) {} {} none [.setHandler "lamp"] .step
  obtain ⟨e', -, he', hfatals, herrors⟩ := hfirst halarms
  obtain rfl : e = e' := Option.some.inj (hhalted.symm.trans he')
  obtain ⟨-, -, -, -, hrefused, -, -⟩ :=
    halt_protocol (β := Cartridge) {} {} none [.setHandler "lamp", .step] .frame
  obtain ⟨-, hquiet, -, -, -, -, -⟩ :=
    halt_protocol (β := Cartridge) {} {} none [.setHandler "lamp", .step] .requestNmi
  obtain ⟨-, -, -, -, -, hclears, -⟩ :=
    halt_protocol (β := Cartridge) {} {} none [.setHandler "lamp", .step] .reset
  have hnot : ¬ c'.Alarms .requestNmi := by
    rintro (⟨hnone, -⟩ | ⟨hrestarts, -⟩)
    · exact hsome hnone
    · cases hrestarts
  exact ⟨halarms, hfatals, herrors Cartridge.logsNoErrors, hoff rfl rfl, hrefused e hhalted rfl,
    (hquiet hnot).1.trans hfatals, hclears hsome⟩

end Console

end Console6502
