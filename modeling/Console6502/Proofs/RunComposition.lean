/-
  Runs of a console in parts, and against the processor alone.

  A step of a console that runs is a step of its processor, and one that succeeds leaves the console
  running (`Runs.step_ok`).  Any other step that succeeds switches the console on first, which sets
  the cycle counter to zero, and is then a step of a console that runs (`step_ok`).  A step that
  fails leaves the console halted, so that no later step does anything.

  A row of steps is taken apart by these facts with an induction over the row.
  `Console.run_composition` puts rows together: two rows one behind the other are one longer row.
-/
import Console6502.Proofs.HaltProtocol

namespace Console6502.Console

variable {β : Type} [Board β] {α : Type} {c c' : Console β} {l : List Nat}

/-! ## What a result says of the console -/

/-- Work that clocks the console ends as it should, or is refused by a console that is halted. -/
theorem Clocked.ends_or_refused {x : ConsoleM β α} (hx : Clocked x) (c : Console β) :
    Ends c (x c) ∨ ∃ e, c.powered = true ∧ c.halted = some e ∧ x c = .error e c := by
  cases hp : c.powered with
  | false =>
    rw [hx.powersUp c hp]
    exact .inl ((switchOn_ends c).bind fun _ c' hc' => hx.ends c' hc')
  | true =>
    cases he : c.halted with
    | none => exact .inl (hx.ends c ⟨hp, he⟩)
    | some e => exact .inr ⟨e, rfl, rfl, hx.refused c e hp he⟩

theorem Clocked.ok {x : ConsoleM β α} (hx : Clocked x) {v : α} (h : x c = .ok v c') :
    c'.Runs ∧ c'.settings = c.settings := by
  rcases hx.ends_or_refused c with hends | ⟨e, -, -, hrefused⟩
  · rw [h] at hends
    cases hends with
    | ok tells runs => exact ⟨runs, tells.settings⟩
  · rw [h] at hrefused
    cases hrefused

theorem Clocked.error {x : ConsoleM β α} (hx : Clocked x) {e : CpuFault} (h : x c = .error e c') :
    c'.powered = true ∧ c'.halted = some e := by
  rcases hx.ends_or_refused c with hends | ⟨e', hp, he, hrefused⟩
  · rw [h] at hends
    cases hends with
    | error _ powered halted => exact ⟨powered, halted⟩
  · rw [h] at hrefused
    cases hrefused
    exact ⟨hp, he⟩

/-! ## One step -/

theorem Runs.step_eq (hc : c.Runs) : step c = attempt Exec.step c := by
  rw [step_of_powered hc.powered, poweredStep_of_running hc.halted]

/-- A step of a console that runs is a step of its processor. -/
theorem Runs.step_ok (hc : c.Runs) {n : Nat} (h : step c = .ok n c') :
    Exec.step c.machine = .ok n c'.machine := by
  rw [hc.step_eq] at h
  cases hs : Exec.step c.machine with
  | ok n' m =>
    rw [attempt_of_ok hs] at h
    cases h
    rfl
  | error e m =>
    rw [attempt_of_error hs] at h
    cases h

/-- Halting adds to the journal of the machine and leaves the rest of it alone. -/
theorem Runs.step_error (hc : c.Runs) {e : CpuFault} (h : step c = .error e c') :
    ∃ m, Exec.step c.machine = .error e m ∧ c'.machine.cpu = m.cpu ∧ c'.machine.bus = m.bus := by
  rw [hc.step_eq] at h
  cases hs : Exec.step c.machine with
  | ok n m =>
    rw [attempt_of_ok hs] at h
    cases h
  | error e' m =>
    rw [attempt_of_error hs] at h
    cases h
    exact ⟨m, rfl, rfl, rfl⟩

/-- Switching on sets the cycle counter to zero. -/
theorem cycle_of_switchOn {v : Unit} (h : switchOn c = .ok v c') : c'.machine.cpu.cycle = 0 := by
  rw [switchOn_eq] at h
  generalize ({ c with halted := none, powered := true } : Console β) = d at h
  cases hr : Exec.reset c.settings.resetStack d.machine with
  | ok u m =>
    rw [attempt_of_ok hr] at h
    cases h
    obtain ⟨-, -, hcpu, -⟩ := (Exec.Follows.reset _).ok hr
    show m.cpu.cycle = 0
    rw [hcpu]
    rfl
  | error e m =>
    rw [attempt_of_error hr] at h
    cases h

/-- The cycle counter that the next step counts from: that of the console, or zero if it has to be
    switched on first. -/
def startCycle (c : Console β) : Nat := if c.powered then c.machine.cpu.cycle else 0

/-- A step that succeeds is a step of a console that runs, behind the reset sequence if there was no
    power. -/
theorem step_ok {n : Nat} (h : step c = .ok n c') :
    ∃ d : Console β, d.Runs ∧ d.machine.cpu.cycle = c.startCycle ∧ step d = .ok n c' := by
  cases hp : c.powered with
  | true =>
    cases he : c.halted with
    | none => exact ⟨c, ⟨hp, he⟩, by rw [startCycle, if_pos hp], h⟩
    | some e =>
      rw [Clocked.step.refused c e hp he] at h
      cases h
  | false =>
    rw [step_of_unpowered hp] at h
    cases hs : switchOn c with
    | ok v d =>
      rw [bind_of_ok hs] at h
      have hends := switchOn_ends c
      rw [hs] at hends
      cases hends with
      | ok tells runs =>
        refine ⟨d, runs, ?_, h⟩
        rw [cycle_of_switchOn hs, startCycle, hp]
        rfl
    | error e d =>
      rw [bind_of_error hs] at h
      cases h

/-- A step that fails on a console with power charges nothing. -/
theorem cycle_of_step_error (hp : c.powered = true) {e : CpuFault} (h : step c = .error e c') :
    c'.machine.cpu.cycle = c.machine.cpu.cycle := by
  cases he : c.halted with
  | none =>
    obtain ⟨m, hm, hcpu, -⟩ := Runs.step_error ⟨hp, he⟩ h
    rw [hcpu, Machine.cycle_of_error hm]
  | some e' =>
    rw [Clocked.step.refused c e' hp he] at h
    cases h
    rfl

/-! ## Rows of steps -/

/-- On a console that runs, a row of steps that succeed is one of its processor. -/
theorem Runs.takes (hc : c.Runs) (h : Clock.Takes step c l c') :
    Clock.Takes Exec.step c.machine l c'.machine ∧ c'.Runs := by
  induction h with
  | nil => exact ⟨.nil _, hc⟩
  | cons first _ ih =>
    obtain ⟨htakes, hruns⟩ := ih (Clocked.step.ok first).1
    exact ⟨.cons (hc.step_ok first) htakes, hruns⟩

/-- The counter of a console goes on by the cycles of its steps. -/
theorem cycle_of_takes (h : Clock.Takes step c l c') (hstart : c.powered = true ∨ l ≠ []) :
    c'.machine.cpu.cycle = c.startCycle + l.sum := by
  cases h with
  | nil =>
    have hp : c.powered = true := hstart.resolve_right fun hne => hne rfl
    rw [startCycle, if_pos hp]
    rfl
  | @cons _ d _ n l first rest =>
    obtain ⟨d', hd', hstartCycle, hstep⟩ := step_ok first
    obtain ⟨htakes, -⟩ := (Clocked.step.ok first).1.takes rest
    rw [Machine.cycle_of_takes htakes, Machine.cycle_of_ok (hd'.step_ok hstep), hstartCycle,
      List.sum_cons, Nat.add_assoc]

/-- A row of steps on a halted console changes nothing. -/
theorem stateAfter_steps_of_halted {e : CpuFault} (hp : c.powered = true) (he : c.halted = some e)
    (n : Nat) : stateAfter (steps n) c = c := by
  cases n with
  | zero => rfl
  | succ n => exact stateAfter_of_error ((Clocked.step.forSteps n).refused c e hp he)

/-- The first step that fails halts the console. -/
theorem steps_error {n : Nat} {e : CpuFault} (h : steps n c = .error e c') :
    c'.powered = true ∧ c'.halted = some e := by
  cases n with
  | zero => cases h
  | succ n => exact (Clocked.step.forSteps n).error h

theorem steps_add (m n : Nat) :
    (steps (m + n) : ConsoleM β Nat) = steps m >>= fun total => (total + ·) <$> steps n :=
  Clock.forSteps_add step m n

/-- A row of steps that fails is not taken up again: the rest of it finds the console halted. -/
theorem stateAfter_steps_add (c : Console β) (m n : Nat) :
    stateAfter (steps n) (stateAfter (steps m) c) = stateAfter (steps (m + n)) c := by
  rw [steps_add]
  cases h : steps m c with
  | ok total c' =>
    rw [stateAfter_of_ok h, stateAfter, stateAfter, bind_of_ok h]
    exact (stateAfter_map (total + ·) (steps n) c').symm
  | error e c' =>
    obtain ⟨hp, he⟩ := steps_error h
    rw [stateAfter_of_error h, stateAfter_of_error (bind_of_error h _)]
    exact stateAfter_steps_of_halted hp he n

/-- The cycles of two rows are those of the row that they make up. -/
theorem steps_add_result (c : Console β) (m n : Nat) :
    match steps m c with
    | .error e c' => steps (m + n) c = .error e c'
    | .ok total c' =>
      match steps n c' with
      | .error e c'' => steps (m + n) c = .error e c''
      | .ok total' c'' => steps (m + n) c = .ok (total + total') c'' := by
  rw [steps_add]
  cases h : steps m c with
  | error e c' => exact bind_of_error h _
  | ok total c' =>
    rw [bind_of_ok h]
    dsimp only
    cases h' : steps n c' with
    | error e c'' => exact map_of_error h' (total + ·)
    | ok total' c'' => exact map_of_ok h' (total + ·)

/-- On a console that runs, a row of steps does to processor and bus what the processor does
    alone. -/
theorem Runs.steps_result (hc : c.Runs) (n : Nat) :
    match steps n c with
    | .ok total c' => ∃ l, Clock.Takes Exec.step c.machine l c'.machine ∧ l.length = n ∧
        total = l.sum ∧ c'.machine.cpu.cycle = c.machine.cpu.cycle + total
    | .error e c' => ∃ l before behind, Clock.Takes Exec.step c.machine l before ∧
        l.length < n ∧ Exec.step before = .error e behind ∧
        c'.machine.cpu = behind.cpu ∧ c'.machine.bus = behind.bus := by
  obtain ⟨l, hl⟩ := Clock.repeats_forSteps step n c
  rw [steps]
  cases hr : Clock.forSteps step n c with
  | ok total c' =>
    rw [hr] at hl
    cases hl with
    | done takes count =>
      obtain ⟨htakes, -⟩ := hc.takes takes
      exact ⟨l, htakes, count, rfl, Machine.cycle_of_takes htakes⟩
  | error e c' =>
    rw [hr] at hl
    cases hl with
    | @stopped d _ _ takes count failure =>
      obtain ⟨htakes, hruns⟩ := hc.takes takes
      obtain ⟨m', hm', hcpu, hbus⟩ := hruns.step_error failure
      exact ⟨l, d.machine, m', htakes, count, hm', hcpu, hbus⟩

/-- Behind a first row of steps the counter is the number of cycles that the row took. -/
theorem cycle_of_first_steps (hp : c.powered = false) {n total : Nat} (hn : n ≠ 0)
    (h : steps n c = .ok total c') : c'.machine.cpu.cycle = total := by
  obtain ⟨l, hl⟩ := Clock.repeats_forSteps step n c
  rw [steps] at h
  rw [h] at hl
  cases hl with
  | done takes count =>
    have hne : l ≠ [] := by
      rintro rfl
      exact hn count.symm
    rw [cycle_of_takes takes (.inr hne), startCycle, hp]
    exact Nat.zero_add _

/-- Rows of steps compose, on any console:

    * `m` steps and then `n` steps leave the console, its journal with the calls of the handler
      included, that `m + n` steps leave;
    * `m + n` steps return the sum of the two totals, or else the first error.

    Where the console runs, a row of steps does to processor and bus what steps of the processor do,
    up to the first that fails; its total is the sum of what these report, and the counter goes on
    by it.  Behind a first row of steps on a console without power, the counter is the total. -/
theorem run_composition (c : Console β) (m n : Nat) :
    stateAfter (steps n) (stateAfter (steps m) c) = stateAfter (steps (m + n)) c ∧
    (match steps m c with
    | .error e c' => steps (m + n) c = .error e c'
    | .ok total c' =>
      match steps n c' with
      | .error e c'' => steps (m + n) c = .error e c''
      | .ok total' c'' => steps (m + n) c = .ok (total + total') c'') ∧
    (c.Runs →
      match steps n c with
      | .ok total c' => ∃ l, Clock.Takes Exec.step c.machine l c'.machine ∧ l.length = n ∧
          total = l.sum ∧ c'.machine.cpu.cycle = c.machine.cpu.cycle + total
      | .error e c' => ∃ l before behind, Clock.Takes Exec.step c.machine l before ∧
          l.length < n ∧ Exec.step before = .error e behind ∧
          c'.machine.cpu = behind.cpu ∧ c'.machine.bus = behind.bus) ∧
    (c.powered = false → n ≠ 0 →
      ∀ total c', steps n c = .ok total c' → c'.machine.cpu.cycle = total) :=
  ⟨stateAfter_steps_add c m n, steps_add_result c m n, fun hc => hc.steps_result n,
    fun hp hn _ _ h => cycle_of_first_steps hp hn h⟩

/-- A console that was never switched on, with a board that is full of NOPs. -/
def idle : Console Nrom := ofBoard (some (Nrom.ofImage #[0xEA] 0)) {}

/-- The same console behind three NOPs. -/
def rested : Console Nrom := stateAfter (steps 3) idle

/-- Three NOPs take six cycles, counted from the reset sequence on, and three more another six. -/
theorem idle_composes :
    steps 3 idle = .ok 6 rested ∧ rested.machine.cpu.cycle = 6 ∧ rested.Runs ∧
      (∃ l, Clock.Takes Exec.step rested.machine l (stateAfter (steps 3) rested).machine ∧
        l.length = 3) ∧
      stateAfter (steps 3) rested = stateAfter (steps 6) idle := by
  have hfirst : steps 3 idle = .ok 6 rested := rfl
  have hsecond : steps 3 rested = .ok 6 (stateAfter (steps 3) rested) := rfl
  obtain ⟨hstate, -, -, hcycle⟩ := run_composition idle 3 3
  obtain ⟨-, -, htakes, -⟩ := run_composition rested 0 3
  have hruns : rested.Runs := ⟨rfl, rfl⟩
  have hrow := htakes hruns
  rw [hsecond] at hrow
  obtain ⟨l, hl, hlength, -⟩ := hrow
  exact ⟨hfirst, hcycle rfl (by decide) 6 rested hfirst, hruns, ⟨l, hl, hlength⟩, hstate⟩

end Console

end Console6502
