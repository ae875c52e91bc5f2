/-
  Faults of the built-in boards.

  What a built-in board refuses depends on its kind and on whether it has RAM, and neither changes
  while it is in use (`Cartridge.Evolves`).  With the causes for which a step stops this bounds the
  errors of every history (`Cartridge.Tolerates`): there is none of the vector table, because the
  vectors lie in the part of the ROM that is always there and always the same.
-/
import Console6502.Proofs.FaultBounds
import Console6502.Proofs.ResetForgets
import Console6502.Proofs.StopCauses

namespace Console6502

namespace Cartridge

/-- The addresses of the cartridge that cannot be read: those below the ROM, but for the RAM. -/
def RefusesRead : Cartridge → Word → Prop
  | nrom b, a => 0x4020 ≤ a ∧ (a < 0x6000 ∨ a < 0x8000 ∧ b.hasRam = false)
  | uxrom _, a => 0x4020 ≤ a ∧ a < 0x8000

/-- The addresses of the cartridge that cannot be written.  A plain board refuses to write its ROM,
    a banked board takes such a write for one to its register. -/
def RefusesWrite : Cartridge → Word → Prop
  | nrom b, a => 0x4020 ≤ a ∧ (a < 0x6000 ∨ 0x8000 ≤ a ∨ b.hasRam = false)
  | uxrom _, a => 0x4020 ≤ a ∧ a < 0x8000

/-- The errors that the processor can stop with on this board. -/
inductive Tolerates (board : Cartridge) : CpuFault → Prop
  | read {a : Word} (refused : board.RefusesRead a) : Tolerates board (.read a)
  | write {a : Word} (refused : board.RefusesWrite a) : Tolerates board (.write a)
  | illegalOpcode (opcode : Byte) (a : Word) : Tolerates board (.illegalOpcode opcode a)

/-- What can become of `board` in use: its image and the size of its RAM are kept. -/
structure Evolves (board b : Cartridge) : Prop where
  renews : board.Renews b
  size : b.ram.size = board.ram.size

variable {board b : Cartridge} {a : Word}

theorem Evolves.store (h : board.Evolves b) (t : Target) (v : Byte) :
    board.Evolves (Board.store b t v) where
  renews := h.renews.store t v
  size := by
    have hsize : (Board.store b t v).ram.size = b.ram.size := by
      cases b with
      | uxrom u => cases t <;> rfl
      | nrom n =>
        cases t with
        | ram i => exact Array.size_setIfInBounds
        | rom i | register a => rfl
    rw [hsize, h.size]

theorem Evolves.reset (h : board.Evolves b) : board.Evolves (Board.reset b) where
  renews := h.renews.reset
  size := by
    have hsize : (Board.reset b).ram.size = b.ram.size := by cases b <;> rfl
    rw [hsize, h.size]

/-- Whatever happens to a bus, its cartridge remains of the same kind. -/
theorem holds_evolves_react (b : Bus Cartridge) (event : BusEvent) (h : b.Holds board.Evolves) :
    (b.react event).Holds board.Evolves :=
  Bus.holds_react (fun _ t v h => h.store t v) (fun _ h => h.reset) b event h

theorem Evolves.holds {b : Bus Cartridge} (h : b.Holds board.Evolves) : b.Holds board.Renews := by
  obtain ⟨b', hb', hevolves⟩ := h
  exact ⟨b', hb', hevolves.renews⟩

theorem hasRam_iff (n : Nrom) : n.hasRam = false ↔ n.ram.size = 0 := by
  simp [Nrom.hasRam, Array.isEmpty_iff, Array.size_eq_zero_iff]

/-! ## What the boards refuse -/

/-- Where a plain board refuses to read in the window of its RAM, it has none. -/
theorem size_ram_of_refused {n : Nrom} (hlow : ¬ a < 0x6000) (hhigh : a < 0x8000)
    (h : Board.read? n a = none) : n.ram.size = 0 := by
  rw [Nrom.read?_ram hlow hhigh] at h
  by_contra hne
  have hlt := Nat.mod_lt (a.toNat - 0x6000) (Nat.pos_of_ne_zero hne)
  rw [Array.getElem?_eq_getElem hlt] at h
  cases h

theorem Built.refuses_read (hbuilt : board.Built) (h : board.Evolves b) (ha : 0x4020 ≤ a)
    (hnone : Board.read? b a = none) : board.RefusesRead a := by
  have hbelow : a < board.fixedFrom := by
    by_contra hfixed
    obtain ⟨v, hv⟩ := hbuilt.read? (BitVec.not_lt.mp hfixed)
    rw [hv b h.renews] at hnone
    cases hnone
  cases hbuilt with
  | @nrom rom hrom ramSize =>
    simp only [fixedFrom] at hbelow
    refine ⟨ha, ?_⟩
    by_cases hlow : a < 0x6000
    · exact .inl hlow
    · cases b with
      | uxrom u => cases h.renews
      | nrom n =>
        have hsize := size_ram_of_refused hlow hbelow hnone
        exact .inr ⟨hbelow, (hasRam_iff _).mpr (h.size.symm.trans hsize)⟩
  | @uxrom rom board hboard =>
    simp only [fixedFrom] at hbelow
    refine ⟨ha, ?_⟩
    by_contra hlow
    cases b with
    | nrom n => cases h.renews
    | uxrom u => cases (Uxrom.read?_switched hlow hbelow).symm.trans hnone

/-- A cartridge refuses a write where its board does. -/
theorem board_write?_of_none {v : Byte} (h : Board.write? b a v = none) :
    match b with
    | nrom n => Board.write? n a v = none
    | uxrom u => Board.write? u a v = none := by
  cases b with
  | nrom n =>
    have htarget : Board.writeTarget? n a = none := Option.map_eq_none_iff.mp h
    exact Option.map_eq_none_iff.mpr htarget
  | uxrom u =>
    have htarget : Board.writeTarget? u a = none := Option.map_eq_none_iff.mp h
    exact Option.map_eq_none_iff.mpr htarget

theorem Built.refuses_write (hbuilt : board.Built) (h : board.Evolves b) (ha : 0x4020 ≤ a)
    {v : Byte} (hnone : Board.write? b a v = none) : board.RefusesWrite a := by
  have hboard := board_write?_of_none hnone
  cases hbuilt with
  | @nrom rom hrom ramSize =>
    refine ⟨ha, ?_⟩
    by_contra hmapped
    rw [not_or, not_or, hasRam_iff] at hmapped
    obtain ⟨hlow, hhigh, hsize⟩ := hmapped
    cases b with
    | uxrom u => cases h.renews
    | nrom n =>
      have hram : n.ram.size ≠ 0 := fun hzero => hsize (h.size.symm.trans hzero)
      cases (Nrom.write?_ram hlow (BitVec.not_le.mp hhigh) hram v).symm.trans hboard
  | uxrom himage =>
    refine ⟨ha, ?_⟩
    by_contra hlow
    cases b with
    | nrom n => cases h.renews
    | uxrom u => cases (Uxrom.write?_register hlow v).symm.trans hboard

/-! ## What a step on them can stop with -/

variable {m m' : Machine Cartridge}

/-- Of the causes for which a step stops, a built-in board leaves these. -/
theorem Built.tolerates_of_stops (hbuilt : board.Built) (hm : m.bus.Holds board.Evolves)
    (hm' : m'.bus.Holds board.Evolves) {e : CpuFault} (h : m.Stops m' e) : board.Tolerates e := by
  obtain ⟨b, hb, hevolves⟩ := hm
  obtain ⟨b', hb', hevolves'⟩ := hm'
  cases h with
  | @read a mapped refused last =>
    refine .read (hbuilt.refuses_read hevolves mapped ?_)
    rw [Bus.read_cartridge (by bv_omega), hb, Option.bind_some] at refused
    cases hread : Board.read? b a with
    | none => rfl
    | some v =>
      rw [hread] at refused
      cases refused
  | write mapped refused last =>
    rw [hb', Option.bind_some] at refused
    exact .write (hbuilt.refuses_write hevolves' mapped refused)
  | @vector v a through byte refused last =>
    have hfixed : board.fixedFrom ≤ a := by
      rcases byte with rfl | rfl
      · exact (board.fixedFrom_le_address v).1
      · exact (board.fixedFrom_le_address v).2
    obtain ⟨w, hw⟩ := hbuilt.read_bus hfixed
    rw [hw m.bus ⟨b, hb, hevolves.renews⟩] at refused
    cases refused
  | illegalOpcode quiet fetched illegal last => exact .illegalOpcode _ _

/-- Whatever happened to the board, a step stops with one of these errors, and the reset sequence
    succeeds. -/
theorem Built.confined (hbuilt : board.Built) :
    Machine.Confined (·.Holds board.Evolves) board.Tolerates where
  react := holds_evolves_react
  step := by
    intro m hm
    have hafter := Exec.step_invariant holds_evolves_react m hm
    cases hstep : Exec.step m with
    | ok n m' =>
      rw [stateAfter_of_ok hstep] at hafter
      exact .ok hafter
    | error e m' =>
      rw [stateAfter_of_error hstep] at hafter
      exact .error hafter (hbuilt.tolerates_of_stops hm hafter (Exec.step_stops hstep))
  reset := by
    intro sp m hm
    obtain ⟨j, hreset⟩ := hbuilt.reset (Evolves.holds hm) sp
    rw [hreset]
    exact .ok hm

/-- Where the slot holds a cartridge that was built, switching on succeeds. -/
theorem Built.switchOn_ok (hbuilt : board.Built) {c : Console Cartridge}
    (h : c.machine.bus.Holds board.Renews) : ∃ c', Console.switchOn c = .ok () c' := by
  obtain ⟨j, hreset⟩ := hbuilt.reset h c.settings.resetStack
  exact ⟨_, Console.attempt_of_ok (c := { c with halted := none, powered := true }) hreset⟩

/-- The fixed part of the ROM shows the same bytes at any two times, and so do the vectors. -/
theorem Built.fixed_bytes (hbuilt : board.Built) {b b' : Bus Cartridge} (h : b.Holds board.Renews)
    (h' : b'.Holds board.Renews) :
    (∀ a, board.fixedFrom ≤ a → ∃ v, b.read a = .ok v ∧ b'.read a = .ok v) ∧
      ∀ v, b'.vectorWord v = b.vectorWord v := by
  constructor
  · intro a ha
    obtain ⟨v, hv⟩ := hbuilt.read_bus ha
    exact ⟨v, hv b h, hv b' h'⟩
  · intro v
    obtain ⟨w, hw⟩ := hbuilt.vector v
    rw [(hw b' h').1, (hw b h).1]

theorem Built.evolves (hbuilt : board.Built) : board.Evolves board := ⟨hbuilt.renews, rfl⟩

end Cartridge

/-! ## Histories -/

/-- A step stops for one of the causes of `Machine.Stops` and for no other, whatever the machine and
    its board.

    With a built-in board in the slot, built from an image that is not empty, this holds of every
    row of acts on a machine and of every history of a console in which the board is not replaced.
    Behind it the reset sequence succeeds, and so do the power switch and the reset button.  No
    step stops with an error that the board does not tolerate, which leaves no error of the vector
    table, and neither does anything in the history.  The fixed part of the ROM, and with it the
    vectors, reads as it did at the start. -/
theorem Machine.stop_causes :
    (∀ {β : Type} [Board β] (m m' : Machine β) (e : CpuFault),
      Exec.step m = .error e m' → m.Stops m' e) ∧
    ∀ board : Cartridge, board.Built →
      (∀ start : Machine Cartridge, start.bus.board = some board → ∀ past : List Act,
        let m := start.acts past
        (∀ sp, ∃ m', Exec.reset sp m = .ok () m') ∧
        (∀ e m', Exec.step m = .error e m' → board.Tolerates e) ∧
        (∀ e, .failed e ∈ start.answers past → board.Tolerates e) ∧
        (∀ a, board.fixedFrom ≤ a → ∃ v, start.bus.read a = .ok v ∧ m.bus.read a = .ok v) ∧
        ∀ v, m.bus.vectorWord v = start.bus.vectorWord v) ∧
      ∀ start : Console Cartridge, start.machine.bus.board = some board →
        (∀ e, start.halted = some e → board.Tolerates e) →
        ∀ past : List (Intervention Cartridge), (∀ i ∈ past, i.keepsCartridge = true) →
          let c := start.undergo past
          (∃ c', Console.switchOn c = .ok () c') ∧
          (∃ c', Console.reset c = .ok () c') ∧
          (∀ e c', Console.step c = .error e c' → board.Tolerates e) ∧
          (∀ e, .failed e ∈ start.replies past → board.Tolerates e) ∧
          (∀ a, board.fixedFrom ≤ a →
            ∃ v, start.machine.bus.read a = .ok v ∧ c.machine.bus.read a = .ok v) ∧
          ∀ v, c.machine.bus.vectorWord v = start.machine.bus.vectorWord v := by
  refine ⟨fun m m' e => Exec.step_stops, fun board hbuilt => ⟨?_, ?_⟩⟩
  · intro start hslot past m
    have hstart : start.bus.Holds board.Evolves := ⟨board, hslot, hbuilt.evolves⟩
    have hm : m.bus.Holds board.Evolves :=
      ((Congruence.of_bus Cartridge.holds_evolves_react).acts ⟨rfl, hstart⟩ past).2.2
    have hfixed := hbuilt.fixed_bytes (Cartridge.Evolves.holds hstart) (Cartridge.Evolves.holds hm)
    refine ⟨fun sp => ?_, fun e m' hstep => ?_, fun e he => hbuilt.confined.acts hstart he, hfixed⟩
    · obtain ⟨j, hreset⟩ := hbuilt.reset (Cartridge.Evolves.holds hm) sp
      exact ⟨_, hreset⟩
    · have hlands := hbuilt.confined.step m hm
      rw [hstep] at hlands
      cases hlands with
      | error state error => exact error
  · intro start hslot hhalted past hpast c
    have hstart : start.Guarded (·.Holds board.Evolves) board.Tolerates :=
      ⟨⟨board, hslot, hbuilt.evolves⟩, hhalted⟩
    obtain ⟨hc, hreplies⟩ := hbuilt.confined.undergo hstart hpast
    have hrenews := Cartridge.Evolves.holds hc.bus
    have hfixed := hbuilt.fixed_bytes (Cartridge.Evolves.holds hstart.bus) hrenews
    refine ⟨?_, ?_, fun e c' hstep => ?_, hreplies, hfixed⟩
    · exact hbuilt.switchOn_ok hrenews
    · exact hbuilt.switchOn_ok (Cartridge.holds_renews_react _ .reset hrenews)
    · have hlands := hbuilt.confined.console_step c hc
      rw [hstep] at hlands
      cases hlands with
      | error state error => exact error

/-- A machine that has lost its way: nothing is mapped at its program counter. -/
def Machine.astray : Machine Cartridge where
  cpu := { pc := 0x5000 }
  bus := { board := some Console.notebook }

/-- The step of a machine that is astray is refused a read, which its board tolerates.  So is
    whatever it is clocked for until it is reset, and it can be reset at any time. -/
theorem Machine.astray_stops :
    ∃ m', Exec.step astray = .error (.read 0x5000) m' ∧ astray.Stops m' (.read 0x5000) ∧
      Console.notebook.Tolerates (.read 0x5000) ∧
      (∃ m'', Exec.reset 0xFD (astray.acts [.step, .event (.write 0x6000 1)]) = .ok () m'') ∧
      ∃ c', Console.switchOn (({ machine := astray } : Console Cartridge).undergo
        [.command .step, .command (.steps 3)]) = .ok () c' := by
  obtain ⟨hstops, hboards⟩ := Machine.stop_causes
  have hstep : Exec.step astray = .error (.read 0x5000) (stateAfter Exec.step astray) := rfl
  obtain ⟨hmachines, hconsoles⟩ := hboards Console.notebook (.nrom rfl 1)
  obtain ⟨-, htolerates, -⟩ := hmachines astray rfl []
  obtain ⟨hreset, -⟩ := hmachines astray rfl [.step, .event (.write 0x6000 1)]
  obtain ⟨hon, -⟩ := hconsoles { machine := astray } rfl nofun
    [.command .step, .command (.steps 3)] (by decide)
  exact ⟨_, hstep, hstops _ _ _ hstep, htolerates _ _ hstep, hreset 0xFD, hon⟩

end Console6502
