/-
  The bus as a flat memory with aliases.

  Two addresses are aliases if they have the same memory behind them.  Seen through reads and stores
  a bus is no more than this: a read yields what was last accepted for an alias of its address.  Two
  addresses are aliases just if they name one cell of the bus (`Aliases.iff_cell`), and by induction
  over the events each cell holds what was last accepted for the addresses that name it
  (`Bus.cell_run`).
-/
import Console6502.Proofs.BusCells
import Mathlib.Data.List.Induction

namespace Console6502

namespace FlatMemory

/-- Two addresses have the same memory behind them, if there is any, where the program RAM has this
    size. -/
def Aliases (ramSize : Nat) (a b : Word) : Prop :=
  a = b ∨
  (a < 0x2000 ∧ b < 0x2000 ∧ a.toNat % 0x0800 = b.toNat % 0x0800) ∨
  ((0x2000 ≤ a ∧ a < 0x4000) ∧ (0x2000 ≤ b ∧ b < 0x4000) ∧ a.toNat % 8 = b.toNat % 8) ∨
  ((0x6000 ≤ a ∧ a < 0x8000) ∧ (0x6000 ≤ b ∧ b < 0x8000) ∧
    (a.toNat - 0x6000) % ramSize = (b.toNat - 0x6000) % ramSize)

instance (ramSize : Nat) (a b : Word) : Decidable (Aliases ramSize a b) :=
  inferInstanceAs (Decidable (_ ∨ _))

/-- A write to the address is accepted. -/
def Accepts (ramSize : Nat) (a : Word) : Prop :=
  a < 0x4020 ∨ (0x6000 ≤ a ∧ a < 0x8000 ∧ ramSize ≠ 0)

instance (ramSize : Nat) (a : Word) : Decidable (Accepts ramSize a) :=
  inferInstanceAs (Decidable (_ ∨ _))

/-- A read of the address is refused. -/
def Refuses (rom : Array Byte) (ramSize : Nat) (a : Word) : Prop :=
  (0x4020 ≤ a ∧ a < 0x6000) ∨ (0x6000 ≤ a ∧ a < 0x8000 ∧ ramSize = 0) ∨
  (0x8000 ≤ a ∧ rom.size = 0)

/-- The byte that an event leaves behind an address: that of an accepted store to an alias of it. -/
def valueFor? (ramSize : Nat) (a : Word) (event : BusEvent) : Option Byte :=
  match event.store? with
  | some (b, v) => if Accepts ramSize b ∧ Aliases ramSize b a then some v else none
  | none => none

/-- The byte last accepted for an alias of an address, if there was one: since the last reset, for
    what a reset clears. -/
def lastAccepted (ramSize : Nat) (past : List BusEvent) (a : Word) : Option Byte :=
  let events := past.reverse
  let recent := if a < 0x4018 then events.takeWhile (· ≠ .reset) else events
  recent.findSome? (valueFor? ramSize a)

theorem lastAccepted_append_reset {ramSize : Nat} (past : List BusEvent) (a : Word) :
    lastAccepted ramSize (past ++ [.reset]) a =
      if a < 0x4018 then none else lastAccepted ramSize past a := by
  by_cases ha : a < 0x4018
  · simp only [lastAccepted, List.reverse_concat, if_pos ha]
    rfl
  · simp only [lastAccepted, List.reverse_concat, if_neg ha]
    rfl

theorem lastAccepted_append_of_ne {ramSize : Nat} (past : List BusEvent) (a : Word)
    {event : BusEvent} (h : event ≠ .reset) :
    lastAccepted ramSize (past ++ [event]) a =
      (valueFor? ramSize a event).or (lastAccepted ramSize past a) := by
  by_cases ha : a < 0x4018
  · simp only [lastAccepted, List.reverse_concat, if_pos ha, List.takeWhile_cons,
      decide_eq_true h, if_true, List.findSome?_cons]
    cases valueFor? ramSize a event <;> rfl
  · simp only [lastAccepted, List.reverse_concat, if_neg ha, List.findSome?_cons]
    cases valueFor? ramSize a event <;> rfl

/-- The addresses that name a cell are the aliases of any one of them. -/
theorem Aliases.iff_cell {ramSize : Nat} {a c : Word} {x : Cell}
    (hc : Cell.of? ramSize c = some x) : Aliases ramSize a c ↔ Cell.of? ramSize a = some x := by
  unfold Aliases
  cases x with
  | ram i =>
    rw [Cell.of?_eq_ram_iff] at hc ⊢
    bv_omega
  | picture i =>
    rw [Cell.of?_eq_picture_iff] at hc ⊢
    bv_omega
  | sound i =>
    rw [Cell.of?_eq_sound_iff] at hc ⊢
    bv_omega
  | program i =>
    -- The size is not a numeral, so linear arithmetic does not see through the remainders.
    rw [Cell.of?_eq_program_iff] at hc ⊢
    obtain ⟨hrange, hsize, hi⟩ := hc
    constructor
    · rintro (rfl | hram | hpicture | ⟨ha, -, hmod⟩)
      · exact ⟨hrange, hsize, hi⟩
      · bv_omega
      · bv_omega
      · exact ⟨by bv_omega, hsize, hmod.trans hi⟩
    · rintro ⟨ha, -, hmod⟩
      exact .inr (.inr (.inr ⟨by bv_omega, by bv_omega, hmod.trans hi.symm⟩))

theorem Accepts.of_cell {ramSize : Nat} {a : Word} {x : Cell} (h : Cell.of? ramSize a = some x) :
    Accepts ramSize a := by
  have hmapped := Cell.mapped h
  unfold Accepts
  bv_omega

theorem valueFor?_of_cell {ramSize : Nat} {a c : Word} {x : Cell} {event : BusEvent}
    {v : Byte} (h : event.store? = some (a, v)) (hc : Cell.of? ramSize c = some x) :
    valueFor? ramSize c event = if Cell.of? ramSize a = some x then some v else none := by
  have hiff : (Accepts ramSize a ∧ Aliases ramSize a c) ↔ Cell.of? ramSize a = some x := by
    rw [Aliases.iff_cell hc, and_iff_right_of_imp]
    exact Accepts.of_cell
  rw [valueFor?, h]
  exact if_congr hiff rfl rfl

end FlatMemory

open FlatMemory

namespace Bus

/-- On a bus that began with all cells zero, a cell holds what was last accepted for the addresses
    that name it. -/
theorem cell_run {b : Bus Nrom} (hzero : ∀ x, b.cell x = 0) (past : List BusEvent) {c : Word}
    {x : Cell} (hc : Cell.of? b.programRam.size c = some x) :
    (b.run past).cell x = (lastAccepted b.programRam.size past c).getD 0 := by
  induction past using List.reverseRecOn with
  | nil =>
    have hnone : lastAccepted b.programRam.size [] c = none := by
      unfold lastAccepted
      split <;> rfl
    rw [hnone]
    exact hzero x
  | append_singleton past event ih =>
    rw [run_append_singleton]
    cases hstore : event.store? with
    | some target =>
      have hne : event ≠ .reset := by
        rintro rfl
        cases hstore
      rw [cell_of_store hstore, (sizes_run b past).2, lastAccepted_append_of_ne past c hne,
        valueFor?_of_cell hstore hc]
      split
      · rfl
      · exact ih
    | none =>
      cases event with
      | reset =>
        have hreset : (b.run past).react .reset = (b.run past).reset := rfl
        rw [hreset, cell_reset (b := b.run past) ((sizes_run b past).2 ▸ hc), lastAccepted_append_reset]
        split
        · rfl
        · exact ih
      | write | setPicture | setSound => cases hstore

variable {b : Bus Nrom} {a : Word}

theorem read_rom_error_iff (h : 0x8000 ≤ a.toNat) :
    (∃ e, b.read a = .error e) ↔ b.rom.size = 0 := by
  rw [read_rom h]
  by_cases hsize : b.rom.size = 0
  · rw [Array.size_eq_zero_iff.mp hsize, Array.getElem?_empty]
    exact iff_of_true ⟨_, rfl⟩ rfl
  · have hlt := Nat.mod_lt (a.toNat - 0x8000) (Nat.pos_of_ne_zero hsize)
    rw [Array.getElem?_eq_getElem hlt]
    exact iff_of_false (fun ⟨e, he⟩ => nomatch he) hsize

/-- A read is refused where nothing is mapped, and where the memory that is mapped is absent. -/
theorem read_error_iff : (∃ e, b.read a = .error e) ↔ Refuses b.rom b.programRam.size a := by
  unfold Refuses
  cases hcell : Cell.of? b.programRam.size a with
  | some x =>
    have hmapped := Cell.mapped hcell
    rw [read_of_cell hcell]
    refine iff_of_false (fun ⟨e, he⟩ => nomatch he) ?_
    bv_omega
  | none =>
    rcases Cell.of?_eq_none_iff.mp hcell with ⟨hlow, hhigh⟩ | hlow | ⟨hlow, habsent⟩
    · by_cases htest : a.toNat < 0x4020
      · rw [read_testMode hlow htest]
        refine iff_of_false (fun ⟨e, he⟩ => nomatch he) ?_
        bv_omega
      · rw [read_unmapped (by omega) hhigh]
        exact iff_of_true ⟨_, rfl⟩ (.inl (by bv_omega))
    · rw [read_rom_error_iff hlow]
      bv_omega
    · by_cases hhigh : a.toNat < 0x8000
      · rw [read_absent hlow hhigh habsent]
        exact iff_of_true ⟨_, rfl⟩ (.inr (.inl (by bv_omega)))
      · rw [read_rom_error_iff (by omega)]
        bv_omega

theorem write_ok_iff (v : Byte) : (∃ b', b.write a v = .ok b') ↔ Accepts b.programRam.size a := by
  unfold Accepts
  cases hcell : Cell.of? b.programRam.size a with
  | some x =>
    obtain ⟨b', hb, -⟩ := write_of_cell hcell v
    exact iff_of_true ⟨b', hb⟩ (Accepts.of_cell hcell)
  | none =>
    have hnone := Cell.of?_eq_none_iff.mp hcell
    rw [write_of_no_cell hcell]
    by_cases htest : a.toNat < 0x4020
    · rw [if_pos htest]
      exact iff_of_true ⟨b, rfl⟩ (.inl (by bv_omega))
    · rw [if_neg htest]
      refine iff_of_false (fun ⟨b', hb⟩ => nomatch hb) ?_
      bv_omega

/-- A store that is refused, that falls into the test-mode window or that has another memory behind
    it changes no read. -/
theorem read_react_of_not_alias {c : Word} {event : BusEvent} {v : Byte}
    (h : event.store? = some (a, v))
    (hc : ¬ Accepts b.programRam.size a ∨ (0x4018 ≤ a ∧ a < 0x4020) ∨
      ¬ Aliases b.programRam.size a c) : (b.react event).read c = b.read c := by
  obtain ⟨hrom, hsize⟩ := sizes_react b event
  cases hcell : Cell.of? b.programRam.size c with
  | none => exact read_of_no_cell hrom hsize hcell
  | some x =>
    have hother : Cell.of? b.programRam.size a ≠ some x := by
      intro hx
      rcases hc with hrefused | htest | halias
      · exact hrefused (Accepts.of_cell hx)
      · have hmapped := Cell.mapped hx
        bv_omega
      · exact halias ((Aliases.iff_cell hcell).mpr hx)
    rw [read_of_cell hcell, read_of_cell (hsize ▸ hcell), cell_of_store h, if_neg hother]

/-- The bus refines a flat memory with aliases.  Behind any events, on a bus without a cartridge or
    with the plain board for any ROM and any amount of RAM:

    * a read is refused in $4020-$5FFF, and where the RAM or the ROM that would answer is absent, and
      nowhere else;
    * the test-mode window reads as zero, and the ROM repeats through $8000-$FFFF whatever was
      written;
    * everywhere else a read yields the byte last accepted for an alias, or zero;
    * a write is accepted below $4020 and by the RAM of the cartridge, and nowhere else;
    * a store that is refused, or made in the test-mode window, or to another alias class, changes no
      read. -/
theorem refines_flat_memory (cartridge : Option (Array Byte × Nat)) (past : List BusEvent)
    (a : Word) :
    let b := (plain cartridge).run past
    let rom := cartridge.elim #[] Prod.fst
    let ramSize := cartridge.elim 0 Prod.snd
    ((∃ e, b.read a = .error e) ↔ Refuses rom ramSize a) ∧
    (0x4018 ≤ a → a < 0x4020 → b.read a = .ok 0) ∧
    (0x8000 ≤ a → 0 < rom.size →
      ∃ v, rom[(a.toNat - 0x8000) % rom.size]? = some v ∧ b.read a = .ok v) ∧
    (a < 0x4018 ∨ (0x6000 ≤ a ∧ a < 0x8000 ∧ ramSize ≠ 0) →
      b.read a = .ok ((lastAccepted ramSize past a).getD 0)) ∧
    (∀ v, (∃ b', b.write a v = .ok b') ↔ Accepts ramSize a) ∧
    (∀ event v c, event.store? = some (a, v) →
      ¬ Accepts ramSize a ∨ (0x4018 ≤ a ∧ a < 0x4020) ∨ ¬ Aliases ramSize a c →
        (b.react event).read c = b.read c) := by
  intro b rom ramSize
  have hrom : b.rom = rom := (sizes_run _ past).1.trans (sizes_plain cartridge).1
  have hsize : b.programRam.size = ramSize := (sizes_run _ past).2.trans (sizes_plain cartridge).2
  refine ⟨?_, ?_, ?_, ?_, ?_, ?_⟩
  · rw [← hrom, ← hsize]
    exact read_error_iff
  · intro h h'
    exact read_testMode (by bv_omega) (by bv_omega)
  · intro h hpos
    have hlt : (a.toNat - 0x8000) % rom.size < rom.size := Nat.mod_lt _ hpos
    refine ⟨_, Array.getElem?_eq_getElem hlt, ?_⟩
    rw [read_rom (by bv_omega), hrom, Array.getElem?_eq_getElem hlt, Option.elim_some]
  · intro h
    have hcell : Cell.of? ramSize a ≠ none := by
      rw [ne_eq, Cell.of?_eq_none_iff]
      bv_omega
    obtain ⟨x, hx⟩ := Option.ne_none_iff_exists'.mp hcell
    have hstart : (plain cartridge).programRam.size = ramSize := (sizes_plain cartridge).2
    rw [read_of_cell (hsize ▸ hx), cell_run (cell_plain cartridge) past (hstart ▸ hx), hstart]
  · intro v
    rw [← hsize]
    exact write_ok_iff v
  · intro event v c hstore h
    rw [← hsize] at h
    exact read_react_of_not_alias hstore h

/-- A cartridge of three bytes of ROM and two of RAM, behind a row of stores and a reset. -/
theorem odd_cartridge_aliases :
    let past : List BusEvent := [.write 0x0801 5, .setPicture 3 7, .write 0x6003 9, .write 0x8004 1,
      .reset, .write 0x1001 6]
    let b := (plain (some (#[10, 11, 12], 2))).run past
    (∃ e, b.read 0x5000 = .error e) ∧ b.read 0x4018 = .ok 0 ∧ b.read 0x8004 = .ok 11 ∧
      b.read 0x0001 = .ok 6 ∧ b.read 0x2003 = .ok 0 ∧ b.read 0x7FFF = .ok 9 ∧
      (b.react (.write 0x7FFF 1)).read 0x7FFE = b.read 0x7FFE := by
  intro past b
  have h (a : Word) := refines_flat_memory (some (#[10, 11, 12], 2)) past a
  obtain ⟨v, hv, hrom⟩ := (h 0x8004).2.2.1 (by decide) (by decide)
  have hbyte : (#[10, 11, 12] : Array Byte)[((0x8004 : Word).toNat - 0x8000) % 3]? = some 11 := by
    decide
  obtain rfl : 11 = v := Option.some.inj (hbyte.symm.trans hv)
  exact ⟨(h 0x5000).1.mpr (.inl (by decide)), (h 0x4018).2.1 (by decide) (by decide), hrom,
    (h 0x0001).2.2.2.1 (.inl (by decide)), (h 0x2003).2.2.2.1 (.inl (by decide)),
    (h 0x7FFF).2.2.2.1 (.inr (by decide)),
    (h 0x7FFF).2.2.2.2.2 (.write 0x7FFF 1) 1 0x7FFE rfl (.inr (.inr (by decide)))⟩

end Bus

end Console6502
