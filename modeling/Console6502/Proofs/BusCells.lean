/-
  The cells of a plain bus.

  A bus with the plain board, or with none, has a cell for each byte of RAM, of the two register
  windows and of the program RAM.  An address either names one cell (`Cell.of?`) or none.  Where it
  names one, a read yields its byte (`Bus.read_of_cell`), and a store from either side changes it and
  nothing else (`Bus.react_of_store`).  Where it names none, a store changes nothing, and what a read
  does depends on the ROM and on sizes, which nothing changes (`Bus.read_of_no_cell`,
  `Bus.sizes_run`).
-/
import Console6502.Board.Nrom
import Console6502.Proofs.BusRun
import Mathlib.Tactic.SplitIfs

namespace Console6502

/-! ## Addresses -/

namespace AddressRegion

variable {a : Word}

theorem of_eq_ram (h : a.toNat < 0x2000) : of a = .ram := by
  rw [of, if_pos (by bv_omega)]

theorem of_eq_picture (h : 0x2000 ≤ a.toNat) (h' : a.toNat < 0x4000) : of a = .picture := by
  rw [of, if_neg (by bv_omega), if_pos (by bv_omega)]

theorem of_eq_sound (h : 0x4000 ≤ a.toNat) (h' : a.toNat < 0x4018) : of a = .sound := by
  rw [of, if_neg (by bv_omega), if_neg (by bv_omega), if_pos (by bv_omega)]

theorem of_eq_testMode (h : 0x4018 ≤ a.toNat) (h' : a.toNat < 0x4020) : of a = .testMode := by
  rw [of, if_neg (by bv_omega), if_neg (by bv_omega), if_neg (by bv_omega), if_pos (by bv_omega)]

theorem of_eq_cartridge (h : 0x4020 ≤ a.toNat) : of a = .cartridge := by
  rw [of, if_neg (by bv_omega), if_neg (by bv_omega), if_neg (by bv_omega), if_neg (by bv_omega)]

end AddressRegion

/-! The indices of the three windows, in terms of the address itself. -/

theorem Ram.index_eq (a : Word) : (a - 0x0000).toNat % 0x0800 = a.toNat % 0x0800 := by
  bv_omega

theorem PictureRegisters.index_eq (a : Word) : (a - 0x2000).toNat % 8 = a.toNat % 8 := by
  bv_omega

theorem SoundRegisters.index_eq {a : Word} (h : 0x4000 ≤ a.toNat) (h' : a.toNat < 0x4018) :
    (a - 0x4000).toNat % 24 = a.toNat - 0x4000 := by
  bv_omega

/-! ## Cells -/

namespace Window

variable {base : Word} {size : Nat}

/-- The byte in cell `i`, zero where there is no such cell. -/
def cell (w : Window base size) (i : Nat) : Byte := w.cells[i]?.getD 0

theorem cell_zero (nonempty : 0 < size) (i : Nat) :
    (zero nonempty : Window base size).cell i = 0 := by
  by_cases hi : i < size
  · simp [cell, zero, hi]
  · simp [cell, zero, hi]

theorem read_eq_cell (w : Window base size) (a : Word) :
    w.read a = w.cell ((a - base).toNat % size) := by
  have hi : (a - base).toNat % size < size := Nat.mod_lt _ w.nonempty
  rw [cell, Vector.getElem?_eq_getElem hi, Option.getD_some]
  rfl

theorem cell_write (w : Window base size) (a : Word) (v : Byte) (i : Nat) :
    (w.write a v).cell i = if (a - base).toNat % size = i then v else w.cell i := by
  change ((w.cells.set (w.index a).val v (w.index a).isLt)[i]?).getD 0 = _
  rw [Vector.getElem?_set, apply_ite (Option.getD · 0)]
  rfl

theorem cell_setCell (w : Window base size) {j : Nat} (hj : j < size) (v : Byte) (i : Nat) :
    (w.setCell j v).cell i = if j = i then v else w.cell i := by
  change ((w.cells.setIfInBounds j v)[i]?).getD 0 = _
  rw [Vector.getElem?_setIfInBounds, if_pos hj, apply_ite (Option.getD · 0)]
  rfl

theorem ext_cell {w w' : Window base size} (h : ∀ i : Fin size, w.cell i = w'.cell i) :
    w = w' := by
  obtain ⟨cells, hpos⟩ := w
  obtain ⟨cells', hpos'⟩ := w'
  have hcells : cells = cells' := by
    refine Vector.ext fun i hi => ?_
    have hi' := h ⟨i, hi⟩
    simpa only [cell, Vector.getElem?_eq_getElem hi, Option.getD_some] using hi'
  rw [hcells]

theorem write_eq_setCell (w : Window base size) (a : Word) (v : Byte) :
    w.write a v = w.setCell ((a - base).toNat % size) v := by
  refine ext_cell fun i => ?_
  rw [cell_write, cell_setCell _ (Nat.mod_lt _ w.nonempty)]

end Window

/-- A byte of memory on a plain bus. -/
inductive Cell where
  | ram (i : Nat)
  | picture (i : Nat)
  | sound (i : Nat)
  | program (i : Nat)
deriving DecidableEq

namespace Cell

/-- The cell that an address names, where the program RAM has this size. -/
def of? (ramSize : Nat) (a : Word) : Option Cell :=
  if a.toNat < 0x2000 then some (.ram (a.toNat % 0x0800))
  else if a.toNat < 0x4000 then some (.picture (a.toNat % 8))
  else if a.toNat < 0x4018 then some (.sound (a.toNat - 0x4000))
  else if 0x6000 ≤ a.toNat ∧ a.toNat < 0x8000 ∧ ramSize ≠ 0 then
    some (.program ((a.toNat - 0x6000) % ramSize))
  else none

variable {ramSize : Nat} {a : Word} {i : Nat}

theorem of?_eq_ram_iff :
    of? ramSize a = some (.ram i) ↔ a.toNat < 0x2000 ∧ a.toNat % 0x0800 = i := by
  unfold of?
  split_ifs <;> simp <;> omega

theorem of?_eq_picture_iff :
    of? ramSize a = some (.picture i) ↔
      (0x2000 ≤ a.toNat ∧ a.toNat < 0x4000) ∧ a.toNat % 8 = i := by
  unfold of?
  split_ifs <;> simp <;> omega

theorem of?_eq_sound_iff :
    of? ramSize a = some (.sound i) ↔
      (0x4000 ≤ a.toNat ∧ a.toNat < 0x4018) ∧ a.toNat - 0x4000 = i := by
  unfold of?
  split_ifs <;> simp <;> omega

theorem of?_eq_program_iff :
    of? ramSize a = some (.program i) ↔
      (0x6000 ≤ a.toNat ∧ a.toNat < 0x8000) ∧ ramSize ≠ 0 ∧
        (a.toNat - 0x6000) % ramSize = i := by
  unfold of?
  split_ifs <;> simp <;> omega

theorem of?_eq_none_iff :
    of? ramSize a = none ↔
      (0x4018 ≤ a.toNat ∧ a.toNat < 0x6000) ∨ 0x8000 ≤ a.toNat ∨
        (0x6000 ≤ a.toNat ∧ ramSize = 0) := by
  unfold of?
  split_ifs <;> simp <;> omega

/-- Below the test-mode window every address names a cell, and beyond it only those of the program
    RAM do. -/
theorem mapped {x : Cell} (h : of? ramSize a = some x) :
    a.toNat < 0x4018 ∨ (0x6000 ≤ a.toNat ∧ a.toNat < 0x8000 ∧ ramSize ≠ 0) := by
  have hsome : of? ramSize a ≠ none := by rw [h]; exact Option.some_ne_none x
  rw [ne_eq, of?_eq_none_iff] at hsome
  omega

end Cell

/-! ## The plain board -/

theorem getD_wrap {xs : Array Byte} (h : xs.isEmpty = false) (i : Nat) :
    some (xs.getD (wrap xs.size i) 0) = xs[i % xs.size]? := by
  have hpos : 0 < xs.size := Array.size_pos_iff.mpr (Array.isEmpty_eq_false_iff.mp h)
  have hlt : i % xs.size < xs.size := Nat.mod_lt i hpos
  rw [wrap_eq_mod, Array.getD_eq_getD_getElem?, Array.getElem?_eq_getElem hlt, Option.getD_some]

namespace Nrom

variable {n : Nrom} {a : Word}

theorem read?_below (h : a < 0x6000) : Board.read? n a = none := by
  change (n.readTarget? a).map n.load = none
  rw [readTarget?, if_pos h]
  rfl

theorem read?_ram (h : ¬ a < 0x6000) (h' : a < 0x8000) :
    Board.read? n a = n.ram[(a.toNat - 0x6000) % n.ram.size]? := by
  change (n.readTarget? a).map n.load = _
  rw [readTarget?, if_neg h, if_pos h', ramTarget?, hasRam]
  cases hram : n.ram.isEmpty with
  | true =>
    rw [Array.isEmpty_iff.mp hram, Array.getElem?_empty]
    rfl
  | false => exact getD_wrap hram _

theorem read?_rom (h : ¬ a < 0x6000) (h' : ¬ a < 0x8000) :
    Board.read? n a = n.rom[(a.toNat - 0x8000) % n.rom.size]? := by
  change (n.readTarget? a).map n.load = _
  rw [readTarget?, if_neg h, if_neg h', romTarget?]
  cases hrom : n.rom.isEmpty with
  | true =>
    rw [Array.isEmpty_iff.mp hrom, Array.getElem?_empty]
    rfl
  | false => exact getD_wrap hrom _

theorem write?_ram (h : ¬ a < 0x6000) (h' : a < 0x8000) (hram : n.ram.size ≠ 0) (v : Byte) :
    Board.write? n a v = some (n.store (.ram ((a.toNat - 0x6000) % n.ram.size)) v) := by
  have hasRam : n.hasRam = true := by
    rw [Nrom.hasRam, Bool.not_eq_true', Array.isEmpty_eq_false_iff, ne_eq,
      ← Array.size_eq_zero_iff]
    exact hram
  change (n.writeTarget? a).map (n.store · v) = _
  rw [writeTarget?, if_neg h, if_pos h', ramTarget?, if_pos hasRam, Option.map_some, wrap_eq_mod]

theorem write?_refused (h : a < 0x6000 ∨ n.ram.size = 0 ∨ 0x8000 ≤ a) (v : Byte) :
    Board.write? n a v = none := by
  change (n.writeTarget? a).map (n.store · v) = none
  rw [Option.map_eq_none_iff, writeTarget?]
  split_ifs with hlow hhigh
  · rfl
  · have hram : n.ram.isEmpty = true := by
      rw [Array.isEmpty_iff_size_eq_zero]
      bv_omega
    rw [ramTarget?, hasRam, hram]
    rfl
  · rfl

end Nrom

namespace Bus

/-- The program ROM, empty if there is no cartridge. -/
def rom (b : Bus Nrom) : Array Byte := b.board.elim #[] Nrom.rom

/-- The program RAM, empty if there is no cartridge. -/
def programRam (b : Bus Nrom) : Array Byte := b.board.elim #[] Nrom.ram

/-- The byte in a cell. -/
def cell (b : Bus Nrom) : Cell → Byte
  | .ram i => b.ram.cell i
  | .picture i => b.picture.cell i
  | .sound i => b.sound.cell i
  | .program i => b.programRam.getD i 0

/-- A bus with all its memory zero, and in the slot nothing or the plain board for this ROM image and
    this much RAM. -/
def plain (cartridge : Option (Array Byte × Nat)) : Bus Nrom :=
  { board := cartridge.map fun (rom, ramSize) => Nrom.ofImage rom ramSize }

variable {b : Bus Nrom} {a : Word}

/-! ### Reads -/

theorem read_cartridge {β : Type} [Board β] {b : Bus β} (h : 0x4020 ≤ a.toNat) :
    b.read a = (b.board.bind (Board.read? · a)).elim (.error (.read a)) .ok := by
  rw [read, AddressRegion.of_eq_cartridge h]
  cases b.board.bind (Board.read? · a) <;> rfl

/-- What the cartridge answers to a read. -/
theorem read?_eq (b : Bus Nrom) (a : Word) :
    b.board.bind (Board.read? · a) =
      if a < 0x6000 then none
      else if a < 0x8000 then b.programRam[(a.toNat - 0x6000) % b.programRam.size]?
      else b.rom[(a.toNat - 0x8000) % b.rom.size]? := by
  rw [rom, programRam]
  -- Computing would not do: the kernel takes $6000 from an unknown address one by one.
  cases b.board with
  | none =>
    rw [Option.elim_none, Option.elim_none, Option.bind_none, Array.getElem?_empty,
      Array.getElem?_empty, ite_self, ite_self]
  | some n =>
    rw [Option.elim_some, Option.elim_some, Option.bind_some]
    split_ifs with h h'
    · exact Nrom.read?_below h
    · exact Nrom.read?_ram h h'
    · exact Nrom.read?_rom h h'

/-- Where an address names a cell, a read yields the byte in it. -/
theorem read_of_cell {x : Cell} (h : Cell.of? b.programRam.size a = some x) :
    b.read a = .ok (b.cell x) := by
  cases x with
  | ram i =>
    obtain ⟨ha, hi⟩ := Cell.of?_eq_ram_iff.mp h
    rw [read, AddressRegion.of_eq_ram ha]
    show Except.ok (b.ram.read a) = .ok (b.ram.cell i)
    rw [Window.read_eq_cell, Ram.index_eq, hi]
  | picture i =>
    obtain ⟨⟨ha, ha'⟩, hi⟩ := Cell.of?_eq_picture_iff.mp h
    rw [read, AddressRegion.of_eq_picture ha ha']
    show Except.ok (b.picture.read a) = .ok (b.picture.cell i)
    rw [Window.read_eq_cell, PictureRegisters.index_eq, hi]
  | sound i =>
    obtain ⟨⟨ha, ha'⟩, hi⟩ := Cell.of?_eq_sound_iff.mp h
    rw [read, AddressRegion.of_eq_sound ha ha']
    show Except.ok (b.sound.read a) = .ok (b.sound.cell i)
    rw [Window.read_eq_cell, SoundRegisters.index_eq ha ha', hi]
  | program i =>
    obtain ⟨⟨ha, ha'⟩, hsize, hi⟩ := Cell.of?_eq_program_iff.mp h
    have hlt : i < b.programRam.size := hi ▸ Nat.mod_lt _ (Nat.pos_of_ne_zero hsize)
    rw [read_cartridge (by omega), read?_eq, if_neg (by bv_omega), if_pos (by bv_omega), hi,
      Array.getElem?_eq_getElem hlt, Option.elim_some, cell, Array.getD_eq_getD_getElem?,
      Array.getElem?_eq_getElem hlt, Option.getD_some]

theorem read_testMode (h : 0x4018 ≤ a.toNat) (h' : a.toNat < 0x4020) : b.read a = .ok 0 := by
  rw [read, AddressRegion.of_eq_testMode h h']

theorem read_unmapped (h : 0x4020 ≤ a.toNat) (h' : a.toNat < 0x6000) :
    b.read a = .error (.read a) := by
  rw [read_cartridge h, read?_eq, if_pos (by bv_omega), Option.elim_none]

theorem read_absent (h : 0x6000 ≤ a.toNat) (h' : a.toNat < 0x8000)
    (hsize : b.programRam.size = 0) : b.read a = .error (.read a) := by
  rw [read_cartridge (by omega), read?_eq, if_neg (by bv_omega), if_pos (by bv_omega),
    Array.size_eq_zero_iff.mp hsize, Array.getElem?_empty, Option.elim_none]

theorem read_rom (h : 0x8000 ≤ a.toNat) :
    b.read a = b.rom[(a.toNat - 0x8000) % b.rom.size]?.elim (.error (.read a)) .ok := by
  rw [read_cartridge (by omega), read?_eq, if_neg (by bv_omega), if_neg (by bv_omega)]

/-- Where an address names no cell, what a read does depends on the ROM and on sizes only. -/
theorem read_of_no_cell {b' : Bus Nrom} (hrom : b'.rom = b.rom)
    (hsize : b'.programRam.size = b.programRam.size) (h : Cell.of? b.programRam.size a = none) :
    b'.read a = b.read a := by
  rcases Cell.of?_eq_none_iff.mp h with ⟨hlow, hhigh⟩ | hlow | ⟨hlow, habsent⟩
  · by_cases htest : a.toNat < 0x4020
    · rw [read_testMode hlow htest, read_testMode hlow htest]
    · rw [read_unmapped (by omega) hhigh, read_unmapped (by omega) hhigh]
  · rw [read_rom hlow, read_rom hlow, hrom]
  · by_cases hhigh : a.toNat < 0x8000
    · rw [read_absent hlow hhigh habsent, read_absent hlow hhigh (hsize.trans habsent)]
    · rw [read_rom (by omega), read_rom (by omega), hrom]

/-! ### Stores -/

/-- From `b` to `b'` this byte was stored in this cell, and nothing else has changed. -/
structure Stores (b b' : Bus Nrom) (x : Cell) (v : Byte) : Prop where
  here : b'.cell x = v
  elsewhere : ∀ y, y ≠ x → b'.cell y = b.cell y
  rom : b'.rom = b.rom
  size : b'.programRam.size = b.programRam.size

namespace Stores

variable {i : Nat} {v : Byte}

theorem of_ram {w : Ram} (h : ∀ k, w.cell k = if i = k then v else b.ram.cell k) :
    b.Stores { b with ram := w } (.ram i) v where
  here := (h i).trans (if_pos rfl)
  elsewhere y hy := by
    cases y with
    | ram k =>
      have hne : i ≠ k := fun hik => hy (hik ▸ rfl)
      exact (h k).trans (if_neg hne)
    | picture | sound | program => rfl
  rom := rfl
  size := rfl

theorem of_picture {w : PictureRegisters}
    (h : ∀ k, w.cell k = if i = k then v else b.picture.cell k) :
    b.Stores { b with picture := w } (.picture i) v where
  here := (h i).trans (if_pos rfl)
  elsewhere y hy := by
    cases y with
    | picture k =>
      have hne : i ≠ k := fun hik => hy (hik ▸ rfl)
      exact (h k).trans (if_neg hne)
    | ram | sound | program => rfl
  rom := rfl
  size := rfl

theorem of_sound {w : SoundRegisters}
    (h : ∀ k, w.cell k = if i = k then v else b.sound.cell k) :
    b.Stores { b with sound := w } (.sound i) v where
  here := (h i).trans (if_pos rfl)
  elsewhere y hy := by
    cases y with
    | sound k =>
      have hne : i ≠ k := fun hik => hy (hik ▸ rfl)
      exact (h k).trans (if_neg hne)
    | ram | picture | program => rfl
  rom := rfl
  size := rfl

theorem of_program {n : Nrom} (hboard : b.board = some n) (hi : i < n.ram.size) :
    b.Stores { b with board := some (Board.store n (.ram i) v) } (.program i) v where
  here := by
    show (n.ram.setIfInBounds i v).getD i 0 = v
    rw [Array.getD_eq_getD_getElem?, Array.getElem?_setIfInBounds_self_of_lt hi, Option.getD_some]
  elsewhere y hy := by
    cases y with
    | program k =>
      have hne : i ≠ k := fun hik => hy (hik ▸ rfl)
      show (n.ram.setIfInBounds i v).getD k 0 = b.programRam.getD k 0
      rw [programRam, hboard, Option.elim_some, Array.getD_eq_getD_getElem?,
        Array.getElem?_setIfInBounds_ne hne, Array.getD_eq_getD_getElem?]
    | ram | picture | sound => rfl
  rom := by
    rw [Bus.rom, Bus.rom, hboard]
    rfl
  size := by
    rw [programRam, programRam, hboard]
    exact Array.size_setIfInBounds

end Stores

theorem write_cartridge {β : Type} [Board β] {b : Bus β} (h : 0x4020 ≤ a.toNat) (v : Byte) :
    b.write a v = (b.board.bind (Board.write? · a v)).elim (.error (.write a))
      fun board => .ok { b with board := some board } := by
  rw [write, AddressRegion.of_eq_cartridge h]
  cases b.board.bind (Board.write? · a v) <;> rfl

/-- Where an address names a cell, a write is accepted and stores in this cell. -/
theorem write_of_cell {x : Cell} (h : Cell.of? b.programRam.size a = some x) (v : Byte) :
    ∃ b', b.write a v = .ok b' ∧ b.Stores b' x v := by
  cases x with
  | ram i =>
    obtain ⟨ha, rfl⟩ := Cell.of?_eq_ram_iff.mp h
    refine ⟨{ b with ram := b.ram.write a v }, ?_, .of_ram fun k => ?_⟩
    · rw [write, AddressRegion.of_eq_ram ha]
    · rw [Window.cell_write, Ram.index_eq]
  | picture i =>
    obtain ⟨⟨ha, ha'⟩, rfl⟩ := Cell.of?_eq_picture_iff.mp h
    refine ⟨{ b with picture := b.picture.write a v }, ?_, .of_picture fun k => ?_⟩
    · rw [write, AddressRegion.of_eq_picture ha ha']
    · rw [Window.cell_write, PictureRegisters.index_eq]
  | sound i =>
    obtain ⟨⟨ha, ha'⟩, rfl⟩ := Cell.of?_eq_sound_iff.mp h
    refine ⟨{ b with sound := b.sound.write a v }, ?_, .of_sound fun k => ?_⟩
    · rw [write, AddressRegion.of_eq_sound ha ha']
    · rw [Window.cell_write, SoundRegisters.index_eq ha ha']
  | program i =>
    obtain ⟨⟨ha, ha'⟩, hsize, hi⟩ := Cell.of?_eq_program_iff.mp h
    cases hboard : b.board with
    | none =>
      rw [programRam, hboard] at hsize
      exact absurd rfl hsize
    | some n =>
      have hram : b.programRam = n.ram := by rw [programRam, hboard, Option.elim_some]
      rw [hram] at hsize hi
      have hlt : i < n.ram.size := hi ▸ Nat.mod_lt _ (Nat.pos_of_ne_zero hsize)
      refine ⟨{ b with board := some (n.store (.ram i) v) }, ?_, .of_program hboard hlt⟩
      rw [write_cartridge (by omega), hboard, Option.bind_some,
        Nrom.write?_ram (by bv_omega) (by bv_omega) hsize, hi, Option.elim_some]

/-- Where an address names no cell, a write is dropped in the test-mode window and refused
    elsewhere. -/
theorem write_of_no_cell (h : Cell.of? b.programRam.size a = none) (v : Byte) :
    b.write a v = if a.toNat < 0x4020 then .ok b else .error (.write a) := by
  have hnone := Cell.of?_eq_none_iff.mp h
  split
  · next htest => rw [write, AddressRegion.of_eq_testMode (by omega) htest]
  · have hrefused : b.board.bind (Board.write? · a v) = none := by
      cases hboard : b.board with
      | none => rfl
      | some n =>
        have hram : b.programRam = n.ram := by rw [programRam, hboard, Option.elim_some]
        rw [hram] at hnone
        exact Nrom.write?_refused (by bv_omega) v
    rw [write_cartridge (by omega), hrefused, Option.elim_none]

theorem react_write_of_no_cell (h : Cell.of? b.programRam.size a = none) (v : Byte) :
    b.react (.write a v) = b := by
  rw [react, write_of_no_cell h]
  by_cases htest : a.toNat < 0x4020
  · rw [if_pos htest]
  · rw [if_neg htest]

/-- The event is a store to this address; it makes the store in the cell that the address names, and
    changes nothing if there is none. -/
theorem react_of_store {event : BusEvent} {v : Byte} (h : event.store? = some (a, v)) :
    match Cell.of? b.programRam.size a with
    | some x => b.Stores (b.react event) x v
    | none => b.react event = b := by
  cases event with
  | write a' v' =>
    obtain ⟨rfl, rfl⟩ := Prod.mk.inj (Option.some.inj h)
    cases hcell : Cell.of? b.programRam.size a' with
    | none => exact react_write_of_no_cell hcell v'
    | some x =>
      obtain ⟨b', hwrite, hstores⟩ := write_of_cell hcell v'
      have hb : b.react (.write a' v') = b' := by rw [react, hwrite]
      exact hb ▸ hstores
  | setPicture i v' =>
    obtain ⟨rfl, rfl⟩ := Prod.mk.inj (Option.some.inj h)
    have hcell : Cell.of? b.programRam.size (0x2000 + BitVec.ofNat 16 i) = some (.picture i) :=
      Cell.of?_eq_picture_iff.mpr (by bv_omega)
    rw [hcell]
    exact .of_picture fun k => Window.cell_setCell _ i.isLt v' k
  | setSound i v' =>
    obtain ⟨rfl, rfl⟩ := Prod.mk.inj (Option.some.inj h)
    have hcell : Cell.of? b.programRam.size (0x4000 + BitVec.ofNat 16 i) = some (.sound i) :=
      Cell.of?_eq_sound_iff.mpr (by bv_omega)
    rw [hcell]
    exact .of_sound fun k => Window.cell_setCell _ i.isLt v' k
  | reset => cases h

theorem cell_of_store {event : BusEvent} {v : Byte} (h : event.store? = some (a, v)) (x : Cell) :
    (b.react event).cell x = if Cell.of? b.programRam.size a = some x then v else b.cell x := by
  have hreact := react_of_store (b := b) h
  cases hcell : Cell.of? b.programRam.size a with
  | none =>
    rw [hcell] at hreact
    rw [hreact]
    rfl
  | some y =>
    rw [hcell] at hreact
    by_cases hxy : y = x
    · rw [if_pos (congrArg some hxy), ← hxy]
      exact hreact.here
    · rw [if_neg fun heq => hxy (Option.some.inj heq)]
      exact hreact.elsewhere x (Ne.symm hxy)

/-! ### Resets -/

/-- A reset clears the cells below the test-mode window; the program RAM keeps its bytes. -/
theorem cell_reset {x : Cell} (h : Cell.of? b.programRam.size a = some x) :
    b.reset.cell x = if a < 0x4018 then 0 else b.cell x := by
  cases x with
  | ram i =>
    have := Cell.of?_eq_ram_iff.mp h
    rw [if_pos (by bv_omega)]
    exact Window.cell_zero _ i
  | picture i =>
    have := Cell.of?_eq_picture_iff.mp h
    rw [if_pos (by bv_omega)]
    exact Window.cell_zero _ i
  | sound i =>
    have := Cell.of?_eq_sound_iff.mp h
    rw [if_pos (by bv_omega)]
    exact Window.cell_zero _ i
  | program i =>
    have := Cell.of?_eq_program_iff.mp h
    rw [if_neg (by bv_omega)]
    show b.reset.programRam.getD i 0 = b.programRam.getD i 0
    rw [programRam, programRam, reset]
    cases b.board <;> rfl

/-! ### Sizes -/

theorem sizes_react (b : Bus Nrom) (event : BusEvent) :
    (b.react event).rom = b.rom ∧ (b.react event).programRam.size = b.programRam.size := by
  cases hstore : event.store? with
  | some target =>
    have hreact := react_of_store (b := b) hstore
    cases hcell : Cell.of? b.programRam.size target.1 with
    | none =>
      rw [hcell] at hreact
      rw [hreact]
      exact ⟨rfl, rfl⟩
    | some x =>
      rw [hcell] at hreact
      exact ⟨hreact.rom, hreact.size⟩
  | none =>
    cases event with
    | reset =>
      have hreset : b.react .reset = b.reset := rfl
      rw [hreset, rom, rom, programRam, programRam, reset]
      cases b.board <;> exact ⟨rfl, rfl⟩
    | write | setPicture | setSound => cases hstore

theorem sizes_run (b : Bus Nrom) (l : List BusEvent) :
    (b.run l).rom = b.rom ∧ (b.run l).programRam.size = b.programRam.size := by
  induction l generalizing b with
  | nil => exact ⟨rfl, rfl⟩
  | cons event l ih =>
    obtain ⟨hrom, hsize⟩ := ih (b.react event)
    obtain ⟨hrom', hsize'⟩ := sizes_react b event
    exact ⟨hrom.trans hrom', hsize.trans hsize'⟩

theorem cell_plain (cartridge : Option (Array Byte × Nat)) (x : Cell) :
    (plain cartridge).cell x = 0 := by
  cases x with
  | ram i => exact Window.cell_zero _ i
  | picture i => exact Window.cell_zero _ i
  | sound i => exact Window.cell_zero _ i
  | program i =>
    cases cartridge with
    | none => rfl
    | some cartridge =>
      show (Array.replicate cartridge.2 0).getD i 0 = 0
      rw [Array.getD_eq_getD_getElem?, Array.getElem?_replicate]
      split <;> rfl

theorem sizes_plain (cartridge : Option (Array Byte × Nat)) :
    (plain cartridge).rom = cartridge.elim #[] Prod.fst ∧
      (plain cartridge).programRam.size = cartridge.elim 0 Prod.snd := by
  cases cartridge with
  | none => exact ⟨rfl, rfl⟩
  | some cartridge => exact ⟨rfl, Array.size_replicate⟩

end Bus

end Console6502
