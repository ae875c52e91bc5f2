/-
  Images that repeat.

  The plain board shows an image of any size over and over through its ROM window.  Written out to
  the full 32 kilobytes (`Nrom.fullImage`) the image no longer repeats, but every address shows the
  byte that it showed before, and nothing reads the ROM in another way.  So two machines or two
  consoles with these boards, equal otherwise, stay equal but for the image, whatever is done to
  both (`Nrom.mirroring_unobservable`).
-/
import Console6502.Proofs.BoardSimulation
import Console6502.Proofs.BusCells

namespace Console6502

namespace Nrom

/-- The image of 32 kilobytes in which this one repeats.  Only its size and its bytes are ever asked
    for, and it is never computed. -/
@[irreducible]
def fullImage (rom : Array Byte) : Array Byte :=
  (Array.range 0x8000).map fun i => rom.getD (i % rom.size) 0

theorem size_fullImage (rom : Array Byte) : (fullImage rom).size = 0x8000 := by
  rw [fullImage, Array.size_map]
  exact Array.size_range

theorem getElem?_fullImage {rom : Array Byte} (h : rom.isEmpty = false) {i : Nat}
    (hi : i < 0x8000) : (fullImage rom)[i]? = rom[i % rom.size]? := by
  rw [fullImage, Array.getElem?_map, Array.getElem?_range, if_pos hi, ← getD_wrap h i, wrap_eq_mod]
  rfl

/-- The boards have the same RAM and show the same bytes of ROM. -/
structure ShowsSame (n n' : Nrom) : Prop where
  ram : n.ram = n'.ram
  rom : ∀ i < 0x8000, n.rom[i % n.rom.size]? = n'.rom[i % n'.rom.size]?

theorem ShowsSame.refl (n : Nrom) : n.ShowsSame n := ⟨rfl, fun _ _ => rfl⟩

theorem ShowsSame.of_rom {rom rom' : Array Byte}
    (h : ∀ i < 0x8000, rom[i % rom.size]? = rom'[i % rom'.size]?) (ram : Array Byte) :
    ShowsSame ⟨rom, ram⟩ ⟨rom', ram⟩ := ⟨rfl, h⟩

theorem ShowsSame.store {n n' : Nrom} (h : n.ShowsSame n') (i : Nat) (v : Byte) :
    (n.store (.ram i) v).ShowsSame (n'.store (.ram i) v) :=
  ⟨congrArg (fun ram : Array Byte => ram.setIfInBounds i v) h.ram, h.rom⟩

theorem showsSame_fullImage {rom : Array Byte} (h : rom.isEmpty = false) (ram : Array Byte) :
    ShowsSame ⟨rom, ram⟩ ⟨fullImage rom, ram⟩ := by
  refine .of_rom (fun i hi => ?_) ram
  rw [size_fullImage, Nat.mod_eq_of_lt hi, getElem?_fullImage h hi]

/-- Boards that show the same cannot be told apart. -/
theorem ShowsSame.simulation : Board.Simulation ShowsSame where
  read {n n'} h a := by
    by_cases hlow : a < 0x6000
    · rw [read?_below hlow, read?_below hlow]
    by_cases hmid : a < 0x8000
    · rw [read?_ram hlow hmid, read?_ram hlow hmid, h.ram]
    · rw [read?_rom hlow hmid, read?_rom hlow hmid]
      exact h.rom _ (by bv_omega)
  write {n n'} h a v := by
    by_cases hmapped : a < 0x6000 ∨ n.ram.size = 0 ∨ 0x8000 ≤ a
    · rw [write?_refused hmapped, write?_refused (h.ram ▸ hmapped)]
      exact .none
    · rw [not_or, not_or] at hmapped
      obtain ⟨hlow, hsize, hhigh⟩ := hmapped
      have hmid : a < 0x8000 := BitVec.not_le.mp hhigh
      rw [write?_ram hlow hmid hsize, write?_ram hlow hmid (h.ram ▸ hsize), h.ram]
      exact .some (h.store _ v)
  notice _ a v := by
    simp [Board.notice?]
  reset h := h

end Nrom

/-! ## Machines and consoles -/

namespace Machine

/-- The machine with this board in the slot, all else as it is. -/
def withBoard {β : Type} (m : Machine β) (board : β) : Machine β :=
  { m with bus := { m.bus with board := some board } }

/-- The machines are equal but for the image on the board. -/
structure EqualButImage (m m' : Machine Nrom) : Prop where
  cpu : m.cpu = m'.cpu
  ram : m.bus.ram = m'.bus.ram
  picture : m.bus.picture = m'.bus.picture
  sound : m.bus.sound = m'.bus.sound
  programRam : m.bus.programRam = m'.bus.programRam
  journal : m.journal = m'.journal

theorem Twins.equalButImage {m m' : Machine Nrom} (h : Twins Nrom.ShowsSame m m') :
    m.EqualButImage m' := by
  refine ⟨h.cpu, h.bus.ram, h.bus.picture, h.bus.sound, ?_, h.journal⟩
  unfold Bus.programRam
  rcases h.bus.slots with ⟨hb, hb'⟩ | ⟨n, n', hb, hb', hsame⟩
  · rw [hb, hb']
  · rw [hb, hb']
    exact hsame.ram

end Machine

/-- The console with this board in the slot, all else as it is. -/
def Console.withBoard {β : Type} (c : Console β) (board : β) : Console β :=
  c.modifyMachine (·.withBoard board)

namespace Nrom.ShowsSame

variable {n n' : Nrom}

theorem twins (h : n.ShowsSame n') (m : Machine Nrom) :
    Machine.Twins ShowsSame (m.withBoard n) (m.withBoard n') :=
  ⟨rfl, ⟨rfl, rfl, rfl, .some h⟩, rfl⟩

/-- With boards that show the same, machines go on alike. -/
theorem acts (h : n.ShowsSame n') (m : Machine Nrom) (l : List Act) :
    (m.withBoard n).answers l = (m.withBoard n').answers l ∧
      ((m.withBoard n).acts l).EqualButImage ((m.withBoard n').acts l) := by
  obtain ⟨hreplies, hafter⟩ := simulation.congruence.acts (h.twins m) l
  exact ⟨hreplies, hafter.equalButImage⟩

/-- With boards that show the same, consoles go on alike. -/
theorem undergo (h : n.ShowsSame n') (c : Console Nrom) (l : List (Intervention Nrom)) :
    (c.withBoard n).replies l = (c.withBoard n').replies l ∧
      Console.Alike Machine.EqualButImage ((c.withBoard n).undergo l)
        ((c.withBoard n').undergo l) := by
  have halike : Console.Alike (Machine.Twins ShowsSame) (c.withBoard n) (c.withBoard n') :=
    ⟨h.twins c.machine, rfl, rfl, rfl, rfl⟩
  obtain ⟨hreplies, hafter⟩ := halike.undergo simulation.congruence (l := l) fun i _ =>
    .inr fun board _ _ hm => hm.attach refl board
  exact ⟨hreplies, hafter.machine.equalButImage, hafter.settings, hafter.handler,
    hafter.halted, hafter.powered⟩

end Nrom.ShowsSame

/-- Let `rom` be an image of any size but zero.  A machine with a plain board for it and a machine
    with one for the full image in which `rom` repeats, equal otherwise, give the same replies to the
    same acts, and are equal behind them but for the image.  The same holds of two consoles and
    whatever happens to them: the errors that halt them and the calls of their handlers are equal,
    too. -/
theorem Nrom.mirroring_unobservable (rom ram : Array Byte) (hrom : rom.isEmpty = false) :
    (fullImage rom).size = 0x8000 ∧
    (∀ i < 0x8000, (fullImage rom)[i]? = rom[i % rom.size]?) ∧
    (∀ (m : Machine Nrom) (l : List Act),
      let m₁ := m.withBoard ⟨rom, ram⟩
      let m₂ := m.withBoard ⟨fullImage rom, ram⟩
      m₁.answers l = m₂.answers l ∧ (m₁.acts l).EqualButImage (m₂.acts l)) ∧
    ∀ (c : Console Nrom) (l : List (Intervention Nrom)),
      let c₁ := c.withBoard ⟨rom, ram⟩
      let c₂ := c.withBoard ⟨fullImage rom, ram⟩
      c₁.replies l = c₂.replies l ∧
        Console.Alike Machine.EqualButImage (c₁.undergo l) (c₂.undergo l) :=
  have hsame := showsSame_fullImage hrom ram
  ⟨size_fullImage rom, fun _ hi => getElem?_fullImage hrom hi, hsame.acts, hsame.undergo⟩

/-- A jump to $8000, where it repeats: a loop of three bytes. -/
def Nrom.threeBytes : Array Byte := #[0x4C, 0x00, 0x80]

/-- The loop runs from the full image as it does from three bytes, although 32768 is no multiple of
    three.  An NMI gets lost in both: its vector repeats to an address where nothing is mapped. -/
theorem Nrom.threeBytes_repeat :
    ((Console.ofBoard none {}).withBoard (⟨fullImage threeBytes, #[7]⟩ : Nrom)).replies
        [.command (.steps 2), .command .requestNmi, .command .step, .read 0xFFFF, .read 0x6000,
          .command .step, .event (.write 0x8000 1)] =
      [.cycles 6, .done, .cycles 7, .byte 0x00, .byte 7, .failed (.read 0x4C80),
        .refused (.write 0x8000)] := by
  obtain ⟨-, -, -, hconsoles⟩ := mirroring_unobservable threeBytes #[7] rfl
  rw [← (hconsoles (Console.ofBoard none {}) _).1]
  decide

end Console6502
