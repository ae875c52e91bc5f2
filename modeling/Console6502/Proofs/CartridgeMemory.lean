/-
  Image and memory of a cartridge.

  A cartridge is built from an image, which nothing changes, and has program RAM or a bank register
  that programs can write.  A reset puts the register back and leaves the RAM, so behind any history
  a reset cartridge is the one that was built, with the RAM of the moment (`Cartridge.Renews`).  The
  vectors come from the image alone, and can be read at any time (`Cartridge.Built.vector`).
-/
import Console6502.Board.Cartridge
import Console6502.Proofs.BankSwitching
import Console6502.Proofs.Request

namespace Console6502

namespace Cartridge

/-- The program RAM of a cartridge; a banked board has none. -/
def ram : Cartridge → Array Byte
  | nrom b => b.ram
  | uxrom _ => #[]

/-- The cartridge with other bytes for its program RAM, if it is a board that can have some. -/
def withRam (board : Cartridge) (ram : Array Byte) : Cartridge :=
  match board with
  | nrom b => nrom { b with ram }
  | uxrom b => uxrom b

/-- Where the part of the ROM begins that always shows the same bytes: all of a plain board, the
    last bank of a banked one. -/
def fixedFrom : Cartridge → Word
  | nrom _ => 0x8000
  | uxrom _ => 0xC000

/-- A cartridge as it is built from an image that is not empty. -/
inductive Built : Cartridge → Prop
  | nrom {rom : Array Byte} (h : rom.isEmpty = false) (ramSize : Nat) :
    Built (.nrom (Nrom.ofImage rom ramSize))
  | uxrom {rom : Array Byte} {board : Uxrom} (h : Uxrom.ofImage rom = .ok board) :
    Built (.uxrom board)

/-- What a reset makes of `b` is `board`, but for the RAM. -/
def Renews (board b : Cartridge) : Prop := Board.reset b = board.withRam b.ram

variable {board b : Cartridge} {a : Word}

theorem fixedFrom_le (board : Cartridge) :
    0x8000 ≤ board.fixedFrom ∧ board.fixedFrom ≤ 0xC000 := by
  cases board <;> simp [fixedFrom]

/-- The vectors lie in the fixed part of the ROM. -/
theorem fixedFrom_le_address (board : Cartridge) (v : InterruptVector) :
    board.fixedFrom ≤ v.address ∧ board.fixedFrom ≤ v.address + 1 := by
  have htop : 0xC000 ≤ v.address ∧ 0xC000 ≤ v.address + 1 := by cases v <;> decide
  have hfixed := board.fixedFrom_le.2
  exact ⟨BitVec.le_trans hfixed htop.1, BitVec.le_trans hfixed htop.2⟩

theorem withRam_ram (b : Cartridge) : b.withRam b.ram = b := by
  cases b <;> rfl

theorem withRam_ram_withRam (b : Cartridge) (r : Array Byte) :
    b.withRam (b.withRam r).ram = b.withRam r := by
  cases b <;> rfl

theorem withRam_withRam (b : Cartridge) (r r' : Array Byte) :
    (b.withRam r).withRam r' = b.withRam r' := by
  cases b <;> rfl

theorem Built.renews (h : board.Built) : board.Renews board := by
  cases h with
  | nrom h ramSize => rfl
  | uxrom h =>
    obtain ⟨rfl, -⟩ := Uxrom.ofImage_eq_ok_iff.mp h
    rfl

theorem Built.renews_withRam (h : board.Built) (r : Array Byte) :
    board.Renews (board.withRam r) := by
  cases h with
  | nrom h ramSize => rfl
  | uxrom h => exact (Built.uxrom h).renews

theorem Renews.store (h : board.Renews b) (t : Target) (v : Byte) :
    board.Renews (Board.store b t v) := by
  have hstore :
      Board.reset (Board.store b t v) = (Board.reset b).withRam (Board.store b t v).ram := by
    cases b <;> cases t <;> rfl
  rw [Renews, hstore, h, withRam_withRam]

theorem Renews.reset (h : board.Renews b) : board.Renews (Board.reset b) := by
  have hreset : Board.reset (Board.reset b) = (Board.reset b).withRam (Board.reset b).ram := by
    cases b <;> rfl
  rw [Renews, hreset, h, withRam_withRam]

/-- Below the ROM a write reaches nothing but the RAM. -/
theorem write?_below (h : a < 0x8000) {v : Byte} {b' : Cartridge}
    (hw : Board.write? b a v = some b') : b' = b.withRam b'.ram := by
  cases b with
  | nrom n =>
    obtain ⟨t, -, rfl⟩ := Option.map_eq_some_iff.mp hw
    cases t <;> rfl
  | uxrom u =>
    have hnone : Board.write? (uxrom u) a v = none := by
      change (Board.writeTarget? u a).map _ = none
      rw [Option.map_eq_none_iff, ← Option.map_eq_none_iff]
      exact Uxrom.write?_below h v
    rw [hnone] at hw
    cases hw

/-- The fixed part of the ROM can be read, and holds what the image holds. -/
theorem Built.read? (h : board.Built) (ha : board.fixedFrom ≤ a) :
    ∃ v, ∀ b, board.Renews b → Board.read? b a = some v := by
  cases h with
  | @nrom rom hrom ramSize =>
    simp only [fixedFrom] at ha
    have hlt : (a.toNat - 0x8000) % rom.size < rom.size := by
      refine Nat.mod_lt _ (Nat.pos_of_ne_zero ?_)
      rw [ne_eq, Array.size_eq_zero_iff, ← Array.isEmpty_iff, hrom]
      exact Bool.false_ne_true
    refine ⟨rom[(a.toNat - 0x8000) % rom.size], fun b hb => ?_⟩
    cases b with
    | uxrom u => cases hb
    | nrom n =>
      obtain rfl : n.rom = rom := congrArg Nrom.rom (Cartridge.nrom.inj hb)
      have hread := Nrom.read?_rom (n := n) (a := a) (by bv_omega) (by bv_omega)
      exact hread.trans (Array.getElem?_eq_getElem hlt)
  | @uxrom rom board hboard =>
    simp only [fixedFrom] at ha
    refine ⟨board.rom.getD (Uxrom.offset (board.banks - 1) a) 0, fun b hb => ?_⟩
    cases b with
    | nrom n => cases hb
    | uxrom u =>
      obtain rfl : { u with bank := 0 } = board := Cartridge.uxrom.inj hb
      exact Uxrom.read?_fixed (by bv_omega) (by bv_omega)

end Cartridge

/-! ## The slot of a bus -/

namespace Bus

/-- The slot holds a board like this. -/
def Holds {β : Type} (P : β → Prop) (b : Bus β) : Prop := ∃ board, b.board = some board ∧ P board

/-- What stores and resets leave true of a board, the events of a bus leave true of its slot. -/
theorem holds_react {β : Type} [Board β] {P : β → Prop}
    (hstore : ∀ b t v, P b → P (Board.store b t v)) (hreset : ∀ b, P b → P (Board.reset b))
    (b : Bus β) (event : BusEvent) (h : b.Holds P) : (b.react event).Holds P := by
  obtain ⟨board, hboard, hP⟩ := h
  cases event with
  | setPicture i v | setSound i v => exact ⟨board, hboard, hP⟩
  | reset =>
    refine ⟨Board.reset board, ?_, hreset board hP⟩
    show b.board.map Board.reset = _
    rw [hboard, Option.map_some]
  | write a v =>
    rcases b.board_react_write a v with hsame | ⟨board', hwrite, hboard'⟩
    · exact ⟨board, hsame.trans hboard, hP⟩
    · rw [hboard, Option.bind_some] at hwrite
      obtain ⟨t, -, rfl⟩ := Option.map_eq_some_iff.mp hwrite
      exact ⟨_, hboard', hstore board t v hP⟩

end Bus

namespace Cartridge

variable {board : Cartridge}

/-- Whatever happens to a bus, its cartridge remains the one that was built. -/
theorem holds_renews_react (b : Bus Cartridge) (event : BusEvent) (h : b.Holds board.Renews) :
    (b.react event).Holds board.Renews :=
  Bus.holds_react (fun _ t v h => h.store t v) (fun _ h => h.reset) b event h

theorem Built.read_bus (h : board.Built) {a : Word} (ha : board.fixedFrom ≤ a) :
    ∃ v, ∀ b : Bus Cartridge, b.Holds board.Renews → b.read a = .ok v := by
  obtain ⟨v, hv⟩ := h.read? ha
  have hfixed := board.fixedFrom_le
  refine ⟨v, ?_⟩
  rintro b ⟨b', hb', hrenews⟩
  rw [Bus.read_cartridge (by bv_omega), hb', Option.bind_some, hv b' hrenews, Option.elim_some]

/-- The vectors can be read at any time, and always hold what the image holds. -/
theorem Built.vector (h : board.Built) (v : InterruptVector) :
    ∃ w, ∀ b : Bus Cartridge, b.Holds board.Renews → b.vectorWord v = w ∧
      ∀ c, (b.serve (Attempt.all (Request.vectorWord v) c)).refused = none := by
  have haddress := board.fixedFrom_le_address v
  obtain ⟨low, hlow⟩ := h.read_bus haddress.1
  obtain ⟨high, hhigh⟩ := h.read_bus haddress.2
  refine ⟨Word.ofBytes low high, fun b hb => ⟨?_, fun c => ?_⟩⟩
  · rw [Bus.vectorWord, Bus.peek_of_read (hlow b hb), Bus.peek_of_read (hhigh b hb)]
  · change (b.serve [⟨.vector v v.address, c⟩, ⟨.vector v (v.address + 1), c⟩]).refused = none
    have hfirst : b.answer (.vector v v.address) = some b :=
      Bus.answer_of_read_ok rfl (hlow b hb)
    have hsecond : b.answer (.vector v (v.address + 1)) = some b :=
      Bus.answer_of_read_ok rfl (hhigh b hb)
    rw [Bus.serve_cons_of_some hfirst, Bus.serve_cons_of_some hsecond, Bus.serve_nil]

end Cartridge

end Console6502
