/-
  Runs of the bus.

  A run is a row of events: a write from the processor's side, a register set from the other side of
  a window, a reset.  A write that is refused is an event like any other, and changes nothing.
-/
import Console6502.Bus

namespace Console6502

/-- What can happen to a bus: a write, a register set by the picture or the sound unit from its side
    of a window, a reset. -/
inductive BusEvent where
  | write (address : Word) (value : Byte)
  | setPicture (i : Fin 8) (value : Byte)
  | setSound (i : Fin 24) (value : Byte)
  | reset
deriving DecidableEq, Repr

namespace BusEvent

/-- The address that an event stores to, and the byte.  From their own side the registers of a window
    are known by number; on the bus they begin at the window's base. -/
def store? : BusEvent → Option (Word × Byte)
  | write a v => some (a, v)
  | setPicture i v => some (0x2000 + BitVec.ofNat 16 i, v)
  | setSound i v => some (0x4000 + BitVec.ofNat 16 i, v)
  | reset => none

end BusEvent

namespace Bus

variable {β : Type} [Board β]

/-- The bus after an event.  A write that is refused leaves it as it was. -/
def react (b : Bus β) : BusEvent → Bus β
  | .write a v =>
    match b.write a v with
    | .ok b' => b'
    | .error _ => b
  | .setPicture i v => { b with picture := b.picture.setCell i v }
  | .setSound i v => { b with sound := b.sound.setCell i v }
  | .reset => b.reset

/-- The bus after a row of events. -/
def run (b : Bus β) (l : List BusEvent) : Bus β := l.foldl react b

theorem react_of_write {b b' : Bus β} {a : Word} {v : Byte} (h : b.write a v = .ok b') :
    b.react (.write a v) = b' := by
  rw [react, h]

/-- A write leaves the slot alone, or it reaches the board. -/
theorem board_react_write (b : Bus β) (a : Word) (v : Byte) :
    (b.react (.write a v)).board = b.board ∨
      ∃ board, b.board.bind (Board.write? · a v) = some board ∧
        (b.react (.write a v)).board = some board := by
  rw [react, write]
  cases AddressRegion.of a with
  | ram | picture | sound | testMode => exact .inl rfl
  | cartridge =>
    cases hboard : b.board.bind (Board.write? · a v) with
    | none => exact .inl rfl
    | some board => exact .inr ⟨board, rfl, rfl⟩

theorem run_append_singleton (b : Bus β) (l : List BusEvent) (event : BusEvent) :
    b.run (l ++ [event]) = (b.run l).react event := by
  rw [run, List.foldl_append]
  rfl

end Bus

end Console6502
