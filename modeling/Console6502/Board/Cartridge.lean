/-
  A cartridge: one of the known boards.
-/
import Console6502.Board.Nrom
import Console6502.Board.Uxrom

namespace Console6502

/-- One of the known boards. -/
inductive Cartridge where
  | nrom (board : Nrom)
  | uxrom (board : Uxrom)
deriving DecidableEq, Repr

instance : Board Cartridge where
  number
    | .nrom b => Board.number b
    | .uxrom b => Board.number b
  readTarget?
    | .nrom b => Board.readTarget? b
    | .uxrom b => Board.readTarget? b
  writeTarget?
    | .nrom b => Board.writeTarget? b
    | .uxrom b => Board.writeTarget? b
  load
    | .nrom b => Board.load b
    | .uxrom b => Board.load b
  store
    | .nrom b => fun t v => .nrom (Board.store b t v)
    | .uxrom b => fun t v => .uxrom (Board.store b t v)
  reset
    | .nrom b => .nrom (Board.reset b)
    | .uxrom b => .uxrom (Board.reset b)
  notice?
    | .nrom b => Board.notice? b
    | .uxrom b => Board.notice? b

end Console6502
