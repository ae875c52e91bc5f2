/-
  The arithmetic of the processor on single bytes.

  Addition carries in and out and reports signed overflow; subtraction is addition of the
  complement.  The six ways to modify a byte in place are one type, `Modifier`, with one function.
  Arithmetic is binary throughout: no operation here looks at the decimal flag.
-/
import Console6502.Word

namespace Console6502

/-- The outcome of an addition. -/
structure Addition where
  value : Byte
  carry : Bool
  overflow : Bool
deriving DecidableEq, Repr

/-- The sum of two bytes and a carry.  The carry out says that it exceeds a byte; the overflow says
    that both summands have one sign and the result has the other. -/
def Addition.of (x y : Byte) (carry : Bool) : Addition :=
  let total := x.toNat + y.toNat + carry.toNat
  let value := BitVec.ofNat 8 total
  { value, carry := decide (255 < total), overflow := x.msb == y.msb && value.msb != x.msb }

/-- The difference of two bytes and a borrow, which is a clear carry: the complement is added. -/
def Addition.ofDifference (x y : Byte) (carry : Bool) : Addition := Addition.of x (~~~y) carry

/-- The three ways to combine the accumulator with a byte bit by bit. -/
inductive Logic where
  | or
  | and
  | xor
deriving DecidableEq, Repr

/-- The bitwise combination of two bytes. -/
def Logic.apply : Logic → Byte → Byte → Byte
  | .or, x, y => x ||| y
  | .and, x, y => x &&& y
  | .xor, x, y => x ^^^ y

/-- The ways to modify a byte where it stands. -/
inductive Modifier where
  | shiftLeft
  | rotateLeft
  | shiftRight
  | rotateRight
  | increment
  | decrement
deriving DecidableEq, Repr

/-- The modified byte and the carry after it.  Shifts and rotations move the bit that drops out into
    the carry; a rotation takes the old carry in at the other end, a shift takes in zero.  Counting
    up or down leaves the carry alone. -/
def Modifier.apply (m : Modifier) (carry : Bool) (v : Byte) : Byte × Bool :=
  match m with
  | .shiftLeft => ((v.setWidth 7).concat false, v.msb)
  | .rotateLeft => ((v.setWidth 7).concat carry, v.msb)
  | .shiftRight => ((v.extractLsb' 1 7).cons false, v.getLsbD 0)
  | .rotateRight => ((v.extractLsb' 1 7).cons carry, v.getLsbD 0)
  | .increment => (v + 1, carry)
  | .decrement => (v - 1, carry)

end Console6502
