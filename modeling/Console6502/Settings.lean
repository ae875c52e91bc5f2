/-
  Settings of a console: the television standard, which fixes the clock, and the stack pointer after
  reset.
-/
import Console6502.Word

namespace Console6502

/-- The television standard that a console is built for. -/
inductive VideoStandard where
  | ntsc
  | pal
deriving DecidableEq, Repr

namespace VideoStandard

/-- The name in listings. -/
def name : VideoStandard → String
  | ntsc => "Ntsc"
  | pal => "Pal"

/-- The processor clock in hertz. -/
def clock : VideoStandard → Nat
  | ntsc => 1789773
  | pal => 1662607

/-- The processor cycles of one video frame, rounded up. -/
def frameCycles : VideoStandard → Nat
  | ntsc => 29781
  | pal => 33248

/-- Picture dots per processor cycle, as numerator and denominator. -/
def dotRatio : VideoStandard → Nat × Nat
  | ntsc => (3, 1)
  | pal => (16, 5)

end VideoStandard

/-- The stack pointer that the reset sequence loads unless told otherwise. -/
def defaultResetStack : Byte := 0xFD

/-- The settings of a console. -/
structure Settings where
  video : VideoStandard := .ntsc
  /-- The stack pointer after reset. -/
  resetStack : Byte := defaultResetStack
deriving DecidableEq, Repr

end Console6502
