/-
  The status register P.

  The register is a byte with one bit for each flag.  Seven of them are latches.  Bit 5 is none, and
  reads as one only because every function that makes a register leaves it on: a byte is taken with
  bit 5 put on (`Status.ofByte`), and a flag is switched off with bit 5 put on (`Status.set`).
-/
import Console6502.Word

namespace Console6502

/-- The bits of the status register, lowest first. -/
inductive Flag where
  | carry
  | zero
  | interruptDisable
  | decimal
  /-- Tells BRK and PHP from a hardware interrupt, in the copy that they push. -/
  | brk
  /-- Bit 5, which is always on. -/
  | alwaysOn
  | overflow
  | negative
deriving DecidableEq, Repr

/-- All flags, lowest bit first. -/
def Flag.all : List Flag :=
  [.carry, .zero, .interruptDisable, .decimal, .brk, .alwaysOn, .overflow, .negative]

/-- The bit that a flag occupies. -/
def Flag.bit : Flag → Nat
  | .carry => 0
  | .zero => 1
  | .interruptDisable => 2
  | .decimal => 3
  | .brk => 4
  | .alwaysOn => 5
  | .overflow => 6
  | .negative => 7

/-- The letter that stands for a flag. -/
def Flag.letter : Flag → Char
  | .carry => 'C'
  | .zero => 'Z'
  | .interruptDisable => 'I'
  | .decimal => 'D'
  | .brk => 'B'
  | .alwaysOn => '-'
  | .overflow => 'V'
  | .negative => 'N'

/-- The byte with only this flag on. -/
def Flag.mask (f : Flag) : Byte := BitVec.twoPow 8 f.bit

theorem Flag.bit_lt (f : Flag) : f.bit < 8 := by
  cases f <;> decide

/-- Every bit of a byte is that of a flag. -/
theorem Flag.exists_bit {k : Nat} (hk : k < 8) : ∃ f : Flag, f.bit = k := by
  have hall : ∀ k < 8, ∃ f ∈ Flag.all, f.bit = k := by decide
  obtain ⟨f, -, hf⟩ := hall k hk
  exact ⟨f, hf⟩

theorem Flag.getLsbD_mask (f g : Flag) : f.mask.getLsbD g.bit = (f == g) := by
  cases f <;> cases g <;> rfl

/-- The status register; at power on it has bit 5 and nothing else. -/
structure Status where
  /-- The register as a byte. -/
  toByte : Byte := Flag.alwaysOn.mask
deriving DecidableEq, Repr

namespace Status

/-- The register that a byte describes, with bit 5 on. -/
def ofByte (b : Byte) : Status := ⟨b ||| Flag.alwaysOn.mask⟩

/-- Whether a flag is on. -/
def get (s : Status) (f : Flag) : Bool := s.toByte &&& f.mask != 0

/-- Whether the carry is on. -/
abbrev carry (s : Status) : Bool := s.get .carry

/-- Whether the zero flag is on. -/
abbrev zero (s : Status) : Bool := s.get .zero

/-- Whether interrupts are disabled. -/
abbrev interruptDisable (s : Status) : Bool := s.get .interruptDisable

/-- Whether the decimal flag is on. -/
abbrev decimal (s : Status) : Bool := s.get .decimal

/-- Whether the break bit is on. -/
abbrev brk (s : Status) : Bool := s.get .brk

/-- Whether the overflow flag is on. -/
abbrev overflow (s : Status) : Bool := s.get .overflow

/-- Whether the negative flag is on. -/
abbrev negative (s : Status) : Bool := s.get .negative

/-- Switches one flag.  Bit 5 cannot be switched off. -/
def set (s : Status) (f : Flag) (on : Bool) : Status :=
  if on then ⟨s.toByte ||| f.mask⟩ else ⟨s.toByte &&& ~~~f.mask ||| Flag.alwaysOn.mask⟩

/-- Zero and negative as a result leaves them. -/
def ofResult (s : Status) (v : Byte) : Status := (s.set .zero (v == 0)).set .negative v.msb

/-- The byte that goes onto the stack: the break bit tells an instruction from an interrupt. -/
def stackByte (s : Status) (brk : Bool) : Byte := (s.set .brk brk).toByte

/-- The register after a byte was pulled from the stack: the break bit is dropped. -/
def ofStackByte (b : Byte) : Status := (ofByte b).set .brk false

/-- The letters `NV-BDIZC`, a letter in lower case where its flag is off. -/
def letters (s : Status) : String :=
  String.ofList <| Flag.all.reverse.map fun f => if s.get f then f.letter else f.letter.toLower

/-- The register for a reader: its letters inside `Status(..)`. -/
def text (s : Status) : String := "Status(" ++ s.letters ++ ")"

theorem getLsbD_toByte (s : Status) (f : Flag) : s.toByte.getLsbD f.bit = s.get f := by
  have hmask : f.mask ≠ 0 := by cases f <;> decide
  have hand : s.toByte &&& f.mask = if s.toByte.getLsbD f.bit then f.mask else 0 :=
    BitVec.and_twoPow s.toByte f.bit
  rw [get, hand]
  cases s.toByte.getLsbD f.bit with
  | true => exact (bne_iff_ne.mpr hmask).symm
  | false => rfl

theorem get_mk (b : Byte) (f : Flag) : get ⟨b⟩ f = b.getLsbD f.bit :=
  (getLsbD_toByte ⟨b⟩ f).symm

theorem get_ofByte (b : Byte) (f : Flag) :
    (ofByte b).get f = (b.getLsbD f.bit || f == .alwaysOn) := by
  rw [ofByte, get_mk, BitVec.getLsbD_or, Flag.getLsbD_mask, Bool.beq_comm]

theorem get_set_true (s : Status) (f g : Flag) :
    (s.set f true).get g = (s.get g || f == g) := by
  rw [set, if_pos rfl, get_mk, BitVec.getLsbD_or, getLsbD_toByte, Flag.getLsbD_mask]

theorem get_set_false (s : Status) (f g : Flag) :
    (s.set f false).get g = (s.get g && !(f == g) || Flag.alwaysOn == g) := by
  rw [set, if_neg Bool.false_ne_true, get_mk, BitVec.getLsbD_or, BitVec.getLsbD_and,
    BitVec.getLsbD_not, getLsbD_toByte, Flag.getLsbD_mask, Flag.getLsbD_mask,
    decide_eq_true g.bit_lt, Bool.true_and]

@[simp] theorem get_set_self (s : Status) (f : Flag) (on : Bool) :
    (s.set f on).get f = (on || f == .alwaysOn) := by
  cases on with
  | true => simp [get_set_true]
  | false => simp [get_set_false, Bool.beq_comm]

/-- Switching a flag leaves the other latches alone. -/
@[simp] theorem get_set_of_ne (s : Status) {f g : Flag} (h : f ≠ g) (hg : g ≠ .alwaysOn)
    (on : Bool) : (s.set f on).get g = s.get g := by
  have hf : (f == g) = false := beq_eq_false_iff_ne.mpr h
  have halways : (Flag.alwaysOn == g) = false := beq_eq_false_iff_ne.mpr hg.symm
  cases on with
  | true => rw [get_set_true, hf, Bool.or_false]
  | false => rw [get_set_false, hf, halways, Bool.not_false, Bool.and_true, Bool.or_false]

/-- Bit 5 stays on whatever flag is switched. -/
theorem get_set_alwaysOn (s : Status) (hs : s.get .alwaysOn = true) (f : Flag) (on : Bool) :
    (s.set f on).get .alwaysOn = true := by
  cases on with
  | true => simp [get_set_true, hs]
  | false => simp [get_set_false]

/-- Bit 5 is on behind a pull, whatever was pulled. -/
theorem alwaysOn_ofStackByte (b : Byte) : (ofStackByte b).get .alwaysOn = true :=
  get_set_alwaysOn _ (by simp [get_ofByte]) _ _

/-- A register is known by its flags. -/
theorem ext_get {s t : Status} (h : ∀ f, s.get f = t.get f) : s = t := by
  obtain ⟨b⟩ := s
  obtain ⟨b'⟩ := t
  congr 1
  refine BitVec.eq_of_getLsbD_eq fun k hk => ?_
  obtain ⟨f, rfl⟩ := Flag.exists_bit hk
  rw [← get_mk, ← get_mk, h f]

end Status

end Console6502
