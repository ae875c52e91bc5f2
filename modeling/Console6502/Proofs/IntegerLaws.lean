/-
  The arithmetic of single bytes, in integers.

  A byte `b` stands for `b.toNat` and, as a signed number, for `b.toInt`.  Sums and differences are
  stated once as integers: the byte is the integer modulo 256, the carry says whether it fits a
  byte, and the overflow whether the signed one does.  Shifts and rotations double or halve.  The
  lemmas say that the arithmetic of bytes keeps these laws.
-/
import Console6502.Effect

namespace Console6502

theorem Byte.msb_eq (v : Byte) : v.msb = decide (128 ≤ v.toNat) := BitVec.msb_eq_decide v

theorem Byte.beq_zero_eq (v : Byte) : (v == 0) = decide (v.toNat = 0) := by
  rw [Bool.eq_iff_iff, beq_iff_eq, decide_eq_true_eq, ← BitVec.toNat_inj]
  rfl

theorem Byte.toInt_eq (v : Byte) :
    v.toInt = if v.toNat < 128 then (v.toNat : Int) else v.toNat - 256 := by
  rw [BitVec.toInt_eq_toNat_cond]
  split <;> split <;> omega

/-! ## Sums and differences -/

/-- Whether a signed number does not fit a byte. -/
def outOfByte (n : Int) : Bool := decide (n < -128 ∨ 127 < n)

theorem Addition.value_eq (x y : Byte) (carry : Bool) :
    (Addition.of x y carry).value = BitVec.ofInt 8 (x.toNat + y.toNat + carry.toNat) := by
  apply BitVec.eq_of_toNat_eq
  simp only [Addition.of, BitVec.toNat_ofNat, BitVec.toNat_ofInt]
  omega

theorem Addition.overflow_eq (x y : Byte) (carry : Bool) :
    (Addition.of x y carry).overflow = outOfByte (x.toInt + y.toInt + carry.toNat) := by
  have hx := x.isLt
  have hy := y.isLt
  have hc := carry.toNat_le
  rw [Bool.eq_iff_iff]
  simp only [Addition.of, outOfByte, Byte.msb_eq, Byte.toInt_eq, BitVec.toNat_ofNat,
    Bool.and_eq_true, beq_iff_eq, bne_iff_ne, ne_eq, decide_eq_decide, decide_eq_true_eq]
  by_cases hx' : x.toNat < 128 <;> by_cases hy' : y.toNat < 128 <;>
    simp only [hx', hy', if_true, if_false] <;> omega

theorem Byte.toNat_complement (y : Byte) : (~~~y).toNat = 255 - y.toNat := BitVec.toNat_not

theorem Byte.toInt_complement (y : Byte) : (~~~y).toInt = -y.toInt - 1 := by
  have hy := y.isLt
  rw [Byte.toInt_eq, Byte.toInt_eq, Byte.toNat_complement]
  split <;> split <;> omega

theorem Addition.difference_value_eq (x y : Byte) (carry : Bool) :
    (Addition.ofDifference x y carry).value =
      BitVec.ofInt 8 (x.toNat - y.toNat - (1 - carry.toNat)) := by
  have hy := y.isLt
  rw [Addition.ofDifference, Addition.value_eq, Byte.toNat_complement]
  apply BitVec.eq_of_toNat_eq
  rw [BitVec.toNat_ofInt, BitVec.toNat_ofInt]
  omega

theorem Addition.difference_carry_eq (x y : Byte) (carry : Bool) :
    (Addition.ofDifference x y carry).carry =
      decide (0 ≤ (x.toNat : Int) - y.toNat - (1 - carry.toNat)) := by
  have hy := y.isLt
  simp only [Addition.ofDifference, Addition.of, Byte.toNat_complement, decide_eq_decide]
  omega

theorem Addition.difference_overflow_eq (x y : Byte) (carry : Bool) :
    (Addition.ofDifference x y carry).overflow =
      outOfByte (x.toInt - y.toInt - (1 - carry.toNat)) := by
  rw [Addition.ofDifference, Addition.overflow_eq, Byte.toInt_complement]
  congr 1
  omega

/-! ## Shifts, rotations and counting -/

/-- The modified byte and the carry after it, in integers. -/
def Modifier.outcome (how : Modifier) (carry : Bool) (v : Byte) : Byte × Bool :=
  match how with
  | .shiftLeft => (BitVec.ofNat 8 (2 * v.toNat % 256), decide (128 ≤ v.toNat))
  | .rotateLeft => (BitVec.ofNat 8 (2 * v.toNat % 256 + carry.toNat), decide (128 ≤ v.toNat))
  | .shiftRight => (BitVec.ofNat 8 (v.toNat / 2), decide (v.toNat % 2 = 1))
  | .rotateRight => (BitVec.ofNat 8 (v.toNat / 2 + 128 * carry.toNat), decide (v.toNat % 2 = 1))
  | .increment => (BitVec.ofNat 8 ((v.toNat + 1) % 256), carry)
  | .decrement => (BitVec.ofInt 8 (v.toNat - 1), carry)

theorem Byte.shiftLeft_eq (v : Byte) (b : Bool) :
    (v.setWidth 7).concat b = BitVec.ofNat 8 (2 * v.toNat % 256 + b.toNat) := by
  have hb := b.toNat_le
  apply BitVec.eq_of_toNat_eq
  rw [BitVec.toNat_concat, BitVec.toNat_setWidth, BitVec.toNat_ofNat]
  omega

theorem Byte.shiftRight_eq (v : Byte) (b : Bool) :
    (v.extractLsb' 1 7).cons b = BitVec.ofNat 8 (v.toNat / 2 + 128 * b.toNat) := by
  have hv := v.isLt
  have hb := b.toNat_le
  apply BitVec.eq_of_toNat_eq
  rw [BitVec.toNat_cons', BitVec.extractLsb'_toNat, BitVec.toNat_ofNat, Nat.shiftRight_eq_div_pow,
    Nat.shiftLeft_eq]
  omega

theorem Byte.lowest_eq (v : Byte) : v.getLsbD 0 = decide (v.toNat % 2 = 1) := by
  rw [BitVec.getLsbD, Nat.testBit_zero]

theorem Byte.succ_eq (v : Byte) : v + 1 = BitVec.ofNat 8 ((v.toNat + 1) % 256) := by
  apply BitVec.eq_of_toNat_eq
  rw [BitVec.toNat_add, BitVec.toNat_ofNat]
  exact (Nat.mod_mod _ _).symm

theorem Byte.pred_eq (v : Byte) : v - 1 = BitVec.ofInt 8 (v.toNat - 1) := by
  apply BitVec.eq_of_toNat_eq
  rw [BitVec.toNat_sub, BitVec.toNat_ofInt]
  change (256 - 1 + v.toNat) % 256 = _
  omega

theorem Modifier.apply_eq (how : Modifier) (carry : Bool) (v : Byte) :
    how.apply carry v = how.outcome carry v := by
  cases how with
  | shiftLeft => rw [apply, outcome, Byte.shiftLeft_eq, Byte.msb_eq]; rfl
  | rotateLeft => rw [apply, outcome, Byte.shiftLeft_eq, Byte.msb_eq]
  | shiftRight => rw [apply, outcome, Byte.shiftRight_eq, Byte.lowest_eq]; rfl
  | rotateRight => rw [apply, outcome, Byte.shiftRight_eq, Byte.lowest_eq]
  | increment => rw [apply, outcome, Byte.succ_eq]
  | decrement => rw [apply, outcome, Byte.pred_eq]

/-! ## The processor after a result -/

/-- Zero and negative by a value. -/
def Status.judge (s : Status) (v : Byte) : Status :=
  (s.set .zero (decide (v.toNat = 0))).set .negative (decide (128 ≤ v.toNat))

@[simp] theorem Status.zero_judge (s : Status) (v : Byte) :
    (s.judge v).zero = decide (v.toNat = 0) := by
  simp [judge]

@[simp] theorem Status.negative_judge (s : Status) (v : Byte) :
    (s.judge v).negative = decide (128 ≤ v.toNat) := by
  simp [judge]

/-- Judging a value leaves the other latches alone. -/
@[simp] theorem Status.get_judge (s : Status) {f : Flag} (hz : f ≠ .zero) (hn : f ≠ .negative)
    (hon : f ≠ .alwaysOn) (v : Byte) : (s.judge v).get f = s.get f := by
  rw [judge, get_set_of_ne _ hn.symm hon, get_set_of_ne _ hz.symm hon]

/-- The processor with a value loaded into a register. -/
def Cpu.loaded (c : Cpu) (r : Register) (v : Byte) : Cpu :=
  { c.put r v with status := c.status.judge v }

/-- The processor with the exact outcome of a sum or a difference in its accumulator.  `total` takes
    the bytes as unsigned numbers, `signed` as signed ones. -/
def Cpu.summed (c : Cpu) (total : Int) (carry : Bool) (signed : Int) : Cpu :=
  { c with
    a := BitVec.ofInt 8 total
    status := ((c.status.set .carry carry).set .overflow (outOfByte signed)).judge
      (BitVec.ofInt 8 total) }

theorem Status.ofResult_eq (s : Status) (v : Byte) : s.ofResult v = s.judge v := by
  rw [ofResult, judge, Byte.beq_zero_eq, Byte.msb_eq]

theorem Cpu.load_eq (c : Cpu) (r : Register) (v : Byte) : c.load r v = c.loaded r v := by
  rw [load, loaded, Status.ofResult_eq]

theorem Cpu.add_eq (c : Cpu) (v : Byte) :
    c.add v = c.summed (c.a.toNat + v.toNat + c.status.carry.toNat)
      (decide (255 < c.a.toNat + v.toNat + c.status.carry.toNat))
      (c.a.toInt + v.toInt + c.status.carry.toNat) := by
  rw [add, loadSum, load_eq, loaded, summed, Addition.value_eq, Addition.overflow_eq]
  rfl

theorem Cpu.subtract_eq (c : Cpu) (v : Byte) :
    c.subtract v = c.summed (c.a.toNat - v.toNat - (1 - c.status.carry.toNat))
      (decide (0 ≤ (c.a.toNat : Int) - v.toNat - (1 - c.status.carry.toNat)))
      (c.a.toInt - v.toInt - (1 - c.status.carry.toNat)) := by
  rw [subtract, loadSum, load_eq, loaded, summed, Addition.difference_value_eq,
    Addition.difference_carry_eq, Addition.difference_overflow_eq]
  rfl

theorem Cpu.compare_eq (c : Cpu) (r : Register) (v : Byte) :
    c.compare r v =
      { c with
        status := (c.status.set .carry (decide (v.toNat ≤ (c.get r).toNat))).judge
          (BitVec.ofInt 8 ((c.get r).toNat - v.toNat)) } := by
  have hsub : c.get r - v = BitVec.ofInt 8 ((c.get r).toNat - v.toNat) := by
    apply BitVec.eq_of_toNat_eq
    have hv := v.isLt
    rw [BitVec.toNat_sub, BitVec.toNat_ofInt]
    omega
  rw [compare, Status.ofResult_eq, hsub]
  rfl

theorem Cpu.testBits_eq (c : Cpu) (v : Byte) :
    c.testBits v =
      { c with
        status := ((c.status.set .zero (decide ((c.a &&& v).toNat = 0))).set .negative
          (decide (128 ≤ v.toNat))).set .overflow (v.getLsbD 6) } := by
  rw [testBits, Byte.beq_zero_eq, Byte.msb_eq]

theorem Cpu.noteModified_eq (c : Cpu) (v : Byte) (carry : Bool) :
    c.noteModified v carry = { c with status := (c.status.set .carry carry).judge v } := by
  rw [noteModified, Status.ofResult_eq]

end Console6502
