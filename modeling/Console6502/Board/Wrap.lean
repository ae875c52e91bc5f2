/-
  How a memory fills a window larger than itself: by repetition.
-/

namespace Console6502

/-- Whether exactly one bit of `n` is set. -/
def isPowerOfTwo (n : Nat) : Bool := n != 0 && n &&& (n - 1) == 0

/-- The offset into a memory of `size` bytes that an offset into its window selects.  Where the size
    is a power of two the low bits of the offset are the answer, and no division is needed. -/
def wrap (size offset : Nat) : Nat :=
  if isPowerOfTwo size then offset &&& (size - 1) else offset % size

theorem isPowerOfTwo_iff {n : Nat} : isPowerOfTwo n = true ↔ n.isPowerOfTwo := by
  rw [← Nat.ne_zero_and_sub_one_eq_zero_iff_isPowerOfTwo, isPowerOfTwo, Bool.and_eq_true,
    bne_iff_ne, beq_iff_eq]

/-- Taking the low bits is taking the remainder. -/
theorem wrap_eq_mod (size offset : Nat) : wrap size offset = offset % size := by
  unfold wrap
  split
  · next h =>
    obtain ⟨k, rfl⟩ := isPowerOfTwo_iff.mp h
    exact Nat.and_two_pow_sub_one_eq_mod offset k
  · rfl

example : wrap 16 17 = 1 := by decide

example : wrap 24 25 = 1 := by decide

end Console6502
