/-
  Memories repeat through their windows.

  `wrap` says which cell of a memory shows at an offset into its window.  It takes the low bits of
  the offset where the size of the memory is a power of two, and divides otherwise; both come to the
  remainder.  That is what repetition means: the cells show in order up to the size of the memory,
  and once more behind it, and no other way to select cells does so (`eq_wrap`).

  `Fixed.wrap` is the same computation on numbers of a fixed width, whose differences wrap around.
  Here none does: the mask is one less than a size that is not zero.
-/
import Console6502.Proofs.OffsetRanges
import Mathlib.Data.Nat.Periodic

namespace Console6502

open Function (Periodic)

/-! ## The law of repetition -/

theorem wrap_lt {size : Nat} (h : 0 < size) (offset : Nat) : wrap size offset < size := by
  rw [wrap_eq_mod]
  exact Nat.mod_lt offset h

theorem wrap_of_lt {size offset : Nat} (h : offset < size) : wrap size offset = offset := by
  rw [wrap_eq_mod, Nat.mod_eq_of_lt h]

theorem wrap_periodic (size : Nat) : Periodic (wrap size) size := by
  intro offset
  rw [wrap_eq_mod, wrap_eq_mod, Nat.add_mod_right]

/-- Cells that show in order, over and over, are the ones that `wrap` selects. -/
theorem eq_wrap {size : Nat} {select : Nat → Nat} (h : 0 < size)
    (horder : ∀ i < size, select i = i) (hperiodic : Periodic select size) :
    select = wrap size := by
  funext offset
  calc select offset = select (offset % size) := (hperiodic.map_mod_nat offset).symm
    _ = offset % size := horder _ (Nat.mod_lt offset h)
    _ = wrap size offset := (wrap_eq_mod size offset).symm

/-! ## Numbers of a fixed width -/

namespace Fixed

variable {width : Nat} {n size : BitVec width}

/-- Whether exactly one bit of `n` is set. -/
def isPowerOfTwo (n : BitVec width) : Bool := n != 0 && n &&& (n - 1) == 0

/-- The offset into a memory of `size` bytes that an offset into its window selects. -/
def wrap (size offset : BitVec width) : BitVec width :=
  if isPowerOfTwo size then offset &&& (size - 1) else offset % size

theorem toNat_ne_zero_iff : n.toNat ≠ 0 ↔ n ≠ 0 :=
  not_congr ⟨fun h => BitVec.eq_of_toNat_eq h, fun h => h ▸ BitVec.toNat_zero⟩

/-- One less than a number other than zero does not wrap around. -/
theorem toNat_sub_one (h : n ≠ 0) : (n - 1).toNat = n.toNat - 1 := by
  have hpos := toNat_ne_zero_iff.mpr h
  have hlt := n.isLt
  have hone : (1 : BitVec width).toNat = 1 := by
    change 1 % 2 ^ width = 1
    exact Nat.mod_eq_of_lt (by omega)
  rw [BitVec.toNat_sub_of_le (by rw [BitVec.le_def, hone]; omega), hone]

theorem isPowerOfTwo_eq (n : BitVec width) : isPowerOfTwo n = Console6502.isPowerOfTwo n.toNat := by
  unfold isPowerOfTwo Console6502.isPowerOfTwo
  by_cases h : n = 0
  · simp [h]
  · have hmask : n &&& (n - 1) = 0 ↔ n.toNat &&& (n.toNat - 1) = 0 := by
      rw [← BitVec.toNat_inj, BitVec.toNat_and, toNat_sub_one h]
      rfl
    rw [Bool.eq_iff_iff]
    simp only [Bool.and_eq_true, bne_iff_ne, beq_iff_eq, toNat_ne_zero_iff, hmask]

/-- Offsets come to the same on numbers of a fixed width. -/
theorem toNat_wrap (h : size ≠ 0) (offset : BitVec width) :
    (wrap size offset).toNat = Console6502.wrap size.toNat offset.toNat := by
  unfold wrap Console6502.wrap
  rw [isPowerOfTwo_eq]
  split
  · rw [BitVec.toNat_and, toNat_sub_one h]
  · exact BitVec.toNat_umod

end Fixed

/-- The offset into a memory that is not empty, whatever its size, is the remainder.  So it lies in
    the memory, is the offset into the window below the size, and repeats with the size as its
    period; these last two determine it.  No arithmetic fails on the way, and on numbers of a fixed
    width it comes to the same. -/
theorem wrap_repeats {size : Nat} (h : 0 < size) :
    (∀ offset, wrap size offset = offset % size) ∧
    (∀ offset, wrap size offset < size) ∧
    (∀ offset < size, wrap size offset = offset) ∧
    Periodic (wrap size) size ∧
    (∀ select, (∀ i < size, select i = i) → Periodic select size → select = wrap size) ∧
    (∀ offset, Checked.wrap size offset = .ok (wrap size offset)) ∧
    ∀ (width : Nat) (n offset : BitVec width), n.toNat = size →
      (Fixed.wrap n offset).toNat = offset.toNat % size := by
  refine ⟨wrap_eq_mod size, wrap_lt h, fun _ => wrap_of_lt, wrap_periodic size, fun _ => eq_wrap h,
    Checked.wrap_eq_ok (Nat.ne_of_gt h), ?_⟩
  rintro width n offset rfl
  rw [Fixed.toNat_wrap (Fixed.toNat_ne_zero_iff.mp (Nat.ne_of_gt h)), wrap_eq_mod]

/-- The last offset of 64 bits, in the largest memory whose size is a power of two and in one of 24
    bytes. -/
theorem wrap_last_offset :
    (Fixed.wrap (0x8000000000000000 : BitVec 64) 0xFFFFFFFFFFFFFFFF).toNat = 0x7FFFFFFFFFFFFFFF ∧
      wrap 24 0xFFFFFFFFFFFFFFFF = 15 ∧ wrap 24 (15 + 24) = wrap 24 15 := by
  obtain ⟨-, -, -, -, -, -, hfixed⟩ := wrap_repeats (by decide : 0 < 0x8000000000000000)
  obtain ⟨hmod, -, -, hperiodic, -⟩ := wrap_repeats (by decide : 0 < 24)
  exact ⟨hfixed 64 _ _ rfl, hmod _, hperiodic 15⟩

end Console6502
