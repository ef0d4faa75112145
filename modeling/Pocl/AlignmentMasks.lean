import Mathlib.Algebra.Ring.Nat
import Mathlib.Data.Nat.Bitwise
import Mathlib.Tactic

/-!
# Alignments and their masks

The predecessor of a power of two has exactly the bits below it set.  It tests whether a word
is a multiple of the power, and its complement rounds a word down to a multiple.
-/

namespace Pocl.AlignmentMasks

section Masks

variable {w : ℕ} {alignment size : BitVec w} {exponent : ℕ}

theorem one_toNat (hlt : 1 < 2 ^ w) : (1 : BitVec w).toNat = 1 := by
  have hunit : (1 : BitVec w).toNat = 1 % 2 ^ w := BitVec.toNat_ofNat 1 w
  rw [hunit, Nat.mod_eq_of_lt hlt]

theorem pred_toNat (hpos : 1 ≤ alignment.toNat) :
    (alignment - 1).toNat = alignment.toNat - 1 := by
  have hone := one_toNat (Nat.lt_of_le_of_lt hpos alignment.isLt)
  rw [BitVec.toNat_sub_of_le, hone]
  rwa [BitVec.le_def, hone]

theorem mask_toNat (hpower : alignment.toNat = 2 ^ exponent) :
    (alignment - 1).toNat = 2 ^ exponent - 1 := by
  rw [pred_toNat, hpower]
  rw [hpower]
  exact Nat.one_le_two_pow

theorem and_mask_eq_zero_iff (hpower : alignment.toNat = 2 ^ exponent) :
    size &&& (alignment - 1) = 0 ↔ alignment.toNat ∣ size.toNat := by
  rw [← BitVec.toNat_inj, BitVec.toNat_and, mask_toNat hpower,
    Nat.and_two_pow_sub_one_eq_mod, hpower, Nat.dvd_iff_mod_eq_zero]
  rfl

theorem and_pred_eq_zero_iff (hne : alignment ≠ 0) :
    alignment &&& (alignment - 1) = 0 ↔ ∃ exponent, alignment.toNat = 2 ^ exponent := by
  have hpos : alignment.toNat ≠ 0 := BitVec.toNat_ne_iff_ne.mpr hne
  rw [← BitVec.toNat_inj, BitVec.toNat_and, pred_toNat (Nat.one_le_iff_ne_zero.mpr hpos)]
  exact Nat.and_sub_one_eq_zero_iff_isPowerOfTwo hpos

theorem and_not_mask_toNat (hpower : alignment.toNat = 2 ^ exponent) (word : BitVec w) :
    (word &&& ~~~(alignment - 1)).toNat = word.toNat / 2 ^ exponent * 2 ^ exponent := by
  refine Nat.eq_of_testBit_eq fun i => ?_
  rw [← BitVec.getLsbD, BitVec.getLsbD_and, BitVec.getLsbD_not, BitVec.getLsbD, BitVec.getLsbD,
    mask_toNat hpower, Nat.testBit_two_pow_sub_one, Nat.testBit_mul_two_pow,
    Nat.testBit_div_two_pow]
  by_cases hlt : i < exponent
  · simp [hlt, not_le.mpr hlt]
  · have hindex : i - exponent + exponent = i := Nat.sub_add_cancel (not_lt.mp hlt)
    by_cases hword : i < w
    · simp [hlt, not_lt.mp hlt, hindex, hword]
    · have hzero : word.toNat.testBit i = false := by
        rw [← BitVec.getLsbD]
        exact BitVec.getLsbD_of_ge _ _ (not_lt.mp hword)
      simp [hlt, not_lt.mp hlt, hindex, hzero]

end Masks

section Rounding

variable {power position : ℕ}

theorem le_round_down (hpower : 1 ≤ power) (position : ℕ) :
    position ≤ (position + (power - 1)) / power * power := by
  have hsum := Nat.div_add_mod (position + (power - 1)) power
  have hlt := Nat.mod_lt (position + (power - 1)) (Nat.lt_of_lt_of_le Nat.one_pos hpower)
  rw [Nat.mul_comm] at hsum
  omega

end Rounding

end Pocl.AlignmentMasks
