import Mathlib.Data.BitVec
import Mathlib.Data.Nat.ModEq
import Mathlib.Tactic

/-!
# Bit patterns in wider words, and rotated

A pattern that is extended to a wider word is found in its low bits.  A bit of a rotated
pattern is the one at the index moved by a complement of the count, so rotations add up.
-/

namespace Pocl.BitPatterns

section Extensions

variable {w wide : ℕ}

theorem setWidth_signExtend (hle : w ≤ wide) (a : BitVec w) :
    (BitVec.signExtend wide a).setWidth w = a := by
  refine BitVec.eq_of_getLsbD_eq fun i hi => ?_
  rw [BitVec.getLsbD_setWidth, BitVec.getLsbD_signExtend, if_pos hi]
  simp [hi, hi.trans_le hle]

theorem setWidth_setWidth_self (hle : w ≤ wide) (a : BitVec w) :
    (BitVec.setWidth wide a).setWidth w = a := by
  refine BitVec.eq_of_toNat_eq ?_
  rw [BitVec.toNat_setWidth, BitVec.toNat_setWidth_of_le hle, Nat.mod_eq_of_lt a.isLt]

end Extensions

section Masks

variable {w k : ℕ} {x mask : BitVec w}

theorem and_low_toNat (hmask : mask.toNat = 2 ^ k - 1) (x : BitVec w) :
    (x &&& mask).toNat = x.toNat % 2 ^ k := by
  rw [BitVec.toNat_and, hmask]
  exact Nat.and_two_pow_sub_one_eq_mod _ k

theorem and_low_lt (hmask : mask.toNat = 2 ^ k - 1) (x : BitVec w) :
    (x &&& mask).toNat < 2 ^ k := by
  rw [and_low_toNat hmask]
  exact Nat.mod_lt _ (Nat.two_pow_pos k)

theorem and_eq_zero_of_lt {c : ℕ} (hx : x.toNat < 2 ^ k) (hmask : mask.toNat = c <<< k) :
    x &&& mask = 0 := by
  refine BitVec.eq_of_toNat_eq ?_
  rw [BitVec.toNat_and, hmask]
  refine Nat.eq_of_testBit_eq fun i => ?_
  rw [Nat.testBit_and, Nat.testBit_shiftLeft]
  by_cases hi : k ≤ i
  · have hlt : x.toNat < 2 ^ i := hx.trans_le (Nat.pow_le_pow_right Nat.two_pos hi)
    rw [Nat.testBit_lt_two_pow hlt]
    simp
  · simp [hi]

theorem and_twoPow_cases (x : BitVec w) (i : ℕ) :
    x &&& BitVec.twoPow w i = 0 ∨ x &&& BitVec.twoPow w i = BitVec.twoPow w i := by
  rw [BitVec.and_twoPow]
  split
  · exact Or.inr rfl
  · exact Or.inl rfl

end Masks

section Rotations

variable {w r s k i : ℕ}

theorem getLsbD_rotateLeft_of_add_mod (hi : i < w) (hk : (k + r) % w = 0) (x : BitVec w) :
    (x.rotateLeft r).getLsbD i = x.getLsbD ((i + k) % w) := by
  have hpos : 0 < w := Nat.lt_of_le_of_lt (Nat.zero_le i) hi
  have hr := Nat.mod_lt r hpos
  have hkLt := Nat.mod_lt k hpos
  rw [Nat.add_mod] at hk
  have hsum : k % w + r % w = 0 ∨ k % w + r % w = w := by
    obtain ⟨count, hcount⟩ := Nat.dvd_of_mod_eq_zero hk
    have hlt : w * count < w * 2 := by omega
    have hcountLt := Nat.lt_of_mul_lt_mul_left hlt
    interval_cases count <;> omega
  have htarget : (i + k) % w = (i + k % w) % w := (Nat.add_mod_mod i k w).symm
  rw [BitVec.getLsbD_rotateLeft, htarget]
  by_cases hlow : i < r % w
  · have hindex : i + k % w = w - r % w + i := by omega
    have hlt : w - r % w + i < w := by omega
    rw [decide_eq_true hlow, cond_true, hindex, Nat.mod_eq_of_lt hlt]
  · rw [decide_eq_false hlow, cond_false, decide_eq_true hi, Bool.true_and]
    rcases hsum with hzero | hfull
    · have hkZero : k % w = 0 := by omega
      have hrZero : r % w = 0 := by omega
      rw [hkZero, hrZero, Nat.add_zero, Nat.sub_zero, Nat.mod_eq_of_lt hi]
    · have hindex : i + k % w = i - r % w + w := by omega
      have hlt : i - r % w < w := by omega
      rw [hindex, Nat.add_mod_right, Nat.mod_eq_of_lt hlt]

theorem exists_add_mod (hw : 0 < w) (r : ℕ) : ∃ k, (k + r) % w = 0 := by
  refine ⟨w - r % w, ?_⟩
  have hr := Nat.mod_lt r hw
  have hsum : w - r % w + r = w * (r / w + 1) := by
    have hdiv := Nat.mod_add_div r w
    rw [Nat.mul_succ]
    omega
  rw [hsum, Nat.mul_mod_right]

theorem rotateLeft_rotateLeft (x : BitVec w) (r s : ℕ) :
    (x.rotateLeft r).rotateLeft s = x.rotateLeft (r + s) := by
  refine BitVec.eq_of_getLsbD_eq fun i hi => ?_
  have hpos : 0 < w := Nat.lt_of_le_of_lt (Nat.zero_le i) hi
  obtain ⟨k, hk⟩ := exists_add_mod hpos r
  obtain ⟨l, hl⟩ := exists_add_mod hpos s
  have hsum : (l + k + (r + s)) % w = 0 := by
    have hswap : l + k + (r + s) = k + r + (l + s) := by omega
    rw [hswap, Nat.add_mod, hk, hl]
    exact Nat.zero_mod w
  rw [getLsbD_rotateLeft_of_add_mod hi hl,
    getLsbD_rotateLeft_of_add_mod (Nat.mod_lt _ hpos) hk, getLsbD_rotateLeft_of_add_mod hi hsum,
    Nat.mod_add_mod, Nat.add_assoc]

theorem rotateLeft_congr (x : BitVec w) (hmod : r % w = s % w) :
    x.rotateLeft r = x.rotateLeft s := by
  rw [← BitVec.rotateLeft_mod_eq_rotateLeft, hmod, BitVec.rotateLeft_mod_eq_rotateLeft]

theorem rotateLeft_of_mod_eq_zero (x : BitVec w) (hmod : r % w = 0) : x.rotateLeft r = x := by
  have hshift : x >>> w = 0#w := BitVec.eq_of_toNat_eq (by
    rw [BitVec.toNat_ushiftRight, Nat.shiftRight_eq_div_pow, Nat.div_eq_of_lt x.isLt]
    exact BitVec.toNat_zero.symm)
  rw [BitVec.rotateLeft_def, hmod, Nat.sub_zero, BitVec.shiftLeft_zero, hshift, BitVec.or_zero]

theorem shift_or_shift (x : BitVec w) (hr : r < w) (hs : s < w) (hsum : (r + s) % w = 0) :
    x <<< r ||| x >>> s = x.rotateLeft r := by
  by_cases hzero : r = 0
  · have hsZero : s = 0 := by
      rw [hzero, Nat.zero_add, Nat.mod_eq_of_lt hs] at hsum
      exact hsum
    rw [hzero, hsZero, rotateLeft_of_mod_eq_zero x (Nat.zero_mod w), BitVec.shiftLeft_zero,
      BitVec.ushiftRight_zero, BitVec.or_self]
  · have hfull : s = w - r := by
      obtain ⟨count, hcount⟩ := Nat.dvd_of_mod_eq_zero hsum
      have hlt : w * count < w * 2 := by omega
      have hcountLt := Nat.lt_of_mul_lt_mul_left hlt
      interval_cases count <;> omega
    rw [BitVec.rotateLeft_def, Nat.mod_eq_of_lt hr, hfull]

end Rotations

end Pocl.BitPatterns
