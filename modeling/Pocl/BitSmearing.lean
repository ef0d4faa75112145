import Mathlib.Data.Nat.Size
import Mathlib.Order.Bounds.Basic
import Mathlib.Tactic

/-!
# Words with all bits below the highest one

A word is combined with itself, shifted by one, two, four and so on, until every bit below
its highest bit is set.  One more is the power of two above the word.
-/

namespace Pocl.BitSmearing

section Smearing

variable {w count : ℕ} {word wide : BitVec w}

/-- A bit is set if one of the given number of bits of the word is, from this bit on. -/
def Smeared (word wide : BitVec w) (count : ℕ) : Prop :=
  ∀ i, wide.getLsbD i = true ↔ ∃ j < count, word.getLsbD (i + j) = true

theorem Smeared.refl (word : BitVec w) : Smeared word word 1 := by
  intro i
  constructor
  · exact fun hbit => ⟨0, Nat.one_pos, hbit⟩
  · rintro ⟨j, hj, hbit⟩
    obtain rfl : j = 0 := by omega
    exact hbit

theorem Smeared.double (hsmeared : Smeared word wide count) :
    Smeared word (wide ||| wide >>> count) (count + count) := by
  intro i
  rw [BitVec.getLsbD_or, BitVec.getLsbD_ushiftRight, Bool.or_eq_true, hsmeared i,
    hsmeared (count + i)]
  constructor
  · rintro (⟨j, hj, hbit⟩ | ⟨j, hj, hbit⟩)
    · exact ⟨j, by omega, hbit⟩
    · refine ⟨count + j, by omega, ?_⟩
      rwa [← Nat.add_assoc, Nat.add_comm i count]
  · rintro ⟨j, hj, hbit⟩
    by_cases hlt : j < count
    · exact .inl ⟨j, hlt, hbit⟩
    · refine .inr ⟨j - count, by omega, ?_⟩
      have hindex : count + i + (j - count) = i + j := by omega
      rwa [hindex]

theorem Smeared.toNat (hsmeared : Smeared word wide w) :
    wide.toNat = 2 ^ word.toNat.size - 1 := by
  refine Nat.eq_of_testBit_eq fun i => ?_
  rw [Nat.testBit_two_pow_sub_one, ← BitVec.getLsbD, Bool.eq_iff_iff, hsmeared i,
    decide_eq_true_iff, Nat.lt_size]
  constructor
  · rintro ⟨j, -, hbit⟩
    exact (Nat.pow_le_pow_right (by decide) (Nat.le_add_right i j)).trans
      (Nat.ge_two_pow_of_testBit hbit)
  · intro hle
    obtain ⟨k, hk, hbit⟩ := Nat.exists_ge_and_testBit_of_ge_two_pow hle
    have hlt : k < w := by
      by_contra hge
      rw [← BitVec.getLsbD, BitVec.getLsbD_of_ge _ _ (not_lt.mp hge)] at hbit
      exact absurd hbit (by decide)
    refine ⟨k - i, by omega, ?_⟩
    rwa [Nat.add_sub_cancel' hk]

theorem Smeared.succ_toNat (hsmeared : Smeared word wide w) :
    (wide + 1).toNat = 2 ^ word.toNat.size % 2 ^ w := by
  have hone : 1 ≤ 2 ^ word.toNat.size := Nat.one_le_two_pow
  have hunit : (1 : BitVec w).toNat = 1 % 2 ^ w := BitVec.toNat_ofNat 1 w
  rw [BitVec.toNat_add, hunit, Nat.add_mod_mod, hsmeared.toNat, Nat.sub_add_cancel hone]

end Smearing

/-- The power of two that a predecessor leads to is the least one that is large enough. -/
theorem two_pow_size_pred_isLeast {n : ℕ} (hpos : 1 ≤ n) :
    IsLeast {power | n ≤ power ∧ ∃ exponent, power = 2 ^ exponent} (2 ^ (n - 1).size) := by
  constructor
  · have hlt := Nat.lt_size_self (n - 1)
    exact ⟨by omega, _, rfl⟩
  · rintro _ ⟨hle, exponent, rfl⟩
    exact Nat.pow_le_pow_right (by decide) (Nat.size_le.mpr (by omega))

end Pocl.BitSmearing
