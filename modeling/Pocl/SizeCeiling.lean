import Pocl.AlignmentMasks
import Pocl.BitSmearing

/-!
# Powers of two above a size

`pocl_size_ceil2` is compiled for a `size_t` of 32 or of 64 bits.  The last step of its
cascade is left out for the narrow type.  After the cascade, every bit below the highest one
of the predecessor is set, so the successor is the least power of two above the size.

The predecessor of zero has all bits set, and so have the predecessors of sizes above half of
the range after the cascade.  The successor wraps to zero for them.
-/

namespace Pocl.SizeCeiling

open AlignmentMasks BitSmearing

/-- The widths of `size_t`. -/
inductive SizeWidth
  | word32
  | word64
  deriving DecidableEq

def SizeWidth.bits : SizeWidth → ℕ
  | .word32 => 32
  | .word64 => 64

def SizeWidth.sizeMax (width : SizeWidth) : ℕ :=
  2 ^ width.bits - 1

def poclSizeCeil2 (width : SizeWidth) (x : BitVec width.bits) : BitVec width.bits :=
  let x := x - 1
  let x := x ||| x >>> 1
  let x := x ||| x >>> 2
  let x := x ||| x >>> 4
  let x := x ||| x >>> 8
  let x := x ||| x >>> 16
  let x := if 0xFFFFFFFF < width.sizeMax then x ||| x >>> 32 else x
  x + 1

section Cascade

theorem poclSizeCeil2_toNat (width : SizeWidth) (x : BitVec width.bits) :
    (poclSizeCeil2 width x).toNat = 2 ^ (x - 1).toNat.size % 2 ^ width.bits := by
  have hsmeared := (Smeared.refl (x - 1)).double.double.double.double.double
  cases width with
  | word32 =>
      have hnarrow : ¬ 0xFFFFFFFF < SizeWidth.word32.sizeMax := by decide
      simp only [poclSizeCeil2, if_neg hnarrow]
      exact Smeared.succ_toNat hsmeared
  | word64 =>
      have hwide : 0xFFFFFFFF < SizeWidth.word64.sizeMax := by decide
      simp only [poclSizeCeil2, if_pos hwide]
      exact Smeared.succ_toNat hsmeared.double

variable {width : SizeWidth} {x y : BitVec width.bits}

theorem SizeWidth.two_pow_bits (width : SizeWidth) :
    2 ^ width.bits = 2 * 2 ^ (width.bits - 1) := by
  cases width with
  | word32 => rfl
  | word64 => rfl

theorem poclSizeCeil2_toNat_of_le
    (hpos : 1 ≤ x.toNat) (hle : x.toNat ≤ 2 ^ (width.bits - 1)) :
    (poclSizeCeil2 width x).toNat = 2 ^ (x.toNat - 1).size := by
  have hbits := width.two_pow_bits
  have hsize : (x.toNat - 1).size ≤ width.bits - 1 := Nat.size_le.mpr (by omega)
  have hpower : 2 ^ (x.toNat - 1).size ≤ 2 ^ (width.bits - 1) :=
    Nat.pow_le_pow_right (by decide) hsize
  rw [poclSizeCeil2_toNat, pred_toNat hpos]
  exact Nat.mod_eq_of_lt (by omega)

theorem poclSizeCeil2_isLeast
    (hpos : 1 ≤ x.toNat) (hle : x.toNat ≤ 2 ^ (width.bits - 1)) :
    IsLeast {power | x.toNat ≤ power ∧ ∃ exponent, power = 2 ^ exponent}
      (poclSizeCeil2 width x).toNat := by
  rw [poclSizeCeil2_toNat_of_le hpos hle]
  exact two_pow_size_pred_isLeast hpos

theorem poclSizeCeil2_lt
    (hpos : 1 ≤ x.toNat) (hle : x.toNat ≤ 2 ^ (width.bits - 1)) :
    (poclSizeCeil2 width x).toNat < 2 * x.toNat := by
  rw [poclSizeCeil2_toNat_of_le hpos hle]
  by_cases hone : x.toNat = 1
  · rw [hone]
    decide
  · -- Half of the power is at most the predecessor.
    have hsize : (x.toNat - 1).size - 1 < (x.toNat - 1).size :=
      Nat.sub_lt (Nat.size_pos.mpr (by omega)) Nat.one_pos
    have hhalf : 2 ^ ((x.toNat - 1).size - 1) ≤ x.toNat - 1 := Nat.lt_size.mp hsize
    have hdouble := Nat.two_pow_pred_mul_two (Nat.lt_of_le_of_lt (Nat.zero_le _) hsize)
    omega

theorem poclSizeCeil2_le
    (hpos : 1 ≤ x.toNat) (hxy : x.toNat ≤ y.toNat)
    (hle : y.toNat ≤ 2 ^ (width.bits - 1)) :
    (poclSizeCeil2 width x).toNat ≤ (poclSizeCeil2 width y).toNat := by
  have hleast := poclSizeCeil2_isLeast hpos (hxy.trans hle)
  have hupper := (poclSizeCeil2_isLeast (hpos.trans hxy) hle).1
  exact hleast.2 ⟨hxy.trans hupper.1, hupper.2⟩

theorem poclSizeCeil2_le_half
    (hpos : 1 ≤ x.toNat) (hle : x.toNat ≤ 2 ^ (width.bits - 1)) :
    (poclSizeCeil2 width x).toNat ≤ 2 ^ (width.bits - 1) :=
  (poclSizeCeil2_isLeast hpos hle).2 ⟨hle, _, rfl⟩

theorem poclSizeCeil2_fixed
    (hpos : 1 ≤ x.toNat) (hle : x.toNat ≤ 2 ^ (width.bits - 1)) :
    poclSizeCeil2 width (poclSizeCeil2 width x) = poclSizeCeil2 width x := by
  obtain ⟨hupper, hpower⟩ := (poclSizeCeil2_isLeast hpos hle).1
  have hagain := poclSizeCeil2_isLeast (hpos.trans hupper) (poclSizeCeil2_le_half hpos hle)
  exact BitVec.eq_of_toNat_eq (le_antisymm (hagain.2 ⟨le_rfl, hpower⟩) hagain.1.1)

/-- The successor wraps when the predecessor has its highest bit set. -/
theorem poclSizeCeil2_eq_zero
    (houter : x = 0 ∨ 2 ^ (width.bits - 1) < x.toNat) : poclSizeCeil2 width x = 0 := by
  have hbits := width.two_pow_bits
  have hlarge : 2 ^ (width.bits - 1) ≤ (x - 1).toNat := by
    rcases houter with rfl | hlt
    · cases width with
      | word32 => decide
      | word64 => decide
    · rw [pred_toNat (by omega)]
      omega
  have hlower := Nat.lt_size.mpr hlarge
  have hupper : (x - 1).toNat.size ≤ width.bits := Nat.size_le.mpr (x - 1).isLt
  have hsize : (x - 1).toNat.size = width.bits := by omega
  refine BitVec.eq_of_toNat_eq ?_
  rw [poclSizeCeil2_toNat, hsize, Nat.mod_self]
  exact (BitVec.toNat_zero).symm

end Cascade

/-- The least power of two up to half of the range, and zero elsewhere. -/
theorem poclSizeCeil2_least (width : SizeWidth) :
    (∀ x : BitVec width.bits, 1 ≤ x.toNat → x.toNat ≤ 2 ^ (width.bits - 1) →
      IsLeast {power | x.toNat ≤ power ∧ ∃ exponent, power = 2 ^ exponent}
          (poclSizeCeil2 width x).toNat ∧
        (poclSizeCeil2 width x).toNat < 2 * x.toNat ∧
        poclSizeCeil2 width (poclSizeCeil2 width x) = poclSizeCeil2 width x) ∧
    (∀ x y : BitVec width.bits, 1 ≤ x.toNat → x.toNat ≤ y.toNat →
      y.toNat ≤ 2 ^ (width.bits - 1) →
        (poclSizeCeil2 width x).toNat ≤ (poclSizeCeil2 width y).toNat) ∧
    ∀ x : BitVec width.bits, x = 0 ∨ 2 ^ (width.bits - 1) < x.toNat →
      poclSizeCeil2 width x = 0 := by
  refine ⟨?_, ?_, ?_⟩
  · intro x hpos hle
    exact ⟨poclSizeCeil2_isLeast hpos hle, poclSizeCeil2_lt hpos hle,
      poclSizeCeil2_fixed hpos hle⟩
  · intro x y hpos hxy hle
    exact poclSizeCeil2_le hpos hxy hle
  · intro x houter
    exact poclSizeCeil2_eq_zero houter

example : poclSizeCeil2 .word32 48 = 64 := by decide

end Pocl.SizeCeiling
