import Pocl.HalfWidthProducts

/-!
# Bitwise operations on signed numbers

A bitwise operation works on the sign and on the magnitude bits alike, so its result lies in
every range of a two's complement type that holds the operands.
-/

namespace Pocl.SignedBitwise

open HalfWidthProducts Int

section Ranges

variable {x y : ℤ} {size : ℕ}

/-- The range of a signed number with a sign bit above the given ones. -/
def Signed (size : ℕ) (x : ℤ) : Prop :=
  -2 ^ size ≤ x ∧ x < 2 ^ size

def Unsigned (size : ℕ) (x : ℤ) : Prop :=
  0 ≤ x ∧ x < 2 ^ size

theorem Signed.div2 {b : Bool} (hx : Signed (size + 1) (bit b x)) : Signed size x := by
  obtain ⟨hmin, hmax⟩ := hx
  rw [bit_val, pow_succ] at hmin hmax
  constructor <;> cases b <;> simp only [cond_true, cond_false] at hmin hmax <;> omega

theorem Signed.bit (b : Bool) (hx : Signed size x) : Signed (size + 1) (bit b x) := by
  obtain ⟨hmin, hmax⟩ := hx
  constructor <;> rw [bit_val, pow_succ] <;> cases b <;> simp only [cond_true, cond_false] <;>
    omega

theorem signed_zero_iff : Signed 0 x ↔ x = Int.ofNat 0 ∨ x = Int.negSucc 0 := by
  have hzero : Int.ofNat 0 = 0 := rfl
  rw [Signed, pow_zero, hzero]
  omega

theorem signed_bitwise (f : Bool → Bool → Bool) (hx : Signed size x) (hy : Signed size y) :
    Signed size (bitwise f x y) := by
  induction size generalizing x y with
  | zero =>
      rw [signed_zero_iff] at hx hy ⊢
      obtain rfl | rfl := hx <;> obtain rfl | rfl := hy <;>
        simp only [bitwise, natBitwise, Nat.bitwise_zero, Bool.cond_eq_ite] <;>
        split <;> simp
  | succ size ih =>
      rw [← bit_decomp x] at hx ⊢
      rw [← bit_decomp y] at hy ⊢
      rw [bitwise_bit]
      exact (ih hx.div2 hy.div2).bit _

theorem signed_land (hx : Signed size x) (hy : Signed size y) : Signed size (land x y) := by
  rw [← bitwise_and]
  exact signed_bitwise _ hx hy

theorem signed_lor (hx : Signed size x) (hy : Signed size y) : Signed size (lor x y) := by
  rw [← bitwise_or]
  exact signed_bitwise _ hx hy

theorem unsigned_land (hx : Unsigned size x) (hy : Unsigned size y) :
    Unsigned size (land x y) := by
  obtain ⟨n, rfl⟩ := Int.eq_ofNat_of_zero_le hx.1
  obtain ⟨m, rfl⟩ := Int.eq_ofNat_of_zero_le hy.1
  have hn : n < 2 ^ size := by exact_mod_cast hx.2
  refine ⟨Int.natCast_nonneg (n &&& m), ?_⟩
  have hlt : n &&& m < 2 ^ size := Nat.lt_of_le_of_lt Nat.and_le_left hn
  have hland : land n m = (n &&& m : ℕ) := rfl
  rw [hland]
  exact_mod_cast hlt

theorem unsigned_lor (hx : Unsigned size x) (hy : Unsigned size y) :
    Unsigned size (lor x y) := by
  obtain ⟨n, rfl⟩ := Int.eq_ofNat_of_zero_le hx.1
  obtain ⟨m, rfl⟩ := Int.eq_ofNat_of_zero_le hy.1
  have hn : n < 2 ^ size := by exact_mod_cast hx.2
  have hm : m < 2 ^ size := by exact_mod_cast hy.2
  refine ⟨Int.natCast_nonneg (n ||| m), ?_⟩
  have hlt : n ||| m < 2 ^ size := Nat.or_lt_two_pow hn hm
  have hlor : lor n m = (n ||| m : ℕ) := rfl
  rw [hlor]
  exact_mod_cast hlt

end Ranges

section Signs

variable {x y : ℤ}

/-- The sign bit of the exclusive or tells whether the signs differ. -/
theorem xor_neg_iff : Int.xor x y < 0 ↔ (x < 0 ↔ 0 ≤ y) := by
  cases x with
  | ofNat x =>
      cases y with
      | ofNat y =>
          have hxor : Int.xor (ofNat x) (ofNat y) = (x ^^^ y : ℕ) := rfl
          rw [hxor]
          simp only [ofNat_eq_natCast]
          omega
      | negSucc y =>
          have hxor : Int.xor (ofNat x) (negSucc y) = negSucc (x ^^^ y) := rfl
          rw [hxor]
          simp only [ofNat_eq_natCast]
          omega
  | negSucc x =>
      cases y with
      | ofNat y =>
          have hxor : Int.xor (negSucc x) (ofNat y) = negSucc (x ^^^ y) := rfl
          rw [hxor]
          simp only [ofNat_eq_natCast]
          omega
      | negSucc y =>
          have hxor : Int.xor (negSucc x) (negSucc y) = (x ^^^ y : ℕ) := rfl
          rw [hxor]
          omega

end Signs

section Averages

/-- With the bit that either of two numbers loses, their halves make up the upper half. -/
theorem upper_halving_add (x y : ℤ) : x / 2 + y / 2 + land (lor x y) 1 = (x + y + 1) / 2 := by
  have hparity : lor x y % 2 = if x % 2 = 0 ∧ y % 2 = 0 then 0 else 1 := by
    have hbodd (z : ℤ) : z % 2 = cond z.bodd 1 0 := by
      have hz := Int.bodd_add_div2 z
      cases hb : z.bodd <;> simp only [hb, cond_true, cond_false] at hz ⊢ <;> omega
    have hor : (lor x y).bodd = (x.bodd || y.bodd) := by
      conv_lhs => rw [← Int.bit_decomp x, ← Int.bit_decomp y, Int.lor_bit, Int.bodd_bit]
    rw [hbodd, hbodd x, hbodd y, hor]
    cases x.bodd <;> cases y.bodd <;> rfl
  rw [land_one, hparity]
  split <;> omega

end Averages

end Pocl.SignedBitwise
