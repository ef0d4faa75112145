import Mathlib.Data.Int.Bitwise
import Mathlib.Tactic

/-!
# Products assembled from half-width products

A word in a base `C` is a signed or unsigned high digit and a low digit.  The high word of a
product is a sum of the high digits' product and a halved sum of the mixed ones.  None of
these numbers leaves the range of the words.
-/

namespace Pocl.HalfWidthProducts

open Int (land bit)

/-! ## Masks and halving sums -/

theorem land_two_pow_sub_one (x : ℤ) (n : ℕ) : land x (2 ^ n - 1) = x % 2 ^ n := by
  induction n generalizing x with
  | zero =>
      rw [pow_zero, Int.emod_one]
      obtain x | x := x <;> simp [land, Nat.ldiff]
  | succ n ih =>
      have hmask : (2 : ℤ) ^ (n + 1) - 1 = bit true (2 ^ n - 1) := by
        rw [Int.bit_val, cond_true]
        ring
      have hpow : (2 : ℤ) ^ (n + 1) = 2 * 2 ^ n := by ring
      have hpos : (0 : ℤ) < 2 ^ n := by positivity
      have hbit : (0 : ℤ) ≤ cond x.bodd 1 0 ∧ cond x.bodd (1 : ℤ) 0 ≤ 1 := by
        cases x.bodd <;> simp
      have hdiv := Int.mul_ediv_add_emod x.div2 (2 ^ n)
      have hnonneg := Int.emod_nonneg x.div2 hpos.ne'
      have hlt := Int.emod_lt_of_pos x.div2 hpos
      conv_lhs => rw [← Int.bit_decomp x]
      rw [hmask, Int.land_bit, Bool.and_true, ih, Int.bit_val, eq_comm, hpow]
      conv_lhs => rw [← Int.bit_decomp x, Int.bit_val]
      rw [Int.emod_eq_iff (by omega)]
      refine ⟨by omega, by omega, -(x.div2 / 2 ^ n), ?_⟩
      linear_combination 2 * hdiv

theorem land_one (x : ℤ) : land x 1 = x % 2 :=
  land_two_pow_sub_one x 1

/-- The halves of two numbers, and the bit that both lose, make up half of their sum. -/
theorem halving_add (x y : ℤ) : x / 2 + y / 2 + land (land x y) 1 = (x + y) / 2 := by
  have hparity : land x y % 2 = x % 2 * (y % 2) := by
    have hbodd (z : ℤ) : z % 2 = cond z.bodd 1 0 := by
      have hz := Int.bodd_add_div2 z
      cases hb : z.bodd <;> simp only [hb, cond_true, cond_false] at hz ⊢ <;> omega
    have hand : (land x y).bodd = (x.bodd && y.bodd) := by
      conv_lhs => rw [← Int.bit_decomp x, ← Int.bit_decomp y, Int.land_bit, Int.bodd_bit]
    rw [hbodd, hbodd x, hbodd y, hand]
    cases x.bodd <;> cases y.bodd <;> rfl
  rw [land_one, hparity]
  obtain hx | hx := Int.emod_two_eq_zero_or_one x <;>
    obtain hy | hy := Int.emod_two_eq_zero_or_one y <;> rw [hx, hy] <;> omega

/-! ## Digits -/

/-- The high digits of a word in an even base `C` range from `low` to `high`. -/
structure DigitRange (C low high : ℤ) : Prop where
  base_even : 2 ∣ C
  low_nonpos : low ≤ 0
  high_nonneg : 0 ≤ high
  high_lt : high < C
  neg_low_lt : -low < C
  neg_low_le : -low ≤ high + 1

/-- The words that a high digit in the range and a low digit of base `C` make up. -/
def IsWord (C low high x : ℤ) : Prop :=
  low * C ≤ x ∧ x ≤ high * C + (C - 1)

section Digits

variable {C low high x y : ℤ}

theorem DigitRange.base_pos (hrange : DigitRange C low high) : 0 < C :=
  hrange.high_nonneg.trans_lt hrange.high_lt

theorem IsWord.ediv (hrange : DigitRange C low high) (hx : IsWord C low high x) :
    low ≤ x / C ∧ x / C ≤ high := by
  have hpos := hrange.base_pos
  constructor
  · exact (Int.le_ediv_iff_mul_le hpos).mpr hx.1
  · refine Int.lt_add_one_iff.mp ((Int.ediv_lt_iff_lt_mul hpos).mpr ?_)
    linarith [hx.2, add_one_mul high C]

theorem IsWord.emod (hrange : DigitRange C low high) (x : ℤ) : 0 ≤ x % C ∧ x % C < C :=
  ⟨Int.emod_nonneg x hrange.base_pos.ne', Int.emod_lt_of_pos x hrange.base_pos⟩

theorem isWord_digit_mul_digit (hrange : DigitRange C low high) {h k : ℤ}
    (hh : low ≤ h ∧ h ≤ high) (hk : low ≤ k ∧ k ≤ high) : IsWord C low high (h * k) := by
  obtain ⟨-, hlow, hhigh, hlt, hneg, hle⟩ := hrange
  constructor
  · obtain hpos | hpos := le_total 0 k
    · nlinarith
    · nlinarith
  · obtain hpos | hpos := le_total 0 k
    · nlinarith
    · nlinarith

/-- A mixed product takes the carry of the low digits' product without leaving the range. -/
theorem isWord_digit_mul_add (hrange : DigitRange C low high) {h l carry : ℤ}
    (hh : low ≤ h ∧ h ≤ high) (hl : 0 ≤ l ∧ l < C) (hcarry : 0 ≤ carry ∧ carry < C) :
    IsWord C low high (h * l + carry) := by
  have hlow := hrange.low_nonpos
  have hhigh := hrange.high_nonneg
  constructor
  · calc low * C ≤ low * l := mul_le_mul_of_nonpos_left hl.2.le hlow
      _ ≤ h * l := mul_le_mul_of_nonneg_right hh.1 hl.1
      _ ≤ h * l + carry := le_add_of_nonneg_right hcarry.1
  · have hmul : h * l ≤ high * C :=
      (mul_le_mul_of_nonneg_right hh.2 hl.1).trans (mul_le_mul_of_nonneg_left hl.2.le hhigh)
    exact add_le_add hmul (Int.le_sub_one_of_lt hcarry.2)

/-- A mixed product takes a signed digit instead of a carry. -/
theorem isWord_digit_mul_add_digit (hrange : DigitRange C low high) {h l k : ℤ}
    (hh : low ≤ h ∧ h ≤ high) (hl : 0 ≤ l ∧ l < C) (hk : low ≤ k ∧ k ≤ high) :
    IsWord C low high (h * l + k) := by
  have hlow := hrange.low_nonpos
  have hhigh := hrange.high_nonneg
  have hpos := hrange.base_pos
  have hle : l ≤ C - 1 := Int.le_sub_one_of_lt hl.2
  constructor
  · calc low * C = low * (C - 1) + low := by ring
      _ ≤ low * l + low := add_le_add (mul_le_mul_of_nonpos_left hle hlow) le_rfl
      _ ≤ h * l + k := add_le_add (mul_le_mul_of_nonneg_right hh.1 hl.1) hk.1
  · calc h * l + k ≤ high * (C - 1) + high :=
          add_le_add ((mul_le_mul_of_nonneg_right hh.2 hl.1).trans
            (mul_le_mul_of_nonneg_left hle hhigh)) hk.2
      _ = high * C := by ring
      _ ≤ high * C + (C - 1) := le_add_of_nonneg_right (Int.le_sub_one_of_lt hpos)

theorem low_product_add_lt {l m n : ℤ} (hl : 0 ≤ l ∧ l < C) (hm : 0 ≤ m ∧ m < C)
    (hn : 0 ≤ n ∧ n < C) : 0 ≤ l * m + n ∧ l * m + n < C * C := by
  have hle : l ≤ C - 1 := Int.le_sub_one_of_lt hl.2
  have hmul : l * m ≤ (C - 1) * C :=
    mul_le_mul hle hm.2.le hm.1 (hl.1.trans hle)
  constructor
  · exact add_nonneg (mul_nonneg hl.1 hm.1) hn.1
  · calc l * m + n < (C - 1) * C + C := add_lt_add_of_le_of_lt hmul hn.2
      _ = C * C := by ring

theorem carry_add_lt {l m n : ℤ} (hl : 0 ≤ l ∧ l < C) (hm : 0 ≤ m ∧ m < C)
    (hn : 0 ≤ n ∧ n < C) : 0 ≤ (l * m + n) / C ∧ (l * m + n) / C < C := by
  have hpos : 0 < C := hl.1.trans_lt hl.2
  obtain ⟨hnonneg, hlt⟩ := low_product_add_lt hl hm hn
  exact ⟨Int.ediv_nonneg hnonneg hpos.le, (Int.ediv_lt_iff_lt_mul hpos).mpr hlt⟩

theorem carry_lt {l m : ℤ} (hl : 0 ≤ l ∧ l < C) (hm : 0 ≤ m ∧ m < C) :
    0 ≤ l * m / C ∧ l * m / C < C := by
  have hcarry := carry_add_lt hl hm ⟨le_rfl, hl.1.trans_lt hl.2⟩
  rwa [add_zero] at hcarry

theorem isWord_zero (hrange : DigitRange C low high) : IsWord C low high 0 := by
  have hpos := hrange.base_pos
  have hhigh := mul_nonneg hrange.high_nonneg hpos.le
  exact ⟨mul_nonpos_of_nonpos_of_nonneg hrange.low_nonpos hpos.le,
    add_nonneg hhigh (Int.le_sub_one_of_lt hpos)⟩

theorem IsWord.half (hrange : DigitRange C low high) (hx : IsWord C low high x) :
    IsWord C low high (x / 2) := by
  have hlow : low * C ≤ 0 := mul_nonpos_of_nonpos_of_nonneg hrange.low_nonpos hrange.base_pos.le
  have hhigh : 0 ≤ high * C := mul_nonneg hrange.high_nonneg hrange.base_pos.le
  have hpos := hrange.base_pos
  obtain ⟨hle, hge⟩ := hx
  constructor <;> omega

theorem IsWord.half_add_half (hrange : DigitRange C low high) (hx : IsWord C low high x)
    (hy : IsWord C low high y) : IsWord C low high (x / 2 + y / 2) := by
  have heven : 2 ∣ low * C := hrange.base_even.mul_left low
  obtain ⟨hxle, hxge⟩ := hx
  obtain ⟨hyle, hyge⟩ := hy
  constructor <;> omega

theorem IsWord.half_add (hx : IsWord C low high x) (hy : IsWord C low high y) :
    IsWord C low high ((x + y) / 2) := by
  obtain ⟨hxle, hxge⟩ := hx
  obtain ⟨hyle, hyge⟩ := hy
  constructor <;> omega

/-- The high word of a product of words and a word is a word. -/
theorem IsWord.high_word_add {z : ℤ} (hrange : DigitRange C low high)
    (hx : IsWord C low high x) (hy : IsWord C low high y) (hz : IsWord C low high z) :
    IsWord C low high ((x * y + z) / (C * C)) := by
  have hpos := hrange.base_pos
  obtain ⟨-, hlow, hhigh, hlt, hneg, hle⟩ := hrange
  have hsq : 0 < C * C := mul_pos hpos hpos
  -- words lie between `bottom` and `top - 1`
  obtain ⟨bottom, hbottom⟩ : ∃ bottom, bottom = low * C := ⟨_, rfl⟩
  obtain ⟨top, htop⟩ : ∃ top, top = (high + 1) * C := ⟨_, rfl⟩
  have htop_le : top ≤ C * C :=
    htop ▸ mul_le_mul_of_nonneg_right (Int.add_one_le_iff.mpr hlt) hpos.le
  have htop_pos : 0 < top := htop ▸ mul_pos (Int.lt_add_one_of_le hhigh) hpos
  have hbottom_nonpos : bottom ≤ 0 := hbottom ▸ mul_nonpos_of_nonpos_of_nonneg hlow hpos.le
  have hneg_bottom : -bottom ≤ top := by
    rw [hbottom, htop, ← neg_mul]
    exact mul_le_mul_of_nonneg_right hle hpos.le
  have hneg_bottom_le : -bottom ≤ C * C - C := by
    rw [hbottom, ← neg_mul]
    calc -low * C ≤ (C - 1) * C := mul_le_mul_of_nonneg_right (Int.le_sub_one_of_lt hneg) hpos.le
      _ = C * C - C := by ring
  have hword {w : ℤ} (hw : IsWord C low high w) : bottom ≤ w ∧ w ≤ top - 1 :=
    ⟨hbottom ▸ hw.1, by linarith [hw.2, add_one_mul high C]⟩
  obtain ⟨hxle, hxge⟩ := hword hx
  obtain ⟨hyle, hyge⟩ := hword hy
  obtain ⟨hzle, hzge⟩ := hword hz
  have hsq_sub : 0 ≤ C * C - 1 := Int.sub_nonneg_of_le hsq
  have htop_sub : 0 ≤ top - 1 := Int.sub_nonneg_of_le htop_pos
  have hleast : bottom * (top - 1) ≤ 0 := mul_nonpos_of_nonpos_of_nonneg hbottom_nonpos htop_sub
  have hgreatest : 0 ≤ top * (C * C - 1) := mul_nonneg htop_pos.le hsq_sub
  -- a mixed product is at least `least`, and one of equal signs is at most `greatest`
  have hmixed {v w : ℤ} (hv : 0 ≤ v) (hvtop : v ≤ top - 1) (hw : bottom ≤ w) :
      bottom * (top - 1) ≤ v * w :=
    calc bottom * (top - 1) ≤ bottom * v := mul_le_mul_of_nonpos_left hvtop hbottom_nonpos
      _ = v * bottom := mul_comm _ _
      _ ≤ v * w := mul_le_mul_of_nonneg_left hw hv
  have hproduct : bottom * (top - 1) ≤ x * y ∧ x * y ≤ top * (C * C - 1) := by
    obtain hx0 | hx0 := le_total 0 x <;> obtain hy0 | hy0 := le_total 0 y
    · refine ⟨hleast.trans (mul_nonneg hx0 hy0), ?_⟩
      calc x * y ≤ (top - 1) * (top - 1) := mul_le_mul hxge hyge hy0 htop_sub
        _ ≤ top * (C * C - 1) :=
          mul_le_mul (by omega) (by omega) htop_sub htop_pos.le
    · exact ⟨hmixed hx0 hxge hyle,
        (mul_nonpos_of_nonneg_of_nonpos hx0 hy0).trans hgreatest⟩
    · exact ⟨mul_comm x y ▸ hmixed hy0 hyge hxle,
        (mul_nonpos_of_nonpos_of_nonneg hx0 hy0).trans hgreatest⟩
    · refine ⟨hleast.trans (mul_nonneg_of_nonpos_of_nonpos hx0 hy0), ?_⟩
      calc x * y = -x * -y := (neg_mul_neg x y).symm
        _ ≤ top * (C * C - 1) :=
          mul_le_mul (by omega) (by omega) (neg_nonneg.mpr hy0) htop_pos.le
  constructor
  · rw [Int.le_ediv_iff_mul_le hsq, ← hbottom]
    calc bottom * (C * C) ≤ bottom * top := mul_le_mul_of_nonpos_left htop_le hbottom_nonpos
      _ = bottom * (top - 1) + bottom := by ring
      _ ≤ x * y + z := add_le_add hproduct.1 hzle
  · have htop_eq : high * C + (C - 1) + 1 = top := by rw [htop]; ring
    rw [← Int.lt_add_one_iff, Int.ediv_lt_iff_lt_mul hsq, htop_eq]
    calc x * y + z < top * (C * C - 1) + top :=
          add_lt_add_of_le_of_lt hproduct.2 (Int.lt_of_le_sub_one hzge)
      _ = top * (C * C) := by ring

theorem IsWord.high_word (hrange : DigitRange C low high) (hx : IsWord C low high x)
    (hy : IsWord C low high y) : IsWord C low high (x * y / (C * C)) := by
  have hhigh := hx.high_word_add hrange hy (isWord_zero hrange)
  rwa [add_zero] at hhigh

/-- The high word of a product and a sum, from the products of the digits. -/
theorem high_word_add_eq (hpos : 0 < C) (a b c : ℤ) :
    a / C * (b / C) +
        (a / C * (b % C) + c / C + (a % C * (b / C) + (a % C * (b % C) + c % C) / C)) / C =
      (a * b + c) / (C * C) := by
  have ha := Int.mul_ediv_add_emod a C
  have hb := Int.mul_ediv_add_emod b C
  have hc := Int.mul_ediv_add_emod c C
  have hdigits : a * b + c =
      a % C * (b % C) + c % C +
        C * (C * (a / C * (b / C)) + (a / C * (b % C) + c / C + a % C * (b / C))) := by
    conv_lhs => rw [← ha, ← hb, ← hc]
    ring
  have houter (high mixed low : ℤ) :
      (low + C * (C * high + mixed)) / C / C = high + (mixed + low / C) / C := by
    have hmixed : low / C + (C * high + mixed) = mixed + low / C + C * high := by ring
    rw [Int.add_mul_ediv_left _ _ hpos.ne', hmixed, Int.add_mul_ediv_left _ _ hpos.ne', add_comm]
  rw [← Int.ediv_ediv_of_nonneg hpos.le, hdigits, houter, add_assoc (a / C * (b % C) + c / C)]

theorem high_word_eq (hpos : 0 < C) (a b : ℤ) :
    a / C * (b / C) + (a / C * (b % C) + (a % C * (b / C) + a % C * (b % C) / C)) / C =
      a * b / (C * C) := by
  have heq := high_word_add_eq hpos a b 0
  rwa [Int.zero_ediv, Int.zero_emod, add_zero, add_zero, add_zero] at heq

end Digits

end Pocl.HalfWidthProducts
