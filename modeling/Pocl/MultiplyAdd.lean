import Pocl.AveragesRotations
import Pocl.SaturatingSums

/-!
# Saturating multiplication and addition

`mad_sat` computes a high and a low word of `a * b + c` from half-width products and the
halves of `c`.  The high word is exact, and with the sign of the low word it tells whether the
number is in the range.
-/

namespace Pocl.MultiplyAdd

open AveragesRotations HalfWidthProducts MulHi SaturatingSums

section Source

variable (form : Form) (gtype : IntType)

/-- `SCOMBINE` and `UCOMBINE`, with `hi` of the type of the operands. -/
def combine (bits : ℕ) (hi lo : ℤ) : ℤ :=
  wrapped form gtype (wrapped form gtype (hi * 2 ^ (bits / 2)) + gtype.convert lo)

/-- The sum of three numbers, in the type of the operands. -/
def sum3 (x y z : ℤ) : ℤ :=
  (form.operand gtype).convert ((form.operand gtype).convert (x + y) + z)

/-- Intermediate results wrap when they are stored. -/
def madSat (a b c : ℤ) : Option ℤ :=
  let bits := gtype.width
  if gtype.convert (-1) < gtype.convert 0 then do
    let min := minConstant gtype
    let max := maxConstant form gtype
    let ah := gtype.convert (shi gtype bits a)
    let al := gtype.convert (← slo gtype bits a)
    let bh := gtype.convert (shi gtype bits b)
    let bl := gtype.convert (← slo gtype bits b)
    let ch := gtype.convert (shi gtype bits c)
    let cl := gtype.convert (← slo gtype bits c)
    let ahbh := wrapped form gtype (ah * bh)
    let ahbl := wrapped form gtype (ah * bl)
    let albh := wrapped form gtype (al * bh)
    let albl := wrapped form gtype.ugtype (s2u gtype al * s2u gtype bl)
    let alblcl := wrapped form gtype.ugtype (albl + s2u gtype cl)
    let abcl := combine form gtype bits (sum3 form gtype ahbl albh ch) (u2s gtype alblcl)
    let middle ← hadd form gtype (wrapped form gtype (ahbl + ch))
      (wrapped form gtype (albh + u2s gtype (suhi gtype bits alblcl)))
    let abch := wrapped form gtype (ahbh + shi1 gtype bits middle)
    return if (abch = gtype.convert 0 ∧ gtype.convert 0 ≤ abcl) ∨
        (abch = gtype.convert (-1) ∧ abcl < gtype.convert 0) then
        abcl
      else if gtype.convert 0 ≤ abch then max else min
  else do
    let max := gtype.convert (-1)
    let ah := gtype.convert (uhi gtype bits a)
    let al := gtype.convert (← ulo gtype bits a)
    let bh := gtype.convert (uhi gtype bits b)
    let bl := gtype.convert (← ulo gtype bits b)
    let ch := gtype.convert (uhi gtype bits c)
    let cl := gtype.convert (← ulo gtype bits c)
    let ahbh := wrapped form gtype (ah * bh)
    let ahbl := wrapped form gtype (ah * bl)
    let albh := wrapped form gtype (al * bh)
    let albl := wrapped form gtype (al * bl)
    let low := (form.operand gtype).convert (albl + cl)
    let abcl := combine form gtype bits (sum3 form gtype ahbl albh ch) low
    let middle ← hadd form gtype (wrapped form gtype (ahbl + ch))
      (wrapped form gtype (albh + uhi gtype bits low))
    let abch := wrapped form gtype (ahbh + uhi1 gtype bits middle)
    return if abch = gtype.convert 0 then abcl else max

end Source

section Words

variable {gtype : IntType} {a b c x y z C : ℤ}

theorem convert_modEq (gtype : IntType) (x : ℤ) :
    gtype.convert x ≡ x [ZMOD 2 ^ gtype.width] := by
  unfold IntType.convert Int.ModEq
  split
  · have hbmod := Int.bmod_emod (x := x) (m := 2 ^ gtype.width)
    rwa [Nat.cast_pow, Nat.cast_ofNat] at hbmod
  · exact Int.emod_emod_of_dvd x dvd_rfl

theorem convert_congr (hxy : x ≡ y [ZMOD 2 ^ gtype.width]) :
    gtype.convert x = gtype.convert y := by
  unfold IntType.convert
  rw [Int.bmod_def, Int.bmod_def, Nat.cast_pow, Nat.cast_ofNat, hxy]

theorem convert_operand_modEq (form : Form) (gtype : IntType) (x : ℤ) :
    (form.operand gtype).convert x ≡ x [ZMOD 2 ^ gtype.width] :=
  (convert_modEq (form.operand gtype) x).of_dvd (pow_dvd_pow 2 (width_le_operand form gtype))

theorem wrapped_eq (form : Form) (gtype : IntType) (x : ℤ) :
    wrapped form gtype x = gtype.convert x :=
  convert_congr (convert_operand_modEq form gtype x)

theorem sum3_modEq (form : Form) (gtype : IntType) (x y z : ℤ) :
    sum3 form gtype x y z ≡ x + y + z [ZMOD 2 ^ gtype.width] :=
  (convert_operand_modEq form gtype _).trans
    ((convert_operand_modEq form gtype _).add_right z)

/-- The two sums are the low word of the whole. -/
theorem combine_eq (form : Form) (hC : C = 2 ^ (gtype.width / 2)) {lo : ℤ}
    (hlo : lo ≡ a % C * (b % C) + c % C [ZMOD 2 ^ gtype.width]) :
    combine form gtype gtype.width
        (sum3 form gtype (a / C * (b % C)) (a % C * (b / C)) (c / C)) lo =
      gtype.convert (a * b + c) := by
  have ha := Int.mul_ediv_add_emod a C
  have hb := Int.mul_ediv_add_emod b C
  have hc := Int.mul_ediv_add_emod c C
  have hbase : C * C = 2 ^ gtype.width := by rw [hC, base_mul_base]
  have hdigits : a * b + c = 2 ^ gtype.width * (a / C * (b / C)) +
      ((a / C * (b % C) + a % C * (b / C) + c / C) * C + (a % C * (b % C) + c % C)) := by
    rw [← hbase]
    conv_lhs => rw [← ha, ← hb, ← hc]
    ring
  have hsum := (sum3_modEq form gtype (a / C * (b % C)) (a % C * (b / C)) (c / C)).mul_right C
  have hwhole : gtype.convert (a * b + c) = gtype.convert
      ((a / C * (b % C) + a % C * (b / C) + c / C) * C + (a % C * (b % C) + c % C)) := by
    refine convert_congr ?_
    rw [hdigits]
    exact Int.modEq_iff_dvd.mpr ⟨-(a / C * (b / C)), by ring⟩
  rw [hwhole, combine, wrapped_eq, wrapped_eq, ← hC]
  exact convert_congr (((convert_modEq gtype _).trans hsum).add
    ((convert_modEq gtype lo).trans hlo))

theorem inRange_low_sum (hx : 0 ≤ x ∧ x < 2 ^ (gtype.width / 2))
    (hy : 0 ≤ y ∧ y < 2 ^ (gtype.width / 2)) (hz : 0 ≤ z ∧ z < 2 ^ (gtype.width / 2)) :
    gtype.ugtype.InRange (x * y + z) := by
  have hminimum : gtype.ugtype.minimum = 0 := by cases gtype <;> rfl
  have hmaximum : gtype.ugtype.maximum = 2 ^ gtype.width - 1 := by cases gtype <;> rfl
  obtain ⟨hnonneg, hlt⟩ := low_product_add_lt hx hy hz
  rw [base_mul_base] at hlt
  rw [IntType.InRange, hminimum, hmaximum]
  exact ⟨hnonneg, Int.le_sub_one_of_lt hlt⟩

theorem u2s_modEq (hx : gtype.ugtype.InRange x) : u2s gtype x ≡ x [ZMOD 2 ^ gtype.width] := by
  rw [u2s, IntType.convert_of_inRange hx]
  exact convert_modEq gtype x

theorem u2s_carry (hx : 0 ≤ x ∧ x < 2 ^ (gtype.width / 2))
    (hy : 0 ≤ y ∧ y < 2 ^ (gtype.width / 2)) (hz : 0 ≤ z ∧ z < 2 ^ (gtype.width / 2)) :
    u2s gtype (suhi gtype gtype.width (x * y + z)) = (x * y + z) / 2 ^ (gtype.width / 2) := by
  rw [suhi, IntType.convert_of_inRange (inRange_low_sum hx hy hz),
    u2s_of_low_digit (carry_add_lt hx hy hz)]

theorem convert_neg_one_of_signed (hsigned : gtype.signed = true) : gtype.convert (-1) = -1 := by
  cases gtype <;> first | decide | cases hsigned

/-- The mixed products take the high half of `c` and the carry of the low words. -/
def middleSum (C a b c : ℤ) : ℤ :=
  a / C * (b % C) + c / C + (a % C * (b / C) + (a % C * (b % C) + c % C) / C)

theorem inRange_mixed (hC : C = 2 ^ (gtype.width / 2)) (ha : gtype.InRange a)
    (hb : gtype.InRange b) (hc : gtype.InRange c) :
    gtype.InRange (a / C * (b % C) + c / C) ∧
      gtype.InRange (a % C * (b / C) + (a % C * (b % C) + c % C) / C) := by
  have hrange := gtype.digitRange
  rw [IntType.inRange_iff_isWord] at ha hb hc
  rw [IntType.inRange_iff_isWord, IntType.inRange_iff_isWord]
  rw [← hC] at ha hb hc hrange ⊢
  have hcarry := carry_add_lt (IsWord.emod hrange a) (IsWord.emod hrange b)
    (IsWord.emod hrange c)
  constructor
  · exact isWord_digit_mul_add_digit hrange (ha.ediv hrange) (IsWord.emod hrange b)
      (hc.ediv hrange)
  · rw [mul_comm (a % C)]
    exact isWord_digit_mul_add hrange (hb.ediv hrange) (IsWord.emod hrange a) hcarry

theorem hadd_middle (form : Form) (hC : C = 2 ^ (gtype.width / 2)) (ha : gtype.InRange a)
    (hb : gtype.InRange b) (hc : gtype.InRange c) :
    hadd form gtype (wrapped form gtype (a / C * (b % C) + c / C))
        (wrapped form gtype (a % C * (b / C) + (a % C * (b % C) + c % C) / C)) =
      some (middleSum C a b c / 2) := by
  obtain ⟨hahbl, halbh⟩ := inRange_mixed hC ha hb hc
  rw [wrapped_of_inRange form hahbl, wrapped_of_inRange form halbh,
    hadd_of_inRange form hahbl halbh, middleSum]

theorem high_eq (form : Form) (hC : C = 2 ^ (gtype.width / 2)) (ha : gtype.InRange a)
    (hb : gtype.InRange b) (hc : gtype.InRange c) :
    wrapped form gtype (a / C * (b / C) +
        gtype.convert (middleSum C a b c / 2) / 2 ^ (gtype.width / 2 - 1)) =
      (a * b + c) / 2 ^ gtype.width := by
  have hrange := gtype.digitRange
  obtain ⟨hahbl, halbh⟩ := inRange_mixed hC ha hb hc
  have hmiddle : gtype.InRange (middleSum C a b c / 2) := inRange_average hahbl halbh
  rw [IntType.inRange_iff_isWord, ← hC] at ha hb hc
  rw [← hC] at hrange
  have hhigh := ha.high_word_add hrange hb hc
  rw [hC, ← IntType.inRange_iff_isWord, base_mul_base] at hhigh
  rw [IntType.convert_of_inRange hmiddle, Int.ediv_ediv_of_nonneg (by decide),
    two_mul_half_base, ← hC, middleSum, high_word_add_eq hrange.base_pos, hC, base_mul_base,
    wrapped_of_inRange form hhigh]

theorem signed_saturation (hsigned : gtype.signed = true) (x : ℤ) :
    (if (x / 2 ^ gtype.width = 0 ∧ 0 ≤ gtype.convert x) ∨
        (x / 2 ^ gtype.width = -1 ∧ gtype.convert x < 0) then
      gtype.convert x
    else if 0 ≤ x / 2 ^ gtype.width then gtype.maximum else gtype.minimum) =
      clamp gtype x := by
  unfold clamp
  cases gtype <;> try exact absurd hsigned (by decide)
  all_goals
    norm_num [IntType.minimum, IntType.maximum, IntType.convert, IntType.width, IntType.signed,
      Int.bmod_def]
    split_ifs <;> omega

theorem unsigned_saturation (hunsigned : gtype.signed ≠ true) (x : ℤ) (hx : 0 ≤ x) :
    (if x / 2 ^ gtype.width = 0 then gtype.convert x else gtype.maximum) = clamp gtype x := by
  unfold clamp
  cases gtype <;> try exact absurd rfl hunsigned
  all_goals
    norm_num [IntType.minimum, IntType.maximum, IntType.convert, IntType.width, IntType.signed]
    split_ifs <;> omega

end Words

/-- A product and a sum are clamped to the range. -/
theorem madSat_exact (form : Form) (gtype : IntType) (a b c : ℤ) (ha : gtype.InRange a)
    (hb : gtype.InRange b) (hc : gtype.InRange c) :
    madSat form gtype a b c = some (clamp gtype (a * b + c)) := by
  have hal := IsWord.emod gtype.digitRange a
  have hbl := IsWord.emod gtype.digitRange b
  have hcl := IsWord.emod gtype.digitRange c
  obtain ⟨hahbh, hahbl, halbh⟩ := inRange_products ha hb
  have halbl := inRange_low_product hal hbl
  unfold madSat
  simp only [shi, uhi, slo, ulo, lo_of_inRange ha, lo_of_inRange hb, lo_of_inRange hc,
    IntType.convert_of_inRange ha, IntType.convert_of_inRange hb, IntType.convert_of_inRange hc,
    IntType.convert_of_inRange (inRange_high_digit ha),
    IntType.convert_of_inRange (inRange_high_digit hb),
    IntType.convert_of_inRange (inRange_high_digit hc),
    IntType.convert_of_inRange (inRange_low_digit hal),
    IntType.convert_of_inRange (inRange_low_digit hbl),
    IntType.convert_of_inRange (inRange_low_digit hcl),
    wrapped_of_inRange form hahbh, wrapped_of_inRange form hahbl, wrapped_of_inRange form halbh,
    Option.bind_eq_bind, Option.bind_some, convert_zero]
  have hsum := inRange_low_sum hal hbl hcl
  by_cases hsigned : gtype.signed = true
  · rw [if_pos (convert_zero gtype ▸ (signed_iff gtype).mpr hsigned), minConstant_eq hsigned,
      maxConstant_eq form hsigned, s2u_of_low_digit hal, s2u_of_low_digit hbl,
      s2u_of_low_digit hcl, wrapped_of_inRange form halbl, wrapped_of_inRange form hsum,
      u2s_carry hal hbl hcl, hadd_middle form rfl ha hb hc, Option.bind_some,
      combine_eq form rfl (u2s_modEq hsum), shi1, high_eq form rfl ha hb hc,
      convert_neg_one_of_signed hsigned]
    exact congrArg some (signed_saturation hsigned (a * b + c))
  · have hunsigned : gtype.ugtype = gtype :=
      gtype.ugtype_eq_self_or_convert_lt.resolve_right (mt (signed_iff gtype).mp hsigned)
    have hminimum := minimum_of_unsigned hsigned
    have hnonneg : 0 ≤ a * b + c :=
      add_nonneg (mul_nonneg (hminimum ▸ ha.1) (hminimum ▸ hb.1)) (hminimum ▸ hc.1)
    rw [hunsigned] at halbl hsum
    rw [if_neg (convert_zero gtype ▸ mt (signed_iff gtype).mp hsigned),
      wrapped_of_inRange form halbl,
      IntType.convert_of_inRange (IntType.inRange_operand form hsum),
      IntType.convert_of_inRange hsum, hadd_middle form rfl ha hb hc, Option.bind_some,
      combine_eq form rfl rfl, uhi1, high_eq form rfl ha hb hc,
      convert_neg_one hsigned]
    exact congrArg some (unsigned_saturation hsigned (a * b + c) hnonneg)

theorem madSat_exact_least_int :
    IntType.int.InRange (-2 ^ 31) ∧
      madSat .scalar .int (-2 ^ 31) (-2 ^ 31) (-2 ^ 31) =
        some (clamp .int (-2 ^ 31 * -2 ^ 31 + -2 ^ 31)) :=
  ⟨by decide, madSat_exact .scalar .int (-2 ^ 31) (-2 ^ 31) (-2 ^ 31) (by decide) (by decide)
    (by decide)⟩

end Pocl.MultiplyAdd
