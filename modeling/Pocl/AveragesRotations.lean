import Pocl.BitCounts
import Pocl.SignedBitwise
import Mathlib.Data.Rat.Floor

/-!
# Averages and rotations

`hadd` and `rhadd` add the halves of two numbers and a bit for what the halves lose.  `rotate`
shifts the pattern to both sides.  The counts of the two shifts are those of a number and of
its negation, and they add up to the width unless both are zero.
-/

namespace Pocl.AveragesRotations

open BitCounts BitPatterns MulHi SignedBitwise

section Source

variable (form : Form) (gtype : IntType)

/-- The library has `rhadd` only when it is built with an old compiler. -/
def rhadd (a b : ℤ) : Option ℤ := do
  let halves ← (form.operand gtype).arithmetic (a / 2 ^ 1 + b / 2 ^ 1)
  let sum ← (form.operand gtype).arithmetic
    (halves + Int.land (Int.lor a b) (gtype.convert 1))
  return gtype.convert sum

/-- A pattern of the type as an operand. -/
def promoted (x : BitVec gtype.width) : BitVec (form.operand gtype).width :=
  if gtype.signed then x.signExtend _ else x.setWidth _

/-- An operand is stored in one member of the union, and the other member has its pattern. -/
def reinterpreted (x : BitVec (form.operand gtype).width) : BitVec gtype.width :=
  x.setWidth gtype.width

/-- The negation of the count wraps. -/
def rotate (a b : BitVec gtype.width) : BitVec gtype.width :=
  let countMask := BitVec.ofNat gtype.width (gtype.width - 1)
  let left := (promoted form gtype a <<<
    (promoted form gtype b &&& promoted form gtype countMask).toNat).setWidth gtype.width
  let count := reinterpreted form gtype
    (-promoted form gtype b &&& promoted form gtype countMask)
  -- the unsigned pattern is extended with zeros
  let right := reinterpreted form gtype
    (BitVec.setWidth (form.operand gtype).width a >>> count.toNat)
  (promoted form gtype left ||| promoted form gtype right).setWidth gtype.width

end Source

/-- The intermediate results of `hadd`. -/
def haddIntermediates (a b : ℤ) : List ℤ :=
  [a / 2 ^ 1, b / 2 ^ 1, a / 2 ^ 1 + b / 2 ^ 1, Int.land a b, Int.land (Int.land a b) 1,
    a / 2 ^ 1 + b / 2 ^ 1 + Int.land (Int.land a b) 1]

def rhaddIntermediates (a b : ℤ) : List ℤ :=
  [a / 2 ^ 1, b / 2 ^ 1, a / 2 ^ 1 + b / 2 ^ 1, Int.lor a b, Int.land (Int.lor a b) 1,
    a / 2 ^ 1 + b / 2 ^ 1 + Int.land (Int.lor a b) 1]

section Values

variable {gtype : IntType} {a b x y : ℤ}

theorem value_inRange (gtype : IntType) (pattern : BitVec gtype.width) :
    gtype.InRange (value gtype pattern) := by
  unfold value IntType.InRange IntType.minimum IntType.maximum
  by_cases hsigned : gtype.signed = true
  · rw [if_pos hsigned, if_pos hsigned, if_pos hsigned]
    exact ⟨pattern.le_toInt, Int.le_sub_one_of_lt pattern.toInt_lt⟩
  · rw [if_neg hsigned, if_neg hsigned, if_neg hsigned]
    refine ⟨Int.natCast_nonneg _, Int.le_sub_one_of_lt ?_⟩
    exact_mod_cast pattern.isLt

theorem signed_iff_inRange (hsigned : gtype.signed = true) :
    Signed (gtype.width - 1) x ↔ gtype.InRange x := by
  rw [Signed, IntType.InRange, IntType.minimum, IntType.maximum, if_pos hsigned, if_pos hsigned,
    Int.le_sub_one_iff]

theorem unsigned_iff_inRange (hsigned : gtype.signed ≠ true) :
    Unsigned gtype.width x ↔ gtype.InRange x := by
  rw [Unsigned, IntType.InRange, IntType.minimum, IntType.maximum, if_neg hsigned,
    if_neg hsigned, Int.le_sub_one_iff]

theorem inRange_land (hx : gtype.InRange x) (hy : gtype.InRange y) :
    gtype.InRange (Int.land x y) := by
  by_cases hsigned : gtype.signed = true
  · rw [← signed_iff_inRange hsigned] at hx hy ⊢
    exact signed_land hx hy
  · rw [← unsigned_iff_inRange hsigned] at hx hy ⊢
    exact unsigned_land hx hy

theorem inRange_lor (hx : gtype.InRange x) (hy : gtype.InRange y) :
    gtype.InRange (Int.lor x y) := by
  by_cases hsigned : gtype.signed = true
  · rw [← signed_iff_inRange hsigned] at hx hy ⊢
    exact signed_lor hx hy
  · rw [← unsigned_iff_inRange hsigned] at hx hy ⊢
    exact unsigned_lor hx hy

theorem inRange_half (hx : gtype.InRange x) : gtype.InRange (x / 2 ^ 1) := by
  rw [pow_one]
  rw [IntType.inRange_iff_isWord] at hx ⊢
  exact hx.half gtype.digitRange

theorem inRange_halves (hx : gtype.InRange x) (hy : gtype.InRange y) :
    gtype.InRange (x / 2 ^ 1 + y / 2 ^ 1) := by
  rw [pow_one]
  rw [IntType.inRange_iff_isWord] at hx hy ⊢
  exact hx.half_add_half gtype.digitRange hy

theorem inRange_average (hx : gtype.InRange x) (hy : gtype.InRange y) :
    gtype.InRange ((x + y) / 2) := by
  rw [IntType.inRange_iff_isWord] at hx hy ⊢
  exact hx.half_add hy

theorem inRange_upper_average (hx : gtype.InRange x) (hy : gtype.InRange y) :
    gtype.InRange ((x + y + 1) / 2) := by
  obtain ⟨hxmin, hxmax⟩ := hx
  obtain ⟨hymin, hymax⟩ := hy
  constructor <;> omega

theorem inRange_one (gtype : IntType) : gtype.InRange 1 := by
  cases gtype <;> decide

theorem inRange_bit (gtype : IntType) (x : ℤ) : gtype.InRange (Int.land x 1) := by
  have hbit := Int.emod_two_eq_zero_or_one x
  rw [HalfWidthProducts.land_one]
  cases gtype <;> rcases hbit with hzero | hone <;> simp only [*] <;> decide

theorem rhadd_of_inRange (form : Form) (ha : gtype.InRange a) (hb : gtype.InRange b) :
    rhadd form gtype a b = some ((a + b + 1) / 2) := by
  have hsum := inRange_upper_average ha hb
  have hhalves := inRange_halves ha hb
  rw [rhadd, IntType.convert_of_inRange (inRange_one gtype),
    IntType.arithmetic_of_inRange (IntType.inRange_operand form hhalves), Option.bind_eq_bind,
    Option.bind_some, pow_one, upper_halving_add,
    IntType.arithmetic_of_inRange (IntType.inRange_operand form hsum), Option.bind_some,
    IntType.convert_of_inRange hsum]
  rfl

theorem inRange_haddIntermediates (ha : gtype.InRange a) (hb : gtype.InRange b) :
    ∀ x ∈ haddIntermediates a b, gtype.InRange x := by
  have hsum : gtype.InRange (a / 2 ^ 1 + b / 2 ^ 1 + Int.land (Int.land a b) 1) := by
    rw [pow_one, HalfWidthProducts.halving_add]
    exact inRange_average ha hb
  simp only [haddIntermediates, List.forall_mem_cons, List.not_mem_nil, false_implies,
    implies_true, and_true]
  exact ⟨inRange_half ha, inRange_half hb, inRange_halves ha hb, inRange_land ha hb,
    inRange_bit gtype _, hsum⟩

theorem inRange_rhaddIntermediates (ha : gtype.InRange a) (hb : gtype.InRange b) :
    ∀ x ∈ rhaddIntermediates a b, gtype.InRange x := by
  have hsum : gtype.InRange (a / 2 ^ 1 + b / 2 ^ 1 + Int.land (Int.lor a b) 1) := by
    rw [pow_one, upper_halving_add]
    exact inRange_upper_average ha hb
  simp only [rhaddIntermediates, List.forall_mem_cons, List.not_mem_nil, false_implies,
    implies_true, and_true]
  exact ⟨inRange_half ha, inRange_half hb, inRange_halves ha hb, inRange_lor ha hb,
    inRange_bit gtype _, hsum⟩

theorem floor_half (x : ℤ) : ⌊((x : ℤ) : ℚ) / 2⌋ = x / 2 :=
  Rat.floor_intCast_div_natCast x 2

theorem ceil_half (x : ℤ) : ⌈((x : ℤ) : ℚ) / 2⌉ = (x + 1) / 2 := by
  have hceil : ⌈((x : ℤ) : ℚ) / 2⌉ = -(-x / 2) := Rat.ceil_intCast_div_natCast x 2
  rw [hceil]
  omega

end Values

section Counts

variable {form : Form} {gtype : IntType} {a b c : BitVec gtype.width}

theorem width_le_operand (form : Form) (gtype : IntType) :
    gtype.width ≤ (form.operand gtype).width := by
  cases form <;> cases gtype <;> decide

theorem exists_width_eq_two_pow (gtype : IntType) :
    ∃ exponent ≤ gtype.width, gtype.width = 2 ^ exponent := by
  cases gtype with
  | char => exact ⟨3, by decide, rfl⟩
  | uchar => exact ⟨3, by decide, rfl⟩
  | short => exact ⟨4, by decide, rfl⟩
  | ushort => exact ⟨4, by decide, rfl⟩
  | int => exact ⟨5, by decide, rfl⟩
  | uint => exact ⟨5, by decide, rfl⟩
  | long => exact ⟨6, by decide, rfl⟩
  | ulong => exact ⟨6, by decide, rfl⟩

theorem width_dvd_two_pow (gtype : IntType) {size : ℕ} (hsize : gtype.width ≤ size) :
    gtype.width ∣ 2 ^ size := by
  obtain ⟨exponent, hexponent, hwidth⟩ := exists_width_eq_two_pow gtype
  rw [hwidth]
  exact Nat.pow_dvd_pow 2 (hexponent.trans hsize)

theorem width_pos (gtype : IntType) : 0 < gtype.width := by
  cases gtype <;> decide

theorem promoted_setWidth (form : Form) (gtype : IntType) (x : BitVec gtype.width) :
    (promoted form gtype x).setWidth gtype.width = x := by
  unfold promoted
  split
  · exact setWidth_signExtend (width_le_operand form gtype) x
  · exact setWidth_setWidth_self (width_le_operand form gtype) x

theorem promoted_toNat_mod (form : Form) (gtype : IntType) (x : BitVec gtype.width) :
    (promoted form gtype x).toNat % gtype.width = x.toNat % gtype.width := by
  have hlow := congrArg BitVec.toNat (promoted_setWidth form gtype x)
  rw [BitVec.toNat_setWidth] at hlow
  rw [← hlow, Nat.mod_mod_of_dvd _ (width_dvd_two_pow gtype le_rfl)]

theorem and_countMask_toNat (form : Form) (gtype : IntType)
    (word : BitVec (form.operand gtype).width) :
    (word &&& promoted form gtype (BitVec.ofNat gtype.width (gtype.width - 1))).toNat =
      word.toNat % gtype.width := by
  have hmask : (promoted form gtype (BitVec.ofNat gtype.width (gtype.width - 1))).toNat =
      gtype.width - 1 := by
    cases form <;> cases gtype <;> decide
  obtain ⟨exponent, -, hwidth⟩ := exists_width_eq_two_pow gtype
  rw [BitVec.toNat_and, hmask, hwidth, Nat.and_two_pow_sub_one_eq_mod]

theorem value_emod_width (gtype : IntType) (b : BitVec gtype.width) :
    (value gtype b % gtype.width).toNat = b.toNat % gtype.width := by
  have hdvd : (gtype.width : ℤ) ∣ ((2 ^ gtype.width : ℕ) : ℤ) :=
    Int.natCast_dvd_natCast.mpr (width_dvd_two_pow gtype le_rfl)
  have hvalue : value gtype b % gtype.width = (b.toNat : ℤ) % gtype.width := by
    unfold value
    split
    · rw [BitVec.toInt_eq_toNat_bmod, ← Int.emod_emod_of_dvd _ hdvd, Int.bmod_emod,
        Int.emod_emod_of_dvd _ hdvd]
    · rfl
  rw [hvalue, ← Int.natCast_mod, Int.toNat_natCast]

theorem rotate_eq_rotateLeft (form : Form) (gtype : IntType) (a b : BitVec gtype.width) :
    rotate form gtype a b = a.rotateLeft b.toNat := by
  have hle := width_le_operand form gtype
  have hpos := width_pos gtype
  have hleftCount := and_countMask_toNat form gtype (promoted form gtype b)
  have hrightMask := and_countMask_toNat form gtype (-promoted form gtype b)
  have hlt := Nat.mod_lt b.toNat hpos
  have hltNeg := Nat.mod_lt (-promoted form gtype b).toNat hpos
  -- the count of the right shift is stored in the narrow type
  have hrightCount : (reinterpreted form gtype (-promoted form gtype b &&&
      promoted form gtype (BitVec.ofNat gtype.width (gtype.width - 1)))).toNat =
      (-promoted form gtype b).toNat % gtype.width := by
    rw [reinterpreted, BitVec.toNat_setWidth, hrightMask]
    exact Nat.mod_eq_of_lt (hltNeg.trans Nat.lt_two_pow_self)
  have hsum : (b.toNat % gtype.width + (-promoted form gtype b).toNat % gtype.width) %
      gtype.width = 0 := by
    have hdvd := width_dvd_two_pow gtype hle
    have hpromoted := (promoted form gtype b).isLt
    have hfull : (promoted form gtype b).toNat +
        (2 ^ (form.operand gtype).width - (promoted form gtype b).toNat) =
        2 ^ (form.operand gtype).width := by omega
    rw [← promoted_toNat_mod form gtype b, BitVec.toNat_neg, Nat.mod_mod_of_dvd _ hdvd,
      ← Nat.add_mod, hfull]
    exact Nat.mod_eq_zero_of_dvd hdvd
  have hleft : (promoted form gtype a <<< (b.toNat % gtype.width)).setWidth gtype.width =
      a <<< (b.toNat % gtype.width) := by
    rw [BitVec.setWidth_shiftLeft_of_le hle, promoted_setWidth]
  have hright : reinterpreted form gtype (BitVec.setWidth (form.operand gtype).width a >>>
      ((-promoted form gtype b).toNat % gtype.width)) =
      a >>> ((-promoted form gtype b).toNat % gtype.width) := by
    rw [← BitVec.setWidth_ushiftRight hle]
    exact setWidth_setWidth_self hle _
  rw [promoted_toNat_mod] at hleftCount
  unfold rotate
  dsimp only
  rw [hleftCount, hrightCount, hleft, hright, BitVec.setWidth_or, promoted_setWidth,
    promoted_setWidth, shift_or_shift a hlt hltNeg hsum, BitVec.rotateLeft_mod_eq_rotateLeft]

/-- Counts add up, since the width divides the size of the type. -/
theorem rotate_rotate (form : Form) (gtype : IntType) (a b c : BitVec gtype.width) :
    rotate form gtype (rotate form gtype a b) c = rotate form gtype a (b + c) := by
  have hdvd := width_dvd_two_pow gtype (le_refl gtype.width)
  rw [rotate_eq_rotateLeft, rotate_eq_rotateLeft, rotate_eq_rotateLeft, rotateLeft_rotateLeft]
  refine rotateLeft_congr a ?_
  rw [BitVec.toNat_add, Nat.mod_mod_of_dvd _ hdvd]

theorem rotate_neg (form : Form) (gtype : IntType) (a b : BitVec gtype.width) :
    rotate form gtype (rotate form gtype a b) (-b) = a := by
  rw [rotate_rotate, rotate_eq_rotateLeft]
  refine rotateLeft_of_mod_eq_zero a ?_
  rw [BitVec.add_right_neg]
  exact Nat.zero_mod _

end Counts

/-- The averages are exact without leaving the type, and rotations add up. -/
theorem averages_rotations (form : Form) (gtype : IntType) (a b c : BitVec gtype.width) :
    hadd form gtype (value gtype a) (value gtype b) =
        some ⌊((value gtype a + value gtype b : ℤ) : ℚ) / 2⌋ ∧
      rhadd form gtype (value gtype a) (value gtype b) =
        some ⌈((value gtype a + value gtype b : ℤ) : ℚ) / 2⌉ ∧
      (∀ x ∈ haddIntermediates (value gtype a) (value gtype b), gtype.InRange x) ∧
      (∀ x ∈ rhaddIntermediates (value gtype a) (value gtype b), gtype.InRange x) ∧
      rotate form gtype a b = a.rotateLeft (value gtype b % gtype.width).toNat ∧
      rotate form gtype (rotate form gtype a b) (-b) = a ∧
      rotate form gtype (rotate form gtype a b) c = rotate form gtype a (b + c) := by
  have ha := value_inRange gtype a
  have hb := value_inRange gtype b
  refine ⟨?_, ?_, inRange_haddIntermediates ha hb, inRange_rhaddIntermediates ha hb, ?_,
    rotate_neg form gtype a b, rotate_rotate form gtype a b c⟩
  · rw [hadd_of_inRange form ha hb, floor_half]
  · rw [rhadd_of_inRange form ha hb, ceil_half]
  · rw [value_emod_width, rotate_eq_rotateLeft, BitVec.rotateLeft_mod_eq_rotateLeft]

end Pocl.AveragesRotations
