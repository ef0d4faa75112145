import Pocl.BitPatterns
import Mathlib.Tactic

/-!
# Half precision numbers in memory

`vstore_half` takes the fields of a float apart and puts those of a half together, and
`vload_half` goes the other way.  The stored exponent stays in the lowest bits, the constant
for infinity is not infinity, and numbers without a leading one are lost on the way.
-/

namespace Pocl.HalfPrecision

open BitPatterns

section Floats

variable (data : BitVec 32)

def exponentField : ℕ := data.toNat / 2 ^ 23 % 2 ^ 8

def mantissaField : ℕ := data.toNat % 2 ^ 23

def IsNaN : Prop := exponentField data = 255 ∧ mantissaField data ≠ 0

instance : Decidable (IsNaN data) := inferInstanceAs (Decidable (_ ∧ _))

def IsInfinite : Prop := exponentField data = 255 ∧ mantissaField data = 0

instance : Decidable (IsInfinite data) := inferInstanceAs (Decidable (_ ∧ _))

/-- The absolute value in multiples of `2 ^ -149`.  Infinity follows the finite numbers. -/
def magnitude : ℕ :=
  if exponentField data = 0 then mantissaField data
  else (2 ^ 23 + mantissaField data) * 2 ^ (exponentField data - 1)

/-- `fabs(data) >= bound` -/
def fabsGe (bound : ℕ) : Bool := !decide (IsNaN data) && decide (bound ≤ magnitude data)

/-- `fabs(data) < bound` -/
def fabsLt (bound : ℕ) : Bool := !decide (IsNaN data) && decide (magnitude data < bound)

/-- `data > 0.0f` -/
def isPositive : Bool := !decide (IsNaN data) && !data.msb && decide (0 < magnitude data)

end Floats

section Source

/-- `0x1.ffdp15f` -/
def halfMaxplus : ℕ := 0x1ffd * 2 ^ (149 + 15 - 12)

/-- `0x1.0p-14f` -/
def halfMin : ℕ := 2 ^ (149 - 14)

def halfZero : BitVec 16 := 0x0000

def halfInf : BitVec 16 := 0x4000

def halfSign : BitVec 16 := 0x8000

/-- `(short)x` -/
def toShort (x : BitVec 32) : BitVec 16 := x.setWidth 16

/-- A `short` operand is promoted. -/
def ofShort (x : BitVec 16) : BitVec 32 := x.signExtend 32

/-- The value that `vstore_half` writes. -/
def halfOfFloat (data : BitVec 32) : BitVec 16 :=
  let fval := data
  -- the mask of the sign is unsigned
  let fsign := (fval &&& 0x80000000) >>> 31
  let fexp := (fval &&& 0x7f800000).sshiftRight 23
  let fmant := fval &&& 0x007fffff
  let isdenorm := fexp == 0
  let isinfnan := fexp == 255
  let fexp := fexp - 127
  let hsign := toShort (ofShort (toShort fsign) <<< 15)
  let hexp :=
    if isdenorm then 0
    else if isinfnan then 31
    else toShort (ofShort (toShort fexp) + 15)
  let hmant := toShort (fmant.sshiftRight 13)
  if fabsGe data halfMaxplus then
    if isPositive data then halfInf else halfInf ||| halfSign
  else if fabsLt data halfMin then
    if data.msb = false then halfZero else halfZero ||| halfSign
  else
    hsign ||| hexp ||| hmant

/-- The value that `vload_half` returns. -/
def floatOfHalf (hval : BitVec 16) : BitVec 32 :=
  let hsign := toShort ((ofShort hval &&& ofShort 0x8000).sshiftRight 15)
  let hexp := toShort ((ofShort hval &&& ofShort 0x7c00).sshiftRight 10)
  let hmant := toShort (ofShort hval &&& ofShort 0x03ff)
  let isdenorm := hexp == 0
  let isinfnan := hexp == 31
  let hexp := toShort (ofShort hexp - 15)
  let fsign := ofShort hsign <<< 31
  let fexp := if isdenorm then 0 else if isinfnan then 255 else ofShort hexp + 127
  let fexp := fexp <<< 23
  let fmant := ofShort hmant <<< 13
  fsign ||| fexp ||| fmant

abbrev Memory := ℕ → BitVec 16

/-- A pointer is the index of a half. -/
def vstoreHalf (data : BitVec 32) (offset p : ℕ) (memory : Memory) : Memory :=
  Function.update memory (p + offset) (halfOfFloat data)

def vloadHalf (offset p : ℕ) (memory : Memory) : BitVec 32 :=
  floatOfHalf (memory (p + offset))

end Source

section Halves

variable (half : BitVec 16)

/-- The absolute value of a finite half in multiples of `2 ^ -24`. -/
def halfMagnitude : ℕ :=
  if half.toNat / 2 ^ 10 % 2 ^ 5 = 0 then half.toNat % 2 ^ 10
  else (2 ^ 10 + half.toNat % 2 ^ 10) * 2 ^ (half.toNat / 2 ^ 10 % 2 ^ 5 - 1)

end Halves

section Fields

variable {data : BitVec 32} {half : BitVec 16}

theorem exponentField_lt (data : BitVec 32) : exponentField data < 256 :=
  Nat.mod_lt _ (by decide)

theorem exponent_pattern (data : BitVec 32) :
    (data &&& 0x7f800000).sshiftRight 23 = BitVec.ofNat 32 (exponentField data) := by
  have hmsb : (data &&& 0x7f800000).msb = false := by
    rw [BitVec.msb_and]
    exact Bool.and_false _
  have hlt := (exponentField_lt data).trans (by decide : 256 < 2 ^ 32)
  refine BitVec.eq_of_toNat_eq ?_
  rw [BitVec.sshiftRight_eq_of_msb_false hmsb, BitVec.toNat_ushiftRight, BitVec.toNat_and,
    Nat.shiftRight_and_distrib, BitVec.toNat_ofNat, Nat.mod_eq_of_lt hlt, exponentField,
    ← Nat.shiftRight_eq_div_pow]
  exact Nat.and_two_pow_sub_one_eq_mod _ 8

theorem exponentField_eq_zero (hmask : data &&& 0x7f800000 = 0) : exponentField data = 0 := by
  have hpattern := exponent_pattern data
  rw [hmask] at hpattern
  have hnat := congrArg BitVec.toNat hpattern
  rw [BitVec.toNat_ofNat, Nat.mod_eq_of_lt ((exponentField_lt data).trans (by decide))] at hnat
  exact hnat.symm

theorem mantissa_pattern_lt (data : BitVec 32) :
    (toShort ((data &&& 0x007fffff).sshiftRight 13)).toNat < 2 ^ 10 := by
  have hlt := and_low_lt (by decide : (0x007fffff : BitVec 32).toNat = 2 ^ 23 - 1) data
  have hmsb : (data &&& 0x007fffff).msb = false := by
    rw [BitVec.msb_and]
    exact Bool.and_false _
  rw [toShort, BitVec.toNat_setWidth, BitVec.sshiftRight_eq_of_msb_false hmsb,
    BitVec.toNat_ushiftRight, Nat.shiftRight_eq_div_pow]
  refine (Nat.mod_le _ _).trans_lt ?_
  exact Nat.div_lt_of_lt_mul hlt

theorem float_sign_pattern (data : BitVec 32) :
    data &&& 0x80000000 = 0 ∨ data &&& 0x80000000 = 0x80000000 := by
  have htwoPow : BitVec.twoPow 32 31 = 0x80000000 := by decide
  exact htwoPow ▸ and_twoPow_cases data 31

theorem half_sign_pattern (half : BitVec 16) :
    half &&& 0x8000 = 0 ∨ half &&& 0x8000 = 0x8000 := by
  have htwoPow : BitVec.twoPow 16 15 = 0x8000 := by decide
  exact htwoPow ▸ and_twoPow_cases half 15

/-- A finite number between the bounds has an exponent that a half has. -/
theorem exponentField_bounds (hmin : halfMin ≤ magnitude data)
    (hmax : magnitude data < halfMaxplus) :
    113 ≤ exponentField data ∧ exponentField data ≤ 142 := by
  have hmantissa : mantissaField data < 2 ^ 23 := Nat.mod_lt _ (by decide)
  unfold magnitude at hmin hmax
  split at hmin
  · have hsmall : 2 ^ 23 ≤ halfMin := by decide
    omega
  · rename_i hne
    rw [if_neg hne] at hmax
    have hlow : 2 ^ (exponentField data - 1) * 2 ^ 23 ≤
        (2 ^ 23 + mantissaField data) * 2 ^ (exponentField data - 1) := by
      rw [mul_comm]
      exact Nat.mul_le_mul_right _ (Nat.le_add_right _ _)
    have hhigh : (2 ^ 23 + mantissaField data) * 2 ^ (exponentField data - 1) <
        2 ^ 24 * 2 ^ (exponentField data - 1) :=
      Nat.mul_lt_mul_of_pos_right (by omega) (Nat.two_pow_pos _)
    rw [← pow_add] at hlow hhigh
    have hmaxplus : halfMaxplus ≤ 2 ^ 165 := by decide
    have hleast : 135 < 24 + (exponentField data - 1) :=
      (Nat.pow_lt_pow_iff_right Nat.one_lt_two).mp (hmin.trans_lt hhigh)
    have hgreatest : exponentField data - 1 + 23 < 165 :=
      (Nat.pow_lt_pow_iff_right Nat.one_lt_two).mp ((hlow.trans_lt hmax).trans_le hmaxplus)
    omega

end Fields

section Stores

variable {data : BitVec 32} {half : BitVec 16}

/-- The exponent of a stored half stays below the bits of its field. -/
theorem packed_exponent (he : exponentField data = 255 ∨
    113 ≤ exponentField data ∧ exponentField data ≤ 142) :
    (if BitVec.ofNat 32 (exponentField data) == 0 then (0 : BitVec 16)
      else if BitVec.ofNat 32 (exponentField data) == 255 then 31
      else toShort (ofShort (toShort (BitVec.ofNat 32 (exponentField data) - 127)) + 15)) &&&
        0x7c00 = 0 := by
  have hfinite : ∀ e : Fin 30, (if BitVec.ofNat 32 (113 + e.val) == 0 then (0 : BitVec 16)
      else if BitVec.ofNat 32 (113 + e.val) == 255 then 31
      else toShort (ofShort (toShort (BitVec.ofNat 32 (113 + e.val) - 127)) + 15)) &&&
        0x7c00 = 0 := by
    decide
  obtain he | ⟨hleast, hgreatest⟩ := he
  · rw [he]
    decide
  · obtain ⟨e, he⟩ := Nat.exists_eq_add_of_le hleast
    rw [he]
    exact hfinite ⟨e, by omega⟩

/-- What `vstore_half` writes. -/
theorem halfOfFloat_cases (data : BitVec 32) :
    (¬ IsNaN data ∧ halfMaxplus ≤ magnitude data ∧
        (halfOfFloat data = 0x4000 ∨ halfOfFloat data = 0xc000)) ∨
      (¬ IsNaN data ∧ magnitude data < halfMin ∧
        halfOfFloat data = if data.msb = false then 0x0000 else 0x8000) ∨
      (exponentField data ≠ 0 ∧ halfOfFloat data &&& 0x7c00 = 0) := by
  unfold halfOfFloat
  dsimp only
  rw [exponent_pattern]
  by_cases hge : fabsGe data halfMaxplus = true
  · rw [if_pos hge]
    rw [fabsGe, Bool.and_eq_true, Bool.not_eq_true', decide_eq_false_iff_not,
      decide_eq_true_iff] at hge
    refine Or.inl ⟨hge.1, hge.2, ?_⟩
    split
    · exact Or.inl rfl
    · exact Or.inr rfl
  · rw [if_neg hge]
    by_cases hlt : fabsLt data halfMin = true
    · rw [if_pos hlt]
      rw [fabsLt, Bool.and_eq_true, Bool.not_eq_true', decide_eq_false_iff_not,
        decide_eq_true_iff] at hlt
      exact Or.inr (Or.inl ⟨hlt.1, hlt.2, rfl⟩)
    · rw [if_neg hlt]
      have he : exponentField data = 255 ∨
          113 ≤ exponentField data ∧ exponentField data ≤ 142 := by
        by_cases hnan : IsNaN data
        · exact Or.inl hnan.1
        · rw [fabsGe, decide_eq_false hnan, Bool.not_false, Bool.true_and,
            decide_eq_true_iff, not_le] at hge
          rw [fabsLt, decide_eq_false hnan, Bool.not_false, Bool.true_and,
            decide_eq_true_iff, not_lt] at hlt
          exact Or.inr (exponentField_bounds hlt hge)
      refine Or.inr (Or.inr ⟨by omega, ?_⟩)
      have hsign : toShort (ofShort (toShort ((data &&& 0x80000000) >>> 31)) <<< 15) &&&
          0x7c00 = 0 := by
        rcases float_sign_pattern data with hzero | hone
        · rw [hzero]
          decide
        · rw [hone]
          decide
      have hmant := and_eq_zero_of_lt (mantissa_pattern_lt data)
        (by decide : (0x7c00 : BitVec 16).toNat = 31 <<< 10)
      rw [BitVec.and_or_distrib_right, BitVec.and_or_distrib_right, hsign,
        packed_exponent he, hmant]
      rfl

theorem ofShort_and (x y : BitVec 16) : ofShort x &&& ofShort y = ofShort (x &&& y) :=
  BitVec.signExtend_and.symm

theorem toShort_ofShort (x : BitVec 16) : toShort (ofShort x) = x :=
  setWidth_signExtend (by decide) x

theorem loaded_mantissa (half : BitVec 16) :
    ofShort (half &&& 0x03ff) <<< 13 &&& 0x7f800000 = 0 := by
  have hlt := and_low_lt (by decide : (0x03ff : BitVec 16).toNat = 2 ^ 10 - 1) half
  have hmsb : (half &&& 0x03ff).msb = false := by
    rw [BitVec.msb_and]
    exact Bool.and_false _
  have hshift : (ofShort (half &&& 0x03ff) <<< 13).toNat < 2 ^ 23 := by
    rw [ofShort, BitVec.signExtend_eq_setWidth_of_msb_false hmsb, BitVec.toNat_shiftLeft,
      BitVec.toNat_setWidth, Nat.shiftLeft_eq]
    omega
  exact and_eq_zero_of_lt hshift (by decide : (0x7f800000 : BitVec 32).toNat = 255 <<< 23)

theorem exponentField_floatOfHalf (hhalf : half &&& 0x7c00 = 0) :
    exponentField (floatOfHalf half) = 0 := by
  have hsign : ofShort (toShort ((ofShort (half &&& 0x8000)).sshiftRight 15)) <<< 31 &&&
      0x7f800000 = 0 := by
    rcases half_sign_pattern half with hzero | hone
    · rw [hzero]
      decide
    · rw [hone]
      decide
  refine exponentField_eq_zero ?_
  unfold floatOfHalf
  dsimp only
  rw [ofShort_and, ofShort_and, ofShort_and, toShort_ofShort, hhalf, BitVec.and_or_distrib_right,
    BitVec.and_or_distrib_right, hsign, loaded_mantissa]
  decide

end Stores

section RoundTrips

/-- What `vload_half` must return after `vstore_half`. -/
def ComesBack (data result : BitVec 32) : Prop :=
  if IsNaN data then IsNaN result else result = data

instance (data result : BitVec 32) : Decidable (ComesBack data result) :=
  inferInstanceAs (Decidable (ite _ _ _))

/-- The infinities and the values of the finite halves. -/
def IsHalf (data : BitVec 32) : Prop :=
  IsInfinite data ∨ exponentField data ≠ 255 ∧
    ∃ half : BitVec 16, half &&& 0x7c00 ≠ 0x7c00 ∧
      halfMagnitude half * 2 ^ (149 - 24) = magnitude data

theorem comesBack_iff (data : BitVec 32) :
    ComesBack data (floatOfHalf (halfOfFloat data)) ↔ data = 0 ∨ data = 0x80000000 := by
  have hzeros (hzero : data = 0 ∨ data = 0x80000000) :
      magnitude data < halfMin ∧ magnitude data < halfMaxplus ∧ exponentField data = 0 := by
    obtain rfl | rfl := hzero <;> decide
  unfold ComesBack
  obtain ⟨hnan, hmax, hhalf⟩ | ⟨hnan, hmin, hhalf⟩ | ⟨he, hhalf⟩ := halfOfFloat_cases data
  · rw [if_neg hnan]
    constructor
    · intro hback
      have htwo : magnitude data < halfMaxplus := by
        rw [← hback]
        obtain hhalf | hhalf := hhalf <;> rw [hhalf] <;> decide
      exact absurd hmax (not_le.mpr htwo)
    · intro hzero
      exact absurd hmax (not_le.mpr (hzeros hzero).2.1)
  · rw [if_neg hnan, hhalf]
    constructor
    · intro hback
      rw [← hback]
      split
      · exact Or.inl (by decide)
      · exact Or.inr (by decide)
    · intro hzero
      obtain rfl | rfl := hzero <;> decide
  · have hresult := exponentField_floatOfHalf hhalf
    constructor
    · intro hback
      split at hback
      · rw [IsNaN, hresult] at hback
        exact absurd hback.1 (by decide)
      · rw [hback] at hresult
        exact absurd hresult he
    · intro hzero
      exact absurd (hzeros hzero).2.2 he

theorem halfOfFloat_floatOfHalf_iff (half : BitVec 16) :
    halfOfFloat (floatOfHalf half) = half ↔ half = 0 ∨ half = 0x8000 := by
  constructor
  · intro hback
    obtain ⟨hnan, hmax, hhalf⟩ | ⟨hnan, hmin, hhalf⟩ | ⟨he, hhalf⟩ :=
      halfOfFloat_cases (floatOfHalf half)
    · rw [hback] at hhalf
      obtain rfl | rfl := hhalf <;> exact absurd hback (by decide)
    · rw [hback] at hhalf
      rw [hhalf]
      split
      · exact Or.inl rfl
      · exact Or.inr rfl
    · rw [hback] at hhalf
      exact absurd (exponentField_floatOfHalf hhalf) he
  · intro hzero
    obtain rfl | rfl := hzero <;> decide

theorem halfOfFloat_ne_infinity (data : BitVec 32) :
    halfOfFloat data ≠ 0x7c00 ∧ halfOfFloat data ≠ 0xfc00 := by
  obtain ⟨-, -, hhalf⟩ | ⟨-, -, hhalf⟩ | ⟨-, hhalf⟩ := halfOfFloat_cases data
  · obtain hhalf | hhalf := hhalf <;> rw [hhalf] <;> decide
  · rw [hhalf]
    split <;> decide
  · constructor <;> intro hinfinity <;> rw [hinfinity] at hhalf <;>
      exact absurd hhalf (by decide)

/-- Only the zeros come back, as floats and as halves, and no infinity is ever stored. -/
theorem half_round_trips_iff (data : BitVec 32) (offset p : ℕ) (memory : Memory) :
    (ComesBack data (vloadHalf offset p (vstoreHalf data offset p memory)) ↔
        data = 0 ∨ data = 0x80000000) ∧
      (vstoreHalf (vloadHalf offset p memory) offset p memory = memory ↔
        memory (p + offset) = 0 ∨ memory (p + offset) = 0x8000) ∧
      vstoreHalf data offset p memory (p + offset) ≠ 0x7c00 ∧
      vstoreHalf data offset p memory (p + offset) ≠ 0xfc00 := by
  have hcell : vstoreHalf data offset p memory (p + offset) = halfOfFloat data :=
    Function.update_self _ _ _
  refine ⟨?_, ?_, ?_⟩
  · rw [vloadHalf, hcell]
    exact comesBack_iff data
  · rw [← halfOfFloat_floatOfHalf_iff, vstoreHalf, vloadHalf]
    exact Function.update_eq_self_iff
  · rw [hcell]
    exact halfOfFloat_ne_infinity data

/-- One is stored as a half without an exponent. -/
theorem one_does_not_come_back :
    IsHalf 0x3f800000 ∧
      ¬ ComesBack 0x3f800000 (vloadHalf 0 0 (vstoreHalf 0x3f800000 0 0 fun _ => 0)) :=
  ⟨Or.inr ⟨by decide, 0x3c00, by decide, by decide⟩, by decide⟩

end RoundTrips

end Pocl.HalfPrecision
