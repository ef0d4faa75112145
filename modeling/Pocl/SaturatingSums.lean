import Pocl.MulHi
import Pocl.SignedBitwise

/-!
# Saturating sums and absolute differences

A sum saturates when an operand lies beyond what the other one leaves of the range.  A signed
limit is computed only for the operands whose signs keep it in the type.  The constants of the
range, the results and the negation in `abs` wrap.
-/

namespace Pocl.SaturatingSums

open MulHi SignedBitwise

section Source

variable (form : Form) (gtype : IntType)

/-- An intermediate result that a condition reads must not overflow. -/
def decisive (x : ℤ) : Option ℤ :=
  (form.operand gtype).arithmetic x

/-- `(sgtype)1 << (sgtype)(bits-1)`, as a pattern. -/
def minConstant : ℤ :=
  gtype.convert (gtype.promote.convert (1 * 2 ^ (gtype.width - 1)))

def maxConstant : ℤ :=
  gtype.convert ((form.operand gtype).convert (minConstant gtype - 1))

/-- A result of the type of the operands is converted to the returned type. -/
def wrapped (x : ℤ) : ℤ :=
  gtype.convert ((form.operand gtype).convert x)

def addSat (a b : ℤ) : Option ℤ :=
  if gtype.convert (-1) < gtype.convert 0 then
    if Int.xor a b < gtype.convert 0 then
      some (wrapped form gtype (a + b))
    else if gtype.convert 0 ≤ a then do
      let limit ← decisive form gtype (maxConstant form gtype - b)
      return if limit < a then maxConstant form gtype else wrapped form gtype (a + b)
    else do
      let limit ← decisive form gtype (minConstant gtype - b)
      return if a < limit then minConstant gtype else wrapped form gtype (a + b)
  else do
    let max := gtype.convert (Int.lnot (gtype.convert 0))
    let limit ← decisive form gtype (max - b)
    return if limit < a then max else wrapped form gtype (a + b)

def subSat (a b : ℤ) : Option ℤ :=
  if gtype.convert (-1) < gtype.convert 0 then
    if gtype.convert 0 ≤ Int.xor a b then
      some (wrapped form gtype (a - b))
    else if gtype.convert 0 ≤ a then do
      let limit ← decisive form gtype (maxConstant form gtype + b)
      return if limit < a then maxConstant form gtype else wrapped form gtype (a - b)
    else do
      let limit ← decisive form gtype (minConstant gtype + b)
      return if a < limit then minConstant gtype else wrapped form gtype (a - b)
  else do
    let min := gtype.convert 0
    let limit ← decisive form gtype (min + b)
    return if a < limit then min else wrapped form gtype (a - b)

/-- The body of the macros, with a negation of the given type. -/
def magnitude (type : IntType) (a : ℤ) : ℤ :=
  if 0 ≤ a then a else type.convert (-a)

def builtinAbsh (a : ℤ) : ℤ := IntType.ushort.convert (magnitude .int a)

/-- The function of the compiler. -/
def builtinAbs (a : ℤ) : ℤ := magnitude .int a

def builtinAbsl (a : ℤ) : ℤ := IntType.ulong.convert (magnitude .long a)

/-- The overload of `abs` for an argument of the given type. -/
def abs (type : IntType) (a : ℤ) : ℤ :=
  type.ugtype.convert
    (match type with
    | .char => builtinAbsh a
    | .uchar => a
    | .short => builtinAbsh a
    | .ushort => a
    | .int => builtinAbs a
    | .uint => a
    | .long => builtinAbsl a
    | .ulong => a)

/-- An argument of `abs` decides the branch that `abs` takes. -/
def absDiff (a b : ℤ) : Option ℤ :=
  if gtype.convert (-1) < gtype.convert 0 then
    if gtype.convert 0 ≤ Int.xor a b then do
      let difference ← decisive form gtype (a - b)
      return gtype.ugtype.convert (abs (form.operand gtype) difference)
    else
      return wrapped form gtype.ugtype (abs gtype a + abs gtype b)
  else do
    let difference ← decisive form gtype (if b < a then a - b else b - a)
    return gtype.ugtype.convert (abs (form.operand gtype) difference)

end Source

/-- The value of the range that is closest to a number. -/
def clamp (gtype : IntType) (x : ℤ) : ℤ :=
  max gtype.minimum (min x gtype.maximum)

section Constants

variable {gtype : IntType} {a b x : ℤ}

theorem signed_iff (gtype : IntType) :
    gtype.convert (-1) < gtype.convert 0 ↔ gtype.signed = true := by
  cases gtype <;> decide

theorem convert_zero (gtype : IntType) : gtype.convert 0 = 0 := by
  cases gtype <;> decide

theorem minConstant_eq (hsigned : gtype.signed = true) : minConstant gtype = gtype.minimum := by
  cases gtype <;> first | decide | cases hsigned

theorem maxConstant_eq (form : Form) (hsigned : gtype.signed = true) :
    maxConstant form gtype = gtype.maximum := by
  cases form <;> cases gtype <;> first | decide | cases hsigned

theorem convert_neg_one (hunsigned : gtype.signed ≠ true) :
    gtype.convert (-1) = gtype.maximum := by
  cases gtype <;> first | decide | exact absurd rfl hunsigned

theorem minimum_of_signed (hsigned : gtype.signed = true) :
    gtype.minimum = -gtype.maximum - 1 := by
  cases gtype <;> first | decide | cases hsigned

theorem minimum_of_unsigned (hunsigned : gtype.signed ≠ true) : gtype.minimum = 0 := by
  cases gtype <;> first | decide | exact absurd rfl hunsigned

theorem maximum_nonneg (gtype : IntType) : 0 ≤ gtype.maximum := by
  cases gtype <;> decide

theorem decisive_of_inRange (form : Form) (hx : gtype.InRange x) :
    decisive form gtype x = some x :=
  IntType.arithmetic_of_inRange (IntType.inRange_operand form hx)

theorem wrapped_of_inRange (form : Form) (hx : gtype.InRange x) : wrapped form gtype x = x := by
  rw [wrapped, IntType.convert_of_inRange (IntType.inRange_operand form hx),
    IntType.convert_of_inRange hx]

theorem clamp_of_inRange (hx : gtype.InRange x) : clamp gtype x = x := by
  obtain ⟨hmin, hmax⟩ := hx
  rw [clamp, min_eq_left hmax, max_eq_right hmin]

theorem clamp_of_maximum_le (hx : gtype.maximum ≤ x) : clamp gtype x = gtype.maximum := by
  have hrange : gtype.minimum ≤ gtype.maximum := by cases gtype <;> decide
  rw [clamp, min_eq_right hx, max_eq_right hrange]

theorem clamp_of_le_minimum (hx : x ≤ gtype.minimum) : clamp gtype x = gtype.minimum :=
  max_eq_left ((min_le_left x gtype.maximum).trans hx)

theorem upper_limit (form : Form) {limit : ℤ} (hlimit : limit < a ↔ gtype.maximum < x)
    (hmin : gtype.minimum ≤ x) :
    (if limit < a then gtype.maximum else wrapped form gtype x) = clamp gtype x := by
  by_cases habove : limit < a
  · rw [if_pos habove, clamp_of_maximum_le (hlimit.mp habove).le]
  · have hx : gtype.InRange x := ⟨hmin, not_lt.mp (mt hlimit.mpr habove)⟩
    rw [if_neg habove, wrapped_of_inRange form hx, clamp_of_inRange hx]

theorem lower_limit (form : Form) {limit : ℤ} (hlimit : a < limit ↔ x < gtype.minimum)
    (hmax : x ≤ gtype.maximum) :
    (if a < limit then gtype.minimum else wrapped form gtype x) = clamp gtype x := by
  by_cases hbelow : a < limit
  · rw [if_pos hbelow, clamp_of_le_minimum (hlimit.mp hbelow).le]
  · have hx : gtype.InRange x := ⟨not_lt.mp (mt hlimit.mpr hbelow), hmax⟩
    rw [if_neg hbelow, wrapped_of_inRange form hx, clamp_of_inRange hx]

end Constants

section Sums

variable {gtype : IntType} {a b : ℤ}

theorem addSat_eq (form : Form) (ha : gtype.InRange a) (hb : gtype.InRange b) :
    addSat form gtype a b = some (clamp gtype (a + b)) := by
  have hmaximum := maximum_nonneg gtype
  obtain ⟨hamin, hamax⟩ := ha
  obtain ⟨hbmin, hbmax⟩ := hb
  unfold addSat
  by_cases hsigned : gtype.signed = true
  · have hminimum := minimum_of_signed hsigned
    rw [if_pos ((signed_iff gtype).mpr hsigned), convert_zero, minConstant_eq hsigned,
      maxConstant_eq form hsigned]
    split
    · -- the signs differ, and the sum lies between the operands
      rename_i hsigns
      rw [xor_neg_iff] at hsigns
      have hsum : gtype.InRange (a + b) := by constructor <;> omega
      rw [wrapped_of_inRange form hsum, clamp_of_inRange hsum]
    · rename_i hsigns
      rw [xor_neg_iff] at hsigns
      split
      · have hlimit : gtype.InRange (gtype.maximum - b) := by constructor <;> omega
        rw [decisive_of_inRange form hlimit]
        exact congrArg some (upper_limit form (by omega) (by omega))
      · have hlimit : gtype.InRange (gtype.minimum - b) := by constructor <;> omega
        rw [decisive_of_inRange form hlimit]
        exact congrArg some (lower_limit form (by omega) (by omega))
  · have hminimum := minimum_of_unsigned hsigned
    have hlnot : Int.lnot 0 = -1 := rfl
    have hlimit : gtype.InRange (gtype.maximum - b) := by constructor <;> omega
    rw [if_neg (mt (signed_iff gtype).mp hsigned), convert_zero, hlnot, convert_neg_one hsigned]
    dsimp only
    rw [decisive_of_inRange form hlimit]
    exact congrArg some (upper_limit form (by omega) (by omega))

theorem subSat_eq (form : Form) (ha : gtype.InRange a) (hb : gtype.InRange b) :
    subSat form gtype a b = some (clamp gtype (a - b)) := by
  have hmaximum := maximum_nonneg gtype
  obtain ⟨hamin, hamax⟩ := ha
  obtain ⟨hbmin, hbmax⟩ := hb
  unfold subSat
  by_cases hsigned : gtype.signed = true
  · have hminimum := minimum_of_signed hsigned
    rw [if_pos ((signed_iff gtype).mpr hsigned), convert_zero, minConstant_eq hsigned,
      maxConstant_eq form hsigned]
    split
    · -- the signs are equal, and the difference lies between the operands
      rename_i hsigns
      rw [← not_lt, xor_neg_iff] at hsigns
      have hsum : gtype.InRange (a - b) := by constructor <;> omega
      rw [wrapped_of_inRange form hsum, clamp_of_inRange hsum]
    · rename_i hsigns
      rw [← not_lt, xor_neg_iff] at hsigns
      split
      · have hlimit : gtype.InRange (gtype.maximum + b) := by constructor <;> omega
        rw [decisive_of_inRange form hlimit]
        exact congrArg some (upper_limit form (by omega) (by omega))
      · have hlimit : gtype.InRange (gtype.minimum + b) := by constructor <;> omega
        rw [decisive_of_inRange form hlimit]
        exact congrArg some (lower_limit form (by omega) (by omega))
  · have hminimum := minimum_of_unsigned hsigned
    have hlimit : gtype.InRange (0 + b) := by constructor <;> omega
    rw [if_neg (mt (signed_iff gtype).mp hsigned), convert_zero]
    dsimp only
    rw [decisive_of_inRange form hlimit, ← hminimum]
    exact congrArg some (lower_limit form (by omega) (by omega))

end Sums

section Differences

variable {gtype : IntType} {a b x : ℤ}

/-- A conversion to an unsigned type forgets a conversion to a type that is not narrower. -/
theorem convert_convert (narrow wide : IntType) (hwidth : narrow.width ≤ wide.width) (x : ℤ) :
    narrow.ugtype.convert (wide.convert x) = narrow.ugtype.convert x := by
  have hconvert (x : ℤ) : narrow.ugtype.convert x = x % 2 ^ narrow.width := by
    cases narrow <;> rfl
  have hdvd : (2 : ℤ) ^ narrow.width ∣ 2 ^ wide.width := pow_dvd_pow 2 hwidth
  have hcast : (2 : ℤ) ^ narrow.width ∣ ((2 ^ wide.width : ℕ) : ℤ) := by
    rwa [Nat.cast_pow, Nat.cast_ofNat]
  rw [hconvert, hconvert, IntType.convert]
  split
  · rw [← Int.emod_emod_of_dvd _ hcast, Int.bmod_emod, Int.emod_emod_of_dvd _ hcast]
  · exact Int.emod_emod_of_dvd x hdvd

theorem convert_magnitude (narrow wide : IntType) (hwidth : narrow.width ≤ wide.width)
    (x : ℤ) : narrow.ugtype.convert (magnitude wide x) = narrow.ugtype.convert |x| := by
  unfold magnitude
  split
  · rename_i hx
    rw [abs_of_nonneg hx]
  · rename_i hx
    rw [convert_convert narrow wide hwidth, abs_of_neg (not_le.mp hx)]

/-- A difference of two values fits the unsigned type, whatever their signs are. -/
theorem inRange_abs_sub (ha : gtype.InRange a) (hb : gtype.InRange b) :
    gtype.ugtype.InRange |a - b| := by
  have hminimum : gtype.ugtype.minimum = 0 := by cases gtype <;> rfl
  have hmaximum : gtype.ugtype.maximum = gtype.maximum - gtype.minimum := by
    cases gtype <;> rfl
  obtain ⟨hamin, hamax⟩ := ha
  obtain ⟨hbmin, hbmax⟩ := hb
  rw [IntType.InRange, hminimum, hmaximum]
  exact ⟨abs_nonneg _, abs_le.mpr ⟨by omega, by omega⟩⟩

theorem inRange_abs (hx : gtype.InRange x) : gtype.ugtype.InRange |x| := by
  have hzero : gtype.InRange 0 := by cases gtype <;> decide
  have habs := inRange_abs_sub hx hzero
  rwa [sub_zero] at habs

/-- The negation of the least value wraps, and its conversion is the magnitude. -/
theorem abs_eq (hx : gtype.InRange x) : abs gtype x = |x| := by
  have habs := IntType.convert_of_inRange (inRange_abs hx)
  have hunsigned (hmin : 0 ≤ x) : |x| = x := abs_of_nonneg hmin
  cases gtype with
  | char =>
      have hshort := convert_convert .char .ushort (by decide) (magnitude .int x)
      exact hshort.trans ((convert_magnitude .char .int (by decide) x).trans habs)
  | uchar => rwa [hunsigned hx.1] at habs ⊢
  | short =>
      have hshort := convert_convert .short .ushort (by decide) (magnitude .int x)
      exact hshort.trans ((convert_magnitude .short .int (by decide) x).trans habs)
  | ushort => rwa [hunsigned hx.1] at habs ⊢
  | int => exact (convert_magnitude .int .int (by decide) x).trans habs
  | uint => rwa [hunsigned hx.1] at habs ⊢
  | long =>
      have hlong := convert_convert .long .ulong (by decide) (magnitude .long x)
      exact hlong.trans ((convert_magnitude .long .long (by decide) x).trans habs)
  | ulong => rwa [hunsigned hx.1] at habs ⊢

theorem absDiff_eq (form : Form) (ha : gtype.InRange a) (hb : gtype.InRange b) :
    absDiff form gtype a b = some |a - b| := by
  have habs := inRange_abs_sub ha hb
  have hmaximum := maximum_nonneg gtype
  have hdecided {x : ℤ} (hx : gtype.InRange x) (hdifference : |x| = |a - b|) :
      gtype.ugtype.convert (abs (form.operand gtype) x) = |a - b| := by
    rw [abs_eq (IntType.inRange_operand form hx), hdifference, IntType.convert_of_inRange habs]
  unfold absDiff
  by_cases hsigned : gtype.signed = true
  · have hminimum := minimum_of_signed hsigned
    rw [if_pos ((signed_iff gtype).mpr hsigned), convert_zero]
    split
    · rename_i hsigns
      rw [← not_lt, xor_neg_iff] at hsigns
      have hrange : gtype.InRange (a - b) := by
        obtain ⟨hamin, hamax⟩ := ha
        obtain ⟨hbmin, hbmax⟩ := hb
        constructor <;> omega
      rw [decisive_of_inRange form hrange]
      exact congrArg some (hdecided hrange rfl)
    · -- the signs differ, and the magnitudes add up
      rename_i hsigns
      rw [not_le, xor_neg_iff] at hsigns
      have hsum : |a| + |b| = |a - b| := by
        rw [abs_eq_max_neg, abs_eq_max_neg, abs_eq_max_neg]
        omega
      rw [abs_eq ha, abs_eq hb, hsum, wrapped_of_inRange form habs]
      rfl
  · have hminimum := minimum_of_unsigned hsigned
    rw [if_neg (mt (signed_iff gtype).mp hsigned)]
    have hdifference : (if b < a then a - b else b - a) = |a - b| := by
      split
      · rename_i hlt
        exact (abs_of_pos (sub_pos.mpr hlt)).symm
      · rename_i hle
        rw [abs_sub_comm, abs_of_nonneg (sub_nonneg.mpr (not_lt.mp hle))]
    have hrange : gtype.InRange |a - b| := by
      obtain ⟨hamin, hamax⟩ := ha
      obtain ⟨hbmin, hbmax⟩ := hb
      exact ⟨hminimum ▸ abs_nonneg _, abs_le.mpr ⟨by omega, by omega⟩⟩
    rw [hdifference, decisive_of_inRange form hrange]
    exact congrArg some (hdecided hrange (abs_abs _))

end Differences

/-- The sums, the differences and their magnitudes are exact. -/
theorem saturating_sums (form : Form) (gtype : IntType) (a b : ℤ) (ha : gtype.InRange a)
    (hb : gtype.InRange b) :
    addSat form gtype a b = some (clamp gtype (a + b)) ∧
      subSat form gtype a b = some (clamp gtype (a - b)) ∧
      absDiff form gtype a b = some |a - b| ∧ gtype.ugtype.InRange |a - b| :=
  ⟨addSat_eq form ha hb, subSat_eq form ha hb, absDiff_eq form ha hb, inRange_abs_sub ha hb⟩

theorem saturating_sums_least :
    (IntType.long.InRange (-2 ^ 63) ∧ IntType.long.InRange (2 ^ 63 - 1)) ∧
      addSat .vector .long (-2 ^ 63) (2 ^ 63 - 1) =
        some (clamp .long (-2 ^ 63 + (2 ^ 63 - 1))) ∧
      subSat .vector .long (-2 ^ 63) (2 ^ 63 - 1) =
        some (clamp .long (-2 ^ 63 - (2 ^ 63 - 1))) ∧
      absDiff .vector .long (-2 ^ 63) (2 ^ 63 - 1) = some |-2 ^ 63 - (2 ^ 63 - 1)| ∧
      IntType.long.ugtype.InRange |-2 ^ 63 - (2 ^ 63 - 1)| :=
  ⟨⟨by decide, by decide⟩,
    saturating_sums .vector .long (-2 ^ 63) (2 ^ 63 - 1) (by decide) (by decide)⟩

/-- The greatest `int` comes from a difference that wraps, and it decides a branch. -/
theorem maxConstant_int_wraps :
    decisive .scalar .int (minConstant .int - 1) = none ∧
      addSat .scalar .int (2 ^ 31 - 1) 1 = some (maxConstant .scalar .int) := by
  decide

end Pocl.SaturatingSums
