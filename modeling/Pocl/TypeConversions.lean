import Pocl.SaturatingSums

/-!
# Conversions between integer types

A vector is converted in two halves, and one of three elements as two and one.  A saturating
conversion first brings the elements into the range of the target, with the limits as constants of
the source type, and leaves out the comparisons that cannot fail.  `upsample` puts two values into
one of twice the width.

The rounding modes have no effect between integers: their functions call these ones.
-/

namespace Pocl.TypeConversions

open MulHi SaturatingSums SignedBitwise

inductive Size
  | one
  | two
  | three
  | four
  | eight
  | sixteen
  deriving DecidableEq

section Source

variable (type : IntType)

/-- `CHAR_MIN` and so on; the unsigned types have the literal 0 instead. -/
def minLimit : IntType → ℤ
  | .char => -127 - 1
  | .short => -32767 - 1
  | .int => -2147483647 - 1
  | .long => -0x7fffffffffffffff - 1
  | _ => 0

/-- `CHAR_MAX` and so on. -/
def maxLimit : IntType → ℤ
  | .char => 127
  | .uchar => 255
  | .short => 32767
  | .ushort => 65535
  | .int => 2147483647
  | .uint => 0xffffffff
  | .long => 0x7fffffffffffffff
  | .ulong => 0xffffffffffffffff

/-- `max`, `min` and `clamp` for an element. -/
def maxElement (a b : ℤ) : ℤ :=
  if a ≥ b then a else b

def minElement (a b : ℤ) : ℤ :=
  if a ≤ b then a else b

def clampElement (a b c : ℤ) : ℤ :=
  minElement (maxElement a b) c

/-- `convert` on scalars is a cast. -/
def convert1 (x : List ℤ) : List ℤ :=
  x.map type.convert

def convert2 (x : List ℤ) : List ℤ :=
  convert1 type (x.take 1) ++ convert1 type (x.drop 1)

def convert3 (x : List ℤ) : List ℤ :=
  convert2 type (x.take 2) ++ convert1 type (x.drop 2)

def convert4 (x : List ℤ) : List ℤ :=
  convert2 type (x.take 2) ++ convert2 type (x.drop 2)

def convert8 (x : List ℤ) : List ℤ :=
  convert4 type (x.take 4) ++ convert4 type (x.drop 4)

def convert16 (x : List ℤ) : List ℤ :=
  convert8 type (x.take 8) ++ convert8 type (x.drop 8)

def convertTo (size : Size) (x : List ℤ) : List ℤ :=
  match size with
  | .one => convert1 type x
  | .two => convert2 type x
  | .three => convert3 type x
  | .four => convert4 type x
  | .eight => convert8 type x
  | .sixteen => convert16 type x

/-- What a saturating conversion does before it converts. -/
inductive Limits
  | same
  | none
  | max
  | min
  | clamp
  deriving DecidableEq

def limits : IntType → IntType → Limits
  | .char, .char | .uchar, .uchar | .short, .short | .ushort, .ushort => .same
  | .int, .int | .uint, .uint | .long, .long | .ulong, .ulong => .same
  | .char, .short | .char, .int | .char, .long => .none
  | .char, .uchar | .char, .ushort | .char, .uint | .char, .ulong => .max
  | .uchar, .char => .min
  | .uchar, _ => .none
  | .short, .char | .short, .uchar => .clamp
  | .short, .ushort | .short, .uint | .short, .ulong => .max
  | .short, .int | .short, .long => .none
  | .ushort, .char | .ushort, .uchar | .ushort, .short => .min
  | .ushort, _ => .none
  | .int, .char | .int, .uchar | .int, .short | .int, .ushort => .clamp
  | .int, .uint | .int, .ulong => .max
  | .int, .long => .none
  | .uint, .char | .uint, .uchar | .uint, .short | .uint, .ushort | .uint, .int => .min
  | .uint, .long | .uint, .ulong => .none
  | .long, .ulong => .max
  | .long, _ => .clamp
  | .ulong, _ => .min

/-- `convert_T_sat`, where the argument is of type `source`. -/
def convertSat (source : IntType) (size : Size) (x : List ℤ) : List ℤ :=
  match limits source type with
  | .same => x
  | .none => convertTo type size x
  | .max => convertTo type size (x.map fun a => maxElement a (source.convert 0))
  | .min => convertTo type size (x.map fun a => minElement a (source.convert (maxLimit type)))
  | .clamp =>
      convertTo type size (x.map fun a =>
        clampElement a (source.convert (minLimit type)) (source.convert (maxLimit type)))

/-- The type of twice the width. -/
def doubled : IntType → Option IntType
  | .char => some .short
  | .uchar => some .ushort
  | .short => some .int
  | .ushort => some .uint
  | .int => some .long
  | .uint => some .ulong
  | .long => none
  | .ulong => none

/-- A shift to the left drops the bits that leave the type of the operands. -/
def shiftedOr (form : Form) (wide : IntType) (bits : ℕ) (a b : ℤ) : ℤ :=
  wide.convert (Int.lor ((form.operand wide).convert (a * 2 ^ bits)) b)

def Size.form : Size → Form
  | .one => .scalar
  | _ => .vector

/-- `upsample`, where `b` is of the unsigned type. -/
def upsample (size : Size) (a b : List ℤ) : Option (List ℤ) := do
  let wide ← doubled type
  let bits := 8 * (type.width / 8)
  return List.zipWith (shiftedOr size.form wide bits) (convertTo wide size a)
    (convertTo wide size b)

end Source

section Conversions

variable {type source : IntType} {a b : ℤ}

theorem convert2_eq (type : IntType) (x : List ℤ) : convert2 type x = x.map type.convert := by
  rw [convert2, convert1, convert1, ← List.map_append, List.take_append_drop]

theorem convert4_eq (type : IntType) (x : List ℤ) : convert4 type x = x.map type.convert := by
  rw [convert4, convert2_eq, convert2_eq, ← List.map_append, List.take_append_drop]

theorem convert8_eq (type : IntType) (x : List ℤ) : convert8 type x = x.map type.convert := by
  rw [convert8, convert4_eq, convert4_eq, ← List.map_append, List.take_append_drop]

/-- Vectors are converted elementwise. -/
theorem convertTo_eq (type : IntType) (size : Size) (x : List ℤ) :
    convertTo type size x = x.map type.convert := by
  cases size with
  | one => rfl
  | two => exact convert2_eq type x
  | three =>
      rw [convertTo, convert3, convert2_eq, convert1, ← List.map_append, List.take_append_drop]
  | four => exact convert4_eq type x
  | eight => exact convert8_eq type x
  | sixteen =>
      rw [convertTo, convert16, convert8_eq, convert8_eq, ← List.map_append,
        List.take_append_drop]

theorem maxElement_eq (a b : ℤ) : maxElement a b = max a b := by
  rw [maxElement, max_comm, max_def]

theorem minElement_eq (a b : ℤ) : minElement a b = min a b := by
  rw [minElement, min_def]

/-- A comparison is left out only if it cannot fail, and the limits are values of the source. -/
def Limits.Suits (source type : IntType) : Limits → Prop
  | .same => source = type
  | .none => type.minimum ≤ source.minimum ∧ source.maximum ≤ type.maximum
  | .max => source.convert 0 = type.minimum ∧ source.maximum ≤ type.maximum
  | .min => type.minimum ≤ source.minimum ∧ source.convert (maxLimit type) = type.maximum
  | .clamp => source.convert (minLimit type) = type.minimum ∧
      source.convert (maxLimit type) = type.maximum

theorem limits_suits (source type : IntType) : (limits source type).Suits source type := by
  cases source <;> cases type <;> simp only [limits, Limits.Suits] <;> decide

theorem minimum_le_maximum (type : IntType) : type.minimum ≤ type.maximum := by
  cases type <;> decide

theorem inRange_clamp (type : IntType) (a : ℤ) : type.InRange (clamp type a) :=
  ⟨le_max_left _ _, max_le (minimum_le_maximum type) (min_le_right _ _)⟩

theorem max_eq_clamp (ha : a ≤ type.maximum) : max a type.minimum = clamp type a := by
  rw [clamp, min_eq_left ha, max_comm]

theorem min_eq_clamp (ha : type.minimum ≤ a) : min a type.maximum = clamp type a :=
  (max_eq_right (le_min ha (minimum_le_maximum type))).symm

theorem min_max_eq_clamp (a : ℤ) : min (max a type.minimum) type.maximum = clamp type a := by
  rw [clamp, min_max_distrib_right, min_eq_left (minimum_le_maximum type), max_comm]

theorem convertTo_map (size : Size) {x : List ℤ} {f : ℤ → ℤ}
    (hf : ∀ a ∈ x, f a = clamp type a) :
    convertTo type size (x.map f) = x.map (clamp type) := by
  rw [convertTo_eq, List.map_map]
  apply List.map_congr_left
  intro a ha
  rw [Function.comp_apply, hf a ha, IntType.convert_of_inRange (inRange_clamp type a)]

theorem convertSat_eq_map (source type : IntType) (size : Size) (x : List ℤ)
    (hx : ∀ a ∈ x, source.InRange a) :
    convertSat type source size x = x.map (clamp type) := by
  have hsuits := limits_suits source type
  unfold convertSat
  cases hlimits : limits source type with
  | same =>
      rw [hlimits] at hsuits
      obtain rfl : source = type := hsuits
      conv_lhs => rw [← List.map_id x]
      exact List.map_congr_left fun a ha => (clamp_of_inRange (hx a ha)).symm
  | none =>
      rw [hlimits] at hsuits
      obtain ⟨hmin, hmax⟩ := hsuits
      have hid : ∀ a ∈ x, id a = clamp type a := fun a ha =>
        (clamp_of_inRange ⟨hmin.trans (hx a ha).1, (hx a ha).2.trans hmax⟩).symm
      have hconvert := convertTo_map size hid
      rwa [List.map_id] at hconvert
  | max =>
      rw [hlimits] at hsuits
      obtain ⟨hzero, hmax⟩ := hsuits
      apply convertTo_map
      intro a ha
      rw [maxElement_eq, hzero, max_eq_clamp ((hx a ha).2.trans hmax)]
  | min =>
      rw [hlimits] at hsuits
      obtain ⟨hmin, hlimit⟩ := hsuits
      apply convertTo_map
      intro a ha
      rw [minElement_eq, hlimit, min_eq_clamp (hmin.trans (hx a ha).1)]
  | clamp =>
      rw [hlimits] at hsuits
      obtain ⟨hmin, hmax⟩ := hsuits
      apply convertTo_map
      intro a _
      rw [clampElement, maxElement_eq, minElement_eq, hmin, hmax, min_max_eq_clamp]

/-- The saturating conversions give for each element the value of the target that is closest. -/
theorem convertSat_eq (source type : IntType) (size : Size) (x : List ℤ)
    (hx : ∀ a ∈ x, source.InRange a) :
    convertSat type source size x = x.map (clamp type) ∧
      (∀ a ∈ convertSat type source size x, type.InRange a) ∧
      ∀ a ∈ x, ∀ b, type.InRange b → |a - clamp type a| ≤ |a - b| := by
  refine ⟨convertSat_eq_map source type size x hx, fun a ha => ?_, fun a _ b hb => ?_⟩
  · rw [convertSat_eq_map source type size x hx] at ha
    obtain ⟨b, -, rfl⟩ := List.mem_map.mp ha
    exact inRange_clamp type b
  · obtain ⟨hmin, hmax⟩ := hb
    rcases le_total a type.minimum with hlow | hlow
    · rw [clamp_of_le_minimum hlow, abs_sub_comm, abs_sub_comm a b, abs_of_nonneg (by omega),
        abs_of_nonneg (by omega)]
      omega
    · rcases le_total type.maximum a with hhigh | hhigh
      · rw [clamp_of_maximum_le hhigh, abs_of_nonneg (by omega), abs_of_nonneg (by omega)]
        omega
      · rw [clamp_of_inRange ⟨hlow, hhigh⟩, sub_self, abs_zero]
        exact abs_nonneg _

theorem convertSat_eq_shorts :
    convertSat .uchar .short .three [-5, 300, 77] = [-5, 300, 77].map (clamp .uchar) ∧
      (∀ a ∈ convertSat .uchar .short .three [-5, 300, 77], IntType.uchar.InRange a) ∧
      ∀ a ∈ [-5, 300, 77], ∀ b, IntType.uchar.InRange b → |a - clamp .uchar a| ≤ |a - b| :=
  convertSat_eq .short .uchar .three [-5, 300, 77] (by decide)

end Conversions

section Upsampling

variable {type wide : IntType} {a b : ℤ}

/-- The low half is in none of the bits of the shifted one. -/
theorem lor_shifted (bits : ℕ) (a : ℤ) {b : ℤ} (hb : 0 ≤ b ∧ b < 2 ^ bits) :
    Int.lor (a * 2 ^ bits) b = a * 2 ^ bits + b := by
  induction bits generalizing b with
  | zero =>
      obtain rfl : b = 0 := by omega
      cases a with
      | ofNat n => simp [Int.lor]
      | negSucc n => simp [Int.lor, Nat.ldiff]
  | succ bits ih =>
      have hdouble : a * 2 ^ (bits + 1) = Int.bit false (a * 2 ^ bits) := by
        rw [Int.bit_val, pow_succ, cond_false]
        ring
      have hhalf : b = Int.bit b.bodd b.div2 := (Int.bit_decomp b).symm
      have hbounds : 0 ≤ b.div2 ∧ b.div2 < 2 ^ bits := by
        rw [Int.div2_val]
        rw [pow_succ] at hb
        omega
      rw [hdouble, hhalf, Int.lor_bit, Bool.false_or, ih hbounds, Int.bit_val, Int.bit_val,
        Int.bit_val, cond_false]
      ring

theorem inRange_joined (hwide : doubled type = some wide) (ha : type.InRange a)
    (hb : type.ugtype.InRange b) : wide.InRange (a * 2 ^ type.width + b) := by
  obtain ⟨hamin, hamax⟩ := ha
  obtain ⟨hbmin, hbmax⟩ := hb
  cases type <;> cases hwide <;>
    norm_num [IntType.InRange, IntType.minimum, IntType.maximum, IntType.width, IntType.signed,
      IntType.ugtype] at hamin hamax hbmin hbmax ⊢ <;> omega

theorem inRange_shifted (hwide : doubled type = some wide) (ha : type.InRange a) :
    wide.InRange (a * 2 ^ type.width) := by
  have hzero : type.ugtype.InRange 0 := by
    cases type <;> decide
  have hjoined := inRange_joined hwide ha hzero
  rwa [add_zero] at hjoined

theorem inRange_doubled (hwide : doubled type = some wide) (ha : type.InRange a) :
    wide.InRange a := by
  obtain ⟨hmin, hmax⟩ := ha
  cases type <;> cases hwide <;>
    norm_num [IntType.InRange, IntType.minimum, IntType.maximum, IntType.width, IntType.signed]
      at hmin hmax ⊢ <;> omega

theorem low_bounds (hb : type.ugtype.InRange b) : 0 ≤ b ∧ b < 2 ^ type.width := by
  obtain ⟨hmin, hmax⟩ := hb
  cases type <;>
    norm_num [IntType.minimum, IntType.maximum, IntType.width, IntType.signed, IntType.ugtype]
      at hmin hmax ⊢ <;> omega

theorem shiftedOr_eq (form : Form) (hwide : doubled type = some wide) (ha : type.InRange a)
    (hb : type.ugtype.InRange b) :
    shiftedOr form wide type.width (wide.convert a) (wide.convert b) =
      a * 2 ^ type.width + b := by
  have hwideLow : wide.InRange b := by
    have hzero : type.InRange 0 := by
      cases type <;> decide
    have hjoined := inRange_joined hwide hzero hb
    rwa [zero_mul, zero_add] at hjoined
  have hshifted := IntType.inRange_operand form (inRange_shifted hwide ha)
  rw [shiftedOr, IntType.convert_of_inRange (inRange_doubled hwide ha),
    IntType.convert_of_inRange hwideLow, IntType.convert_of_inRange hshifted,
    lor_shifted _ _ (low_bounds hb), IntType.convert_of_inRange (inRange_joined hwide ha hb)]

theorem bits_eq (type : IntType) : 8 * (type.width / 8) = type.width := by
  cases type <;> rfl

theorem zipWith_shiftedOr (form : Form) (hwide : doubled type = some wide) {a b : List ℤ}
    (ha : ∀ x ∈ a, type.InRange x) (hb : ∀ y ∈ b, type.ugtype.InRange y) :
    List.zipWith (shiftedOr form wide type.width) (a.map wide.convert) (b.map wide.convert) =
      List.zipWith (fun x y => x * 2 ^ type.width + y) a b := by
  induction a generalizing b with
  | nil => rfl
  | cons x a ih =>
      cases b with
      | nil => rfl
      | cons y b =>
          rw [List.map_cons, List.map_cons, List.zipWith_cons_cons, List.zipWith_cons_cons,
            shiftedOr_eq form hwide (ha x (by simp)) (hb y (by simp)),
            ih (fun z hz => ha z (by simp [hz])) fun z hz => hb z (by simp [hz])]

/-- The result is of the wide type, and its halves are the two values. -/
theorem upsample_eq (size : Size) (hwide : doubled type = some wide) (a b : List ℤ)
    (ha : ∀ x ∈ a, type.InRange x) (hb : ∀ y ∈ b, type.ugtype.InRange y) :
    upsample type size a b = some (List.zipWith (fun x y => x * 2 ^ type.width + y) a b) ∧
      ∀ x ∈ a, ∀ y ∈ b, wide.InRange (x * 2 ^ type.width + y) ∧
        (x * 2 ^ type.width + y) / 2 ^ type.width = x ∧
        (x * 2 ^ type.width + y) % 2 ^ type.width = y := by
  constructor
  · simp only [upsample, hwide, Option.bind_eq_bind, Option.bind_some, bits_eq, convertTo_eq]
    rw [zipWith_shiftedOr size.form hwide ha hb]
    rfl
  · intro x hx y hy
    obtain ⟨hmin, hmax⟩ := low_bounds (hb y hy)
    have hpos : (2 : ℤ) ^ type.width ≠ 0 := by positivity
    refine ⟨inRange_joined hwide (ha x hx) (hb y hy), ?_, ?_⟩
    · rw [add_comm, Int.add_mul_ediv_right _ _ hpos, Int.ediv_eq_zero_of_lt hmin hmax, zero_add]
    · rw [add_comm, Int.add_mul_emod_self_right, Int.emod_eq_of_lt hmin hmax]

theorem upsample_eq_chars :
    upsample .char .two [-1, 3] [255, 7] =
        some (List.zipWith (fun x y => x * 2 ^ IntType.char.width + y) [-1, 3] [255, 7]) ∧
      ∀ x ∈ [-1, 3], ∀ y ∈ [255, 7],
        IntType.short.InRange (x * 2 ^ IntType.char.width + y) ∧
          (x * 2 ^ IntType.char.width + y) / 2 ^ IntType.char.width = x ∧
          (x * 2 ^ IntType.char.width + y) % 2 ^ IntType.char.width = y :=
  upsample_eq .two rfl [-1, 3] [255, 7] (by decide) (by decide)

end Upsampling

end Pocl.TypeConversions
