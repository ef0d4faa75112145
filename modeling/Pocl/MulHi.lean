import Pocl.HalfWidthProducts

/-!
# The high half of a product

`mul_hi` is computed from half-width products and a halving addition.  The operations are
those of the C types: a narrow scalar is promoted to `int`, a vector element is not, a signed
result outside its type is undefined, and an unsigned one wraps.
-/

namespace Pocl.MulHi

open Pocl.HalfWidthProducts

/-- The element types that the templates instantiate. -/
inductive IntType
  | char
  | uchar
  | short
  | ushort
  | int
  | uint
  | long
  | ulong
  deriving DecidableEq, Repr

namespace IntType

def width : IntType → ℕ
  | .char => 8
  | .uchar => 8
  | .short => 16
  | .ushort => 16
  | .int => 32
  | .uint => 32
  | .long => 64
  | .ulong => 64

def signed : IntType → Bool
  | .char => true
  | .uchar => false
  | .short => true
  | .ushort => false
  | .int => true
  | .uint => false
  | .long => true
  | .ulong => false

/-- The unsigned type of the same width. -/
def ugtype : IntType → IntType
  | .char => .uchar
  | .uchar => .uchar
  | .short => .ushort
  | .ushort => .ushort
  | .int => .uint
  | .uint => .uint
  | .long => .ulong
  | .ulong => .ulong

def promote : IntType → IntType
  | .char => .int
  | .uchar => .int
  | .short => .int
  | .ushort => .int
  | type => type

def minimum (type : IntType) : ℤ :=
  if type.signed then -2 ^ (type.width - 1) else 0

def maximum (type : IntType) : ℤ :=
  if type.signed then 2 ^ (type.width - 1) - 1 else 2 ^ type.width - 1

def InRange (type : IntType) (x : ℤ) : Prop :=
  type.minimum ≤ x ∧ x ≤ type.maximum

instance (type : IntType) (x : ℤ) : Decidable (type.InRange x) :=
  inferInstanceAs (Decidable (_ ∧ _))

/-- A conversion keeps the low bits. -/
def convert (type : IntType) (x : ℤ) : ℤ :=
  if type.signed then x.bmod (2 ^ type.width) else x % 2 ^ type.width

/-- The value of a sum or a product in its type, unless it overflows a signed type. -/
def arithmetic (type : IntType) (x : ℤ) : Option ℤ :=
  if type.signed then
    if type.InRange x then some x else none
  else
    some (type.convert x)

end IntType

/-- The templates are instantiated for scalars and, elementwise, for vectors. -/
inductive Form
  | scalar
  | vector
  deriving DecidableEq, Repr

/-- The type in which the operands of one type are added and multiplied. -/
def Form.operand (form : Form) (type : IntType) : IntType :=
  match form with
  | .scalar => type.promote
  | .vector => type

section Source

variable (form : Form) (gtype : IntType)

/-- `hadd`, with `a` and `b` of type `gtype`. -/
def hadd (a b : ℤ) : Option ℤ := do
  let halves ← (form.operand gtype).arithmetic (a / 2 ^ 1 + b / 2 ^ 1)
  let sum ← (form.operand gtype).arithmetic (halves + Int.land (Int.land a b) 1)
  return gtype.convert sum

/-- The low half of the bits; the mask is computed from scalars. -/
def lo (bits : ℕ) (x : ℤ) : Option ℤ := do
  let base ← gtype.promote.arithmetic (1 * 2 ^ (bits / 2))
  let mask ← gtype.promote.arithmetic (base - 1)
  return Int.land (gtype.convert x) (gtype.convert mask)

def slo (bits : ℕ) (x : ℤ) : Option ℤ := lo gtype bits x

def shi (bits : ℕ) (x : ℤ) : ℤ := gtype.convert x / 2 ^ (bits / 2)

def shi1 (bits : ℕ) (x : ℤ) : ℤ := gtype.convert x / 2 ^ (bits / 2 - 1)

def suhi (bits : ℕ) (x : ℤ) : ℤ := gtype.ugtype.convert x / 2 ^ (bits / 2)

def ulo (bits : ℕ) (x : ℤ) : Option ℤ := lo gtype bits x

def uhi (bits : ℕ) (x : ℤ) : ℤ := gtype.convert x / 2 ^ (bits / 2)

def uhi1 (bits : ℕ) (x : ℤ) : ℤ := gtype.convert x / 2 ^ (bits / 2 - 1)

/-- `U2S` stores an unsigned member and reads the other one. -/
def u2s (x : ℤ) : ℤ := gtype.convert (gtype.ugtype.convert x)

def s2u (x : ℤ) : ℤ := gtype.ugtype.convert (gtype.convert x)

/-- A product or a sum of `gtype` operands, stored in a variable of that type. -/
def stored (x : ℤ) : Option ℤ :=
  ((form.operand gtype).arithmetic x).map gtype.convert

def mulHi (a b : ℤ) : Option ℤ :=
  let bits := gtype.width
  if gtype.convert (-1) < gtype.convert 0 then do
    let ah := gtype.convert (shi gtype bits a)
    let al := gtype.convert (← slo gtype bits a)
    let bh := gtype.convert (shi gtype bits b)
    let bl := gtype.convert (← slo gtype bits b)
    let ahbh ← stored form gtype (ah * bh)
    let ahbl ← stored form gtype (ah * bl)
    let albh ← stored form gtype (al * bh)
    let albl ← stored form gtype.ugtype (s2u gtype al * s2u gtype bl)
    let mixed ← stored form gtype (albh + u2s gtype (suhi gtype bits albl))
    let abh ← stored form gtype (ahbh + shi1 gtype bits (← hadd form gtype ahbl mixed))
    return abh
  else do
    let ah := gtype.convert (uhi gtype bits a)
    let al := gtype.convert (← ulo gtype bits a)
    let bh := gtype.convert (uhi gtype bits b)
    let bl := gtype.convert (← ulo gtype bits b)
    let ahbh ← stored form gtype (ah * bh)
    let ahbl ← stored form gtype (ah * bl)
    let albh ← stored form gtype (al * bh)
    let albl ← stored form gtype (al * bl)
    let mixed ← stored form gtype (albh + uhi gtype bits albl)
    let abh ← stored form gtype (ahbh + uhi1 gtype bits (← hadd form gtype ahbl mixed))
    return abh

end Source

/-! ## Words in two digits -/

namespace IntType

def lowDigit (type : IntType) : ℤ :=
  if type.signed then -2 ^ (type.width / 2 - 1) else 0

def highDigit (type : IntType) : ℤ :=
  if type.signed then 2 ^ (type.width / 2 - 1) - 1 else 2 ^ (type.width / 2) - 1

theorem width_ugtype (type : IntType) : type.ugtype.width = type.width := by
  cases type <;> rfl

theorem ugtype_eq_self_or_convert_lt (type : IntType) :
    type.ugtype = type ∨ type.convert (-1) < type.convert 0 := by
  cases type <;> decide

theorem digitRange (type : IntType) :
    DigitRange (2 ^ (type.width / 2)) type.lowDigit type.highDigit := by
  cases type <;> constructor <;> norm_num [lowDigit, highDigit, width, signed]

theorem inRange_iff_isWord (type : IntType) (x : ℤ) :
    type.InRange x ↔ IsWord (2 ^ (type.width / 2)) type.lowDigit type.highDigit x := by
  cases type <;>
    norm_num [InRange, IsWord, minimum, maximum, lowDigit, highDigit, width, signed]

theorem convert_of_inRange {type : IntType} {x : ℤ} (hx : type.InRange x) :
    type.convert x = x := by
  obtain ⟨hmin, hmax⟩ := hx
  cases type <;>
    norm_num [minimum, maximum, convert, width, signed, Int.bmod_def] at hmin hmax ⊢ <;> omega

theorem inRange_operand {type : IntType} {x : ℤ} (form : Form) (hx : type.InRange x) :
    (form.operand type).InRange x := by
  obtain ⟨hmin, hmax⟩ := hx
  cases form with
  | scalar =>
      cases type <;>
        norm_num [Form.operand, promote, InRange, minimum, maximum, width, signed]
          at hmin hmax ⊢ <;> omega
  | vector => exact ⟨hmin, hmax⟩

theorem arithmetic_of_inRange {type : IntType} {x : ℤ} (hx : type.InRange x) :
    type.arithmetic x = some x := by
  unfold arithmetic
  rw [if_pos hx, convert_of_inRange hx, ite_self]

end IntType

section Values

variable {gtype : IntType} {a b x y : ℤ}

theorem inRange_low_digit (hx : 0 ≤ x ∧ x < 2 ^ (gtype.width / 2)) : gtype.InRange x := by
  have hword := isWord_digit_mul_add gtype.digitRange
    ⟨gtype.digitRange.low_nonpos, gtype.digitRange.high_nonneg⟩ hx hx
  rwa [zero_mul, zero_add, ← IntType.inRange_iff_isWord] at hword

theorem stored_of_inRange (form : Form) (hx : gtype.InRange x) :
    stored form gtype x = some x := by
  rw [stored, IntType.arithmetic_of_inRange (IntType.inRange_operand form hx), Option.map_some,
    IntType.convert_of_inRange hx]

theorem lo_of_inRange (hx : gtype.InRange x) :
    lo gtype gtype.width x = some (x % 2 ^ (gtype.width / 2)) := by
  have hbase : gtype.promote.arithmetic (1 * 2 ^ (gtype.width / 2)) =
      some (2 ^ (gtype.width / 2)) := by
    cases gtype <;> rfl
  have hmask : gtype.promote.arithmetic (2 ^ (gtype.width / 2) - 1) =
      some (2 ^ (gtype.width / 2) - 1) := by
    cases gtype <;> rfl
  have hdigit : gtype.InRange (2 ^ (gtype.width / 2) - 1) :=
    inRange_low_digit ⟨sub_nonneg.mpr (one_le_pow₀ (by decide)), sub_one_lt _⟩
  rw [lo, hbase, Option.bind_eq_bind, Option.bind_some, hmask, Option.bind_some,
    IntType.convert_of_inRange hx, IntType.convert_of_inRange hdigit,
    land_two_pow_sub_one]
  rfl

theorem hadd_of_inRange (form : Form) (hx : gtype.InRange x) (hy : gtype.InRange y) :
    hadd form gtype x y = some ((x + y) / 2) := by
  rw [IntType.inRange_iff_isWord] at hx hy
  have hhalves := hx.half_add_half gtype.digitRange hy
  have hsum := hx.half_add hy
  rw [← IntType.inRange_iff_isWord] at hhalves hsum
  rw [hadd, pow_one, IntType.arithmetic_of_inRange (IntType.inRange_operand form hhalves),
    Option.bind_eq_bind, Option.bind_some, halving_add,
    IntType.arithmetic_of_inRange (IntType.inRange_operand form hsum), Option.bind_some,
    IntType.convert_of_inRange hsum]
  rfl

theorem base_mul_base (gtype : IntType) :
    (2 : ℤ) ^ (gtype.width / 2) * 2 ^ (gtype.width / 2) = 2 ^ gtype.width := by
  cases gtype <;> rfl

theorem two_mul_half_base (gtype : IntType) :
    (2 : ℤ) * 2 ^ (gtype.width / 2 - 1) = 2 ^ (gtype.width / 2) := by
  cases gtype <;> rfl

/-- Both branches assemble the four products, once the low one is reduced to its carry. -/
def assembled (form : Form) (gtype : IntType) (ahbh ahbl albh carry : ℤ) : Option ℤ := do
  let mixed ← stored form gtype (albh + carry)
  let half ← hadd form gtype ahbl mixed
  stored form gtype (ahbh + gtype.convert half / 2 ^ (gtype.width / 2 - 1))

theorem assembled_of_inRange (form : Form) {C : ℤ} (hC : C = 2 ^ (gtype.width / 2))
    (ha : gtype.InRange a) (hb : gtype.InRange b) :
    assembled form gtype (a / C * (b / C)) (a / C * (b % C)) (a % C * (b / C))
      (a % C * (b % C) / C) = some (a * b / 2 ^ gtype.width) := by
  have hrange := gtype.digitRange
  rw [IntType.inRange_iff_isWord, ← hC] at ha hb
  rw [← hC] at hrange
  have hpos := hrange.base_pos
  have hcarry := carry_lt (IsWord.emod hrange a) (IsWord.emod hrange b)
  have hahbl := isWord_digit_mul_add hrange (ha.ediv hrange) (IsWord.emod hrange b)
    ⟨le_rfl, hpos⟩
  have hmixed := isWord_digit_mul_add hrange (hb.ediv hrange) (IsWord.emod hrange a) hcarry
  have hhalf := hahbl.half_add hmixed
  have hhigh := ha.high_word hrange hb
  rw [add_zero, mul_comm (b / C)] at hhalf
  rw [add_zero] at hahbl
  rw [mul_comm (b / C)] at hmixed
  have hsum : a / C * (b / C) +
      (a / C * (b % C) + (a % C * (b / C) + a % C * (b % C) / C)) / 2 /
        2 ^ (gtype.width / 2 - 1) = a * b / (C * C) := by
    rw [Int.ediv_ediv_of_nonneg (by decide), two_mul_half_base, ← hC, high_word_eq hpos]
  rw [hC, ← IntType.inRange_iff_isWord, ← hC] at hahbl hmixed hhalf hhigh
  rw [assembled, stored_of_inRange form hmixed, Option.bind_eq_bind, Option.bind_some,
    hadd_of_inRange form hahbl hmixed, Option.bind_some, IntType.convert_of_inRange hhalf, hsum,
    stored_of_inRange form hhigh, hC, base_mul_base]

theorem inRange_high_digit (hx : gtype.InRange x) :
    gtype.InRange (x / 2 ^ (gtype.width / 2)) := by
  have hrange := gtype.digitRange
  have hdigit := ((gtype.inRange_iff_isWord x).mp hx).ediv hrange
  have hone : (1 : ℤ) < 2 ^ (gtype.width / 2) := by cases gtype <;> norm_num [IntType.width]
  have hword := isWord_digit_mul_add hrange hdigit ⟨zero_le_one, hone⟩
    ⟨le_rfl, hrange.base_pos⟩
  rwa [mul_one, add_zero, ← IntType.inRange_iff_isWord] at hword

theorem s2u_of_low_digit (hx : 0 ≤ x ∧ x < 2 ^ (gtype.width / 2)) : s2u gtype x = x := by
  have hux : 0 ≤ x ∧ x < 2 ^ (gtype.ugtype.width / 2) := by rwa [IntType.width_ugtype]
  rw [s2u, IntType.convert_of_inRange (inRange_low_digit hx),
    IntType.convert_of_inRange (inRange_low_digit hux)]

theorem u2s_of_low_digit (hx : 0 ≤ x ∧ x < 2 ^ (gtype.width / 2)) : u2s gtype x = x := by
  have hux : 0 ≤ x ∧ x < 2 ^ (gtype.ugtype.width / 2) := by rwa [IntType.width_ugtype]
  rw [u2s, IntType.convert_of_inRange (inRange_low_digit hux),
    IntType.convert_of_inRange (inRange_low_digit hx)]

theorem inRange_low_product (hx : 0 ≤ x ∧ x < 2 ^ (gtype.width / 2))
    (hy : 0 ≤ y ∧ y < 2 ^ (gtype.width / 2)) : gtype.ugtype.InRange (x * y) := by
  have hdigit {z : ℤ} (hz : 0 ≤ z ∧ z < 2 ^ (gtype.width / 2)) :
      gtype.ugtype.lowDigit ≤ z ∧ z ≤ gtype.ugtype.highDigit := by
    have hlow : gtype.ugtype.lowDigit = 0 := by cases gtype <;> rfl
    have hhigh : gtype.ugtype.highDigit = 2 ^ (gtype.width / 2) - 1 := by cases gtype <;> rfl
    rw [hlow, hhigh]
    exact ⟨hz.1, Int.le_sub_one_of_lt hz.2⟩
  exact (gtype.ugtype.inRange_iff_isWord _).mpr
    (isWord_digit_mul_digit gtype.ugtype.digitRange (hdigit hx) (hdigit hy))

/-- The products with a high digit fit the type. -/
theorem inRange_products (ha : gtype.InRange a) (hb : gtype.InRange b) :
    gtype.InRange (a / 2 ^ (gtype.width / 2) * (b / 2 ^ (gtype.width / 2))) ∧
      gtype.InRange (a / 2 ^ (gtype.width / 2) * (b % 2 ^ (gtype.width / 2))) ∧
      gtype.InRange (a % 2 ^ (gtype.width / 2) * (b / 2 ^ (gtype.width / 2))) := by
  have hrange := gtype.digitRange
  have haDigit := ((gtype.inRange_iff_isWord a).mp ha).ediv hrange
  have hbDigit := ((gtype.inRange_iff_isWord b).mp hb).ediv hrange
  have hal := IsWord.emod hrange a
  have hbl := IsWord.emod hrange b
  have hahbh := isWord_digit_mul_digit hrange haDigit hbDigit
  have hahbl := isWord_digit_mul_add hrange haDigit hbl ⟨le_rfl, hrange.base_pos⟩
  have halbh := isWord_digit_mul_add hrange hbDigit hal ⟨le_rfl, hrange.base_pos⟩
  rw [add_zero] at hahbl
  rw [add_zero, mul_comm] at halbh
  rw [← IntType.inRange_iff_isWord] at hahbh hahbl halbh
  exact ⟨hahbh, hahbl, halbh⟩

theorem mulHi_eq_assembled (form : Form) {C : ℤ} (hC : C = 2 ^ (gtype.width / 2))
    (ha : gtype.InRange a) (hb : gtype.InRange b) :
    mulHi form gtype a b =
      assembled form gtype (a / C * (b / C)) (a / C * (b % C)) (a % C * (b / C))
        (a % C * (b % C) / C) := by
  subst hC
  have hal := IsWord.emod gtype.digitRange a
  have hbl := IsWord.emod gtype.digitRange b
  obtain ⟨hahbh, hahbl, halbh⟩ := inRange_products ha hb
  have halbl := inRange_low_product hal hbl
  unfold mulHi
  simp only [shi, uhi, slo, ulo, lo_of_inRange ha, lo_of_inRange hb,
    IntType.convert_of_inRange ha, IntType.convert_of_inRange hb,
    IntType.convert_of_inRange (inRange_high_digit ha),
    IntType.convert_of_inRange (inRange_high_digit hb),
    IntType.convert_of_inRange (inRange_low_digit hal),
    IntType.convert_of_inRange (inRange_low_digit hbl),
    stored_of_inRange form hahbh, stored_of_inRange form hahbl, stored_of_inRange form halbh,
    Option.bind_eq_bind, Option.bind_some]
  split
  · -- the unsigned product of the low halves is read back as a signed carry
    rw [s2u_of_low_digit hal, s2u_of_low_digit hbl, stored_of_inRange form halbl,
      Option.bind_some, suhi, IntType.convert_of_inRange halbl,
      u2s_of_low_digit (carry_lt hal hbl)]
    rfl
  · rename_i hunsigned
    rw [gtype.ugtype_eq_self_or_convert_lt.resolve_right hunsigned] at halbl
    rw [stored_of_inRange form halbl, Option.bind_some, IntType.convert_of_inRange halbl]
    rfl

/-- No signed sum or product overflows, even where the elements are not promoted. -/
theorem mulHi_exact (form : Form) (gtype : IntType) (a b : ℤ) (ha : gtype.InRange a)
    (hb : gtype.InRange b) : mulHi form gtype a b = some (a * b / 2 ^ gtype.width) := by
  rw [mulHi_eq_assembled form rfl ha hb, assembled_of_inRange form rfl ha hb]

theorem mulHi_exact_least_long :
    IntType.long.InRange (-2 ^ 63) ∧
      mulHi .vector .long (-2 ^ 63) (-2 ^ 63) = some (-2 ^ 63 * -2 ^ 63 / 2 ^ 64) :=
  ⟨by decide, mulHi_exact .vector .long (-2 ^ 63) (-2 ^ 63) (by decide) (by decide)⟩

end Values

end Pocl.MulHi
