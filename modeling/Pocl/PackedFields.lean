import Mathlib.Data.BitVec
import Mathlib.Data.Nat.Bitwise
import Mathlib.Data.Nat.Size
import Mathlib.Tactic

/-!
# Sums of packed fields

A number is read as fields in a base.  Adding every second field to the one above it gives
fields in the square of the base, and the sum of all fields stays the same.  With a power of
two as base, the fields are cut out with a mask.

Three rounds take the bits of a number to the counts of bits in its bytes.
-/

namespace Pocl.PackedFields

/-- The sum of the lowest fields. -/
def fieldSum (base : ℕ) : ℕ → ℕ → ℕ
  | 0, _ => 0
  | count + 1, n => n % base + fieldSum base count (n / base)

/-- Every second field, in the square of the base. -/
def evenFields (base : ℕ) : ℕ → ℕ → ℕ
  | 0, _ => 0
  | count + 1, n => n % base + base * base * evenFields base count (n / (base * base))

/-- All bits of every second field. -/
def evenMask (base : ℕ) : ℕ → ℕ
  | 0 => 0
  | count + 1 => base - 1 + base * base * evenMask base count

/-- The fields are added in pairs. -/
def pairSums (base count n : ℕ) : ℕ :=
  evenFields base count n + evenFields base count (n / base)

def FieldsLe (base bound n : ℕ) : Prop :=
  ∀ index, n / base ^ index % base ≤ bound

section Fields

variable {base bound count n : ℕ}

theorem FieldsLe.zero (hfields : FieldsLe base bound n) : n % base ≤ bound := by
  have hzero := hfields 0
  rwa [pow_zero, Nat.div_one] at hzero

theorem FieldsLe.div (hfields : FieldsLe base bound n) : FieldsLe base bound (n / base) := by
  intro index
  rw [Nat.div_div_eq_div_mul, ← pow_succ']
  exact hfields (index + 1)

theorem FieldsLe.div_div (hfields : FieldsLe base bound n) :
    FieldsLe base bound (n / (base * base)) := by
  rw [← Nat.div_div_eq_div_mul]
  exact hfields.div.div

theorem pairSums_succ (base count n : ℕ) :
    pairSums base (count + 1) n = n % base + n / base % base +
      base * base * pairSums base count (n / (base * base)) := by
  have hswap : n / base / (base * base) = n / (base * base) / base := by
    rw [Nat.div_div_eq_div_mul, Nat.div_div_eq_div_mul, Nat.mul_comm]
  rw [pairSums, evenFields, evenFields, pairSums, hswap]
  ring

theorem pair_lt (hbase : 1 < base) (n : ℕ) :
    n % base + n / base % base < base * base := by
  have hlow := Nat.mod_lt n (Nat.lt_of_succ_lt hbase)
  have hhigh := Nat.mod_lt (n / base) (Nat.lt_of_succ_lt hbase)
  nlinarith

theorem pairSums_succ_mod (hbase : 1 < base) (count n : ℕ) :
    pairSums base (count + 1) n % (base * base) = n % base + n / base % base := by
  rw [pairSums_succ, Nat.add_mul_mod_self_left, Nat.mod_eq_of_lt (pair_lt hbase n)]

theorem pairSums_succ_div (hbase : 1 < base) (count n : ℕ) :
    pairSums base (count + 1) n / (base * base) =
      pairSums base count (n / (base * base)) := by
  have hpos : 0 < base * base := Nat.mul_pos (by omega) (by omega)
  rw [pairSums_succ, Nat.add_mul_div_left _ _ hpos, Nat.div_eq_of_lt (pair_lt hbase n),
    Nat.zero_add]

theorem fieldSum_pairSums (base : ℕ) (hbase : 1 < base) (count n : ℕ) :
    fieldSum (base * base) count (pairSums base count n) = fieldSum base (2 * count) n := by
  induction count generalizing n with
  | zero => rfl
  | succ count ih =>
      rw [Nat.mul_succ, fieldSum, pairSums_succ_mod hbase, pairSums_succ_div hbase, ih, fieldSum,
        fieldSum, Nat.div_div_eq_div_mul, Nat.add_assoc]

theorem pairSums_lt (base : ℕ) (hbase : 1 < base) (count n : ℕ) :
    pairSums base count n < (base * base) ^ count := by
  induction count generalizing n with
  | zero => exact Nat.one_pos
  | succ count ih =>
      have hpair := pair_lt hbase n
      have hrest := ih (n / (base * base))
      rw [pairSums_succ, pow_succ']
      nlinarith

theorem FieldsLe.pairSums (hbase : 1 < base) (hfields : FieldsLe base bound n) (count : ℕ) :
    FieldsLe (base * base) (bound + bound) (pairSums base count n) := by
  intro index
  induction index generalizing count n with
  | zero =>
      rw [pow_zero, Nat.div_one]
      cases count with
      | zero => exact (Nat.zero_mod _).trans_le (Nat.zero_le _)
      | succ count =>
          rw [pairSums_succ_mod hbase]
          exact Nat.add_le_add hfields.zero hfields.div.zero
  | succ index ih =>
      rw [pow_succ', ← Nat.div_div_eq_div_mul]
      cases count with
      | zero =>
          have hzero : PackedFields.pairSums base 0 n = 0 := rfl
          rw [hzero, Nat.zero_div, Nat.zero_div, Nat.zero_mod]
          exact Nat.zero_le _
      | succ count =>
          rw [pairSums_succ_div hbase]
          exact ih hfields.div_div count

/-- A number is made up of its even and its odd fields. -/
theorem evenFields_add (base count n : ℕ) (hlt : n < (base * base) ^ count) :
    evenFields base count n + base * evenFields base count (n / base) = n := by
  induction count generalizing n with
  | zero =>
      obtain rfl : n = 0 := by rwa [pow_zero, Nat.lt_one_iff] at hlt
      rfl
  | succ count ih =>
      have hrest : n / (base * base) < (base * base) ^ count := by
        rw [pow_succ'] at hlt
        exact Nat.div_lt_of_lt_mul hlt
      have hsum := ih _ hrest
      have hdigits := Nat.mod_add_div n base
      have hnext := Nat.mod_add_div (n / base) base
      have hswap : n / base / (base * base) = n / (base * base) / base := by
        rw [Nat.div_div_eq_div_mul, Nat.div_div_eq_div_mul, Nat.mul_comm]
      rw [evenFields, evenFields, hswap]
      rw [Nat.div_div_eq_div_mul] at hnext
      calc n % base + base * base * evenFields base count (n / (base * base)) +
          base * (n / base % base +
            base * base * evenFields base count (n / (base * base) / base))
          = n % base + base * (n / base % base + base *
              (evenFields base count (n / (base * base)) +
                base * evenFields base count (n / (base * base) / base))) := by ring
        _ = n := by rw [hsum, hnext, hdigits]

/-- Where the pairs do not carry, the next field can be added before it is cut out. -/
theorem evenFields_add_div
    (hbase : 1 < base) (hfields : FieldsLe base bound n) (hbound : bound + bound < base)
    (count : ℕ) : evenFields base count (n / base + n) = pairSums base count n := by
  induction count generalizing n with
  | zero => rfl
  | succ count ih =>
      have hlow := hfields.zero
      have hnext := hfields.div.zero
      have hthird := hfields.div_div.zero
      have hdigits := Nat.mod_add_div n base
      have hupper := Nat.mod_add_div (n / base) base
      have hrest := Nat.mod_add_div (n / base / base) base
      have hpos : 0 < base := Nat.lt_of_succ_lt hbase
      rw [← Nat.div_div_eq_div_mul] at hthird
      have hsum : n / base + n = n % base + n / base % base +
          base * (n / base % base + n / base / base % base) +
            base * base * (n / (base * base) / base + n / (base * base)) := by
        rw [← Nat.div_div_eq_div_mul]
        calc n / base + n
            = n / base % base + base * (n / base / base % base +
                base * (n / base / base / base)) +
              (n % base + base * (n / base % base + base * (n / base / base))) := by
              rw [hrest, hupper, hdigits]
          _ = _ := by ring
      have hsmall : n % base + n / base % base +
          base * (n / base % base + n / base / base % base) < base * base := by
        have hle : base * (n / base % base + n / base / base % base) ≤ base * (base - 1) :=
          Nat.mul_le_mul_left _ (by omega)
        have hsquare : base * (base - 1) + base = base * base := by
          rw [← Nat.mul_succ, Nat.succ_eq_add_one, Nat.sub_add_cancel (by omega)]
        omega
      have hmod : (n / base + n) % base = n % base + n / base % base := by
        rw [hsum, Nat.mul_assoc base base, Nat.add_mul_mod_self_left, Nat.add_mul_mod_self_left]
        exact Nat.mod_eq_of_lt (by omega)
      have hdiv : (n / base + n) / (base * base) =
          n / (base * base) / base + n / (base * base) := by
        rw [hsum, Nat.add_mul_div_left _ _ (Nat.mul_pos hpos hpos), Nat.div_eq_of_lt hsmall,
          Nat.zero_add]
      rw [pairSums_succ, evenFields, hmod, hdiv, ih hfields.div_div]

end Fields

section Masks

variable {size count n : ℕ}

theorem evenMask_succ_mod (size count : ℕ) :
    evenMask (2 ^ size) (count + 1) % (2 ^ size * 2 ^ size) = 2 ^ size - 1 := by
  have hpos := Nat.two_pow_pos size
  have hle : 2 ^ size * 1 ≤ 2 ^ size * 2 ^ size := Nat.mul_le_mul_left _ hpos
  rw [evenMask, Nat.add_mul_mod_self_left]
  exact Nat.mod_eq_of_lt (by omega)

theorem evenMask_succ_div (size count : ℕ) :
    evenMask (2 ^ size) (count + 1) / (2 ^ size * 2 ^ size) = evenMask (2 ^ size) count := by
  have hpos := Nat.two_pow_pos size
  have hle : 2 ^ size * 1 ≤ 2 ^ size * 2 ^ size := Nat.mul_le_mul_left _ hpos
  rw [evenMask, Nat.add_mul_div_left _ _ (Nat.mul_pos hpos hpos),
    Nat.div_eq_of_lt (by omega), Nat.zero_add]

theorem and_evenMask (size count n : ℕ) :
    n &&& evenMask (2 ^ size) count = evenFields (2 ^ size) count n := by
  induction count generalizing n with
  | zero => exact Nat.and_zero n
  | succ count ih =>
      have hsquare : 2 ^ size * 2 ^ size = 2 ^ (size + size) := (pow_add 2 size size).symm
      have hmod := Nat.and_mod_two_pow (a := n) (b := evenMask (2 ^ size) (count + 1))
        (n := size + size)
      have hdiv := Nat.and_div_two_pow (a := n) (b := evenMask (2 ^ size) (count + 1))
        (n := size + size)
      rw [← hsquare, evenMask_succ_mod, Nat.and_two_pow_sub_one_eq_mod,
        Nat.mod_mul_right_mod] at hmod
      rw [← hsquare, evenMask_succ_div, ih] at hdiv
      rw [← Nat.mod_add_div (n &&& evenMask (2 ^ size) (count + 1)) (2 ^ size * 2 ^ size), hmod,
        hdiv, evenFields]

end Masks

section Bits

variable {count n : ℕ}

theorem fieldsLe_bits (n : ℕ) : FieldsLe 2 1 n :=
  fun index => Nat.lt_succ_iff.mp (Nat.mod_lt _ (by decide))

theorem sub_evenFields (hlt : n < 4 ^ count) :
    n - evenFields 2 count (n / 2) = pairSums 2 count n := by
  have hsum := evenFields_add 2 count n hlt
  rw [pairSums]
  omega

theorem fieldSum_succ_top (base count n : ℕ) :
    fieldSum base (count + 1) n = fieldSum base count n + n / base ^ count % base := by
  induction count generalizing n with
  | zero => rw [pow_zero, Nat.div_one, fieldSum, fieldSum, fieldSum, Nat.add_comm]
  | succ count ih =>
      rw [fieldSum, ih, fieldSum, Nat.div_div_eq_div_mul, ← pow_succ', Nat.add_assoc]

theorem fieldSum_of_lt {base : ℕ} (hbase : 0 < base) (hlt : n < base ^ count) (extra : ℕ) :
    fieldSum base (count + extra) n = fieldSum base count n := by
  induction extra with
  | zero => rfl
  | succ extra ih =>
      have hle : base ^ count ≤ base ^ (count + extra) :=
        Nat.pow_le_pow_right hbase (Nat.le_add_right _ _)
      rw [← Nat.add_assoc, fieldSum_succ_top, ih, Nat.div_eq_of_lt (hlt.trans_le hle),
        Nat.zero_mod, Nat.add_zero]

theorem cpopNatRec_eq_fieldSum {w : ℕ} (x : BitVec w) (count : ℕ) :
    x.cpopNatRec count 0 = fieldSum 2 count x.toNat := by
  induction count with
  | zero => rfl
  | succ count ih =>
      rw [BitVec.cpopNatRec_succ, BitVec.cpopNatRec_eq, ih, fieldSum_succ_top, Nat.zero_add,
        BitVec.getLsbD, Nat.testBit_eq_decide_div_mod_eq]
      rcases Nat.mod_two_eq_zero_or_one (x.toNat / 2 ^ count) with hbit | hbit
      · rw [hbit]
        rfl
      · rw [hbit]
        rfl

theorem cpop_toNat {w : ℕ} (x : BitVec w) : x.cpop.toNat = fieldSum 2 w x.toNat := by
  have hle := BitVec.cpopNatRec_zero_le x w
  rw [BitVec.cpop, BitVec.toNat_ofNat, ← cpopNatRec_eq_fieldSum]
  exact Nat.mod_eq_of_lt (Nat.lt_of_le_of_lt hle Nat.lt_two_pow_self)

theorem fieldSum_two_pow_sub_one {exponent : ℕ} (hle : exponent ≤ count) :
    fieldSum 2 count (2 ^ exponent - 1) = exponent := by
  induction count generalizing exponent with
  | zero =>
      obtain rfl : exponent = 0 := Nat.le_zero.mp hle
      rfl
  | succ count ih =>
      cases exponent with
      | zero =>
          have hzero := ih (Nat.zero_le count)
          rw [pow_zero, Nat.sub_self] at hzero ⊢
          rw [fieldSum, Nat.zero_mod, Nat.zero_add, Nat.zero_div, hzero]
      | succ exponent =>
          have hpos := Nat.two_pow_pos exponent
          have hmod : (2 ^ (exponent + 1) - 1) % 2 = 1 := by
            rw [pow_succ]
            omega
          have hdiv : (2 ^ (exponent + 1) - 1) / 2 = 2 ^ exponent - 1 := by
            rw [pow_succ]
            omega
          rw [fieldSum, hmod, hdiv, ih (Nat.succ_le_succ_iff.mp hle), Nat.add_comm]

theorem clz_toNat {w : ℕ} (hw : 0 < w) (x : BitVec w) : x.clz.toNat = w - x.toNat.size := by
  have hupper := BitVec.toNat_lt_two_pow_sub_clz (x := x)
  have hsize : x.toNat.size ≤ w - x.clz.toNat := Nat.size_le.mpr hupper
  by_cases hzero : x = 0#w
  · rw [BitVec.clz_eq_iff_eq_zero.mpr hzero, hzero, BitVec.toNat_ofNat, Nat.zero_mod,
      Nat.size_zero, Nat.sub_zero, BitVec.natCast_eq_ofNat, BitVec.toNat_ofNat]
    exact Nat.mod_eq_of_lt Nat.lt_two_pow_self
  · have hlower := Nat.lt_size.mpr (BitVec.two_pow_sub_clz_le_toNat_of_ne_zero hw hzero)
    omega

end Bits

end Pocl.PackedFields
