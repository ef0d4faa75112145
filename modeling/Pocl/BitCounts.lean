import Pocl.BitPatterns
import Pocl.BitSmearing
import Pocl.MulHi
import Pocl.PackedFields

/-!
# Counting bits

The kernel library for TCE counts bits with parallel sums, and leading zeros with the count of
a smeared word.  The generic library takes both from the compiler.

The arguments are bit patterns.  An operand narrower than `int` is promoted before an
operation, and the result is cut when it is stored.
-/

namespace Pocl.BitCounts

open BitPatterns BitSmearing MulHi PackedFields

/-- The number that a pattern of the type stands for. -/
def value (type : IntType) (pattern : BitVec type.width) : ℤ :=
  if type.signed then pattern.toInt else pattern.toNat

section Tce

/-- The first three lines of the macros, with the width of the operands and the masks. -/
def countBytes {w : ℕ} (operand : ℕ) (mask1 mask2 mask4 : BitVec operand) (n : BitVec w) :
    BitVec w :=
  let n := (n.setWidth operand - ((n.setWidth operand >>> 1) &&& mask1)).setWidth w
  let n := (((n.setWidth operand >>> 2) &&& mask2) + (n.setWidth operand &&& mask2)).setWidth w
  (((n.setWidth operand >>> 4) + n.setWidth operand) &&& mask4).setWidth w

/-- `__n += __n >> shift` -/
def addUpper {w : ℕ} (operand shift : ℕ) (n : BitVec w) : BitVec w :=
  (n.setWidth operand + n.setWidth operand >>> shift).setWidth w

def popcount0uhh (n : BitVec 8) : BitVec 8 :=
  countBytes 32 0x55 0x33 0x0f n

def popcount0uh (n : BitVec 16) : BitVec 32 :=
  let n := countBytes 32 0x5555 0x3333 0x0f0f n
  let n := addUpper 32 8 n
  n.setWidth 32 &&& 0x001f

def popcount0u (n : BitVec 32) : BitVec 32 :=
  let n := countBytes 32 0x55555555 0x33333333 0x0f0f0f0f n
  let n := addUpper 32 8 n
  let n := addUpper 32 16 n
  n &&& 0x0000003f

def popcount0ul (n : BitVec 64) : BitVec 64 :=
  let n := countBytes 64 0x5555555555555555 0x3333333333333333 0x0f0f0f0f0f0f0f0f n
  let n := addUpper 64 8 n
  let n := addUpper 64 16 n
  let n := addUpper 64 32 n
  n &&& 0x000000000000007f

/-- The macros for the signed types are those for the unsigned ones. -/
def tcePopcount : (type : IntType) → BitVec type.width → BitVec type.width
  | .char, a => popcount0uhh a
  | .uchar, a => popcount0uhh a
  | .short, a => (popcount0uh a).setWidth 16
  | .ushort, a => (popcount0uh a).setWidth 16
  | .int, a => popcount0u a
  | .uint, a => popcount0u a
  | .long, a => popcount0ul a
  | .ulong, a => popcount0ul a

def tceClz0uhh (n : BitVec 8) : BitVec 32 :=
  let n := n ||| n >>> 1
  let n := n ||| n >>> 2
  let n := n ||| n >>> 4
  8 - (tcePopcount .uchar n).setWidth 32

def tceClz0uh (n : BitVec 16) : BitVec 32 :=
  let n := n ||| n >>> 1
  let n := n ||| n >>> 2
  let n := n ||| n >>> 4
  let n := n ||| n >>> 8
  16 - (tcePopcount .ushort n).setWidth 32

def tceClz0u (n : BitVec 32) : BitVec 32 :=
  let n := n ||| n >>> 1
  let n := n ||| n >>> 2
  let n := n ||| n >>> 4
  let n := n ||| n >>> 8
  let n := n ||| n >>> 16
  let count : BitVec 32 := tcePopcount .uint n
  32 - count

def tceClz0ul (n : BitVec 64) : BitVec 64 :=
  let n := n ||| n >>> 1
  let n := n ||| n >>> 2
  let n := n ||| n >>> 4
  let n := n ||| n >>> 8
  let n := n ||| n >>> 16
  let n := n ||| n >>> 32
  let count : BitVec 64 := tcePopcount .ulong n
  64 - count

def tceClz : (type : IntType) → BitVec type.width → BitVec type.width
  | .char, a => (tceClz0uhh a).setWidth 8
  | .uchar, a => (tceClz0uhh a).setWidth 8
  | .short, a => (tceClz0uh a).setWidth 16
  | .ushort, a => (tceClz0uh a).setWidth 16
  | .int, a => tceClz0u a
  | .uint, a => tceClz0u a
  | .long, a => tceClz0ul a
  | .ulong, a => tceClz0ul a

end Tce

/-- The functions of the compiler; they return an `int`. -/
structure CompilerBuiltins where
  popcount : BitVec 32 → BitVec 32
  popcountl : BitVec 64 → BitVec 32
  clzs : BitVec 16 → BitVec 32
  clz : BitVec 32 → BitVec 32
  clzl : BitVec 64 → BitVec 32

/-- The counts are documented, but not the leading zeros of zero. -/
structure CompilerBuiltins.Documented (builtins : CompilerBuiltins) : Prop where
  popcount : ∀ n, (builtins.popcount n).toNat = n.cpop.toNat
  popcountl : ∀ n, (builtins.popcountl n).toNat = n.cpop.toNat
  clzs : ∀ n, n ≠ 0 → (builtins.clzs n).toNat = n.clz.toNat
  clz : ∀ n, n ≠ 0 → (builtins.clz n).toNat = n.clz.toNat
  clzl : ∀ n, n ≠ 0 → (builtins.clzl n).toNat = n.clz.toNat

section Generic

variable (builtins : CompilerBuiltins)

/-- `(int)(n)` is the argument. -/
def popcounthh (n : BitVec 32) : BitVec 32 :=
  builtins.popcount (n &&& 0xff)

def popcounth (n : BitVec 32) : BitVec 32 :=
  builtins.popcount (n &&& 0xffff)

def genericPopcount : (type : IntType) → BitVec type.width → BitVec type.width
  | .char, a => (popcounthh builtins (BitVec.signExtend 32 a)).setWidth 8
  | .uchar, a => (popcounthh builtins (BitVec.setWidth 32 a)).setWidth 8
  | .short, a => (popcounth builtins (BitVec.signExtend 32 a)).setWidth 16
  | .ushort, a => (popcounth builtins (BitVec.setWidth 32 a)).setWidth 16
  | .int, a => builtins.popcount a
  | .uint, a => builtins.popcount a
  | .long, a => (builtins.popcountl a).signExtend 64
  | .ulong, a => (builtins.popcountl a).signExtend 64

def clz0uh (n : BitVec 16) : BitVec 32 :=
  if n = 0 then 16 else builtins.clzs n

def clz0uhh (n : BitVec 8) : BitVec 32 :=
  clz0uh builtins (n.setWidth 16) - 8

def clz0u (n : BitVec 32) : BitVec 32 :=
  if n = 0 then 32 else builtins.clz n

def clz0ul (n : BitVec 64) : BitVec 32 :=
  if n = 0 then 64 else builtins.clzl n

def genericClz : (type : IntType) → BitVec type.width → BitVec type.width
  | .char, a => (clz0uhh builtins a).setWidth 8
  | .uchar, a => (clz0uhh builtins a).setWidth 8
  | .short, a => (clz0uh builtins a).setWidth 16
  | .ushort, a => (clz0uh builtins a).setWidth 16
  | .int, a => clz0u builtins a
  | .uint, a => clz0u builtins a
  | .long, a => (clz0ul builtins a).signExtend 64
  | .ulong, a => (clz0ul builtins a).signExtend 64

end Generic

section Counts

variable {w operand : ℕ} {mask1 mask2 mask4 : BitVec operand}

/-- The counts of bits in the bytes. -/
def byteCounts (bytes n : ℕ) : ℕ :=
  pairSums 16 bytes (pairSums 4 (2 * bytes) (pairSums 2 (4 * bytes) n))

theorem byteCounts_fieldsLe (bytes n : ℕ) : FieldsLe 256 8 (byteCounts bytes n) :=
  (((fieldsLe_bits n).pairSums (by decide) (4 * bytes)).pairSums (by decide)
    (2 * bytes)).pairSums (by decide) bytes

theorem byteCounts_lt (bytes n : ℕ) : byteCounts bytes n < 256 ^ bytes :=
  pairSums_lt 16 (by decide) bytes _

theorem fieldSum_byteCounts (bytes n : ℕ) :
    fieldSum 256 bytes (byteCounts bytes n) = fieldSum 2 (8 * bytes) n := by
  have hbytes := fieldSum_pairSums 16 (by decide) bytes
    (pairSums 4 (2 * bytes) (pairSums 2 (4 * bytes) n))
  have hfours := fieldSum_pairSums 4 (by decide) (2 * bytes)
    (pairSums 2 (4 * bytes) n)
  have hbits := fieldSum_pairSums 2 (by decide) (4 * bytes) n
  rw [← Nat.mul_assoc] at hfours hbits
  exact hbytes.trans (hfours.trans hbits)

theorem bytes_size {bytes : ℕ} (hw : w = 8 * bytes) : 256 ^ bytes = 2 ^ w := by
  rw [hw, pow_mul]
  rfl

/-- The first round takes the high bit of each pair away once. -/
theorem firstRound_toNat (bytes : ℕ) (hw : w = 8 * bytes) (hoperand : w ≤ operand)
    (hmask1 : mask1.toNat = evenMask 2 (4 * bytes)) (n : BitVec w) :
    ((n.setWidth operand - ((n.setWidth operand >>> 1) &&& mask1)).setWidth w).toNat =
      pairSums 2 (4 * bytes) n.toNat := by
  have hlt : n.toNat < 4 ^ (4 * bytes) := by
    rw [pow_mul]
    exact bytes_size hw ▸ n.isLt
  have hwide : (n.setWidth operand).toNat = n.toNat := BitVec.toNat_setWidth_of_le hoperand
  have hodd : ((n.setWidth operand >>> 1) &&& mask1).toNat =
      evenFields 2 (4 * bytes) (n.toNat / 2) := by
    rw [BitVec.toNat_and, BitVec.toNat_ushiftRight, hwide, hmask1, Nat.shiftRight_eq_div_pow]
    exact and_evenMask 1 _ _
  have hsum := evenFields_add 2 (4 * bytes) n.toNat hlt
  have hpairs := pairSums_lt 2 (by decide) (4 * bytes) n.toNat
  rw [pow_mul] at hpairs
  rw [BitVec.toNat_setWidth, BitVec.toNat_sub_of_le, hwide, hodd, sub_evenFields hlt]
  · exact Nat.mod_eq_of_lt (bytes_size hw ▸ hpairs)
  · rw [BitVec.le_def, hodd, hwide]
    omega

theorem secondRound_toNat (bytes : ℕ) (hw : w = 8 * bytes) (hoperand : w ≤ operand)
    (hmask2 : mask2.toNat = evenMask 4 (2 * bytes)) (n : BitVec w) :
    ((((n.setWidth operand >>> 2) &&& mask2) + (n.setWidth operand &&& mask2)).setWidth
      w).toNat = pairSums 4 (2 * bytes) n.toNat := by
  have hpow : 2 ^ w ≤ 2 ^ operand := Nat.pow_le_pow_right (by decide) hoperand
  have hwide : (n.setWidth operand).toNat = n.toNat := BitVec.toNat_setWidth_of_le hoperand
  have hodd : ((n.setWidth operand >>> 2) &&& mask2).toNat =
      evenFields 4 (2 * bytes) (n.toNat / 4) := by
    rw [BitVec.toNat_and, BitVec.toNat_ushiftRight, hwide, hmask2, Nat.shiftRight_eq_div_pow]
    exact and_evenMask 2 _ _
  have heven : (n.setWidth operand &&& mask2).toNat = evenFields 4 (2 * bytes) n.toNat := by
    rw [BitVec.toNat_and, hwide, hmask2]
    exact and_evenMask 2 _ _
  have hpairs := pairSums_lt 4 (by decide) (2 * bytes) n.toNat
  rw [pow_mul] at hpairs
  have hlt : pairSums 4 (2 * bytes) n.toNat < 2 ^ w := bytes_size hw ▸ hpairs
  rw [BitVec.toNat_setWidth, BitVec.toNat_add, hodd, heven, Nat.add_comm, ← pairSums,
    Nat.mod_eq_of_lt (hlt.trans_le hpow), Nat.mod_eq_of_lt hlt]

/-- The last round cuts the sums out once, which is right for small counts only. -/
theorem thirdRound_toNat (bytes : ℕ) (hw : w = 8 * bytes) (hoperand : w ≤ operand)
    (hmask4 : mask4.toNat = evenMask 16 bytes) {n : BitVec w} (hfields : FieldsLe 16 4 n.toNat) :
    ((((n.setWidth operand >>> 4) + n.setWidth operand) &&& mask4).setWidth w).toNat =
      pairSums 16 bytes n.toNat := by
  have hwide : (n.setWidth operand).toNat = n.toNat := BitVec.toNat_setWidth_of_le hoperand
  have hlt : pairSums 16 bytes n.toNat < 2 ^ w :=
    bytes_size hw ▸ pairSums_lt 16 (by decide) bytes n.toNat
  have hmask : ∀ sum, sum % 2 ^ operand &&& mask4.toNat = sum &&& mask4.toNat := by
    intro sum
    have hle : sum &&& mask4.toNat ≤ mask4.toNat := Nat.and_le_right
    rw [← Nat.mod_eq_of_lt (Nat.lt_of_le_of_lt hle mask4.isLt), Nat.and_mod_two_pow,
      Nat.mod_eq_of_lt mask4.isLt]
  have hsum := and_evenMask 4 bytes (n.toNat / 16 + n.toNat)
  change _ &&& evenMask 16 bytes = evenFields 16 bytes _ at hsum
  rw [BitVec.toNat_setWidth, BitVec.toNat_and, BitVec.toNat_add, BitVec.toNat_ushiftRight,
    hwide, hmask, hmask4, Nat.shiftRight_eq_div_pow, hsum,
    evenFields_add_div (by decide) hfields (by decide), Nat.mod_eq_of_lt hlt]

theorem countBytes_toNat
    (bytes : ℕ) (hw : w = 8 * bytes) (hoperand : w ≤ operand)
    (hmask1 : mask1.toNat = evenMask 2 (4 * bytes))
    (hmask2 : mask2.toNat = evenMask 4 (2 * bytes)) (hmask4 : mask4.toNat = evenMask 16 bytes)
    (n : BitVec w) :
    (countBytes operand mask1 mask2 mask4 n).toNat = byteCounts bytes n.toNat := by
  have hfirst := firstRound_toNat bytes hw hoperand hmask1 n
  have hsecond := secondRound_toNat bytes hw hoperand hmask2
    ((n.setWidth operand - ((n.setWidth operand >>> 1) &&& mask1)).setWidth w)
  have hfields := ((fieldsLe_bits n.toNat).pairSums (by decide) (4 * bytes)).pairSums
    (by decide) (2 * bytes)
  rw [← hfirst, ← hsecond] at hfields
  rw [countBytes, thirdRound_toNat bytes hw hoperand hmask4 hfields, hsecond, hfirst,
    byteCounts]

theorem addUpper_toNat (hoperand : w ≤ operand) (shift : ℕ) (n : BitVec w) :
    (addUpper operand shift n).toNat = (n.toNat + n.toNat / 2 ^ shift) % 2 ^ w := by
  rw [addUpper, BitVec.toNat_setWidth, BitVec.toNat_add, BitVec.toNat_ushiftRight,
    BitVec.toNat_setWidth_of_le hoperand, Nat.shiftRight_eq_div_pow]
  exact Nat.mod_mod_of_dvd _ (Nat.pow_dvd_pow 2 hoperand)

theorem upper_sum2 {sum : ℕ} (hfields : FieldsLe 256 8 sum) :
    (sum + sum / 256) % 2 ^ 16 % 2 ^ 5 = fieldSum 256 2 sum := by
  have hzero := hfields.zero
  have hone := hfields.div.zero
  rw [fieldSum, fieldSum, fieldSum]
  omega

theorem div_two_bytes {n0 n1 n2 n3 byte0 byte1 byte2 : ℕ}
    (hn0 : n0 = byte0 + 256 * n1) (hn1 : n1 = byte1 + 256 * n2) (hn2 : n2 = byte2 + 256 * n3)
    (hbyte0 : byte0 ≤ 8) (hbyte1 : byte1 ≤ 8) (hbyte2 : byte2 ≤ 8) :
    (n0 + n1) / 2 ^ 16 = n2 + n3 := by
  omega

theorem byte_sum_add {n0 n1 n2 n3 byte0 byte1 byte2 : ℕ}
    (hn0 : n0 = byte0 + 256 * n1) (hn1 : n1 = byte1 + 256 * n2) (hn2 : n2 = byte2 + 256 * n3) :
    n0 + n1 = byte0 + byte1 + 256 * (byte1 + byte2) + 2 ^ 16 * (n2 + n3) := by
  omega

theorem div_four_bytes {n0 n2 n4 n6 low0 low2 low4 : ℕ}
    (hn0 : n0 = low0 + 2 ^ 16 * n2) (hn2 : n2 = low2 + 2 ^ 16 * n4)
    (hn4 : n4 = low4 + 2 ^ 16 * n6)
    (hlow0 : low0 < 2 ^ 14) (hlow2 : low2 < 2 ^ 14) (hlow4 : low4 < 2 ^ 14) :
    (n0 + n2) / 2 ^ 32 = n4 + n6 := by
  omega

theorem eq_byte_add {n : ℕ} (hfields : FieldsLe 256 8 n) :
    n = n % 256 + 256 * (n / 256) ∧ n % 256 ≤ 8 :=
  ⟨(Nat.mod_add_div n 256).symm, hfields.zero⟩

theorem upper_sum4 {sum : ℕ} (hfields : FieldsLe 256 8 sum) (hlt : sum < 256 ^ 4) :
    ((sum + sum / 256) % 2 ^ 32 + (sum + sum / 256) % 2 ^ 32 / 2 ^ 16) % 2 ^ 32 % 2 ^ 6 =
      fieldSum 256 4 sum := by
  obtain ⟨hn0, hbyte0⟩ := eq_byte_add hfields
  obtain ⟨hn1, hbyte1⟩ := eq_byte_add hfields.div
  obtain ⟨hn2, hbyte2⟩ := eq_byte_add hfields.div.div
  have hbyte3 := hfields.div.div.div.zero
  have hdiv := div_two_bytes hn0 hn1 hn2 hbyte0 hbyte1 hbyte2
  have htop : sum / 256 / 256 / 256 < 256 := by omega
  rw [Nat.mod_eq_of_lt htop] at hbyte3
  simp only [fieldSum, Nat.mod_eq_of_lt htop]
  generalize sum / 256 / 256 / 256 = n3 at *
  generalize sum / 256 / 256 = n2 at *
  generalize sum / 256 = n1 at *
  have hfirst : sum + n1 < 2 ^ 32 := by omega
  rw [Nat.mod_eq_of_lt hfirst, hdiv]
  omega

theorem upper_sum8 {sum : ℕ} (hfields : FieldsLe 256 8 sum) (hlt : sum < 256 ^ 8)
    {first second : ℕ} (hfirst : first = (sum + sum / 256) % 2 ^ 64)
    (hsecond : second = (first + first / 2 ^ 16) % 2 ^ 64) :
    (second + second / 2 ^ 32) % 2 ^ 64 % 2 ^ 7 = fieldSum 256 8 sum := by
  obtain ⟨hn0, hbyte0⟩ := eq_byte_add hfields
  obtain ⟨hn1, hbyte1⟩ := eq_byte_add hfields.div
  obtain ⟨hn2, hbyte2⟩ := eq_byte_add hfields.div.div
  obtain ⟨hn3, hbyte3⟩ := eq_byte_add hfields.div.div.div
  obtain ⟨hn4, hbyte4⟩ := eq_byte_add hfields.div.div.div.div
  obtain ⟨hn5, hbyte5⟩ := eq_byte_add hfields.div.div.div.div.div
  obtain ⟨hn6, hbyte6⟩ := eq_byte_add hfields.div.div.div.div.div.div
  have hbyte7 := hfields.div.div.div.div.div.div.div.zero
  have hdiv := div_two_bytes hn0 hn1 hn2 hbyte0 hbyte1 hbyte2
  have htop : sum / 256 / 256 / 256 / 256 / 256 / 256 / 256 < 256 := by
    simp only [Nat.div_div_eq_div_mul]
    exact Nat.div_lt_of_lt_mul hlt
  rw [Nat.mod_eq_of_lt htop] at hbyte7
  simp only [fieldSum, Nat.mod_eq_of_lt htop]
  generalize sum / 256 / 256 / 256 / 256 / 256 / 256 / 256 = n7 at *
  generalize sum / 256 / 256 / 256 / 256 / 256 / 256 = n6 at *
  generalize sum / 256 / 256 / 256 / 256 / 256 = n5 at *
  generalize sum / 256 / 256 / 256 / 256 = n4 at *
  generalize sum / 256 / 256 / 256 = n3 at *
  generalize sum / 256 / 256 = n2 at *
  generalize sum / 256 = n1 at *
  have hpair0 := byte_sum_add hn0 hn1 hn2
  have hpair2 := byte_sum_add hn2 hn3 hn4
  have hpair4 := byte_sum_add hn4 hn5 hn6
  have hdiv4 := div_four_bytes hpair0 hpair2 hpair4 (by omega) (by omega) (by omega)
  have hsum : sum + n1 + (n2 + n3) + (n4 + n5 + (n6 + n7)) < 2 ^ 64 := by omega
  rw [Nat.mod_eq_of_lt (by omega)] at hfirst
  rw [hfirst, hdiv, Nat.mod_eq_of_lt (by omega)] at hsecond
  rw [hsecond, hdiv4, Nat.mod_eq_of_lt hsum]
  clear hpair0 hpair2 hpair4 hdiv hdiv4 hsum hfirst hsecond
  omega

theorem popcount0uhh_toNat (n : BitVec 8) : (popcount0uhh n).toNat = n.cpop.toNat := by
  have hcount : (popcount0uhh n).toNat = byteCounts 1 n.toNat :=
    countBytes_toNat 1 rfl (by decide) rfl rfl rfl n
  have hlt : byteCounts 1 n.toNat < 256 := byteCounts_lt 1 n.toNat
  have hsum := fieldSum_byteCounts 1 n.toNat
  rw [fieldSum, fieldSum, Nat.mod_eq_of_lt hlt, Nat.add_zero] at hsum
  rw [cpop_toNat, hcount, hsum]

theorem popcount0uh_toNat (n : BitVec 16) : (popcount0uh n).toNat = n.cpop.toNat := by
  have hcount : (countBytes 32 0x5555 0x3333 0x0f0f n).toNat = byteCounts 2 n.toNat :=
    countBytes_toNat 2 rfl (by decide) rfl rfl rfl n
  rw [cpop_toNat, popcount0uh, BitVec.toNat_and, BitVec.toNat_setWidth_of_le (by decide),
    addUpper_toNat (by decide), hcount]
  exact (Nat.and_two_pow_sub_one_eq_mod _ 5).trans
    ((upper_sum2 (byteCounts_fieldsLe 2 _)).trans (fieldSum_byteCounts 2 n.toNat))

theorem popcount0u_toNat (n : BitVec 32) : (popcount0u n).toNat = n.cpop.toNat := by
  have hcount : (countBytes 32 0x55555555 0x33333333 0x0f0f0f0f n).toNat =
      byteCounts 4 n.toNat :=
    countBytes_toNat 4 rfl (by decide) rfl rfl rfl n
  rw [cpop_toNat, popcount0u, BitVec.toNat_and, addUpper_toNat (by decide),
    addUpper_toNat (by decide), hcount]
  exact (Nat.and_two_pow_sub_one_eq_mod _ 6).trans
    ((upper_sum4 (byteCounts_fieldsLe 4 _) (byteCounts_lt 4 _)).trans
      (fieldSum_byteCounts 4 n.toNat))

theorem popcount0ul_toNat (n : BitVec 64) : (popcount0ul n).toNat = n.cpop.toNat := by
  have hcount : (countBytes 64 0x5555555555555555 0x3333333333333333 0x0f0f0f0f0f0f0f0f
      n).toNat = byteCounts 8 n.toNat :=
    countBytes_toNat 8 rfl (by decide) rfl rfl rfl n
  rw [cpop_toNat, popcount0ul, BitVec.toNat_and, addUpper_toNat (by decide),
    addUpper_toNat (by decide), addUpper_toNat (by decide), hcount]
  exact (Nat.and_two_pow_sub_one_eq_mod _ 7).trans
    ((upper_sum8 (byteCounts_fieldsLe 8 _) (byteCounts_lt 8 _) rfl rfl).trans
      (fieldSum_byteCounts 8 n.toNat))

theorem stored_toNat {narrow wide n : ℕ} {word : BitVec wide} (hword : word.toNat = n)
    (hlt : n < 2 ^ narrow) : (word.setWidth narrow).toNat = n := by
  rw [BitVec.toNat_setWidth, hword, Nat.mod_eq_of_lt hlt]

theorem tcePopcount_toNat (type : IntType) (x : BitVec type.width) :
    (tcePopcount type x).toNat = x.cpop.toNat := by
  have hle := BitVec.toNat_cpop_le x
  cases type with
  | char => exact popcount0uhh_toNat x
  | uchar => exact popcount0uhh_toNat x
  | short => exact (stored_toNat (popcount0uh_toNat x) (Nat.lt_of_le_of_lt hle (by decide)))
  | ushort => exact (stored_toNat (popcount0uh_toNat x) (Nat.lt_of_le_of_lt hle (by decide)))
  | int => exact popcount0u_toNat x
  | uint => exact popcount0u_toNat x
  | long => exact popcount0ul_toNat x
  | ulong => exact popcount0ul_toNat x

end Counts

section LeadingZeros

variable {w wide : ℕ} {x : BitVec w}

theorem clz_le_width (x : BitVec w) : x.clz.toNat ≤ w := by
  rcases Nat.eq_zero_or_pos w with rfl | hpos
  · rw [BitVec.of_length_zero (x := x)]
    rfl
  · rw [clz_toNat hpos]
    exact Nat.sub_le _ _

theorem cpop_of_smeared {word smeared : BitVec w} (hsmeared : Smeared word smeared w) :
    smeared.cpop.toNat = word.toNat.size := by
  rw [cpop_toNat, hsmeared.toNat, fieldSum_two_pow_sub_one (Nat.size_le.mpr word.isLt)]

theorem sub_count_toNat
    {count total : BitVec wide} (hw : 0 < w) (htotal : total.toNat = w)
    (hcount : count.toNat = x.toNat.size) :
    (total - count).toNat = x.clz.toNat := by
  have hle : x.toNat.size ≤ w := Nat.size_le.mpr x.isLt
  rw [BitVec.toNat_sub_of_le, htotal, hcount, clz_toNat hw]
  rwa [BitVec.le_def, htotal, hcount]

theorem tceClz0uhh_toNat (n : BitVec 8) : (tceClz0uhh n).toNat = n.clz.toNat := by
  refine sub_count_toNat (by decide) rfl ?_
  rw [BitVec.toNat_setWidth_of_le (by decide)]
  refine (tcePopcount_toNat .uchar _).trans ?_
  exact cpop_of_smeared (Smeared.refl n).double.double.double

theorem tceClz0uh_toNat (n : BitVec 16) : (tceClz0uh n).toNat = n.clz.toNat := by
  refine sub_count_toNat (by decide) rfl ?_
  rw [BitVec.toNat_setWidth_of_le (by decide)]
  refine (tcePopcount_toNat .ushort _).trans ?_
  exact cpop_of_smeared (Smeared.refl n).double.double.double.double

theorem tceClz0u_toNat (n : BitVec 32) : (tceClz0u n).toNat = n.clz.toNat := by
  refine sub_count_toNat (by decide) rfl ((tcePopcount_toNat .uint _).trans ?_)
  exact cpop_of_smeared (Smeared.refl n).double.double.double.double.double

theorem tceClz0ul_toNat (n : BitVec 64) : (tceClz0ul n).toNat = n.clz.toNat := by
  refine sub_count_toNat (by decide) rfl ((tcePopcount_toNat .ulong _).trans ?_)
  exact cpop_of_smeared (Smeared.refl n).double.double.double.double.double.double

theorem tceClz_toNat (type : IntType) (x : BitVec type.width) :
    (tceClz type x).toNat = x.clz.toNat := by
  have hle := clz_le_width x
  cases type with
  | char => exact stored_toNat (tceClz0uhh_toNat x) (Nat.lt_of_le_of_lt hle (by decide))
  | uchar => exact stored_toNat (tceClz0uhh_toNat x) (Nat.lt_of_le_of_lt hle (by decide))
  | short => exact stored_toNat (tceClz0uh_toNat x) (Nat.lt_of_le_of_lt hle (by decide))
  | ushort => exact stored_toNat (tceClz0uh_toNat x) (Nat.lt_of_le_of_lt hle (by decide))
  | int => exact tceClz0u_toNat x
  | uint => exact tceClz0u_toNat x
  | long => exact tceClz0ul_toNat x
  | ulong => exact tceClz0ul_toNat x

end LeadingZeros

section GenericCounts

variable {builtins : CompilerBuiltins}

theorem signExtend_and_mask {w wide : ℕ} (hle : w ≤ wide) {mask : BitVec wide}
    (hmask : mask.toNat = 2 ^ w - 1) (a : BitVec w) :
    (BitVec.signExtend wide a &&& mask).toNat = a.toNat := by
  rw [and_low_toNat hmask, ← BitVec.toNat_setWidth, setWidth_signExtend hle]

theorem setWidth_and_mask {w wide : ℕ} (hle : w ≤ wide) {mask : BitVec wide}
    (hmask : mask.toNat = 2 ^ w - 1) (a : BitVec w) :
    (BitVec.setWidth wide a &&& mask).toNat = a.toNat := by
  rw [and_low_toNat hmask, BitVec.toNat_setWidth_of_le hle, Nat.mod_eq_of_lt a.isLt]

theorem cpop_of_toNat_eq {w wide : ℕ} (hle : w ≤ wide) {a : BitVec w} {word : BitVec wide}
    (hword : word.toNat = a.toNat) : word.cpop.toNat = a.cpop.toNat := by
  obtain ⟨extra, rfl⟩ := Nat.exists_eq_add_of_le hle
  rw [cpop_toNat, cpop_toNat, hword, fieldSum_of_lt (by decide) a.isLt]

theorem stored_signExtend_toNat {n : ℕ} {word : BitVec 32} (hword : word.toNat = n)
    (hlt : n < 2 ^ 31) : (word.signExtend 64).toNat = n := by
  have hmsb : word.msb = false := BitVec.msb_eq_false_iff_two_mul_lt.mpr (by omega)
  rw [BitVec.signExtend_eq_setWidth_of_msb_false hmsb, BitVec.toNat_setWidth_of_le (by decide),
    hword]

theorem genericPopcount_toNat
    (hdocumented : builtins.Documented) (type : IntType) (x : BitVec type.width) :
    (genericPopcount builtins type x).toNat = x.cpop.toNat := by
  have hle := BitVec.toNat_cpop_le x
  cases type with
  | char =>
      refine stored_toNat ?_ (Nat.lt_of_le_of_lt hle (by decide))
      exact (hdocumented.popcount _).trans
        (cpop_of_toNat_eq (by decide) (signExtend_and_mask (by decide) rfl x))
  | uchar =>
      refine stored_toNat ?_ (Nat.lt_of_le_of_lt hle (by decide))
      exact (hdocumented.popcount _).trans
        (cpop_of_toNat_eq (by decide) (setWidth_and_mask (by decide) rfl x))
  | short =>
      refine stored_toNat ?_ (Nat.lt_of_le_of_lt hle (by decide))
      exact (hdocumented.popcount _).trans
        (cpop_of_toNat_eq (by decide) (signExtend_and_mask (by decide) rfl x))
  | ushort =>
      refine stored_toNat ?_ (Nat.lt_of_le_of_lt hle (by decide))
      exact (hdocumented.popcount _).trans
        (cpop_of_toNat_eq (by decide) (setWidth_and_mask (by decide) rfl x))
  | int => exact hdocumented.popcount x
  | uint => exact hdocumented.popcount x
  | long =>
      exact stored_signExtend_toNat (hdocumented.popcountl x)
        (Nat.lt_of_le_of_lt hle (by decide))
  | ulong =>
      exact stored_signExtend_toNat (hdocumented.popcountl x)
        (Nat.lt_of_le_of_lt hle (by decide))

theorem clz0_toNat {w : ℕ} (hw : 0 < w) {n : BitVec w} {total count : BitVec 32}
    (htotal : total.toNat = w) (hcount : n ≠ 0 → count.toNat = n.clz.toNat) :
    (if n = 0 then total else count).toNat = n.clz.toNat := by
  by_cases hzero : n = 0
  · rw [if_pos hzero, htotal, clz_toNat hw, hzero]
    exact (Nat.sub_zero w).symm
  · rw [if_neg hzero, hcount hzero]

theorem clz0uh_toNat (hdocumented : builtins.Documented) (n : BitVec 16) :
    (clz0uh builtins n).toNat = n.clz.toNat :=
  clz0_toNat (by decide) rfl (hdocumented.clzs n)

theorem clz0uhh_toNat (hdocumented : builtins.Documented) (n : BitVec 8) :
    (clz0uhh builtins n).toNat = n.clz.toNat := by
  have hwide := clz0uh_toNat hdocumented (n.setWidth 16)
  have hsize : n.toNat.size ≤ 8 := Nat.size_le.mpr n.isLt
  rw [clz_toNat (by decide), BitVec.toNat_setWidth_of_le (by decide)] at hwide
  have height : (8 : BitVec 32).toNat = 8 := rfl
  rw [clz0uhh, clz_toNat (by decide), BitVec.toNat_sub_of_le, hwide, height]
  · omega
  · rw [BitVec.le_def, hwide, height]
    omega

theorem genericClz_toNat
    (hdocumented : builtins.Documented) (type : IntType) (x : BitVec type.width) :
    (genericClz builtins type x).toNat = x.clz.toNat := by
  have hle := clz_le_width x
  cases type with
  | char =>
      exact stored_toNat (clz0uhh_toNat hdocumented x) (Nat.lt_of_le_of_lt hle (by decide))
  | uchar =>
      exact stored_toNat (clz0uhh_toNat hdocumented x) (Nat.lt_of_le_of_lt hle (by decide))
  | short =>
      exact stored_toNat (clz0uh_toNat hdocumented x) (Nat.lt_of_le_of_lt hle (by decide))
  | ushort =>
      exact stored_toNat (clz0uh_toNat hdocumented x) (Nat.lt_of_le_of_lt hle (by decide))
  | int => exact clz0_toNat (n := x) (by decide) rfl (hdocumented.clz x)
  | uint => exact clz0_toNat (n := x) (by decide) rfl (hdocumented.clz x)
  | long =>
      exact stored_signExtend_toNat (clz0_toNat (n := x) (by decide) rfl (hdocumented.clzl x))
        (Nat.lt_of_le_of_lt hle (by decide))
  | ulong =>
      exact stored_signExtend_toNat (clz0_toNat (n := x) (by decide) rfl (hdocumented.clzl x))
        (Nat.lt_of_le_of_lt hle (by decide))

end GenericCounts

theorem value_of_toNat {type : IntType} {pattern : BitVec type.width} {n : ℕ}
    (hpattern : pattern.toNat = n) (hle : n ≤ type.width) : value type pattern = n := by
  have hlt : 2 * n < 2 ^ type.width := by
    cases type <;> exact Nat.lt_of_le_of_lt (Nat.mul_le_mul_left 2 hle) (by decide)
  rw [value, BitVec.toInt_eq_toNat_of_lt (by rwa [hpattern]), hpattern, ite_self]

/-- The counts of TCE are those of the pattern, and the generic ones agree. -/
theorem tce_counts
    {builtins : CompilerBuiltins} (hdocumented : builtins.Documented) (type : IntType)
    (x : BitVec type.width) :
    value type (tcePopcount type x) = x.cpop.toNat ∧
      value type (tceClz type x) = x.clz.toNat ∧
      genericPopcount builtins type x = tcePopcount type x ∧
      genericClz builtins type x = tceClz type x :=
  ⟨value_of_toNat (tcePopcount_toNat type x) (BitVec.toNat_cpop_le x),
    value_of_toNat (tceClz_toNat type x) (clz_le_width x),
    BitVec.eq_of_toNat_eq ((genericPopcount_toNat hdocumented type x).trans
      (tcePopcount_toNat type x).symm),
    BitVec.eq_of_toNat_eq ((genericClz_toNat hdocumented type x).trans
      (tceClz_toNat type x).symm)⟩

/-- The functions as they are documented, with zero for the leading zeros of zero. -/
def referenceBuiltins : CompilerBuiltins where
  popcount n := n.cpop
  popcountl n := n.cpop.setWidth 32
  clzs n := if n = 0 then 0 else n.clz.setWidth 32
  clz n := if n = 0 then 0 else n.clz
  clzl n := if n = 0 then 0 else n.clz.setWidth 32

theorem referenceBuiltins_documented : referenceBuiltins.Documented where
  popcount n := rfl
  popcountl n := stored_toNat rfl (Nat.lt_of_le_of_lt (BitVec.toNat_cpop_le n) (by decide))
  clzs n hne := by
    refine (congrArg BitVec.toNat (if_neg hne)).trans ?_
    exact stored_toNat rfl (Nat.lt_of_le_of_lt (clz_le_width n) (by decide))
  clz n hne := congrArg BitVec.toNat (if_neg hne)
  clzl n hne := by
    refine (congrArg BitVec.toNat (if_neg hne)).trans ?_
    exact stored_toNat rfl (Nat.lt_of_le_of_lt (clz_le_width n) (by decide))

/-- The pattern of minus two as a `short`. -/
theorem tce_counts_short :
    value .short (tcePopcount .short 0xFFFE) = (0xFFFE : BitVec 16).cpop.toNat ∧
      value .short (tceClz .short 0xFFFE) = (0xFFFE : BitVec 16).clz.toNat ∧
      genericPopcount referenceBuiltins .short 0xFFFE = tcePopcount .short 0xFFFE ∧
      genericClz referenceBuiltins .short 0xFFFE = tceClz .short 0xFFFE :=
  tce_counts referenceBuiltins_documented .short 0xFFFE

end Pocl.BitCounts
