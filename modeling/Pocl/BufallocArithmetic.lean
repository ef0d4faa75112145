import Pocl.Bufalloc

/-!
# Address arithmetic of the buffer allocator

`chunkSlack` adds and subtracts 64-bit words and truncates the difference to an
`int`.  Rounding to a power-of-two alignment is exact modulo `2 ^ 64`, and the
truncated difference is the true one as soon as the request overshoots the
chunk by at most `2 ^ 31`.
-/

namespace Pocl.Bufalloc

/-- The alignment field that holds `2 ^ exponent`. -/
def alignmentOf (exponent : ℕ) : BitVec 16 :=
  BitVec.ofNat 16 (2 ^ exponent)

/-- The least multiple of `2 ^ exponent` that is not below the address. -/
def alignUp (exponent address : ℕ) : ℕ :=
  (address + 2 ^ exponent - 1) / 2 ^ exponent * 2 ^ exponent

theorem le_alignUp (exponent address : ℕ) :
    address ≤ alignUp exponent address := by
  have hpos : 0 < 2 ^ exponent := Nat.two_pow_pos exponent
  have hdiv := Nat.div_add_mod (address + 2 ^ exponent - 1) (2 ^ exponent)
  have hmod := Nat.mod_lt (address + 2 ^ exponent - 1) hpos
  rw [alignUp, Nat.mul_comm]
  omega

theorem dvd_alignUp (exponent address : ℕ) :
    2 ^ exponent ∣ alignUp exponent address :=
  Nat.dvd_mul_left _ _

theorem alignUp_of_dvd
    {exponent address : ℕ} (hdvd : 2 ^ exponent ∣ address) :
    alignUp exponent address = address := by
  have hpos : 0 < 2 ^ exponent := Nat.two_pow_pos exponent
  obtain ⟨quotient, rfl⟩ := hdvd
  rw [alignUp, Nat.add_sub_assoc hpos, Nat.mul_add_div hpos,
    Nat.div_eq_of_lt (by omega), Nat.add_zero, Nat.mul_comm]

theorem alignUp_mono
    (exponent : ℕ) {first second : ℕ} (hle : first ≤ second) :
    alignUp exponent first ≤ alignUp exponent second := by
  unfold alignUp
  exact Nat.mul_le_mul_right _ (Nat.div_le_div_right (by omega))

theorem and_highMask
    {word exponent : ℕ} (hword : word < 2 ^ 64) (hexponent : exponent ≤ 64) :
    word &&& (2 ^ 64 - 2 ^ exponent) =
      word / 2 ^ exponent * 2 ^ exponent := by
  have hmask :
      2 ^ 64 - 2 ^ exponent = (2 ^ (64 - exponent) - 1) <<< exponent := by
    rw [Nat.shiftLeft_eq, Nat.sub_mul, ← Nat.pow_add, Nat.sub_add_cancel hexponent,
      Nat.one_mul]
  rw [hmask, ← Nat.shiftRight_eq_div_pow, ← Nat.shiftLeft_eq]
  apply Nat.eq_of_testBit_eq
  intro bit
  rw [Nat.testBit_and, Nat.testBit_shiftLeft, Nat.testBit_shiftLeft,
    Nat.testBit_two_pow_sub_one, Nat.testBit_shiftRight]
  by_cases hle : exponent ≤ bit
  · rw [Nat.add_sub_cancel' hle]
    by_cases hbit : bit < 64
    · have hshort : bit - exponent < 64 - exponent := by omega
      simp [hle, hshort]
    · have hzero : word.testBit bit = false :=
        Nat.testBit_lt_two_pow
          (lt_of_lt_of_le hword (Nat.pow_le_pow_right (by omega) (by omega)))
      simp [hzero]
  · simp [hle]

theorem toNat_alignmentMask {exponent : ℕ} (hexponent : exponent ≤ 14) :
    ((~~~((alignmentOf exponent).signExtend 32 - 1)).signExtend 64).toNat =
      2 ^ 64 - 2 ^ exponent := by
  interval_cases exponent <;> decide

theorem toNat_alignmentOf_signExtend {exponent : ℕ} (hexponent : exponent ≤ 14) :
    ((alignmentOf exponent).signExtend 64).toNat = 2 ^ exponent := by
  interval_cases exponent <;> decide

/-- Rounding in the machine is rounding modulo `2 ^ 64`. -/
theorem toNat_alignAddress
    {exponent : ℕ} (hexponent : exponent ≤ 14) (address : MemoryAddress) :
    (alignAddress (alignmentOf exponent) address).toNat =
      alignUp exponent address.toNat % 2 ^ 64 := by
  have hpos : 0 < 2 ^ exponent := Nat.two_pow_pos exponent
  have hword :
      (address + (alignmentOf exponent).signExtend 64 - 1).toNat =
        (address.toNat + 2 ^ exponent - 1) % 2 ^ 64 := by
    have hlt : 2 ^ exponent ≤ 2 ^ 14 := Nat.pow_le_pow_right (by omega) hexponent
    have hone : (1 : BitVec 64).toNat = 1 := rfl
    simp only [BitVec.toNat_sub, BitVec.toNat_add,
      toNat_alignmentOf_signExtend hexponent, hone]
    omega
  rw [alignAddress, BitVec.toNat_and, hword, toNat_alignmentMask hexponent,
    and_highMask (Nat.mod_lt _ (by decide)) (by omega), alignUp]
  have hsplit : 2 ^ 64 = 2 ^ exponent * 2 ^ (64 - exponent) := by
    rw [← Nat.pow_add]
    congr 1
    omega
  generalize address.toNat + 2 ^ exponent - 1 = word
  rw [hsplit, Nat.mod_mul_right_div_self, Nat.mul_comm (2 ^ exponent),
    Nat.mul_mod_mul_right]

theorem dvd_alignAddress
    {exponent : ℕ} (hexponent : exponent ≤ 14) (address : MemoryAddress) :
    2 ^ exponent ∣ (alignAddress (alignmentOf exponent) address).toNat := by
  rw [toNat_alignAddress hexponent]
  exact (Nat.dvd_mod_iff (Nat.pow_dvd_pow 2 (by omega))).mpr (dvd_alignUp _ _)

theorem alignAddress_of_dvd
    {exponent : ℕ} (hexponent : exponent ≤ 14) {address : MemoryAddress}
    (hdvd : 2 ^ exponent ∣ address.toNat) :
    alignAddress (alignmentOf exponent) address = address := by
  apply BitVec.eq_of_toNat_eq
  rw [toNat_alignAddress hexponent, alignUp_of_dvd hdvd,
    Nat.mod_eq_of_lt address.isLt]

section Slack

variable {exponent : ℕ} {start extent request : BitVec 64}

/-- The untruncated slack of a chunk. -/
def slackOf (exponent : ℕ) (start extent request : BitVec 64) : ℤ :=
  ((start.toNat + extent.toNat : ℕ) : ℤ) -
    ((alignUp exponent start.toNat + request.toNat : ℕ) : ℤ)

/-- The `int` result of the slack computation is the true slack modulo
`2 ^ 32`. -/
theorem toInt_slack_bmod (hexponent : exponent ≤ 14) :
    ((start + extent -
        (alignAddress (alignmentOf exponent) start + request)).setWidth
          32).toInt =
      (slackOf exponent start extent request).bmod (2 ^ 32) := by
  have halign := toNat_alignAddress hexponent start
  have hstart := start.isLt
  have hextent := extent.isLt
  have hrequest := request.isLt
  rw [BitVec.toInt_eq_toNat_bmod]
  simp only [BitVec.toNat_setWidth, BitVec.toNat_sub, BitVec.toNat_add, halign]
  unfold slackOf
  generalize alignUp exponent start.toNat = aligned
  simp only [Int.bmod_def]
  omega

theorem bmod_of_fits
    {slack : ℤ} (hlower : -2 ^ 31 ≤ slack) (hupper : slack < 2 ^ 31) :
    slack.bmod (2 ^ 32) = slack := by
  simp only [Int.bmod_def]
  omega

/-- A non-negative `int` keeps its value when it is stored in a `size_t`. -/
theorem toNat_signExtend_of_nonneg
    {slack : BitVec 32} (hslack : 0 ≤ slack.toInt) :
    ((slack.signExtend 64).toNat : ℤ) = slack.toInt := by
  have hextend : (slack.signExtend 64).toInt = slack.toInt :=
    BitVec.toInt_signExtend_of_le (by omega)
  rw [← hextend] at hslack ⊢
  rw [BitVec.toInt_eq_toNat_cond] at hslack ⊢
  split at hslack
  · rw [if_pos ‹_›]
  · have := (slack.signExtend 64).isLt
    omega

end Slack

end Pocl.Bufalloc
