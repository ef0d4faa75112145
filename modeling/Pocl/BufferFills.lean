import Mathlib.Data.BitVec
import Mathlib.Data.List.GetD
import Mathlib.Tactic.Ring
import Pocl.EnqueueCalls

/-!
# Filling a buffer with a pattern

`clEnqueueFillBuffer` tests the pattern size and the alignment of the range, and passes the
range to the driver.  The tests of the alignment negate the wrong expressions: `!offset` is
divided rather than `offset`, and a range is refused when the pattern size divides it.

`pocl_hsa_fill` counts the copies of the pattern in an `int`.  Counting up from the largest
one overflows, and there is no result then.  The pattern is memory of the client, apart from
the buffer.
-/

namespace Pocl

namespace CommandQueue

/-- The arguments of `clEnqueueFillBuffer`. -/
structure BufferFill where
  buffer : MemId
  pattern : SizeT
  patternSize : SizeT
  offset : SizeT
  cb : SizeT
  waitListValid : Bool
  event : Bool
  alloc : Allocations

namespace BufferFill

variable (args : BufferFill)

/-- The value of `!offset % pattern_size`. -/
def negatedRemainder : SizeT :=
  (if args.offset = 0 then 1 else 0) % args.patternSize

/-- The tests of the pattern size and the alignment. -/
def refused : Bool :=
  decide ((args.patternSize - 1) &&& args.patternSize ≠ 0) || decide (128 < args.patternSize) ||
    decide (args.patternSize < 1) || decide (args.negatedRemainder ≠ 0) ||
      decide (args.cb % args.patternSize = 0)

/-- All tests, up to the allocation of the event. -/
def accepted (buffer : MemObject) : Bool :=
  buffer.sameContext && decide (args.pattern ≠ 0) &&
    !decide (buffer.size < args.offset + args.cb) && !args.refused && args.waitListValid

end BufferFill

/-- `clEnqueueFillBuffer`. -/
def State.enqueueFillBuffer (env : Env) (args : BufferFill) (state : State) :
    Option (ClCode × State) := do
  let buffer ← state.mem args.buffer
  state.enqueueFlushedTransfer env
    { kind := .fill
      buffers := [args.buffer]
      hostPtr := args.pattern
      devicePtr := buffer.devicePtrs env.devId + args.offset
      extent := [args.patternSize, args.cb]
      accepted := args.accepted buffer
      event := args.event
      alloc := args.alloc }

end CommandQueue

namespace BufferFills

open CommandQueue

abbrev Memory := SizeT → UInt8

/-- A `memcpy` from memory of the client. -/
def storeBytes (pointer : SizeT) (bytes : List UInt8) (memory : Memory) : Memory :=
  fun address => bytes.getD (address - pointer).toNat (memory address)

/-- One round of the loop, with the counter `i`. -/
def fillRound
    (pattern : List UInt8) (patternSize : SizeT) (state : SizeT × Memory) (i : ℕ) :
    Option (SizeT × Memory) :=
  if i = 2 ^ 31 - 1 then none
  else
    some (state.1 + patternSize,
      storeBytes state.1 (pattern.take patternSize.toNat) state.2)

/-- `pocl_hsa_fill` -/
def poclHsaFill
    (pattern : List UInt8) (patternSize devicePtr cb : SizeT) (memory : Memory) :
    Option Memory :=
  if patternSize = 0 then none
  else
    ((List.range (cb / patternSize).toNat).foldlM (fillRound pattern patternSize)
      (devicePtr, memory)).map Prod.snd

section Validation

/-- A power of two between 1 and 128. -/
def ValidPatternSize (patternSize : ℕ) : Prop :=
  ∃ exponent ≤ 7, patternSize = 2 ^ exponent

instance (patternSize : ℕ) : Decidable (ValidPatternSize patternSize) :=
  inferInstanceAs (Decidable (∃ exponent ≤ 7, patternSize = 2 ^ exponent))

/-- The pattern sizes and ranges of the specification. -/
structure ValidFill (patternSize offset cb : ℕ) : Prop where
  size : ValidPatternSize patternSize
  offset_dvd : patternSize ∣ offset
  cb_dvd : patternSize ∣ cb

theorem ValidPatternSize.le {patternSize : ℕ} (hvalid : ValidPatternSize patternSize) :
    1 ≤ patternSize ∧ patternSize ≤ 128 := by
  obtain ⟨exponent, hexponent, rfl⟩ := hvalid
  exact ⟨Nat.one_le_two_pow, Nat.pow_le_pow_right (by decide) hexponent⟩

theorem validPatternSize_iff (patternSize : SizeT) :
    ValidPatternSize patternSize.toNat ↔
      (patternSize - 1) &&& patternSize = 0 ∧ ¬ 128 < patternSize ∧ ¬ patternSize < 1 := by
  by_cases hlarge : 128 < patternSize
  · refine iff_of_false (fun hvalid => ?_) (fun htests => htests.2.1 hlarge)
    exact absurd hvalid.le.2 (not_le.mpr hlarge)
  · have htable : ∀ size < 129, ValidPatternSize size ↔
        (BitVec.ofNat 64 size - 1) &&& BitVec.ofNat 64 size = 0 ∧ ¬ BitVec.ofNat 64 size < 1 := by
      decide +kernel
    have hsmall : patternSize.toNat < 129 := Nat.lt_succ_of_le (not_lt.mp hlarge)
    rw [htable _ hsmall, BitVec.ofNat_toNat, BitVec.setWidth_eq]
    exact and_congr_right fun _ => (and_iff_right hlarge).symm

variable {args : BufferFill}

theorem mod_eq_zero_iff {size divisor : SizeT} :
    size % divisor = 0 ↔ divisor.toNat ∣ size.toNat := by
  rw [← BitVec.toNat_inj, BitVec.toNat_umod, Nat.dvd_iff_mod_eq_zero]
  rfl

theorem negatedRemainder_eq_zero_iff :
    args.negatedRemainder = 0 ↔ args.offset ≠ 0 ∨ args.patternSize.toNat = 1 := by
  rw [BufferFill.negatedRemainder, mod_eq_zero_iff]
  by_cases hzero : args.offset = 0
  · rw [if_pos hzero]
    change args.patternSize.toNat ∣ 1 ↔ _
    simp [hzero]
  · rw [if_neg hzero]
    exact iff_of_true (dvd_zero _) (.inl hzero)

/-- Only ranges that the pattern does not divide are let through. -/
theorem refused_eq_false_iff :
    args.refused = false ↔
      ValidPatternSize args.patternSize.toNat ∧ args.offset ≠ 0 ∧
        ¬ args.patternSize.toNat ∣ args.cb.toNat := by
  have htests : args.refused = false ↔
      ((args.patternSize - 1) &&& args.patternSize = 0 ∧ ¬ 128 < args.patternSize ∧
        ¬ args.patternSize < 1) ∧ args.negatedRemainder = 0 ∧
          ¬ args.cb % args.patternSize = 0 := by
    simp [BufferFill.refused, and_assoc]
  rw [htests, ← validPatternSize_iff, mod_eq_zero_iff]
  refine and_congr_right fun _ => ?_
  rw [negatedRemainder_eq_zero_iff]
  constructor
  · rintro ⟨hoffset | hone, hcb⟩
    · exact ⟨hoffset, hcb⟩
    · rw [hone] at hcb
      exact absurd (one_dvd _) hcb
  · exact fun hpasses => ⟨.inl hpasses.1, hpasses.2⟩

/-- The ranges that are treated as the specification says, which are all refused. -/
theorem refused_iff_not_valid :
    (args.refused = false ↔
      ValidFill args.patternSize.toNat args.offset.toNat args.cb.toNat) ↔
    ¬ ValidPatternSize args.patternSize.toNat ∨
      (args.patternSize.toNat ∣ args.cb.toNat ∧ ¬ args.patternSize.toNat ∣ args.offset.toNat) ∨
        (args.offset = 0 ∧ ¬ args.patternSize.toNat ∣ args.cb.toNat) := by
  rw [refused_eq_false_iff]
  by_cases hvalid : ValidPatternSize args.patternSize.toNat
  · have hspec : ValidFill args.patternSize.toNat args.offset.toNat args.cb.toNat ↔
        args.patternSize.toNat ∣ args.offset.toNat ∧ args.patternSize.toNat ∣ args.cb.toNat :=
      ⟨fun hfill => ⟨hfill.offset_dvd, hfill.cb_dvd⟩, fun hdvd => ⟨hvalid, hdvd.1, hdvd.2⟩⟩
    have hzero : args.offset = 0 → args.patternSize.toNat ∣ args.offset.toNat := by
      intro heq
      rw [heq]
      exact dvd_zero _
    rw [hspec]
    tauto
  · have hspec : ¬ ValidFill args.patternSize.toNat args.offset.toNat args.cb.toNat :=
      fun hfill => hvalid hfill.size
    tauto

end Validation

section Loop

variable {pattern : List UInt8} {devicePtr : SizeT} {memory : Memory}

/-- The memory with a prefix of the range filled. -/
def filled (pattern : List UInt8) (devicePtr : SizeT) (memory : Memory) (count : ℕ) : Memory :=
  fun address =>
    if (address - devicePtr).toNat < count then
      pattern.getD ((address - devicePtr).toNat % pattern.length) (memory address)
    else memory address

/-- One more copy of the pattern. -/
theorem storeBytes_filled {i : ℕ} (hlength : pattern ≠ [])
    (hfits : pattern.length * (i + 1) ≤ 2 ^ 64) :
    storeBytes (devicePtr + BitVec.ofNat 64 (pattern.length * i)) pattern
        (filled pattern devicePtr memory (pattern.length * i)) =
      filled pattern devicePtr memory (pattern.length * (i + 1)) := by
  have hpos := List.length_pos_of_ne_nil hlength
  rw [Nat.mul_add, Nat.mul_one] at hfits ⊢
  generalize hstart : pattern.length * i = start at hfits ⊢
  funext address
  have hdistance : (address - (devicePtr + BitVec.ofNat 64 start)).toNat =
      (2 ^ 64 - start + (address - devicePtr).toNat) % 2 ^ 64 := by
    rw [show address - (devicePtr + BitVec.ofNat 64 start) =
        address - devicePtr - BitVec.ofNat 64 start by ring, BitVec.toNat_sub,
      BitVec.toNat_ofNat, Nat.mod_eq_of_lt (show start < 2 ^ 64 by omega)]
  have hlt := (address - devicePtr).isLt
  simp only [storeBytes, filled, hdistance]
  generalize (address - devicePtr).toNat = distance at hlt ⊢
  by_cases hbefore : distance < start
  · -- The byte has been filled already.
    have hmod : (2 ^ 64 - start + distance) % 2 ^ 64 = 2 ^ 64 - start + distance :=
      Nat.mod_eq_of_lt (by omega)
    rw [hmod, if_pos hbefore, if_pos (show distance < start + pattern.length by omega),
      List.getD_eq_default _ _ (by omega)]
  · have hmod : (2 ^ 64 - start + distance) % 2 ^ 64 = distance - start := by
      rw [show 2 ^ 64 - start + distance = 2 ^ 64 + (distance - start) by omega,
        Nat.add_mod_left, Nat.mod_eq_of_lt (by omega)]
    rw [hmod, if_neg hbefore]
    by_cases hafter : distance < start + pattern.length
    · have hindex : distance % pattern.length = distance - start := by
        rw [show distance = distance - start + pattern.length * i by omega,
          Nat.add_mul_mod_self_left, Nat.mod_eq_of_lt (by omega)]
        omega
      rw [if_pos hafter, hindex]
    · rw [if_neg hafter, List.getD_eq_default _ _ (by omega)]

theorem fillRounds_eq
    {patternSize : SizeT} (hlength : pattern.length = patternSize.toNat) (hpattern : pattern ≠ [])
    {count : ℕ} (hfits : pattern.length * count ≤ 2 ^ 64) :
    (List.range count).foldlM (fillRound pattern patternSize) (devicePtr, memory) =
      if count < 2 ^ 31 then
        some (devicePtr + BitVec.ofNat 64 (pattern.length * count),
          filled pattern devicePtr memory (pattern.length * count))
      else none := by
  induction count with
  | zero =>
      have hnone : filled pattern devicePtr memory 0 = memory :=
        funext fun address => if_neg (Nat.not_lt_zero _)
      simp [hnone]
  | succ count ih =>
      have hle : pattern.length * count ≤ pattern.length * (count + 1) :=
        Nat.mul_le_mul_left _ (Nat.le_succ _)
      rw [List.range_succ, List.foldlM_append, ih (hle.trans hfits)]
      by_cases hcount : count < 2 ^ 31
      · rw [if_pos hcount]
        by_cases hlast : count = 2 ^ 31 - 1
        · rw [if_neg (by omega)]
          simp [fillRound, hlast]
        · have htake : pattern.take patternSize.toNat = pattern := by
            rw [← hlength, List.take_length]
          have hnext : devicePtr + BitVec.ofNat 64 (pattern.length * count) + patternSize =
              devicePtr + BitVec.ofNat 64 (pattern.length * (count + 1)) := by
            rw [Nat.mul_add, Nat.mul_one, BitVec.ofNat_add, hlength, BitVec.ofNat_toNat,
              BitVec.setWidth_eq, add_assoc]
          rw [if_pos (by omega)]
          simp only [Option.bind_eq_bind, Option.bind_some, List.foldlM_cons, List.foldlM_nil,
            fillRound, if_neg hlast, htake, hnext, storeBytes_filled hpattern hfits]
          rfl
      · rw [if_neg hcount, if_neg (by omega)]
        rfl

/-- The bytes of the range repeat the pattern, and other bytes are kept. -/
def Fills
    (pattern : List UInt8) (devicePtr : SizeT) (cb : ℕ) (memory after : Memory) : Prop :=
  (∀ k < cb, some (after (devicePtr + BitVec.ofNat 64 k)) = pattern[k % pattern.length]?) ∧
    ∀ address, (∀ k < cb, address ≠ devicePtr + BitVec.ofNat 64 k) →
      after address = memory address

theorem filled_fills (hpattern : pattern ≠ []) {cb : ℕ} (hcb : cb < 2 ^ 64) :
    Fills pattern devicePtr cb memory (filled pattern devicePtr memory cb) := by
  have hpos := List.length_pos_of_ne_nil hpattern
  constructor
  · intro k hk
    have hdistance : (devicePtr + BitVec.ofNat 64 k - devicePtr).toNat = k := by
      rw [add_sub_cancel_left, BitVec.toNat_ofNat, Nat.mod_eq_of_lt (hk.trans hcb)]
    have hindex := Nat.mod_lt k hpos
    simp only [filled, hdistance, if_pos hk]
    rw [List.getD_eq_getElem _ _ hindex, List.getElem?_eq_getElem hindex]
  · intro address hnot
    refine if_neg fun hlt => hnot _ hlt ?_
    rw [BitVec.ofNat_toNat, BitVec.setWidth_eq, add_sub_cancel]

/-- The counter overflows for long ranges. -/
theorem poclHsaFill_fills_iff
    {patternSize cb : SizeT} (hlength : pattern.length = patternSize.toNat)
    (hpattern : pattern ≠ []) (hdvd : patternSize.toNat ∣ cb.toNat) :
    (∃ after, poclHsaFill pattern patternSize devicePtr cb memory = some after ∧
      Fills pattern devicePtr cb.toNat memory after) ↔
        cb.toNat / patternSize.toNat < 2 ^ 31 := by
  have hpos := List.length_pos_of_ne_nil hpattern
  have hzero : patternSize ≠ 0 := by
    rintro rfl
    rw [hlength] at hpos
    exact absurd hpos (lt_irrefl _)
  have hcount : pattern.length * (cb / patternSize).toNat = cb.toNat := by
    rw [hlength, BitVec.toNat_udiv]
    exact Nat.mul_div_cancel' hdvd
  rw [← BitVec.toNat_udiv, poclHsaFill, if_neg hzero,
    fillRounds_eq hlength hpattern (by rw [hcount]; exact cb.isLt.le), hcount]
  by_cases hfew : (cb / patternSize).toNat < 2 ^ 31
  · rw [if_pos hfew]
    exact iff_of_true ⟨_, rfl, filled_fills hpattern cb.isLt⟩ hfew
  · rw [if_neg hfew]
    exact iff_of_false (by simp) hfew

end Loop

section Calls

variable {args : BufferFill} {buffer : MemObject} {pattern : List UInt8}

theorem accepted_eq_not_refused
    (hcontext : buffer.sameContext = true) (hpattern : args.pattern ≠ 0)
    (hwaitList : args.waitListValid = true)
    (hinside : args.offset.toNat + args.cb.toNat ≤ buffer.size.toNat) :
    args.accepted buffer = !args.refused := by
  have hsize := buffer.size.isLt
  have hfits : ¬ buffer.size < args.offset + args.cb := by
    rw [BitVec.not_lt, BitVec.le_def, BitVec.toNat_add,
      Nat.mod_eq_of_lt (by omega)]
    exact hinside
  rw [BufferFill.accepted, hcontext, hwaitList, decide_eq_true hpattern, decide_eq_false hfits]
  simp

/-- The tests accept the wrong ranges, and the loop counts in an `int`. -/
theorem enqueueFillBuffer_iff
    (hcontext : buffer.sameContext = true) (hpattern : args.pattern ≠ 0)
    (hwaitList : args.waitListValid = true)
    (hinside : args.offset.toNat + args.cb.toNat ≤ buffer.size.toNat)
    (hlength : pattern.length = args.patternSize.toNat) :
    ((args.accepted buffer = true ↔
        ValidFill args.patternSize.toNat args.offset.toNat args.cb.toNat) ↔
      ¬ ValidPatternSize args.patternSize.toNat ∨
        (args.patternSize.toNat ∣ args.cb.toNat ∧
          ¬ args.patternSize.toNat ∣ args.offset.toNat) ∨
        (args.offset = 0 ∧ ¬ args.patternSize.toNat ∣ args.cb.toNat)) ∧
    (ValidFill args.patternSize.toNat args.offset.toNat args.cb.toNat →
      ∀ (devicePtr : SizeT) (memory : Memory),
        (∃ after, poclHsaFill pattern args.patternSize (devicePtr + args.offset) args.cb
              memory = some after ∧
            Fills pattern (devicePtr + args.offset) args.cb.toNat memory after) ↔
          args.cb.toNat / args.patternSize.toNat < 2 ^ 31) := by
  constructor
  · rw [accepted_eq_not_refused hcontext hpattern hwaitList hinside, Bool.not_eq_true']
    exact refused_iff_not_valid
  · intro hvalid devicePtr memory
    have hnonempty : pattern ≠ [] := by
      rintro rfl
      have hpos := hvalid.size.le.1
      rw [← hlength] at hpos
      exact absurd hpos (by decide)
    exact poclHsaFill_fills_iff hlength hnonempty hvalid.cb_dvd

def fillArgs (offset cb : SizeT) : BufferFill where
  buffer := 0
  pattern := 4096
  patternSize := 4
  offset := offset
  cb := cb
  waitListValid := true
  event := false
  alloc := .all

def sixteenBytes : MemObject :=
  { MemObject.plain with size := 16 }

/-- A range that does not start at a multiple of the pattern size is refused, and two copies
of the pattern are made in one that does. -/
theorem fourBytes_filled :
    ((fillArgs 2 8).accepted sixteenBytes = true ↔ ValidFill 4 2 8) ∧
      ∃ after, poclHsaFill [1, 2, 3, 4] 4 (8192 + 4) 8 (fun _ => 0) = some after ∧
        Fills [1, 2, 3, 4] (8192 + 4) 8 (fun _ => 0) after := by
  constructor
  · exact (@enqueueFillBuffer_iff (fillArgs 2 8) sixteenBytes [1, 2, 3, 4] rfl (by decide) rfl
      (by decide) rfl).1.mpr (.inr (.inl (by decide)))
  · exact ((@enqueueFillBuffer_iff (fillArgs 4 8) sixteenBytes [1, 2, 3, 4] rfl (by decide) rfl
      (by decide) rfl).2 ⟨by decide, by decide, by decide⟩ 8192 (fun _ => 0)).mpr (by decide)

/-- An aligned range is refused. -/
theorem alignedRange_not_accepted :
    ¬ ((fillArgs 4 8).accepted sixteenBytes = true ↔ ValidFill 4 4 8) := by
  intro htests
  have hvalid : ValidFill 4 4 8 := ⟨by decide, by decide, by decide⟩
  exact absurd (htests.mpr hvalid) (by decide)

end Calls

end BufferFills

end Pocl
