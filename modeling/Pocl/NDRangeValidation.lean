import Pocl.NDRangeTiling

/-!
# The validation of a kernel launch

A local size is tested in three ways: the product of the sizes, computed in 64
bits, the limit of each dimension in use, and the remainders of the global sizes.
Only a CPU device makes these tests.  A local size of zero has a product of zero,
and the first remainder by it takes the process down; a product that wraps around
may be small again.
-/

namespace Pocl

open ExceptPrograms

/-- The call with the pointer to the global sizes, which is followed after the
tests of the work dimension.  There is no result if it is a null pointer then. -/
def enqueueNDRangeKernel (device : NDRangeDevice) (call : NDRangeCall)
    (globalWorkSize : Option Sizes) :
    Option (Except NDRangeFailure PoclContext) :=
  match globalWorkSize with
  | some sizes =>
      some (clEnqueueNDRangeKernel device { call with globalWorkSize := sizes })
  | none =>
      if call.workDim < 1 ∨ device.maxWorkItemDimensions < call.workDim then
        some (.error .invalidWorkDimension)
      else if 3 < device.maxWorkItemDimensions then
        some (.error .assertion)
      else
        none

/-- One dimension of a launch that a driver can run. -/
structure DimensionValid (limit size localSize : SizeT) : Prop where
  pos : 1 ≤ localSize.toNat
  dvd : localSize.toNat ∣ size.toNat
  le : localSize.toNat ≤ limit.toNat

structure SizesValid (device : NDRangeDevice) (globalSize localSize : Sizes) :
    Prop where
  x : DimensionValid device.maxWorkItemSizes.x globalSize.x localSize.x
  y : DimensionValid device.maxWorkItemSizes.y globalSize.y localSize.y
  z : DimensionValid device.maxWorkItemSizes.z globalSize.z localSize.z
  product : localSize.x.toNat * localSize.y.toNat * localSize.z.toNat ≤
    device.maxWorkGroupSize.toNat

/-- No division by zero, and a launch that is enqueued is valid. -/
structure ValidationSufficient (device : NDRangeDevice) (call : NDRangeCall)
    (globalWorkSize : Option Sizes) : Prop where
  no_trap : enqueueNDRangeKernel device call globalWorkSize ≠
    some (.error .divisionByZero)
  valid : ∀ pc, enqueueNDRangeKernel device call globalWorkSize = some (.ok pc) →
    SizesValid device pc.globalSize pc.localSize

/-- The tests that every device makes. -/
structure NDRangeCall.Opens (call : NDRangeCall) (device : NDRangeDevice) :
    Prop where
  workDim : 1 ≤ call.workDim ∧ call.workDim ≤ device.maxWorkItemDimensions
  dimensions : device.maxWorkItemDimensions ≤ 3
  globalSize : call.globalSize.x ≠ 0 ∧ call.globalSize.y ≠ 0 ∧
    call.globalSize.z ≠ 0

/-- The first two tests of a CPU device, with the product as it is computed. -/
structure NDRangeCall.WithinLimits (call : NDRangeCall) (device : NDRangeDevice)
    (localSize : Sizes) : Prop where
  product : localSize.x * localSize.y * localSize.z ≤ device.maxWorkGroupSize
  x : localSize.x ≤ device.maxWorkItemSizes.x
  y : 1 < call.workDim → localSize.y ≤ device.maxWorkItemSizes.y
  z : 2 < call.workDim → localSize.z ≤ device.maxWorkItemSizes.z

/-- A local size of zero that comes before one that does not divide. -/
def ZeroFirst (globalSize localSize : Sizes) : Prop :=
  localSize.x = 0 ∨
    (localSize.x.toNat ∣ globalSize.x.toNat ∧
      (localSize.y = 0 ∨
        (localSize.y.toNat ∣ globalSize.y.toNat ∧ localSize.z = 0)))

structure Divides (globalSize localSize : Sizes) : Prop where
  x : localSize.x.toNat ∣ globalSize.x.toNat
  y : localSize.y.toNat ∣ globalSize.y.toNat
  z : localSize.z.toNat ∣ globalSize.z.toNat

/-- The event list is consistent and the kernel was compiled. -/
structure NDRangeCall.Builds (call : NDRangeCall) : Prop where
  events : call.eventWaitList = true ↔ 0 < call.numEventsInWaitList
  building : call.building = .ok ()

/-- When the tests of a CPU device are enough. -/
structure CpuSound (device : NDRangeDevice) (call : NDRangeCall)
    (globalSize localSize : Sizes) : Prop where
  no_zero : ¬ZeroFirst globalSize localSize
  no_wrap : Divides globalSize localSize → call.Builds →
    localSize.x.toNat * localSize.y.toNat * localSize.z.toNat < 2 ^ 64
  unused : Divides globalSize localSize → call.Builds →
    (call.workDim ≤ 1 → 1 ≤ device.maxWorkItemSizes.y.toNat) ∧
      (call.workDim ≤ 2 → 1 ≤ device.maxWorkItemSizes.z.toNat)

def LaunchSound (device : NDRangeDevice) (call : NDRangeCall) : Prop :=
  call.Opens device →
    if device.isCpu then
      call.WithinLimits device (localSize device call) →
        CpuSound device call call.globalSize (localSize device call)
    else
      SizesValid device call.globalSize (localSize device call)

theorem umod_eq_zero_iff {a b : SizeT} : a % b = 0 ↔ b.toNat ∣ a.toNat := by
  rw [← BitVec.toNat_inj, BitVec.toNat_umod, Nat.dvd_iff_mod_eq_zero]
  rfl

section CheckSizes

variable {device : NDRangeDevice} {call : NDRangeCall} {globalSize localSize : Sizes}

theorem withinLimits_iff :
    call.WithinLimits device localSize ↔
      ¬device.maxWorkGroupSize < localSize.x * localSize.y * localSize.z ∧
        ¬(device.maxWorkItemSizes.x < localSize.x ∨
          (1 < call.workDim ∧ device.maxWorkItemSizes.y < localSize.y) ∨
          (2 < call.workDim ∧ device.maxWorkItemSizes.z < localSize.z)) := by
  simp only [not_or, not_and, BitVec.not_lt]
  constructor
  · rintro ⟨hproduct, hx, hy, hz⟩
    exact ⟨hproduct, hx, hy, hz⟩
  · rintro ⟨hproduct, hx, hy, hz⟩
    exact ⟨hproduct, hx, hy, hz⟩

theorem builds_iff :
    call.Builds ↔
      ¬((call.eventWaitList = false ∧ 0 < call.numEventsInWaitList) ∨
          (call.eventWaitList = true ∧ call.numEventsInWaitList = 0)) ∧
        call.building = .ok () := by
  constructor
  · rintro ⟨hevents, hbuilding⟩
    refine ⟨?_, hbuilding⟩
    rintro (⟨hlist, hnum⟩ | ⟨hlist, hnum⟩)
    · rw [hevents.mpr hnum] at hlist
      cases hlist
    · have hpos := hevents.mp hlist
      omega
  · rintro ⟨hevents, hbuilding⟩
    refine ⟨⟨?_, ?_⟩, hbuilding⟩
    · intro hlist
      by_contra hnum
      exact hevents (.inr ⟨hlist, by omega⟩)
    · intro hnum
      by_contra hlist
      exact hevents (.inl ⟨by simpa using hlist, hnum⟩)

theorem checkSizes_ok_iff :
    checkSizes device call globalSize localSize = .ok () ↔
      call.WithinLimits device localSize ∧
        (localSize.x ≠ 0 ∧ localSize.y ≠ 0 ∧ localSize.z ≠ 0) ∧
        Divides globalSize localSize ∧ call.Builds := by
  rw [withinLimits_iff, builds_iff]
  unfold checkSizes
  simp only [guard_ok, not_not, umod_eq_zero_iff]
  constructor
  · rintro ⟨hproduct, hlimits, hx, hdx, hy, hdy, hz, hdz, hevents, hbuilding⟩
    exact ⟨⟨hproduct, hlimits⟩, ⟨hx, hy, hz⟩, ⟨hdx, hdy, hdz⟩, hevents, hbuilding⟩
  · rintro ⟨⟨hproduct, hlimits⟩, ⟨hx, hy, hz⟩, ⟨hdx, hdy, hdz⟩, hevents, hbuilding⟩
    exact ⟨hproduct, hlimits, hx, hdx, hy, hdy, hz, hdz, hevents, hbuilding⟩

theorem checkSizes_trap_iff (hbuilding : call.building ≠ .error .divisionByZero) :
    checkSizes device call globalSize localSize = .error .divisionByZero ↔
      call.WithinLimits device localSize ∧ ZeroFirst globalSize localSize := by
  rw [withinLimits_iff]
  unfold checkSizes ZeroFirst
  simp only [guard_error, not_not, ne_eq, umod_eq_zero_iff, reduceCtorEq,
    and_false, false_or, and_true, hbuilding, or_false]
  tauto

end CheckSizes

section Launch

variable {device : NDRangeDevice} {call : NDRangeCall}

/-- No local size is zero. -/
def Sizes.Positive (sizes : Sizes) : Prop :=
  sizes.x ≠ 0 ∧ sizes.y ≠ 0 ∧ sizes.z ≠ 0

theorem opens_iff :
    call.Opens device ↔
      ¬(call.workDim < 1 ∨ device.maxWorkItemDimensions < call.workDim) ∧
        ¬3 < device.maxWorkItemDimensions ∧
        ¬(call.globalSize.x = 0 ∨ call.globalSize.y = 0 ∨
          call.globalSize.z = 0) := by
  simp only [not_or, not_lt]
  constructor
  · rintro ⟨hdim, hmax, hglobal⟩
    exact ⟨hdim, hmax, hglobal⟩
  · rintro ⟨hdim, hmax, hglobal⟩
    exact ⟨hdim, hmax, hglobal⟩

theorem positive_iff {sizes : Sizes} :
    sizes.Positive ↔ ¬(sizes.x = 0 ∨ sizes.y = 0 ∨ sizes.z = 0) := by
  simp only [Sizes.Positive, not_or, ne_eq]

/-- The tests of the local sizes, which only a CPU device makes. -/
def Checked (device : NDRangeDevice) (call : NDRangeCall) : Prop :=
  device.isCpu = true →
    checkSizes device call call.globalSize (localSize device call) = .ok ()

/-- The context of a launch that is enqueued. -/
def launchContext (device : NDRangeDevice) (call : NDRangeCall) : PoclContext where
  workDim := call.workDim
  numGroups :=
    ⟨call.globalSize.x / (localSize device call).x,
      call.globalSize.y / (localSize device call).y,
      call.globalSize.z / (localSize device call).z⟩
  globalOffset := call.offset
  globalSize := call.globalSize
  localSize := localSize device call

theorem launch_ok_iff {pc : PoclContext} :
    clEnqueueNDRangeKernel device call = .ok pc ↔
      call.Opens device ∧ Checked device call ∧
        (localSize device call).Positive ∧ launchContext device call = pc := by
  have hpure : (pure (launchContext device call) :
      Except NDRangeFailure PoclContext) = .ok pc ↔ launchContext device call = pc :=
    ⟨Except.ok.inj, congrArg Except.ok⟩
  rw [opens_iff, positive_iff, ← hpure]
  unfold clEnqueueNDRangeKernel Checked
  cases hcpu : device.isCpu with
  | true =>
      simp only [guard_ok, if_true, seq_ok, and_assoc, true_imp_iff]
      rfl
  | false =>
      simp only [guard_ok, Bool.false_eq_true, if_false, and_assoc,
        false_imp_iff, true_and]
      rfl

theorem launch_trap_iff (hbuilding : call.building ≠ .error .divisionByZero) :
    clEnqueueNDRangeKernel device call = .error .divisionByZero ↔
      call.Opens device ∧
        ((device.isCpu = true ∧
            call.WithinLimits device (localSize device call) ∧
            ZeroFirst call.globalSize (localSize device call)) ∨
          (Checked device call ∧ ¬(localSize device call).Positive)) := by
  have hpure (pc : PoclContext) : (pure pc : Except NDRangeFailure PoclContext) ≠
      .error .divisionByZero := nofun
  rw [opens_iff, positive_iff]
  unfold clEnqueueNDRangeKernel Checked
  cases hcpu : device.isCpu with
  | true =>
      simp only [guard_error, if_true, seq_error,
        checkSizes_trap_iff hbuilding, hpure, and_assoc, not_not,
        reduceCtorEq, and_false, false_or, and_true, or_false, true_and,
        true_imp_iff]
  | false =>
      simp only [guard_error, Bool.false_eq_true, if_false, hpure,
        and_assoc, not_not, reduceCtorEq, and_false, false_or, and_true, or_false,
        false_and, false_imp_iff, true_and]

theorem localSize_y_of_unused (hdim : call.workDim ≤ 1) :
    (localSize device call).y = 1 := by
  unfold localSize
  cases call.localWorkSize with
  | some given => exact if_neg (by omega)
  | none =>
      cases preferredMultiple device call with
      | some _ => rfl
      | none => rfl

theorem localSize_z_of_unused (hdim : call.workDim ≤ 2) :
    (localSize device call).z = 1 := by
  unfold localSize
  cases call.localWorkSize with
  | some given => exact if_neg (by omega)
  | none =>
      cases preferredMultiple device call with
      | some _ => rfl
      | none => rfl

theorem one_le_toNat {size : SizeT} : 1 ≤ size.toNat ↔ size ≠ 0 := by
  rw [Nat.one_le_iff_ne_zero, ne_eq, ne_eq, ← BitVec.toNat_inj]
  rfl

theorem SizesValid.positive {globalSize localSize : Sizes}
    (hvalid : SizesValid device globalSize localSize) : localSize.Positive :=
  ⟨one_le_toNat.mp hvalid.x.pos, one_le_toNat.mp hvalid.y.pos,
    one_le_toNat.mp hvalid.z.pos⟩

theorem Divides.positive_iff {globalSize localSize : Sizes}
    (hdivides : Divides globalSize localSize) :
    localSize.Positive ↔ ¬ZeroFirst globalSize localSize := by
  simp only [Sizes.Positive, ZeroFirst, hdivides.x, hdivides.y, true_and, not_or,
    ne_eq]

/-- What a CPU device enqueues is valid if its tests are enough. -/
theorem CpuSound.sizesValid
    (hsound : CpuSound device call call.globalSize (localSize device call))
    (hchecked : checkSizes device call call.globalSize (localSize device call) =
      .ok ()) :
    SizesValid device call.globalSize (localSize device call) := by
  obtain ⟨hlimits, ⟨hx, hy, hz⟩, hdivides, hbuilds⟩ := checkSizes_ok_iff.mp hchecked
  obtain ⟨hunusedY, hunusedZ⟩ := hsound.unused hdivides hbuilds
  refine ⟨⟨one_le_toNat.mpr hx, hdivides.x, hlimits.x⟩,
    ⟨one_le_toNat.mpr hy, hdivides.y, ?_⟩, ⟨one_le_toNat.mpr hz, hdivides.z, ?_⟩, ?_⟩
  · by_cases hdim : 1 < call.workDim
    · exact hlimits.y hdim
    · rw [localSize_y_of_unused (by omega)]
      exact hunusedY (by omega)
  · by_cases hdim : 2 < call.workDim
    · exact hlimits.z hdim
    · rw [localSize_z_of_unused (by omega)]
      exact hunusedZ (by omega)
  · have hproduct := hlimits.product
    rw [BitVec.le_def, BitVec.toNat_mul, BitVec.toNat_mul, Nat.mod_mul_mod,
      Nat.mod_eq_of_lt (hsound.no_wrap hdivides hbuilds)] at hproduct
    exact hproduct

theorem cpuSound_of_sufficient (hcpu : device.isCpu = true)
    (hopens : call.Opens device)
    (hbuilding : call.building ≠ .error .divisionByZero)
    (hlimits : call.WithinLimits device (localSize device call))
    (hno_trap : clEnqueueNDRangeKernel device call ≠ .error .divisionByZero)
    (hvalid : ∀ pc, clEnqueueNDRangeKernel device call = .ok pc →
      SizesValid device pc.globalSize pc.localSize) :
    CpuSound device call call.globalSize (localSize device call) := by
  have hzero : ¬ZeroFirst call.globalSize (localSize device call) := by
    intro hzero
    exact hno_trap ((launch_trap_iff hbuilding).mpr
      ⟨hopens, .inl ⟨hcpu, hlimits, hzero⟩⟩)
  have hsizes (hdivides : Divides call.globalSize (localSize device call))
      (hbuilds : call.Builds) :
      SizesValid device call.globalSize (localSize device call) := by
    have hpositive := hdivides.positive_iff.mpr hzero
    have hchecked : Checked device call := fun _ =>
      checkSizes_ok_iff.mpr ⟨hlimits, hpositive, hdivides, hbuilds⟩
    exact hvalid _ (launch_ok_iff.mpr ⟨hopens, hchecked, hpositive, rfl⟩)
  refine ⟨hzero, ?_, ?_⟩
  · intro hdivides hbuilds
    exact (hsizes hdivides hbuilds).product.trans_lt device.maxWorkGroupSize.isLt
  · intro hdivides hbuilds
    have hsizes := hsizes hdivides hbuilds
    exact ⟨fun _ => hsizes.y.pos.trans hsizes.y.le,
      fun _ => hsizes.z.pos.trans hsizes.z.le⟩

theorem launchSound_iff (hbuilding : call.building ≠ .error .divisionByZero) :
    (clEnqueueNDRangeKernel device call ≠ .error .divisionByZero ∧
        ∀ pc, clEnqueueNDRangeKernel device call = .ok pc →
          SizesValid device pc.globalSize pc.localSize) ↔
      LaunchSound device call := by
  unfold LaunchSound
  constructor
  · rintro ⟨hno_trap, hvalid⟩ hopens
    split
    next hcpu =>
      intro hlimits
      exact cpuSound_of_sufficient hcpu hopens hbuilding hlimits hno_trap hvalid
    next hcpu =>
      have hchecked : Checked device call := fun hcpu' => (hcpu hcpu').elim
      have hpositive : (localSize device call).Positive := by
        by_contra hzero
        exact hno_trap ((launch_trap_iff hbuilding).mpr
          ⟨hopens, .inr ⟨hchecked, hzero⟩⟩)
      exact hvalid _ (launch_ok_iff.mpr ⟨hopens, hchecked, hpositive, rfl⟩)
  · intro hsound
    constructor
    · intro htrap
      obtain ⟨hopens, ⟨hcpu, hlimits, hzero⟩ | ⟨hchecked, hzero⟩⟩ :=
        (launch_trap_iff hbuilding).mp htrap
      · have hcpuSound := hsound hopens
        rw [if_pos hcpu] at hcpuSound
        exact (hcpuSound hlimits).no_zero hzero
      · by_cases hcpu : device.isCpu = true
        · exact hzero (checkSizes_ok_iff.mp (hchecked hcpu)).2.1
        · have hvalid := hsound hopens
          rw [if_neg hcpu] at hvalid
          exact hzero hvalid.positive
    · intro pc hok
      obtain ⟨hopens, hchecked, _, rfl⟩ := launch_ok_iff.mp hok
      have hsound := hsound hopens
      split at hsound
      next hcpu =>
        have hlimits := (checkSizes_ok_iff.mp (hchecked hcpu)).1
        exact (hsound hlimits).sizesValid (hchecked hcpu)
      next => exact hsound

end Launch

/-- The validation is sufficient for a call exactly if, on a CPU device, no local
size of zero is divided by, the product of the local sizes is a `size_t` and the
limits of the unused dimensions admit one work-item, and, on any other device, the
sizes are valid as they are. -/
theorem validationSufficient_iff
    {device : NDRangeDevice} {call : NDRangeCall} {globalWorkSize : Option Sizes}
    (hbuilding : call.building ≠ .error .divisionByZero) :
    ValidationSufficient device call globalWorkSize ↔
      ∀ sizes, globalWorkSize = some sizes →
        LaunchSound device { call with globalWorkSize := sizes } := by
  cases globalWorkSize with
  | none =>
      constructor
      · intro _ sizes hsizes
        cases hsizes
      · intro _
        constructor
        · unfold enqueueNDRangeKernel
          split_ifs <;> simp
        · intro pc
          unfold enqueueNDRangeKernel
          split_ifs <;> simp
  | some sizes =>
      have hlaunch : _ ↔ LaunchSound device { call with globalWorkSize := sizes } :=
        launchSound_iff hbuilding
      constructor
      · rintro ⟨hno_trap, hvalid⟩ _ ⟨⟩
        exact hlaunch.mp
          ⟨fun htrap => hno_trap (congrArg some htrap),
            fun pc hok => hvalid pc (congrArg some hok)⟩
      · intro hsound
        obtain ⟨hno_trap, hvalid⟩ := hlaunch.mpr (hsound sizes rfl)
        exact ⟨fun htrap => hno_trap (Option.some.inj htrap),
          fun pc hok => hvalid pc (Option.some.inj hok)⟩

theorem fourItems_validationSufficient :
    ValidationSufficient basicDevice (fourItems 3 none) (some ⟨4, 1, 1⟩) := by
  refine (validationSufficient_iff (by rintro ⟨⟩)).mpr ?_
  rintro _ ⟨⟩ _ _
  exact ⟨by unfold ZeroFirst; decide, fun _ _ => by decide, fun _ _ => by decide⟩

/-- A local size of zero passes the limits, and the first remainder traps. -/
theorem zeroLocalSize_not_validationSufficient :
    ¬ValidationSufficient basicDevice
      { fourItems 3 none with localWorkSize := some ⟨0, 1, 1⟩ }
      (some ⟨4, 1, 1⟩) := by
  rintro ⟨hno_trap, _⟩
  exact hno_trap rfl

end Pocl
