import Pocl.NDRanges
import Pocl.SizeCeiling

/-!
# The memory for kernel arguments

`clSetKernelArg` and `clEnqueueNDRangeKernel` both keep copies of the arguments.  Each of
them computes an alignment and a size for `pocl_aligned_malloc`.  The function is either
`aligned_alloc`, or it makes tests of its own and calls `posix_memalign` or `malloc`.

The size is raised to the alignment when it is smaller, but it has to be a multiple of the
alignment: `aligned_alloc` promises nothing for another size, and the tests of the function
refuse it.  The alignment is bounded, so sizes above the bound may break this rule.
-/

namespace Pocl.ArgumentAllocation

open AlignmentMasks BitSmearing SizeCeiling

structure Request where
  alignment : SizeT
  size : SizeT
  deriving DecidableEq

section Requests

variable (maxExtendedAlignment : SizeT)

/-- The request of `clSetKernelArg`. -/
def setKernelArgRequest (argSize : SizeT) : Request :=
  let argAlignment : SizeT := poclSizeCeil2 .word64 argSize
  let argAlignment :=
    if maxExtendedAlignment ≤ argAlignment then maxExtendedAlignment else argAlignment
  let argAllocSize := argSize
  let argAllocSize := if argAllocSize < argAlignment then argAlignment else argAllocSize
  ⟨argAlignment, argAllocSize⟩

/-- The request of `clEnqueueNDRangeKernel` for an argument of the kernel object. -/
def enqueueRequest (dynArgumentSize : SizeT) : Request :=
  let argAllocSize := dynArgumentSize
  let argAlignment : SizeT := poclSizeCeil2 .word64 argAllocSize
  let argAlignment :=
    if maxExtendedAlignment ≤ argAlignment then maxExtendedAlignment else argAlignment
  ⟨argAlignment, if argAllocSize < argAlignment then argAlignment else argAllocSize⟩

end Requests

/-- Which function of the host `pocl_aligned_malloc` rests on. -/
inductive Allocator
  | alignedAlloc
  | posixMemalign
  | malloc
  deriving DecidableEq

/-- The functions of the host.  The result is an address, or nothing if they fail. -/
structure HostMemory where
  alignedAlloc : (alignment size : SizeT) → Option SizeT
  posixMemalign : (alignment size : SizeT) → Option SizeT
  malloc : (size : SizeT) → Option SizeT

/-- The block of the host and the pointer that is returned. -/
structure Placement where
  base : SizeT
  length : SizeT
  pointer : SizeT
  deriving DecidableEq

def poclAlignedMalloc (allocator : Allocator) (memory : HostMemory) (request : Request) :
    Option Placement :=
  let alignment := request.alignment
  let size := request.size
  match allocator with
  | .alignedAlloc =>
      (memory.alignedAlloc alignment size).map fun result => ⟨result, size, result⟩
  | .posixMemalign =>
      if size &&& (alignment - 1) ≠ 0 then none
      else
        let alignment := if alignment < 8 then 8 else alignment
        (memory.posixMemalign alignment size).map fun result => ⟨result, size, result⟩
  | .malloc =>
      let alignment := if size = 0 then 1 else alignment
      let mask := alignment - 1
      if alignment = 0 ∨ alignment &&& mask ≠ 0 ∨ size &&& mask ≠ 0 then none
      else
        (memory.malloc (size + mask + 8)).map fun address =>
          ⟨address, size + mask + 8, (address + mask + 8) &&& ~~~mask⟩

def IsPowerOfTwo (word : SizeT) : Prop :=
  ∃ exponent, word.toNat = 2 ^ exponent

/-- The documented behaviour of the functions of the host when memory is available: they
succeed when their conditions hold, and blocks lie in the address space. -/
structure HostMemory.Available (memory : HostMemory) (limit : ℕ) : Prop where
  alignedAlloc_some : ∀ alignment size : SizeT, size.toNat ≤ limit →
    IsPowerOfTwo alignment → alignment.toNat ∣ size.toNat →
      ∃ result : SizeT, memory.alignedAlloc alignment size = some result ∧
        alignment.toNat ∣ result.toNat ∧ result.toNat + size.toNat ≤ 2 ^ 64
  posixMemalign_some : ∀ alignment size : SizeT, size.toNat ≤ limit →
    IsPowerOfTwo alignment → 8 ≤ alignment.toNat →
      ∃ result : SizeT, memory.posixMemalign alignment size = some result ∧
        alignment.toNat ∣ result.toNat ∧ result.toNat + size.toNat ≤ 2 ^ 64
  malloc_some : ∀ size : SizeT, size.toNat ≤ limit →
    ∃ result : SizeT, memory.malloc size = some result ∧
      result.toNat + size.toNat < 2 ^ 64

/-- The condition of `aligned_alloc` on the size.  For the other functions of the host
`pocl_aligned_malloc` tests the size itself. -/
def SizeRule (allocator : Allocator) (request : Request) : Prop :=
  allocator = .alignedAlloc → request.alignment.toNat ∣ request.size.toNat

/-- The copy of an argument can be made in both functions, and it has room for the value. -/
structure CopyAllocated
    (allocator : Allocator) (memory : HostMemory) (maxExtendedAlignment argSize : SizeT) :
    Prop where
  same : enqueueRequest maxExtendedAlignment argSize =
    setKernelArgRequest maxExtendedAlignment argSize
  powerOfTwo : IsPowerOfTwo (setKernelArgRequest maxExtendedAlignment argSize).alignment
  sizeRule : SizeRule allocator (setKernelArgRequest maxExtendedAlignment argSize)
  large : argSize.toNat ≤ (setKernelArgRequest maxExtendedAlignment argSize).size.toNat
  placed : ∃ placement,
    poclAlignedMalloc allocator memory (setKernelArgRequest maxExtendedAlignment argSize) =
      some placement ∧
    (setKernelArgRequest maxExtendedAlignment argSize).alignment.toNat ∣
      placement.pointer.toNat ∧
    placement.base.toNat ≤ placement.pointer.toNat ∧
    placement.pointer.toNat + argSize.toNat ≤
      placement.base.toNat + placement.length.toNat

section Allocation

variable {allocator : Allocator} {memory : HostMemory} {request : Request} {limit : ℕ}

/-- A pointer to the room for a request, inside a block of the host. -/
def Holds (request : Request) (placement : Placement) : Prop :=
  request.alignment.toNat ∣ placement.pointer.toNat ∧
    placement.base.toNat ≤ placement.pointer.toNat ∧
    placement.pointer.toNat + request.size.toNat ≤
      placement.base.toNat + placement.length.toNat

/-- In every configuration, the size has to be a multiple of the alignment. -/
theorem dvd_of_poclAlignedMalloc
    (hpower : IsPowerOfTwo request.alignment) (hrule : SizeRule allocator request)
    {placement : Placement}
    (hsome : poclAlignedMalloc allocator memory request = some placement) :
    request.alignment.toNat ∣ request.size.toNat := by
  obtain ⟨exponent, hexponent⟩ := hpower
  cases allocator with
  | alignedAlloc => exact hrule rfl
  | posixMemalign =>
      rw [← and_mask_eq_zero_iff hexponent]
      by_contra hnot
      simp only [poclAlignedMalloc, ne_eq, hnot, not_false_eq_true, if_true] at hsome
      cases hsome
  | malloc =>
      by_cases hzero : request.size = 0
      · rw [hzero]
        exact dvd_zero _
      · rw [← and_mask_eq_zero_iff hexponent]
        by_contra hnot
        simp only [poclAlignedMalloc, if_neg hzero, ne_eq, hnot, not_false_eq_true, or_true,
          if_true] at hsome
        cases hsome

theorem poclAlignedMalloc_alignedAlloc
    (havailable : memory.Available limit) (hpower : IsPowerOfTwo request.alignment)
    (hlimit : request.size.toNat ≤ limit)
    (hdvd : request.alignment.toNat ∣ request.size.toNat) :
    ∃ placement, poclAlignedMalloc .alignedAlloc memory request = some placement ∧
      Holds request placement := by
  obtain ⟨result, hresult, haligned, -⟩ :=
    havailable.alignedAlloc_some _ _ hlimit hpower hdvd
  refine ⟨⟨result, request.size, result⟩, ?_, haligned, le_rfl, le_rfl⟩
  rw [poclAlignedMalloc, hresult]
  rfl

theorem poclAlignedMalloc_posixMemalign
    (havailable : memory.Available limit) (hpower : IsPowerOfTwo request.alignment)
    (hlimit : request.size.toNat ≤ limit)
    (hdvd : request.alignment.toNat ∣ request.size.toNat) :
    ∃ placement, poclAlignedMalloc .posixMemalign memory request = some placement ∧
      Holds request placement := by
  obtain ⟨exponent, hexponent⟩ := hpower
  have hmask : request.size &&& (request.alignment - 1) = 0 :=
    (and_mask_eq_zero_iff hexponent).mpr hdvd
  by_cases hsmall : request.alignment < 8
  · obtain ⟨result, hresult, haligned, -⟩ :=
      havailable.posixMemalign_some 8 request.size hlimit ⟨3, rfl⟩ le_rfl
    have hlt : request.alignment.toNat < 8 := hsmall
    have hexp : exponent ≤ 3 := by
      rw [hexponent] at hlt
      exact Nat.le_of_lt ((Nat.pow_lt_pow_iff_right (by decide)).mp
        (show 2 ^ exponent < 2 ^ 3 from hlt))
    refine ⟨⟨result, request.size, result⟩, ?_, ?_, le_rfl, le_rfl⟩
    · simp only [poclAlignedMalloc, hmask, ne_eq, not_true_eq_false, if_false, if_pos hsmall,
        hresult, Option.map_some]
    · rw [hexponent]
      exact (Nat.pow_dvd_pow 2 hexp).trans haligned
  · have hlarge : 8 ≤ request.alignment.toNat := not_lt.mp hsmall
    obtain ⟨result, hresult, haligned, -⟩ :=
      havailable.posixMemalign_some request.alignment request.size hlimit
        ⟨exponent, hexponent⟩ hlarge
    refine ⟨⟨result, request.size, result⟩, ?_, haligned, le_rfl, le_rfl⟩
    simp only [poclAlignedMalloc, hmask, ne_eq, not_true_eq_false, if_false, if_neg hsmall,
      hresult, Option.map_some]

/-- There is room in front of the pointer for the address of the block. -/
theorem poclAlignedMalloc_malloc
    (havailable : memory.Available limit) (hpower : IsPowerOfTwo request.alignment)
    (hpos : 1 ≤ request.size.toNat)
    (hlimit : request.size.toNat + request.alignment.toNat + 8 ≤ limit)
    (hword : limit < 2 ^ 64)
    (hdvd : request.alignment.toNat ∣ request.size.toNat) :
    ∃ placement, poclAlignedMalloc .malloc memory request = some placement ∧
      Holds request placement ∧ placement.base.toNat + 8 ≤ placement.pointer.toNat := by
  obtain ⟨exponent, hexponent⟩ := hpower
  have hone : 1 ≤ 2 ^ exponent := Nat.one_le_two_pow
  have hnonzero : request.size ≠ 0 := by
    rintro heq
    rw [heq] at hpos
    exact absurd hpos (by decide)
  have halignment : request.alignment ≠ 0 := by
    rintro heq
    rw [heq] at hexponent
    change 0 = 2 ^ exponent at hexponent
    omega
  have hself : request.alignment &&& (request.alignment - 1) = 0 :=
    (and_mask_eq_zero_iff hexponent).mpr dvd_rfl
  have hmask : request.size &&& (request.alignment - 1) = 0 :=
    (and_mask_eq_zero_iff hexponent).mpr hdvd
  have hmaskNat := mask_toNat hexponent
  have hlength : (request.size + (request.alignment - 1) + 8).toNat =
      request.size.toNat + (2 ^ exponent - 1) + 8 := by
    rw [BitVec.toNat_add, BitVec.toNat_add, hmaskNat, Nat.mod_add_mod]
    exact Nat.mod_eq_of_lt (by change _ + 8 < _; omega)
  obtain ⟨address, haddress, hspace⟩ :=
    havailable.malloc_some (request.size + (request.alignment - 1) + 8) (by
      rw [hlength]
      omega)
  rw [hlength] at hspace
  have hend : (address + (request.alignment - 1) + 8).toNat =
      address.toNat + (2 ^ exponent - 1) + 8 := by
    rw [BitVec.toNat_add, BitVec.toNat_add, hmaskNat, Nat.mod_add_mod]
    exact Nat.mod_eq_of_lt (by change _ + 8 < _; omega)
  -- The end is rounded down to a multiple of the alignment.
  have hpointer := and_not_mask_toNat hexponent (address + (request.alignment - 1) + 8)
  have hsum := Nat.div_add_mod
    (address + (request.alignment - 1) + 8).toNat (2 ^ exponent)
  have hlt := Nat.mod_lt (address + (request.alignment - 1) + 8).toNat
    (Nat.lt_of_lt_of_le Nat.zero_lt_one hone)
  rw [Nat.mul_comm] at hsum
  refine ⟨⟨address, request.size + (request.alignment - 1) + 8,
    (address + (request.alignment - 1) + 8) &&& ~~~(request.alignment - 1)⟩, ?_, ⟨?_, ?_, ?_⟩,
    ?_⟩
  · simp only [poclAlignedMalloc, if_neg hnonzero, halignment, hself, hmask, ne_eq,
      not_true_eq_false, or_self, if_false, haddress, Option.map_some]
  · rw [hpointer, hexponent]
    exact dvd_mul_left _ _
  · dsimp only
    omega
  · dsimp only
    omega
  · dsimp only
    omega

/-- The allocation succeeds when the size is a multiple of the alignment. -/
theorem poclAlignedMalloc_some
    (allocator : Allocator) (request : Request)
    (havailable : memory.Available limit) (hpower : IsPowerOfTwo request.alignment)
    (hpos : 1 ≤ request.size.toNat)
    (hlimit : request.size.toNat + request.alignment.toNat + 8 ≤ limit)
    (hword : limit < 2 ^ 64)
    (hdvd : request.alignment.toNat ∣ request.size.toNat) :
    ∃ placement, poclAlignedMalloc allocator memory request = some placement ∧
      Holds request placement := by
  cases allocator with
  | alignedAlloc => exact poclAlignedMalloc_alignedAlloc havailable hpower (by omega) hdvd
  | posixMemalign => exact poclAlignedMalloc_posixMemalign havailable hpower (by omega) hdvd
  | malloc =>
      obtain ⟨placement, hsome, hholds, -⟩ :=
        poclAlignedMalloc_malloc havailable hpower hpos hlimit hword hdvd
      exact ⟨placement, hsome, hholds⟩

end Allocation

section Copies

variable {maxExtendedAlignment argSize : SizeT} {exponent : ℕ}

theorem exists_ceiling (hpos : 1 ≤ argSize.toNat) (hle : argSize.toNat ≤ 2 ^ 63) :
    ∃ ceiling : SizeT, poclSizeCeil2 .word64 argSize = ceiling ∧
      ceiling.toNat = 2 ^ (argSize.toNat - 1).size :=
  ⟨_, rfl, @poclSizeCeil2_toNat_of_le .word64 argSize hpos hle⟩

/-- A small size is rounded up to a power of two, which is also the alignment. -/
theorem setKernelArgRequest_of_le
    (hmax : maxExtendedAlignment.toNat = 2 ^ exponent) (hpos : 1 ≤ argSize.toNat)
    (hle : argSize.toNat ≤ maxExtendedAlignment.toNat) :
    ∃ alignment : SizeT, setKernelArgRequest maxExtendedAlignment argSize =
        ⟨alignment, alignment⟩ ∧
      IsPowerOfTwo alignment ∧ argSize.toNat ≤ alignment.toNat ∧
        alignment.toNat ≤ maxExtendedAlignment.toNat := by
  have hlt := maxExtendedAlignment.isLt
  have hexponent : exponent < 64 := by
    rw [hmax] at hlt
    exact (Nat.pow_lt_pow_iff_right (by decide)).mp hlt
  have hpow : 2 ^ exponent ≤ 2 ^ 63 := Nat.pow_le_pow_right (by decide) (by omega)
  obtain ⟨ceiling, hceiling, hceil⟩ := exists_ceiling hpos (by omega)
  obtain ⟨⟨hup, -⟩, hleast⟩ := two_pow_size_pred_isLeast hpos
  have hbound := hleast ⟨hle, exponent, hmax⟩
  rw [← hceil] at hup hbound
  -- The ceiling is the bound itself, or below it.
  have halignment : (if maxExtendedAlignment ≤ ceiling then
      maxExtendedAlignment else ceiling) = ceiling := by
    split
    next hge => exact BitVec.eq_of_toNat_eq (le_antisymm hge hbound)
    next => rfl
  have hsize : (if argSize < ceiling then ceiling else argSize) = ceiling := by
    split
    next => rfl
    next hge => exact BitVec.eq_of_toNat_eq (le_antisymm hup (not_lt.mp hge))
  refine ⟨ceiling, ?_, ⟨_, hceil⟩, hup, hbound⟩
  simp only [setKernelArgRequest, hceiling, halignment, hsize]

theorem setKernelArgRequest_of_lt
    (hlt : maxExtendedAlignment.toNat < argSize.toNat) (hle : argSize.toNat ≤ 2 ^ 63) :
    setKernelArgRequest maxExtendedAlignment argSize = ⟨maxExtendedAlignment, argSize⟩ := by
  have hpos : 1 ≤ argSize.toNat := by omega
  obtain ⟨ceiling, hceiling, hceil⟩ := exists_ceiling hpos hle
  have hup := (two_pow_size_pred_isLeast hpos).1.1
  have halignment : maxExtendedAlignment ≤ ceiling := by
    rw [BitVec.le_def, hceil]
    omega
  have hsize : ¬ argSize < maxExtendedAlignment := not_lt.mpr (Nat.le_of_lt hlt)
  simp only [setKernelArgRequest, hceiling, if_pos halignment, if_neg hsize]

theorem enqueueRequest_eq (maxExtendedAlignment argSize : SizeT) :
    enqueueRequest maxExtendedAlignment argSize =
      setKernelArgRequest maxExtendedAlignment argSize := rfl

theorem copyAllocated_iff
    {allocator : Allocator} {memory : HostMemory}
    (hmax : maxExtendedAlignment.toNat = 2 ^ exponent) (hexponent : exponent ≤ 32)
    (havailable : memory.Available (2 ^ 34)) (hpos : 1 ≤ argSize.toNat)
    (hle : argSize.toNat ≤ 2 ^ 32) :
    CopyAllocated allocator memory maxExtendedAlignment argSize ↔
      argSize.toNat ≤ maxExtendedAlignment.toNat ∨
        maxExtendedAlignment.toNat ∣ argSize.toNat := by
  have hbound : maxExtendedAlignment.toNat ≤ 2 ^ 32 := by
    rw [hmax]
    exact Nat.pow_le_pow_right (by decide) hexponent
  by_cases hsmall : argSize.toNat ≤ maxExtendedAlignment.toNat
  · obtain ⟨alignment, hrequest, hpower, hlarge, hcap⟩ :=
      setKernelArgRequest_of_le hmax hpos hsmall
    refine iff_of_true ?_ (.inl hsmall)
    obtain ⟨placement, hplacement, haligned, hbase, hend⟩ :=
      poclAlignedMalloc_some allocator ⟨alignment, alignment⟩ havailable hpower
        (hpos.trans hlarge) (by dsimp only; omega) (by decide) dvd_rfl
    refine ⟨enqueueRequest_eq _ _, ?_, ?_, ?_, placement, ?_, ?_, hbase, ?_⟩
    · rwa [hrequest]
    · rw [hrequest]
      exact fun _ => dvd_rfl
    · rwa [hrequest]
    · rwa [hrequest]
    · rwa [hrequest]
    · exact (Nat.add_le_add_left hlarge _).trans hend
  · have hlt : maxExtendedAlignment.toNat < argSize.toNat := not_le.mp hsmall
    have hrequest := setKernelArgRequest_of_lt hlt (by omega)
    have hpower : IsPowerOfTwo maxExtendedAlignment := ⟨exponent, hmax⟩
    constructor
    · intro hcopy
      obtain ⟨placement, hplacement, -⟩ := hcopy.placed
      rw [hrequest] at hplacement
      have hrule := hcopy.sizeRule
      rw [hrequest] at hrule
      exact .inr (dvd_of_poclAlignedMalloc hpower hrule hplacement)
    · intro hcondition
      have hdvd := hcondition.resolve_left hsmall
      obtain ⟨placement, hplacement, haligned, hbase, hend⟩ :=
        poclAlignedMalloc_some allocator ⟨maxExtendedAlignment, argSize⟩ havailable hpower hpos
          (by dsimp only; omega) (by decide) hdvd
      refine ⟨enqueueRequest_eq _ _, ?_, ?_, ?_, placement, ?_, ?_, hbase, hend⟩
      · rwa [hrequest]
      · rw [hrequest]
        exact fun _ => hdvd
      · rw [hrequest]
      · rwa [hrequest]
      · rwa [hrequest]

end Copies

/-- Every block starts at its alignment. -/
def plainMemory : HostMemory where
  alignedAlloc alignment _ := some alignment
  posixMemalign alignment _ := some alignment
  malloc _ := some 4096

theorem plainMemory_available : plainMemory.Available (2 ^ 34) := by
  have hroom : ∀ alignment size : SizeT, IsPowerOfTwo alignment → size.toNat ≤ 2 ^ 34 →
      alignment.toNat + size.toNat ≤ 2 ^ 64 := by
    rintro alignment size ⟨exponent, hexponent⟩ hsize
    have hlt := alignment.isLt
    rw [hexponent] at hlt ⊢
    have hexp := (Nat.pow_lt_pow_iff_right (by decide)).mp hlt
    have hpow : 2 ^ exponent ≤ 2 ^ 63 := Nat.pow_le_pow_right (by decide) (by omega)
    omega
  refine ⟨fun alignment size hsize hpower hdvd => ?_,
    fun alignment size hsize hpower _ => ?_, fun size hsize => ⟨4096, rfl, ?_⟩⟩
  · exact ⟨alignment, rfl, dvd_rfl, hroom alignment size hpower hsize⟩
  · exact ⟨alignment, rfl, dvd_rfl, hroom alignment size hpower hsize⟩
  · change 4096 + size.toNat < 2 ^ 64
    omega

/-- Seventeen values of eight bytes are more than a multiple of the alignment. -/
theorem seventeenDoubles_not_allocated :
    ¬ CopyAllocated .posixMemalign plainMemory 128 136 := by
  intro hcopy
  obtain ⟨placement, hplacement, -⟩ := hcopy.placed
  have hnone : poclAlignedMalloc .posixMemalign plainMemory (setKernelArgRequest 128 136) =
      none := by
    decide
  rw [hnone] at hplacement
  cases hplacement

theorem sixteenDoubles_allocated : CopyAllocated .posixMemalign plainMemory 128 128 :=
  (copyAllocated_iff (show (128 : SizeT).toNat = 2 ^ 7 from rfl) (by decide)
    plainMemory_available (by decide) (by decide)).mpr (.inl (by decide))

end Pocl.ArgumentAllocation
