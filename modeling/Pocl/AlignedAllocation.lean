import Pocl.SizeCeiling
import Mathlib.Data.Nat.Digits.Lemmas

/-!
# Aligned blocks from malloc

Without `aligned_alloc` and `posix_memalign`, `pocl_aligned_malloc` asks `malloc` for a block
that is larger by the mask of the alignment and by a pointer.  It rounds the end of this room
down to the alignment, and it keeps the address of the block in front of the result.

The rounding and the header need exactly this room.  The size of the larger block is a sum of
words, and for huge sizes it wraps to a small one.
-/

namespace Pocl.AlignedAllocation

open AlignmentMasks SizeCeiling

/-- The size of a pointer in bytes. -/
def pointerSize (width : SizeWidth) : ℕ :=
  width.bits / 8

def sizeofPointer (width : SizeWidth) : BitVec width.bits :=
  BitVec.ofNat width.bits (pointerSize width)

structure Block (width : SizeWidth) where
  base : BitVec width.bits
  length : BitVec width.bits
  deriving DecidableEq

inductive Errno
  | einval
  | enomem
  deriving DecidableEq

/-- The memory of the process, its blocks from `malloc` and the error number. -/
structure Process (width : SizeWidth) where
  bytes : BitVec width.bits → BitVec 8
  blocks : List (Block width)
  errno : Option Errno
  distinct : (blocks.map Block.base).Nodup

section Memory

variable {width : SizeWidth}

/-- A pointer is kept with its low byte first. -/
def Process.storePointer (process : Process width) (address value : BitVec width.bits) :
    Process width :=
  { process with
    bytes := fun place =>
      let index := (place - address).toNat
      if index < pointerSize width then BitVec.ofNat 8 (value.toNat / 256 ^ index)
      else process.bytes place }

def Process.loadPointer (process : Process width) (address : BitVec width.bits) :
    BitVec width.bits :=
  BitVec.ofNat width.bits (Nat.ofDigits 256 ((List.range (pointerSize width)).map fun index =>
    (process.bytes (address + BitVec.ofNat width.bits index)).toNat))

/-- `malloc` answers with zero or with a block that is inside the address space and apart
from all others. -/
structure Allocator (width : SizeWidth) where
  answer : Process width → BitVec width.bits → BitVec width.bits
  inside : ∀ process size, answer process size ≠ 0 →
    (answer process size).toNat + size.toNat < 2 ^ width.bits
  fresh : ∀ process size, answer process size ≠ 0 → ∀ block ∈ process.blocks,
    block.base ≠ answer process size ∧
      (block.base.toNat + block.length.toNat ≤ (answer process size).toNat ∨
        (answer process size).toNat + size.toNat ≤ block.base.toNat)

def malloc (allocator : Allocator width) (size : BitVec width.bits) (process : Process width) :
    BitVec width.bits × Process width :=
  if hnull : allocator.answer process size = 0 then (0, { process with errno := some .enomem })
  else
    (allocator.answer process size,
      { process with
        blocks := ⟨allocator.answer process size, size⟩ :: process.blocks
        distinct := List.nodup_cons.mpr ⟨by
          rintro hmem
          obtain ⟨block, hblock, hbase⟩ := List.mem_map.mp hmem
          exact (allocator.fresh process size hnull block hblock).1 hbase, process.distinct⟩ })

/-- Nothing if the address is not the base of a block. -/
def free (address : BitVec width.bits) (process : Process width) : Option (Process width) :=
  if address = 0 then some process
  else if address ∈ process.blocks.map Block.base then
    some { process with
      blocks := process.blocks.filter fun block => block.base ≠ address
      distinct := process.distinct.sublist (List.filter_sublist.map _) }
  else none

/-- `pocl_aligned_malloc` over `malloc`: the pointer, or zero. -/
def poclAlignedMalloc
    (allocator : Allocator width) (alignment size : BitVec width.bits)
    (process : Process width) : BitVec width.bits × Process width :=
  let alignment := if size = 0 then 1 else alignment
  let mask := alignment - 1
  if alignment = 0 ∨ alignment &&& mask ≠ 0 ∨ size &&& mask ≠ 0 then
    (0, { process with errno := some .einval })
  else
    let (address, process) := malloc allocator (size + mask + sizeofPointer width) process
    if address = 0 then (0, process)
    else
      let alignedAddress := (address + mask + sizeofPointer width) &&& ~~~mask
      (alignedAddress, process.storePointer (alignedAddress - sizeofPointer width) address)

def poclAlignedFree (ptr : BitVec width.bits) (process : Process width) :
    Option (Process width) :=
  if ptr ≠ 0 then free (process.loadPointer (ptr - sizeofPointer width)) process
  else some process

end Memory

section Pointers

variable {width : SizeWidth}

/-- The bytes of a pointer in front of an address. -/
def InHeader (ptr address : BitVec width.bits) : Prop :=
  address.toNat < ptr.toNat ∧ ptr.toNat ≤ address.toNat + pointerSize width

def effectiveAlignment (alignment size : BitVec width.bits) : BitVec width.bits :=
  if size = 0 then 1 else alignment

/-- The header and the room for the size lie in a new block, which is the one that is freed
as long as the header is kept. -/
structure Placed
    (alignment size ptr : BitVec width.bits) (block : Block width)
    (process result : Process width) : Prop where
  allocated : result.blocks = block :: process.blocks
  aligned : (effectiveAlignment alignment size).toNat ∣ ptr.toNat
  header : block.base.toNat + pointerSize width ≤ ptr.toNat
  room : ptr.toNat + size.toNat ≤ block.base.toNat + block.length.toNat
  freed : ∀ later : Process width, block ∈ later.blocks →
    (∀ address, InHeader ptr address → later.bytes address = result.bytes address) →
      ∃ released, poclAlignedFree ptr later = some released ∧
        later.blocks.Perm (block :: released.blocks)

def NullOrPlaced
    (allocator : Allocator width) (alignment size : BitVec width.bits)
    (process : Process width) : Prop :=
  (poclAlignedMalloc allocator alignment size process).1 = 0 ∨
    ∃ block, Placed alignment size (poclAlignedMalloc allocator alignment size process).1 block
      process (poclAlignedMalloc allocator alignment size process).2

end Pointers

section PointerBytes

variable {width : SizeWidth}

theorem pointerSize_pos (width : SizeWidth) : 1 ≤ pointerSize width := by
  cases width with
  | word32 => decide
  | word64 => decide

theorem two_pow_bits (width : SizeWidth) : 256 ^ pointerSize width = 2 ^ width.bits := by
  cases width with
  | word32 => rfl
  | word64 => rfl

theorem pointerSize_lt (width : SizeWidth) : pointerSize width < 2 ^ (width.bits - 1) := by
  cases width with
  | word32 => decide
  | word64 => decide

theorem ofNat_toNat_of_le_pointerSize {n : ℕ} (hle : n ≤ pointerSize width) :
    (BitVec.ofNat width.bits n).toNat = n := by
  have hsize := pointerSize_lt width
  have hbits := width.two_pow_bits
  rw [BitVec.toNat_ofNat]
  exact Nat.mod_eq_of_lt (by omega)

theorem sizeofPointer_toNat (width : SizeWidth) :
    (sizeofPointer width).toNat = pointerSize width :=
  ofNat_toNat_of_le_pointerSize le_rfl

theorem ofDigits_bytes (value count : ℕ) :
    Nat.ofDigits 256 ((List.range count).map fun index => value / 256 ^ index % 256) =
      value % 256 ^ count := by
  induction count with
  | zero => rw [pow_zero, Nat.mod_one]; rfl
  | succ count ih =>
      rw [List.range_succ, List.map_append, Nat.ofDigits_append, ih, List.length_map,
        List.length_range, List.map_singleton, Nat.ofDigits_singleton, Nat.mod_pow_succ]

/-- What was stored is loaded as long as the bytes of the header are kept. -/
theorem loadPointer_storePointer
    {process later : Process width} {ptr value : BitVec width.bits}
    (hroom : pointerSize width ≤ ptr.toNat)
    (hkept : ∀ address, InHeader ptr address → later.bytes address =
      (process.storePointer (ptr - sizeofPointer width) value).bytes address) :
    later.loadPointer (ptr - sizeofPointer width) = value := by
  have hstart : (ptr - sizeofPointer width).toNat = ptr.toNat - pointerSize width := by
    rw [BitVec.toNat_sub_of_le, sizeofPointer_toNat]
    rwa [BitVec.le_def, sizeofPointer_toNat]
  have hbytes : (List.range (pointerSize width)).map (fun index =>
      (later.bytes (ptr - sizeofPointer width + BitVec.ofNat width.bits index)).toNat) =
      (List.range (pointerSize width)).map fun index => value.toNat / 256 ^ index % 256 := by
    refine List.map_congr_left fun index hindex => ?_
    have hlt := List.mem_range.mp hindex
    have hptr := ptr.isLt
    have hoffset := ofNat_toNat_of_le_pointerSize (Nat.le_of_lt hlt)
    have hplace : (ptr - sizeofPointer width + BitVec.ofNat width.bits index).toNat =
        ptr.toNat - pointerSize width + index := by
      rw [BitVec.toNat_add, hstart, hoffset]
      exact Nat.mod_eq_of_lt (by omega)
    rw [hkept _ ⟨by omega, by omega⟩]
    have hdistance : (ptr - sizeofPointer width + BitVec.ofNat width.bits index -
        (ptr - sizeofPointer width)).toNat = index := by
      rw [BitVec.add_comm, BitVec.add_sub_cancel, hoffset]
    simp only [Process.storePointer, hdistance, if_pos hlt]
    rw [BitVec.toNat_ofNat]
  refine BitVec.eq_of_toNat_eq ?_
  rw [Process.loadPointer, hbytes, ofDigits_bytes, BitVec.toNat_ofNat, two_pow_bits,
    Nat.mod_mod, Nat.mod_eq_of_lt value.isLt]

end PointerBytes

section Releases

variable {width : SizeWidth}

/-- Without the block of a base, no other block is lost. -/
theorem perm_filter_base
    {blocks : List (Block width)} {block : Block width}
    (hdistinct : (blocks.map Block.base).Nodup) (hblock : block ∈ blocks) :
    blocks.Perm (block :: blocks.filter fun other => other.base ≠ block.base) := by
  induction blocks with
  | nil => cases hblock
  | cons first rest ih =>
      obtain ⟨hfirst, hrest⟩ := List.nodup_cons.mp hdistinct
      rcases List.mem_cons.mp hblock with rfl | hmem
      · have hkept : rest.filter (fun other => other.base ≠ block.base) = rest := by
          refine List.filter_eq_self.mpr fun other hother => decide_eq_true ?_
          rintro heq
          exact hfirst (heq ▸ List.mem_map_of_mem hother)
        rw [List.filter_cons_of_neg (by simp), hkept]
      · have hne : first.base ≠ block.base := by
          rintro heq
          exact hfirst (heq ▸ List.mem_map_of_mem hmem)
        rw [List.filter_cons_of_pos (by simp [hne])]
        exact ((ih hrest hmem).cons first).trans (List.Perm.swap _ _ _)

theorem free_base
    {later : Process width} {block : Block width} (hblock : block ∈ later.blocks)
    (hbase : block.base ≠ 0) :
    ∃ released, free block.base later = some released ∧
      later.blocks.Perm (block :: released.blocks) := by
  have hmem : block.base ∈ later.blocks.map Block.base := List.mem_map_of_mem hblock
  rw [free, if_neg hbase, if_pos hmem]
  exact ⟨_, rfl, perm_filter_base later.distinct hblock⟩

end Releases

section Rounding

variable {width : SizeWidth} {alignment size : BitVec width.bits} {exponent : ℕ}

/-- The room of the block without wrapping: the size, the mask and the header. -/
def roomSize (alignment size : BitVec width.bits) : ℕ :=
  size.toNat + (alignment.toNat - 1) + pointerSize width

theorem requested_toNat
    (hpower : alignment.toNat = 2 ^ exponent) (size : BitVec width.bits) :
    (size + (alignment - 1) + sizeofPointer width).toNat =
      roomSize alignment size % 2 ^ width.bits := by
  rw [BitVec.toNat_add, BitVec.toNat_add, sizeofPointer_toNat, mask_toNat hpower,
    Nat.mod_add_mod, roomSize, hpower]

theorem requested_toNat_of_lt
    (hpower : alignment.toNat = 2 ^ exponent)
    (hroom : roomSize alignment size < 2 ^ width.bits) :
    (size + (alignment - 1) + sizeofPointer width).toNat = roomSize alignment size := by
  rw [requested_toNat hpower, Nat.mod_eq_of_lt hroom]

theorem two_pow_le_half (hpower : alignment.toNat = 2 ^ exponent) :
    2 ^ exponent ≤ 2 ^ (width.bits - 1) := by
  have halignment := alignment.isLt
  rw [hpower] at halignment
  have hlt := (Nat.pow_lt_pow_iff_right (by decide)).mp halignment
  exact Nat.pow_le_pow_right (by decide) (by omega)

theorem requested_toNat_lt_of_le
    (hpower : alignment.toNat = 2 ^ exponent)
    (hwrap : 2 ^ width.bits ≤ roomSize alignment size) :
    (size + (alignment - 1) + sizeofPointer width).toNat < size.toNat ∧
      (size + (alignment - 1) + sizeofPointer width).toNat + 2 ^ width.bits =
        roomSize alignment size := by
  have hbits := width.two_pow_bits
  have hpointer := pointerSize_lt width
  have hsize := size.isLt
  have hpow := two_pow_le_half hpower
  have hrequested := requested_toNat hpower size
  have hroom : roomSize alignment size = size.toNat + (2 ^ exponent - 1) + pointerSize width := by
    rw [roomSize, hpower]
  rw [Nat.mod_eq_sub_mod hwrap, Nat.mod_eq_of_lt (by omega)] at hrequested
  constructor <;> omega

/-- The rounded address and where it lies in the room from an address on. -/
theorem alignedAddress_spec
    (hpower : alignment.toNat = 2 ^ exponent) (address : BitVec width.bits)
    (hinside : address.toNat + (2 ^ exponent - 1) + pointerSize width < 2 ^ width.bits) :
    alignment.toNat ∣
        ((address + (alignment - 1) + sizeofPointer width) &&& ~~~(alignment - 1)).toNat ∧
      address.toNat + pointerSize width ≤
        ((address + (alignment - 1) + sizeofPointer width) &&& ~~~(alignment - 1)).toNat ∧
      ((address + (alignment - 1) + sizeofPointer width) &&& ~~~(alignment - 1)).toNat ≤
        address.toNat + (2 ^ exponent - 1) + pointerSize width := by
  have hsum : (address + (alignment - 1) + sizeofPointer width).toNat =
      address.toNat + pointerSize width + (2 ^ exponent - 1) := by
    rw [BitVec.toNat_add, BitVec.toNat_add, sizeofPointer_toNat, mask_toNat hpower,
      Nat.mod_add_mod, Nat.mod_eq_of_lt hinside, Nat.add_right_comm]
  rw [and_not_mask_toNat hpower, hsum, hpower]
  refine ⟨Nat.dvd_mul_left _ _, le_round_down Nat.one_le_two_pow _, ?_⟩
  refine (Nat.div_mul_le_self _ _).trans (Nat.le_of_eq ?_)
  rw [Nat.add_right_comm]

end Rounding

section Requests

variable {width : SizeWidth} {alignment size : BitVec width.bits}

/-- The alignment is a power of two that divides the size. -/
def Acceptable (alignment size : BitVec width.bits) : Prop :=
  (∃ exponent, (effectiveAlignment alignment size).toNat = 2 ^ exponent) ∧
    (effectiveAlignment alignment size).toNat ∣ size.toNat

theorem refused_iff (alignment size : BitVec width.bits) :
    (effectiveAlignment alignment size = 0 ∨
      effectiveAlignment alignment size &&& (effectiveAlignment alignment size - 1) ≠ 0 ∨
      size &&& (effectiveAlignment alignment size - 1) ≠ 0) ↔
    ¬ Acceptable alignment size := by
  by_cases hzero : effectiveAlignment alignment size = 0
  · refine iff_of_true (.inl hzero) ?_
    rintro ⟨⟨exponent, hpower⟩, -⟩
    have hnull : (0 : BitVec width.bits).toNat = 0 := BitVec.toNat_zero
    rw [hzero, hnull] at hpower
    exact absurd hpower.symm (Nat.two_pow_pos exponent).ne'
  · by_cases hpower : ∃ exponent, (effectiveAlignment alignment size).toNat = 2 ^ exponent
    · obtain ⟨exponent, hexponent⟩ := hpower
      have hself := (and_pred_eq_zero_iff hzero).mpr ⟨exponent, hexponent⟩
      simp only [hzero, hself, ne_eq, not_true_eq_false, false_or,
        and_mask_eq_zero_iff hexponent, Acceptable]
      exact ⟨fun hdvd hacceptable => hdvd hacceptable.2,
        fun hnot hdvd => hnot ⟨⟨exponent, hexponent⟩, hdvd⟩⟩
    · refine iff_of_true (.inr (.inl ?_)) fun hacceptable => hpower hacceptable.1
      exact fun hself => hpower ((and_pred_eq_zero_iff hzero).mp hself)

variable {allocator : Allocator width} {process : Process width}

theorem poclAlignedMalloc_of_not_acceptable (hnot : ¬ Acceptable alignment size) :
    poclAlignedMalloc allocator alignment size process =
      (0, { process with errno := some .einval }) := by
  have hrefused := (refused_iff alignment size).mpr hnot
  simp only [effectiveAlignment] at hrefused
  simp only [poclAlignedMalloc, if_pos hrefused]

theorem poclAlignedMalloc_of_answer_zero
    (hacceptable : Acceptable alignment size)
    (hnull : allocator.answer process
      (size + (effectiveAlignment alignment size - 1) + sizeofPointer width) = 0) :
    poclAlignedMalloc allocator alignment size process =
      (0, { process with errno := some .enomem }) := by
  have hrefused := mt (refused_iff alignment size).mp (not_not.mpr hacceptable)
  simp only [effectiveAlignment] at hrefused hnull
  simp only [poclAlignedMalloc, if_neg hrefused, malloc, dif_pos hnull, if_true]

/-- A block of `malloc` is rounded, and it keeps its address in front of the pointer. -/
theorem poclAlignedMalloc_of_answer
    {alignment size address : BitVec width.bits}
    (hacceptable : Acceptable alignment size)
    (haddress : allocator.answer process
      (size + (effectiveAlignment alignment size - 1) + sizeofPointer width) = address)
    (hnonzero : address ≠ 0) :
    ∃ allocated : Process width,
      allocated.blocks =
        ⟨address, size + (effectiveAlignment alignment size - 1) + sizeofPointer width⟩ ::
          process.blocks ∧
      allocated.bytes = process.bytes ∧
      poclAlignedMalloc allocator alignment size process =
        ((address + (effectiveAlignment alignment size - 1) + sizeofPointer width) &&&
            ~~~(effectiveAlignment alignment size - 1),
          allocated.storePointer
            (((address + (effectiveAlignment alignment size - 1) + sizeofPointer width) &&&
              ~~~(effectiveAlignment alignment size - 1)) - sizeofPointer width) address) := by
  have hrefused := mt (refused_iff alignment size).mp (not_not.mpr hacceptable)
  subst haddress
  refine ⟨(malloc allocator
    (size + (effectiveAlignment alignment size - 1) + sizeofPointer width) process).2,
    ?_, ?_, ?_⟩
  · rw [malloc, dif_neg hnonzero]
  · rw [malloc, dif_neg hnonzero]
  · have hbase : (malloc allocator
        (size + (effectiveAlignment alignment size - 1) + sizeofPointer width) process).1 =
        allocator.answer process
          (size + (effectiveAlignment alignment size - 1) + sizeofPointer width) := by
      rw [malloc, dif_neg hnonzero]
    rw [← hbase] at hnonzero ⊢
    exact (if_neg hrefused).trans (if_neg hnonzero)

end Requests

section Placement

variable {width : SizeWidth} {allocator : Allocator width} {process : Process width}
  {alignment size : BitVec width.bits}

/-- Without wrapping, the block has room for the header and for the size. -/
theorem placed_of_lt
    (hacceptable : Acceptable alignment size)
    (hroom : roomSize (effectiveAlignment alignment size) size < 2 ^ width.bits)
    (hnonzero : allocator.answer process
      (size + (effectiveAlignment alignment size - 1) + sizeofPointer width) ≠ 0) :
    ∃ block, Placed alignment size (poclAlignedMalloc allocator alignment size process).1 block
      process (poclAlignedMalloc allocator alignment size process).2 := by
  obtain ⟨exponent, hpower⟩ := hacceptable.1
  have hlength := requested_toNat_of_lt hpower hroom
  have hinside := allocator.inside process _ hnonzero
  obtain ⟨allocated, hblocks, -, hresult⟩ := poclAlignedMalloc_of_answer hacceptable rfl hnonzero
  generalize haddress : allocator.answer process
    (size + (effectiveAlignment alignment size - 1) + sizeofPointer width) = address at *
  rw [hlength, roomSize, hpower] at hinside
  obtain ⟨haligned, hheader, hend⟩ := alignedAddress_spec hpower address (by omega)
  rw [hresult]
  dsimp only
  refine ⟨_, hblocks, haligned, hheader, ?_, ?_⟩
  · dsimp only
    rw [hlength, roomSize, hpower]
    omega
  · intro later hlater hkept
    have hpositive := pointerSize_pos width
    have hload := loadPointer_storePointer (by omega) hkept
    have hptr : (address + (effectiveAlignment alignment size - 1) + sizeofPointer width) &&&
        ~~~(effectiveAlignment alignment size - 1) ≠ 0 := by
      rintro heq
      have hnull : (0 : BitVec width.bits).toNat = 0 := BitVec.toNat_zero
      rw [heq, hnull] at hheader
      omega
    rw [poclAlignedFree, if_pos hptr, hload]
    exact free_base hlater hnonzero

/-- A wrapped block is smaller than the size. -/
theorem not_placed_of_le
    (hacceptable : Acceptable alignment size)
    (hwrap : 2 ^ width.bits ≤ roomSize (effectiveAlignment alignment size) size)
    (hnonzero : allocator.answer process
      (size + (effectiveAlignment alignment size - 1) + sizeofPointer width) ≠ 0)
    (block : Block width) :
    ¬ Placed alignment size (poclAlignedMalloc allocator alignment size process).1 block
      process (poclAlignedMalloc allocator alignment size process).2 := by
  intro hplaced
  obtain ⟨exponent, hpower⟩ := hacceptable.1
  obtain ⟨hsmall, -⟩ := requested_toNat_lt_of_le hpower hwrap
  obtain ⟨allocated, hblocks, -, hresult⟩ := poclAlignedMalloc_of_answer hacceptable rfl hnonzero
  have hallocated := hplaced.allocated
  have hheader := hplaced.header
  have hroom := hplaced.room
  rw [hresult] at hallocated
  obtain ⟨rfl, -⟩ := List.cons.inj (hblocks.symm.trans hallocated)
  dsimp only at hroom hheader
  omega

end Placement

section Blocks

/-- One block behind the first sixteen bytes. -/
def lowBlock (width : SizeWidth) : Allocator width where
  answer process size :=
    if process.blocks = [] ∧ 16 + size.toNat < 2 ^ width.bits then BitVec.ofNat _ 16 else 0
  inside process size hnonzero := by
    by_cases hfits : process.blocks = [] ∧ 16 + size.toNat < 2 ^ width.bits
    · have hlow : (BitVec.ofNat width.bits 16).toNat ≤ 16 := Nat.mod_le _ _
      rw [if_pos hfits]
      exact Nat.lt_of_le_of_lt (Nat.add_le_add_right hlow _) hfits.2
    · exact absurd (if_neg hfits) hnonzero
  fresh process size hnonzero block hblock := by
    by_cases hfits : process.blocks = [] ∧ 16 + size.toNat < 2 ^ width.bits
    · rw [hfits.1] at hblock
      cases hblock
    · exact absurd (if_neg hfits) hnonzero

def emptyProcess (width : SizeWidth) : Process width where
  bytes _ := 0
  blocks := []
  errno := none
  distinct := List.nodup_nil

/-- The small block for a sum that wraps is available. -/
theorem poclAlignedMalloc_lowBlock_ne_zero
    {width : SizeWidth} {alignment size : BitVec width.bits}
    (hacceptable : Acceptable alignment size)
    (hwrap : 2 ^ width.bits ≤ roomSize (effectiveAlignment alignment size) size) :
    (lowBlock width).answer (emptyProcess width)
        (size + (effectiveAlignment alignment size - 1) + sizeofPointer width) ≠ 0 ∧
      (poclAlignedMalloc (lowBlock width) alignment size (emptyProcess width)).1 ≠ 0 := by
  obtain ⟨exponent, hpower⟩ := hacceptable.1
  obtain ⟨-, hlength⟩ := requested_toNat_lt_of_le hpower hwrap
  have hsize := size.isLt
  have hpositive := pointerSize_pos width
  have hnull : (0 : BitVec width.bits).toNat = 0 := BitVec.toNat_zero
  rw [roomSize, hpower] at hlength
  have hroom : 16 + (2 ^ exponent - 1) + pointerSize width + pointerSize width <
      2 ^ width.bits := by
    have hpow := two_pow_le_half hpower
    have hbits := width.two_pow_bits
    have hhalf : 16 + pointerSize width + pointerSize width < 2 ^ (width.bits - 1) := by
      cases width with
      | word32 => decide
      | word64 => decide
    omega
  have hlow : (BitVec.ofNat width.bits 16).toNat = 16 := by
    rw [BitVec.toNat_ofNat]
    exact Nat.mod_eq_of_lt (by omega)
  have hanswer : (lowBlock width).answer (emptyProcess width)
      (size + (effectiveAlignment alignment size - 1) + sizeofPointer width) =
      BitVec.ofNat width.bits 16 := if_pos ⟨rfl, by omega⟩
  have hnonzero : BitVec.ofNat width.bits 16 ≠ 0 := by
    rintro heq
    rw [heq, hnull] at hlow
    omega
  refine ⟨by rwa [hanswer], ?_⟩
  obtain ⟨allocated, -, -, hresult⟩ := poclAlignedMalloc_of_answer hacceptable hanswer hnonzero
  obtain ⟨-, hheader, -⟩ := alignedAddress_spec hpower
    (BitVec.ofNat width.bits 16) (by omega)
  rw [hresult]
  dsimp only
  rintro heq
  rw [heq, hnull] at hheader
  omega

end Blocks

/-- A request is served from within the block, or refused, exactly if it is refused for its
alignment or the sum for the block does not wrap. -/
theorem nullOrPlaced_iff {width : SizeWidth} (alignment size : BitVec width.bits) :
    (∀ allocator process, NullOrPlaced allocator alignment size process) ↔
      ¬ Acceptable alignment size ∨
        roomSize (effectiveAlignment alignment size) size < 2 ^ width.bits := by
  constructor
  · intro hall
    by_contra hnot
    obtain ⟨hacceptable, hwrap⟩ := not_or.mp hnot
    rw [not_not] at hacceptable
    obtain ⟨hnonzero, hptr⟩ := poclAlignedMalloc_lowBlock_ne_zero hacceptable (not_lt.mp hwrap)
    rcases hall (lowBlock width) (emptyProcess width) with hnull | ⟨block, hplaced⟩
    · exact hptr hnull
    · exact not_placed_of_le hacceptable (not_lt.mp hwrap) hnonzero block hplaced
  · rintro hcases allocator process
    by_cases hacceptable : Acceptable alignment size
    · by_cases hnull : allocator.answer process
        (size + (effectiveAlignment alignment size - 1) + sizeofPointer width) = 0
      · exact .inl (by rw [poclAlignedMalloc_of_answer_zero hacceptable hnull])
      · exact .inr (placed_of_lt hacceptable (hcases.resolve_left (not_not.mpr hacceptable)) hnull)
    · exact .inl (by rw [poclAlignedMalloc_of_not_acceptable hacceptable])

theorem poclAlignedMalloc_wrapped :
    (poclAlignedMalloc (lowBlock .word64) 8 (-8) (emptyProcess .word64)).1 = 24 ∧
      (poclAlignedMalloc (lowBlock .word64) 8 (-8) (emptyProcess .word64)).2.blocks =
        [⟨16, 7⟩] ∧
      ¬ NullOrPlaced (lowBlock .word64) 8 (-8) (emptyProcess .word64) := by
  have hptr : (poclAlignedMalloc (lowBlock .word64) 8 (-8) (emptyProcess .word64)).1 = 24 := by
    decide
  have hblocks : (poclAlignedMalloc (lowBlock .word64) 8 (-8)
      (emptyProcess .word64)).2.blocks = [⟨16, 7⟩] := by
    decide
  refine ⟨hptr, hblocks, ?_⟩
  rintro (hnull | ⟨block, hplaced⟩)
  · rw [hptr] at hnull
    exact absurd hnull (by decide)
  · obtain ⟨rfl, -⟩ := List.cons.inj (hblocks.symm.trans hplaced.allocated)
    have hroom := hplaced.room
    rw [hptr] at hroom
    exact absurd hroom (by decide)

end Pocl.AlignedAllocation
