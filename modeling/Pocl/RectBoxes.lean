import Mathlib.Data.BitVec
import Mathlib.Tactic.Ring
import Pocl.RectTransfers

/-!
# The bytes that a rectangular transfer moves

The drivers multiply the slice pitch of the origin by the row pitch as well, so a box that
does not start in the first slice is taken from another place.
-/

namespace Pocl.RectTransfers

open KernelArguments ByteCopies

section Boxes

/-- The offset of a byte of the box. -/
def RectSide.offset (side : RectSide) (x y z : ℕ) : ℕ :=
  (side.origin.x.toNat + x) + side.rowPitch.toNat * (side.origin.y.toNat + y) +
    side.slicePitch.toNat * (side.origin.z.toNat + z)

def RectSide.address (side : RectSide) (x y z : ℕ) : SizeT :=
  side.ptr + BitVec.ofNat 64 (side.offset x y z)

/-- The bytes of the box on both sides. -/
def boxPairs (dst src : RectSide) (region : Sizes) : List (SizeT × SizeT) :=
  (List.range region.z.toNat).flatMap fun z =>
    (List.range region.y.toNat).flatMap fun y =>
      (List.range region.x.toNat).map fun x => (dst.address x y z, src.address x y z)

def Nonempty (region : Sizes) : Prop :=
  1 ≤ region.x.toNat ∧ 1 ≤ region.y.toNat ∧ 1 ≤ region.z.toNat

/-- The box lies in the buffer. -/
def RectBuffer.Contains (buffer : RectBuffer) (region : Sizes) : Prop :=
  ∀ x < region.x.toNat, ∀ y < region.y.toNat, ∀ z < region.z.toNat,
    buffer.side.offset x y z < buffer.size.toNat

/-- The rows are the bytes of the box, and other bytes are kept. -/
structure CopiesBox (dst src : RectSide) (region : Sizes) (rows : List RowCopy) : Prop where
  pairs : rows.flatMap RowCopy.bytes = boxPairs dst src region
  copies : ∀ memory, Apart (boxPairs dst src region) →
    ∃ after, runRows rows memory = some after ∧
      (∀ address, (∀ pair ∈ boxPairs dst src region, pair.1 ≠ address) →
        after address = memory address) ∧
      (((boxPairs dst src region).map Prod.fst).Nodup →
        ∀ pair ∈ boxPairs dst src region, after pair.1 = memory pair.2)

end Boxes

section Rows

variable {row : RowCopy} {rows : List RowCopy} {memory : SizeT → UInt8}

theorem RowCopy.overlaps_eq_false (hapart : Apart row.bytes) : row.overlaps = false := by
  by_contra hoverlaps
  rw [Bool.not_eq_false, overlaps, Bool.and_eq_true, Bool.or_eq_true] at hoverlaps
  simp only [decide_eq_true_eq] at hoverlaps
  obtain ⟨hlength, hdistance⟩ := hoverlaps
  have hpos : 0 < row.length.toNat := by
    refine Nat.pos_of_ne_zero fun hzero => hlength ?_
    exact BitVec.eq_of_toNat_eq hzero
  have hbyte : ∀ x < row.length.toNat,
      (row.dst + BitVec.ofNat 64 x, row.src + BitVec.ofNat 64 x) ∈ row.bytes :=
    fun x hx => List.mem_map_of_mem (List.mem_range.mpr hx)
  have hfirst := hbyte 0 hpos
  rcases hdistance with hlt | hlt
  · have hmem := hbyte _ hlt
    refine hapart _ hmem _ hfirst ?_
    dsimp only
    rw [BitVec.ofNat_toNat, BitVec.setWidth_eq, BitVec.add_zero, add_sub_cancel]
  · have hmem := hbyte _ hlt
    refine hapart _ hfirst _ hmem ?_
    dsimp only
    rw [BitVec.ofNat_toNat, BitVec.setWidth_eq, BitVec.add_zero, add_sub_cancel]

theorem runRows_eq (hapart : Apart (rows.flatMap RowCopy.bytes)) :
    runRows rows memory = some (copyAll (rows.flatMap RowCopy.bytes) memory) := by
  induction rows generalizing memory with
  | nil => rfl
  | cons row rows ih =>
      rw [List.flatMap_cons] at hapart ⊢
      have hrow : memcpy memory row = some (copyAll row.bytes memory) := by
        rw [memcpy, RowCopy.overlaps_eq_false (hapart.of_subset (List.subset_append_left _ _))]
        rfl
      rw [copyAll_append, runRows, List.foldlM_cons, hrow]
      exact ih (hapart.of_subset (List.subset_append_right _ _))

variable {dst src : RectSide} {region : Sizes}

theorem copiesBox_iff :
    CopiesBox dst src region rows ↔ rows.flatMap RowCopy.bytes = boxPairs dst src region := by
  refine ⟨CopiesBox.pairs, fun hpairs => ⟨hpairs, fun memory hapart => ?_⟩⟩
  rw [← hpairs] at hapart ⊢
  refine ⟨_, runRows_eq hapart, fun address hnot => copyAll_of_notMem hnot, ?_⟩
  exact fun hnodup pair hmem => copyAll_of_mem hnodup hapart hmem

end Rows

section Addresses

variable {dst src side : RectSide} {region : Sizes}

/-- The offset of the first slice is what the source computes. -/
def RectSide.OriginMatches (side : RectSide) : Prop :=
  side.rowPitch * (side.slicePitch * side.origin.z) = side.slicePitch * side.origin.z

theorem RectSide.address_eq (x y z : ℕ) :
    side.address x y z =
      side.ptr + ((side.origin.x + BitVec.ofNat 64 x) +
        side.rowPitch * (side.origin.y + BitVec.ofNat 64 y) +
        side.slicePitch * (side.origin.z + BitVec.ofNat 64 z)) := by
  simp only [address, offset, BitVec.ofNat_add, BitVec.ofNat_mul, BitVec.ofNat_toNat,
    BitVec.setWidth_eq]

theorem RectSide.rowPtr_eq (x j k : ℕ) :
    side.rowPtr j k + BitVec.ofNat 64 x =
      side.address x j k + (side.rowPitch * (side.slicePitch * side.origin.z) -
        side.slicePitch * side.origin.z) := by
  rw [address_eq, rowPtr, adjustedPtr]
  ring

theorem RectSide.rowPtr_eq_iff (x j k : ℕ) :
    side.rowPtr j k + BitVec.ofNat 64 x = side.address x j k ↔ side.OriginMatches := by
  rw [rowPtr_eq, OriginMatches, add_eq_left, sub_eq_zero]

theorem copyRows_bytes :
    (copyRows dst src region).flatMap RowCopy.bytes =
      (List.range region.z.toNat).flatMap fun k =>
        (List.range region.y.toNat).flatMap fun j =>
          (List.range region.x.toNat).map fun x =>
            (dst.rowPtr j k + BitVec.ofNat 64 x, src.rowPtr j k + BitVec.ofNat 64 x) := by
  rw [copyRows, List.flatMap_assoc]
  simp only [List.flatMap_map, RowCopy.bytes]

theorem head?_box {α : Type} (byte : ℕ → ℕ → ℕ → α) (hregion : Nonempty region) :
    ((List.range region.z.toNat).flatMap fun z =>
      (List.range region.y.toNat).flatMap fun y =>
        (List.range region.x.toNat).map fun x => byte x y z).head? = some (byte 0 0 0) := by
  obtain ⟨hx, hy, hz⟩ := hregion
  obtain ⟨lastX, hlastX⟩ := Nat.exists_eq_add_of_le' hx
  obtain ⟨lastY, hlastY⟩ := Nat.exists_eq_add_of_le' hy
  obtain ⟨lastZ, hlastZ⟩ := Nat.exists_eq_add_of_le' hz
  rw [hlastX, hlastY, hlastZ]
  simp [List.range_succ_eq_map]

theorem copyRows_copiesBox_iff (hregion : Nonempty region) :
    CopiesBox dst src region (copyRows dst src region) ↔
      dst.OriginMatches ∧ src.OriginMatches := by
  rw [copiesBox_iff, copyRows_bytes, boxPairs]
  constructor
  · intro heq
    have hhead := congrArg List.head? heq
    rw [head?_box _ hregion, head?_box _ hregion, Option.some.injEq, Prod.mk.injEq] at hhead
    exact ⟨(RectSide.rowPtr_eq_iff 0 0 0).mp hhead.1, (RectSide.rowPtr_eq_iff 0 0 0).mp hhead.2⟩
  · rintro ⟨hdst, hsrc⟩
    simp only [(RectSide.rowPtr_eq_iff _ _ _).mpr hdst, (RectSide.rowPtr_eq_iff _ _ _).mpr hsrc]

end Addresses

section Bounds

variable {buffer : RectBuffer} {region : Sizes}

/-- The offset of the last byte of the box. -/
def RectBuffer.lastOffset (buffer : RectBuffer) (region : Sizes) : ℕ :=
  buffer.side.offset (region.x.toNat - 1) (region.y.toNat - 1) (region.z.toNat - 1)

/-- The offset of the last byte can be represented, and the comparison is made. -/
structure RectBuffer.Checked (buffer : RectBuffer) (region : Sizes) : Prop where
  fits : buffer.lastOffset region < 2 ^ 64
  compared : region.x * region.y * region.z = 0 →
    buffer.lastOffset region < buffer.size.toNat

theorem RectSide.offset_mono
    {side : RectSide} {x x' y y' z z' : ℕ} (hx : x ≤ x') (hy : y ≤ y') (hz : z ≤ z') :
    side.offset x y z ≤ side.offset x' y' z' := by
  unfold RectSide.offset
  gcongr

theorem RectBuffer.contains_iff (hregion : Nonempty region) :
    buffer.Contains region ↔ buffer.lastOffset region < buffer.size.toNat := by
  obtain ⟨hx, hy, hz⟩ := hregion
  constructor
  · intro hcontains
    exact hcontains _ (by omega) _ (by omega) _ (by omega)
  · intro hlast x hxlt y hylt z hzlt
    refine lt_of_le_of_lt ?_ hlast
    exact RectSide.offset_mono (by omega) (by omega) (by omega)

theorem RectBuffer.exceeds_eq_false_iff (hregion : Nonempty region) :
    buffer.exceeds region = false ↔
      (region.x * region.y * region.z ≠ 0 →
        buffer.lastOffset region % 2 ^ 64 < buffer.size.toNat) := by
  have hpred : ∀ size : SizeT, 1 ≤ size.toNat → BitVec.ofNat 64 (size.toNat - 1) = size - 1 := by
    intro size hsize
    refine BitVec.eq_of_toNat_eq ?_
    have hle : (1 : SizeT) ≤ size := hsize
    rw [BitVec.toNat_sub_of_le hle, BitVec.toNat_ofNat]
    have hlt := size.isLt
    exact Nat.mod_eq_of_lt (by omega)
  have hlast : BitVec.ofNat 64 (buffer.lastOffset region) =
      buffer.side.origin.x + region.x - 1 +
        buffer.side.rowPitch * (buffer.side.origin.y + region.y - 1) +
        buffer.side.slicePitch * (buffer.side.origin.z + region.z - 1) := by
    obtain ⟨hx, hy, hz⟩ := hregion
    simp only [lastOffset, RectSide.offset, BitVec.ofNat_add, BitVec.ofNat_mul,
      BitVec.ofNat_toNat, BitVec.setWidth_eq, hpred _ hx, hpred _ hy, hpred _ hz]
    ring
  have hpos : 0 < region.x * region.y * region.z ↔ region.x * region.y * region.z ≠ 0 :=
    BitVec.pos_iff_ne_zero _
  rw [exceeds, ← hlast, Bool.and_eq_false_imp]
  simp only [decide_eq_true_eq, decide_eq_false_iff_not, hpos, BitVec.not_le, BitVec.lt_def,
    BitVec.toNat_ofNat]

theorem RectBuffer.contains_iff_checked
    (hregion : Nonempty region) (haccepted : buffer.exceeds region = false) :
    buffer.Contains region ↔ buffer.Checked region := by
  rw [contains_iff hregion]
  have hsize := buffer.size.isLt
  constructor
  · exact fun hlast => ⟨hlast.trans hsize, fun _ => hlast⟩
  · intro hchecked
    by_cases hproduct : region.x * region.y * region.z = 0
    · exact hchecked.compared hproduct
    · have hlast := (exceeds_eq_false_iff hregion).mp haccepted hproduct
      rwa [Nat.mod_eq_of_lt hchecked.fits] at hlast

end Bounds

section Calls

/-- A call of one of the three functions. -/
inductive RectCall
  | read (buffer : RectBuffer) (host : RectSide)
  | write (buffer : RectBuffer) (host : RectSide)
  | copy (src dst : RectBuffer)

namespace RectCall

def run (device : Driver) (region : Sizes) : RectCall → RectOutcome
  | read buffer host => clEnqueueReadBufferRect device buffer host region
  | write buffer host => clEnqueueWriteBufferRect device buffer host region
  | copy src dst => clEnqueueCopyBufferRect device src dst region

def dst : RectCall → RectSide
  | read _ host => host
  | write buffer _ => buffer.side
  | copy _ dst => dst.side

def src : RectCall → RectSide
  | read buffer _ => buffer.side
  | write _ host => host
  | copy src _ => src.side

def buffers : RectCall → List RectBuffer
  | read buffer _ => [buffer]
  | write buffer _ => [buffer]
  | copy src dst => [src, dst]

/-- The call reaches the driver. -/
def Accepted (device : Driver) (region : Sizes) (call : RectCall) : Prop :=
  ∃ rows, call.run device region = .driver rows

/-- The driver copies the box, which lies in the buffers. -/
def MovesBox (device : Driver) (region : Sizes) (call : RectCall) : Prop :=
  (∀ buffer ∈ call.buffers, buffer.Contains region) ∧
    ∃ rows, call.run device region = .driver (some rows) ∧
      CopiesBox call.dst call.src region rows

end RectCall

/-- Whether a driver has functions for boxes. -/
def HasRects (device : Driver) : Prop :=
  device = .basic ∨ device = .pthread ∨ device = .hsa

variable {device : Driver} {region : Sizes} {call : RectCall}

theorem RectCall.run_of_accepted (haccepted : call.Accepted device region) :
    (∀ buffer ∈ call.buffers, buffer.exceeds region = false) ∧
      ∀ rows, call.run device region = .driver (some rows) ↔
        HasRects device ∧ rows = copyRows call.dst call.src region := by
  obtain ⟨result, hresult⟩ := haccepted
  cases call with
  | read buffer host =>
      cases hexceeds : buffer.exceeds region with
      | true => simp [run, clEnqueueReadBufferRect, hexceeds] at hresult
      | false =>
          refine ⟨by simpa [buffers] using hexceeds, fun rows => ?_⟩
          cases device <;>
            simp [run, clEnqueueReadBufferRect, hexceeds, readRect, HasRects, dst, src,
              poclBasicReadRect, poclPthreadReadRect, poclHsaReadRect, eq_comm]
  | write buffer host =>
      cases hexceeds : buffer.exceeds region with
      | true => simp [run, clEnqueueWriteBufferRect, hexceeds] at hresult
      | false =>
          refine ⟨by simpa [buffers] using hexceeds, fun rows => ?_⟩
          cases device <;>
            simp [run, clEnqueueWriteBufferRect, hexceeds, writeRect, HasRects, dst, src,
              poclBasicWriteRect, poclPthreadWriteRect, poclHsaWriteRect, eq_comm]
  | copy source destination =>
      cases hsource : source.exceeds region with
      | true => simp [run, clEnqueueCopyBufferRect, hsource] at hresult
      | false =>
          cases hdestination : destination.exceeds region with
          | true => simp [run, clEnqueueCopyBufferRect, hsource, hdestination] at hresult
          | false =>
              refine ⟨by simp [buffers, hsource, hdestination], fun rows => ?_⟩
              cases device <;>
                simp [run, clEnqueueCopyBufferRect, hsource, hdestination, copyRect, HasRects,
                  dst, src, poclBasicCopyRect, poclPthreadCopyRect, poclHsaCopyRect, eq_comm]

theorem movesBox_iff (hregion : Nonempty region) (haccepted : call.Accepted device region) :
    call.MovesBox device region ↔
      HasRects device ∧ call.dst.OriginMatches ∧ call.src.OriginMatches ∧
        ∀ buffer ∈ call.buffers, buffer.Checked region := by
  obtain ⟨hbuffers, hrun⟩ := call.run_of_accepted haccepted
  have hcontains : (∀ buffer ∈ call.buffers, buffer.Contains region) ↔
      ∀ buffer ∈ call.buffers, buffer.Checked region :=
    forall₂_congr fun buffer hbuffer =>
      buffer.contains_iff_checked hregion (hbuffers buffer hbuffer)
  rw [RectCall.MovesBox, hcontains]
  constructor
  · rintro ⟨hchecked, rows, hrows, hcopies⟩
    obtain ⟨hdriver, rfl⟩ := (hrun rows).mp hrows
    obtain ⟨hdst, hsrc⟩ := (copyRows_copiesBox_iff hregion).mp hcopies
    exact ⟨hdriver, hdst, hsrc, hchecked⟩
  · rintro ⟨hdriver, hdst, hsrc, hchecked⟩
    exact ⟨hchecked, _, (hrun _).mpr ⟨hdriver, rfl⟩,
      (copyRows_copiesBox_iff hregion).mpr ⟨hdst, hsrc⟩⟩

/-- A box of two rows and two slices, in a buffer of two slices. -/
def cornerBuffer (slice : SizeT) : RectBuffer where
  side := ⟨4096, ⟨1, 0, slice⟩, 4, 16⟩
  size := 64

def hostSide : RectSide := ⟨65536, ⟨0, 0, 0⟩, 2, 4⟩

theorem corner_movesBox :
    (RectCall.read (cornerBuffer 0) hostSide).MovesBox .pthread ⟨2, 2, 2⟩ :=
  (movesBox_iff ⟨by decide, by decide, by decide⟩ ⟨_, rfl⟩).mpr
    ⟨.inr (.inl rfl), rfl, rfl, by
      rintro buffer (_ | ⟨_, ⟨⟩⟩)
      exact ⟨by decide, by decide⟩⟩

/-- The second slice starts at offset 17, and the row is taken from offset 65. -/
theorem secondSlice_not_movesBox :
    (RectCall.read (cornerBuffer 1) hostSide).Accepted .pthread ⟨1, 1, 1⟩ ∧
      ¬ (RectCall.read (cornerBuffer 1) hostSide).MovesBox .pthread ⟨1, 1, 1⟩ := by
  refine ⟨⟨_, rfl⟩, ?_⟩
  rintro ⟨-, rows, hrun, hcopies⟩
  cases hrun
  exact absurd hcopies.pairs (by decide)

end Calls

end Pocl.RectTransfers
