import Pocl.ByteCopies
import Pocl.KernelArguments
import Pocl.NDRanges

/-!
# Rectangular transfers

`clEnqueueReadBufferRect`, `clEnqueueWriteBufferRect` and `clEnqueueCopyBufferRect` compare
the last byte of a box with the size of the buffer and pass the box to the driver, which
copies it row by row.  A `size_t` has 64 bits and wraps around, and so do addresses.

The queue, the buffers and the pointers are valid and belong to one context, and the queue is
in order.
-/

namespace Pocl.RectTransfers

open KernelArguments ByteCopies

/-- One side of a transfer: the pointer that the driver gets, and where the box lies. -/
structure RectSide where
  ptr : SizeT
  origin : Sizes
  rowPitch : SizeT
  slicePitch : SizeT
  deriving DecidableEq

/-- The arguments of a call of `memcpy`. -/
structure RowCopy where
  dst : SizeT
  src : SizeT
  length : SizeT
  deriving DecidableEq

section Drivers

/-- `adjusted_host_ptr`, `adjusted_device_ptr`, `adjusted_src_ptr` and `adjusted_dst_ptr`. -/
def RectSide.adjustedPtr (side : RectSide) : SizeT :=
  side.ptr + side.origin.x + side.rowPitch * (side.origin.y + side.slicePitch * side.origin.z)

def RectSide.rowPtr (side : RectSide) (j k : ℕ) : SizeT :=
  side.adjustedPtr + side.rowPitch * BitVec.ofNat 64 j + side.slicePitch * BitVec.ofNat 64 k

/-- The loops of the drivers. -/
def copyRows (dst src : RectSide) (region : Sizes) : List RowCopy :=
  (List.range region.z.toNat).flatMap fun k =>
    (List.range region.y.toNat).map fun j => ⟨dst.rowPtr j k, src.rowPtr j k, region.x⟩

def poclBasicReadRect (host device : RectSide) (region : Sizes) : List RowCopy :=
  copyRows host device region

def poclBasicWriteRect (host device : RectSide) (region : Sizes) : List RowCopy :=
  copyRows device host region

def poclBasicCopyRect (src dst : RectSide) (region : Sizes) : List RowCopy :=
  copyRows dst src region

def poclPthreadReadRect (host device : RectSide) (region : Sizes) : List RowCopy :=
  copyRows host device region

def poclPthreadWriteRect (host device : RectSide) (region : Sizes) : List RowCopy :=
  copyRows device host region

def poclPthreadCopyRect (src dst : RectSide) (region : Sizes) : List RowCopy :=
  copyRows dst src region

def poclHsaReadRect (host device : RectSide) (region : Sizes) : List RowCopy :=
  copyRows host device region

def poclHsaWriteRect (host device : RectSide) (region : Sizes) : List RowCopy :=
  copyRows device host region

def poclHsaCopyRect (src dst : RectSide) (region : Sizes) : List RowCopy :=
  copyRows dst src region

/-- `read_rect` of a device.  The functions of the other drivers abort. -/
def readRect (driver : Driver) (host device : RectSide) (region : Sizes) :
    Option (List RowCopy) :=
  match driver with
  | .basic => some (poclBasicReadRect host device region)
  | .pthread => some (poclPthreadReadRect host device region)
  | .hsa => some (poclHsaReadRect host device region)
  | .cellspu | .ttasim => none

def writeRect (driver : Driver) (host device : RectSide) (region : Sizes) :
    Option (List RowCopy) :=
  match driver with
  | .basic => some (poclBasicWriteRect host device region)
  | .pthread => some (poclPthreadWriteRect host device region)
  | .hsa => some (poclHsaWriteRect host device region)
  | .cellspu | .ttasim => none

def copyRect (driver : Driver) (src dst : RectSide) (region : Sizes) :
    Option (List RowCopy) :=
  match driver with
  | .basic => some (poclBasicCopyRect src dst region)
  | .pthread => some (poclPthreadCopyRect src dst region)
  | .hsa => some (poclHsaCopyRect src dst region)
  | .cellspu | .ttasim => none

end Drivers

section Calls

/-- What a call ends with.  A driver that aborts has no result. -/
inductive RectOutcome
  | invalidValue
  | overBufferSize
  | driver (rows : Option (List RowCopy))
  deriving DecidableEq

structure RectBuffer where
  side : RectSide
  size : SizeT
  deriving DecidableEq

/-- The comparison of a box with the size of a buffer. -/
def RectBuffer.exceeds (buffer : RectBuffer) (region : Sizes) : Bool :=
  decide (0 < region.x * region.y * region.z) &&
    decide (buffer.size ≤ buffer.side.origin.x + region.x - 1 +
      buffer.side.rowPitch * (buffer.side.origin.y + region.y - 1) +
      buffer.side.slicePitch * (buffer.side.origin.z + region.z - 1))

def clEnqueueReadBufferRect
    (device : Driver) (buffer : RectBuffer) (host : RectSide) (region : Sizes) : RectOutcome :=
  if buffer.exceeds region then .invalidValue
  else .driver (readRect device host buffer.side region)

/-- A box beyond the buffer aborts. -/
def clEnqueueWriteBufferRect
    (device : Driver) (buffer : RectBuffer) (host : RectSide) (region : Sizes) : RectOutcome :=
  if buffer.exceeds region then .overBufferSize
  else .driver (writeRect device host buffer.side region)

def clEnqueueCopyBufferRect
    (device : Driver) (src dst : RectBuffer) (region : Sizes) : RectOutcome :=
  if src.exceeds region then .invalidValue
  else if dst.exceeds region then .invalidValue
  else .driver (copyRect device src.side dst.side region)

end Calls

section Memory

/-- Whether two ranges that are not empty have a byte in common. -/
def RowCopy.overlaps (row : RowCopy) : Bool :=
  decide (row.length ≠ 0) &&
    (decide (row.src - row.dst < row.length) || decide (row.dst - row.src < row.length))

def RowCopy.bytes (row : RowCopy) : List (SizeT × SizeT) :=
  (List.range row.length.toNat).map fun x =>
    (row.dst + BitVec.ofNat 64 x, row.src + BitVec.ofNat 64 x)

/-- The ranges of a `memcpy` must not overlap. -/
def memcpy (memory : SizeT → UInt8) (row : RowCopy) : Option (SizeT → UInt8) :=
  if row.overlaps then none else some (copyAll row.bytes memory)

def runRows (rows : List RowCopy) (memory : SizeT → UInt8) : Option (SizeT → UInt8) :=
  rows.foldlM memcpy memory

end Memory

end Pocl.RectTransfers
