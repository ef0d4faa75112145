import Mathlib.Data.Int.Order.Basic
import Pocl.ImageCreation
import Pocl.RectTransfers

/-!
# Reading and writing images

`pocl_write_image` takes every pixel for four values of type `float`, and all slices for one
place.  `pocl_read_image` computes the size of a pixel and the pitches from the image, in
variables of type `int`, whose products must not overflow.  Both use the origin of the region
on the side of the host as well.

The host and the device have memories of their own here, and a pointer is the offset from the
start of the array or of the buffer.  The pointers of the caller are valid.
-/

namespace Pocl.Images

open KernelArguments RectTransfers

/-- There is no result if an `int` overflows or the driver aborts. -/
inductive TransferOutcome
  | undefined
  | invalidValue
  | success (rows : List RowCopy)
  deriving DecidableEq

def TransferOutcome.ofDriver : Option (List RowCopy) → TransferOutcome
  | none => .undefined
  | some rows => .success rows

/-- A `size_t [3]` in bytes. -/
def tuned (sizes : Sizes) (elemSize channels : SizeT) : Sizes :=
  ⟨sizes.x * elemSize * channels, sizes.y, sizes.z⟩

/-- The comparison of the region with the size of the buffer, which leaves out the origin. -/
def refusesRegion (image : Image) (region : Sizes) : Bool :=
  let tunedRegion := tuned region 4 4
  decide (0 < tunedRegion.x * tunedRegion.y * tunedRegion.z) &&
    decide (image.size ≤ tunedRegion.x - 1 + image.rowPitch * (tunedRegion.y - 1) +
      0 * (tunedRegion.z - 1))

/-- `pocl_write_image` -/
def poclWriteImage (driver : Driver) (image : Image) (origin region : Sizes) :
    TransferOutcome :=
  let side : RectSide := ⟨0, tuned origin 4 4, image.rowPitch, 0⟩
  if refusesRegion image region then .invalidValue
  else .ofDriver (writeRect driver side side (tuned region 4 4))

/-- A product of two values of type `int`. -/
def intMul (first second : ℤ) : Option ℤ :=
  if -2 ^ 31 ≤ first * second ∧ first * second < 2 ^ 31 then some (first * second) else none

/-- The value of a `size_t` as an `int`. -/
def toInt (size : SizeT) : ℤ :=
  (size.setWidth 32).toInt

/-- `pocl_read_image` -/
def poclReadImage (driver : Driver) (image : Image) (origin region : Sizes) :
    TransferOutcome :=
  let height := BitVec.ofInt 64 (toInt image.height)
  let devElemSize := BitVec.ofInt 64 (toInt image.elemSize)
  let devChannels := BitVec.ofInt 64 (toInt image.channels)
  let tunedOrigin := tuned origin devElemSize devChannels
  let tunedRegion := tuned region devElemSize devChannels
  match (intMul (toInt image.width) (toInt image.elemSize)).bind fun row =>
      intMul row (toInt image.channels) with
  | none => .undefined
  | some row =>
      let imageRowPitch := BitVec.ofInt 64 row
      let imageSlicePitch := height * imageRowPitch
      let side : RectSide := ⟨0, tunedOrigin, imageRowPitch, imageSlicePitch⟩
      if imageRowPitch < tunedOrigin.x + tunedRegion.x ∨
          height < tunedOrigin.y + tunedRegion.y then
        .invalidValue
      else if image.imageType = .image3D ∧ image.depth < tunedOrigin.z + tunedRegion.z then
        .invalidValue
      else if image.imageType ≠ .image3D ∧ region.z ≠ 1 then .invalidValue
      else .ofDriver (readRect driver side side tunedRegion)

end Pocl.Images
