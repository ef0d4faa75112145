import Pocl.NDRanges

/-!
# The creation of images

`clCreateImage` computes the size of the buffer behind an image, and its pitches where the
client gives none, in variables of type `int`.  The values are truncated to 32 bits there, and
they are extended with their sign when they are stored in the image or passed on.

The context is valid and has devices.  The formats that are supported are those of the first
device that all others support as well.
-/

namespace Pocl.Images

inductive ChannelOrder
  | r
  | rx
  | a
  | intensity
  | luminance
  | rg
  | rgx
  | ra
  | rgb
  | rgbx
  | rgba
  | argb
  | bgra
  deriving DecidableEq

inductive ChannelType
  | snormInt8
  | snormInt16
  | unormInt8
  | unormInt16
  | unormShort565
  | unormShort555
  | unormInt101010
  | signedInt8
  | signedInt16
  | signedInt32
  | unsignedInt8
  | unsignedInt16
  | unsignedInt32
  | halfFloat
  | float
  deriving DecidableEq

structure ImageFormat where
  channelOrder : ChannelOrder
  channelDataType : ChannelType
  deriving DecidableEq

inductive ImageType
  | image1D
  | image1DBuffer
  | image1DArray
  | image2D
  | image2DArray
  | image3D
  deriving DecidableEq

structure ImageDesc where
  imageType : ImageType
  width : SizeT
  height : SizeT
  depth : SizeT
  arraySize : SizeT
  rowPitch : SizeT
  slicePitch : SizeT
  numMipLevels : BitVec 32
  numSamples : BitVec 32

/-- The part of `struct _cl_mem` for an image. -/
structure Image where
  imageType : ImageType
  format : ImageFormat
  width : SizeT
  height : SizeT
  depth : SizeT
  arraySize : SizeT
  rowPitch : SizeT
  slicePitch : SizeT
  elemSize : SizeT
  channels : SizeT
  size : SizeT
  deriving DecidableEq

/-- No device has as much as half of the address space. -/
structure ImageDevice where
  formats : List ImageFormat
  maxMemAllocSize : SizeT
  maxMemAllocSize_lt : maxMemAllocSize.toNat < 2 ^ 63

structure ImageContext where
  /-- Whether the runtime is built with `HSA_RUNTIME`. -/
  hsaRuntime : Bool
  first : ImageDevice
  others : List ImageDevice

/-- The element size that `pocl_get_image_information` finds. -/
def elemSize : ChannelType → ℕ
  | .snormInt8 | .unormInt8 | .signedInt8 | .unsignedInt8 => 1
  | .unsignedInt32 | .signedInt32 | .float | .unormInt101010 => 4
  | .snormInt16 | .unormInt16 | .signedInt16 | .unsignedInt16 | .unormShort555
  | .unormShort565 | .halfFloat => 2

/-- The number of channels that `pocl_get_image_information` finds. -/
def channels : ChannelOrder → ℕ
  | .rgb | .rgbx | .r | .rx | .a => 1
  | _ => 4

/-- The value of an `int` as a `size_t`. -/
def ofInt (word : BitVec 32) : SizeT :=
  word.signExtend 64

inductive ImageError
  | invalidValue
  | formatNotSupported
  | outOfHostMemory
  deriving DecidableEq

inductive ImageOutcome
  | unimplemented
  | error (code : ImageError)
  | created (image : Image)
  deriving DecidableEq

def supportedFormats (context : ImageContext) : List ImageFormat :=
  context.first.formats.filter fun format =>
    context.others.all fun device => device.formats.contains format

/-- Whether `clCreateBuffer` makes a buffer.  The flags and the host pointer may be refused,
and the allocations may fail. -/
def createsBuffer (context : ImageContext) (accepted : Bool) (size : SizeT) : Bool :=
  decide (size ≠ 0) &&
    (context.first :: context.others).all (fun device => decide (size ≤ device.maxMemAllocSize)) &&
      accepted

section Sizes

variable (desc : ImageDesc) (format : ImageFormat)

/-- The number of bytes of a pixel, `elem_size * channels`. -/
def pixelSize : ℕ :=
  elemSize format.channelDataType * channels format.channelOrder

def imageSize : BitVec 32 :=
  (desc.width * desc.height * BitVec.ofNat 64 (elemSize format.channelDataType) *
    BitVec.ofNat 64 (channels format.channelOrder)).setWidth 32

def rowPitch : BitVec 32 :=
  let given := desc.rowPitch.setWidth 32
  if given = 0 then
    (desc.width * BitVec.ofNat 64 (elemSize format.channelDataType) *
      BitVec.ofNat 64 (channels format.channelOrder)).setWidth 32
  else given

def slicePitch : BitVec 32 :=
  let given := desc.slicePitch.setWidth 32
  if given = 0 then
    match desc.imageType with
    | .image3D | .image2DArray =>
        (ofInt (rowPitch desc format) * desc.height).setWidth 32
    | .image1DArray => rowPitch desc format
    | _ => 0
  else given

def makeImage : Image where
  imageType := desc.imageType
  format := format
  width := desc.width
  height := desc.height
  depth := desc.depth
  arraySize := desc.arraySize
  rowPitch := ofInt (rowPitch desc format)
  slicePitch := ofInt (slicePitch desc format)
  elemSize := BitVec.ofNat 64 (elemSize format.channelDataType)
  channels := BitVec.ofNat 64 (channels format.channelOrder)
  size := ofInt (imageSize desc format)

end Sizes

/-- `clCreateImage` -/
def clCreateImage
    (context : ImageContext) (accepted : Bool) (format : ImageFormat) (desc : ImageDesc) :
    ImageOutcome :=
  if desc.numMipLevels ≠ 0 ∨ desc.numSamples ≠ 0 then .unimplemented
  else if supportedFormats context = [] then .error .invalidValue
  else if format ∉ supportedFormats context then .error .formatNotSupported
  else if context.hsaRuntime = false ∧ desc.imageType ≠ .image2D ∧
      desc.imageType ≠ .image3D then
    .unimplemented
  else if createsBuffer context accepted (ofInt (imageSize desc format)) then
    .created (makeImage desc format)
  else .error .outOfHostMemory

end Pocl.Images
