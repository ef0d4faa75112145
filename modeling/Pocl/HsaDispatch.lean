import Pocl.KernelArguments
import Pocl.NDRanges

/-!
# The dispatch of a kernel by the HSA driver

`pocl_hsa_run` copies the arguments into a buffer, fills in a dispatch packet and stores
the packet in the queue of the device.  The arguments of the kernel `calPriceVega`, which
have a case of their own, are left out.

What the calls of the HSA runtime return is given: the address of the argument buffer, the
signal and the queue.  An offset is the distance of a pointer from the start of the
argument buffer.
-/

namespace Pocl.HsaDispatch

open KernelArguments

/-- The part of `hsa_ext_code_descriptor_t` that is read. -/
structure CodeDescriptor where
  workgroupGroupSegmentByteSize : BitVec 32
  workitemPrivateSegmentByteSize : BitVec 32
  kernargSegmentByteSize : BitVec 64
  code : BitVec 64

structure PacketHeader where
  type : ℕ
  barrier : Bool
  acquireFenceScope : ℕ
  releaseFenceScope : ℕ
  deriving DecidableEq

structure DispatchPacket where
  header : PacketHeader
  dimensions : BitVec 2
  workgroupSizeX : BitVec 16
  workgroupSizeY : BitVec 16
  workgroupSizeZ : BitVec 16
  gridSizeX : BitVec 32
  gridSizeY : BitVec 32
  gridSizeZ : BitVec 32
  privateSegmentSize : BitVec 32
  groupSegmentSize : BitVec 32
  kernelObjectAddress : BitVec 64
  kernargAddress : BitVec 64
  completionSignal : BitVec 64
  deriving DecidableEq

def packetTypeDispatch : ℕ := 2

/-- The packet of a command.  All sizes are cast to 16 bits first. -/
def dispatchPacket
    (pc : PoclContext) (descriptor : CodeDescriptor) (groupSegmentSize : BitVec 32)
    (kernelArgBuffer signal : BitVec 64) : DispatchPacket where
  header := ⟨packetTypeDispatch, true, 2, 2⟩
  dimensions := (BitVec.ofNat 16 pc.workDim).setWidth 2
  workgroupSizeX := pc.localSize.x.setWidth 16
  workgroupSizeY := pc.localSize.y.setWidth 16
  workgroupSizeZ := pc.localSize.z.setWidth 16
  gridSizeX := (pc.globalSize.x.setWidth 16).setWidth 32
  gridSizeY := (pc.globalSize.y.setWidth 16).setWidth 32
  gridSizeZ := (pc.globalSize.z.setWidth 16).setWidth 32
  privateSegmentSize := descriptor.workitemPrivateSegmentByteSize
  groupSegmentSize := groupSegmentSize
  kernelObjectAddress := descriptor.code
  kernargAddress := kernelArgBuffer
  completionSignal := signal

structure Queue where
  size : BitVec 32
  writeIndex : BitVec 64
  doorbellSignal : BitVec 64
  slots : ℕ → Option DispatchPacket

/-- The slot for a write index. -/
def Queue.slot (queue : Queue) (index : BitVec 64) : ℕ :=
  (index &&& (queue.size - 1).setWidth 64).toNat

def Queue.dispatch (queue : Queue) (packet : DispatchPacket) : Queue :=
  let index := queue.writeIndex
  { queue with
    slots := Function.update queue.slots (queue.slot index) (some packet)
    writeIndex := index + 1
    doorbellSignal := index }

def Queue.dispatchAll (queue : Queue) (packets : List DispatchPacket) : Queue :=
  packets.foldl Queue.dispatch queue

/-- A `memcpy` into the argument buffer. -/
structure Store where
  offset : ℕ
  size : ℕ
  contents : Passed
  deriving DecidableEq

structure ArgumentBuffer where
  /-- Of `args_pointer`. -/
  offset : ℕ
  stores : List Store
  localPointer : BitVec 64
  groupSegmentSize : BitVec 32

/-- `args_pointer` is moved to a multiple of eight. -/
def alignPointer (offset : ℕ) : ℕ :=
  if offset % 8 ≠ 0 then offset + (8 - offset % 8) else offset

/-- Whether the value of the argument itself is copied, and not a pointer or a handle. -/
def isScalar (kinds : ArgKinds) : Bool :=
  !(kinds.isLocal || kinds.isPointer || kinds.isImage || kinds.isStruct)

/-- How much is copied for an argument. -/
def argSize (arg : LaunchArg) : ℕ :=
  if isScalar arg.kinds then arg.captured.size else 8

/-- The size of the argument in the command moves the pointer to local memory, and the one
in the kernel object adds to the group segment. -/
def packArgument (memIndex : ℕ) (buffer : ArgumentBuffer) (arg : LaunchArg) :
    Option ArgumentBuffer :=
  if arg.kinds.isLocal then
    let offset := alignPointer buffer.offset
    some
      { offset := offset + 8
        stores := buffer.stores ++ [⟨offset, 8, .localPointer buffer.localPointer.toNat⟩]
        localPointer := buffer.localPointer + BitVec.ofNat 64 arg.captured.size
        groupSegmentSize := buffer.groupSegmentSize + BitVec.ofNat 32 arg.current.size }
  else do
    let passed ← passHsa memIndex arg
    let offset := if isScalar arg.kinds then buffer.offset else alignPointer buffer.offset
    some
      { buffer with
        offset := offset + argSize arg
        stores := buffer.stores ++ [⟨offset, argSize arg, passed⟩] }

def packArguments (memIndex : ℕ) (buffer : ArgumentBuffer) (args : List LaunchArg) :
    Option ArgumentBuffer :=
  args.foldlM (packArgument memIndex) buffer

/-- Pointers that come before the arguments of the source. -/
def hiddenPointers (hsaArgCount : BitVec 32) (numArgs : ℕ) : ℕ :=
  (hsaArgCount - BitVec.ofNat 32 numArgs).toNat

def initialBuffer (descriptor : CodeDescriptor) (hsaArgCount : BitVec 32) (numArgs : ℕ) :
    ArgumentBuffer where
  offset := 8 * hiddenPointers hsaArgCount numArgs
  stores := []
  localPointer := descriptor.workgroupGroupSegmentByteSize.setWidth 64
  groupSegmentSize := descriptor.workgroupGroupSegmentByteSize

/-- The general case of `pocl_hsa_run`. -/
def poclHsaRun
    (memIndex : ℕ) (descriptor : CodeDescriptor) (hsaArgCount : BitVec 32)
    (pc : PoclContext) (args : List LaunchArg) (kernelArgBuffer signal : BitVec 64)
    (queue : Queue) : Option (List Store × DispatchPacket × Queue) := do
  let buffer ← packArguments memIndex
    (initialBuffer descriptor hsaArgCount args.length) args
  let packet := dispatchPacket pc descriptor buffer.groupSegmentSize kernelArgBuffer signal
  some (buffer.stores, packet, queue.dispatch packet)

end Pocl.HsaDispatch
