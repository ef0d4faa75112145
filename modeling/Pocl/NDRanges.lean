import Pocl.LoopTraces

/-!
# The index space of a kernel launch

`clEnqueueNDRangeKernel` turns the work dimension, the offset and the sizes that
the client passes into a `pocl_context`.  A driver runs the work-group function
for every group id of that context, the launcher copies the context into the
variables of the kernel library, and `get_global_id` combines them again.

A `size_t` has 64 bits and wraps around.  The checks of the queue and the kernel
come before this part; the files that are written and the script that is run
for a CPU device are one outcome, which may reject the call.  Allocations on the
host succeed.
-/

namespace Pocl

abbrev SizeT := BitVec 64

/-- A `size_t [3]`. -/
structure Sizes where
  x : SizeT
  y : SizeT
  z : SizeT
  deriving DecidableEq

/-- The errors of a launch, and the two ways in which it takes the process
down. -/
inductive NDRangeFailure
  | invalidWorkDimension
  | invalidGlobalWorkSize
  | invalidWorkGroupSize
  | invalidWorkItemSize
  | invalidEventWaitList
  | outOfHostMemory
  | outOfResources
  | assertion
  | divisionByZero
  deriving DecidableEq

structure NDRangeDevice where
  isCpu : Bool
  maxWorkItemDimensions : ℕ
  maxWorkGroupSize : SizeT
  maxWorkItemSizes : Sizes
  preferredWgSizeMultiple : SizeT

structure NDRangeCall where
  workDim : ℕ
  globalWorkOffset : Option Sizes
  globalWorkSize : Sizes
  localWorkSize : Option Sizes
  /-- Whether the device is one of the context of the kernel. -/
  deviceOfKernel : Bool
  eventWaitList : Bool
  numEventsInWaitList : ℕ
  /-- What writing and compiling the kernel ends with. -/
  building : Except NDRangeFailure Unit

/-- The part of `pocl_context` that is the same for all groups. -/
structure PoclContext where
  workDim : ℕ
  numGroups : Sizes
  globalOffset : Sizes
  globalSize : Sizes
  localSize : Sizes
  deriving DecidableEq

namespace NDRangeCall

def offset (call : NDRangeCall) : Sizes :=
  match call.globalWorkOffset with
  | some offset =>
      { x := offset.x
        y := if 1 < call.workDim then offset.y else 1
        z := if 2 < call.workDim then offset.z else 1 }
  | none => ⟨0, 0, 0⟩

/-- The given sizes, with one for the dimensions that are not used. -/
def sizes (call : NDRangeCall) (given : Sizes) : Sizes where
  x := given.x
  y := if 1 < call.workDim then given.y else 1
  z := if 2 < call.workDim then given.z else 1

def globalSize (call : NDRangeCall) : Sizes :=
  call.sizes call.globalWorkSize

end NDRangeCall

/-- The loop that halves the preferred multiple until it divides the global
size. -/
def halvedMultiple (globalX multiple : ℕ) : ℕ :=
  if 1 ≤ multiple then
    if globalX % multiple = 0 ∧ multiple ≤ globalX then
      multiple
    else
      halvedMultiple globalX (multiple / 2)
  else
    1
termination_by multiple
decreasing_by omega

/-- `clGetKernelWorkGroupInfo` with
`CL_KERNEL_PREFERRED_WORK_GROUP_SIZE_MULTIPLE`. -/
def preferredMultiple (device : NDRangeDevice) (call : NDRangeCall) :
    Option SizeT :=
  if call.deviceOfKernel then some device.preferredWgSizeMultiple else none

def localSize (device : NDRangeDevice) (call : NDRangeCall) : Sizes :=
  match call.localWorkSize with
  | some given => call.sizes given
  | none =>
      match preferredMultiple device call with
      | some multiple =>
          { x := BitVec.ofNat 64
              (halvedMultiple call.globalSize.x.toNat multiple.toNat)
            y := 1
            z := 1 }
      | none => ⟨1, 1, 1⟩

/-- The tests that only a CPU device makes.  The remainder operator of C traps
on a zero divisor. -/
def checkSizes (device : NDRangeDevice) (call : NDRangeCall)
    (globalSize localSize : Sizes) : Except NDRangeFailure Unit := do
  if device.maxWorkGroupSize < localSize.x * localSize.y * localSize.z then
    throw .invalidWorkGroupSize
  if device.maxWorkItemSizes.x < localSize.x ∨
      (1 < call.workDim ∧ device.maxWorkItemSizes.y < localSize.y) ∨
      (2 < call.workDim ∧ device.maxWorkItemSizes.z < localSize.z) then
    throw .invalidWorkItemSize
  if localSize.x = 0 then
    throw .divisionByZero
  if globalSize.x % localSize.x ≠ 0 then
    throw .invalidWorkGroupSize
  if localSize.y = 0 then
    throw .divisionByZero
  if globalSize.y % localSize.y ≠ 0 then
    throw .invalidWorkGroupSize
  if localSize.z = 0 then
    throw .divisionByZero
  if globalSize.z % localSize.z ≠ 0 then
    throw .invalidWorkGroupSize
  if (call.eventWaitList = false ∧ 0 < call.numEventsInWaitList) ∨
      (call.eventWaitList = true ∧ call.numEventsInWaitList = 0) then
    throw .invalidEventWaitList
  call.building

/-- The part of `clEnqueueNDRangeKernel` that fills in the context. -/
def clEnqueueNDRangeKernel (device : NDRangeDevice) (call : NDRangeCall) :
    Except NDRangeFailure PoclContext := do
  if call.workDim < 1 ∨ device.maxWorkItemDimensions < call.workDim then
    throw .invalidWorkDimension
  if 3 < device.maxWorkItemDimensions then
    throw .assertion
  let global := call.globalSize
  if global.x = 0 ∨ global.y = 0 ∨ global.z = 0 then
    throw .invalidGlobalWorkSize
  let local' := localSize device call
  if device.isCpu then
    checkSizes device call global local'
  if local'.x = 0 ∨ local'.y = 0 ∨ local'.z = 0 then
    throw .divisionByZero
  return {
    workDim := call.workDim
    numGroups := ⟨global.x / local'.x, global.y / local'.y, global.z / local'.z⟩
    globalOffset := call.offset
    globalSize := global
    localSize := local' }

/-- The variables of the kernel library for one work-item. -/
structure KernelVariables where
  localSize : Sizes
  numGroups : Sizes
  groupId : Sizes
  localId : Sizes
  globalOffset : Sizes

/-- The local size is compiled in; the launcher copies the rest of the context
and the work-item loops set the local id. -/
def PoclContext.launch (pc : PoclContext) (groupId localId : Sizes) :
    KernelVariables where
  localSize := pc.localSize
  numGroups := pc.numGroups
  groupId := groupId
  localId := localId
  globalOffset := pc.globalOffset

namespace KernelVariables

def getGlobalId (vars : KernelVariables) (dimindx : ℕ) : SizeT :=
  match dimindx with
  | 0 => vars.globalOffset.x + vars.localSize.x * vars.groupId.x + vars.localId.x
  | 1 => vars.globalOffset.y + vars.localSize.y * vars.groupId.y + vars.localId.y
  | 2 => vars.globalOffset.z + vars.localSize.z * vars.groupId.z + vars.localId.z
  | _ => 0

def getGlobalSize (vars : KernelVariables) (dimindx : ℕ) : SizeT :=
  match dimindx with
  | 0 => vars.localSize.x * vars.numGroups.x
  | 1 => vars.localSize.y * vars.numGroups.y
  | 2 => vars.localSize.z * vars.numGroups.z
  | _ => 0

end KernelVariables

/-- All triples below the given one. -/
def idsBelow (bound : Sizes) : List Sizes :=
  (triples (List.range bound.x.toNat) (List.range bound.y.toNat)
      (List.range bound.z.toNat)).map fun id =>
    ⟨BitVec.ofNat 64 id.1, BitVec.ofNat 64 id.2.1, BitVec.ofNat 64 id.2.2⟩

def PoclContext.globalId (pc : PoclContext) (groupId localId : Sizes) :
    ℕ × ℕ × ℕ :=
  let vars := pc.launch groupId localId
  ((vars.getGlobalId 0).toNat, (vars.getGlobalId 1).toNat,
    (vars.getGlobalId 2).toNat)

/-- The global ids of all work-items of all groups. -/
def PoclContext.globalIds (pc : PoclContext) : List (ℕ × ℕ × ℕ) :=
  (idsBelow pc.numGroups).flatMap fun groupId =>
    (idsBelow pc.localSize).map fun localId => pc.globalId groupId localId

/-- What the client asks for in one dimension. -/
structure Extent where
  offset : ℕ
  size : ℕ

/-- The box of a call: the dimensions that are not used start at zero and have
one point. -/
def NDRangeCall.extent (call : NDRangeCall) (dim : Fin 3) : Extent :=
  if dim.val < call.workDim then
    let pick (sizes : Sizes) : ℕ :=
      match dim with
      | 0 => sizes.x.toNat
      | 1 => sizes.y.toNat
      | 2 => sizes.z.toNat
    { offset := (call.globalWorkOffset.map pick).getD 0
      size := pick call.globalWorkSize }
  else
    ⟨0, 1⟩

def Extent.Holds (extent : Extent) (point : ℕ) : Prop :=
  extent.offset ≤ point ∧ point < extent.offset + extent.size

instance (extent : Extent) (point : ℕ) : Decidable (extent.Holds point) :=
  inferInstanceAs (Decidable (_ ∧ _))

def NDRangeCall.InBox (call : NDRangeCall) (point : ℕ × ℕ × ℕ) : Prop :=
  (call.extent 0).Holds point.1 ∧ (call.extent 1).Holds point.2.1 ∧
    (call.extent 2).Holds point.2.2

instance (call : NDRangeCall) (point : ℕ × ℕ × ℕ) :
    Decidable (call.InBox point) :=
  inferInstanceAs (Decidable (_ ∧ _ ∧ _))

/-- Every point of the box is the global id of exactly one work-item, and
`get_global_size` returns the sizes of the box. -/
structure PoclContext.Tiles (pc : PoclContext) (call : NDRangeCall) : Prop where
  exactly_once : ∀ point,
    pc.globalIds.count point = if call.InBox point then 1 else 0
  global_size : ∀ (groupId localId : Sizes) (dim : Fin 3),
    ((pc.launch groupId localId).getGlobalSize dim).toNat =
      (call.extent dim).size

end Pocl
