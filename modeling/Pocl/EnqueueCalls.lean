import Pocl.CommandQueues

/-!
# The calls of a client

Each function checks its arguments, makes an event if one is asked for, and then
appends its command, or flushes the queue and executes it, or executes it at
once.  Which allocations of a call succeed is an argument of the call; the sizes
and files that only decide whether a launch, a fill, a rectangular transfer or an
image transfer is accepted are one flag.
-/

namespace Pocl

namespace CommandQueue

/-- Which calls of `malloc` succeed. -/
structure Allocations where
  event : Bool
  mapping : Bool
  node : Bool

def Allocations.all : Allocations := ⟨true, true, true⟩

/-- The arguments of `clEnqueueReadBuffer` and `clEnqueueWriteBuffer`. -/
structure BufferTransfer where
  buffer : MemId
  blocking : Bool
  offset : SizeT
  cb : SizeT
  ptr : SizeT
  waitListValid : Bool
  event : Bool
  alloc : Allocations

structure BufferCopy where
  srcBuffer : MemId
  dstBuffer : MemId
  srcOffset : SizeT
  dstOffset : SizeT
  cb : SizeT
  event : Bool
  alloc : Allocations

/-- The arguments of `clEnqueueMapBuffer`, with the result of the first call of
`map_mem`. -/
structure BufferMap where
  buffer : MemId
  blocking : Bool
  mapRead : Bool
  mapWrite : Bool
  offset : SizeT
  size : SizeT
  event : Bool
  alloc : Allocations
  mapMemResult : SizeT

structure Unmap where
  mem : MemId
  mappedPtr : SizeT
  event : Bool
  alloc : Allocations

structure KernelLaunch where
  kernel : KernelId
  /-- Whether the sizes, the wait list and the build of the kernel are fine. -/
  accepted : Bool
  event : Bool
  alloc : Allocations

/-- The arguments of a transfer that is executed at once behind a flush. -/
structure FlushedTransfer where
  kind : TransferKind
  buffers : List MemId
  hostPtr : SizeT
  devicePtr : SizeT
  extent : List SizeT
  accepted : Bool
  event : Bool
  alloc : Allocations

structure SubBuffer where
  buffer : MemId
  origin : SizeT
  size : SizeT
  /-- Whether the flags are accepted and the allocations succeed. -/
  accepted : Bool
  uninitialised : BitVec 32

structure ImageTransfer where
  image : MemId
  blocking : Bool
  origin : Sizes
  region : Sizes
  rowPitch : SizeT
  slicePitch : SizeT
  ptr : SizeT
  /-- Whether the helper that computes the rectangle accepts the arguments. -/
  accepted : Bool
  event : Bool
  alloc : Allocations

namespace State

/-- Make an event with one reference for the client.  Most functions let it hold
a reference on the queue. -/
def createEvent (holdsQueue : Bool) (state : State) :
    Option (Option EventId × State) := do
  let event := state.nextEvent
  let state :=
    { state.setEvent event (some ⟨1, .queued⟩) with nextEvent := event + 1 }
  let state ← if holdsQueue then state.retainQueue else some state
  some (some event, state)

def requestEvent (requested holdsQueue : Bool) (state : State) :
    Option (Option EventId × State) :=
  if requested then state.createEvent holdsQueue else some (none, state)

/-- The checks of `clEnqueueReadBuffer` and `clEnqueueWriteBuffer`, with the
allocation of the event. -/
def transferError (args : BufferTransfer) (buffer : MemObject) : Option ClCode :=
  if !buffer.sameContext then
    some .invalidContext
  else if args.ptr = 0 ∨ buffer.size < args.offset + args.cb then
    some .invalidValue
  else if !args.waitListValid then
    some .invalidEventWaitList
  else if args.event && !args.alloc.event then
    some .outOfHostMemory
  else
    none

/-- The common body of `clEnqueueReadBuffer` and `clEnqueueWriteBuffer`.  The
pointer of a queued command is found at the given index. -/
def enqueueBufferTransfer (env : Env)
    (op : SizeT → SizeT → SizeT → DeviceOp)
    (command : SizeT → SizeT → SizeT → MemId → Command) (queuedIndex : ℕ)
    (args : BufferTransfer) (state : State) : Option (ClCode × State) := do
  let call := state.calls
  let state := state.countCall
  let _ ← state.queue
  let buffer ← state.mem args.buffer
  match transferError args buffer with
  | some code => return (code, state)
  | none =>
      let (event, state) ← state.requestEvent args.event true
      if args.blocking then
        let state ← state.retainMem args.buffer
        let state ← state.finish env
        let state ← state.start event
        let buffer ← state.mem args.buffer
        let state := state.invoke call
          (op args.ptr (buffer.devicePtrs env.devId + args.offset) args.cb)
        let state ← state.setStatus event .complete
        let state ← state.releaseMem args.buffer
        return (.success, state)
      else if !args.alloc.node then
        return (.outOfHostMemory, state)
      else
        let state ← state.retainMem args.buffer
        return (.success, state.append
          { call := call
            event := event
            command := command args.ptr
              (buffer.devicePtrs queuedIndex + args.offset) args.cb args.buffer })

def enqueueReadBuffer (env : Env) (args : BufferTransfer) (state : State) :
    Option (ClCode × State) :=
  state.enqueueBufferTransfer env .read .read env.devId args

def enqueueWriteBuffer (env : Env) (args : BufferTransfer) (state : State) :
    Option (ClCode × State) :=
  state.enqueueBufferTransfer env .write .write env.contextIndex args

def enqueueCopyBuffer (env : Env) (args : BufferCopy) (state : State) :
    Option (ClCode × State) := do
  let call := state.calls
  let state := state.countCall
  let _ ← state.queue
  let src ← state.mem args.srcBuffer
  let dst ← state.mem args.dstBuffer
  if !src.sameContext || !dst.sameContext then
    return (.invalidContext, state)
  if src.size < args.srcOffset + args.cb ∨ dst.size < args.dstOffset + args.cb then
    return (.invalidValue, state)
  if args.event && !args.alloc.event then
    return (.outOfHostMemory, state)
  let (event, state) ← state.requestEvent args.event true
  if !args.alloc.node then
    return (.outOfHostMemory, state)
  let state ← state.retainMem args.srcBuffer
  let state ← state.retainMem args.dstBuffer
  return (.success, state.append
    { call := call
      event := event
      command := .copy (src.devicePtrs env.devId + args.srcOffset)
        (dst.devicePtrs env.devId + args.dstOffset) args.cb args.srcBuffer
        args.dstBuffer })

/-- Whether the flags of the buffer forbid the access. -/
def mapForbidden (flags : MemFlags) (args : BufferMap) : Bool :=
  ((flags.hostWriteOnly || flags.hostNoAccess) && args.mapRead) ||
    ((flags.hostReadOnly || flags.hostNoAccess) && args.mapWrite)

/-- The host address of a mapping: that of the buffer, or the one that the first
call of `map_mem` returns. -/
def mapHostPtr (buffer : MemObject) (args : BufferMap) : SizeT :=
  if buffer.flags.useHostPtr then
    buffer.memHostPtr + args.offset
  else
    args.mapMemResult

/-- The first call of `map_mem`, which a buffer that uses a host pointer does not
need. -/
def queryMap (env : Env) (args : BufferMap) (buffer : MemObject) (call : ℕ)
    (state : State) : State :=
  if buffer.flags.useHostPtr then
    state
  else
    state.invoke call (.mapMem (buffer.devicePtrs env.devId) args.offset args.size 0)

/-- Append the record of a mapping. -/
def addMapping (buffer : MemId) (mapping : Mapping) (state : State) :
    Option State := do
  let object ← state.mem buffer
  some { state.setMem buffer
      (some { object with mappings := object.mappings ++ [mapping] }) with
    nextMapping := mapping.id + 1 }

def logMapped (buffer : MemId) (mapping : Mapping) (state : State) : State :=
  { state with mapLog := state.mapLog ++ [.mapped buffer mapping.id] }

/-- The part of `clEnqueueMapBuffer` behind the record of the mapping. -/
def enqueueMapping (env : Env) (args : BufferMap) (call : ℕ)
    (event : Option EventId) (mapping : Mapping) (state : State) :
    Option (ClCode × State) := do
  if !args.blocking then
    if !args.alloc.node then
      return (.outOfHostMemory, state)
    let state := state.append
      { call := call, event := event, command := .map args.buffer mapping }
    return (.success, state.logMapped args.buffer mapping)
  let state ← state.finish env
  let state ← state.start event
  let state ← state.mapMemCmd env call args.buffer mapping
  let state ← state.setStatus event .complete
  return (.success, state.logMapped args.buffer mapping)

/-- `clEnqueueMapBuffer`.  The errors behind the retain leave it behind. -/
def enqueueMapBuffer (env : Env) (args : BufferMap) (state : State) :
    Option (ClCode × State) := do
  let call := state.calls
  let state := state.countCall
  let _ ← state.queue
  let buffer ← state.mem args.buffer
  if !buffer.sameContext then
    return (.invalidContext, state)
  if buffer.size < args.offset + args.size then
    return (.invalidValue, state)
  if mapForbidden buffer.flags args then
    return (.invalidOperation, state)
  let state ← state.retainMem args.buffer
  if args.event && !args.alloc.event then
    return (.outOfHostMemory, state)
  let (event, state) ← state.requestEvent args.event true
  if !args.alloc.mapping then
    return (.outOfHostMemory, state)
  let state := state.queryMap env args buffer call
  if mapHostPtr buffer args = 0 then
    let state ← state.setStatus event .complete
    return (.mapFailure, state)
  let mapping : Mapping :=
    ⟨state.nextMapping, mapHostPtr buffer args, args.offset, args.size⟩
  let state ← state.addMapping args.buffer mapping
  state.enqueueMapping env args call event mapping

/-- The call of `unmap_mem`, which a buffer with a host pointer does not need. -/
def invokeUnmap (env : Env) (object : MemObject) (mapping : Mapping) (call : ℕ)
    (state : State) : State :=
  if object.flags.useHostPtr || object.flags.allocHostPtr || !env.hasUnmapMem then
    state
  else
    state.invoke call (.unmapMem mapping.hostPtr
      (object.devicePtrs env.devId + mapping.offset) mapping.size)

/-- Remove the record of a mapping. -/
def removeMapping (mem : MemId) (mapping : Mapping) (state : State) :
    Option State := do
  let object ← state.mem mem
  some { state.setMem mem
      (some { object with
        mappings := object.mappings.erase mapping
        mapCount := object.mapCount - 1 }) with
    mapLog := state.mapLog ++ [.unmapped mem mapping.id] }

/-- `clEnqueueUnmapMemObject`.  It does not look at the queue. -/
def enqueueUnmapMemObject (env : Env) (args : Unmap) (state : State) :
    Option (ClCode × State) := do
  let call := state.calls
  let state := state.countCall
  let _ ← state.queue
  let object ← state.mem args.mem
  if !object.sameContext then
    return (.invalidContext, state)
  match object.mappings.find? (fun mapping => mapping.hostPtr = args.mappedPtr) with
  | none => return (.invalidValue, state)
  | some mapping =>
      if args.event && !args.alloc.event then
        return (.outOfHostMemory, state)
      let (event, state) ← state.requestEvent args.event true
      let state ← state.start event
      let state := state.invokeUnmap env object mapping call
      let state ← state.setStatus event .complete
      let state ← state.removeMapping args.mem mapping
      let state ← state.releaseMem args.mem
      return (.success, state)

/-- The loop that collects and retains the buffers of a launch. -/
def argBuffers (kernel : KernelObject) : List (Option MemId) :=
  (List.range kernel.numArgs).filterMap fun i =>
    let arg := kernel.args i
    if !arg.isLocal && arg.isPointer then arg.value else none

/-- The copies of the arguments that a launch takes along. -/
def arguments (kernel : KernelObject) : List KernelArg :=
  (List.range kernel.numArgs).map kernel.args

def retainBuffers (buffers : List (Option MemId)) (state : State) :
    Option State :=
  buffers.foldlM
    (fun state buffer =>
      match buffer with
      | none => some state
      | some buffer => state.retainMem buffer) state

def enqueueNDRangeKernel (args : KernelLaunch) (state : State) :
    Option (ClCode × State) := do
  let call := state.calls
  let state := state.countCall
  let _ ← state.queue
  let kernel ← state.kernel args.kernel
  if !args.accepted then
    return (.rejected, state)
  if !args.alloc.node || (args.event && !args.alloc.event) then
    return (.outOfHostMemory, state)
  let (event, state) ← state.requestEvent args.event true
  let state ← state.retainQueue
  let state ← state.retainKernel args.kernel
  let state ← state.retainBuffers (argBuffers kernel)
  return (.success, state.append
    { call := call
      event := event
      command := .run args.kernel (arguments kernel) (argBuffers kernel) })

/-- `clEnqueueFillBuffer`, `clEnqueueReadBufferRect` and
`clEnqueueCopyBufferRect`. -/
def enqueueFlushedTransfer (env : Env) (args : FlushedTransfer) (state : State) :
    Option (ClCode × State) := do
  let call := state.calls
  let state := state.countCall
  let _ ← state.queue
  if !args.accepted then
    return (.rejected, state)
  if args.event && !args.alloc.event then
    return (.outOfHostMemory, state)
  let (event, state) ← state.requestEvent args.event true
  let state ← state.retainBuffers (args.buffers.map some)
  let state ← state.finish env
  let state ← state.start event
  let state := state.invoke call
    (.transfer args.kind args.hostPtr args.devicePtr args.extent)
  let state ← state.setStatus event .complete
  let state ← state.releaseBuffers (args.buffers.map some)
  return (.success, state)

/-- `clEnqueueWriteBufferRect` makes no event, but sets the status of whatever
the event pointer of the client points to. -/
def enqueueWriteBufferRect (env : Env) (args : FlushedTransfer)
    (event : Option EventId) (state : State) : Option (ClCode × State) := do
  let call := state.calls
  let state := state.countCall
  let _ ← state.queue
  if !args.accepted then
    return (.rejected, state)
  let state ← state.retainBuffers (args.buffers.map some)
  let state ← state.finish env
  let state ← state.start event
  let state := state.invoke call
    (.transfer .writeRect args.hostPtr args.devicePtr args.extent)
  let state ← state.setStatus event .complete
  let state ← state.releaseBuffers (args.buffers.map some)
  return (.success, state)

/-- The numbers of the rectangle that a driver gets for an image. -/
def imageExtent (args : ImageTransfer) : List SizeT :=
  [args.origin.x, args.origin.y, args.origin.z, args.region.x, args.region.y,
    args.region.z, args.rowPitch, args.slicePitch]

/-- With `HSA_RUNTIME` a blocking read of an image starts its event. -/
def startHsa (env : Env) (event : Option EventId) (state : State) : Option State :=
  if env.hsaRuntime then state.start event else some state

/-- The call of the driver for a blocking read of an image. -/
def invokeReadImage (env : Env) (args : ImageTransfer) (image : MemObject)
    (call : ℕ) (state : State) : State :=
  if env.hsaGpu then
    state.invoke call (.transfer .imageExport args.ptr 0 (imageExtent args))
  else if args.accepted then
    state.invoke call (.transfer .readRect args.ptr (image.devicePtrs env.devId)
      (imageExtent args))
  else
    state

def releaseQueueIf (env : Env) (event : Bool) (state : State) : Option State :=
  if event then state.releaseQueue env else some state

/-- The call of the driver for a write of an image. -/
def invokeWriteImage (env : Env) (args : ImageTransfer) (image : MemObject)
    (call : ℕ) (state : State) : State :=
  if args.accepted then
    state.invoke call (.transfer .writeRect args.ptr (image.devicePtrs env.devId)
      (imageExtent args))
  else
    state

/-- `clEnqueueReadImage`.  Its event holds no reference on the queue, yet a
blocking read with an event releases the queue.  A read that does not block calls
`LL_APPEND`, which is neither a macro in this file nor a function anywhere, so that
it has no defined result. -/
def enqueueReadImage (env : Env) (args : ImageTransfer) (state : State) :
    Option (ClCode × State) := do
  let call := state.calls
  let state := state.countCall
  let _ ← state.queue
  if args.event && !args.alloc.event then
    return (.outOfHostMemory, state)
  let (event, state) ← state.requestEvent args.event false
  let image ← state.mem args.image
  if args.blocking then
    let state ← state.startHsa env event
    let state := state.invokeReadImage env args image call
    let state ← state.setStatus event .complete
    let state ← state.releaseQueueIf env args.event
    return (if env.hsaGpu || args.accepted then .success else .invalidValue, state)
  else if !args.alloc.node then
    return (.outOfHostMemory, state)
  else
    none

/-- `clEnqueueWriteImage` executes the transfer without a flush. -/
def enqueueWriteImage (env : Env) (args : ImageTransfer) (state : State) :
    Option (ClCode × State) := do
  let call := state.calls
  let state := state.countCall
  let _ ← state.queue
  if args.event && !args.alloc.event then
    return (.outOfHostMemory, state)
  let (event, state) ← state.requestEvent args.event true
  let state ← state.start event
  let image ← state.mem args.image
  let state := state.invokeWriteImage env args image call
  let state ← state.setStatus event .complete
  return (if args.accepted then .success else .invalidValue, state)

/-- `clEnqueueMarker`. -/
def enqueueMarker (event : Bool) (alloc : Allocations) (state : State) :
    Option (ClCode × State) := do
  let call := state.calls
  let state := state.countCall
  let _ ← state.queue
  if !event then
    return (.invalidValue, state)
  if !alloc.event then
    return (.outOfHostMemory, state)
  let (event, state) ← state.requestEvent event true
  if !alloc.node then
    return (.outOfHostMemory, state)
  return (.success, state.append { call := call, event := event, command := .marker })

/-- `clSetKernelArg`.  The argument behind the last one is accepted, too. -/
def setKernelArg (env : Env) (kernel : KernelId) (argIndex : ℕ)
    (argValue : Option (Option MemId)) (state : State) :
    Option (ClCode × State) := do
  let object ← state.kernel kernel
  if object.numArgs < argIndex then
    return (.invalidArgIndex, state)
  let arg := object.args argIndex
  let arg :=
    if argValue.isSome && !(arg.isPointer && argValue == some none) then
      { arg with value := argValue }
    else if env.hsaRuntime && object.fromBinary then
      { arg with value := none, isPointer := true, isLocal := true }
    else
      { arg with value := none }
  return (.success, state.setKernel kernel
    (some { object with args := Function.update object.args argIndex arg }))

/-- The record of a sub-buffer.  The count of maps is not set: it is what
`malloc` has left there. -/
def subBuffer (args : SubBuffer) (buffer : MemObject) : MemObject where
  refcount := 1
  parent := some args.buffer
  sameContext := buffer.sameContext
  flags :=
    { useHostPtr := buffer.flags.useHostPtr
      allocHostPtr := buffer.flags.allocHostPtr
      hostReadOnly := false
      hostWriteOnly := false
      hostNoAccess := false }
  size := args.size
  memHostPtr := buffer.memHostPtr + args.origin
  devicePtrs := fun device => buffer.devicePtrs device + args.origin
  mapCount := args.uninitialised
  mappings := []

def addMem (object : MemObject) (state : State) : State :=
  { state.setMem state.nextMem (some object) with nextMem := state.nextMem + 1 }

/-- `clCreateSubBuffer`. -/
def createSubBuffer (args : SubBuffer) (state : State) :
    Option (ClCode × State) := do
  let buffer ← state.mem args.buffer
  if buffer.parent.isSome || !args.accepted || args.size = 0 ||
      buffer.size < args.size + args.origin then
    return (.invalidValue, state)
  let state := state.addMem (subBuffer args buffer)
  let state ← state.retainMem args.buffer
  return (.success, state)

end State

inductive Call
  | readBuffer (args : BufferTransfer)
  | writeBuffer (args : BufferTransfer)
  | copyBuffer (args : BufferCopy)
  | mapBuffer (args : BufferMap)
  | unmapMemObject (args : Unmap)
  | ndRangeKernel (args : KernelLaunch)
  | flushedTransfer (args : FlushedTransfer)
  | writeBufferRect (args : FlushedTransfer) (event : Option EventId)
  | readImage (args : ImageTransfer)
  | writeImage (args : ImageTransfer)
  | marker (event : Bool) (alloc : Allocations)
  | setKernelArg (kernel : KernelId) (argIndex : ℕ)
      (argValue : Option (Option MemId))
  | createSubBuffer (args : SubBuffer)
  | retainMem (mem : MemId)
  | releaseMem (mem : MemId)
  | retainEvent (event : EventId)
  | releaseEvent (event : EventId)
  | retainQueue
  | releaseQueue
  | retainKernel (kernel : KernelId)
  | releaseKernel (kernel : KernelId)
  | finish

/-- The call succeeds with the given state. -/
def succeed (state : State) : ClCode × State :=
  (.success, state)

def State.perform (env : Env) (state : State) : Call → Option (ClCode × State)
  | .readBuffer args => state.enqueueReadBuffer env args
  | .writeBuffer args => state.enqueueWriteBuffer env args
  | .copyBuffer args => state.enqueueCopyBuffer env args
  | .mapBuffer args => state.enqueueMapBuffer env args
  | .unmapMemObject args => state.enqueueUnmapMemObject env args
  | .ndRangeKernel args => state.enqueueNDRangeKernel args
  | .flushedTransfer args => state.enqueueFlushedTransfer env args
  | .writeBufferRect args event => state.enqueueWriteBufferRect env args event
  | .readImage args => state.enqueueReadImage env args
  | .writeImage args => state.enqueueWriteImage env args
  | .marker event alloc => state.enqueueMarker event alloc
  | .setKernelArg kernel argIndex argValue =>
      state.setKernelArg env kernel argIndex argValue
  | .createSubBuffer args => state.createSubBuffer args
  | .retainMem mem => (state.retainMem mem).map succeed
  | .releaseMem mem => (state.releaseMem mem).map succeed
  | .retainEvent event => (state.retainEvent event).map succeed
  | .releaseEvent event => (state.releaseEvent env event).map succeed
  | .retainQueue => state.retainQueue.map succeed
  | .releaseQueue => (state.releaseQueue env).map succeed
  | .retainKernel kernel => (state.retainKernel kernel).map succeed
  | .releaseKernel kernel => (state.releaseKernel kernel).map succeed
  | .finish => (state.finish env).map succeed

/-- The references that belong to the client: those of the creation and of its
own retains, less its own releases. -/
structure Ledger where
  mem : MemId → ℤ
  event : EventId → ℤ
  queue : ℤ
  kernel : KernelId → ℤ

namespace Ledger

/-- The effect of a retain or a release of the client. -/
def book (ledger : Ledger) : Call → Ledger
  | .retainMem mem =>
      { ledger with mem := Function.update ledger.mem mem (ledger.mem mem + 1) }
  | .releaseMem mem =>
      { ledger with mem := Function.update ledger.mem mem (ledger.mem mem - 1) }
  | .retainEvent event =>
      { ledger with
        event := Function.update ledger.event event (ledger.event event + 1) }
  | .releaseEvent event =>
      { ledger with
        event := Function.update ledger.event event (ledger.event event - 1) }
  | .retainQueue => { ledger with queue := ledger.queue + 1 }
  | .releaseQueue => { ledger with queue := ledger.queue - 1 }
  | .retainKernel kernel =>
      { ledger with
        kernel := Function.update ledger.kernel kernel (ledger.kernel kernel + 1) }
  | .releaseKernel kernel =>
      { ledger with
        kernel := Function.update ledger.kernel kernel (ledger.kernel kernel - 1) }
  | _ => ledger

/-- The client gets one reference on each object that a call makes. -/
def credit (ledger : Ledger) (before after : State) : Ledger :=
  { ledger with
    mem :=
      if before.nextMem < after.nextMem then
        Function.update ledger.mem before.nextMem 1
      else
        ledger.mem
    event :=
      if before.nextEvent < after.nextEvent then
        Function.update ledger.event before.nextEvent 1
      else
        ledger.event }

end Ledger

/-- The runtime and its client. -/
structure Session where
  state : State
  user : Ledger

def Session.step (env : Env) (session : Session) (call : Call) :
    Option (ClCode × Session) := do
  let (code, state) ← session.state.perform env call
  some (code, ⟨state, (session.user.book call).credit session.state state⟩)

/-- The client gives back only references that it has. -/
def Owned (session : Session) : Call → Prop
  | .releaseMem mem => 0 < session.user.mem mem
  | .releaseEvent event => 0 < session.user.event event
  | .releaseQueue => 0 < session.user.queue
  | .releaseKernel kernel => 0 < session.user.kernel kernel
  | _ => True

/-- The sessions that calls lead to, each of which is allowed where it is
made. -/
inductive Reaches (env : Env) (allowed : Session → Call → Prop)
    (first : Session) : Session → Prop
  | start : Reaches env allowed first first
  | call {session next : Session} {call : Call} {code : ClCode}
      (hreaches : Reaches env allowed first session)
      (hallowed : allowed session call)
      (hstep : session.step env call = some (code, next)) :
      Reaches env allowed first next

theorem Reaches.invariant
    {env : Env} {allowed : Session → Call → Prop} {first session : Session}
    (invariant : Session → Prop) (hfirst : invariant first)
    (hstep : ∀ (session next : Session) (call : Call) (code : ClCode),
      invariant session → allowed session call →
        session.step env call = some (code, next) → invariant next)
    (hreaches : Reaches env allowed first session) : invariant session := by
  induction hreaches with
  | start => exact hfirst
  | call _ hallowed hcall ih => exact hstep _ _ _ _ ih hallowed hcall

/-- Perform the calls one after the other, as long as each is permitted. -/
def Session.runIf (env : Env) (permits : Session → Call → Bool) (session : Session)
    (calls : List Call) : Option Session :=
  calls.foldlM
    (fun session call =>
      if permits session call then (session.step env call).map Prod.snd else none)
    session

theorem Reaches.of_runIf
    {env : Env} {allowed : Session → Call → Prop} {permits : Session → Call → Bool}
    (hpermits : ∀ session call, permits session call = true → allowed session call)
    {first middle session : Session} {calls : List Call}
    (hmiddle : Reaches env allowed first middle)
    (hrun : middle.runIf env permits calls = some session) :
    Reaches env allowed first session := by
  unfold Session.runIf at hrun
  induction calls generalizing middle with
  | nil =>
      cases hrun
      exact hmiddle
  | cons call calls ih =>
      rw [List.foldlM_cons] at hrun
      obtain ⟨next, hnext, hrest⟩ := Option.bind_eq_some_iff.mp hrun
      by_cases hpermitted : permits middle call = true
      · rw [if_pos hpermitted] at hnext
        obtain ⟨⟨code, reached⟩, hstep, rfl⟩ := Option.map_eq_some_iff.mp hnext
        exact ih (hmiddle.call (hpermits _ _ hpermitted) hstep) hrest
      · rw [if_neg hpermitted] at hnext
        cases hnext

theorem Reaches.exists_of_runIf
    (env : Env) (allowed : Session → Call → Prop) (permits : Session → Call → Bool)
    (hpermits : ∀ session call, permits session call = true → allowed session call)
    (first : Session) (calls : List Call) (test : Session → Bool)
    (hrun : (first.runIf env permits calls).any test = true) :
    ∃ session, Reaches env allowed first session ∧ test session = true := by
  obtain ⟨session, hsession, htest⟩ := (Option.any_eq_true _ _).mp hrun
  exact ⟨session, Reaches.of_runIf hpermits .start hsession, htest⟩

/-- A buffer of 64 bytes with one reference, as `clCreateBuffer` makes it. -/
def MemObject.plain : MemObject where
  refcount := 1
  parent := none
  sameContext := true
  flags := ⟨false, false, false, false, false⟩
  size := 64
  memHostPtr := 0
  devicePtrs := fun device => 4096 + 256 * BitVec.ofNat 64 device
  mapCount := 0
  mappings := []

/-- A kernel without arguments. -/
def KernelObject.plain : KernelObject where
  refcount := 1
  numArgs := 0
  args := fun _ => ⟨false, false, false, none⟩
  fromBinary := false

/-- A CPU that is the only device of its context. -/
def singleCpu : Env := ⟨false, false, 0, 0, true⟩

/-- Four bytes from or to the start of the first buffer. -/
def firstWord (blocking : Bool) : BufferTransfer :=
  ⟨0, blocking, 0, 4, 65536, true, false, .all⟩

/-- A map of the first four bytes of the first buffer, with an event. -/
def firstMap (blocking : Bool) : BufferMap :=
  ⟨0, blocking, true, false, 0, 4, true, .all, 65536⟩

/-- One pixel from or to the second object. -/
def firstPixel (blocking : Bool) : ImageTransfer :=
  ⟨1, blocking, ⟨0, 0, 0⟩, ⟨1, 1, 1⟩, 4, 4, 65536, true, false, .all⟩

/-- A launch of the first kernel. -/
def firstLaunch : KernelLaunch := ⟨0, true, false, .all⟩

/-- A new queue and the given objects, with one reference on each for the
client. -/
def Session.opening (objects : List MemObject) (kernels : List KernelObject) :
    Session where
  state :=
    { mem := fun mem => objects[mem]?
      event := fun _ => none
      kernel := fun kernel => kernels[kernel]?
      queue := some 1
      root := []
      nextMem := objects.length
      nextEvent := 0
      nextMapping := 0
      calls := 0
      ops := []
      mapLog := [] }
  user :=
    { mem := fun mem => if mem < objects.length then 1 else 0
      event := fun _ => 0
      queue := 1
      kernel := fun kernel => if kernel < kernels.length then 1 else 0 }

end CommandQueue

end Pocl
