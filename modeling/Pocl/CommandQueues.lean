import Pocl.NDRanges

/-!
# Command queues of the runtime

One in-order queue with the memory objects, events and kernels that its commands
refer to.  An enqueue function appends a command to the queue, or flushes the
queue and executes the command at once, or executes it without a flush.
`clFinish` executes the commands in the order of the list.

Objects are counted references.  An object whose record has been freed is
`none`, and a function that follows a pointer to it is undefined, so that it
returns `none`.  Host addresses are numbers, and zero is the null pointer.  The
profiling times of events are left out; so is what a driver does with the data
of a command, except that it follows the pointers to the arguments of a launch.
-/

namespace Pocl

namespace CommandQueue

abbrev MemId := ℕ

abbrev EventId := ℕ

abbrev KernelId := ℕ

inductive ClCode
  | success
  | invalidContext
  | invalidValue
  | invalidOperation
  | invalidEventWaitList
  | invalidArgIndex
  | outOfHostMemory
  | mapFailure
  | rejected
  deriving DecidableEq

inductive EventStatus
  | queued
  | submitted
  | running
  | complete
  deriving DecidableEq

/-- What does not change while the queue is used. -/
structure Env where
  /-- Whether the runtime is built with `HSA_RUNTIME`. -/
  hsaRuntime : Bool
  /-- Whether the device of the queue is a GPU. -/
  isGpu : Bool
  /-- The position of the device in the context. -/
  contextIndex : ℕ
  devId : ℕ
  /-- Whether the driver has an `unmap_mem` function. -/
  hasUnmapMem : Bool

/-- Whether the branches for an HSA device are taken. -/
def Env.hsaGpu (env : Env) : Bool :=
  env.hsaRuntime && env.isGpu

structure MemFlags where
  useHostPtr : Bool
  allocHostPtr : Bool
  hostReadOnly : Bool
  hostWriteOnly : Bool
  hostNoAccess : Bool

/-- `mem_mapping_t`, with a number that tells the records apart. -/
structure Mapping where
  id : ℕ
  hostPtr : SizeT
  offset : SizeT
  size : SizeT
  deriving DecidableEq

/-- A buffer or an image. -/
structure MemObject where
  refcount : ℤ
  parent : Option MemId
  /-- Whether it belongs to the context of the queue. -/
  sameContext : Bool
  flags : MemFlags
  size : SizeT
  memHostPtr : SizeT
  devicePtrs : ℕ → SizeT
  mapCount : BitVec 32
  mappings : List Mapping

structure EventObject where
  refcount : ℤ
  status : EventStatus
  deriving DecidableEq

/-- An argument of a kernel.  The value is a null pointer, or points to the
handle of a memory object, which may be null, or to other data. -/
structure KernelArg where
  isLocal : Bool
  isPointer : Bool
  isImage : Bool
  value : Option (Option MemId)

structure KernelObject where
  refcount : ℤ
  numArgs : ℕ
  /-- The arguments; clients may also write the one behind the last. -/
  args : ℕ → KernelArg
  /-- Whether the program was created from a binary. -/
  fromBinary : Bool

inductive TransferKind
  | fill
  | readRect
  | writeRect
  | copyRect
  | imageExport
  deriving DecidableEq

/-- The calls of functions of a driver. -/
inductive DeviceOp
  | read (hostPtr devicePtr cb : SizeT)
  | write (hostPtr devicePtr cb : SizeT)
  | copy (srcPtr dstPtr cb : SizeT)
  | mapMem (devicePtr offset size hostPtr : SizeT)
  | unmapMem (hostPtr devicePtr size : SizeT)
  | run (kernel : KernelId)
  | transfer (kind : TransferKind) (hostPtr devicePtr : SizeT) (extent : List SizeT)
  deriving DecidableEq

inductive Command
  | read (hostPtr devicePtr cb : SizeT) (buffer : MemId)
  | write (hostPtr devicePtr cb : SizeT) (buffer : MemId)
  | copy (srcPtr dstPtr cb : SizeT) (srcBuffer dstBuffer : MemId)
  | map (buffer : MemId) (mapping : Mapping)
  | run (kernel : KernelId) (arguments : List KernelArg)
      (argBuffers : List (Option MemId))
  | marker

/-- `_cl_command_node`, with the number of the enqueue call that made it. -/
structure Node where
  call : ℕ
  event : Option EventId
  command : Command

/-- What happens to the maps of memory objects. -/
inductive MapEvent
  | mapped (buffer : MemId) (mapping : ℕ)
  | executed (buffer : MemId) (mapping : ℕ)
  | unmapped (mem : MemId) (mapping : ℕ)
  deriving DecidableEq

structure State where
  mem : MemId → Option MemObject
  event : EventId → Option EventObject
  kernel : KernelId → Option KernelObject
  /-- The reference count of the queue. -/
  queue : Option ℤ
  root : List Node
  nextMem : MemId
  nextEvent : EventId
  nextMapping : ℕ
  /-- The number of enqueue calls so far. -/
  calls : ℕ
  /-- The calls of the driver, each with the enqueue call that it is for. -/
  ops : List (ℕ × DeviceOp)
  mapLog : List MapEvent

namespace State

section Objects

def setMem (state : State) (mem : MemId) (object : Option MemObject) : State :=
  { state with mem := Function.update state.mem mem object }

def setEvent (state : State) (event : EventId) (object : Option EventObject) :
    State :=
  { state with event := Function.update state.event event object }

def setKernel (state : State) (kernel : KernelId) (object : Option KernelObject) :
    State :=
  { state with kernel := Function.update state.kernel kernel object }

def retainMem (mem : MemId) (state : State) : Option State := do
  let object ← state.mem mem
  some (state.setMem mem (some { object with refcount := object.refcount + 1 }))

/-- The last release frees the object.  The parent of a sub-buffer loses a
reference, but it is not freed then. -/
def releaseMem (mem : MemId) (state : State) : Option State := do
  let object ← state.mem mem
  if object.refcount - 1 = 0 then
    match object.parent with
    | none => some (state.setMem mem none)
    | some parent =>
        let parentObject ← state.mem parent
        some ((state.setMem parent
          (some { parentObject with refcount := parentObject.refcount - 1 })).setMem
            mem none)
  else
    some (state.setMem mem (some { object with refcount := object.refcount - 1 }))

def retainKernel (kernel : KernelId) (state : State) : Option State := do
  let object ← state.kernel kernel
  some (state.setKernel kernel (some { object with refcount := object.refcount + 1 }))

def releaseKernel (kernel : KernelId) (state : State) : Option State := do
  let object ← state.kernel kernel
  if object.refcount - 1 = 0 then
    some (state.setKernel kernel none)
  else
    some (state.setKernel kernel
      (some { object with refcount := object.refcount - 1 }))

def retainQueue (state : State) : Option State := do
  let refcount ← state.queue
  some { state with queue := some (refcount + 1) }

def retainEvent (event : EventId) (state : State) : Option State := do
  let object ← state.event event
  some (state.setEvent event (some { object with refcount := object.refcount + 1 }))

/-- The `POCL_UPDATE_EVENT` macros. -/
def setStatus (event : Option EventId) (status : EventStatus) (state : State) :
    Option State :=
  match event with
  | none => some state
  | some event => do
      let object ← state.event event
      some (state.setEvent event (some { object with status := status }))

def start (event : Option EventId) (state : State) : Option State := do
  let state ← state.setStatus event .submitted
  state.setStatus event .running

/-- One more enqueue call. -/
def countCall (state : State) : State :=
  { state with calls := state.calls + 1 }

def invoke (state : State) (call : ℕ) (op : DeviceOp) : State :=
  { state with ops := state.ops ++ [(call, op)] }

def append (state : State) (node : Node) : State :=
  { state with root := state.root ++ [node] }

def isLive (state : State) (mem : MemId) : Bool :=
  (state.mem mem).isSome

end Objects

section Finish

/-- The buffers that the arguments of a launch point to. -/
def bufferArgs (arguments : List KernelArg) : List (Option MemId) :=
  arguments.filterMap fun arg => if !arg.isLocal && arg.isPointer then arg.value else none

/-- The images among the arguments of a launch. -/
def imageArgs (arguments : List KernelArg) : List MemId :=
  arguments.filterMap fun arg =>
    if !arg.isLocal && !arg.isPointer && arg.isImage then arg.value.join else none

/-- The memory objects to which the driver follows the arguments of a launch. -/
def memArgs (arguments : List KernelArg) : List MemId :=
  (bufferArgs arguments).reduceOption ++ imageArgs arguments

/-- `pocl_map_mem_cmd`.  The record of the mapping is never freed, so that it can be
read behind an unmap, too. -/
def mapMemCmd (env : Env) (call : ℕ) (buffer : MemId) (mapping : Mapping)
    (state : State) : Option State := do
  let object ← state.mem buffer
  let state := state.invoke call
    (.mapMem (object.devicePtrs env.devId) mapping.offset mapping.size
      mapping.hostPtr)
  let state := state.setMem buffer
    (some { object with mapCount := object.mapCount + 1 })
  some { state with mapLog := state.mapLog ++ [.executed buffer mapping.id] }

def releaseBuffers (buffers : List (Option MemId)) (state : State) :
    Option State :=
  buffers.foldlM
    (fun state buffer =>
      match buffer with
      | none => some state
      | some buffer => state.releaseMem buffer) state

/-- One round of the loop of `clFinish`. -/
def execute (env : Env) (state : State) (node : Node) : Option State :=
  match node.command with
  | .read hostPtr devicePtr cb buffer => do
      let state ← state.start node.event
      let state := state.invoke node.call (.read hostPtr devicePtr cb)
      let state ← state.setStatus node.event .complete
      state.releaseMem buffer
  | .write hostPtr devicePtr cb buffer => do
      let state ← state.start node.event
      let state := state.invoke node.call (.write hostPtr devicePtr cb)
      let state ← state.setStatus node.event .complete
      state.releaseMem buffer
  | .copy srcPtr dstPtr cb srcBuffer dstBuffer => do
      let state ← state.start node.event
      let state := state.invoke node.call (.copy srcPtr dstPtr cb)
      let state ← state.setStatus node.event .complete
      let state ← state.releaseMem srcBuffer
      state.releaseMem dstBuffer
  | .map buffer mapping => do
      let state ← state.start node.event
      let state ← state.mapMemCmd env node.call buffer mapping
      state.setStatus node.event .complete
  | .run kernel arguments argBuffers => do
      let state ← state.start node.event
      let _ ← state.kernel kernel
      if !(memArgs arguments).all state.isLive then
        none
      let state := state.invoke node.call (.run kernel)
      let state ← state.setStatus node.event .complete
      let state ← state.releaseBuffers argBuffers
      if env.hsaGpu then
        some state
      else
        state.releaseKernel kernel
  | .marker => state.setStatus node.event .complete

/-- `clFinish`, which is also what `clFlush` and `clWaitForEvents` call. -/
def finish (env : Env) (state : State) : Option State := do
  let _ ← state.queue
  let state ← state.root.foldlM (execute env) state
  some { state with root := [] }

def releaseQueue (env : Env) (state : State) : Option State := do
  let state ← state.finish env
  let refcount ← state.queue
  if refcount - 1 = 0 then
    some { state with queue := none }
  else
    some { state with queue := some (refcount - 1) }

/-- The record of an event is freed behind the release of its queue, which
flushes the queue.  An HSA device has no such release. -/
def releaseEvent (env : Env) (event : EventId) (state : State) :
    Option State := do
  let object ← state.event event
  if object.refcount - 1 = 0 then
    let _ ← state.queue
    let state := state.setEvent event (some { object with refcount := 0 })
    let state ← if env.hsaGpu then some state else state.releaseQueue env
    some (state.setEvent event none)
  else
    some (state.setEvent event
      (some { object with refcount := object.refcount - 1 }))

end Finish

end State

end CommandQueue

end Pocl
