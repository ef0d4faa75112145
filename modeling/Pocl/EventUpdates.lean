import Mathlib.Order.Monotone.Basic
import Mathlib.Data.List.Basic

/-!
# Updates of events

The macros `POCL_UPDATE_EVENT_QUEUED`, `..._SUBMITTED`, `..._RUNNING` and
`..._COMPLETE` write the status of an event and, for a queue with profiling, a
timestamp.  Their assertions are assignments, which write the status before.  The
functions that enqueue commands and `clFinish` are followed as far as they update events.
Calls that the checks of the arguments reject do not touch an event and are left out, as
are the functions and queues that are not implemented and the reads of images that go on
to call `LL_APPEND`, which does not exist in their file.
-/

namespace Pocl.EventUpdates

inductive Status
  | queued
  | submitted
  | running
  | complete
  deriving DecidableEq

inductive Driver
  | basic
  | pthread
  | ttasim
  | cellspu
  | hsa
  deriving DecidableEq

structure Device where
  driver : Driver
  /-- The values of `get_timer_value` in the course of a run. -/
  timer : ℕ → ℕ
  timer_monotone : Monotone timer

structure CommandQueue where
  device : Device
  /-- `CL_QUEUE_PROFILING_ENABLE` -/
  profiling : Bool

structure Platform where
  /-- Whether assertions are evaluated. -/
  assertions : Bool
  /-- Whether pocl has been built with the HSA runtime. -/
  hsaRuntime : Bool
  queues : ℕ → CommandQueue

/-- A value written to the status, and the call whose command it is written for. -/
structure StatusWrite where
  call : ℕ
  status : Status
  deriving DecidableEq

structure Event where
  queue : ℕ
  /-- The call that has created the event. -/
  creator : ℕ
  writes : List StatusWrite
  timeQueue : Option ℕ
  timeSubmit : Option ℕ
  timeStart : Option ℕ
  timeEnd : Option ℕ
  deriving DecidableEq

def Event.write (event : Event) (call : ℕ) (status : Status) : Event :=
  { event with writes := event.writes ++ [⟨call, status⟩] }

def Event.setTime (event : Event) (time : ℕ) : Status → Event
  | .queued => { event with timeQueue := some time }
  | .submitted => { event with timeSubmit := some time }
  | .running => { event with timeStart := some time }
  | .complete => { event with timeEnd := some time }

/-- The status that the assertion of a macro assigns. -/
def Status.asserted : Status → Option Status
  | .queued => none
  | .submitted => some .queued
  | .running => some .submitted
  | .complete => some .running

/-- An update by a macro, one of the two in `pocl_pthread_run`, or one of the two in
`pocl_tce_run`. -/
inductive Update
  | stage (status : Status)
  | run (status : Status)
  | profiledRun (status : Status)
  deriving DecidableEq

def Event.assertStatus (event : Event) (platform : Platform) (call : ℕ) (status : Status) :
    Event :=
  match status.asserted with
  | some before => if platform.assertions then event.write call before else event
  | none => event

/-- An update for a command of the given queue, made by the given call. -/
def Event.update (platform : Platform) (queue call moment : ℕ) (event : Event) :
    Update → Event
  | .stage status =>
      let event := (event.assertStatus platform call status).write call status
      if (platform.queues queue).profiling then
        event.setTime ((platform.queues queue).device.timer moment) status
      else event
  | .run status =>
      let event := event.write call status
      if (platform.queues event.queue).profiling then
        event.setTime ((platform.queues queue).device.timer moment) status
      else event
  | .profiledRun status =>
      if (platform.queues event.queue).profiling then
        (event.write call status).setTime
          ((platform.queues queue).device.timer moment) status
      else event

inductive CommandType
  | readBuffer
  | writeBuffer
  | copyBuffer
  | mapBuffer
  | ndRangeKernel
  | marker
  deriving DecidableEq

/-- A command in a queue, with the call that has appended it. -/
structure Node where
  type : CommandType
  call : ℕ
  event : Option ℕ
  deriving DecidableEq

structure State where
  events : List Event
  /-- The commands of the queues. -/
  nodes : ℕ → List Node
  /-- The number of updates so far. -/
  moment : ℕ
  /-- The number of calls so far. -/
  calls : ℕ

def State.update (platform : Platform) (queue call : ℕ) (event : Option ℕ) (state : State)
    (update : Update) : State :=
  match event with
  | none => state
  | some e =>
      { state with
        events := state.events.modify e
          (fun event => event.update platform queue call state.moment update)
        moment := state.moment + 1 }

def State.updates (platform : Platform) (queue call : ℕ) (event : Option ℕ) (state : State)
    (updates : List Update) : State :=
  updates.foldl (State.update platform queue call event) state

/-- The updates around an operation of the device. -/
def stages : List Update :=
  [.stage .submitted, .stage .running, .stage .complete]

/-- `device->run` -/
def Device.run (device : Device) : List Update :=
  match device.driver with
  | .pthread => [.run .running, .run .complete]
  | .ttasim => [.profiledRun .running, .profiledRun .complete]
  | _ => []

def Node.updates (platform : Platform) (queue : ℕ) (node : Node) : List Update :=
  match node.type with
  | .readBuffer | .writeBuffer | .copyBuffer | .mapBuffer => stages
  | .ndRangeKernel =>
      [.stage .submitted, .stage .running] ++ (platform.queues queue).device.run ++
        [.stage .complete]
  | .marker => [.stage .complete]

def State.execute (platform : Platform) (queue : ℕ) (state : State) (node : Node) : State :=
  state.updates platform queue node.call node.event (node.updates platform queue)

def clFinish (platform : Platform) (queue : ℕ) (state : State) : State :=
  let state := (state.nodes queue).foldl (State.execute platform queue) state
  { state with nodes := Function.update state.nodes queue [] }

def State.append (state : State) (queue : ℕ) (node : Node) : State :=
  { state with
    nodes := Function.update state.nodes queue (state.nodes queue ++ [node]) }

/-- The parameter `event` of a call with what it points to before, and whether an event
can be allocated. -/
structure EventRequest where
  event : Option (Option ℕ)
  allocated : Bool
  deriving DecidableEq

/-- The event of a call, or none if it cannot be allocated. -/
def State.createEvent (platform : Platform) (queue : ℕ) (request : EventRequest)
    (state : State) : Option (State × Option ℕ) :=
  match request.event with
  | none => some (state, none)
  | some _ =>
      if request.allocated then
        let event : Event := ⟨queue, state.calls, [], none, none, none, none⟩
        let e := state.events.length
        let created := { state with events := state.events ++ [event] }
        some (created.updates platform queue state.calls (some e) [.stage .queued], some e)
      else none

/-- What the functions that create an event have in common. -/
def enqueueWith (platform : Platform) (queue : ℕ) (request : EventRequest)
    (body : State → Option ℕ → State) (state : State) : State :=
  match state.createEvent platform queue request with
  | none => state
  | some (created, event) => body created event

/-- A command that is executed at once. -/
def State.direct (platform : Platform) (queue : ℕ) (state : State) (event : Option ℕ) :
    State :=
  state.updates platform queue state.calls event stages

/-- A command that is appended to the queue, if it can be allocated. -/
def State.enqueue (queue : ℕ) (type : CommandType) (nodeAllocated : Bool) (state : State)
    (event : Option ℕ) : State :=
  if nodeAllocated then state.append queue ⟨type, state.calls, event⟩ else state

/-- The commands with the outcome of their steps. -/
inductive Command
  | readBuffer (blocking nodeAllocated : Bool)
  | writeBuffer (blocking nodeAllocated : Bool)
  | copyBuffer (nodeAllocated : Bool)
  | readBufferRect
  | writeBufferRect
  | copyBufferRect
  | fillBuffer
  | mapBuffer (blocking mappingAllocated mapped nodeAllocated : Bool)
  | unmapMemObject
  | readImage (blocking : Bool)
  | writeImage
  | copyBufferToImage
  | ndRangeKernel
  | marker (nodeAllocated : Bool)
  deriving DecidableEq

structure Call where
  queue : ℕ
  request : EventRequest
  command : Command
  deriving DecidableEq

section Functions

variable (platform : Platform) (queue : ℕ) (request : EventRequest) (state : State)

/-- A transfer waits for the commands in the queue if it is blocking. -/
def enqueueTransfer (type : CommandType) (blocking nodeAllocated : Bool) : State :=
  enqueueWith platform queue request
    (fun state event =>
      if blocking then (clFinish platform queue state).direct platform queue event
      else state.enqueue queue type nodeAllocated event)
    state

def clEnqueueReadBuffer (blocking nodeAllocated : Bool) : State :=
  enqueueTransfer platform queue request state .readBuffer blocking nodeAllocated

def clEnqueueWriteBuffer (blocking nodeAllocated : Bool) : State :=
  enqueueTransfer platform queue request state .writeBuffer blocking nodeAllocated

def clEnqueueCopyBuffer (nodeAllocated : Bool) : State :=
  enqueueWith platform queue request
    (fun state event => state.enqueue queue .copyBuffer nodeAllocated event) state

/-- The commands that always wait for the commands in the queue. -/
def enqueueBlocking : State :=
  enqueueWith platform queue request
    (fun state event => (clFinish platform queue state).direct platform queue event) state

def clEnqueueReadBufferRect : State := enqueueBlocking platform queue request state

def clEnqueueCopyBufferRect : State := enqueueBlocking platform queue request state

def clEnqueueFillBuffer : State := enqueueBlocking platform queue request state

/-- No event is created. -/
def clEnqueueWriteBufferRect : State :=
  (clFinish platform queue state).direct platform queue request.event.join

/-- The second call of `map_mem` does not decide the result. -/
def clEnqueueMapBuffer (blocking mappingAllocated mapped nodeAllocated : Bool) : State :=
  enqueueWith platform queue request
    (fun state event =>
      if mappingAllocated = false then state
      else if mapped = false then
        state.updates platform queue state.calls event [.stage .complete]
      else if blocking = false then state.enqueue queue .mapBuffer nodeAllocated event
      else (clFinish platform queue state).direct platform queue event)
    state

/-- The commands that do not wait for the commands in the queue. -/
def enqueueImmediate : State :=
  enqueueWith platform queue request
    (fun state event => state.direct platform queue event) state

def clEnqueueUnmapMemObject : State := enqueueImmediate platform queue request state

def clEnqueueWriteImage : State := enqueueImmediate platform queue request state

/-- Two of the updates are only there with the HSA runtime.  A read that does not block
ends here only if its command cannot be allocated. -/
def clEnqueueReadImage (blocking : Bool) : State :=
  enqueueWith platform queue request
    (fun state event =>
      if blocking then
        if platform.hsaRuntime then state.direct platform queue event
        else state.updates platform queue state.calls event [.stage .complete]
      else state)
    state

/-- No event is created. -/
def clEnqueueCopyBufferToImage : State :=
  state.updates platform queue state.calls request.event.join [.stage .complete]

def clEnqueueNDRangeKernel : State :=
  enqueueWith platform queue request
    (fun state event => state.enqueue queue .ndRangeKernel true event) state

/-- A marker without `event` is rejected. -/
def clEnqueueMarker (nodeAllocated : Bool) : State :=
  if request.event = none then state
  else
    enqueueWith platform queue request
      (fun state event => state.enqueue queue .marker nodeAllocated event) state

end Functions

def Call.perform (platform : Platform) (call : Call) (state : State) : State :=
  match call.command with
  | .readBuffer blocking nodeAllocated =>
      clEnqueueReadBuffer platform call.queue call.request state blocking nodeAllocated
  | .writeBuffer blocking nodeAllocated =>
      clEnqueueWriteBuffer platform call.queue call.request state blocking nodeAllocated
  | .copyBuffer nodeAllocated =>
      clEnqueueCopyBuffer platform call.queue call.request state nodeAllocated
  | .readBufferRect => clEnqueueReadBufferRect platform call.queue call.request state
  | .writeBufferRect => clEnqueueWriteBufferRect platform call.queue call.request state
  | .copyBufferRect => clEnqueueCopyBufferRect platform call.queue call.request state
  | .fillBuffer => clEnqueueFillBuffer platform call.queue call.request state
  | .mapBuffer blocking mappingAllocated mapped nodeAllocated =>
      clEnqueueMapBuffer platform call.queue call.request state
        blocking mappingAllocated mapped nodeAllocated
  | .unmapMemObject => clEnqueueUnmapMemObject platform call.queue call.request state
  | .readImage blocking =>
      clEnqueueReadImage platform call.queue call.request state blocking
  | .writeImage => clEnqueueWriteImage platform call.queue call.request state
  | .copyBufferToImage => clEnqueueCopyBufferToImage platform call.queue call.request state
  | .ndRangeKernel => clEnqueueNDRangeKernel platform call.queue call.request state
  | .marker nodeAllocated =>
      clEnqueueMarker platform call.queue call.request state nodeAllocated

inductive Step
  | enqueue (call : Call)
  | finish (queue : ℕ)

def Step.perform (platform : Platform) (state : State) : Step → State
  | .enqueue call => { call.perform platform state with calls := state.calls + 1 }
  | .finish queue => clFinish platform queue state

def State.initial : State where
  events := []
  nodes _ := []
  moment := 0
  calls := 0

def run (platform : Platform) (steps : List Step) : State :=
  steps.foldl (Step.perform platform) State.initial

end Pocl.EventUpdates
