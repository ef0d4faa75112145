import Pocl.EventLifeCycles

/-!
# Completed events

Which calls lead their event through all states.  In a run of such calls only, the events
of a queue have gone through all states after `clFinish`.  Markers, maps that fail and
blocking reads of images without the HSA runtime skip states, two functions update
whatever `*event` points to, and an event stays queued if its command cannot be
allocated.
-/

namespace Pocl.EventUpdates

variable {platform : Platform} {queue : ℕ} {request : EventRequest} {state : State}

/-- The condition on a command that has an event of its own. -/
def Command.Meets (platform : Platform) (queue : ℕ) : Command → Prop
  | .readBuffer blocking nodeAllocated => blocking = true ∨ nodeAllocated = true
  | .writeBuffer blocking nodeAllocated => blocking = true ∨ nodeAllocated = true
  | .copyBuffer nodeAllocated => nodeAllocated = true
  | .mapBuffer blocking mappingAllocated mapped nodeAllocated =>
      mappingAllocated = true ∧ mapped = true ∧ (blocking = false → nodeAllocated = true)
  | .readImage blocking => blocking = true ∧ platform.hsaRuntime = true
  | .ndRangeKernel => (platform.queues queue).UpdatesEvents → platform.assertions = false
  | .marker _ => False
  | .readBufferRect | .writeBufferRect | .copyBufferRect | .fillBuffer | .unmapMemObject
  | .writeImage | .copyBufferToImage => True

def Call.Meets (platform : Platform) (call : Call) : Prop :=
  match call.command with
  | .writeBufferRect | .copyBufferToImage => call.request.event.join = none
  | command =>
      call.request.event ≠ none → call.request.allocated = true →
        command.Meets platform call.queue

def Step.Meets (platform : Platform) : Step → Prop
  | .enqueue call => call.Meets platform
  | .finish _ => True

theorem Tracked.direct {own : Option ℕ} (htracked : Tracked platform own state)
    (hwaits : OwnWaits platform queue own state) :
    Tracked platform none (state.direct platform queue own) :=
  htracked.complete hwaits (stages_complete platform queue)

theorem Tracked.finishDirect {own : Option ℕ} (htracked : Tracked platform own state)
    (hwaits : OwnWaits platform queue own state) :
    Tracked platform none
      ((EventUpdates.clFinish platform queue state).direct platform queue own) :=
  (htracked.clFinish queue).direct (hwaits.clFinish htracked queue)

theorem ownWaits_none : OwnWaits platform queue none state :=
  fun _ he => nomatch he

theorem Tracked.enqueue_none (htracked : Tracked platform none state) (type : CommandType)
    (nodeAllocated : Bool) :
    Tracked platform none (state.enqueue queue type nodeAllocated none) := by
  unfold State.enqueue
  split
  · exact htracked.append ownWaits_none fun _ he => nomatch he
  · exact htracked

theorem Tracked.enqueue_some {e : ℕ} {type : CommandType} {nodeAllocated : Bool}
    (htracked : Tracked platform (some e) state)
    (hwaits : OwnWaits platform queue (some e) state) (hallocated : nodeAllocated = true)
    (hproper : Node.Proper platform queue ⟨type, state.calls, some e⟩) :
    Tracked platform none (state.enqueue queue type nodeAllocated (some e)) := by
  rw [State.enqueue, if_pos hallocated]
  exact htracked.append hwaits fun _ _ => hproper

section Functions

variable (htracked : Tracked platform none state)

include htracked

theorem tracked_enqueueTransfer {type : CommandType} {blocking nodeAllocated : Bool}
    (hproper : ∀ call event, Node.Proper platform queue ⟨type, call, event⟩)
    (hmeets : request.event ≠ none → request.allocated = true →
      blocking = true ∨ nodeAllocated = true) :
    Tracked platform none
      (enqueueTransfer platform queue request state type blocking nodeAllocated) := by
  refine htracked.enqueueWith (fun _ state htracked => ?_)
    fun hevent hallocated state e htracked hwaits => ?_
  · cases blocking with
    | true => exact htracked.finishDirect ownWaits_none
    | false => exact htracked.enqueue_none type nodeAllocated
  · cases blocking with
    | true => exact htracked.finishDirect hwaits
    | false =>
        obtain hblocking | hnode := hmeets hevent hallocated
        · cases hblocking
        · exact htracked.enqueue_some hwaits hnode (hproper _ _)

theorem tracked_clEnqueueCopyBuffer {nodeAllocated : Bool}
    (hmeets : request.event ≠ none → request.allocated = true → nodeAllocated = true) :
    Tracked platform none
      (clEnqueueCopyBuffer platform queue request state nodeAllocated) := by
  refine htracked.enqueueWith (fun _ state htracked => htracked.enqueue_none _ _)
    fun hevent hallocated state e htracked hwaits => ?_
  exact htracked.enqueue_some hwaits (hmeets hevent hallocated) trivial

theorem tracked_enqueueBlocking :
    Tracked platform none (enqueueBlocking platform queue request state) :=
  htracked.enqueueWith (fun _ _ htracked => htracked.finishDirect ownWaits_none)
    fun _ _ _ _ htracked hwaits => htracked.finishDirect hwaits

theorem tracked_enqueueImmediate :
    Tracked platform none (enqueueImmediate platform queue request state) :=
  htracked.enqueueWith (fun _ _ htracked => htracked.direct ownWaits_none)
    fun _ _ _ _ htracked hwaits => htracked.direct hwaits

theorem tracked_clEnqueueWriteBufferRect (hmeets : request.event.join = none) :
    Tracked platform none (clEnqueueWriteBufferRect platform queue request state) := by
  rw [clEnqueueWriteBufferRect, hmeets]
  exact htracked.finishDirect ownWaits_none

theorem tracked_clEnqueueCopyBufferToImage (hmeets : request.event.join = none) :
    Tracked platform none (clEnqueueCopyBufferToImage platform queue request state) := by
  rw [clEnqueueCopyBufferToImage, hmeets, State.updates_none]
  exact htracked

theorem tracked_clEnqueueReadImage {blocking : Bool}
    (hmeets : request.event ≠ none → request.allocated = true →
      blocking = true ∧ platform.hsaRuntime = true) :
    Tracked platform none
      (clEnqueueReadImage platform queue request state blocking) := by
  refine htracked.enqueueWith (fun _ state htracked => ?_)
    fun hevent hallocated state e htracked hwaits => ?_
  · cases blocking with
    | true =>
        cases platform.hsaRuntime with
        | true => exact htracked.direct ownWaits_none
        | false => exact htracked
    | false => exact htracked
  · obtain ⟨hblocking, hruntime⟩ := hmeets hevent hallocated
    rw [if_pos hblocking, if_pos hruntime]
    exact htracked.direct hwaits

theorem tracked_clEnqueueNDRangeKernel
    (hmeets : request.event ≠ none → request.allocated = true →
      (platform.queues queue).UpdatesEvents → platform.assertions = false) :
    Tracked platform none (clEnqueueNDRangeKernel platform queue request state) := by
  refine htracked.enqueueWith (fun _ state htracked => htracked.enqueue_none _ _)
    fun hevent hallocated state e htracked hwaits => ?_
  exact htracked.enqueue_some hwaits rfl (hmeets hevent hallocated)

theorem tracked_clEnqueueMarker {nodeAllocated : Bool}
    (hmeets : request.event ≠ none → request.allocated = true → False) :
    Tracked platform none (clEnqueueMarker platform queue request state nodeAllocated) := by
  unfold clEnqueueMarker
  split
  · exact htracked
  · exact htracked.enqueueWith (fun _ _ htracked => htracked.enqueue_none _ _)
      fun hevent hallocated => (hmeets hevent hallocated).elim

theorem tracked_clEnqueueMapBuffer {blocking mappingAllocated mapped nodeAllocated : Bool}
    (hmeets : request.event ≠ none → request.allocated = true →
      mappingAllocated = true ∧ mapped = true ∧
        (blocking = false → nodeAllocated = true)) :
    Tracked platform none
      (clEnqueueMapBuffer platform queue request state
        blocking mappingAllocated mapped nodeAllocated) := by
  refine htracked.enqueueWith (fun _ state htracked => ?_)
    fun hevent hallocated state e htracked hwaits => ?_
  · split
    · exact htracked
    · split
      · rwa [State.updates_none]
      · split
        · exact htracked.enqueue_none _ _
        · exact htracked.finishDirect ownWaits_none
  · obtain ⟨hmapping, hmapped, hnode⟩ := hmeets hevent hallocated
    rw [if_neg (by simp [hmapping]), if_neg (by simp [hmapped])]
    cases blocking with
    | false =>
        rw [if_pos rfl]
        exact htracked.enqueue_some hwaits (hnode rfl) trivial
    | true =>
        rw [if_neg (by simp)]
        exact htracked.finishDirect hwaits

end Functions

theorem Call.Meets.tracked {call : Call} (hmeets : call.Meets platform)
    (htracked : Tracked platform none state) :
    Tracked platform none (call.perform platform state) := by
  unfold Call.Meets at hmeets
  unfold Call.perform
  cases hcommand : call.command <;> rw [hcommand] at hmeets
  case readBuffer blocking nodeAllocated =>
    exact tracked_enqueueTransfer htracked (fun _ _ => trivial) hmeets
  case writeBuffer blocking nodeAllocated =>
    exact tracked_enqueueTransfer htracked (fun _ _ => trivial) hmeets
  case copyBuffer nodeAllocated => exact tracked_clEnqueueCopyBuffer htracked hmeets
  case readBufferRect => exact tracked_enqueueBlocking htracked
  case writeBufferRect => exact tracked_clEnqueueWriteBufferRect htracked hmeets
  case copyBufferRect => exact tracked_enqueueBlocking htracked
  case fillBuffer => exact tracked_enqueueBlocking htracked
  case mapBuffer => exact tracked_clEnqueueMapBuffer htracked hmeets
  case unmapMemObject => exact tracked_enqueueImmediate htracked
  case readImage => exact tracked_clEnqueueReadImage htracked hmeets
  case writeImage => exact tracked_enqueueImmediate htracked
  case copyBufferToImage => exact tracked_clEnqueueCopyBufferToImage htracked hmeets
  case ndRangeKernel => exact tracked_clEnqueueNDRangeKernel htracked hmeets
  case marker => exact tracked_clEnqueueMarker htracked hmeets

theorem Step.Meets.tracked {step : Step} (hmeets : step.Meets platform)
    (htracked : Tracked platform none state) :
    Tracked platform none (step.perform platform state) := by
  cases step with
  | enqueue call =>
      have hcall := Call.Meets.tracked hmeets htracked
      exact ⟨hcall.waits, hcall.distinct, hcall.tracked, hcall.separate⟩
  | finish queue => exact htracked.clFinish queue

theorem run_tracked (steps : List Step) (state : State)
    (hmeets : ∀ step ∈ steps, step.Meets platform)
    (htracked : Tracked platform none state) :
    Tracked platform none (steps.foldl (Step.perform platform) state) := by
  induction steps generalizing state with
  | nil => exact htracked
  | cons step steps ih =>
      exact ih _ (fun step hstep => hmeets step (List.mem_cons_of_mem _ hstep))
        (Step.Meets.tracked (hmeets step List.mem_cons_self) htracked)

/-- The states in which an event has been so far are the first ones, and it has only been
updated for the call that has created it. -/
def Event.InOrder (event : Event) : Prop :=
  (∀ write ∈ event.writes, write.call = event.creator) ∧
    (event.writes.map StatusWrite.status).destutter (· ≠ ·) <+:
      [.queued, .submitted, .running, .complete]

theorem Tracked.inOrder (htracked : Tracked platform none state) {event : Event}
    (hevent : event ∈ state.events) : event.InOrder := by
  obtain ⟨e, hget⟩ := List.mem_iff_getElem?.mp hevent
  obtain hcycle | hown | hmem := htracked.tracked e event hget
  · exact ⟨hcycle.own, hcycle.statuses ▸ List.prefix_rfl⟩
  · cases hown
  · obtain ⟨node, hnode, he⟩ := List.mem_filterMap.mp hmem
    obtain ⟨_, event', hget', hwaiting⟩ := htracked.waits _ node hnode e he
    rw [hget, Option.some.injEq] at hget'
    subst hget'
    rw [Event.InOrder, hwaiting.writes, hwaiting.creator]
    exact ⟨by simp, by simp⟩

/-- The events of a queue are complete after `clFinish`. -/
theorem Tracked.lifeCycle_of_clFinish (htracked : Tracked platform none state)
    {event : Event}
    (hevent : event ∈ (EventUpdates.clFinish platform event.queue state).events) :
    LifeCycle platform event := by
  obtain ⟨e, hget⟩ := List.mem_iff_getElem?.mp hevent
  obtain hcycle | hown | hmem := (htracked.clFinish event.queue).tracked e event hget
  · exact hcycle
  · cases hown
  · rw [clFinish_nodes, Function.update_self] at hmem
    exact absurd hmem List.not_mem_nil

/-- One queue of the basic device, without profiling. -/
def basicPlatform : Platform where
  assertions := false
  hsaRuntime := false
  queues _ :=
    { device := { driver := .basic, timer := id, timer_monotone := monotone_id }
      profiling := false }

def blockingRead : Call where
  queue := 0
  request := { event := some none, allocated := true }
  command := .readBuffer true true

/-- A write with the pointer to the event of an earlier call. -/
def rectWrite : Call where
  queue := 0
  request := { event := some (some 0), allocated := true }
  command := .writeBufferRect

end Pocl.EventUpdates
