import Pocl.EnqueueCalls

/-!
# What the functions of the runtime change

The primitives change one kind of object each.  The proofs about the enqueue
functions use these facts and never look into a primitive again.
-/

namespace Pocl

namespace CommandQueue

/-- The kernel of a launch. -/
def Command.launched : Command → Option KernelId
  | .run kernel _ _ => some kernel
  | _ => none

/-- The number of launches, each of which holds the queue. -/
def launches (nodes : List Node) : ℕ :=
  nodes.countP fun node => node.command.launched.isSome

def launchesOf (kernel : KernelId) (nodes : List Node) : ℕ :=
  nodes.countP fun node => node.command.launched = some kernel

/-- The mappings of an object; a freed object has none. -/
def State.mappingsOf (state : State) (mem : MemId) : List Mapping :=
  match state.mem mem with
  | none => []
  | some object => object.mappings

/-- A count equals the given number of references; a freed object has none. -/
def CountIs (refcount : Option ℤ) (references : ℤ) : Prop :=
  match refcount with
  | none => references = 0
  | some refcount => refcount = references

/-- Only memory objects differ. -/
def MemOnly (before after : State) : Prop :=
  after = { before with mem := after.mem }

/-- Only events differ, in their status. -/
structure StatusOnly (before after : State) : Prop where
  frame : after = { before with event := after.event }
  refcount_eq : ∀ event,
    (after.event event).map EventObject.refcount =
      (before.event event).map EventObject.refcount

/-- Only kernels differ. -/
def KernelOnly (before after : State) : Prop :=
  after = { before with kernel := after.kernel }

theorem MemOnly.trans
    {first second third : State} (hfirst : MemOnly first second)
    (hsecond : MemOnly second third) : MemOnly first third := by
  unfold MemOnly at *
  rw [hsecond, hfirst]

theorem StatusOnly.refl (state : State) : StatusOnly state state :=
  ⟨rfl, fun _ => rfl⟩

theorem StatusOnly.trans
    {first second third : State} (hfirst : StatusOnly first second)
    (hsecond : StatusOnly second third) : StatusOnly first third where
  frame := by
    rw [hsecond.frame, hfirst.frame]
  refcount_eq := fun event =>
    (hsecond.refcount_eq event).trans (hfirst.refcount_eq event)

namespace State

variable {env : Env} {state after : State}

section Primitives

theorem retainMem_eq_some {mem : MemId} :
    state.retainMem mem = some after ↔
      ∃ object, state.mem mem = some object ∧
        state.setMem mem (some { object with refcount := object.refcount + 1 }) =
          after := by
  simp only [retainMem, Option.bind_eq_bind, Option.bind_eq_some_iff,
    Option.some.injEq]

theorem retainMem_memOnly {mem : MemId} (hretain : state.retainMem mem = some after) :
    MemOnly state after := by
  obtain ⟨object, _, rfl⟩ := retainMem_eq_some.mp hretain
  rfl

/-- A release keeps the object or frees it, and it may take a reference from the
parent. -/
theorem releaseMem_eq_some {mem : MemId} :
    state.releaseMem mem = some after ↔
      ∃ object, state.mem mem = some object ∧
        ((object.refcount - 1 = 0 ∧ object.parent = none ∧
            state.setMem mem none = after) ∨
          (∃ parent parentObject, object.refcount - 1 = 0 ∧
            object.parent = some parent ∧ state.mem parent = some parentObject ∧
            (state.setMem parent (some { parentObject with
              refcount := parentObject.refcount - 1 })).setMem mem none = after) ∨
          (object.refcount - 1 ≠ 0 ∧
            state.setMem mem (some { object with refcount := object.refcount - 1 }) =
              after)) := by
  simp only [releaseMem, Option.bind_eq_bind, Option.bind_eq_some_iff]
  constructor
  · rintro ⟨object, hobject, hrest⟩
    refine ⟨object, hobject, ?_⟩
    by_cases hlast : object.refcount - 1 = 0
    · rw [if_pos hlast] at hrest
      cases hparent : object.parent with
      | none =>
          rw [hparent] at hrest
          exact .inl ⟨hlast, rfl, Option.some.inj hrest⟩
      | some parent =>
          rw [hparent] at hrest
          obtain ⟨parentObject, hparentObject, hafter⟩ :=
            Option.bind_eq_some_iff.mp hrest
          exact .inr (.inl ⟨parent, parentObject, hlast, rfl, hparentObject,
            Option.some.inj hafter⟩)
    · rw [if_neg hlast] at hrest
      exact .inr (.inr ⟨hlast, Option.some.inj hrest⟩)
  · rintro ⟨object, hobject, ⟨hlast, hparent, rfl⟩ |
      ⟨parent, parentObject, hlast, hparent, hparentObject, rfl⟩ | ⟨hlast, rfl⟩⟩
    · exact ⟨object, hobject, by rw [if_pos hlast, hparent]⟩
    · refine ⟨object, hobject, ?_⟩
      rw [if_pos hlast, hparent]
      exact Option.bind_eq_some_iff.mpr ⟨parentObject, hparentObject, rfl⟩
    · exact ⟨object, hobject, by rw [if_neg hlast]⟩

theorem releaseMem_memOnly
    {mem : MemId} (hrelease : state.releaseMem mem = some after) :
    MemOnly state after := by
  obtain ⟨object, _, ⟨_, _, rfl⟩ | ⟨_, _, _, _, _, rfl⟩ | ⟨_, rfl⟩⟩ :=
    releaseMem_eq_some.mp hrelease
  · rfl
  · rfl
  · rfl

theorem retainBuffers_memOnly
    {buffers : List (Option MemId)}
    (hretain : state.retainBuffers buffers = some after) : MemOnly state after := by
  unfold retainBuffers at hretain
  induction buffers generalizing state with
  | nil =>
      cases hretain
      rfl
  | cons buffer buffers ih =>
      rw [List.foldlM_cons] at hretain
      obtain ⟨middle, hmiddle, hrest⟩ := Option.bind_eq_some_iff.mp hretain
      refine MemOnly.trans ?_ (ih hrest)
      cases buffer with
      | none =>
          cases hmiddle
          rfl
      | some buffer => exact retainMem_memOnly hmiddle

theorem releaseBuffers_memOnly
    {buffers : List (Option MemId)}
    (hrelease : state.releaseBuffers buffers = some after) : MemOnly state after := by
  unfold releaseBuffers at hrelease
  induction buffers generalizing state with
  | nil =>
      cases hrelease
      rfl
  | cons buffer buffers ih =>
      rw [List.foldlM_cons] at hrelease
      obtain ⟨middle, hmiddle, hrest⟩ := Option.bind_eq_some_iff.mp hrelease
      refine MemOnly.trans ?_ (ih hrest)
      cases buffer with
      | none =>
          cases hmiddle
          rfl
      | some buffer => exact releaseMem_memOnly hmiddle

theorem setStatus_statusOnly
    {event : Option EventId} {status : EventStatus}
    (hset : state.setStatus event status = some after) : StatusOnly state after := by
  cases event with
  | none =>
      cases hset
      exact .refl state
  | some event =>
      obtain ⟨object, hobject, hafter⟩ := Option.bind_eq_some_iff.mp hset
      cases hafter
      refine ⟨rfl, fun other => ?_⟩
      by_cases heq : other = event
      · subst other
        simp [setEvent, hobject]
      · simp [setEvent, heq]

theorem start_statusOnly
    {event : Option EventId} (hstart : state.start event = some after) :
    StatusOnly state after := by
  obtain ⟨middle, hmiddle, hafter⟩ := Option.bind_eq_some_iff.mp hstart
  exact (setStatus_statusOnly hmiddle).trans (setStatus_statusOnly hafter)

theorem startHsa_statusOnly
    {event : Option EventId}
    (hstart : state.startHsa env event = some after) : StatusOnly state after := by
  unfold startHsa at hstart
  by_cases hhsa : env.hsaRuntime
  · rw [if_pos hhsa] at hstart
    exact start_statusOnly hstart
  · rw [if_neg hhsa] at hstart
    cases hstart
    exact .refl state

theorem retainQueue_eq_some :
    state.retainQueue = some after ↔
      ∃ refcount, state.queue = some refcount ∧
        { state with queue := some (refcount + 1) } = after := by
  simp only [retainQueue, Option.bind_eq_bind, Option.bind_eq_some_iff,
    Option.some.injEq]

theorem retainKernel_eq_some {kernel : KernelId} :
    state.retainKernel kernel = some after ↔
      ∃ object, state.kernel kernel = some object ∧
        state.setKernel kernel
          (some { object with refcount := object.refcount + 1 }) = after := by
  simp only [retainKernel, Option.bind_eq_bind, Option.bind_eq_some_iff,
    Option.some.injEq]

theorem releaseKernel_eq_some {kernel : KernelId} :
    state.releaseKernel kernel = some after ↔
      ∃ object, state.kernel kernel = some object ∧
        ((object.refcount - 1 = 0 ∧ state.setKernel kernel none = after) ∨
          (object.refcount - 1 ≠ 0 ∧ state.setKernel kernel
            (some { object with refcount := object.refcount - 1 }) = after)) := by
  simp only [releaseKernel, Option.bind_eq_bind, Option.bind_eq_some_iff, ite_eq_iff,
    Option.some.injEq, ne_eq]

theorem retainKernel_kernelOnly
    {kernel : KernelId} (hretain : state.retainKernel kernel = some after) :
    KernelOnly state after := by
  obtain ⟨object, _, rfl⟩ := retainKernel_eq_some.mp hretain
  rfl

theorem releaseKernel_kernelOnly
    {kernel : KernelId} (hrelease : state.releaseKernel kernel = some after) :
    KernelOnly state after := by
  obtain ⟨object, _, ⟨_, rfl⟩ | ⟨_, rfl⟩⟩ := releaseKernel_eq_some.mp hrelease
  · rfl
  · rfl

theorem mapMemCmd_eq_some
    {call : ℕ} {buffer : MemId} {mapping : Mapping} :
    state.mapMemCmd env call buffer mapping = some after ↔
      ∃ object, state.mem buffer = some object ∧
        { (state.invoke call (.mapMem (object.devicePtrs env.devId) mapping.offset
            mapping.size mapping.hostPtr)).setMem buffer
              (some { object with mapCount := object.mapCount + 1 }) with
          mapLog := state.mapLog ++ [.executed buffer mapping.id] } = after := by
  simp only [mapMemCmd, invoke, setMem, Option.bind_eq_bind, Option.bind_eq_some_iff,
    Option.some.injEq]

theorem addMapping_eq_some {buffer : MemId} {mapping : Mapping} :
    state.addMapping buffer mapping = some after ↔
      ∃ object, state.mem buffer = some object ∧
        { state.setMem buffer
            (some { object with mappings := object.mappings ++ [mapping] }) with
          nextMapping := mapping.id + 1 } = after := by
  simp only [addMapping, Option.bind_eq_bind, Option.bind_eq_some_iff,
    Option.some.injEq]

theorem removeMapping_eq_some {mem : MemId} {mapping : Mapping} :
    state.removeMapping mem mapping = some after ↔
      ∃ object, state.mem mem = some object ∧
        { state.setMem mem
            (some { object with
              mappings := object.mappings.erase mapping
              mapCount := object.mapCount - 1 }) with
          mapLog := state.mapLog ++ [.unmapped mem mapping.id] } = after := by
  simp only [removeMapping, Option.bind_eq_bind, Option.bind_eq_some_iff,
    Option.some.injEq]

end Primitives

end State

open State

/-- The event of a call: none, or a new one. -/
inductive EventRequest (requested holdsQueue : Bool) (state : State) :
    Option EventId × State → Prop
  | none (hrequested : requested = false) :
      EventRequest requested holdsQueue state (none, state)
  | new (refcount : ℤ) (hrequested : requested = true)
      (hqueue : holdsQueue = true → state.queue = some refcount) :
      EventRequest requested holdsQueue state (some state.nextEvent,
        { state.setEvent state.nextEvent (some ⟨1, .queued⟩) with
          nextEvent := state.nextEvent + 1
          queue := if holdsQueue then some (refcount + 1) else state.queue })

theorem eventRequest_of_requestEvent
    {requested holdsQueue : Bool} {state : State} {result : Option EventId × State}
    (hrequest : state.requestEvent requested holdsQueue = some result) :
    EventRequest requested holdsQueue state result := by
  unfold requestEvent at hrequest
  cases requested with
  | false =>
      rw [if_neg Bool.false_ne_true] at hrequest
      cases hrequest
      exact .none rfl
  | true =>
      rw [if_pos rfl] at hrequest
      cases holdsQueue with
      | false =>
          simp only [createEvent, Bool.false_eq_true, if_false, Option.bind_eq_bind,
            Option.bind_some, Option.some.injEq] at hrequest
          subst hrequest
          exact .new 0 rfl (fun h => absurd h (by decide))
      | true =>
          simp only [createEvent, if_true, Option.bind_eq_bind,
            Option.bind_eq_some_iff, Option.some.injEq] at hrequest
          obtain ⟨middle, hmiddle, rfl⟩ := hrequest
          obtain ⟨refcount, hqueue, rfl⟩ := retainQueue_eq_some.mp hmiddle
          exact .new refcount rfl fun _ => hqueue

theorem requestEvent_mem
    {requested holdsQueue : Bool} {state after : State} {event : Option EventId}
    (hrequest : state.requestEvent requested holdsQueue = some (event, after)) :
    after.mem = state.mem := by
  cases eventRequest_of_requestEvent hrequest with
  | none => rfl
  | new => rfl

end CommandQueue

end Pocl
