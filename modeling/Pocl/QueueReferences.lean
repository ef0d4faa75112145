import Pocl.CommandQueueEffects
import Pocl.OptionPrograms
import Mathlib.Data.Finset.Card
import Mathlib.Data.Finset.Range

/-!
# The references on the queue and on the kernels

An event holds a reference on the queue, and so does a kernel launch, which also
holds one on its kernel.  `clFinish` does not give back the reference of a launch
on the queue, so that the counts balance only in runs that never flush the queue
while a launch is in it.
-/

namespace Pocl

namespace CommandQueue

open State

def State.liveEvents (state : State) : Finset EventId :=
  (Finset.range state.nextEvent).filter fun event => (state.event event).isSome

/-- The queue has the references of the client, of the events and of the launches,
and each kernel has those of the client and of its launches. -/
structure ReferencesBalanced (user : Ledger) (state : State) : Prop where
  queue : CountIs state.queue
    (user.queue + state.liveEvents.card + launches state.root)
  kernel : ∀ kernel, CountIs ((state.kernel kernel).map KernelObject.refcount)
    (user.kernel kernel + launchesOf kernel state.root)

/-- The calls that flush the queue. -/
def State.flushes (env : Env) (state : State) : Call → Prop
  | .readBuffer args | .writeBuffer args =>
      args.blocking = true ∧ ∃ buffer, state.mem args.buffer = some buffer ∧
        transferError args buffer = none
  | .mapBuffer args =>
      args.blocking = true ∧ (args.event && !args.alloc.event) = false ∧
        args.alloc.mapping = true ∧
        ∃ buffer, state.mem args.buffer = some buffer ∧
          buffer.sameContext = true ∧ ¬buffer.size < args.offset + args.size ∧
          mapForbidden buffer.flags args = false ∧ mapHostPtr buffer args ≠ 0
  | .flushedTransfer args =>
      args.accepted = true ∧ (args.event && !args.alloc.event) = false
  | .writeBufferRect args _ => args.accepted = true
  | .releaseEvent event =>
      env.hsaGpu = false ∧ ∃ object, state.event event = some object ∧
        object.refcount - 1 = 0
  | .releaseQueue | .finish => True
  | _ => False

/-- No launch is flushed, the last reference on an event is not given back on an
HSA device, and no read of an image makes an event. -/
def KeepsReferences (env : Env) (session : Session) (call : Call) : Prop :=
  Owned session call ∧
    (session.state.flushes env call → launches session.state.root = 0) ∧
    match call with
    | .releaseEvent event =>
        env.hsaGpu = true → ∀ object, session.state.event event = some object →
          object.refcount - 1 ≠ 0
    | .readImage args => args.event = true → args.alloc.event = false
    | _ => True

/-- Nothing that holds a reference on the queue or on a kernel has come or gone. -/
structure SameHolders (before after : State) : Prop where
  root_eq : after.root = before.root
  queue_eq : after.queue = before.queue
  nextEvent_eq : after.nextEvent = before.nextEvent
  event_eq : ∀ event, (after.event event).isSome = (before.event event).isSome
  kernel_eq : ∀ kernel, (after.kernel kernel).map KernelObject.refcount =
    (before.kernel kernel).map KernelObject.refcount

/-- The invariant of the runs. -/
structure ReferenceInvariant (user : Ledger) (state : State) : Prop where
  balanced : ReferencesBalanced user state
  event_lt : ∀ event, (state.event event).isSome = true → event < state.nextEvent
  queue_nonneg : 0 ≤ user.queue
  kernel_nonneg : ∀ kernel, 0 ≤ user.kernel kernel

variable {env : Env} {state : State} {user : Ledger}

section Frames

theorem mem_liveEvents {event : EventId} :
    event ∈ state.liveEvents ↔
      event < state.nextEvent ∧ (state.event event).isSome = true := by
  unfold State.liveEvents
  rw [Finset.mem_filter, Finset.mem_range]

theorem MemOnly.sameHolders {before after : State} (hmem : MemOnly before after) :
    SameHolders before after := by
  rw [hmem]
  exact ⟨rfl, rfl, rfl, fun _ => rfl, fun _ => rfl⟩

theorem StatusOnly.sameHolders
    {before after : State} (hstatus : StatusOnly before after) :
    SameHolders before after := by
  have hsome : ∀ event, (after.event event).isSome = (before.event event).isSome := by
    intro event
    have hrefcount := congrArg Option.isSome (hstatus.refcount_eq event)
    simpa using hrefcount
  have hframe := hstatus.frame
  generalize after.event = events at hframe hsome
  subst after
  exact ⟨rfl, rfl, rfl, hsome, fun _ => rfl⟩

theorem SameHolders.trans
    {first second third : State} (hfirst : SameHolders first second)
    (hsecond : SameHolders second third) : SameHolders first third where
  root_eq := hsecond.root_eq.trans hfirst.root_eq
  queue_eq := hsecond.queue_eq.trans hfirst.queue_eq
  nextEvent_eq := hsecond.nextEvent_eq.trans hfirst.nextEvent_eq
  event_eq := fun event => (hsecond.event_eq event).trans (hfirst.event_eq event)
  kernel_eq := fun kernel => (hsecond.kernel_eq kernel).trans (hfirst.kernel_eq kernel)

theorem SameHolders.liveEvents
    {after : State} (hsame : SameHolders state after) :
    after.liveEvents = state.liveEvents := by
  unfold State.liveEvents
  rw [hsame.nextEvent_eq]
  exact Finset.filter_congr fun event _ => by rw [hsame.event_eq]

theorem ReferencesBalanced.congr
    {after : State} (hbalanced : ReferencesBalanced user state)
    (hsame : SameHolders state after) : ReferencesBalanced user after where
  queue := by
    rw [hsame.queue_eq, hsame.liveEvents, hsame.root_eq]
    exact hbalanced.queue
  kernel := fun kernel => by
    rw [hsame.kernel_eq, hsame.root_eq]
    exact hbalanced.kernel kernel

theorem ReferenceInvariant.congr
    {after : State} (hinv : ReferenceInvariant user state)
    (hsame : SameHolders state after) : ReferenceInvariant user after where
  balanced := hinv.balanced.congr hsame
  event_lt := fun event hevent => by
    rw [hsame.event_eq] at hevent
    rw [hsame.nextEvent_eq]
    exact hinv.event_lt event hevent
  queue_nonneg := hinv.queue_nonneg
  kernel_nonneg := hinv.kernel_nonneg

theorem ReferenceInvariant.keep
    {program : Option State} (hinv : ReferenceInvariant user state)
    (hsame : ∀ after, program = some after → SameHolders state after) :
    Meets True program (ReferenceInvariant user) :=
  .of_forall fun after hafter => hinv.congr (hsame after hafter)

theorem addMapping_sameHolders
    {buffer : MemId} {mapping : Mapping} {after : State}
    (hadd : state.addMapping buffer mapping = some after) :
    SameHolders state after := by
  obtain ⟨object, _, rfl⟩ := addMapping_eq_some.mp hadd
  exact ⟨rfl, rfl, rfl, fun _ => rfl, fun _ => rfl⟩

theorem removeMapping_sameHolders
    {mem : MemId} {mapping : Mapping} {after : State}
    (hremove : state.removeMapping mem mapping = some after) :
    SameHolders state after := by
  obtain ⟨object, _, rfl⟩ := removeMapping_eq_some.mp hremove
  exact ⟨rfl, rfl, rfl, fun _ => rfl, fun _ => rfl⟩

theorem mapMemCmd_sameHolders
    {call : ℕ} {buffer : MemId} {mapping : Mapping} {after : State}
    (hmap : state.mapMemCmd env call buffer mapping = some after) :
    SameHolders state after := by
  obtain ⟨object, _, rfl⟩ := mapMemCmd_eq_some.mp hmap
  exact ⟨rfl, rfl, rfl, fun _ => rfl, fun _ => rfl⟩

end Frames

section Finish

variable {before : State}

theorem SameHolders.refl (state : State) : SameHolders state state :=
  ⟨rfl, rfl, rfl, fun _ => rfl, fun _ => rfl⟩

theorem SameHolders.keep
    {program : Option State} (hsame : SameHolders before state)
    (hprogram : ∀ after, program = some after → SameHolders state after) :
    Meets True program (SameHolders before) :=
  .of_forall fun after hafter => hsame.trans (hprogram after hafter)

theorem SameHolders.invoke
    {call : ℕ} {op : DeviceOp} (hsame : SameHolders before state) :
    SameHolders before (state.invoke call op) :=
  hsame.trans ⟨rfl, rfl, rfl, fun _ => rfl, fun _ => rfl⟩

theorem SameHolders.invocation
    {call : ℕ} {event : Option EventId} {op : DeviceOp} {next : State → Option State}
    (hsame : SameHolders before state)
    (hnext : ∀ completed, SameHolders before completed →
      Meets True (next completed) (SameHolders before)) :
    Meets True
      (state.start event >>= fun started =>
        (started.invoke call op).setStatus event .complete >>= next)
      (SameHolders before) := by
  refine (hsame.keep fun _ h => (start_statusOnly h).sameHolders).seq
    fun started hstarted => ?_
  exact (hstarted.invoke.keep fun _ h =>
    (setStatus_statusOnly h).sameHolders).seq hnext

/-- The commands other than launches hold neither the queue nor a kernel. -/
theorem SameHolders.execute
    {node : Node} (hsame : SameHolders before state)
    (hlaunch : node.command.launched = none) :
    Meets True (execute env state node) (SameHolders before) := by
  unfold State.execute
  cases hcommand : node.command with
  | read hostPtr devicePtr cb buffer =>
      exact hsame.invocation fun _ hcompleted =>
        hcompleted.keep fun _ h => (releaseMem_memOnly h).sameHolders
  | write hostPtr devicePtr cb buffer =>
      exact hsame.invocation fun _ hcompleted =>
        hcompleted.keep fun _ h => (releaseMem_memOnly h).sameHolders
  | copy srcPtr dstPtr cb srcBuffer dstBuffer =>
      refine hsame.invocation fun _ hcompleted => ?_
      refine (hcompleted.keep fun _ h => (releaseMem_memOnly h).sameHolders).seq
        fun _ hreleased => ?_
      exact hreleased.keep fun _ h => (releaseMem_memOnly h).sameHolders
  | map buffer mapping =>
      refine (hsame.keep fun _ h => (start_statusOnly h).sameHolders).seq
        fun _ hstarted => ?_
      refine (hstarted.keep fun _ h => mapMemCmd_sameHolders h).seq
        fun _ hmapped => ?_
      exact hmapped.keep fun _ h => (setStatus_statusOnly h).sameHolders
  | run kernel arguments argBuffers =>
      rw [hcommand] at hlaunch
      cases hlaunch
  | marker => exact hsame.keep fun _ h => (setStatus_statusOnly h).sameHolders

theorem launches_eq_zero_iff {nodes : List Node} :
    launches nodes = 0 ↔ ∀ node ∈ nodes, node.command.launched = none := by
  simp [launches, List.countP_eq_zero]

theorem launchesOf_eq_zero
    {nodes : List Node} (hlaunches : launches nodes = 0) (kernel : KernelId) :
    launchesOf kernel nodes = 0 := by
  unfold launchesOf
  rw [List.countP_eq_zero]
  intro node hnode
  simp [launches_eq_zero_iff.mp hlaunches node hnode]

theorem SameHolders.withRoot
    {after : State} (hsame : SameHolders state after) (root : List Node) :
    SameHolders { state with root := root } { after with root := root } :=
  ⟨rfl, hsame.queue_eq, hsame.nextEvent_eq, hsame.event_eq, hsame.kernel_eq⟩

theorem finish_sameHolders (hlaunches : launches state.root = 0) :
    Meets True (state.finish env) (SameHolders { state with root := [] }) := by
  refine Meets.seq (.of_forall fun _ h => h) fun _ _ => ?_
  have hexecute : ∀ node nodes middle, (SameHolders state middle ∧
      ∀ other ∈ node :: nodes, other.command.launched = none) →
        Meets True (execute env middle node) fun after => SameHolders state after ∧
          ∀ other ∈ nodes, other.command.launched = none :=
    fun node nodes middle hmiddle =>
      (hmiddle.1.execute (hmiddle.2 node List.mem_cons_self)).mono fun _ hafter =>
        ⟨hafter, fun other hother => hmiddle.2 other (List.mem_cons_of_mem _ hother)⟩
  refine (Meets.foldlM (fun nodes middle => SameHolders state middle ∧
    ∀ other ∈ nodes, other.command.launched = none) hexecute
    ⟨.refl state, launches_eq_zero_iff.mp hlaunches⟩).seq fun flushed hflushed => ?_
  exact hflushed.1.withRoot []

theorem ReferencesBalanced.emptied
    (hbalanced : ReferencesBalanced user state)
    (hlaunches : launches state.root = 0) :
    ReferencesBalanced user { state with root := [] } where
  queue := by
    have hqueue := hbalanced.queue
    rw [hlaunches] at hqueue
    exact hqueue
  kernel := fun kernel => by
    have hkernel := hbalanced.kernel kernel
    rw [launchesOf_eq_zero hlaunches kernel] at hkernel
    exact hkernel

theorem ReferenceInvariant.finish
    (hinv : ReferenceInvariant user state) (hlaunches : launches state.root = 0) :
    Meets True (state.finish env) (ReferenceInvariant user) :=
  (finish_sameHolders hlaunches).mono fun _ hsame =>
    ReferenceInvariant.congr ⟨hinv.balanced.emptied hlaunches, hinv.event_lt,
      hinv.queue_nonneg, hinv.kernel_nonneg⟩ hsame

/-- The count behind a release. -/
def released (refcount : ℤ) : Option ℤ :=
  if refcount - 1 = 0 then none else some (refcount - 1)

theorem countIs_released
    {refcount references : ℤ} (hcount : CountIs (some refcount) references) :
    CountIs (released refcount) (references - 1) := by
  have hrefcount : refcount = references := hcount
  unfold released
  by_cases hlast : refcount - 1 = 0
  · rw [if_pos hlast]
    change references - 1 = 0
    omega
  · rw [if_neg hlast]
    change refcount - 1 = references - 1
    omega

/-- A release of the queue flushes it and takes one reference from it. -/
theorem ReferencesBalanced.releaseQueue
    (hbalanced : ReferencesBalanced user state)
    (hlaunches : launches state.root = 0) :
    Meets True (state.releaseQueue env) fun after =>
      ReferencesBalanced { user with queue := user.queue - 1 } after ∧
        after.root = [] ∧ after.nextEvent = state.nextEvent ∧
        ∀ event, (after.event event).isSome = (state.event event).isSome := by
  refine (finish_sameHolders hlaunches).seq fun flushed hflushed => ?_
  have hempty := (hbalanced.emptied hlaunches).congr hflushed
  refine Meets.seq (.of_forall fun _ h => h) fun refcount hrefcount => ?_
  have hcount : CountIs (released refcount)
      (user.queue - 1 + flushed.liveEvents.card + launches flushed.root) := by
    have hreleased := countIs_released (hrefcount ▸ hempty.queue)
    have hrefs : user.queue + (flushed.liveEvents.card : ℤ) +
        (launches flushed.root : ℤ) - 1 =
          user.queue - 1 + flushed.liveEvents.card + launches flushed.root := by omega
    rw [hrefs] at hreleased
    exact hreleased
  refine Meets.cond (fun hlast => ?_) fun hlast => ?_
  · rw [released, if_pos hlast] at hcount
    exact ⟨⟨hcount, hempty.kernel⟩, hflushed.root_eq, hflushed.nextEvent_eq,
      hflushed.event_eq⟩
  · rw [released, if_neg hlast] at hcount
    exact ⟨⟨hcount, hempty.kernel⟩, hflushed.root_eq, hflushed.nextEvent_eq,
      hflushed.event_eq⟩

end Finish

section Client

theorem ReferenceInvariant.releaseQueue
    (hinv : ReferenceInvariant user state) (hlaunches : launches state.root = 0)
    (howned : 0 < user.queue) :
    Meets True (state.releaseQueue env)
      (ReferenceInvariant { user with queue := user.queue - 1 }) := by
  refine (hinv.balanced.releaseQueue hlaunches).mono
    fun after ⟨hbalanced, _, hnext, hevents⟩ => ?_
  refine ⟨hbalanced, fun event hevent => ?_, Int.sub_nonneg_of_le howned,
    hinv.kernel_nonneg⟩
  rw [hnext]
  exact hinv.event_lt event (hevents event ▸ hevent)

theorem liveEvents_free
    {event : EventId} (hlive : (state.event event).isSome = true)
    (hlt : event < state.nextEvent) :
    ((state.setEvent event none).liveEvents.card : ℤ) = state.liveEvents.card - 1 := by
  have hmem : event ∈ state.liveEvents :=
    mem_liveEvents.mpr ⟨hlt, hlive⟩
  have herase : (state.setEvent event none).liveEvents = state.liveEvents.erase event := by
    ext other
    by_cases heq : other = event
    · subst other
      simp [mem_liveEvents, setEvent]
    · simp [mem_liveEvents, setEvent, heq]
  have hcard := Finset.card_erase_add_one hmem
  rw [herase]
  omega

/-- The last reference on an event goes, and with it one on the queue. -/
theorem ReferenceInvariant.releaseEvent
    {event : EventId} (hinv : ReferenceInvariant user state)
    (hlaunches : state.flushes env (.releaseEvent event) → launches state.root = 0)
    (hlast : env.hsaGpu = true → ∀ object, state.event event = some object →
      object.refcount - 1 ≠ 0) :
    Meets True (state.releaseEvent env event) (ReferenceInvariant user) := by
  refine Meets.seq (.of_forall fun _ h => h) fun object hobject => ?_
  have hsome : (state.event event).isSome = true := by rw [hobject]; rfl
  have hset : ∀ new : EventObject,
      SameHolders state (state.setEvent event (some new)) := fun new =>
    ⟨rfl, rfl, rfl, fun other => by
      by_cases heq : other = event
      · subst other
        simp [setEvent, hobject]
      · simp [setEvent, heq], fun _ => rfl⟩
  refine Meets.cond (fun hfree => ?_) fun _ => hinv.congr (hset _)
  refine Meets.seq (.of_forall fun _ h => h) fun _ _ => ?_
  refine Meets.cond (fun hgpu => ?_) fun hcpu => ?_
  · exact absurd hfree (hlast hgpu object hobject)
  have hnone := hlaunches ⟨Bool.eq_false_of_not_eq_true hcpu, object, hobject, hfree⟩
  have hinv' := hinv.congr (hset { object with refcount := 0 })
  refine (hinv'.balanced.releaseQueue hnone).seq fun released hreleased => ?_
  obtain ⟨hbalanced, hroot, hnext, hevents⟩ := hreleased
  have hlive : (released.event event).isSome = true := by
    rw [hevents, (hset _).event_eq, hobject]
    rfl
  have hlt : event < released.nextEvent := by
    rw [hnext]
    exact hinv.event_lt event (by rw [hobject]; rfl)
  refine ⟨⟨?_, hbalanced.kernel⟩, fun other hother => ?_, hinv.queue_nonneg,
    hinv.kernel_nonneg⟩
  · have hqueue := hbalanced.queue
    have hrefs : user.queue - 1 + (released.liveEvents.card : ℤ) =
        user.queue + (released.setEvent event none).liveEvents.card := by
      rw [liveEvents_free hlive hlt]
      omega
    change CountIs released.queue (user.queue - 1 + (released.liveEvents.card : ℤ) +
      launches released.root) at hqueue
    rw [hrefs] at hqueue
    exact hqueue
  · by_cases heq : other = event
    · subst other
      exact hlt
    · have hother' : (released.event other).isSome = true := by
        simpa [setEvent, heq] using hother
      change other < released.nextEvent
      rw [hnext]
      exact hinv'.event_lt other (hevents other ▸ hother')

/-- The state with a new event. -/
theorem liveEvents_new
    {new : EventObject} {queue : Option ℤ} :
    (({ state.setEvent state.nextEvent (some new) with
      nextEvent := state.nextEvent + 1
      queue := queue } : State).liveEvents.card : ℤ) = state.liveEvents.card + 1 := by
  have hinsert : ({ state.setEvent state.nextEvent (some new) with
      nextEvent := state.nextEvent + 1
      queue := queue } : State).liveEvents =
        insert state.nextEvent state.liveEvents := by
    ext other
    by_cases heq : other = state.nextEvent
    · subst other
      simp [mem_liveEvents, setEvent]
    · have hlt : other < state.nextEvent + 1 ↔ other < state.nextEvent :=
        ⟨fun h => lt_of_le_of_ne (Nat.lt_succ_iff.mp h) heq,
          fun h => h.trans (Nat.lt_succ_self _)⟩
      simp [mem_liveEvents, setEvent, heq, hlt]
  rw [hinsert, Finset.card_insert_of_notMem]
  · exact Nat.cast_succ _
  · intro hmem
    exact absurd (mem_liveEvents.mp hmem).1 (lt_irrefl _)

theorem ReferenceInvariant.requestEvent
    {requested : Bool} (hinv : ReferenceInvariant user state) :
    Meets True (state.requestEvent requested true)
      fun result => ReferenceInvariant user result.2 ∧ result.2.root = state.root ∧
        result.2.kernel = state.kernel := by
  refine .of_forall fun result hrequest => ?_
  cases eventRequest_of_requestEvent hrequest with
  | none => exact ⟨hinv, rfl, rfl⟩
  | new refcount hrequested hqueue =>
      refine ⟨⟨⟨?_, hinv.balanced.kernel⟩, fun event hevent => ?_, hinv.queue_nonneg,
        hinv.kernel_nonneg⟩, rfl, rfl⟩
      · have hcount := hinv.balanced.queue
        rw [hqueue rfl] at hcount
        change refcount + 1 = user.queue + _ + (launches state.root : ℤ)
        rw [liveEvents_new]
        change refcount = user.queue + _ + _ at hcount
        omega
      · by_cases heq : event = state.nextEvent
        · subst event
          exact Nat.lt_succ_self _
        · have hold : (state.event event).isSome = true := by
            simpa [setEvent, heq] using hevent
          exact (hinv.event_lt event hold).trans (Nat.lt_succ_self _)

theorem ReferenceInvariant.retainQueue (hinv : ReferenceInvariant user state) :
    Meets True state.retainQueue
      (ReferenceInvariant { user with queue := user.queue + 1 }) := by
  refine .of_forall fun after hretain => ?_
  obtain ⟨refcount, hqueue, rfl⟩ := retainQueue_eq_some.mp hretain
  refine ⟨⟨?_, hinv.balanced.kernel⟩, hinv.event_lt, ?_, hinv.kernel_nonneg⟩
  · have hcount := hinv.balanced.queue
    rw [hqueue] at hcount
    change refcount = user.queue + (state.liveEvents.card : ℤ) + _ at hcount
    change refcount + 1 = user.queue + 1 + (state.liveEvents.card : ℤ) +
      (launches state.root : ℤ)
    omega
  · exact hinv.queue_nonneg.trans (Int.le_add_of_nonneg_right zero_le_one)

/-- The kernel gains or loses references with the client. -/
theorem ReferenceInvariant.setKernel
    {kernel : KernelId} {new : Option KernelObject} {references : ℤ}
    (hinv : ReferenceInvariant user state) (hreferences : 0 ≤ references)
    (hnew : CountIs (new.map KernelObject.refcount)
      (references + launchesOf kernel state.root)) :
    ReferenceInvariant
      { user with kernel := Function.update user.kernel kernel references }
      (state.setKernel kernel new) := by
  refine ⟨⟨hinv.balanced.queue, fun other => ?_⟩, hinv.event_lt, hinv.queue_nonneg,
    fun other => ?_⟩
  · by_cases heq : other = kernel
    · subst other
      simpa [State.setKernel] using hnew
    · simpa [State.setKernel, heq] using hinv.balanced.kernel other
  · by_cases heq : other = kernel
    · subst other
      simpa using hreferences
    · simpa [heq] using hinv.kernel_nonneg other

theorem ReferenceInvariant.retainKernel
    {kernel : KernelId} (hinv : ReferenceInvariant user state) :
    Meets True (state.retainKernel kernel) (ReferenceInvariant
      { user with
        kernel := Function.update user.kernel kernel (user.kernel kernel + 1) }) := by
  refine .of_forall fun after hretain => ?_
  obtain ⟨object, hobject, rfl⟩ := retainKernel_eq_some.mp hretain
  refine hinv.setKernel ?_ ?_
  · exact (hinv.kernel_nonneg kernel).trans (Int.le_add_of_nonneg_right zero_le_one)
  · have hcount := hinv.balanced.kernel kernel
    rw [hobject] at hcount
    change object.refcount = user.kernel kernel + _ at hcount
    change object.refcount + 1 = user.kernel kernel + 1 + _
    omega

theorem ReferenceInvariant.releaseKernel
    {kernel : KernelId} (hinv : ReferenceInvariant user state)
    (howned : 0 < user.kernel kernel) :
    Meets True (state.releaseKernel kernel) (ReferenceInvariant
      { user with
        kernel := Function.update user.kernel kernel (user.kernel kernel - 1) }) := by
  refine .of_forall fun after hrelease => ?_
  obtain ⟨object, hobject, hcases⟩ := releaseKernel_eq_some.mp hrelease
  have hcount := hinv.balanced.kernel kernel
  rw [hobject] at hcount
  change object.refcount = user.kernel kernel + _ at hcount
  have hnonneg : 0 ≤ user.kernel kernel - 1 := Int.sub_nonneg_of_le howned
  rcases hcases with ⟨hlast, rfl⟩ | ⟨_, rfl⟩
  · refine hinv.setKernel hnonneg ?_
    change user.kernel kernel - 1 + _ = 0
    omega
  · refine hinv.setKernel hnonneg ?_
    change object.refcount - 1 = user.kernel kernel - 1 + _
    omega

end Client

section Enqueue

/-- The post-condition of the functions that enqueue a command. -/
def ReferenceResult (user : Ledger) (result : ClCode × State) : Prop :=
  ReferenceInvariant user result.2

theorem ReferenceInvariant.append
    {node : Node} (hinv : ReferenceInvariant user state)
    (hlaunch : node.command.launched = none) :
    ReferenceInvariant user (state.append node) := by
  have hlaunches : launches (state.append node).root = launches state.root := by
    simp [launches, State.append, hlaunch]
  have hlaunchesOf : ∀ kernel,
      launchesOf kernel (state.append node).root = launchesOf kernel state.root := by
    intro kernel
    simp [launchesOf, State.append, hlaunch]
  refine ⟨⟨?_, fun kernel => ?_⟩, hinv.event_lt, hinv.queue_nonneg, hinv.kernel_nonneg⟩
  · rw [hlaunches]
    exact hinv.balanced.queue
  · rw [hlaunchesOf]
    exact hinv.balanced.kernel kernel

/-- The references of a launch pass from the caller to the command. -/
theorem ReferenceInvariant.appendLaunch
    {call : ℕ} {event : Option EventId} {kernel : KernelId}
    {arguments : List KernelArg} {argBuffers : List (Option MemId)}
    (hinv : ReferenceInvariant
      { user with
        queue := user.queue + 1
        kernel := Function.update user.kernel kernel (user.kernel kernel + 1) } state)
    (hqueue : 0 ≤ user.queue) (hkernel : ∀ kernel, 0 ≤ user.kernel kernel) :
    ReferenceInvariant user
      (state.append ⟨call, event, .run kernel arguments argBuffers⟩) := by
  refine ⟨⟨?_, fun other => ?_⟩, hinv.event_lt, hqueue, hkernel⟩
  · have hcount := hinv.balanced.queue
    have hlaunches : launches (state.append
        ⟨call, event, .run kernel arguments argBuffers⟩).root =
          launches state.root + 1 := by
      simp [launches, State.append, Command.launched]
    rw [hlaunches]
    have hrefs : user.queue + 1 + (state.liveEvents.card : ℤ) + launches state.root =
        user.queue + state.liveEvents.card + (launches state.root + 1 : ℕ) := by
      push_cast
      omega
    exact hrefs ▸ hcount
  · have hcount := hinv.balanced.kernel other
    by_cases heq : other = kernel
    · subst other
      have hlaunches : launchesOf kernel (state.append
          ⟨call, event, .run kernel arguments argBuffers⟩).root =
            launchesOf kernel state.root + 1 := by
        simp [launchesOf, State.append, Command.launched]
      rw [hlaunches]
      have hrefs : user.kernel kernel + 1 + (launchesOf kernel state.root : ℤ) =
          user.kernel kernel + (launchesOf kernel state.root + 1 : ℕ) := by
        push_cast
        omega
      rw [← hrefs]
      simpa [State.append] using hcount
    · have hlaunches : launchesOf other (state.append
          ⟨call, event, .run kernel arguments argBuffers⟩).root =
            launchesOf other state.root := by
        simp [launchesOf, State.append, Command.launched, Ne.symm heq]
      rw [hlaunches]
      simpa [State.append, heq] using hcount

/-- The part of a transfer that is executed at once behind a flush. -/
theorem ReferenceInvariant.flushedRun
    {call : ℕ} {op : DeviceOp} {event : Option EventId} {code : ClCode}
    {buffers : List (Option MemId)} (hinv : ReferenceInvariant user state)
    (hlaunches : launches state.root = 0) :
    Meets True
      (state.finish env >>= fun flushed => flushed.start event >>= fun started =>
        (started.invoke call op).setStatus event .complete >>= fun completed =>
          completed.releaseBuffers buffers >>= fun released => pure (code, released))
      (ReferenceResult user) := by
  refine (hinv.finish hlaunches).seq fun _ hflushed => ?_
  refine (hflushed.keep fun _ h => (start_statusOnly h).sameHolders).seq
    fun _ hstarted => ?_
  refine (hstarted.keep fun _ h =>
    SameHolders.trans (SameHolders.invoke (.refl _))
      (setStatus_statusOnly h).sameHolders).seq fun _ hcompleted => ?_
  refine (hcompleted.keep fun _ h => (releaseBuffers_memOnly h).sameHolders).seq
    fun _ hreleased => ?_
  exact .ret hreleased

variable (hinv : ReferenceInvariant user state)

include hinv

theorem ReferenceInvariant.countCall : ReferenceInvariant user state.countCall :=
  hinv.congr ⟨rfl, rfl, rfl, fun _ => rfl, fun _ => rfl⟩

theorem ReferenceInvariant.invoke {call : ℕ} {op : DeviceOp} :
    ReferenceInvariant user (state.invoke call op) :=
  hinv.congr ⟨rfl, rfl, rfl, fun _ => rfl, fun _ => rfl⟩

theorem enqueueBufferTransfer_references
    {op : SizeT → SizeT → SizeT → DeviceOp}
    {command : SizeT → SizeT → SizeT → MemId → Command} {queuedIndex : ℕ}
    {args : BufferTransfer}
    (hcommand : ∀ hostPtr devicePtr cb buffer,
      (command hostPtr devicePtr cb buffer).launched = none)
    (hlaunches : (args.blocking = true ∧ ∃ buffer,
      state.mem args.buffer = some buffer ∧ transferError args buffer = none) →
        launches state.root = 0) :
    Meets True (state.enqueueBufferTransfer env op command queuedIndex args)
      (ReferenceResult user) := by
  refine Meets.seq (.of_forall fun _ h => h) fun _ _ => ?_
  refine Meets.seq (.of_forall fun _ h => h) fun buffer hbuffer => ?_
  cases herror : transferError args buffer with
  | some code => exact .ret hinv.countCall
  | none =>
      refine hinv.countCall.requestEvent.seq
        fun ⟨event, requested⟩ ⟨hrequested, hroot, _⟩ => ?_
      refine Meets.cond (fun hblocking => ?_) fun _ =>
        Meets.cond (fun _ => .ret hrequested) fun _ => ?_
      · refine Meets.seq (.of_forall fun _ h => (retainMem_memOnly h).sameHolders)
          fun held hheld => ?_
        have hnone : launches held.root = 0 := by
          rw [hheld.root_eq, hroot]
          exact hlaunches ⟨hblocking, buffer, hbuffer, herror⟩
        refine ((hrequested.congr hheld).finish hnone).seq fun flushed hflushed => ?_
        refine (hflushed.keep fun _ h => (start_statusOnly h).sameHolders).seq
          fun _ hstarted => ?_
        refine Meets.seq (.of_forall fun _ h => h) fun _ _ => ?_
        refine (hstarted.invoke.keep fun _ h =>
          (setStatus_statusOnly h).sameHolders).seq fun _ hcompleted => ?_
        refine (hcompleted.keep fun _ h => (releaseMem_memOnly h).sameHolders).seq
          fun _ hreleased => ?_
        exact .ret hreleased
      · refine (hrequested.keep fun _ h => (retainMem_memOnly h).sameHolders).seq
          fun _ hheld => ?_
        exact .ret (hheld.append (hcommand _ _ _ _))

theorem enqueueCopyBuffer_references {args : BufferCopy} :
    Meets True (state.enqueueCopyBuffer env args) (ReferenceResult user) := by
  refine Meets.seq (.of_forall fun _ h => h) fun _ _ => ?_
  refine Meets.seq (.of_forall fun _ h => h) fun _ _ => ?_
  refine Meets.seq (.of_forall fun _ h => h) fun _ _ => ?_
  refine Meets.cond (fun _ => .ret hinv.countCall) fun _ => ?_
  refine Meets.cond (fun _ => .ret hinv.countCall) fun _ => ?_
  refine Meets.cond (fun _ => .ret hinv.countCall) fun _ => ?_
  refine hinv.countCall.requestEvent.seq fun ⟨event, requested⟩ ⟨hrequested, _⟩ => ?_
  refine Meets.cond (fun _ => .ret hrequested) fun _ => ?_
  refine (hrequested.keep fun _ h => (retainMem_memOnly h).sameHolders).seq
    fun _ hsrc => ?_
  refine (hsrc.keep fun _ h => (retainMem_memOnly h).sameHolders).seq
    fun _ hdst => ?_
  exact .ret (hdst.append rfl)

theorem enqueueMarker_references {event : Bool} {alloc : Allocations} :
    Meets True (state.enqueueMarker event alloc) (ReferenceResult user) := by
  refine Meets.seq (.of_forall fun _ h => h) fun _ _ => ?_
  refine Meets.cond (fun _ => .ret hinv.countCall) fun _ => ?_
  refine Meets.cond (fun _ => .ret hinv.countCall) fun _ => ?_
  refine hinv.countCall.requestEvent.seq fun ⟨event, requested⟩ ⟨hrequested, _⟩ => ?_
  refine Meets.cond (fun _ => .ret hrequested) fun _ => ?_
  exact .ret (hrequested.append rfl)

theorem enqueueMapBuffer_references
    {args : BufferMap}
    (hlaunches : state.flushes env (.mapBuffer args) → launches state.root = 0) :
    Meets True (state.enqueueMapBuffer env args) (ReferenceResult user) := by
  refine Meets.seq (.of_forall fun _ h => h) fun _ _ => ?_
  refine Meets.seq (.of_forall fun _ h => h) fun buffer hbuffer => ?_
  refine Meets.cond (fun _ => .ret hinv.countCall) fun hcontext => ?_
  refine Meets.cond (fun _ => .ret hinv.countCall) fun hsize => ?_
  refine Meets.cond (fun _ => .ret hinv.countCall) fun hforbidden => ?_
  refine Meets.seq (.of_forall fun _ h => (retainMem_memOnly h).sameHolders)
    fun held hheld => ?_
  have hheldInv := hinv.countCall.congr hheld
  refine Meets.cond (fun _ => .ret hheldInv) fun halloc => ?_
  refine hheldInv.requestEvent.seq fun ⟨event, requested⟩ ⟨hrequested, hroot, _⟩ => ?_
  refine Meets.cond (fun _ => .ret hrequested) fun hmapping => ?_
  have hquery : SameHolders requested
      (requested.queryMap env args buffer state.calls) := by
    unfold queryMap
    split_ifs
    · exact .refl requested
    · exact SameHolders.invoke (.refl requested)
  refine Meets.cond (fun _ => ?_) fun hhost => ?_
  · refine ((hrequested.congr hquery).keep fun _ h =>
      (setStatus_statusOnly h).sameHolders).seq fun _ hcompleted => ?_
    exact .ret hcompleted
  refine Meets.seq (.of_forall fun _ h => addMapping_sameHolders h)
    fun added hadded => ?_
  have haddedInv := (hrequested.congr hquery).congr hadded
  refine Meets.cond (fun _ => Meets.cond (fun _ => ?_) fun _ => ?_) fun hblocking => ?_
  · exact .ret haddedInv
  · exact .ret ((haddedInv.append rfl).congr
      ⟨rfl, rfl, rfl, fun _ => rfl, fun _ => rfl⟩)
  · have hnone : launches added.root = 0 := by
      rw [hadded.root_eq, hquery.root_eq, hroot, hheld.root_eq]
      exact hlaunches ⟨by simpa using hblocking, by simpa using halloc,
        by simpa using hmapping, buffer, hbuffer, by simpa using hcontext, hsize,
        by simpa using hforbidden, hhost⟩
    refine (haddedInv.finish hnone).seq fun _ hflushed => ?_
    refine (hflushed.keep fun _ h => (start_statusOnly h).sameHolders).seq
      fun _ hstarted => ?_
    refine (hstarted.keep fun _ h => mapMemCmd_sameHolders h).seq fun _ hmapped => ?_
    refine (hmapped.keep fun _ h => (setStatus_statusOnly h).sameHolders).seq
      fun _ hcompleted => ?_
    exact .ret (hcompleted.congr ⟨rfl, rfl, rfl, fun _ => rfl, fun _ => rfl⟩)

theorem enqueueUnmapMemObject_references {args : Unmap} :
    Meets True (state.enqueueUnmapMemObject env args) (ReferenceResult user) := by
  refine Meets.seq (.of_forall fun _ h => h) fun _ _ => ?_
  refine Meets.seq (.of_forall fun _ h => h) fun object _ => ?_
  refine Meets.cond (fun _ => .ret hinv.countCall) fun _ => ?_
  cases object.mappings.find? (fun mapping => mapping.hostPtr = args.mappedPtr) with
  | none => exact .ret hinv.countCall
  | some mapping =>
      refine Meets.cond (fun _ => .ret hinv.countCall) fun _ => ?_
      refine hinv.countCall.requestEvent.seq
        fun ⟨event, requested⟩ ⟨hrequested, _⟩ => ?_
      refine (hrequested.keep fun _ h => (start_statusOnly h).sameHolders).seq
        fun started hstarted => ?_
      have hinvoked : ReferenceInvariant user
          (started.invokeUnmap env object mapping state.calls) := by
        unfold invokeUnmap
        split_ifs
        · exact hstarted
        · exact hstarted.invoke
      refine (hinvoked.keep fun _ h => (setStatus_statusOnly h).sameHolders).seq
        fun _ hcompleted => ?_
      refine (hcompleted.keep fun _ h => removeMapping_sameHolders h).seq
        fun _ hremoved => ?_
      refine (hremoved.keep fun _ h => (releaseMem_memOnly h).sameHolders).seq
        fun _ hreleased => ?_
      exact .ret hreleased

theorem enqueueNDRangeKernel_references {args : KernelLaunch} :
    Meets True (state.enqueueNDRangeKernel args) (ReferenceResult user) := by
  refine Meets.seq (.of_forall fun _ h => h) fun _ _ => ?_
  refine Meets.seq (.of_forall fun _ h => h) fun kernel _ => ?_
  refine Meets.cond (fun _ => .ret hinv.countCall) fun _ => ?_
  refine Meets.cond (fun _ => .ret hinv.countCall) fun _ => ?_
  refine hinv.countCall.requestEvent.seq fun ⟨event, requested⟩ ⟨hrequested, _⟩ => ?_
  refine hrequested.retainQueue.seq fun _ hqueue => ?_
  refine hqueue.retainKernel.seq fun _ hkernel => ?_
  refine (hkernel.keep fun _ h => (retainBuffers_memOnly h).sameHolders).seq
    fun _ hheld => ?_
  exact .ret (hheld.appendLaunch hinv.queue_nonneg hinv.kernel_nonneg)

theorem enqueueFlushedTransfer_references
    {args : FlushedTransfer}
    (hlaunches : state.flushes env (.flushedTransfer args) →
      launches state.root = 0) :
    Meets True (state.enqueueFlushedTransfer env args) (ReferenceResult user) := by
  refine Meets.seq (.of_forall fun _ h => h) fun _ _ => ?_
  refine Meets.cond (fun _ => .ret hinv.countCall) fun haccepted => ?_
  refine Meets.cond (fun _ => .ret hinv.countCall) fun halloc => ?_
  refine hinv.countCall.requestEvent.seq
    fun ⟨event, requested⟩ ⟨hrequested, hroot, _⟩ => ?_
  refine Meets.seq (.of_forall fun _ h => (retainBuffers_memOnly h).sameHolders)
    fun held hheld => ?_
  refine (hrequested.congr hheld).flushedRun ?_
  rw [hheld.root_eq, hroot]
  exact hlaunches ⟨by simpa using haccepted, by simpa using halloc⟩

theorem enqueueWriteBufferRect_references
    {args : FlushedTransfer} {event : Option EventId}
    (hlaunches : state.flushes env (.writeBufferRect args event) →
      launches state.root = 0) :
    Meets True (state.enqueueWriteBufferRect env args event)
      (ReferenceResult user) := by
  refine Meets.seq (.of_forall fun _ h => h) fun _ _ => ?_
  refine Meets.cond (fun _ => .ret hinv.countCall) fun haccepted => ?_
  refine Meets.seq (.of_forall fun _ h => (retainBuffers_memOnly h).sameHolders)
    fun held hheld => ?_
  refine (hinv.countCall.congr hheld).flushedRun ?_
  rw [hheld.root_eq]
  have hyes : args.accepted = true := by simpa using haccepted
  exact hlaunches hyes

/-- A read of an image that makes no event. -/
theorem enqueueReadImage_references
    {args : ImageTransfer} (hevent : args.event = true → args.alloc.event = false) :
    Meets True (state.enqueueReadImage env args) (ReferenceResult user) := by
  refine Meets.seq (.of_forall fun _ h => h) fun _ _ => ?_
  refine Meets.cond (fun _ => .ret hinv.countCall) fun halloc => ?_
  have hnone : args.event = false := by
    cases hrequested : args.event with
    | false => rfl
    | true => simp [hrequested, hevent hrequested] at halloc
  rw [hnone]
  refine Meets.seq (.of_forall fun _ h => h) fun ⟨event, requested⟩ hrequest => ?_
  cases hrequest
  refine Meets.seq (.of_forall fun _ h => h) fun image _ => ?_
  refine Meets.cond (fun _ => ?_) fun _ => Meets.cond (fun _ => ?_) fun _ => ?_
  · refine (hinv.countCall.keep fun _ h => (startHsa_statusOnly h).sameHolders).seq
      fun started hstarted => ?_
    have hinvoked : ReferenceInvariant user
        (started.invokeReadImage env args image state.calls) := by
      unfold invokeReadImage
      split_ifs
      · exact hstarted.invoke
      · exact hstarted.invoke
      · exact hstarted
    refine (hinvoked.keep fun _ h => (setStatus_statusOnly h).sameHolders).seq
      fun _ hcompleted => ?_
    exact hcompleted
  · exact .ret hinv.countCall
  · trivial

theorem enqueueWriteImage_references {args : ImageTransfer} :
    Meets True (state.enqueueWriteImage env args) (ReferenceResult user) := by
  refine Meets.seq (.of_forall fun _ h => h) fun _ _ => ?_
  refine Meets.cond (fun _ => .ret hinv.countCall) fun _ => ?_
  refine hinv.countCall.requestEvent.seq fun ⟨event, requested⟩ ⟨hrequested, _⟩ => ?_
  refine (hrequested.keep fun _ h => (start_statusOnly h).sameHolders).seq
    fun started hstarted => ?_
  refine Meets.seq (.of_forall fun _ h => h) fun image _ => ?_
  have hinvoked : ReferenceInvariant user
      (started.invokeWriteImage env args image state.calls) := by
    unfold invokeWriteImage
    split_ifs
    · exact hstarted.invoke
    · exact hstarted
  refine (hinvoked.keep fun _ h => (setStatus_statusOnly h).sameHolders).seq
    fun _ hcompleted => ?_
  exact .ret hcompleted

theorem setKernelArg_references
    {kernel : KernelId} {argIndex : ℕ} {argValue : Option (Option MemId)} :
    Meets True (state.setKernelArg env kernel argIndex argValue)
      (ReferenceResult user) := by
  refine Meets.seq (.of_forall fun _ h => h) fun object hobject => ?_
  refine Meets.cond (fun _ => .ret hinv) fun _ => .ret ?_
  refine hinv.congr ⟨rfl, rfl, rfl, fun _ => rfl, fun other => ?_⟩
  by_cases heq : other = kernel
  · subst other
    simp [State.setKernel, hobject]
  · simp [State.setKernel, heq]

theorem createSubBuffer_references {args : SubBuffer} :
    Meets True (state.createSubBuffer args) (ReferenceResult user) := by
  refine Meets.seq (.of_forall fun _ h => h) fun buffer _ => ?_
  refine Meets.cond (fun _ => .ret hinv) fun _ => ?_
  have hadded : ReferenceInvariant user (state.addMem (subBuffer args buffer)) :=
    hinv.congr ⟨rfl, rfl, rfl, fun _ => rfl, fun _ => rfl⟩
  refine (hadded.keep fun _ h => (retainMem_memOnly h).sameHolders).seq
    fun _ hheld => ?_
  exact .ret hheld

theorem retainEvent_references {event : EventId} :
    Meets True (state.retainEvent event) (ReferenceInvariant user) := by
  refine Meets.seq (.of_forall fun _ h => h) fun object hobject => ?_
  refine hinv.congr ⟨rfl, rfl, rfl, fun other => ?_, fun _ => rfl⟩
  by_cases heq : other = event
  · subst other
    simp [setEvent, hobject]
  · simp [setEvent, heq]

end Enqueue

section Runs

theorem ReferenceInvariant.ledger_congr
    {other : Ledger} (hinv : ReferenceInvariant user state)
    (hqueue : other.queue = user.queue) (hkernel : other.kernel = user.kernel) :
    ReferenceInvariant other state where
  balanced :=
    { queue := by
        rw [hqueue]
        exact hinv.balanced.queue
      kernel := by
        rw [hkernel]
        exact hinv.balanced.kernel }
  event_lt := hinv.event_lt
  queue_nonneg := hqueue ▸ hinv.queue_nonneg
  kernel_nonneg := hkernel ▸ hinv.kernel_nonneg

theorem perform_references
    {session : Session} {call : Call}
    (hinv : ReferenceInvariant session.user session.state)
    (hkeeps : KeepsReferences env session call) :
    Meets True (session.state.perform env call)
      (ReferenceResult (session.user.book call)) := by
  obtain ⟨howned, hlaunches, hcall⟩ := hkeeps
  have hsucceed : ∀ {program : Option State} {user : Ledger},
      Meets True program (ReferenceInvariant user) →
        Meets True (program.map succeed) (ReferenceResult user) := fun h =>
    .map (h.mono fun _ hafter => hafter)
  cases call with
  | readBuffer args =>
      exact enqueueBufferTransfer_references hinv (fun _ _ _ _ => rfl) hlaunches
  | writeBuffer args =>
      exact enqueueBufferTransfer_references hinv (fun _ _ _ _ => rfl) hlaunches
  | copyBuffer args => exact enqueueCopyBuffer_references hinv
  | marker event alloc => exact enqueueMarker_references hinv
  | mapBuffer args => exact enqueueMapBuffer_references hinv hlaunches
  | unmapMemObject args => exact enqueueUnmapMemObject_references hinv
  | ndRangeKernel args => exact enqueueNDRangeKernel_references hinv
  | flushedTransfer args => exact enqueueFlushedTransfer_references hinv hlaunches
  | writeBufferRect args event =>
      exact enqueueWriteBufferRect_references hinv hlaunches
  | readImage args => exact enqueueReadImage_references hinv hcall
  | writeImage args => exact enqueueWriteImage_references hinv
  | setKernelArg kernel argIndex argValue => exact setKernelArg_references hinv
  | createSubBuffer args => exact createSubBuffer_references hinv
  | retainMem mem =>
      exact hsucceed ((hinv.keep fun _ h => (retainMem_memOnly h).sameHolders).mono
        fun _ hafter => hafter.ledger_congr rfl rfl)
  | releaseMem mem =>
      exact hsucceed ((hinv.keep fun _ h => (releaseMem_memOnly h).sameHolders).mono
        fun _ hafter => hafter.ledger_congr rfl rfl)
  | retainEvent event =>
      exact hsucceed ((retainEvent_references hinv).mono
        fun _ hafter => hafter.ledger_congr rfl rfl)
  | releaseEvent event =>
      exact hsucceed ((hinv.releaseEvent hlaunches hcall).mono
        fun _ hafter => hafter.ledger_congr rfl rfl)
  | retainQueue => exact hsucceed hinv.retainQueue
  | releaseQueue => exact hsucceed (hinv.releaseQueue (hlaunches trivial) howned)
  | retainKernel kernel => exact hsucceed hinv.retainKernel
  | releaseKernel kernel => exact hsucceed (hinv.releaseKernel howned)
  | finish => exact hsucceed (hinv.finish (hlaunches trivial))

/-- In every run that flushes no launch, gives back no last reference on an event
of an HSA device and makes no event for a read of an image, the counts of the
queue and of the kernels are those of their holders. -/
theorem reaches_referencesBalanced
    {first session : Session}
    (hfirst : ReferenceInvariant first.user first.state)
    (hreaches : Reaches env (KeepsReferences env) first session) :
    ReferencesBalanced session.user session.state := by
  have hinv : ReferenceInvariant session.user session.state := by
    refine Reaches.invariant (fun session =>
      ReferenceInvariant session.user session.state) hfirst ?_ hreaches
    intro session next call code hsession hkeeps hstep
    obtain ⟨⟨code, after⟩, hperform, hnext⟩ := Option.bind_eq_some_iff.mp hstep
    cases hnext
    have hafter := Meets.iff_forall.mp (perform_references hsession hkeeps) _ hperform
    exact hafter.ledger_congr rfl rfl
  exact hinv.balanced

theorem opening_referenceInvariant (objects : List MemObject) :
    ReferenceInvariant (Session.opening objects [.plain]).user
      (Session.opening objects [.plain]).state where
  balanced :=
    { queue := rfl
      kernel := fun kernel => by
        cases kernel with
        | zero => rfl
        | succ kernel => rfl }
  event_lt := fun _ hevent => by cases hevent
  queue_nonneg := zero_le_one
  kernel_nonneg := fun kernel => by
    cases kernel with
    | zero => exact zero_le_one
    | succ kernel => exact le_refl 0

/-- A write with an event, which is released behind a flush, and a launch. -/
theorem writeThenLaunch_referencesBalanced :
    ∃ session, Reaches singleCpu (KeepsReferences singleCpu)
        (.opening [.plain] [.plain]) session ∧
      session.state.queue = some 2 ∧
      ReferencesBalanced session.user session.state := by
  obtain ⟨session, hreaches, htest⟩ := Reaches.exists_of_runIf singleCpu
    (KeepsReferences singleCpu)
    (fun session call =>
      match call with
      | .ndRangeKernel _ => true
      | .writeBuffer _ | .finish => launches session.state.root = 0
      | .releaseEvent event =>
          launches session.state.root = 0 ∧ 0 < session.user.event event
      | _ => false)
    (fun session call hpermitted => by
      cases call with
      | ndRangeKernel args => exact ⟨trivial, False.elim, trivial⟩
      | writeBuffer args => exact ⟨trivial, fun _ => of_decide_eq_true hpermitted, trivial⟩
      | finish => exact ⟨trivial, fun _ => of_decide_eq_true hpermitted, trivial⟩
      | releaseEvent event =>
          have hboth := of_decide_eq_true hpermitted
          exact ⟨hboth.2, fun _ => hboth.1, fun hgpu => by cases hgpu⟩
      | _ => cases hpermitted)
    (.opening [.plain] [.plain])
    [.writeBuffer { firstWord false with event := true }, .finish, .releaseEvent 0,
      .ndRangeKernel firstLaunch]
    (fun session => session.state.queue = some 2) (by decide +kernel)
  exact ⟨session, hreaches, of_decide_eq_true htest,
    reaches_referencesBalanced (opening_referenceInvariant _) hreaches⟩

/-- A flush keeps the reference of a launch on the queue. -/
theorem flushedLaunch_not_referencesBalanced :
    ∃ session, Reaches singleCpu Owned (.opening [.plain] [.plain]) session ∧
      ¬ReferencesBalanced session.user session.state := by
  obtain ⟨session, hreaches, htest⟩ := Reaches.exists_of_runIf singleCpu
    Owned (fun _ call =>
      match call with
      | .ndRangeKernel _ | .finish => true
      | _ => false)
    (fun session call hpermitted => by
      cases call with
      | ndRangeKernel args => trivial
      | finish => trivial
      | _ => cases hpermitted)
    (.opening [.plain] [.plain]) [.ndRangeKernel firstLaunch, .finish]
    (fun session => session.state.queue = some 2 ∧ session.user.queue = 1 ∧
      session.state.liveEvents.card = 0 ∧ launches session.state.root = 0)
    (by decide +kernel)
  obtain ⟨hqueue, huser, hevents, hlaunches⟩ := of_decide_eq_true htest
  refine ⟨session, hreaches, fun hbalanced => ?_⟩
  have hcount := hbalanced.queue
  rw [hqueue, huser, hevents, hlaunches] at hcount
  change (2 : ℤ) = 1 at hcount
  exact absurd hcount (by decide)

end Runs

end CommandQueue

end Pocl
