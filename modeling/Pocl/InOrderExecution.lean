import Pocl.CommandQueueEffects
import Pocl.OptionPrograms

/-!
# The order of the calls of the driver

The calls of the driver and the commands that are still in the queue carry the
number of their enqueue call.  While every call that goes to the driver without a
flush finds the queue empty, these numbers never fall.
-/

namespace Pocl

namespace CommandQueue

open State

/-- The numbers of the calls of the driver, followed by those of the given
commands. -/
def State.tags (nodes : List Node) (state : State) : List ℕ :=
  state.ops.map Prod.fst ++ nodes.map Node.call

/-- The driver has been called in the order of the enqueue calls, and what is
still in the queue comes later. -/
def State.InvokesInOrder (state : State) : Prop :=
  (state.tags state.root).Pairwise (· ≤ ·)

/-- The calls that go to the driver and do not flush the queue before. -/
def State.invokesAtOnce (env : Env) (state : State) : Call → Prop
  | .mapBuffer args =>
      (args.event && !args.alloc.event) = false ∧ args.alloc.mapping = true ∧
        ∃ buffer, state.mem args.buffer = some buffer ∧
          buffer.sameContext = true ∧ ¬buffer.size < args.offset + args.size ∧
          mapForbidden buffer.flags args = false ∧ buffer.flags.useHostPtr = false
  | .unmapMemObject args =>
      (args.event && !args.alloc.event) = false ∧ env.hasUnmapMem = true ∧
        ∃ object, state.mem args.mem = some object ∧ object.sameContext = true ∧
          object.flags.useHostPtr = false ∧ object.flags.allocHostPtr = false ∧
          ∃ mapping ∈ object.mappings, mapping.hostPtr = args.mappedPtr
  | .readImage args =>
      (args.event && !args.alloc.event) = false ∧ args.blocking = true ∧
        (env.hsaGpu = true ∨ args.accepted = true)
  | .writeImage args =>
      (args.event && !args.alloc.event) = false ∧ args.accepted = true
  | _ => False

/-- A call that goes to the driver at once finds no command in the queue. -/
def InvokesInTurn (env : Env) (session : Session) (call : Call) : Prop :=
  session.state.invokesAtOnce env call → session.state.root = []

/-- The invariant, with the commands that are still to be executed. -/
structure Ordered (calls : ℕ) (nodes : List Node) (state : State) : Prop where
  calls_eq : state.calls = calls
  sorted : (state.tags nodes).Pairwise (· ≤ ·)
  lt_calls : ∀ tag ∈ state.tags nodes, tag < calls

/-- The invariant between two statements of a call. -/
def OrderedState (calls : ℕ) (state : State) : Prop :=
  Ordered calls state.root state

/-- Neither the list of commands nor the calls of the driver differ. -/
structure SameTrace (before after : State) : Prop where
  calls_eq : after.calls = before.calls
  ops_eq : after.ops = before.ops
  root_eq : after.root = before.root

/-- The driver has been called once, for the given enqueue call. -/
structure Invoked (call : ℕ) (before after : State) : Prop where
  calls_eq : after.calls = before.calls
  ops_eq : ∃ op, after.ops = before.ops ++ [(call, op)]
  root_eq : after.root = before.root

variable {env : Env} {state : State}

section Frames

theorem MemOnly.sameTrace {before after : State} (hmem : MemOnly before after) :
    SameTrace before after := by
  rw [hmem]
  exact ⟨rfl, rfl, rfl⟩

theorem StatusOnly.sameTrace
    {before after : State} (hstatus : StatusOnly before after) :
    SameTrace before after := by
  rw [hstatus.frame]
  exact ⟨rfl, rfl, rfl⟩

theorem KernelOnly.sameTrace
    {before after : State} (hkernel : KernelOnly before after) :
    SameTrace before after := by
  rw [hkernel]
  exact ⟨rfl, rfl, rfl⟩

theorem requestEvent_sameTrace
    {requested holdsQueue : Bool} {result : Option EventId × State}
    (hrequest : state.requestEvent requested holdsQueue = some result) :
    SameTrace state result.2 := by
  cases eventRequest_of_requestEvent hrequest with
  | none => exact ⟨rfl, rfl, rfl⟩
  | new => exact ⟨rfl, rfl, rfl⟩

theorem retainQueue_sameTrace
    {after : State} (hretain : state.retainQueue = some after) :
    SameTrace state after := by
  obtain ⟨refcount, _, rfl⟩ := retainQueue_eq_some.mp hretain
  exact ⟨rfl, rfl, rfl⟩

theorem retainEvent_sameTrace
    {event : EventId} {after : State}
    (hretain : state.retainEvent event = some after) : SameTrace state after := by
  obtain ⟨object, _, hafter⟩ := Option.bind_eq_some_iff.mp hretain
  cases hafter
  exact ⟨rfl, rfl, rfl⟩

theorem addMapping_sameTrace
    {buffer : MemId} {mapping : Mapping} {after : State}
    (hadd : state.addMapping buffer mapping = some after) :
    SameTrace state after := by
  obtain ⟨object, _, rfl⟩ := addMapping_eq_some.mp hadd
  exact ⟨rfl, rfl, rfl⟩

theorem removeMapping_sameTrace
    {mem : MemId} {mapping : Mapping} {after : State}
    (hremove : state.removeMapping mem mapping = some after) :
    SameTrace state after := by
  obtain ⟨object, _, rfl⟩ := removeMapping_eq_some.mp hremove
  exact ⟨rfl, rfl, rfl⟩

theorem SameTrace.invoke
    {before middle : State} {call : ℕ} {op : DeviceOp}
    (hsame : SameTrace before middle) :
    Invoked call before (middle.invoke call op) where
  calls_eq := hsame.calls_eq
  ops_eq := ⟨op, congrArg (· ++ [(call, op)]) hsame.ops_eq⟩
  root_eq := hsame.root_eq

theorem Invoked.trans
    {before middle after : State} {call : ℕ} (hinvoked : Invoked call before middle)
    (hsame : SameTrace middle after) : Invoked call before after where
  calls_eq := hsame.calls_eq.trans hinvoked.calls_eq
  ops_eq := by
    rw [hsame.ops_eq]
    exact hinvoked.ops_eq
  root_eq := hsame.root_eq.trans hinvoked.root_eq

theorem SameTrace.mapMemCmd
    {before after : State} {call : ℕ} {buffer : MemId} {mapping : Mapping}
    (hsame : SameTrace before state)
    (hmap : state.mapMemCmd env call buffer mapping = some after) :
    Invoked call before after := by
  obtain ⟨object, _, rfl⟩ := mapMemCmd_eq_some.mp hmap
  exact Invoked.trans hsame.invoke ⟨rfl, rfl, rfl⟩

theorem Invoked.keep
    {before : State} {call : ℕ} {program : Option State}
    (hinvoked : Invoked call before state)
    (hsame : ∀ after, program = some after → SameTrace state after) :
    Meets True program (Invoked call before) :=
  .of_forall fun after hafter => hinvoked.trans (hsame after hafter)

/-- A command that starts its event, calls the driver once and completes its
event. -/
theorem invocation_invoked
    {call : ℕ} {event : Option EventId} {op : DeviceOp} {next : State → Option State}
    (hnext : ∀ completed, Invoked call state completed →
      Meets True (next completed) (Invoked call state)) :
    Meets True
      (state.start event >>= fun started =>
        (started.invoke call op).setStatus event .complete >>= next)
      (Invoked call state) := by
  refine Meets.seq (.of_forall fun _ h => (start_statusOnly h).sameTrace)
    fun started hstarted => ?_
  exact (hstarted.invoke.keep fun _ h =>
    (setStatus_statusOnly h).sameTrace).seq hnext

/-- Each command of the queue but a marker calls the driver once. -/
theorem execute_invoked {node : Node} (hmarker : node.command ≠ .marker) :
    Meets True (execute env state node) (Invoked node.call state) := by
  unfold State.execute
  cases hcommand : node.command with
  | read hostPtr devicePtr cb buffer =>
      exact invocation_invoked fun _ hcompleted =>
        hcompleted.keep fun _ h => (releaseMem_memOnly h).sameTrace
  | write hostPtr devicePtr cb buffer =>
      exact invocation_invoked fun _ hcompleted =>
        hcompleted.keep fun _ h => (releaseMem_memOnly h).sameTrace
  | copy srcPtr dstPtr cb srcBuffer dstBuffer =>
      refine invocation_invoked fun _ hcompleted => ?_
      refine (hcompleted.keep fun _ h => (releaseMem_memOnly h).sameTrace).seq
        fun _ hreleased => ?_
      exact hreleased.keep fun _ h => (releaseMem_memOnly h).sameTrace
  | map buffer mapping =>
      refine Meets.seq (.of_forall fun _ h => (start_statusOnly h).sameTrace)
        fun _ hstarted => ?_
      refine Meets.seq (.of_forall fun _ h => hstarted.mapMemCmd h)
        fun _ hmapped => ?_
      exact hmapped.keep fun _ h => (setStatus_statusOnly h).sameTrace
  | run kernel arguments argBuffers =>
      refine Meets.seq (.of_forall fun _ h => (start_statusOnly h).sameTrace)
        fun _ hstarted => ?_
      refine Meets.seq (.of_forall fun _ h => h) fun _ _ => ?_
      refine Meets.cond (fun _ => trivial) fun _ => ?_
      refine (hstarted.invoke.keep fun _ h =>
        (setStatus_statusOnly h).sameTrace).seq fun _ hcompleted => ?_
      refine (hcompleted.keep fun _ h => (releaseBuffers_memOnly h).sameTrace).seq
        fun _ hreleased => ?_
      refine Meets.cond (fun _ => hreleased) fun _ => ?_
      exact hreleased.keep fun _ h => (releaseKernel_kernelOnly h).sameTrace
  | marker => exact absurd hcommand hmarker

theorem execute_sameTrace {node : Node} (hmarker : node.command = .marker) :
    Meets True (execute env state node) (SameTrace state) := by
  unfold State.execute
  rw [hmarker]
  exact .of_forall fun _ h => (setStatus_statusOnly h).sameTrace

theorem Ordered.congr
    {calls : ℕ} {nodes : List Node} {after : State}
    (hordered : Ordered calls nodes state) (hsame : SameTrace state after) :
    Ordered calls nodes after where
  calls_eq := hsame.calls_eq.trans hordered.calls_eq
  sorted := by
    unfold tags
    rw [hsame.ops_eq]
    exact hordered.sorted
  lt_calls := by
    unfold tags
    rw [hsame.ops_eq]
    exact hordered.lt_calls

theorem OrderedState.congr
    {calls : ℕ} {after : State} (hordered : OrderedState calls state)
    (hsame : SameTrace state after) : OrderedState calls after := by
  unfold OrderedState
  rw [hsame.root_eq]
  exact Ordered.congr hordered hsame

end Frames

section Steps

variable {calls : ℕ} {nodes : List Node}

theorem Ordered.countCall (hordered : Ordered calls nodes state) :
    Ordered (calls + 1) nodes state.countCall where
  calls_eq := congrArg (· + 1) hordered.calls_eq
  sorted := hordered.sorted
  lt_calls := fun tag htag => (hordered.lt_calls tag htag).trans (Nat.lt_succ_self _)

theorem Ordered.invoked
    {node : Node} {after : State} (hordered : Ordered calls (node :: nodes) state)
    (hinvoked : Invoked node.call state after) : Ordered calls nodes after := by
  obtain ⟨op, hops⟩ := hinvoked.ops_eq
  have htags : after.tags nodes = state.tags (node :: nodes) := by
    simp [tags, hops]
  exact ⟨hinvoked.calls_eq.trans hordered.calls_eq, htags ▸ hordered.sorted,
    htags ▸ hordered.lt_calls⟩

theorem Ordered.skipped
    {node : Node} {after : State} (hordered : Ordered calls (node :: nodes) state)
    (hsame : SameTrace state after) : Ordered calls nodes after := by
  have htags : (after.tags nodes).Sublist (state.tags (node :: nodes)) := by
    unfold tags
    rw [hsame.ops_eq, List.map_cons]
    exact (List.Sublist.refl _).append (List.sublist_cons_self _ _)
  exact ⟨hsame.calls_eq.trans hordered.calls_eq,
    hordered.sorted.sublist htags,
    fun tag htag => hordered.lt_calls tag (htags.subset htag)⟩

theorem Ordered.execute
    {node : Node} (hordered : Ordered calls (node :: nodes) state) :
    Meets True (execute env state node) (Ordered calls nodes) := by
  by_cases hmarker : node.command = .marker
  · exact (execute_sameTrace hmarker).mono fun _ hsame => hordered.skipped hsame
  · exact (execute_invoked hmarker).mono fun _ hinvoked => hordered.invoked hinvoked

/-- The number of the last enqueue call comes behind all others. -/
theorem OrderedState.extend
    {after : State} (hordered : OrderedState (calls + 1) state)
    (hcalls : after.calls = state.calls)
    (htags : after.tags after.root = state.tags state.root ++ [calls]) :
    OrderedState (calls + 1) after := by
  unfold OrderedState at *
  refine ⟨hcalls.trans hordered.calls_eq, ?_, ?_⟩
  · rw [htags, List.pairwise_append]
    refine ⟨hordered.sorted, List.pairwise_singleton _ _, fun tag htag last hlast => ?_⟩
    rw [List.mem_singleton.mp hlast]
    exact Nat.lt_succ_iff.mp (hordered.lt_calls tag htag)
  · intro tag htag
    rw [htags, List.mem_append, List.mem_singleton] at htag
    rcases htag with htag | rfl
    · exact hordered.lt_calls tag htag
    · exact Nat.lt_succ_self tag

theorem OrderedState.append
    {event : Option EventId} {command : Command}
    (hordered : OrderedState (calls + 1) state) :
    OrderedState (calls + 1) (state.append ⟨calls, event, command⟩) :=
  hordered.extend rfl (by simp [tags, State.append])

/-- The invariant, with nothing in the queue. -/
structure Flushed (calls : ℕ) (state : State) : Prop where
  ordered : OrderedState calls state
  root_eq : state.root = []

theorem Flushed.congr
    {after : State} (hflushed : Flushed calls state) (hsame : SameTrace state after) :
    Flushed calls after :=
  ⟨hflushed.ordered.congr hsame, hsame.root_eq.trans hflushed.root_eq⟩

theorem Flushed.invoke
    {op : DeviceOp} (hflushed : Flushed (calls + 1) state) :
    Flushed (calls + 1) (state.invoke calls op) :=
  ⟨hflushed.ordered.extend rfl (by simp [tags, State.invoke, hflushed.root_eq]),
    hflushed.root_eq⟩

end Steps

section Finish

variable {calls : ℕ} {nodes : List Node}

theorem OrderedState.keep
    {program : Option State} (hordered : OrderedState calls state)
    (hsame : ∀ after, program = some after → SameTrace state after) :
    Meets True program (OrderedState calls) :=
  .of_forall fun after hafter => hordered.congr (hsame after hafter)

theorem Flushed.keep
    {program : Option State} (hflushed : Flushed calls state)
    (hsame : ∀ after, program = some after → SameTrace state after) :
    Meets True program (Flushed calls) :=
  .of_forall fun after hafter => hflushed.congr (hsame after hafter)

theorem Flushed.mapMemCmd
    {buffer : MemId} {mapping : Mapping} (hflushed : Flushed (calls + 1) state) :
    Meets True (state.mapMemCmd env calls buffer mapping) (Flushed (calls + 1)) := by
  refine .of_forall fun after hmap => ?_
  obtain ⟨object, _, rfl⟩ := mapMemCmd_eq_some.mp hmap
  exact Flushed.congr hflushed.invoke ⟨rfl, rfl, rfl⟩

theorem OrderedState.finish (hordered : OrderedState calls state) :
    Meets True (state.finish env) (Flushed calls) := by
  refine Meets.seq (.of_forall fun _ h => h) fun _ _ => ?_
  refine (Meets.foldlM (Ordered calls) (fun _ _ _ hnext => hnext.execute)
    hordered).seq fun flushed hflushed => ?_
  exact ⟨⟨hflushed.calls_eq, hflushed.sorted, hflushed.lt_calls⟩, rfl⟩

theorem OrderedState.releaseQueue (hordered : OrderedState calls state) :
    Meets True (state.releaseQueue env) (OrderedState calls) := by
  refine hordered.finish.seq fun flushed hflushed => ?_
  refine Meets.seq (.of_forall fun _ h => h) fun _ _ => ?_
  refine Meets.cond (fun _ => ?_) fun _ => ?_
  · exact hflushed.ordered.congr ⟨rfl, rfl, rfl⟩
  · exact hflushed.ordered.congr ⟨rfl, rfl, rfl⟩

theorem OrderedState.releaseQueueIf
    {requested : Bool} (hordered : OrderedState calls state) :
    Meets True (state.releaseQueueIf env requested) (OrderedState calls) :=
  Meets.cond (fun _ => hordered.releaseQueue) fun _ => hordered

theorem OrderedState.releaseEvent
    {event : EventId} (hordered : OrderedState calls state) :
    Meets True (state.releaseEvent env event) (OrderedState calls) := by
  refine Meets.seq (.of_forall fun _ h => h) fun object _ => ?_
  refine Meets.cond (fun _ => ?_) fun _ => ?_
  · refine Meets.seq (.of_forall fun _ h => h) fun _ _ => ?_
    have hset : OrderedState calls
        (state.setEvent event (some { object with refcount := 0 })) :=
      hordered.congr ⟨rfl, rfl, rfl⟩
    refine Meets.cond (fun _ => ?_) fun _ => ?_
    · exact OrderedState.congr hset ⟨rfl, rfl, rfl⟩
    · refine hset.releaseQueue.seq fun _ hafter => ?_
      exact hafter.congr ⟨rfl, rfl, rfl⟩
  · exact hordered.congr ⟨rfl, rfl, rfl⟩

end Finish

section Enqueue

theorem OrderedState.requestEvent
    {calls : ℕ} {requested holdsQueue : Bool} (hordered : OrderedState calls state) :
    Meets True (state.requestEvent requested holdsQueue)
      fun result => OrderedState calls result.2 ∧ result.2.root = state.root :=
  .of_forall fun _ h => by
    have hsame := requestEvent_sameTrace h
    exact ⟨hordered.congr hsame, hsame.root_eq⟩

/-- The post-condition of every call. -/
def OrderedResult (result : ClCode × State) : Prop :=
  ∃ calls, OrderedState calls result.2

theorem OrderedState.enqueueMapping
    {calls : ℕ} {args : BufferMap} {event : Option EventId} {mapping : Mapping}
    (hordered : OrderedState (calls + 1) state) :
    Meets True (state.enqueueMapping env args calls event mapping) OrderedResult := by
  refine Meets.cond (fun _ => Meets.cond (fun _ => ?_) fun _ => ?_) fun _ => ?_
  · exact .ret ⟨_, hordered⟩
  · exact .ret ⟨_, hordered.append.congr ⟨rfl, rfl, rfl⟩⟩
  · refine hordered.finish.seq fun _ hflushed => ?_
    refine (hflushed.keep fun _ h => (start_statusOnly h).sameTrace).seq
      fun _ hstarted => ?_
    refine hstarted.mapMemCmd.seq fun _ hmapped => ?_
    refine (hmapped.keep fun _ h => (setStatus_statusOnly h).sameTrace).seq
      fun _ hcompleted => ?_
    exact .ret ⟨_, hcompleted.ordered.congr ⟨rfl, rfl, rfl⟩⟩

/-- The part of a transfer that is executed at once behind a flush. -/
theorem OrderedState.flushedRun
    {calls : ℕ} {op : DeviceOp} {event : Option EventId} {code : ClCode}
    {buffers : List (Option MemId)} (hordered : OrderedState (calls + 1) state) :
    Meets True
      (state.finish env >>= fun flushed => flushed.start event >>= fun started =>
        (started.invoke calls op).setStatus event .complete >>= fun completed =>
          completed.releaseBuffers buffers >>= fun released => pure (code, released))
      OrderedResult := by
  refine hordered.finish.seq fun _ hflushed => ?_
  refine (hflushed.keep fun _ h => (start_statusOnly h).sameTrace).seq
    fun _ hstarted => ?_
  refine (hstarted.invoke.keep fun _ h => (setStatus_statusOnly h).sameTrace).seq
    fun _ hcompleted => ?_
  refine (hcompleted.keep fun _ h => (releaseBuffers_memOnly h).sameTrace).seq
    fun _ hreleased => ?_
  exact .ret ⟨_, hreleased.ordered⟩

variable (hordered : OrderedState state.calls state)

include hordered

theorem OrderedState.countCall : OrderedState (state.calls + 1) state.countCall :=
  Ordered.countCall hordered

theorem enqueueBufferTransfer_ordered
    {op : SizeT → SizeT → SizeT → DeviceOp}
    {command : SizeT → SizeT → SizeT → MemId → Command} {queuedIndex : ℕ}
    {args : BufferTransfer} :
    Meets True (state.enqueueBufferTransfer env op command queuedIndex args)
      OrderedResult := by
  have hcounted := hordered.countCall
  refine Meets.seq (.of_forall fun _ h => h) fun _ _ => ?_
  refine Meets.seq (.of_forall fun _ h => h) fun buffer _ => ?_
  cases transferError args buffer with
  | some code => exact .ret ⟨_, hcounted⟩
  | none =>
      refine hcounted.requestEvent.seq fun ⟨event, requested⟩ ⟨hrequested, _⟩ => ?_
      refine Meets.cond (fun _ => ?_) fun _ => Meets.cond (fun _ => ?_) fun _ => ?_
      · refine (hrequested.keep fun _ h => (retainMem_memOnly h).sameTrace).seq
          fun _ hheld => ?_
        refine hheld.finish.seq fun _ hflushed => ?_
        refine (hflushed.keep fun _ h => (start_statusOnly h).sameTrace).seq
          fun _ hstarted => ?_
        refine Meets.seq (.of_forall fun _ h => h) fun _ _ => ?_
        refine (hstarted.invoke.keep fun _ h => (setStatus_statusOnly h).sameTrace).seq
          fun _ hcompleted => ?_
        refine (hcompleted.keep fun _ h => (releaseMem_memOnly h).sameTrace).seq
          fun _ hreleased => ?_
        exact .ret ⟨_, hreleased.ordered⟩
      · exact .ret ⟨_, hrequested⟩
      · refine (hrequested.keep fun _ h => (retainMem_memOnly h).sameTrace).seq
          fun _ hheld => ?_
        exact .ret ⟨_, hheld.append⟩

theorem enqueueCopyBuffer_ordered {args : BufferCopy} :
    Meets True (state.enqueueCopyBuffer env args) OrderedResult := by
  have hcounted := hordered.countCall
  refine Meets.seq (.of_forall fun _ h => h) fun _ _ => ?_
  refine Meets.seq (.of_forall fun _ h => h) fun _ _ => ?_
  refine Meets.seq (.of_forall fun _ h => h) fun _ _ => ?_
  refine Meets.cond (fun _ => .ret ⟨_, hcounted⟩) fun _ => ?_
  refine Meets.cond (fun _ => .ret ⟨_, hcounted⟩) fun _ => ?_
  refine Meets.cond (fun _ => .ret ⟨_, hcounted⟩) fun _ => ?_
  refine hcounted.requestEvent.seq fun ⟨event, requested⟩ ⟨hrequested, _⟩ => ?_
  refine Meets.cond (fun _ => .ret ⟨_, hrequested⟩) fun _ => ?_
  refine (hrequested.keep fun _ h => (retainMem_memOnly h).sameTrace).seq
    fun _ hsrc => ?_
  refine (hsrc.keep fun _ h => (retainMem_memOnly h).sameTrace).seq fun _ hdst => ?_
  exact .ret ⟨_, hdst.append⟩

theorem enqueueMapBuffer_ordered
    {args : BufferMap}
    (hturn : state.invokesAtOnce env (.mapBuffer args) → state.root = []) :
    Meets True (state.enqueueMapBuffer env args) OrderedResult := by
  have hcounted := hordered.countCall
  refine Meets.seq (.of_forall fun _ h => h) fun _ _ => ?_
  refine Meets.seq (.of_forall fun _ h => h) fun buffer hbuffer => ?_
  refine Meets.cond (fun _ => .ret ⟨_, hcounted⟩) fun hcontext => ?_
  refine Meets.cond (fun _ => .ret ⟨_, hcounted⟩) fun hsize => ?_
  refine Meets.cond (fun _ => .ret ⟨_, hcounted⟩) fun hforbidden => ?_
  refine Meets.seq (.of_forall fun _ h => (retainMem_memOnly h).sameTrace)
    fun held hheld => ?_
  have hheldOrdered := hcounted.congr hheld
  refine Meets.cond (fun _ => .ret ⟨_, hheldOrdered⟩) fun halloc => ?_
  refine hheldOrdered.requestEvent.seq fun ⟨event, requested⟩ hrequested => ?_
  refine Meets.cond (fun _ => .ret ⟨_, hrequested.1⟩) fun hmapping => ?_
  have hqueried : OrderedState (state.calls + 1)
      (requested.queryMap env args buffer state.calls) := by
    unfold queryMap
    by_cases hhost : buffer.flags.useHostPtr
    · rw [if_pos hhost]
      exact hrequested.1
    · rw [if_neg hhost]
      refine (Flushed.invoke ⟨hrequested.1, ?_⟩).ordered
      rw [hrequested.2, hheld.root_eq]
      exact hturn ⟨by simpa using halloc, by simpa using hmapping, buffer, hbuffer,
        by simpa using hcontext, hsize, by simpa using hforbidden, by simpa using hhost⟩
  refine Meets.cond (fun _ => ?_) fun _ => ?_
  · refine (hqueried.keep fun _ h => (setStatus_statusOnly h).sameTrace).seq
      fun _ hcompleted => ?_
    exact .ret ⟨_, hcompleted⟩
  refine (hqueried.keep fun _ h => addMapping_sameTrace h).seq fun _ hadded => ?_
  exact hadded.enqueueMapping

theorem enqueueUnmapMemObject_ordered
    {args : Unmap}
    (hturn : state.invokesAtOnce env (.unmapMemObject args) → state.root = []) :
    Meets True (state.enqueueUnmapMemObject env args) OrderedResult := by
  have hcounted := hordered.countCall
  refine Meets.seq (.of_forall fun _ h => h) fun _ _ => ?_
  refine Meets.seq (.of_forall fun _ h => h) fun object hobject => ?_
  refine Meets.cond (fun _ => .ret ⟨_, hcounted⟩) fun hcontext => ?_
  cases hfind : object.mappings.find? (fun mapping =>
      mapping.hostPtr = args.mappedPtr) with
  | none => exact .ret ⟨_, hcounted⟩
  | some mapping =>
      refine Meets.cond (fun _ => .ret ⟨_, hcounted⟩) fun halloc => ?_
      refine hcounted.requestEvent.seq fun ⟨event, requested⟩ hrequested => ?_
      refine Meets.seq (.of_forall fun _ h => (start_statusOnly h).sameTrace)
        fun started hstarted => ?_
      have hstartedOrdered := hrequested.1.congr hstarted
      have hinvoked : OrderedState (state.calls + 1)
          (started.invokeUnmap env object mapping state.calls) := by
        unfold invokeUnmap
        by_cases hskip : (object.flags.useHostPtr || object.flags.allocHostPtr ||
            !env.hasUnmapMem) = true
        · rw [if_pos hskip]
          exact hstartedOrdered
        · rw [if_neg hskip]
          refine (Flushed.invoke ⟨hstartedOrdered, ?_⟩).ordered
          rw [hstarted.root_eq, hrequested.2]
          simp only [Bool.or_eq_true, Bool.not_eq_true', not_or, Bool.not_eq_true,
            Bool.not_eq_false] at hskip
          exact hturn ⟨by simpa using halloc, hskip.2, object, hobject,
            by simpa using hcontext, hskip.1.1, hskip.1.2, mapping,
            List.mem_of_find?_eq_some hfind, by simpa using List.find?_some hfind⟩
      refine (hinvoked.keep fun _ h => (setStatus_statusOnly h).sameTrace).seq
        fun _ hcompleted => ?_
      refine (hcompleted.keep fun _ h => removeMapping_sameTrace h).seq
        fun _ hremoved => ?_
      refine (hremoved.keep fun _ h => (releaseMem_memOnly h).sameTrace).seq
        fun _ hreleased => ?_
      exact .ret ⟨_, hreleased⟩

theorem enqueueNDRangeKernel_ordered {args : KernelLaunch} :
    Meets True (state.enqueueNDRangeKernel args) OrderedResult := by
  have hcounted := hordered.countCall
  refine Meets.seq (.of_forall fun _ h => h) fun _ _ => ?_
  refine Meets.seq (.of_forall fun _ h => h) fun kernel _ => ?_
  refine Meets.cond (fun _ => .ret ⟨_, hcounted⟩) fun _ => ?_
  refine Meets.cond (fun _ => .ret ⟨_, hcounted⟩) fun _ => ?_
  refine hcounted.requestEvent.seq fun ⟨event, requested⟩ ⟨hrequested, _⟩ => ?_
  refine (hrequested.keep fun _ h => retainQueue_sameTrace h).seq fun _ hqueue => ?_
  refine (hqueue.keep fun _ h => (retainKernel_kernelOnly h).sameTrace).seq
    fun _ hkernel => ?_
  refine (hkernel.keep fun _ h => (retainBuffers_memOnly h).sameTrace).seq
    fun _ hheld => ?_
  exact .ret ⟨_, hheld.append⟩

theorem enqueueFlushedTransfer_ordered {args : FlushedTransfer} :
    Meets True (state.enqueueFlushedTransfer env args) OrderedResult := by
  have hcounted := hordered.countCall
  refine Meets.seq (.of_forall fun _ h => h) fun _ _ => ?_
  refine Meets.cond (fun _ => .ret ⟨_, hcounted⟩) fun _ => ?_
  refine Meets.cond (fun _ => .ret ⟨_, hcounted⟩) fun _ => ?_
  refine hcounted.requestEvent.seq fun ⟨event, requested⟩ ⟨hrequested, _⟩ => ?_
  refine (hrequested.keep fun _ h => (retainBuffers_memOnly h).sameTrace).seq
    fun _ hheld => ?_
  exact hheld.flushedRun

theorem enqueueWriteBufferRect_ordered
    {args : FlushedTransfer} {event : Option EventId} :
    Meets True (state.enqueueWriteBufferRect env args event) OrderedResult := by
  have hcounted := hordered.countCall
  refine Meets.seq (.of_forall fun _ h => h) fun _ _ => ?_
  refine Meets.cond (fun _ => .ret ⟨_, hcounted⟩) fun _ => ?_
  refine (hcounted.keep fun _ h => (retainBuffers_memOnly h).sameTrace).seq
    fun _ hheld => ?_
  exact hheld.flushedRun

theorem enqueueReadImage_ordered
    {args : ImageTransfer}
    (hturn : state.invokesAtOnce env (.readImage args) → state.root = []) :
    Meets True (state.enqueueReadImage env args) OrderedResult := by
  have hcounted := hordered.countCall
  refine Meets.seq (.of_forall fun _ h => h) fun _ _ => ?_
  refine Meets.cond (fun _ => .ret ⟨_, hcounted⟩) fun halloc => ?_
  refine hcounted.requestEvent.seq fun ⟨event, requested⟩ hrequested => ?_
  refine Meets.seq (.of_forall fun _ h => h) fun image _ => ?_
  refine Meets.cond (fun hblocking => ?_) fun _ => Meets.cond (fun _ => ?_) fun _ => ?_
  · refine Meets.seq (.of_forall fun _ h => (startHsa_statusOnly h).sameTrace)
      fun started hstarted => ?_
    have hstartedOrdered := hrequested.1.congr hstarted
    have hroot : env.hsaGpu = true ∨ args.accepted = true →
        started.root = [] := by
      intro hdriver
      rw [hstarted.root_eq, hrequested.2]
      exact hturn ⟨by simpa using halloc, hblocking, hdriver⟩
    have hinvoked : OrderedState (state.calls + 1)
        (started.invokeReadImage env args image state.calls) := by
      unfold invokeReadImage
      by_cases hgpu : env.hsaGpu
      · rw [if_pos hgpu]
        exact (Flushed.invoke ⟨hstartedOrdered, hroot (.inl hgpu)⟩).ordered
      · rw [if_neg hgpu]
        by_cases haccepted : args.accepted
        · rw [if_pos haccepted]
          exact (Flushed.invoke ⟨hstartedOrdered, hroot (.inr haccepted)⟩).ordered
        · rw [if_neg haccepted]
          exact hstartedOrdered
    refine (hinvoked.keep fun _ h => (setStatus_statusOnly h).sameTrace).seq
      fun _ hcompleted => ?_
    refine hcompleted.releaseQueueIf.seq fun _ hreleased => ?_
    exact .ret ⟨_, hreleased⟩
  · exact .ret ⟨_, hrequested.1⟩
  · trivial

theorem enqueueWriteImage_ordered
    {args : ImageTransfer}
    (hturn : state.invokesAtOnce env (.writeImage args) → state.root = []) :
    Meets True (state.enqueueWriteImage env args) OrderedResult := by
  have hcounted := hordered.countCall
  refine Meets.seq (.of_forall fun _ h => h) fun _ _ => ?_
  refine Meets.cond (fun _ => .ret ⟨_, hcounted⟩) fun halloc => ?_
  refine hcounted.requestEvent.seq fun ⟨event, requested⟩ hrequested => ?_
  refine Meets.seq (.of_forall fun _ h => (start_statusOnly h).sameTrace)
    fun started hstarted => ?_
  have hstartedOrdered := hrequested.1.congr hstarted
  refine Meets.seq (.of_forall fun _ h => h) fun image _ => ?_
  have hinvoked : OrderedState (state.calls + 1)
      (started.invokeWriteImage env args image state.calls) := by
    unfold invokeWriteImage
    by_cases haccepted : args.accepted
    · rw [if_pos haccepted]
      refine (Flushed.invoke ⟨hstartedOrdered, ?_⟩).ordered
      rw [hstarted.root_eq, hrequested.2]
      exact hturn ⟨by simpa using halloc, haccepted⟩
    · rw [if_neg haccepted]
      exact hstartedOrdered
  refine (hinvoked.keep fun _ h => (setStatus_statusOnly h).sameTrace).seq
    fun _ hcompleted => ?_
  exact .ret ⟨_, hcompleted⟩

theorem enqueueMarker_ordered {event : Bool} {alloc : Allocations} :
    Meets True (state.enqueueMarker event alloc) OrderedResult := by
  have hcounted := OrderedState.countCall hordered
  refine Meets.seq (.of_forall fun _ h => h) fun _ _ => ?_
  refine Meets.cond (fun _ => .ret ⟨_, hcounted⟩) fun _ => ?_
  refine Meets.cond (fun _ => .ret ⟨_, hcounted⟩) fun _ => ?_
  refine hcounted.requestEvent.seq fun ⟨event, requested⟩ ⟨hrequested, _⟩ => ?_
  refine Meets.cond (fun _ => .ret ⟨_, hrequested⟩) fun _ => ?_
  exact .ret ⟨_, hrequested.append⟩

theorem setKernelArg_ordered
    {kernel : KernelId} {argIndex : ℕ} {argValue : Option (Option MemId)} :
    Meets True (state.setKernelArg env kernel argIndex argValue) OrderedResult := by
  refine Meets.seq (.of_forall fun _ h => h) fun object _ => ?_
  refine Meets.cond (fun _ => .ret ⟨_, hordered⟩) fun _ => ?_
  exact .ret ⟨_, hordered.congr ⟨rfl, rfl, rfl⟩⟩

theorem createSubBuffer_ordered {args : SubBuffer} :
    Meets True (state.createSubBuffer args) OrderedResult := by
  refine Meets.seq (.of_forall fun _ h => h) fun buffer _ => ?_
  refine Meets.cond (fun _ => .ret ⟨_, hordered⟩) fun _ => ?_
  have hadded : OrderedState state.calls (state.addMem (subBuffer args buffer)) :=
    hordered.congr ⟨rfl, rfl, rfl⟩
  refine (hadded.keep fun _ h => (retainMem_memOnly h).sameTrace).seq
    fun _ hheld => ?_
  exact .ret ⟨_, hheld⟩

theorem perform_ordered
    {call : Call} (hturn : state.invokesAtOnce env call → state.root = []) :
    Meets True (state.perform env call) OrderedResult := by
  have hsucceed : ∀ {program : Option State},
      Meets True program (OrderedState state.calls) →
        Meets True (program.map succeed) OrderedResult := fun h =>
    .map (h.mono fun _ hafter => ⟨_, hafter⟩)
  cases call with
  | readBuffer args => exact enqueueBufferTransfer_ordered hordered
  | writeBuffer args => exact enqueueBufferTransfer_ordered hordered
  | copyBuffer args => exact enqueueCopyBuffer_ordered hordered
  | mapBuffer args => exact enqueueMapBuffer_ordered hordered hturn
  | unmapMemObject args => exact enqueueUnmapMemObject_ordered hordered hturn
  | ndRangeKernel args => exact enqueueNDRangeKernel_ordered hordered
  | flushedTransfer args => exact enqueueFlushedTransfer_ordered hordered
  | writeBufferRect args event => exact enqueueWriteBufferRect_ordered hordered
  | readImage args => exact enqueueReadImage_ordered hordered hturn
  | writeImage args => exact enqueueWriteImage_ordered hordered hturn
  | marker event alloc => exact enqueueMarker_ordered hordered
  | setKernelArg kernel argIndex argValue => exact setKernelArg_ordered hordered
  | createSubBuffer args => exact createSubBuffer_ordered hordered
  | retainMem mem =>
      exact hsucceed (hordered.keep fun _ h => (retainMem_memOnly h).sameTrace)
  | releaseMem mem =>
      exact hsucceed (hordered.keep fun _ h => (releaseMem_memOnly h).sameTrace)
  | retainEvent event =>
      exact hsucceed (hordered.keep fun _ h => retainEvent_sameTrace h)
  | releaseEvent event => exact hsucceed hordered.releaseEvent
  | retainQueue => exact hsucceed (hordered.keep fun _ h => retainQueue_sameTrace h)
  | releaseQueue => exact hsucceed hordered.releaseQueue
  | retainKernel kernel =>
      exact hsucceed (hordered.keep fun _ h => (retainKernel_kernelOnly h).sameTrace)
  | releaseKernel kernel =>
      exact hsucceed (hordered.keep fun _ h => (releaseKernel_kernelOnly h).sameTrace)
  | finish => exact hsucceed (hordered.finish.mono fun _ hflushed => hflushed.ordered)

end Enqueue

/-- The invariant holds in every session of a run. -/
theorem reaches_ordered
    {allowed : Session → Call → Prop} {first session : Session}
    (hallowed : ∀ session call, allowed session call →
      InvokesInTurn env session call)
    (hops : first.state.ops = []) (hroot : first.state.root = [])
    (hreaches : Reaches env allowed first session) :
    OrderedState session.state.calls session.state := by
  refine Reaches.invariant (fun session =>
    OrderedState session.state.calls session.state) ?_ ?_ hreaches
  · refine ⟨rfl, ?_, ?_⟩
    · simp [tags, hops, hroot]
    · simp [tags, hops, hroot]
  · intro session next call code hsession hcall hstep
    obtain ⟨⟨code, after⟩, hperform, hnext⟩ := Option.bind_eq_some_iff.mp hstep
    cases hnext
    obtain ⟨calls, hafter⟩ := Meets.iff_forall.mp
      (perform_ordered hsession (hallowed _ _ hcall)) _ hperform
    have hcalls : after.calls = calls := hafter.calls_eq
    rw [← hcalls] at hafter
    exact hafter

/-- In every run whose calls each find an empty queue where they go to the driver
without a flush, the driver is called in the order of the enqueue calls. -/
theorem reaches_invokesInOrder
    {first session : Session} (hops : first.state.ops = [])
    (hroot : first.state.root = [])
    (hreaches : Reaches env (InvokesInTurn env) first session) :
    session.state.InvokesInOrder :=
  (reaches_ordered (fun _ _ hturn => hturn) hops hroot hreaches).sorted

section Example

/-- A write of a buffer, a flush and a write of an image. -/
theorem flushedImageWrite_invokesInOrder :
    ∃ session, Reaches singleCpu (InvokesInTurn singleCpu)
        (.opening [.plain, .plain] []) session ∧
      session.state.ops.map Prod.fst = [0, 1] ∧ session.state.InvokesInOrder := by
  obtain ⟨session, hreaches, htest⟩ := Reaches.exists_of_runIf singleCpu
    (InvokesInTurn singleCpu)
    (fun session call =>
      match call with
      | .writeBuffer _ | .finish => true
      | _ => session.state.root.isEmpty)
    (fun session call hpermitted => by
      cases call <;> first
        | exact False.elim
        | exact fun _ => List.isEmpty_iff.mp hpermitted)
    (.opening [.plain, .plain] [])
    [.writeBuffer (firstWord false), .finish, .writeImage (firstPixel true)]
    (fun session => session.state.ops.map Prod.fst = [0, 1]) (by decide +kernel)
  exact ⟨session, hreaches, of_decide_eq_true htest,
    reaches_invokesInOrder rfl rfl hreaches⟩

/-- The write of an image overtakes a write of a buffer that is in the queue. -/
theorem imageWrite_not_invokesInOrder :
    ∃ session, Reaches singleCpu (fun _ _ => True) (.opening [.plain, .plain] [])
      session ∧ ¬session.state.InvokesInOrder := by
  obtain ⟨session, hreaches, htest⟩ := Reaches.exists_of_runIf singleCpu
    (fun _ _ => True) (fun _ _ => true) (fun _ _ _ => trivial)
    (.opening [.plain, .plain] [])
    [.writeBuffer (firstWord false), .writeImage (firstPixel true)]
    (fun session => session.state.tags session.state.root = [1, 0])
    (by decide +kernel)
  refine ⟨session, hreaches, fun hordered => ?_⟩
  have htags := of_decide_eq_true htest
  unfold InvokesInOrder at hordered
  rw [htags] at hordered
  exact absurd hordered (by decide)

end Example

end CommandQueue

end Pocl
