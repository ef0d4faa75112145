import Pocl.PendingEnqueues

/-!
# Maps, images and events

The functions that take references which no command gives back: a map holds its
buffer until it is unmapped.
-/

namespace Pocl

namespace CommandQueue

open State

namespace Books

/-- The books with one more mapping. -/
def addMap (books : Books) (buffer : MemId) (mapping : Mapping) : Books :=
  { books with
    maps := Function.update books.maps buffer (books.maps buffer ++ [mapping]) }

/-- The books with one mapping less, and the reference of that mapping. -/
def removeMap (books : Books) (mem : MemId) (mapping : Mapping) : Books :=
  { books with
    base := Function.update books.base mem (books.base mem - 1)
    maps := Function.update books.maps mem ((books.maps mem).erase mapping) }

/-- The books behind a call: it may have made an event, and the references behind
the mappings have not become fewer. -/
structure Follows (books after : Books) : Prop where
  events : (after.events = books.events ∧ after.nextEvent = books.nextEvent) ∨
    (after.events = Function.update books.events books.nextEvent 1 ∧
      after.nextEvent = books.nextEvent + 1)
  nextMem : after.nextMem = books.nextMem
  spare : ∀ mem, books.base mem - (books.maps mem).length ≤
    after.base mem - (after.maps mem).length

theorem Grows.follows {books after : Books} (hgrows : books.Grows after) :
    books.Follows after := by
  rcases hgrows with rfl | rfl
  · exact ⟨.inl ⟨rfl, rfl⟩, rfl, fun _ => le_refl _⟩
  · exact ⟨.inr ⟨rfl, rfl⟩, rfl, fun _ => le_refl _⟩

theorem Follows.of_hold
    {books after : Books} {mems : List MemId} (hfollows : (books.hold mems).Follows after) :
    books.Follows after where
  events := hfollows.events
  nextMem := hfollows.nextMem
  spare := fun mem => by
    have hspare := hfollows.spare mem
    change books.base mem + (mems.count mem : ℕ) - _ ≤ _ at hspare
    change books.base mem - ((books.hold mems).maps mem).length ≤ _
    omega

/-- A mapping with its reference. -/
theorem Follows.addMap
    {books after : Books} {buffer : MemId} (mapping : Mapping)
    (hfollows : (books.hold [buffer]).Follows after) :
    books.Follows (after.addMap buffer mapping) where
  events := hfollows.events
  nextMem := hfollows.nextMem
  spare := fun mem => by
    have hspare := hfollows.spare mem
    change books.base mem + ([buffer].count mem : ℕ) - ((books.maps mem).length : ℤ) ≤ _
      at hspare
    by_cases heq : mem = buffer
    · subst mem
      rw [List.count_singleton_self] at hspare
      simp only [Books.addMap, Function.update_self, List.length_append,
        List.length_singleton]
      push_cast
      omega
    · simp only [Books.addMap, Function.update_of_ne heq]
      omega

theorem Follows.removeMap
    {books after : Books} {mem : MemId} {mapping : Mapping}
    (hfollows : books.Follows after) (hmapping : mapping ∈ after.maps mem) :
    books.Follows (after.removeMap mem mapping) where
  events := hfollows.events
  nextMem := hfollows.nextMem
  spare := fun other => by
    have hspare := hfollows.spare other
    by_cases heq : other = mem
    · subst other
      have hlength := List.length_erase_add_one hmapping
      simp only [Books.removeMap, Function.update_self]
      omega
    · simp only [Books.removeMap, Function.update_of_ne heq]
      exact hspare

end Books

/-- The post-condition of a call that may leave references behind. -/
def Covered (mayFail : Prop) (books : Books) (result : ClCode × State) : Prop :=
  ∃ after, books.Follows after ∧ Pending mayFail after result.2.root result.2

variable {mayFail : Prop} {books : Books} {nodes : List Node} {node : Node}
  {state : State} {env : Env}

section Mappings

/-- The books follow the records of a buffer. -/
theorem Pending.setMappings
    {mem : MemId} {object : MemObject} (hpending : Pending mayFail books nodes state)
    (hobject : state.mem mem = some object) (mappings : List Mapping) (mapCount : BitVec 32)
    (nextMapping : ℕ) (mapLog : List MapEvent) :
    Pending mayFail { books with maps := Function.update books.maps mem mappings } nodes
      { state.setMem mem (some { object with mappings := mappings, mapCount := mapCount }) with
        nextMapping := nextMapping
        mapLog := mapLog } := by
  have hset : Counted (fun other => books.base other + holds nodes other) books.parents
      (Function.update books.maps mem mappings)
      (state.setMem mem (some { object with mappings := mappings, mapCount := mapCount })) := by
    have hparent : ({ object with mappings := mappings, mapCount := mapCount } :
        MemObject).parent = object.parent := rfl
    have hset := hpending.counted.setMem hobject (hpending.counted.refs_nonneg mem) hparent
      (hpending.counted.refcount_eq mem object hobject)
    rwa [Function.update_eq_self] at hset
  exact ⟨hset.congr_mem rfl rfl, hpending.queue, hpending.events, hpending.nextEvent,
    hpending.node_event, hpending.kernels, hpending.node_kernel, hpending.node_args,
    hpending.node_borrowed, hpending.base_nonneg, hpending.nextMem⟩

/-- The mapping is recorded in its buffer, which is held. -/
theorem Pending.addMapping
    {buffer : MemId} {mapping : Mapping} (hpending : Pending mayFail books nodes state)
    (hbase : 0 < books.base buffer) :
    Meets mayFail (state.addMapping buffer mapping) fun after =>
      Pending mayFail (books.addMap buffer mapping) nodes after ∧
        after.root = state.root := by
  have hrefs : 0 < books.base buffer + holds nodes buffer := by omega
  obtain ⟨object, hobject⟩ := Option.isSome_iff_exists.mp (hpending.counted.live hrefs)
  have hmappings := hpending.counted.mappings_eq buffer object hobject
  refine .of_eq_some (addMapping_eq_some.mpr ⟨object, hobject, rfl⟩) ⟨?_, rfl⟩
  rw [hmappings]
  exact hpending.setMappings hobject (books.maps buffer ++ [mapping]) object.mapCount
    (mapping.id + 1) state.mapLog

/-- The record of a mapping goes, and then its reference. -/
theorem Pending.removeMapping
    {mem : MemId} {mapping : Mapping} (hpending : Pending mayFail books nodes state)
    (hbase : 0 < books.base mem)
    (hborrowed : ¬mayFail → ∀ node ∈ nodes, mem ∈ node.command.borrowed →
      1 < books.base mem) :
    Meets mayFail
      (state.removeMapping mem mapping >>= fun removed => removed.releaseMem mem)
      fun after => Pending mayFail (books.removeMap mem mapping) nodes after ∧
        after.root = state.root := by
  have hrefs : 0 < books.base mem + holds nodes mem := by omega
  obtain ⟨object, hobject⟩ := Option.isSome_iff_exists.mp (hpending.counted.live hrefs)
  have hmappings := hpending.counted.mappings_eq mem object hobject
  let removedBooks : Books :=
    { books with maps := Function.update books.maps mem ((books.maps mem).erase mapping) }
  have hremoved : Meets mayFail (state.removeMapping mem mapping) fun after =>
      Pending mayFail removedBooks nodes after ∧ after.root = state.root := by
    refine .of_eq_some (removeMapping_eq_some.mpr ⟨object, hobject, rfl⟩) ⟨?_, rfl⟩
    rw [hmappings]
    exact hpending.setMappings hobject ((books.maps mem).erase mapping)
      (object.mapCount - 1) state.nextMapping
      (state.mapLog ++ [.unmapped mem mapping.id])
  refine hremoved.seq fun removed ⟨hremovedPending, hroot⟩ => ?_
  refine (hremovedPending.releaseMem hbase hborrowed).mono
    fun after ⟨hafter, honly⟩ => ⟨hafter, ?_⟩
  rw [honly]
  exact hroot

end Mappings

section Enqueue

theorem Settled.covered
    {result : ClCode × State} (hsettled : Settled mayFail books result) :
    Covered mayFail books result := by
  obtain ⟨after, hgrows, hpending⟩ := hsettled
  exact ⟨after, hgrows.follows, hpending⟩

theorem Pending.queryMap
    {args : BufferMap} {buffer : MemObject} {call : ℕ}
    (hpending : Pending mayFail books nodes state) :
    Pending mayFail books nodes (state.queryMap env args buffer call) := by
  unfold State.queryMap
  split_ifs
  · exact hpending
  · exact hpending.invoke

theorem queryMap_root (env : Env) (args : BufferMap) (buffer : MemObject) (call : ℕ)
    (state : State) : (state.queryMap env args buffer call).root = state.root := by
  unfold State.queryMap
  split_ifs
  · rfl
  · rfl

/-- The command of a mapping that has been recorded. -/
theorem Pending.enqueueMapping
    {args : BufferMap} {call : ℕ} {event : Option EventId} {mapping : Mapping}
    (hpending : Pending mayFail books state.root state)
    (hbase : 0 < books.base args.buffer)
    (hevent : ∀ id, event = some id → books.events id ≠ 0) :
    Meets mayFail (state.enqueueMapping env args call event mapping) fun result =>
      Pending mayFail books result.2.root result.2 := by
  have hlogged : ∀ {after : State}, Pending mayFail books after.root after →
      Pending mayFail books (after.logMapped args.buffer mapping).root
        (after.logMapped args.buffer mapping) :=
    fun hafter => hafter.congr ⟨rfl, rfl, rfl, rfl, rfl, fun _ => rfl, rfl⟩
  unfold State.enqueueMapping
  refine Meets.cond (fun _ => ?_) fun _ => ?_
  · refine Meets.cond (fun _ => .ret hpending) fun _ => .ret ?_
    refine hlogged (hpending.append ?_ rfl hevent nofun nofun fun _ mem hmem => ?_)
    · exact hpending.withHold (hpending.counted.congr_refs (by simp [Command.held])) rfl
    · rw [List.mem_singleton.mp hmem]
      exact hbase
  · refine hpending.finish.seq fun flushed hflushed => ?_
    refine (start_meets fun id hid => hflushed.pending.event_live (hevent id hid)).seq
      fun started hstarted => ?_
    have hstartedIdle := hflushed.congr hstarted
    have hroot : Meets True (started.mapMemCmd env call args.buffer mapping)
        fun after => after.root = [] := by
      refine .of_forall fun after hafter => ?_
      obtain ⟨object, _, rfl⟩ := mapMemCmd_eq_some.mp hafter
      exact hstartedIdle.root_eq
    refine ((hstartedIdle.pending.mapMemCmd fun _ => hbase).also hroot).seq
      fun mapped hmapped => ?_
    have hmappedIdle : Idle mayFail books mapped := ⟨hmapped.1, hmapped.2⟩
    refine (setStatus_meets fun id hid =>
      hmappedIdle.pending.event_live (hevent id hid)).seq fun completed hcompleted => ?_
    have hidle := hmappedIdle.congr hcompleted
    refine .ret (hlogged ?_)
    rw [hidle.root_eq]
    exact hidle.pending

variable (hpending : Pending mayFail books state.root state)

include hpending

theorem Pending.enqueueMapBuffer
    {args : BufferMap} (hlive : ¬mayFail → (state.mem args.buffer).isSome = true) :
    Meets mayFail (state.enqueueMapBuffer env args) (Covered mayFail books) := by
  have hcounted := hpending.countCall
  obtain ⟨refcount, hqueue, _⟩ := hcounted.queue
  refine (Meets.self fun _ => by rw [hqueue]; rfl).seq fun _ _ => ?_
  refine (Meets.self hlive).seq fun buffer _ => ?_
  refine Meets.cond (fun _ => .ret hcounted.settled.covered) fun _ => ?_
  refine Meets.cond (fun _ => .ret hcounted.settled.covered) fun _ => ?_
  refine Meets.cond (fun _ => .ret hcounted.settled.covered) fun _ => ?_
  refine (hcounted.retainMem hlive).seq fun held hretained => ?_
  obtain ⟨hheld, honly, _⟩ := hretained
  have hheldRoot : held.root = state.root := by
    rw [honly]
    rfl
  rw [← hheldRoot] at hheld
  -- From here on an error leaves the reference behind.
  refine Meets.cond (fun _ => .ret ⟨_, Books.Follows.of_hold
    (Books.Grows.follows (.inl rfl)), hheld⟩) fun _ => ?_
  refine hheld.requestEvent.seq fun request hrequest => ?_
  obtain ⟨event, requested⟩ := request
  obtain ⟨after, hgrows, hrequested, hevent, hroot, _, _⟩ := hrequest
  have hfollows := hgrows.follows
  rw [← hroot] at hrequested
  refine Meets.cond (fun _ => .ret ⟨after, hfollows.of_hold, hrequested⟩) fun _ => ?_
  have hqueried : Pending mayFail after (requested.queryMap env args buffer
      state.calls).root (requested.queryMap env args buffer state.calls) := by
    rw [queryMap_root]
    exact hrequested.queryMap
  refine Meets.cond (fun _ => ?_) fun _ => ?_
  · refine (setStatus_meets fun id hid => hqueried.event_live (hevent id hid)).seq
      fun completed hcompleted => .ret ⟨after, hfollows.of_hold, ?_⟩
    rw [hcompleted.root_eq]
    exact hqueried.congr hcompleted
  · have hbase : 0 < after.base args.buffer := by
      have hold : after.base args.buffer = books.base args.buffer + 1 := by
        rcases hgrows with rfl | rfl
        · simp [Books.hold]
        · simp [Books.hold, Books.newEvent]
      have hnonneg := hpending.base_nonneg args.buffer
      omega
    refine (hqueried.addMapping hbase).seq fun recorded hadded => ?_
    obtain ⟨hrecorded, hrecordedRoot⟩ := hadded
    rw [← hrecordedRoot] at hrecorded
    exact (hrecorded.enqueueMapping hbase hevent).mono
      fun result hresult => ⟨_, hfollows.addMap _, hresult⟩

omit hpending in
theorem invokeUnmap_sameObjects (env : Env) (object : MemObject) (mapping : Mapping)
    (call : ℕ) (state : State) :
    SameObjects state (state.invokeUnmap env object mapping call) := by
  unfold State.invokeUnmap
  split_ifs
  · exact .refl
  · exact invoke_sameObjects

omit hpending in
theorem invokeReadImage_sameObjects (env : Env) (args : ImageTransfer) (image : MemObject)
    (call : ℕ) (state : State) :
    SameObjects state (state.invokeReadImage env args image call) := by
  unfold State.invokeReadImage
  split_ifs
  · exact invoke_sameObjects
  · exact invoke_sameObjects
  · exact .refl

omit hpending in
theorem invokeWriteImage_sameObjects (env : Env) (args : ImageTransfer) (image : MemObject)
    (call : ℕ) (state : State) :
    SameObjects state (state.invokeWriteImage env args image call) := by
  unfold State.invokeWriteImage
  split_ifs
  · exact invoke_sameObjects
  · exact .refl

/-- The mapping must not hold the last reference on an object that a command borrows. -/
theorem Pending.enqueueUnmapMemObject
    {args : Unmap} (hlive : ¬mayFail → (state.mem args.mem).isSome = true)
    (hcovered : ((books.maps args.mem).length : ℤ) ≤ books.base args.mem)
    (hborrowed : ¬mayFail → ∀ mapping,
      (books.maps args.mem).find? (fun mapping => mapping.hostPtr = args.mappedPtr) =
        some mapping → ∀ node ∈ state.root, args.mem ∈ node.command.borrowed →
          1 < books.base args.mem) :
    Meets mayFail (state.enqueueUnmapMemObject env args) (Covered mayFail books) := by
  have hcounted := hpending.countCall
  obtain ⟨refcount, hqueue, _⟩ := hcounted.queue
  refine (Meets.self fun _ => by rw [hqueue]; rfl).seq fun _ _ => ?_
  refine (Meets.self hlive).seq fun object hobject => ?_
  refine Meets.cond (fun _ => .ret hcounted.settled.covered) fun _ => ?_
  rw [hcounted.counted.mappings_eq args.mem object hobject]
  cases hfind : (books.maps args.mem).find?
      (fun mapping => mapping.hostPtr = args.mappedPtr) with
  | none => exact .ret hcounted.settled.covered
  | some mapping =>
      have hmapping : mapping ∈ books.maps args.mem := List.mem_of_find?_eq_some hfind
      refine Meets.cond (fun _ => .ret hcounted.settled.covered) fun _ => ?_
      refine hcounted.requestEvent.seq fun ⟨event, requested⟩
        ⟨after, hgrows, hrequested, hevent, hroot, _, _⟩ => ?_
      have hbase : after.base = books.base := by
        rcases hgrows with rfl | rfl
        · rfl
        · rfl
      have hmaps : after.maps = books.maps := by
        rcases hgrows with rfl | rfl
        · rfl
        · rfl
      refine (start_meets fun id hid => hrequested.event_live (hevent id hid)).seq
        fun started hstarted => ?_
      have hinvoked := (hrequested.congr hstarted).congr
        (invokeUnmap_sameObjects env object mapping state.calls started)
      refine (setStatus_meets fun id hid => hinvoked.event_live (hevent id hid)).seq
        fun completed hcompleted => ?_
      have hlength := List.length_erase_add_one hmapping
      have hremoved : Meets mayFail (completed.removeMapping args.mem mapping >>=
          fun removed => removed.releaseMem args.mem) _ :=
        (hinvoked.congr hcompleted).removeMapping (by rw [hbase]; omega) (by
          rw [hbase]
          exact fun hnot => hborrowed hnot mapping hfind)
      rw [← bind_assoc]
      refine hremoved.seq fun released ⟨hreleased, hreleasedRoot⟩ => .ret
        ⟨_, hgrows.follows.removeMap (by rw [hmaps]; exact hmapping), ?_⟩
      have hrootEq : released.root = state.root := by
        rw [hreleasedRoot, hcompleted.root_eq, (invokeUnmap_sameObjects env object
          mapping state.calls started).root_eq, hstarted.root_eq]
        exact hroot
      change Pending mayFail _ released.root released
      rw [hrootEq]
      exact hreleased

omit hpending in
theorem reduceOption_map_some (mems : List MemId) :
    (mems.map some).reduceOption = mems := by
  simp [List.reduceOption, List.filterMap_map]

theorem Pending.enqueueFlushedTransfer
    {args : FlushedTransfer}
    (hlive : ¬mayFail → ∀ mem ∈ args.buffers, (state.mem mem).isSome = true) :
    Meets mayFail (state.enqueueFlushedTransfer env args) (Settled mayFail books) := by
  have hcounted := hpending.countCall
  obtain ⟨refcount, hqueue, _⟩ := hcounted.queue
  refine (Meets.self fun _ => by rw [hqueue]; rfl).seq fun _ _ => ?_
  refine Meets.cond (fun _ => .ret hcounted.settled) fun _ => ?_
  refine Meets.cond (fun _ => .ret hcounted.settled) fun _ => ?_
  refine hcounted.requestEvent.seq fun ⟨event, requested⟩
    ⟨after, hgrows, hrequested, hevent, hroot, hmem, _⟩ => ?_
  refine (hrequested.retainBuffers fun hnot mem hheld => ?_).seq
    fun held ⟨hheld, honly⟩ => ?_
  · rw [reduceOption_map_some] at hheld
    rw [hmem]
    exact hlive hnot mem hheld
  · have hheldRoot : held.root = state.root := by
      rw [honly]
      exact hroot
    have hflush : Pending mayFail (after.hold (args.buffers.map some).reduceOption)
        held.root held := hheldRoot ▸ hheld
    exact hflush.flushedRun hgrows hrequested.base_nonneg hevent

theorem Pending.enqueueWriteBufferRect
    {args : FlushedTransfer} {event : Option EventId}
    (hlive : ¬mayFail → ∀ mem ∈ args.buffers, (state.mem mem).isSome = true)
    (hevent : ∀ id, event = some id → books.events id ≠ 0) :
    Meets mayFail (state.enqueueWriteBufferRect env args event)
      (Settled mayFail books) := by
  have hcounted := hpending.countCall
  obtain ⟨refcount, hqueue, _⟩ := hcounted.queue
  refine (Meets.self fun _ => by rw [hqueue]; rfl).seq fun _ _ => ?_
  refine Meets.cond (fun _ => .ret hcounted.settled) fun _ => ?_
  refine (hcounted.retainBuffers fun hnot mem hheld => ?_).seq
    fun held ⟨hheld, honly⟩ => ?_
  · rw [reduceOption_map_some] at hheld
    exact hlive hnot mem hheld
  · have hheldRoot : held.root = state.root := by
      rw [honly]
      rfl
    have hflush : Pending mayFail (books.hold (args.buffers.map some).reduceOption)
        held.root held := hheldRoot ▸ hheld
    exact hflush.flushedRun (.inl rfl) hcounted.base_nonneg hevent

theorem Pending.enqueueWriteImage
    {args : ImageTransfer} (hlive : ¬mayFail → (state.mem args.image).isSome = true) :
    Meets mayFail (state.enqueueWriteImage env args) (Settled mayFail books) := by
  have hcounted := hpending.countCall
  obtain ⟨refcount, hqueue, _⟩ := hcounted.queue
  refine (Meets.self fun _ => by rw [hqueue]; rfl).seq fun _ _ => ?_
  refine Meets.cond (fun _ => .ret hcounted.settled) fun _ => ?_
  refine hcounted.requestEvent.seq fun ⟨event, requested⟩
    ⟨after, hgrows, hrequested, hevent, hroot, hmem, _⟩ => ?_
  refine (start_meets fun id hid => hrequested.event_live (hevent id hid)).seq
    fun started hstarted => ?_
  refine (Meets.self fun hnot => ?_).seq fun image _ => ?_
  · rw [hstarted.mem_eq, hmem]
    exact hlive hnot
  · have hsame := invokeWriteImage_sameObjects env args image state.calls started
    have hinvoked := (hrequested.congr hstarted).congr hsame
    refine (setStatus_meets fun id hid => hinvoked.event_live (hevent id hid)).seq
      fun completed hcompleted => .ret ⟨after, hgrows, ?_⟩
    have hrootEq : completed.root = state.root := by
      rw [hcompleted.root_eq, hsame.root_eq, hstarted.root_eq]
      exact hroot
    change Pending mayFail after completed.root completed
    rw [hrootEq]
    exact hinvoked.congr hcompleted

end Enqueue

section Queue

theorem MemOnly.queue_eq {before after : State} (honly : MemOnly before after) :
    after.queue = before.queue := by
  rw [honly]

theorem StatusOnly.queue_eq {before after : State} (hstatus : StatusOnly before after) :
    after.queue = before.queue := by
  rw [hstatus.frame]

theorem KernelOnly.queue_eq {before after : State} (honly : KernelOnly before after) :
    after.queue = before.queue := by
  rw [honly]

theorem setStatus_queue
    {event : Option EventId} {status : EventStatus} :
    Meets True (state.setStatus event status) fun after => after.queue = state.queue :=
  .of_forall fun _ h => (setStatus_statusOnly h).queue_eq

theorem start_queue {event : Option EventId} :
    Meets True (state.start event) fun after => after.queue = state.queue :=
  .of_forall fun _ h => (start_statusOnly h).queue_eq

theorem releaseMem_queue {mem : MemId} :
    Meets True (state.releaseMem mem) fun after => after.queue = state.queue :=
  .of_forall fun _ h => (releaseMem_memOnly h).queue_eq

theorem invocation_queue
    {call : ℕ} {event : Option EventId} {op : DeviceOp} {next : State → Option State}
    (hnext : ∀ completed : State, completed.queue = state.queue →
      Meets True (next completed) fun after => after.queue = state.queue) :
    Meets True
      (state.start event >>= fun started =>
        (started.invoke call op).setStatus event .complete >>= next)
      fun after => after.queue = state.queue :=
  start_queue.seq fun _ hstarted => setStatus_queue.seq fun _ hcompleted =>
    hnext _ (hcompleted.trans hstarted)

/-- No command gives back a reference on the queue. -/
theorem execute_queue :
    Meets True (execute env state node) fun after => after.queue = state.queue := by
  unfold State.execute
  cases node.command with
  | read hostPtr devicePtr cb buffer =>
      exact invocation_queue fun _ hcompleted =>
        releaseMem_queue.mono fun _ h => h.trans hcompleted
  | write hostPtr devicePtr cb buffer =>
      exact invocation_queue fun _ hcompleted =>
        releaseMem_queue.mono fun _ h => h.trans hcompleted
  | copy srcPtr dstPtr cb srcBuffer dstBuffer =>
      refine invocation_queue fun _ hcompleted => ?_
      refine releaseMem_queue.seq fun _ hreleased => ?_
      exact releaseMem_queue.mono fun _ h => h.trans (hreleased.trans hcompleted)
  | map buffer mapping =>
      refine start_queue.seq fun started hstarted => ?_
      have hmap : Meets True (started.mapMemCmd env node.call buffer mapping)
          fun mapped => mapped.queue = started.queue := by
        refine .of_forall fun mapped hmapped => ?_
        obtain ⟨object, _, rfl⟩ := mapMemCmd_eq_some.mp hmapped
        rfl
      refine hmap.seq fun mapped hmapped => ?_
      exact setStatus_queue.mono fun _ h => h.trans (hmapped.trans hstarted)
  | run kernel arguments argBuffers =>
      refine start_queue.seq fun started hstarted => ?_
      refine Meets.seq (.of_forall fun _ h => h) fun _ _ => ?_
      refine Meets.cond (fun _ => trivial) fun _ => ?_
      refine setStatus_queue.seq fun completed hcompleted => ?_
      have hrelease : Meets True (completed.releaseBuffers argBuffers)
          fun released => released.queue = completed.queue :=
        .of_forall fun _ h => (releaseBuffers_memOnly h).queue_eq
      refine hrelease.seq fun released hreleased => ?_
      have hqueue : released.queue = state.queue :=
        hreleased.trans (hcompleted.trans hstarted)
      refine Meets.cond (fun _ => hqueue) fun _ => .of_forall fun _ h => ?_
      exact (releaseKernel_kernelOnly h).queue_eq.trans hqueue
  | marker => exact setStatus_queue

theorem finish_queue :
    Meets True (state.finish env) fun after => after.queue = state.queue := by
  refine Meets.seq (.of_forall fun _ h => h) fun _ _ => ?_
  have hloop : Meets True (state.root.foldlM (execute env) state)
      fun flushed => flushed.queue = state.queue :=
    Meets.foldlM (fun _ middle => middle.queue = state.queue)
      (fun _ _ _ hmiddle => execute_queue.mono fun _ h => h.trans hmiddle) rfl
  exact hloop.seq fun _ hflushed => hflushed

theorem Pending.releaseQueue
    {refcount : ℤ} (hpending : Pending mayFail books state.root state)
    (hqueue : state.queue = some refcount) (hmore : 1 < refcount) :
    Meets mayFail (state.releaseQueue env) (Idle mayFail books) := by
  refine (hpending.finish.also finish_queue).seq fun flushed ⟨hidle, hkept⟩ => ?_
  have hflushedQueue : flushed.queue = some refcount := hkept.trans hqueue
  refine (Meets.self fun _ => by rw [hflushedQueue]; rfl).seq fun found hfound => ?_
  have hsame : found = refcount := Option.some.inj (hfound.symm.trans hflushedQueue)
  refine Meets.cond (fun hlast => ?_) fun _ => ?_
  · omega
  · have hrest := hidle.pending
    exact ⟨⟨hrest.counted.congr_mem rfl rfl, ⟨_, rfl, by omega⟩, hrest.events,
      hrest.nextEvent, hrest.node_event, hrest.kernels, hrest.node_kernel,
      hrest.node_args, hrest.node_borrowed, hrest.base_nonneg, hrest.nextMem⟩, hidle.root_eq⟩

end Queue

section Events

/-- The books with another number of references on an event. -/
def Books.setEvent (books : Books) (event : EventId) (references : ℤ) : Books :=
  { books with events := Function.update books.events event references }

/-- An event that no command refers to may be freed. -/
theorem Pending.setEvent
    {event : EventId} {object : Option EventObject} {references : ℤ}
    (hpending : Pending mayFail books nodes state)
    (hcount : CountIs (object.map EventObject.refcount) references)
    (hunused : object = none → ∀ node ∈ nodes, node.event ≠ some event) :
    Pending mayFail (books.setEvent event references) nodes
      (state.setEvent event object) := by
  refine ⟨hpending.counted.congr_mem rfl rfl, hpending.queue, fun other => ?_,
    hpending.nextEvent, fun node hnode other hother => ?_, hpending.kernels,
    hpending.node_kernel, hpending.node_args, hpending.node_borrowed,
    hpending.base_nonneg, hpending.nextMem⟩
  · by_cases heq : other = event
    · subst other
      simpa [Books.setEvent, State.setEvent] using hcount
    · simpa [Books.setEvent, State.setEvent, heq] using hpending.events other
  · by_cases heq : other = event
    · subst other
      cases object with
      | none => exact absurd hother (hunused rfl node hnode)
      | some object => simp [State.setEvent]
    · simpa [State.setEvent, heq] using hpending.node_event node hnode other hother

variable (hpending : Pending mayFail books state.root state)

include hpending

theorem Pending.retainEvent
    {event : EventId} (hlive : ¬mayFail → (state.event event).isSome = true) :
    Meets mayFail (state.retainEvent event) fun after =>
      Pending mayFail (books.setEvent event (books.events event + 1)) after.root
        after := by
  refine (Meets.self hlive).seq fun object hobject => ?_
  have hcount := hpending.events event
  rw [hobject] at hcount
  have hrefcount : object.refcount = books.events event := hcount
  exact hpending.setEvent (by simp [CountIs, hrefcount]) nofun

/-- The last release of an event flushes the queue and then frees the record.  On
an HSA device there is no flush, so that no command may refer to the event. -/
theorem Pending.releaseEvent
    {event : EventId} {refcount : ℤ} (hevent : 0 < books.events event)
    (hqueue : state.queue = some refcount)
    (hmore : env.hsaGpu = false → books.events event = 1 → 1 < refcount)
    (hunused : env.hsaGpu = true → books.events event = 1 →
      ∀ node ∈ state.root, node.event ≠ some event) :
    Meets mayFail (state.releaseEvent env event) fun after =>
      Pending mayFail (books.setEvent event (books.events event - 1)) after.root
        after := by
  obtain ⟨object, hobject⟩ := Option.isSome_iff_exists.mp
    (hpending.event_live (ne_of_gt hevent))
  have hcount := hpending.events event
  rw [hobject] at hcount
  have hrefcount : object.refcount = books.events event := hcount
  unfold State.releaseEvent
  rw [hobject]
  change Meets mayFail (if object.refcount - 1 = 0 then _ else _) _
  refine Meets.cond (fun hlast => ?_) fun _ => ?_
  · have hone : books.events event = 1 := by omega
    have hzero : books.setEvent event (books.events event - 1) =
        (books.setEvent event 0).setEvent event 0 := by
      simp [Books.setEvent, hone]
    rw [hzero]
    refine (Meets.self fun _ => by rw [hqueue]; rfl).seq fun _ _ => ?_
    let marked := state.setEvent event (some { object with refcount := 0 })
    have hfirst : Pending mayFail (books.setEvent event 0) marked.root marked :=
      hpending.setEvent rfl nofun
    refine Meets.cond (fun hhsa => ?_) fun hcpu => ?_
    · exact hfirst.setEvent rfl fun _ => hunused hhsa hone
    · refine (hfirst.releaseQueue hqueue
        (hmore (Bool.eq_false_iff.mpr hcpu) hone)).seq fun released hreleased => ?_
      have hfreed : Pending mayFail ((books.setEvent event 0).setEvent event 0) []
          (released.setEvent event none) := hreleased.pending.setEvent rfl nofun
      change Pending mayFail _ released.root (released.setEvent event none)
      rw [hreleased.root_eq]
      exact hfreed
  · exact hpending.setEvent (by simp [CountIs, hrefcount]) nofun

/-- A blocking read of an image with an event releases the queue. -/
theorem Pending.enqueueReadImage
    {args : ImageTransfer} {refcount : ℤ}
    (hlive : ¬mayFail → (state.mem args.image).isSome = true)
    (hqueue : state.queue = some refcount)
    (hmore : args.blocking = true → args.event = true → args.alloc.event = true →
      1 < refcount)
    (hresult : ¬mayFail → args.blocking = false →
      (args.event && !args.alloc.event) = true ∨ args.alloc.node = false) :
    Meets mayFail (state.enqueueReadImage env args) (Covered mayFail books) := by
  have hcounted := hpending.countCall
  refine (Meets.self fun _ => by rw [show state.countCall.queue = _ from hqueue]; rfl).seq
    fun _ _ => ?_
  refine Meets.cond (fun _ => .ret hcounted.settled.covered) fun hevent => ?_
  have hrequestQueue : Meets True (state.countCall.requestEvent args.event false)
      fun result => result.2.queue = some refcount := by
    refine .of_forall fun result hresult => ?_
    cases eventRequest_of_requestEvent hresult with
    | none => exact hqueue
    | new => exact hqueue
  refine (hcounted.requestEvent.also hrequestQueue).seq fun ⟨event, requested⟩
    ⟨⟨after, hgrows, hrequested, hlisted, hroot, hmem, _⟩, hrequestedQueue⟩ => ?_
  have hliveRequested : ¬mayFail → (requested.mem args.image).isSome = true := by
    rw [hmem]
    exact hlive
  refine (Meets.self hliveRequested).seq fun image _ => ?_
  refine Meets.cond (fun hblocking => ?_) fun hqueued => ?_
  · refine (startHsa_meets fun id hid => hrequested.event_live (hlisted id hid)).seq
      fun started hstarted => ?_
    have hsame := invokeReadImage_sameObjects env args image state.calls started
    have hinvoked := (hrequested.congr hstarted).congr hsame
    refine (setStatus_meets fun id hid => hinvoked.event_live (hlisted id hid)).seq
      fun completed hcompleted => ?_
    have hrootEq : completed.root = state.root := by
      rw [hcompleted.root_eq, hsame.root_eq, hstarted.root_eq]
      exact hroot
    have hcompletedQueue : completed.queue = some refcount := by
      rw [hcompleted.queue_eq, hsame.queue_eq, hstarted.queue_eq]
      exact hrequestedQueue
    have hdone : Pending mayFail after completed.root completed := by
      rw [hrootEq]
      exact hinvoked.congr hcompleted
    refine Meets.seq (Meets.cond (fun hrequest => ?_) fun _ => ?_)
      fun released hreleased => .ret ⟨after, hgrows.follows, hreleased⟩
    · have hmade : args.alloc.event = true := by simpa [hrequest] using hevent
      refine (hdone.releaseQueue hcompletedQueue
        (hmore hblocking hrequest hmade)).mono fun released hreleased => ?_
      change Pending mayFail after released.root released
      rw [hreleased.root_eq]
      exact hreleased.pending
    · exact hdone
  · refine Meets.cond (fun _ => .ret ⟨after, hgrows.follows, hroot ▸ hrequested⟩)
      fun hnode => ?_
    -- What follows has no result.
    refine by_contra fun hnot => ?_
    rcases hresult hnot (Bool.eq_false_iff.mpr hqueued) with hfails | hfails
    · exact hevent hfails
    · exact hnode (by simp [hfails])

end Events

section SubBuffers

/-- The books with a new sub-buffer, on which the client has a reference. -/
def Books.addSubBuffer (books : Books) (buffer : MemId) : Books :=
  { books with
    base := Function.update books.base books.nextMem 1
    parents := Function.update books.parents books.nextMem (some buffer)
    maps := Function.update books.maps books.nextMem []
    nextMem := books.nextMem + 1 }

theorem Pending.next_unused (hpending : Pending mayFail books nodes state) :
    books.base books.nextMem = 0 ∧ holds nodes books.nextMem = 0 := by
  have hnone : state.mem books.nextMem = none := by
    cases hfound : state.mem books.nextMem with
    | none => rfl
    | some found =>
        have hlt := hpending.counted.mem_lt books.nextMem (by rw [hfound]; rfl)
        rw [hpending.nextMem] at hlt
        exact absurd hlt (lt_irrefl _)
  have hrefs := (hpending.counted.dead _ hnone).1
  have hbase := hpending.base_nonneg books.nextMem
  omega

theorem Pending.createSubBuffer
    {args : SubBuffer} (hpending : Pending mayFail books state.root state)
    (hlive : ¬mayFail → (state.mem args.buffer).isSome = true) :
    Meets mayFail (state.createSubBuffer args) fun result =>
      Pending mayFail books result.2.root result.2 ∨
        Pending mayFail (books.addSubBuffer args.buffer) result.2.root result.2 := by
  refine (Meets.self hlive).seq fun object hobject => ?_
  refine Meets.cond (fun _ => .ret (.inl hpending)) fun _ => ?_
  obtain ⟨hbase, hholds⟩ := hpending.next_unused
  have hnext := hpending.nextMem
  have hadded : (state.addMem (subBuffer args object)).mem args.buffer = some object := by
    have hlt := hpending.counted.mem_lt args.buffer (by rw [hobject]; rfl)
    simp [addMem, setMem, ne_of_lt hlt, hobject]
  refine .of_eq_some (Option.bind_eq_some_iff.mpr
    ⟨_, retainMem_eq_some.mpr ⟨object, hadded, rfl⟩, rfl⟩) (.inr ?_)
  have hcounted : Counted _ _ _ ((state.addMem (subBuffer args object)).setMem
      args.buffer (some { object with refcount := object.refcount + 1 })) :=
    hpending.counted.addSubBuffer hobject rfl rfl rfl
  refine ⟨?_, hpending.queue, hpending.events, hpending.nextEvent, hpending.node_event,
    hpending.kernels, hpending.node_kernel, hpending.node_args, ?_, ?_, ?_⟩
  · rw [hnext] at hcounted
    refine hcounted.congr_refs fun mem => ?_
    change Function.update books.base books.nextMem 1 mem + (holds state.root mem : ℤ) = _
    by_cases heq : mem = books.nextMem
    · subst mem
      simp [hholds]
    · simp [heq]
  · intro hnot node hnode mem hmem
    have hpos := hpending.node_borrowed hnot node hnode mem hmem
    have hne : mem ≠ books.nextMem := by
      rintro rfl
      omega
    simpa [Books.addSubBuffer, hne] using hpos
  · intro mem
    by_cases heq : mem = books.nextMem
    · subst mem
      simp [Books.addSubBuffer]
    · simpa [Books.addSubBuffer, heq] using hpending.base_nonneg mem
  · exact congrArg (· + 1) hnext

end SubBuffers

end CommandQueue

end Pocl
