import Pocl.PendingCommands

/-!
# The enqueue functions and the commands in the queue

Each function takes the references of its command and then appends it, or it
flushes the queue and gives the references back itself.  Handles of live objects
keep every function defined.
-/

namespace Pocl

namespace CommandQueue

open State

namespace Books

/-- The books with references that are about to pass to a command. -/
def hold (books : Books) (mems : List MemId) : Books :=
  { books with base := fun mem => books.base mem + (mems.count mem : ℕ) }

theorem hold_hold (books : Books) (first second : List MemId) :
    (books.hold first).hold second = books.hold (first ++ second) := by
  simp only [hold, Books.mk.injEq, and_true]
  funext mem
  rw [List.count_append]
  push_cast
  ring

theorem hold_singleton (books : Books) (mem : MemId) :
    books.hold [mem] =
      { books with base := Function.update books.base mem (books.base mem + 1) } := by
  simp only [hold, Books.mk.injEq, and_true]
  funext other
  by_cases heq : other = mem
  · subst other
    simp
  · simp [heq, Ne.symm heq]

/-- The books with a new event, on which the client has a reference. -/
def newEvent (books : Books) : Books :=
  { books with
    events := Function.update books.events books.nextEvent 1
    nextEvent := books.nextEvent + 1 }

/-- The books behind a call that may have made an event. -/
def Grows (books after : Books) : Prop :=
  after = books ∨ after = books.newEvent

end Books

/-- The post-condition of a call. -/
def Settled (mayFail : Prop) (books : Books) (result : ClCode × State) : Prop :=
  ∃ after, books.Grows after ∧ Pending mayFail after result.2.root result.2

variable {mayFail : Prop} {books : Books} {nodes : List Node} {node : Node}
  {state : State} {env : Env}

section Changes

/-- Other books for the same commands, with other memory objects. -/
theorem Pending.withMem
    {other : Books} {after : State} (hpending : Pending mayFail books nodes state)
    (hcounted : Counted (fun mem => other.base mem + holds nodes mem) other.parents
      other.maps after)
    (honly : MemOnly state after) (hevents : other.events = books.events)
    (hnext : other.nextEvent = books.nextEvent)
    (hnextMem : other.nextMem = books.nextMem)
    (hborrowed : ¬mayFail → ∀ node ∈ nodes, ∀ mem ∈ node.command.borrowed,
      0 < other.base mem)
    (hbase : ∀ mem, 0 ≤ other.base mem) : Pending mayFail other nodes after where
  counted := hcounted
  queue := by
    rw [honly]
    exact hpending.queue
  events := by
    rw [honly, hevents]
    exact hpending.events
  nextEvent := by
    rw [honly, hnext]
    exact hpending.nextEvent
  node_event := by
    rw [honly]
    exact hpending.node_event
  kernels := by
    rw [honly]
    exact hpending.kernels
  node_kernel := by
    rw [honly]
    exact hpending.node_kernel
  node_args := hpending.node_args
  node_borrowed := hborrowed
  base_nonneg := hbase
  nextMem := by
    rw [honly, hnextMem]
    exact hpending.nextMem

/-- More references than before. -/
theorem Pending.withHold
    {mems : List MemId} {after : State} (hpending : Pending mayFail books nodes state)
    (hcounted : Counted (fun mem => books.base mem + holds nodes mem +
      (mems.count mem : ℕ)) books.parents books.maps after)
    (honly : MemOnly state after) : Pending mayFail (books.hold mems) nodes after := by
  refine hpending.withMem (hcounted.congr_refs fun mem => ?_) honly rfl rfl rfl ?_ ?_
  · change books.base mem + (mems.count mem : ℕ) + _ = _
    ring
  · intro hnot node hnode mem hmem
    exact Int.add_pos_of_pos_of_nonneg (hpending.node_borrowed hnot node hnode mem hmem)
      (Int.natCast_nonneg _)
  · intro mem
    exact Int.add_nonneg (hpending.base_nonneg mem) (Int.natCast_nonneg _)

theorem Pending.retainMem
    {mem : MemId} (hpending : Pending mayFail books nodes state)
    (hlive : ¬mayFail → (state.mem mem).isSome = true) :
    Meets mayFail (state.retainMem mem) fun after =>
      Pending mayFail (books.hold [mem]) nodes after ∧ MemOnly state after ∧
        ∀ other, (after.mem other).isSome = (state.mem other).isSome :=
  (hpending.counted.retainMem hlive).mono fun _ ⟨hcounted, honly, hkept⟩ =>
    ⟨hpending.withHold hcounted honly, honly, hkept⟩

theorem Pending.retainBuffers
    {buffers : List (Option MemId)} (hpending : Pending mayFail books nodes state)
    (hlive : ¬mayFail → ∀ mem ∈ buffers.reduceOption, (state.mem mem).isSome = true) :
    Meets mayFail (state.retainBuffers buffers) fun after =>
      Pending mayFail (books.hold buffers.reduceOption) nodes after ∧
        MemOnly state after :=
  (hpending.counted.retainBuffers hlive).mono fun _ ⟨hcounted, honly⟩ =>
    ⟨hpending.withHold hcounted honly, honly⟩

/-- A reference that belongs to no command is given back. -/
theorem Pending.releaseMem
    {mem : MemId} (hpending : Pending mayFail books nodes state)
    (hbase : 0 < books.base mem)
    (hborrowed : ¬mayFail → ∀ node ∈ nodes, mem ∈ node.command.borrowed →
      1 < books.base mem) :
    Meets mayFail (state.releaseMem mem) fun after =>
      Pending mayFail
        { books with base := Function.update books.base mem (books.base mem - 1) } nodes
        after ∧ MemOnly state after := by
  have hone : 1 ≤ books.base mem + holds nodes mem := by omega
  refine (hpending.counted.releaseMem hone).mono fun after ⟨hcounted, honly⟩ => ?_
  refine ⟨hpending.withMem (hcounted.congr_refs fun other => ?_) honly rfl rfl rfl ?_ ?_,
    honly⟩
  · by_cases heq : other = mem
    · subst other
      simp only [Function.update_self, List.count_singleton_self]
      omega
    · simp [heq, Ne.symm heq]
  · intro hnot node hnode other hother
    by_cases heq : other = mem
    · subst other
      have hmore := hborrowed hnot node hnode hother
      simp only [Function.update_self]
      omega
    · simpa [heq] using hpending.node_borrowed hnot node hnode other hother
  · intro other
    by_cases heq : other = mem
    · subst other
      simp only [Function.update_self]
      omega
    · simpa [heq] using hpending.base_nonneg other

theorem Idle.held_live
    {mem : MemId} (hidle : Idle mayFail (books.hold [mem]) state)
    (hbase : ∀ mem, 0 ≤ books.base mem) : (state.mem mem).isSome = true := by
  refine hidle.pending.counted.live ?_
  have hmem := hbase mem
  change 0 < books.base mem + ([mem].count mem : ℕ) + (holds [] mem : ℕ)
  rw [List.count_singleton_self]
  omega

/-- The references behind a flush go back to where they came from. -/
theorem Idle.releaseBuffers
    {buffers : List (Option MemId)}
    (hidle : Idle mayFail (books.hold buffers.reduceOption) state)
    (hbase : ∀ mem, 0 ≤ books.base mem) :
    Meets mayFail (state.releaseBuffers buffers) (Idle mayFail books) := by
  have hle : ∀ mem, ((buffers.reduceOption.count mem : ℕ) : ℤ) ≤
      (books.hold buffers.reduceOption).base mem + holds [] mem := by
    intro mem
    have hmem := hbase mem
    change _ ≤ books.base mem + _ + _
    omega
  refine (hidle.pending.counted.releaseBuffers hle).mono
    fun after ⟨hcounted, honly⟩ => ⟨?_, ?_⟩
  · refine hidle.pending.withMem (hcounted.congr_refs fun mem => ?_) honly rfl rfl rfl ?_
      hbase
    · change _ = books.base mem + _ + _ - _
      ring
    · intro _ node hnode
      cases hnode
  · rw [honly]
    exact hidle.root_eq

theorem Idle.releaseMem
    {mem : MemId} (hidle : Idle mayFail (books.hold [mem]) state)
    (hbase : ∀ mem, 0 ≤ books.base mem) :
    Meets mayFail (state.releaseMem mem) (Idle mayFail books) := by
  rw [← releaseBuffers_one]
  exact Idle.releaseBuffers hidle hbase

theorem Pending.event_live
    {event : EventId} (hpending : Pending mayFail books nodes state)
    (hevent : books.events event ≠ 0) : (state.event event).isSome = true := by
  have hcount := hpending.events event
  cases hfound : state.event event with
  | none =>
      rw [hfound] at hcount
      exact absurd hcount hevent
  | some object => rfl

theorem requestEvent_true
    {refcount : ℤ} {holdsQueue : Bool} (hqueue : state.queue = some refcount) :
    state.requestEvent true holdsQueue = some (some state.nextEvent,
      { state.setEvent state.nextEvent (some ⟨1, .queued⟩) with
        nextEvent := state.nextEvent + 1
        queue := some (if holdsQueue then refcount + 1 else refcount) }) := by
  cases holdsQueue with
  | false => simp [State.requestEvent, createEvent, setEvent, hqueue]
  | true => simp [State.requestEvent, createEvent, retainQueue, setEvent, hqueue]

/-- A new event of the client, which may hold a reference on the queue. -/
theorem Pending.withEvent
    {refcount : ℤ} {holdsQueue : Bool} (hpending : Pending mayFail books nodes state)
    (hpos : 0 < refcount) :
    Pending mayFail books.newEvent nodes
      { state.setEvent state.nextEvent (some ⟨1, .queued⟩) with
        nextEvent := state.nextEvent + 1
        queue := some (if holdsQueue then refcount + 1 else refcount) } := by
  refine ⟨hpending.counted.congr_mem rfl rfl, ⟨_, rfl, ?_⟩, fun event => ?_, ?_, ?_,
    hpending.kernels, hpending.node_kernel, hpending.node_args, hpending.node_borrowed,
    hpending.base_nonneg, hpending.nextMem⟩
  · split_ifs
    · omega
    · exact hpos
  · by_cases heq : event = books.nextEvent
    · subst event
      simp [Books.newEvent, setEvent, hpending.nextEvent, CountIs]
    · simpa [Books.newEvent, setEvent, hpending.nextEvent, heq] using
        hpending.events event
  · exact congrArg (· + 1) hpending.nextEvent
  · intro node hnode event hevent
    by_cases heq : event = state.nextEvent
    · subst event
      simp [setEvent]
    · simpa [setEvent, heq] using hpending.node_event node hnode event hevent

theorem Pending.requestEvent
    {requested holdsQueue : Bool} (hpending : Pending mayFail books nodes state) :
    Meets mayFail (state.requestEvent requested holdsQueue) fun result =>
      ∃ after, books.Grows after ∧ Pending mayFail after nodes result.2 ∧
        (∀ id, result.1 = some id → after.events id ≠ 0) ∧
        result.2.root = state.root ∧ result.2.mem = state.mem ∧
        result.2.kernel = state.kernel := by
  obtain ⟨refcount, hqueue, hpos⟩ := hpending.queue
  cases requested with
  | false =>
      exact ⟨books, .inl rfl, hpending, (fun _ h => by cases h), rfl, rfl, rfl⟩
  | true =>
      refine .of_eq_some (requestEvent_true hqueue) ⟨books.newEvent, .inr rfl, ?_,
        fun id hid => ?_, rfl, rfl, rfl⟩
      · exact hpending.withEvent hpos
      · cases hid
        simp [Books.newEvent, hpending.nextEvent]

/-- The command takes over the references that its caller holds. -/
theorem Pending.append
    {before : State} (hbefore : Pending mayFail books nodes before)
    (hheld : Pending mayFail (books.hold node.command.held) nodes state)
    (hroot : state.root = nodes)
    (hevent : ∀ id, node.event = some id → books.events id ≠ 0)
    (hlaunched : ∀ kernel, node.command.launched = some kernel →
      ∃ object, state.kernel kernel = some object ∧
        (launchesOf kernel nodes : ℤ) + 1 < object.refcount)
    (hargs : node.command.KeepsArgs)
    (hborrowed : ¬mayFail → ∀ mem ∈ node.command.borrowed, 0 < books.base mem) :
    Pending mayFail books (state.append node).root (state.append node) := by
  have hmember : ∀ {other : Node}, other ∈ (state.append node).root →
      other ∈ nodes ∨ other = node := by
    intro other hother
    change other ∈ state.root ++ [node] at hother
    rw [hroot, List.mem_append, List.mem_singleton] at hother
    exact hother
  have hlaunches : ∀ kernel, launchesOf kernel (state.append node).root =
      launchesOf kernel nodes + if node.command.launched = some kernel then 1 else 0 := by
    intro kernel
    simp [launchesOf, State.append, hroot, List.countP_append, List.countP_cons]
  refine ⟨?_, hheld.queue, hheld.events, hheld.nextEvent, ?_, ?_, ?_, ?_, ?_,
    hbefore.base_nonneg, hheld.nextMem⟩
  · refine Counted.congr_mem (hheld.counted.congr_refs fun mem => ?_) rfl rfl
    have hholds : (holds (state.append node).root mem : ℤ) =
        (holds nodes mem : ℕ) + (node.command.held.count mem : ℕ) := by
      simp [holds, State.append, hroot, List.flatMap_append, List.count_append]
    rw [hholds]
    change _ = books.base mem + _ + _
    ring
  · intro other hother
    rcases hmember hother with hold | rfl
    · exact hheld.node_event other hold
    · exact fun id hid => hheld.event_live (hevent id hid)
  · intro kernel object hobject
    have hlt := hheld.kernels kernel object hobject
    rw [hlaunches]
    by_cases hthis : node.command.launched = some kernel
    · obtain ⟨found, hfound, hmore⟩ := hlaunched kernel hthis
      have hsame : found = object := Option.some.inj (hfound.symm.trans hobject)
      rw [if_pos hthis]
      rw [hsame] at hmore
      push_cast
      exact hmore
    · rw [if_neg hthis]
      simpa using hlt
  · intro kernel hkernel
    rw [hlaunches] at hkernel
    by_cases hthis : node.command.launched = some kernel
    · obtain ⟨found, hfound, _⟩ := hlaunched kernel hthis
      change (state.kernel kernel).isSome = true
      rw [hfound]
      rfl
    · rw [if_neg hthis] at hkernel
      exact hheld.node_kernel kernel hkernel
  · intro other hother
    rcases hmember hother with hold | rfl
    · exact hbefore.node_args other hold
    · exact hargs
  · intro hnot other hother
    rcases hmember hother with hold | rfl
    · exact hbefore.node_borrowed hnot other hold
    · exact hborrowed hnot

/-- A command that touches nothing but the buffers that it holds. -/
structure Command.Plain (command : Command) (mems : List MemId) : Prop where
  held_eq : command.held = mems
  launched_eq : command.launched = none
  borrowed_eq : command.borrowed = []

theorem Command.read_plain (hostPtr devicePtr cb : SizeT) (buffer : MemId) :
    (Command.read hostPtr devicePtr cb buffer).Plain [buffer] :=
  ⟨rfl, rfl, rfl⟩

theorem Command.write_plain (hostPtr devicePtr cb : SizeT) (buffer : MemId) :
    (Command.write hostPtr devicePtr cb buffer).Plain [buffer] :=
  ⟨rfl, rfl, rfl⟩

theorem Pending.appendPlain
    {before : State} {mems : List MemId}
    (hbefore : Pending mayFail books nodes before)
    (hheld : Pending mayFail (books.hold mems) nodes state)
    (hplain : node.command.Plain mems) (hroot : state.root = nodes)
    (hevent : ∀ id, node.event = some id → books.events id ≠ 0) :
    Pending mayFail books (state.append node).root (state.append node) := by
  rw [← hplain.held_eq] at hheld
  have hlaunched := hplain.launched_eq
  refine hbefore.append hheld hroot hevent ?_ ?_ ?_
  · intro kernel hkernel
    rw [hlaunched] at hkernel
    cases hkernel
  · intro kernel arguments argBuffers hcommand
    rw [hcommand] at hlaunched
    cases hlaunched
  · intro _ mem hmem
    rw [hplain.borrowed_eq] at hmem
    cases hmem

theorem Idle.settled
    {before : Books} {code : ClCode} (hidle : Idle mayFail books state)
    (hgrows : before.Grows books) : Settled mayFail before (code, state) := by
  refine ⟨books, hgrows, ?_⟩
  rw [hidle.root_eq]
  exact hidle.pending

theorem Pending.settled
    {code : ClCode} (hpending : Pending mayFail books state.root state) :
    Settled mayFail books (code, state) :=
  ⟨books, .inl rfl, hpending⟩

theorem Pending.retainQueue (hpending : Pending mayFail books nodes state) :
    Meets mayFail state.retainQueue fun after =>
      Pending mayFail books nodes after ∧ after.root = state.root ∧
        after.mem = state.mem ∧ after.kernel = state.kernel := by
  obtain ⟨refcount, hqueue, hpos⟩ := hpending.queue
  refine .of_eq_some (retainQueue_eq_some.mpr ⟨refcount, hqueue, rfl⟩)
    ⟨?_, rfl, rfl, rfl⟩
  exact ⟨hpending.counted.congr_mem rfl rfl, ⟨_, rfl, by omega⟩, hpending.events,
    hpending.nextEvent, hpending.node_event, hpending.kernels, hpending.node_kernel,
    hpending.node_args, hpending.node_borrowed, hpending.base_nonneg, hpending.nextMem⟩

/-- The kernel of a launch gets the reference that its command will hold. -/
theorem Pending.retainKernel
    {kernel : KernelId} {object : KernelObject}
    (hobject : state.kernel kernel = some object)
    (hpending : Pending mayFail books nodes state) :
    Meets mayFail (state.retainKernel kernel) fun after =>
      Pending mayFail books nodes after ∧ KernelOnly state after ∧
        ∃ found, after.kernel kernel = some found ∧
          (launchesOf kernel nodes : ℤ) + 1 < found.refcount := by
  have hretain := retainKernel_eq_some.mpr ⟨object, hobject, rfl⟩
  have hlt := hpending.kernels kernel object hobject
  refine .of_eq_some hretain ⟨?_, rfl,
    { object with refcount := object.refcount + 1 }, by simp [setKernel], ?_⟩
  · refine ⟨hpending.counted.congr_mem rfl rfl, hpending.queue, hpending.events,
      hpending.nextEvent, hpending.node_event, fun other found hfound => ?_,
      fun other hother => ?_, hpending.node_args, hpending.node_borrowed,
      hpending.base_nonneg, hpending.nextMem⟩
    · by_cases heq : other = kernel
      · subst other
        simp only [setKernel, Function.update_self, Option.some.injEq] at hfound
        subst found
        change (launchesOf kernel nodes : ℤ) < object.refcount + 1
        omega
      · simp only [setKernel, Function.update_of_ne heq] at hfound
        exact hpending.kernels other found hfound
    · by_cases heq : other = kernel
      · subst other
        simp [setKernel]
      · simpa [setKernel, heq] using hpending.node_kernel other hother
  · change (launchesOf kernel nodes : ℤ) + 1 < object.refcount + 1
    omega

end Changes

section Enqueue

/-- The loop over the arguments of the kernel gives the buffers of the copies. -/
theorem argBuffers_eq (kernel : KernelObject) :
    argBuffers kernel = bufferArgs (arguments kernel) := by
  unfold argBuffers bufferArgs arguments
  rw [List.filterMap_map]
  rfl

/-- An operation behind a flush, with its buffers held around it. -/
theorem Pending.flushedRun
    {call : ℕ} {op : DeviceOp} {event : Option EventId} {code : ClCode}
    {buffers : List (Option MemId)} {before : Books} (hgrows : before.Grows books)
    (hpending : Pending mayFail (books.hold buffers.reduceOption) state.root state)
    (hbase : ∀ mem, 0 ≤ books.base mem)
    (hevent : ∀ id, event = some id → books.events id ≠ 0) :
    Meets mayFail
      (state.finish env >>= fun flushed => flushed.start event >>= fun started =>
        (started.invoke call op).setStatus event .complete >>= fun completed =>
          completed.releaseBuffers buffers >>= fun released => pure (code, released))
      (Settled mayFail before) := by
  refine hpending.finish.seq fun flushed hflushed => ?_
  refine (start_meets fun id hid => hflushed.pending.event_live (hevent id hid)).seq
    fun started hstarted => ?_
  have hinvoked : Idle mayFail (books.hold buffers.reduceOption)
      (started.invoke call op) := (hflushed.congr hstarted).invoke
  refine (setStatus_meets fun id hid =>
    hinvoked.pending.event_live (hevent id hid)).seq fun completed hcompleted => ?_
  refine ((hinvoked.congr hcompleted).releaseBuffers hbase).seq
    fun released hreleased => ?_
  exact .ret (hreleased.settled hgrows)

variable (hpending : Pending mayFail books state.root state)

include hpending

theorem Pending.enqueueBufferTransfer
    {op : SizeT → SizeT → SizeT → DeviceOp}
    {command : SizeT → SizeT → SizeT → MemId → Command} {queuedIndex : ℕ}
    {args : BufferTransfer}
    (hplain : ∀ hostPtr devicePtr cb buffer,
      (command hostPtr devicePtr cb buffer).Plain [buffer])
    (hlive : ¬mayFail → (state.mem args.buffer).isSome = true) :
    Meets mayFail (state.enqueueBufferTransfer env op command queuedIndex args)
      (Settled mayFail books) := by
  have hcounted := hpending.countCall
  obtain ⟨refcount, hqueue, _⟩ := hcounted.queue
  refine (Meets.self fun _ => by rw [hqueue]; rfl).seq fun _ _ => ?_
  refine (Meets.self hlive).seq fun buffer hbuffer => ?_
  cases transferError args buffer with
  | some code => exact .ret hcounted.settled
  | none =>
      refine hcounted.requestEvent.seq fun ⟨event, requested⟩
        ⟨after, hgrows, hrequested, hevent, hroot, hmem, _⟩ => ?_
      have hliveRequested : ¬mayFail → (requested.mem args.buffer).isSome = true := by
        rw [hmem]
        exact hlive
      refine Meets.cond (fun _ => ?_) fun _ => Meets.cond (fun _ => ?_) fun _ => ?_
      · refine (hrequested.retainMem hliveRequested).seq
          fun held ⟨hheld, honly, _⟩ => ?_
        have hheldRoot : held.root = state.root := by
          rw [honly]
          exact hroot
        have hflush : Pending mayFail (after.hold [args.buffer]) held.root held :=
          hheldRoot ▸ hheld
        refine hflush.finish.seq fun flushed hflushed => ?_
        refine (start_meets fun id hid =>
          hflushed.pending.event_live (hevent id hid)).seq fun started hstarted => ?_
        have hstartedIdle := hflushed.congr hstarted
        refine (Meets.self fun _ =>
          hstartedIdle.held_live hrequested.base_nonneg).seq fun found _ => ?_
        refine (setStatus_meets fun id hid =>
          hstartedIdle.invoke.pending.event_live (hevent id hid)).seq
            fun completed hcompleted => ?_
        refine ((hstartedIdle.invoke.congr hcompleted).releaseMem
          hrequested.base_nonneg).seq fun released hreleased => ?_
        exact .ret (hreleased.settled hgrows)
      · refine .ret ⟨after, hgrows, ?_⟩
        rw [hroot]
        exact hrequested
      · refine (hrequested.retainMem hliveRequested).seq
          fun held ⟨hheld, honly, _⟩ => ?_
        refine .ret ⟨after, hgrows, hrequested.appendPlain hheld (hplain _ _ _ _) ?_
          hevent⟩
        rw [honly]
        exact hroot

theorem Pending.enqueueCopyBuffer
    {args : BufferCopy}
    (hlive : ¬mayFail → (state.mem args.srcBuffer).isSome = true ∧
      (state.mem args.dstBuffer).isSome = true) :
    Meets mayFail (state.enqueueCopyBuffer env args) (Settled mayFail books) := by
  have hcounted := hpending.countCall
  obtain ⟨refcount, hqueue, _⟩ := hcounted.queue
  refine (Meets.self fun _ => by rw [hqueue]; rfl).seq fun _ _ => ?_
  refine (Meets.self fun hnot => (hlive hnot).1).seq fun src _ => ?_
  refine (Meets.self fun hnot => (hlive hnot).2).seq fun dst _ => ?_
  refine Meets.cond (fun _ => .ret hcounted.settled) fun _ => ?_
  refine Meets.cond (fun _ => .ret hcounted.settled) fun _ => ?_
  refine Meets.cond (fun _ => .ret hcounted.settled) fun _ => ?_
  refine hcounted.requestEvent.seq fun ⟨event, requested⟩
    ⟨after, hgrows, hrequested, hevent, hroot, hmem, _⟩ => ?_
  refine Meets.cond (fun _ => .ret ⟨after, hgrows, hroot ▸ hrequested⟩) fun _ => ?_
  have hliveRequested : ¬mayFail → (requested.mem args.srcBuffer).isSome = true ∧
      (requested.mem args.dstBuffer).isSome = true := by
    rw [hmem]
    exact hlive
  refine (hrequested.retainMem fun hnot => (hliveRequested hnot).1).seq
    fun heldSrc ⟨hsrc, hsrcOnly, hkept⟩ => ?_
  refine (hsrc.retainMem fun hnot =>
    (hkept args.dstBuffer).trans (hliveRequested hnot).2).seq
      fun heldDst ⟨hdst, hdstOnly, _⟩ => ?_
  rw [Books.hold_hold] at hdst
  have hplain : (Command.copy (src.devicePtrs env.devId + args.srcOffset)
      (dst.devicePtrs env.devId + args.dstOffset) args.cb args.srcBuffer
      args.dstBuffer).Plain ([args.srcBuffer] ++ [args.dstBuffer]) :=
    ⟨rfl, rfl, rfl⟩
  refine .ret ⟨after, hgrows, hrequested.appendPlain hdst hplain ?_ hevent⟩
  rw [hdstOnly, hsrcOnly]
  exact hroot

theorem Pending.enqueueNDRangeKernel
    {args : KernelLaunch}
    (hkernel : ¬mayFail → (state.kernel args.kernel).isSome = true)
    (hbuffers : ¬mayFail → ∀ kernel, state.kernel args.kernel = some kernel →
      ∀ mem ∈ (argBuffers kernel).reduceOption, (state.mem mem).isSome = true)
    (himages : ¬mayFail → ∀ kernel, state.kernel args.kernel = some kernel →
      ∀ image ∈ imageArgs (arguments kernel), 0 < books.base image) :
    Meets mayFail (state.enqueueNDRangeKernel args) (Settled mayFail books) := by
  have hcounted := hpending.countCall
  obtain ⟨refcount, hqueue, _⟩ := hcounted.queue
  refine (Meets.self fun _ => by rw [hqueue]; rfl).seq fun _ _ => ?_
  refine (Meets.self hkernel).seq fun kernel hobject => ?_
  refine Meets.cond (fun _ => .ret hcounted.settled) fun _ => ?_
  refine Meets.cond (fun _ => .ret hcounted.settled) fun _ => ?_
  refine hcounted.requestEvent.seq fun ⟨event, requested⟩
    ⟨after, hgrows, hrequested, hevent, hroot, hmem, hkernels⟩ => ?_
  have hbase : ∀ mem, after.base mem = books.base mem := by
    intro mem
    rcases hgrows with rfl | rfl
    · rfl
    · rfl
  refine hrequested.retainQueue.seq
    fun queued ⟨hqueued, hqueuedRoot, hqueuedMem, hqueuedKernel⟩ => ?_
  have hqueuedObject : queued.kernel args.kernel = some kernel := by
    rw [hqueuedKernel, hkernels]
    exact hobject
  refine (hqueued.retainKernel hqueuedObject).seq
    fun kept ⟨hkept, hkernelOnly, hmore⟩ => ?_
  have hkeptMem : kept.mem = state.mem := by
    rw [hkernelOnly]
    exact hqueuedMem.trans hmem
  refine (hkept.retainBuffers fun hnot mem hheld => by
    rw [hkeptMem]
    exact hbuffers hnot kernel hobject mem hheld).seq fun held ⟨hheld, honly⟩ => ?_
  rw [argBuffers_eq] at hheld ⊢
  refine .ret ⟨after, hgrows, hrequested.append hheld ?_ hevent ?_ ?_ ?_⟩
  · rw [honly, hkernelOnly]
    exact hqueuedRoot.trans hroot
  · intro launched hlaunched
    cases hlaunched
    rw [honly]
    exact hmore
  · intro launched arguments argBuffers hcommand
    cases hcommand
    rfl
  · intro hnot image himage
    rw [hbase]
    exact himages hnot kernel hobject image himage

theorem Pending.enqueueMarker {event : Bool} {alloc : Allocations} :
    Meets mayFail (state.enqueueMarker event alloc) (Settled mayFail books) := by
  have hcounted := hpending.countCall
  obtain ⟨refcount, hqueue, _⟩ := hcounted.queue
  refine (Meets.self fun _ => by rw [hqueue]; rfl).seq fun _ _ => ?_
  refine Meets.cond (fun _ => .ret hcounted.settled) fun _ => ?_
  refine Meets.cond (fun _ => .ret hcounted.settled) fun _ => ?_
  refine hcounted.requestEvent.seq fun ⟨event, requested⟩
    ⟨after, hgrows, hrequested, hevent, hroot, _, _⟩ => ?_
  refine Meets.cond (fun _ => .ret ⟨after, hgrows, hroot ▸ hrequested⟩) fun _ => ?_
  have hnone : Pending mayFail (after.hold []) state.root requested :=
    hrequested.withHold (hrequested.counted.congr_refs (by simp)) rfl
  have hplain : Command.marker.Plain [] := ⟨rfl, rfl, rfl⟩
  exact .ret ⟨after, hgrows, hrequested.appendPlain hnone hplain hroot hevent⟩

theorem Pending.setKernelArg
    {kernel : KernelId} {argIndex : ℕ} {argValue : Option (Option MemId)}
    (hlive : ¬mayFail → (state.kernel kernel).isSome = true) :
    Meets mayFail (state.setKernelArg env kernel argIndex argValue)
      (Settled mayFail books) := by
  refine (Meets.self hlive).seq fun object hobject => ?_
  refine Meets.cond (fun _ => .ret hpending.settled) fun _ => .ret ?_
  refine Pending.settled ⟨hpending.counted.congr_mem rfl rfl, hpending.queue,
    hpending.events, hpending.nextEvent, hpending.node_event,
    fun other found hfound => ?_, fun other hother => ?_, hpending.node_args,
    hpending.node_borrowed, hpending.base_nonneg, hpending.nextMem⟩
  · by_cases heq : other = kernel
    · subst other
      simp only [setKernel, Function.update_self, Option.some.injEq] at hfound
      subst found
      exact hpending.kernels kernel object hobject
    · simp only [setKernel, Function.update_of_ne heq] at hfound
      exact hpending.kernels other found hfound
  · by_cases heq : other = kernel
    · subst other
      simp [setKernel]
    · simpa [setKernel, heq] using hpending.node_kernel other hother

end Enqueue

end CommandQueue

end Pocl
