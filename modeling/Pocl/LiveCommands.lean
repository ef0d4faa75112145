import Pocl.PendingMaps
import Pocl.BufferReferences

/-!
# What a flush touches

The commands of the queue refer to events, mapped buffers and images on which they
have no reference.  A flush finds all of them live as long as the client does not
free one of them between the enqueue call and the flush.
-/

namespace Pocl

namespace CommandQueue

open State

/-- The event of the command, the buffer of a map and all memory objects of a launch are
live.  The record of a mapping is freed with its buffer only, if at all. -/
structure Node.Live (node : Node) (state : State) : Prop where
  event : ∀ event, node.event = some event → (state.event event).isSome = true
  map : ∀ buffer mapping, node.command = .map buffer mapping →
    (state.mem buffer).isSome = true
  launch : ∀ kernel arguments argBuffers,
    node.command = .run kernel arguments argBuffers →
      ∀ mem ∈ memArgs arguments, (state.mem mem).isSome = true

/-- `clFinish` gets to each command of the queue and finds it live. -/
def State.NodesLive (env : Env) (state : State) : Prop :=
  ∀ before node behind, state.root = before ++ node :: behind →
    ∃ middle, before.foldlM (execute env) state = some middle ∧ node.Live middle

/-- The references of the client on an object, with those of its mappings. -/
def Session.backing (session : Session) (mem : MemId) : ℤ :=
  session.user.mem mem + (session.state.mappingsOf mem).length

/-- The client uses handles of live objects, and it gives back only references that
it has. -/
def RespectsCounts (session : Session) : Call → Prop
  | .readBuffer args | .writeBuffer args =>
      (session.state.mem args.buffer).isSome = true
  | .copyBuffer args =>
      (session.state.mem args.srcBuffer).isSome = true ∧
        (session.state.mem args.dstBuffer).isSome = true
  | .mapBuffer args => (session.state.mem args.buffer).isSome = true
  | .unmapMemObject args => (session.state.mem args.mem).isSome = true
  | .ndRangeKernel args =>
      ∃ kernel, session.state.kernel args.kernel = some kernel ∧
        (∀ mem ∈ (argBuffers kernel).reduceOption,
          (session.state.mem mem).isSome = true) ∧
        ∀ image ∈ imageArgs (arguments kernel), 0 < session.backing image
  | .flushedTransfer args =>
      ∀ mem ∈ args.buffers, (session.state.mem mem).isSome = true
  | .writeBufferRect args event =>
      (∀ mem ∈ args.buffers, (session.state.mem mem).isSome = true) ∧
        ∀ id, event = some id → 0 < session.user.event id
  | .readImage args | .writeImage args => (session.state.mem args.image).isSome = true
  | .marker _ _ => True
  | .setKernelArg kernel _ _ => (session.state.kernel kernel).isSome = true
  | .createSubBuffer args => (session.state.mem args.buffer).isSome = true
  | .retainMem mem => (session.state.mem mem).isSome = true
  | .releaseMem mem => 0 < session.user.mem mem
  | .retainEvent event => (session.state.event event).isSome = true
  | .releaseEvent event => 0 < session.user.event event
  | .finish => True
  | _ => False

/-- An object that a command in the queue borrows keeps another reference. -/
def Session.SparesBorrowed (session : Session) (mem : MemId) : Prop :=
  ∀ node ∈ session.state.root, mem ∈ node.command.borrowed → 1 < session.backing mem

/-- The call frees nothing that a command in the queue refers to, it leaves a
reference on the queue, and it does not go on to queue the read of an image. -/
def SparesCommands (env : Env) (session : Session) : Call → Prop
  | .releaseMem mem => session.SparesBorrowed mem
  | .unmapMemObject args =>
      ∀ mapping,
        (session.state.mappingsOf args.mem).find?
          (fun mapping => mapping.hostPtr = args.mappedPtr) = some mapping →
        session.SparesBorrowed args.mem
  | .releaseEvent event =>
      session.user.event event = 1 →
        if env.hsaGpu then
          ∀ node ∈ session.state.root, node.event ≠ some event
        else
          session.state.queue ≠ some 1
  | .readImage args =>
      if args.blocking then
        args.event = true → args.alloc.event = true → session.state.queue ≠ some 1
      else
        (args.event && !args.alloc.event) = true ∨ args.alloc.node = false
  | _ => True

/-- A call of a client that respects its counts and spares the commands. -/
def KeepsLive (env : Env) (session : Session) (call : Call) : Prop :=
  RespectsCounts session call ∧ SparesCommands env session call

/-- A flush finds its commands live, be it called by the client or by another call:
an execution is undefined at a command that is not live, and every call is
defined. -/
structure TouchesLive (env : Env) (session : Session) : Prop where
  nodes : session.state.NodesLive env
  executed : ∀ state node after, execute env state node = some after → node.Live state
  defined : ∀ call, KeepsLive env session call →
    (session.step env call).isSome = true

variable {env : Env} {session : Session} {books : Books}

section Execution

theorem setStatus_live
    {state after : State} {event : Option EventId} {status : EventStatus}
    (hset : state.setStatus event status = some after) :
    ∀ id, event = some id → (state.event id).isSome = true := by
  rintro id rfl
  obtain ⟨object, hobject, _⟩ := Option.bind_eq_some_iff.mp hset
  rw [hobject]
  rfl

theorem start_live
    {state : State} {event : Option EventId} {next : State → Option State} {after : State}
    (hstart : (state.start event >>= next) = some after) :
    ∀ id, event = some id → (state.event id).isSome = true := by
  obtain ⟨started, hstarted, _⟩ := Option.bind_eq_some_iff.mp hstart
  obtain ⟨middle, hmiddle, _⟩ := Option.bind_eq_some_iff.mp hstarted
  exact setStatus_live hmiddle

theorem event_live_of_execute
    {state after : State} {node : Node} (hexecute : execute env state node = some after) :
    ∀ id, node.event = some id → (state.event id).isSome = true := by
  cases node with
  | mk call event command =>
      cases command with
      | read => exact start_live hexecute
      | write => exact start_live hexecute
      | copy => exact start_live hexecute
      | map => exact start_live hexecute
      | run => exact start_live hexecute
      | marker => exact setStatus_live hexecute

/-- The execution of a command is undefined at a dead object. -/
theorem Node.live_of_execute
    {state after : State} {node : Node} (hexecute : execute env state node = some after) :
    node.Live state := by
  refine ⟨event_live_of_execute hexecute, fun buffer mapping hcommand => ?_,
    fun kernel arguments argBuffers hcommand => ?_⟩
  · simp only [execute, hcommand] at hexecute
    obtain ⟨started, hstarted, hrest⟩ := Option.bind_eq_some_iff.mp hexecute
    obtain ⟨mapped, hmapped, _⟩ := Option.bind_eq_some_iff.mp hrest
    obtain ⟨object, hobject, _⟩ := mapMemCmd_eq_some.mp hmapped
    rw [(start_statusOnly hstarted).sameObjects.mem_eq] at hobject
    rw [hobject]
    rfl
  · simp only [execute, hcommand] at hexecute
    obtain ⟨started, hstarted, hrest⟩ := Option.bind_eq_some_iff.mp hexecute
    obtain ⟨object, _, hrest⟩ := Option.bind_eq_some_iff.mp hrest
    have hmem := (start_statusOnly hstarted).sameObjects.mem_eq
    intro mem hmember
    by_contra hdead
    have hany : (memArgs arguments).all started.isLive = false := by
      rw [List.all_eq_false]
      refine ⟨mem, hmember, ?_⟩
      unfold State.isLive
      rw [hmem]
      exact hdead
    rw [if_pos (by rw [hany]; rfl)] at hrest
    cases hrest

/-- The commands in front of a command can be executed, and they leave it live. -/
theorem Pending.nodesLive
    {state : State} (hpending : Pending False books state.root state) :
    state.NodesLive env := by
  intro before node behind hroot
  rw [hroot] at hpending
  have hfront : Meets False (before.foldlM (State.execute env) state) fun _ => True := by
    clear hroot
    induction before generalizing state with
    | nil => exact trivial
    | cons first before ih =>
        rw [List.foldlM_cons]
        exact Meets.seq hpending.execute fun next hnext => ih hnext
  obtain ⟨middle, hmiddle, _⟩ := Meets.iff_exists.mp hfront
  have hready := hpending.execute_front hmiddle
  have hnode : Meets False (State.execute env middle node) _ := hready.execute
  obtain ⟨after, hafter, _⟩ := Meets.iff_exists.mp hnode
  exact ⟨middle, hmiddle, Node.live_of_execute hafter⟩

end Execution

section Invariant

/-- The books behind the references of the client: whoever has been forgotten only
makes objects live longer. -/
structure Session.Backed (session : Session) (books : Books) : Prop where
  pending : Pending False books session.state.root session.state
  events_eq : books.events = session.user.event
  mem_nonneg : ∀ mem, 0 ≤ session.user.mem mem
  covered : ∀ mem, session.user.mem mem + (books.maps mem).length ≤ books.base mem

theorem Session.Backed.mappings_eq (hbacked : session.Backed books) (mem : MemId) :
    session.state.mappingsOf mem = books.maps mem := by
  unfold State.mappingsOf
  cases hobject : session.state.mem mem with
  | none =>
      have hrefs := (hbacked.pending.counted.dead mem hobject).1
      have hcovered := hbacked.covered mem
      have hnonneg := hbacked.mem_nonneg mem
      have hempty : (books.maps mem).length = 0 := by omega
      exact (List.length_eq_zero_iff.mp hempty).symm
  | some object => exact hbacked.pending.counted.mappings_eq mem object hobject

theorem Session.Backed.backing_le (hbacked : session.Backed books) (mem : MemId) :
    session.backing mem ≤ books.base mem := by
  unfold Session.backing
  rw [hbacked.mappings_eq]
  exact hbacked.covered mem

/-- The ledger follows the books of a call. -/
theorem Covered.backed
    {result : ClCode × State} (hcovered : Covered False books result)
    (hbacked : session.Backed books) :
    ∃ after, (Session.mk result.2
      (session.user.credit session.state result.2)).Backed after := by
  obtain ⟨after, hfollows, hpending⟩ := hcovered
  have hmem : result.2.nextMem = session.state.nextMem := by
    rw [hpending.nextMem, hfollows.nextMem, hbacked.pending.nextMem]
  have huser : (session.user.credit session.state result.2).mem = session.user.mem := by
    simp [Ledger.credit, hmem]
  refine ⟨after, hpending, ?_, ?_, fun mem => ?_⟩
  · have hevent := hpending.nextEvent
    have hbefore := hbacked.pending.nextEvent
    rcases hfollows.events with ⟨hevents, hnext⟩ | ⟨hevents, hnext⟩
    · rw [hevents, hbacked.events_eq]
      simp [Ledger.credit, hevent, hnext, hbefore]
    · rw [hevents, hbacked.events_eq]
      simp [Ledger.credit, hevent, hnext, hbefore]
  · change ∀ mem, 0 ≤ (session.user.credit session.state result.2).mem mem
    rw [huser]
    exact hbacked.mem_nonneg
  · change (session.user.credit session.state result.2).mem mem + _ ≤ _
    rw [huser]
    have hspare := hfollows.spare mem
    have hold := hbacked.covered mem
    omega

/-- A retain or a release of a memory object. -/
theorem Session.Backed.setMem
    {call : Call} {mem : MemId} {change : ℤ} {after : State}
    (hbacked : session.Backed books)
    (hbook : session.user.book call =
      { session.user with
        mem := Function.update session.user.mem mem (session.user.mem mem + change) })
    (hnonneg : 0 ≤ session.user.mem mem + change)
    (hpending : Pending False
      { books with base := Function.update books.base mem (books.base mem + change) }
      session.state.root after)
    (honly : MemOnly session.state after) :
    (Session.mk after ((session.user.book call).credit session.state after)).Backed
      { books with
        base := Function.update books.base mem (books.base mem + change) } := by
  have hroot : after.root = session.state.root := by
    rw [honly]
  have hmem : after.nextMem = session.state.nextMem := by
    rw [honly]
  have hevent : after.nextEvent = session.state.nextEvent := by
    rw [honly]
  refine ⟨hroot ▸ hpending, ?_, fun other => ?_, fun other => ?_⟩
  · simpa [Ledger.credit, hbook, hevent] using hbacked.events_eq
  · by_cases heq : other = mem
    · subst other
      simpa [Ledger.credit, hbook, hmem] using hnonneg
    · simpa [Ledger.credit, hbook, hmem, heq] using hbacked.mem_nonneg other
  · have hold := hbacked.covered other
    by_cases heq : other = mem
    · subst other
      simp only [Ledger.credit, hbook, hmem, lt_irrefl, if_false, Function.update_self]
      omega
    · simpa [Ledger.credit, hbook, hmem, heq] using hold

/-- A retain or a release of an event. -/
theorem Session.Backed.setEvent
    {call : Call} {event : EventId} {references : ℤ} {after : State}
    (hbacked : session.Backed books)
    (hbook : session.user.book call =
      { session.user with
        event := Function.update session.user.event event references })
    (hpending : Pending False (books.setEvent event references) after.root after) :
    (Session.mk after ((session.user.book call).credit session.state after)).Backed
      (books.setEvent event references) := by
  have hmem : after.nextMem = session.state.nextMem := by
    rw [hpending.nextMem, hbacked.pending.nextMem]
    rfl
  have hevent : after.nextEvent = session.state.nextEvent := by
    rw [hpending.nextEvent, hbacked.pending.nextEvent]
    rfl
  refine ⟨hpending, ?_, ?_, ?_⟩
  · simp [Ledger.credit, hbook, Books.setEvent, hevent, hbacked.events_eq]
  · simpa [Ledger.credit, hbook, hmem] using hbacked.mem_nonneg
  · simpa [Ledger.credit, hbook, hmem, Books.setEvent] using hbacked.covered

theorem Session.Backed.addSubBuffer
    {buffer : MemId} {after : State} (hbacked : session.Backed books)
    (hpending : Pending False (books.addSubBuffer buffer) after.root after) :
    (Session.mk after (session.user.credit session.state after)).Backed
      (books.addSubBuffer buffer) := by
  have hbefore := hbacked.pending.nextMem
  have hmem : after.nextMem = session.state.nextMem + 1 := by
    rw [hpending.nextMem, hbefore]
    rfl
  have hevent : after.nextEvent = session.state.nextEvent := by
    rw [hpending.nextEvent, hbacked.pending.nextEvent]
    rfl
  refine ⟨hpending, ?_, fun mem => ?_, fun mem => ?_⟩
  · simpa [Ledger.credit, Books.addSubBuffer, hevent] using hbacked.events_eq
  · by_cases heq : mem = books.nextMem
    · subst mem
      simp [Ledger.credit, hmem, hbefore]
    · simpa [Ledger.credit, hmem, hbefore, heq] using hbacked.mem_nonneg mem
  · by_cases heq : mem = books.nextMem
    · subst mem
      simp [Ledger.credit, Books.addSubBuffer, hmem, hbefore]
    · simpa [Ledger.credit, Books.addSubBuffer, hmem, hbefore, heq] using
        hbacked.covered mem

theorem Session.Fresh.backed (hfresh : session.Fresh) : session.Backed session.books where
  pending := hfresh.pending.total fun node hnode => by
    rw [hfresh.root_eq] at hnode
    cases hnode
  events_eq := rfl
  mem_nonneg := hfresh.mem_nonneg
  covered := fun mem => by simp [Session.books]

/-- One call of a client that keeps the commands live. -/
theorem step_backed
    {call : Call} (hbacked : session.Backed books) (hcall : KeepsLive env session call) :
    Meets False (session.step env call) fun result => ∃ after, result.2.Backed after := by
  have hpending := hbacked.pending
  obtain ⟨refcount, hqueue, hpos⟩ := hpending.queue
  have hmore : session.state.queue ≠ some 1 → 1 < refcount := by
    rw [hqueue, ne_eq, Option.some.injEq]
    intro hne
    omega
  obtain ⟨hcounts, hspares⟩ := hcall
  have hstep : Meets False (session.state.perform env call) (fun result =>
      ∃ after, (Session.mk result.2
        ((session.user.book call).credit session.state result.2)).Backed after) := by
    cases call with
    | readBuffer args =>
        exact (hpending.enqueueBufferTransfer Command.read_plain fun _ => hcounts).mono
          fun _ hsettled => hsettled.covered.backed hbacked
    | writeBuffer args =>
        exact (hpending.enqueueBufferTransfer Command.write_plain fun _ => hcounts).mono
          fun _ hsettled => hsettled.covered.backed hbacked
    | copyBuffer args =>
        exact (hpending.enqueueCopyBuffer fun _ => hcounts).mono
          fun _ hsettled => hsettled.covered.backed hbacked
    | mapBuffer args =>
        exact (hpending.enqueueMapBuffer fun _ => hcounts).mono
          fun _ hcovered => hcovered.backed hbacked
    | unmapMemObject args =>
        have hbase := hbacked.backing_le args.mem
        have hcovered := hbacked.covered args.mem
        have hnonneg := hbacked.mem_nonneg args.mem
        simp only [SparesCommands, hbacked.mappings_eq] at hspares
        refine (hpending.enqueueUnmapMemObject (fun _ => hcounts) (by omega)
          fun _ mapping hfind node hnode hborrowed => ?_).mono
            fun _ hcovered => hcovered.backed hbacked
        exact lt_of_lt_of_le (hspares mapping hfind node hnode hborrowed) hbase
    | ndRangeKernel args =>
        obtain ⟨kernel, hkernel, hbuffers, himages⟩ := hcounts
        refine (hpending.enqueueNDRangeKernel (fun _ => by rw [hkernel]; rfl)
          (fun _ found hfound => ?_) fun _ found hfound image himage => ?_).mono
            fun _ hsettled => hsettled.covered.backed hbacked
        · rw [hkernel] at hfound
          cases hfound
          exact hbuffers
        · rw [hkernel] at hfound
          cases hfound
          exact lt_of_lt_of_le (himages image himage) (hbacked.backing_le image)
    | flushedTransfer args =>
        exact (hpending.enqueueFlushedTransfer fun _ => hcounts).mono
          fun _ hsettled => hsettled.covered.backed hbacked
    | writeBufferRect args event =>
        refine (hpending.enqueueWriteBufferRect (fun _ => hcounts.1) ?_).mono
          fun _ hsettled => hsettled.covered.backed hbacked
        intro id hid
        rw [hbacked.events_eq]
        exact ne_of_gt (hcounts.2 id hid)
    | readImage args =>
        refine (hpending.enqueueReadImage (fun _ => hcounts) hqueue
          (fun hblocking hevent hmade => ?_) fun _ hqueued => ?_).mono
            fun _ hcovered => hcovered.backed hbacked
        · simp only [SparesCommands, hblocking, if_true] at hspares
          exact hmore (hspares hevent hmade)
        · simpa only [SparesCommands, hqueued, Bool.false_eq_true, if_false] using hspares
    | writeImage args =>
        exact (hpending.enqueueWriteImage fun _ => hcounts).mono
          fun _ hsettled => hsettled.covered.backed hbacked
    | marker event alloc =>
        exact hpending.enqueueMarker.mono
          fun _ hsettled => hsettled.covered.backed hbacked
    | setKernelArg kernel argIndex argValue =>
        exact (hpending.setKernelArg fun _ => hcounts).mono
          fun _ hsettled => hsettled.covered.backed hbacked
    | createSubBuffer args =>
        refine (hpending.createSubBuffer fun _ => hcounts).mono fun result hresult => ?_
        rcases hresult with hsame | hadded
        · have hcovered : Covered False books result :=
            ⟨books, Books.Grows.follows (.inl rfl), hsame⟩
          exact hcovered.backed hbacked
        · exact ⟨_, hbacked.addSubBuffer hadded⟩
    | retainMem mem =>
        refine .map ((hpending.retainMem fun _ => hcounts).mono
          fun after ⟨hafter, honly, _⟩ => ⟨_, hbacked.setMem rfl ?_ ?_ honly⟩)
        · exact Int.add_nonneg (hbacked.mem_nonneg mem) zero_le_one
        · rw [Books.hold_singleton] at hafter
          exact hafter
    | releaseMem mem =>
        have howned : 0 < session.user.mem mem := hcounts
        have hcovered := hbacked.covered mem
        refine .map ((hpending.releaseMem (by omega)
          fun _ node hnode hborrowed => ?_).mono
            fun after ⟨hafter, honly⟩ => ⟨_, hbacked.setMem rfl (by omega) hafter honly⟩)
        exact lt_of_lt_of_le (hspares node hnode hborrowed) (hbacked.backing_le mem)
    | retainEvent event =>
        refine .map ((hpending.retainEvent fun _ => hcounts).mono fun after hafter => ?_)
        rw [hbacked.events_eq] at hafter
        exact ⟨_, hbacked.setEvent rfl hafter⟩
    | releaseEvent event =>
        have howned : 0 < session.user.event event := hcounts
        have hevents := hbacked.events_eq
        simp only [SparesCommands] at hspares
        refine .map ((hpending.releaseEvent (by rw [hevents]; exact howned) hqueue
          (fun hcpu hlast => ?_) fun hhsa hlast => ?_).mono fun after hafter => ?_)
        · rw [hevents] at hlast
          rw [hcpu, if_neg Bool.false_ne_true] at hspares
          exact hmore (hspares hlast)
        · rw [hevents] at hlast
          rw [hhsa, if_pos rfl] at hspares
          exact hspares hlast
        · rw [hevents] at hafter
          exact ⟨_, hbacked.setEvent rfl hafter⟩
    | finish =>
        refine .map (hpending.finish.mono fun after hidle => ?_)
        have hsettled : Settled False books (ClCode.success, after) :=
          hidle.settled (.inl rfl)
        exact hsettled.covered.backed hbacked
    | _ => exact False.elim hcounts
  exact hstep.seq fun _ hafter => hafter

/-- In every run of a client that respects its counts and spares the commands in
the queue, a flush touches only live objects. -/
theorem reaches_touchesLive
    {first session : Session} (hfresh : first.Fresh)
    (hreaches : Reaches env (KeepsLive env) first session) :
    TouchesLive env session := by
  obtain ⟨books, hbacked⟩ : ∃ books, session.Backed books := by
    refine Reaches.invariant (fun session => ∃ books, session.Backed books)
      ⟨first.books, hfresh.backed⟩ ?_ hreaches
    intro session next call code hsession hcall hstep
    obtain ⟨books, hbacked⟩ := hsession
    obtain ⟨result, hresult, hafter⟩ := Meets.iff_exists.mp (step_backed hbacked hcall)
    rw [hstep] at hresult
    cases hresult
    exact hafter
  refine ⟨hbacked.pending.nodesLive, fun _ _ _ => Node.live_of_execute,
    fun call hcall => ?_⟩
  obtain ⟨result, hresult, _⟩ := Meets.iff_exists.mp (step_backed hbacked hcall)
  rw [hresult]
  rfl

end Invariant

section Example

/-- A kernel with the first object as a buffer and the second one as an image. -/
def KernelObject.onImage : KernelObject where
  refcount := 1
  numArgs := 2
  args := fun i =>
    if i = 0 then ⟨false, true, false, some (some 0)⟩
    else ⟨false, false, true, some (some 1)⟩
  fromBinary := false

/-- The handles of a launch are those of live objects. -/
def Session.permitsLaunch (session : Session) (args : KernelLaunch) : Bool :=
  match session.state.kernel args.kernel with
  | none => false
  | some kernel =>
      (argBuffers kernel).reduceOption.all session.state.isLive &&
        (imageArgs (arguments kernel)).all fun image => 0 < session.backing image

theorem Session.respectsCounts_of_permitsLaunch
    {args : KernelLaunch} (hpermits : session.permitsLaunch args = true) :
    RespectsCounts session (.ndRangeKernel args) := by
  unfold Session.permitsLaunch at hpermits
  cases hkernel : session.state.kernel args.kernel with
  | none => simp [hkernel] at hpermits
  | some kernel =>
      simp only [hkernel, Bool.and_eq_true, List.all_eq_true,
        decide_eq_true_eq] at hpermits
      exact ⟨kernel, hkernel, hpermits⟩

/-- A launch and a map are in the queue, and the client gives back references that
it does not need to keep. -/
theorem launchThenMap_touchesLive :
    ∃ session, Reaches singleCpu (KeepsLive singleCpu)
        (.opening [.plain, .plain] [.onImage]) session ∧
      session.state.root.length = 2 ∧ session.user.mem 0 = 0 ∧
      session.user.mem 1 = 1 ∧ TouchesLive singleCpu session := by
  obtain ⟨session, hreaches, htest⟩ := Reaches.exists_of_runIf singleCpu
    (KeepsLive singleCpu)
    (fun session call =>
      match call with
      | .ndRangeKernel args => session.permitsLaunch args
      | .mapBuffer args => session.state.isLive args.buffer
      | .retainMem mem => session.state.isLive mem
      | .releaseMem mem => 0 < session.user.mem mem ∧ 1 < session.backing mem
      | _ => false)
    (fun session call hpermitted => by
      cases call with
      | ndRangeKernel args =>
          exact ⟨session.respectsCounts_of_permitsLaunch hpermitted, trivial⟩
      | mapBuffer args => exact ⟨hpermitted, trivial⟩
      | retainMem mem => exact ⟨hpermitted, trivial⟩
      | releaseMem mem =>
          have hboth := of_decide_eq_true hpermitted
          exact ⟨hboth.1, fun _ _ _ => hboth.2⟩
      | _ => cases hpermitted)
    (.opening [.plain, .plain] [.onImage])
    [.ndRangeKernel firstLaunch, .mapBuffer (firstMap false), .retainMem 1,
      .releaseMem 1, .releaseMem 0]
    (fun session => session.state.root.length = 2 ∧ session.user.mem 0 = 0 ∧
      session.user.mem 1 = 1)
    (by decide +kernel)
  obtain ⟨hroot, hbuffer, himage⟩ := of_decide_eq_true htest
  have hfresh : (Session.opening [.plain, .plain] [.onImage]).Fresh :=
    Session.opening_fresh (by simp [MemObject.plain]) (by simp [KernelObject.onImage])
  exact ⟨session, hreaches, hroot, hbuffer, himage,
    reaches_touchesLive hfresh hreaches⟩

/-- The client gives back its only reference on an image of a launch. -/
theorem releasedImage_not_nodesLive :
    ∃ session, Reaches singleCpu RespectsCounts
        (.opening [.plain, .plain] [.onImage]) session ∧
      ¬session.state.NodesLive singleCpu := by
  obtain ⟨session, hreaches, htest⟩ := Reaches.exists_of_runIf singleCpu RespectsCounts
    (fun session call =>
      match call with
      | .ndRangeKernel args => session.permitsLaunch args
      | .releaseMem mem => 0 < session.user.mem mem
      | _ => false)
    (fun session call hpermitted => by
      cases call with
      | ndRangeKernel args => exact session.respectsCounts_of_permitsLaunch hpermitted
      | releaseMem mem =>
          have howned : 0 < session.user.mem mem := of_decide_eq_true hpermitted
          exact howned
      | _ => cases hpermitted)
    (.opening [.plain, .plain] [.onImage])
    [.ndRangeKernel firstLaunch, .releaseMem 1]
    (fun session => (session.state.root.head?.map fun node => node.command.borrowed) =
      some [1] ∧ (session.state.mem 1).isSome = false)
    (by decide +kernel)
  obtain ⟨hhead, hdead⟩ := of_decide_eq_true htest
  refine ⟨session, hreaches, fun hlive => ?_⟩
  cases hroot : session.state.root with
  | nil => simp [hroot] at hhead
  | cons node behind =>
      have hborrowed : node.command.borrowed = [1] := by
        simpa [hroot] using hhead
      obtain ⟨middle, hmiddle, hnode⟩ := hlive [] node behind hroot
      cases hmiddle
      cases hcommand : node.command with
      | run kernel arguments argBuffers =>
          rw [hcommand] at hborrowed
          have himage := hnode.launch kernel arguments argBuffers hcommand 1 (by
            rw [memArgs, show imageArgs arguments = [1] from hborrowed]
            simp)
          rw [hdead] at himage
          cases himage
      | map buffer mapping =>
          rw [hcommand] at hborrowed
          have hbuffer := hnode.map buffer mapping hcommand
          rw [show buffer = 1 from (List.cons.inj hborrowed).1, hdead] at hbuffer
          cases hbuffer
      | _ =>
          rw [hcommand] at hborrowed
          cases hborrowed

end Example

end CommandQueue

end Pocl
