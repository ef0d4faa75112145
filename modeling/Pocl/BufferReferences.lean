import Pocl.PendingEnqueues

/-!
# The references of transfers and launches

Transfers, copies and launches hold a reference on each of their buffers while
they are in the queue, and a flush gives exactly these references back.
-/

namespace Pocl

namespace CommandQueue

open State

/-- A queue without commands, and objects on which only the client has
references. -/
structure Session.Fresh (session : Session) : Prop where
  root_eq : session.state.root = []
  queue : ∃ refcount, session.state.queue = some refcount ∧ 0 < refcount
  mem_nonneg : ∀ mem, 0 ≤ session.user.mem mem
  mem_count : ∀ mem, CountIs ((session.state.mem mem).map MemObject.refcount)
    (session.user.mem mem)
  mem_plain : ∀ mem object, session.state.mem mem = some object →
    object.parent = none ∧ object.mappings = [] ∧ mem < session.state.nextMem
  event_count : ∀ event, CountIs ((session.state.event event).map EventObject.refcount)
    (session.user.event event)
  kernel_pos : ∀ kernel object, session.state.kernel kernel = some object →
    0 < object.refcount

/-- Reads, writes, copies, launches, arguments of kernels, references of the client
on memory objects and flushes. -/
def TransfersBuffers (session : Session) : Call → Prop
  | .readBuffer _ | .writeBuffer _ | .copyBuffer _ | .ndRangeKernel _
  | .setKernelArg _ _ _ | .retainMem _ | .finish => True
  | .releaseMem mem => 0 < session.user.mem mem
  | _ => False

/-- The client still has what the commands in the queue borrow, which is the images
of the launches. -/
def Session.HasImages (session : Session) : Prop :=
  ∀ node ∈ session.state.root, ∀ mem ∈ node.command.borrowed,
    0 < session.user.mem mem

/-- The handles that a call gets are those of live objects. -/
def HandlesLive (session : Session) : Call → Prop
  | .readBuffer args | .writeBuffer args =>
      (session.state.mem args.buffer).isSome = true
  | .copyBuffer args =>
      (session.state.mem args.srcBuffer).isSome = true ∧
        (session.state.mem args.dstBuffer).isSome = true
  | .ndRangeKernel args =>
      ∃ kernel, session.state.kernel args.kernel = some kernel ∧
        (∀ mem ∈ (argBuffers kernel).reduceOption,
          (session.state.mem mem).isSome = true) ∧
        ∀ image ∈ imageArgs (arguments kernel), 0 < session.user.mem image
  | .setKernelArg kernel _ _ => (session.state.kernel kernel).isSome = true
  | .retainMem mem => (session.state.mem mem).isSome = true
  | _ => True

/-- The count of each object is that of the client and of the commands, so that a
flush finds the buffers of its commands live and leaves the references of the
client.  The calls, with their flushes, are defined if the client still has the
images of the launches. -/
structure BuffersHeld (env : Env) (session : Session) : Prop where
  refcount_eq : ∀ mem object, session.state.mem mem = some object →
    object.refcount = session.user.mem mem + holds session.state.root mem
  live : ∀ before node behind middle,
    session.state.root = before ++ node :: behind →
      before.foldlM (execute env) session.state = some middle →
        ∀ mem ∈ node.command.held, (middle.mem mem).isSome = true
  finish : ∀ after, session.state.finish env = some after →
    after.root = [] ∧ ∀ mem object, after.mem mem = some object →
      object.refcount = session.user.mem mem
  defined : session.HasImages → ∀ call, TransfersBuffers session call →
    HandlesLive session call → (session.step env call).isSome = true

/-- The books of a client that makes no sub-buffers and no maps. -/
def Session.books (session : Session) : Books where
  base := session.user.mem
  parents := fun _ => none
  maps := fun _ => []
  events := session.user.event
  nextEvent := session.state.nextEvent
  nextMem := session.state.nextMem

variable {env : Env} {session : Session} {mayFail : Prop}

section Invariant

theorem Session.Fresh.pending (hfresh : session.Fresh) :
    Pending True session.books session.state.root session.state := by
  have hsubs : ∀ mem, session.state.subBuffers mem = ∅ := by
    intro mem
    rw [Finset.eq_empty_iff_forall_notMem]
    intro sub hsub
    have hparent := (mem_subBuffers.mp hsub).2
    cases hfound : session.state.mem sub with
    | none =>
        rw [hfound] at hparent
        cases hparent
    | some object =>
        rw [hfound] at hparent
        change object.parent = some mem at hparent
        rw [(hfresh.mem_plain sub object hfound).1] at hparent
        cases hparent
  rw [hfresh.root_eq]
  refine ⟨⟨?_, ?_, ?_, ?_, nofun, ?_, ?_⟩, hfresh.queue, hfresh.event_count, rfl, nofun,
    ?_, nofun, nofun, nofun, hfresh.mem_nonneg, rfl⟩
  · intro mem
    exact Int.add_nonneg (hfresh.mem_nonneg mem) (Int.natCast_nonneg _)
  · intro mem object hobject
    have hcount := hfresh.mem_count mem
    rw [hobject] at hcount
    rw [hsubs]
    change object.refcount = session.user.mem mem + 0 + 0
    change object.refcount = session.user.mem mem at hcount
    omega
  · intro mem hmem
    have hcount := hfresh.mem_count mem
    rw [hmem] at hcount
    refine ⟨?_, hsubs mem⟩
    change session.user.mem mem + 0 = 0
    change session.user.mem mem = 0 at hcount
    omega
  · exact fun mem object hobject => (hfresh.mem_plain mem object hobject).1
  · exact fun mem object hobject => (hfresh.mem_plain mem object hobject).2.1
  · intro mem hlive
    obtain ⟨object, hobject⟩ := Option.isSome_iff_exists.mp hlive
    exact (hfresh.mem_plain mem object hobject).2.2
  · intro kernel object hobject
    exact hfresh.kernel_pos kernel object hobject

/-- The ledger follows the books of a call. -/
theorem Settled.step
    {code : ClCode} {after : State}
    (hsettled : Settled mayFail session.books (code, after)) :
    Pending mayFail
      (Session.mk after (session.user.credit session.state after)).books after.root
      after := by
  obtain ⟨books, hgrows, hpending⟩ := hsettled
  have hbooks : (Session.mk after (session.user.credit session.state after)).books =
      books := by
    have hmem := hpending.nextMem
    have hevent := hpending.nextEvent
    rcases hgrows with rfl | rfl
    · change after.nextMem = session.state.nextMem at hmem
      change after.nextEvent = session.state.nextEvent at hevent
      simp [Session.books, Ledger.credit, hmem, hevent]
    · change after.nextMem = session.state.nextMem at hmem
      change after.nextEvent = session.state.nextEvent + 1 at hevent
      simp [Session.books, Ledger.credit, Books.newEvent, hmem, hevent]
  rw [hbooks]
  exact hpending

theorem Session.books_retainMem
    (session : Session) {mem : MemId} {after : State}
    (honly : MemOnly session.state after) :
    (Session.mk after ((session.user.book (.retainMem mem)).credit session.state
      after)).books = session.books.hold [mem] := by
  have hbase : Function.update session.user.mem mem (session.user.mem mem + 1) =
      fun other => session.user.mem other + ([mem].count other : ℕ) := by
    funext other
    by_cases heq : other = mem
    · subst other
      simp
    · simp [heq, Ne.symm heq]
  rw [honly]
  simp [Session.books, Ledger.credit, Ledger.book, Books.hold, hbase]

theorem Session.books_releaseMem
    (session : Session) {mem : MemId} {after : State}
    (honly : MemOnly session.state after) :
    (Session.mk after ((session.user.book (.releaseMem mem)).credit session.state
      after)).books =
        { session.books with
          base := Function.update session.books.base mem (session.books.base mem - 1) } := by
  rw [honly]
  simp [Session.books, Ledger.credit, Ledger.book]

theorem perform_pending
    {call : Call} (hpending : Pending True session.books session.state.root session.state)
    (hcall : TransfersBuffers session call) :
    Meets True (session.step env call) fun result =>
      Pending True result.2.books result.2.state.root result.2.state := by
  have hstep : Meets True (session.state.perform env call) (fun result =>
      Pending True (Session.mk result.2
        ((session.user.book call).credit session.state result.2)).books result.2.root
          result.2) := by
    cases call with
    | readBuffer args =>
        exact (hpending.enqueueBufferTransfer Command.read_plain
          fun h => (h trivial).elim).mono fun _ hsettled => hsettled.step
    | writeBuffer args =>
        exact (hpending.enqueueBufferTransfer Command.write_plain
          fun h => (h trivial).elim).mono fun _ hsettled => hsettled.step
    | copyBuffer args =>
        exact (hpending.enqueueCopyBuffer fun h => (h trivial).elim).mono
          fun _ hsettled => hsettled.step
    | ndRangeKernel args =>
        exact (hpending.enqueueNDRangeKernel (fun h => (h trivial).elim)
          (fun h => (h trivial).elim) (fun h => (h trivial).elim)).mono
            fun _ hsettled => hsettled.step
    | setKernelArg kernel argIndex argValue =>
        exact (hpending.setKernelArg fun h => (h trivial).elim).mono
          fun _ hsettled => hsettled.step
    | retainMem mem =>
        refine .map ((hpending.retainMem fun h => (h trivial).elim).mono
          fun after ⟨hafter, honly, _⟩ => ?_)
        rw [← session.books_retainMem honly] at hafter
        rw [show (succeed after).2.root = session.state.root by rw [honly]; rfl]
        exact hafter
    | releaseMem mem =>
        refine .map ((hpending.releaseMem hcall fun h => (h trivial).elim).mono
          fun after ⟨hafter, honly⟩ => ?_)
        rw [← session.books_releaseMem honly] at hafter
        rw [show (succeed after).2.root = session.state.root by rw [honly]; rfl]
        exact hafter
    | finish =>
        refine .map (hpending.finish.mono fun after hidle => ?_)
        have hsettled : Settled True session.books (ClCode.success, after) :=
          hidle.settled (.inl rfl)
        exact hsettled.step
    | _ => exact False.elim hcall
  exact hstep.seq fun _ hafter => hafter

end Invariant

section Consequences

theorem Counted.refcount_eq_refs
    {refs : MemId → ℤ} {maps : MemId → List Mapping} {state : State}
    (hcounted : Counted refs (fun _ => none) maps state) {mem : MemId}
    {object : MemObject} (hobject : state.mem mem = some object) :
    object.refcount = refs mem := by
  have hsubs : state.subBuffers mem = ∅ := by
    rw [Finset.eq_empty_iff_forall_notMem]
    intro sub hsub
    obtain ⟨found, hfound, hparent⟩ :=
      Option.bind_eq_some_iff.mp (mem_subBuffers.mp hsub).2
    rw [hcounted.parent_eq sub found hfound] at hparent
    cases hparent
  rw [hcounted.refcount_eq mem object hobject, hsubs]
  simp

/-- The commands in front of a command leave it ready. -/
theorem Pending.execute_front
    {books : Books} {before behind : List Node} {node : Node} {state middle : State}
    (hpending : Pending mayFail books (before ++ node :: behind) state)
    (hmiddle : before.foldlM (State.execute env) state = some middle) :
    Pending mayFail books (node :: behind) middle := by
  induction before generalizing state with
  | nil =>
      cases hmiddle
      exact hpending
  | cons first before ih =>
      rw [List.foldlM_cons] at hmiddle
      obtain ⟨next, hnext, hrest⟩ := Option.bind_eq_some_iff.mp hmiddle
      have hexecute : Meets mayFail (State.execute env state first)
          (Pending mayFail books (before ++ node :: behind)) := hpending.execute
      rw [hnext] at hexecute
      exact ih hexecute hrest

theorem Pending.total
    {books : Books} {nodes : List Node} {state : State}
    (hpending : Pending mayFail books nodes state)
    (hborrowed : ∀ node ∈ nodes, ∀ mem ∈ node.command.borrowed, 0 < books.base mem) :
    Pending False books nodes state :=
  { hpending with node_borrowed := fun _ => hborrowed }

/-- The calls are defined, with all the commands that they execute. -/
theorem perform_defined
    {call : Call} (hpending : Pending False session.books session.state.root session.state)
    (hcall : TransfersBuffers session call) (hlive : HandlesLive session call) :
    (session.step env call).isSome = true := by
  have hperform : Meets False (session.state.perform env call) fun _ => True := by
    cases call with
    | readBuffer args =>
        exact (hpending.enqueueBufferTransfer Command.read_plain fun _ => hlive).mono
          fun _ _ => trivial
    | writeBuffer args =>
        exact (hpending.enqueueBufferTransfer Command.write_plain fun _ => hlive).mono
          fun _ _ => trivial
    | copyBuffer args =>
        exact (hpending.enqueueCopyBuffer fun _ => hlive).mono fun _ _ => trivial
    | ndRangeKernel args =>
        obtain ⟨kernel, hkernel, hbuffers, himages⟩ := hlive
        refine (hpending.enqueueNDRangeKernel (fun _ => by rw [hkernel]; rfl)
          (fun _ found hfound => ?_) fun _ found hfound => ?_).mono fun _ _ => trivial
        · rw [hkernel] at hfound
          cases hfound
          exact hbuffers
        · rw [hkernel] at hfound
          cases hfound
          exact himages
    | setKernelArg kernel argIndex argValue =>
        exact (hpending.setKernelArg fun _ => hlive).mono fun _ _ => trivial
    | retainMem mem =>
        exact .map ((hpending.retainMem fun _ => hlive).mono fun _ _ => trivial)
    | releaseMem mem =>
        have hpos : 1 ≤ session.books.base mem + holds session.state.root mem := by
          have howned : 0 < session.books.base mem := hcall
          omega
        exact .map ((hpending.counted.releaseMem hpos).mono fun _ _ => trivial)
    | finish => exact .map (hpending.finish.mono fun _ _ => trivial)
    | _ => exact False.elim hcall
  obtain ⟨result, hresult, _⟩ := Meets.iff_exists.mp hperform
  unfold Session.step
  rw [hresult]
  rfl

/-- In every run of transfers, launches, flushes and references of the client, the
commands of the queue hold their buffers. -/
theorem reaches_buffersHeld
    {first session : Session} (hfresh : first.Fresh)
    (hreaches : Reaches env TransfersBuffers first session) :
    BuffersHeld env session := by
  have hpending : Pending True session.books session.state.root session.state := by
    refine Reaches.invariant (fun session =>
      Pending True session.books session.state.root session.state) hfresh.pending ?_
        hreaches
    intro session next call code hsession hcall hstep
    exact Meets.iff_forall.mp (perform_pending hsession hcall) _ hstep
  refine ⟨fun mem object hobject => hpending.counted.refcount_eq_refs hobject, ?_, ?_, ?_⟩
  · intro before node behind middle hroot hmiddle mem hmem
    rw [hroot] at hpending
    have hready := hpending.execute_front hmiddle
    refine hready.counted.live ?_
    have hcount : 0 < node.command.held.count mem := List.count_pos_iff.mpr hmem
    have hbase := hready.base_nonneg mem
    rw [holds_cons]
    omega
  · intro after hafter
    have hidle := Meets.iff_forall.mp hpending.finish after hafter
    refine ⟨hidle.root_eq, fun mem object hobject => ?_⟩
    have hcount := hidle.pending.counted.refcount_eq_refs hobject
    rw [hcount]
    change session.user.mem mem + 0 = session.user.mem mem
    omega
  · intro himages call hcall hlive
    exact perform_defined (hpending.total himages) hcall hlive

end Consequences

section Example

/-- A new queue with plain objects. -/
theorem Session.opening_fresh
    {objects : List MemObject} {kernels : List KernelObject}
    (hobjects : ∀ object ∈ objects,
      object.refcount = 1 ∧ object.parent = none ∧ object.mappings = [])
    (hkernels : ∀ kernel ∈ kernels, 0 < kernel.refcount) :
    (Session.opening objects kernels).Fresh where
  root_eq := rfl
  queue := ⟨1, rfl, zero_lt_one⟩
  mem_nonneg := fun mem => by
    change (0 : ℤ) ≤ if mem < objects.length then 1 else 0
    split_ifs
    · exact zero_le_one
    · exact le_refl 0
  mem_count := fun mem => by
    change CountIs (objects[mem]?.map MemObject.refcount)
      (if mem < objects.length then 1 else 0)
    cases hfound : objects[mem]? with
    | none =>
        rw [if_neg (not_lt.mpr (List.getElem?_eq_none_iff.mp hfound))]
        rfl
    | some object =>
        rw [if_pos (List.getElem?_eq_some_iff.mp hfound).1]
        exact (hobjects object (List.mem_of_getElem? hfound)).1
  mem_plain := fun mem object hobject => by
    obtain ⟨_, hparent, hmappings⟩ := hobjects object (List.mem_of_getElem? hobject)
    exact ⟨hparent, hmappings, (List.getElem?_eq_some_iff.mp hobject).1⟩
  event_count := fun _ => rfl
  kernel_pos := fun _ kernel hkernel => hkernels kernel (List.mem_of_getElem? hkernel)

/-- A kernel with the first object as its buffer. -/
def KernelObject.onBuffer : KernelObject where
  refcount := 1
  numArgs := 1
  args := fun _ => ⟨false, true, false, some (some 0)⟩
  fromBinary := false

/-- The client gives back its reference on a buffer that a write and a launch hold. -/
theorem releasedBuffer_buffersHeld :
    ∃ session, Reaches singleCpu TransfersBuffers (.opening [.plain] [.onBuffer]) session ∧
      session.user.mem 0 = 0 ∧ holds session.state.root 0 = 2 ∧
      BuffersHeld singleCpu session := by
  obtain ⟨session, hreaches, htest⟩ := Reaches.exists_of_runIf singleCpu
    TransfersBuffers
    (fun session call =>
      match call with
      | .writeBuffer _ | .ndRangeKernel _ => true
      | .releaseMem mem => 0 < session.user.mem mem
      | _ => false)
    (fun session call hpermitted => by
      cases call with
      | writeBuffer args => trivial
      | ndRangeKernel args => trivial
      | releaseMem mem =>
          have howned : 0 < session.user.mem mem := of_decide_eq_true hpermitted
          exact howned
      | _ => cases hpermitted)
    (.opening [.plain] [.onBuffer])
    [.writeBuffer (firstWord false), .ndRangeKernel firstLaunch, .releaseMem 0]
    (fun session => session.user.mem 0 = 0 ∧ holds session.state.root 0 = 2)
    (by decide +kernel)
  obtain ⟨huser, hholds⟩ := of_decide_eq_true htest
  have hfresh : (Session.opening [.plain] [.onBuffer]).Fresh :=
    Session.opening_fresh (by simp [MemObject.plain]) (by simp [KernelObject.onBuffer])
  exact ⟨session, hreaches, huser, hholds, reaches_buffersHeld hfresh hreaches⟩

end Example

end CommandQueue

end Pocl
