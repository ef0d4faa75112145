import Pocl.MemReferences

/-!
# Commands in the queue

Every object that the commands of the queue touch is live: their events, their
kernels, the objects that they hold and those that they only borrow.  A
flush of such a queue is defined, and it gives back the references of the
commands.
-/

namespace Pocl

namespace CommandQueue

open State

/-- The memory objects on which a command holds references, which the flush gives
back. -/
def Command.held : Command → List MemId
  | .read _ _ _ buffer | .write _ _ _ buffer => [buffer]
  | .copy _ _ _ srcBuffer dstBuffer => [srcBuffer, dstBuffer]
  | .run _ arguments _ => (bufferArgs arguments).reduceOption
  | .map _ _ | .marker => []

/-- The objects to which a command points without a reference: the images of a launch
and the buffer of a map. -/
def Command.borrowed : Command → List MemId
  | .run _ arguments _ => imageArgs arguments
  | .map buffer _ => [buffer]
  | _ => []

/-- The list of buffers that a launch gives back is that of its arguments. -/
def Command.KeepsArgs (command : Command) : Prop :=
  ∀ kernel arguments argBuffers, command = .run kernel arguments argBuffers →
    argBuffers = bufferArgs arguments

/-- How often the commands name an object as one that they hold. -/
def holds (nodes : List Node) (mem : MemId) : ℕ :=
  (nodes.flatMap fun node => node.command.held).count mem

/-- The references that belong to the client, and what goes with the objects. -/
structure Books where
  /-- The references on memory objects that no command gives back. -/
  base : MemId → ℤ
  parents : MemId → Option MemId
  maps : MemId → List Mapping
  events : EventId → ℤ
  nextEvent : EventId
  nextMem : MemId

/-- The commands touch only live objects.  The borrowed ones may be dead if the
execution of the commands may be undefined. -/
structure Pending (mayFail : Prop) (books : Books) (nodes : List Node)
    (state : State) : Prop where
  counted : Counted (fun mem => books.base mem + holds nodes mem) books.parents
    books.maps state
  queue : ∃ refcount, state.queue = some refcount ∧ 0 < refcount
  events : ∀ event, CountIs ((state.event event).map EventObject.refcount)
    (books.events event)
  nextEvent : state.nextEvent = books.nextEvent
  node_event : ∀ node ∈ nodes, ∀ event, node.event = some event →
    (state.event event).isSome = true
  kernels : ∀ kernel object, state.kernel kernel = some object →
    (launchesOf kernel nodes : ℤ) < object.refcount
  node_kernel : ∀ kernel, launchesOf kernel nodes ≠ 0 →
    (state.kernel kernel).isSome = true
  node_args : ∀ node ∈ nodes, node.command.KeepsArgs
  node_borrowed : ¬mayFail → ∀ node ∈ nodes, ∀ mem ∈ node.command.borrowed,
    0 < books.base mem
  base_nonneg : ∀ mem, 0 ≤ books.base mem
  nextMem : state.nextMem = books.nextMem

/-- A queue behind a flush. -/
structure Idle (mayFail : Prop) (books : Books) (state : State) : Prop where
  pending : Pending mayFail books [] state
  root_eq : state.root = []

/-- Nothing has changed but the status of events and what is only recorded. -/
structure SameObjects (before after : State) : Prop where
  root_eq : after.root = before.root
  mem_eq : after.mem = before.mem
  nextMem_eq : after.nextMem = before.nextMem
  queue_eq : after.queue = before.queue
  nextEvent_eq : after.nextEvent = before.nextEvent
  event_eq : ∀ event, (after.event event).map EventObject.refcount =
    (before.event event).map EventObject.refcount
  kernel_eq : after.kernel = before.kernel

variable {mayFail : Prop} {books : Books} {nodes : List Node} {node : Node}
  {state : State} {env : Env}

section Frames

theorem SameObjects.refl : SameObjects state state :=
  ⟨rfl, rfl, rfl, rfl, rfl, fun _ => rfl, rfl⟩

theorem invoke_sameObjects {call : ℕ} {op : DeviceOp} :
    SameObjects state (state.invoke call op) :=
  ⟨rfl, rfl, rfl, rfl, rfl, fun _ => rfl, rfl⟩

theorem SameObjects.trans
    {before middle after : State} (hfirst : SameObjects before middle)
    (hsecond : SameObjects middle after) : SameObjects before after :=
  ⟨hsecond.root_eq.trans hfirst.root_eq, hsecond.mem_eq.trans hfirst.mem_eq,
    hsecond.nextMem_eq.trans hfirst.nextMem_eq, hsecond.queue_eq.trans hfirst.queue_eq,
    hsecond.nextEvent_eq.trans hfirst.nextEvent_eq,
    fun event => (hsecond.event_eq event).trans (hfirst.event_eq event),
    hsecond.kernel_eq.trans hfirst.kernel_eq⟩

theorem StatusOnly.sameObjects
    {before after : State} (hstatus : StatusOnly before after) :
    SameObjects before after := by
  have hframe := hstatus.frame
  have hrefcount := hstatus.refcount_eq
  generalize after.event = events at hframe hrefcount
  subst after
  exact ⟨rfl, rfl, rfl, rfl, rfl, hrefcount, rfl⟩

theorem SameObjects.event_isSome
    {before after : State} (hsame : SameObjects before after) (event : EventId) :
    (after.event event).isSome = (before.event event).isSome := by
  have hrefcount := congrArg Option.isSome (hsame.event_eq event)
  simpa using hrefcount

theorem Pending.congr
    {after : State} (hpending : Pending mayFail books nodes state)
    (hsame : SameObjects state after) : Pending mayFail books nodes after where
  counted := hpending.counted.congr_mem hsame.mem_eq hsame.nextMem_eq
  queue := hsame.queue_eq ▸ hpending.queue
  events := fun event => by
    rw [hsame.event_eq]
    exact hpending.events event
  nextEvent := hsame.nextEvent_eq.trans hpending.nextEvent
  node_event := fun node hnode event hevent => by
    rw [hsame.event_isSome]
    exact hpending.node_event node hnode event hevent
  kernels := hsame.kernel_eq ▸ hpending.kernels
  node_kernel := hsame.kernel_eq ▸ hpending.node_kernel
  node_args := hpending.node_args
  node_borrowed := hpending.node_borrowed
  base_nonneg := hpending.base_nonneg
  nextMem := hsame.nextMem_eq.trans hpending.nextMem

theorem setStatus_meets
    {event : Option EventId} {status : EventStatus}
    (hlive : ∀ id, event = some id → (state.event id).isSome = true) :
    Meets mayFail (state.setStatus event status) (SameObjects state) := by
  cases event with
  | none => exact .refl
  | some event =>
      obtain ⟨object, hobject⟩ := Option.isSome_iff_exists.mp (hlive event rfl)
      have hset : state.setStatus (some event) status =
          some (state.setEvent event (some { object with status := status })) := by
        simp [setStatus, hobject]
      exact .of_eq_some hset (setStatus_statusOnly hset).sameObjects

theorem start_meets
    {event : Option EventId}
    (hlive : ∀ id, event = some id → (state.event id).isSome = true) :
    Meets mayFail (state.start event) (SameObjects state) := by
  refine (setStatus_meets hlive).seq fun middle hmiddle => ?_
  refine (setStatus_meets fun id hid => ?_).mono fun after hafter => ?_
  · rw [hmiddle.event_isSome]
    exact hlive id hid
  · exact hmiddle.trans hafter

theorem startHsa_meets
    {event : Option EventId}
    (hlive : ∀ id, event = some id → (state.event id).isSome = true) :
    Meets mayFail (state.startHsa env event) (SameObjects state) := by
  refine Meets.cond (fun _ => ?_) fun _ => ?_
  · exact start_meets hlive
  · exact .refl

theorem Pending.invoke
    {call : ℕ} {op : DeviceOp} (hpending : Pending mayFail books nodes state) :
    Pending mayFail books nodes (state.invoke call op) :=
  hpending.congr invoke_sameObjects

theorem Pending.countCall (hpending : Pending mayFail books nodes state) :
    Pending mayFail books nodes state.countCall :=
  hpending.congr ⟨rfl, rfl, rfl, rfl, rfl, fun _ => rfl, rfl⟩

theorem Idle.congr
    {after : State} (hidle : Idle mayFail books state) (hsame : SameObjects state after) :
    Idle mayFail books after :=
  ⟨hidle.pending.congr hsame, hsame.root_eq.trans hidle.root_eq⟩

theorem Idle.invoke
    {call : ℕ} {op : DeviceOp} (hidle : Idle mayFail books state) :
    Idle mayFail books (state.invoke call op) :=
  hidle.congr invoke_sameObjects

end Frames

section Execute

theorem holds_cons (mem : MemId) :
    (holds (node :: nodes) mem : ℤ) =
      (node.command.held.count mem : ℕ) + (holds nodes mem : ℕ) := by
  unfold holds
  rw [List.flatMap_cons, List.count_append]
  push_cast
  rfl

theorem launchesOf_cons_le (node : Node) (nodes : List Node) (kernel : KernelId) :
    launchesOf kernel nodes ≤ launchesOf kernel (node :: nodes) := by
  unfold launchesOf
  rw [List.countP_cons]
  exact Nat.le_add_right _ _

/-- The first command has given back what it holds. -/
theorem Pending.tail
    {after : State} (hpending : Pending mayFail books (node :: nodes) state)
    (hcounted : Counted (fun mem => books.base mem + holds (node :: nodes) mem -
      (node.command.held.count mem : ℕ)) books.parents books.maps after)
    (honly : MemOnly state after) : Pending mayFail books nodes after where
  counted := hcounted.congr_refs fun mem => by
    rw [holds_cons]
    ring
  queue := by
    rw [honly]
    exact hpending.queue
  events := by
    rw [honly]
    exact hpending.events
  nextEvent := by
    rw [honly]
    exact hpending.nextEvent
  node_event := by
    rw [honly]
    exact fun other hother => hpending.node_event other (List.mem_cons_of_mem _ hother)
  kernels := by
    rw [honly]
    intro kernel object hobject
    have hle := launchesOf_cons_le node nodes kernel
    have hlt := hpending.kernels kernel object hobject
    omega
  node_kernel := by
    rw [honly]
    intro kernel hkernel
    refine hpending.node_kernel kernel ?_
    have hle := launchesOf_cons_le node nodes kernel
    omega
  node_args := fun other hother =>
    hpending.node_args other (List.mem_cons_of_mem _ hother)
  node_borrowed := fun hnot other hother =>
    hpending.node_borrowed hnot other (List.mem_cons_of_mem _ hother)
  base_nonneg := hpending.base_nonneg
  nextMem := by
    rw [honly]
    exact hpending.nextMem

theorem Pending.invocation
    {call : ℕ} {op : DeviceOp} {next : State → Option State} {post : State → Prop}
    (hpending : Pending mayFail books (node :: nodes) state)
    (hnext : ∀ completed, Pending mayFail books (node :: nodes) completed →
      Meets mayFail (next completed) post) :
    Meets mayFail
      (state.start node.event >>= fun started =>
        (started.invoke call op).setStatus node.event .complete >>= next) post := by
  have hlive := hpending.node_event node List.mem_cons_self
  refine (start_meets hlive).seq fun started hstarted => ?_
  have hstartedPending : Pending mayFail books (node :: nodes)
      (started.invoke call op) := (hpending.congr hstarted).invoke
  refine (setStatus_meets (hstartedPending.node_event node List.mem_cons_self)).seq
    fun completed hcompleted => ?_
  exact hnext completed (hstartedPending.congr hcompleted)

theorem Pending.held_le
    (hpending : Pending mayFail books (node :: nodes) state) (mem : MemId) :
    ((node.command.held.count mem : ℕ) : ℤ) ≤
      books.base mem + holds (node :: nodes) mem := by
  rw [holds_cons]
  have hbase := hpending.base_nonneg mem
  omega

theorem releaseBuffers_one (mem : MemId) :
    state.releaseBuffers [some mem] = state.releaseMem mem := by
  simp [releaseBuffers]

theorem releaseBuffers_pair (first second : MemId) :
    state.releaseBuffers [some first, some second] =
      state.releaseMem first >>= fun middle => middle.releaseMem second := by
  simp [releaseBuffers]

theorem Pending.releaseHeld
    {buffers : List (Option MemId)}
    (hpending : Pending mayFail books (node :: nodes) state)
    (hheld : node.command.held = buffers.reduceOption) :
    Meets mayFail (state.releaseBuffers buffers) fun after =>
      Pending mayFail books nodes after ∧ MemOnly state after := by
  have hle := hpending.held_le
  rw [hheld] at hle
  refine (hpending.counted.releaseBuffers hle).mono fun after ⟨hafter, honly⟩ => ?_
  refine ⟨hpending.tail ?_ honly, honly⟩
  rw [hheld]
  exact hafter

theorem Pending.dropFree
    (hpending : Pending mayFail books (node :: nodes) state)
    (hheld : node.command.held = []) : Pending mayFail books nodes state := by
  refine hpending.tail ?_ rfl
  rw [hheld]
  exact hpending.counted.congr_refs (by simp)

/-- What a launch points to is live. -/
theorem Pending.args_live
    {kernel : KernelId} {arguments : List KernelArg} {argBuffers : List (Option MemId)}
    (hpending : Pending mayFail books (node :: nodes) state) (hnot : ¬mayFail)
    (hcommand : node.command = .run kernel arguments argBuffers) :
    (memArgs arguments).all state.isLive = true := by
  rw [List.all_eq_true]
  intro mem hmem
  refine hpending.counted.live ?_
  have hbase := hpending.base_nonneg mem
  rcases List.mem_append.mp hmem with hheld | himage
  · have hcount : 0 < node.command.held.count mem := by
      rw [hcommand]
      exact List.count_pos_iff.mpr hheld
    rw [holds_cons]
    omega
  · have himageBase := hpending.node_borrowed hnot node List.mem_cons_self mem (by
      rw [hcommand]
      exact himage)
    omega

theorem Pending.mapMemCmd
    {call : ℕ} {buffer : MemId} {mapping : Mapping}
    (hpending : Pending mayFail books nodes state)
    (hbase : ¬mayFail → 0 < books.base buffer) :
    Meets mayFail (state.mapMemCmd env call buffer mapping)
      (Pending mayFail books nodes) := by
  have hlive : ¬mayFail → (state.mem buffer).isSome = true := by
    intro hnot
    have hpos := hbase hnot
    have hrefs : 0 < books.base buffer + holds nodes buffer := by omega
    exact hpending.counted.live hrefs
  refine (Meets.self hlive).seq fun object hobject => ?_
  have hcounted : Counted (fun mem => books.base mem + holds nodes mem) books.parents
      books.maps (state.setMem buffer
        (some { object with mapCount := object.mapCount + 1 })) :=
    hpending.counted.setSame hobject rfl rfl rfl
  exact ⟨hcounted.congr_mem rfl rfl, hpending.queue, hpending.events,
    hpending.nextEvent, hpending.node_event, hpending.kernels, hpending.node_kernel,
    hpending.node_args, hpending.node_borrowed, hpending.base_nonneg, hpending.nextMem⟩

/-- The release of the kernel behind its launch. -/
theorem Pending.releaseKernel
    {kernel : KernelId} (hpending : Pending mayFail books nodes state)
    (hkernel : ∃ object, state.kernel kernel = some object ∧
      (launchesOf kernel nodes : ℤ) + 1 < object.refcount) :
    Meets mayFail (state.releaseKernel kernel) (Pending mayFail books nodes) := by
  obtain ⟨object, hobject, hlt⟩ := hkernel
  have hrelease : state.releaseKernel kernel = some (state.setKernel kernel
      (some { object with refcount := object.refcount - 1 })) :=
    releaseKernel_eq_some.mpr ⟨object, hobject, .inr ⟨by omega, rfl⟩⟩
  refine .of_eq_some hrelease ⟨hpending.counted.congr_mem rfl rfl, hpending.queue,
    hpending.events, hpending.nextEvent, hpending.node_event, ?_, ?_,
    hpending.node_args, hpending.node_borrowed, hpending.base_nonneg, hpending.nextMem⟩
  · intro other found hfound
    by_cases heq : other = kernel
    · subst other
      simp only [setKernel, Function.update_self, Option.some.injEq] at hfound
      subst found
      change (launchesOf kernel nodes : ℤ) < object.refcount - 1
      omega
    · simp only [setKernel, Function.update_of_ne heq] at hfound
      exact hpending.kernels other found hfound
  · intro other hother
    by_cases heq : other = kernel
    · subst other
      simp [setKernel]
    · simpa [setKernel, heq] using hpending.node_kernel other hother

/-- The execution of the first command. -/
theorem Pending.execute
    (hpending : Pending mayFail books (node :: nodes) state) :
    Meets mayFail (execute env state node) (Pending mayFail books nodes) := by
  unfold State.execute
  cases hcommand : node.command with
  | read hostPtr devicePtr cb buffer =>
      refine hpending.invocation fun completed hcompleted => ?_
      have hheld : Meets mayFail (completed.releaseBuffers [some buffer]) _ :=
        hcompleted.releaseHeld (by rw [hcommand]; rfl)
      rw [releaseBuffers_one] at hheld
      exact hheld.mono fun _ hafter => hafter.1
  | write hostPtr devicePtr cb buffer =>
      refine hpending.invocation fun completed hcompleted => ?_
      have hheld : Meets mayFail (completed.releaseBuffers [some buffer]) _ :=
        hcompleted.releaseHeld (by rw [hcommand]; rfl)
      rw [releaseBuffers_one] at hheld
      exact hheld.mono fun _ hafter => hafter.1
  | copy srcPtr dstPtr cb srcBuffer dstBuffer =>
      refine hpending.invocation fun completed hcompleted => ?_
      have hheld : Meets mayFail
          (completed.releaseBuffers [some srcBuffer, some dstBuffer]) _ :=
        hcompleted.releaseHeld (by rw [hcommand]; rfl)
      rw [releaseBuffers_pair] at hheld
      exact hheld.mono fun _ hafter => hafter.1
  | map buffer mapping =>
      have hbase : ¬mayFail → 0 < books.base buffer := fun hnot =>
        hpending.node_borrowed hnot node List.mem_cons_self buffer
          (by simp [hcommand, Command.borrowed])
      have hlive := hpending.node_event node List.mem_cons_self
      refine (start_meets hlive).seq fun started hstarted => ?_
      refine ((hpending.congr hstarted).mapMemCmd hbase).seq
        fun mapped hmapped => ?_
      refine (setStatus_meets (hmapped.node_event node List.mem_cons_self)).mono
        fun after hafter => ?_
      exact (hmapped.congr hafter).dropFree (by rw [hcommand]; rfl)
  | run kernel arguments argBuffers =>
      have hlaunch : launchesOf kernel (node :: nodes) = launchesOf kernel nodes + 1 := by
        simp [launchesOf, Command.launched, hcommand]
      refine (start_meets (hpending.node_event node List.mem_cons_self)).seq
        fun started hstarted => ?_
      have hstartedPending := hpending.congr hstarted
      refine (Meets.self fun _ => hstartedPending.node_kernel kernel (by omega)).seq
        fun object hobject => ?_
      refine Meets.cond (fun hdead => ?_) fun _ => ?_
      · exact by_contra fun hnot => absurd hdead
          (by simp [hstartedPending.args_live hnot hcommand])
      have hinvoked : Pending mayFail books (node :: nodes)
          (started.invoke node.call (.run kernel)) := hstartedPending.invoke
      refine (setStatus_meets (hinvoked.node_event node List.mem_cons_self)).seq
        fun completed hcompleted => ?_
      have hcompletedPending := hinvoked.congr hcompleted
      have hkernel : completed.kernel kernel = some object := by
        rw [hcompleted.kernel_eq]
        exact hobject
      have hlt := hcompletedPending.kernels kernel object hkernel
      have hargs := hcompletedPending.node_args node List.mem_cons_self kernel arguments
        argBuffers hcommand
      refine (hcompletedPending.releaseHeld (by rw [hcommand, hargs]; rfl)).seq
        fun released ⟨hreleased, honly⟩ => ?_
      refine Meets.cond (fun _ => hreleased) fun _ => ?_
      refine hreleased.releaseKernel ⟨object, ?_, by omega⟩
      rw [honly]
      exact hkernel
  | marker =>
      refine (setStatus_meets (hpending.node_event node List.mem_cons_self)).mono
        fun completed hcompleted => ?_
      exact (hpending.congr hcompleted).dropFree (by rw [hcommand]; rfl)

theorem Pending.finish (hpending : Pending mayFail books state.root state) :
    Meets mayFail (state.finish env) (Idle mayFail books) := by
  obtain ⟨refcount, hqueue, _⟩ := hpending.queue
  refine (Meets.self fun _ => by rw [hqueue]; rfl).seq fun _ _ => ?_
  refine (Meets.foldlM (Pending mayFail books) (fun _ _ _ h => h.execute)
    hpending).seq fun flushed hflushed => ?_
  exact ⟨⟨hflushed.counted.congr_mem rfl rfl, hflushed.queue, hflushed.events,
    hflushed.nextEvent, hflushed.node_event, hflushed.kernels, hflushed.node_kernel,
    hflushed.node_args, hflushed.node_borrowed,
    hflushed.base_nonneg, hflushed.nextMem⟩, rfl⟩

end Execute

end CommandQueue

end Pocl
