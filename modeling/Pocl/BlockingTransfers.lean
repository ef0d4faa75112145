import Pocl.InOrderExecution

/-!
# Blocking and non-blocking transfers

A blocking transfer is executed by its enqueue function, and a non-blocking one by
the next flush, from the words that the enqueue function has left in the queue.
The two agree where these words name the pointer of the same device.
-/

namespace Pocl

namespace CommandQueue

open State

inductive Transfer
  | readBuffer (args : BufferTransfer)
  | writeBuffer (args : BufferTransfer)
  | readImage (args : ImageTransfer)

def Transfer.call (blocking : Bool) : Transfer → Call
  | .readBuffer args => .readBuffer { args with blocking := blocking }
  | .writeBuffer args => .writeBuffer { args with blocking := blocking }
  | .readImage args => .readImage { args with blocking := blocking }

/-- The flush behind a call that succeeds. -/
def finishSuccess (env : Env) : ClCode × State → Option (ClCode × State)
  | (code, state) =>
      if code = .success then do
        let state ← state.finish env
        some (code, state)
      else
        some (code, state)

/-- The non-blocking transfer and a flush leave the code and the state of the
blocking transfer: the calls of the driver with their arguments, the objects with
their counts and the events. -/
def BlockingAgrees (env : Env) (transfer : Transfer) (state : State) : Prop :=
  (state.perform env (transfer.call false) >>= finishSuccess env) =
    state.perform env (transfer.call true)

/-- The node can be allocated, and the word of the queue is that of the blocking
transfer; or there is nothing to transfer. -/
def AgreesWhen (env : Env) (state : State) : Transfer → Prop
  | .readBuffer args =>
      ∃ buffer, state.mem args.buffer = some buffer ∧
        ((transferError args buffer).isSome = true ∨ args.alloc.node = true)
  | .writeBuffer args =>
      ∃ buffer, state.mem args.buffer = some buffer ∧
        ((transferError args buffer).isSome = true ∨ args.alloc.node = true ∧
          buffer.devicePtrs env.contextIndex = buffer.devicePtrs env.devId)
  | .readImage args => (args.event && !args.alloc.event) = true

section RootBlind

def State.withRoot (root : List Node) (state : State) : State :=
  { state with root := root }

/-- The program neither reads nor writes the list of commands. -/
def RootBlind (program : State → Option State) : Prop :=
  ∀ root state, program (state.withRoot root) = (program state).map (withRoot root)

theorem RootBlind.seq
    {first second : State → Option State} (hfirst : RootBlind first)
    (hsecond : RootBlind second) :
    RootBlind fun state => first state >>= second := by
  intro root state
  change first (state.withRoot root) >>= second =
    (first state >>= second).map (withRoot root)
  rw [hfirst]
  cases first state with
  | none => rfl
  | some middle => exact hsecond root middle

theorem RootBlind.invoke
    {program : State → Option State} (hprogram : RootBlind program) (call : ℕ)
    (op : DeviceOp) : RootBlind fun state => program (state.invoke call op) :=
  fun root state => hprogram root (state.invoke call op)

theorem setStatus_rootBlind (event : Option EventId) (status : EventStatus) :
    RootBlind (setStatus event status) := by
  intro root state
  cases event with
  | none => rfl
  | some event =>
      change (state.event event >>= fun object => some _) =
        (state.event event >>= fun object => some _).map _
      cases state.event event with
      | none => rfl
      | some object => rfl

theorem start_rootBlind (event : Option EventId) : RootBlind (start event) :=
  (setStatus_rootBlind event .submitted).seq (setStatus_rootBlind event .running)

theorem releaseMem_rootBlind (mem : MemId) : RootBlind (releaseMem mem) := by
  intro root state
  unfold releaseMem
  change (state.mem mem >>= _) = (state.mem mem >>= _).map _
  cases state.mem mem with
  | none => rfl
  | some object =>
      change (if object.refcount - 1 = 0 then _ else _) =
        (if object.refcount - 1 = 0 then _ else _ : Option State).map _
      by_cases hlast : object.refcount - 1 = 0
      · rw [if_pos hlast, if_pos hlast]
        cases object.parent with
        | none => rfl
        | some parent =>
            change (state.mem parent >>= _) = (state.mem parent >>= _).map _
            cases state.mem parent with
            | none => rfl
            | some parentObject => rfl
      · rw [if_neg hlast, if_neg hlast]
        rfl

theorem releaseKernel_rootBlind (kernel : KernelId) :
    RootBlind (releaseKernel kernel) := by
  intro root state
  unfold releaseKernel
  change (state.kernel kernel >>= _) = (state.kernel kernel >>= _).map _
  cases state.kernel kernel with
  | none => rfl
  | some object =>
      change (if object.refcount - 1 = 0 then _ else _) =
        (if object.refcount - 1 = 0 then _ else _ : Option State).map _
      by_cases hlast : object.refcount - 1 = 0
      · rw [if_pos hlast, if_pos hlast]
        rfl
      · rw [if_neg hlast, if_neg hlast]
        rfl

theorem releaseBuffers_rootBlind (buffers : List (Option MemId)) :
    RootBlind (releaseBuffers buffers) := by
  intro root state
  unfold releaseBuffers
  induction buffers generalizing state with
  | nil => rfl
  | cons buffer buffers ih =>
      rw [List.foldlM_cons, List.foldlM_cons]
      cases buffer with
      | none => exact ih state
      | some buffer =>
          change (releaseMem buffer (state.withRoot root) >>= _) =
            (releaseMem buffer state >>= _).map _
          rw [releaseMem_rootBlind]
          cases releaseMem buffer state with
          | none => rfl
          | some middle => exact ih middle

theorem mapMemCmd_rootBlind
    (env : Env) (call : ℕ) (buffer : MemId) (mapping : Mapping) :
    RootBlind (mapMemCmd env call buffer mapping) := by
  intro root state
  unfold mapMemCmd
  change (state.mem buffer >>= _) = (state.mem buffer >>= _).map _
  cases state.mem buffer with
  | none => rfl
  | some object => rfl

theorem execute_rootBlind (env : Env) (node : Node) :
    RootBlind fun state => execute env state node := by
  unfold execute
  cases hcommand : node.command with
  | read hostPtr devicePtr cb buffer =>
      exact (start_rootBlind _).seq
        (((setStatus_rootBlind _ _).seq (releaseMem_rootBlind _)).invoke _ _)
  | write hostPtr devicePtr cb buffer =>
      exact (start_rootBlind _).seq
        (((setStatus_rootBlind _ _).seq (releaseMem_rootBlind _)).invoke _ _)
  | copy srcPtr dstPtr cb srcBuffer dstBuffer =>
      exact (start_rootBlind _).seq
        (((setStatus_rootBlind _ _).seq
          ((releaseMem_rootBlind _).seq (releaseMem_rootBlind _))).invoke _ _)
  | map buffer mapping =>
      exact (start_rootBlind _).seq
        ((mapMemCmd_rootBlind _ _ _ _).seq (setStatus_rootBlind _ _))
  | run kernel arguments argBuffers =>
      have hend : RootBlind fun state =>
          if env.hsaGpu then some state else state.releaseKernel kernel := by
        intro root state
        by_cases hgpu : env.hsaGpu
        · simp only [if_pos hgpu, Option.map_some]
        · simp only [if_neg hgpu]
          exact releaseKernel_rootBlind kernel root state
      have hrest := (((setStatus_rootBlind node.event .complete).seq
        ((releaseBuffers_rootBlind argBuffers).seq hend)).invoke node.call
          (.run kernel))
      refine (start_rootBlind _).seq fun root state => ?_
      change (state.kernel kernel >>= _) = (state.kernel kernel >>= _).map _
      cases state.kernel kernel with
      | none => rfl
      | some object =>
          change (if (!(memArgs arguments).all state.isLive) = true then none else _) =
            (if (!(memArgs arguments).all state.isLive) = true then none
              else _ : Option State).map _
          by_cases hdead : (!(memArgs arguments).all state.isLive) = true
          · rw [if_pos hdead, if_pos hdead]
            rfl
          · rw [if_neg hdead, if_neg hdead]
            exact hrest root state
  | marker => exact setStatus_rootBlind _ _

theorem foldlM_rootBlind (env : Env) (nodes : List Node) :
    RootBlind fun state => nodes.foldlM (execute env) state := by
  intro root state
  change nodes.foldlM (execute env) (state.withRoot root) =
    (nodes.foldlM (execute env) state).map (withRoot root)
  induction nodes generalizing state with
  | nil => rfl
  | cons node nodes ih =>
      have hnode : execute env (state.withRoot root) node =
          (execute env state node).map (withRoot root) :=
        execute_rootBlind env node root state
      rw [List.foldlM_cons, List.foldlM_cons, hnode]
      cases execute env state node with
      | none => rfl
      | some middle => exact ih middle

end RootBlind

section Finish

variable {env : Env} {state : State}

/-- The flush of a queue with one more command. -/
theorem finish_append
    {refcount : ℤ} {node : Node} (hqueue : state.queue = some refcount) :
    (state.append node).finish env =
      (state.root.foldlM (execute env) state >>= fun flushed =>
        execute env flushed node).map (withRoot []) := by
  have hfold : (state.root ++ [node]).foldlM (execute env)
      (state.withRoot (state.root ++ [node])) =
        ((state.root ++ [node]).foldlM (execute env) state).map
          (withRoot (state.root ++ [node])) :=
    foldlM_rootBlind env (state.root ++ [node]) (state.root ++ [node]) state
  unfold finish
  change (state.queue >>= fun _ => _) = _
  rw [hqueue]
  change ((state.root ++ [node]).foldlM (execute env)
    (state.withRoot (state.root ++ [node])) >>= _) = _
  rw [hfold, List.foldlM_append]
  simp only [List.foldlM_cons, List.foldlM_nil, Option.bind_eq_bind, Option.pure_def]
  cases state.root.foldlM (execute env) state with
  | none => rfl
  | some flushed =>
      change ((execute env flushed node >>= some).map _ >>= _) =
        (execute env flushed node).map _
      cases execute env flushed node with
      | none => rfl
      | some after => rfl

theorem finish_eq_some {after : State} :
    state.finish env = some after ↔
      state.queue.isSome = true ∧ ∃ flushed,
        state.root.foldlM (execute env) state = some flushed ∧
          flushed.withRoot [] = after := by
  simp only [finish, Option.bind_eq_bind, Option.bind_eq_some_iff, Option.some.injEq,
    Option.isSome_iff_exists, withRoot]
  constructor
  · rintro ⟨refcount, hqueue, flushed, hflushed, hafter⟩
    exact ⟨⟨refcount, hqueue⟩, flushed, hflushed, hafter⟩
  · rintro ⟨⟨refcount, hqueue⟩, flushed, hflushed, hafter⟩
    exact ⟨refcount, hqueue, flushed, hflushed, hafter⟩

end Finish

section Pointers

/-- What is still there has the device pointers of before. -/
def PointersKept (before after : State) : Prop :=
  ∀ mem object, after.mem mem = some object →
    ∃ old, before.mem mem = some old ∧ object.devicePtrs = old.devicePtrs

variable {env : Env} {before state : State}

theorem PointersKept.refl (state : State) : PointersKept state state :=
  fun _ object hobject => ⟨object, hobject, rfl⟩

theorem PointersKept.trans
    {first second third : State} (hfirst : PointersKept first second)
    (hsecond : PointersKept second third) : PointersKept first third := by
  intro mem object hobject
  obtain ⟨middle, hmiddle, hptrs⟩ := hsecond mem object hobject
  obtain ⟨old, hold, hmiddlePtrs⟩ := hfirst mem middle hmiddle
  exact ⟨old, hold, hptrs.trans hmiddlePtrs⟩

theorem PointersKept.setMem
    {mem : MemId} {object : MemObject} {new : Option MemObject}
    (hobject : state.mem mem = some object)
    (hnew : ∀ updated, new = some updated → updated.devicePtrs = object.devicePtrs) :
    PointersKept state (state.setMem mem new) := by
  intro other found hfound
  by_cases heq : other = mem
  · subst other
    refine ⟨object, hobject, hnew found ?_⟩
    simpa [State.setMem] using hfound
  · refine ⟨found, ?_, rfl⟩
    simpa [State.setMem, heq] using hfound

theorem PointersKept.of_mem_eq
    {after : State} (hmem : after.mem = state.mem) : PointersKept state after := by
  intro mem object hobject
  rw [hmem] at hobject
  exact ⟨object, hobject, rfl⟩

theorem retainMem_pointersKept
    {mem : MemId} {after : State} (hretain : state.retainMem mem = some after) :
    PointersKept state after := by
  obtain ⟨object, hobject, rfl⟩ := retainMem_eq_some.mp hretain
  exact .setMem hobject fun _ h => by cases h; rfl

theorem releaseMem_pointersKept
    {mem : MemId} {after : State} (hrelease : state.releaseMem mem = some after) :
    PointersKept state after := by
  obtain ⟨object, hobject, ⟨_, _, rfl⟩ |
    ⟨parent, parentObject, _, _, hparent, rfl⟩ | ⟨_, rfl⟩⟩ :=
    releaseMem_eq_some.mp hrelease
  · exact .setMem hobject fun _ h => by cases h
  · have hfirst : PointersKept state (state.setMem parent
        (some { parentObject with refcount := parentObject.refcount - 1 })) :=
      .setMem hparent fun _ h => by cases h; rfl
    refine hfirst.trans fun other found hfound => ⟨found, ?_, rfl⟩
    by_cases heq : other = mem
    · subst other
      simp [State.setMem] at hfound
    · simpa [State.setMem, heq] using hfound
  · exact .setMem hobject fun _ h => by cases h; rfl

theorem PointersKept.keep
    {program : Option State} (hkept : PointersKept before state)
    (hprogram : ∀ after, program = some after → PointersKept state after) :
    Meets True program (PointersKept before) :=
  .of_forall fun after hafter => hkept.trans (hprogram after hafter)

theorem StatusOnly.pointersKept
    {after : State} (hstatus : StatusOnly state after) : PointersKept state after :=
  .of_mem_eq (by rw [hstatus.frame])

theorem releaseBuffers_pointersKept
    {buffers : List (Option MemId)} {after : State}
    (hrelease : state.releaseBuffers buffers = some after) :
    PointersKept state after := by
  refine Meets.iff_forall.mp (Meets.foldlM (fun _ => PointersKept state) ?_
    (.refl state)) after hrelease
  intro buffer _ middle hmiddle
  cases buffer with
  | none => exact hmiddle
  | some buffer => exact hmiddle.keep fun _ h => releaseMem_pointersKept h

theorem mapMemCmd_pointersKept
    {call : ℕ} {buffer : MemId} {mapping : Mapping} {after : State}
    (hmap : state.mapMemCmd env call buffer mapping = some after) :
    PointersKept state after := by
  obtain ⟨object, hobject, rfl⟩ := mapMemCmd_eq_some.mp hmap
  have hkept : PointersKept state (state.setMem buffer
      (some { object with mapCount := object.mapCount + 1 })) :=
    .setMem hobject fun _ h => by cases h; rfl
  exact hkept.trans (.of_mem_eq rfl)

theorem PointersKept.invocation
    {call : ℕ} {event : Option EventId} {op : DeviceOp} {next : State → Option State}
    (hkept : PointersKept before state)
    (hnext : ∀ completed, PointersKept before completed →
      Meets True (next completed) (PointersKept before)) :
    Meets True
      (state.start event >>= fun started =>
        (started.invoke call op).setStatus event .complete >>= next)
      (PointersKept before) := by
  refine (hkept.keep fun _ h => (start_statusOnly h).pointersKept).seq
    fun started hstarted => ?_
  have hinvoked : PointersKept before (started.invoke call op) :=
    hstarted.trans (.of_mem_eq rfl)
  exact (hinvoked.keep fun _ h => (setStatus_statusOnly h).pointersKept).seq hnext

theorem PointersKept.execute
    {node : Node} (hkept : PointersKept before state) :
    Meets True (execute env state node) (PointersKept before) := by
  unfold State.execute
  cases hcommand : node.command with
  | read hostPtr devicePtr cb buffer =>
      exact hkept.invocation fun _ hcompleted =>
        hcompleted.keep fun _ h => releaseMem_pointersKept h
  | write hostPtr devicePtr cb buffer =>
      exact hkept.invocation fun _ hcompleted =>
        hcompleted.keep fun _ h => releaseMem_pointersKept h
  | copy srcPtr dstPtr cb srcBuffer dstBuffer =>
      refine hkept.invocation fun _ hcompleted => ?_
      refine (hcompleted.keep fun _ h => releaseMem_pointersKept h).seq
        fun _ hreleased => ?_
      exact hreleased.keep fun _ h => releaseMem_pointersKept h
  | map buffer mapping =>
      refine (hkept.keep fun _ h => (start_statusOnly h).pointersKept).seq
        fun _ hstarted => ?_
      refine (hstarted.keep fun _ h => mapMemCmd_pointersKept h).seq
        fun _ hmapped => ?_
      exact hmapped.keep fun _ h => (setStatus_statusOnly h).pointersKept
  | run kernel arguments argBuffers =>
      refine (hkept.keep fun _ h => (start_statusOnly h).pointersKept).seq
        fun started hstarted => ?_
      refine Meets.seq (.of_forall fun _ h => h) fun _ _ => ?_
      refine Meets.cond (fun _ => trivial) fun _ => ?_
      have hinvoked : PointersKept before (started.invoke node.call (.run kernel)) :=
        hstarted.trans (.of_mem_eq rfl)
      refine (hinvoked.keep fun _ h => (setStatus_statusOnly h).pointersKept).seq
        fun _ hcompleted => ?_
      refine (hcompleted.keep fun _ h => releaseBuffers_pointersKept h).seq
        fun released hreleased => ?_
      refine Meets.cond (fun _ => hreleased) fun _ => ?_
      refine hreleased.keep fun after hafter => .of_mem_eq ?_
      rw [releaseKernel_kernelOnly hafter]
  | marker => exact hkept.keep fun _ h => (setStatus_statusOnly h).pointersKept

theorem finish_pointersKept
    {after : State} (hfinish : state.finish env = some after) :
    PointersKept state after := by
  obtain ⟨_, flushed, hflushed, rfl⟩ := finish_eq_some.mp hfinish
  have hkept := Meets.iff_forall.mp (Meets.foldlM (fun _ => PointersKept state)
    (fun _ _ _ hkept => hkept.execute) (.refl state)) flushed hflushed
  exact hkept.trans (.of_mem_eq rfl)

end Pointers

section BufferTransfers

/-- The execution of a transfer of a buffer that is held. -/
def State.transferHeld (call : ℕ) (event : Option EventId) (op : DeviceOp)
    (buffer : MemId) (state : State) : Option State := do
  let state ← state.start event
  let state := state.invoke call op
  let state ← state.setStatus event .complete
  state.releaseMem buffer

theorem transferHeld_rootBlind
    (call : ℕ) (event : Option EventId) (op : DeviceOp) (buffer : MemId) :
    RootBlind (transferHeld call event op buffer) :=
  (start_rootBlind event).seq
    (((setStatus_rootBlind event .complete).seq (releaseMem_rootBlind buffer)).invoke
      call op)

theorem transferHeld_ops
    {call : ℕ} {event : Option EventId} {op : DeviceOp} {buffer : MemId}
    {state after : State}
    (htransfer : state.transferHeld call event op buffer = some after) :
    after.ops = state.ops ++ [(call, op)] := by
  obtain ⟨started, hstarted, hrest⟩ := Option.bind_eq_some_iff.mp htransfer
  obtain ⟨completed, hcompleted, hreleased⟩ := Option.bind_eq_some_iff.mp hrest
  rw [(releaseMem_memOnly hreleased).sameTrace.ops_eq,
    (setStatus_statusOnly hcompleted).sameTrace.ops_eq]
  exact congrArg (· ++ [(call, op)]) (start_statusOnly hstarted).sameTrace.ops_eq

variable {env : Env} {op : SizeT → SizeT → SizeT → DeviceOp}
  {command : SizeT → SizeT → SizeT → MemId → Command} {queuedIndex : ℕ}
  {args : BufferTransfer} {state : State} {buffer : MemObject}

theorem transferError_ne_success
    {code : ClCode} (herror : transferError args buffer = some code) :
    code ≠ .success := by
  unfold transferError at herror
  split_ifs at herror <;> cases herror <;> decide

/-- What a blocking transfer does, statement by statement. -/
theorem blockingTransfer_eq_some
    {refcount : ℤ} {code : ClCode} {after : State}
    (hqueue : state.queue = some refcount)
    (hbuffer : state.mem args.buffer = some buffer)
    (herror : transferError args buffer = none)
    (hblocking : state.enqueueBufferTransfer env op command queuedIndex
      { args with blocking := true } = some (code, after)) :
    code = .success ∧ ∃ event requested held flushed,
      state.countCall.requestEvent args.event true = some (event, requested) ∧
        requested.retainMem args.buffer = some held ∧
        held.finish env = some flushed ∧
        flushed.transferHeld state.calls event
          (op args.ptr (buffer.devicePtrs env.devId + args.offset) args.cb)
          args.buffer = some after := by
  have herror' : transferError { args with blocking := true } buffer = none := herror
  have hcounted : state.countCall.queue = some refcount := hqueue
  have hfound : state.countCall.mem args.buffer = some buffer := hbuffer
  simp only [enqueueBufferTransfer, hcounted, hfound, herror', Option.bind_eq_bind,
    Option.bind_some, Option.bind_eq_some_iff, Option.pure_def, if_true,
    Option.some.injEq, Prod.mk.injEq] at hblocking
  obtain ⟨⟨event, requested⟩, hrequest, held, hheld, flushed, hflushed, started,
    hstarted, found, hfoundBehind, completed, hcompleted, released, hreleased, rfl,
    rfl⟩ := hblocking
  have hkept : PointersKept state.countCall started :=
    (((PointersKept.of_mem_eq (requestEvent_mem hrequest)).trans
      (retainMem_pointersKept hheld)).trans (finish_pointersKept hflushed)).trans
        (start_statusOnly hstarted).pointersKept
  obtain ⟨old, hold, hptrs⟩ := hkept args.buffer found hfoundBehind
  rw [hfound, Option.some.injEq] at hold
  rw [hptrs, ← hold] at hcompleted
  refine ⟨rfl, event, requested, held, flushed, hrequest, hheld, hflushed, ?_⟩
  exact Option.bind_eq_some_iff.mpr ⟨started, hstarted,
    Option.bind_eq_some_iff.mpr ⟨completed, hcompleted, hreleased⟩⟩

/-- What a non-blocking transfer does, once it is accepted. -/
theorem queuedTransfer_eq
    {refcount : ℤ} {event : Option EventId} {requested held : State}
    (hqueue : state.queue = some refcount)
    (hbuffer : state.mem args.buffer = some buffer)
    (herror : transferError args buffer = none)
    (hrequest : state.countCall.requestEvent args.event true = some (event, requested))
    (hheld : requested.retainMem args.buffer = some held) :
    state.enqueueBufferTransfer env op command queuedIndex
        { args with blocking := false } =
      if args.alloc.node then
        some (.success, held.append
          { call := state.calls
            event := event
            command := command args.ptr
              (buffer.devicePtrs queuedIndex + args.offset) args.cb args.buffer })
      else
        some (.outOfHostMemory, requested) := by
  have herror' : transferError { args with blocking := false } buffer = none := herror
  have hcounted : state.countCall.queue = some refcount := hqueue
  have hfound : state.countCall.mem args.buffer = some buffer := hbuffer
  unfold enqueueBufferTransfer
  simp only [hcounted, hfound, herror', hrequest, hheld, Option.bind_eq_bind,
    Option.bind_some, Option.pure_def]
  cases args.alloc.node with
  | true => rfl
  | false => rfl

theorem finish_append_transfer
    {held flushed : State} {node : Node} {nodeOp : DeviceOp} {mem : MemId}
    (hexecute : ∀ state,
      execute env state node = state.transferHeld node.call node.event nodeOp mem)
    (hflushed : held.finish env = some flushed) :
    (held.append node).finish env =
      flushed.transferHeld node.call node.event nodeOp mem := by
  obtain ⟨hqueue, middle, hmiddle, rfl⟩ := finish_eq_some.mp hflushed
  obtain ⟨refcount, hrefcount⟩ := Option.isSome_iff_exists.mp hqueue
  rw [finish_append hrefcount, hmiddle, transferHeld_rootBlind]
  change (execute env middle node).map _ = _
  rw [hexecute]

/-- An accepted blocking transfer agrees with the non-blocking one where the node
can be allocated and the pointers are the same. -/
theorem acceptedTransfer_agrees_iff
    {refcount : ℤ} {code : ClCode} {after : State}
    (hexecute : ∀ state call event hostPtr devicePtr cb mem,
      execute env state ⟨call, event, command hostPtr devicePtr cb mem⟩ =
        state.transferHeld call event (op hostPtr devicePtr cb) mem)
    (hinjective : ∀ hostPtr devicePtr otherPtr cb,
      op hostPtr devicePtr cb = op hostPtr otherPtr cb → devicePtr = otherPtr)
    (hqueue : state.queue = some refcount)
    (hbuffer : state.mem args.buffer = some buffer)
    (herror : transferError args buffer = none)
    (hblocking : state.enqueueBufferTransfer env op command queuedIndex
      { args with blocking := true } = some (code, after)) :
    (state.enqueueBufferTransfer env op command queuedIndex
        { args with blocking := false } >>= finishSuccess env) = some (code, after) ↔
      args.alloc.node = true ∧
        buffer.devicePtrs queuedIndex = buffer.devicePtrs env.devId := by
  obtain ⟨rfl, event, requested, held, flushed, hrequest, hheld, hflushed, htransfer⟩ :=
    blockingTransfer_eq_some hqueue hbuffer herror hblocking
  rw [queuedTransfer_eq hqueue hbuffer herror hrequest hheld]
  cases hnode : args.alloc.node with
  | false => simp [finishSuccess]
  | true =>
      have hfinish := finish_append_transfer
        (hexecute · state.calls event args.ptr
          (buffer.devicePtrs queuedIndex + args.offset) args.cb args.buffer) hflushed
      simp only [if_true, finishSuccess, Option.bind_eq_bind, Option.bind_some, hfinish,
        true_and]
      constructor
      · intro hagrees
        obtain ⟨queued, hqueued, hafter⟩ := Option.bind_eq_some_iff.mp hagrees
        cases hafter
        have hops := (transferHeld_ops htransfer).symm.trans (transferHeld_ops hqueued)
        have hop := hinjective _ _ _ _ (congrArg Prod.snd
          (List.singleton_inj.mp (List.append_cancel_left hops)))
        exact ((BitVec.add_left_inj _).mp hop).symm
      · intro hptrs
        rw [hptrs, htransfer]
        rfl

/-- A transfer of a buffer agrees where a check fails, or where the node can be
allocated and the pointers are the same. -/
theorem bufferTransfer_agrees_iff
    {code : ClCode} {after : State}
    (hexecute : ∀ state call event hostPtr devicePtr cb mem,
      execute env state ⟨call, event, command hostPtr devicePtr cb mem⟩ =
        state.transferHeld call event (op hostPtr devicePtr cb) mem)
    (hinjective : ∀ hostPtr devicePtr otherPtr cb,
      op hostPtr devicePtr cb = op hostPtr otherPtr cb → devicePtr = otherPtr)
    (hblocking : state.enqueueBufferTransfer env op command queuedIndex
      { args with blocking := true } = some (code, after)) :
    (state.enqueueBufferTransfer env op command queuedIndex
        { args with blocking := false } >>= finishSuccess env) = some (code, after) ↔
      ∃ buffer, state.mem args.buffer = some buffer ∧
        ((transferError args buffer).isSome = true ∨ args.alloc.node = true ∧
          buffer.devicePtrs queuedIndex = buffer.devicePtrs env.devId) := by
  obtain ⟨refcount, hcounted, hrest⟩ := Option.bind_eq_some_iff.mp hblocking
  obtain ⟨buffer, hfound, _⟩ := Option.bind_eq_some_iff.mp hrest
  have hqueue : state.queue = some refcount := hcounted
  have hbuffer : state.mem args.buffer = some buffer := hfound
  have hcondition : (∃ found, state.mem args.buffer = some found ∧
      ((transferError args found).isSome = true ∨ args.alloc.node = true ∧
        found.devicePtrs queuedIndex = found.devicePtrs env.devId)) ↔
      (transferError args buffer).isSome = true ∨ args.alloc.node = true ∧
        buffer.devicePtrs queuedIndex = buffer.devicePtrs env.devId := by
    constructor
    · rintro ⟨found, hsame, hagrees⟩
      rw [hbuffer] at hsame
      cases hsame
      exact hagrees
    · exact fun hagrees => ⟨buffer, hbuffer, hagrees⟩
  rw [hcondition]
  cases herror : transferError args buffer with
  | none =>
      rw [acceptedTransfer_agrees_iff hexecute hinjective hqueue hbuffer herror hblocking]
      simp
  | some error =>
      have hrejected : ∀ blocking, state.enqueueBufferTransfer env op command
          queuedIndex { args with blocking := blocking } =
            some (error, state.countCall) := by
        intro blocking
        have herror' : transferError { args with blocking := blocking } buffer =
          some error := herror
        have hfound : state.countCall.mem args.buffer = some buffer := hbuffer
        simp only [enqueueBufferTransfer, hcounted, hfound, herror', Option.bind_eq_bind,
          Option.bind_some, Option.pure_def]
      rw [hrejected] at hblocking
      cases hblocking
      rw [hrejected]
      simp [finishSuccess, transferError_ne_success herror]

end BufferTransfers

section Images

variable {env : Env} {args : ImageTransfer} {state : State}

/-- A blocking read of an image does not run out of memory behind its event. -/
theorem blockingReadImage_code
    (hblocking : args.blocking = true)
    (halloc : (args.event && !args.alloc.event) = false) :
    Meets True (state.enqueueReadImage env args) fun result =>
      result.1 ≠ .outOfHostMemory := by
  refine Meets.seq (.of_forall fun _ h => h) fun _ _ => ?_
  refine Meets.cond (fun hfails => ?_) fun _ => ?_
  · rw [halloc] at hfails
    cases hfails
  refine Meets.seq (.of_forall fun _ h => h) fun ⟨event, requested⟩ _ => ?_
  refine Meets.seq (.of_forall fun _ h => h) fun image _ => ?_
  refine Meets.cond (fun _ => ?_) fun hnot => absurd hblocking hnot
  refine Meets.seq (.of_forall fun _ h => h) fun started _ => ?_
  refine Meets.seq (.of_forall fun _ h => h) fun completed _ => ?_
  refine Meets.seq (.of_forall fun _ h => h) fun released _ => .ret ?_
  dsimp only
  split_ifs
  · exact ClCode.noConfusion
  · exact ClCode.noConfusion

/-- A read of an image that does not block has only this result. -/
theorem queuedReadImage_code
    (hblocking : args.blocking = false)
    (halloc : (args.event && !args.alloc.event) = false) :
    Meets True (state.enqueueReadImage env args) fun result =>
      result.1 = .outOfHostMemory := by
  refine Meets.seq (.of_forall fun _ h => h) fun _ _ => ?_
  refine Meets.cond (fun hfails => ?_) fun _ => ?_
  · rw [halloc] at hfails
    cases hfails
  refine Meets.seq (.of_forall fun _ h => h) fun ⟨event, requested⟩ _ => ?_
  refine Meets.seq (.of_forall fun _ h => h) fun image _ => ?_
  refine Meets.cond (fun hyes => ?_) fun _ => ?_
  · rw [hblocking] at hyes
    cases hyes
  · exact Meets.cond (fun _ => .ret rfl) fun _ => trivial

/-- The two reads of an image agree only where no event can be allocated. -/
theorem readImage_agrees_iff
    {code : ClCode} {after : State}
    (hblocking : state.enqueueReadImage env { args with blocking := true } =
      some (code, after)) :
    (state.enqueueReadImage env { args with blocking := false } >>=
        finishSuccess env) = some (code, after) ↔
      (args.event && !args.alloc.event) = true := by
  cases halloc : (args.event && !args.alloc.event) with
  | true =>
      obtain ⟨refcount, hqueue, _⟩ := Option.bind_eq_some_iff.mp hblocking
      have hcounted : state.countCall.queue = some refcount := hqueue
      simp only [enqueueReadImage, hcounted, halloc, Option.bind_eq_bind,
        Option.bind_some, Option.pure_def, if_true, Option.some.injEq,
        Prod.mk.injEq] at hblocking
      obtain ⟨rfl, rfl⟩ := hblocking
      simp [enqueueReadImage, hcounted, halloc, finishSuccess]
  | false =>
      refine ⟨fun hagrees => ?_, fun h => by cases h⟩
      obtain ⟨⟨queuedCode, queued⟩, hqueued, hfinished⟩ :=
        Option.bind_eq_some_iff.mp hagrees
      have hdirect := Meets.iff_forall.mp
        (blockingReadImage_code (by rfl) (by exact halloc)) _ hblocking
      have hlater := Meets.iff_forall.mp
        (queuedReadImage_code (by rfl) (by exact halloc)) _ hqueued
      cases hlater
      simp only [finishSuccess, reduceCtorEq, if_false, Option.some.injEq,
        Prod.mk.injEq] at hfinished
      exact absurd hfinished.1.symm hdirect

end Images

/-- For every transfer whose blocking call is defined, the two kinds of calls agree
exactly under the condition. -/
theorem blockingAgrees_iff
    {env : Env} {transfer : Transfer} {state : State}
    (hdefined : (state.perform env (transfer.call true)).isSome = true) :
    BlockingAgrees env transfer state ↔ AgreesWhen env state transfer := by
  obtain ⟨⟨code, after⟩, hblocking⟩ := Option.isSome_iff_exists.mp hdefined
  unfold BlockingAgrees
  rw [hblocking]
  cases transfer with
  | readBuffer args =>
      refine (bufferTransfer_agrees_iff (fun _ _ _ _ _ _ _ => rfl) ?_ hblocking).trans
        ?_
      · rintro hostPtr devicePtr otherPtr cb hop
        cases hop
        rfl
      · simp [AgreesWhen]
  | writeBuffer args =>
      refine bufferTransfer_agrees_iff (fun _ _ _ _ _ _ _ => rfl) ?_ hblocking
      rintro hostPtr devicePtr otherPtr cb hop
      cases hop
      rfl
  | readImage args => exact readImage_agrees_iff hblocking

section Example

/-- A queue of the second device of the runtime, which is the first one of a context
with two devices. -/
def swappedDevices : Env := ⟨false, false, 0, 1, true⟩

/-- A write to a queue of the only device of the runtime. -/
theorem firstWord_blockingAgrees :
    BlockingAgrees singleCpu (.writeBuffer (firstWord true))
      (Session.opening [.plain] []).state :=
  (blockingAgrees_iff (by decide +kernel)).mpr
    ⟨.plain, rfl, .inr ⟨rfl, rfl⟩⟩

/-- A queued write takes the device pointer at the position of the device in its
context, and a blocking write the one at the number of the device. -/
theorem swappedDevices_not_blockingAgrees :
    ¬BlockingAgrees swappedDevices (.writeBuffer (firstWord true))
      (Session.opening [.plain] []).state := by
  intro hagrees
  have hops := congrArg (Option.map fun result => result.2.ops) hagrees
  revert hops
  decide +kernel

end Example

end CommandQueue

end Pocl
