import Pocl.BufferFills

/-!
# Bounds of linear transfers

Every function that takes an offset and a size adds them in 64 bits and compares the sum with
the size of the buffer.  The check of `clCreateSubBuffer` has the same form.  A sum that wraps
around is accepted when it is small.
-/

namespace Pocl

namespace CommandQueue

/-- The calls that access a range of a buffer. -/
inductive LinearCall
  | read (args : BufferTransfer)
  | write (args : BufferTransfer)
  | copy (args : BufferCopy)
  | fill (args : BufferFill)
  | map (args : BufferMap)

structure Access where
  mem : MemId
  offset : SizeT
  size : SizeT
  deriving DecidableEq

namespace LinearCall

def perform (env : Env) (state : State) : LinearCall → Option (ClCode × State)
  | read args => state.enqueueReadBuffer env args
  | write args => state.enqueueWriteBuffer env args
  | copy args => state.enqueueCopyBuffer env args
  | fill args => state.enqueueFillBuffer env args
  | map args => state.enqueueMapBuffer env args

def accesses : LinearCall → List Access
  | read args => [⟨args.buffer, args.offset, args.cb⟩]
  | write args => [⟨args.buffer, args.offset, args.cb⟩]
  | copy args => [⟨args.srcBuffer, args.srcOffset, args.cb⟩,
      ⟨args.dstBuffer, args.dstOffset, args.cb⟩]
  | fill args => [⟨args.buffer, args.offset, args.cb⟩]
  | map args => [⟨args.buffer, args.offset, args.size⟩]

def Accepted (env : Env) (state : State) (call : LinearCall) : Prop :=
  ∃ after, call.perform env state = some (.success, after)

end LinearCall

/-- A sum of sizes does not wrap around. -/
def SumFits (first second : SizeT) : Prop :=
  first.toNat + second.toNat < 2 ^ 64

/-- The range lies in a buffer of the given size. -/
def InRange (offset size total : SizeT) : Prop :=
  offset.toNat + size.toNat ≤ total.toNat

instance (first second : SizeT) : Decidable (SumFits first second) :=
  inferInstanceAs (Decidable (_ < _))

instance (offset size total : SizeT) : Decidable (InRange offset size total) :=
  inferInstanceAs (Decidable (_ ≤ _))

/-- A memory object that `clCreateSubBuffer` has made of a buffer.  The sizes and the pointers
of both do not change later. -/
structure IsSubBuffer (state : State) (object parent : MemObject) (args : SubBuffer) : Prop where
  ofBuffer : object.parent = some args.buffer
  live : state.mem args.buffer = some parent
  created : ∃ (before after : State) (old : MemObject), before.mem args.buffer = some old ∧
    old.size = parent.size ∧ before.createSubBuffer args = some (.success, after)
  size : object.size = (State.subBuffer args parent).size
  devicePtrs : object.devicePtrs = (State.subBuffer args parent).devicePtrs

/-- The accessed range lies in the buffer, and if that is a sub-buffer, in the parent. -/
def Access.InBounds (state : State) (access : Access) : Prop :=
  ∃ object, state.mem access.mem = some object ∧
    InRange access.offset access.size object.size ∧
      ∀ parent args, IsSubBuffer state object parent args →
        InRange args.origin args.size parent.size ∧
          args.origin.toNat + access.offset.toNat + access.size.toNat ≤ parent.size.toNat

/-- No check of the access has wrapped around. -/
def Access.Fits (state : State) (access : Access) : Prop :=
  SumFits access.offset access.size ∧
    ∀ object, state.mem access.mem = some object →
      ∀ parent args, IsSubBuffer state object parent args → SumFits args.origin args.size

section Sums

variable {offset size total : SizeT}

theorem inRange_iff (haccepted : ¬ total < offset + size) :
    InRange offset size total ↔ SumFits offset size := by
  rw [BitVec.not_lt, BitVec.le_def, BitVec.toNat_add] at haccepted
  have htotal := total.isLt
  constructor
  · exact fun hrange => lt_of_le_of_lt hrange htotal
  · intro hfits
    rwa [Nat.mod_eq_of_lt hfits] at haccepted

end Sums

section Checks

variable {env : Env} {state after : State} {buffer : MemObject}

theorem transferError_inBounds
    {args : BufferTransfer} (herror : State.transferError args buffer = none) :
    ¬ buffer.size < args.offset + args.cb := by
  unfold State.transferError at herror
  split_ifs at herror with _ hvalue
  exact fun hlt => hvalue (.inr hlt)

theorem enqueueBufferTransfer_accepted
    {op : SizeT → SizeT → SizeT → DeviceOp}
    {command : SizeT → SizeT → SizeT → MemId → Command} {queuedIndex : ℕ}
    {args : BufferTransfer}
    (hperform : state.enqueueBufferTransfer env op command queuedIndex args =
      some (.success, after)) :
    ∃ buffer, state.mem args.buffer = some buffer ∧
      ¬ buffer.size < args.offset + args.cb := by
  obtain ⟨_, -, hperform⟩ := Option.bind_eq_some_iff.mp hperform
  obtain ⟨buffer, hbuffer, hperform⟩ := Option.bind_eq_some_iff.mp hperform
  refine ⟨buffer, hbuffer, ?_⟩
  cases herror : State.transferError args buffer with
  | none => exact transferError_inBounds herror
  | some code =>
      rw [herror] at hperform
      cases hperform
      unfold State.transferError at herror
      split_ifs at herror <;> cases herror

theorem enqueueCopyBuffer_accepted
    {args : BufferCopy}
    (hperform : state.enqueueCopyBuffer env args = some (.success, after)) :
    ∃ src dst, state.mem args.srcBuffer = some src ∧ state.mem args.dstBuffer = some dst ∧
      ¬ src.size < args.srcOffset + args.cb ∧ ¬ dst.size < args.dstOffset + args.cb := by
  obtain ⟨_, -, hperform⟩ := Option.bind_eq_some_iff.mp hperform
  obtain ⟨src, hsrc, hperform⟩ := Option.bind_eq_some_iff.mp hperform
  obtain ⟨dst, hdst, hperform⟩ := Option.bind_eq_some_iff.mp hperform
  refine ⟨src, dst, hsrc, hdst, ?_⟩
  split at hperform
  next => cases hperform
  split at hperform
  next => cases hperform
  next hvalue => exact not_or.mp hvalue

theorem enqueueFillBuffer_accepted
    {args : BufferFill}
    (hperform : state.enqueueFillBuffer env args = some (.success, after)) :
    ∃ buffer, state.mem args.buffer = some buffer ∧
      ¬ buffer.size < args.offset + args.cb := by
  obtain ⟨buffer, hbuffer, hperform⟩ := Option.bind_eq_some_iff.mp hperform
  refine ⟨buffer, hbuffer, fun hlt => ?_⟩
  obtain ⟨_, -, hperform⟩ := Option.bind_eq_some_iff.mp hperform
  have hrejected : args.accepted buffer = false := by
    simp [BufferFill.accepted, hlt]
  simp [hrejected] at hperform

theorem enqueueMapBuffer_accepted
    {args : BufferMap}
    (hperform : state.enqueueMapBuffer env args = some (.success, after)) :
    ∃ buffer, state.mem args.buffer = some buffer ∧
      ¬ buffer.size < args.offset + args.size := by
  obtain ⟨_, -, hperform⟩ := Option.bind_eq_some_iff.mp hperform
  obtain ⟨buffer, hbuffer, hperform⟩ := Option.bind_eq_some_iff.mp hperform
  refine ⟨buffer, hbuffer, ?_⟩
  split at hperform
  next => cases hperform
  split at hperform
  next => cases hperform
  next hvalue => exact hvalue

theorem createSubBuffer_accepted
    {args : SubBuffer} {parent : MemObject} (hparent : state.mem args.buffer = some parent)
    (hcreate : state.createSubBuffer args = some (.success, after)) :
    ¬ parent.size < args.origin + args.size := by
  intro hlt
  rw [add_comm] at hlt
  simp [State.createSubBuffer, hparent, hlt] at hcreate

end Checks

section Accesses

variable {env : Env} {state : State} {call : LinearCall}

/-- What the checks of an accepted call have found. -/
theorem LinearCall.Accepted.checked
    (haccepted : call.Accepted env state) :
    ∀ access ∈ call.accesses, ∃ object, state.mem access.mem = some object ∧
      ¬ object.size < access.offset + access.size := by
  obtain ⟨after, hperform⟩ := haccepted
  cases call with
  | read args => simpa [accesses] using enqueueBufferTransfer_accepted hperform
  | write args => simpa [accesses] using enqueueBufferTransfer_accepted hperform
  | copy args =>
      obtain ⟨src, dst, hsrc, hdst, hsrcSize, hdstSize⟩ := enqueueCopyBuffer_accepted hperform
      intro access haccess
      rcases List.mem_cons.mp haccess with rfl | hsecond
      · exact ⟨src, hsrc, hsrcSize⟩
      · obtain rfl := List.mem_singleton.mp hsecond
        exact ⟨dst, hdst, hdstSize⟩
  | fill args => simpa [accesses] using enqueueFillBuffer_accepted hperform
  | map args => simpa [accesses] using enqueueMapBuffer_accepted hperform

theorem IsSubBuffer.inRange_iff
    {object parent : MemObject} {args : SubBuffer} (hsub : IsSubBuffer state object parent args) :
    InRange args.origin args.size parent.size ↔ SumFits args.origin args.size := by
  obtain ⟨_, _, old, hold, hsize, hcreate⟩ := hsub.created
  rw [← hsize]
  exact CommandQueue.inRange_iff (createSubBuffer_accepted hold hcreate)

theorem Access.inBounds_iff
    {access : Access} {object : MemObject} (hobject : state.mem access.mem = some object)
    (hchecked : ¬ object.size < access.offset + access.size) :
    access.InBounds state ↔ access.Fits state := by
  constructor
  · rintro ⟨found, hfound, hrange, hsub⟩
    rw [hobject, Option.some.injEq] at hfound
    subst hfound
    refine ⟨(inRange_iff hchecked).mp hrange, fun other hother parent args hparent => ?_⟩
    rw [hobject, Option.some.injEq] at hother
    subst hother
    exact hparent.inRange_iff.mp (hsub parent args hparent).1
  · rintro ⟨hfits, hsubs⟩
    have hrange := (inRange_iff hchecked).mpr hfits
    refine ⟨object, hobject, hrange, fun parent args hparent => ?_⟩
    have hinside := hparent.inRange_iff.mpr (hsubs object hobject parent args hparent)
    have hsize : object.size = args.size := hparent.size
    refine ⟨hinside, ?_⟩
    unfold InRange at hinside hrange
    rw [hsize] at hrange
    omega

/-- An accepted range lies in the buffer when no sum wraps around. -/
theorem acceptedAccesses_inBounds_iff (state : State) :
    (∀ (env : Env) (call : LinearCall), call.Accepted env state →
      ((∀ access ∈ call.accesses, access.InBounds state) ↔
        ∀ access ∈ call.accesses, access.Fits state)) ∧
    ∀ (args : SubBuffer) (parent : MemObject) (after : State),
      state.mem args.buffer = some parent →
        state.createSubBuffer args = some (.success, after) →
          (InRange args.origin args.size parent.size ↔ SumFits args.origin args.size) := by
  constructor
  · intro env call haccepted
    refine forall₂_congr fun access haccess => ?_
    obtain ⟨object, hobject, hchecked⟩ := haccepted.checked access haccess
    exact access.inBounds_iff hobject hchecked
  · intro args parent after hparent hcreate
    exact inRange_iff (createSubBuffer_accepted hparent hcreate)

/-- The second quarter of the first buffer. -/
def secondQuarter : SubBuffer := ⟨0, 16, 16, true, 0⟩

def openingState : State := (Session.opening [.plain] []).state

/-- A word of the sub-buffer is read. -/
theorem quarterWord_inBounds :
    ∃ state, openingState.createSubBuffer secondQuarter = some (.success, state) ∧
      (InRange 16 16 64 ∧
        ∀ access ∈ (LinearCall.read { firstWord true with buffer := 1 }).accesses,
          access.InBounds state) := by
  refine ⟨_, rfl, ((acceptedAccesses_inBounds_iff openingState).2 secondQuarter .plain _ rfl
    rfl).mpr (by decide), ?_⟩
  refine ((acceptedAccesses_inBounds_iff _).1 singleCpu _ ⟨_, rfl⟩).mpr fun access haccess => ?_
  obtain rfl := List.mem_singleton.mp haccess
  refine ⟨by decide, fun object hobject parent args hsub => ?_⟩
  cases hobject
  have hsize : args.size = 16 := hsub.size.symm
  have hbuffer : args.buffer = 0 := (Option.some.inj hsub.ofBuffer).symm
  have hparent := hsub.live
  rw [hbuffer] at hparent
  cases hparent
  have horigin : (4096 : SizeT) + 16 = 4096 + args.origin := congrFun hsub.devicePtrs 0
  rw [← add_left_cancel horigin, hsize]
  decide

/-- The end of the range wraps around to the start of the buffer. -/
theorem lastByte_not_inBounds :
    ∃ call : LinearCall, call.Accepted singleCpu openingState ∧
      ¬ ∀ access ∈ call.accesses, access.InBounds openingState := by
  refine ⟨.read { firstWord true with offset := 0xffffffffffffffff, cb := 1 }, ⟨_, rfl⟩, ?_⟩
  intro hinBounds
  obtain ⟨object, hobject, hrange, -⟩ := hinBounds _ List.mem_cons_self
  cases hobject
  exact absurd hrange (by decide)

end Accesses

end CommandQueue

end Pocl
