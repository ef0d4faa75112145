import Pocl.ObjectTables
import Pocl.SinglyLinkedLists

/-!
# The objects of the runtime

Contexts, memory objects, programs and kernels with their reference counters and
the pointers between them: a sub-buffer has a parent, memory objects and programs
have a context, and the kernels of a program are on a linked list.

A function is undefined, that is `none`, where it follows a pointer to an object
that has been freed.  The arguments of a call that decide only whether it is
accepted are taken together in one flag.  What a driver and the HSA runtime do,
and the contents of the objects, are left out.
-/

namespace Pocl

namespace RuntimeObjects

abbrev ContextId := ℕ

abbrev MemId := ℕ

abbrev ProgramId := ℕ

abbrev KernelId := ℕ

/-- `POCL_OBJECT` with the other fields of the object. -/
structure Object (α : Type) where
  refcount : ℤ
  fields : α

/-- `POCL_INIT_OBJECT`. -/
def initObject {α : Type} (fields : α) : Object α :=
  ⟨1, fields⟩

def Object.count {α : Type} (change : ℤ) (object : Object α) : Object α :=
  { object with refcount := object.refcount + change }

/-- `POCL_RETAIN_OBJECT`. -/
def retainObject {α : Type} (table : Table (Object α)) (id : ℕ) :
    Option (Table (Object α)) := do
  let _ ← table.get id
  some (table.modify id (Object.count 1))

/-- `POCL_RELEASE_OBJECT`, with the new count. -/
def releaseObject {α : Type} (table : Table (Object α)) (id : ℕ) :
    Option (Table (Object α) × ℤ) := do
  let object ← table.get id
  some (table.modify id (Object.count (-1)), object.refcount - 1)

structure ContextFields where
  numDevices : ℕ

structure MemFields where
  parent : Option MemId
  context : ContextId

structure ProgramFields where
  context : ContextId
  numDevices : ℕ
  kernels : Option KernelId

structure KernelFields where
  program : Option ProgramId
  next : Option KernelId

structure State where
  contexts : Table (Object ContextFields)
  mems : Table (Object MemFields)
  programs : Table (Object ProgramFields)
  kernels : Table (Object KernelFields)

namespace State

def start : State :=
  ⟨.empty, .empty, .empty, .empty⟩

/-- The loop over the devices in `clCreateBuffer` and `clCreateKernel`: the
object is retained for each device but the first, and the work for a device may
fail. -/
def forDevices {α : Type} (succeeds : ℕ → Bool) :
    List ℕ → Object α → Option (Object α)
  | [], object => some object
  | index :: rest, object =>
      let object := if 0 < index then object.count 1 else object
      if succeeds index then
        forDevices succeeds rest object
      else
        none

def createContext (numDevices : ℕ) (valid : Bool) (state : State) :
    Option (State × Option ContextId) :=
  if numDevices = 0 ∨ valid = false then
    some (state, none)
  else
    some
      ({ state with contexts := state.contexts.alloc (initObject ⟨numDevices⟩) },
        some state.contexts.next)

def createBuffer (context : ContextId) (valid : Bool) (allocates : ℕ → Bool)
    (state : State) : Option (State × Option MemId) := do
  let object ← state.contexts.get context
  if valid = false then
    some (state, none)
  else
    match forDevices allocates (List.range object.fields.numDevices)
        (initObject ⟨none, context⟩) with
    | none => some (state, none)
    | some mem => do
        let contexts ← retainObject state.contexts context
        some
          ({ state with contexts := contexts, mems := state.mems.alloc mem },
            some state.mems.next)

def createSubBuffer (buffer : MemId) (valid : Bool) (state : State) :
    Option (State × Option MemId) := do
  let object ← state.mems.get buffer
  if object.fields.parent ≠ none ∨ valid = false then
    some (state, none)
  else do
    let mem := initObject (MemFields.mk (some buffer) object.fields.context)
    let mems ← retainObject (state.mems.alloc mem) buffer
    let contexts ← retainObject state.contexts object.fields.context
    some ({ state with contexts := contexts, mems := mems }, some state.mems.next)

/-- The end of `clCreateProgramWithSource` and of `clCreateProgramWithBinary`. -/
def createProgram (context : ContextId) (numDevices : ℕ) (state : State) :
    Option (State × Option ProgramId) := do
  let contexts ← retainObject state.contexts context
  some
    ({ state with
        contexts := contexts
        programs := state.programs.alloc (initObject ⟨context, numDevices, none⟩) },
      some state.programs.next)

def createProgramWithSource (context : ContextId) (valid : Bool) (state : State) :
    Option (State × Option ProgramId) := do
  let object ← state.contexts.get context
  if valid = false then
    some (state, none)
  else
    state.createProgram context object.fields.numDevices

def createProgramWithBinary (context : ContextId) (numDevices : ℕ) (valid : Bool)
    (state : State) : Option (State × Option ProgramId) :=
  if numDevices = 0 ∨ valid = false then
    some (state, none)
  else
    state.createProgram context numDevices

def createKernel (program : ProgramId) (valid : Bool) (compiles : ℕ → Bool)
    (state : State) : Option (State × Option KernelId) := do
  let object ← state.programs.get program
  if object.fields.numDevices = 0 ∨ valid = false then
    some (state, none)
  else
    match forDevices compiles (List.range object.fields.numDevices)
        (initObject (KernelFields.mk (some program) object.fields.kernels)) with
    | none => some (state, none)
    | some kernel => do
        let programs := state.programs.modify program fun object =>
          { object with fields :=
            { object.fields with kernels := some state.kernels.next } }
        let programs ← retainObject programs program
        some
          ({ state with programs := programs, kernels := state.kernels.alloc kernel },
            some state.kernels.next)

def retainContext (context : ContextId) (state : State) : Option State := do
  let contexts ← retainObject state.contexts context
  some { state with contexts := contexts }

def retainMemObject (mem : MemId) (state : State) : Option State := do
  let mems ← retainObject state.mems mem
  some { state with mems := mems }

def retainProgram (program : ProgramId) (state : State) : Option State := do
  let programs ← retainObject state.programs program
  some { state with programs := programs }

def retainKernel (kernel : KernelId) (state : State) : Option State := do
  let kernels ← retainObject state.kernels kernel
  some { state with kernels := kernels }

def releaseContext (context : ContextId) (state : State) : Option State := do
  let (contexts, refcount) ← releaseObject state.contexts context
  if refcount = 0 then
    some { state with contexts := contexts.free context }
  else
    some { state with contexts := contexts }

/-- The memory on the devices of the context is freed, except for a sub-buffer,
whose reference to its parent is only counted. -/
def releaseParent (fields : MemFields) (contexts : Table (Object ContextFields))
    (mems : Table (Object MemFields)) : Option (Table (Object MemFields)) :=
  match fields.parent with
  | none => do
      let _ ← contexts.get fields.context
      some mems
  | some parent => do
      let (mems, _) ← releaseObject mems parent
      some mems

/-- The reference to the context is only counted. -/
def releaseMemObject (mem : MemId) (state : State) : Option State := do
  let (mems, refcount) ← releaseObject state.mems mem
  if refcount = 0 then do
    let object ← mems.get mem
    let mems ← releaseParent object.fields state.contexts mems
    let (contexts, _) ← releaseObject state.contexts object.fields.context
    some { state with contexts := contexts, mems := mems.free mem }
  else
    some { state with mems := mems }

/-- The `next` field of a kernel. -/
def fetchNext (kernels : Table (Object KernelFields)) (kernel : KernelId) :
    Option (Option KernelId) :=
  (kernels.get kernel).map fun object => object.fields.next

/-- The loop that marks the kernels of a program as having no program. -/
def detachKernels :
    ℕ → Option KernelId → Table (Object KernelFields) →
      Option (Table (Object KernelFields))
  | 0, _, _ => none
  | _ + 1, none, kernels => some kernels
  | fuel + 1, some kernel, kernels => do
      let next ← fetchNext kernels kernel
      detachKernels fuel next (kernels.modify kernel fun object =>
        { object with fields := { object.fields with program := none } })

def releaseProgram (program : ProgramId) (state : State) : Option State := do
  let (programs, refcount) ← releaseObject state.programs program
  if refcount = 0 then do
    let object ← programs.get program
    let kernels ← detachKernels (state.kernels.next + 1) object.fields.kernels
      state.kernels
    let (contexts, _) ← releaseObject state.contexts object.fields.context
    some
      { state with
        contexts := contexts
        programs := programs.free program
        kernels := kernels }
  else
    some { state with programs := programs }

/-- The pointer at this place is set to another record. -/
def setLink (program : ProgramId) (link : Link KernelId) (target : Option KernelId)
    (state : State) : State :=
  match link with
  | .head =>
      { state with
        programs := state.programs.modify program fun object =>
          { object with fields := { object.fields with kernels := target } } }
  | .next kernel =>
      { state with
        kernels := state.kernels.modify kernel fun object =>
          { object with fields := { object.fields with next := target } } }

/-- The kernel is not freed if it is not on the list of its program. -/
def releaseKernel (kernel : KernelId) (state : State) : Option State := do
  let (kernels, refcount) ← releaseObject state.kernels kernel
  let state := { state with kernels := kernels }
  if refcount = 0 then do
    let object ← state.kernels.get kernel
    match object.fields.program with
    | none => some { state with kernels := state.kernels.free kernel }
    | some program => do
        let programObject ← state.programs.get program
        let link ← findLink (fetchNext state.kernels) kernel (state.kernels.next + 1)
          .head programObject.fields.kernels
        match link with
        | none => some state
        | some link => do
            let state := state.setLink program link object.fields.next
            let state ← state.releaseProgram program
            some { state with kernels := state.kernels.free kernel }
  else
    some state

end State

inductive Call
  | createContext (numDevices : ℕ) (valid : Bool)
  | createBuffer (context : ContextId) (valid : Bool) (allocates : ℕ → Bool)
  | createSubBuffer (buffer : MemId) (valid : Bool)
  | createProgramWithSource (context : ContextId) (valid : Bool)
  | createProgramWithBinary (context : ContextId) (numDevices : ℕ) (valid : Bool)
  | createKernel (program : ProgramId) (valid : Bool) (compiles : ℕ → Bool)
  | retainContext (context : ContextId)
  | retainMemObject (mem : MemId)
  | retainProgram (program : ProgramId)
  | retainKernel (kernel : KernelId)
  | releaseContext (context : ContextId)
  | releaseMemObject (mem : MemId)
  | releaseProgram (program : ProgramId)
  | releaseKernel (kernel : KernelId)

/-- The references that the client has: one for each object it has created and
for each retain, less one for each release. -/
structure Holdings where
  contexts : ContextId → ℤ
  mems : MemId → ℤ
  programs : ProgramId → ℤ
  kernels : KernelId → ℤ

/-- The runtime and its client. -/
structure Session where
  state : State
  held : Holdings

namespace Session

def start : Session :=
  ⟨State.start, ⟨fun _ => 0, fun _ => 0, fun _ => 0, fun _ => 0⟩⟩

/-- The references with some more on one object. -/
def hold (held : ℕ → ℤ) (id : ℕ) (change : ℤ) : ℕ → ℤ :=
  Function.update held id (held id + change)

/-- The references with one on a new object, if there is one. -/
def holdNew (held : ℕ → ℤ) (id : Option ℕ) : ℕ → ℤ :=
  match id with
  | none => held
  | some id => hold held id 1

def step (session : Session) : Call → Option Session
  | .createContext numDevices valid => do
      let (state, id) ← session.state.createContext numDevices valid
      some ⟨state, { session.held with contexts := holdNew session.held.contexts id }⟩
  | .createBuffer context valid allocates => do
      let (state, id) ← session.state.createBuffer context valid allocates
      some ⟨state, { session.held with mems := holdNew session.held.mems id }⟩
  | .createSubBuffer buffer valid => do
      let (state, id) ← session.state.createSubBuffer buffer valid
      some ⟨state, { session.held with mems := holdNew session.held.mems id }⟩
  | .createProgramWithSource context valid => do
      let (state, id) ← session.state.createProgramWithSource context valid
      some ⟨state, { session.held with programs := holdNew session.held.programs id }⟩
  | .createProgramWithBinary context numDevices valid => do
      let (state, id) ← session.state.createProgramWithBinary context numDevices valid
      some ⟨state, { session.held with programs := holdNew session.held.programs id }⟩
  | .createKernel program valid compiles => do
      let (state, id) ← session.state.createKernel program valid compiles
      some ⟨state, { session.held with kernels := holdNew session.held.kernels id }⟩
  | .retainContext context => do
      let state ← session.state.retainContext context
      some ⟨state, { session.held with contexts := hold session.held.contexts context 1 }⟩
  | .retainMemObject mem => do
      let state ← session.state.retainMemObject mem
      some ⟨state, { session.held with mems := hold session.held.mems mem 1 }⟩
  | .retainProgram program => do
      let state ← session.state.retainProgram program
      some ⟨state, { session.held with programs := hold session.held.programs program 1 }⟩
  | .retainKernel kernel => do
      let state ← session.state.retainKernel kernel
      some ⟨state, { session.held with kernels := hold session.held.kernels kernel 1 }⟩
  | .releaseContext context => do
      let state ← session.state.releaseContext context
      some ⟨state,
        { session.held with contexts := hold session.held.contexts context (-1) }⟩
  | .releaseMemObject mem => do
      let state ← session.state.releaseMemObject mem
      some ⟨state, { session.held with mems := hold session.held.mems mem (-1) }⟩
  | .releaseProgram program => do
      let state ← session.state.releaseProgram program
      some ⟨state,
        { session.held with programs := hold session.held.programs program (-1) }⟩
  | .releaseKernel kernel => do
      let state ← session.state.releaseKernel kernel
      some ⟨state, { session.held with kernels := hold session.held.kernels kernel (-1) }⟩

/-- The sessions that calls lead to, when each call is allowed in the session it
is made in. -/
inductive Reaches (allowed : Session → Call → Prop) : Session → Prop
  | start : Reaches allowed start
  | step {session next : Session} {call : Call} (hreach : Reaches allowed session)
      (hallowed : allowed session call) (hstep : session.step call = some next) :
      Reaches allowed next

/-- The client has a reference on the object that it gives to the call. -/
def Holds (session : Session) : Call → Prop
  | .createContext _ _ => True
  | .createBuffer context _ _ => 0 < session.held.contexts context
  | .createSubBuffer buffer _ => 0 < session.held.mems buffer
  | .createProgramWithSource context _ => 0 < session.held.contexts context
  | .createProgramWithBinary context _ _ => 0 < session.held.contexts context
  | .createKernel program _ _ => 0 < session.held.programs program
  | .retainContext context => 0 < session.held.contexts context
  | .retainMemObject mem => 0 < session.held.mems mem
  | .retainProgram program => 0 < session.held.programs program
  | .retainKernel kernel => 0 < session.held.kernels kernel
  | .releaseContext context => 0 < session.held.contexts context
  | .releaseMemObject mem => 0 < session.held.mems mem
  | .releaseProgram program => 0 < session.held.programs program
  | .releaseKernel kernel => 0 < session.held.kernels kernel

instance decidableHolds (session : Session) : ∀ call, Decidable (session.Holds call)
  | .createContext _ _ => isTrue trivial
  | .createBuffer context _ _ => inferInstanceAs (Decidable (0 < session.held.contexts context))
  | .createSubBuffer buffer _ => inferInstanceAs (Decidable (0 < session.held.mems buffer))
  | .createProgramWithSource context _ =>
      inferInstanceAs (Decidable (0 < session.held.contexts context))
  | .createProgramWithBinary context _ _ =>
      inferInstanceAs (Decidable (0 < session.held.contexts context))
  | .createKernel program _ _ => inferInstanceAs (Decidable (0 < session.held.programs program))
  | .retainContext context => inferInstanceAs (Decidable (0 < session.held.contexts context))
  | .retainMemObject mem => inferInstanceAs (Decidable (0 < session.held.mems mem))
  | .retainProgram program => inferInstanceAs (Decidable (0 < session.held.programs program))
  | .retainKernel kernel => inferInstanceAs (Decidable (0 < session.held.kernels kernel))
  | .releaseContext context => inferInstanceAs (Decidable (0 < session.held.contexts context))
  | .releaseMemObject mem => inferInstanceAs (Decidable (0 < session.held.mems mem))
  | .releaseProgram program => inferInstanceAs (Decidable (0 < session.held.programs program))
  | .releaseKernel kernel => inferInstanceAs (Decidable (0 < session.held.kernels kernel))

/-- The calls one after the other, as long as the client has a reference on the
object that it gives to a call. -/
def runHeld (session : Session) : List Call → Option Session
  | [] => some session
  | call :: rest =>
      if session.Holds call then
        (session.step call).bind fun next => next.runHeld rest
      else
        none

theorem Reaches.runHeld {session last : Session} {calls : List Call}
    (hreach : Reaches Holds session) (hrun : session.runHeld calls = some last) :
    Reaches Holds last := by
  induction calls generalizing session with
  | nil =>
      cases hrun
      exact hreach
  | cons call rest ih =>
      unfold Session.runHeld at hrun
      split at hrun
      · rename_i hholds
        obtain ⟨next, hstep, hrest⟩ := Option.bind_eq_some_iff.mp hrun
        exact ih (.step hreach hholds hstep) hrest
      · cases hrun

end Session

end RuntimeObjects

end Pocl
