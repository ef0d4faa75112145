import Pocl.ThreadPools

/-!
# The launcher of a work-group

The launcher of a kernel copies the context of a work-group to variables of the module, and runs
the kernel inlined behind.  `privatizeContext` then replaces these variables by variables on the
stack, so that work-groups can run in several threads.

The variables of the context are only the addresses of loads and stores.  All other instructions
are operations on a memory that the threads share, and what they compute comes from outside.  A
return of the kernel is the return of the launcher.
-/

namespace Pocl.WorkgroupLaunchers

/-- The variables of the kernel library: `_local_id_x`, and so on. -/
inductive WorkgroupVariable
  | localId (i : Fin 3)
  | localSize (i : Fin 3)
  | workDim
  | numGroups (i : Fin 3)
  | groupId (i : Fin 3)
  | globalOffset (i : Fin 3)
  deriving DecidableEq

/-- The entries of `pocl_context` that the launcher reads. -/
inductive Field
  | workDim
  | numGroups (i : Fin 3)
  | groupId (i : Fin 3)
  | globalOffset (i : Fin 3)
  deriving DecidableEq

abbrev Context (V : Type*) :=
  Field → V

structure GlobalVariable (V : Type*) where
  initializer : Option V

/-- A module, with the variables of the kernel library that it has. -/
structure Module (V : Type*) where
  getGlobalVariable : WorkgroupVariable → Option (GlobalVariable V)

inductive Register
  | kernel (n : ℕ)
  | launcher (field : Field)
  deriving DecidableEq

inductive Operand (V : Type*)
  | const (value : V)
  | register (r : Register)
  | argument (n : ℕ)

inductive Place
  | global (gv : WorkgroupVariable)
  | alloca (gv : WorkgroupVariable)
  deriving DecidableEq

inductive Instr (O V : Type*)
  | alloca (gv : WorkgroupVariable)
  | load (result : Register) (place : Place)
  | store (value : Operand V) (place : Place)
  | loadContext (result : Register) (field : Field)
  | operation (result : Register) (operation : O) (operands : List (Operand V))

inductive Terminator (V : Type*)
  | br (target : ℕ)
  | condBr (condition : Operand V) (ifTrue ifFalse : ℕ)
  | ret

structure Block (O V : Type*) where
  instrs : List (Instr O V)
  terminator : Terminator V

/-- The entry block of a function is no target of a branch. -/
structure Function (O V : Type*) where
  entry : Block O V
  blocks : List (Block O V)

section Source

variable {O V : Type*} (mod : Module V)

def dims : List (Fin 3) :=
  List.finRange 3

def Function.prepend (instrs : List (Instr O V)) (func : Function O V) : Function O V :=
  { func with entry.instrs := instrs ++ func.entry.instrs }

def storeLocalSize (sizes : Fin 3 → V) (i : Fin 3) : List (Instr O V) :=
  match mod.getGlobalVariable (.localSize i) with
  | none => []
  | some _ => [.store (.const (sizes i)) (.global (.localSize i))]

def addLocalSizeInitCode (sizes : Fin 3 → V) (kernel : Function O V) : Function O V :=
  kernel.prepend (dims.flatMap (storeLocalSize mod sizes))

def copyField (target : WorkgroupVariable × Field) : List (Instr O V) :=
  match mod.getGlobalVariable target.1 with
  | none => []
  | some _ =>
      [.loadContext (.launcher target.2) target.2,
        .store (.register (.launcher target.2)) (.global target.1)]

def launcherCopies : List (WorkgroupVariable × Field) :=
  (.workDim, .workDim) ::
    (dims.map (fun i => (.groupId i, .groupId i)) ++
      dims.map (fun i => (.numGroups i, .numGroups i)) ++
      dims.map (fun i => (.globalOffset i, .globalOffset i)))

/-- The function with the kernel inlined. -/
def createLauncher (kernel : Function O V) : Function O V :=
  kernel.prepend (launcherCopies.flatMap (copyField mod))

def Place.replaceUsesOfWith (gv : WorkgroupVariable) (place : Place) : Place :=
  if place = .global gv then .alloca gv else place

def Instr.replaceUsesOfWith (gv : WorkgroupVariable) : Instr O V → Instr O V
  | .load result place => .load result (place.replaceUsesOfWith gv)
  | .store value place => .store value (place.replaceUsesOfWith gv)
  | instr => instr

def Block.mapInstrs (f : Instr O V → Instr O V) (block : Block O V) : Block O V :=
  { block with instrs := block.instrs.map f }

def Function.mapInstrs (f : Instr O V → Instr O V) (func : Function O V) : Function O V where
  entry := func.entry.mapInstrs f
  blocks := func.blocks.map (·.mapInstrs f)

/-- What is inserted for a variable, if the module has it. -/
def allocaCode (gv : WorkgroupVariable) : List (Instr O V) :=
  match mod.getGlobalVariable gv with
  | none => []
  | some var =>
      match var.initializer with
      | none => [.alloca gv]
      | some value => [.alloca gv, .store (.const value) (.alloca gv)]

/-- A function and the place in its entry block where the builder inserts. -/
structure Builder (O V : Type*) where
  func : Function O V
  position : ℕ

def Builder.insert (builder : Builder O V) (instrs : List (Instr O V)) : Builder O V where
  func :=
    { builder.func with
      entry.instrs := builder.func.entry.instrs.take builder.position ++ instrs ++
        builder.func.entry.instrs.drop builder.position }
  position := builder.position + instrs.length

/-- A null pointer has no uses: variables that the module does not have are not replaced. -/
def replaceVariable (instr : Instr O V) (gv : WorkgroupVariable) : Instr O V :=
  match mod.getGlobalVariable gv with
  | none => instr
  | some _ => instr.replaceUsesOfWith gv

def privatizeVariables (builder : Builder O V) (vars : List WorkgroupVariable) :
    Builder O V :=
  let inserted := vars.foldl (fun builder v => builder.insert (allocaCode mod v)) builder
  { inserted with
    func := inserted.func.mapInstrs fun instr => vars.foldl (replaceVariable mod) instr }

def families : List (List WorkgroupVariable) :=
  [dims.map .localId, dims.map .localSize, [.workDim], dims.map .numGroups, dims.map .groupId,
    dims.map .globalOffset]

def privatizeContext (func : Function O V) : Function O V :=
  (families.foldl (privatizeVariables mod) ⟨func, 0⟩).func

end Source

section Threads

variable {O V M : Type*}

/-- The meaning of the instructions that are not about the context. -/
structure Machine (O V M : Type*) where
  undef : V
  execute : O → List V → M → V × M
  isTrue : V → Bool

structure SharedState (V M : Type*) where
  globals : WorkgroupVariable → V
  memory : M

/-- A thread in the launcher of a work-group, with the contexts of the groups that follow. -/
structure Thread (O V : Type*) where
  context : Context V
  arguments : ℕ → V
  registers : Register → V
  locals : WorkgroupVariable → V
  instrs : List (Instr O V)
  terminator : Terminator V
  groups : List (Context V)

/-- Where the variables of the module are: in the module, or one set for each work-group. -/
inductive Storage
  | shared
  | workgroup
  deriving DecidableEq

/-- What a thread runs for each of its groups, with the first values of the group's variables. -/
structure Program (O V : Type*) where
  storage : Storage
  func : Function O V
  locals : WorkgroupVariable → V

def Thread.value (thread : Thread O V) : Operand V → V
  | .const value => value
  | .register r => thread.registers r
  | .argument n => thread.arguments n

def Thread.setRegister (thread : Thread O V) (result : Register) (value : V) : Thread O V :=
  { thread with registers := Function.update thread.registers result value }

def Thread.setVariable (thread : Thread O V) (gv : WorkgroupVariable) (value : V) :
    Thread O V :=
  { thread with locals := Function.update thread.locals gv value }

def SharedState.setGlobal (shared : SharedState V M) (gv : WorkgroupVariable) (value : V) :
    SharedState V M :=
  { shared with globals := Function.update shared.globals gv value }

def load (storage : Storage) (thread : Thread O V) (shared : SharedState V M) : Place → V
  | .alloca gv => thread.locals gv
  | .global gv =>
      match storage with
      | .shared => shared.globals gv
      | .workgroup => thread.locals gv

def store (storage : Storage) (thread : Thread O V) (shared : SharedState V M) (value : V) :
    Place → Thread O V × SharedState V M
  | .alloca gv => (thread.setVariable gv value, shared)
  | .global gv =>
      match storage with
      | .shared => (thread, shared.setGlobal gv value)
      | .workgroup => (thread.setVariable gv value, shared)

variable (machine : Machine O V M)

def execute (storage : Storage) (thread : Thread O V) (shared : SharedState V M) :
    Instr O V → Thread O V × SharedState V M
  | .alloca gv => (thread.setVariable gv machine.undef, shared)
  | .load result place => (thread.setRegister result (load storage thread shared place), shared)
  | .store value place => store storage thread shared (thread.value value) place
  | .loadContext result field => (thread.setRegister result (thread.context field), shared)
  | .operation result operation operands =>
      let computed := machine.execute operation (operands.map thread.value) shared.memory
      (thread.setRegister result computed.1, { shared with memory := computed.2 })

def Thread.enter (thread : Thread O V) (block : Block O V) : Thread O V :=
  { thread with instrs := block.instrs, terminator := block.terminator }

/-- The call of the work-group function for the next group. -/
def launch (program : Program O V) (thread : Thread O V) (context : Context V)
    (groups : List (Context V)) : Thread O V where
  context := context
  arguments := thread.arguments
  registers := fun _ => machine.undef
  locals := program.locals
  instrs := program.func.entry.instrs
  terminator := program.func.entry.terminator
  groups := groups

def terminate (program : Program O V) (thread : Thread O V) : Option (Thread O V) :=
  match thread.terminator with
  | .br target => program.func.blocks[target]?.map thread.enter
  | .condBr condition ifTrue ifFalse =>
      program.func.blocks[if machine.isTrue (thread.value condition) then ifTrue else ifFalse]?.map
        thread.enter
  | .ret =>
      match thread.groups with
      | [] => none
      | context :: groups => some (launch machine program thread context groups)

/-- One step of a thread. -/
def next (program : Program O V) (thread : Thread O V) (shared : SharedState V M) :
    Option (Thread O V × SharedState V M) :=
  match thread.instrs with
  | instr :: rest =>
      some (execute machine program.storage { thread with instrs := rest } shared instr)
  | [] => (terminate machine program thread).map (·, shared)

/-- A thread in front of its first group. -/
def idle (arguments : ℕ → V) (groups : List (Context V)) : Thread O V where
  context := fun _ => machine.undef
  arguments := arguments
  registers := fun _ => machine.undef
  locals := fun _ => machine.undef
  instrs := []
  terminator := .ret
  groups := groups

def Module.initial (mod : Module V) (gv : WorkgroupVariable) : V :=
  match mod.getGlobalVariable gv with
  | none => machine.undef
  | some var => var.initializer.getD machine.undef

def launcher (mod : Module V) (sizes : Fin 3 → V) (kernel : Function O V) : Function O V :=
  createLauncher mod (addLocalSizeInitCode mod sizes kernel)

/-- What the threads run. -/
def compiled (mod : Module V) (func : Function O V) : Program O V where
  storage := .shared
  func := privatizeContext mod func
  locals := fun _ => machine.undef

/-- The launcher as it is written, with the variables of the module for each group anew. -/
def perWorkgroup (mod : Module V) (func : Function O V) : Program O V where
  storage := .workgroup
  func := func
  locals := mod.initial machine

end Threads

/-- The value that a variable has in the kernel, unless it is a local id. -/
def launchValue {V : Type*} (sizes : Fin 3 → V) (context : Context V) :
    WorkgroupVariable → Option V
  | .localId _ => none
  | .localSize i => some (sizes i)
  | .workDim => some (context .workDim)
  | .numGroups i => some (context (.numGroups i))
  | .groupId i => some (context (.groupId i))
  | .globalOffset i => some (context (.globalOffset i))

end Pocl.WorkgroupLaunchers
