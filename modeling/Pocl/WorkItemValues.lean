import Pocl.VariableUniformity

/-!
# The values of the work-items

The run of a work-item through a function, block by block.  An alloca that is only loaded
from and stored to is a slot of the work-item that nothing else can reach.  What is read
from other memory depends on the moment, as other work-items write there meanwhile, and
so does the result of a call; both are given for each work-item.

Before the first store a slot holds the undefined value, the same for all work-items.
-/

namespace Pocl.VariableUniformity

variable {V : Type*}

/-- The meaning of the instructions, with what is the same for all work-items of a
group. -/
structure WorkGroup (V : Type*) where
  argument : ℕ → V
  constantInt : ℤ → V
  globalAddress : String → V
  other : ℕ → V
  groupVariable : String → V
  allocaAddress : InstId → V
  undefined : V
  compute : ℕ → List V → V
  isTrue : V → Bool
  equals : V → ℤ → Bool

/-- What the work-item reads from memory other than its slots, and gets from calls. -/
structure WorkItem (V : Type*) where
  outside : ℕ → InstId → List V → V

structure Registers (V : Type*) where
  env : InstId → V
  slots : InstId → V
  clock : ℕ

structure State (V : Type*) where
  block : BlockId
  registers : Registers V

/-- An alloca that is only loaded from and stored to. -/
def Function.promotable (f : Function) (a : InstId) : Bool :=
  decide (f.inst a = .alloca) &&
    (f.users a).all (fun user =>
      match f.inst user with
      | .load _ => true
      | .store value _ => decide (value ≠ .inst a)
      | _ => false)

def WorkGroup.value (group : WorkGroup V) (registers : Registers V) : Value → V
  | .argument index => group.argument index
  | .constantInt value => group.constantInt value
  | .global name => group.globalAddress name
  | .other id => group.other id
  | .inst i => registers.env i

/-- Whether a load is from a slot or from a variable of the group. -/
def Function.readsInside (f : Function) : Value → Bool
  | .inst a => f.promotable a
  | pointer => pointer.isGroupVariable

section Execution

variable (f : Function) (group : WorkGroup V) (item : WorkItem V)

def loaded (i : InstId) (registers : Registers V) (pointer : Value) : V :=
  if f.readsInside pointer then
    match pointer with
    | .inst a => registers.slots a
    | .global name => group.groupVariable name
    | _ => group.undefined
  else item.outside registers.clock i [group.value registers pointer]

def Registers.assign (registers : Registers V) (i : InstId) (result : V) : Registers V :=
  { registers with
    env := Function.update registers.env i result
    clock := registers.clock + 1 }

def Registers.setSlot (registers : Registers V) (a : InstId) (content : V) : Registers V :=
  { registers with slots := Function.update registers.slots a content }

def execute (registers : Registers V) (i : InstId) : Registers V :=
  match f.inst i with
  | .alloca =>
      (registers.setSlot i group.undefined).assign i (group.allocaAddress i)
  | .load pointer => registers.assign i (loaded f group item i registers pointer)
  | .store value pointer =>
      match pointer with
      | .inst a => registers.setSlot a (group.value registers value)
      | _ => registers
  | .compute opcode operands =>
      registers.assign i (group.compute opcode (operands.map (group.value registers)))
  | .access _ operands =>
      registers.assign i
        (item.outside registers.clock i (operands.map (group.value registers)))

def executeBlock (state : State V) : Registers V :=
  (f.body state.block).foldl (execute f group item) state.registers

def Term.next (group : WorkGroup V) (registers : Registers V) : Term → Option BlockId
  | .ret => none
  | .br target => some target
  | .condBr condition first second =>
      some (if group.isTrue (group.value registers condition) then first else second)
  | .switch condition cases default =>
      some (((cases.find? (fun entry =>
        group.equals (group.value registers condition) entry.1)).map Prod.snd).getD default)

def step (state : State V) : Option (State V) :=
  ((f.term state.block).next group (executeBlock f group item state)).map
    (fun block => ⟨block, executeBlock f group item state⟩)

def State.initial : State V :=
  ⟨f.entry, ⟨fun _ => group.undefined, fun _ => group.undefined, 0⟩⟩

/-- The values of an instruction in the next blocks of a run. -/
def executions (v : InstId) : ℕ → State V → List V
  | 0, _ => []
  | n + 1, state =>
      (if v ∈ f.body state.block then [(executeBlock f group item state).env v] else []) ++
        match step f group item state with
        | none => []
        | some next => executions v n next

end Execution

/-- Whenever both work-items reach the same execution of the instruction, they obtain the
same value. -/
def SameValues (f : Function) (group : WorkGroup V) (first second : WorkItem V)
    (v : InstId) : Prop :=
  ∀ (n m k : ℕ) (x y : V),
    (executions f group first v n (State.initial f group))[k]? = some x →
    (executions f group second v m (State.initial f group))[k]? = some y → x = y

end Pocl.VariableUniformity
