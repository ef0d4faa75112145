import Pocl.LlvmFunctions

/-!
# Execution of functions in static single assignment form

The PHI nodes of a block are assigned simultaneously when the block is entered,
all from the values at the end of the predecessor; the other instructions then
run in order.  The `alloca`, `load` and `store` instructions are those a pass
adds for stack slots of its own, memory that no other instruction can reach, so
their slots are kept apart from the rest of the world.  All instructions of the
program itself are ordinary ones, its own memory accesses and calls included.
What they compute, what they do to the world and which way a terminator goes are
given by a machine, about which nothing is assumed.

A run is observed as the sequence of blocks, each with the values its ordinary
instructions computed.
-/

namespace Pocl

namespace Ssa

inductive Operation
  | phi (incoming : List (ValueId × BlockId))
  | alloca
  | load (slot : ValueId)
  | store (value slot : ValueId)
  | ordinary (opcode : ℕ) (operands : List ValueId)
  deriving DecidableEq

structure Instruction where
  id : ValueId
  operation : Operation
  deriving DecidableEq

structure BasicBlock where
  instrs : List Instruction
  opcode : ℕ
  operands : List ValueId
  succs : List BlockId
  deriving DecidableEq

structure Function where
  order : List BlockId
  body : BlockId → BasicBlock
  fresh : ValueId

def Operation.isPhi : Operation → Bool
  | .phi _ => true
  | _ => false

theorem Operation.exists_phi
    {operation : Operation} (hphi : operation.isPhi = true) :
    ∃ incoming, operation = .phi incoming := by
  cases operation with
  | phi incoming => exact ⟨incoming, rfl⟩
  | _ => cases hphi

def Operation.isLoad : Operation → Bool
  | .load _ => true
  | _ => false

def Function.entry (func : Function) : BlockId :=
  func.order.headD 0

structure Machine (Val World : Type) where
  ordinary : ℕ → List Val → World → Val × World
  branch : ℕ → List Val → World → Option ℕ
  undef : Val

structure Config (Val World : Type) where
  env : ValueId → Val
  slots : ValueId → Val
  world : World

variable {Val World : Type}

def Config.setValue (config : Config Val World) (id : ValueId) (value : Val) :
    Config Val World :=
  { config with env := Function.update config.env id value }

/-- One instruction that is not a PHI node, with the values it is observed to
compute. -/
def execInstr (machine : Machine Val World) (config : Config Val World)
    (instr : Instruction) : Config Val World × List (ValueId × Val) :=
  match instr.operation with
  | .phi _ => (config, [])
  | .alloca => (config, [])
  | .load slot => (config.setValue instr.id (config.slots slot), [])
  | .store value slot =>
      ({ config with
          slots := Function.update config.slots slot (config.env value) }, [])
  | .ordinary opcode operands =>
      let result := machine.ordinary opcode (operands.map config.env)
        config.world
      ({ config.setValue instr.id result.1 with world := result.2 },
        [(instr.id, result.1)])

def execInstrs (machine : Machine Val World) :
    Config Val World → List Instruction →
      Config Val World × List (ValueId × Val)
  | config, [] => (config, [])
  | config, instr :: rest =>
      let first := execInstr machine config instr
      let last := execInstrs machine first.1 rest
      (last.1, first.2 ++ last.2)

/-- The new values of the PHI nodes of a block that is entered from `pred`. -/
def phiValues (env : ValueId → Val) (pred : Option BlockId) :
    List Instruction → Option (List (ValueId × Val))
  | [] => some []
  | instr :: rest =>
      match instr.operation with
      | .phi incoming => do
          let value ← pred.bind (getIncomingValueForBlock incoming)
          let values ← phiValues env pred rest
          some ((instr.id, env value) :: values)
      | _ => phiValues env pred rest

def assign (env : ValueId → Val) : List (ValueId × Val) → ValueId → Val
  | [] => env
  | (id, value) :: rest => Function.update (assign env rest) id value

/-- Run one block; `none` as successor ends the function. -/
def runBlock
    (machine : Machine Val World) (func : Function) (pred : Option BlockId)
    (block : BlockId) (config : Config Val World) :
    Option (Config Val World × List (ValueId × Val) × Option BlockId) := do
  let values ← phiValues config.env pred (func.body block).instrs
  let result := execInstrs machine
    { config with env := assign config.env values } (func.body block).instrs
  let choice := machine.branch (func.body block).opcode
    ((func.body block).operands.map result.1.env) result.1.world
  some (result.1, result.2, choice.bind fun index =>
    (func.body block).succs[index]?)

/-- The first `count` blocks of a run.  A PHI node without an entry for the
predecessor makes the run fail. -/
def run (machine : Machine Val World) (func : Function) :
    ℕ → Option BlockId → BlockId → Config Val World →
      Option (List (BlockId × List (ValueId × Val)))
  | 0, _, _, _ => some []
  | count + 1, pred, block, config => do
      let (config, values, next) ← runBlock machine func pred block config
      match next with
      | none => some [(block, values)]
      | some target => do
          let rest ← run machine func count (some block) target config
          some ((block, values) :: rest)

/-- Some block of the function defines the value. -/
def Function.defines (func : Function) (id : ValueId) : Bool :=
  func.order.any fun block =>
    (func.body block).instrs.any fun instr => instr.id = id

/-- The values of arguments and constants are the input; results of
instructions are undefined until they run. -/
def initialConfig
    (machine : Machine Val World) (func : Function) (input : ValueId → Val)
    (world : World) : Config Val World where
  env := fun id => if func.defines id then machine.undef else input id
  slots := fun _ => machine.undef
  world := world

def runFunction
    (machine : Machine Val World) (func : Function) (input : ValueId → Val)
    (world : World) (count : ℕ) :
    Option (List (BlockId × List (ValueId × Val))) :=
  run machine func count none func.entry
    (initialConfig machine func input world)

end Ssa

end Pocl
