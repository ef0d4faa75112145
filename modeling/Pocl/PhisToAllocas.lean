import Pocl.SsaFunctions

/-!
# The PHI elimination pass

Every PHI node becomes a load from a stack slot of its own.  The slot is made
at the start of the entry block, and each incoming value is stored to it before
the terminator of the incoming block.  The PHI nodes are collected first and
then replaced one by one.
-/

namespace Pocl

namespace PhisToAllocas

open Ssa

inductive WorkitemHandlerType
  | fullReplication
  | loops
  deriving DecidableEq

def setInstrs (func : Function) (block : BlockId) (instrs : List Instruction) :
    Function :=
  { func with
    body := Function.update func.body block
      { func.body block with instrs := instrs } }

/-- Insert after the PHI nodes of the entry block. -/
def createAlloca (func : Function) : Function :=
  let instrs := (func.body func.entry).instrs
  { setInstrs func func.entry
      (instrs.takeWhile (fun instr => instr.operation.isPhi) ++
        ⟨func.fresh, .alloca⟩ ::
          instrs.dropWhile (fun instr => instr.operation.isPhi)) with
    fresh := func.fresh + 1 }

/-- Insert before the terminator of a block. -/
def createStore (alloca : ValueId) (func : Function)
    (entry : ValueId × BlockId) : Function :=
  { setInstrs func entry.2
      ((func.body entry.2).instrs ++ [⟨func.fresh, .store entry.1 alloca⟩]) with
    fresh := func.fresh + 1 }

/-- Put the load in the place of the PHI node. -/
def createLoad (alloca : ValueId) (func : Function) (block : BlockId)
    (phi : ValueId) : Function :=
  { setInstrs func block ((func.body block).instrs.map fun instr =>
      if instr.id = phi then ⟨func.fresh, .load alloca⟩ else instr) with
    fresh := func.fresh + 1 }

def renameUse (old new value : ValueId) : ValueId :=
  if value = old then new else value

def renameOperation (old new : ValueId) : Operation → Operation
  | .phi incoming =>
      .phi (incoming.map fun entry => (renameUse old new entry.1, entry.2))
  | .alloca => .alloca
  | .load slot => .load (renameUse old new slot)
  | .store value slot =>
      .store (renameUse old new value) (renameUse old new slot)
  | .ordinary opcode operands =>
      .ordinary opcode (operands.map (renameUse old new))

def replaceAllUsesWith (func : Function) (old new : ValueId) : Function :=
  { func with
    body := fun block =>
      { func.body block with
        instrs := (func.body block).instrs.map fun instr =>
          { instr with operation := renameOperation old new instr.operation }
        operands := (func.body block).operands.map (renameUse old new) } }

/-- The incoming entries of a PHI node as they are now. -/
def incomingOf (func : Function) (phi : BlockId × ValueId) :
    Option (List (ValueId × BlockId)) :=
  (func.body phi.1).instrs.findSome? fun instr =>
    if instr.id = phi.2 then
      match instr.operation with
      | .phi incoming => some incoming
      | _ => none
    else
      none

def breakPHIToAllocas (func : Function) (phi : BlockId × ValueId) : Function :=
  match incomingOf func phi with
  | none => func
  | some incoming =>
      let alloca := func.fresh
      let func := createAlloca func
      let func := incoming.foldl (createStore alloca) func
      let load := func.fresh
      let func := createLoad alloca func phi.1 phi.2
      replaceAllUsesWith func phi.2 load

def collectPHIs (func : Function) : List (BlockId × ValueId) :=
  func.order.flatMap fun block =>
    ((func.body block).instrs.filter fun instr =>
      instr.operation.isPhi).map fun instr => (block, instr.id)

/-- The function after the pass, and whether it has changed. -/
def runOnFunction
    (isKernelToProcess : Bool) (chosenHandler : WorkitemHandlerType)
    (func : Function) : Function × Bool :=
  if isKernelToProcess = false then
    (func, false)
  else if chosenHandler ≠ .loops then
    (func, false)
  else
    let phis := collectPHIs func
    (phis.foldl breakPHIToAllocas func, !phis.isEmpty)

end PhisToAllocas

end Pocl
