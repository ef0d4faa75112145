import Pocl.LlvmFunctions

/-!
# The barrier canonicalization pass

Blocks are split so that every barrier stands alone with the terminator in a
block with one predecessor, the entry block and all exit blocks are barrier
blocks, and of two barriers in direct succession the second is removed.

`assertions` says whether the `assert` calls of the source are compiled in.  A
function returns `none` where an assertion fails, where a block would be
replaced by itself, which `Value::replaceAllUsesWith` forbids, or where a loop
does not end.  The set of barriers is ordered by address in the source; here
the order is given by a `schedule` that lists them in any way.  Names of blocks
are left out.
-/

namespace Pocl

namespace CanonicalizeBarriers

/-- The predecessors of a block, one for every edge. -/
def predecessors (func : Func) (block : BlockId) : List BlockId :=
  func.order.flatMap fun source =>
    ((func.succs source).filter (· = block)).map fun _ => source

def getSinglePredecessor (func : Func) (block : BlockId) : Option BlockId :=
  match predecessors func block with
  | [source] => some source
  | _ => none

/-- `Barrier::endsWithBarrier`. -/
def endsWithBarrier (func : Func) (block : BlockId) : Bool :=
  (func.body block).instrs.getLast?.any fun instr => instr.kind.isBarrier

/-- `Barrier::hasOnlyBarrier`. -/
def hasOnlyBarrier (func : Func) (block : BlockId) : Bool :=
  endsWithBarrier func block && (func.body block).instrs.length = 1

/-- `isa<BarrierBlock>`, with the assertion of `BarrierBlock::classof`. -/
def isBarrierBlock (assertions : Bool) (func : Func) (block : BlockId) :
    Option Bool :=
  if (func.body block).instrs.length = 1 ∧
      (func.body block).instrs.head?.any (fun instr => instr.kind.isBarrier) then
    if assertions && (getSinglePredecessor func block).isNone &&
        block ≠ func.entry then
      none
    else
      some true
  else
    some false

def renameIncoming (old new : BlockId) (instr : Instr) : Instr :=
  match instr.kind with
  | .phi incoming =>
      { instr with
        kind := .phi (incoming.map fun entry =>
          (entry.1, if entry.2 = old then new else entry.2)) }
  | _ => instr

/-- The PHI nodes of the given blocks are told of a new predecessor. -/
def replacePhiUses
    (func : Func) (targets : List BlockId) (old new : BlockId) : Func :=
  { func with
    body := fun block =>
      if block ∈ targets then
        { func.body block with
          instrs := (func.body block).instrs.map (renameIncoming old new) }
      else
        func.body block }

/-- `SplitBlock`: the instructions from `index` on, after any PHI nodes there,
move with the terminator to a new block.  The new block is returned. -/
def splitBlock (func : Func) (block : BlockId) (index : ℕ) : Func × BlockId :=
  let content := func.body block
  let skipped := (content.instrs.drop index).takeWhile fun instr =>
    instr.kind.isPhi
  let index := index + skipped.length
  let new := func.freshBlock
  let func :=
    { func with
      order := insertAfter block new func.order
      body := Function.update
        (Function.update func.body block
          ⟨content.instrs.take index, ⟨func.freshValue, 0, [], [new]⟩⟩)
        new ⟨content.instrs.drop index, content.term⟩
      freshBlock := new + 1
      freshValue := func.freshValue + 1 }
  (replacePhiUses func content.term.succs block new, new)

/-- `Barrier::Create` before the terminator of a block. -/
def createBarrier (func : Func) (block : BlockId) : Func :=
  if endsWithBarrier func block then
    func
  else
    { func.setBody block
        { func.body block with
          instrs := (func.body block).instrs ++ [⟨func.freshValue, .barrier⟩] }
      with freshValue := func.freshValue + 1 }

def barrierEntry (assertions : Bool) (func : Func) : Option Func :=
  match isBarrierBlock assertions func func.entry with
  | none => none
  | some true => some func
  | some false => some (createBarrier (splitBlock func func.entry 0).1 func.entry)

/-- The loop over the blocks of the function.  A block that is split off at an
exit is visited next. -/
def barrierExits (assertions : Bool) :
    ℕ → Func → List BlockId → Option Func
  | _, func, [] => some func
  | 0, _, _ :: _ => none
  | fuel + 1, func, block :: rest =>
      if func.succs block = [] then
        match isBarrierBlock assertions func block with
        | none => none
        | some true => barrierExits assertions fuel func rest
        | some false =>
            let count := (func.body block).instrs.length
            let split := splitBlock func block
              (if endsWithBarrier func block then count - 1 else count)
            barrierExits assertions fuel (createBarrier split.1 split.2)
              (split.2 :: rest)
      else
        barrierExits assertions fuel func rest

def collectBarriers (func : Func) : List ValueId :=
  func.order.flatMap fun block =>
    ((func.body block).instrs.filter fun instr =>
      instr.kind.isBarrier).map Instr.id

/-- The only successor of the block's only predecessor is the block. -/
def isolated (func : Func) (block : BlockId) : Bool :=
  match getSinglePredecessor func block with
  | none => false
  | some source => (func.succs source).length = 1

/-- The splits behind and before one barrier. -/
def splitAroundBarrier (state : Func × Bool) (barrier : ValueId) :
    Option (Func × Bool) := do
  let (func, changed) := state
  let block ← func.order.find? fun block =>
    (func.body block).instrs.any fun instr => instr.id = barrier
  let instrs := (func.body block).instrs
  let index := instrs.findIdx fun instr => instr.id = barrier
  let (func, changed) :=
    if index + 1 < instrs.length then
      ((splitBlock func block (index + 1)).1, true)
    else
      (func, changed)
  if isolated func block = true ∧ index = 0 then
    some (func, changed)
  else if block = func.entry ∧ index = 0 then
    some (func, changed)
  else
    some ((splitBlock func block index).1, true)

/-- The block ends with a barrier and goes on to a block with nothing but a
barrier. -/
def prunable (func : Func) (block : BlockId) : Bool :=
  endsWithBarrier func block &&
    match func.succs block with
    | [successor] =>
        hasOnlyBarrier func successor &&
          getSinglePredecessor func successor = some block &&
          (func.succs successor).length = 1
    | _ => false

/-- Skip the successor of a block and erase it. -/
def pruneSuccessor (func : Func) (block successor : BlockId) : Func :=
  let func := func.setSuccessor block 0 ((func.succs successor).headD 0)
  let func := replacePhiUses func (func.succs successor) successor block
  { func with order := func.order.erase successor }

/-- The `do` loop, which restarts after every deletion. -/
def prune : ℕ → Func → Bool → Option (Func × Bool)
  | 0, _, _ => none
  | fuel + 1, func, changed =>
      match func.order.find? (prunable func) with
      | none => some (func, changed)
      | some block =>
          let successor := (func.succs block).headD 0
          if successor = block then
            none
          else
            prune fuel (pruneSuccessor func block successor) true

def processFunction
    (schedule : List ValueId → List ValueId) (func : Func) :
    Option (Func × Bool) := do
  let (func, changed) ←
    (schedule (collectBarriers func)).foldlM splitAroundBarrier (func, false)
  prune (func.order.length + 1) func changed

def runOnFunction
    (assertions : Bool) (schedule : List ValueId → List ValueId)
    (func : Func) : Option (Func × Bool) := do
  let func ← barrierEntry assertions func
  let func ← barrierExits assertions (2 * func.order.length) func func.order
  processFunction schedule func

end CanonicalizeBarriers

end Pocl
