import Pocl.CanonicalizeBarriers
import Pocl.FuelledRuns
import Pocl.ParallelRegions

/-!
# Forming the parallel regions of a kernel

From every exit block the regions are found upwards.  The region before a barrier holds the
blocks on the ways to it from other barriers.  The barriers before its entry block come next:
one of them at once, others later from a stack.

`preds` lists the predecessors of each block in the order of its uses, one for every edge,
and `loopFor` gives the innermost loop of a block.  Assertions are compiled in.
-/

namespace Pocl.KernelRegions

open CanonicalizeBarriers (isBarrierBlock predecessors)
open ExceptPrograms FuelledRun

/-- The predecessors of every block are listed in some order. -/
def ListsPredecessors (func : Func) (preds : BlockId → List BlockId) : Prop :=
  ∀ block, (preds block).Perm (predecessors func block)

section Formation

variable (preds : BlockId → List BlockId) (module : ModuleValues)

def isaBarrierBlock (func : Func) (block : BlockId) : FuelledRun Bool :=
  asserted (isBarrierBlock true func block)

/-- One round of the loop in `add_predecessors`.  The back of the vector comes first. -/
def addPredecessor
    (recurse : BlockId → List BlockId → FuelledRun (List BlockId)) (func : Func)
    (b : BlockId) (v : List BlockId) (pred : BlockId) : FuelledRun (List BlockId) := do
  if ← isaBarrierBlock func pred then
    if ← isaBarrierBlock func b then recurse pred v else pure (pred :: v)
  else
    pure (pred :: v)

def addPredecessors (func : Func) :
    ℕ → BlockId → List BlockId → FuelledRun (List BlockId)
  | 0, _, _ => .error .outOfFuel
  | fuel + 1, b, v => (preds b).foldlM (addPredecessor (addPredecessors func fuel) func b) v

def verifyNoBarriers (func : Func) (block : BlockId) : Bool :=
  !(func.body block).hasBarrier

def getSinglePredecessor (block : BlockId) : Option BlockId :=
  match preds block with
  | [source] => some source
  | _ => none

structure Collected where
  blocksInRegion : List BlockId
  regionEntryBarrier : Option BlockId

/-- The loop over the pending blocks. -/
def collectBlocks (func : Func) :
    ℕ → List BlockId → Collected → FuelledRun Collected
  | 0, _, _ => .error .outOfFuel
  | _ + 1, [], collected => pure collected
  | fuel + 1, current :: pending, collected =>
      if current ∈ collected.blocksInRegion then
        collectBlocks func fuel pending collected
      else do
        if ← isaBarrierBlock func current then
          collectBlocks func fuel pending
            { collected with
              regionEntryBarrier := collected.regionEntryBarrier.or (some current) }
        else
          require (verifyNoBarriers func current)
          let pending ← addPredecessors preds func fuel current pending
          collectBlocks func fuel pending
            { collected with blocksInRegion := current :: collected.blocksInRegion }

/-- A load of a local id before the first instruction of a block that is no PHI node. -/
def insertIdLoad (func : Func) (block : BlockId) (dim : Dim) : Func :=
  let content := func.body block
  let load : Instr := ⟨func.freshValue, .other opcodeLoad [module.localId dim]⟩
  { func.setBody block
      { content with
        instrs := content.instrs.takeWhile (·.kind.isPhi) ++
          load :: content.instrs.dropWhile (·.kind.isPhi) } with
    freshValue := func.freshValue + 1 }

/-- `LocalIDXLoad`, `LocalIDYLoad` and `LocalIDZLoad` of a region that has no loads yet. -/
def localIdLoad
    (dim : Dim) (state : Func × ParallelRegion) : FuelledRun (Func × ParallelRegion) := do
  let (func, region) := state
  let entry ← asserted region.entryBB
  pure (insertIdLoad module func entry dim,
    { region with idLoad := Function.update region.idLoad dim func.freshValue })

/-- `ParallelRegion::Verify`. -/
def verify (func : Func) (region : ParallelRegion) : Bool :=
  region.blocks.all fun block =>
    (preds block).all (fun pred => decide (pred ∈ region.blocks) ||
      decide (region.entryBB = some block) && (func.body pred).hasBarrier) &&
    region.exitBB.any (fun exit => (func.succs exit).length = 1) &&
    !(func.body block).hasBarrier

/-- `ParallelRegion::Create`.  An exit that is the entry too is not looked for. -/
def createRegion
    (func : Func) (bbs : List BlockId) (entry exit : BlockId) :
    FuelledRun (Func × ParallelRegion) := do
  let blocks := func.order.filter (· ∈ bbs)
  let newRegion : ParallelRegion :=
    { blocks := blocks
      entryIndex := if entry ∈ blocks then blocks.idxOf entry else 0
      exitIndex := if exit ∈ blocks ∧ exit ≠ entry then blocks.idxOf exit else 0
      idLoad := fun _ => 0 }
  let state ← localIdLoad module .x (func, newRegion)
  let state ← localIdLoad module .y state
  let (func, newRegion) ← localIdLoad module .z state
  let func := newRegion.localizeIDLoads module func
  require (verify preds func newRegion)
  pure (func, newRegion)

/-- There is no region if no block but barriers comes before the barrier. -/
def createParallelRegionBefore
    (fuel : ℕ) (func : Func) (b : BlockId) :
    FuelledRun (Option (Func × ParallelRegion)) := do
  let pending ← addPredecessors preds func fuel b []
  let collected ← collectBlocks preds func fuel pending ⟨[], none⟩
  if collected.blocksInRegion = [] then
    pure none
  else
    let barrier ← asserted collected.regionEntryBarrier
    let entry ← asserted ((func.succs barrier).find? (· ∈ collected.blocksInRegion))
    let exit ← asserted (getSinglePredecessor preds b)
    let result ← createRegion preds module func collected.blocksInRegion entry exit
    pure (some result)

end Formation

section Traversal

variable (preds : BlockId → List BlockId) (loopFor : BlockId → Option ℕ)
  (module : ModuleValues)

/-- The back of the vector of exit blocks comes first. -/
structure State where
  func : Func
  exitBlocks : List BlockId
  foundBarriers : List BlockId
  parallelRegions : List ParallelRegion

def inTheSameLoop (entry barrier : BlockId) : Bool :=
  (loopFor barrier).isSome && (loopFor entry).isSome &&
    decide (loopFor entry = loopFor barrier)

structure Scan where
  exit : Option BlockId
  loopBarrier : Option BlockId
  exitBlocks : List BlockId
  foundPredecessors : ℕ

/-- One round of the loop over the predecessors of an entry block. -/
def scanPredecessor
    (func : Func) (foundBarriers : List BlockId) (entry : BlockId) (scan : Scan)
    (barrier : BlockId) : FuelledRun Scan := do
  require (← isaBarrierBlock func barrier)
  if barrier ∈ foundBarriers then
    pure scan
  else if inTheSameLoop loopFor entry barrier then
    pure
      { scan with
        loopBarrier := some barrier
        exitBlocks := scan.loopBarrier.toList ++ scan.exitBlocks
        foundPredecessors := scan.foundPredecessors + 1 }
  else
    pure
      { scan with
        exit := some barrier
        foundPredecessors := scan.foundPredecessors + 1 }

/-- A barrier of the inner loop goes first, and another one waits. -/
def preferLoopBarrier (foundBarriers : List BlockId) (scan : Scan) : Scan :=
  match scan.loopBarrier with
  | none => scan
  | some loopBarrier =>
      { scan with
        exitBlocks := scan.exit.toList ++ scan.exitBlocks
        exit := if loopBarrier ∈ foundBarriers then scan.exit else some loopBarrier }

/-- One round of the loop that follows the regions upwards, with the barrier of the next
round. -/
def followOnce (fuel : ℕ) (exit : BlockId) (state : State) :
    FuelledRun (State × Option BlockId) := do
  match ← createParallelRegionBefore preds module fuel state.func exit with
  | none => pure (state, none)
  | some (func, region) =>
      let foundBarriers := exit :: state.foundBarriers
      let entry ← asserted region.entryBB
      let scan ← (preds entry).foldlM (scanPredecessor loopFor func foundBarriers entry)
        ⟨none, none, state.exitBlocks, 0⟩
      let scan := preferLoopBarrier foundBarriers scan
      let state : State :=
        ⟨func, scan.exitBlocks, foundBarriers, state.parallelRegions ++ [region]⟩
      if scan.foundPredecessors = 0 then
        pure (state, none)
      else
        let exit ← asserted scan.exit
        pure (state, some exit)

/-- The regions upwards from one exit. -/
def followExit : ℕ → BlockId → State → FuelledRun State
  | 0, _, _ => .error .outOfFuel
  | fuel + 1, exit, state => do
      match ← followOnce preds loopFor module fuel exit state with
      | (state, none) => pure state
      | (state, some exit) => followExit fuel exit state

def processExits : ℕ → State → FuelledRun State
  | 0, _ => .error .outOfFuel
  | fuel + 1, state =>
      match state.exitBlocks with
      | [] => pure state
      | exit :: rest => do
          let state ← followExit preds loopFor module fuel exit { state with exitBlocks := rest }
          processExits fuel state

/-- All exits must be barrier blocks. -/
def addExitBlock (func : Func) (exits : List BlockId) (block : BlockId) :
    FuelledRun (List BlockId) := do
  if func.succs block = [] then
    require (← isaBarrierBlock func block)
    pure (block :: exits)
  else
    pure exits

def getExitBlocks (func : Func) : FuelledRun (List BlockId) :=
  func.order.foldlM (addExitBlock func) []

def getParallelRegions (fuel : ℕ) (func : Func) :
    FuelledRun (Func × List ParallelRegion) := do
  let exitBlocks ← getExitBlocks func
  let state ← processExits preds loopFor module fuel ⟨func, exitBlocks, [], []⟩
  pure (state.func, state.parallelRegions)

end Traversal

end Pocl.KernelRegions
