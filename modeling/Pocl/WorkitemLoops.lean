import Pocl.CodeSections
import Pocl.WorkitemReplication

/-!
# The work-item loops pass

Every parallel region becomes the body of up to three loops over the local ids.  A region
that shares its entry block with another one is run once for the first work-item, and the
loops go around a copy of it.  Other regions may be copied to unroll the innermost loop.

Values are left out: a block has the instructions of a block of the kernel, and stores to
the variables of the local ids and to `.pocl.local_id_x_init`.  The loads, additions and
comparisons that the pass makes belong to the stores and branches that use them.  The
context arrays, metadata and names are left out too.  A function returns `none` where an
assertion of the source fails or an iterator points past the end of a vector.
-/

namespace Pocl.WorkitemLoops

open CodeSections

inductive IdStore
  | constant (dim : Dim) (value : ℕ)
  | increment (dim : Dim)
  /-- `.pocl.local_id_x_init` is stored to the variable. -/
  | first (dim : Dim)
  /-- A constant is stored to `.pocl.local_id_x_init`. -/
  | setFirst (value : ℕ)
  deriving DecidableEq

/-- A branch of the kernel may go to any of its successors. -/
inductive Term
  | unreachable
  | branch (succs : List BlockId)
  /-- Whether a local id is below the local size. -/
  | less (dim : Dim) (size : ℕ) (body finish : BlockId)
  deriving DecidableEq

namespace Term

def succs : Term → List BlockId
  | .unreachable => []
  | .branch succs => succs
  | .less _ _ body finish => [body, finish]

def map (f : BlockId → BlockId) : Term → Term
  | .unreachable => .unreachable
  | .branch succs => .branch (succs.map f)
  | .less dim size body finish => .less dim size (f body) (f finish)

def replaceUsesOfWith (old new : BlockId) (term : Term) : Term :=
  term.map fun block => if block = old then new else block

def setSuccessor (index : ℕ) (target : BlockId) : Term → Term
  | .unreachable => .unreachable
  | .branch succs => .branch (succs.set index target)
  | .less dim size body finish =>
      if index = 0 then .less dim size target finish else .less dim size body target

end Term

structure Block where
  stores : List IdStore
  /-- The block of the kernel whose instructions come next. -/
  code : Option BlockId
  isBarrier : Bool
  term : Term
  deriving DecidableEq

structure Func where
  entry : BlockId
  body : BlockId → Block
  freshBlock : BlockId

namespace Func

variable (func : Func)

def succs (block : BlockId) : List BlockId :=
  (func.body block).term.succs

def graph : FlowGraph BlockId :=
  ⟨func.entry, func.succs⟩

def preds (block : BlockId) : List BlockId :=
  (List.range func.freshBlock).filter fun bb => block ∈ func.succs bb

def setBody (block : BlockId) (content : Block) : Func :=
  { func with body := Function.update func.body block content }

def setTerm (block : BlockId) (term : Term) : Func :=
  func.setBody block { func.body block with term := term }

/-- A block that has no terminator yet. -/
def createBlock : Func :=
  { func.setBody func.freshBlock ⟨[], none, false, .branch []⟩ with
    freshBlock := func.freshBlock + 1 }

/-- In the terminators of the given blocks. -/
def replaceUsesOfWith (blocks : List BlockId) (old new : BlockId) : Func :=
  { func with
    body := fun block =>
      if block ∈ blocks then
        { func.body block with term := (func.body block).term.replaceUsesOfWith old new }
      else func.body block }

end Func

def appendIncBlock (func : Func) (after : BlockId) (localIdVar : Dim) :
    Option (Func × BlockId) := do
  let oldExit ← (func.succs after)[0]?
  let forIncBB := func.freshBlock
  let func := func.createBlock.replaceUsesOfWith [after] oldExit forIncBB
  some (func.setBody forIncBB ⟨[.increment localIdVar], none, false, .branch [oldExit]⟩,
    forIncBB)

/-- The predecessors of a block go to a new one, but not those that the block dominates. -/
def redirectPreds
    (func : Func) (dt : FlowGraph BlockId) (entryBB forInitBB : BlockId) : Func :=
  let preds := (func.preds entryBB).filter fun bb =>
    !dt.dominatesWithin func.freshBlock entryBB bb
  func.replaceUsesOfWith preds entryBB forInitBB

/-- The first and the last block of the loop, with the dominator tree that was computed. -/
def createLoopAround
    (func : Func) (entryBB exitBB : BlockId) (peeledFirst : Bool) (localIdVar : Dim)
    (localSizeForDim : ℕ) (addIncBlock : Bool) :
    Option (Func × FlowGraph BlockId × BlockId × BlockId) :=
  match func.succs exitBB with
  | [oldExit] => do
      let forInitBB := func.freshBlock
      let loopEndBB := func.freshBlock + 1
      let forCondBB := func.freshBlock + 2
      let func := func.createBlock.createBlock.createBlock
      let dt := func.graph
      let func := redirectPreds func dt entryBB forInitBB
      let func := func.setBody forInitBB
        ⟨if peeledFirst then [.first localIdVar, .setFirst 0] else [.constant localIdVar 0],
          none, false, .branch [entryBB]⟩
      let func := func.replaceUsesOfWith [exitBB] oldExit forCondBB
      let func ←
        if addIncBlock then (appendIncBlock func exitBB localIdVar).map Prod.fst
        else some func
      let func := func.setTerm forCondBB
        (.less localIdVar localSizeForDim entryBB loopEndBB)
      let func := func.setTerm loopEndBB (.branch [oldExit])
      some (func, dt, forInitBB, loopEndBB)
  | _ => none

section Regions

/-- The clones are numbered in the order of the region.  All of its blocks are in the value
map afterwards, whatever was in it before. -/
def replicate (func : Func) (region : ParallelRegion) : Func × ParallelRegion :=
  let clone := fun block => func.freshBlock + region.blocks.idxOf block
  let remap := fun block => if block ∈ region.blocks then clone block else block
  ({ func with
      body := fun block =>
        if func.freshBlock ≤ block then
          match region.blocks[block - func.freshBlock]? with
          | some original =>
              { func.body original with term := (func.body original).term.map remap }
          | none => func.body block
        else func.body block
      freshBlock := func.freshBlock + region.blocks.length },
    { region with blocks := region.blocks.map clone })

/-- The block that control leaves the region from. -/
def tailBB (func : Func) (region : ParallelRegion) : Option BlockId := do
  let tail ← region.exitBB
  if (func.body tail).term = .unreachable then
    region.blocks[region.blocks.length - 2]?
  else
    some tail

def chainAfter (func : Func) (region previous : ParallelRegion) : Option Func := do
  let tail ← tailBB func previous
  match func.succs tail with
  | [successor] => do
      let entry ← region.entryBB
      let exit ← region.exitBB
      let func := func.setTerm tail ((func.body tail).term.setSuccessor 0 entry)
      if (func.succs exit).length = 1 then
        some (func.setTerm exit ((func.body exit).term.setSuccessor 0 successor))
      else
        none
  | _ => none

/-- A successor outside the region is replaced by a new unreachable block, which is created
before the next block of the region. -/
def purgeSuccessor
    (region : ParallelRegion) (block : BlockId) (nextBlock : Option BlockId)
    (state : Func × List BlockId) (index : ℕ) : Option (Func × List BlockId) := do
  let (func, newBlocks) := state
  let successor ← (func.succs block)[index]?
  if successor ∈ region.blocks then
    some state
  else do
    let _ ← nextBlock
    let unreachable := func.freshBlock
    let func := func.createBlock.setTerm unreachable .unreachable
    some (func.setTerm block ((func.body block).term.setSuccessor index unreachable),
      newBlocks ++ [unreachable])

def purgeFrom (region : ParallelRegion) :
    List BlockId → Func × List BlockId → Option (Func × List BlockId)
  | [], state => some state
  | block :: rest, state =>
      if region.exitBB = some block then
        purgeFrom region rest state
      else do
        let state ← (List.range (state.1.succs block).length).foldlM
          (purgeSuccessor region block rest.head?) state
        purgeFrom region rest state

def purge (func : Func) (region : ParallelRegion) : Option (Func × ParallelRegion) := do
  let (func, newBlocks) ← purgeFrom region region.blocks (func, [])
  some (func, { region with blocks := region.blocks ++ newBlocks })

/-- `AddBlockAfter`; the index of the entry stays as it is. -/
def addBlockAfter (region : ParallelRegion) (block after : BlockId) : ParallelRegion :=
  let oldExitPos := region.exitBB.elim region.blocks.length region.blocks.idxOf
  { region with
    blocks := insertAfter after block region.blocks
    exitIndex :=
      if region.blocks.idxOf after < oldExitPos then region.exitIndex + 1
      else region.exitIndex }

def setExitBB (region : ParallelRegion) (block : BlockId) : Option ParallelRegion :=
  if block ∈ region.blocks then
    some { region with exitIndex := region.blocks.idxOf block }
  else
    none

def regionOfBlock (regions : List ParallelRegion) (bb : BlockId) : Option ℕ :=
  regions.findIdx? fun region => bb ∈ region.blocks

/-- The stores go to the beginning of the block. -/
def insertLocalIdInit (func : Func) (entry : BlockId) (x y z : ℕ) : Func :=
  func.setBody entry
    { func.body entry with
      stores := [.constant .x x, .constant .y y, .constant .z z] ++
        (func.body entry).stores }

end Regions

/-- The loop halves the count at most as often as there are rounds. -/
def halveUnrollCount (localSizeX : ℕ) : ℕ → ℕ → ℕ
  | 0, unrollCount => unrollCount
  | rounds + 1, unrollCount =>
      if unrollCount = 0 then 0
      else if localSizeX % unrollCount = 0 ∧ unrollCount ≤ localSizeX then unrollCount
      else halveUnrollCount localSizeX rounds (unrollCount / 2)

/-- `POCL_WILOOPS_MAX_UNROLL_COUNT`, if it is set, as `atoi` reads it. -/
def unrollCount (localSizeX : ℕ) (maxUnrollCount : Option ℤ) : ℕ :=
  let count := (maxUnrollCount.getD 1).toNat
  halveUnrollCount localSizeX count count

structure LocalSizes where
  x : ℕ
  y : ℕ
  z : ℕ

/-- The copies behind the region, with the last of them. -/
def unrollRegion (original : ParallelRegion) :
    ℕ → Func → ParallelRegion → Option (Func × ParallelRegion)
  | 0, func, prev => some (func, prev)
  | count + 1, func, prev => do
      let (func, unrolled) := replicate func original
      let func ← chainAfter func unrolled prev
      unrollRegion original count func unrolled

structure State where
  func : Func
  /-- The dominator tree that was last computed. -/
  dt : FlowGraph BlockId
  regions : List ParallelRegion

/-- One of the three loops, if the local size is not one. -/
def createLoop
    (dim : Dim) (localSize : ℕ) (peeledFirst addIncBlock : Bool)
    (state : Func × FlowGraph BlockId × BlockId × BlockId) :
    Option (Func × FlowGraph BlockId × BlockId × BlockId) :=
  if 1 < localSize then
    createLoopAround state.1 state.2.2.1 state.2.2.2 peeledFirst dim localSize addIncBlock
  else
    some state

def createLoops
    (sizes : LocalSizes) (peelFirst unrolled : Bool)
    (state : Func × FlowGraph BlockId × BlockId × BlockId) :
    Option (Func × FlowGraph BlockId × BlockId × BlockId) := do
  let state ← createLoop .x sizes.x peelFirst (!unrolled) state
  let state ← createLoop .y sizes.y false true state
  createLoop .z sizes.z false true state

/-- The first iteration is run by the region itself, and the loops go around a copy. -/
def peelRegion (sizes : LocalSizes) (state : State) (original : ParallelRegion) :
    Option State := do
  let (func, replica) := replicate state.func original
  let func ← chainAfter func replica original
  let (func, replica) ← purge func replica
  let entry ← replica.entryBB
  let exit ← replica.exitBB
  let (func, dt, _, _) ← createLoops sizes true false (func, state.dt, entry, exit)
  some { state with func := func, dt := dt }

/-- The predecessors outside the region that are fixed at the end. -/
def outerPreds (state : State) (entry : BlockId) : List BlockId :=
  (state.func.preds entry).filter fun bb =>
    !(state.dt.dominatesWithin state.func.freshBlock entry bb &&
      decide (regionOfBlock state.regions entry = regionOfBlock state.regions bb))

def loopRegion
    (sizes : LocalSizes) (maxUnrollCount : Option ℤ) (state : State) (index : ℕ)
    (original : ParallelRegion) : Option State := do
  let entry ← original.entryBB
  let exit ← original.exitBB
  let preds := outerPreds state entry
  let count := unrollCount sizes.x maxUnrollCount
  if 1 < count then
    let (func, lastBB) ← appendIncBlock state.func exit .x
    let original ← setExitBB (addBlockAfter original lastBB exit) lastBB
    let (func, last) ← unrollRegion original (count - 1) func original
    let entry ← original.entryBB
    let lastBB ← last.exitBB
    let (func, dt, first, _) ← createLoops sizes false true (func, state.dt, entry, lastBB)
    some
      { func := func.replaceUsesOfWith preds entry first
        dt := dt
        regions := state.regions.set index original }
  else
    let (func, dt, first, _) ←
      createLoops sizes false false (state.func, state.dt, entry, exit)
    some { state with func := func.replaceUsesOfWith preds entry first, dt := dt }

/-- Whether the region shares its entry block with another one. -/
def isPeeled (regions : List ParallelRegion) (region : ParallelRegion) : Bool :=
  decide (1 < regions.countP fun other => other.entryBB = region.entryBB)

def processRegion
    (sizes : LocalSizes) (maxUnrollCount : Option ℤ) (regions : List ParallelRegion)
    (state : State) (index : ℕ) : Option State := do
  let original ← state.regions[index]?
  if isPeeled regions original then
    peelRegion sizes state original
  else
    loopRegion sizes maxUnrollCount state index original

/-- The local ids and the first iteration of a region that was peeled. -/
def insertPrologue (func : Func) (region : ParallelRegion) : Option Func := do
  let entry ← region.entryBB
  let func := insertLocalIdInit func entry 0 0 0
  some (func.setBody entry
    { func.body entry with stores := .setFirst 1 :: (func.body entry).stores })

def processFunction
    (sizes : LocalSizes) (maxUnrollCount : Option ℤ) (func : Func)
    (regions : List ParallelRegion) : Option Func := do
  if sizes.x * sizes.y * sizes.z % 2 ^ 32 = 1 then
    some (insertLocalIdInit func func.entry 0 0 0)
  else
    let state ← (List.range regions.length).foldlM
      (processRegion sizes maxUnrollCount regions) ⟨func, func.graph, regions⟩
    let peeled := regions.filter (isPeeled regions)
    let func ← peeled.foldlM insertPrologue state.func
    some (insertLocalIdInit func func.entry 0 0 0)

section Execution

structure Memory where
  localId : Dim → ℕ
  localIdXFirst : ℕ

namespace Memory

def set (memory : Memory) (dim : Dim) (value : ℕ) : Memory :=
  { memory with localId := Function.update memory.localId dim value }

def item (memory : Memory) : ℕ × ℕ × ℕ :=
  (memory.localId .x, memory.localId .y, memory.localId .z)

end Memory

def IdStore.apply (memory : Memory) : IdStore → Memory
  | .constant dim value => memory.set dim value
  | .increment dim => memory.set dim (memory.localId dim + 1)
  | .first dim => memory.set dim memory.localIdXFirst
  | .setFirst value => { memory with localIdXFirst := value }

/-- Code of the kernel that is run, with the local id that it sees. -/
abbrev Event := BlockId × ℕ × ℕ × ℕ

def Func.machine (func : Func) : Machine BlockId Memory Event where
  run block memory :=
    let content := func.body block
    let memory := content.stores.foldl IdStore.apply memory
    (content.code.toList.map fun code => (code, memory.item), memory)
  next block memory next :=
    match (func.body block).term with
    | .unreachable => False
    | .branch succs => next ∈ succs
    | .less dim size body finish =>
        next = if memory.localId dim < size then body else finish

end Execution

end Pocl.WorkitemLoops
