import Pocl.LlvmFunctions

/-!
# The barrier tail replication pass

A depth-first search from the entry block visits every block.  At each block
with a barrier, the part of the graph behind it that it does not dominate is
cloned, so that the tails behind two barriers never join.

Recursive functions take fuel and return `none` when it runs out, when an
assertion of the source fails, or when a PHI node has no entry for a
predecessor.  The dominator tree is recomputed after every change in the
source, so the dominance test always reads the current function.

A state carries, besides the function, for every block and value the one of the
original function it was cloned from.  The pass never reads these maps.
-/

namespace Pocl

namespace BarrierTailReplication

structure State where
  func : Func
  blockOrigin : BlockId → BlockId
  valueOrigin : ValueId → ValueId

/-- The two kinds of keys of `ValueToValueMapTy`.  A value entry may be null:
reading a missing key with `[]` inserts one. -/
structure ValueToValueMap where
  blocks : BlockId → Option BlockId
  values : ValueId → Option (Option ValueId)

namespace ValueToValueMap

def empty : ValueToValueMap :=
  ⟨fun _ => none, fun _ => none⟩

/-- Like `std::map::insert`, an existing entry stays. -/
def insertBlock (map : ValueToValueMap) (key block : BlockId) :
    ValueToValueMap :=
  match map.blocks key with
  | some _ => map
  | none => { map with blocks := Function.update map.blocks key (some block) }

def insertValue
    (map : ValueToValueMap) (key : ValueId) (entry : Option ValueId) :
    ValueToValueMap :=
  match map.values key with
  | some _ => map
  | none => { map with values := Function.update map.values key (some entry) }

/-- `reference_map[value]`, which may insert a null entry. -/
def subscript (map : ValueToValueMap) (key : ValueId) :
    ValueToValueMap × Option ValueId :=
  (map.insertValue key none, (map.values key).join)

def block (map : ValueToValueMap) (key : BlockId) : BlockId :=
  (map.blocks key).getD key

def value (map : ValueToValueMap) (key : ValueId) : ValueId :=
  ((map.values key).join).getD key

/-- `RemapInstruction` with `RF_IgnoreMissingEntries`. -/
def remapKind (map : ValueToValueMap) : InstrKind → InstrKind
  | .barrier => .barrier
  | .phi incoming =>
      .phi (incoming.map fun entry => (map.value entry.1, map.block entry.2))
  | .other opcode operands => .other opcode (operands.map map.value)

def remapBlock (map : ValueToValueMap) (block : Block) : Block where
  instrs := block.instrs.map fun instr =>
    { instr with kind := map.remapKind instr.kind }
  term :=
    { block.term with
      operands := block.term.operands.map map.value
      succs := block.term.succs.map map.block }

end ValueToValueMap

/-- All blocks reached from `entry` along edges that are not back edges, after
those already in `subgraph`. -/
def findSubgraph (func : Func) :
    ℕ → List BlockId → BlockId → Option (List BlockId)
  | 0, _, _ => none
  | fuel + 1, subgraph, entry =>
      if entry ∈ subgraph then
        some subgraph
      else
        (func.succs entry).foldlM
          (fun subgraph successor =>
            if func.dominates successor entry then
              some subgraph
            else
              findSubgraph func fuel subgraph successor)
          (subgraph ++ [entry])

/-- Give a new identity to a cloned instruction or terminator. -/
def cloneValue (state : State) (map : ValueToValueMap) (value : ValueId) :
    State × ValueToValueMap × ValueId :=
  let fresh := state.func.freshValue
  ({ state with
      func := { state.func with freshValue := fresh + 1 }
      valueOrigin :=
        Function.update state.valueOrigin fresh (state.valueOrigin value) },
    map.insertValue value (some fresh), fresh)

def cloneInstrs (state : State) (map : ValueToValueMap) :
    List Instr → State × ValueToValueMap × List Instr
  | [] => (state, map, [])
  | instr :: rest =>
      let (state, map, id) := cloneValue state map instr.id
      let (state, map, clones) := cloneInstrs state map rest
      (state, map, { instr with id := id } :: clones)

/-- Add an entry for the clone `newBlock` of `block` to every PHI node at the
start of a block. -/
def addIncoming (block newBlock : BlockId) (map : ValueToValueMap) :
    List Instr → Option (ValueToValueMap × List Instr)
  | [] => some (map, [])
  | instr :: rest =>
      match instr.kind with
      | .phi incoming => do
          let value ← getIncomingValueForBlock incoming block
          let (map, newValue) := map.subscript value
          let (map, rest) ← addIncoming block newBlock map rest
          some (map,
            { instr with
              kind := .phi (incoming ++ [(newValue.getD value, newBlock)]) } ::
                rest)
      | _ => some (map, instr :: rest)

def addIncomingTo
    (graph : List BlockId) (block newBlock : BlockId)
    (state : Func × ValueToValueMap) (successor : BlockId) :
    Option (Func × ValueToValueMap) :=
  if successor ∈ graph then
    some state
  else do
    let (map, instrs) ←
      addIncoming block newBlock state.2 (state.1.body successor).instrs
    some (state.1.setBody successor
      { state.1.body successor with instrs := instrs }, map)

/-- Append an empty clone of a block to the function. -/
def createBlock (state : State) (block : BlockId) : State :=
  { state with
    func :=
      { state.func with
        order := state.func.order ++ [state.func.freshBlock]
        freshBlock := state.func.freshBlock + 1 }
    blockOrigin :=
      Function.update state.blockOrigin state.func.freshBlock
        (state.blockOrigin block) }

/-- The clone of a block, with references still to the original values. -/
def cloneBlock (state : State) (map : ValueToValueMap) (block : BlockId) :
    State × ValueToValueMap :=
  let newBlock := state.func.freshBlock
  let content := state.func.body block
  let state := createBlock state block
  let map := map.insertBlock block newBlock
  let (state, map, instrs) := cloneInstrs state map content.instrs
  let (state, map, id) := cloneValue state map content.term.id
  ({ state with
      func :=
        state.func.setBody newBlock ⟨instrs, { content.term with id := id }⟩ },
    map)

/-- One round of `ReplicateBasicBlocks`. -/
def replicateBasicBlock
    (graph : List BlockId) (state : State × ValueToValueMap × List BlockId)
    (block : BlockId) : Option (State × ValueToValueMap × List BlockId) := do
  let (state, map, newGraph) := state
  let newBlock := state.func.freshBlock
  let (state, map) := cloneBlock state map block
  let (func, map) ←
    (state.func.succs newBlock).foldlM (addIncomingTo graph block newBlock)
      (state.func, map)
  some ({ state with func := func }, map, newGraph ++ [newBlock])

def replicateBasicBlocks (state : State) (graph : List BlockId) :
    Option (State × ValueToValueMap × List BlockId) :=
  graph.foldlM (replicateBasicBlock graph) (state, .empty, [])

def updateReferences
    (func : Func) (graph : List BlockId) (map : ValueToValueMap) : Func :=
  { func with
    body := fun block =>
      if block ∈ graph then
        map.remapBlock (func.body block)
      else
        func.body block }

/-- Clone the tail that starts at `entry`; the clone of `entry` is returned. -/
def replicateSubgraph (fuel : ℕ) (state : State) (entry : BlockId) :
    Option (State × BlockId) := do
  let subgraph ← findSubgraph state.func fuel [] entry
  let (state, map, newGraph) ← replicateBasicBlocks state subgraph
  let clone ← map.blocks entry
  some
    ({ state with func := updateReferences state.func newGraph map }, clone)

/-- The flag `changed`, the function and `processed_bbs`. -/
abbrev Progress := Bool × State × Finset BlockId

/-- The body of the loop over the successors of `subgraphEntry`. -/
def joinedSuccessor
    (recurse : State → BlockId → Finset BlockId → Option Progress)
    (fuel : ℕ) (dominator subgraphEntry : BlockId) (progress : Progress)
    (index : ℕ) : Option Progress := do
  let (changed, state, processed) := progress
  let block ← (state.func.succs subgraphEntry)[index]?
  if block ∈ processed then
    some progress
  else if state.func.dominates block subgraphEntry then
    some progress
  else if state.func.dominates dominator block then
    let (more, state, processed) ← recurse state block processed
    some (changed || more, state, processed)
  else
    let (state, clone) ← replicateSubgraph fuel state block
    some (true,
      { state with
        func := state.func.setSuccessor subgraphEntry index clone }, processed)

def replicateJoinedSubgraphs (dominator : BlockId) :
    ℕ → State → BlockId → Finset BlockId → Option Progress
  | 0, _, _, _ => none
  | fuel + 1, state, subgraphEntry, processed =>
      if state.func.dominates dominator subgraphEntry then do
        let (changed, state, processed) ←
          (List.range (state.func.succs subgraphEntry).length).foldlM
            (joinedSuccessor (replicateJoinedSubgraphs dominator fuel) fuel
              dominator subgraphEntry)
            (false, state, processed)
        some (changed, state, insert subgraphEntry processed)
      else
        none

/-- The replication at a newly visited block, with an empty `processed_bbs_rjs`. -/
def replicateAtBarrier (fuel : ℕ) (state : State) (block : BlockId) :
    Option Progress :=
  if (state.func.body block).hasBarrier then
    replicateJoinedSubgraphs block fuel state block ∅
  else
    some (false, state, ∅)

/-- The body of the loop over the successors of `block`. -/
def barrierSuccessor
    (recurse : State → BlockId → Finset BlockId → Option Progress)
    (block : BlockId) (progress : Progress) (index : ℕ) : Option Progress := do
  let (changed, state, processed) := progress
  let successor ← (state.func.succs block)[index]?
  let (more, state, processed) ← recurse state successor processed
  some (changed || more, state, processed)

def findBarriersDFS :
    ℕ → State → BlockId → Finset BlockId → Option Progress
  | 0, _, _, _ => none
  | fuel + 1, state, block, processed =>
      if block ∈ processed then
        some (false, state, processed)
      else do
        let (changed, state, _) ← replicateAtBarrier fuel state block
        (List.range (state.func.succs block).length).foldlM
          (barrierSuccessor (findBarriersDFS fuel) block)
          (changed, state, insert block processed)

def processFunction (fuel : ℕ) (func : Func) : Option (Bool × State) := do
  let (changed, state, _) ← findBarriersDFS fuel ⟨func, id, id⟩ func.entry ∅
  some (changed, state)

end BarrierTailReplication

end Pocl
