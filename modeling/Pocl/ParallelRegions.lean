import Pocl.LlvmFunctions

/-!
# Parallel regions

A parallel region is a vector of blocks with the indices of its entry and of
its exit.  Regions are cloned, chained one behind the other, cut off from the
rest of the function and given a prologue that stores the local id.

The blocks of a clone belong to no function until `chainAfter` inserts them:
they have a body but are not listed in the order of the function.  A function
returns `none` where an assertion of the source fails or where an index or an
iterator points past the end of a vector.  Names and metadata are left out.
-/

namespace Pocl

inductive Dim
  | x
  | y
  | z
  deriving DecidableEq

/-- The values of the module that regions refer to: the variables
`_local_id_x`, `_local_id_y` and `_local_id_z`, and integer constants. -/
structure ModuleValues where
  localId : Dim → ValueId
  constantInt : ℕ → ValueId

def opcodeUnreachable : ℕ := 7

def opcodeLoad : ℕ := 27

def opcodeStore : ℕ := 28

/-- Two kinds of keys: values and blocks. -/
structure ValueToValueMap where
  values : ValueId → Option ValueId
  blocks : BlockId → Option BlockId

namespace ValueToValueMap

def empty : ValueToValueMap :=
  ⟨fun _ => none, fun _ => none⟩

def setValue (map : ValueToValueMap) (key value : ValueId) : ValueToValueMap :=
  { map with values := Function.update map.values key (some value) }

def setBlock (map : ValueToValueMap) (key block : BlockId) : ValueToValueMap :=
  { map with blocks := Function.update map.blocks key (some block) }

/-- Lookups with `RF_IgnoreMissingEntries`. -/
def value (map : ValueToValueMap) (key : ValueId) : ValueId :=
  (map.values key).getD key

def block (map : ValueToValueMap) (key : BlockId) : BlockId :=
  (map.blocks key).getD key

end ValueToValueMap

def InstrKind.mapOperands
    (value : ValueId → ValueId) (block : BlockId → BlockId) :
    InstrKind → InstrKind
  | .barrier => .barrier
  | .phi incoming =>
      .phi (incoming.map fun entry => (value entry.1, block entry.2))
  | .other opcode operands => .other opcode (operands.map value)

def Block.mapOperands
    (value : ValueId → ValueId) (block : BlockId → BlockId) (content : Block) :
    Block where
  instrs := content.instrs.map fun instr =>
    { instr with kind := instr.kind.mapOperands value block }
  term :=
    { content.term with
      operands := content.term.operands.map value
      succs := content.term.succs.map block }

/-- The local id that an instruction of the function loads. -/
def loadedId (module : ModuleValues) (func : Func) (value : ValueId) :
    Option Dim := do
  let instrs := func.order.flatMap fun block => (func.body block).instrs
  let instr ← instrs.find? fun instr => instr.id = value
  match instr.kind with
  | .other opcode [pointer] =>
      if opcode = opcodeLoad then
        [Dim.x, Dim.y, Dim.z].find? fun dim => pointer = module.localId dim
      else
        none
  | _ => none

/-- `idLoad` are the loads of the local ids in the entry block, which
`ParallelRegion::Create` has made. -/
structure ParallelRegion where
  blocks : List BlockId
  exitIndex : ℕ
  entryIndex : ℕ
  idLoad : Dim → ValueId

namespace ParallelRegion

def exitBB (region : ParallelRegion) : Option BlockId :=
  region.blocks[region.exitIndex]?

def entryBB (region : ParallelRegion) : Option BlockId :=
  region.blocks[region.entryIndex]?

/-- New instructions with consecutive identities from `next` on. -/
def cloneInstrs (next : ValueId) (map : ValueToValueMap) :
    List Instr → List Instr × ValueToValueMap
  | [] => ([], map)
  | instr :: rest =>
      let (clones, map) := cloneInstrs (next + 1) (map.setValue instr.id next) rest
      ({ instr with id := next } :: clones, map)

/-- `CloneBasicBlock`; the clone is entered into the map. -/
def cloneBasicBlock
    (state : Func × ValueToValueMap × List BlockId) (block : BlockId) :
    Func × ValueToValueMap × List BlockId :=
  let (func, map, clones) := state
  let content := func.body block
  let (instrs, map) := cloneInstrs func.freshValue map content.instrs
  let term := func.freshValue + content.instrs.length
  ({ func.setBody func.freshBlock ⟨instrs, { content.term with id := term }⟩ with
      freshBlock := func.freshBlock + 1
      freshValue := term + 1 },
    (map.setValue content.term.id term).setBlock block func.freshBlock,
    clones ++ [func.freshBlock])

def mapBlocks
    (func : Func) (blocks : List BlockId) (change : Block → Block) : Func :=
  { func with
    body := fun block =>
      if block ∈ blocks then change (func.body block) else func.body block }

def remap (func : Func) (region : ParallelRegion) (map : ValueToValueMap) :
    Func :=
  mapBlocks func region.blocks (Block.mapOperands map.value map.block)

/-- An operand that loads a local id is replaced by the region's own load. -/
def localizeOperand
    (module : ModuleValues) (func : Func) (region : ParallelRegion)
    (operand : ValueId) : ValueId :=
  if operand ∈ [region.idLoad .x, region.idLoad .y, region.idLoad .z] then
    operand
  else
    match loadedId module func operand with
    | some dim => region.idLoad dim
    | none => operand

def localizeIDLoads
    (module : ModuleValues) (func : Func) (region : ParallelRegion) : Func :=
  mapBlocks func region.blocks
    (Block.mapOperands (localizeOperand module func region) id)

/-- The clones refer to the values and blocks in the map.  The loads of the
local ids are localized again in the region that was cloned. -/
def replicate
    (module : ModuleValues) (func : Func) (region : ParallelRegion)
    (map : ValueToValueMap) : Func × ValueToValueMap × ParallelRegion :=
  let (func, map, clones) :=
    region.blocks.foldl cloneBasicBlock (func, map, [])
  let clone := { region with blocks := clones }
  (localizeIDLoads module (remap func clone map) region, map, clone)

/-- The block that control leaves the region from. -/
def tailBB (func : Func) (region : ParallelRegion) : Option BlockId := do
  let tail ← region.exitBB
  if (func.body tail).term.opcode = opcodeUnreachable then
    region.blocks[region.blocks.length - 2]?
  else
    some tail

def chainAfter (func : Func) (region previous : ParallelRegion) :
    Option Func := do
  let tail ← tailBB func previous
  match func.succs tail with
  | [successor] => do
      let entry ← region.entryBB
      let exit ← region.exitBB
      let order := region.blocks.foldl (fun order block =>
        insertAfter tail block order) func.order
      let func := { func with order := order }
      let func := func.setSuccessor tail 0 entry
      if (func.succs exit).length = 1 then
        some (func.setSuccessor exit 0 successor)
      else
        none
  | _ => none

/-- A successor outside the region is replaced by a new unreachable block,
which is created before the next block of the region. -/
def purgeSuccessor
    (region : ParallelRegion) (block : BlockId) (nextBlock : Option BlockId)
    (state : Func × List BlockId) (index : ℕ) : Option (Func × List BlockId) := do
  let (func, newBlocks) := state
  let successor ← (func.succs block)[index]?
  if successor ∈ region.blocks then
    some state
  else do
    let next ← nextBlock
    let unreachable := func.freshBlock
    let func := func.setBody unreachable
      ⟨[], ⟨func.freshValue, opcodeUnreachable, [], []⟩⟩
    let func :=
      { func with
        order := insertBefore next unreachable func.order
        freshBlock := unreachable + 1
        freshValue := func.freshValue + 1 }
    some (func.setSuccessor block index unreachable, newBlocks ++ [unreachable])

def purgeFrom (region : ParallelRegion) :
    List BlockId → Func × List BlockId → Option (Func × List BlockId)
  | [], state => some state
  | block :: rest, state =>
      if region.exitBB = some block then
        purgeFrom region rest state
      else do
        let state ← (List.range (state.1.succs block).length).foldlM
          (purgeSuccessor region block rest.head?) state
        purgeFrom region rest state

def purge (func : Func) (region : ParallelRegion) :
    Option (Func × ParallelRegion) := do
  let (func, newBlocks) ← purgeFrom region region.blocks (func, [])
  some (func, { region with blocks := region.blocks ++ newBlocks })

/-- `CreateStore` of a constant to the variable of a local id. -/
def storeLocalId
    (module : ModuleValues) (id : ValueId) (dim : Dim) (value : ℕ) : Instr :=
  ⟨id, .other opcodeStore [module.constantInt value, module.localId dim]⟩

/-- The stores go behind the PHI nodes of the block. -/
def insertLocalIdInit
    (module : ModuleValues) (func : Func) (entry : BlockId) (x y z : ℕ) : Func :=
  let instrs := (func.body entry).instrs
  let stores :=
    [storeLocalId module func.freshValue .x x,
      storeLocalId module (func.freshValue + 1) .y y,
      storeLocalId module (func.freshValue + 2) .z z]
  { func.setBody entry
      { func.body entry with
        instrs := instrs.takeWhile (fun instr => instr.kind.isPhi) ++
          (stores ++ instrs.dropWhile fun instr => instr.kind.isPhi) }
    with freshValue := func.freshValue + 3 }

def insertPrologue
    (module : ModuleValues) (func : Func) (region : ParallelRegion)
    (x y z : ℕ) : Option Func := do
  let entry ← region.entryBB
  some (insertLocalIdInit module func entry x y z)

end ParallelRegion

end Pocl
