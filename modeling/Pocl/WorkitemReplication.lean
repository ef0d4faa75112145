import Pocl.ParallelRegions

/-!
# The work-item replication pass

Every region is cloned for every work-item but the first.  Only then the copies
are linked: the copy for a work-item is chained behind the copy for the one
before it, cut off from the rest of the function, and stores its local id
first.  In the end the PHI nodes of the entry of each copy are moved to the
block before it.

The number of work-items is an `int` in the source; where the product of the
local sizes does not fit, the pass returns `none`.  Statistics, names and
metadata are left out, and so are the stores of the local sizes into the entry
block of the kernel.
-/

namespace Pocl

namespace WorkitemReplication

open ParallelRegion

/-- The three loops over the local ids. -/
def workItems (sizeX sizeY sizeZ : ℕ) : List (ℕ × ℕ × ℕ) :=
  (List.range sizeZ).flatMap fun z =>
    (List.range sizeY).flatMap fun y =>
      (List.range sizeX).map fun x => (x, y, z)

def workItemIndex (sizeX sizeY : ℕ) (item : ℕ × ℕ × ℕ) : ℕ :=
  sizeY * sizeX * item.2.2 + sizeX * item.2.1 + item.1

structure State where
  func : Func
  /-- The value map of each work-item. -/
  referenceMap : ℕ → ValueToValueMap
  /-- The copies of the regions for each work-item. -/
  parallelRegions : ℕ → List ParallelRegion

def replicateRegion
    (module : ModuleValues) (index : ℕ) (state : State)
    (original : ParallelRegion) : State :=
  let (func, map, replicated) :=
    original.replicate module state.func (state.referenceMap index)
  { func := func
    referenceMap := Function.update state.referenceMap index map
    parallelRegions := Function.update state.parallelRegions index
      (state.parallelRegions index ++ [replicated]) }

def replicateRegions
    (module : ModuleValues) (regions : List ParallelRegion) (state : State)
    (index : ℕ) : State :=
  if index = 0 then
    state
  else
    regions.foldl (replicateRegion module index) state

/-- One round of the second loop, for the `i`-th region of a work-item. -/
def linkRegion
    (module : ModuleValues) (index : ℕ) (item : ℕ × ℕ × ℕ) (state : State)
    (i : ℕ) : Option State := do
  let region ← (state.parallelRegions index)[i]?
  if index = 0 then do
    let func ← region.insertPrologue module state.func item.1 item.2.1 item.2.2
    some { state with func := func }
  else do
    let previous ← (state.parallelRegions (index - 1))[i]?
    let func := region.remap state.func (state.referenceMap index)
    let func ← region.chainAfter func previous
    let (func, region) ← region.purge func
    let func ← region.insertPrologue module func item.1 item.2.1 item.2.2
    some
      { state with
        func := func
        parallelRegions := Function.update state.parallelRegions index
          ((state.parallelRegions index).set i region) }

def linkRegions
    (module : ModuleValues) (sizeX sizeY : ℕ) (state : State)
    (item : ℕ × ℕ × ℕ) : Option State :=
  let index := workItemIndex sizeX sizeY item
  (List.range (state.parallelRegions index).length).foldlM
    (linkRegion module index item) state

/-- `BasicBlock::getUniquePredecessor`. -/
def getUniquePredecessor (func : Func) (block : BlockId) : Option BlockId :=
  match func.order.filter fun other => block ∈ func.succs other with
  | [pred] => some pred
  | _ => none

/-- The PHI nodes that a block starts with go behind those of another one.  In
one and the same block they are moved forever. -/
def movePhiNodes (func : Func) (src dst : BlockId) : Option Func :=
  let source := func.body src
  let target := func.body dst
  let phis := source.instrs.takeWhile fun instr => instr.kind.isPhi
  if src = dst then
    if phis = [] then some func else none
  else
    let func := func.setBody src
      { source with
        instrs := source.instrs.dropWhile fun instr => instr.kind.isPhi }
    some (func.setBody dst
      { target with
        instrs := target.instrs.takeWhile (fun instr => instr.kind.isPhi) ++
          (phis ++ target.instrs.dropWhile fun instr => instr.kind.isPhi) })

/-- One round of the last loop, for the `i`-th region of a work-item. -/
def moveRegionPhiNodes
    (parallelRegions : List ParallelRegion) (func : Func) (i : ℕ) : Option Func := do
  let region ← parallelRegions[i]?
  let entry ← region.entryBB
  let pred ← getUniquePredecessor func entry
  movePhiNodes func entry pred

def moveItemPhiNodes
    (parallelRegions : ℕ → List ParallelRegion) (func : Func) (index : ℕ) :
    Option Func :=
  if index = 0 then
    some func
  else
    (List.range (parallelRegions index).length).foldlM
      (moveRegionPhiNodes (parallelRegions index)) func

def processFunction
    (module : ModuleValues) (sizeX sizeY sizeZ : ℕ) (func : Func)
    (regions : List ParallelRegion) : Option State :=
  if 2 ^ 31 ≤ sizeX * sizeY * sizeZ then
    none
  else
    let items := workItems sizeX sizeY sizeZ
    let start : State :=
      ⟨func, fun _ => .empty, fun index => if index = 0 then regions else []⟩
    let replicated := items.foldl
      (fun state item =>
        replicateRegions module regions state (workItemIndex sizeX sizeY item))
      start
    do
      let linked ← items.foldlM (linkRegions module sizeX sizeY) replicated
      let func ← (items.map (workItemIndex sizeX sizeY)).reverse.foldlM
        (moveItemPhiNodes linked.parallelRegions) linked.func
      some { linked with func := func }

end WorkitemReplication

end Pocl
