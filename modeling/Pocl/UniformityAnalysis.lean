import Pocl.AcyclicRelations
import Pocl.LlvmFunctions

/-!
# The divergence analysis of basic blocks

The analysis marks blocks as uniform, in a search from the entry block.  A block
is marked if it is a successor of the last uniform block on the way to it and the
branch there is uniform, or if it post-dominates that block.  A block that has
been analysed is not visited again.

A branch condition is given as uniform or as dependent on the work-item.  Only
the branch instructions are followed; other terminators with successors, as
switches, end the search.  `none` stands for a search that does not come to an
end within the given number of nested calls.
-/

namespace Pocl

inductive BlockTerm
  | ret
  | br (target : BlockId)
  | condBr (uniform : Bool) (first second : BlockId)
  | switch (uniform : Bool) (targets : List BlockId)

namespace BlockTerm

def succs : BlockTerm → List BlockId
  | ret => []
  | br target => [target]
  | condBr _ first second => [first, second]
  | switch _ targets => targets

/-- The successors of a `BranchInst`. -/
def branchSuccs : BlockTerm → List BlockId
  | br target => [target]
  | condBr _ first second => [first, second]
  | _ => []

def isBranch : BlockTerm → Bool
  | br _ => true
  | condBr _ _ _ => true
  | _ => false

/-- Whether all work-items that execute the terminator go on in the same way. -/
def isUniform : BlockTerm → Bool
  | ret => true
  | br _ => true
  | condBr uniform _ _ => uniform
  | switch uniform _ => uniform

theorem succs_of_branchSuccs {term : BlockTerm} {block : BlockId}
    (hblock : block ∈ term.branchSuccs) :
    block ∈ term.succs := by
  cases term <;> simp_all [branchSuccs, succs]

theorem isBranch_of_branchSuccs {term : BlockTerm} {block : BlockId}
    (hblock : block ∈ term.branchSuccs) :
    term.isBranch = true := by
  cases term <;> simp_all [branchSuccs, isBranch]

theorem branchSuccs_of_not_isBranch {term : BlockTerm}
    (hterm : term.isBranch = false) :
    term.branchSuccs = [] := by
  cases term <;> simp_all [branchSuccs, isBranch]

end BlockTerm

/-- The blocks of a function in order, the entry block first, with their
terminators. -/
structure LabelledGraph where
  blocks : List BlockId
  term : BlockId → BlockTerm
  nonempty : blocks ≠ []
  closed : ∀ block ∈ blocks, ∀ next ∈ (term block).succs, next ∈ blocks

namespace LabelledGraph

variable (graph : LabelledGraph)

def entry : BlockId :=
  graph.blocks.head graph.nonempty

def succs (block : BlockId) : List BlockId :=
  (graph.term block).succs

def branchSuccs (block : BlockId) : List BlockId :=
  (graph.term block).branchSuccs

def isUniform (block : BlockId) : Bool :=
  (graph.term block).isUniform

/-- Whether a block without successors can be reached around the given one. -/
def escapes (avoided : BlockId) : ℕ → BlockId → Bool
  | 0, _ => false
  | fuel + 1, block =>
      block != avoided &&
        ((graph.succs block).isEmpty || (graph.succs block).any (escapes avoided fuel))

/-- `PostDominatorTree::dominates`, for a graph without loops. -/
def postDominates (dominator block : BlockId) : Bool :=
  !graph.escapes dominator graph.blocks.length block

/-- The cache of the results for blocks. -/
abbrev Cache := BlockId → Option Bool

def setUniform (cache : Cache) (block : BlockId) (uniform : Bool) : Cache :=
  Function.update cache block (some uniform)

def isUniformityAnalyzed (cache : Cache) (block : BlockId) : Bool :=
  (cache block).isSome

/-- The conditions c) and b) for a block, in this order.  Condition b) is not
tried if the block is itself the last uniform one. -/
def marks (block previousUniform : BlockId) : Bool :=
  (graph.isUniform previousUniform &&
      decide (block ∈ graph.branchSuccs previousUniform)) ||
    (previousUniform != block && graph.postDominates block previousUniform)

/-- The block is assumed to be divergent if nothing is known. -/
def assumeDivergent (cache : Cache) (block : BlockId) : Cache :=
  if isUniformityAnalyzed cache block then cache else setUniform cache block false

def analyzeBBDivergence :
    ℕ → BlockId → BlockId → Cache → Option Cache
  | 0, _, _, _ => none
  | fuel + 1, block, previousUniform, cache =>
      if (graph.term previousUniform).isBranch = false then
        some cache
      else
        let marked := graph.marks block previousUniform
        let newPreviousUniform := if marked then block else previousUniform
        let cache := if marked then setUniform cache block true else cache
        (graph.branchSuccs block).foldlM
          (fun cache next =>
            if isUniformityAnalyzed cache next then some cache
            else analyzeBBDivergence fuel next newPreviousUniform cache)
          (assumeDivergent cache block)

/-- `runOnFunction`, for the blocks. -/
def runOnFunction : Option Cache :=
  graph.analyzeBBDivergence (graph.blocks.length + 1) graph.entry graph.entry
    (setUniform (fun _ => none) graph.entry true)

end LabelledGraph

end Pocl
