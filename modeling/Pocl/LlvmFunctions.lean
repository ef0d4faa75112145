import Pocl.FlowGraphs

/-!
# Functions as the barrier passes see them

Basic blocks and values are identities, as pointers are in the source.  A block
is a list of instructions and a terminator with its successors in order.  The
passes look only at which instructions are barriers, which are PHI nodes, and
which values and blocks an instruction refers to; every other instruction is an
opcode with operands.

A function holds its blocks in order, the entry block first, and bounds on the
identities in use, from which new blocks and instructions are numbered.
-/

namespace Pocl

abbrev BlockId := ℕ

abbrev ValueId := ℕ

inductive InstrKind
  | barrier
  | phi (incoming : List (ValueId × BlockId))
  | other (opcode : ℕ) (operands : List ValueId)
  deriving DecidableEq

structure Instr where
  id : ValueId
  kind : InstrKind
  deriving DecidableEq

structure Terminator where
  id : ValueId
  opcode : ℕ
  operands : List ValueId
  succs : List BlockId
  deriving DecidableEq

structure Block where
  instrs : List Instr
  term : Terminator
  deriving DecidableEq

structure Func where
  order : List BlockId
  body : BlockId → Block
  freshBlock : BlockId
  freshValue : ValueId

/-- A block is put into a list of blocks behind or before another one. -/
def insertAfter (block new : BlockId) : List BlockId → List BlockId
  | [] => []
  | head :: rest =>
      if head = block then
        head :: new :: rest
      else
        head :: insertAfter block new rest

def insertBefore (block new : BlockId) : List BlockId → List BlockId
  | [] => []
  | head :: rest =>
      if head = block then
        new :: head :: rest
      else
        head :: insertBefore block new rest

def InstrKind.isBarrier : InstrKind → Bool
  | .barrier => true
  | _ => false

def InstrKind.isPhi : InstrKind → Bool
  | .phi _ => true
  | _ => false

/-- `block_has_barrier`, `Barrier::hasBarrier`. -/
def Block.hasBarrier (block : Block) : Bool :=
  block.instrs.any fun instr => instr.kind.isBarrier

/-- The incoming lists of the PHI nodes a block starts with. -/
def leadingPhis : List Instr → List (List (ValueId × BlockId))
  | [] => []
  | instr :: rest =>
      match instr.kind with
      | .phi incoming => incoming :: leadingPhis rest
      | _ => []

/-- `PHINode::getIncomingValueForBlock`. -/
def getIncomingValueForBlock
    (incoming : List (ValueId × BlockId)) (block : BlockId) : Option ValueId :=
  (incoming.find? fun entry => entry.2 = block).map Prod.fst

theorem getIncomingValueForBlock_of_mem
    {incoming : List (ValueId × BlockId)} {block : BlockId}
    (hmem : block ∈ incoming.map Prod.snd) :
    ∃ value, getIncomingValueForBlock incoming block = some value ∧
      (value, block) ∈ incoming := by
  obtain ⟨entry, hentry, heq⟩ := List.mem_map.mp hmem
  unfold getIncomingValueForBlock
  cases hfind : incoming.find? fun entry => entry.2 = block with
  | none =>
      have hnone := List.find?_eq_none.mp hfind entry hentry
      simp [heq] at hnone
  | some found =>
      have hfound : found.2 = block := by
        simpa using List.find?_some hfind
      exact ⟨found.1, rfl, hfound ▸ List.mem_of_find?_eq_some hfind⟩

namespace Func

variable (func : Func)

def entry : BlockId :=
  func.order.headD 0

def succs (block : BlockId) : List BlockId :=
  (func.body block).term.succs

def graph : FlowGraph BlockId :=
  ⟨func.entry, func.succs⟩

/-- `DominatorTree::dominates` on an up-to-date dominator tree. -/
def dominates (dominator block : BlockId) : Bool :=
  func.graph.dominatesWithin func.order.length dominator block

def setBody (block : BlockId) (content : Block) : Func :=
  { func with body := Function.update func.body block content }

@[simp] theorem setBody_self (block : BlockId) (content : Block) :
    (func.setBody block content).body block = content :=
  Function.update_self _ _ _

theorem setBody_of_ne
    {block other : BlockId} (content : Block) (hne : other ≠ block) :
    (func.setBody block content).body other = func.body other :=
  Function.update_of_ne hne _ _

/-- `TerminatorInst::setSuccessor`. -/
def setSuccessor (block : BlockId) (index : ℕ) (target : BlockId) : Func :=
  func.setBody block
    { func.body block with
      term :=
        { (func.body block).term with
          succs := (func.succs block).set index target } }

/-- The blocks of the function are listed once, the entry is one of them, and
branches stay inside the function. -/
structure HasBlocks : Prop where
  nonempty : func.order ≠ []
  nodup : func.order.Nodup
  bound : ∀ block ∈ func.order, block < func.freshBlock
  succs_mem : ∀ block ∈ func.order, ∀ target ∈ func.succs block,
    target ∈ func.order

variable {func}

theorem HasBlocks.entry_mem (hblocks : func.HasBlocks) :
    func.entry ∈ func.order := by
  unfold entry
  cases horder : func.order with
  | nil => exact absurd horder hblocks.nonempty
  | cons head tail => simp

theorem HasBlocks.reachable_mem
    (hblocks : func.HasBlocks) {block : BlockId}
    (hreach : func.graph.Reachable block) : block ∈ func.order := by
  induction hreach with
  | refl => exact hblocks.entry_mem
  | tail _ hedge ih => exact hblocks.succs_mem _ ih _ hedge

theorem HasBlocks.forwardStar_mem
    (hblocks : func.HasBlocks) {source target : BlockId}
    (hsource : source ∈ func.order)
    (hpath : Relation.ReflTransGen func.graph.Forward source target) :
    target ∈ func.order := by
  induction hpath with
  | refl => exact hsource
  | tail _ hforward ih => exact hblocks.succs_mem _ ih _ hforward.edge

theorem HasBlocks.dominates_iff
    (hblocks : func.HasBlocks) {dominator block : BlockId} :
    func.dominates dominator block = true ↔
      func.graph.Dominates dominator block := by
  have hnodes : ∀ node, func.graph.Reachable node →
      node ∈ func.order.toFinset := fun node hreach =>
    List.mem_toFinset.mpr (hblocks.reachable_mem hreach)
  exact FlowGraph.dominatesWithin_iff hnodes (List.toFinset_card_le func.order)

end Func

end Pocl
