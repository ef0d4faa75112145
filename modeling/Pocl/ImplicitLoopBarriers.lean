import Pocl.BlockDivergence

/-!
# Implicit barriers in loops

The pass puts a barrier at the end of the exiting block of an innermost loop if
the header is uniform and the loop is left on a uniform condition.  The barrier is
legal if in every iteration all or none of the work-items in the loop reach it.
This is not implied by the two conditions: a work-item dependent branch may lead
around the exiting block, back to the header.

One iteration is a graph without loops: it starts at the header and ends when the
header is reached again or the loop is left.  As in the divergence analysis, the
condition of a branch is given as uniform or as dependent on the work-item.
-/

namespace Pocl

open Relation

def BlockTerm.mapTargets (target : BlockId → BlockId) : BlockTerm → BlockTerm
  | .ret => .ret
  | .br next => .br (target next)
  | .condBr uniform first second => .condBr uniform (target first) (target second)
  | .switch uniform targets => .switch uniform (targets.map target)

theorem BlockTerm.succs_mapTargets (target : BlockId → BlockId) (term : BlockTerm) :
    (term.mapTargets target).succs = term.succs.map target := by
  cases term <;> rfl

theorem BlockTerm.isUniform_mapTargets (target : BlockId → BlockId)
    (term : BlockTerm) : (term.mapTargets target).isUniform = term.isUniform := by
  cases term <;> rfl

namespace ImplicitLoopBarriers

/-- An edge inside a loop that does not go back to its header. -/
def BodyEdge (header : BlockId) (body : List BlockId) (term : BlockId → BlockTerm)
    (block next : BlockId) : Prop :=
  block ∈ header :: body ∧ next ∈ (term block).succs ∧ next ∈ body ∧ next ≠ header

/-- A loop as `LoopInfo` has it, with its header and the other blocks.  From every
block the loop can go on, and all cycles that do not go through the header belong to
loops inside this one. -/
structure Loop where
  header : BlockId
  body : List BlockId
  term : BlockId → BlockTerm
  hasBarrier : BlockId → Bool
  subLoops : List (List BlockId)
  continues : ∀ block ∈ header :: body, ∃ next ∈ (term block).succs,
    next ∈ header :: body
  innermost : subLoops = [] → Acyclic (BodyEdge header body term)

namespace Loop

variable (loop : Loop)

def blocks : List BlockId :=
  loop.header :: loop.body

def isExiting (block : BlockId) : Bool :=
  (loop.term block).succs.any fun next => next ∉ loop.blocks

/-- `Loop::getExitingBlock`, which is null if there are several. -/
def getExitingBlock : Option BlockId :=
  match loop.blocks.filter loop.isExiting with
  | [block] => some block
  | _ => none

/-- The block that the barrier is put into, at its end.  `headerUniform` is the
result of the uniformity analysis for the header. -/
def addInnerLoopBarrier (headerUniform : Bool) : Option BlockId :=
  if loop.subLoops.length > 0 then
    none
  else
    match loop.getExitingBlock with
    | none => none
    | some brexit =>
        if headerUniform = false then
          none
        else
          match loop.term brexit with
          | .condBr true _ _ => some brexit
          | _ => none

def processLoop (headerUniform : Bool) : Option BlockId :=
  if loop.blocks.any loop.hasBarrier then
    none
  else
    loop.addInnerLoopBarrier headerUniform

section Iterations

/-- The blocks of an iteration: 0 stands for the next iteration, 1 for the code
behind the loop, and the blocks of the loop come after these. -/
def iterationTarget (next : BlockId) : BlockId :=
  if next = loop.header then 0 else if next ∈ loop.body then next + 2 else 1

def iterationTerm : BlockId → BlockTerm
  | 0 => .ret
  | 1 => .ret
  | block + 2 => (loop.term block).mapTargets loop.iterationTarget

def iteration : LabelledGraph where
  blocks := loop.blocks.map (· + 2) ++ [0, 1]
  term := loop.iterationTerm
  nonempty := by simp
  closed := by
    intro block _ next hnext
    rcases block with _ | _ | block
    · simp [iterationTerm, BlockTerm.succs] at hnext
    · simp [iterationTerm, BlockTerm.succs] at hnext
    · rw [iterationTerm, BlockTerm.succs_mapTargets] at hnext
      obtain ⟨target, _, rfl⟩ := List.mem_map.mp hnext
      unfold iterationTarget
      split_ifs with hheader hbody
      · simp
      · simp [blocks, hbody]
      · simp

/-- The work-items that have entered the loop, with the successors they take in each
iteration. -/
structure Run (Item : Type) where
  iteration : ℕ → LabelledGraph.WorkGroup loop.iteration Item

variable {loop} {Item : Type} (run : loop.Run Item)

def Run.Leaves (item : Item) (count : ℕ) : Prop :=
  (run.iteration count).Executes item 1

/-- The work-item executes the iteration. -/
def Run.InLoop (item : Item) (count : ℕ) : Prop :=
  ∀ earlier < count, ¬run.Leaves item earlier

def Run.Reaches (item : Item) (count : ℕ) (block : BlockId) : Prop :=
  run.InLoop item count ∧ (run.iteration count).Executes item (block + 2)

end Iterations

/-- In every iteration all or none of the work-items in the loop reach the block. -/
def BarrierLegal (block : BlockId) : Prop :=
  ∀ (Item : Type) (run : loop.Run Item) (count : ℕ) (first second : Item),
    run.Reaches first count block → run.Reaches second count block

variable {loop} {headerUniform : Bool} {brexit block next : BlockId}

/-- When a barrier is put into the block. -/
structure Accepted (loop : Loop) (brexit : BlockId) : Prop where
  innermost : loop.subLoops = []
  exiting : loop.getExitingBlock = some brexit
  uniform : (loop.term brexit).isUniform = true

theorem processLoop_accepted (hresult : loop.processLoop headerUniform = some brexit) :
    loop.Accepted brexit := by
  unfold processLoop addInnerLoopBarrier at hresult
  split at hresult
  next => cases hresult
  next =>
    split at hresult
    next => cases hresult
    next hsub =>
      split at hresult
      next => cases hresult
      next exiting hexiting =>
        split at hresult
        next => cases hresult
        next =>
          split at hresult
          next first second hterm =>
            cases hresult
            refine ⟨?_, hexiting, by rw [hterm]; rfl⟩
            exact List.eq_nil_of_length_eq_zero (by omega)
          next => cases hresult

theorem filter_isExiting (hexiting : loop.getExitingBlock = some brexit) :
    loop.blocks.filter loop.isExiting = [brexit] := by
  unfold getExitingBlock at hexiting
  split at hexiting
  next only hlist =>
    cases hexiting
    exact hlist
  next => cases hexiting

theorem eq_of_isExiting (hexiting : loop.getExitingBlock = some brexit)
    (hmem : block ∈ loop.blocks) (hblock : loop.isExiting block = true) :
    block = brexit := by
  have hfilter : block ∈ loop.blocks.filter loop.isExiting :=
    List.mem_filter.mpr ⟨hmem, hblock⟩
  rw [filter_isExiting hexiting] at hfilter
  exact List.mem_singleton.mp hfilter

theorem isExiting_exitingBlock (hexiting : loop.getExitingBlock = some brexit) :
    loop.isExiting brexit = true := by
  have hmem : brexit ∈ loop.blocks.filter loop.isExiting := by
    rw [filter_isExiting hexiting]
    exact List.mem_singleton_self brexit
  exact (List.mem_filter.mp hmem).2

theorem iteration_succs :
    loop.iteration.succs (block + 2) =
      (loop.term block).succs.map loop.iterationTarget :=
  BlockTerm.succs_mapTargets _ _

theorem add_two_mem (hmem : block + 2 ∈ loop.iteration.blocks) : block ∈ loop.blocks := by
  simpa [iteration] using hmem

/-- An iteration goes on inside the loop, to the header, or out of the loop. -/
theorem iteration_edge {source target : BlockId}
    (hedge : loop.iteration.Edge source target) :
    ∃ block, source = block + 2 ∧ block ∈ loop.blocks ∧
      (target = 0 ∨ (target = 1 ∧ loop.isExiting block = true) ∨
        ∃ next, target = next + 2 ∧
          BodyEdge loop.header loop.body loop.term block next) := by
  obtain ⟨hmem, hsucc⟩ := hedge
  rcases source with _ | _ | block
  · cases hsucc
  · cases hsucc
  · refine ⟨block, rfl, add_two_mem hmem, ?_⟩
    rw [iteration_succs] at hsucc
    obtain ⟨next, hnext, rfl⟩ := List.mem_map.mp hsucc
    unfold iterationTarget
    split_ifs with hheader hbody
    · exact .inl rfl
    · exact .inr (.inr ⟨next, rfl, add_two_mem hmem, hnext, hbody, hheader⟩)
    · refine .inr (.inl ⟨rfl, List.any_eq_true.mpr ⟨next, hnext, ?_⟩⟩)
      simp [blocks, hheader, hbody]

theorem iteration_loopFree (hsub : loop.subLoops = []) : loop.iteration.LoopFree := by
  have hpath : ∀ source target, TransGen loop.iteration.Edge source target →
      ∃ block, source = block + 2 ∧ ∀ next, target = next + 2 →
        TransGen (BodyEdge loop.header loop.body loop.term) block next := by
    intro source target hpath
    induction hpath with
    | single hedge =>
        obtain ⟨block, hsource, _, hcases⟩ := iteration_edge hedge
        refine ⟨block, hsource, ?_⟩
        rintro next rfl
        rcases hcases with hzero | ⟨hone, _⟩ | ⟨other, hother, hbody⟩
        · simp at hzero
        · simp at hone
        · cases hother
          exact .single hbody
    | tail _ hedge ih =>
        obtain ⟨block, hsource, hblock⟩ := ih
        refine ⟨block, hsource, ?_⟩
        rintro next rfl
        obtain ⟨middle, hmiddle, _, hcases⟩ := iteration_edge hedge
        rcases hcases with hzero | ⟨hone, _⟩ | ⟨other, hother, hbody⟩
        · simp at hzero
        · simp at hone
        · cases hother
          exact (hblock middle hmiddle).tail hbody
  intro source hcycle
  obtain ⟨block, hsource, hblock⟩ := hpath source source hcycle
  exact loop.innermost hsub block (hblock block hsource)

section Runs

variable {Item : Type} {run : loop.Run Item} {item first second : Item} {count : ℕ}

theorem Run.Leaves.exiting (hexiting : loop.getExitingBlock = some brexit)
    (hleaves : run.Leaves item count) :
    (run.iteration count).Executes item (brexit + 2) ∧
      (run.iteration count).next item (brexit + 2) = 1 := by
  obtain hentry | ⟨source, hsource, hsuccs, hnext⟩ := ReflTransGen.cases_tail hleaves
  · cases hentry
  · have hedge := LabelledGraph.WorkGroup.Executes.edge hsource hsuccs
    rw [← hnext] at hedge
    obtain ⟨block, rfl, hmem, hcases⟩ := iteration_edge hedge
    rcases hcases with hzero | ⟨_, hexit⟩ | ⟨next, hother, _⟩
    · cases hzero
    · rw [eq_of_isExiting hexiting hmem hexit] at hsource hnext
      exact ⟨hsource, hnext.symm⟩
    · simp at hother

/-- A loop that is left on a uniform condition is left by all work-items that reach
the exiting block. -/
theorem Run.Leaves.other (haccepted : loop.Accepted brexit)
    (hall : loop.iteration.ExecutedByAllOrNone (brexit + 2))
    (hleaves : run.Leaves second count) : run.Leaves first count := by
  obtain ⟨hexec, hnext⟩ := hleaves.exiting haccepted.exiting
  have hfirst : (run.iteration count).Executes first (brexit + 2) :=
    hall Item (run.iteration count) second first hexec
  have huniform : loop.iteration.isUniform (brexit + 2) = true :=
    (BlockTerm.isUniform_mapTargets _ _).trans haccepted.uniform
  have hsame := (run.iteration count).next_uniform _ huniform first second
  have hsuccs : loop.iteration.succs (brexit + 2) ≠ [] := by
    rw [iteration_succs]
    intro hnil
    have hexit := isExiting_exitingBlock haccepted.exiting
    rw [isExiting, List.map_eq_nil_iff.mp hnil] at hexit
    cases hexit
  rw [Run.Leaves, ← hnext, ← hsame]
  exact hfirst.next hsuccs

theorem barrierLegal_of_executedByAllOrNone (haccepted : loop.Accepted brexit)
    (hall : loop.iteration.ExecutedByAllOrNone (brexit + 2)) :
    loop.BarrierLegal brexit := by
  rintro Item run count first second ⟨hinLoop, hexec⟩
  refine ⟨?_, hall Item (run.iteration count) first second hexec⟩
  intro earlier hearlier hleaves
  exact hinLoop earlier hearlier (hleaves.other haccepted hall)

theorem executedByAllOrNone_of_barrierLegal (hlegal : loop.BarrierLegal brexit) :
    loop.iteration.ExecutedByAllOrNone (brexit + 2) := by
  intro Item group first second hexec
  have hfirst : Run.Reaches ⟨fun _ => group⟩ first 0 brexit :=
    ⟨fun _ hearlier => (Nat.not_lt_zero _ hearlier).elim, hexec⟩
  exact (hlegal Item ⟨fun _ => group⟩ 0 first second hfirst).2

end Runs

end Loop

/-- If a barrier is put into the exiting block of a loop, it is legal exactly if no
work-item dependent branch of the loop has one path to the exiting block and another
one, on different blocks, to the end of the iteration. -/
theorem barrierLegal_iff
    {loop : Loop} {headerUniform : Bool} {brexit : BlockId}
    (hresult : loop.processLoop headerUniform = some brexit) :
    loop.BarrierLegal brexit ↔
      ∀ branch, ¬loop.iteration.Splits branch (brexit + 2) := by
  have haccepted := Loop.processLoop_accepted hresult
  rw [← LabelledGraph.executedByAllOrNone_iff
    (Loop.iteration_loopFree haccepted.innermost)]
  exact ⟨Loop.executedByAllOrNone_of_barrierLegal,
    Loop.barrierLegal_of_executedByAllOrNone haccepted⟩

theorem acyclic_of_lt {header : BlockId} {body : List BlockId}
    {term : BlockId → BlockTerm}
    (hlt : ∀ block ∈ header :: body, ∀ next ∈ (term block).succs,
      next ∈ body → next ≠ header → block < next) :
    Acyclic (BodyEdge header body term) := by
  have hless : ∀ block next, TransGen (BodyEdge header body term) block next →
      block < next := by
    intro block next hpath
    induction hpath with
    | single hedge => exact hlt _ hedge.1 _ hedge.2.1 hedge.2.2.1 hedge.2.2.2
    | tail _ hedge ih =>
        exact ih.trans (hlt _ hedge.1 _ hedge.2.1 hedge.2.2.1 hedge.2.2.2)
  intro block hloop
  exact lt_irrefl block (hless block block hloop)

/-- A loop over the blocks 1 to 4, which is left from block 4 to block 9.  At the
header a work-item dependent branch leads to block 2 or 3, and block 3 leads to block
4 or back to the header. -/
def branchingLoop (back : Bool) : Loop where
  header := 1
  body := [2, 3, 4]
  term := fun block =>
    if block = 1 then .condBr false 2 3
    else if block = 2 then .br 4
    else if block = 3 then .br (if back then 1 else 4)
    else .condBr true 1 9
  hasBarrier := fun _ => false
  subLoops := []
  continues := by
    cases back <;> decide
  innermost := by
    intro _
    refine acyclic_of_lt ?_
    cases back <;> decide

theorem branchingLoop_branch {back : Bool} {branch : BlockId}
    (hbranch : (branchingLoop back).iteration.isUniform branch = false) :
    branch = 3 := by
  rcases branch with _ | _ | block
  · cases hbranch
  · cases hbranch
  · have hterm : ((branchingLoop back).term block).isUniform = false :=
      (BlockTerm.isUniform_mapTargets _ _).symm.trans hbranch
    simp only [branchingLoop] at hterm
    by_cases hblock : block = 1
    · rw [hblock]
    · rw [if_neg hblock] at hterm
      split_ifs at hterm <;> cases hterm

/-- Both sides of the branch lead to the exiting block. -/
theorem joiningLoop_barrierLegal :
    (branchingLoop false).processLoop true = some 4 ∧
      (branchingLoop false).BarrierLegal 4 := by
  have hresult : (branchingLoop false).processLoop true = some 4 := rfl
  refine ⟨hresult, (barrierLegal_iff hresult).mpr ?_⟩
  rintro branch ⟨_, hbranch, _, _, second, hsecond, side, last, hpath, hother, hlast⟩
  have hjoin : (branchingLoop false).iteration.succs second = [6] := by
    rw [branchingLoop_branch hbranch] at hsecond
    rcases List.mem_pair.mp hsecond with rfl | rfl
    · rfl
    · rfl
  obtain rfl | ⟨next, hedge, hrest⟩ := hother.cases_head
  · rw [hjoin] at hlast
    cases hlast
  · have hnext : next = 6 := by
      have hmem := hedge.2
      rw [hjoin] at hmem
      exact List.mem_singleton.mp hmem
    rw [hnext] at hrest
    exact hrest.1 hpath.right_mem

/-- A work-item that takes the branch to block 3 goes around the barrier. -/
theorem continuingLoop_not_barrierLegal :
    (branchingLoop true).processLoop true = some 4 ∧
      ¬(branchingLoop true).BarrierLegal 4 := by
  refine ⟨rfl, fun hlegal => ?_⟩
  have hsplits : (branchingLoop true).iteration.Splits 3 6 := by
    refine ⟨.refl, rfl, 4, by decide, 5, by decide, {4, 6}, 0, ?_, ?_, rfl⟩
    · have hedge : (branchingLoop true).iteration.Edge 4 6 := by
        unfold LabelledGraph.Edge
        decide
      exact PathIn.head (by simp) hedge (PathIn.refl (by simp))
    · have hedge : (branchingLoop true).iteration.Edge 5 0 := by
        unfold LabelledGraph.Edge
        decide
      exact PathIn.head (by simp) hedge (PathIn.refl (by simp))
  exact LabelledGraph.not_executedByAllOrNone_of_splits (Loop.iteration_loopFree rfl)
    hsplits (Loop.executedByAllOrNone_of_barrierLegal hlegal)

end ImplicitLoopBarriers

end Pocl
