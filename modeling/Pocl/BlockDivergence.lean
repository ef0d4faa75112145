import Pocl.UniformityAnalysis

/-!
# Blocks executed by all or none of the work-items

A work-item of a graph without loops executes each block at most once, so that a
work-group is given by the successor each work-item takes at each block.  At a
uniform branch they all take the same one.  A block is not executed by all or
none exactly if some work-item dependent branch splits the work-group: one path
leads to the block, and another one to the end of the function, and these have
no block in common.
-/

namespace Pocl

open Relation

namespace LabelledGraph

variable {graph : LabelledGraph}

def Edge (graph : LabelledGraph) (block next : BlockId) : Prop :=
  block ∈ graph.blocks ∧ next ∈ graph.succs block

def LoopFree (graph : LabelledGraph) : Prop :=
  Acyclic graph.Edge

structure WorkGroup (graph : LabelledGraph) (Item : Type) where
  next : Item → BlockId → BlockId
  next_mem : ∀ item block, graph.succs block ≠ [] → next item block ∈ graph.succs block
  next_uniform : ∀ block, graph.isUniform block = true →
    ∀ first second, next first block = next second block

def WorkGroup.Executes {Item : Type}
    (group : WorkGroup graph Item) (item : Item) : BlockId → Prop :=
  ReflTransGen
    (fun block next => graph.succs block ≠ [] ∧ next = group.next item block) graph.entry

def ExecutedByAllOrNone (graph : LabelledGraph) (block : BlockId) : Prop :=
  ∀ (Item : Type) (group : WorkGroup graph Item) (first second : Item),
    group.Executes first block → group.Executes second block

/-- From a work-item dependent branch, a path leads to the block and another one
to the end of the function, on different blocks. -/
def Splits (graph : LabelledGraph) (branch block : BlockId) : Prop :=
  ReflTransGen graph.Edge graph.entry branch ∧ graph.isUniform branch = false ∧
    ∃ first ∈ graph.succs branch, ∃ second ∈ graph.succs branch,
      ∃ (side : Set BlockId) (last : BlockId),
        PathIn graph.Edge side first block ∧ PathIn graph.Edge sideᶜ second last ∧
          graph.succs last = []

theorem entry_mem (graph : LabelledGraph) : graph.entry ∈ graph.blocks :=
  List.head_mem graph.nonempty

theorem Edge.right_mem {block next : BlockId}
    (hedge : graph.Edge block next) : next ∈ graph.blocks :=
  graph.closed block hedge.1 next hedge.2

theorem reachable_mem {block : BlockId}
    (hblock : ReflTransGen graph.Edge graph.entry block) : block ∈ graph.blocks := by
  cases hblock with
  | refl => exact graph.entry_mem
  | tail _ hedge => exact hedge.right_mem

theorem LoopFree.induction {motive : BlockId → Prop}
    (hgraph : graph.LoopFree)
    (hstep : ∀ block, (∀ next, graph.Edge block next → motive next) → motive block)
    (block : BlockId) :
    motive block := by
  have hnodes : ∀ block next, graph.Edge block next → next ∈ graph.blocks.toFinset := by
    intro block next hedge
    exact List.mem_toFinset.mpr hedge.right_mem
  exact Acyclic.induction hgraph hnodes hstep block

section Diverging

variable {Item : Type} {group : WorkGroup graph Item} {first second item : Item}

theorem WorkGroup.Executes.mem {block : BlockId}
    (hblock : group.Executes item block) : block ∈ graph.blocks := by
  induction hblock with
  | refl => exact graph.entry_mem
  | @tail block next _ hstep ih =>
      rw [hstep.2]
      exact graph.closed block ih _ (group.next_mem item block hstep.1)

theorem WorkGroup.Executes.edge {block : BlockId}
    (hblock : group.Executes item block) (hsuccs : graph.succs block ≠ []) :
    graph.Edge block (group.next item block) :=
  ⟨hblock.mem, group.next_mem item block hsuccs⟩

theorem WorkGroup.Executes.next {block : BlockId}
    (hblock : group.Executes item block) (hsuccs : graph.succs block ≠ []) :
    group.Executes item (group.next item block) :=
  ReflTransGen.tail hblock ⟨hsuccs, rfl⟩

theorem WorkGroup.Executes.reachable {block : BlockId}
    (hblock : group.Executes item block) :
    ReflTransGen graph.Edge graph.entry block := by
  induction hblock with
  | refl => exact ReflTransGen.refl
  | @tail block next hblock hstep ih =>
      have hedge := WorkGroup.Executes.edge hblock hstep.1
      rw [← hstep.2] at hedge
      exact ih.tail hedge

theorem WorkGroup.Executes.path_to_end
    (hgraph : graph.LoopFree) (block : BlockId) :
    group.Executes item block →
      ∃ last, PathIn graph.Edge {block | group.Executes item block} block last ∧
        graph.succs last = [] := by
  induction block using hgraph.induction with
  | hstep block ih =>
      intro hblock
      by_cases hsuccs : graph.succs block = []
      · exact ⟨block, PathIn.refl hblock, hsuccs⟩
      · have hedge := hblock.edge hsuccs
        obtain ⟨last, hpath, hlast⟩ := ih _ hedge (hblock.next hsuccs)
        exact ⟨last, PathIn.head hblock hedge hpath, hlast⟩

/-- What one work-item executes is executed by the other one too, or is reached
from the branch where the two have taken different successors. -/
theorem WorkGroup.Executes.diverges {block : BlockId}
    (hblock : group.Executes first block) (second : Item) :
    group.Executes second block ∨
      ∃ branch, group.Executes second branch ∧ graph.succs branch ≠ [] ∧
        group.next first branch ≠ group.next second branch ∧
        PathIn graph.Edge {block | ¬ group.Executes second block}
          (group.next first branch) block := by
  induction hblock with
  | refl => exact Or.inl ReflTransGen.refl
  | @tail block next hblock hstep ih =>
      obtain ⟨hsuccs, rfl⟩ := hstep
      by_cases hnext : group.Executes second (group.next first block)
      · exact Or.inl hnext
      · right
        obtain hsecond | ⟨branch, hbranch, hsplit, hne, hpath⟩ := ih
        · refine ⟨block, hsecond, hsuccs, ?_, PathIn.refl hnext⟩
          intro heq
          rw [heq] at hnext
          exact hnext (hsecond.next hsuccs)
        · have hedge := WorkGroup.Executes.edge hblock hsuccs
          exact ⟨branch, hbranch, hsplit, hne, hpath.tail hedge hnext⟩

theorem splits_of_executes
    (hgraph : graph.LoopFree) {block : BlockId}
    (hfirst : group.Executes first block) (hsecond : ¬ group.Executes second block) :
    ∃ branch, graph.Splits branch block := by
  obtain hexec | ⟨branch, hbranch, hsuccs, hne, hpath⟩ :=
    hfirst.diverges second
  · exact absurd hexec hsecond
  · obtain ⟨last, htail, hlast⟩ :=
      WorkGroup.Executes.path_to_end hgraph _ (hbranch.next hsuccs)
    refine ⟨branch, hbranch.reachable, ?_, _, group.next_mem first branch hsuccs, _,
      group.next_mem second branch hsuccs, _, last, hpath, ?_, hlast⟩
    · by_contra huniform
      rw [Bool.not_eq_false] at huniform
      exact hne (group.next_uniform branch huniform first second)
    · simpa [Set.compl_ofPred] using htail

end Diverging

section Splitting

open Classical in
/-- The successor that satisfies the property, if there is one. -/
noncomputable def pick (graph : LabelledGraph) (wanted : BlockId → Prop) (block : BlockId) :
    BlockId :=
  if h : ∃ next ∈ graph.succs block, wanted next then h.choose
  else (graph.succs block).headD 0

theorem pick_mem {wanted : BlockId → Prop} {block : BlockId}
    (hsuccs : graph.succs block ≠ []) :
    graph.pick wanted block ∈ graph.succs block := by
  unfold pick
  split
  next h => exact h.choose_spec.1
  next =>
    cases hlist : graph.succs block with
    | nil => exact absurd hlist hsuccs
    | cons next rest => simp

theorem pick_spec {wanted : BlockId → Prop} {block next : BlockId}
    (hnext : next ∈ graph.succs block) (hwanted : wanted next) :
    wanted (graph.pick wanted block) := by
  have h : ∃ next ∈ graph.succs block, wanted next := ⟨next, hnext, hwanted⟩
  unfold pick
  rw [dif_pos h]
  exact h.choose_spec.2

variable {branch block first second target last : BlockId} {side : Set BlockId}

/-- What is wanted of the successor of a block: before the branch that it leads
to the branch, and then that it stays on its side. -/
def Wanted (graph : LabelledGraph) (branch target last : BlockId) (side : Set BlockId)
    (block next : BlockId) : Prop :=
  (TransGen graph.Edge block branch → ReflTransGen graph.Edge next branch) ∧
    (¬ TransGen graph.Edge block branch →
      (block ∈ side → PathIn graph.Edge side next target) ∧
        (block ∉ side → PathIn graph.Edge sideᶜ next last))

open Classical in
/-- Two work-items, which part at the branch. -/
noncomputable def splitGroup
    (hfirst : first ∈ graph.succs branch) (hsecond : second ∈ graph.succs branch)
    (hbranch : graph.isUniform branch = false)
    (target last : BlockId) (side : Set BlockId) :
    WorkGroup graph Bool where
  next item block :=
    if block = branch then bif item then first else second
    else graph.pick (graph.Wanted branch target last side block) block
  next_mem := by
    intro item block hsuccs
    split
    next h =>
      rw [h]
      cases item
      · exact hsecond
      · exact hfirst
    next => exact pick_mem hsuccs
  next_uniform := by
    intro block huniform _ _
    have hne : block ≠ branch := by
      rintro rfl
      rw [hbranch] at huniform
      contradiction
    rw [if_neg hne, if_neg hne]

theorem LoopFree.ne_of_transGen {block next : BlockId}
    (hgraph : graph.LoopFree) (h : TransGen graph.Edge block next) : block ≠ next := by
  rintro rfl
  exact hgraph block h

variable
    (hgraph : graph.LoopFree)
    (hfirst : first ∈ graph.succs branch) (hsecond : second ∈ graph.succs branch)
    (hbranch : graph.isUniform branch = false)

include hgraph

theorem splitGroup_before {item : Bool}
    (hbefore : TransGen graph.Edge block branch) :
    ReflTransGen graph.Edge
      ((splitGroup hfirst hsecond hbranch target last side).next item block) branch := by
  obtain ⟨next, hedge, hnext⟩ := TransGen.head'_iff.mp hbefore
  have hwanted : graph.Wanted branch target last side block next :=
    ⟨fun _ => hnext, fun hnot => absurd hbefore hnot⟩
  simp only [splitGroup, if_neg (hgraph.ne_of_transGen hbefore)]
  exact (pick_spec hedge.2 hwanted).1 hbefore

theorem splitGroup_side {item : Bool}
    (hafter : TransGen graph.Edge branch block) (hne : block ≠ target)
    (hpath : PathIn graph.Edge side block target) :
    PathIn graph.Edge side
      ((splitGroup hfirst hsecond hbranch target last side).next item block) target := by
  have hnot : ¬ TransGen graph.Edge block branch :=
    fun h => hgraph block (h.trans hafter)
  obtain heq | ⟨next, hedge, hnext⟩ := hpath.cases_head
  · exact absurd heq hne
  · have hwanted : graph.Wanted branch target last side block next :=
      ⟨fun h => absurd h hnot, fun _ => ⟨fun _ => hnext, fun h => absurd hpath.1 h⟩⟩
    simp only [splitGroup, if_neg (hgraph.ne_of_transGen hafter).symm]
    exact ((pick_spec hedge.2 hwanted).2 hnot).1 hpath.1

theorem splitGroup_otherSide {item : Bool}
    (hafter : TransGen graph.Edge branch block) (hne : block ≠ last)
    (hpath : PathIn graph.Edge sideᶜ block last) :
    PathIn graph.Edge sideᶜ
      ((splitGroup hfirst hsecond hbranch target last side).next item block) last := by
  have hnot : ¬ TransGen graph.Edge block branch :=
    fun h => hgraph block (h.trans hafter)
  obtain heq | ⟨next, hedge, hnext⟩ := hpath.cases_head
  · exact absurd heq hne
  · have hwanted : graph.Wanted branch target last side block next :=
      ⟨fun h => absurd h hnot, fun _ => ⟨fun h => absurd h hpath.1, fun _ => hnext⟩⟩
    simp only [splitGroup, if_neg (hgraph.ne_of_transGen hafter).symm]
    exact ((pick_spec hedge.2 hwanted).2 hnot).2 hpath.1

theorem splitGroup_executes_branch {item : Bool} (block : BlockId) :
    (splitGroup hfirst hsecond hbranch target last side).Executes item block →
      ReflTransGen graph.Edge block branch →
      (splitGroup hfirst hsecond hbranch target last side).Executes item branch := by
  induction block using hgraph.induction with
  | hstep block ih =>
      intro hexec hreach
      obtain rfl | hbefore := reflTransGen_iff_eq_or_transGen.mp hreach
      · exact hexec
      · obtain ⟨next, hedge, _⟩ := TransGen.head'_iff.mp hbefore
        have hsuccs : graph.succs block ≠ [] := List.ne_nil_of_mem hedge.2
        exact ih _ (hexec.edge hsuccs) (hexec.next hsuccs)
          (splitGroup_before hgraph hfirst hsecond hbranch hbefore)

theorem splitGroup_executes_target {item : Bool} (block : BlockId) :
    (splitGroup hfirst hsecond hbranch target last side).Executes item block →
      TransGen graph.Edge branch block →
      PathIn graph.Edge side block target →
      (splitGroup hfirst hsecond hbranch target last side).Executes item target := by
  induction block using hgraph.induction with
  | hstep block ih =>
      intro hexec hafter hpath
      by_cases heq : block = target
      · subst heq
        exact hexec
      · obtain heq' | ⟨next, hedge, _⟩ := hpath.cases_head
        · exact absurd heq' heq
        · have hsuccs : graph.succs block ≠ [] := List.ne_nil_of_mem hedge.2
          exact ih _ (hexec.edge hsuccs) (hexec.next hsuccs)
            (hafter.tail (hexec.edge hsuccs))
            (splitGroup_side hgraph hfirst hsecond hbranch hafter heq hpath)

/-- The work-item that leaves the branch to the second successor. -/
theorem splitGroup_executes_second
    (hreach : ReflTransGen graph.Edge graph.entry branch)
    (hpath : PathIn graph.Edge sideᶜ second last) (hlast : graph.succs last = [])
    (hexec : (splitGroup hfirst hsecond hbranch target last side).Executes false block) :
    ReflTransGen graph.Edge block branch ∨
      TransGen graph.Edge branch block ∧ PathIn graph.Edge sideᶜ block last := by
  induction hexec with
  | refl => exact Or.inl hreach
  | @tail block next hblock hstep ih =>
      obtain ⟨hsuccs, rfl⟩ := hstep
      have hedge := WorkGroup.Executes.edge hblock hsuccs
      obtain hto | ⟨hafter, hside⟩ := ih
      · obtain rfl | hbefore := reflTransGen_iff_eq_or_transGen.mp hto
        · right
          have hnext :
              (splitGroup hfirst hsecond hbranch target last side).next false branch =
                second := by
            simp [splitGroup]
          rw [hnext] at hedge ⊢
          exact ⟨TransGen.single hedge, hpath⟩
        · exact Or.inl (splitGroup_before hgraph hfirst hsecond hbranch hbefore)
      · right
        have hne : block ≠ last := by
          rintro rfl
          exact hsuccs hlast
        exact ⟨hafter.tail hedge,
          splitGroup_otherSide hgraph hfirst hsecond hbranch hafter hne hside⟩

omit hgraph in
theorem splitGroup_executes_first
    (hexec : (splitGroup hfirst hsecond hbranch target last side).Executes true branch) :
    (splitGroup hfirst hsecond hbranch target last side).Executes true first := by
  have hsuccs : graph.succs branch ≠ [] := List.ne_nil_of_mem hfirst
  have hnext := hexec.next hsuccs
  simpa [splitGroup] using hnext

theorem not_executedByAllOrNone_of_splits
    (hsplits : graph.Splits branch target) :
    ¬ graph.ExecutedByAllOrNone target := by
  obtain ⟨hreach, hbranch, first, hfirst, second, hsecond, side, last, hpath, hother,
    hlast⟩ := hsplits
  intro hall
  have hedge : graph.Edge branch first := ⟨reachable_mem hreach, hfirst⟩
  have hafter : TransGen graph.Edge branch target :=
    TransGen.head' hedge hpath.reflTransGen
  let group := splitGroup hfirst hsecond hbranch target last side
  have hat : group.Executes true branch :=
    splitGroup_executes_branch hgraph hfirst hsecond hbranch _ ReflTransGen.refl hreach
  have htarget : group.Executes true target :=
    splitGroup_executes_target hgraph hfirst hsecond hbranch first
      (splitGroup_executes_first hfirst hsecond hbranch hat) (TransGen.single hedge) hpath
  have hfalse : group.Executes false target := hall Bool group true false htarget
  obtain hto | ⟨_, hside⟩ :=
    splitGroup_executes_second hgraph hfirst hsecond hbranch hreach hother hlast hfalse
  · exact hgraph.not_reflTransGen hafter hto
  · exact hside.1 hpath.right_mem

end Splitting

theorem executedByAllOrNone_iff (hgraph : graph.LoopFree) (block : BlockId) :
    graph.ExecutedByAllOrNone block ↔ ∀ branch, ¬ graph.Splits branch block := by
  constructor
  · intro hall branch hsplits
    exact not_executedByAllOrNone_of_splits hgraph hsplits hall
  · intro hnone Item group first second hfirst
    by_contra hsecond
    obtain ⟨branch, hsplits⟩ := splits_of_executes hgraph hfirst hsecond
    exact hnone branch hsplits

end LabelledGraph

end Pocl
