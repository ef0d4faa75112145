import Pocl.BlockDivergence

/-!
# The blocks that the analysis marks

The search comes to a block first on the path that takes, at each branch, the
first successor from which the block can be reached.  The block is marked exactly
if each work-item dependent branch on this path is post-dominated by a later block
of the path.
-/

namespace Pocl

open Relation

namespace LabelledGraph

variable {graph : LabelledGraph}

def BranchEdge (graph : LabelledGraph) (block next : BlockId) : Prop :=
  block ∈ graph.blocks ∧ next ∈ graph.branchSuccs block

def PostDominates (graph : LabelledGraph) (dominator block : BlockId) : Prop :=
  ∀ last, graph.succs last = [] → ¬ PathIn graph.Edge {dominator}ᶜ block last

open Classical in
/-- The first successor of a branch from which the block can be reached. -/
def FirstStep (graph : LabelledGraph) (block branch next : BlockId) : Prop :=
  branch ∈ graph.blocks ∧
    (graph.branchSuccs branch).find?
      (fun next => ReflTransGen graph.BranchEdge next block) = some next

def OnFirstPath (graph : LabelledGraph) (block : BlockId) : BlockId → Prop :=
  ReflTransGen (graph.FirstStep block) graph.entry

def FirstPathUniform (graph : LabelledGraph) (block : BlockId) : Prop :=
  graph.OnFirstPath block block ∧
    ∀ branch, graph.OnFirstPath block branch → branch ≠ block →
      graph.isUniform branch = false →
      ∃ dominator, graph.OnFirstPath block dominator ∧ dominator ≠ branch ∧
        graph.PostDominates dominator branch

theorem BranchEdge.edge {block next : BlockId}
    (h : graph.BranchEdge block next) : graph.Edge block next :=
  ⟨h.1, BlockTerm.succs_of_branchSuccs h.2⟩

theorem transGen_edge {block next : BlockId}
    (h : TransGen graph.BranchEdge block next) : TransGen graph.Edge block next :=
  h.lift id (fun _ _ hedge => hedge.edge)

theorem LoopFree.branchEdge (hgraph : graph.LoopFree) : Acyclic graph.BranchEdge :=
  fun block h => hgraph block (transGen_edge h)

section PostDominance

variable {block next dominator : BlockId}

theorem escapes_iff (hgraph : graph.LoopFree) (fuel : ℕ) (block : BlockId)
    (hblock : block ∈ graph.blocks)
    (hfuel : rank graph.Edge graph.blocks.toFinset block < fuel) :
    graph.escapes dominator fuel block = true ↔
      ∃ last, graph.succs last = [] ∧ PathIn graph.Edge {dominator}ᶜ block last := by
  induction fuel generalizing block with
  | zero => exact absurd hfuel (Nat.not_lt_zero _)
  | succ fuel ih =>
      have hnext : ∀ next ∈ graph.succs block,
          (graph.escapes dominator fuel next = true ↔
            ∃ last, graph.succs last = [] ∧ PathIn graph.Edge {dominator}ᶜ next last) := by
        intro next hnext
        have hedge : graph.Edge block next := ⟨hblock, hnext⟩
        have hlt := Acyclic.rank_lt hgraph (List.mem_toFinset.mpr hedge.right_mem) hedge
        exact ih next hedge.right_mem (by omega)
      simp only [escapes, Bool.and_eq_true, bne_iff_ne, Bool.or_eq_true,
        List.isEmpty_iff, List.any_eq_true]
      constructor
      · rintro ⟨hne, hnil | ⟨next, hmem, hescapes⟩⟩
        · exact ⟨block, hnil, PathIn.refl hne⟩
        · obtain ⟨last, hlast, hpath⟩ := (hnext next hmem).mp hescapes
          exact ⟨last, hlast, PathIn.head hne ⟨hblock, hmem⟩ hpath⟩
      · rintro ⟨last, hlast, hpath⟩
        refine ⟨hpath.1, ?_⟩
        obtain rfl | ⟨next, hedge, hrest⟩ := hpath.cases_head
        · exact Or.inl hlast
        · exact Or.inr ⟨next, hedge.2, (hnext next hedge.2).mpr ⟨last, hlast, hrest⟩⟩

theorem postDominates_iff
    (hgraph : graph.LoopFree) (hblock : block ∈ graph.blocks) :
    graph.postDominates dominator block = true ↔ graph.PostDominates dominator block := by
  have hlt : rank graph.Edge graph.blocks.toFinset block < graph.blocks.length :=
    lt_of_lt_of_le (Acyclic.rank_lt_card hgraph (List.mem_toFinset.mpr hblock))
      (List.toFinset_card_le graph.blocks)
  have hescapes : graph.escapes dominator graph.blocks.length block = true ↔ _ :=
    escapes_iff hgraph _ block hblock hlt
  unfold postDominates PostDominates
  rw [Bool.not_eq_true', ← Bool.not_eq_true, hescapes]
  simp only [not_exists, not_and]

theorem pathIn_compl_of_before
    (hgraph : graph.LoopFree)
    (hpath : ReflTransGen graph.Edge block next) (hbefore : TransGen graph.Edge next dominator) :
    PathIn graph.Edge {dominator}ᶜ block next := by
  induction hpath using ReflTransGen.head_induction_on with
  | refl => exact PathIn.refl (hgraph.ne_of_transGen hbefore)
  | @head block middle hedge hrest ih =>
      refine PathIn.head ?_ hedge ih
      exact hgraph.ne_of_transGen (TransGen.head' hedge (hrest.trans hbefore.to_reflTransGen))

theorem pathIn_compl_of_after
    (hgraph : graph.LoopFree)
    (hpath : ReflTransGen graph.Edge block next) (hafter : TransGen graph.Edge dominator block) :
    PathIn graph.Edge {dominator}ᶜ block next := by
  induction hpath with
  | refl => exact PathIn.refl (hgraph.ne_of_transGen hafter).symm
  | tail hrest hedge ih =>
      refine ih.tail hedge ?_
      exact (hgraph.ne_of_transGen ((hafter.trans_left hrest).tail hedge)).symm

theorem PostDominates.of_path
    (hdominates : graph.PostDominates dominator block)
    (hpath : PathIn graph.Edge {dominator}ᶜ block next) :
    graph.PostDominates dominator next := by
  intro last hlast hnext
  refine hdominates last hlast ⟨hpath.1, hpath.2.trans hnext.2⟩

theorem path_to_end (hgraph : graph.LoopFree) (block : BlockId) :
    block ∈ graph.blocks →
      ∃ last, graph.succs last = [] ∧ ReflTransGen graph.Edge block last := by
  induction block using hgraph.induction with
  | hstep block ih =>
      intro hblock
      cases hsuccs : graph.succs block with
      | nil => exact ⟨block, hsuccs, ReflTransGen.refl⟩
      | cons next rest =>
          have hedge : graph.Edge block next := by
            refine ⟨hblock, ?_⟩
            rw [hsuccs]
            exact List.mem_cons_self
          obtain ⟨last, hlast, hpath⟩ := ih next hedge hedge.right_mem
          exact ⟨last, hlast, ReflTransGen.head hedge hpath⟩

theorem not_postDominates_of_before
    (hgraph : graph.LoopFree) (hbefore : TransGen graph.Edge dominator block)
    (hblock : block ∈ graph.blocks) :
    ¬ graph.PostDominates dominator block := by
  intro hdominates
  obtain ⟨last, hlast, hpath⟩ := path_to_end hgraph block hblock
  exact hdominates last hlast (pathIn_compl_of_after hgraph hpath hbefore)

end PostDominance

section LastUniform

variable {path : List BlockId} {block previousUniform : BlockId}

/-- Each work-item dependent branch below the block is post-dominated by a later
block of the path. -/
def PathUniform (graph : LabelledGraph) (path : List BlockId) (block : BlockId) : Prop :=
  ∀ branch ∈ path, branch ≠ block → graph.isUniform branch = false →
    ∃ dominator ∈ path, dominator ≠ branch ∧ graph.PostDominates dominator branch

/-- The last uniform block on a path of the search. -/
structure LastUniform (graph : LabelledGraph) (path : List BlockId)
    (previousUniform : BlockId) : Prop where
  mem : previousUniform ∈ path
  settled : ∀ branch ∈ path, TransGen graph.BranchEdge branch previousUniform →
    graph.isUniform branch = false →
    ∃ dominator ∈ path, dominator ≠ branch ∧ graph.PostDominates dominator branch
  top : graph.isUniform previousUniform = true → path.head? = some previousUniform
  unsettled : graph.isUniform previousUniform = false →
    ∀ dominator ∈ path, dominator ≠ previousUniform →
      ¬ graph.PostDominates dominator previousUniform

theorem marks_of_uniform
    (hstack : IsStack graph.BranchEdge (block :: path))
    (hlast : graph.LastUniform path previousUniform)
    (huniform : graph.isUniform previousUniform = true) :
    graph.marks block previousUniform = true := by
  have hedge : graph.BranchEdge previousUniform block :=
    (List.isChain_cons.mp hstack).1 _ (hlast.top huniform)
  simp [marks, huniform, hedge.2]

theorem marks_of_divergent
    (hgraph : graph.LoopFree)
    (hstack : IsStack graph.BranchEdge (block :: path))
    (hmem : previousUniform ∈ graph.blocks)
    (hlast : graph.LastUniform path previousUniform)
    (hdivergent : graph.isUniform previousUniform = false) :
    graph.marks block previousUniform = true ↔
      graph.PostDominates block previousUniform := by
  have hne : previousUniform ≠ block :=
    hgraph.ne_of_transGen (transGen_edge (hstack.transGen_top hlast.mem))
  rw [← postDominates_iff hgraph hmem]
  simp [marks, hdivergent, hne]

theorem LastUniform.pathUniform_of_uniform
    (hstack : IsStack graph.BranchEdge (block :: path))
    (hlast : graph.LastUniform path previousUniform)
    (huniform : graph.isUniform previousUniform = true) :
    graph.PathUniform (block :: path) block := by
  intro branch hbranch hne hdivergent
  have hpath : branch ∈ path := List.mem_of_ne_of_mem hne hbranch
  have hbefore : TransGen graph.BranchEdge branch previousUniform := by
    obtain ⟨rest, rfl⟩ := List.head?_eq_some_iff.mp (hlast.top huniform)
    obtain rfl | hrest := List.mem_cons.mp hpath
    · rw [huniform] at hdivergent
      contradiction
    · exact hstack.tail.transGen_top hrest
  obtain ⟨dominator, hdom, hother, hdominates⟩ :=
    hlast.settled branch hpath hbefore hdivergent
  exact ⟨dominator, List.mem_cons_of_mem _ hdom, hother, hdominates⟩

theorem LastUniform.pathUniform_iff_postDominates
    (hgraph : graph.LoopFree)
    (hstack : IsStack graph.BranchEdge (block :: path))
    (hlast : graph.LastUniform path previousUniform)
    (hdivergent : graph.isUniform previousUniform = false) :
    graph.PathUniform (block :: path) block ↔ graph.PostDominates block previousUniform := by
  have hne : ∀ branch ∈ path, block ≠ branch := by
    intro branch hbranch
    exact (hgraph.ne_of_transGen (transGen_edge (hstack.transGen_top hbranch))).symm
  constructor
  · intro huniform
    obtain ⟨dominator, hdom, hother, hdominates⟩ :=
      huniform previousUniform (List.mem_cons_of_mem _ hlast.mem)
        (hne _ hlast.mem).symm hdivergent
    obtain rfl | hdom := List.mem_cons.mp hdom
    · exact hdominates
    · exact absurd hdominates (hlast.unsettled hdivergent dominator hdom hother)
  · intro hdominates branch hbranch hbne hbdiv
    have hpath : branch ∈ path := List.mem_of_ne_of_mem hbne hbranch
    obtain rfl | hbefore | hafter := hstack.tail.comparable hpath hlast.mem
    · exact ⟨block, List.mem_cons_self, hne _ hpath, hdominates⟩
    · obtain ⟨dominator, hdom, hother, hsettled⟩ :=
        hlast.settled branch hpath hbefore hbdiv
      exact ⟨dominator, List.mem_cons_of_mem _ hdom, hother, hsettled⟩
    · -- the branch lies between the last uniform block and the block that
      -- post-dominates it
      refine ⟨block, List.mem_cons_self, hne _ hpath, hdominates.of_path ?_⟩
      exact pathIn_compl_of_before hgraph (transGen_edge hafter).to_reflTransGen
        (transGen_edge (hstack.transGen_top hpath))

theorem LastUniform.marks_iff
    (hgraph : graph.LoopFree)
    (hstack : IsStack graph.BranchEdge (block :: path))
    (hblocks : ∀ block ∈ path, block ∈ graph.blocks)
    (hlast : graph.LastUniform path previousUniform) :
    graph.marks block previousUniform = true ↔ graph.PathUniform (block :: path) block := by
  cases huniform : graph.isUniform previousUniform with
  | true =>
      simp only [marks_of_uniform hstack hlast huniform, true_iff]
      exact hlast.pathUniform_of_uniform hstack huniform
  | false =>
      rw [hlast.pathUniform_iff_postDominates hgraph hstack huniform]
      exact marks_of_divergent hgraph hstack (hblocks _ hlast.mem) hlast huniform

/-- A marked block becomes the last uniform one. -/
theorem LastUniform.of_pathUniform
    (hgraph : graph.LoopFree)
    (hstack : IsStack graph.BranchEdge (block :: path))
    (hblock : block ∈ graph.blocks)
    (huniform : graph.PathUniform (block :: path) block) :
    graph.LastUniform (block :: path) block where
  mem := List.mem_cons_self
  settled := by
    intro branch hbranch hbefore hdivergent
    exact huniform branch hbranch (hgraph.ne_of_transGen (transGen_edge hbefore)) hdivergent
  top := fun _ => rfl
  unsettled := by
    intro _ dominator hdom hne
    have hpath : dominator ∈ path := List.mem_of_ne_of_mem hne hdom
    exact not_postDominates_of_before hgraph
      (transGen_edge (hstack.transGen_top hpath)) hblock

theorem LastUniform.of_not_pathUniform
    (hgraph : graph.LoopFree)
    (hstack : IsStack graph.BranchEdge (block :: path))
    (hlast : graph.LastUniform path previousUniform)
    (hdivergent : ¬ graph.PathUniform (block :: path) block) :
    graph.LastUniform (block :: path) previousUniform where
  mem := List.mem_cons_of_mem _ hlast.mem
  settled := by
    intro branch hbranch hbefore hbdiv
    obtain rfl | hpath := List.mem_cons.mp hbranch
    · have hafter := hstack.transGen_top hlast.mem
      exact absurd (hafter.trans hbefore) (hgraph.branchEdge previousUniform)
    · obtain ⟨dominator, hdom, hother, hdominates⟩ :=
        hlast.settled branch hpath hbefore hbdiv
      exact ⟨dominator, List.mem_cons_of_mem _ hdom, hother, hdominates⟩
  top := by
    intro huniform
    exact absurd (hlast.pathUniform_of_uniform hstack huniform) hdivergent
  unsettled := by
    intro hfalse dominator hdom hne
    obtain rfl | hdom := List.mem_cons.mp hdom
    · rw [← hlast.pathUniform_iff_postDominates hgraph hstack hfalse]
      exact hdivergent
    · exact hlast.unsettled hfalse dominator hdom hne

end LastUniform

end LabelledGraph

end Pocl
