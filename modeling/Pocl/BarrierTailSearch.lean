import Pocl.BarrierTailRedirect
import Pocl.OptionPrograms

/-!
# The search for barriers

Every change the search makes is a sequence of replications, which keep the
dominance between known blocks and the tails that a barrier already dominates.
`replicateJoinedSubgraphs` makes the whole forward tail of its entry block
dominated by the barrier and changes only branches of blocks that the barrier
dominates.

The blocks visited by `findBarriersDFS` are closed under their dominators, so
the search descends along forward edges only, and no later replication touches
a block that has been visited.
-/

namespace Pocl

namespace FlowGraph

variable {V : Type*} {graph graph' : FlowGraph V} {visited : V → Prop}
  {a v : V}

/-- Every visited node is reached by a path of visited nodes. -/
inductive Within (graph : FlowGraph V) (visited : V → Prop) : V → Prop
  | entry : visited graph.entry → Within graph visited graph.entry
  | step {source target : V} :
      Within graph visited source → graph.Edge source target →
        visited target → Within graph visited target

def Rooted (graph : FlowGraph V) (visited : V → Prop) : Prop :=
  ∀ node, visited node → graph.Within visited node

theorem Within.mem (hwithin : graph.Within visited v) : visited v := by
  cases hwithin with
  | entry hentry => exact hentry
  | step _ _ htarget => exact htarget

theorem Within.avoids (hwithin : graph.Within visited v) (ha : ¬ visited a) :
    graph.Avoids a v := by
  induction hwithin with
  | entry hentry => exact Avoids.entry fun heq => ha (heq ▸ hentry)
  | step _ hedge htarget ih =>
      exact Avoids.step ih hedge fun heq => ha (heq ▸ htarget)

theorem Within.mono
    {visited' : V → Prop} (hwithin : graph.Within visited v)
    (hentry : graph'.entry = graph.entry)
    (hsub : ∀ node, visited node → visited' node)
    (hsuccs : ∀ node, visited node → graph'.succs node = graph.succs node) :
    graph'.Within visited' v := by
  induction hwithin with
  | entry hvisited =>
      rw [← hentry] at hvisited ⊢
      exact Within.entry (hsub _ hvisited)
  | @step source target hsource hedge htarget ih =>
      refine Within.step ih ?_ (hsub target htarget)
      unfold Edge
      rw [hsuccs source hsource.mem]
      exact hedge

theorem Rooted.congr
    (hrooted : graph.Rooted visited) (hentry : graph'.entry = graph.entry)
    (hsuccs : ∀ node, visited node → graph'.succs node = graph.succs node) :
    graph'.Rooted visited := fun node hnode =>
  (hrooted node hnode).mono hentry (fun _ h => h) hsuccs

end FlowGraph

namespace BarrierTailReplication

variable {original : Func} {rank : BlockId → ℕ}

def State.graph (state : State) : FlowGraph BlockId :=
  state.func.graph

/-- The rank of a block is the one of its origin. -/
def State.originRank (rank : BlockId → ℕ) (state : State) (block : BlockId) : ℕ :=
  rank (state.blockOrigin block)

/-- A valid state whose forward edges lower the rank of the original blocks. -/
structure Sound (original : Func) (rank : BlockId → ℕ) (state : State) :
    Prop where
  valid : Valid original state
  ranked : state.graph.Ranked (state.originRank rank)

/-- What every run of replications keeps. -/
structure Evolves
    (original : Func) (rank : BlockId → ℕ) (before after : State) : Prop where
  sound : Sound original rank after
  extends_ : before.origins.Extends after.origins
  order_mem : ∀ block ∈ before.func.order, block ∈ after.func.order
  dominates : ∀ dominator ∈ before.func.order, ∀ block ∈ before.func.order,
    before.graph.Dominates dominator block →
      after.graph.Dominates dominator block
  tail : ∀ dominator ∈ before.func.order, ∀ block ∈ before.func.order,
    before.graph.DominatesTail dominator block →
      after.graph.DominatesTail dominator block

variable {before middle after : State}

theorem Evolves.refl (hsound : Sound original rank before) :
    Evolves original rank before before :=
  ⟨hsound, Origins.Extends.refl _, fun _ h => h, fun _ _ _ _ h => h,
    fun _ _ _ _ h => h⟩

theorem Evolves.trans
    (hfirst : Evolves original rank before middle)
    (hnext : Evolves original rank middle after) :
    Evolves original rank before after := by
  constructor
  · exact hnext.sound
  · exact hfirst.extends_.trans hnext.extends_
  · exact fun block hblock =>
      hnext.order_mem block (hfirst.order_mem block hblock)
  · intro dominator hdominator block hblock hdom
    exact hnext.dominates dominator (hfirst.order_mem _ hdominator) block
      (hfirst.order_mem _ hblock)
      (hfirst.dominates dominator hdominator block hblock hdom)
  · intro dominator hdominator block hblock htail
    exact hnext.tail dominator (hfirst.order_mem _ hdominator) block
      (hfirst.order_mem _ hblock)
      (hfirst.tail dominator hdominator block hblock htail)

theorem Sound.rank_eq
    (hsound : Sound original rank before)
    (hextends : before.origins.Extends after.origins) {block : BlockId}
    (hblock : block ∈ before.func.order) :
    after.originRank rank block = before.originRank rank block :=
  congrArg rank
    (hextends.blockOrigin_eq block (hsound.valid.blocks.bound block hblock))

theorem Sound.entry_eq
    (hsound : Sound original rank before) : before.graph.entry = original.entry :=
  hsound.valid.entry_eq

theorem Evolves.entry_eq
    (hsound : Sound original rank before)
    (hevolves : Evolves original rank before after) :
    after.graph.entry = before.graph.entry :=
  hevolves.sound.entry_eq.trans hsound.entry_eq.symm

/-- Only branches of blocks that `dominator` dominates and whose rank is at most
`bound` have changed. -/
structure Touches
    (rank : BlockId → ℕ) (dominator : BlockId) (bound : ℕ)
    (before after : State) : Prop where
  rank_gt : ∀ block ∈ before.func.order, bound < before.originRank rank block →
    after.func.succs block = before.func.succs block
  rooted : ∀ visited : BlockId → Prop, before.graph.Rooted visited →
    ¬ visited dominator → ∀ block, visited block →
      after.func.succs block = before.func.succs block

theorem Touches.refl {dominator : BlockId} {bound : ℕ} :
    Touches rank dominator bound before before :=
  ⟨fun _ _ _ => rfl, fun _ _ _ _ _ => rfl⟩

theorem Touches.trans
    {dominator : BlockId} {bound bound' : ℕ}
    (hsound : Sound original rank before)
    (hevolves : Evolves original rank before middle)
    (hfirst : Touches rank dominator bound before middle)
    (hnext : Touches rank dominator bound' middle after)
    (hle : bound' ≤ bound) :
    Touches rank dominator bound before after := by
  constructor
  · intro block hblock hlt
    have hlt' : bound' < middle.originRank rank block := by
      rw [hsound.rank_eq hevolves.extends_ hblock]
      exact lt_of_le_of_lt hle hlt
    exact (hnext.rank_gt block (hevolves.order_mem block hblock) hlt').trans
      (hfirst.rank_gt block hblock hlt)
  · intro visited hrooted hdominator block hblock
    have hkept := hfirst.rooted visited hrooted hdominator
    have hrooted' : middle.graph.Rooted visited :=
      hrooted.congr (hevolves.entry_eq hsound) hkept
    exact (hnext.rooted visited hrooted' hdominator block hblock).trans
      (hkept block hblock)

section Joined

variable {dominator source target : BlockId} {index fuel : ℕ} {state : State}

/-- One replication, seen from the search. -/
theorem Sound.replicate
    (hsound : Sound original rank state)
    (hdominator : dominator ∈ state.func.order)
    (hsource : source ∈ state.func.order)
    (hindex : (state.func.succs source)[index]? = some target)
    (hedge : ¬ state.graph.Dominates target source)
    (hdom : state.graph.Dominates dominator source)
    (hfuel : state.originRank rank target < fuel) :
    ∃ now clone next,
      replicateSubgraph fuel state target = some (now, clone) ∧
        next = { now with
          func := now.func.setSuccessor source index clone } ∧
        Evolves original rank state next ∧
        Touches rank dominator (state.originRank rank source) state next ∧
        next.func.succs source = (state.func.succs source).set index clone ∧
        next.graph.DominatesTail dominator clone := by
  obtain ⟨now, region, clone, next, hrun, hnext, hvalid, hextends, horder,
      horigin, hrep⟩ :=
    replicateSubgraph_spec hsound.valid hsound.ranked hsource hindex hedge hfuel
  have hranked : next.graph.Ranked (next.originRank rank) :=
    hrep.ranked hsound.ranked
      (fun block hblock => hsound.rank_eq hextends hblock)
      (fun block hblock => congrArg rank (horigin block hblock))
  refine ⟨now, clone target, next, hrun, hnext, ?_, ?_, hrep.succs_source, ?_⟩
  · constructor
    · exact ⟨hvalid, hranked⟩
    · exact hextends
    · exact horder
    · exact fun a ha v hv h => hrep.dominates_old ha hv h
    · exact fun a ha v hv h => hrep.dominatesTail hsound.ranked ha hv h
  · constructor
    · intro block hblock hlt
      apply hrep.succs_old block hblock
      rintro rfl
      exact lt_irrefl _ hlt
    · intro visited hrooted hnot block hblock
      have hreach := (hrooted block hblock).avoids hnot
      apply hrep.succs_old block
        (hsound.valid.blocks.reachable_mem hreach.reachable)
      rintro rfl
      exact hdom hreach
  · exact hrep.dominatesTail_clone hsound.ranked hdominator hdom

/-- What a call of `replicateJoinedSubgraphs` at `block` achieves. -/
structure Joins
    (original : Func) (rank : BlockId → ℕ) (dominator block : BlockId)
    (before : State) (result : Progress) : Prop where
  evolves : Evolves original rank before result.2.1
  touches : Touches rank dominator (before.originRank rank block) before
    result.2.1
  tail : result.2.1.graph.DominatesTail dominator block
  processed : ∀ other ∈ result.2.2, other ∈ result.2.1.func.order ∧
    result.2.1.graph.DominatesTail dominator other

/-- The loop of `replicateJoinedSubgraphs` has handled the first `count`
successors. -/
structure JoinsFirst
    (original : Func) (rank : BlockId → ℕ) (dominator block : BlockId)
    (before : State) (count : ℕ) (progress : Progress) : Prop where
  evolves : Evolves original rank before progress.2.1
  touches : Touches rank dominator (before.originRank rank block) before
    progress.2.1
  length_eq : (progress.2.1.func.succs block).length =
    (before.func.succs block).length
  handled : ∀ index < count, ∀ target,
    (progress.2.1.func.succs block)[index]? = some target →
      progress.2.1.graph.Dominates target block ∨
        progress.2.1.graph.DominatesTail dominator target
  processed : ∀ other ∈ progress.2.2, other ∈ progress.2.1.func.order ∧
    progress.2.1.graph.DominatesTail dominator other

theorem JoinsFirst.tail
    {block : BlockId} {progress : Progress}
    (hdom : progress.2.1.graph.Dominates dominator block)
    (hjoins : JoinsFirst original rank dominator block before
      (before.func.succs block).length progress) :
    progress.2.1.graph.DominatesTail dominator block := by
  intro reached hpath
  rcases Relation.ReflTransGen.cases_head hpath with rfl | ⟨next, hnext, hpath⟩
  · exact hdom
  · obtain ⟨index, hindex, heq⟩ := List.mem_iff_getElem.mp hnext.edge
    have hlt : index < (before.func.succs block).length := by
      rw [← hjoins.length_eq]
      exact hindex
    rcases hjoins.handled index hlt next (List.getElem?_eq_some_iff.mpr
      ⟨hindex, heq⟩) with hback | htail
    · exact absurd hback hnext.2
    · exact htail reached hpath

/-- A later state keeps what has been achieved for the first successors, as
long as these stay in place. -/
theorem JoinsFirst.evolve
    {block : BlockId} {count : ℕ} {progress : Progress} {state : State}
    {changed : Bool} {processed : Finset BlockId}
    (hsound : Sound original rank before) (hblock : block ∈ before.func.order)
    (hjoins : JoinsFirst original rank dominator block before count progress)
    (hdominator : dominator ∈ before.func.order)
    (hevolves : Evolves original rank progress.2.1 state)
    {bound : ℕ} (hle : bound ≤ before.originRank rank block)
    (htouches : Touches rank dominator bound progress.2.1 state)
    (hlength : (state.func.succs block).length =
      (progress.2.1.func.succs block).length)
    (hkept : ∀ index < count, (state.func.succs block)[index]? =
      (progress.2.1.func.succs block)[index]?)
    (hlast : ∀ target, (state.func.succs block)[count]? = some target →
      state.graph.Dominates target block ∨
        state.graph.DominatesTail dominator target)
    (hprocessed : ∀ other ∈ processed, other ∈ state.func.order ∧
      state.graph.DominatesTail dominator other) :
    JoinsFirst original rank dominator block before (count + 1)
      (changed, state, processed) := by
  have hblock' := hjoins.evolves.order_mem block hblock
  have hdominator' := hjoins.evolves.order_mem dominator hdominator
  constructor
  · exact hjoins.evolves.trans hevolves
  · exact hjoins.touches.trans hsound hjoins.evolves htouches hle
  · exact hlength.trans hjoins.length_eq
  · intro index hindex target htarget
    rcases Nat.lt_succ_iff_lt_or_eq.mp hindex with hindex | rfl
    · change (state.func.succs block)[index]? = some target at htarget
      rw [hkept index hindex] at htarget
      have hmem := hjoins.evolves.sound.valid.blocks.succs_mem block hblock'
        target (List.mem_of_getElem? htarget)
      rcases hjoins.handled index hindex target htarget with hback | htail
      · exact Or.inl (hevolves.dominates target hmem block hblock' hback)
      · exact Or.inr (hevolves.tail dominator hdominator' target hmem htail)
    · exact hlast target htarget
  · exact hprocessed

/-- One round of the loop over the successors of `block`. -/
theorem joinedSuccessor_spec
    {recurse : State → BlockId → Finset BlockId → Option Progress}
    {block : BlockId} {count : ℕ} {progress : Progress}
    (hrecurse : ∀ state target processed, Sound original rank state →
      dominator ∈ state.func.order → target ∈ state.func.order →
      state.originRank rank target < fuel →
      state.graph.Dominates dominator target →
      (∀ other ∈ processed, other ∈ state.func.order ∧
        state.graph.DominatesTail dominator other) →
      ∃ result, recurse state target processed = some result ∧
        Joins original rank dominator target state result)
    (hsound : Sound original rank before)
    (hdominator : dominator ∈ before.func.order)
    (hblock : block ∈ before.func.order)
    (hdom : before.graph.Dominates dominator block)
    (hfuel : before.originRank rank block ≤ fuel)
    (hcount : count < (before.func.succs block).length)
    (hjoins : JoinsFirst original rank dominator block before count progress) :
    ∃ next, joinedSuccessor recurse fuel dominator block progress count =
        some next ∧
      JoinsFirst original rank dominator block before (count + 1) next := by
  obtain ⟨changed, state, processed⟩ := progress
  have hstate : Sound original rank state := hjoins.evolves.sound
  have hblock' := hjoins.evolves.order_mem block hblock
  have hdominator' := hjoins.evolves.order_mem dominator hdominator
  have hdom' := hjoins.evolves.dominates dominator hdominator block hblock hdom
  have hrankEq : state.originRank rank block = before.originRank rank block :=
    hsound.rank_eq hjoins.evolves.extends_ hblock
  have hlt : count < (state.func.succs block).length := by
    rw [hjoins.length_eq]
    exact hcount
  have hindex : (state.func.succs block)[count]? =
      some (state.func.succs block)[count] :=
    List.getElem?_eq_getElem hlt
  set target := (state.func.succs block)[count] with htargetEq
  have htarget : target ∈ state.func.order :=
    hstate.valid.blocks.succs_mem block hblock' target
      (List.mem_of_getElem? hindex)
  have hsame : ∀ {target' : BlockId},
      state.graph.Dominates target block ∨
        state.graph.DominatesTail dominator target →
      (state.func.succs block)[count]? = some target' →
        state.graph.Dominates target' block ∨
          state.graph.DominatesTail dominator target' := by
    intro target' hdone heq
    rw [hindex, Option.some.injEq] at heq
    exact heq ▸ hdone
  have hskip : state.graph.Dominates target block ∨
      state.graph.DominatesTail dominator target →
        JoinsFirst original rank dominator block before (count + 1)
          (changed, state, processed) := fun hdone =>
    hjoins.evolve hsound hblock hdominator (Evolves.refl hstate) (le_refl _)
      Touches.refl rfl (fun _ _ => rfl) (fun _ heq => hsame hdone heq)
      hjoins.processed
  unfold joinedSuccessor
  change ∃ next, Option.bind (state.func.succs block)[count]? _ = _ ∧ _
  rw [hindex, Option.bind_some]
  by_cases hprocessed : target ∈ processed
  · rw [if_pos hprocessed]
    exact ⟨_, rfl, hskip (Or.inr (hjoins.processed target hprocessed).2)⟩
  rw [if_neg hprocessed]
  by_cases hback : state.func.dominates target block = true
  · rw [if_pos hback]
    exact ⟨_, rfl, hskip
      (Or.inl (hstate.valid.blocks.dominates_iff.mp hback))⟩
  rw [if_neg hback]
  have hedge : ¬ state.graph.Dominates target block := fun h =>
    hback (hstate.valid.blocks.dominates_iff.mpr h)
  have hrank : state.originRank rank target < before.originRank rank block := by
    rw [← hrankEq]
    exact hstate.ranked block target ⟨List.mem_of_getElem? hindex, hedge⟩
  by_cases hinside : state.func.dominates dominator target = true
  · rw [if_pos hinside]
    obtain ⟨result, hcall, hresult⟩ := hrecurse state target processed hstate
      hdominator' htarget (hrank.trans_le hfuel)
      (hstate.valid.blocks.dominates_iff.mp hinside) hjoins.processed
    have hsuccs : result.2.1.func.succs block = state.func.succs block := by
      apply hresult.touches.rank_gt block hblock'
      rw [hrankEq]
      exact hrank
    refine ⟨(changed || result.1, result.2.1, result.2.2), ?_, ?_⟩
    · change Option.bind (recurse state target processed) _ = _
      rw [hcall]
      rfl
    · refine hjoins.evolve hsound hblock hdominator hresult.evolves hrank.le
        hresult.touches (by rw [hsuccs]) (fun _ _ => by rw [hsuccs]) ?_
        hresult.processed
      intro target' heq
      rw [hsuccs, hindex, Option.some.injEq] at heq
      exact Or.inr (heq ▸ hresult.tail)
  · rw [if_neg hinside]
    obtain ⟨now, clone, next, hcall, hnext, hevolves, htouches, hsuccs, htail⟩ :=
      hstate.replicate hdominator' hblock' hindex hedge hdom'
        (hrank.trans_le hfuel)
    refine ⟨(true, next, processed), ?_, ?_⟩
    · change Option.bind (replicateSubgraph fuel state target) _ = _
      rw [hcall, Option.bind_some, hnext]
    · refine hjoins.evolve hsound hblock hdominator hevolves hrankEq.le htouches
        ?_ ?_ ?_ ?_
      · rw [hsuccs, List.length_set]
      · intro index hindexLt
        rw [hsuccs, List.getElem?_set_ne (Nat.ne_of_gt hindexLt)]
      · intro target' heq
        rw [hsuccs, List.getElem?_set_self hlt, Option.some.injEq] at heq
        exact Or.inr (heq ▸ htail)
      · intro other hother
        obtain ⟨hmem, hdone⟩ := hjoins.processed other hother
        exact ⟨hevolves.order_mem other hmem,
          hevolves.tail dominator hdominator' other hmem hdone⟩

theorem replicateJoinedSubgraphs_spec :
    ∀ fuel state block processed, Sound original rank state →
      dominator ∈ state.func.order → block ∈ state.func.order →
      state.originRank rank block < fuel →
      state.graph.Dominates dominator block →
      (∀ other ∈ processed, other ∈ state.func.order ∧
        state.graph.DominatesTail dominator other) →
      ∃ result,
        replicateJoinedSubgraphs dominator fuel state block processed =
            some result ∧
          Joins original rank dominator block state result := by
  intro fuel
  induction fuel with
  | zero =>
      intro state block processed _ _ _ hfuel
      exact absurd hfuel (Nat.not_lt_zero _)
  | succ fuel ih =>
      intro state block processed hsound hdominator hblock hfuel hdom hprocessed
      have hstart : JoinsFirst original rank dominator block state 0
          (false, state, processed) :=
        ⟨Evolves.refl hsound, Touches.refl, rfl, by simp, hprocessed⟩
      obtain ⟨⟨changed, final, processed'⟩, hrun, hfinal⟩ :=
        foldlM_range_spec
          (JoinsFirst original rank dominator block state)
          (state.func.succs block).length hstart
          (fun index hindex progress hjoins =>
            joinedSuccessor_spec ih hsound hdominator hblock hdom
              (Nat.le_of_lt_succ hfuel) hindex hjoins)
      have hblock' := hfinal.evolves.order_mem block hblock
      have hdom' :=
        hfinal.evolves.dominates dominator hdominator block hblock hdom
      have htail : final.graph.DominatesTail dominator block :=
        hfinal.tail hdom'
      refine ⟨(changed, final, insert block processed'), ?_, ?_⟩
      · rw [replicateJoinedSubgraphs,
          if_pos (hsound.valid.blocks.dominates_iff.mpr hdom)]
        change Option.bind (List.foldlM _ _ _) _ = _
        rw [hrun]
        rfl
      · refine ⟨hfinal.evolves, hfinal.touches, htail, ?_⟩
        intro other hother
        rcases Finset.mem_insert.mp hother with rfl | hother
        · exact ⟨hblock', htail⟩
        · exact hfinal.processed other hother

end Joined

section Search

variable {block : BlockId} {fuel : ℕ} {state : State}

/-- What holds of the visited blocks: they are reached through each other, and
the forward tail of every visited barrier is dominated by it. -/
structure Explored
    (original : Func) (rank : BlockId → ℕ) (state : State)
    (processed : Finset BlockId) : Prop where
  sound : Sound original rank state
  rooted : state.graph.Rooted (· ∈ processed)
  barriers : ∀ block ∈ processed, (state.func.body block).hasBarrier = true →
    state.graph.DominatesTail block block

/-- What a search from one block adds to the visited blocks. -/
structure Visits
    (original : Func) (rank : BlockId → ℕ) (before : State)
    (processed : Finset BlockId) (after : State)
    (processed' : Finset BlockId) : Prop where
  evolves : Evolves original rank before after
  explored : Explored original rank after processed'
  subset : processed ⊆ processed'
  succs_eq : ∀ block ∈ processed,
    after.func.succs block = before.func.succs block
  closed : ∀ block ∈ processed', block ∉ processed →
    ∀ target ∈ after.func.succs block, target ∈ processed'

theorem Explored.mem_order
    {processed : Finset BlockId}
    (hexplored : Explored original rank state processed)
    (hblock : block ∈ processed) : block ∈ state.func.order := by
  have hwithin := hexplored.rooted block hblock
  have hreach : state.graph.Reachable block := by
    clear hblock
    induction hwithin with
    | entry _ => exact Relation.ReflTransGen.refl
    | step _ hedge _ ih => exact ih.tail hedge
  exact hexplored.sound.valid.blocks.reachable_mem hreach

theorem Visits.refl
    {processed : Finset BlockId}
    (hexplored : Explored original rank state processed) :
    Visits original rank state processed state processed :=
  ⟨Evolves.refl hexplored.sound, hexplored, Finset.Subset.refl _,
    fun _ _ => rfl, fun _ hmem hnot => absurd hmem hnot⟩

theorem Visits.trans
    {processed processed' processed'' : Finset BlockId}
    (hfirst : Visits original rank before processed middle processed')
    (hnext : Visits original rank middle processed' after processed'') :
    Visits original rank before processed after processed'' := by
  constructor
  · exact hfirst.evolves.trans hnext.evolves
  · exact hnext.explored
  · exact hfirst.subset.trans hnext.subset
  · intro block hblock
    exact (hnext.succs_eq block (hfirst.subset hblock)).trans
      (hfirst.succs_eq block hblock)
  · intro block hblock hnot target htarget
    by_cases hmiddle : block ∈ processed'
    · rw [hnext.succs_eq block hmiddle] at htarget
      exact hnext.subset (hfirst.closed block hmiddle hnot target htarget)
    · exact hnext.closed block hblock hmiddle target htarget

theorem Valid.hasBarrier
    (hvalid : Valid original state) (hblock : block ∈ state.func.order) :
    (state.func.body block).hasBarrier =
      (original.body (state.blockOrigin block)).hasBarrier :=
  (hvalid.copies block hblock).hasBarrier

theorem Evolves.hasBarrier
    (hsound : Sound original rank before)
    (hevolves : Evolves original rank before after)
    (hblock : block ∈ before.func.order) :
    (after.func.body block).hasBarrier =
      (before.func.body block).hasBarrier := by
  have horigin : after.blockOrigin block = before.blockOrigin block :=
    hevolves.extends_.blockOrigin_eq block
      (hsound.valid.blocks.bound block hblock)
  rw [hevolves.sound.valid.hasBarrier (hevolves.order_mem block hblock),
    hsound.valid.hasBarrier hblock, horigin]

theorem Explored.evolve
    {processed : Finset BlockId}
    (hexplored : Explored original rank before processed)
    (hevolves : Evolves original rank before after)
    (hsuccs : ∀ block ∈ processed,
      after.func.succs block = before.func.succs block) :
    Explored original rank after processed := by
  constructor
  · exact hevolves.sound
  · exact hexplored.rooted.congr (hevolves.entry_eq hexplored.sound) hsuccs
  · intro block hblock hbarrier
    have hmem := hexplored.mem_order hblock
    rw [hevolves.hasBarrier hexplored.sound hmem] at hbarrier
    exact hevolves.tail block hmem block hmem
      (hexplored.barriers block hblock hbarrier)

/-- A block is entered from the start or from a visited block. -/
def Entered (state : State) (processed : Finset BlockId) (block : BlockId) :
    Prop :=
  block = state.graph.entry ∨
    ∃ source ∈ processed, state.graph.Edge source block

theorem Explored.visit
    {processed : Finset BlockId}
    (hexplored : Explored original rank state processed)
    (hentered : Entered state processed block)
    (hbarrier : (state.func.body block).hasBarrier = true →
      state.graph.DominatesTail block block) :
    Explored original rank state (insert block processed) := by
  have hsub : ∀ node ∈ processed, node ∈ insert block processed :=
    fun node hnode => Finset.mem_insert_of_mem hnode
  constructor
  · exact hexplored.sound
  · intro node hnode
    rcases Finset.mem_insert.mp hnode with rfl | hnode
    · rcases hentered with rfl | ⟨source, hsource, hedge⟩
      · exact FlowGraph.Within.entry (Finset.mem_insert_self _ _)
      · refine FlowGraph.Within.step ?_ hedge (Finset.mem_insert_self _ _)
        exact (hexplored.rooted source hsource).mono rfl hsub fun _ _ => rfl
    · exact (hexplored.rooted node hnode).mono rfl hsub fun _ _ => rfl
  · intro other hother hother'
    rcases Finset.mem_insert.mp hother with rfl | hother
    · exact hbarrier hother'
    · exact hexplored.barriers other hother hother'

/-- The step at a new block: its joined subgraphs are replicated when it has a
barrier, and it becomes visited. -/
theorem replicateAtBarrier_spec
    {processed : Finset BlockId}
    (hexplored : Explored original rank state processed)
    (hentered : Entered state processed block)
    (hblock : block ∈ state.func.order) (hnot : block ∉ processed)
    (hfuel : state.originRank rank block < fuel) :
    ∃ changed next rest,
      replicateAtBarrier fuel state block = some (changed, next, rest) ∧
        Evolves original rank state next ∧
        Explored original rank next (insert block processed) ∧
        ∀ other ∈ processed,
          next.func.succs other = state.func.succs other := by
  unfold replicateAtBarrier
  by_cases hbarrier : (state.func.body block).hasBarrier = true
  · rw [if_pos hbarrier]
    obtain ⟨⟨changed, next, rest⟩, hrun, hjoins⟩ :=
      replicateJoinedSubgraphs_spec fuel state block ∅ hexplored.sound hblock
        hblock hfuel (FlowGraph.Dominates.refl _ _) (by simp)
    have hsuccs : ∀ other ∈ processed,
        next.func.succs other = state.func.succs other :=
      hjoins.touches.rooted (· ∈ processed) hexplored.rooted hnot
    refine ⟨changed, next, rest, hrun, hjoins.evolves, ?_, hsuccs⟩
    apply (hexplored.evolve hjoins.evolves hsuccs).visit
    · rcases hentered with rfl | ⟨source, hsource, hedge⟩
      · exact Or.inl (hjoins.evolves.entry_eq hexplored.sound).symm
      · refine Or.inr ⟨source, hsource, ?_⟩
        change block ∈ next.func.succs source
        rw [hsuccs source hsource]
        exact hedge
    · exact fun _ => hjoins.tail
  · rw [if_neg hbarrier]
    exact ⟨false, state, ∅, rfl, Evolves.refl hexplored.sound,
      hexplored.visit hentered fun h => absurd h hbarrier, fun _ _ => rfl⟩

/-- The loop of `findBarriersDFS` has searched from the first `count`
successors of `block`. -/
structure VisitsFirst
    (original : Func) (rank : BlockId → ℕ) (block : BlockId) (before : State)
    (processed : Finset BlockId) (count : ℕ) (progress : Progress) :
    Prop where
  visits : Visits original rank before processed progress.2.1 progress.2.2
  handled : ∀ index < count, ∀ target,
    (before.func.succs block)[index]? = some target → target ∈ progress.2.2

theorem barrierSuccessor_spec
    {recurse : State → BlockId → Finset BlockId → Option Progress}
    {processed : Finset BlockId} {count : ℕ} {progress : Progress}
    (hrecurse : ∀ state block processed, Explored original rank state processed →
      Entered state processed block → block ∈ state.func.order →
      (block ∈ processed ∨ state.originRank rank block + 1 < fuel) →
      ∃ changed next processed',
        recurse state block processed = some (changed, next, processed') ∧
          Visits original rank state processed next processed' ∧
          block ∈ processed')
    (hblock : block ∈ processed)
    (hexplored : Explored original rank before processed)
    (hfuel : before.originRank rank block < fuel)
    (hcount : count < (before.func.succs block).length)
    (hvisits : VisitsFirst original rank block before processed count
      progress) :
    ∃ next, barrierSuccessor recurse block progress count = some next ∧
      VisitsFirst original rank block before processed (count + 1) next := by
  obtain ⟨changed, state, visited⟩ := progress
  have hstate : Explored original rank state visited := hvisits.visits.explored
  have horder := hexplored.mem_order hblock
  have hsuccs : state.func.succs block = before.func.succs block :=
    hvisits.visits.succs_eq block hblock
  have hindex : (before.func.succs block)[count]? =
      some (before.func.succs block)[count] :=
    List.getElem?_eq_getElem hcount
  set target := (before.func.succs block)[count] with htarget
  have hedge : state.graph.Edge block target := by
    change target ∈ state.func.succs block
    rw [hsuccs]
    exact List.mem_of_getElem? hindex
  have hvisited : block ∈ visited := hvisits.visits.subset hblock
  have hentered : Entered state visited target :=
    Or.inr ⟨block, hvisited, hedge⟩
  have hrank : target ∈ visited ∨ state.originRank rank target + 1 < fuel := by
    by_cases hmem : target ∈ visited
    · exact Or.inl hmem
    · have hforward : state.graph.Forward block target :=
        ⟨hedge, fun hdom => hdom ((hstate.rooted block hvisited).avoids hmem)⟩
      have hlt := hstate.sound.ranked block target hforward
      rw [hexplored.sound.rank_eq hvisits.visits.evolves.extends_ horder] at hlt
      exact Or.inr (lt_of_le_of_lt (Nat.succ_le_of_lt hlt) hfuel)
  obtain ⟨more, next, visited', hcall, hnext, htargetMem⟩ :=
    hrecurse state target visited hstate hentered
      (hstate.sound.valid.blocks.succs_mem block
        (hvisits.visits.evolves.order_mem block horder) target hedge) hrank
  refine ⟨(changed || more, next, visited'), ?_, ?_, ?_⟩
  · unfold barrierSuccessor
    change Option.bind (state.func.succs block)[count]? _ = _
    rw [hsuccs, hindex, Option.bind_some]
    change Option.bind (recurse state target visited) _ = _
    rw [hcall]
    rfl
  · exact hvisits.visits.trans hnext
  · intro index hlt other hother
    rcases Nat.lt_succ_iff_lt_or_eq.mp hlt with hlt | rfl
    · exact hnext.subset (hvisits.handled index hlt other hother)
    · rw [hindex, Option.some.injEq] at hother
      exact hother ▸ htargetMem

theorem findBarriersDFS_spec :
    ∀ fuel state block processed, Explored original rank state processed →
      Entered state processed block → block ∈ state.func.order →
      (block ∈ processed ∧ 0 < fuel ∨
        state.originRank rank block + 1 < fuel) →
      ∃ changed next processed',
        findBarriersDFS fuel state block processed =
            some (changed, next, processed') ∧
          Visits original rank state processed next processed' ∧
          block ∈ processed' := by
  intro fuel
  induction fuel with
  | zero =>
      intro state block processed _ _ _ hfuel
      omega
  | succ fuel ih =>
      intro state block processed hexplored hentered hblock hfuel
      rw [findBarriersDFS]
      by_cases hmem : block ∈ processed
      · rw [if_pos hmem]
        exact ⟨false, state, processed, rfl, Visits.refl hexplored, hmem⟩
      · rw [if_neg hmem]
        have hrank : state.originRank rank block < fuel := by
          rcases hfuel with ⟨hprocessed, _⟩ | hlt
          · exact absurd hprocessed hmem
          · omega
        obtain ⟨changed, next, rest, hvisit, hevolves, hnext, hsuccs⟩ :=
          replicateAtBarrier_spec hexplored hentered hblock hmem hrank
        have hrankNext : next.originRank rank block < fuel := by
          rw [hexplored.sound.rank_eq hevolves.extends_ hblock]
          exact hrank
        have hstart : VisitsFirst original rank block next
            (insert block processed) 0
            (changed, next, insert block processed) :=
          ⟨Visits.refl hnext, by simp⟩
        obtain ⟨⟨changed', final, processed'⟩, hrun, hfinal⟩ :=
          foldlM_range_spec
            (VisitsFirst original rank block next (insert block processed))
            (next.func.succs block).length hstart
            (fun index hindex progress hvisits =>
              barrierSuccessor_spec
                (fun state block processed h h' h'' hlt =>
                  ih state block processed h h' h''
                    (hlt.imp_left fun hmem => ⟨hmem, by omega⟩))
                (Finset.mem_insert_self block processed) hnext hrankNext hindex
                hvisits)
        have hvisits := hfinal.visits
        refine ⟨changed', final, processed', ?_, ?_,
          hvisits.subset (Finset.mem_insert_self block processed)⟩
        · change Option.bind (replicateAtBarrier fuel state block) _ = _
          rw [hvisit]
          exact hrun
        · constructor
          · exact hevolves.trans hvisits.evolves
          · exact hvisits.explored
          · exact (Finset.subset_insert _ _).trans hvisits.subset
          · intro other hother
            exact (hvisits.succs_eq other (Finset.mem_insert_of_mem hother)).trans
              (hsuccs other hother)
          · intro other hother hnot target htarget
            by_cases heq : other = block
            · subst heq
              rw [hvisits.succs_eq other (Finset.mem_insert_self _ _)]
                at htarget
              obtain ⟨index, hindex, hget⟩ := List.mem_iff_getElem.mp htarget
              exact hfinal.handled index hindex target
                (List.getElem?_eq_some_iff.mpr ⟨hindex, hget⟩)
            · apply hvisits.closed other hother _ target htarget
              rw [Finset.mem_insert, not_or]
              exact ⟨heq, hnot⟩

end Search

end BarrierTailReplication

end Pocl
