import Pocl.BarrierTailSearch

/-!
# Barrier tail replication is a bisimulation and separates the tails

For every well-formed function with a reducible flow graph the pass ends with
the same result for all sufficient fuel.  Mapping each block to the one it was
cloned from is then a bisimulation with the original function, and every block
reached from a barrier along forward edges is dominated by the barrier.
-/

namespace Pocl

namespace BarrierTailReplication

section Fuel

theorem findSubgraph_mono (func : Func) :
    ∀ {fuel : ℕ} {subgraph : List BlockId} {entry : BlockId}
      {result : List BlockId},
      findSubgraph func fuel subgraph entry = some result →
        findSubgraph func (fuel + 1) subgraph entry = some result := by
  intro fuel
  induction fuel with
  | zero =>
      intro subgraph entry result hrun
      cases hrun
  | succ fuel ih =>
      intro subgraph entry result hrun
      rw [findSubgraph] at hrun ⊢
      by_cases hmem : entry ∈ subgraph
      · rw [if_pos hmem] at hrun ⊢
        exact hrun
      · rw [if_neg hmem] at hrun ⊢
        refine foldlM_mono ?_ hrun
        intro state successor next hstep
        by_cases hdom : func.dominates successor entry = true
        · rw [if_pos hdom] at hstep ⊢
          exact hstep
        · rw [if_neg hdom] at hstep ⊢
          exact ih hstep

theorem replicateSubgraph_mono
    {fuel : ℕ} {state : State} {entry : BlockId} {result : State × BlockId}
    (hrun : replicateSubgraph fuel state entry = some result) :
    replicateSubgraph (fuel + 1) state entry = some result := by
  unfold replicateSubgraph at hrun ⊢
  obtain ⟨subgraph, hfind, hrest⟩ := Option.bind_eq_some_iff.mp hrun
  change Option.bind (findSubgraph state.func (fuel + 1) [] entry) _ = _
  rw [findSubgraph_mono state.func hfind]
  exact hrest

theorem joinedSuccessor_mono
    {recurse recurse' : State → BlockId → Finset BlockId → Option Progress}
    (hrecurse : ∀ state block processed result,
      recurse state block processed = some result →
        recurse' state block processed = some result)
    {fuel : ℕ} {dominator block : BlockId} {progress : Progress} {index : ℕ}
    {result : Progress}
    (hrun : joinedSuccessor recurse fuel dominator block progress index =
      some result) :
    joinedSuccessor recurse' (fuel + 1) dominator block progress index =
      some result := by
  obtain ⟨changed, state, processed⟩ := progress
  unfold joinedSuccessor at hrun ⊢
  obtain ⟨target, htarget, hrest⟩ := Option.bind_eq_some_iff.mp hrun
  change Option.bind (state.func.succs block)[index]? _ = _
  rw [htarget, Option.bind_some]
  by_cases hprocessed : target ∈ processed
  · rw [if_pos hprocessed] at hrest ⊢
    exact hrest
  rw [if_neg hprocessed] at hrest ⊢
  by_cases hback : state.func.dominates target block = true
  · rw [if_pos hback] at hrest ⊢
    exact hrest
  rw [if_neg hback] at hrest ⊢
  by_cases hinside : state.func.dominates dominator target = true
  · rw [if_pos hinside] at hrest ⊢
    obtain ⟨more, hmore, hdone⟩ := Option.bind_eq_some_iff.mp hrest
    change Option.bind (recurse' state target processed) _ = _
    rw [hrecurse _ _ _ _ hmore]
    exact hdone
  · rw [if_neg hinside] at hrest ⊢
    obtain ⟨more, hmore, hdone⟩ := Option.bind_eq_some_iff.mp hrest
    change Option.bind (replicateSubgraph (fuel + 1) state target) _ = _
    rw [replicateSubgraph_mono hmore]
    exact hdone

theorem replicateJoinedSubgraphs_mono (dominator : BlockId) :
    ∀ {fuel : ℕ} {state : State} {block : BlockId} {processed : Finset BlockId}
      {result : Progress},
      replicateJoinedSubgraphs dominator fuel state block processed =
          some result →
        replicateJoinedSubgraphs dominator (fuel + 1) state block processed =
          some result := by
  intro fuel
  induction fuel with
  | zero =>
      intro state block processed result hrun
      cases hrun
  | succ fuel ih =>
      intro state block processed result hrun
      rw [replicateJoinedSubgraphs] at hrun ⊢
      by_cases hdom : state.func.dominates dominator block = true
      · rw [if_pos hdom] at hrun ⊢
        obtain ⟨final, hloop, hdone⟩ := Option.bind_eq_some_iff.mp hrun
        refine Option.bind_eq_some_iff.mpr ⟨final, ?_, hdone⟩
        exact foldlM_mono
          (fun _ _ _ hstep =>
            joinedSuccessor_mono (fun _ _ _ _ hcall => ih hcall) hstep) hloop
      · rw [if_neg hdom] at hrun
        cases hrun

theorem replicateAtBarrier_mono
    {fuel : ℕ} {state : State} {block : BlockId} {result : Progress}
    (hrun : replicateAtBarrier fuel state block = some result) :
    replicateAtBarrier (fuel + 1) state block = some result := by
  unfold replicateAtBarrier at hrun ⊢
  by_cases hbarrier : (state.func.body block).hasBarrier = true
  · rw [if_pos hbarrier] at hrun ⊢
    exact replicateJoinedSubgraphs_mono block hrun
  · rw [if_neg hbarrier] at hrun ⊢
    exact hrun

theorem barrierSuccessor_mono
    {recurse recurse' : State → BlockId → Finset BlockId → Option Progress}
    (hrecurse : ∀ state block processed result,
      recurse state block processed = some result →
        recurse' state block processed = some result)
    {block : BlockId} {progress : Progress} {index : ℕ} {result : Progress}
    (hrun : barrierSuccessor recurse block progress index = some result) :
    barrierSuccessor recurse' block progress index = some result := by
  unfold barrierSuccessor at hrun ⊢
  obtain ⟨target, htarget, hrest⟩ := Option.bind_eq_some_iff.mp hrun
  refine Option.bind_eq_some_iff.mpr ⟨target, htarget, ?_⟩
  obtain ⟨more, hmore, hdone⟩ := Option.bind_eq_some_iff.mp hrest
  exact Option.bind_eq_some_iff.mpr ⟨more, hrecurse _ _ _ _ hmore, hdone⟩

theorem findBarriersDFS_mono :
    ∀ {fuel : ℕ} {state : State} {block : BlockId} {processed : Finset BlockId}
      {result : Progress},
      findBarriersDFS fuel state block processed = some result →
        findBarriersDFS (fuel + 1) state block processed = some result := by
  intro fuel
  induction fuel with
  | zero =>
      intro state block processed result hrun
      cases hrun
  | succ fuel ih =>
      intro state block processed result hrun
      rw [findBarriersDFS] at hrun ⊢
      by_cases hmem : block ∈ processed
      · rw [if_pos hmem] at hrun ⊢
        exact hrun
      · rw [if_neg hmem] at hrun ⊢
        obtain ⟨progress, hvisit, hloop⟩ := Option.bind_eq_some_iff.mp hrun
        refine Option.bind_eq_some_iff.mpr
          ⟨progress, replicateAtBarrier_mono hvisit, ?_⟩
        exact foldlM_mono
          (fun _ _ _ hstep =>
            barrierSuccessor_mono (fun _ _ _ _ hcall => ih hcall) hstep) hloop

theorem processFunction_mono
    {fuel more : ℕ} {func : Func} {result : Bool × State}
    (hrun : processFunction fuel func = some result) :
    processFunction (fuel + more) func = some result := by
  induction more with
  | zero => exact hrun
  | succ more ih =>
      unfold processFunction at ih ⊢
      obtain ⟨progress, hsearch, hdone⟩ := Option.bind_eq_some_iff.mp ih
      exact Option.bind_eq_some_iff.mpr
        ⟨progress, findBarriersDFS_mono hsearch, hdone⟩

end Fuel

section Correctness

/-- An instruction refers to values and blocks below the given bounds. -/
def KindBelow (freshValue : ValueId) (freshBlock : BlockId) : InstrKind → Prop
  | .barrier => True
  | .phi incoming => ∀ entry ∈ incoming,
      entry.1 < freshValue ∧ entry.2 < freshBlock
  | .other _ operands => ∀ value ∈ operands, value < freshValue

instance (freshValue : ValueId) (freshBlock : BlockId) (kind : InstrKind) :
    Decidable (KindBelow freshValue freshBlock kind) :=
  match kind with
  | .barrier => isTrue trivial
  | .phi incoming => inferInstanceAs (Decidable (∀ entry ∈ incoming,
      entry.1 < freshValue ∧ entry.2 < freshBlock))
  | .other _ operands => inferInstanceAs (Decidable
      (∀ value ∈ operands, value < freshValue))

/-- The conditions on a function that the pass is given: branches stay inside
it, identities in use are below the bounds, and PHI nodes have an entry for
every predecessor. -/
structure WellFormed (func : Func) : Prop where
  blocks : func.HasBlocks
  instr_below : ∀ block ∈ func.order, ∀ instr ∈ (func.body block).instrs,
    instr.id < func.freshValue ∧
      KindBelow func.freshValue func.freshBlock instr.kind
  term_below : ∀ block ∈ func.order,
    (func.body block).term.id < func.freshValue ∧
      ∀ value ∈ (func.body block).term.operands, value < func.freshValue
  entries : ∀ block ∈ func.order, ∀ target ∈ func.succs block,
    HasEntry (func.body target).instrs block

def initialState (func : Func) : State :=
  ⟨func, id, id⟩

theorem copiesKind_initial
    {func : Func} {kind : InstrKind}
    (hbelow : KindBelow func.freshValue func.freshBlock kind) :
    CopiesKind (initialState func).origins kind kind := by
  cases kind with
  | barrier => exact CopiesKind.barrier
  | phi incoming =>
      refine CopiesKind.phi hbelow fun entry => ?_
      rw [show incoming.map (initialState func).origins.entry = incoming from
        List.map_id incoming]
  | other opcode operands =>
      exact CopiesKind.other hbelow (List.map_id operands)

theorem WellFormed.valid {func : Func} (hwf : WellFormed func) :
    Valid func (initialState func) := by
  constructor
  · exact hwf.blocks
  · rfl
  · rfl
  · exact fun block hblock => hblock
  · intro block hblock
    constructor
    · refine List.forall₂_same.mpr fun instr hinstr => ?_
      obtain ⟨hid, hkind⟩ := hwf.instr_below block hblock instr hinstr
      exact ⟨hid, rfl, copiesKind_initial hkind⟩
    · obtain ⟨hid, hoperands⟩ := hwf.term_below block hblock
      exact ⟨hid, rfl, rfl, hoperands, List.map_id _,
        fun target htarget => hwf.blocks.bound target
          (hwf.blocks.succs_mem block hblock target htarget), List.map_id _⟩
  · exact hwf.entries

noncomputable def initialRank (func : Func) : BlockId → ℕ :=
  func.graph.forwardRank func.order.toFinset

theorem WellFormed.explored
    {func : Func} (hwf : WellFormed func) (hreducible : func.graph.Reducible) :
    Explored func (initialRank func) (initialState func) ∅ := by
  refine ⟨⟨hwf.valid, ?_⟩, by simp [FlowGraph.Rooted], by simp⟩
  change func.graph.Ranked (func.graph.forwardRank func.order.toFinset)
  apply hreducible.ranked
  intro source target hforward
  exact List.mem_toFinset.mpr
    (hwf.blocks.reachable_mem (hforward.reachable.step hforward.edge))

/-- The pass ends, for all fuel above the number of blocks with the same
result, and has then visited every reachable block. -/
theorem processFunction_spec
    {func : Func} (hwf : WellFormed func) (hreducible : func.graph.Reducible) :
    ∃ changed result processed,
      (∀ fuel, func.order.length < fuel →
        processFunction fuel func = some (changed, result)) ∧
      Explored func (initialRank func) result processed ∧
      ∀ block, result.graph.Reachable block → block ∈ processed := by
  have hentry := hwf.blocks.entry_mem
  have hrank : (initialState func).originRank (initialRank func) func.entry +
      1 < func.order.length + 1 := by
    have hlt := hreducible.forwardRank_lt (List.mem_toFinset.mpr hentry)
    have hcard := List.toFinset_card_le func.order
    change func.graph.forwardRank func.order.toFinset func.entry + 1 < _
    omega
  obtain ⟨changed, result, processed, hrun, hvisits, hmem⟩ :=
    findBarriersDFS_spec (func.order.length + 1) (initialState func) func.entry
      ∅ (hwf.explored hreducible) (Or.inl rfl) hentry (Or.inr hrank)
  refine ⟨changed, result, processed, ?_, hvisits.explored, ?_⟩
  · intro fuel hfuel
    have hprocess : processFunction (func.order.length + 1) func =
        some (changed, result) := by
      unfold processFunction
      exact Option.bind_eq_some_iff.mpr ⟨_, hrun, rfl⟩
    obtain ⟨more, rfl⟩ := Nat.exists_eq_add_of_le hfuel
    exact processFunction_mono hprocess
  · intro block hreach
    induction hreach with
    | refl =>
        rw [hvisits.explored.sound.entry_eq]
        exact hmem
    | @tail source target _ hedge ih =>
        exact hvisits.closed source ih (by simp) target hedge

theorem Valid.covers {func : Func} {result : State} (hvalid : Valid func result) :
    FlowGraph.Covers result.func.graph func.graph (· ∈ result.func.order)
      result.blockOrigin where
  entry_mem := hvalid.blocks.entry_mem
  entry_eq := by
    change result.blockOrigin result.func.entry = func.entry
    rw [hvalid.entry_eq, hvalid.origin_entry]
  closed := hvalid.blocks.succs_mem
  succs_eq := fun block hblock => (hvalid.copies block hblock).term.succs_eq

/-- Mapping each block to the one it was cloned from relates the function after
the pass to the original function: corresponding blocks have the same
instructions up to the origin of their operands, and their successors
correspond in order. -/
structure Bisimulates (func : Func) (result : State) : Prop where
  entry : result.blockOrigin result.func.entry = func.entry
  origin_mem : ∀ block ∈ result.func.order,
    result.blockOrigin block ∈ func.order
  instrs : ∀ block ∈ result.func.order,
    CopiesBlock result.origins (result.func.body block)
      (func.body (result.blockOrigin block))
  succs : ∀ block ∈ result.func.order, ∀ index : ℕ,
    (func.succs (result.blockOrigin block))[index]? =
      (result.func.succs block)[index]?.map result.blockOrigin

theorem Valid.bisimulates
    {func : Func} {result : State} (hvalid : Valid func result) :
    Bisimulates func result where
  entry := hvalid.covers.entry_eq
  origin_mem := hvalid.origin_mem
  instrs := hvalid.copies
  succs := by
    intro block hblock index
    have hsuccs : (result.func.succs block).map result.blockOrigin =
        func.succs (result.blockOrigin block) :=
      hvalid.covers.succs_eq block hblock
    rw [← hsuccs, List.getElem?_map]

theorem processFunction_bisimulates
    (func : Func) (hwf : WellFormed func) (hreducible : func.graph.Reducible) :
    ∃ changed result,
      (∀ fuel, func.order.length < fuel →
        processFunction fuel func = some (changed, result)) ∧
      Bisimulates func result ∧
      ∀ blocks, func.graph.IsRun blocks ↔
        ∃ run, result.func.graph.IsRun run ∧
          run.map result.blockOrigin = blocks := by
  obtain ⟨changed, result, processed, hrun, hexplored, _⟩ :=
    processFunction_spec hwf hreducible
  have hvalid := hexplored.sound.valid
  exact ⟨changed, result, hrun, hvalid.bisimulates, hvalid.covers.isRun_iff⟩

theorem dominatesTail_of_not_reachable
    {graph : FlowGraph BlockId} {block : BlockId}
    (hreach : ¬ graph.Reachable block) : graph.DominatesTail block block := by
  intro reached hpath
  rcases Relation.ReflTransGen.cases_head hpath with rfl | ⟨_, hforward, _⟩
  · exact FlowGraph.Dominates.refl _ _
  · exact absurd hforward.reachable hreach

theorem processFunction_separates_tails
    (func : Func) (hwf : WellFormed func) (hreducible : func.graph.Reducible) :
    ∃ changed result,
      (∀ fuel, func.order.length < fuel →
        processFunction fuel func = some (changed, result)) ∧
      (∀ barrier, (result.func.body barrier).hasBarrier = true →
        ∀ block,
          Relation.ReflTransGen result.func.graph.Forward barrier block →
            result.func.graph.Dominates barrier block) ∧
      ∀ first second, (result.func.body first).hasBarrier = true →
        (result.func.body second).hasBarrier = true → ∀ block,
          Relation.ReflTransGen result.func.graph.Forward first block →
          Relation.ReflTransGen result.func.graph.Forward second block →
            result.func.graph.Dominates first second ∨
              result.func.graph.Dominates second first := by
  obtain ⟨changed, result, processed, hrun, hexplored, hvisited⟩ :=
    processFunction_spec hwf hreducible
  have htail : ∀ barrier, (result.func.body barrier).hasBarrier = true →
      result.func.graph.DominatesTail barrier barrier := by
    intro barrier hbarrier
    by_cases hreach : result.func.graph.Reachable barrier
    · exact hexplored.barriers barrier (hvisited barrier hreach) hbarrier
    · exact dominatesTail_of_not_reachable hreach
  refine ⟨changed, result, hrun, htail, ?_⟩
  intro first second hfirst hsecond block hpathFirst hpathSecond
  by_cases hreach : result.func.graph.Reachable block
  · exact hreach.dominators_comparable (htail first hfirst block hpathFirst)
      (htail second hsecond block hpathSecond)
  · have hunreach : ¬ result.func.graph.Reachable first := fun h =>
      hreach (h.forwardStar hpathFirst)
    exact Or.inr (FlowGraph.dominates_of_not_reachable hunreach second)

/-- A loop around a branch with a barrier on one side. -/
def loopWithBarrier : Func where
  order := [0, 1, 2, 3, 4]
  body := fun block =>
    match block with
    | 0 => ⟨[], ⟨0, 0, [], [1]⟩⟩
    | 1 => ⟨[⟨1, .phi [(9, 0), (2, 3)]⟩], ⟨3, 1, [1], [2, 3]⟩⟩
    | 2 => ⟨[⟨4, .barrier⟩], ⟨5, 0, [], [3]⟩⟩
    | 3 => ⟨[⟨2, .other 0 [1]⟩], ⟨6, 1, [2], [1, 4]⟩⟩
    | 4 => ⟨[], ⟨7, 2, [], []⟩⟩
    | _ => ⟨[], ⟨8, 2, [], []⟩⟩
  freshBlock := 5
  freshValue := 10

theorem loopWithBarrier_wellFormed : WellFormed loopWithBarrier := by
  constructor
  · constructor <;> decide
  · decide
  · decide
  · decide

theorem loopWithBarrier_reducible : loopWithBarrier.graph.Reducible := by
  have hranked : loopWithBarrier.graph.Ranked (fun block => 4 - block) := by
    intro source target hforward
    have hback : loopWithBarrier.graph.Dominates 1 3 :=
      loopWithBarrier_wellFormed.blocks.dominates_iff.mp (by decide +kernel)
    have hmem := loopWithBarrier_wellFormed.blocks.reachable_mem
      hforward.reachable
    have hcases : ∀ source ∈ loopWithBarrier.order,
        ∀ target ∈ loopWithBarrier.succs source,
          4 - target < 4 - source ∨ (source = 3 ∧ target = 1) := by
      decide
    rcases hcases source hmem target hforward.edge with hlt | ⟨rfl, rfl⟩
    · exact hlt
    · exact absurd hback hforward.2
  exact hranked.reducible

theorem loopWithBarrier_bisimulates :
    WellFormed loopWithBarrier ∧ loopWithBarrier.graph.Reducible ∧
      ∃ changed result,
        (∀ fuel, 5 < fuel →
          processFunction fuel loopWithBarrier = some (changed, result)) ∧
        Bisimulates loopWithBarrier result ∧
        ∀ blocks, loopWithBarrier.graph.IsRun blocks ↔
          ∃ run, result.func.graph.IsRun run ∧
            run.map result.blockOrigin = blocks :=
  ⟨loopWithBarrier_wellFormed, loopWithBarrier_reducible,
    processFunction_bisimulates loopWithBarrier loopWithBarrier_wellFormed
      loopWithBarrier_reducible⟩

theorem loopWithBarrier_separates_tails :
    WellFormed loopWithBarrier ∧ loopWithBarrier.graph.Reducible ∧
      ∃ changed result,
        (∀ fuel, 5 < fuel →
          processFunction fuel loopWithBarrier = some (changed, result)) ∧
        (∀ barrier, (result.func.body barrier).hasBarrier = true →
          ∀ block,
            Relation.ReflTransGen result.func.graph.Forward barrier block →
              result.func.graph.Dominates barrier block) ∧
        ∀ first second, (result.func.body first).hasBarrier = true →
          (result.func.body second).hasBarrier = true → ∀ block,
            Relation.ReflTransGen result.func.graph.Forward first block →
            Relation.ReflTransGen result.func.graph.Forward second block →
              result.func.graph.Dominates first second ∨
                result.func.graph.Dominates second first :=
  ⟨loopWithBarrier_wellFormed, loopWithBarrier_reducible,
    processFunction_separates_tails loopWithBarrier loopWithBarrier_wellFormed
      loopWithBarrier_reducible⟩

/-- The blocks behind the barrier are cloned, and the cloned latch keeps its
back edge. -/
example :
    ((processFunction 6 loopWithBarrier).map fun result =>
        result.2.func.order.map fun block =>
          (block, result.2.blockOrigin block, result.2.func.succs block)) =
      some [(0, 0, [1]), (1, 1, [2, 3]), (2, 2, [5]), (3, 3, [1, 4]),
        (4, 4, []), (5, 3, [1, 6]), (6, 4, [])] := by
  decide +kernel

end Correctness

end BarrierTailReplication

end Pocl
