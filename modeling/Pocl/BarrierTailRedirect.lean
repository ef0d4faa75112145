import Pocl.BarrierTailClones
import Pocl.SubgraphReplication

/-!
# Redirecting an edge to a cloned subgraph

Remapping the clones and redirecting one forward edge to the clone of its
target is a replication of the flow graph.  Every block still copies its origin
and every PHI node still knows all its predecessors.
-/

namespace Pocl

namespace BarrierTailReplication

theorem leadingPhis_remap (map : ValueToValueMap) (instrs : List Instr) :
    leadingPhis (instrs.map fun instr =>
        { instr with kind := map.remapKind instr.kind }) =
      (leadingPhis instrs).map fun incoming =>
        incoming.map fun entry => (map.value entry.1, map.block entry.2) := by
  induction instrs with
  | nil => rfl
  | cons instr rest ih =>
      rw [List.map_cons]
      unfold leadingPhis
      cases hkind : instr.kind with
      | barrier => simp [ValueToValueMap.remapKind]
      | other _ _ => simp [ValueToValueMap.remapKind]
      | phi incoming => exact congrArg (List.cons _) ih

theorem HasEntry.remap
    {block : Block} {source : BlockId}
    (hentry : HasEntry block.instrs source) (map : ValueToValueMap) :
    HasEntry (map.remapBlock block).instrs (map.block source) := by
  intro incoming hincoming
  change incoming ∈ leadingPhis (block.instrs.map _) at hincoming
  rw [leadingPhis_remap] at hincoming
  obtain ⟨old, hold, rfl⟩ := List.mem_map.mp hincoming
  obtain ⟨entry, hmem, rfl⟩ := List.mem_map.mp (hentry old hold)
  rw [List.map_map]
  exact List.mem_map.mpr ⟨entry, hmem, rfl⟩

theorem CopiesBlock.setSuccessor
    {origins : Origins} {block original : Block} {index : ℕ}
    {target clone : BlockId} (hcopies : CopiesBlock origins block original)
    (hindex : block.term.succs[index]? = some target)
    (hlt : clone < origins.freshBlock)
    (heq : origins.blockOrigin clone = origins.blockOrigin target) :
    CopiesBlock origins
      { block with
        term := { block.term with succs := block.term.succs.set index clone } }
      original := by
  refine ⟨hcopies.instrs, ?_⟩
  constructor
  · exact hcopies.term.id_lt
  · exact hcopies.term.id_eq
  · exact hcopies.term.opcode_eq
  · exact hcopies.term.operands_lt
  · exact hcopies.term.operands_eq
  · intro other hother
    rcases List.mem_or_eq_of_mem_set hother with hother | rfl
    · exact hcopies.term.succs_lt other hother
    · exact hlt
  · rw [← hcopies.term.succs_eq, List.map_set, heq]
    apply List.ext_getElem?
    intro position
    rw [List.getElem?_set]
    split
    · rename_i hposition
      subst hposition
      obtain ⟨hbound, _⟩ := List.getElem?_eq_some_iff.mp hindex
      rw [List.getElem?_map, hindex, if_pos (by simpa using hbound)]
      rfl
    · rfl

/-- The function after its clones have been remapped and the branch of
`source` has been redirected to the clone of `target`. -/
def redirect
    (now : State) (newGraph : List BlockId) (map : ValueToValueMap)
    (source : BlockId) (index : ℕ) (target : BlockId) : State :=
  { now with
    func := (updateReferences now.func newGraph map).setSuccessor source index
      (map.block target) }

section Redirect

variable {original : Func} {start now : State} {graph newGraph : List BlockId}
  {map : ValueToValueMap} {source target : BlockId} {index : ℕ}

@[simp] theorem redirect_order :
    (redirect now newGraph map source index target).func.order =
      now.func.order :=
  rfl

theorem redirect_body_new
    {clone : BlockId} (hclone : clone ∈ newGraph) (hne : clone ≠ source) :
    (redirect now newGraph map source index target).func.body clone =
      map.remapBlock (now.func.body clone) := by
  unfold redirect Func.setSuccessor
  rw [Func.setBody_of_ne _ _ hne]
  exact if_pos hclone

theorem redirect_body_old
    {block : BlockId} (hblock : block ∉ newGraph) (hne : block ≠ source) :
    (redirect now newGraph map source index target).func.body block =
      now.func.body block := by
  unfold redirect Func.setSuccessor
  rw [Func.setBody_of_ne _ _ hne]
  exact if_neg hblock

theorem redirect_body_source (hsource : source ∉ newGraph) :
    (redirect now newGraph map source index target).func.body source =
      { now.func.body source with
        term :=
          { (now.func.body source).term with
            succs :=
              (now.func.body source).term.succs.set index
                (map.block target) } } := by
  have hbody : (updateReferences now.func newGraph map).body source =
      now.func.body source :=
    if_neg hsource
  unfold redirect Func.setSuccessor
  rw [Func.setBody_self, Func.succs, hbody]

theorem redirect_instrs_old {block : BlockId} (hblock : block ∉ newGraph) :
    ((redirect now newGraph map source index target).func.body block).instrs =
      (now.func.body block).instrs := by
  by_cases hne : block = source
  · subst hne
    rw [redirect_body_source hblock]
  · rw [redirect_body_old hblock hne]

theorem Copying.old_not_new
    (hcopying : Copying original start graph graph now map newGraph)
    {block : BlockId} (hblock : block < start.func.freshBlock) :
    block ∉ newGraph := fun hmem =>
  absurd hblock (Nat.not_lt_of_le (hcopying.clones.new_bound block hmem).1)

theorem Copying.block_mem
    (hcopying : Copying original start graph graph now map newGraph)
    {block : BlockId} (hblock : block ∈ graph) :
    map.blocks block = some (map.block block) ∧ map.block block ∈ newGraph := by
  obtain ⟨clone, hclone, hmap⟩ := hcopying.clones.clone_new block hblock
  have heq : map.block block = clone := by
    unfold ValueToValueMap.block
    rw [hmap]
    rfl
  rw [heq]
  exact ⟨hmap, hclone⟩

theorem Copying.block_of_not_mem
    (hcopying : Copying original start graph graph now map newGraph)
    {block : BlockId} (hblock : block ∉ graph) : map.block block = block := by
  unfold ValueToValueMap.block
  rw [hcopying.clones.clone_none block hblock]
  rfl

theorem Copying.cloneTarget_eq
    (hcopying : Copying original start graph graph now map newGraph) :
    FlowGraph.cloneTarget graph map.block = map.block := by
  funext block
  unfold FlowGraph.cloneTarget
  by_cases hblock : block ∈ graph
  · exact if_pos hblock
  · rw [if_neg hblock, hcopying.block_of_not_mem hblock]

theorem Copying.succs_eq
    (hcopying : Copying original start graph graph now map newGraph)
    {block : BlockId} (hblock : block < start.func.freshBlock) :
    now.func.succs block = start.func.succs block :=
  congrArg Terminator.succs (hcopying.term_old block hblock)

theorem Copying.redirect_succs_old
    (hcopying : Copying original start graph graph now map newGraph)
    {block : BlockId} (hblock : block < start.func.freshBlock)
    (hne : block ≠ source) :
    (redirect now newGraph map source index target).func.succs block =
      start.func.succs block := by
  rw [Func.succs, redirect_body_old (hcopying.old_not_new hblock) hne]
  exact hcopying.succs_eq hblock

theorem Copying.redirect_succs_source
    (hcopying : Copying original start graph graph now map newGraph)
    (hsource : source < start.func.freshBlock) :
    (redirect now newGraph map source index target).func.succs source =
      (start.func.succs source).set index (map.block target) := by
  rw [Func.succs, redirect_body_source (hcopying.old_not_new hsource)]
  exact congrArg (fun succs => succs.set index (map.block target))
    (hcopying.succs_eq hsource)

theorem Copying.redirect_succs_clone
    (hcopying : Copying original start graph graph now map newGraph)
    (hsource : source < start.func.freshBlock)
    {block : BlockId} (hblock : block ∈ graph) :
    (redirect now newGraph map source index target).func.succs
        (map.block block) =
      (start.func.succs block).map map.block := by
  obtain ⟨hsome, hmem⟩ := hcopying.block_mem hblock
  have hne : map.block block ≠ source := fun heq =>
    hcopying.old_not_new hsource (heq ▸ hmem)
  rw [Func.succs, redirect_body_new hmem hne]
  exact congrArg (List.map map.block)
    (hcopying.succs_clone block (map.block block) hsome)

/-- The clones are reached from outside only through the redirected edge. -/
theorem Copying.replication
    (hvalid : Valid original start)
    (hcopying : Copying original start graph graph now map newGraph)
    (hgraph : ∀ block ∈ graph, block ∈ start.func.order)
    (hsource : source ∈ start.func.order) (htarget : target ∈ graph)
    (hclosed : ∀ block ∈ graph, ∀ next,
      start.func.graph.Forward block next → next ∈ graph)
    (hforward : ∀ block ∈ graph,
      Relation.ReflTransGen start.func.graph.Forward target block)
    (hindex : (start.func.succs source)[index]? = some target)
    (hedge : ¬ start.func.graph.Dominates target source)
    (hentry : (redirect now newGraph map source index target).func.entry =
      start.func.entry) :
    FlowGraph.Replication start.func.graph
      (redirect now newGraph map source index target).func.graph
      start.func.order graph map.block source target index := by
  have hsourceLt := hvalid.blocks.bound source hsource
  constructor
  · exact hentry
  · exact hvalid.blocks.entry_mem
  · exact hvalid.blocks.succs_mem
  · exact hsource
  · exact hgraph
  · intro block hblock hmem
    exact hcopying.old_not_new (hvalid.blocks.bound _ hmem)
      (hcopying.block_mem hblock).2
  · intro block hblock other hother heq
    refine hcopying.clones.clone_inj block other (map.block block) ?_ ?_
    · exact (hcopying.block_mem hblock).1
    · rw [heq]
      exact (hcopying.block_mem hother).1
  · exact htarget
  · exact hclosed
  · exact hforward
  · exact hindex
  · exact hedge
  · intro block hblock hne
    exact hcopying.redirect_succs_old (hvalid.blocks.bound block hblock) hne
  · exact hcopying.redirect_succs_source hsourceLt
  · intro block hblock
    rw [hcopying.cloneTarget_eq]
    exact hcopying.redirect_succs_clone hsourceLt hblock

theorem Copying.redirect_entry
    (hvalid : Valid original start)
    (hcopying : Copying original start graph graph now map newGraph) :
    (redirect now newGraph map source index target).func.entry =
      start.func.entry := by
  unfold Func.entry
  rw [redirect_order, hcopying.order_eq]
  cases horder : start.func.order with
  | nil => exact absurd horder hvalid.blocks.nonempty
  | cons head tail => rfl

theorem Copying.order_cases
    (hcopying : Copying original start graph graph now map newGraph)
    {block : BlockId}
    (hblock : block ∈ (redirect now newGraph map source index target).func.order) :
    block ∈ start.func.order ∨ ∃ old ∈ graph, block = map.block old := by
  rw [redirect_order, hcopying.order_eq] at hblock
  rcases List.mem_append.mp hblock with hblock | hblock
  · exact Or.inl hblock
  · obtain ⟨old, hold, hmap⟩ := hcopying.clones.new_clone block hblock
    refine Or.inr ⟨old, hold, ?_⟩
    rw [(hcopying.block_mem hold).1] at hmap
    exact (Option.some.inj hmap).symm

theorem Copying.mem_redirect_order
    (hcopying : Copying original start graph graph now map newGraph)
    {block : BlockId} (hblock : block ∈ start.func.order ∨ block ∈ newGraph) :
    block ∈ (redirect now newGraph map source index target).func.order := by
  rw [redirect_order, hcopying.order_eq]
  exact List.mem_append.mpr hblock

theorem Copying.redirect_hasBlocks
    (hvalid : Valid original start)
    (hcopying : Copying original start graph graph now map newGraph)
    (hgraph : ∀ block ∈ graph, block ∈ start.func.order)
    (hsource : source ∈ start.func.order) (htarget : target ∈ graph) :
    (redirect now newGraph map source index target).func.HasBlocks := by
  have hsourceLt := hvalid.blocks.bound source hsource
  have hmapped : ∀ block ∈ start.func.order, map.block block ∈
      (redirect now newGraph map source index target).func.order := by
    intro block hblock
    apply hcopying.mem_redirect_order
    by_cases hmem : block ∈ graph
    · exact Or.inr (hcopying.block_mem hmem).2
    · rw [hcopying.block_of_not_mem hmem]
      exact Or.inl hblock
  constructor
  · rw [redirect_order, hcopying.order_eq]
    intro hempty
    exact hvalid.blocks.nonempty (List.append_eq_nil_iff.mp hempty).1
  · rw [redirect_order, hcopying.order_eq, List.nodup_append]
    refine ⟨hvalid.blocks.nodup, hcopying.clones.new_nodup, ?_⟩
    rintro block hblock _ hclone rfl
    exact hcopying.old_not_new (hvalid.blocks.bound block hblock) hclone
  · intro block hblock
    exact hcopying.order_lt hvalid hblock
  · intro block hblock next hnext
    rcases hcopying.order_cases hblock with hold | ⟨old, hold, rfl⟩
    · by_cases hne : block = source
      · subst hne
        rw [hcopying.redirect_succs_source hsourceLt] at hnext
        rcases List.mem_or_eq_of_mem_set hnext with hnext | rfl
        · exact hcopying.mem_redirect_order
            (Or.inl (hvalid.blocks.succs_mem block hold next hnext))
        · exact hmapped target (hgraph target htarget)
      · rw [hcopying.redirect_succs_old (hvalid.blocks.bound block hold) hne]
          at hnext
        exact hcopying.mem_redirect_order
          (Or.inl (hvalid.blocks.succs_mem block hold next hnext))
    · rw [hcopying.redirect_succs_clone hsourceLt hold] at hnext
      obtain ⟨succ, hsucc, rfl⟩ := List.mem_map.mp hnext
      exact hmapped succ
        (hvalid.blocks.succs_mem old (hgraph old hold) succ hsucc)

theorem Copying.redirect_copies
    (hvalid : Valid original start)
    (hcopying : Copying original start graph graph now map newGraph)
    (hsource : source ∈ start.func.order) (htarget : target ∈ graph)
    (hindex : (start.func.succs source)[index]? = some target)
    {block : BlockId} (hblock : block ∈ now.func.order) :
    CopiesBlock now.origins
      ((redirect now newGraph map source index target).func.body block)
      (original.body (now.blockOrigin block)) := by
  have hsourceLt := hvalid.blocks.bound source hsource
  have hcopies := hcopying.copies block hblock
  by_cases hne : block = source
  · subst hne
    rw [redirect_body_source (hcopying.old_not_new hsourceLt)]
    have hclone := hcopying.mapsToCopies.block target (map.block target)
      (hcopying.block_mem htarget).1
    refine hcopies.setSuccessor ?_ hclone.2.1 hclone.2.2
    rw [← hindex, ← hcopying.succs_eq hsourceLt]
    rfl
  · by_cases hnew : block ∈ newGraph
    · rw [redirect_body_new hnew hne]
      exact hcopies.remap hcopying.mapsToCopies
    · rw [redirect_body_old hnew hne]
      exact hcopies

theorem Copying.redirect_entries
    (hvalid : Valid original start)
    (hcopying : Copying original start graph graph now map newGraph)
    (hgraph : ∀ block ∈ graph, block ∈ start.func.order)
    (hsource : source ∈ start.func.order) (hnot : source ∉ graph)
    (htarget : target ∈ graph)
    (hindex : (start.func.succs source)[index]? = some target)
    {block next : BlockId}
    (hblock : block ∈
      (redirect now newGraph map source index target).func.order)
    (hnext : next ∈
      (redirect now newGraph map source index target).func.succs block) :
    HasEntry
      ((redirect now newGraph map source index target).func.body next).instrs
      block := by
  have hsourceLt := hvalid.blocks.bound source hsource
  -- An edge between old blocks was there before and keeps its entries.
  have hold : ∀ old ∈ start.func.order, ∀ succ ∈ start.func.succs old,
      HasEntry
        ((redirect now newGraph map source index target).func.body
          succ).instrs old := by
    intro old hold succ hsucc
    have hlt := hvalid.blocks.bound succ
      (hvalid.blocks.succs_mem old hold succ hsucc)
    rw [redirect_instrs_old (hcopying.old_not_new hlt)]
    exact hcopying.entry_old succ hlt old (hvalid.entries old hold succ hsucc)
  -- The PHI nodes of a clone have the remapped entries of the original.
  have hclone : ∀ succ ∈ graph, ∀ old,
      HasEntry (start.func.body succ).instrs old →
        HasEntry
          ((redirect now newGraph map source index target).func.body
            (map.block succ)).instrs (map.block old) := by
    intro succ hsucc old hentry
    obtain ⟨hsome, hmem⟩ := hcopying.block_mem hsucc
    have hne : map.block succ ≠ source := fun heq =>
      hcopying.old_not_new hsourceLt (heq ▸ hmem)
    rw [redirect_body_new hmem hne]
    apply HasEntry.remap
    unfold HasEntry
    rw [hcopying.phis_clone succ _ hsome]
    exact hentry
  rcases hcopying.order_cases hblock with hmem | ⟨old, hmem, rfl⟩
  · by_cases hne : block = source
    · subst hne
      rw [hcopying.redirect_succs_source hsourceLt] at hnext
      rcases List.mem_or_eq_of_mem_set hnext with hnext | rfl
      · exact hold block hmem next hnext
      · have hentry := hclone target htarget block
          (hvalid.entries block hsource target
            (List.mem_of_getElem? hindex))
        rwa [hcopying.block_of_not_mem hnot] at hentry
    · rw [hcopying.redirect_succs_old (hvalid.blocks.bound block hmem) hne]
        at hnext
      exact hold block hmem next hnext
  · rw [hcopying.redirect_succs_clone hsourceLt hmem] at hnext
    obtain ⟨succ, hsucc, rfl⟩ := List.mem_map.mp hnext
    by_cases hregion : succ ∈ graph
    · exact hclone succ hregion old
        (hvalid.entries old (hgraph old hmem) succ hsucc)
    · rw [hcopying.block_of_not_mem hregion]
      have hlt := hvalid.blocks.bound succ
        (hvalid.blocks.succs_mem old (hgraph old hmem) succ hsucc)
      rw [redirect_instrs_old (hcopying.old_not_new hlt)]
      exact hcopying.entry_clone old _ (hcopying.block_mem hmem).1 succ hsucc
        hregion

theorem Copying.redirect_valid
    (hvalid : Valid original start)
    (hcopying : Copying original start graph graph now map newGraph)
    (hgraph : ∀ block ∈ graph, block ∈ start.func.order)
    (hsource : source ∈ start.func.order) (hnot : source ∉ graph)
    (htarget : target ∈ graph)
    (hindex : (start.func.succs source)[index]? = some target) :
    Valid original (redirect now newGraph map source index target) := by
  constructor
  · exact hcopying.redirect_hasBlocks hvalid hgraph hsource htarget
  · exact (hcopying.redirect_entry hvalid).trans hvalid.entry_eq
  · have hlt : original.entry < start.func.freshBlock := by
      rw [← hvalid.entry_eq]
      exact hvalid.blocks.bound _ hvalid.blocks.entry_mem
    exact (hcopying.extends_.blockOrigin_eq _ hlt).trans hvalid.origin_entry
  · exact hcopying.origin_mem
  · exact fun block hblock =>
      hcopying.redirect_copies hvalid hsource htarget hindex hblock
  · exact fun block hblock next hnext =>
      hcopying.redirect_entries hvalid hgraph hsource hnot htarget hindex hblock
        hnext

end Redirect

/-- One replication step of `replicateJoinedSubgraphs`. -/
theorem replicateSubgraph_spec
    {original : Func} {start : State} (hvalid : Valid original start)
    {rank : BlockId → ℕ} (hranked : start.func.graph.Ranked rank)
    {source target : BlockId} {index fuel : ℕ}
    (hsource : source ∈ start.func.order)
    (hindex : (start.func.succs source)[index]? = some target)
    (hedge : ¬ start.func.graph.Dominates target source)
    (hfuel : rank target < fuel) :
    ∃ now region clone next,
      replicateSubgraph fuel start target = some (now, clone target) ∧
        next = { now with
          func := now.func.setSuccessor source index (clone target) } ∧
        Valid original next ∧ start.origins.Extends next.origins ∧
        (∀ block ∈ start.func.order, block ∈ next.func.order) ∧
        (∀ block ∈ region,
          next.blockOrigin (clone block) = start.blockOrigin block) ∧
        FlowGraph.Replication start.func.graph next.func.graph
          start.func.order region clone source target index := by
  obtain ⟨subgraph, hfind, hnodup, htarget, hforward, hclosed⟩ :=
    findSubgraph_spec hvalid.blocks hranked hfuel
  have htargetOrder : target ∈ start.func.order :=
    hvalid.blocks.succs_mem source hsource target (List.mem_of_getElem? hindex)
  have hgraph : ∀ block ∈ subgraph, block ∈ start.func.order :=
    fun block hblock =>
      hvalid.blocks.forwardStar_mem htargetOrder (hforward block hblock)
  have hnot : source ∉ subgraph := by
    intro hmem
    have hlt : rank target < rank source :=
      hranked source target ⟨List.mem_of_getElem? hindex, hedge⟩
    exact absurd hlt
      (Nat.not_lt_of_le (hranked.le_of_forwardStar (hforward source hmem)))
  obtain ⟨now, map, newGraph, hrun, hcopying⟩ :=
    replicateBasicBlocks_spec hvalid hnodup hgraph
  refine ⟨{ now with func := updateReferences now.func newGraph map },
    subgraph, map.block, redirect now newGraph map source index target,
    ?_, rfl, ?_, ?_, ?_, ?_, ?_⟩
  · unfold replicateSubgraph
    change (findSubgraph start.func fuel [] target).bind _ = _
    rw [hfind, Option.bind_some]
    change (replicateBasicBlocks start subgraph).bind _ = _
    rw [hrun, Option.bind_some]
    change (map.blocks target).bind _ = _
    rw [(hcopying.block_mem htarget).1]
    rfl
  · exact hcopying.redirect_valid hvalid hgraph hsource hnot htarget hindex
  · exact hcopying.extends_
  · exact fun block hblock => hcopying.mem_redirect_order (Or.inl hblock)
  · intro block hblock
    have hlt := hvalid.blocks.bound block (hgraph block hblock)
    exact (hcopying.mapsToCopies.block block (map.block block)
      (hcopying.block_mem hblock).1).2.2.trans
        (hcopying.extends_.blockOrigin_eq block hlt)
  · exact hcopying.replication hvalid hgraph hsource htarget hclosed hforward
      hindex hedge (hcopying.redirect_entry hvalid)

end BarrierTailReplication

end Pocl
