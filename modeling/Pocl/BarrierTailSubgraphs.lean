import Pocl.BarrierTailReplication

/-!
# The subgraphs that are cloned

`findSubgraph` lists the forward closure of its entry block.  In a function
whose forward edges lower a rank, fuel above the rank of the entry suffices.
-/

namespace Pocl

namespace BarrierTailReplication

variable {func : Func} {rank : BlockId → ℕ}

/-- The search from `root` has grown `before` to `after`. -/
structure Explores
    (func : Func) (root : BlockId) (before after : List BlockId) : Prop where
  nodup : after.Nodup
  kept : ∀ block ∈ before, block ∈ after
  reached : ∀ block ∈ after, block ∈ before ∨
    Relation.ReflTransGen func.graph.Forward root block
  closed : ∀ block ∈ after, block ∈ before ∨
    ∀ target, func.graph.Forward block target → target ∈ after

theorem Explores.refl
    {root : BlockId} {before : List BlockId} (hnodup : before.Nodup) :
    Explores func root before before :=
  ⟨hnodup, fun _ h => h, fun _ h => Or.inl h, fun _ h => Or.inl h⟩

/-- Go on with the search from a forward successor of the root. -/
theorem Explores.step
    {root successor : BlockId} {before middle after : List BlockId}
    (hfirst : Explores func root before middle)
    (hforward : func.graph.Forward root successor)
    (hnext : Explores func successor middle after) :
    Explores func root before after := by
  constructor
  · exact hnext.nodup
  · intro block hblock
    exact hnext.kept block (hfirst.kept block hblock)
  · intro block hblock
    rcases hnext.reached block hblock with hmiddle | hpath
    · exact hfirst.reached block hmiddle
    · exact Or.inr (Relation.ReflTransGen.head hforward hpath)
  · intro block hblock
    rcases hnext.closed block hblock with hmiddle | hclosed
    · rcases hfirst.closed block hmiddle with hbefore | hclosed
      · exact Or.inl hbefore
      · exact Or.inr fun target htarget =>
          hnext.kept target (hclosed target htarget)
    · exact Or.inr hclosed

/-- The loop over the successors of a block that has just been added. -/
theorem findSubgraph_loop
    (hblocks : func.HasBlocks) (hranked : func.graph.Ranked rank)
    {fuel : ℕ} {root : BlockId} (hfuel : rank root ≤ fuel)
    (hrecurse : ∀ subgraph successor, rank successor < fuel →
      subgraph.Nodup → ∃ after,
        findSubgraph func fuel subgraph successor = some after ∧
          Explores func successor subgraph after ∧ successor ∈ after)
    (successors : List BlockId)
    (hsucc : ∀ successor ∈ successors, successor ∈ func.succs root)
    {before middle : List BlockId} (hstart : Explores func root before middle) :
    ∃ after,
      successors.foldlM
          (fun subgraph successor =>
            if func.dominates successor root then
              some subgraph
            else
              findSubgraph func fuel subgraph successor)
          middle = some after ∧
        Explores func root before after ∧
        (∀ block ∈ middle, block ∈ after) ∧
        ∀ successor ∈ successors, func.graph.Forward root successor →
          successor ∈ after := by
  induction successors generalizing middle with
  | nil =>
      exact ⟨middle, rfl, hstart, fun _ h => h, by simp⟩
  | cons successor rest ih =>
      have hrest : ∀ block ∈ rest, block ∈ func.succs root := fun block hmem =>
        hsucc block (List.mem_cons_of_mem _ hmem)
      rw [List.foldlM_cons]
      by_cases hdom : func.dominates successor root = true
      · obtain ⟨after, hrun, hafter, hkept, hdone⟩ := ih hrest hstart
        refine ⟨after, ?_, hafter, hkept, ?_⟩
        · rw [if_pos hdom]
          exact hrun
        · intro block hmem hforward
          rcases List.mem_cons.mp hmem with rfl | hmem
          · exact absurd (hblocks.dominates_iff.mp hdom) hforward.2
          · exact hdone block hmem hforward
      · have hforward : func.graph.Forward root successor :=
          ⟨hsucc successor List.mem_cons_self, fun h =>
            hdom (hblocks.dominates_iff.mpr h)⟩
        have hlt : rank successor < fuel :=
          lt_of_lt_of_le (hranked _ _ hforward) hfuel
        obtain ⟨next, hcall, hnext, hmem⟩ :=
          hrecurse middle successor hlt hstart.nodup
        obtain ⟨after, hrun, hafter, hkept, hdone⟩ :=
          ih hrest (hstart.step hforward hnext)
        refine ⟨after, ?_, hafter, ?_, ?_⟩
        · rw [if_neg hdom, hcall]
          exact hrun
        · exact fun block hblock => hkept block (hnext.kept block hblock)
        · intro block hblock hforward
          rcases List.mem_cons.mp hblock with rfl | hblock
          · exact hkept block hmem
          · exact hdone block hblock hforward

theorem findSubgraph_explores
    (hblocks : func.HasBlocks) (hranked : func.graph.Ranked rank) :
    ∀ fuel subgraph root, rank root < fuel → subgraph.Nodup → ∃ after,
      findSubgraph func fuel subgraph root = some after ∧
        Explores func root subgraph after ∧ root ∈ after := by
  intro fuel
  induction fuel with
  | zero =>
      intro subgraph root hfuel
      exact absurd hfuel (Nat.not_lt_zero _)
  | succ fuel ih =>
      intro subgraph root hfuel hnodup
      rw [findSubgraph]
      by_cases hmem : root ∈ subgraph
      · exact ⟨subgraph, if_pos hmem, Explores.refl hnodup, hmem⟩
      · rw [if_neg hmem]
        have hadded : (subgraph ++ [root]).Nodup := by
          rw [List.nodup_append]
          refine ⟨hnodup, List.nodup_singleton root, ?_⟩
          intro block hblock other hother
          rw [List.mem_singleton] at hother
          exact fun heq => hmem (hother ▸ heq ▸ hblock)
        obtain ⟨after, hrun, hafter, hkept, hdone⟩ :=
          findSubgraph_loop hblocks hranked (Nat.le_of_lt_succ hfuel) ih
            (func.succs root) (fun _ h => h)
            (Explores.refl hadded)
        refine ⟨after, hrun, ?_, hkept root (by simp)⟩
        constructor
        · exact hafter.nodup
        · exact fun block hblock =>
            hkept block (List.mem_append_left _ hblock)
        · intro block hblock
          rcases hafter.reached block hblock with hbefore | hpath
          · rcases List.mem_append.mp hbefore with hbefore | heq
            · exact Or.inl hbefore
            · rw [List.mem_singleton.mp heq]
              exact Or.inr Relation.ReflTransGen.refl
          · exact Or.inr hpath
        · intro block hblock
          rcases hafter.closed block hblock with hbefore | hclosed
          · rcases List.mem_append.mp hbefore with hbefore | heq
            · exact Or.inl hbefore
            · rw [List.mem_singleton.mp heq]
              exact Or.inr fun target hforward =>
                hdone target hforward.edge hforward
          · exact Or.inr hclosed

/-- A search from scratch finds exactly the forward closure of its root. -/
theorem findSubgraph_spec
    (hblocks : func.HasBlocks) (hranked : func.graph.Ranked rank)
    {fuel : ℕ} {root : BlockId} (hfuel : rank root < fuel) :
    ∃ subgraph, findSubgraph func fuel [] root = some subgraph ∧
      subgraph.Nodup ∧ root ∈ subgraph ∧
      (∀ block ∈ subgraph,
        Relation.ReflTransGen func.graph.Forward root block) ∧
      ∀ block ∈ subgraph, ∀ target,
        func.graph.Forward block target → target ∈ subgraph := by
  obtain ⟨subgraph, hrun, hexplores, hmem⟩ :=
    findSubgraph_explores hblocks hranked fuel [] root hfuel List.nodup_nil
  refine ⟨subgraph, hrun, hexplores.nodup, hmem, ?_, ?_⟩
  · intro block hblock
    exact (hexplores.reached block hblock).resolve_left List.not_mem_nil
  · intro block hblock
    exact (hexplores.closed block hblock).resolve_left List.not_mem_nil

end BarrierTailReplication

end Pocl
