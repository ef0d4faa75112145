import Pocl.FlowGraphs

/-!
# Replicating the tail behind an edge

One replication takes a forward edge `source → target` of a flow graph, clones
every node that is reached from `target` along forward edges, and redirects the
edge to the clone of `target`.  Edges that leave the cloned region are back
edges and keep their target.

Dominance between the old nodes survives, whatever dominates `source` dominates
all clones, and the clones repeat the back edges of the region.  A node whose
forward tail is dominated by some node keeps this property.
-/

namespace Pocl

namespace FlowGraph

variable {V : Type*} [DecidableEq V]

def cloneTarget (region : List V) (clone : V → V) (node : V) : V :=
  if node ∈ region then clone node else node

structure Replication
    (graph graph' : FlowGraph V) (nodes region : List V) (clone : V → V)
    (source target : V) (index : ℕ) : Prop where
  entry_eq : graph'.entry = graph.entry
  entry_mem : graph.entry ∈ nodes
  succs_mem : ∀ u ∈ nodes, ∀ v, graph.Edge u v → v ∈ nodes
  source_mem : source ∈ nodes
  region_mem : ∀ x ∈ region, x ∈ nodes
  clone_new : ∀ x ∈ region, clone x ∉ nodes
  clone_inj : ∀ x ∈ region, ∀ y ∈ region, clone x = clone y → x = y
  target_mem : target ∈ region
  region_closed : ∀ x ∈ region, ∀ y, graph.Forward x y → y ∈ region
  region_forward : ∀ x ∈ region,
    Relation.ReflTransGen graph.Forward target x
  index_eq : (graph.succs source)[index]? = some target
  forward : ¬ graph.Dominates target source
  succs_old : ∀ v ∈ nodes, v ≠ source → graph'.succs v = graph.succs v
  succs_source :
    graph'.succs source = (graph.succs source).set index (clone target)
  succs_clone : ∀ x ∈ region,
    graph'.succs (clone x) = (graph.succs x).map (cloneTarget region clone)

/-- The forward tail of a node is dominated by `dominator`. -/
def DominatesTail (graph : FlowGraph V) (dominator node : V) : Prop :=
  ∀ reached, Relation.ReflTransGen graph.Forward node reached →
    graph.Dominates dominator reached

namespace Replication

variable {graph graph' : FlowGraph V} {nodes region : List V} {clone : V → V}
  {source target : V} {index : ℕ} {a d u v x y : V}

theorem edge (hrep : Replication graph graph' nodes region clone source target
      index) :
    graph.Edge source target :=
  List.mem_of_getElem? hrep.index_eq

theorem edge_forward
    (hrep : Replication graph graph' nodes region clone source target index) :
    graph.Forward source target :=
  ⟨hrep.edge, hrep.forward⟩

theorem edge_old
    (hrep : Replication graph graph' nodes region clone source target index)
    (hu : u ∈ nodes) (hedge : graph'.Edge u v) :
    (graph.Edge u v ∧ v ∈ nodes) ∨ (u = source ∧ v = clone target) := by
  by_cases hsource : u = source
  · subst hsource
    unfold Edge at hedge
    rw [hrep.succs_source] at hedge
    rcases List.mem_or_eq_of_mem_set hedge with hmem | heq
    · exact Or.inl ⟨hmem, hrep.succs_mem u hu v hmem⟩
    · exact Or.inr ⟨rfl, heq⟩
  · unfold Edge at hedge
    rw [hrep.succs_old u hu hsource] at hedge
    exact Or.inl ⟨hedge, hrep.succs_mem u hu v hedge⟩

theorem edge_clone
    (hrep : Replication graph graph' nodes region clone source target index)
    (hx : x ∈ region) (hedge : graph'.Edge (clone x) v) :
    ∃ y, graph.Edge x y ∧
      ((y ∈ region ∧ v = clone y) ∨ (y ∉ region ∧ v = y)) := by
  unfold Edge at hedge
  rw [hrep.succs_clone x hx, List.mem_map] at hedge
  obtain ⟨y, hy, rfl⟩ := hedge
  refine ⟨y, hy, ?_⟩
  unfold cloneTarget
  by_cases hregion : y ∈ region
  · exact Or.inl ⟨hregion, if_pos hregion⟩
  · exact Or.inr ⟨hregion, if_neg hregion⟩

theorem forwardStar_mem
    (hrep : Replication graph graph' nodes region clone source target index)
    (hpath : Relation.ReflTransGen graph.Forward target v) : v ∈ region := by
  induction hpath with
  | refl => exact hrep.target_mem
  | tail _ hforward ih => exact hrep.region_closed _ ih _ hforward

/-- An edge that leaves the region goes back to a node above the whole region
and above the source of the replicated edge. -/
theorem exit_dominates_source
    (hrep : Replication graph graph' nodes region clone source target index)
    (hx : x ∈ region) (hedge : graph.Edge x y) (hy : y ∉ region) :
    graph.Dominates y source := by
  have hback : graph.Dominates y x := by
    by_contra hforward
    exact hy (hrep.region_closed x hx y ⟨hedge, hforward⟩)
  have htarget : graph.Dominates y target := by
    intro havoids
    apply hback
    apply havoids.forwardStar (hrep.region_forward x hx)
    intro node hnode hnodeEq
    exact hy (hnodeEq ▸ hrep.forwardStar_mem hnode)
  apply htarget.pred hrep.edge
  intro hne
  exact hy (hne ▸ hrep.target_mem)

/-- What a path of the new graph that avoids an old node says about the old
graph. -/
theorem avoids_cases
    (hrep : Replication graph graph' nodes region clone source target index)
    (havoids : graph'.Avoids a v) :
    (v ∈ nodes ∧ (a ∈ nodes → graph.Avoids a v)) ∨
      ∃ x ∈ region, v = clone x ∧ (a ∈ nodes → graph.Avoids a source) := by
  induction havoids with
  | entry hentry =>
      rw [hrep.entry_eq] at hentry ⊢
      exact Or.inl ⟨hrep.entry_mem, fun _ => Avoids.entry hentry⟩
  | @step u v _ hedge hne ih =>
      rcases ih with ⟨hu, havoids⟩ | ⟨x, hx, rfl, havoids⟩
      · rcases hrep.edge_old hu hedge with ⟨hold, hv⟩ | ⟨rfl, rfl⟩
        · exact Or.inl ⟨hv, fun ha => Avoids.step (havoids ha) hold hne⟩
        · exact Or.inr ⟨target, hrep.target_mem, rfl, havoids⟩
      · obtain ⟨y, hxy, hy | hy⟩ := hrep.edge_clone hx hedge
        · exact Or.inr ⟨y, hy.1, hy.2, havoids⟩
        · obtain ⟨hyRegion, rfl⟩ := hy
          have hdom := hrep.exit_dominates_source hx hxy hyRegion
          exact Or.inl ⟨hrep.succs_mem x (hrep.region_mem x hx) v hxy,
            fun ha => hdom.avoids (havoids ha)⟩

theorem dominates_old
    (hrep : Replication graph graph' nodes region clone source target index)
    (ha : a ∈ nodes) (hv : v ∈ nodes) (hdom : graph.Dominates a v) :
    graph'.Dominates a v := by
  intro havoids
  rcases hrep.avoids_cases havoids with ⟨_, hold⟩ | ⟨x, hx, rfl, _⟩
  · exact hdom (hold ha)
  · exact hrep.clone_new x hx hv

theorem dominates_clone
    (hrep : Replication graph graph' nodes region clone source target index)
    (ha : a ∈ nodes) (hx : x ∈ region) (hdom : graph.Dominates a source) :
    graph'.Dominates a (clone x) := by
  intro havoids
  rcases hrep.avoids_cases havoids with ⟨hmem, _⟩ | ⟨_, _, _, hold⟩
  · exact hrep.clone_new x hx hmem
  · exact hdom (hold ha)

/-- In a ranked graph the first node of the region avoids all other ones. -/
theorem target_avoids
    (hrep : Replication graph graph' nodes region clone source target index)
    {rank : V → ℕ} (hranked : graph.Ranked rank)
    (hy : y ∈ region) (hne : target ≠ y) :
    graph.Avoids y target := by
  by_contra hdom
  have hreach : graph.Reachable target :=
    hrep.edge_forward.reachable.step hrep.edge
  have hback : Relation.ReflTransGen graph.Forward y target :=
    Dominates.forward hdom hreach
  have hlt : rank target < rank target := by
    rcases Relation.ReflTransGen.cases_head hback with heq | ⟨z, hyz, hz⟩
    · exact absurd heq.symm hne
    · calc
        rank target ≤ rank z := hranked.le_of_forwardStar hz
        _ < rank y := hranked y z hyz
        _ ≤ rank target := hranked.le_of_forwardStar (hrep.region_forward y hy)
  exact lt_irrefl _ hlt

theorem dominates_clones
    (hrep : Replication graph graph' nodes region clone source target index)
    {rank : V → ℕ} (hranked : graph.Ranked rank)
    (hx : x ∈ region) (hy : y ∈ region) (hdom : graph.Dominates y x) :
    graph'.Dominates (clone y) (clone x) := by
  have hcases : ∀ w, graph'.Avoids (clone y) w →
      w ∈ nodes ∨ ∃ x ∈ region, w = clone x ∧ graph.Avoids y x := by
    intro w havoids
    induction havoids with
    | entry _ =>
        rw [hrep.entry_eq]
        exact Or.inl hrep.entry_mem
    | @step u v _ hedge hne ih =>
        rcases ih with hu | ⟨x, hx, rfl, havoids⟩
        · rcases hrep.edge_old hu hedge with ⟨_, hv⟩ | ⟨rfl, rfl⟩
          · exact Or.inl hv
          · refine Or.inr ⟨target, hrep.target_mem, rfl, ?_⟩
            exact hrep.target_avoids hranked hy (fun heq => hne (by rw [heq]))
        · obtain ⟨z, hxz, ⟨hz, rfl⟩ | ⟨_, rfl⟩⟩ := hrep.edge_clone hx hedge
          · refine Or.inr ⟨z, hz, rfl, Avoids.step havoids hxz ?_⟩
            exact fun heq => hne (by rw [heq])
          · exact Or.inl (hrep.succs_mem x (hrep.region_mem x hx) v hxz)
  intro havoids
  rcases hcases _ havoids with hmem | ⟨z, hz, heq, hold⟩
  · exact hrep.clone_new x hx hmem
  · rw [← hrep.clone_inj x hx z hz heq] at hold
    exact hdom hold

/-- The forward edges of the new graph. -/
theorem forward_cases
    (hrep : Replication graph graph' nodes region clone source target index)
    {rank : V → ℕ} (hranked : graph.Ranked rank)
    (hforward : graph'.Forward u v) :
    (u ∈ nodes ∧ v ∈ nodes ∧ graph.Forward u v) ∨
      (u = source ∧ v = clone target) ∨
      ∃ x ∈ region, ∃ y ∈ region,
        u = clone x ∧ v = clone y ∧ graph.Forward x y := by
  rcases hrep.avoids_cases hforward.avoids with ⟨hu, _⟩ | ⟨x, hx, rfl, _⟩
  · rcases hrep.edge_old hu hforward.edge with ⟨hedge, hv⟩ | hclone
    · refine Or.inl ⟨hu, hv, hedge, ?_⟩
      exact fun hdom => hforward.2 (hrep.dominates_old hv hu hdom)
    · exact Or.inr (Or.inl hclone)
  · obtain ⟨y, hedge, ⟨hy, rfl⟩ | ⟨hy, rfl⟩⟩ := hrep.edge_clone hx hforward.edge
    · refine Or.inr (Or.inr ⟨x, hx, y, hy, rfl, rfl, hedge, ?_⟩)
      exact fun hdom => hforward.2 (hrep.dominates_clones hranked hx hy hdom)
    · exfalso
      apply hforward.2
      exact hrep.dominates_clone
        (hrep.succs_mem x (hrep.region_mem x hx) v hedge) hx
        (hrep.exit_dominates_source hx hedge hy)

theorem ranked
    (hrep : Replication graph graph' nodes region clone source target index)
    {rank rank' : V → ℕ} (hranked : graph.Ranked rank)
    (hold : ∀ v ∈ nodes, rank' v = rank v)
    (hclone : ∀ x ∈ region, rank' (clone x) = rank x) :
    graph'.Ranked rank' := by
  intro u v hforward
  rcases hrep.forward_cases hranked hforward with
    ⟨hu, hv, hlt⟩ | ⟨rfl, rfl⟩ | ⟨x, hx, y, hy, rfl, rfl, hlt⟩
  · rw [hold u hu, hold v hv]
    exact hranked u v hlt
  · rw [hold u hrep.source_mem, hclone target hrep.target_mem]
    exact hranked u target hrep.edge_forward
  · rw [hclone x hx, hclone y hy]
    exact hranked x y hlt

theorem forwardStar_clone
    (hrep : Replication graph graph' nodes region clone source target index)
    {rank : V → ℕ} (hranked : graph.Ranked rank) (hx : x ∈ region)
    (hpath : Relation.ReflTransGen graph'.Forward (clone x) v) :
    ∃ y ∈ region, v = clone y := by
  induction hpath with
  | refl => exact ⟨x, hx, rfl⟩
  | tail _ hforward ih =>
      obtain ⟨y, hy, rfl⟩ := ih
      rcases hrep.forward_cases hranked hforward with
        ⟨hu, _, _⟩ | ⟨heq, _⟩ | ⟨_, _, z, hz, _, rfl, _⟩
      · exact absurd hu (hrep.clone_new y hy)
      · exact absurd (heq ▸ hrep.source_mem) (hrep.clone_new y hy)
      · exact ⟨z, hz, rfl⟩

theorem dominatesTail_clone
    (hrep : Replication graph graph' nodes region clone source target index)
    {rank : V → ℕ} (hranked : graph.Ranked rank)
    (hd : d ∈ nodes) (hdom : graph.Dominates d source) :
    graph'.DominatesTail d (clone target) := by
  intro reached hpath
  obtain ⟨y, hy, rfl⟩ := hrep.forwardStar_clone hranked hrep.target_mem hpath
  exact hrep.dominates_clone hd hy hdom

theorem dominatesTail
    (hrep : Replication graph graph' nodes region clone source target index)
    {rank : V → ℕ} (hranked : graph.Ranked rank)
    (hd : d ∈ nodes) (hv : v ∈ nodes) (htail : graph.DominatesTail d v) :
    graph'.DominatesTail d v := by
  have hcases : ∀ reached, Relation.ReflTransGen graph'.Forward v reached →
      (reached ∈ nodes ∧ Relation.ReflTransGen graph.Forward v reached) ∨
        ((∃ x ∈ region, reached = clone x) ∧ graph.Dominates d source) := by
    intro reached hpath
    induction hpath with
    | refl => exact Or.inl ⟨hv, Relation.ReflTransGen.refl⟩
    | tail _ hforward ih =>
        rcases hrep.forward_cases hranked hforward with
          ⟨hu, hw, hold⟩ | ⟨rfl, rfl⟩ | ⟨x, hx, y, hy, rfl, rfl, _⟩
        · rcases ih with ⟨_, hpath⟩ | ⟨⟨x, hx, rfl⟩, _⟩
          · exact Or.inl ⟨hw, hpath.tail hold⟩
          · exact absurd hu (hrep.clone_new x hx)
        · rcases ih with ⟨_, hpath⟩ | ⟨⟨x, hx, heq⟩, _⟩
          · exact Or.inr ⟨⟨target, hrep.target_mem, rfl⟩, htail _ hpath⟩
          · exact absurd (heq ▸ hrep.source_mem) (hrep.clone_new x hx)
        · rcases ih with ⟨hmem, _⟩ | ⟨_, hdom⟩
          · exact absurd hmem (hrep.clone_new x hx)
          · exact Or.inr ⟨⟨y, hy, rfl⟩, hdom⟩
  intro reached hpath
  rcases hcases reached hpath with ⟨hmem, hold⟩ | ⟨⟨x, hx, rfl⟩, hdom⟩
  · exact hrep.dominates_old hd hmem (htail reached hold)
  · exact hrep.dominates_clone hd hx hdom

end Replication

end FlowGraph

end Pocl
