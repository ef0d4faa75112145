import Mathlib.Data.Finset.Card
import Mathlib.Logic.Relation
import Mathlib.Tactic

/-!
# Flow graphs and dominance

A flow graph is an entry node with an ordered list of successors for every
node.  A node dominates another one when every path from the entry to the
second node visits the first, so every node dominates an unreachable one.  An
edge whose target dominates its source is a back edge, all others are forward
edges.  The graph is reducible when the forward edges have no cycle.

`dominatesWithin` decides dominance by growing the set of nodes that are
reached without visiting the candidate.  On a graph with at most as many
reachable nodes as it makes rounds, it decides dominance exactly.
-/

namespace Pocl

structure FlowGraph (V : Type*) where
  entry : V
  succs : V → List V

namespace FlowGraph

variable {V : Type*} (graph : FlowGraph V)

def Edge (source target : V) : Prop :=
  target ∈ graph.succs source

def Reachable (node : V) : Prop :=
  Relation.ReflTransGen graph.Edge graph.entry node

/-- There is a path from the entry to the node that never visits `avoided`. -/
inductive Avoids (avoided : V) : V → Prop
  | entry : graph.entry ≠ avoided → Avoids avoided graph.entry
  | step {source target : V} :
      Avoids avoided source → graph.Edge source target → target ≠ avoided →
        Avoids avoided target

def Dominates (dominator node : V) : Prop :=
  ¬ graph.Avoids dominator node

def Forward (source target : V) : Prop :=
  graph.Edge source target ∧ ¬ graph.Dominates target source

/-- Every cycle goes through a back edge. -/
def Reducible : Prop :=
  ∀ node, ¬ Relation.TransGen graph.Forward node node

variable {graph} {a b d u v w : V}

theorem Avoids.ne (havoids : graph.Avoids a v) : v ≠ a := by
  cases havoids with
  | entry hentry => exact hentry
  | step _ _ hne => exact hne

theorem Avoids.reachable (havoids : graph.Avoids a v) : graph.Reachable v := by
  induction havoids with
  | entry _ => exact Relation.ReflTransGen.refl
  | step _ hedge _ ih => exact ih.tail hedge

theorem Reachable.step (hreach : graph.Reachable u) (hedge : graph.Edge u v) :
    graph.Reachable v :=
  Relation.ReflTransGen.tail hreach hedge

/-- A path around `a` either stays away from `b` too or visits `b`. -/
theorem Avoids.avoids_or (havoids : graph.Avoids a v) (b : V) :
    graph.Avoids b v ∨ graph.Avoids a b := by
  induction havoids with
  | entry hentry =>
      by_cases hb : graph.entry = b
      · exact Or.inr (hb ▸ Avoids.entry hentry)
      · exact Or.inl (Avoids.entry hb)
  | @step source target hsource hedge hne ih =>
      rcases ih with hb | hb
      · by_cases htarget : target = b
        · exact Or.inr (htarget ▸ Avoids.step hsource hedge hne)
        · exact Or.inl (Avoids.step hb hedge htarget)
      · exact Or.inr hb

theorem Reachable.avoids_or (hreach : graph.Reachable v) (b : V) :
    graph.Avoids b v ∨ graph.Reachable b := by
  induction hreach with
  | refl =>
      by_cases hb : graph.entry = b
      · exact Or.inr (hb ▸ Relation.ReflTransGen.refl)
      · exact Or.inl (Avoids.entry hb)
  | @tail source target hsource hedge ih =>
      rcases ih with hb | hb
      · by_cases htarget : target = b
        · exact Or.inr (htarget ▸ hsource.tail hedge)
        · exact Or.inl (Avoids.step hb hedge htarget)
      · exact Or.inr hb

theorem Dominates.refl (graph : FlowGraph V) (v : V) : graph.Dominates v v :=
  fun havoids => havoids.ne rfl

theorem Dominates.trans
    (hab : graph.Dominates a b) (hbv : graph.Dominates b v) :
    graph.Dominates a v := by
  intro havoids
  rcases havoids.avoids_or b with hb | hb
  · exact hbv hb
  · exact hab hb

theorem Dominates.avoids
    (hdom : graph.Dominates d v) (havoids : graph.Avoids a v) :
    graph.Avoids a d :=
  (havoids.avoids_or d).resolve_left hdom

theorem Dominates.pred
    (hdom : graph.Dominates d v) (hedge : graph.Edge u v) (hne : v ≠ d) :
    graph.Dominates d u :=
  fun havoids => hdom (Avoids.step havoids hedge hne)

theorem Dominates.reachable
    (hdom : graph.Dominates d v) (hreach : graph.Reachable v) :
    graph.Reachable d :=
  (hreach.avoids_or d).resolve_left hdom

theorem dominates_of_not_reachable (hreach : ¬ graph.Reachable v) (a : V) :
    graph.Dominates a v :=
  fun havoids => hreach havoids.reachable

/-- A path to a reachable node visits one of two nodes first, or none of them. -/
theorem Reachable.avoids_first
    (hreach : graph.Reachable v) (hne : a ≠ b) :
    (graph.Avoids a v ∧ graph.Avoids b v) ∨ graph.Avoids b a ∨ graph.Avoids a b := by
  induction hreach with
  | refl =>
      by_cases ha : graph.entry = a
      · exact Or.inr (Or.inl (ha ▸ Avoids.entry (ha ▸ hne)))
      · by_cases hb : graph.entry = b
        · exact Or.inr (Or.inr (hb ▸ Avoids.entry (hb ▸ hne.symm)))
        · exact Or.inl ⟨Avoids.entry ha, Avoids.entry hb⟩
  | @tail source target _ hedge ih =>
      rcases ih with ⟨hsource, hsource'⟩ | hvisited
      · by_cases ha : target = a
        · exact Or.inr (Or.inl (ha ▸ Avoids.step hsource' hedge (ha ▸ hne)))
        · by_cases hb : target = b
          · exact Or.inr (Or.inr (hb ▸ Avoids.step hsource hedge (hb ▸ hne.symm)))
          · exact Or.inl ⟨Avoids.step hsource hedge ha, Avoids.step hsource' hedge hb⟩
      · exact Or.inr hvisited

theorem Dominates.antisymm
    (hab : graph.Dominates a b) (hba : graph.Dominates b a)
    (hreach : graph.Reachable a) : a = b := by
  by_contra hne
  rcases hreach.avoids_first hne with ⟨havoids, _⟩ | havoids | havoids
  · exact havoids.ne rfl
  · exact hba havoids
  · exact hab havoids

/-- Of two dominators of a reachable node one dominates the other. -/
theorem Reachable.dominators_comparable
    (hreach : graph.Reachable v) (ha : graph.Dominates a v)
    (hb : graph.Dominates b v) :
    graph.Dominates a b ∨ graph.Dominates b a := by
  by_contra hneither
  rw [not_or] at hneither
  have hab : graph.Avoids a b := Classical.not_not.mp hneither.1
  have hba : graph.Avoids b a := Classical.not_not.mp hneither.2
  have hpath : graph.Avoids a v ∨ graph.Avoids b v := by
    clear ha hb
    induction hreach with
    | refl =>
        by_cases hentry : graph.entry = a
        · exact Or.inr (hentry ▸ hba)
        · exact Or.inl (Avoids.entry hentry)
    | @tail source target _ hedge ih =>
        rcases ih with ih | ih
        · by_cases htarget : target = a
          · exact Or.inr (htarget ▸ hba)
          · exact Or.inl (Avoids.step ih hedge htarget)
        · by_cases htarget : target = b
          · exact Or.inl (htarget ▸ hab)
          · exact Or.inr (Avoids.step ih hedge htarget)
  rcases hpath with hpath | hpath
  · exact ha hpath
  · exact hb hpath

theorem Forward.edge (hforward : graph.Forward u v) : graph.Edge u v :=
  hforward.1

theorem Forward.avoids (hforward : graph.Forward u v) : graph.Avoids v u :=
  Classical.not_not.mp hforward.2

theorem Forward.reachable (hforward : graph.Forward u v) : graph.Reachable u :=
  hforward.avoids.reachable

theorem Reachable.forwardStar
    (hreach : graph.Reachable u)
    (hpath : Relation.ReflTransGen graph.Forward u v) :
    graph.Reachable v := by
  induction hpath with
  | refl => exact hreach
  | tail _ hforward ih => exact ih.step hforward.edge

section EnteredSets

/-- There is a path from the entry to the node that visits no node of the set. -/
inductive AvoidsAll (graph : FlowGraph V) (nodes : Set V) : V → Prop
  | entry : graph.entry ∉ nodes → AvoidsAll graph nodes graph.entry
  | step {source target : V} :
      AvoidsAll graph nodes source → graph.Edge source target → target ∉ nodes →
        AvoidsAll graph nodes target

/-- A set of nodes that paths enter at one node only. -/
structure EnteredAt (graph : FlowGraph V) (nodes : Set V) (first : V) : Prop where
  entry_notMem : graph.entry ∉ nodes
  closed : ∀ target ∈ nodes, target ≠ first → ∀ source, graph.Edge source target →
    source ∈ nodes

variable {nodes : Set V}

theorem AvoidsAll.notMem (havoids : graph.AvoidsAll nodes v) : v ∉ nodes := by
  cases havoids with
  | entry hentry => exact hentry
  | step _ _ hnot => exact hnot

theorem AvoidsAll.avoids (havoids : graph.AvoidsAll nodes v) (ha : a ∈ nodes) :
    graph.Avoids a v := by
  induction havoids with
  | entry hentry => exact .entry fun heq => hentry (heq ▸ ha)
  | step _ hedge hnot ih => exact .step ih hedge fun heq => hnot (heq ▸ ha)

theorem EnteredAt.avoidsAll
    (hentered : graph.EnteredAt nodes a) (havoids : graph.Avoids a v) :
    graph.AvoidsAll nodes v := by
  induction havoids with
  | entry _ => exact .entry hentered.entry_notMem
  | step _ hedge hne ih =>
      exact .step ih hedge fun hmem => ih.notMem (hentered.closed _ hmem hne _ hedge)

theorem EnteredAt.dominates (hentered : graph.EnteredAt nodes a) (hv : v ∈ nodes) :
    graph.Dominates a v :=
  fun havoids => (hentered.avoidsAll havoids).notMem hv

end EnteredSets

section ForwardPaths

/-- The nodes reached by a path of a given length. -/
inductive ReachableIn (graph : FlowGraph V) : ℕ → V → Prop
  | entry : ReachableIn graph 0 graph.entry
  | step {length : ℕ} {source target : V} :
      ReachableIn graph length source → graph.Edge source target →
        ReachableIn graph (length + 1) target

theorem Reachable.exists_length (hreach : graph.Reachable v) :
    ∃ length, graph.ReachableIn length v := by
  induction hreach with
  | refl => exact ⟨0, ReachableIn.entry⟩
  | tail _ hedge ih =>
      obtain ⟨length, hlength⟩ := ih
      exact ⟨length + 1, hlength.step hedge⟩

/-- A dominator is reached no later than the node itself. -/
theorem ReachableIn.dominator
    {length : ℕ} (hreach : graph.ReachableIn length v) :
    ∀ d, graph.Avoids d v ∨ ∃ shorter ≤ length, graph.ReachableIn shorter d := by
  induction hreach with
  | entry =>
      intro d
      by_cases hd : graph.entry = d
      · exact Or.inr ⟨0, le_refl 0, hd ▸ ReachableIn.entry⟩
      · exact Or.inl (Avoids.entry hd)
  | @step length source target hsource hedge ih =>
      intro d
      rcases ih d with havoids | ⟨shorter, hle, hshorter⟩
      · by_cases hd : target = d
        · exact Or.inr ⟨length + 1, le_refl _, hd ▸ hsource.step hedge⟩
        · exact Or.inl (Avoids.step havoids hedge hd)
      · exact Or.inr ⟨shorter, Nat.le_succ_of_le hle, hshorter⟩

theorem ReachableIn.forward :
    ∀ {length : ℕ} {v : V}, graph.ReachableIn length v →
      Relation.ReflTransGen graph.Forward graph.entry v := by
  intro length
  induction length using Nat.strong_induction_on with
  | _ length ih =>
      intro v hreach
      cases hreach with
      | entry => exact Relation.ReflTransGen.refl
      | @step length source _ hsource hedge =>
          rcases hsource.dominator v with havoids | ⟨shorter, hle, hshorter⟩
          · have hforward : graph.Forward source v :=
              ⟨hedge, fun hdom => hdom havoids⟩
            exact (ih length (Nat.lt_succ_self _) hsource).tail hforward
          · exact ih shorter (Nat.lt_succ_of_le hle) hshorter

theorem Reachable.forward (hreach : graph.Reachable v) :
    Relation.ReflTransGen graph.Forward graph.entry v := by
  obtain ⟨length, hlength⟩ := hreach.exists_length
  exact hlength.forward

theorem Dominates.forward
    (hdom : graph.Dominates d v) (hreach : graph.Reachable v) :
    Relation.ReflTransGen graph.Forward d v := by
  have hpath : graph.Avoids d v ∨ Relation.ReflTransGen graph.Forward d v := by
    clear hdom
    induction hreach.forward with
    | refl =>
        by_cases hd : graph.entry = d
        · exact Or.inr (hd ▸ Relation.ReflTransGen.refl)
        · exact Or.inl (Avoids.entry hd)
    | @tail source target hsource hforward ih =>
        rcases ih hforward.reachable with havoids | hpath
        · by_cases hd : target = d
          · exact Or.inr (hd ▸ Relation.ReflTransGen.refl)
          · exact Or.inl (Avoids.step havoids hforward.edge hd)
        · exact Or.inr (hpath.tail hforward)
  exact hpath.resolve_left hdom

/-- A node that a forward path from `b` avoids is avoided at the end of the
path whenever it is avoided at `b`. -/
theorem Avoids.forwardStar
    (havoids : graph.Avoids a b)
    (hpath : Relation.ReflTransGen graph.Forward b v)
    (hmiss : ∀ node, Relation.ReflTransGen graph.Forward b node → node ≠ a) :
    graph.Avoids a v := by
  induction hpath with
  | refl => exact havoids
  | tail hsource hforward ih =>
      exact Avoids.step ih hforward.edge
        (hmiss _ (hsource.tail hforward))

end ForwardPaths

section Coverings

/-- The node sequences of the paths from the entry. -/
def IsRun (graph : FlowGraph V) (nodes : List V) : Prop :=
  nodes.head? = some graph.entry ∧ nodes.IsChain graph.Edge

/-- A map under which corresponding nodes have corresponding successors, in the
same order. -/
structure Covers
    (graph' graph : FlowGraph V) (members : V → Prop) (origin : V → V) :
    Prop where
  entry_mem : members graph'.entry
  entry_eq : origin graph'.entry = graph.entry
  closed : ∀ u, members u → ∀ v, graph'.Edge u v → members v
  succs_eq : ∀ u, members u →
    (graph'.succs u).map origin = graph.succs (origin u)

variable {graph' : FlowGraph V} {members : V → Prop} {origin : V → V}

theorem Covers.edge
    (hcovers : Covers graph' graph members origin) (hu : members u)
    (hedge : graph'.Edge u v) : graph.Edge (origin u) (origin v) := by
  unfold Edge
  rw [← hcovers.succs_eq u hu]
  exact List.mem_map_of_mem hedge

theorem Covers.lift
    (hcovers : Covers graph' graph members origin) (hu : members u)
    (hedge : graph.Edge (origin u) w) :
    ∃ v, graph'.Edge u v ∧ origin v = w := by
  unfold Edge at hedge
  rw [← hcovers.succs_eq u hu] at hedge
  exact List.mem_map.mp hedge

theorem Covers.isChain_map
    (hcovers : Covers graph' graph members origin) :
    ∀ (nodes : List V), (∀ first ∈ nodes.head?, members first) →
      nodes.IsChain graph'.Edge → (nodes.map origin).IsChain graph.Edge
  | [], _, _ => List.isChain_nil
  | [_], _, _ => List.isChain_singleton _
  | first :: second :: rest, hmem, hchain => by
      rw [List.isChain_cons_cons] at hchain
      have hfirst : members first := hmem first rfl
      have hsecond : members second :=
        hcovers.closed first hfirst second hchain.1
      have htail := hcovers.isChain_map (second :: rest)
        (fun node hnode => Option.some.inj hnode ▸ hsecond) hchain.2
      rw [List.map_cons] at htail ⊢
      exact htail.cons_cons (hcovers.edge hfirst hchain.1)

theorem Covers.isChain_lift
    (hcovers : Covers graph' graph members origin) :
    ∀ (nodes : List V) (u : V), members u →
      (origin u :: nodes).IsChain graph.Edge →
        ∃ lifted, (u :: lifted).IsChain graph'.Edge ∧ lifted.map origin = nodes
  | [], u, _, _ => ⟨[], List.isChain_singleton u, rfl⟩
  | next :: rest, u, hu, hchain => by
      rw [List.isChain_cons_cons] at hchain
      obtain ⟨v, hedge, rfl⟩ := hcovers.lift hu hchain.1
      obtain ⟨lifted, hlifted, hmap⟩ := hcovers.isChain_lift rest v
        (hcovers.closed u hu v hedge) hchain.2
      exact ⟨v :: lifted, hlifted.cons_cons hedge, by rw [List.map_cons, hmap]⟩

/-- The runs of the covered graph are the images of the runs above it. -/
theorem Covers.isRun_iff
    (hcovers : Covers graph' graph members origin) (nodes : List V) :
    graph.IsRun nodes ↔ ∃ run, graph'.IsRun run ∧ run.map origin = nodes := by
  constructor
  · rintro ⟨hhead, hchain⟩
    cases nodes with
    | nil => cases hhead
    | cons first rest =>
        obtain rfl : first = graph.entry := Option.some.inj hhead
        rw [← hcovers.entry_eq] at hchain ⊢
        obtain ⟨lifted, hlifted, rfl⟩ :=
          hcovers.isChain_lift rest graph'.entry hcovers.entry_mem hchain
        exact ⟨graph'.entry :: lifted, ⟨rfl, hlifted⟩, rfl⟩
  · rintro ⟨run, ⟨hhead, hchain⟩, rfl⟩
    refine ⟨?_, hcovers.isChain_map run ?_ hchain⟩
    · rw [List.head?_map, hhead, Option.map_some, hcovers.entry_eq]
    · intro first hfirst
      rw [hhead] at hfirst
      exact Option.some.inj hfirst ▸ hcovers.entry_mem

end Coverings

section Ranks

/-- A rank that every forward edge lowers. -/
def Ranked (graph : FlowGraph V) (rank : V → ℕ) : Prop :=
  ∀ source target, graph.Forward source target → rank target < rank source

theorem Ranked.le_of_forwardStar
    {rank : V → ℕ} (hranked : graph.Ranked rank)
    (hpath : Relation.ReflTransGen graph.Forward u v) :
    rank v ≤ rank u := by
  induction hpath with
  | refl => exact le_refl _
  | tail _ hforward ih => exact (hranked _ _ hforward).le.trans ih

theorem Ranked.reducible {rank : V → ℕ} (hranked : graph.Ranked rank) :
    graph.Reducible := by
  have hlt : ∀ u v, Relation.TransGen graph.Forward u v → rank v < rank u := by
    intro u v hpath
    induction hpath with
    | single hforward => exact hranked u _ hforward
    | tail _ hforward ih => exact (hranked _ _ hforward).trans ih
  exact fun node hcycle => lt_irrefl _ (hlt node node hcycle)

/-- The number of nodes ahead of a node, along forward edges. -/
noncomputable def forwardRank
    (graph : FlowGraph V) (nodes : Finset V) (node : V) : ℕ := by
  classical
  exact (nodes.filter fun target =>
    Relation.TransGen graph.Forward node target).card

theorem Reducible.ranked
    (hreducible : graph.Reducible) {nodes : Finset V}
    (hclosed : ∀ source target, graph.Forward source target →
      target ∈ nodes) :
    graph.Ranked (graph.forwardRank nodes) := by
  classical
  intro source target hforward
  unfold forwardRank
  apply Finset.card_lt_card
  rw [Finset.ssubset_iff_of_subset]
  · refine ⟨target, ?_, ?_⟩
    · exact Finset.mem_filter.mpr
        ⟨hclosed _ _ hforward, Relation.TransGen.single hforward⟩
    · intro hmem
      exact hreducible target (Finset.mem_filter.mp hmem).2
  · intro node hnode
    rw [Finset.mem_filter] at hnode ⊢
    exact ⟨hnode.1, Relation.TransGen.head hforward hnode.2⟩

theorem Reducible.forwardRank_lt
    (hreducible : graph.Reducible) {nodes : Finset V} (hnode : v ∈ nodes) :
    graph.forwardRank nodes v < nodes.card := by
  classical
  unfold forwardRank
  apply Finset.card_lt_card
  rw [Finset.ssubset_iff_of_subset (Finset.filter_subset _ _)]
  refine ⟨v, hnode, ?_⟩
  intro hmem
  exact hreducible v (Finset.mem_filter.mp hmem).2

end Ranks

section Decision

variable [DecidableEq V]

def growAround (graph : FlowGraph V) (avoided : V) (nodes : Finset V) :
    Finset V :=
  nodes ∪ nodes.biUnion fun source => (graph.succs source).toFinset.erase avoided

/-- The nodes reached by paths around `avoided` of at most `rounds` edges. -/
def avoiding (graph : FlowGraph V) (avoided : V) : ℕ → Finset V
  | 0 => if graph.entry = avoided then ∅ else {graph.entry}
  | rounds + 1 => graph.growAround avoided (graph.avoiding avoided rounds)

/-- The dominance test, with the number of rounds to grow the set. -/
def dominatesWithin (graph : FlowGraph V) (rounds : ℕ) (dominator node : V) :
    Bool :=
  decide (node ∉ graph.avoiding dominator rounds)

theorem avoids_of_mem_avoiding
    {rounds : ℕ} (hmem : v ∈ graph.avoiding a rounds) : graph.Avoids a v := by
  induction rounds generalizing v with
  | zero =>
      unfold avoiding at hmem
      split at hmem
      · simp at hmem
      · rename_i hentry
        rw [Finset.mem_singleton] at hmem
        exact hmem ▸ Avoids.entry hentry
  | succ rounds ih =>
      rw [avoiding, growAround, Finset.mem_union, Finset.mem_biUnion] at hmem
      rcases hmem with hmem | ⟨source, hsource, hmem⟩
      · exact ih hmem
      · rw [Finset.mem_erase, List.mem_toFinset] at hmem
        exact Avoids.step (ih hsource) hmem.2 hmem.1

theorem avoiding_subset_succ (graph : FlowGraph V) (a : V) (rounds : ℕ) :
    graph.avoiding a rounds ⊆ graph.avoiding a (rounds + 1) := by
  rw [avoiding, growAround]
  exact Finset.subset_union_left

theorem avoiding_stable
    {rounds : ℕ}
    (hstable : graph.avoiding a (rounds + 1) = graph.avoiding a rounds) :
    graph.avoiding a (rounds + 2) = graph.avoiding a (rounds + 1) := by
  rw [avoiding, hstable]
  conv_rhs => rw [← hstable, avoiding]

/-- Either a round has added nothing, or every round so far added a node. -/
theorem avoiding_stable_or_card (graph : FlowGraph V) (a : V) (rounds : ℕ) :
    graph.avoiding a (rounds + 1) = graph.avoiding a rounds ∨
      rounds + 1 ≤ (graph.avoiding a (rounds + 1)).card := by
  induction rounds with
  | zero =>
      by_cases hempty : graph.avoiding a 1 = graph.avoiding a 0
      · exact Or.inl hempty
      · refine Or.inr (Finset.card_pos.mpr ?_)
        rw [Finset.nonempty_iff_ne_empty]
        intro hone
        apply hempty
        have hsub := graph.avoiding_subset_succ a 0
        rw [hone, Finset.subset_empty] at hsub
        rw [hone, hsub]
  | succ rounds ih =>
      rcases ih with hstable | hcard
      · exact Or.inl (avoiding_stable hstable)
      · by_cases hstable :
            graph.avoiding a (rounds + 2) = graph.avoiding a (rounds + 1)
        · exact Or.inl hstable
        · refine Or.inr (lt_of_le_of_lt hcard ?_)
          apply Finset.card_lt_card
          exact (graph.avoiding_subset_succ a (rounds + 1)).ssubset_of_ne
            (fun heq => hstable heq.symm)

/-- With as many rounds as reachable nodes the growing set is complete. -/
theorem mem_avoiding_of_avoids
    {rounds : ℕ} {nodes : Finset V}
    (hnodes : ∀ node, graph.Reachable node → node ∈ nodes)
    (hcard : nodes.card ≤ rounds) (havoids : graph.Avoids a v) :
    v ∈ graph.avoiding a rounds := by
  have hsub : graph.avoiding a (rounds + 1) ⊆ nodes := fun node hnode =>
    hnodes node (avoids_of_mem_avoiding hnode).reachable
  have hstable : graph.avoiding a (rounds + 1) = graph.avoiding a rounds := by
    rcases graph.avoiding_stable_or_card a rounds with hstable | hlarge
    · exact hstable
    · have := Finset.card_le_card hsub
      omega
  induction havoids with
  | entry hentry =>
      clear hstable hsub hcard
      induction rounds with
      | zero => simp [avoiding, hentry]
      | succ rounds ih => exact graph.avoiding_subset_succ a rounds ih
  | @step source target _ hedge hne ih =>
      rw [← hstable, avoiding, growAround, Finset.mem_union,
        Finset.mem_biUnion]
      refine Or.inr ⟨source, ih, ?_⟩
      rw [Finset.mem_erase, List.mem_toFinset]
      exact ⟨hne, hedge⟩

theorem dominatesWithin_iff
    {rounds : ℕ} {nodes : Finset V}
    (hnodes : ∀ node, graph.Reachable node → node ∈ nodes)
    (hcard : nodes.card ≤ rounds) :
    graph.dominatesWithin rounds d v = true ↔ graph.Dominates d v := by
  rw [dominatesWithin, decide_eq_true_iff]
  constructor
  · intro hmem havoids
    exact hmem (mem_avoiding_of_avoids hnodes hcard havoids)
  · intro hdom hmem
    exact hdom (avoids_of_mem_avoiding hmem)

end Decision

end FlowGraph

end Pocl
