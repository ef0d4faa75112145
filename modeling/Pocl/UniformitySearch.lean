import Pocl.UniformityMarks

/-!
# The search of the divergence analysis

The blocks on the path of the search are those whose successors are still being
visited.  Every other analysed block has only analysed successors, so that what can
be reached from an earlier successor of a block of the path is analysed.  A block
which is not is therefore found on its first path.
-/

namespace Pocl

open Relation

namespace LabelledGraph

variable {graph : LabelledGraph} {cache : Cache} {path : List BlockId}
  {block next : BlockId}

/-- The block and all that can be reached from it have been analysed. -/
def Done (path : List BlockId) (cache : Cache) (block : BlockId) : Prop :=
  isUniformityAnalyzed cache block = true ∧ block ∉ path

/-- A step of the path, after the earlier successors of the branch. -/
def PathStep (graph : LabelledGraph) (done : BlockId → Prop) (branch next : BlockId) :
    Prop :=
  branch ∈ graph.blocks ∧
    ∃ before after, graph.branchSuccs branch = before ++ next :: after ∧
      ∀ other ∈ before, done other

structure Searching (graph : LabelledGraph) (path : List BlockId) (cache : Cache) :
    Prop where
  marks : ∀ block uniform, cache block = some uniform →
    (uniform = true ↔ graph.FirstPathUniform block)
  closed : ∀ block, Done path cache block →
    ∀ next ∈ graph.branchSuccs block, Done path cache next
  analyzed : ∀ block ∈ path, isUniformityAnalyzed cache block = true
  blocks : ∀ block, isUniformityAnalyzed cache block = true → block ∈ graph.blocks

/-- The path to a block that is visited. -/
structure Entering (graph : LabelledGraph) (done : BlockId → Prop)
    (path : List BlockId) : Prop where
  stack : IsStack (graph.PathStep done) path
  bottom : path.getLast? = some graph.entry
  blocks : ∀ block ∈ path, block ∈ graph.blocks

theorem PathStep.branchEdge {done : BlockId → Prop}
    (h : graph.PathStep done block next) : graph.BranchEdge block next := by
  obtain ⟨hblock, before, after, heq, _⟩ := h
  refine ⟨hblock, ?_⟩
  rw [heq]
  simp

theorem Entering.branchStack {done : BlockId → Prop}
    (hpath : graph.Entering done path) : IsStack graph.BranchEdge path :=
  List.IsChain.imp (fun _ _ h => h.branchEdge) hpath.stack

theorem Entering.mono {done done' : BlockId → Prop}
    (hpath : graph.Entering done path) (hdone : ∀ block, done block → done' block) :
    graph.Entering done' path where
  stack := by
    refine List.IsChain.imp ?_ hpath.stack
    rintro _ _ ⟨hblock, before, after, heq, hbefore⟩
    exact ⟨hblock, before, after, heq, fun other hother => hdone other (hbefore other hother)⟩
  bottom := hpath.bottom
  blocks := hpath.blocks

theorem Searching.done_of_reaches
    (hsearch : graph.Searching path cache) (hblock : Done path cache block)
    (hreach : ReflTransGen graph.BranchEdge block next) :
    Done path cache next := by
  induction hreach with
  | refl => exact hblock
  | tail _ hedge ih => exact hsearch.closed _ ih _ hedge.2

theorem firstStep_unique {branch first second : BlockId}
    (hfirst : graph.FirstStep block branch first)
    (hsecond : graph.FirstStep block branch second) :
    first = second := by
  have heq := hfirst.2.symm.trans hsecond.2
  exact Option.some.inj heq

/-- A step of the path to a block that has not been analysed is the first one from
which it can be reached. -/
theorem Searching.firstStep
    (hsearch : graph.Searching path cache)
    (hblock : isUniformityAnalyzed cache block = false) {branch : BlockId}
    (hstep : graph.PathStep (Done path cache) branch next)
    (hreach : ReflTransGen graph.BranchEdge next block) :
    graph.FirstStep block branch next := by
  obtain ⟨hbranch, before, after, heq, hdone⟩ := hstep
  refine ⟨hbranch, List.find?_eq_some_iff_append.mpr ⟨by simpa using hreach, before, after,
    heq, ?_⟩⟩
  intro other hother
  simp only [Bool.not_eq_true', decide_eq_false_iff_not]
  intro hother'
  have := (hsearch.done_of_reaches (hdone other hother) hother').1
  rw [hblock] at this
  contradiction

/-- The path of the search is the first path to the block it comes to. -/
theorem Searching.onFirstPath_iff
    (hgraph : graph.LoopFree)
    (hsearch : graph.Searching path cache)
    (hpath : graph.Entering (Done path cache) (block :: path))
    (hblock : isUniformityAnalyzed cache block = false) (branch : BlockId) :
    graph.OnFirstPath block branch ↔ branch ∈ block :: path := by
  have hbranch := hpath.branchStack
  have hfirst : IsStack (graph.FirstStep block) (block :: path) := by
    refine List.IsChain.imp_of_mem_imp ?_ hpath.stack
    intro next branch hnext _ hstep
    exact hsearch.firstStep hblock hstep (hbranch.reflTransGen_top hnext)
  constructor
  · intro hon
    induction hon with
    | refl => exact List.mem_of_getLast? hpath.bottom
    | @tail branch next _ hstep ih =>
        obtain rfl | hmem := List.mem_cons.mp ih
        · -- the path ends at the block, as there are no loops
          obtain ⟨hbefore, hsome⟩ := hstep
          have hedge : graph.BranchEdge branch next :=
            ⟨hbefore, List.mem_of_find?_eq_some hsome⟩
          have hback := List.find?_some hsome
          exact absurd (TransGen.head' hedge (by simpa using hback))
            (hgraph.branchEdge branch)
        · obtain ⟨above, habove, hstep'⟩ := hfirst.exists_above hmem
          rw [firstStep_unique hstep hstep']
          exact habove
  · intro hmem
    exact hfirst.reflTransGen_bottom hpath.bottom hmem

theorem Searching.firstPathUniform_iff
    (hgraph : graph.LoopFree)
    (hsearch : graph.Searching path cache)
    (hpath : graph.Entering (Done path cache) (block :: path))
    (hblock : isUniformityAnalyzed cache block = false) :
    graph.FirstPathUniform block ↔ graph.PathUniform (block :: path) block := by
  have hon := hsearch.onFirstPath_iff hgraph hpath hblock
  simp only [FirstPathUniform, PathUniform, hon]
  simp

section Visits

theorem isUniformityAnalyzed_setUniform {uniform : Bool} {other : BlockId} :
    isUniformityAnalyzed (setUniform cache block uniform) other = true ↔
      other = block ∨ isUniformityAnalyzed cache other = true := by
  by_cases hother : other = block
  · simp [isUniformityAnalyzed, setUniform, hother]
  · simp [isUniformityAnalyzed, setUniform, hother]

theorem done_setUniform {uniform : Bool} {other : BlockId}
    (hblock : isUniformityAnalyzed cache block = false) :
    Done (block :: path) (setUniform cache block uniform) other ↔ Done path cache other := by
  unfold Done
  rw [isUniformityAnalyzed_setUniform, List.mem_cons, not_or]
  constructor
  · rintro ⟨heq | hanalyzed, hne, hpath⟩
    · exact absurd heq hne
    · exact ⟨hanalyzed, hpath⟩
  · rintro ⟨hanalyzed, hpath⟩
    refine ⟨Or.inr hanalyzed, ?_, hpath⟩
    rintro rfl
    rw [hblock] at hanalyzed
    contradiction

theorem assumeDivergent_marked
    (hblock : isUniformityAnalyzed cache block = false) (marked : Bool) :
    assumeDivergent (if marked then setUniform cache block true else cache) block =
      setUniform cache block marked := by
  cases marked with
  | true =>
      have hanalyzed : isUniformityAnalyzed (setUniform cache block true) block = true :=
        isUniformityAnalyzed_setUniform.mpr (Or.inl rfl)
      simp [assumeDivergent, hanalyzed]
  | false => simp [assumeDivergent, hblock]

theorem Searching.push {uniform : Bool}
    (hsearch : graph.Searching path cache)
    (hblock : isUniformityAnalyzed cache block = false) (hmem : block ∈ graph.blocks)
    (huniform : uniform = true ↔ graph.FirstPathUniform block) :
    graph.Searching (block :: path) (setUniform cache block uniform) where
  marks := by
    intro other mark hmark
    by_cases hother : other = block
    · subst hother
      rw [setUniform, Function.update_self, Option.some.injEq] at hmark
      rw [← hmark]
      exact huniform
    · rw [setUniform, Function.update_of_ne hother] at hmark
      exact hsearch.marks other mark hmark
  closed := by
    intro other hdone next hnext
    rw [done_setUniform hblock] at hdone ⊢
    exact hsearch.closed other hdone next hnext
  analyzed := by
    intro other hother
    rw [isUniformityAnalyzed_setUniform]
    obtain rfl | hpath := List.mem_cons.mp hother
    · exact Or.inl rfl
    · exact Or.inr (hsearch.analyzed other hpath)
  blocks := by
    intro other hother
    obtain rfl | hanalyzed := isUniformityAnalyzed_setUniform.mp hother
    · exact hmem
    · exact hsearch.blocks other hanalyzed

theorem Done.tail (hdone : Done (block :: path) cache next) : Done path cache next :=
  ⟨hdone.1, fun hpath => hdone.2 (List.mem_cons_of_mem _ hpath)⟩

theorem Searching.pop
    (hsearch : graph.Searching (block :: path) cache)
    (hsuccs : ∀ next ∈ graph.branchSuccs block, Done (block :: path) cache next) :
    graph.Searching path cache where
  marks := hsearch.marks
  closed := by
    intro other hdone next hnext
    by_cases hother : other = block
    · subst hother
      exact (hsuccs next hnext).tail
    · have hdone' : Done (block :: path) cache other :=
        ⟨hdone.1, by simp [hother, hdone.2]⟩
      exact (hsearch.closed other hdone' next hnext).tail
  analyzed := fun other hother => hsearch.analyzed other (List.mem_cons_of_mem _ hother)
  blocks := hsearch.blocks

/-- The results of an earlier cache are kept. -/
def Keeps (cache cache' : Cache) : Prop :=
  ∀ block, isUniformityAnalyzed cache block = true →
    isUniformityAnalyzed cache' block = true

theorem Done.keeps {cache' : Cache}
    (hkeeps : Keeps cache cache') (hdone : Done path cache block) : Done path cache' block :=
  ⟨hkeeps block hdone.1, hdone.2⟩

/-- What a call for a block that has not been analysed does, if the number of nested
calls allows for the blocks that are not on the path. -/
def Visits (graph : LabelledGraph) (fuel : ℕ) : Prop :=
  ∀ (block : BlockId) (path : List BlockId) (previousUniform : BlockId) (cache : Cache),
    graph.Searching path cache →
    graph.Entering (Done path cache) (block :: path) →
    isUniformityAnalyzed cache block = false →
    graph.LastUniform path previousUniform →
    graph.blocks.length + 1 ≤ fuel + path.length →
    ∃ cache', graph.analyzeBBDivergence fuel block previousUniform cache = some cache' ∧
      graph.Searching path cache' ∧ Keeps cache cache' ∧
      isUniformityAnalyzed cache' block = true

theorem Entering.push {done : BlockId → Prop} {before after : List BlockId}
    (hpath : graph.Entering done (block :: path))
    (heq : graph.branchSuccs block = before ++ next :: after)
    (hbefore : ∀ other ∈ before, done other) :
    graph.Entering done (next :: block :: path) where
  stack := by
    have hstep : graph.PathStep done block next :=
      ⟨hpath.blocks block List.mem_cons_self, before, after, heq, hbefore⟩
    exact List.IsChain.cons_cons hstep hpath.stack
  bottom := by
    rw [List.getLast?_cons_cons]
    exact hpath.bottom
  blocks := by
    intro other hother
    obtain rfl | hmem := List.mem_cons.mp hother
    · have hedge : graph.BranchEdge block other := by
        refine ⟨hpath.blocks block List.mem_cons_self, ?_⟩
        rw [heq]
        simp
      exact hedge.edge.right_mem
    · exact hpath.blocks other hmem

theorem Entering.succ_notMem {done : BlockId → Prop}
    (hgraph : graph.LoopFree)
    (hpath : graph.Entering done (block :: path)) (hnext : next ∈ graph.branchSuccs block) :
    next ∉ block :: path := by
  intro hmem
  have hedge : graph.BranchEdge block next := ⟨hpath.blocks block List.mem_cons_self, hnext⟩
  exact hgraph.branchEdge block
    (TransGen.head' hedge (hpath.branchStack.reflTransGen_top hmem))

theorem Entering.length_le {done : BlockId → Prop}
    (hgraph : graph.LoopFree) (hpath : graph.Entering done path) :
    path.length ≤ graph.blocks.length :=
  ((hpath.branchStack.nodup hgraph.branchEdge).subperm hpath.blocks).length_le

/-- The loop over the successors of a block. -/
theorem Visits.successors {fuel : ℕ} {previousUniform : BlockId}
    (hgraph : graph.LoopFree) (hvisits : graph.Visits fuel)
    (hlast : graph.LastUniform (block :: path) previousUniform)
    (hfuel : graph.blocks.length + 1 ≤ fuel + (block :: path).length)
    (todo before : List BlockId) (cache : Cache)
    (hsearch : graph.Searching (block :: path) cache)
    (hpath : graph.Entering (Done (block :: path) cache) (block :: path))
    (heq : graph.branchSuccs block = before ++ todo)
    (hbefore : ∀ other ∈ before, Done (block :: path) cache other) :
    ∃ cache', todo.foldlM
        (fun cache next =>
          if isUniformityAnalyzed cache next then some cache
          else graph.analyzeBBDivergence fuel next previousUniform cache) cache =
          some cache' ∧
      graph.Searching (block :: path) cache' ∧ Keeps cache cache' ∧
      ∀ next ∈ graph.branchSuccs block, Done (block :: path) cache' next := by
  induction todo generalizing before cache with
  | nil =>
      rw [List.append_nil] at heq
      exact ⟨cache, rfl, hsearch, fun _ h => h, by rwa [heq]⟩
  | cons next todo ih =>
      have hnext : next ∉ block :: path := by
        apply hpath.succ_notMem hgraph
        rw [heq]
        simp
      have heq' : graph.branchSuccs block = (before ++ [next]) ++ todo := by
        rw [heq]
        simp
      have hvisit : ∃ cache₁, (if isUniformityAnalyzed cache next then some cache
            else graph.analyzeBBDivergence fuel next previousUniform cache) = some cache₁ ∧
          graph.Searching (block :: path) cache₁ ∧ Keeps cache cache₁ ∧
          isUniformityAnalyzed cache₁ next = true := by
        by_cases hanalyzed : isUniformityAnalyzed cache next = true
        · exact ⟨cache, if_pos hanalyzed, hsearch, fun _ h => h, hanalyzed⟩
        · rw [if_neg hanalyzed]
          rw [Bool.not_eq_true] at hanalyzed
          exact hvisits next (block :: path) previousUniform cache hsearch
            (hpath.push heq hbefore) hanalyzed hlast hfuel
      obtain ⟨cache₁, hrun, hsearch₁, hkeeps₁, hanalyzed₁⟩ := hvisit
      have hbefore₁ : ∀ other ∈ before ++ [next], Done (block :: path) cache₁ other := by
        intro other hother
        obtain hother | hother := List.mem_append.mp hother
        · exact (hbefore other hother).keeps hkeeps₁
        · rw [List.mem_singleton.mp hother]
          exact ⟨hanalyzed₁, hnext⟩
      obtain ⟨cache', hrest, hsearch', hkeeps', hdone⟩ :=
        ih (before ++ [next]) cache₁ hsearch₁
          (hpath.mono (fun _ h => h.keeps hkeeps₁)) heq' hbefore₁
      refine ⟨cache', ?_, hsearch', fun other h => hkeeps' other (hkeeps₁ other h), hdone⟩
      rw [List.foldlM_cons, hrun]
      exact hrest

theorem Visits.succ {fuel : ℕ}
    (hgraph : graph.LoopFree) (hvisits : graph.Visits fuel) :
    graph.Visits (fuel + 1) := by
  intro block path previousUniform cache hsearch hpath hblock hlast hfuel
  have hstack := hpath.branchStack
  have hmem := hpath.blocks block List.mem_cons_self
  have hblocks : ∀ block ∈ path, block ∈ graph.blocks :=
    fun other hother => hpath.blocks other (List.mem_cons_of_mem _ hother)
  have hmarks : graph.marks block previousUniform = true ↔ graph.FirstPathUniform block := by
    rw [hlast.marks_iff hgraph hstack hblocks]
    exact (hsearch.firstPathUniform_iff hgraph hpath hblock).symm
  have hbranch : (graph.term previousUniform).isBranch = true := by
    obtain ⟨above, _, hedge⟩ := hstack.exists_above hlast.mem
    exact BlockTerm.isBranch_of_branchSuccs hedge.2
  have hlast' : graph.LastUniform (block :: path)
      (if graph.marks block previousUniform then block else previousUniform) := by
    split
    next hmarked =>
      rw [hlast.marks_iff hgraph hstack hblocks] at hmarked
      exact LastUniform.of_pathUniform hgraph hstack hmem hmarked
    next hmarked =>
      rw [hlast.marks_iff hgraph hstack hblocks] at hmarked
      exact hlast.of_not_pathUniform hgraph hstack hmarked
  have hsearch' := hsearch.push hblock hmem hmarks
  have hpath' : graph.Entering
      (Done (block :: path) (setUniform cache block (graph.marks block previousUniform)))
      (block :: path) :=
    hpath.mono (fun _ h => (done_setUniform hblock).mpr h)
  obtain ⟨cache', hrun, hsearch'', hkeeps, hdone⟩ :=
    hvisits.successors hgraph hlast' (by simp; omega) (graph.branchSuccs block) []
      _ hsearch' hpath' rfl (fun _ h => by cases h)
  refine ⟨cache', ?_, hsearch''.pop hdone, ?_, ?_⟩
  · simp only [analyzeBBDivergence, hbranch, Bool.true_eq_false, if_false,
      assumeDivergent_marked hblock]
    exact hrun
  · intro other hother
    exact hkeeps other (isUniformityAnalyzed_setUniform.mpr (Or.inr hother))
  · exact hsearch''.analyzed block List.mem_cons_self

theorem visits (hgraph : graph.LoopFree) (fuel : ℕ) : graph.Visits fuel := by
  induction fuel with
  | zero =>
      intro block path _ _ _ hpath _ _ hfuel
      have hlength := hpath.length_le hgraph
      rw [List.length_cons] at hlength
      omega
  | succ fuel ih => exact ih.succ hgraph

end Visits

section Run

theorem searching_empty (graph : LabelledGraph) : graph.Searching [] (fun _ => none) where
  marks := by
    intro block uniform h
    cases h
  closed := by
    intro block hdone
    exact absurd hdone.1 (by simp [isUniformityAnalyzed])
  analyzed := by
    intro block hblock
    cases hblock
  blocks := by
    intro block hblock
    exact absurd hblock (by simp [isUniformityAnalyzed])

theorem entering_entry (graph : LabelledGraph) (done : BlockId → Prop) :
    graph.Entering done [graph.entry] where
  stack := List.isChain_singleton _
  bottom := rfl
  blocks := by
    intro block hblock
    rw [List.mem_singleton.mp hblock]
    exact graph.entry_mem

theorem pathUniform_entry (graph : LabelledGraph) :
    graph.PathUniform [graph.entry] graph.entry := by
  intro branch hbranch hne
  exact absurd (List.mem_singleton.mp hbranch) hne

theorem marks_entry (hgraph : graph.LoopFree) :
    graph.marks graph.entry graph.entry = false := by
  have hnot : graph.entry ∉ graph.branchSuccs graph.entry := by
    intro hmem
    exact hgraph.branchEdge _ (TransGen.single ⟨graph.entry_mem, hmem⟩)
  simp [marks, hnot]

theorem runOnFunction_searching (hgraph : graph.LoopFree) :
    ∃ cache, graph.runOnFunction = some cache ∧ graph.Searching [] cache ∧
      isUniformityAnalyzed cache graph.entry = true := by
  have hentry : isUniformityAnalyzed (fun _ => none) graph.entry = false := rfl
  have hempty := graph.searching_empty
  have hpath := graph.entering_entry (Done [] (fun _ => none))
  have hfirst : true = true ↔ graph.FirstPathUniform graph.entry := by
    simp only [hempty.firstPathUniform_iff hgraph hpath hentry, true_iff]
    exact graph.pathUniform_entry
  have hsearch := hempty.push hentry graph.entry_mem hfirst
  have hlast : graph.LastUniform [graph.entry] graph.entry :=
    LastUniform.of_pathUniform hgraph (List.isChain_singleton _) graph.entry_mem
      graph.pathUniform_entry
  obtain ⟨cache, hrun, hsearch', _, hdone⟩ :=
    (visits hgraph graph.blocks.length).successors hgraph hlast (by simp)
      (graph.branchSuccs graph.entry) [] _ hsearch (graph.entering_entry _) rfl
      (fun _ h => by cases h)
  refine ⟨cache, ?_, hsearch'.pop hdone, hsearch'.analyzed _ List.mem_cons_self⟩
  have hanalyzed :
      isUniformityAnalyzed (setUniform (fun _ => none) graph.entry true) graph.entry =
        true :=
    isUniformityAnalyzed_setUniform.mpr (Or.inl rfl)
  simp only [runOnFunction, analyzeBBDivergence]
  by_cases hbranch : (graph.term graph.entry).isBranch = false
  · rw [if_pos hbranch]
    rw [branchSuccs, BlockTerm.branchSuccs_of_not_isBranch hbranch] at hrun
    exact hrun
  · rw [if_neg hbranch]
    simp only [marks_entry hgraph, Bool.false_eq_true, if_false, assumeDivergent, hanalyzed,
      if_true]
    exact hrun

theorem FirstStep.branchEdge {branch : BlockId}
    (hstep : graph.FirstStep block branch next) : graph.BranchEdge branch next :=
  ⟨hstep.1, List.mem_of_find?_eq_some hstep.2⟩

/-- The analysis comes to an end, and marks exactly the blocks whose first path is
uniform. -/
theorem runOnFunction_marks (hgraph : graph.LoopFree) :
    ∃ cache, graph.runOnFunction = some cache ∧
      ∀ block, cache block = some true ↔ graph.FirstPathUniform block := by
  obtain ⟨cache, hrun, hsearch, hentry⟩ := runOnFunction_searching hgraph
  refine ⟨cache, hrun, ?_⟩
  intro block
  constructor
  · intro hmark
    exact (hsearch.marks block true hmark).mp rfl
  · intro huniform
    have hreach : ReflTransGen graph.BranchEdge graph.entry block :=
      huniform.1.lift id (fun _ _ hstep => hstep.branchEdge)
    have hdone := hsearch.done_of_reaches ⟨hentry, List.not_mem_nil⟩ hreach
    obtain ⟨mark, hmark⟩ := Option.isSome_iff_exists.mp hdone.1
    rw [hmark, (hsearch.marks block mark hmark).mpr huniform]

end Run

section Soundness

/-- The analysis comes to an end, and each block that it marks is executed by all or
none of the work-items of every work-group. -/
def UniformBlocksSound (graph : LabelledGraph) : Prop :=
  ∃ cache, graph.runOnFunction = some cache ∧
    ∀ block, cache block = some true → graph.ExecutedByAllOrNone block

/-- The first path to a block that a branch splits off goes through a work-item
dependent branch that no later block of the path post-dominates. -/
def SplitsOnFirstPaths (graph : LabelledGraph) : Prop :=
  ∀ branch block, graph.Splits branch block → graph.OnFirstPath block block →
    ∃ divergent, graph.OnFirstPath block divergent ∧ divergent ≠ block ∧
      graph.isUniform divergent = false ∧
      ∀ dominator, graph.OnFirstPath block dominator → dominator ≠ divergent →
        ¬ graph.PostDominates dominator divergent

theorem not_firstPathUniform_iff (hon : graph.OnFirstPath block block) :
    ¬ graph.FirstPathUniform block ↔
      ∃ divergent, graph.OnFirstPath block divergent ∧ divergent ≠ block ∧
        graph.isUniform divergent = false ∧
        ∀ dominator, graph.OnFirstPath block dominator → dominator ≠ divergent →
          ¬ graph.PostDominates dominator divergent := by
  simp only [FirstPathUniform, hon, true_and]
  push Not
  rfl

theorem uniformBlocksSound_iff (hgraph : graph.LoopFree) :
    graph.UniformBlocksSound ↔ graph.SplitsOnFirstPaths := by
  obtain ⟨cache, hrun, hmarks⟩ := runOnFunction_marks hgraph
  constructor
  · rintro ⟨cache', hrun', hsound⟩ branch block hsplits hon
    rw [hrun, Option.some.injEq] at hrun'
    subst hrun'
    rw [← not_firstPathUniform_iff hon, ← hmarks]
    intro hmark
    exact (executedByAllOrNone_iff hgraph block).mp (hsound block hmark) branch hsplits
  · intro hsplits
    refine ⟨cache, hrun, ?_⟩
    intro block hmark
    rw [hmarks] at hmark
    rw [executedByAllOrNone_iff hgraph]
    intro branch hbranch
    exact (not_firstPathUniform_iff hmark.1).mpr
      (hsplits branch block hbranch hmark.1) hmark

theorem loopFree_of_lt
    (hlt : ∀ block ∈ graph.blocks, ∀ next ∈ graph.succs block, block < next) :
    graph.LoopFree := by
  have hless : ∀ first second, TransGen graph.Edge first second → first < second := by
    intro first second hpath
    induction hpath with
    | single hedge => exact hlt _ hedge.1 _ hedge.2
    | tail _ hedge ih => exact ih.trans (hlt _ hedge.1 _ hedge.2)
  intro block hloop
  exact lt_irrefl block (hless block block hloop)

/-- A work-item dependent condition guards block 1. -/
def guardedGraph : LabelledGraph where
  blocks := [0, 1, 2]
  term := fun block =>
    if block = 0 then .condBr false 1 2
    else if block = 1 then .br 2
    else .ret
  nonempty := by decide
  closed := by decide

theorem guardedGraph_uniformBlocksSound_iff :
    guardedGraph.LoopFree ∧
      (guardedGraph.UniformBlocksSound ↔ guardedGraph.SplitsOnFirstPaths) := by
  have hgraph : guardedGraph.LoopFree := loopFree_of_lt (by decide)
  exact ⟨hgraph, uniformBlocksSound_iff hgraph⟩

/-- Block 2 is guarded by the disjunction of a uniform condition, in block 0, and of
a work-item dependent one, in block 1. -/
def disjunctionGraph : LabelledGraph where
  blocks := [0, 1, 2, 3]
  term := fun block =>
    if block = 0 then .condBr true 2 1
    else if block = 1 then .condBr false 2 3
    else if block = 2 then .br 3
    else .ret
  nonempty := by decide
  closed := by decide

theorem disjunctionGraph_splits : disjunctionGraph.Splits 1 2 := by
  have hedge : disjunctionGraph.Edge disjunctionGraph.entry 1 := by
    unfold Edge
    decide
  refine ⟨ReflTransGen.single hedge, rfl, 2, by decide, 3, by decide, {2}, 3, ?_, ?_, rfl⟩
  · exact PathIn.refl rfl
  · exact PathIn.refl (by simp)

theorem disjunctionGraph_not_uniformBlocksSound :
    disjunctionGraph.LoopFree ∧ ¬ disjunctionGraph.UniformBlocksSound := by
  have hgraph : disjunctionGraph.LoopFree := loopFree_of_lt (by decide)
  refine ⟨hgraph, ?_⟩
  rintro ⟨cache, hrun, hsound⟩
  have hmark : disjunctionGraph.runOnFunction.map (fun cache => cache 2) =
      some (some true) := by
    decide +kernel
  rw [hrun, Option.map_some, Option.some.injEq] at hmark
  exact not_executedByAllOrNone_of_splits hgraph disjunctionGraph_splits (hsound 2 hmark)

end Soundness

end LabelledGraph

end Pocl
