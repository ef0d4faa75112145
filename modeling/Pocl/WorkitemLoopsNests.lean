import Pocl.WorkitemLoopsEdits

/-!
# Loop nests around a section of code

A loop is put around a section whose exit has one successor outside.  The blocks outside
that can be reached around the section go to the loop instead of to the section.
-/

namespace Pocl.WorkitemLoops

open CodeSections

abbrev Spec := Memory → List Event → Memory → Prop

def incrementSpec (dim : Dim) : Spec :=
  fun memory trace memory' =>
    trace = [] ∧ memory' = memory.set dim (memory.localId dim + 1)

def bodySpec (dim : Dim) (addIncBlock : Bool) (spec : Spec) : Spec :=
  if addIncBlock then Machine.Sequence spec (incrementSpec dim) else spec

def startOf (peeledFirst : Bool) (dim : Dim) (memory : Memory) : Memory :=
  if peeledFirst then { memory.set dim memory.localIdXFirst with localIdXFirst := 0 }
  else memory.set dim 0

def loopSpec (dim : Dim) (size : ℕ) (peeledFirst addIncBlock : Bool) (spec : Spec) : Spec :=
  fun memory trace memory' =>
    Machine.Rounds (fun memory => memory.localId dim < size) (bodySpec dim addIncBlock spec)
      (startOf peeledFirst dim memory) trace memory'

namespace Term

theorem replaceUsesOfWith_self (block : BlockId) (term : Term) :
    term.replaceUsesOfWith block block = term := by
  refine (map_congr fun other _ => ?_).trans term.map_id
  split
  next heq => exact heq.symm
  next => rfl

theorem map_map (f g : BlockId → BlockId) (term : Term) :
    (term.map f).map g = term.map fun block => g (f block) := by
  cases term with
  | unreachable => rfl
  | branch succs => exact congrArg Term.branch (List.map_map ..)
  | less dim size body finish => rfl

theorem replaceUsesOfWith_trans {old middle new : BlockId} {term : Term}
    (hmiddle : middle ∈ term.succs → middle = old) :
    (term.replaceUsesOfWith old middle).replaceUsesOfWith middle new =
      term.replaceUsesOfWith old new := by
  unfold replaceUsesOfWith
  rw [map_map]
  refine map_congr fun block hblock => ?_
  by_cases hold : block = old
  · simp [hold]
  · rw [if_neg hold, if_neg hold, if_neg]
    rintro rfl
    exact hold (hmiddle hblock)

theorem mem_replaceUsesOfWith {old new target : BlockId} {term : Term}
    (htarget : target ∈ term.succs) (hne : target ≠ old) :
    target ∈ (term.replaceUsesOfWith old new).succs := by
  rw [replaceUsesOfWith, succs_map]
  exact List.mem_map.mpr ⟨target, htarget, if_neg hne⟩

theorem eq_or_mem_of_replaceUsesOfWith {old new target : BlockId} {term : Term}
    (htarget : target ∈ (term.replaceUsesOfWith old new).succs) :
    target = new ∧ old ∈ term.succs ∨ target ∈ term.succs ∧ target ≠ old := by
  rw [replaceUsesOfWith, succs_map] at htarget
  obtain ⟨source, hsource, heq⟩ := List.mem_map.mp htarget
  by_cases hold : source = old
  · rw [if_pos hold] at heq
    exact .inl ⟨heq.symm, hold ▸ hsource⟩
  · rw [if_neg hold] at heq
    exact .inr ⟨heq ▸ hsource, heq ▸ hold⟩

end Term

namespace Func

variable {func : Func} {block : BlockId} {stores : List IdStore} {isBarrier : Bool}

theorem run_of_body {term : Term} (hbody : func.body block = ⟨stores, none, isBarrier, term⟩)
    (memory : Memory) :
    func.machine.run block memory = ([], stores.foldl IdStore.apply memory) := by
  simp [machine, hbody]

theorem next_iff_of_branch {succs : List BlockId}
    (hterm : (func.body block).term = .branch succs) {memory : Memory} {next : BlockId} :
    func.machine.next block memory next ↔ next ∈ succs := by
  simp [machine, hterm]

theorem next_iff_of_less {dim : Dim} {size : ℕ} {body finish : BlockId}
    (hterm : (func.body block).term = .less dim size body finish) {memory : Memory}
    {next : BlockId} :
    func.machine.next block memory next ↔
      memory.localId dim < size ∧ next = body ∨
        ¬ memory.localId dim < size ∧ next = finish := by
  by_cases hlt : memory.localId dim < size
  · simp [machine, hterm, hlt]
  · simp [machine, hterm, hlt]

theorem run_congr {func' : Func}
    (hstores : (func'.body block).stores = (func.body block).stores)
    (hcode : (func'.body block).code = (func.body block).code) :
    func'.machine.run block = func.machine.run block := by
  funext memory
  simp only [machine, hstores, hcode]

theorem next_congr {func' : Func} (hterm : (func'.body block).term = (func.body block).term) :
    func'.machine.next block = func.machine.next block := by
  funext memory next
  simp only [machine, hterm]

theorem edge_of_term {succs : List BlockId} {target : BlockId}
    (hterm : (func.body block).term = .branch succs) (htarget : target ∈ succs) :
    func.graph.Edge block target := by
  unfold FlowGraph.Edge
  change target ∈ (func.body block).term.succs
  rwa [hterm]

end Func

/-- A section of code with one successor of its exit, which new blocks may surround. -/
structure Surroundable
    (allowed nodes : Set BlockId) (func : Func) (entry exit target : BlockId)
    (spec : Spec) : Prop where
  wellFormed : func.WellFormed
  nodes_lt : ∀ block ∈ nodes, block < func.freshBlock
  new_allowed : ∀ block, func.freshBlock ≤ block → block ∈ allowed
  isSection : func.machine.Section allowed nodes entry exit spec
  exit_succs : func.succs exit = [target]
  target_notMem : target ∉ nodes
  entered : func.graph.EnteredAt nodes entry

/-- The blocks made for a region. -/
def newBlocks (func func' : Func) : Set BlockId :=
  {block | func.freshBlock ≤ block ∧ block < func'.freshBlock}

/-- The first `func` with the loops around a section. -/
structure Surrounded
    (allowed nodes : Set BlockId) (func : Func) (entry exit target : BlockId)
    (func' : Func) (first last : BlockId) (spec : Spec) : Prop where
  wellFormed : func'.WellFormed
  entry_eq : func'.entry = func.entry
  fresh_le : func.freshBlock ≤ func'.freshBlock
  isSection : func'.machine.Section allowed (nodes ∪ newBlocks func func') first last spec
  last_succs : func'.succs last = [target]
  inner : ∀ block ∈ nodes, block ≠ exit → func'.body block = func.body block
  around : ∀ block < func.freshBlock, func.graph.AvoidsAll nodes block →
    func'.body block =
      { func.body block with term := (func.body block).term.replaceUsesOfWith entry first }
  outer : ∀ block < func.freshBlock, block ∉ nodes → ¬ func.graph.AvoidsAll nodes block →
    func'.body block = func.body block
  new_succs : ∀ block, func.freshBlock ≤ block → ∀ next ∈ func'.succs block,
    next = entry ∨ next = target ∨ func.freshBlock ≤ next
  progress : (first = entry ∧ last = exit ∧ func' = func) ∨
    (func.freshBlock ≤ first ∧ func.freshBlock ≤ last ∧
      (∀ block ∈ nodes ∪ newBlocks func func', first ∉ func'.succs block) ∧
      ∃ term : Term, func'.body exit = { func.body exit with term := term } ∧
        ∀ next ∈ term.succs, func.freshBlock ≤ next)
  enters : Relation.ReflTransGen func'.graph.Edge first entry
  simulates : ∀ source next, func.graph.Edge source next →
    Relation.ReflTransGen func'.graph.Edge source next

section Surrounding

variable {allowed nodes : Set BlockId} {func func' : Func}
  {entry exit target first last : BlockId} {spec spec' : Spec}

theorem Surroundable.surrounded
    (hbase : Surroundable allowed nodes func entry exit target spec) :
    Surrounded allowed nodes func entry exit target func entry exit spec := by
  have hnew : newBlocks func func = ∅ := by
    ext block
    simp [newBlocks]
  refine ⟨hbase.wellFormed, rfl, le_rfl, ?_, hbase.exit_succs, fun _ _ _ => rfl, ?_,
    fun _ _ _ _ => rfl, ?_, .inl ⟨rfl, rfl, rfl⟩, .refl, fun _ _ hedge => .single hedge⟩
  · rw [hnew, Set.union_empty]
    exact hbase.isSection
  · intro block _ _
    rw [Term.replaceUsesOfWith_self]
  · intro block hle next hnext
    rw [hbase.wellFormed.succs_fresh block hle] at hnext
    cases hnext

theorem Surroundable.exit_lt (hbase : Surroundable allowed nodes func entry exit target spec) :
    exit < func.freshBlock :=
  hbase.nodes_lt exit hbase.isSection.exit_mem

theorem Surroundable.target_lt
    (hbase : Surroundable allowed nodes func entry exit target spec) :
    target < func.freshBlock :=
  hbase.wellFormed.succs_lt exit target (by rw [hbase.exit_succs]; simp)

theorem Surroundable.target_ne
    (hbase : Surroundable allowed nodes func entry exit target spec) : target ≠ entry :=
  fun heq => hbase.target_notMem (heq ▸ hbase.isSection.entry_mem)

theorem Surrounded.target_ne_first
    (hbase : Surroundable allowed nodes func entry exit target spec')
    (hsurrounded : Surrounded allowed nodes func entry exit target func' first last spec) :
    target ≠ first := by
  rcases hsurrounded.progress with ⟨rfl, _, _⟩ | ⟨hfirst, _⟩
  · exact hbase.target_ne
  · exact Nat.ne_of_lt (lt_of_lt_of_le hbase.target_lt hfirst)

theorem Surrounded.notMem_of_lt
    (_hsurrounded : Surrounded allowed nodes func entry exit target func' first last spec)
    {block : BlockId} (hlt : block < func.freshBlock) (hnot : block ∉ nodes) :
    block ∉ nodes ∪ newBlocks func func' := by
  rintro (hmem | hmem)
  · exact hnot hmem
  · exact not_lt.mpr hmem.1 hlt

/-- The paths around the section are still there. -/
theorem Surrounded.avoidsAll
    (hbase : Surroundable allowed nodes func entry exit target spec')
    (hsurrounded : Surrounded allowed nodes func entry exit target func' first last spec)
    {block : BlockId} (havoids : func.graph.AvoidsAll nodes block) :
    func'.graph.AvoidsAll (nodes ∪ newBlocks func func') block := by
  induction havoids with
  | entry hentry =>
      have hnot := hsurrounded.notMem_of_lt hbase.wellFormed.entry_lt hentry
      change func.entry ∉ _ at hnot
      rw [← hsurrounded.entry_eq] at hnot
      have hstart : func'.graph.AvoidsAll (nodes ∪ newBlocks func func') func'.graph.entry :=
        .entry hnot
      rwa [show func'.graph.entry = func.graph.entry from hsurrounded.entry_eq] at hstart
  | @step source next hsource hedge hnot ih =>
      have hnext := hbase.wellFormed.succs_lt source next hedge
      refine .step ih ?_ (hsurrounded.notMem_of_lt hnext hnot)
      have hsourceLt : source < func.freshBlock := hbase.wellFormed.lt_of_mem hedge
      change next ∈ (func'.body source).term.succs
      rw [hsurrounded.around source hsourceLt hsource]
      refine Term.mem_replaceUsesOfWith hedge ?_
      rintro rfl
      exact hnot hbase.isSection.entry_mem

theorem LoopAround.new_cases
    {peeledFirst addIncBlock : Bool} {dim : Dim} {size : ℕ} {block : BlockId}
    (hloop : LoopAround func func' entry exit target peeledFirst dim size addIncBlock)
    (hle : func.freshBlock ≤ block) (hlt : block < func'.freshBlock) :
    block = func.freshBlock ∨ block = func.freshBlock + 1 ∨ block = func.freshBlock + 2 ∨
      addIncBlock = true ∧ block = func.freshBlock + 3 := by
  rw [hloop.fresh_eq] at hlt
  cases addIncBlock with
  | true =>
      rw [if_pos rfl] at hlt
      grind
  | false =>
      rw [if_neg Bool.false_ne_true] at hlt
      grind

theorem LoopAround.fresh_lt
    {peeledFirst addIncBlock : Bool} {dim : Dim} {size : ℕ}
    (hloop : LoopAround func func' entry exit target peeledFirst dim size addIncBlock) :
    func.freshBlock + 2 < func'.freshBlock ∧
      (addIncBlock = true → func.freshBlock + 3 < func'.freshBlock) := by
  rw [hloop.fresh_eq]
  cases addIncBlock with
  | true => exact ⟨by grind, fun _ => by grind⟩
  | false => exact ⟨by grind, fun htrue => (Bool.false_ne_true htrue).elim⟩

/-- Where control goes to in the function with the loop. -/
theorem LoopAround.mem_succs
    {peeledFirst addIncBlock : Bool} {dim : Dim} {size : ℕ} {block next : BlockId}
    (hloop : LoopAround func func' entry exit target peeledFirst dim size addIncBlock)
    (hfunc : func.WellFormed) (hnext : next ∈ func'.succs block) :
    block < func.freshBlock ∧
        (next ∈ func.succs block ∨ func.freshBlock ≤ next ∧ next < func'.freshBlock) ∨
      func.freshBlock ≤ block ∧
        (next = entry ∨ next = target ∨
          func.freshBlock ≤ next ∧ next < func'.freshBlock) := by
  obtain ⟨hfresh, hinc⟩ := hloop.fresh_lt
  by_cases hlt : block < func.freshBlock
  · refine .inl ⟨hlt, ?_⟩
    by_cases hexit : block = exit
    · subst hexit
      right
      rw [Func.succs, hloop.exit_body] at hnext
      obtain rfl := List.mem_singleton.mp hnext
      cases addIncBlock with
      | true =>
          rw [if_pos rfl]
          exact ⟨by grind, hinc rfl⟩
      | false =>
          rw [if_neg Bool.false_ne_true]
          exact ⟨by grind, hfresh⟩
    · by_cases hdom : func.graph.Dominates entry block
      · rw [Func.succs, hloop.unchanged block hlt hexit hdom] at hnext
        exact .inl hnext
      · rw [Func.succs, hloop.redirected block hlt hexit hdom] at hnext
        rcases Term.eq_or_mem_of_replaceUsesOfWith hnext with ⟨rfl, _⟩ | ⟨hmem, _⟩
        · exact .inr ⟨le_rfl, by grind⟩
        · exact .inl hmem
  · have hle : func.freshBlock ≤ block := not_lt.mp hlt
    refine .inr ⟨hle, ?_⟩
    by_cases hblock : block < func'.freshBlock
    · rcases hloop.new_cases hle hblock with rfl | rfl | rfl | ⟨hadd, rfl⟩
      · rw [Func.succs, hloop.init_body] at hnext
        exact .inl (List.mem_singleton.mp hnext)
      · rw [Func.succs, hloop.end_body] at hnext
        exact .inr (.inl (List.mem_singleton.mp hnext))
      · rw [Func.succs, hloop.cond_body] at hnext
        rcases List.mem_pair.mp hnext with rfl | rfl
        · exact .inl rfl
        · exact .inr (.inr ⟨by grind, by grind⟩)
      · rw [Func.succs, hloop.inc_body hadd] at hnext
        obtain rfl := List.mem_singleton.mp hnext
        exact .inr (.inr ⟨by grind, hfresh⟩)
    · rw [Func.succs, hloop.rest block (not_lt.mp hblock)] at hnext
      have hnil := hfunc.succs_fresh block hle
      unfold Func.succs at hnil
      rw [hnil] at hnext
      cases hnext

theorem LoopAround.wellFormed
    {peeledFirst addIncBlock : Bool} {dim : Dim} {size : ℕ}
    (hloop : LoopAround func func' entry exit target peeledFirst dim size addIncBlock)
    (hfunc : func.WellFormed) (hentry : entry < func.freshBlock)
    (htarget : target < func.freshBlock) : func'.WellFormed := by
  obtain ⟨hfresh, _⟩ := hloop.fresh_lt
  refine ⟨?_, ?_, ?_⟩
  · rw [hloop.entry_eq]
    have := hfunc.entry_lt
    grind
  · intro block next hnext
    rcases hloop.mem_succs hfunc hnext with
      ⟨_, hold | ⟨_, hlt⟩⟩ | ⟨_, rfl | rfl | ⟨_, hlt⟩⟩
    · have := hfunc.succs_lt block next hold
      grind
    · exact hlt
    · grind
    · grind
    · exact hlt
  · intro block hle
    rw [Func.succs, hloop.rest block hle]
    exact hfunc.succs_fresh block (by grind)

/-- Inside the section, a loop changes only where the exit goes to. -/
theorem Surrounded.loop_inner
    {peeledFirst addIncBlock : Bool} {dim : Dim} {size : ℕ} {func'' : Func}
    (hbase : Surroundable allowed nodes func entry exit target spec')
    (hsurrounded : Surrounded allowed nodes func entry exit target func' first last spec)
    (hloop : LoopAround func' func'' first last target peeledFirst dim size addIncBlock)
    {block : BlockId} (hmem : block ∈ nodes ∪ newBlocks func func') (hne : block ≠ last) :
    func''.body block = func'.body block := by
  have hlt : block < func'.freshBlock := by
    rcases hmem with hnode | hnew
    · exact lt_of_lt_of_le (hbase.nodes_lt block hnode) hsurrounded.fresh_le
    · exact hnew.2
  by_cases hdom : func'.graph.Dominates first block
  · exact hloop.unchanged block hlt hne hdom
  · rcases hsurrounded.progress with ⟨rfl, rfl, rfl⟩ | ⟨_, _, hnot, _⟩
    · rcases hmem with hnode | hnew
      · exact (hdom (hbase.entered.dominates hnode)).elim
      · exact (not_lt.mpr hnew.1 hnew.2).elim
    · rw [hloop.redirected block hlt hne hdom,
        Term.replaceUsesOfWith_of_notMem (hnot block hmem)]

/-- Code around the section goes to the loop. -/
theorem Surrounded.loop_around
    {peeledFirst addIncBlock : Bool} {dim : Dim} {size : ℕ} {func'' : Func}
    (hbase : Surroundable allowed nodes func entry exit target spec')
    (hsurrounded : Surrounded allowed nodes func entry exit target func' first last spec)
    (hloop : LoopAround func' func'' first last target peeledFirst dim size addIncBlock)
    {block : BlockId} (hlt : block < func.freshBlock)
    (havoids : func.graph.AvoidsAll nodes block) :
    func''.body block =
      { func.body block with
        term := (func.body block).term.replaceUsesOfWith entry func'.freshBlock } := by
  have havoids' := hsurrounded.avoidsAll hbase havoids
  have hne : block ≠ last := by
    rintro rfl
    exact havoids'.notMem hsurrounded.isSection.exit_mem
  have hdom : ¬ func'.graph.Dominates first block := fun hdom =>
    hdom (havoids'.avoids hsurrounded.isSection.entry_mem)
  rw [hloop.redirected block (lt_of_lt_of_le hlt hsurrounded.fresh_le) hne hdom,
    hsurrounded.around block hlt havoids, Term.replaceUsesOfWith_trans]
  intro hfirst
  rcases hsurrounded.progress with ⟨heq, _⟩ | ⟨hle, _⟩
  · exact heq
  · exact (not_lt.mpr hle (hbase.wellFormed.succs_lt block first hfirst)).elim

/-- Code that is only reached through the section stays as it is. -/
theorem Surrounded.loop_outer
    {peeledFirst addIncBlock : Bool} {dim : Dim} {size : ℕ} {func'' : Func}
    (hbase : Surroundable allowed nodes func entry exit target spec')
    (hsurrounded : Surrounded allowed nodes func entry exit target func' first last spec)
    (hloop : LoopAround func' func'' first last target peeledFirst dim size addIncBlock)
    {block : BlockId} (hlt : block < func.freshBlock) (hnot : block ∉ nodes)
    (havoids : ¬ func.graph.AvoidsAll nodes block) :
    func''.body block = func.body block := by
  have hne : block ≠ last := by
    rintro rfl
    exact hsurrounded.notMem_of_lt hlt hnot hsurrounded.isSection.exit_mem
  have hlt' := lt_of_lt_of_le hlt hsurrounded.fresh_le
  rw [← hsurrounded.outer block hlt hnot havoids]
  by_cases hdom : func'.graph.Dominates first block
  · exact hloop.unchanged block hlt' hne hdom
  · rcases hsurrounded.progress with ⟨rfl, rfl, rfl⟩ | ⟨hle, _⟩
    · exact (havoids (hbase.entered.avoidsAll (not_not.mp hdom))).elim
    · rw [hloop.redirected block hlt' hne hdom, Term.replaceUsesOfWith_of_notMem]
      rw [hsurrounded.outer block hlt hnot havoids]
      intro hfirst
      exact not_lt.mpr hle (hbase.wellFormed.succs_lt block first hfirst)

theorem LoopAround.run_init
    {peeledFirst addIncBlock : Bool} {dim : Dim} {size : ℕ}
    (hloop : LoopAround func func' entry exit target peeledFirst dim size addIncBlock)
    (memory : Memory) :
    func'.machine.run func.freshBlock memory = ([], startOf peeledFirst dim memory) := by
  rw [Func.run_of_body hloop.init_body]
  cases peeledFirst <;> rfl

theorem Surrounded.loop_congr
    {peeledFirst addIncBlock : Bool} {dim : Dim} {size : ℕ} {func'' : Func}
    (hbase : Surroundable allowed nodes func entry exit target spec')
    (hsurrounded : Surrounded allowed nodes func entry exit target func' first last spec)
    (hloop : LoopAround func' func'' first last target peeledFirst dim size addIncBlock) :
    func''.machine.Section allowed (nodes ∪ newBlocks func func') first last spec := by
  refine hsurrounded.isSection.congr ?_ ?_
  · intro block hmem
    by_cases hne : block = last
    · subst hne
      exact Func.run_congr (by rw [hloop.exit_body]) (by rw [hloop.exit_body])
    · have hsame := hsurrounded.loop_inner hbase hloop hmem hne
      exact Func.run_congr (by rw [hsame]) (by rw [hsame])
  · intro block hmem hne
    exact Func.next_congr (by rw [hsurrounded.loop_inner hbase hloop hmem hne])

/-- The body of a loop, with the increment if there is one. -/
theorem Surrounded.loop_body
    {peeledFirst addIncBlock : Bool} {dim : Dim} {size : ℕ} {func'' : Func}
    (hbase : Surroundable allowed nodes func entry exit target spec')
    (hsurrounded : Surrounded allowed nodes func entry exit target func' first last spec)
    (hloop : LoopAround func' func'' first last target peeledFirst dim size addIncBlock) :
    ∃ bodyExit,
      func''.machine.Section allowed
        (nodes ∪ newBlocks func func' ∪
          {block | addIncBlock = true ∧ block = func'.freshBlock + 3}) first bodyExit
            (bodySpec dim addIncBlock spec) ∧
        (func''.body bodyExit).term = .branch [func'.freshBlock + 2] ∧
        Relation.ReflTransGen func''.graph.Edge last bodyExit := by
  have hsection := hsurrounded.loop_congr hbase hloop
  have hexit : (func''.body last).term =
      .branch [func'.freshBlock + if addIncBlock then 3 else 2] := by
    rw [hloop.exit_body]
  cases addIncBlock with
  | false =>
      have hempty : {block | false = true ∧ block = func'.freshBlock + 3} =
          (∅ : Set BlockId) := by
        ext block
        simp
      rw [hempty, Set.union_empty]
      exact ⟨last, hsection, hexit, .refl⟩
  | true =>
      have hsingleton : {block | true = true ∧ block = func'.freshBlock + 3} =
          ({func'.freshBlock + 3} : Set BlockId) := by
        ext block
        simp
      have hallowed : func'.freshBlock + 3 ∈ allowed :=
        hbase.new_allowed _ (Nat.le_add_right_of_le hsurrounded.fresh_le)
      have hincBody := hloop.inc_body rfl
      have hinc : func''.machine.Section allowed {func'.freshBlock + 3}
          (func'.freshBlock + 3) (func'.freshBlock + 3) (incrementSpec dim) := by
        refine (Machine.Section.singleton hallowed).mono fun memory trace memory' hspec => ?_
        rw [Func.run_of_body hincBody] at hspec
        exact hspec
      have hnot : func'.freshBlock + 3 ∉ nodes ∪ newBlocks func func' := by
        rintro (hmem | hmem)
        · have := hbase.nodes_lt _ hmem
          have := hsurrounded.fresh_le
          grind
        · have := hmem.2
          grind
      rw [hsingleton]
      refine ⟨func'.freshBlock + 3, hsection.append hinc hnot fun memory next hnext => ?_,
        by rw [hincBody], .single (Func.edge_of_term hexit (by simp))⟩
      exact List.mem_singleton.mp ((Func.next_iff_of_branch hexit).mp hnext)

/-- The section with the loop around it. -/
theorem Surrounded.loop_section
    {peeledFirst addIncBlock : Bool} {dim : Dim} {size : ℕ} {func'' : Func}
    (hbase : Surroundable allowed nodes func entry exit target spec')
    (hsurrounded : Surrounded allowed nodes func entry exit target func' first last spec)
    (hloop : LoopAround func' func'' first last target peeledFirst dim size addIncBlock) :
    func''.machine.Section allowed (nodes ∪ newBlocks func func'') func'.freshBlock
      (func'.freshBlock + 1) (loopSpec dim size peeledFirst addIncBlock spec) := by
  obtain ⟨bodyExit, hbody, hexit, _⟩ := hsurrounded.loop_body hbase hloop
  have hfresh := hsurrounded.fresh_le
  have hnot : ∀ block, func'.freshBlock ≤ block → block < func'.freshBlock + 3 →
      block ∈ allowed \ (nodes ∪ newBlocks func func' ∪
        {block | addIncBlock = true ∧ block = func'.freshBlock + 3}) := by
    intro block hle hlt
    refine ⟨hbase.new_allowed block (hfresh.trans hle), ?_⟩
    rintro ((hmem | hmem) | hmem)
    · exact not_lt.mpr (hfresh.trans hle) (hbase.nodes_lt _ hmem)
    · exact not_lt.mpr hle hmem.2
    · exact Nat.ne_of_lt hlt hmem.2
  have hnodes : nodes ∪ newBlocks func func'' =
      nodes ∪ newBlocks func func' ∪
        {block | addIncBlock = true ∧ block = func'.freshBlock + 3} ∪
        {func'.freshBlock, func'.freshBlock + 2, func'.freshBlock + 1} := by
    have hlt := hloop.fresh_lt
    ext block
    simp only [newBlocks, Set.mem_union, Set.mem_ofPred_eq, Set.mem_insert_iff,
      Set.mem_singleton_iff]
    constructor
    · rintro (hmem | ⟨hle, hbelow⟩)
      · exact .inl (.inl (.inl hmem))
      · by_cases hold : block < func'.freshBlock
        · exact .inl (.inl (.inr ⟨hle, hold⟩))
        · rcases hloop.new_cases (not_lt.mp hold) hbelow with rfl | rfl | rfl | hadd
          · exact .inr (.inl rfl)
          · exact .inr (.inr (.inr rfl))
          · exact .inr (.inr (.inl rfl))
          · exact .inl (.inr hadd)
    · rintro (((hmem | ⟨hle, hbelow⟩) | ⟨hadd, rfl⟩) | rfl | rfl | rfl)
      · exact .inl hmem
      · exact .inr ⟨hle, by grind⟩
      · exact .inr ⟨by grind, hlt.2 hadd⟩
      · exact .inr ⟨hfresh, by grind⟩
      · exact .inr ⟨by grind, hlt.1⟩
      · exact .inr ⟨by grind, by grind⟩
  rw [hnodes]
  refine hbody.loop (hnot _ le_rfl (by grind)) (hnot _ (by grind) (by grind)).1
    (hnot _ (by grind) (by grind)) (by grind) (by grind) ?_ hloop.run_init ?_
    (Func.run_of_body hloop.cond_body) ?_ (Func.run_of_body hloop.end_body)
  · intro memory next hnext
    exact List.mem_singleton.mp ((Func.next_iff_of_branch hexit).mp hnext)
  · intro memory next hnext
    have hterm : (func''.body func'.freshBlock).term = .branch [first] := by
      rw [hloop.init_body]
    exact List.mem_singleton.mp ((Func.next_iff_of_branch hterm).mp hnext)
  · intro memory next hnext
    have hterm : (func''.body (func'.freshBlock + 2)).term =
        .less dim size first (func'.freshBlock + 1) := by
      rw [hloop.cond_body]
    exact (Func.next_iff_of_less hterm).mp hnext

/-- The exit of the section still leads to its target. -/
theorem Surrounded.loop_leaves
    {peeledFirst addIncBlock : Bool} {dim : Dim} {size : ℕ} {func'' : Func}
    (hbase : Surroundable allowed nodes func entry exit target spec')
    (hsurrounded : Surrounded allowed nodes func entry exit target func' first last spec)
    (hloop : LoopAround func' func'' first last target peeledFirst dim size addIncBlock) :
    Relation.ReflTransGen func''.graph.Edge last target := by
  obtain ⟨bodyExit, _, hexit, hpath⟩ := hsurrounded.loop_body hbase hloop
  have hcond : func''.graph.Edge (func'.freshBlock + 2) (func'.freshBlock + 1) := by
    change _ ∈ (func''.body (func'.freshBlock + 2)).term.succs
    rw [hloop.cond_body]
    simp [Term.succs]
  have hend : func''.graph.Edge (func'.freshBlock + 1) target := by
    change _ ∈ (func''.body (func'.freshBlock + 1)).term.succs
    rw [hloop.end_body]
    simp [Term.succs]
  exact ((hpath.tail (Func.edge_of_term hexit (by simp))).tail hcond).tail hend

theorem Surrounded.loop_simulates
    {peeledFirst addIncBlock : Bool} {dim : Dim} {size : ℕ} {func'' : Func}
    (hbase : Surroundable allowed nodes func entry exit target spec')
    (hsurrounded : Surrounded allowed nodes func entry exit target func' first last spec)
    (hloop : LoopAround func' func'' first last target peeledFirst dim size addIncBlock)
    {source next : BlockId} (hedge : func'.graph.Edge source next) :
    Relation.ReflTransGen func''.graph.Edge source next := by
  have hinit : func''.graph.Edge func'.freshBlock first := by
    change _ ∈ (func''.body func'.freshBlock).term.succs
    rw [hloop.init_body]
    simp [Term.succs]
  have hsource : source < func'.freshBlock := hsurrounded.wellFormed.lt_of_mem hedge
  by_cases hlast : source = last
  · subst hlast
    have hnext : next ∈ func'.succs source := hedge
    rw [hsurrounded.last_succs] at hnext
    obtain rfl := List.mem_singleton.mp hnext
    exact hsurrounded.loop_leaves hbase hloop
  · by_cases hdom : func'.graph.Dominates first source
    · refine .single ?_
      change next ∈ (func''.body source).term.succs
      rw [hloop.unchanged source hsource hlast hdom]
      exact hedge
    · have hbody := hloop.redirected source hsource hlast hdom
      by_cases hnext : next = first
      · subst hnext
        refine .head ?_ (.single hinit)
        change func'.freshBlock ∈ (func''.body source).term.succs
        rw [hbody, Term.replaceUsesOfWith, Term.succs_map]
        exact List.mem_map.mpr ⟨next, hedge, if_pos rfl⟩
      · refine .single ?_
        change next ∈ (func''.body source).term.succs
        rw [hbody]
        exact Term.mem_replaceUsesOfWith hedge hnext

theorem Surrounded.loop_progress
    {peeledFirst addIncBlock : Bool} {dim : Dim} {size : ℕ} {func'' : Func}
    (hbase : Surroundable allowed nodes func entry exit target spec')
    (hsurrounded : Surrounded allowed nodes func entry exit target func' first last spec)
    (hloop : LoopAround func' func'' first last target peeledFirst dim size addIncBlock) :
    (∀ block ∈ nodes ∪ newBlocks func func'', func'.freshBlock ∉ func''.succs block) ∧
      ∃ term : Term, func''.body exit = { func.body exit with term := term } ∧
        ∀ next ∈ term.succs, func.freshBlock ≤ next := by
  have hfirst : first < func'.freshBlock := by
    rcases hsurrounded.isSection.entry_mem with hmem | hmem
    · exact lt_of_lt_of_le (hbase.nodes_lt first hmem) hsurrounded.fresh_le
    · exact hmem.2
  have htarget : target < func'.freshBlock :=
    lt_of_lt_of_le hbase.target_lt hsurrounded.fresh_le
  constructor
  · intro block hmem hnext
    rw [Func.succs] at hnext
    by_cases hold : block < func'.freshBlock
    · have hmem' : block ∈ nodes ∪ newBlocks func func' :=
        hmem.imp_right fun hnew => ⟨hnew.1, hold⟩
      by_cases hlast : block = last
      · subst hlast
        rw [hloop.exit_body] at hnext
        have heq := List.mem_singleton.mp hnext
        cases addIncBlock <;> grind
      · rw [hsurrounded.loop_inner hbase hloop hmem' hlast] at hnext
        exact Nat.lt_irrefl _ (hsurrounded.wellFormed.succs_lt block _ hnext)
    · have hnew : block < func''.freshBlock := by
        rcases hmem with hnode | hnew
        · exact (hold (lt_of_lt_of_le (hbase.nodes_lt block hnode)
            hsurrounded.fresh_le)).elim
        · exact hnew.2
      rcases hloop.new_cases (not_lt.mp hold) hnew with rfl | rfl | rfl | ⟨hadd, rfl⟩
      · rw [hloop.init_body] at hnext
        exact Nat.ne_of_gt hfirst (List.mem_singleton.mp hnext)
      · rw [hloop.end_body] at hnext
        exact Nat.ne_of_gt htarget (List.mem_singleton.mp hnext)
      · rw [hloop.cond_body] at hnext
        rcases List.mem_pair.mp hnext with heq | heq
        · exact Nat.ne_of_gt hfirst heq
        · grind
      · rw [hloop.inc_body hadd] at hnext
        have heq := List.mem_singleton.mp hnext
        grind
  · rcases hsurrounded.progress with ⟨_, rfl, rfl⟩ | ⟨_, hlast, _, term, hterm, hnew⟩
    · refine ⟨_, hloop.exit_body, fun next hnext => ?_⟩
      rw [List.mem_singleton.mp hnext]
      exact Nat.le_add_right _ _
    · have hne : exit ≠ last := Nat.ne_of_lt (lt_of_lt_of_le hbase.exit_lt hlast)
      refine ⟨term, ?_, hnew⟩
      rw [hsurrounded.loop_inner hbase hloop (.inl hbase.isSection.exit_mem) hne, hterm]

/-- A loop around the section, or around the loops that are there already. -/
theorem Surrounded.createLoopAround
    (hbase : Surroundable allowed nodes func entry exit target spec')
    (hsurrounded : Surrounded allowed nodes func entry exit target func' first last spec)
    (peeledFirst addIncBlock : Bool) (dim : Dim) (size : ℕ) :
    ∃ func'' first' last',
      createLoopAround func' first last peeledFirst dim size addIncBlock =
        some (func'', func'.graph, first', last') ∧
      Surrounded allowed nodes func entry exit target func'' first' last'
        (loopSpec dim size peeledFirst addIncBlock spec) ∧ func.freshBlock ≤ first' := by
  obtain ⟨func'', hcreate, hloop⟩ := createLoopAround_spec hsurrounded.wellFormed
    hsurrounded.last_succs (hsurrounded.target_ne_first hbase) peeledFirst dim size addIncBlock
  have hfirst : first < func'.freshBlock := by
    rcases hsurrounded.isSection.entry_mem with hmem | hmem
    · exact lt_of_lt_of_le (hbase.nodes_lt first hmem) hsurrounded.fresh_le
    · exact hmem.2
  have htarget : target < func'.freshBlock :=
    lt_of_lt_of_le hbase.target_lt hsurrounded.fresh_le
  have hinit : func''.graph.Edge func'.freshBlock first := by
    change _ ∈ (func''.body func'.freshBlock).term.succs
    rw [hloop.init_body]
    simp [Term.succs]
  have hlifts : ∀ {source next : BlockId},
      Relation.ReflTransGen func'.graph.Edge source next →
        Relation.ReflTransGen func''.graph.Edge source next := by
    intro source next hpath
    induction hpath with
    | refl => exact .refl
    | tail _ hedge ih => exact ih.trans (hsurrounded.loop_simulates hbase hloop hedge)
  have hle := hsurrounded.fresh_le
  have hle' := hloop.fresh_lt.1
  refine ⟨func'', _, _, hcreate, ⟨?_, ?_, ?_, ?_, ?_, ?_, ?_, ?_, ?_, ?_, ?_, ?_⟩, hle⟩
  · exact hloop.wellFormed hsurrounded.wellFormed hfirst htarget
  · exact hloop.entry_eq.trans hsurrounded.entry_eq
  · grind
  · exact hsurrounded.loop_section hbase hloop
  · rw [Func.succs, hloop.end_body]
    rfl
  · intro block hnode hne
    have hlast : block ≠ last := by
      rcases hsurrounded.progress with ⟨_, rfl, _⟩ | ⟨_, hlast, _⟩
      · exact hne
      · exact Nat.ne_of_lt (lt_of_lt_of_le (hbase.nodes_lt block hnode) hlast)
    rw [hsurrounded.loop_inner hbase hloop (.inl hnode) hlast,
      hsurrounded.inner block hnode hne]
  · intro block hlt havoids
    exact hsurrounded.loop_around hbase hloop hlt havoids
  · intro block hlt hnot havoids
    exact hsurrounded.loop_outer hbase hloop hlt hnot havoids
  · intro block hblock next hnext
    rcases hloop.mem_succs hsurrounded.wellFormed hnext with
      ⟨_, hold | ⟨hge, _⟩⟩ | ⟨_, rfl | rfl | ⟨hge, _⟩⟩
    · exact hsurrounded.new_succs block hblock next hold
    · exact .inr (.inr (hle.trans hge))
    · rcases hsurrounded.progress with ⟨heq, _⟩ | ⟨hge, _⟩
      · exact .inl heq
      · exact .inr (.inr hge)
    · exact .inr (.inl rfl)
    · exact .inr (.inr (hle.trans hge))
  · exact .inr ⟨hle, hle.trans (Nat.le_succ _), hsurrounded.loop_progress hbase hloop⟩
  · exact (hlifts hsurrounded.enters).head hinit
  · intro source next hedge
    exact hlifts (hsurrounded.simulates source next hedge)

/-- Control goes where it went before, to the section, to its target or to new blocks. -/
theorem Surrounded.edge_cases
    (hbase : Surroundable allowed nodes func entry exit target spec')
    (hsurrounded : Surrounded allowed nodes func entry exit target func' first last spec)
    {source next : BlockId} (hedge : func'.graph.Edge source next) :
    func.graph.Edge source next ∨ next = entry ∨ next = target ∨ func.freshBlock ≤ next := by
  change next ∈ (func'.body source).term.succs at hedge
  by_cases hlt : source < func.freshBlock
  · by_cases hnode : source ∈ nodes
    · by_cases hexit : source = exit
      · subst hexit
        rcases hsurrounded.progress with ⟨_, _, rfl⟩ | ⟨_, _, _, term, hterm, hnew⟩
        · exact .inl hedge
        · rw [hterm] at hedge
          exact .inr (.inr (.inr (hnew next hedge)))
      · rw [hsurrounded.inner source hnode hexit] at hedge
        exact .inl hedge
    · by_cases havoids : func.graph.AvoidsAll nodes source
      · rw [hsurrounded.around source hlt havoids] at hedge
        rcases Term.eq_or_mem_of_replaceUsesOfWith hedge with ⟨rfl, _⟩ | ⟨hmem, _⟩
        · rcases hsurrounded.progress with ⟨rfl, _⟩ | ⟨hge, _⟩
          · exact .inr (.inl rfl)
          · exact .inr (.inr (.inr hge))
        · exact .inl hmem
      · rw [hsurrounded.outer source hlt hnode havoids] at hedge
        exact .inl hedge
  · exact .inr (hsurrounded.new_succs source (not_lt.mp hlt) next hedge)

def optionalLoopSpec
    (dim : Dim) (size : ℕ) (peeledFirst addIncBlock : Bool) (spec : Spec) : Spec :=
  if 1 < size then loopSpec dim size peeledFirst addIncBlock spec else spec

/-- A dominator tree of the function while the loops are made, or an earlier one. -/
def TreeOf (func : Func) (entry target : BlockId) (dt dt' : FlowGraph BlockId) : Prop :=
  dt' = dt ∨ dt'.entry = func.entry ∧ ∀ source next, dt'.Edge source next →
    func.graph.Edge source next ∨ next = entry ∨ next = target ∨ func.freshBlock ≤ next

theorem Surrounded.createLoop
    (hbase : Surroundable allowed nodes func entry exit target spec')
    (hsurrounded : Surrounded allowed nodes func entry exit target func' first last spec)
    {dt dt' : FlowGraph BlockId} (htree : TreeOf func entry target dt dt')
    (dim : Dim) (size : ℕ) (peeledFirst addIncBlock : Bool) :
    ∃ func'' dt'' first' last',
      createLoop dim size peeledFirst addIncBlock (func', dt', first, last) =
        some (func'', dt'', first', last') ∧
      Surrounded allowed nodes func entry exit target func'' first' last'
        (optionalLoopSpec dim size peeledFirst addIncBlock spec) ∧
      TreeOf func entry target dt dt'' ∧
      (1 < size ∨ func.freshBlock ≤ first → func.freshBlock ≤ first') := by
  by_cases hsize : 1 < size
  · obtain ⟨func'', first', last', hcreate, hsurrounded', hge⟩ :=
      hsurrounded.createLoopAround hbase peeledFirst addIncBlock dim size
    refine ⟨func'', func'.graph, first', last', ?_, ?_, ?_, fun _ => hge⟩
    · simp only [WorkitemLoops.createLoop, if_pos hsize, hcreate]
    · rwa [optionalLoopSpec, if_pos hsize]
    · exact .inr ⟨hsurrounded.entry_eq, fun _ _ hedge => hsurrounded.edge_cases hbase hedge⟩
  · refine ⟨func', dt', first, last, ?_, ?_, htree, fun hor => hor.resolve_left hsize⟩
    · simp only [WorkitemLoops.createLoop, if_neg hsize]
    · rwa [optionalLoopSpec, if_neg hsize]

def loopsSpec (sizes : LocalSizes) (peelFirst unrolled : Bool) (spec : Spec) : Spec :=
  optionalLoopSpec .z sizes.z false true
    (optionalLoopSpec .y sizes.y false true
      (optionalLoopSpec .x sizes.x peelFirst (!unrolled) spec))

/-- The loops of a region. -/
theorem Surroundable.createLoops
    (hbase : Surroundable allowed nodes func entry exit target spec)
    (dt : FlowGraph BlockId) (sizes : LocalSizes) (peelFirst unrolled : Bool) :
    ∃ func' dt' first last,
      createLoops sizes peelFirst unrolled (func, dt, entry, exit) =
        some (func', dt', first, last) ∧
      Surrounded allowed nodes func entry exit target func' first last
        (loopsSpec sizes peelFirst unrolled spec) ∧
      TreeOf func entry target dt dt' ∧
      (1 < sizes.x ∨ 1 < sizes.y ∨ 1 < sizes.z → func.freshBlock ≤ first) := by
  have htree : TreeOf func entry target dt dt := .inl rfl
  obtain ⟨func₁, dt₁, first₁, last₁, hcreate₁, hsurrounded₁, htree₁, hfirst₁⟩ :=
    hbase.surrounded.createLoop hbase htree .x sizes.x peelFirst (!unrolled)
  obtain ⟨func₂, dt₂, first₂, last₂, hcreate₂, hsurrounded₂, htree₂, hfirst₂⟩ :=
    hsurrounded₁.createLoop hbase htree₁ .y sizes.y false true
  obtain ⟨func₃, dt₃, first₃, last₃, hcreate₃, hsurrounded₃, htree₃, hfirst₃⟩ :=
    hsurrounded₂.createLoop hbase htree₂ .z sizes.z false true
  refine ⟨func₃, dt₃, first₃, last₃, ?_, hsurrounded₃, htree₃, ?_⟩
  · simp only [WorkitemLoops.createLoops, hcreate₁, hcreate₂, hcreate₃, Option.bind_eq_bind,
      Option.bind_some]
  · rintro (hx | hy | hz)
    · exact hfirst₃ (.inr (hfirst₂ (.inr (hfirst₁ (.inl hx)))))
    · exact hfirst₃ (.inr (hfirst₂ (.inl hy)))
    · exact hfirst₃ (.inl hz)

end Surrounding

end Pocl.WorkitemLoops
