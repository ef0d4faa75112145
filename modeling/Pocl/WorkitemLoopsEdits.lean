import Pocl.WorkitemLoops

/-!
# The edits of the work-item loops pass

What a loop around a region, a copy of a region, and the chaining and purging of copies do
to the blocks of a function.
-/

namespace Pocl.WorkitemLoops

open CodeSections

namespace Term

@[simp] theorem succs_map (f : BlockId → BlockId) (term : Term) :
    (term.map f).succs = term.succs.map f := by
  cases term <;> rfl

theorem eq_branch_of_succs {term : Term} {target : BlockId}
    (hsuccs : term.succs = [target]) : term = .branch [target] := by
  cases term with
  | unreachable => cases hsuccs
  | branch succs => exact congrArg Term.branch hsuccs
  | less dim size body finish => simp [succs] at hsuccs

theorem map_congr {f g : BlockId → BlockId} {term : Term}
    (hagree : ∀ block ∈ term.succs, f block = g block) : term.map f = term.map g := by
  cases term with
  | unreachable => rfl
  | branch succs => exact congrArg Term.branch (List.map_congr_left hagree)
  | less dim size body finish =>
      rw [map, map, hagree body (by simp [succs]), hagree finish (by simp [succs])]

@[simp] theorem map_id (term : Term) : term.map (fun block => block) = term := by
  cases term with
  | unreachable => rfl
  | branch succs => exact congrArg Term.branch (List.map_id' succs)
  | less dim size body finish => rfl

theorem replaceUsesOfWith_of_notMem {old new : BlockId} {term : Term}
    (hnot : old ∉ term.succs) : term.replaceUsesOfWith old new = term := by
  refine (map_congr fun block hblock => ?_).trans term.map_id
  rw [if_neg]
  rintro rfl
  exact hnot hblock

end Term

namespace Func

variable (func : Func)

@[simp] theorem setBody_self (block : BlockId) (content : Block) :
    (func.setBody block content).body block = content :=
  Function.update_self _ _ _

theorem setBody_of_ne {block other : BlockId} (content : Block) (hne : other ≠ block) :
    (func.setBody block content).body other = func.body other :=
  Function.update_of_ne hne _ _

@[simp] theorem setBody_freshBlock (block : BlockId) (content : Block) :
    (func.setBody block content).freshBlock = func.freshBlock := rfl

@[simp] theorem setBody_entry (block : BlockId) (content : Block) :
    (func.setBody block content).entry = func.entry := rfl

@[simp] theorem setTerm_self (block : BlockId) (term : Term) :
    (func.setTerm block term).body block = { func.body block with term := term } :=
  Function.update_self _ _ _

theorem setTerm_of_ne {block other : BlockId} (term : Term) (hne : other ≠ block) :
    (func.setTerm block term).body other = func.body other :=
  Function.update_of_ne hne _ _

@[simp] theorem setTerm_freshBlock (block : BlockId) (term : Term) :
    (func.setTerm block term).freshBlock = func.freshBlock := rfl

@[simp] theorem setTerm_entry (block : BlockId) (term : Term) :
    (func.setTerm block term).entry = func.entry := rfl

@[simp] theorem createBlock_self :
    func.createBlock.body func.freshBlock = ⟨[], none, false, .branch []⟩ :=
  Function.update_self _ _ _

theorem createBlock_of_ne {block : BlockId} (hne : block ≠ func.freshBlock) :
    func.createBlock.body block = func.body block :=
  Function.update_of_ne hne _ _

@[simp] theorem createBlock_freshBlock :
    func.createBlock.freshBlock = func.freshBlock + 1 := rfl

@[simp] theorem createBlock_entry : func.createBlock.entry = func.entry := rfl

theorem replaceUsesOfWith_of_mem {blocks : List BlockId} {old new block : BlockId}
    (hmem : block ∈ blocks) :
    (func.replaceUsesOfWith blocks old new).body block =
      { func.body block with
        term := (func.body block).term.replaceUsesOfWith old new } :=
  if_pos hmem

theorem replaceUsesOfWith_of_notMem {blocks : List BlockId} {old new block : BlockId}
    (hnot : block ∉ blocks) :
    (func.replaceUsesOfWith blocks old new).body block = func.body block :=
  if_neg hnot

@[simp] theorem replaceUsesOfWith_freshBlock (blocks : List BlockId) (old new : BlockId) :
    (func.replaceUsesOfWith blocks old new).freshBlock = func.freshBlock := rfl

@[simp] theorem replaceUsesOfWith_entry (blocks : List BlockId) (old new : BlockId) :
    (func.replaceUsesOfWith blocks old new).entry = func.entry := rfl

theorem mem_preds {block bb : BlockId} :
    bb ∈ func.preds block ↔ bb < func.freshBlock ∧ block ∈ func.succs bb := by
  simp [preds]

/-- The blocks are numbered from zero, and control stays in the function. -/
structure WellFormed : Prop where
  entry_lt : func.entry < func.freshBlock
  succs_lt : ∀ block, ∀ target ∈ func.succs block, target < func.freshBlock
  succs_fresh : ∀ block, func.freshBlock ≤ block → func.succs block = []

variable {func}

theorem WellFormed.lt_of_mem (hfunc : func.WellFormed) {block target : BlockId}
    (hmem : target ∈ func.succs block) : block < func.freshBlock := by
  by_contra hle
  rw [hfunc.succs_fresh block (not_lt.mp hle)] at hmem
  cases hmem

theorem WellFormed.dominatesWithin_iff
    (hfunc : func.WellFormed) {rounds : ℕ} (hrounds : func.freshBlock ≤ rounds)
    {dominator block : BlockId} :
    func.graph.dominatesWithin rounds dominator block = true ↔
      func.graph.Dominates dominator block := by
  have hnodes : ∀ node, func.graph.Reachable node →
      node ∈ Finset.range func.freshBlock := by
    intro node hreach
    rw [Finset.mem_range]
    cases hreach with
    | refl => exact hfunc.entry_lt
    | tail _ hedge => exact hfunc.succs_lt _ _ hedge
  refine FlowGraph.dominatesWithin_iff hnodes ?_
  rwa [Finset.card_range]

theorem WellFormed.createBlock (hfunc : func.WellFormed) : func.createBlock.WellFormed where
  entry_lt := Nat.lt_succ_of_lt hfunc.entry_lt
  succs_lt := by
    intro block target hmem
    unfold succs at hmem
    by_cases hblock : block = func.freshBlock
    · subst hblock
      rw [func.createBlock_self] at hmem
      cases hmem
    · rw [func.createBlock_of_ne hblock] at hmem
      exact Nat.lt_succ_of_lt (hfunc.succs_lt block target hmem)
  succs_fresh := by
    intro block hle
    unfold succs
    rw [func.createBlock_of_ne (Nat.ne_of_gt hle)]
    exact hfunc.succs_fresh block (Nat.le_of_succ_le hle)

theorem WellFormed.createBlock_graph (hfunc : func.WellFormed) :
    func.createBlock.graph = func.graph := by
  have hsuccs : func.createBlock.succs = func.succs := by
    funext block
    by_cases hblock : block = func.freshBlock
    · subst hblock
      rw [hfunc.succs_fresh _ le_rfl]
      unfold succs
      rw [func.createBlock_self]
      rfl
    · unfold succs
      rw [func.createBlock_of_ne hblock]
  unfold graph
  rw [hsuccs, createBlock_entry]

end Func

/-- A loop around the code from `entryBB` to `exitBB`. -/
structure LoopAround
    (func func' : Func) (entryBB exitBB oldExit : BlockId) (peeledFirst : Bool) (dim : Dim)
    (size : ℕ) (addIncBlock : Bool) : Prop where
  entry_eq : func'.entry = func.entry
  fresh_eq : func'.freshBlock = func.freshBlock + if addIncBlock then 4 else 3
  init_body : func'.body func.freshBlock =
    ⟨if peeledFirst then [.first dim, .setFirst 0] else [.constant dim 0], none, false,
      .branch [entryBB]⟩
  end_body : func'.body (func.freshBlock + 1) = ⟨[], none, false, .branch [oldExit]⟩
  cond_body : func'.body (func.freshBlock + 2) =
    ⟨[], none, false, .less dim size entryBB (func.freshBlock + 1)⟩
  inc_body : addIncBlock = true → func'.body (func.freshBlock + 3) =
    ⟨[.increment dim], none, false, .branch [func.freshBlock + 2]⟩
  exit_body : func'.body exitBB =
    { func.body exitBB with
      term := .branch [func.freshBlock + if addIncBlock then 3 else 2] }
  redirected : ∀ block < func.freshBlock, block ≠ exitBB →
    ¬ func.graph.Dominates entryBB block →
      func'.body block =
        { func.body block with
          term := (func.body block).term.replaceUsesOfWith entryBB func.freshBlock }
  unchanged : ∀ block < func.freshBlock, block ≠ exitBB →
    func.graph.Dominates entryBB block → func'.body block = func.body block
  rest : ∀ block, func'.freshBlock ≤ block → func'.body block = func.body block

theorem appendIncBlock_spec
    {func : Func} {after oldExit : BlockId} (dim : Dim)
    (hsuccs : func.succs after = [oldExit]) (hafter : after < func.freshBlock) :
    ∃ func', appendIncBlock func after dim = some (func', func.freshBlock) ∧
      func'.entry = func.entry ∧ func'.freshBlock = func.freshBlock + 1 ∧
      func'.body func.freshBlock = ⟨[.increment dim], none, false, .branch [oldExit]⟩ ∧
      func'.body after = { func.body after with term := .branch [func.freshBlock] } ∧
      ∀ block, block ≠ after → block ≠ func.freshBlock →
        func'.body block = func.body block := by
  have hget : (func.succs after)[0]? = some oldExit := by rw [hsuccs]; rfl
  have hne : after ≠ func.freshBlock := Nat.ne_of_lt hafter
  have hterm := Term.eq_branch_of_succs hsuccs
  refine ⟨(func.createBlock.replaceUsesOfWith [after] oldExit func.freshBlock).setBody
      func.freshBlock ⟨[.increment dim], none, false, .branch [oldExit]⟩,
    by rw [appendIncBlock, hget]; rfl, rfl, rfl, Func.setBody_self _ _ _, ?_, ?_⟩
  · rw [Func.setBody_of_ne _ _ hne, Func.replaceUsesOfWith_of_mem _ (by simp),
      func.createBlock_of_ne hne, hterm]
    simp [Term.replaceUsesOfWith, Term.map]
  · intro block hblock hfresh
    rw [Func.setBody_of_ne _ _ hfresh,
      Func.replaceUsesOfWith_of_notMem _ (by simpa using hblock),
      func.createBlock_of_ne hfresh]

theorem redirectPreds_of_dominates
    {func : Func} (hfunc : func.WellFormed) {entryBB forInitBB block : BlockId}
    (hdom : func.graph.Dominates entryBB block) :
    (redirectPreds func func.graph entryBB forInitBB).body block = func.body block := by
  refine Func.replaceUsesOfWith_of_notMem _ ?_
  rw [List.mem_filter, (hfunc.dominatesWithin_iff le_rfl).mpr hdom]
  simp

theorem redirectPreds_of_not_dominates
    {func : Func} (hfunc : func.WellFormed) {entryBB forInitBB block : BlockId}
    (hdom : ¬ func.graph.Dominates entryBB block) :
    (redirectPreds func func.graph entryBB forInitBB).body block =
      { func.body block with
        term := (func.body block).term.replaceUsesOfWith entryBB forInitBB } := by
  rw [← hfunc.dominatesWithin_iff le_rfl] at hdom
  by_cases hmem : entryBB ∈ func.succs block
  · refine Func.replaceUsesOfWith_of_mem _ ?_
    rw [List.mem_filter, Func.mem_preds]
    exact ⟨⟨hfunc.lt_of_mem hmem, hmem⟩, by simpa using hdom⟩
  · rw [Term.replaceUsesOfWith_of_notMem hmem]
    refine Func.replaceUsesOfWith_of_notMem _ ?_
    rw [List.mem_filter, Func.mem_preds]
    exact fun hpred => hmem hpred.1.2

theorem createThreeBlocks_of_lt {func : Func} {block : BlockId}
    (hlt : block < func.freshBlock) :
    func.createBlock.createBlock.createBlock.body block = func.body block := by
  rw [Func.createBlock_of_ne _ (by simp; grind), Func.createBlock_of_ne _ (by simp; grind),
    Func.createBlock_of_ne _ (Nat.ne_of_lt hlt)]

theorem createThreeBlocks_of_le {func : Func} {block : BlockId}
    (hle : func.freshBlock + 3 ≤ block) :
    func.createBlock.createBlock.createBlock.body block = func.body block := by
  rw [Func.createBlock_of_ne _ (by simp; grind), Func.createBlock_of_ne _ (by simp; grind),
    Func.createBlock_of_ne _ (by grind)]

theorem createThreeBlocks_new {func : Func} {block : BlockId}
    (hle : func.freshBlock ≤ block) (hlt : block < func.freshBlock + 3) :
    func.createBlock.createBlock.createBlock.body block = ⟨[], none, false, .branch []⟩ := by
  by_cases hthird : block = func.freshBlock + 2
  · subst hthird
    exact Func.createBlock_self _
  rw [Func.createBlock_of_ne _ hthird]
  by_cases hsecond : block = func.freshBlock + 1
  · subst hsecond
    exact Func.createBlock_self _
  rw [Func.createBlock_of_ne _ hsecond]
  obtain rfl : block = func.freshBlock := by grind
  exact Func.createBlock_self _

theorem redirectPreds_of_notMem
    {func : Func} {dt : FlowGraph BlockId} {entryBB forInitBB block : BlockId}
    (hnotMem : entryBB ∉ func.succs block) :
    (redirectPreds func dt entryBB forInitBB).body block = func.body block := by
  refine Func.replaceUsesOfWith_of_notMem _ ?_
  rw [List.mem_filter, Func.mem_preds]
  exact fun hpred => hnotMem hpred.1.2

theorem Func.WellFormed.createThreeBlocks_graph {func : Func} (hfunc : func.WellFormed) :
    func.createBlock.createBlock.createBlock.graph = func.graph := by
  rw [hfunc.createBlock.createBlock.createBlock_graph, hfunc.createBlock.createBlock_graph,
    hfunc.createBlock_graph]

/-- The function before the increment is added: the initialisation goes to the loop, and
the loop goes to the condition, which is empty. -/
def initLoop (func : Func) (entryBB exitBB oldExit : BlockId) (stores : List IdStore) : Func :=
  ((redirectPreds func.createBlock.createBlock.createBlock
    func.createBlock.createBlock.createBlock.graph entryBB func.freshBlock).setBody
      func.freshBlock ⟨stores, none, false, .branch [entryBB]⟩).replaceUsesOfWith [exitBB]
        oldExit (func.freshBlock + 2)

section InitLoop

variable {func : Func} {entryBB exitBB oldExit block : BlockId} {stores : List IdStore}

theorem initLoop_init (hexit : exitBB < func.freshBlock) :
    (initLoop func entryBB exitBB oldExit stores).body func.freshBlock =
      ⟨stores, none, false, .branch [entryBB]⟩ := by
  rw [initLoop, Func.replaceUsesOfWith_of_notMem _ (by simpa using Nat.ne_of_gt hexit),
    Func.setBody_self]

theorem initLoop_of_ne (hblock : block ≠ exitBB) (hfresh : block ≠ func.freshBlock) :
    (initLoop func entryBB exitBB oldExit stores).body block =
      (redirectPreds func.createBlock.createBlock.createBlock
        func.createBlock.createBlock.createBlock.graph entryBB func.freshBlock).body block := by
  rw [initLoop, Func.replaceUsesOfWith_of_notMem _ (by simpa using hblock),
    Func.setBody_of_ne _ _ hfresh]

theorem initLoop_exit
    (stores : List IdStore) (hexit : exitBB < func.freshBlock)
    (hsuccs : func.succs exitBB = [oldExit]) (hne : oldExit ≠ entryBB) :
    (initLoop func entryBB exitBB oldExit stores).body exitBB =
      { func.body exitBB with term := .branch [func.freshBlock + 2] } := by
  have hterm := Term.eq_branch_of_succs hsuccs
  have hnotMem : entryBB ∉ func.createBlock.createBlock.createBlock.succs exitBB := by
    rw [Func.succs, createThreeBlocks_of_lt hexit, hterm]
    simpa [Term.succs] using hne.symm
  rw [initLoop, Func.replaceUsesOfWith_of_mem _ (by simp),
    Func.setBody_of_ne _ _ (Nat.ne_of_lt hexit), redirectPreds_of_notMem hnotMem,
    createThreeBlocks_of_lt hexit, hterm]
  simp [Term.replaceUsesOfWith, Term.map]

theorem initLoop_empty
    (hexit : exitBB < func.freshBlock) (hlt : func.freshBlock < block)
    (hlt' : block < func.freshBlock + 3) :
    (initLoop func entryBB exitBB oldExit stores).body block =
      ⟨[], none, false, .branch []⟩ := by
  have hnew := createThreeBlocks_new (Nat.le_of_lt hlt) hlt'
  rw [initLoop_of_ne (by grind) (Nat.ne_of_gt hlt),
    redirectPreds_of_notMem (by simp [Func.succs, hnew, Term.succs]), hnew]

theorem initLoop_rest
    (hfunc : func.WellFormed) (hexit : exitBB < func.freshBlock)
    (hle : func.freshBlock + 3 ≤ block) :
    (initLoop func entryBB exitBB oldExit stores).body block = func.body block := by
  have hnil : func.createBlock.createBlock.createBlock.succs block = [] :=
    hfunc.createBlock.createBlock.createBlock.succs_fresh block hle
  rw [initLoop_of_ne (by grind) (by grind), redirectPreds_of_notMem (by simp [hnil]),
    createThreeBlocks_of_le hle]

theorem initLoop_of_dominates
    (hfunc : func.WellFormed) (hlt : block < func.freshBlock) (hblock : block ≠ exitBB)
    (hdom : func.graph.Dominates entryBB block) :
    (initLoop func entryBB exitBB oldExit stores).body block = func.body block := by
  rw [← hfunc.createThreeBlocks_graph] at hdom
  rw [initLoop_of_ne hblock (Nat.ne_of_lt hlt),
    redirectPreds_of_dominates hfunc.createBlock.createBlock.createBlock hdom,
    createThreeBlocks_of_lt hlt]

theorem initLoop_of_not_dominates
    (hfunc : func.WellFormed) (hlt : block < func.freshBlock) (hblock : block ≠ exitBB)
    (hdom : ¬ func.graph.Dominates entryBB block) :
    (initLoop func entryBB exitBB oldExit stores).body block =
      { func.body block with
        term := (func.body block).term.replaceUsesOfWith entryBB func.freshBlock } := by
  rw [← hfunc.createThreeBlocks_graph] at hdom
  rw [initLoop_of_ne hblock (Nat.ne_of_lt hlt),
    redirectPreds_of_not_dominates hfunc.createBlock.createBlock.createBlock hdom,
    createThreeBlocks_of_lt hlt]

/-- The increment goes between the exit and the condition. -/
theorem initLoop_increment
    (stores : List IdStore) (hexit : exitBB < func.freshBlock)
    (hsuccs : func.succs exitBB = [oldExit]) (hne : oldExit ≠ entryBB) (dim : Dim) (addIncBlock : Bool) :
    ∃ func₁ : Func,
      (if addIncBlock then
          (appendIncBlock (initLoop func entryBB exitBB oldExit stores) exitBB dim).map Prod.fst
        else some (initLoop func entryBB exitBB oldExit stores)) = some func₁ ∧
      func₁.entry = func.entry ∧
      func₁.freshBlock = func.freshBlock + (if addIncBlock then 4 else 3) ∧
      (addIncBlock = true → func₁.body (func.freshBlock + 3) =
        ⟨[.increment dim], none, false, .branch [func.freshBlock + 2]⟩) ∧
      func₁.body exitBB =
        { func.body exitBB with
          term := .branch [func.freshBlock + if addIncBlock then 3 else 2] } ∧
      ∀ block, block ≠ exitBB →
        block < func.freshBlock + 3 ∨ func₁.freshBlock ≤ block →
          func₁.body block = (initLoop func entryBB exitBB oldExit stores).body block := by
  have hbody := initLoop_exit stores hexit hsuccs hne
  cases addIncBlock with
  | false => exact ⟨_, rfl, rfl, rfl, by simp, hbody, fun _ _ _ => rfl⟩
  | true =>
      have hsuccs' : (initLoop func entryBB exitBB oldExit stores).succs exitBB =
          [func.freshBlock + 2] := by
        rw [Func.succs, hbody]
        rfl
      obtain ⟨func₁, hinc, hentry, hfresh, hincBody, hexitBody, hsame⟩ :=
        appendIncBlock_spec dim hsuccs' (Nat.lt_add_right 3 hexit)
      refine ⟨func₁, by rw [if_pos rfl, hinc]; rfl, hentry, hfresh, fun _ => hincBody, ?_, ?_⟩
      · rw [hexitBody, hbody]
        rfl
      · intro block hblock hcase
        refine hsame block hblock ?_
        change block ≠ func.freshBlock + 3
        change func₁.freshBlock = func.freshBlock + 3 + 1 at hfresh
        grind

end InitLoop

theorem createLoopAround_spec
    {func : Func} {entryBB exitBB oldExit : BlockId}
    (hfunc : func.WellFormed) (hsuccs : func.succs exitBB = [oldExit])
    (hne : oldExit ≠ entryBB) (peeledFirst : Bool) (dim : Dim) (size : ℕ)
    (addIncBlock : Bool) :
    ∃ func', createLoopAround func entryBB exitBB peeledFirst dim size addIncBlock =
        some (func', func.graph, func.freshBlock, func.freshBlock + 1) ∧
      LoopAround func func' entryBB exitBB oldExit peeledFirst dim size addIncBlock := by
  have hexit : exitBB < func.freshBlock :=
    hfunc.lt_of_mem (show oldExit ∈ func.succs exitBB by rw [hsuccs]; simp)
  obtain ⟨func₁, hinc, hentry, hfresh, hincBody, hexitBody, hsame⟩ :=
    initLoop_increment (if peeledFirst then [.first dim, .setFirst 0]
      else [.constant dim 0]) hexit hsuccs hne dim addIncBlock
  refine ⟨(func₁.setTerm (func.freshBlock + 2)
      (.less dim size entryBB (func.freshBlock + 1))).setTerm (func.freshBlock + 1)
        (.branch [oldExit]), ?_, ?_⟩
  · rw [← hfunc.createThreeBlocks_graph]
    simp only [createLoopAround, hsuccs]
    cases addIncBlock with
    | false =>
        obtain rfl := Option.some.inj hinc
        rfl
    | true =>
        rw [if_pos rfl] at hinc
        change Option.bind ((appendIncBlock (initLoop _ _ _ _ _) exitBB dim).map Prod.fst) _ = _
        rw [hinc]
        rfl
  · have hkept : ∀ block, block ≠ func.freshBlock + 1 → block ≠ func.freshBlock + 2 →
        ((func₁.setTerm (func.freshBlock + 2)
          (.less dim size entryBB (func.freshBlock + 1))).setTerm (func.freshBlock + 1)
            (.branch [oldExit])).body block = func₁.body block := by
      intro block hfirst hsecond
      rw [Func.setTerm_of_ne _ _ hfirst, Func.setTerm_of_ne _ _ hsecond]
    refine ⟨hentry, hfresh, ?_, ?_, ?_, ?_, ?_, ?_, ?_, ?_⟩
    · rw [hkept _ (by grind) (by grind), hsame _ (Nat.ne_of_gt hexit) (.inl (by grind)),
        initLoop_init hexit]
    · rw [Func.setTerm_self, Func.setTerm_of_ne _ _ (by grind),
        hsame _ (by grind) (.inl (by grind)), initLoop_empty hexit (by grind) (by grind)]
    · rw [Func.setTerm_of_ne _ _ (by grind), Func.setTerm_self,
        hsame _ (by grind) (.inl (by grind)), initLoop_empty hexit (by grind) (by grind)]
    · intro hadd
      rw [hkept _ (by grind) (by grind), hincBody hadd]
    · rw [hkept _ (by grind) (by grind), hexitBody]
    · intro block hlt hblock hdom
      rw [hkept _ (by grind) (by grind), hsame block hblock (.inl (by grind)),
        initLoop_of_not_dominates hfunc hlt hblock hdom]
    · intro block hlt hblock hdom
      rw [hkept _ (by grind) (by grind), hsame block hblock (.inl (by grind)),
        initLoop_of_dominates hfunc hlt hblock hdom]
    · intro block hle
      change func₁.freshBlock ≤ block at hle
      have hge : func.freshBlock + 3 ≤ block := by
        rw [hfresh] at hle
        cases addIncBlock <;> grind
      rw [hkept _ (by grind) (by grind), hsame block (by grind) (.inr hle),
        initLoop_rest hfunc hexit hge]

/-- The clone of a block of a region. -/
def cloneOf (func : Func) (region : ParallelRegion) (block : BlockId) : BlockId :=
  func.freshBlock + region.blocks.idxOf block

section Clones

variable {func : Func} {region : ParallelRegion} {block : BlockId}

theorem le_cloneOf : func.freshBlock ≤ cloneOf func region block :=
  Nat.le_add_right _ _

theorem replicate_clone (hblock : block ∈ region.blocks) :
    (replicate func region).1.body (cloneOf func region block) =
      { func.body block with
        term := (func.body block).term.map fun target =>
          if target ∈ region.blocks then cloneOf func region target else target } := by
  have hget : region.blocks[cloneOf func region block - func.freshBlock]? = some block := by
    rw [cloneOf, Nat.add_sub_cancel_left]
    exact List.getElem?_idxOf hblock
  simp only [replicate, if_pos le_cloneOf, hget]
  rfl

theorem replicate_of_lt (hlt : block < func.freshBlock) :
    (replicate func region).1.body block = func.body block := by
  simp only [replicate, if_neg (not_le.mpr hlt)]

theorem replicate_of_le (hle : (replicate func region).1.freshBlock ≤ block) :
    (replicate func region).1.body block = func.body block := by
  have hget : region.blocks[block - func.freshBlock]? = none := by
    refine List.getElem?_eq_none ?_
    exact Nat.le_sub_of_add_le' hle
  have hfresh : func.freshBlock ≤ block := le_trans (Nat.le_add_right _ _) hle
  simp only [replicate, if_pos hfresh, hget]

theorem replicate_entryBB :
    (replicate func region).2.entryBB = region.entryBB.map (cloneOf func region) := by
  simp only [ParallelRegion.entryBB, replicate, List.getElem?_map]
  rfl

theorem replicate_exitBB :
    (replicate func region).2.exitBB = region.exitBB.map (cloneOf func region) := by
  simp only [ParallelRegion.exitBB, replicate, List.getElem?_map]
  rfl

/-- The clones go to clones where the originals go to blocks of the region. -/
theorem replicate_spec :
    (replicate func region).1.entry = func.entry ∧
      (∀ block ∈ region.blocks,
        (replicate func region).1.body (cloneOf func region block) =
          { func.body block with
            term := (func.body block).term.map fun target =>
              if target ∈ region.blocks then cloneOf func region target else target }) ∧
      (∀ block, block < func.freshBlock ∨ (replicate func region).1.freshBlock ≤ block →
        (replicate func region).1.body block = func.body block) ∧
      (replicate func region).2.entryBB = region.entryBB.map (cloneOf func region) ∧
      (replicate func region).2.exitBB = region.exitBB.map (cloneOf func region) := by
  refine ⟨rfl, fun block hblock => replicate_clone hblock, ?_, replicate_entryBB,
    replicate_exitBB⟩
  rintro block (hlt | hle)
  · exact replicate_of_lt hlt
  · exact replicate_of_le hle

end Clones

theorem tailBB_eq
    {func : Func} {region : ParallelRegion} {exit successor : BlockId}
    (hexit : region.exitBB = some exit) (hsuccs : func.succs exit = [successor]) :
    tailBB func region = some exit := by
  have hterm : (func.body exit).term ≠ .unreachable := by
    intro heq
    rw [Func.succs, heq] at hsuccs
    cases hsuccs
  simp [tailBB, hexit, hterm]

theorem chainAfter_spec
    {func : Func} {region previous : ParallelRegion}
    {tail entry exit successor target : BlockId}
    (htail : previous.exitBB = some tail) (hsuccs : func.succs tail = [successor])
    (hentry : region.entryBB = some entry) (hexit : region.exitBB = some exit)
    (hexitSuccs : func.succs exit = [target]) (hne : exit ≠ tail) :
    ∃ func', chainAfter func region previous = some func' ∧
      func'.entry = func.entry ∧ func'.freshBlock = func.freshBlock ∧
      func'.body tail = { func.body tail with term := .branch [entry] } ∧
      func'.body exit = { func.body exit with term := .branch [successor] } ∧
      ∀ block, block ≠ tail → block ≠ exit → func'.body block = func.body block := by
  have htailTerm := Term.eq_branch_of_succs hsuccs
  have hexitTerm := Term.eq_branch_of_succs hexitSuccs
  have hlength : ((func.setTerm tail (.branch [entry])).succs exit).length = 1 := by
    unfold Func.succs at hexitSuccs ⊢
    rw [Func.setTerm_of_ne _ _ hne, hexitSuccs]
    rfl
  have hexitBody : (func.setTerm tail (.branch [entry])).body exit = func.body exit :=
    Func.setTerm_of_ne _ _ hne
  refine ⟨(func.setTerm tail (.branch [entry])).setTerm exit (.branch [successor]),
    ?_, rfl, rfl, ?_, ?_, ?_⟩
  · rw [chainAfter, tailBB_eq htail hsuccs]
    simp only [Option.bind_eq_bind, Option.bind_some, hsuccs, hentry, hexit, htailTerm,
      Term.setSuccessor, List.set_cons_zero, hlength, if_true, hexitBody, hexitTerm]
  · rw [Func.setTerm_of_ne _ _ hne.symm, Func.setTerm_self]
  · rw [Func.setTerm_self, hexitBody]
  · intro block htailNe hexitNe
    rw [Func.setTerm_of_ne _ _ hexitNe, Func.setTerm_of_ne _ _ htailNe]

/-- The successors of a block up to an index are in the region or new. -/
structure PurgedTo
    (region : ParallelRegion) (func func' : Func) (block : BlockId)
    (succs succs' : List BlockId) (count : ℕ) : Prop where
  fresh_le : func.freshBlock ≤ func'.freshBlock
  entry_eq : func'.entry = func.entry
  block_eq : func'.body block = { func.body block with term := .branch succs' }
  later : ∀ index, count ≤ index → succs'[index]? = succs[index]?
  kept : ∀ target ∈ region.blocks, target ∈ succs → target ∈ succs'
  earlier : ∀ index < count, ∀ target, succs'[index]? = some target →
    target ∈ region.blocks ∧ target ∈ succs ∨
      func.freshBlock ≤ target ∧ target < func'.freshBlock
  dead : ∀ other, func.freshBlock ≤ other → other < func'.freshBlock →
    func'.body other = ⟨[], none, false, .unreachable⟩
  same : ∀ other, other ≠ block → other < func.freshBlock ∨ func'.freshBlock ≤ other →
    func'.body other = func.body other

section Successors

variable {region : ParallelRegion} {func func' : Func} {block successor : BlockId}
  {succs succs' : List BlockId} {count : ℕ}

theorem PurgedTo.keep
    (hpurged : PurgedTo region func func' block succs succs' count)
    (hsuccessor : succs'[count]? = some successor) (hinside : successor ∈ region.blocks) :
    PurgedTo region func func' block succs succs' (count + 1) := by
  have hmem : successor ∈ succs := by
    rw [hpurged.later count le_rfl] at hsuccessor
    exact List.mem_of_getElem? hsuccessor
  refine { hpurged with
    later := fun index hle => hpurged.later index (Nat.le_of_succ_le hle)
    earlier := fun index hlt target htarget => ?_ }
  by_cases hindex : index = count
  · rw [hindex, hsuccessor] at htarget
    cases htarget
    exact .inl ⟨hinside, hmem⟩
  · exact hpurged.earlier index (by omega) target htarget

/-- The next successor is replaced by a new block. -/
theorem PurgedTo.replace
    (hpurged : PurgedTo region func func' block succs succs' count)
    (hblock : block < func.freshBlock)
    (hsuccessor : succs'[count]? = some successor) (houtside : successor ∉ region.blocks) :
    PurgedTo region func
      ((func'.createBlock.setTerm func'.freshBlock .unreachable).setTerm block
        (.branch (succs'.set count func'.freshBlock)))
      block succs (succs'.set count func'.freshBlock) (count + 1) := by
  have hne : block ≠ func'.freshBlock :=
    Nat.ne_of_lt (lt_of_lt_of_le hblock hpurged.fresh_le)
  refine ⟨hpurged.fresh_le.trans (Nat.le_succ _), hpurged.entry_eq, ?_, ?_, ?_, ?_, ?_, ?_⟩
  · rw [Func.setTerm_self, Func.setTerm_of_ne _ _ hne, Func.createBlock_of_ne _ hne,
      hpurged.block_eq]
  · intro index hle
    rw [List.getElem?_set_ne (by omega)]
    exact hpurged.later index (Nat.le_of_succ_le hle)
  · intro target htarget hsource
    obtain ⟨index, hindex⟩ := List.getElem?_of_mem (hpurged.kept target htarget hsource)
    refine List.mem_of_getElem? (i := index) ?_
    rw [List.getElem?_set_ne]
    · exact hindex
    · rintro rfl
      rw [hsuccessor] at hindex
      cases hindex
      exact houtside htarget
  · intro index hlt target htarget
    change _ ∨ func.freshBlock ≤ target ∧ target < func'.freshBlock + 1
    by_cases hindex : index = count
    · subst hindex
      have hlength := List.getElem?_eq_some_iff.mp hsuccessor
      rw [List.getElem?_set_self hlength.1] at htarget
      cases htarget
      exact .inr ⟨hpurged.fresh_le, Nat.lt_succ_self _⟩
    · rw [List.getElem?_set_ne (Ne.symm hindex)] at htarget
      exact (hpurged.earlier index (by omega) target htarget).imp_right
        fun hnew => ⟨hnew.1, Nat.lt_succ_of_lt hnew.2⟩
  · intro other hle hlt
    change other < func'.freshBlock + 1 at hlt
    rw [Func.setTerm_of_ne _ _ (by grind)]
    by_cases hother : other = func'.freshBlock
    · subst hother
      rw [Func.setTerm_self, Func.createBlock_self]
    · rw [Func.setTerm_of_ne _ _ hother, Func.createBlock_of_ne _ hother]
      exact hpurged.dead other hle (by grind)
  · intro other hother hcase
    change other < func.freshBlock ∨ func'.freshBlock + 1 ≤ other at hcase
    have hle := hpurged.fresh_le
    have hfresh : other ≠ func'.freshBlock := by grind
    rw [Func.setTerm_of_ne _ _ hother, Func.setTerm_of_ne _ _ hfresh,
      Func.createBlock_of_ne _ hfresh]
    exact hpurged.same other hother (hcase.imp_right Nat.le_of_succ_le)

theorem PurgedTo.succ
    {func'' : Func} {next : Option BlockId} {new new' : List BlockId}
    (hpurged : PurgedTo region func func' block succs succs' count)
    (hblock : block < func.freshBlock)
    (hstep : purgeSuccessor region block next (func', new) count = some (func'', new')) :
    ∃ succs'', PurgedTo region func func'' block succs succs'' (count + 1) := by
  have hne : block ≠ func'.freshBlock :=
    Nat.ne_of_lt (lt_of_lt_of_le hblock hpurged.fresh_le)
  have hterm : (func'.body block).term = .branch succs' := by rw [hpurged.block_eq]
  have hsuccs : func'.succs block = succs' := by
    rw [Func.succs, hterm]
    rfl
  unfold purgeSuccessor at hstep
  simp only [hsuccs, Option.bind_eq_bind] at hstep
  obtain ⟨successor, hsuccessor, hstep⟩ := Option.bind_eq_some_iff.mp hstep
  split at hstep
  next hinside =>
    cases hstep
    exact ⟨succs', hpurged.keep hsuccessor hinside⟩
  next houtside =>
    obtain ⟨_, _, hstep⟩ := Option.bind_eq_some_iff.mp hstep
    cases hstep
    rw [Func.setTerm_of_ne _ _ hne, Func.createBlock_of_ne _ hne, hterm]
    exact ⟨_, hpurged.replace hblock hsuccessor houtside⟩

end Successors

/-- All successors of a block are in the region or new. -/
theorem purgeSuccessors_spec
    {region : ParallelRegion} {func : Func} {block : BlockId} {succs : List BlockId}
    {next : Option BlockId} {new : List BlockId}
    (hterm : (func.body block).term = .branch succs) (hblock : block < func.freshBlock)
    (count : ℕ) :
    ∀ (func' : Func) (new' : List BlockId),
      (List.range count).foldlM (purgeSuccessor region block next) (func, new) =
        some (func', new') →
      ∃ succs', PurgedTo region func func' block succs succs' count := by
  induction count with
  | zero =>
      intro func' new' hfold
      cases hfold
      refine ⟨succs, le_rfl, rfl, by rw [← hterm], fun _ _ => rfl, fun _ _ hmem => hmem, ?_,
        ?_, fun _ _ _ => rfl⟩
      · exact fun _ hlt => (Nat.not_lt_zero _ hlt).elim
      · exact fun other hle hlt => (not_lt.mpr hle hlt).elim
  | succ count ih =>
      intro func'' new'' hfold
      rw [List.range_succ, List.foldlM_append] at hfold
      obtain ⟨⟨func', new'⟩, hfirst, hstep⟩ := Option.bind_eq_some_iff.mp hfold
      obtain ⟨succs', hpurged⟩ := ih func' new' hfirst
      rw [List.foldlM_cons] at hstep
      obtain ⟨result, hsuccessor, hresult⟩ := Option.bind_eq_some_iff.mp hstep
      rw [List.foldlM_nil] at hresult
      cases hresult
      exact hpurged.succ hblock hsuccessor

/-- The blocks of a list, but not the exit, have no successors outside the region. -/
structure Purged
    (region : ParallelRegion) (exit : BlockId) (todo : List BlockId) (func func' : Func) :
    Prop where
  fresh_le : func.freshBlock ≤ func'.freshBlock
  entry_eq : func'.entry = func.entry
  purged : ∀ block ∈ todo, block ≠ exit → ∃ succs,
    func'.body block = { func.body block with term := .branch succs } ∧
      (∀ target ∈ region.blocks, target ∈ func.succs block → target ∈ succs) ∧
      ∀ target ∈ succs, target ∈ region.blocks ∧ target ∈ func.succs block ∨
        func.freshBlock ≤ target ∧ target < func'.freshBlock
  dead : ∀ block, func.freshBlock ≤ block → block < func'.freshBlock →
    func'.body block = ⟨[], none, false, .unreachable⟩
  same : ∀ block, block ∉ todo ∨ block = exit →
    block < func.freshBlock ∨ func'.freshBlock ≤ block →
      func'.body block = func.body block

section Purging

variable {region : ParallelRegion} {exit block : BlockId} {rest : List BlockId}
  {func middle func' : Func}

theorem Purged.skip_exit (hpurged : Purged region exit rest func func') :
    Purged region exit (exit :: rest) func func' where
  fresh_le := hpurged.fresh_le
  entry_eq := hpurged.entry_eq
  purged other hother hne :=
    hpurged.purged other ((List.mem_cons.mp hother).resolve_left hne) hne
  dead := hpurged.dead
  same other hother := hpurged.same other (hother.imp_left fun hnotMem hmem =>
    hnotMem (List.mem_cons_of_mem _ hmem))

theorem PurgedTo.target_cases
    {succs succs' : List BlockId}
    (hdone : PurgedTo region func middle block succs succs' succs.length)
    {target : BlockId} (htarget : target ∈ succs') :
    target ∈ region.blocks ∧ target ∈ succs ∨
      func.freshBlock ≤ target ∧ target < middle.freshBlock := by
  obtain ⟨index, hindex⟩ := List.getElem?_of_mem htarget
  have hlt : index < succs.length := by
    by_contra hle
    rw [hdone.later index (not_lt.mp hle), List.getElem?_eq_none (not_lt.mp hle)] at hindex
    cases hindex
  exact hdone.earlier index hlt target hindex

/-- A block is purged, and then the blocks behind it. -/
theorem PurgedTo.purged_cons
    {succs succs' : List BlockId} (hterm : (func.body block).term = .branch succs)
    (hdone : PurgedTo region func middle block succs succs' succs.length)
    (hpurged : Purged region exit rest middle func') (hne : block ≠ exit)
    (hblock : block < func.freshBlock) (hrest : ∀ other ∈ rest, other < func.freshBlock)
    (hnot : block ∉ rest) :
    Purged region exit (block :: rest) func func' := by
  have hsuccs : func.succs block = succs := by
    rw [Func.succs, hterm]
    rfl
  refine ⟨hdone.fresh_le.trans hpurged.fresh_le, hpurged.entry_eq.trans hdone.entry_eq,
    ?_, ?_, ?_⟩
  · intro other hother hotherExit
    rcases List.mem_cons.mp hother with rfl | hmem
    · refine ⟨succs', ?_, ?_, ?_⟩
      · rw [hpurged.same _ (.inl hnot) (.inl (lt_of_lt_of_le hblock hdone.fresh_le)),
          hdone.block_eq]
      · intro target htarget hsource
        exact hdone.kept target htarget (hsuccs ▸ hsource)
      · intro target htarget
        rw [hsuccs]
        exact (hdone.target_cases htarget).imp_right
          fun hnew => ⟨hnew.1, lt_of_lt_of_le hnew.2 hpurged.fresh_le⟩
    · obtain ⟨succs'', hbody, hkeeps, htargets⟩ := hpurged.purged other hmem hotherExit
      have hsame : middle.body other = func.body other :=
        hdone.same other (fun heq => hnot (heq ▸ hmem)) (.inl (hrest other hmem))
      rw [hsame] at hbody
      have hsuccsOther : middle.succs other = func.succs other := by
        rw [Func.succs, hsame]
        rfl
      rw [hsuccsOther] at hkeeps htargets
      refine ⟨succs'', hbody, hkeeps, fun target htarget => ?_⟩
      exact (htargets target htarget).imp_right
        fun hnew => ⟨hdone.fresh_le.trans hnew.1, hnew.2⟩
  · intro other hle hlt
    by_cases hmiddle : other < middle.freshBlock
    · have hnotRest : other ∉ rest := fun hmem => not_lt.mpr hle (hrest other hmem)
      rw [hpurged.same other (.inl hnotRest) (.inl hmiddle)]
      exact hdone.dead other hle hmiddle
    · exact hpurged.dead other (not_lt.mp hmiddle) hlt
  · intro other hother hcase
    have hotherBlock : other ≠ block := by
      rintro rfl
      rcases hother with hnotMem | heq
      · exact hnotMem List.mem_cons_self
      · exact hne heq
    have hotherRest : other ∉ rest ∨ other = exit :=
      hother.imp_left fun hnotMem hmem => hnotMem (List.mem_cons_of_mem _ hmem)
    rw [hpurged.same other hotherRest
      (hcase.imp_left fun hlt => lt_of_lt_of_le hlt hdone.fresh_le)]
    exact hdone.same other hotherBlock
      (hcase.imp_right fun hge => hpurged.fresh_le.trans hge)

end Purging

theorem purgeFrom_spec
    {region : ParallelRegion} {exit : BlockId} (hexit : region.exitBB = some exit)
    (todo : List BlockId) :
    ∀ (func func' : Func) (new new' : List BlockId),
      (∀ block ∈ todo, block < func.freshBlock ∧
        ∃ succs, (func.body block).term = .branch succs) →
      todo.Nodup → purgeFrom region todo (func, new) = some (func', new') →
      Purged region exit todo func func' := by
  induction todo with
  | nil =>
      intro func func' new new' _ _ hpurge
      cases hpurge
      exact ⟨le_rfl, rfl, by simp, fun block hle hlt => (not_lt.mpr hle hlt).elim,
        fun _ _ _ => rfl⟩
  | cons block rest ih =>
      intro func func' new new' hblocks hnodup hpurge
      obtain ⟨hblock, succs, hterm⟩ := hblocks block List.mem_cons_self
      obtain ⟨hnot, hnodupRest⟩ := List.nodup_cons.mp hnodup
      have hrest : ∀ other ∈ rest, other < func.freshBlock ∧
          ∃ succs, (func.body other).term = .branch succs :=
        fun other hother => hblocks other (List.mem_cons_of_mem _ hother)
      unfold purgeFrom at hpurge
      split at hpurge
      next heq =>
        rw [hexit] at heq
        cases heq
        exact (ih func func' new new' hrest hnodupRest hpurge).skip_exit
      next hne =>
        obtain ⟨⟨middle, newMiddle⟩, hfirst, hlater⟩ := Option.bind_eq_some_iff.mp hpurge
        have hlength : (func.succs block).length = succs.length := by
          rw [Func.succs, hterm]
          rfl
        dsimp only at hfirst
        rw [hlength] at hfirst
        obtain ⟨succs', hdone⟩ :=
          purgeSuccessors_spec hterm hblock succs.length middle newMiddle hfirst
        have hblocksRest : ∀ other ∈ rest, other < middle.freshBlock ∧
            ∃ succs, (middle.body other).term = .branch succs := by
          intro other hother
          obtain ⟨hlt, hbranch⟩ := hrest other hother
          have hkept : middle.body other = func.body other :=
            hdone.same other (fun heq => hnot (heq ▸ hother)) (.inl hlt)
          exact ⟨lt_of_lt_of_le hlt hdone.fresh_le, by rwa [hkept]⟩
        have hpurged := ih middle func' newMiddle new' hblocksRest hnodupRest hlater
        exact hdone.purged_cons hterm hpurged (fun heq => hne (heq ▸ hexit)) hblock
          (fun other hother => (hrest other hother).1) hnot

/-- The region has the new blocks at its end. -/
theorem purge_spec
    {region region' : ParallelRegion} {func func' : Func} {entry exit : BlockId}
    (hentry : region.entryBB = some entry) (hexit : region.exitBB = some exit)
    (hblocks : ∀ block ∈ region.blocks, block < func.freshBlock ∧
      ∃ succs, (func.body block).term = .branch succs)
    (hnodup : region.blocks.Nodup) (hpurge : purge func region = some (func', region')) :
    Purged region exit region.blocks func func' ∧ region'.entryBB = some entry ∧
      region'.exitBB = some exit := by
  obtain ⟨⟨middle, new⟩, hfrom, hresult⟩ := Option.bind_eq_some_iff.mp hpurge
  cases hresult
  have hget : ∀ (index : ℕ) (block : BlockId), region.blocks[index]? = some block →
      (region.blocks ++ new)[index]? = some block := by
    intro index block hblock
    rw [List.getElem?_append_left (List.getElem?_eq_some_iff.mp hblock).1]
    exact hblock
  exact ⟨purgeFrom_spec hexit region.blocks func _ [] new hblocks hnodup hfrom,
    hget _ _ hentry, hget _ _ hexit⟩

end Pocl.WorkitemLoops
