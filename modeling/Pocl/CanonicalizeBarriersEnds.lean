import Pocl.CanonicalizeBarriersStages

/-!
# Barriers at the entry and at the exits

The first stage splits the entry block at its first instruction and the second
stage every exit block before its terminator; a barrier is then placed in the
empty part.  Blocks that are barrier blocks already stay as they are, if the
assertion about their predecessor lets them pass.
-/

namespace Pocl

namespace CanonicalizeBarriers

/-- The block holds a barrier and nothing else. -/
def OnlyBarrier (func : Func) (block : BlockId) : Prop :=
  ∃ id, shapes func block = [barrierShape id]

theorem endsWithBarrier_iff {func : Func} {block : BlockId} :
    endsWithBarrier func block = true ↔
      ∃ shape, (shapes func block).getLast? = some shape ∧
        shape.barrier = true := by
  unfold endsWithBarrier shapes
  rw [List.getLast?_map]
  cases (func.body block).instrs.getLast? with
  | none => simp
  | some instr => simp [shapeOf]

theorem onlyBarrier_iff {func : Func} {block : BlockId} :
    OnlyBarrier func block ↔
      (func.body block).instrs.length = 1 ∧
        (func.body block).instrs.head?.any fun instr =>
          instr.kind.isBarrier := by
  unfold OnlyBarrier shapes
  cases hinstrs : (func.body block).instrs with
  | nil => simp
  | cons instr rest =>
      cases rest with
      | nil =>
          constructor
          · rintro ⟨id, hid⟩
            have hshape : shapeOf instr = barrierShape id := by simpa using hid
            have hbarrier := congrArg Shape.barrier hshape
            exact ⟨rfl, by simpa [shapeOf, barrierShape] using hbarrier⟩
          · rintro ⟨_, hbarrier⟩
            have hshape : (shapeOf instr).barrier := by
              simpa [shapeOf] using hbarrier
            exact ⟨instr.id, by rw [List.map_singleton, shapeOf_eq_barrier hshape]⟩
      | cons second rest => simp

theorem isBarrierBlock_of_not
    {assertions : Bool} {func : Func} {block : BlockId}
    (hnot : ¬OnlyBarrier func block) :
    isBarrierBlock assertions func block = some false := by
  unfold isBarrierBlock
  rw [if_neg (mt onlyBarrier_iff.mpr hnot)]

/-- The assertion about a barrier block. -/
def Passes (assertions : Bool) (func : Func) (block : BlockId) : Prop :=
  assertions = true → block ≠ func.entry → OnlyBarrier func block →
    (predecessors func block).length = 1

theorem isBarrierBlock_of_passes
    {assertions : Bool} {func : Func} {block : BlockId}
    (honly : OnlyBarrier func block) (hpasses : Passes assertions func block) :
    isBarrierBlock assertions func block = some true := by
  unfold isBarrierBlock
  rw [if_pos (onlyBarrier_iff.mp honly), if_neg]
  intro hfails
  simp only [Bool.and_eq_true, decide_eq_true_eq] at hfails
  obtain ⟨⟨hassertions, hnone⟩, hentry⟩ := hfails
  obtain ⟨source, hsource⟩ :=
    List.length_eq_one_iff.mp (hpasses hassertions hentry honly)
  rw [getSinglePredecessor_eq_some_iff.mpr hsource] at hnone
  cases hnone

theorem isBarrierBlock_eq_none
    {assertions : Bool} {func : Func} {block : BlockId}
    (hfails : ¬Passes assertions func block) :
    isBarrierBlock assertions func block = none := by
  unfold Passes at hfails
  push Not at hfails
  obtain ⟨hassertions, hentry, honly, hlength⟩ := hfails
  unfold isBarrierBlock
  rw [if_pos (onlyBarrier_iff.mp honly), if_pos]
  simp only [Bool.and_eq_true, decide_eq_true_eq]
  refine ⟨⟨hassertions, ?_⟩, hentry⟩
  cases hsingle : getSinglePredecessor func block with
  | none => rfl
  | some source =>
      rw [getSinglePredecessor_eq_some_iff.mp hsingle] at hlength
      exact absurd rfl hlength

/-- A barrier is placed in an empty block. -/
structure Places (func : Func) (block : BlockId) (after : Func) : Prop where
  order_eq : after.order = func.order
  freshBlock_eq : after.freshBlock = func.freshBlock
  freshValue_eq : after.freshValue = func.freshValue + 1
  empty : shapes func block = []
  shapes_block : shapes after block = [barrierShape func.freshValue]
  shapes_other : ∀ other, other ≠ block → shapes after other = shapes func other
  term_eq : ∀ other, (after.body other).term = (func.body other).term

theorem createBarrier_places
    {func : Func} {block : BlockId} (hempty : shapes func block = []) :
    Places func block (createBarrier func block) := by
  have hnot : endsWithBarrier func block = false := by
    cases hends : endsWithBarrier func block with
    | false => rfl
    | true =>
        obtain ⟨shape, hlast, _⟩ := endsWithBarrier_iff.mp hends
        rw [hempty] at hlast
        cases hlast
  have hinstrs : (func.body block).instrs = [] := List.map_eq_nil_iff.mp hempty
  unfold createBarrier
  rw [if_neg (by simp [hnot])]
  constructor
  · rfl
  · rfl
  · rfl
  · exact hempty
  · simp only [shapes, Func.setBody, Function.update_self, hinstrs]
    rfl
  · intro other hother
    simp only [shapes, Func.setBody, Function.update_of_ne hother]
  · intro other
    by_cases hother : other = block
    · subst hother
      simp only [Func.setBody, Function.update_self]
    · simp only [Func.setBody, Function.update_of_ne hother]

theorem createBarrier_of_endsWithBarrier
    {func : Func} {block : BlockId} (hends : endsWithBarrier func block = true) :
    createBarrier func block = func :=
  if_pos hends

namespace Places

variable {func after : Func} {block : BlockId}

theorem succs_eq (hplaces : Places func block after) (other : BlockId) :
    after.succs other = func.succs other :=
  congrArg Terminator.succs (hplaces.term_eq other)

theorem entry_eq (hplaces : Places func block after) : after.entry = func.entry := by
  unfold Func.entry
  rw [hplaces.order_eq]

theorem predecessors_eq (hplaces : Places func block after) (other : BlockId) :
    predecessors after other = predecessors func other := by
  unfold predecessors
  simp only [hplaces.order_eq, hplaces.succs_eq]

theorem mem_instrIds
    (hplaces : Places func block after) (hblocks : func.HasBlocks)
    (hblock : block ∈ func.order) :
    (instrIds after).Perm (func.freshValue :: instrIds func) := by
  have hnodup := hblocks.nodup
  unfold instrIds
  rw [hplaces.order_eq]
  generalize func.order = order at hblock hnodup
  induction order with
  | nil => cases hblock
  | cons head rest ih =>
      rw [List.nodup_cons] at hnodup
      rw [List.flatMap_cons, List.flatMap_cons]
      by_cases hhead : head = block
      · subst hhead
        have hrest : (rest.flatMap fun other =>
            (shapes after other).map Shape.id) =
              rest.flatMap fun other => (shapes func other).map Shape.id := by
          apply List.flatMap_congr
          intro other hother
          have hne : other ≠ head := fun heq => hnodup.1 (heq ▸ hother)
          rw [hplaces.shapes_other other hne]
        rw [hrest, hplaces.shapes_block, hplaces.empty]
        exact List.Perm.refl _
      · have hrest : block ∈ rest := by
          rcases List.mem_cons.mp hblock with heq | hrest
          · exact absurd heq.symm hhead
          · exact hrest
        rw [hplaces.shapes_other head hhead]
        exact ((ih hrest hnodup.2).append_left _).trans List.perm_middle

theorem wellFormed
    (hplaces : Places func block after) (hwf : WellFormed func)
    (hblock : block ∈ func.order) : WellFormed after := by
  have hperm := hplaces.mem_instrIds hwf.blocks hblock
  constructor
  · constructor
    · rw [hplaces.order_eq]
      exact hwf.blocks.nonempty
    · rw [hplaces.order_eq]
      exact hwf.blocks.nodup
    · rw [hplaces.order_eq, hplaces.freshBlock_eq]
      exact hwf.blocks.bound
    · intro other hother target htarget
      rw [hplaces.succs_eq] at htarget
      rw [hplaces.order_eq] at hother ⊢
      exact hwf.blocks.succs_mem other hother target htarget
  · rw [hplaces.entry_eq, hplaces.predecessors_eq]
    exact hwf.entry_pred
  · rw [hperm.nodup_iff, List.nodup_cons]
    exact ⟨fun hmem => lt_irrefl _ (hwf.ids_lt _ hmem), hwf.ids_nodup⟩
  · intro id hid
    rw [hplaces.freshValue_eq]
    rcases List.mem_cons.mp (hperm.mem_iff.mp hid) with rfl | hid
    · exact Nat.lt_succ_self _
    · exact (hwf.ids_lt id hid).trans (Nat.lt_succ_self _)
  · intro other hother
    rw [hplaces.order_eq] at hother
    by_cases heq : other = block
    · rw [heq, hplaces.shapes_block]
      exact List.pairwise_singleton _ _
    · rw [hplaces.shapes_other other heq]
      exact hwf.phis_first other hother
  · intro shape hshape
    rw [hplaces.entry_eq] at hshape
    by_cases heq : func.entry = block
    · rw [heq, hplaces.shapes_block] at hshape
      rw [List.mem_singleton.mp hshape]
      rfl
    · rw [hplaces.shapes_other _ heq] at hshape
      exact hwf.entry_phi shape hshape

theorem ring_iff
    (hplaces : Places func block after) {blocks : Set BlockId}
    (hblock : block ∉ blocks) : Ring after blocks ↔ Ring func blocks := by
  have hshapes : ∀ other ∈ blocks, shapes after other = shapes func other := by
    intro other hother
    exact hplaces.shapes_other other fun heq => hblock (heq ▸ hother)
  constructor
  · intro hring
    exact hring.of_agree (fun other _ => hplaces.order_eq ▸ id)
      (fun other hother => (hshapes other hother).symm)
      (fun other _ => (hplaces.succs_eq other).symm)
      (fun other _ => (hplaces.predecessors_eq other).symm)
  · intro hring
    exact hring.of_agree (fun other _ => hplaces.order_eq ▸ id) hshapes
      (fun other _ => hplaces.succs_eq other)
      (fun other _ => hplaces.predecessors_eq other)

theorem hasRing_iff
    (hplaces : Places func block after)
    (hafter : ∀ blocks, Ring after blocks → block ∉ blocks)
    (hfunc : ∀ blocks, Ring func blocks → block ∉ blocks) :
    HasRing after ↔ HasRing func := by
  constructor
  · rintro ⟨blocks, hring⟩
    exact ⟨blocks, (hplaces.ring_iff (hafter blocks hring)).mp hring⟩
  · rintro ⟨blocks, hring⟩
    exact ⟨blocks, (hplaces.ring_iff (hfunc blocks hring)).mpr hring⟩

end Places

/-- Functions with the same terminators, whose blocks differ only in the words
of exits. -/
theorem runs_of_terms_eq
    {func after : Func} (inside : Set BlockId)
    (hterm : ∀ block ∈ inside, (after.body block).term = (func.body block).term)
    (hclosed : ∀ block ∈ inside, ∀ target ∈ func.succs block, target ∈ inside)
    (hword : ∀ block ∈ inside, func.succs block ≠ [] →
      blockWord after block = blockWord func block)
    (hexits : ∀ block ∈ inside, func.succs block = [] → ∀ id,
      Token.Below
        (Token.markLeaves (blockWord func block ++ [.leave id]))
        (Token.markLeaves (blockWord after block ++ [.leave id])))
    {start : BlockId} {word : List Token} (hruns : Runs func start word)
    (hstart : start ∈ inside) :
    ∃ other, Runs after start other ∧
      Token.Below (Token.markLeaves word) (Token.markLeaves other) := by
  induction hruns with
  | stop start => exact ⟨[], Runs.stop start, Token.Below.refl _⟩
  | leave start hexit =>
      have hexitAfter : after.succs start = [] := by
        unfold Func.succs at hexit ⊢
        rw [hterm start hstart]
        exact hexit
      have hleave := Runs.leave start hexitAfter
      rw [hterm start hstart] at hleave
      exact ⟨_, hleave, hexits start hstart hexit _⟩
  | go start choice target rest htarget _ ih =>
      have hmem := List.mem_of_getElem? htarget
      obtain ⟨other, hother, hbelow⟩ := ih (hclosed start hstart target hmem)
      have htargetAfter : (after.succs start)[choice]? = some target := by
        unfold Func.succs at htarget ⊢
        rw [hterm start hstart]
        exact htarget
      have hgo := Runs.go start choice target other htargetAfter hother
      rw [hterm start hstart, hword start hstart (List.ne_nil_of_mem hmem)] at hgo
      refine ⟨_, hgo, ?_⟩
      simp only [Token.markLeaves_append]
      exact (hbelow.append _).append _

namespace Places

variable {func after : Func} {block : BlockId}

theorem blockWord_block (hplaces : Places func block after) :
    blockWord after block = [.barrier] := by
  unfold blockWord
  rw [hplaces.shapes_block]
  rfl

theorem blockWord_empty (hplaces : Places func block after) :
    blockWord func block = [] := by
  unfold blockWord
  rw [hplaces.empty]
  rfl

theorem blockWord_other
    (hplaces : Places func block after) {other : BlockId} (hne : other ≠ block) :
    blockWord after other = blockWord func other := by
  unfold blockWord
  rw [hplaces.shapes_other other hne]

/-- A barrier before the function is left does not show in marked words. -/
theorem sameRuns_of_exit
    (hplaces : Places func block after) (hblocks : func.HasBlocks)
    (hexit : func.succs block = []) : SameRuns func after := by
  have hword : ∀ other, func.succs other ≠ [] →
      blockWord after other = blockWord func other := by
    intro other hsuccs
    exact hplaces.blockWord_other fun heq => hsuccs (heq ▸ hexit)
  constructor
  · intro word hruns
    rw [hplaces.entry_eq]
    apply runs_of_terms_eq {other | other ∈ func.order}
      (fun other _ => hplaces.term_eq other)
      hblocks.succs_mem (fun other _ => hword other) ?_ hruns hblocks.entry_mem
    intro other _ _ id
    by_cases heq : other = block
    · rw [heq, hplaces.blockWord_block, hplaces.blockWord_empty]
      exact Token.below_barrier _
    · rw [hplaces.blockWord_other heq]
      exact Token.Below.refl _
  · intro word hruns
    rw [hplaces.entry_eq] at hruns
    apply runs_of_terms_eq {other | other ∈ func.order}
      (fun other _ => (hplaces.term_eq other).symm)
      ?_ ?_ ?_ hruns hblocks.entry_mem
    · intro other hother target htarget
      rw [hplaces.succs_eq] at htarget
      exact hblocks.succs_mem other hother target htarget
    · intro other _ hsuccs
      rw [hplaces.succs_eq] at hsuccs
      exact (hword other hsuccs).symm
    · intro other _ _ id
      by_cases heq : other = block
      · rw [heq, hplaces.blockWord_block, hplaces.blockWord_empty]
        exact Token.barrier_below _
      · rw [hplaces.blockWord_other heq]
        exact Token.Below.refl _

theorem stage_of_exit
    (hplaces : Places func block after) (hwf : WellFormed func)
    (hblock : block ∈ func.order) (hexit : func.succs block = []) :
    Stage func after := by
  refine ⟨hplaces.wellFormed hwf hblock, hplaces.entry_eq,
    hplaces.sameRuns_of_exit hwf.blocks hexit, ?_⟩
  apply hplaces.hasRing_iff
  · intro blocks hring
    exact hring.exit_not_mem ((hplaces.succs_eq block).trans hexit)
  · intro blocks hring
    exact hring.exit_not_mem hexit

end Places

section Passes

variable {assertions : Bool} {func after : Func} {block new : BlockId} {index : ℕ}

theorem passes_congr {other : BlockId} (hentry : after.entry = func.entry)
    (hshapes : shapes after other = shapes func other)
    (hpreds : (predecessors after other).length =
      (predecessors func other).length) :
    Passes assertions after other ↔ Passes assertions func other := by
  unfold Passes OnlyBarrier
  rw [hentry, hshapes, hpreds]

theorem Splits.passes_other
    (hsplits : Splits func block index after new) (hblocks : func.HasBlocks)
    (hblock : block ∈ func.order) {other : BlockId}
    (hother : other ∈ func.order) (hne : other ≠ block) :
    Passes assertions after other ↔ Passes assertions func other := by
  have hnew : other ≠ new := fun heq =>
    hsplits.new_not_mem hblocks (heq ▸ hother)
  apply passes_congr (hsplits.entry_eq hblocks)
    (hsplits.shapes_other other hne hnew)
  rw [hsplits.predecessors_old hblocks hblock hnew, List.length_map]

theorem Splits.passes_new
    (hsplits : Splits func block index after new) (hblocks : func.HasBlocks)
    (hblock : block ∈ func.order) : Passes assertions after new := by
  intro _ _ _
  rw [hsplits.predecessors_new hblocks hblock]
  rfl

theorem Places.passes_other
    (hplaces : Places func block after) {other : BlockId} (hne : other ≠ block) :
    Passes assertions after other ↔ Passes assertions func other :=
  passes_congr hplaces.entry_eq (hplaces.shapes_other other hne)
    (congrArg List.length (hplaces.predecessors_eq other))

end Passes

/-- The assertion holds at every exit of the function. -/
def ExitsPass (assertions : Bool) (func : Func) : Prop :=
  ∀ block ∈ func.order, func.succs block = [] → Passes assertions func block

/-- What the first stage establishes. -/
structure EntryStage (assertions : Bool) (func after : Func) : Prop where
  wellFormed : WellFormed after
  entry_eq : after.entry = func.entry
  onlyBarrier : OnlyBarrier after after.entry
  hasRing_iff : HasRing after ↔ HasRing func
  exitsPass_iff : ExitsPass assertions after ↔ ExitsPass assertions func
  forward : ∀ word, Runs func func.entry word →
    ∃ other, Runs after after.entry other ∧
      Token.Below (Token.markLeaves (.barrier :: word)) (Token.markLeaves other)
  backward : ∀ word, Runs after after.entry word →
    ∃ other, Runs func func.entry other ∧
      Token.Below (Token.markLeaves word) (Token.markLeaves (.barrier :: other))

theorem OnlyBarrier.blockWord_eq
    {func : Func} {block : BlockId} (honly : OnlyBarrier func block) :
    blockWord func block = [.barrier] := by
  obtain ⟨id, hid⟩ := honly
  unfold blockWord
  rw [hid]
  rfl

theorem OnlyBarrier.runs_cases
    {func : Func} {block : BlockId} (honly : OnlyBarrier func block)
    {word : List Token} (hruns : Runs func block word) :
    word = [] ∨ ∃ rest, word = .barrier :: rest := by
  cases hruns with
  | stop => exact Or.inl rfl
  | leave hexit =>
      rw [honly.blockWord_eq]
      exact Or.inr ⟨_, rfl⟩
  | go index target rest htarget hrest =>
      rw [honly.blockWord_eq]
      exact Or.inr ⟨_, rfl⟩

theorem entryStage_refl
    {assertions : Bool} {func : Func} (hwf : WellFormed func)
    (honly : OnlyBarrier func func.entry) : EntryStage assertions func func := by
  refine ⟨hwf, rfl, honly, Iff.rfl, Iff.rfl, ?_, ?_⟩
  · intro word hruns
    rcases honly.runs_cases hruns with rfl | ⟨rest, rfl⟩
    · obtain ⟨rest, hrest⟩ := exists_runs_through func func.entry
      rw [honly.blockWord_eq] at hrest
      exact ⟨_, hrest, Token.below_append _ _⟩
    · exact ⟨_, hruns, Token.barrier_below _⟩
  · intro word hruns
    rcases honly.runs_cases hruns with rfl | ⟨rest, rfl⟩
    · exact ⟨[], hruns, Token.below_nil _⟩
    · exact ⟨_, hruns, Token.below_barrier _⟩

/-- Nothing leads back to the entry, so a barrier in it shows once. -/
theorem Places.runs_of_entry
    {func after : Func} (hplaces : Places func func.entry after)
    (hwf : WellFormed func) {new : BlockId} (hsuccs : func.succs func.entry = [new]) :
    (∀ word, Runs func func.entry word →
      ∃ other, Runs after func.entry other ∧
        Token.Below (Token.markLeaves (.barrier :: word))
          (Token.markLeaves other)) ∧
      ∀ word, Runs after func.entry word →
        ∃ other, Runs func func.entry other ∧
          Token.Below (Token.markLeaves word)
            (Token.markLeaves (.barrier :: other)) := by
  have hsuccsAfter : after.succs func.entry = [new] :=
    (hplaces.succs_eq _).trans hsuccs
  have hclosed : ∀ block ∈ func.order, ∀ target ∈ func.succs block,
      target ∈ func.order ∧ target ≠ func.entry := by
    intro block hblock target htarget
    refine ⟨hwf.blocks.succs_mem block hblock target htarget, ?_⟩
    rintro rfl
    have hpred := mem_predecessors.mpr ⟨hblock, htarget⟩
    rw [hwf.entry_pred] at hpred
    cases hpred
  have hnew : new ∈ func.order ∧ new ≠ func.entry :=
    hclosed func.entry hwf.blocks.entry_mem new (by simp [hsuccs])
  have hbranch := branchWord_of_single hsuccs
  constructor
  · intro word hruns
    cases hruns with
    | stop =>
        obtain ⟨rest, hrest⟩ := exists_runs_through after func.entry
        rw [hplaces.blockWord_block] at hrest
        exact ⟨_, hrest, Token.below_append _ _⟩
    | leave _ hexit =>
        rw [hsuccs] at hexit
        cases hexit
    | go _ choice target rest htarget hrest =>
        have htargetNew : target = new := by
          rw [hsuccs] at htarget
          exact List.mem_singleton.mp (List.mem_of_getElem? htarget)
        subst htargetNew
        obtain ⟨other, hother, hbelow⟩ :=
          runs_of_terms_eq {block | block ∈ func.order ∧ block ≠ func.entry}
            (fun block _ => hplaces.term_eq block)
            (fun block hblock => hclosed block hblock.1)
            (fun block hblock _ => hplaces.blockWord_other hblock.2)
            (fun block hblock _ id => by
              rw [hplaces.blockWord_other hblock.2]
              exact Token.Below.refl _)
            hrest hnew
        have hgo := Runs.go func.entry 0 target other
          (by rw [hsuccsAfter]; rfl) hother
        rw [hplaces.term_eq, hplaces.blockWord_block, hbranch] at hgo
        rw [hbranch, hplaces.blockWord_empty]
        exact ⟨_, hgo, hbelow.append [.barrier]⟩
  · intro word hruns
    cases hruns with
    | stop => exact ⟨[], Runs.stop _, Token.below_nil _⟩
    | leave _ hexit =>
        rw [hsuccsAfter] at hexit
        cases hexit
    | go _ choice target rest htarget hrest =>
        have htargetNew : target = new := by
          rw [hsuccsAfter] at htarget
          exact List.mem_singleton.mp (List.mem_of_getElem? htarget)
        subst htargetNew
        obtain ⟨other, hother, hbelow⟩ :=
          runs_of_terms_eq {block | block ∈ func.order ∧ block ≠ func.entry}
            (fun block _ => (hplaces.term_eq block).symm)
            (fun block hblock target htarget =>
              hclosed block hblock.1 target (hplaces.succs_eq block ▸ htarget))
            (fun block hblock _ => (hplaces.blockWord_other hblock.2).symm)
            (fun block hblock _ id => by
              rw [hplaces.blockWord_other hblock.2]
              exact Token.Below.refl _)
            hrest hnew
        have hgo := Runs.go func.entry 0 target other (by rw [hsuccs]; rfl) hother
        rw [hplaces.blockWord_empty, hbranch] at hgo
        rw [hplaces.term_eq, hbranch, hplaces.blockWord_block]
        exact ⟨_, hgo, hbelow.append [.barrier]⟩

theorem entryStage_of_split
    {assertions : Bool} {func middle after : Func} {new : BlockId}
    (hwf : WellFormed func)
    (hsplits : Splits func func.entry 0 middle new)
    (hplaces : Places middle func.entry after) :
    EntryStage assertions func after := by
  have hentry := hwf.blocks.entry_mem
  have hstage : Stage func middle := by
    apply hsplits.stage hwf hentry
    intro blocks hring hmem
    exact absurd hmem (hring.entry_not_mem hwf)
  have hwfMiddle := hstage.wellFormed
  have hentryMiddle := hstage.entry_eq
  have hentryMem : func.entry ∈ middle.order := by
    rw [← hentryMiddle]
    exact hwfMiddle.blocks.entry_mem
  have hwfAfter := hplaces.wellFormed hwfMiddle hentryMem
  have hentryAfter : after.entry = func.entry :=
    hplaces.entry_eq.trans hentryMiddle
  have hplacesEntry : Places middle middle.entry after := by
    rw [hentryMiddle]
    exact hplaces
  have hrunsEntry := hplacesEntry.runs_of_entry hwfMiddle
    (hentryMiddle ▸ hsplits.succs_block)
  constructor
  · exact hwfAfter
  · exact hentryAfter
  · rw [hentryAfter]
    exact ⟨_, hplaces.shapes_block⟩
  · rw [← hstage.hasRing_iff]
    apply hplaces.hasRing_iff
    · intro blocks hring
      rw [← hentryAfter]
      exact hring.entry_not_mem hwfAfter
    · intro blocks hring
      rw [← hentryMiddle]
      exact hring.entry_not_mem hwfMiddle
  · have hother : ∀ block ∈ func.order, block ≠ func.entry →
        (Passes assertions after block ↔ Passes assertions func block) := by
      intro block hblock hne
      exact (hplaces.passes_other hne).trans
        (hsplits.passes_other hwf.blocks hentry hblock hne)
    have hsuccsOther : ∀ block ∈ func.order, block ≠ func.entry →
        after.succs block = func.succs block := by
      intro block hblock hne
      have hnew : block ≠ new := fun heq =>
        hsplits.new_not_mem hwf.blocks (heq ▸ hblock)
      exact (hplaces.succs_eq block).trans (hsplits.succs_other hne hnew)
    constructor
    · intro hpass block hblock hexit hassertions hne
      have hblockAfter : block ∈ after.order := by
        rw [hplaces.order_eq, hsplits.mem_order hentry]
        exact Or.inr hblock
      rw [← hsuccsOther block hblock hne] at hexit
      exact (hother block hblock hne).mp (hpass block hblockAfter hexit)
        hassertions hne
    · intro hpass block hblock hexit hassertions hne
      rw [hentryAfter] at hne
      rw [hplaces.order_eq, hsplits.mem_order hentry] at hblock
      rcases hblock with rfl | hblock
      · exact (hplaces.passes_other hne).mpr
          (hsplits.passes_new hwf.blocks hentry) hassertions (hentryAfter ▸ hne)
      · rw [hsuccsOther block hblock hne] at hexit
        exact (hother block hblock hne).mpr (hpass block hblock hexit)
          hassertions (hentryAfter ▸ hne)
  · intro word hruns
    have hmiddle := hsplits.runs_forward hwf.blocks hruns hentry
    rw [← hentryMiddle] at hmiddle
    rw [hplaces.entry_eq]
    exact hrunsEntry.1 word hmiddle
  · intro word hruns
    rw [hplaces.entry_eq] at hruns
    obtain ⟨middleWord, hmiddle, hbelow⟩ := hrunsEntry.2 word hruns
    rw [hentryMiddle] at hmiddle
    obtain ⟨other, hother, hbegins⟩ :=
      (hsplits.runs_backward hwf.blocks hentry hmiddle).1 hentry
    refine ⟨other, hother, hbelow.trans ?_⟩
    exact Token.below_of_begins
      (Token.markLeaves_begins (List.cons_prefix_cons.mpr ⟨rfl, hbegins⟩))

theorem barrierEntry_stage
    (assertions : Bool) {func : Func} (hwf : WellFormed func) :
    ∃ after, barrierEntry assertions func = some after ∧
      EntryStage assertions func after := by
  have hentry := hwf.blocks.entry_mem
  unfold barrierEntry
  by_cases honly : OnlyBarrier func func.entry
  · rw [isBarrierBlock_of_passes honly fun _ hne => absurd rfl hne]
    exact ⟨func, rfl, entryStage_refl hwf honly⟩
  · rw [isBarrierBlock_of_not honly]
    have hsplits : Splits func func.entry 0 (splitBlock func func.entry 0).1
        (splitBlock func func.entry 0).2 := by
      apply splitBlock_splits (hwf.blocks.bound _ hentry)
      intro shape hshape
      exact hwf.entry_phi shape (List.mem_of_getElem? hshape)
    have hplaces := createBarrier_places (by
      rw [hsplits.shapes_block, List.take_zero])
    exact ⟨_, rfl, entryStage_of_split hwf hsplits hplaces⟩

theorem eq_barrierShape_of_mem
    {func : Func} {block : BlockId} {shape : Shape}
    (hmem : shape ∈ shapes func block) (hbarrier : shape.barrier = true) :
    shape = barrierShape shape.id := by
  obtain ⟨instr, _, rfl⟩ := List.mem_map.mp hmem
  exact shapeOf_eq_barrier hbarrier

/-- What the second stage does at an exit that is no barrier block. -/
structure ExitStep (func : Func) (block : BlockId) (after : Func) (new : BlockId) :
    Prop where
  stage : Stage func after
  new_not_mem : new ∉ func.order
  mem_order : ∀ other, other ∈ after.order ↔ other = new ∨ other ∈ func.order
  succs_block : after.succs block = [new]
  succs_new : after.succs new = []
  onlyBarrier_new : OnlyBarrier after new
  passes_new : ∀ assertions, Passes assertions after new
  shapes_other : ∀ other ∈ func.order, other ≠ block →
    shapes after other = shapes func other
  succs_other : ∀ other ∈ func.order, other ≠ block →
    after.succs other = func.succs other
  passes_other : ∀ assertions, ∀ other ∈ func.order, other ≠ block →
    (Passes assertions after other ↔ Passes assertions func other)

/-- The exit ends with a barrier, which is split off with the terminator. -/
theorem exitStep_of_endsWithBarrier
    {func : Func} {block : BlockId} (hwf : WellFormed func)
    (hblock : block ∈ func.order) (hexit : func.succs block = [])
    (hends : endsWithBarrier func block = true) {after : Func} {new : BlockId}
    (hsplits : Splits func block ((shapes func block).length - 1) after new) :
    endsWithBarrier after new = true ∧ ExitStep func block after new := by
  obtain ⟨shape, hlast, hbarrier⟩ := endsWithBarrier_iff.mp hends
  have hne : shapes func block ≠ [] := by
    intro hempty
    rw [hempty] at hlast
    cases hlast
  have hshape : shape = barrierShape shape.id :=
    eq_barrierShape_of_mem (List.mem_of_getLast? hlast) hbarrier
  have hshapesNew : shapes after new = [shape] := by
    rw [hsplits.shapes_new, List.drop_length_sub_one hne]
    rw [List.getLast?_eq_getLast_of_ne_nil hne, Option.some.injEq] at hlast
    rw [hlast]
  have hnot := hsplits.new_not_mem hwf.blocks
  have hnew : ∀ other ∈ func.order, other ≠ new := fun other hother heq =>
    hnot (heq ▸ hother)
  refine ⟨endsWithBarrier_iff.mpr ⟨shape, by rw [hshapesNew]; rfl, hbarrier⟩, ?_⟩
  constructor
  · apply hsplits.stage hwf hblock
    intro blocks hring hmem
    exact absurd hmem (hring.exit_not_mem hexit)
  · exact hnot
  · exact fun other => hsplits.mem_order hblock
  · exact hsplits.succs_block
  · exact hsplits.succs_new.trans hexit
  · exact ⟨shape.id, hshapesNew.trans (by rw [← hshape])⟩
  · exact fun assertions => hsplits.passes_new hwf.blocks hblock
  · exact fun other hother hotherNe =>
      hsplits.shapes_other other hotherNe (hnew other hother)
  · exact fun other hother hotherNe =>
      hsplits.succs_other hotherNe (hnew other hother)
  · exact fun assertions other hother hotherNe =>
      hsplits.passes_other hwf.blocks hblock hother hotherNe

/-- The terminator of the exit is split off and receives a barrier. -/
theorem exitStep_of_places
    {func : Func} {block : BlockId} (hwf : WellFormed func)
    (hblock : block ∈ func.order) (hexit : func.succs block = [])
    {middle after : Func} {new : BlockId}
    (hsplits : Splits func block (shapes func block).length middle new)
    (hplaces : Places middle new after) :
    ExitStep func block after new := by
  have hnot := hsplits.new_not_mem hwf.blocks
  have hnew : ∀ other ∈ func.order, other ≠ new := fun other hother heq =>
    hnot (heq ▸ hother)
  have hstage : Stage func middle := by
    apply hsplits.stage hwf hblock
    intro blocks hring hmem
    exact absurd hmem (hring.exit_not_mem hexit)
  have hnewMem : new ∈ middle.order := (hsplits.mem_order hblock).mpr (Or.inl rfl)
  have hnewExit : middle.succs new = [] := hsplits.succs_new.trans hexit
  constructor
  · exact hstage.trans (hplaces.stage_of_exit hstage.wellFormed hnewMem hnewExit)
  · exact hnot
  · intro other
    rw [hplaces.order_eq]
    exact hsplits.mem_order hblock
  · exact (hplaces.succs_eq block).trans hsplits.succs_block
  · exact (hplaces.succs_eq new).trans hnewExit
  · exact ⟨_, hplaces.shapes_block⟩
  · intro assertions _ _ _
    rw [hplaces.predecessors_eq, hsplits.predecessors_new hwf.blocks hblock]
    rfl
  · intro other hother hotherNe
    rw [hplaces.shapes_other other (hnew other hother)]
    exact hsplits.shapes_other other hotherNe (hnew other hother)
  · intro other hother hotherNe
    rw [hplaces.succs_eq]
    exact hsplits.succs_other hotherNe (hnew other hother)
  · intro assertions other hother hotherNe
    exact (hplaces.passes_other (hnew other hother)).trans
      (hsplits.passes_other hwf.blocks hblock hother hotherNe)

theorem exitStep_splitBlock
    {func : Func} {block : BlockId} (hwf : WellFormed func)
    (hblock : block ∈ func.order) (hexit : func.succs block = []) :
    let split := splitBlock func block
      (if endsWithBarrier func block then (func.body block).instrs.length - 1
        else (func.body block).instrs.length)
    ExitStep func block (createBarrier split.1 split.2) split.2 := by
  have hlength : (func.body block).instrs.length = (shapes func block).length :=
    (List.length_map _).symm
  have hbound := hwf.blocks.bound block hblock
  rw [hlength]
  by_cases hends : endsWithBarrier func block = true
  · rw [if_pos hends]
    obtain ⟨shape, hlast, hbarrier⟩ := endsWithBarrier_iff.mp hends
    have hsplits : Splits func block ((shapes func block).length - 1)
        (splitBlock func block ((shapes func block).length - 1)).1
        (splitBlock func block ((shapes func block).length - 1)).2 := by
      apply splitBlock_splits hbound
      intro other hother
      rw [← List.getLast?_eq_getElem?, hlast, Option.some.injEq] at hother
      rw [← hother, eq_barrierShape_of_mem (List.mem_of_getLast? hlast) hbarrier]
      rfl
    obtain ⟨hendsNew, hstep⟩ :=
      exitStep_of_endsWithBarrier hwf hblock hexit hends hsplits
    intro split
    rw [createBarrier_of_endsWithBarrier hendsNew]
    exact hstep
  · rw [if_neg hends]
    have hsplits : Splits func block (shapes func block).length
        (splitBlock func block (shapes func block).length).1
        (splitBlock func block (shapes func block).length).2 := by
      apply splitBlock_splits hbound
      intro other hother
      rw [List.getElem?_eq_none (le_refl _)] at hother
      cases hother
    have hplaces := createBarrier_places (by
      rw [hsplits.shapes_new, List.drop_length])
    exact exitStep_of_places hwf hblock hexit hsplits hplaces

section ExitLoop

variable {func : Func} {block : BlockId}

theorem barrierExits_skip
    {assertions : Bool} {rest : List BlockId} {fuel : ℕ}
    (hpass : func.succs block = [] →
      OnlyBarrier func block ∧ Passes assertions func block) :
    barrierExits assertions (fuel + 1) func (block :: rest) =
      barrierExits assertions fuel func rest := by
  rw [barrierExits]
  by_cases hexit : func.succs block = []
  · obtain ⟨honly, hpasses⟩ := hpass hexit
    rw [if_pos hexit, isBarrierBlock_of_passes honly hpasses]
  · rw [if_neg hexit]

theorem barrierExits_split
    (assertions : Bool) (rest : List BlockId) (fuel : ℕ)
    (hwf : WellFormed func) (hblock : block ∈ func.order)
    (hexit : func.succs block = []) (hnot : ¬OnlyBarrier func block) :
    ∃ after new, ExitStep func block after new ∧
      barrierExits assertions (fuel + 2) func (block :: rest) =
        barrierExits assertions fuel after rest := by
  have hstep := exitStep_splitBlock hwf hblock hexit
  refine ⟨_, _, hstep, ?_⟩
  rw [barrierExits, if_pos hexit, isBarrierBlock_of_not hnot]
  exact barrierExits_skip fun _ => ⟨hstep.onlyBarrier_new, hstep.passes_new _⟩

theorem barrierExits_fail
    {assertions : Bool} {rest : List BlockId} (fuel : ℕ)
    (hexit : func.succs block = [])
    (hfails : ¬Passes assertions func block) :
    barrierExits assertions fuel func (block :: rest) = none := by
  cases fuel with
  | zero => rfl
  | succ fuel =>
      rw [barrierExits, if_pos hexit, isBarrierBlock_eq_none hfails]

end ExitLoop

/-- What the second stage establishes. -/
structure ExitStage (func after : Func) : Prop where
  stage : Stage func after
  entry : OnlyBarrier after after.entry
  exits : ∀ block ∈ after.order, after.succs block = [] → OnlyBarrier after block

theorem ExitStep.onlyBarrier_entry
    {func after : Func} {block new : BlockId}
    (hstep : ExitStep func block after new) (hwf : WellFormed func)
    (hnot : ¬OnlyBarrier func block) (hentry : OnlyBarrier func func.entry) :
    OnlyBarrier after after.entry := by
  have hne : func.entry ≠ block := fun heq => hnot (heq ▸ hentry)
  unfold OnlyBarrier
  rw [hstep.stage.entry_eq, hstep.shapes_other _ hwf.blocks.entry_mem hne]
  exact hentry

theorem barrierExits_stage
    (assertions : Bool) :
    ∀ {rest : List BlockId} {fuel : ℕ} {func : Func},
      WellFormed func → rest.Nodup → (∀ block ∈ rest, block ∈ func.order) →
      2 * rest.length ≤ fuel →
      (∀ block ∈ func.order, block ∉ rest → func.succs block = [] →
        OnlyBarrier func block) →
      OnlyBarrier func func.entry →
      (∀ block ∈ rest, func.succs block = [] → Passes assertions func block) →
      ∃ after, barrierExits assertions fuel func rest = some after ∧
        ExitStage func after
  | [], fuel, func, hwf, _, _, _, hdone, hentry, _ => by
      have hexits : ∀ block ∈ func.order, func.succs block = [] →
          OnlyBarrier func block := fun block hblock =>
        hdone block hblock List.not_mem_nil
      refine ⟨func, ?_, Stage.refl hwf, hentry, hexits⟩
      cases fuel <;> rfl
  | block :: rest, fuel, func, hwf, hnodup, hrest, hfuel, hdone, hentry,
      hpasses => by
      rw [List.nodup_cons] at hnodup
      have hblock := hrest block List.mem_cons_self
      obtain ⟨fuel, rfl⟩ : ∃ left, fuel = left + 2 :=
        ⟨fuel - 2, by rw [List.length_cons] at hfuel; omega⟩
      have hfuelRest : 2 * rest.length ≤ fuel := by
        rw [List.length_cons] at hfuel
        omega
      by_cases hsplit : func.succs block = [] ∧ ¬OnlyBarrier func block
      · obtain ⟨hexit, hnot⟩ := hsplit
        obtain ⟨middle, new, hstep, hrun⟩ :=
          barrierExits_split assertions rest fuel hwf hblock hexit hnot
        have hneRest : ∀ other ∈ rest, other ≠ block := fun other hother heq =>
          hnodup.1 (heq ▸ hother)
        have hmem : ∀ other ∈ rest, other ∈ func.order := fun other hother =>
          hrest other (List.mem_cons_of_mem _ hother)
        have hafter := barrierExits_stage assertions hstep.stage.wellFormed hnodup.2
          (fun other hother =>
            (hstep.mem_order other).mpr (Or.inr (hmem other hother)))
          hfuelRest ?_ (hstep.onlyBarrier_entry hwf hnot hentry) ?_
        · obtain ⟨after, hresult, hstage⟩ := hafter
          exact ⟨after, hrun.trans hresult, hstep.stage.trans hstage.stage,
            hstage.entry, hstage.exits⟩
        · intro other hother hnotRest hotherExit
          rcases (hstep.mem_order other).mp hother with rfl | hotherMem
          · exact hstep.onlyBarrier_new
          · have hne : other ≠ block := by
              rintro rfl
              rw [hstep.succs_block] at hotherExit
              cases hotherExit
            unfold OnlyBarrier
            rw [hstep.shapes_other other hotherMem hne]
            rw [hstep.succs_other other hotherMem hne] at hotherExit
            refine hdone other hotherMem ?_ hotherExit
            exact fun hcons => (List.mem_cons.mp hcons).elim hne hnotRest
        · intro other hother hotherExit
          have hne := hneRest other hother
          rw [hstep.succs_other other (hmem other hother) hne] at hotherExit
          exact (hstep.passes_other assertions other (hmem other hother) hne).mpr
            (hpasses other (List.mem_cons_of_mem _ hother) hotherExit)
      · have honly : func.succs block = [] → OnlyBarrier func block :=
          fun hexit => Classical.not_not.mp fun hnot => hsplit ⟨hexit, hnot⟩
        rw [barrierExits_skip fun hexit =>
          ⟨honly hexit, hpasses block List.mem_cons_self hexit⟩]
        apply barrierExits_stage assertions hwf hnodup.2
          (fun other hother => hrest other (List.mem_cons_of_mem _ hother))
          (hfuelRest.trans (Nat.le_succ _)) ?_ hentry
          (fun other hother => hpasses other (List.mem_cons_of_mem _ hother))
        intro other hother hnotRest hexit
        by_cases heq : other = block
        · rw [heq] at hexit ⊢
          exact honly hexit
        · refine hdone other hother ?_ hexit
          exact fun hcons => (List.mem_cons.mp hcons).elim heq hnotRest

/-- A barrier block among the exits that fails the assertion stops the pass. -/
theorem barrierExits_eq_none
    (assertions : Bool) :
    ∀ {rest : List BlockId} {fuel : ℕ} {func : Func},
      WellFormed func → rest.Nodup → (∀ block ∈ rest, block ∈ func.order) →
      (∃ block ∈ rest, func.succs block = [] ∧ ¬Passes assertions func block) →
      barrierExits assertions fuel func rest = none
  | [], _, _, _, _, _, hfails => by
      obtain ⟨block, hblock, _⟩ := hfails
      cases hblock
  | block :: rest, fuel, func, hwf, hnodup, hrest, hfails => by
      rw [List.nodup_cons] at hnodup
      by_cases hhere : func.succs block = [] ∧ ¬Passes assertions func block
      · exact barrierExits_fail fuel hhere.1 hhere.2
      obtain ⟨failing, hfailing, hfailingExit, hfailingNot⟩ := hfails
      have hfailingRest : failing ∈ rest := by
        rcases List.mem_cons.mp hfailing with rfl | hmem
        · exact absurd ⟨hfailingExit, hfailingNot⟩ hhere
        · exact hmem
      have hmem : ∀ other ∈ rest, other ∈ func.order := fun other hother =>
        hrest other (List.mem_cons_of_mem _ hother)
      cases fuel with
      | zero => rfl
      | succ fuel =>
          by_cases hsplit : func.succs block = [] ∧ ¬OnlyBarrier func block
          · obtain ⟨hexit, hnot⟩ := hsplit
            have hstep :=
              exitStep_splitBlock hwf (hrest block List.mem_cons_self) hexit
            rw [barrierExits, if_pos hexit, isBarrierBlock_of_not hnot]
            cases fuel with
            | zero => rfl
            | succ fuel =>
                have hne : failing ≠ block := fun heq =>
                  hnodup.1 (heq ▸ hfailingRest)
                have hfailingMem := hmem failing hfailingRest
                refine (barrierExits_skip fun _ =>
                  ⟨hstep.onlyBarrier_new, hstep.passes_new assertions⟩).trans ?_
                apply barrierExits_eq_none assertions hstep.stage.wellFormed
                  hnodup.2
                · intro other hother
                  exact (hstep.mem_order other).mpr (Or.inr (hmem other hother))
                · refine ⟨failing, hfailingRest, ?_, ?_⟩
                  · rw [hstep.succs_other failing hfailingMem hne]
                    exact hfailingExit
                  · rw [hstep.passes_other assertions failing hfailingMem hne]
                    exact hfailingNot
          · have hskip : func.succs block = [] →
                OnlyBarrier func block ∧ Passes assertions func block := by
              intro hexit
              exact ⟨Classical.not_not.mp fun hnot => hsplit ⟨hexit, hnot⟩,
                Classical.not_not.mp fun hnot => hhere ⟨hexit, hnot⟩⟩
            rw [barrierExits_skip hskip]
            exact barrierExits_eq_none assertions hwf hnodup.2 hmem
              ⟨failing, hfailingRest, hfailingExit, hfailingNot⟩

end CanonicalizeBarriers

end Pocl
