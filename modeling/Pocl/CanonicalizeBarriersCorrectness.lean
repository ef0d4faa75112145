import Pocl.CanonicalizeBarriersPruning

/-!
# Correctness of barrier canonicalization

The pass succeeds exactly on the functions without a ring whose exits pass the
assertion.  There the result is canonical, has the runs of the function up to
merging barriers, and is not changed by the pass any more.
-/

namespace Pocl

namespace CanonicalizeBarriers

namespace Prunes

variable {func after : Func} {block successor target : BlockId}

theorem ring_forward
    (hprunes : Prunes func block successor target after)
    (hblocks : func.HasBlocks) {blocks : Set BlockId}
    (hring : Ring func blocks) :
    Ring after {other | other ∈ blocks ∧ other ≠ successor} := by
  have hblockMem : successor ∈ blocks → block ∈ blocks := by
    intro hsuccessor
    obtain ⟨source, hsource, hpreds⟩ := hring.preds successor hsuccessor
    rw [hprunes.preds_successor, List.cons.injEq] at hpreds
    exact hpreds.1 ▸ hsource
  constructor
  · obtain ⟨other, hother⟩ := hring.nonempty
    by_cases heq : other = successor
    · subst heq
      exact ⟨block, hblockMem hother, hprunes.ne.symm⟩
    · exact ⟨other, hother, heq⟩
  · rintro other ⟨hother, hne⟩
    exact (hprunes.mem_order hblocks).mpr ⟨hne, hring.mem_order other hother⟩
  · rintro other ⟨hother, _⟩
    rw [hprunes.shapes_eq]
    exact hring.shapes_ne other hother
  · rintro other ⟨hother, _⟩
    rw [hprunes.shapes_eq]
    exact hring.shapes_barrier other hother
  · rintro other ⟨hother, hne⟩
    obtain ⟨next, hnext, hsuccs⟩ := hring.succs other hother
    by_cases heq : other = block
    · subst heq
      have hnextEq : next = successor := by
        rw [hprunes.succs_block, List.cons.injEq] at hsuccs
        exact hsuccs.1.symm
      rw [hnextEq] at hnext
      obtain ⟨last, hlast, hsuccsLast⟩ := hring.succs successor hnext
      rw [hprunes.succs_successor, List.cons.injEq] at hsuccsLast
      rw [← hsuccsLast.1] at hlast
      exact ⟨target, ⟨hlast, hprunes.target_ne hblocks⟩, hprunes.succs_after⟩
    · refine ⟨next, ⟨hnext, ?_⟩, (hprunes.succs_other heq).trans hsuccs⟩
      rintro rfl
      have hpred : other ∈ predecessors func next := mem_predecessors.mpr
        ⟨hring.mem_order other hother, by rw [hsuccs]; simp⟩
      rw [hprunes.preds_successor] at hpred
      exact heq (List.mem_singleton.mp hpred)
  · rintro other ⟨hother, hne⟩
    obtain ⟨source, hsource, hpreds⟩ := hring.preds other hother
    refine ⟨_, ?_, hprunes.predecessors_single hblocks hne hpreds⟩
    unfold skipped
    split
    · rename_i heq
      exact ⟨hblockMem (heq ▸ hsource), hprunes.ne.symm⟩
    · rename_i heq
      exact ⟨hsource, heq⟩

theorem ring_backward
    (hprunes : Prunes func block successor target after)
    (hwf : WellFormed func) {blocks : Set BlockId}
    (hring : Ring after blocks) :
    Ring func {other | other ∈ blocks ∨ other = successor ∧ block ∈ blocks} := by
  have hblocks := hwf.blocks
  have hmem : ∀ other ∈ blocks, other ≠ successor ∧ other ∈ func.order :=
    fun other hother =>
      (hprunes.mem_order hblocks).mp (hring.mem_order other hother)
  constructor
  · obtain ⟨other, hother⟩ := hring.nonempty
    exact ⟨other, Or.inl hother⟩
  · rintro other (hother | ⟨rfl, _⟩)
    · exact (hmem other hother).2
    · exact hprunes.successor_mem hblocks
  · rintro other (hother | ⟨rfl, _⟩)
    · rw [← hprunes.shapes_eq]
      exact hring.shapes_ne other hother
    · obtain ⟨id, hid⟩ := hprunes.successor_only
      rw [hid]
      exact List.cons_ne_nil _ _
  · rintro other (hother | ⟨rfl, _⟩) shape hshape
    · rw [← hprunes.shapes_eq] at hshape
      exact hring.shapes_barrier other hother shape hshape
    · obtain ⟨id, hid⟩ := hprunes.successor_only
      rw [hid] at hshape
      rw [List.mem_singleton.mp hshape]
      rfl
  · rintro other (hother | ⟨rfl, hblock⟩)
    · by_cases heq : other = block
      · subst heq
        exact ⟨successor, Or.inr ⟨rfl, hother⟩, hprunes.succs_block⟩
      · obtain ⟨next, hnext, hsuccs⟩ := hring.succs other hother
        exact ⟨next, Or.inl hnext, (hprunes.succs_other heq).symm.trans hsuccs⟩
    · obtain ⟨next, hnext, hsuccs⟩ := hring.succs block hblock
      rw [hprunes.succs_after, List.cons.injEq] at hsuccs
      exact ⟨target, Or.inl (hsuccs.1 ▸ hnext), hprunes.succs_successor⟩
  · rintro other (hother | ⟨rfl, hblock⟩)
    · obtain ⟨source, hsource, hpreds⟩ := hring.preds other hother
      have hperm := hprunes.predecessors_perm hblocks (hmem other hother).1
      rw [hpreds] at hperm
      obtain ⟨before, hbefore, hskipped⟩ :=
        List.map_eq_singleton_iff.mp (List.singleton_perm.mp hperm).symm
      refine ⟨before, ?_, hbefore⟩
      unfold skipped at hskipped
      split at hskipped
      · rename_i heq
        exact Or.inr ⟨heq, hskipped ▸ hsource⟩
      · exact Or.inl (hskipped ▸ hsource)
    · exact ⟨block, Or.inl hblock, hprunes.preds_successor⟩

theorem stage
    (hprunes : Prunes func block successor target after) (hwf : WellFormed func) :
    Stage func after := by
  refine ⟨hprunes.wellFormed hwf, hprunes.entry_eq hwf, hprunes.sameRuns hwf, ?_⟩
  constructor
  · rintro ⟨blocks, hring⟩
    exact ⟨_, hprunes.ring_backward hwf hring⟩
  · rintro ⟨blocks, hring⟩
    exact ⟨_, hprunes.ring_forward hwf.blocks hring⟩

theorem length_lt
    (hprunes : Prunes func block successor target after) (hwf : WellFormed func) :
    after.order.length < func.order.length := by
  have hmem := hprunes.successor_mem hwf.blocks
  rw [hprunes.order_eq, List.length_erase_of_mem hmem]
  exact Nat.sub_lt (List.length_pos_of_mem hmem) one_pos

end Prunes

section PruneLoop

variable {func : Func}

/-- Every block on a ring of a canonical function can be pruned. -/
theorem Ring.prunable
    (hcanonical : Canonical func) {blocks : Set BlockId}
    (hring : Ring func blocks) {block : BlockId} (hblock : block ∈ blocks) :
    prunable func block = true := by
  have honly : ∀ other ∈ blocks, OnlyBarrier func other := by
    intro other hother
    obtain ⟨shape, hshape⟩ :=
      List.exists_mem_of_ne_nil _ (hring.shapes_ne other hother)
    apply hcanonical.alone other (hring.mem_order other hother)
    exact hasBarrier_iff.mpr
      ⟨shape, hshape, hring.shapes_barrier other hother shape hshape⟩
  rw [prunable_iff hcanonical (hring.mem_order block hblock)]
  obtain ⟨successor, hsuccessor, hsuccs⟩ := hring.succs block hblock
  obtain ⟨target, _, htarget⟩ := hring.succs successor hsuccessor
  obtain ⟨source, _, hpreds⟩ := hring.preds successor hsuccessor
  have hpred : block ∈ predecessors func successor := mem_predecessors.mpr
    ⟨hring.mem_order block hblock, by rw [hsuccs]; simp⟩
  rw [hpreds] at hpred
  rw [← List.mem_singleton.mp hpred] at hpreds
  exact ⟨honly block hblock, successor, target, hsuccs,
    honly successor hsuccessor, hpreds, htarget⟩

/-- A prunable block either is a ring of its own or is followed by a block that
can be erased. -/
theorem prunable_cases
    (hcanonical : Canonical func) {block : BlockId} (hblock : block ∈ func.order)
    (hprunable : prunable func block = true) :
    ((func.succs block).headD 0 = block ∧ HasRing func) ∨
      ((func.succs block).headD 0 ≠ block ∧ ∃ successor target,
        (func.succs block).headD 0 = successor ∧
          Prunes func block successor target
            (pruneSuccessor func block successor)) := by
  obtain ⟨honly, successor, target, hsuccs, hsuccessor, hpreds, htarget⟩ :=
    (prunable_iff hcanonical hblock).mp hprunable
  have hhead : (func.succs block).headD 0 = successor := by
    rw [hsuccs]
    rfl
  rw [hhead]
  by_cases heq : successor = block
  · subst heq
    refine Or.inl ⟨rfl, {successor}, ⟨successor, rfl⟩, ?_, ?_, ?_, ?_, ?_⟩
    · rintro other rfl
      exact hblock
    · rintro other rfl
      obtain ⟨id, hid⟩ := honly
      rw [hid]
      exact List.cons_ne_nil _ _
    · rintro other rfl shape hshape
      obtain ⟨id, hid⟩ := honly
      rw [hid] at hshape
      rw [List.mem_singleton.mp hshape]
      rfl
    · rintro other rfl
      exact ⟨other, rfl, hsuccs⟩
    · rintro other rfl
      exact ⟨other, rfl, hpreds⟩
  · exact Or.inr ⟨heq, successor, target, rfl,
      pruneSuccessor_prunes hblock honly hsuccessor heq hsuccs hpreds htarget⟩

theorem prune_of_not_prunable
    (hnone : ∀ block ∈ func.order, prunable func block = false)
    (fuel : ℕ) (changed : Bool) :
    prune (fuel + 1) func changed = some (func, changed) := by
  rw [prune, List.find?_eq_none.mpr]
  intro block hblock
  rw [hnone block hblock]
  exact Bool.false_ne_true

end PruneLoop

theorem prune_stage :
    ∀ {fuel : ℕ} {func : Func} (changed : Bool), WellFormed func →
      Canonical func → ¬HasRing func → func.order.length < fuel →
      ∃ after changedAfter, prune fuel func changed = some (after, changedAfter) ∧
        Stage func after ∧ Canonical after ∧
        ∀ block ∈ after.order, prunable after block = false
  | 0, _, _, _, _, _, hfuel => absurd hfuel (Nat.not_lt_zero _)
  | fuel + 1, func, changed, hwf, hcanonical, hring, hfuel => by
      cases hfind : func.order.find? (prunable func) with
      | none =>
          have hnone : ∀ block ∈ func.order, prunable func block = false := by
            intro block hblock
            exact Bool.eq_false_iff.mpr (List.find?_eq_none.mp hfind block hblock)
          exact ⟨func, changed, prune_of_not_prunable hnone fuel changed,
            Stage.refl hwf, hcanonical, hnone⟩
      | some block =>
          have hblock := List.mem_of_find?_eq_some hfind
          rcases prunable_cases hcanonical hblock (List.find?_some hfind) with
            ⟨_, hself⟩ | ⟨hne, successor, target, hhead, hprunes⟩
          · exact absurd hself hring
          · have hstage := hprunes.stage hwf
            have hlength := hprunes.length_lt hwf
            obtain ⟨after, changedAfter, hloop, hafter, hcanonicalAfter, hnone⟩ :=
              prune_stage true hstage.wellFormed (hprunes.canonical hwf hcanonical)
                (mt hstage.hasRing_iff.mp hring)
                (Nat.lt_of_lt_of_le hlength (Nat.lt_succ_iff.mp hfuel))
            refine ⟨after, changedAfter, ?_, hstage.trans hafter,
              hcanonicalAfter, hnone⟩
            rw [hhead] at hne
            rw [prune, hfind]
            simp only [hhead, if_neg hne]
            exact hloop

/-- The loop never ends well on a ring. -/
theorem prune_eq_none :
    ∀ {fuel : ℕ} {func : Func} (changed : Bool), WellFormed func →
      Canonical func → HasRing func → prune fuel func changed = none
  | 0, _, _, _, _, _ => rfl
  | fuel + 1, func, changed, hwf, hcanonical, hring => by
      cases hfind : func.order.find? (prunable func) with
      | none =>
          obtain ⟨blocks, hblocks⟩ := hring
          obtain ⟨block, hblock⟩ := hblocks.nonempty
          exact absurd (hblocks.prunable hcanonical hblock)
            (List.find?_eq_none.mp hfind block (hblocks.mem_order block hblock))
      | some block =>
          have hblock := List.mem_of_find?_eq_some hfind
          rw [prune, hfind]
          rcases prunable_cases hcanonical hblock (List.find?_some hfind) with
            ⟨hself, _⟩ | ⟨hne, successor, target, hhead, hprunes⟩
          · exact if_pos hself
          · have hstage := hprunes.stage hwf
            rw [hhead] at hne
            simp only [hhead, if_neg hne]
            exact prune_eq_none true hstage.wellFormed
              (hprunes.canonical hwf hcanonical) (hstage.hasRing_iff.mpr hring)

section Words

variable {func : Func} {block : BlockId}

theorem markLeaves_blockWord :
    Token.markLeaves (blockWord func block) = blockWord func block := by
  unfold Token.markLeaves blockWord
  rw [List.flatMap_map]
  induction shapes func block with
  | nil => rfl
  | cons shape rest ih =>
      rw [List.flatMap_cons, List.map_cons, ih]
      by_cases hbarrier : shape.barrier = true
      · simp [Shape.token, hbarrier]
      · simp [Shape.token, hbarrier]

theorem markLeaves_branchWord (term : Terminator) (index : ℕ) :
    Token.markLeaves (branchWord term index) = branchWord term index := by
  unfold branchWord
  split <;> rfl

/-- If every exit has its barrier, marking the exits does not show. -/
theorem below_markLeaves
    (hblocks : func.HasBlocks)
    (hexits : ∀ block ∈ func.order, func.succs block = [] →
      OnlyBarrier func block)
    {word : List Token} (hruns : Runs func block word)
    (hblock : block ∈ func.order) :
    Token.Below word (Token.markLeaves word) ∧
      Token.Below (Token.markLeaves word) word := by
  induction hruns with
  | stop block => exact ⟨Token.Below.refl _, Token.Below.refl _⟩
  | leave block hexit =>
      rw [Token.markLeaves_append, markLeaves_blockWord,
        (hexits block hblock hexit).blockWord_eq]
      exact ⟨Token.below_barrier _, Token.barrier_below _⟩
  | go block choice target rest htarget _ ih =>
      obtain ⟨hforward, hbackward⟩ :=
        ih (getElem?_succs_mem hblocks hblock htarget)
      rw [Token.markLeaves_append, Token.markLeaves_append, markLeaves_blockWord,
        markLeaves_branchWord]
      exact ⟨(hforward.append _).append _, (hbackward.append _).append _⟩

end Words

/-- The result has the runs of the function, up to merging barriers, with a
barrier at the entry and wherever the function is left. -/
def SameWords (func after : Func) : Prop :=
  ∀ word : List Token,
    (∃ run, Runs after after.entry run ∧ word <+: Token.collapse run) ↔
      ∃ run, Runs func func.entry run ∧
        word <+: Token.collapse (.barrier :: Token.markLeaves run)

/-- What the pass is to do. -/
def Canonicalizes
    (assertions : Bool) (schedule : List ValueId → List ValueId) (func : Func) :
    Prop :=
  ∃ after changed,
    runOnFunction assertions schedule func = some (after, changed) ∧
      Canonical after ∧ SameWords func after ∧
      ∀ again : List ValueId → List ValueId, (∀ ids, (again ids).Perm ids) →
        runOnFunction assertions again after = some (after, false)

theorem sameWords_of_stages
    {assertions : Bool} {func middle after : Func}
    (hentry : EntryStage assertions func middle) (hstage : Stage middle after)
    (hexits : ∀ block ∈ after.order, after.succs block = [] →
      OnlyBarrier after block) :
    SameWords func after := by
  have hafterEntry := hstage.wellFormed.blocks.entry_mem
  have hmarked : ∀ {word}, Runs after after.entry word →
      Token.Below word (Token.markLeaves word) ∧
        Token.Below (Token.markLeaves word) word := fun hruns =>
    below_markLeaves hstage.wellFormed.blocks hexits hruns hafterEntry
  intro word
  constructor
  · rintro ⟨run, hruns, hbegins⟩
    obtain ⟨second, hsecond, hbelowSecond⟩ := hstage.sameRuns.2 run hruns
    obtain ⟨first, hfirst, hbelowFirst⟩ := hentry.backward second hsecond
    refine ⟨first, hfirst, hbegins.trans ?_⟩
    exact ((hmarked hruns).1.trans (hbelowSecond.trans hbelowFirst)) false
  · rintro ⟨run, hruns, hbegins⟩
    obtain ⟨second, hsecond, hbelowSecond⟩ := hentry.forward run hruns
    obtain ⟨last, hlast, hbelowLast⟩ := hstage.sameRuns.1 second hsecond
    refine ⟨last, hlast, hbegins.trans ?_⟩
    exact (hbelowSecond.trans (hbelowLast.trans (hmarked hlast).2)) false

/-- The state of the function when pruning begins. -/
theorem exists_pruneStart
    {assertions : Bool} {schedule : List ValueId → List ValueId} {func : Func}
    (hwf : WellFormed func) (hschedule : ∀ ids, (schedule ids).Perm ids)
    (hexits : ExitsPass assertions func) :
    ∃ middle before changed,
      EntryStage assertions func middle ∧ Stage middle before ∧
        Canonical before ∧
        runOnFunction assertions schedule func =
          prune (before.order.length + 1) before changed := by
  obtain ⟨middle, hentryRun, hentry⟩ := barrierEntry_stage assertions hwf
  have hexitsMiddle := hentry.exitsPass_iff.mpr hexits
  obtain ⟨settled, hexitRun, hexit⟩ := barrierExits_stage assertions
    hentry.wellFormed hentry.wellFormed.blocks.nodup (fun _ hblock => hblock)
    (le_refl (2 * middle.order.length))
    (fun block hblock hnot => absurd hblock hnot) hentry.onlyBarrier hexitsMiddle
  have hids : ∀ id ∈ schedule (collectBarriers settled),
      id ∈ collectBarriers settled := fun id hid => (hschedule _).mem_iff.mp hid
  obtain ⟨before, changed, hloop, hsplit, hsettled⟩ :=
    foldlM_splitAroundBarrier_stage false hexit.stage.wellFormed hids
  refine ⟨middle, before, changed, hentry, hexit.stage.trans hsplit.stage, ?_, ?_⟩
  · apply canonical_of_settled hsplit.stage.wellFormed
    · intro id hid
      rw [hsplit.collectBarriers_eq] at hid
      exact hsettled id ((hschedule _).mem_iff.mpr hid)
    · exact hsplit.entry hexit.entry
    · exact hsplit.exits hexit.exits
  · unfold runOnFunction processFunction
    simp only [Option.bind_eq_bind, hentryRun, Option.bind_some, hexitRun, hloop]

/-- A canonical function with nothing to prune is left alone. -/
theorem runOnFunction_of_canonical
    {assertions : Bool} {schedule : List ValueId → List ValueId} {func : Func}
    (hwf : WellFormed func) (hschedule : ∀ ids, (schedule ids).Perm ids)
    (hcanonical : Canonical func)
    (hnone : ∀ block ∈ func.order, prunable func block = false) :
    runOnFunction assertions schedule func = some (func, false) := by
  have hentry : barrierEntry assertions func = some func := by
    unfold barrierEntry
    rw [isBarrierBlock_of_passes hcanonical.entry fun _ hne => absurd rfl hne]
  have hexits : ∀ {rest : List BlockId} {fuel : ℕ}, rest.length ≤ fuel →
      (∀ block ∈ rest, block ∈ func.order) →
      barrierExits assertions fuel func rest = some func := by
    intro rest
    induction rest with
    | nil =>
        intro fuel _ _
        cases fuel <;> rfl
    | cons block rest ih =>
        intro fuel hfuel hrest
        cases fuel with
        | zero => cases hfuel
        | succ fuel =>
            have hblock := hrest block List.mem_cons_self
            rw [barrierExits_skip]
            · exact ih (Nat.le_of_succ_le_succ hfuel)
                fun other hother => hrest other (List.mem_cons_of_mem _ hother)
            · intro hexit
              refine ⟨hcanonical.exits block hblock hexit, ?_⟩
              intro _ hne honly
              obtain ⟨source, hsource, _⟩ :=
                hcanonical.isolated block hblock honly hne
              rw [hsource]
              rfl
  have hloop : (schedule (collectBarriers func)).foldlM splitAroundBarrier
      (func, false) = some (func, false) := by
    apply foldlM_splitAroundBarrier_of_settled hwf
    intro id hid
    exact hcanonical.settled ((hschedule _).mem_iff.mp hid)
  unfold runOnFunction processFunction
  simp only [Option.bind_eq_bind, hentry, Option.bind_some,
    hexits (Nat.le_mul_of_pos_left _ two_pos) (fun _ hblock => hblock), hloop]
  exact prune_of_not_prunable hnone _ _

theorem canonicalizes_of_no_ring
    {assertions : Bool} {schedule : List ValueId → List ValueId} {func : Func}
    (hwf : WellFormed func) (hschedule : ∀ ids, (schedule ids).Perm ids)
    (hring : ¬HasRing func) (hexits : ExitsPass assertions func) :
    Canonicalizes assertions schedule func := by
  obtain ⟨middle, before, changed, hentry, hstage, hcanonical, hrun⟩ :=
    exists_pruneStart hwf hschedule hexits
  have hringBefore : ¬HasRing before :=
    mt (hstage.hasRing_iff.trans hentry.hasRing_iff).mp hring
  obtain ⟨after, changedAfter, hprune, hpruned, hcanonicalAfter, hnone⟩ :=
    prune_stage changed hstage.wellFormed hcanonical hringBefore
      (Nat.lt_succ_self _)
  refine ⟨after, changedAfter, hrun.trans hprune, hcanonicalAfter, ?_, ?_⟩
  · exact sameWords_of_stages hentry (hstage.trans hpruned) hcanonicalAfter.exits
  · intro again hagain
    exact runOnFunction_of_canonical hpruned.wellFormed hagain hcanonicalAfter
      hnone

theorem runOnFunction_of_ring
    {assertions : Bool} {schedule : List ValueId → List ValueId} {func : Func}
    (hwf : WellFormed func) (hschedule : ∀ ids, (schedule ids).Perm ids)
    (hring : HasRing func) (hexits : ExitsPass assertions func) :
    runOnFunction assertions schedule func = none := by
  obtain ⟨middle, before, changed, hentry, hstage, hcanonical, hrun⟩ :=
    exists_pruneStart hwf hschedule hexits
  rw [hrun]
  exact prune_eq_none changed hstage.wellFormed hcanonical
    ((hstage.hasRing_iff.trans hentry.hasRing_iff).mpr hring)

theorem runOnFunction_of_assertion
    {assertions : Bool} {schedule : List ValueId → List ValueId} {func : Func}
    (hwf : WellFormed func) (hexits : ¬ExitsPass assertions func) :
    runOnFunction assertions schedule func = none := by
  obtain ⟨middle, hentryRun, hentry⟩ := barrierEntry_stage assertions hwf
  have hfails := mt hentry.exitsPass_iff.mp hexits
  unfold ExitsPass at hfails
  push Not at hfails
  have hnone : barrierExits assertions (2 * middle.order.length) middle
      middle.order = none :=
    barrierExits_eq_none assertions hentry.wellFormed
      hentry.wellFormed.blocks.nodup (fun _ hblock => hblock) hfails
  unfold runOnFunction
  simp only [Option.bind_eq_bind, hentryRun, Option.bind_some, hnone]
  rfl

/-- The pass does what it is to do exactly if there is no ring and the exits
pass the assertion, in whatever order the barriers are taken. -/
theorem canonicalizes_iff
    {assertions : Bool} {schedule : List ValueId → List ValueId} {func : Func}
    (hwf : WellFormed func) (hschedule : ∀ ids, (schedule ids).Perm ids) :
    Canonicalizes assertions schedule func ↔
      ¬HasRing func ∧ ExitsPass assertions func := by
  constructor
  · rintro ⟨after, changed, hrun, _⟩
    have hexits : ExitsPass assertions func := by
      by_contra hexits
      rw [runOnFunction_of_assertion hwf hexits] at hrun
      cases hrun
    refine ⟨?_, hexits⟩
    intro hring
    rw [runOnFunction_of_ring hwf hschedule hring hexits] at hrun
    cases hrun
  · rintro ⟨hring, hexits⟩
    exact canonicalizes_of_no_ring hwf hschedule hring hexits

/-- Two branches meet in a block with a barrier, which returns. -/
def sharedExit : Func where
  order := [0, 1, 2, 3]
  body := fun block =>
    match block with
    | 0 => ⟨[], ⟨0, 1, [], [1, 2]⟩⟩
    | 1 => ⟨[], ⟨1, 1, [], [3]⟩⟩
    | 2 => ⟨[], ⟨2, 1, [], [3]⟩⟩
    | _ => ⟨[⟨3, .barrier⟩], ⟨4, 0, [], []⟩⟩
  freshBlock := 4
  freshValue := 5

/-- The entry returns; an unreachable block with a barrier branches to itself. -/
def selfLoop : Func where
  order := [0, 1]
  body := fun block =>
    match block with
    | 0 => ⟨[], ⟨0, 0, [], []⟩⟩
    | _ => ⟨[⟨1, .barrier⟩], ⟨2, 1, [], [1]⟩⟩
  freshBlock := 2
  freshValue := 3

theorem wellFormed_sharedExit : WellFormed sharedExit := by
  refine ⟨⟨?_, ?_, ?_, ?_⟩, ?_, ?_, ?_, ?_, ?_⟩ <;> decide

theorem wellFormed_selfLoop : WellFormed selfLoop := by
  refine ⟨⟨?_, ?_, ?_, ?_⟩, ?_, ?_, ?_, ?_, ?_⟩ <;> decide

/-- The assertion rejects a shared exit with a barrier, and without assertions
the pruning does not end on a barrier that loops to itself. -/
theorem sharedExit_selfLoop_not_canonicalized :
    (WellFormed sharedExit ∧ ¬Canonicalizes true id sharedExit) ∧
      WellFormed selfLoop ∧ ¬Canonicalizes false id selfLoop := by
  refine ⟨⟨wellFormed_sharedExit, ?_⟩, wellFormed_selfLoop, ?_⟩
  · rintro ⟨after, changed, hrun, _⟩
    have hnone : (runOnFunction true id sharedExit).isNone := by decide +kernel
    rw [hrun] at hnone
    cases hnone
  · rintro ⟨after, changed, hrun, _⟩
    have hnone : (runOnFunction false id selfLoop).isNone := by decide +kernel
    rw [hrun] at hnone
    cases hnone

theorem sharedExit_canonicalized :
    Canonicalizes false List.reverse sharedExit := by
  refine (canonicalizes_iff wellFormed_sharedExit
    fun ids => List.reverse_perm ids).mpr ⟨?_, ?_⟩
  · rintro ⟨blocks, hring⟩
    have hmem : ∀ block ∈ blocks, block = 3 := by
      intro block hblock
      have horder : block ∈ [0, 1, 2, 3] := hring.mem_order block hblock
      have hne := hring.shapes_ne block hblock
      fin_cases horder
      · exact absurd rfl hne
      · exact absurd rfl hne
      · exact absurd rfl hne
      · rfl
    obtain ⟨block, hblock⟩ := hring.nonempty
    rw [hmem block hblock] at hblock
    exact hring.exit_not_mem rfl hblock
  · intro block _ _ hassertions
    cases hassertions

end CanonicalizeBarriers

end Pocl
