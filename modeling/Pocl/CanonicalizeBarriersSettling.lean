import Pocl.CanonicalizeBarriersEnds

/-!
# Splitting around the barriers

A barrier is settled once it is alone in its block and the block is the entry
or the only successor of its only predecessor.  Splitting around a barrier
settles it and keeps every other barrier settled, so that the order in which
the barriers are taken does not matter.
-/

namespace Pocl

namespace CanonicalizeBarriers

def Settled (func : Func) (id : ValueId) : Prop :=
  ∃ block ∈ func.order, shapes func block = [barrierShape id] ∧
    (block = func.entry ∨ ∃ source, IsolatedBy func block source)

section Identities

variable {func : Func}

theorem collectBarriers_eq (func : Func) :
    collectBarriers func = func.order.flatMap fun block =>
      ((shapes func block).filter Shape.barrier).map Shape.id := by
  unfold collectBarriers shapes
  apply List.flatMap_congr
  intro block _
  rw [List.filter_map, List.map_map]
  rfl

theorem mem_collectBarriers_iff {id : ValueId} :
    id ∈ collectBarriers func ↔
      ∃ block ∈ func.order, barrierShape id ∈ shapes func block := by
  rw [collectBarriers_eq, List.mem_flatMap]
  constructor
  · rintro ⟨block, hblock, hid⟩
    obtain ⟨shape, hshape, rfl⟩ := List.mem_map.mp hid
    obtain ⟨hmem, hbarrier⟩ := List.mem_filter.mp hshape
    refine ⟨block, hblock, ?_⟩
    rw [← eq_barrierShape_of_mem hmem hbarrier]
    exact hmem
  · rintro ⟨block, hblock, hmem⟩
    exact ⟨block, hblock,
      List.mem_map.mpr ⟨barrierShape id, List.mem_filter.mpr ⟨hmem, rfl⟩, rfl⟩⟩

theorem WellFormed.block_unique
    (hwf : WellFormed func) {first second : BlockId}
    (hfirst : first ∈ func.order) (hsecond : second ∈ func.order)
    {shape other : Shape} (hshape : shape ∈ shapes func first)
    (hother : other ∈ shapes func second) (hid : shape.id = other.id) :
    first = second := by
  by_contra hne
  have hnodup := hwf.ids_nodup
  unfold instrIds at hnodup
  rw [List.nodup_flatMap] at hnodup
  have : Std.Symm (Function.onFun List.Disjoint fun block =>
      (shapes func block).map Shape.id) := ⟨fun _ _ hab => List.Disjoint.symm hab⟩
  have hdisjoint := hnodup.2.forall hfirst hsecond hne
  exact hdisjoint (List.mem_map_of_mem hshape)
    (hid ▸ List.mem_map_of_mem hother)

/-- Where the source finds a barrier. -/
theorem WellFormed.locate
    (hwf : WellFormed func) {id : ValueId} {block : BlockId}
    (hblock : block ∈ func.order) (hmem : barrierShape id ∈ shapes func block) :
    ∃ before rest,
      (func.order.find? fun block =>
        (func.body block).instrs.any fun instr => instr.id = id) = some block ∧
      shapes func block = before ++ barrierShape id :: rest ∧
      ((func.body block).instrs.findIdx fun instr => instr.id = id) =
        before.length := by
  have hfind : (func.order.find? fun block =>
      (func.body block).instrs.any fun instr => instr.id = id) = some block := by
    cases hfound : func.order.find? fun block =>
        (func.body block).instrs.any fun instr => instr.id = id with
    | none =>
        have hnone := List.find?_eq_none.mp hfound block hblock
        obtain ⟨instr, hinstr, hshape⟩ := List.mem_map.mp hmem
        have hid : instr.id = id := congrArg Shape.id hshape
        exact absurd (List.any_eq_true.mpr ⟨instr, hinstr, by simpa using hid⟩)
          hnone
    | some other =>
        have hother := List.mem_of_find?_eq_some hfound
        have hany := List.find?_some hfound
        obtain ⟨instr, hinstr, hid⟩ := List.any_eq_true.mp hany
        have hidEq : (shapeOf instr).id = (barrierShape id).id :=
          of_decide_eq_true hid
        rw [hwf.block_unique hother hblock (List.mem_map_of_mem hinstr) hmem hidEq]
  obtain ⟨instr, hinstr, hshape⟩ := List.mem_map.mp hmem
  have hinstrId : instr.id = id := congrArg Shape.id hshape
  obtain ⟨before, rest, hsplit, hbefore⟩ :
      ∃ before rest, (func.body block).instrs = before ++ instr :: rest ∧
        ∀ other ∈ before, other.id ≠ id := by
    obtain ⟨before, rest, hsplit⟩ := List.append_of_mem hinstr
    refine ⟨before, rest, hsplit, ?_⟩
    intro other hother hid
    have hnodup := hwf.ids_nodup
    unfold instrIds at hnodup
    rw [List.nodup_flatMap] at hnodup
    have hnodupBlock := hnodup.1 block hblock
    unfold shapes at hnodupBlock
    rw [hsplit, List.map_map, List.map_append, List.nodup_append] at hnodupBlock
    refine hnodupBlock.2.2 id ?_ id ?_ rfl
    · exact List.mem_map.mpr ⟨other, hother, hid⟩
    · exact List.mem_map.mpr ⟨instr, List.mem_cons_self, hinstrId⟩
  refine ⟨before.map shapeOf, rest.map shapeOf, hfind, ?_, ?_⟩
  · unfold shapes
    rw [hsplit, List.map_append, List.map_cons, hshape]
  · rw [hsplit, List.length_map, List.findIdx_append,
      List.findIdx_eq_length.mpr (by simpa using hbefore)]
    simp [List.findIdx_cons, hinstrId]

end Identities

/-- What a split around a barrier keeps. -/
structure SplitStage (func after : Func) : Prop where
  stage : Stage func after
  collectBarriers_eq : collectBarriers after = collectBarriers func
  settled : ∀ id, Settled func id → Settled after id
  entry : OnlyBarrier func func.entry → OnlyBarrier after after.entry
  exits : (∀ block ∈ func.order, func.succs block = [] →
      OnlyBarrier func block) →
    ∀ block ∈ after.order, after.succs block = [] → OnlyBarrier after block

namespace SplitStage

theorem refl {func : Func} (hwf : WellFormed func) : SplitStage func func :=
  ⟨Stage.refl hwf, rfl, fun _ => id, id, id⟩

theorem trans {first second third : Func}
    (hfirst : SplitStage first second) (hsecond : SplitStage second third) :
    SplitStage first third :=
  ⟨hfirst.stage.trans hsecond.stage,
    hsecond.collectBarriers_eq.trans hfirst.collectBarriers_eq,
    fun id hid => hsecond.settled id (hfirst.settled id hid),
    fun hentry => hsecond.entry (hfirst.entry hentry),
    fun hexits => hsecond.exits (hfirst.exits hexits)⟩

end SplitStage

/-- A block that is nothing but a barrier is split only if the barrier is not
settled, and then before the barrier. -/
theorem Splits.splitStage
    {func after : Func} {block new : BlockId} {index : ℕ}
    (hsplits : Splits func block index after new) (hwf : WellFormed func)
    (hblock : block ∈ func.order)
    (hparts : ∀ blocks, Ring func blocks → block ∈ blocks →
      0 < index ∧ index < (shapes func block).length)
    (hsingle : OnlyBarrier func block → index = 0 ∧ block ≠ func.entry ∧
      ∀ source, ¬IsolatedBy func block source) :
    SplitStage func after := by
  have hstage := hsplits.stage hwf hblock hparts
  have hnot := hsplits.new_not_mem hwf.blocks
  have hne : ∀ other ∈ func.order, other ≠ new := fun other hother heq =>
    hnot (heq ▸ hother)
  constructor
  · exact hstage
  · rw [collectBarriers_eq, collectBarriers_eq]
    apply hsplits.flatMap_shapes hwf.blocks hblock
      (fun list => (list.filter Shape.barrier).map Shape.id)
    intro first second
    rw [List.filter_append, List.map_append]
  · rintro id ⟨other, hother, hshapes, hplace⟩
    have hotherNe : other ≠ block := by
      rintro rfl
      obtain ⟨_, hentry, hisolated⟩ := hsingle ⟨id, hshapes⟩
      rcases hplace with heq | ⟨source, hsource⟩
      · exact hentry heq
      · exact hisolated source hsource
    refine ⟨other, (hsplits.mem_order hblock).mpr (Or.inr hother), ?_, ?_⟩
    · rw [hsplits.shapes_other other hotherNe (hne other hother)]
      exact hshapes
    · rcases hplace with heq | ⟨source, hsource⟩
      · exact Or.inl (heq.trans hstage.entry_eq.symm)
      · exact Or.inr ⟨_, hsplits.isolatedBy hwf.blocks hblock (hne other hother)
          hsource⟩
  · intro hentry
    have hentryNe : func.entry ≠ block := by
      intro heq
      rw [heq] at hentry
      exact (hsingle hentry).2.1 heq.symm
    unfold OnlyBarrier
    rw [hstage.entry_eq, hsplits.shapes_other _ hentryNe
      (hne _ hwf.blocks.entry_mem)]
    exact hentry
  · intro hexits other hother hexit
    rcases (hsplits.mem_order hblock).mp hother with rfl | hotherMem
    · rw [hsplits.succs_new] at hexit
      obtain ⟨hindex, _, _⟩ := hsingle (hexits block hblock hexit)
      unfold OnlyBarrier
      rw [hsplits.shapes_new, hindex, List.drop_zero]
      exact hexits block hblock hexit
    · have hotherNe : other ≠ block := by
        rintro rfl
        rw [hsplits.succs_block] at hexit
        cases hexit
      rw [hsplits.succs_other hotherNe (hne other hotherMem)] at hexit
      unfold OnlyBarrier
      rw [hsplits.shapes_other other hotherNe (hne other hotherMem)]
      exact hexits other hotherMem hexit

section SplitAround

variable {func : Func} {block : BlockId} {id : ValueId}

/-- The split behind a barrier. -/
theorem exists_splitBehind
    {before rest : List Shape} (hwf : WellFormed func)
    (hblock : block ∈ func.order)
    (hshapes : shapes func block = before ++ barrierShape id :: rest)
    (changed : Bool) :
    ∃ middle changedMiddle,
      (if before.length + 1 < (func.body block).instrs.length then
        ((splitBlock func block (before.length + 1)).1, true)
      else (func, changed)) = (middle, changedMiddle) ∧
      SplitStage func middle ∧ block ∈ middle.order ∧
      shapes middle block = before ++ [barrierShape id] := by
  have hlength : (func.body block).instrs.length = (shapes func block).length :=
    (List.length_map _).symm
  rw [hlength]
  by_cases hmore : before.length + 1 < (shapes func block).length
  · rw [if_pos hmore]
    have hsplits : Splits func block (before.length + 1)
        (splitBlock func block (before.length + 1)).1
        (splitBlock func block (before.length + 1)).2 := by
      apply splitBlock_splits (hwf.blocks.bound block hblock)
      intro shape hshape
      have hshapeRest : shape ∈ rest := by
        rw [hshapes, List.getElem?_append_right (Nat.le_add_right _ 1),
          Nat.add_sub_cancel_left] at hshape
        exact List.mem_of_getElem? hshape
      have hfirst := hwf.phis_first block hblock
      rw [hshapes, List.pairwise_append, List.pairwise_cons] at hfirst
      exact hfirst.2.1.1 shape hshapeRest rfl
    refine ⟨_, _, rfl, ?_, (hsplits.mem_order hblock).mpr (Or.inr hblock), ?_⟩
    · apply hsplits.splitStage hwf hblock
      · intro blocks _ _
        exact ⟨Nat.succ_pos _, hmore⟩
      · rintro ⟨other, hother⟩
        rw [hother] at hmore
        exact absurd hmore (by simp)
    · rw [hsplits.shapes_block, hshapes]
      simp [List.take_append]
  · rw [if_neg hmore]
    refine ⟨_, _, rfl, SplitStage.refl hwf, hblock, ?_⟩
    rw [hshapes, List.length_append, List.length_cons] at hmore
    have hrest : rest = [] := List.length_eq_zero_iff.mp (by omega)
    rw [hshapes, hrest]

theorem Ring.isolatedBy
    {blocks : Set BlockId} (hring : Ring func blocks) (hblock : block ∈ blocks) :
    ∃ source, IsolatedBy func block source := by
  obtain ⟨source, hsource, hpred⟩ := hring.preds block hblock
  obtain ⟨target, _, hsucc⟩ := hring.succs source hsource
  exact ⟨source, hpred, by rw [hsucc]; rfl⟩

/-- The split before a barrier. -/
theorem exists_splitBefore
    {before : List Shape} (hwf : WellFormed func) (hblock : block ∈ func.order)
    (hshapes : shapes func block = before ++ [barrierShape id])
    (changed : Bool) :
    ∃ after changedAfter,
      (if isolated func block = true ∧ before.length = 0 then some (func, changed)
      else if block = func.entry ∧ before.length = 0 then some (func, changed)
      else some ((splitBlock func block before.length).1, true)) =
        some (after, changedAfter) ∧
      SplitStage func after ∧ Settled after id := by
  by_cases hisolated : isolated func block = true ∧ before.length = 0
  · rw [if_pos hisolated]
    rw [List.length_eq_zero_iff.mp hisolated.2] at hshapes
    exact ⟨_, _, rfl, SplitStage.refl hwf, block, hblock, hshapes,
      Or.inr (isolated_iff.mp hisolated.1)⟩
  by_cases hentry : block = func.entry ∧ before.length = 0
  · rw [if_neg hisolated, if_pos hentry]
    rw [List.length_eq_zero_iff.mp hentry.2] at hshapes
    exact ⟨_, _, rfl, SplitStage.refl hwf, block, hblock, hshapes,
      Or.inl hentry.1⟩
  rw [if_neg hisolated, if_neg hentry]
  have hsplits : Splits func block before.length
      (splitBlock func block before.length).1
      (splitBlock func block before.length).2 := by
    apply splitBlock_splits (hwf.blocks.bound block hblock)
    intro shape hshape
    rw [hshapes, List.getElem?_append_right (le_refl _), Nat.sub_self] at hshape
    cases hshape
    rfl
  refine ⟨_, _, rfl, ?_, ?_⟩
  · apply hsplits.splitStage hwf hblock
    · intro blocks hring hmem
      constructor
      · apply Nat.pos_of_ne_zero
        intro hzero
        exact hisolated ⟨isolated_iff.mpr (hring.isolatedBy hmem), hzero⟩
      · rw [hshapes, List.length_append]
        exact Nat.lt_succ_self _
    · rintro ⟨other, hother⟩
      have hlength := congrArg List.length (hshapes.symm.trans hother)
      rw [List.length_append] at hlength
      have hzero : before.length = 0 := Nat.succ.inj hlength
      refine ⟨hzero, fun heq => hentry ⟨heq, hzero⟩, ?_⟩
      intro source hsource
      exact hisolated ⟨isolated_iff.mpr ⟨source, hsource⟩, hzero⟩
  · refine ⟨_, (hsplits.mem_order hblock).mpr (Or.inl rfl), ?_,
      Or.inr ⟨_, hsplits.isolatedBy_new hwf.blocks hblock⟩⟩
    rw [hsplits.shapes_new, hshapes, List.drop_left]

theorem splitAroundBarrier_stage
    (hwf : WellFormed func) (hid : id ∈ collectBarriers func) (changed : Bool) :
    ∃ after changedAfter,
      splitAroundBarrier (func, changed) id = some (after, changedAfter) ∧
        SplitStage func after ∧ Settled after id := by
  obtain ⟨block, hblock, hmem⟩ := mem_collectBarriers_iff.mp hid
  obtain ⟨before, rest, hfind, hshapes, hindex⟩ := hwf.locate hblock hmem
  obtain ⟨middle, changedMiddle, hbehind, hmiddle, hblockMiddle, hshapesMiddle⟩ :=
    exists_splitBehind hwf hblock hshapes changed
  obtain ⟨after, changedAfter, hbefore, hafter, hsettled⟩ :=
    exists_splitBefore hmiddle.stage.wellFormed hblockMiddle hshapesMiddle
      changedMiddle
  refine ⟨after, changedAfter, ?_, hmiddle.trans hafter, hsettled⟩
  unfold splitAroundBarrier
  simp only [hfind, Option.bind_eq_bind, Option.bind_some, hindex, hbehind]
  exact hbefore

/-- Nothing is split around a settled barrier. -/
theorem splitAroundBarrier_of_settled
    (hwf : WellFormed func) (hsettled : Settled func id) (changed : Bool) :
    splitAroundBarrier (func, changed) id = some (func, changed) := by
  obtain ⟨block, hblock, hshapes, hplace⟩ := hsettled
  have hmem : barrierShape id ∈ shapes func block := by
    rw [hshapes]
    exact List.mem_singleton_self _
  obtain ⟨before, rest, hfind, hparts, hindex⟩ := hwf.locate hblock hmem
  have hlength : (func.body block).instrs.length = 1 := by
    have hlengthShapes := congrArg List.length hshapes
    unfold shapes at hlengthShapes
    rwa [List.length_map] at hlengthShapes
  have hzero : before.length = 0 := by
    have hlengthParts := congrArg List.length (hparts.symm.trans hshapes)
    rw [List.length_append, List.length_cons, List.length_singleton] at hlengthParts
    omega
  rw [hzero] at hindex
  have hone : ¬0 + 1 < (func.body block).instrs.length := by
    rw [hlength]
    exact lt_irrefl _
  unfold splitAroundBarrier
  simp only [hfind, Option.bind_eq_bind, Option.bind_some, hindex, if_neg hone]
  rcases hplace with hentry | hisolated
  · simp [hentry]
  · simp [isolated_iff.mpr hisolated]

end SplitAround

/-- The loop over the barriers settles every one of them. -/
theorem foldlM_splitAroundBarrier_stage :
    ∀ {ids : List ValueId} {func : Func} (changed : Bool), WellFormed func →
      (∀ id ∈ ids, id ∈ collectBarriers func) →
      ∃ after changedAfter,
        ids.foldlM splitAroundBarrier (func, changed) =
            some (after, changedAfter) ∧
          SplitStage func after ∧ ∀ id ∈ ids, Settled after id
  | [], func, changed, hwf, _ =>
      ⟨func, changed, rfl, SplitStage.refl hwf, fun _ hid => nomatch hid⟩
  | id :: ids, func, changed, hwf, hids => by
      obtain ⟨middle, changedMiddle, hstep, hmiddle, hsettled⟩ :=
        splitAroundBarrier_stage hwf (hids id List.mem_cons_self) changed
      have hrest : ∀ other ∈ ids, other ∈ collectBarriers middle := by
        intro other hother
        rw [hmiddle.collectBarriers_eq]
        exact hids other (List.mem_cons_of_mem _ hother)
      obtain ⟨after, changedAfter, hloop, hafter, hsettledRest⟩ :=
        foldlM_splitAroundBarrier_stage changedMiddle hmiddle.stage.wellFormed
          hrest
      refine ⟨after, changedAfter, ?_, hmiddle.trans hafter, ?_⟩
      · rw [List.foldlM_cons, hstep]
        exact hloop
      · intro other hother
        rcases List.mem_cons.mp hother with rfl | hother
        · exact hafter.settled _ hsettled
        · exact hsettledRest other hother

theorem foldlM_splitAroundBarrier_of_settled
    {func : Func} (hwf : WellFormed func) (changed : Bool) :
    ∀ {ids : List ValueId}, (∀ id ∈ ids, Settled func id) →
      ids.foldlM splitAroundBarrier (func, changed) = some (func, changed)
  | [], _ => rfl
  | id :: ids, hids => by
      rw [List.foldlM_cons,
        splitAroundBarrier_of_settled hwf (hids id List.mem_cons_self)]
      exact foldlM_splitAroundBarrier_of_settled hwf changed
        fun other hother => hids other (List.mem_cons_of_mem _ hother)

/-- In a function whose barriers are settled every block with a barrier is
nothing but the barrier. -/
theorem onlyBarrier_of_settled
    {func : Func} (hwf : WellFormed func)
    (hsettled : ∀ id ∈ collectBarriers func, Settled func id)
    {block : BlockId} (hblock : block ∈ func.order) {shape : Shape}
    (hshape : shape ∈ shapes func block) (hbarrier : shape.barrier = true) :
    OnlyBarrier func block ∧
      (block = func.entry ∨ ∃ source, IsolatedBy func block source) := by
  rw [eq_barrierShape_of_mem hshape hbarrier] at hshape
  obtain ⟨other, hother, hshapes, hplace⟩ :=
    hsettled _ (mem_collectBarriers_iff.mpr ⟨block, hblock, hshape⟩)
  have heq : other = block := by
    apply hwf.block_unique hother hblock _ hshape rfl
    rw [hshapes]
    exact List.mem_singleton_self _
  subst heq
  exact ⟨⟨_, hshapes⟩, hplace⟩

end CanonicalizeBarriers

end Pocl
