import Pocl.CanonicalizeBarriers

/-!
# Splitting a block

What the pass sees of an instruction is its identity and whether it is a
barrier or a PHI node; this is its shape, which renaming the incoming blocks of
PHI nodes does not change.  A split cuts the shapes of one block in two, gives
the second part a single predecessor, and renames one predecessor everywhere
else.
-/

namespace Pocl

namespace CanonicalizeBarriers

structure Shape where
  id : ValueId
  barrier : Bool
  phi : Bool
  deriving DecidableEq

def shapeOf (instr : Instr) : Shape :=
  ⟨instr.id, instr.kind.isBarrier, instr.kind.isPhi⟩

def shapes (func : Func) (block : BlockId) : List Shape :=
  (func.body block).instrs.map shapeOf

/-- The shape of a barrier. -/
def barrierShape (id : ValueId) : Shape :=
  ⟨id, true, false⟩

@[simp] theorem shapeOf_renameIncoming (old new : BlockId) (instr : Instr) :
    shapeOf (renameIncoming old new instr) = shapeOf instr := by
  unfold renameIncoming shapeOf
  cases hkind : instr.kind with
  | barrier => simp [hkind]
  | phi incoming => simp [InstrKind.isBarrier, InstrKind.isPhi]
  | other opcode operands => simp [hkind]

theorem shapeOf_eq_barrier {instr : Instr} (hbarrier : (shapeOf instr).barrier) :
    shapeOf instr = barrierShape instr.id := by
  unfold shapeOf at hbarrier ⊢
  cases hkind : instr.kind with
  | barrier => rfl
  | phi incoming => rw [hkind] at hbarrier; cases hbarrier
  | other opcode operands => rw [hkind] at hbarrier; cases hbarrier

section ReplacePhiUses

variable {func : Func} {targets : List BlockId} {old new block : BlockId}

@[simp] theorem replacePhiUses_shapes :
    shapes (replacePhiUses func targets old new) block = shapes func block := by
  unfold shapes replacePhiUses
  by_cases hblock : block ∈ targets
  · simp only [if_pos hblock, List.map_map]
    exact List.map_congr_left fun instr _ => shapeOf_renameIncoming old new instr
  · simp only [if_neg hblock]

@[simp] theorem replacePhiUses_term :
    ((replacePhiUses func targets old new).body block).term =
      (func.body block).term := by
  unfold replacePhiUses
  by_cases hblock : block ∈ targets
  · simp only [if_pos hblock]
  · simp only [if_neg hblock]

@[simp] theorem replacePhiUses_succs :
    (replacePhiUses func targets old new).succs block = func.succs block := by
  unfold Func.succs
  rw [replacePhiUses_term]

end ReplacePhiUses

section InsertAfter

variable {block new : BlockId}

theorem perm_insertAfter :
    ∀ {order : List BlockId}, block ∈ order →
      (insertAfter block new order).Perm (new :: order)
  | [], hmem => absurd hmem List.not_mem_nil
  | head :: rest, hmem => by
      unfold insertAfter
      split
      · exact List.Perm.swap new head rest
      · rename_i hne
        have hrest : block ∈ rest := by
          rcases List.mem_cons.mp hmem with heq | hrest
          · exact absurd heq.symm hne
          · exact hrest
        exact ((perm_insertAfter hrest).cons head).trans
          (List.Perm.swap new head rest)

theorem headD_insertAfter {order : List BlockId} (hne : order ≠ [])
    (default : BlockId) :
    (insertAfter block new order).headD default = order.headD default := by
  cases order with
  | nil => exact absurd rfl hne
  | cons head rest =>
      unfold insertAfter
      split <;> rfl

/-- A function that is cut in two at `block` and `new` collects the same. -/
theorem flatMap_insertAfter
    {α : Type} {before after : BlockId → List α} :
    ∀ {order : List BlockId}, order.Nodup → block ∈ order →
      (∀ other ∈ order, other ≠ block → after other = before other) →
      after block ++ after new = before block →
        (insertAfter block new order).flatMap after = order.flatMap before
  | [], _, hmem, _, _ => absurd hmem List.not_mem_nil
  | head :: rest, hnodup, hmem, hother, hcut => by
      rw [List.nodup_cons] at hnodup
      unfold insertAfter
      split
      · rename_i hhead
        subst hhead
        rw [List.flatMap_cons, List.flatMap_cons, List.flatMap_cons,
          ← List.append_assoc, hcut]
        congr 1
        apply List.flatMap_congr
        intro other hmemRest
        exact hother other (List.mem_cons_of_mem _ hmemRest)
          fun heq => hnodup.1 (heq ▸ hmemRest)
      · rename_i hne
        have hrest : block ∈ rest := by
          rcases List.mem_cons.mp hmem with heq | hrest
          · exact absurd heq.symm hne
          · exact hrest
        rw [List.flatMap_cons, List.flatMap_cons,
          hother head List.mem_cons_self hne,
          flatMap_insertAfter hnodup.2 hrest
            (fun other hmemRest =>
              hother other (List.mem_cons_of_mem _ hmemRest)) hcut]

end InsertAfter

/-- What a split does to the shapes and branches of a function. -/
structure Splits
    (func : Func) (block : BlockId) (index : ℕ) (after : Func) (new : BlockId) :
    Prop where
  new_eq : new = func.freshBlock
  order_eq : after.order = insertAfter block new func.order
  freshBlock_eq : after.freshBlock = func.freshBlock + 1
  freshValue_eq : after.freshValue = func.freshValue + 1
  shapes_block : shapes after block = (shapes func block).take index
  shapes_new : shapes after new = (shapes func block).drop index
  shapes_other : ∀ other, other ≠ block → other ≠ new →
    shapes after other = shapes func other
  succs_block : after.succs block = [new]
  term_new : (after.body new).term = (func.body block).term
  term_other : ∀ other, other ≠ block → other ≠ new →
    (after.body other).term = (func.body other).term

theorem splitBlock_splits
    {func : Func} {block : BlockId} {index : ℕ}
    (hblock : block < func.freshBlock)
    (hphi : ∀ shape, (shapes func block)[index]? = some shape →
      shape.phi = false) :
    Splits func block index (splitBlock func block index).1
      (splitBlock func block index).2 := by
  have hne : block ≠ func.freshBlock := Nat.ne_of_lt hblock
  have hskip : ((func.body block).instrs.drop index).takeWhile
      (fun instr => instr.kind.isPhi) = [] := by
    cases hdrop : (func.body block).instrs.drop index with
    | nil => rfl
    | cons first rest =>
        have hfirst : (func.body block).instrs[index]? = some first := by
          have hget := congrArg List.head? hdrop
          rwa [List.head?_drop, List.head?_cons] at hget
        have hnot := hphi (shapeOf first) (by
          unfold shapes
          rw [List.getElem?_map, hfirst]
          rfl)
        rw [List.takeWhile_cons_of_neg]
        simpa [shapeOf] using hnot
  constructor
  · rfl
  · rfl
  · rfl
  · rfl
  · simp only [splitBlock, hskip, replacePhiUses_shapes]
    simp [shapes, Function.update_of_ne hne, List.map_take]
  · simp only [splitBlock, hskip, replacePhiUses_shapes]
    simp [shapes, List.map_drop]
  · intro other hother hnew
    change other ≠ func.freshBlock at hnew
    simp only [splitBlock, replacePhiUses_shapes]
    simp [shapes, Function.update_of_ne hnew, Function.update_of_ne hother]
  · simp only [splitBlock, replacePhiUses_succs]
    simp [Func.succs, Function.update_of_ne hne]
  · simp only [splitBlock, replacePhiUses_term]
    simp
  · intro other hother hnew
    change other ≠ func.freshBlock at hnew
    simp only [splitBlock, replacePhiUses_term]
    simp [Function.update_of_ne hnew, Function.update_of_ne hother]

section Functions

def instrIds (func : Func) : List ValueId :=
  func.order.flatMap fun block => (shapes func block).map Shape.id

/-- What the pass is given: branches stay inside the function, the entry block
has no predecessors, instructions have identities of their own, and no PHI node
follows a barrier. -/
structure WellFormed (func : Func) : Prop where
  blocks : func.HasBlocks
  entry_pred : predecessors func func.entry = []
  ids_nodup : (instrIds func).Nodup
  ids_lt : ∀ id ∈ instrIds func, id < func.freshValue
  phis_first : ∀ block ∈ func.order, (shapes func block).Pairwise
    fun first second => first.barrier = true → second.phi = false
  entry_phi : ∀ shape ∈ shapes func func.entry, shape.phi = false

/-- The block has one predecessor, which has no other successor. -/
def IsolatedBy (func : Func) (block source : BlockId) : Prop :=
  predecessors func block = [source] ∧ (func.succs source).length = 1

theorem getSinglePredecessor_eq_some_iff
    {func : Func} {block source : BlockId} :
    getSinglePredecessor func block = some source ↔
      predecessors func block = [source] := by
  unfold getSinglePredecessor
  split
  · rename_i single hsingle
    rw [hsingle, Option.some.injEq, List.cons.injEq]
    exact ⟨fun heq => ⟨heq, rfl⟩, fun heq => heq.1⟩
  · rename_i hnot
    constructor
    · intro hnone
      cases hnone
    · intro heq
      exact absurd heq (hnot source)

theorem isolated_iff {func : Func} {block : BlockId} :
    isolated func block = true ↔ ∃ source, IsolatedBy func block source := by
  unfold isolated IsolatedBy
  cases hsingle : getSinglePredecessor func block with
  | none =>
      constructor
      · intro hfalse
        cases hfalse
      · rintro ⟨source, hsource, _⟩
        rw [getSinglePredecessor_eq_some_iff.mpr hsource] at hsingle
        cases hsingle
  | some source =>
      have hpred := getSinglePredecessor_eq_some_iff.mp hsingle
      constructor
      · intro hlength
        exact ⟨source, hpred, by simpa using hlength⟩
      · rintro ⟨other, hother, hlength⟩
        rw [hpred, List.cons.injEq] at hother
        simpa [hother.1] using hlength

theorem mem_predecessors {func : Func} {block source : BlockId} :
    source ∈ predecessors func block ↔
      source ∈ func.order ∧ block ∈ func.succs source := by
  unfold predecessors
  constructor
  · intro hmem
    obtain ⟨other, hother, hsource⟩ := List.mem_flatMap.mp hmem
    obtain ⟨target, htarget, rfl⟩ := List.mem_map.mp hsource
    obtain ⟨hsucc, heq⟩ := List.mem_filter.mp htarget
    obtain rfl : target = block := by simpa using heq
    exact ⟨hother, hsucc⟩
  · rintro ⟨hsource, hblock⟩
    refine List.mem_flatMap.mpr ⟨source, hsource, ?_⟩
    refine List.mem_map.mpr ⟨block, ?_, rfl⟩
    exact List.mem_filter.mpr ⟨hblock, by simp⟩

theorem IsolatedBy.succs_eq
    {func : Func} {block source : BlockId}
    (hisolated : IsolatedBy func block source) :
    source ∈ func.order ∧ func.succs source = [block] := by
  obtain ⟨hpred, hlength⟩ := hisolated
  have hmem : source ∈ predecessors func block := by
    rw [hpred]
    exact List.mem_singleton_self source
  obtain ⟨horder, hsucc⟩ := mem_predecessors.mp hmem
  obtain ⟨only, honly⟩ := List.length_eq_one_iff.mp hlength
  rw [honly] at hsucc ⊢
  rw [List.mem_singleton.mp hsucc]
  exact ⟨horder, rfl⟩

end Functions

namespace Splits

variable {func after : Func} {block new : BlockId} {index : ℕ}

def renamed (block new source : BlockId) : BlockId :=
  if source = block then new else source

theorem new_not_mem
    (hsplits : Splits func block index after new) (hblocks : func.HasBlocks) :
    new ∉ func.order := by
  intro hmem
  rw [hsplits.new_eq] at hmem
  exact lt_irrefl _ (hblocks.bound _ hmem)

theorem mem_order
    (hsplits : Splits func block index after new)
    (hblock : block ∈ func.order) {other : BlockId} :
    other ∈ after.order ↔ other = new ∨ other ∈ func.order := by
  rw [hsplits.order_eq, (perm_insertAfter hblock).mem_iff, List.mem_cons]

theorem entry_eq
    (hsplits : Splits func block index after new) (hblocks : func.HasBlocks) :
    after.entry = func.entry := by
  unfold Func.entry
  rw [hsplits.order_eq]
  exact headD_insertAfter hblocks.nonempty 0

theorem succs_new (hsplits : Splits func block index after new) :
    after.succs new = func.succs block :=
  congrArg Terminator.succs hsplits.term_new

theorem succs_other
    (hsplits : Splits func block index after new) {other : BlockId}
    (hblock : other ≠ block) (hnew : other ≠ new) :
    after.succs other = func.succs other :=
  congrArg Terminator.succs (hsplits.term_other other hblock hnew)

theorem hasBlocks
    (hsplits : Splits func block index after new) (hblocks : func.HasBlocks)
    (hblock : block ∈ func.order) : after.HasBlocks := by
  have hperm : (insertAfter block new func.order).Perm (new :: func.order) :=
    perm_insertAfter hblock
  have hnot := hsplits.new_not_mem hblocks
  constructor
  · intro hempty
    have hmem := (hsplits.mem_order hblock).mpr (Or.inr hblock)
    rw [hempty] at hmem
    cases hmem
  · rw [hsplits.order_eq, hperm.nodup_iff, List.nodup_cons]
    exact ⟨hnot, hblocks.nodup⟩
  · intro other hother
    rw [hsplits.freshBlock_eq]
    rcases (hsplits.mem_order hblock).mp hother with rfl | hother
    · rw [hsplits.new_eq]
      exact Nat.lt_succ_self _
    · exact (hblocks.bound other hother).trans (Nat.lt_succ_self _)
  · intro other hother target htarget
    rw [hsplits.mem_order hblock]
    by_cases hotherBlock : other = block
    · rw [hotherBlock, hsplits.succs_block] at htarget
      exact Or.inl (List.mem_singleton.mp htarget)
    · rcases (hsplits.mem_order hblock).mp hother with rfl | hother
      · rw [hsplits.succs_new] at htarget
        exact Or.inr (hblocks.succs_mem block hblock target htarget)
      · have hnew : other ≠ new := fun heq => hnot (heq ▸ hother)
        rw [hsplits.succs_other hotherBlock hnew] at htarget
        exact Or.inr (hblocks.succs_mem other hother target htarget)

theorem predecessors_old
    (hsplits : Splits func block index after new) (hblocks : func.HasBlocks)
    (hblock : block ∈ func.order) {other : BlockId} (hother : other ≠ new) :
    predecessors after other =
      (predecessors func other).map (renamed block new) := by
  have hnot := hsplits.new_not_mem hblocks
  unfold predecessors
  rw [List.map_flatMap, hsplits.order_eq]
  apply flatMap_insertAfter hblocks.nodup hblock
  · intro source hsource hne
    have hnew : source ≠ new := fun heq => hnot (heq ▸ hsource)
    rw [hsplits.succs_other hne hnew, List.map_map]
    apply List.map_congr_left
    intro _ _
    exact (if_neg hne).symm
  · rw [hsplits.succs_block, hsplits.succs_new,
      List.filter_cons_of_neg (by simpa using Ne.symm hother), List.filter_nil,
      List.map_nil, List.nil_append, List.map_map]
    apply List.map_congr_left
    intro _ _
    exact (if_pos rfl).symm

theorem predecessors_new
    (hsplits : Splits func block index after new) (hblocks : func.HasBlocks)
    (hblock : block ∈ func.order) : predecessors after new = [block] := by
  have hnot := hsplits.new_not_mem hblocks
  have hcut : predecessors after new =
      func.order.flatMap fun source => if source = block then [block] else [] := by
    unfold predecessors
    rw [hsplits.order_eq]
    apply flatMap_insertAfter hblocks.nodup hblock
    · intro source hsource hne
      have hnew : source ≠ new := fun heq => hnot (heq ▸ hsource)
      rw [hsplits.succs_other hne hnew, if_neg hne, List.map_eq_nil_iff,
        List.filter_eq_nil_iff]
      intro target htarget heq
      have htargetMem := hblocks.succs_mem source hsource target htarget
      rw [show target = new by simpa using heq] at htargetMem
      exact hnot htargetMem
    · have hempty : (func.succs block).filter (· = new) = [] := by
        rw [List.filter_eq_nil_iff]
        intro target htarget heq
        have htargetMem := hblocks.succs_mem block hblock target htarget
        rw [show target = new by simpa using heq] at htargetMem
        exact hnot htargetMem
      rw [hsplits.succs_block, hsplits.succs_new, hempty, if_pos rfl]
      simp
  rw [hcut]
  clear hcut hnot
  have hnodup := hblocks.nodup
  generalize func.order = order at hblock hnodup
  induction order with
  | nil => cases hblock
  | cons head rest ih =>
      rw [List.nodup_cons] at hnodup
      rw [List.flatMap_cons]
      by_cases hhead : head = block
      · subst hhead
        rw [if_pos rfl, List.flatMap_eq_nil_iff.mpr]
        · rfl
        · intro other hother
          have hne : other ≠ head := fun heq => hnodup.1 (heq ▸ hother)
          exact if_neg hne
      · rw [if_neg hhead, List.nil_append]
        apply ih _ hnodup.2
        rcases List.mem_cons.mp hblock with heq | hrest
        · exact absurd heq.symm hhead
        · exact hrest

/-- A single predecessor stays single, under its new name. -/
theorem isolatedBy
    (hsplits : Splits func block index after new) (hblocks : func.HasBlocks)
    (hblock : block ∈ func.order) {other source : BlockId}
    (hother : other ≠ new) (hisolated : IsolatedBy func other source) :
    IsolatedBy after other (renamed block new source) := by
  constructor
  · rw [hsplits.predecessors_old hblocks hblock hother, hisolated.1]
    rfl
  · have hsource := hisolated.succs_eq.1
    unfold renamed
    split
    · rename_i heq
      rw [hsplits.succs_new, ← heq]
      exact hisolated.2
    · rename_i hne
      have hnew : source ≠ new := fun heq =>
        hsplits.new_not_mem hblocks (heq ▸ hsource)
      rw [hsplits.succs_other hne hnew]
      exact hisolated.2

theorem isolatedBy_new
    (hsplits : Splits func block index after new) (hblocks : func.HasBlocks)
    (hblock : block ∈ func.order) : IsolatedBy after new block :=
  ⟨hsplits.predecessors_new hblocks hblock, by
    rw [hsplits.succs_block]
    rfl⟩

theorem flatMap_shapes
    (hsplits : Splits func block index after new) (hblocks : func.HasBlocks)
    (hblock : block ∈ func.order) {α : Type} (collect : List Shape → List α)
    (hcollect : ∀ first second, collect (first ++ second) =
      collect first ++ collect second) :
    (after.order.flatMap fun other => collect (shapes after other)) =
      func.order.flatMap fun other => collect (shapes func other) := by
  have hnot := hsplits.new_not_mem hblocks
  rw [hsplits.order_eq]
  apply flatMap_insertAfter hblocks.nodup hblock
  · intro other hother hne
    rw [hsplits.shapes_other other hne fun heq => hnot (heq ▸ hother)]
  · rw [hsplits.shapes_block, hsplits.shapes_new, ← hcollect,
      List.take_append_drop]

theorem instrIds_eq
    (hsplits : Splits func block index after new) (hblocks : func.HasBlocks)
    (hblock : block ∈ func.order) : instrIds after = instrIds func :=
  hsplits.flatMap_shapes hblocks hblock (List.map Shape.id)
    fun _ _ => List.map_append

theorem wellFormed
    (hsplits : Splits func block index after new) (hwf : WellFormed func)
    (hblock : block ∈ func.order) : WellFormed after := by
  have hnot := hsplits.new_not_mem hwf.blocks
  have hentryNe : func.entry ≠ new := fun heq =>
    hnot (heq ▸ hwf.blocks.entry_mem)
  constructor
  · exact hsplits.hasBlocks hwf.blocks hblock
  · rw [hsplits.entry_eq hwf.blocks,
      hsplits.predecessors_old hwf.blocks hblock hentryNe, hwf.entry_pred]
    rfl
  · rw [hsplits.instrIds_eq hwf.blocks hblock]
    exact hwf.ids_nodup
  · rw [hsplits.instrIds_eq hwf.blocks hblock, hsplits.freshValue_eq]
    exact fun id hid => (hwf.ids_lt id hid).trans (Nat.lt_succ_self _)
  · intro other hother
    by_cases hotherBlock : other = block
    · rw [hotherBlock, hsplits.shapes_block]
      exact (hwf.phis_first block hblock).sublist (List.take_sublist _ _)
    · rcases (hsplits.mem_order hblock).mp hother with rfl | hmem
      · rw [hsplits.shapes_new]
        exact (hwf.phis_first block hblock).sublist (List.drop_sublist _ _)
      · have hnew : other ≠ new := fun heq => hnot (heq ▸ hmem)
        rw [hsplits.shapes_other other hotherBlock hnew]
        exact hwf.phis_first other hmem
  · rw [hsplits.entry_eq hwf.blocks]
    intro shape hshape
    by_cases hentry : func.entry = block
    · rw [hentry, hsplits.shapes_block] at hshape
      exact hwf.entry_phi shape (hentry ▸ List.mem_of_mem_take hshape)
    · rw [hsplits.shapes_other func.entry hentry hentryNe] at hshape
      exact hwf.entry_phi shape hshape

end Splits

end CanonicalizeBarriers

end Pocl
