import Pocl.CanonicalizeBarriersSettling

/-!
# Pruning empty regions

Of two barrier blocks in direct succession the second is skipped and erased.
The blocks get fewer with every deletion, so the loop ends unless it meets a
block that is its own successor; that happens exactly if there is a ring.
-/

namespace Pocl

namespace CanonicalizeBarriers

/-- The shape of the function that the pass is to establish. -/
structure Canonical (func : Func) : Prop where
  alone : ∀ block ∈ func.order, (func.body block).hasBarrier = true →
    OnlyBarrier func block
  isolated : ∀ block ∈ func.order, OnlyBarrier func block →
    block ≠ func.entry → ∃ source, IsolatedBy func block source
  entry : OnlyBarrier func func.entry
  exits : ∀ block ∈ func.order, func.succs block = [] → OnlyBarrier func block

theorem hasBarrier_iff {func : Func} {block : BlockId} :
    (func.body block).hasBarrier = true ↔
      ∃ shape ∈ shapes func block, shape.barrier = true := by
  unfold Block.hasBarrier shapes
  rw [List.any_eq_true]
  constructor
  · rintro ⟨instr, hinstr, hbarrier⟩
    exact ⟨_, List.mem_map_of_mem hinstr, hbarrier⟩
  · rintro ⟨shape, hshape, hbarrier⟩
    obtain ⟨instr, hinstr, rfl⟩ := List.mem_map.mp hshape
    exact ⟨instr, hinstr, hbarrier⟩

theorem OnlyBarrier.hasBarrier
    {func : Func} {block : BlockId} (honly : OnlyBarrier func block) :
    (func.body block).hasBarrier = true := by
  obtain ⟨id, hid⟩ := honly
  rw [hasBarrier_iff, hid]
  exact ⟨_, List.mem_singleton_self _, rfl⟩

theorem canonical_of_settled
    {func : Func} (hwf : WellFormed func)
    (hsettled : ∀ id ∈ collectBarriers func, Settled func id)
    (hentry : OnlyBarrier func func.entry)
    (hexits : ∀ block ∈ func.order, func.succs block = [] →
      OnlyBarrier func block) :
    Canonical func := by
  have honly : ∀ block ∈ func.order, (func.body block).hasBarrier = true →
      OnlyBarrier func block ∧
        (block = func.entry ∨ ∃ source, IsolatedBy func block source) := by
    intro block hblock hbarrier
    obtain ⟨shape, hshape, hshapeBarrier⟩ := hasBarrier_iff.mp hbarrier
    exact onlyBarrier_of_settled hwf hsettled hblock hshape hshapeBarrier
  refine ⟨?_, ?_, hentry, hexits⟩
  · intro block hblock hbarrier
    exact (honly block hblock hbarrier).1
  · intro block hblock hblockOnly hne
    exact (honly block hblock hblockOnly.hasBarrier).2.resolve_left hne

theorem Canonical.settled
    {func : Func} (hcanonical : Canonical func) {id : ValueId}
    (hid : id ∈ collectBarriers func) : Settled func id := by
  obtain ⟨block, hblock, hmem⟩ := mem_collectBarriers_iff.mp hid
  have honly := hcanonical.alone block hblock
    (hasBarrier_iff.mpr ⟨_, hmem, rfl⟩)
  obtain ⟨other, hother⟩ := honly
  refine ⟨block, hblock, ?_, ?_⟩
  · rw [hother] at hmem ⊢
    rw [List.mem_singleton.mp hmem]
  · by_cases hentry : block = func.entry
    · exact Or.inl hentry
    · exact Or.inr (hcanonical.isolated block hblock ⟨other, hother⟩ hentry)

/-- The second of two barrier blocks is skipped and erased. -/
structure Prunes
    (func : Func) (block successor target : BlockId) (after : Func) : Prop where
  block_mem : block ∈ func.order
  block_only : OnlyBarrier func block
  successor_only : OnlyBarrier func successor
  ne : successor ≠ block
  succs_block : func.succs block = [successor]
  preds_successor : predecessors func successor = [block]
  succs_successor : func.succs successor = [target]
  order_eq : after.order = func.order.erase successor
  freshBlock_eq : after.freshBlock = func.freshBlock
  freshValue_eq : after.freshValue = func.freshValue
  shapes_eq : ∀ other, shapes after other = shapes func other
  succs_after : after.succs block = [target]
  term_other : ∀ other, other ≠ block →
    (after.body other).term = (func.body other).term

theorem OnlyBarrier.endsWithBarrier
    {func : Func} {block : BlockId} (honly : OnlyBarrier func block) :
    endsWithBarrier func block = true := by
  obtain ⟨id, hid⟩ := honly
  rw [endsWithBarrier_iff, hid]
  exact ⟨_, rfl, rfl⟩

theorem hasOnlyBarrier_iff {func : Func} {block : BlockId} :
    hasOnlyBarrier func block = true ↔ OnlyBarrier func block := by
  unfold hasOnlyBarrier
  rw [Bool.and_eq_true, decide_eq_true_eq]
  constructor
  · rintro ⟨hends, hlength⟩
    obtain ⟨instr, hinstr⟩ := List.length_eq_one_iff.mp hlength
    rw [onlyBarrier_iff]
    refine ⟨hlength, ?_⟩
    unfold CanonicalizeBarriers.endsWithBarrier at hends
    rw [hinstr] at hends ⊢
    exact hends
  · intro honly
    exact ⟨honly.endsWithBarrier, (onlyBarrier_iff.mp honly).1⟩

theorem Canonical.onlyBarrier_of_endsWithBarrier
    {func : Func} (hcanonical : Canonical func) {block : BlockId}
    (hblock : block ∈ func.order) (hends : endsWithBarrier func block = true) :
    OnlyBarrier func block := by
  obtain ⟨shape, hlast, hbarrier⟩ := endsWithBarrier_iff.mp hends
  apply hcanonical.alone block hblock
  exact hasBarrier_iff.mpr ⟨shape, List.mem_of_getLast? hlast, hbarrier⟩

theorem prunable_iff
    {func : Func} (hcanonical : Canonical func) {block : BlockId}
    (hblock : block ∈ func.order) :
    prunable func block = true ↔
      OnlyBarrier func block ∧ ∃ successor target,
        func.succs block = [successor] ∧ OnlyBarrier func successor ∧
          predecessors func successor = [block] ∧
          func.succs successor = [target] := by
  unfold prunable
  rw [Bool.and_eq_true]
  constructor
  · rintro ⟨hends, hnext⟩
    refine ⟨hcanonical.onlyBarrier_of_endsWithBarrier hblock hends, ?_⟩
    split at hnext
    · rename_i successor hsuccs
      rw [Bool.and_eq_true, Bool.and_eq_true, decide_eq_true_eq,
        decide_eq_true_eq, hasOnlyBarrier_iff,
        getSinglePredecessor_eq_some_iff] at hnext
      obtain ⟨⟨honly, hpreds⟩, hlength⟩ := hnext
      obtain ⟨target, htarget⟩ := List.length_eq_one_iff.mp hlength
      exact ⟨successor, target, hsuccs, honly, hpreds, htarget⟩
    · cases hnext
  · rintro ⟨honly, successor, target, hsuccs, hsuccessor, hpreds, htarget⟩
    refine ⟨honly.endsWithBarrier, ?_⟩
    rw [hsuccs]
    simp only [Bool.and_eq_true, decide_eq_true_eq]
    exact ⟨⟨hasOnlyBarrier_iff.mpr hsuccessor,
      getSinglePredecessor_eq_some_iff.mpr hpreds⟩, by rw [htarget]; rfl⟩

theorem pruneSuccessor_prunes
    {func : Func} {block successor target : BlockId}
    (hblock : block ∈ func.order) (honly : OnlyBarrier func block)
    (hsuccessor : OnlyBarrier func successor) (hne : successor ≠ block)
    (hsuccs : func.succs block = [successor])
    (hpreds : predecessors func successor = [block])
    (htarget : func.succs successor = [target]) :
    Prunes func block successor target (pruneSuccessor func block successor) := by
  refine ⟨hblock, honly, hsuccessor, hne, hsuccs, hpreds, htarget, rfl, rfl, rfl,
    ?_, ?_, ?_⟩
  · intro other
    have hshapes : shapes (func.setSuccessor block 0
        ((func.succs successor).headD 0)) other = shapes func other := by
      unfold shapes Func.setSuccessor
      by_cases hother : other = block
      · subst hother
        rw [Func.setBody_self]
      · rw [Func.setBody_of_ne _ _ hother]
    rw [← hshapes]
    exact replacePhiUses_shapes
  · refine replacePhiUses_succs.trans ?_
    unfold Func.succs Func.setSuccessor
    rw [Func.setBody_self]
    change (func.succs block).set 0 ((func.succs successor).headD 0) = [target]
    rw [hsuccs, htarget]
    rfl
  · intro other hother
    refine replacePhiUses_term.trans ?_
    unfold Func.setSuccessor
    rw [Func.setBody_of_ne _ _ hother]

namespace Prunes

variable {func after : Func} {block successor target : BlockId}

def skipped (block successor source : BlockId) : BlockId :=
  if source = successor then block else source

theorem successor_mem
    (hprunes : Prunes func block successor target after)
    (hblocks : func.HasBlocks) : successor ∈ func.order :=
  hblocks.succs_mem block hprunes.block_mem successor (by
    rw [hprunes.succs_block]
    exact List.mem_singleton_self _)

theorem mem_order
    (hprunes : Prunes func block successor target after)
    (hblocks : func.HasBlocks) {other : BlockId} :
    other ∈ after.order ↔ other ≠ successor ∧ other ∈ func.order := by
  rw [hprunes.order_eq, hblocks.nodup.mem_erase_iff]

theorem succs_other
    (hprunes : Prunes func block successor target after)
    {other : BlockId} (hne : other ≠ block) :
    after.succs other = func.succs other :=
  congrArg Terminator.succs (hprunes.term_other other hne)

theorem target_ne (hprunes : Prunes func block successor target after)
    (hblocks : func.HasBlocks) : target ≠ successor := by
  rintro rfl
  have hmem : target ∈ predecessors func target :=
    mem_predecessors.mpr ⟨hprunes.successor_mem hblocks, by
      rw [hprunes.succs_successor]
      exact List.mem_singleton_self _⟩
  rw [hprunes.preds_successor] at hmem
  exact hprunes.ne (List.mem_singleton.mp hmem)

theorem predecessors_perm
    (hprunes : Prunes func block successor target after)
    (hblocks : func.HasBlocks) {other : BlockId} (hother : other ≠ successor) :
    (predecessors after other).Perm
      ((predecessors func other).map (skipped block successor)) := by
  have hsuccessorMem := hprunes.successor_mem hblocks
  have hblockMem : block ∈ func.order.erase successor :=
    (List.mem_erase_of_ne hprunes.ne.symm).mpr hprunes.block_mem
  have horder : func.order.Perm
      (successor :: block :: (func.order.erase successor).erase block) :=
    (List.perm_cons_erase hsuccessorMem).trans
      ((List.perm_cons_erase hblockMem).cons successor)
  have horderAfter : after.order.Perm
      (block :: (func.order.erase successor).erase block) := by
    rw [hprunes.order_eq]
    exact List.perm_cons_erase hblockMem
  have hrest : ∀ source ∈ (func.order.erase successor).erase block,
      source ≠ block ∧ source ≠ successor := by
    have hnodup := hblocks.nodup.erase successor
    intro source hsource
    rw [hnodup.mem_erase_iff, hblocks.nodup.mem_erase_iff] at hsource
    exact ⟨hsource.1, hsource.2.1⟩
  unfold predecessors
  refine (horderAfter.flatMap_right _).trans ?_
  refine List.Perm.trans ?_ ((horder.flatMap_right _).map _).symm
  rw [List.flatMap_cons, List.flatMap_cons, List.flatMap_cons, List.map_append,
    List.map_append, hprunes.succs_after, hprunes.succs_block,
    hprunes.succs_successor, List.map_flatMap]
  have hnone : [successor].filter (· = other) = [] :=
    List.filter_cons_of_neg (by simpa using Ne.symm hother)
  rw [hnone, List.map_nil, List.map_nil, List.nil_append, List.map_map]
  have hsame : (((func.order.erase successor).erase block).flatMap fun source =>
      ((after.succs source).filter (· = other)).map fun _ => source) =
      ((func.order.erase successor).erase block).flatMap fun source =>
        (((func.succs source).filter (· = other)).map fun _ => source).map
          (skipped block successor) := by
    apply List.flatMap_congr
    intro source hsource
    obtain ⟨hsourceBlock, hsourceSuccessor⟩ := hrest source hsource
    rw [hprunes.succs_other hsourceBlock, List.map_map]
    apply List.map_congr_left
    intro _ _
    exact (if_neg hsourceSuccessor).symm
  rw [hsame]
  apply List.Perm.append_right
  apply List.Perm.of_eq
  apply List.map_congr_left
  intro _ _
  exact (if_pos rfl).symm

theorem predecessors_single
    (hprunes : Prunes func block successor target after)
    (hblocks : func.HasBlocks) {other source : BlockId}
    (hother : other ≠ successor) (hpreds : predecessors func other = [source]) :
    predecessors after other = [skipped block successor source] := by
  have hperm := hprunes.predecessors_perm hblocks hother
  rw [hpreds] at hperm
  exact List.perm_singleton.mp hperm

theorem entry_ne
    (hprunes : Prunes func block successor target after) (hwf : WellFormed func) :
    func.entry ≠ successor := by
  intro heq
  have hpreds := hprunes.preds_successor
  rw [← heq, hwf.entry_pred] at hpreds
  cases hpreds

theorem entry_eq
    (hprunes : Prunes func block successor target after) (hwf : WellFormed func) :
    after.entry = func.entry := by
  have hne := hprunes.entry_ne hwf
  have hnonempty := hwf.blocks.nonempty
  unfold Func.entry at hne ⊢
  rw [hprunes.order_eq]
  cases horder : func.order with
  | nil => exact absurd horder hnonempty
  | cons head rest =>
      rw [horder] at hne
      rw [List.erase_cons_tail (by simpa using hne)]
      rfl

theorem wellFormed
    (hprunes : Prunes func block successor target after) (hwf : WellFormed func) :
    WellFormed after := by
  have hmem : ∀ {other}, other ∈ after.order ↔
      other ≠ successor ∧ other ∈ func.order := hprunes.mem_order hwf.blocks
  have hids : (instrIds after).Sublist (instrIds func) := by
    unfold instrIds
    simp only [hprunes.shapes_eq, hprunes.order_eq]
    exact List.erase_sublist.flatMap _
  constructor
  · constructor
    · intro hempty
      have hblock := hmem.mpr ⟨hprunes.ne.symm, hprunes.block_mem⟩
      rw [hempty] at hblock
      cases hblock
    · rw [hprunes.order_eq]
      exact hwf.blocks.nodup.erase _
    · intro other hother
      rw [hprunes.freshBlock_eq]
      exact hwf.blocks.bound other (hmem.mp hother).2
    · intro other hother next hnext
      obtain ⟨hotherNe, hotherMem⟩ := hmem.mp hother
      by_cases heq : other = block
      · rw [heq, hprunes.succs_after] at hnext
        rw [List.mem_singleton.mp hnext, hmem]
        refine ⟨hprunes.target_ne hwf.blocks, ?_⟩
        apply hwf.blocks.succs_mem successor (hprunes.successor_mem hwf.blocks)
        rw [hprunes.succs_successor]
        exact List.mem_singleton_self _
      · rw [hprunes.succs_other heq] at hnext
        rw [hmem]
        refine ⟨?_, hwf.blocks.succs_mem other hotherMem next hnext⟩
        rintro rfl
        have hpred := mem_predecessors.mpr ⟨hotherMem, hnext⟩
        rw [hprunes.preds_successor] at hpred
        exact heq (List.mem_singleton.mp hpred)
  · rw [hprunes.entry_eq hwf]
    have hperm := hprunes.predecessors_perm hwf.blocks (hprunes.entry_ne hwf)
    rw [hwf.entry_pred] at hperm
    exact hperm.eq_nil
  · exact hwf.ids_nodup.sublist hids
  · intro id hid
    rw [hprunes.freshValue_eq]
    exact hwf.ids_lt id (hids.subset hid)
  · intro other hother
    rw [hprunes.shapes_eq]
    exact hwf.phis_first other (hmem.mp hother).2
  · rw [hprunes.entry_eq hwf, hprunes.shapes_eq]
    exact hwf.entry_phi

theorem isolatedBy
    (hprunes : Prunes func block successor target after)
    (hblocks : func.HasBlocks) {other source : BlockId}
    (hother : other ≠ successor) (hisolated : IsolatedBy func other source) :
    IsolatedBy after other (skipped block successor source) := by
  refine ⟨hprunes.predecessors_single hblocks hother hisolated.1, ?_⟩
  unfold skipped
  split
  · rw [hprunes.succs_after]
    rfl
  · by_cases heq : source = block
    · rw [heq, hprunes.succs_after]
      rfl
    · rw [hprunes.succs_other heq]
      exact hisolated.2

theorem onlyBarrier_iff
    (hprunes : Prunes func block successor target after) {other : BlockId} :
    OnlyBarrier after other ↔ OnlyBarrier func other := by
  unfold OnlyBarrier
  rw [hprunes.shapes_eq]

theorem canonical
    (hprunes : Prunes func block successor target after) (hwf : WellFormed func)
    (hcanonical : Canonical func) : Canonical after := by
  have hmem : ∀ {other}, other ∈ after.order ↔
      other ≠ successor ∧ other ∈ func.order := hprunes.mem_order hwf.blocks
  constructor
  · intro other hother hbarrier
    rw [hasBarrier_iff, hprunes.shapes_eq, ← hasBarrier_iff] at hbarrier
    rw [hprunes.onlyBarrier_iff]
    exact hcanonical.alone other (hmem.mp hother).2 hbarrier
  · intro other hother honly hentry
    rw [hprunes.entry_eq hwf] at hentry
    rw [hprunes.onlyBarrier_iff] at honly
    obtain ⟨hne, hotherMem⟩ := hmem.mp hother
    obtain ⟨source, hisolated⟩ :=
      hcanonical.isolated other hotherMem honly hentry
    exact ⟨_, hprunes.isolatedBy hwf.blocks hne hisolated⟩
  · rw [hprunes.entry_eq hwf, hprunes.onlyBarrier_iff]
    exact hcanonical.entry
  · intro other hother hexit
    rw [hprunes.onlyBarrier_iff]
    have hne : other ≠ block := by
      rintro rfl
      rw [hprunes.succs_after] at hexit
      cases hexit
    rw [hprunes.succs_other hne] at hexit
    exact hcanonical.exits other (hmem.mp hother).2 hexit

theorem blockWord_eq
    (hprunes : Prunes func block successor target after) (other : BlockId) :
    blockWord after other = blockWord func other := by
  unfold blockWord
  rw [hprunes.shapes_eq]

theorem runs_after
    (hprunes : Prunes func block successor target after) {word : List Token}
    (hruns : Runs after target word) :
    Runs after block (.barrier :: word) := by
  have hgo := Runs.go block 0 target word (by rw [hprunes.succs_after]; rfl) hruns
  rw [branchWord_of_single hprunes.succs_after, hprunes.blockWord_eq,
    hprunes.block_only.blockWord_eq] at hgo
  exact hgo

theorem runs_before
    (hprunes : Prunes func block successor target after) {word : List Token}
    (hruns : Runs func target word) :
    Runs func block (.barrier :: .barrier :: word) := by
  have hsuccessor := Runs.go successor 0 target word
    (by rw [hprunes.succs_successor]; rfl) hruns
  rw [branchWord_of_single hprunes.succs_successor,
    hprunes.successor_only.blockWord_eq] at hsuccessor
  have hblock := Runs.go block 0 successor _
    (by rw [hprunes.succs_block]; rfl) hsuccessor
  rw [branchWord_of_single hprunes.succs_block,
    hprunes.block_only.blockWord_eq] at hblock
  exact hblock

theorem runs_forward
    (hprunes : Prunes func block successor target after)
    (hblocks : func.HasBlocks) {start : BlockId} {word : List Token}
    (hruns : Runs func start word) (hstart : start ∈ func.order) :
    (start ≠ successor → ∃ other, Runs after start other ∧
      Token.Below (Token.markLeaves word) (Token.markLeaves other)) ∧
    (start = successor → ∃ other, Runs after block other ∧
      Token.Below (Token.markLeaves (.barrier :: word))
        (Token.markLeaves other)) := by
  induction hruns with
  | stop start =>
      constructor
      · intro _
        exact ⟨[], Runs.stop start, Token.Below.refl _⟩
      · intro _
        exact ⟨_, hprunes.runs_after (Runs.stop target), Token.Below.refl _⟩
  | leave start hexit =>
      constructor
      · intro _
        have hne : start ≠ block := by
          rintro rfl
          rw [hprunes.succs_block] at hexit
          cases hexit
        have hleave := Runs.leave start ((hprunes.succs_other hne).trans hexit)
        rw [hprunes.blockWord_eq, hprunes.term_other start hne] at hleave
        exact ⟨_, hleave, Token.Below.refl _⟩
      · rintro rfl
        rw [hprunes.succs_successor] at hexit
        cases hexit
  | go start choice next rest hnext _ ih =>
      have hnextMem := getElem?_succs_mem hblocks hstart hnext
      constructor
      · intro hne
        by_cases heq : start = block
        · subst heq
          have hnextEq : next = successor := by
            rw [hprunes.succs_block] at hnext
            exact List.mem_singleton.mp (List.mem_of_getElem? hnext)
          rw [branchWord_of_single hprunes.succs_block, hprunes.block_only.blockWord_eq]
          exact (ih hnextMem).2 hnextEq
        · have hnextNe : next ≠ successor := by
            rintro rfl
            have hpred := mem_predecessors.mpr
              ⟨hstart, List.mem_of_getElem? hnext⟩
            rw [hprunes.preds_successor] at hpred
            exact heq (List.mem_singleton.mp hpred)
          obtain ⟨other, hother, hbelow⟩ := (ih hnextMem).1 hnextNe
          have hgo := Runs.go start choice next other
            (by rw [hprunes.succs_other heq]; exact hnext) hother
          rw [hprunes.blockWord_eq, hprunes.term_other start heq] at hgo
          refine ⟨_, hgo, ?_⟩
          simp only [Token.markLeaves_append]
          exact (hbelow.append _).append _
      · rintro rfl
        have hnextEq : next = target := by
          rw [hprunes.succs_successor] at hnext
          exact List.mem_singleton.mp (List.mem_of_getElem? hnext)
        subst hnextEq
        obtain ⟨other, hother, hbelow⟩ :=
          (ih hnextMem).1 (hprunes.target_ne hblocks)
        refine ⟨_, hprunes.runs_after hother, ?_⟩
        rw [branchWord_of_single hprunes.succs_successor,
          hprunes.successor_only.blockWord_eq]
        exact (Token.barrier_below _).trans (hbelow.append [.barrier])

theorem runs_backward
    (hprunes : Prunes func block successor target after)
    {start : BlockId} {word : List Token} (hruns : Runs after start word) :
    ∃ other, Runs func start other ∧
      Token.Below (Token.markLeaves word) (Token.markLeaves other) := by
  induction hruns with
  | stop start => exact ⟨[], Runs.stop start, Token.Below.refl _⟩
  | leave start hexit =>
      have hne : start ≠ block := by
        rintro rfl
        rw [hprunes.succs_after] at hexit
        cases hexit
      rw [hprunes.succs_other hne] at hexit
      rw [hprunes.blockWord_eq, hprunes.term_other start hne]
      exact ⟨_, Runs.leave start hexit, Token.Below.refl _⟩
  | go start choice next rest hnext _ ih =>
      obtain ⟨other, hother, hbelow⟩ := ih
      by_cases heq : start = block
      · subst heq
        have hnextEq : next = target := by
          rw [hprunes.succs_after] at hnext
          exact List.mem_singleton.mp (List.mem_of_getElem? hnext)
        subst hnextEq
        refine ⟨_, hprunes.runs_before hother, ?_⟩
        rw [branchWord_of_single hprunes.succs_after, hprunes.blockWord_eq,
          hprunes.block_only.blockWord_eq]
        exact (hbelow.append [.barrier]).trans (Token.below_barrier _)
      · rw [hprunes.succs_other heq] at hnext
        rw [hprunes.blockWord_eq, hprunes.term_other start heq]
        refine ⟨_, Runs.go start choice next other hnext hother, ?_⟩
        simp only [Token.markLeaves_append]
        exact (hbelow.append _).append _

theorem sameRuns
    (hprunes : Prunes func block successor target after) (hwf : WellFormed func) :
    SameRuns func after := by
  constructor
  · intro word hruns
    rw [hprunes.entry_eq hwf]
    exact (hprunes.runs_forward hwf.blocks hruns hwf.blocks.entry_mem).1
      (hprunes.entry_ne hwf)
  · intro word hruns
    rw [hprunes.entry_eq hwf] at hruns
    exact hprunes.runs_backward hruns

end Prunes

end CanonicalizeBarriers

end Pocl
