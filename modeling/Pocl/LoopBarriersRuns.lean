import Pocl.LoopBarriers

/-!
# The loops of a function in turn

When the terminator of a preheader is split off, the other loops stay loops with the same latches
and exiting blocks, and what was achieved for them stays.  So after all visits each loop that had
a barrier has the barriers around it, and if there was no barrier in any loop, no loop follows a
barrier directly.  The runs of the function pass more barriers and are the same otherwise.
-/

namespace Pocl.LoopBarriers

open CanonicalizeBarriers

section Splitting

/-- A loop is a set of blocks of the function with its header, that can be stayed in. -/
structure IsLoop (func : Func) (loop : Loop) : Prop where
  mem_order : ∀ block ∈ loop.blocks, block ∈ func.order
  header_mem : loop.header ∈ loop.blocks
  continues : ∀ block ∈ loop.blocks, ∃ next ∈ func.succs block, next ∈ loop.blocks

theorem getLoopPreheader_eq_some_iff {func : Func} {loop : Loop} {preheader : BlockId} :
    getLoopPreheader func loop = some preheader ↔
      preheader ∈ func.order ∧ preheader ∉ loop.blocks ∧
        func.succs preheader = [loop.header] ∧
        ∀ source ∈ func.order, loop.header ∈ func.succs source → source ∉ loop.blocks →
          source = preheader := by
  have hmem : ∀ source, source ∈ (predecessors func loop.header).filter (· ∉ loop.blocks) ↔
      source ∈ func.order ∧ loop.header ∈ func.succs source ∧ source ∉ loop.blocks := by
    intro source
    rw [List.mem_filter, mem_predecessors, decide_eq_true_eq, and_assoc]
  unfold getLoopPreheader
  generalize (predecessors func loop.header).filter (· ∉ loop.blocks) = outside at hmem
  cases outside with
  | nil =>
      constructor
      · intro hnone
        cases hnone
      · rintro ⟨horder, houtside, hsuccs, -⟩
        exact absurd ((hmem preheader).mpr ⟨horder, by simp [hsuccs], houtside⟩) (by simp)
  | cons out others =>
      dsimp only
      obtain ⟨horder, hedge, houtside⟩ := (hmem out).mp List.mem_cons_self
      constructor
      · intro heq
        split at heq
        · rename_i hall
          obtain rfl := Option.some.inj heq
          obtain ⟨only, honly⟩ := List.length_eq_one_iff.mp hall.2
          rw [honly, List.mem_singleton] at hedge
          refine ⟨horder, houtside, hedge ▸ honly, fun source hsource hsucc hout => ?_⟩
          rcases List.mem_cons.mp ((hmem source).mpr ⟨hsource, hsucc, hout⟩) with heq | hother
          · exact heq
          · simpa using List.all_eq_true.mp hall.1 source hother
        · cases heq
      · rintro ⟨-, -, hsuccs, hunique⟩
        obtain rfl := hunique out horder hedge houtside
        rw [if_pos]
        refine ⟨List.all_eq_true.mpr fun source hsource => ?_, by rw [hsuccs]; rfl⟩
        obtain ⟨hsourceOrder, hsucc, hout⟩ := (hmem source).mp (List.mem_cons_of_mem _ hsource)
        simpa using hunique source hsourceOrder hsucc hout

theorem mem_of_getExitingBlock {func : Func} {loop : Loop} {block : BlockId}
    (hexiting : getExitingBlock func loop = some block) : block ∈ loop.blocks := by
  unfold getExitingBlock at hexiting
  split at hexiting
  · rename_i only hsingle
    rw [← Option.some.inj hexiting]
    exact (List.mem_filter.mp (hsingle ▸ List.mem_singleton_self only)).1
  · cases hexiting

theorem mem_order_of_getLoopLatch {func : Func} {loop : Loop} {latch : BlockId}
    (hlatch : getLoopLatch func loop = some latch) : latch ∈ func.order := by
  have hmem : latch ∈ latches func loop := by
    rw [mem_latches_of_getLoopLatch hlatch]
    exact List.mem_singleton_self latch
  exact (mem_predecessors.mp (List.mem_filter.mp hmem).1).1

/-- The terminator of the preheader is split off. -/
structure SplitsOff (func : Func) (block header : BlockId) (after : Func) (new : BlockId) :
    Prop where
  blocks : func.HasBlocks
  mem_order : block ∈ func.order
  succs : func.succs block = [header]
  splits : Splits func block (shapes func block).length after new

theorem splitBlock_splitsOff {func : Func} {block header : BlockId} (hblocks : func.HasBlocks)
    (hblock : block ∈ func.order) (hsuccs : func.succs block = [header]) :
    SplitsOff func block header
      (splitBlock func block (func.body block).instrs.length).1
      (splitBlock func block (func.body block).instrs.length).2 := by
  have hlength : (shapes func block).length = (func.body block).instrs.length :=
    List.length_map _
  refine ⟨hblocks, hblock, hsuccs, ?_⟩
  rw [hlength]
  apply splitBlock_splits (hblocks.bound block hblock)
  intro shape hshape
  rw [← hlength, List.getElem?_eq_none le_rfl] at hshape
  cases hshape

namespace SplitsOff

variable {func after : Func} {block header new : BlockId} {loop : Loop}

theorem ne_new (hsplits : SplitsOff func block header after new) {other : BlockId}
    (hother : other ∈ func.order) : other ≠ new :=
  fun heq => hsplits.splits.new_not_mem hsplits.blocks (heq ▸ hother)

theorem shapes_eq (hsplits : SplitsOff func block header after new) {other : BlockId}
    (hother : other ≠ new) : shapes after other = shapes func other := by
  by_cases hblock : other = block
  · rw [hblock, hsplits.splits.shapes_block, List.take_length]
  · exact hsplits.splits.shapes_other other hblock hother

theorem shapes_new (hsplits : SplitsOff func block header after new) : shapes after new = [] := by
  rw [hsplits.splits.shapes_new, List.drop_length]

theorem succs_other (hsplits : SplitsOff func block header after new) {other : BlockId}
    (hblock : other ≠ block) (hother : other ∈ func.order) :
    after.succs other = func.succs other :=
  hsplits.splits.succs_other hblock (hsplits.ne_new hother)

theorem succs_new (hsplits : SplitsOff func block header after new) :
    after.succs new = [header] :=
  hsplits.splits.succs_new.trans hsplits.succs

theorem endsWithBarrier_eq (hsplits : SplitsOff func block header after new) {other : BlockId}
    (hother : other ∈ func.order) :
    endsWithBarrier after other = endsWithBarrier func other := by
  rw [Bool.eq_iff_iff, endsWithBarrier_iff, endsWithBarrier_iff,
    hsplits.shapes_eq (hsplits.ne_new hother)]

theorem hasBarrier_eq (hsplits : SplitsOff func block header after new) {other : BlockId}
    (hother : other ∈ func.order) :
    (after.body other).hasBarrier = (func.body other).hasBarrier := by
  rw [Bool.eq_iff_iff, hasBarrier_iff, hasBarrier_iff,
    hsplits.shapes_eq (hsplits.ne_new hother)]

/-- The block that is split off has nothing but a branch. -/
theorem hasBarrier_new (hsplits : SplitsOff func block header after new) :
    (after.body new).hasBarrier = false := by
  rw [← Bool.not_eq_true, hasBarrier_iff, hsplits.shapes_new]
  simp

theorem endsWithBarrier_new (hsplits : SplitsOff func block header after new) :
    endsWithBarrier after new = false := by
  rw [← Bool.not_eq_true, endsWithBarrier_iff, hsplits.shapes_new]
  simp

theorem mem_add (loop : Loop) (other : BlockId) :
    other ∈ (loop.add block new).blocks ↔
      other ∈ loop.blocks ∨ block ∈ loop.blocks ∧ other = new := by
  unfold Loop.add
  split
  · rename_i hblock
    simp [hblock]
  · rename_i hblock
    simp [hblock]

@[simp] theorem add_header (loop : Loop) : (loop.add block new).header = loop.header := by
  unfold Loop.add
  split
  · rfl
  · rfl

theorem mem_add_iff (hsplits : SplitsOff func block header after new) {other : BlockId}
    (hother : other ∈ func.order) :
    other ∈ (loop.add block new).blocks ↔ other ∈ loop.blocks := by
  rw [mem_add]
  exact or_iff_left fun hnew => hsplits.ne_new hother hnew.2

/-- A loop with the split block contains what follows it. -/
theorem header_mem (hsplits : SplitsOff func block header after new) (hloop : IsLoop func loop)
    (hblock : block ∈ loop.blocks) : header ∈ loop.blocks := by
  obtain ⟨next, hnext, hmem⟩ := hloop.continues block hblock
  rw [hsplits.succs, List.mem_singleton] at hnext
  exact hnext ▸ hmem

theorem isLoop (hsplits : SplitsOff func block header after new) (hloop : IsLoop func loop) :
    IsLoop after (loop.add block new) where
  mem_order other hother := by
    rw [hsplits.splits.mem_order hsplits.mem_order]
    rcases (mem_add loop other).mp hother with hother | ⟨-, rfl⟩
    · exact .inr (hloop.mem_order other hother)
    · exact .inl rfl
  header_mem := by
    rw [add_header, mem_add]
    exact .inl hloop.header_mem
  continues other hother := by
    by_cases hblock : other = block
    · subst hblock
      refine ⟨new, by simp [hsplits.splits.succs_block], (mem_add loop new).mpr (.inr ⟨?_, rfl⟩)⟩
      exact (hsplits.mem_add_iff hsplits.mem_order).mp hother
    · rcases (mem_add loop other).mp hother with hother | ⟨hmem, rfl⟩
      · obtain ⟨next, hnext, hmem⟩ := hloop.continues other hother
        rw [hsplits.succs_other hblock (hloop.mem_order other hother)]
        exact ⟨next, hnext, (mem_add loop next).mpr (.inl hmem)⟩
      · rw [hsplits.succs_new]
        exact ⟨header, by simp, (mem_add loop header).mpr (.inl (hsplits.header_mem hloop hmem))⟩

/-- The loop behind the split block has the new block as its preheader. -/
theorem getLoopPreheader_new (hsplits : SplitsOff func block header after new)
    (hpreheader : getLoopPreheader func loop = some block) (hloop : IsLoop func loop) :
    getLoopPreheader after (loop.add block new) = some new := by
  obtain ⟨-, houtside, hsuccs, hunique⟩ := getLoopPreheader_eq_some_iff.mp hpreheader
  have hheader : header = loop.header := by
    rw [hsplits.succs] at hsuccs
    exact List.singleton_inj.mp hsuccs
  rw [getLoopPreheader_eq_some_iff, add_header, mem_add]
  refine ⟨(hsplits.splits.mem_order hsplits.mem_order).mpr (.inl rfl), ?_, ?_, ?_⟩
  · rintro (hnew | hblock)
    · exact hsplits.ne_new (hloop.mem_order new hnew) rfl
    · exact houtside hblock.1
  · rw [hsplits.succs_new, hheader]
  · intro source hsource hedge hout
    rcases (hsplits.splits.mem_order hsplits.mem_order).mp hsource with rfl | hsource
    · rfl
    · by_cases hblock : source = block
      · rw [hblock, hsplits.splits.succs_block, List.mem_singleton] at hedge
        exact (hsplits.ne_new (hloop.mem_order _ hloop.header_mem) hedge).elim
      · rw [hsplits.succs_other hblock hsource] at hedge
        rw [hsplits.mem_add_iff hsource] at hout
        exact (hblock (hunique source hsource hedge hout)).elim

theorem getLoopPreheader_other (hsplits : SplitsOff func block header after new)
    (hloop : IsLoop func loop) (hheader : loop.header ≠ header) {preheader : BlockId}
    (hpreheader : getLoopPreheader func loop = some preheader) :
    getLoopPreheader after (loop.add block new) = some preheader := by
  obtain ⟨horder, houtside, hsuccs, hunique⟩ := getLoopPreheader_eq_some_iff.mp hpreheader
  have hne : preheader ≠ block := by
    rintro rfl
    rw [hsplits.succs] at hsuccs
    exact hheader (List.singleton_inj.mp hsuccs).symm
  rw [getLoopPreheader_eq_some_iff, add_header, hsplits.mem_add_iff horder]
  refine ⟨(hsplits.splits.mem_order hsplits.mem_order).mpr (.inr horder), houtside, ?_, ?_⟩
  · rwa [hsplits.succs_other hne horder]
  · intro source hsource hedge hout
    rcases (hsplits.splits.mem_order hsplits.mem_order).mp hsource with rfl | hsource
    · rw [hsplits.succs_new, List.mem_singleton] at hedge
      exact (hheader hedge).elim
    · by_cases hblock : source = block
      · rw [hblock, hsplits.splits.succs_block, List.mem_singleton] at hedge
        exact (hsplits.ne_new (hloop.mem_order _ hloop.header_mem) hedge).elim
      · rw [hsplits.succs_other hblock hsource] at hedge
        rw [hsplits.mem_add_iff hsource] at hout
        exact hunique source hsource hedge hout

/-- The split block and the new one stay inside the loops that they belong to. -/
theorem exits_eq (hsplits : SplitsOff func block header after new) (hloop : IsLoop func loop)
    {other : BlockId} (hother : other ∈ loop.blocks) :
    ((after.succs other).any fun next => next ∉ (loop.add block new).blocks) =
      (func.succs other).any fun next => next ∉ loop.blocks := by
  by_cases hblock : other = block
  · subst hblock
    have hnew : new ∈ (loop.add other new).blocks := (mem_add loop new).mpr (.inr ⟨hother, rfl⟩)
    simp [hsplits.splits.succs_block, hsplits.succs, hnew, hsplits.header_mem hloop hother]
  · have horder := hloop.mem_order other hother
    rw [hsplits.succs_other hblock horder, Bool.eq_iff_iff, List.any_eq_true, List.any_eq_true]
    apply exists_congr
    intro next
    apply and_congr_right
    intro hnext
    rw [decide_eq_true_eq, decide_eq_true_eq,
      hsplits.mem_add_iff (hsplits.blocks.succs_mem other horder next hnext)]

theorem getExitingBlock_eq (hsplits : SplitsOff func block header after new)
    (hloop : IsLoop func loop) :
    getExitingBlock after (loop.add block new) = getExitingBlock func loop := by
  have hblocks : loop.blocks.filter (fun other =>
        (after.succs other).any fun next => next ∉ (loop.add block new).blocks) =
      loop.blocks.filter fun other => (func.succs other).any fun next => next ∉ loop.blocks :=
    List.filter_congr fun other hother => hsplits.exits_eq hloop hother
  have hall : (loop.add block new).blocks.filter (fun other =>
        (after.succs other).any fun next => next ∉ (loop.add block new).blocks) =
      loop.blocks.filter fun other => (func.succs other).any fun next => next ∉ loop.blocks := by
    rw [← hblocks]
    by_cases hblock : block ∈ loop.blocks
    · have hheader : header ∈ (loop.add block new).blocks :=
        (mem_add loop header).mpr (.inl (hsplits.header_mem hloop hblock))
      have hadd : (loop.add block new).blocks = loop.blocks ++ [new] := by
        rw [Loop.add, if_pos hblock]
      rw [show ∀ p, (loop.add block new).blocks.filter p = (loop.blocks ++ [new]).filter p from
        fun p => congrArg (List.filter p) hadd, List.filter_append,
        List.filter_cons_of_neg (by simpa [hsplits.succs_new] using hheader)]
      simp
    · rw [Loop.add, if_neg hblock]
  unfold getExitingBlock
  rw [hall]

theorem latches_eq (hsplits : SplitsOff func block header after new)
    (hloop : IsLoop func loop) (hheader : loop.header ≠ header) :
    latches after (loop.add block new) = latches func loop := by
  have hnew := hsplits.ne_new (hloop.mem_order _ hloop.header_mem)
  have hsame : (predecessors func loop.header).map (Splits.renamed block new) =
      predecessors func loop.header := by
    conv_rhs => rw [← List.map_id (predecessors func loop.header)]
    apply List.map_congr_left
    intro source hsource
    apply if_neg
    rintro rfl
    have hedge := (mem_predecessors.mp hsource).2
    rw [hsplits.succs, List.mem_singleton] at hedge
    exact hheader hedge
  unfold latches
  rw [add_header, hsplits.splits.predecessors_old hsplits.blocks hsplits.mem_order hnew, hsame]
  apply List.filter_congr
  intro source hsource
  rw [decide_eq_decide]
  exact hsplits.mem_add_iff (mem_predecessors.mp hsource).1

theorem avoids_forward (hsplits : SplitsOff func block header after new) {avoided other : BlockId}
    (havoided : avoided ∈ func.order) (havoids : func.graph.Avoids avoided other) :
    after.graph.Avoids avoided other := by
  induction havoids with
  | entry hne =>
      have hentry : after.graph.entry = func.graph.entry := hsplits.splits.entry_eq hsplits.blocks
      rw [← hentry] at hne ⊢
      exact .entry hne
  | step hbefore hedge hne ih =>
      rename_i source target
      have hsource := hsplits.blocks.reachable_mem hbefore.reachable
      by_cases hblock : source = block
      · subst hblock
        have hnew : after.graph.Avoids avoided new := by
          apply ih.step
          · change new ∈ after.succs source
            simp [hsplits.splits.succs_block]
          · exact (hsplits.ne_new havoided).symm
        apply hnew.step _ hne
        change target ∈ after.succs new
        rw [hsplits.succs_new, ← hsplits.succs]
        exact hedge
      · apply ih.step _ hne
        change target ∈ after.succs source
        rw [hsplits.succs_other hblock hsource]
        exact hedge

/-- A path to the new block comes from the block that it was split from. -/
theorem avoids_backward (hsplits : SplitsOff func block header after new)
    {avoided other : BlockId} (havoids : after.graph.Avoids avoided other) :
    (other ∈ func.order → func.graph.Avoids avoided other) ∧
      (other = new → func.graph.Avoids avoided block) := by
  have hafter := hsplits.splits.hasBlocks hsplits.blocks hsplits.mem_order
  induction havoids with
  | entry hne =>
      have hentry : after.graph.entry = func.graph.entry := hsplits.splits.entry_eq hsplits.blocks
      rw [hentry] at hne ⊢
      refine ⟨fun _ => .entry hne, fun heq => ?_⟩
      exact (hsplits.ne_new hsplits.blocks.entry_mem heq).elim
  | step hbefore hedge hne ih =>
      rename_i source target
      change target ∈ after.succs source at hedge
      by_cases hblock : source = block
      · subst hblock
        rw [hsplits.splits.succs_block, List.mem_singleton] at hedge
        subst hedge
        exact ⟨fun hmem => (hsplits.ne_new hmem rfl).elim, fun _ => ih.1 hsplits.mem_order⟩
      · have hsource := hafter.reachable_mem hbefore.reachable
        rcases (hsplits.splits.mem_order hsplits.mem_order).mp hsource with rfl | hsource
        · rw [hsplits.succs_new, ← hsplits.succs] at hedge
          refine ⟨fun _ => (ih.2 rfl).step hedge hne, fun heq => ?_⟩
          have hmem := hsplits.blocks.succs_mem block hsplits.mem_order target hedge
          exact (hsplits.ne_new hmem heq).elim
        · rw [hsplits.succs_other hblock hsource] at hedge
          refine ⟨fun _ => (ih.1 hsource).step hedge hne, fun heq => ?_⟩
          exact (hsplits.ne_new (hsplits.blocks.succs_mem source hsource target hedge) heq).elim

theorem dominates_eq (hsplits : SplitsOff func block header after new)
    {dominator other : BlockId} (hdominator : dominator ∈ func.order)
    (hother : other ∈ func.order) :
    after.dominates dominator other = func.dominates dominator other := by
  have hafter := hsplits.splits.hasBlocks hsplits.blocks hsplits.mem_order
  rw [Bool.eq_iff_iff, hafter.dominates_iff, hsplits.blocks.dominates_iff]
  apply not_congr
  constructor
  · exact fun havoids => (hsplits.avoids_backward havoids).1 hother
  · exact hsplits.avoids_forward hdominator

theorem prepared (hsplits : SplitsOff func block header after new) (hloop : IsLoop func loop)
    (hheader : loop.header ≠ header) {first : BlockId} (hprepared : Prepared func loop first) :
    Prepared after (loop.add block new) first where
  preheader := by
    obtain ⟨preheader, hpreheader, hends⟩ := hprepared.preheader
    refine ⟨preheader, hsplits.getLoopPreheader_other hloop hheader hpreheader, ?_⟩
    rwa [hsplits.endsWithBarrier_eq (getLoopPreheader_eq_some_iff.mp hpreheader).1]
  header := by
    rw [add_header, hsplits.shapes_eq (hsplits.ne_new (hloop.mem_order _ hloop.header_mem))]
    exact hprepared.header
  exiting other hother := by
    rw [hsplits.getExitingBlock_eq hloop] at hother
    rw [hsplits.endsWithBarrier_eq (hloop.mem_order other (mem_of_getExitingBlock hother))]
    exact hprepared.exiting other hother
  latch other hother := by
    rw [getLoopLatch, hsplits.latches_eq hloop hheader, ← getLoopLatch] at hother
    rw [hsplits.endsWithBarrier_eq (mem_order_of_getLoopLatch hother)]
    exact hprepared.latch other hother
  first_mem := (mem_add loop first).mpr (.inl hprepared.first_mem)
  first_barrier := by
    rw [hsplits.hasBarrier_eq (hloop.mem_order first hprepared.first_mem)]
    exact hprepared.first_barrier
  latches latch hlatch hdominates := by
    rw [hsplits.latches_eq hloop hheader] at hlatch
    have hmem := (mem_predecessors.mp (List.mem_filter.mp hlatch).1).1
    rw [hsplits.dominates_eq (hloop.mem_order first hprepared.first_mem) hmem] at hdominates
    rw [hsplits.endsWithBarrier_eq hmem]
    exact hprepared.latches latch hlatch hdominates

end SplitsOff

end Splitting

section Runs

def HasBarrierIn (func : Func) (loop : Loop) : Prop :=
  ∃ block ∈ loop.blocks, (func.body block).hasBarrier = true

/-- The block in which a visit of the loop finds its first barrier. -/
def firstBarrier (func : Func) (loop : Loop) : Option BlockId :=
  loop.blocks.find? fun block => (func.body block).hasBarrier

theorem firstBarrier_ne_none {func : Func} {loop : Loop} (hbarrier : HasBarrierIn func loop) :
    firstBarrier func loop ≠ none := by
  obtain ⟨block, hblock, hhas⟩ := hbarrier
  exact fun hnone => List.find?_eq_none.mp hnone block hblock hhas

/-- Among the visits is one of the loop with the header, and it finds the first barrier in the
block. -/
def FoundAt (start : LoopState) (visits : List BlockId) (header first : BlockId) : Prop :=
  ∃ seen rest before changed, visits = seen ++ header :: rest ∧
    runOnLoops start seen = some (before, changed) ∧
    ∃ loop ∈ before.loops, loop.header = header ∧ firstBarrier before.func loop = some first

/-- What has been achieved when the loops with the given headers have been visited.  Some loops
are known to have had a barrier, and visits have found barriers. -/
structure Visited (func : Func) (marked : BlockId → Prop) (headers seen : List BlockId)
    (found : BlockId → BlockId → Prop) (state : LoopState) : Prop where
  sameCode : SameCode func state.func
  blocks : state.func.HasBlocks
  headers_eq : state.loops.map Loop.header = headers
  isLoop : ∀ loop ∈ state.loops, IsLoop state.func loop
  preheaders : ∀ loop ∈ state.loops, getLoopPreheader state.func loop ≠ none
  barriers : ∀ loop ∈ state.loops, marked loop.header → HasBarrierIn state.func loop
  prepared : ∀ loop ∈ state.loops, ∀ first, found loop.header first →
    Prepared state.func loop first
  free : (∀ header, ¬marked header) → ∀ loop ∈ state.loops, ¬HasBarrierIn state.func loop ∧
    (loop.header ∈ seen → ∃ preheader, getLoopPreheader state.func loop = some preheader ∧
      endsWithBarrier state.func preheader = false)

variable {func : Func} {marked : BlockId → Prop} {headers seen : List BlockId}
  {found : BlockId → BlockId → Prop} {state : LoopState} {loop : Loop}

theorem Visited.mono {fewer : BlockId → BlockId → Prop}
    (hvisited : Visited func marked headers seen found state)
    (hfewer : ∀ header first, fewer header first → found header first) :
    Visited func marked headers seen fewer state :=
  { hvisited with prepared := fun loop hloop first hfirst =>
      hvisited.prepared loop hloop first (hfewer loop.header first hfirst) }

theorem Visited.addBarriers (hvisited : Visited func marked headers seen found state)
    (hnodup : headers.Nodup) (hloop : loop ∈ state.loops) {after : Func} {block : BlockId}
    (hbarrier : HasBarrierIn state.func loop)
    (hadds : AddsBarriers state.func after) (hprepared : Prepared after loop block) :
    Visited func marked headers (seen ++ [loop.header])
      (fun header first => found header first ∨ header = loop.header ∧ first = block)
      { state with func := after } where
  sameCode := hvisited.sameCode.trans hadds.sameCode
  blocks := hadds.hasBlocks hvisited.blocks
  headers_eq := hvisited.headers_eq
  isLoop other hother := by
    have hisLoop := hvisited.isLoop other hother
    refine ⟨?_, hisLoop.header_mem, ?_⟩
    · simpa only [hadds.order_eq] using hisLoop.mem_order
    · simpa only [hadds.succs_eq] using hisLoop.continues
  preheaders other hother := by
    rw [hadds.getLoopPreheader_eq]
    exact hvisited.preheaders other hother
  barriers other hother hmarked := by
    obtain ⟨block, hblock, hhas⟩ := hvisited.barriers other hother hmarked
    exact ⟨block, hblock, hadds.hasBarrier hhas⟩
  prepared other hother first hfirst := by
    rcases hfirst with hfirst | ⟨hheader, rfl⟩
    · exact (hvisited.prepared other hother first hfirst).adds hadds
    · rw [← hvisited.headers_eq] at hnodup
      exact List.inj_on_of_nodup_map hnodup hother hloop hheader ▸ hprepared
  free hnone other hother := by
    exact ((hvisited.free hnone loop hloop).1 hbarrier).elim

theorem Visited.keep (hvisited : Visited func marked headers seen found state)
    (hnodup : headers.Nodup) (hloop : loop ∈ state.loops) {preheader : BlockId}
    (hpreheader : getLoopPreheader state.func loop = some preheader)
    (hends : endsWithBarrier state.func preheader = false) :
    Visited func marked headers (seen ++ [loop.header]) found state := by
  have hunique : ∀ other ∈ state.loops, other.header ∈ seen ++ [loop.header] →
      other.header ∈ seen ∨ other = loop := by
    intro other hother hseen
    rw [← hvisited.headers_eq] at hnodup
    rw [List.mem_append, List.mem_singleton] at hseen
    exact hseen.imp_right (List.inj_on_of_nodup_map hnodup hother hloop)
  refine { hvisited with free := fun hnone other hother => ?_ }
  refine ⟨(hvisited.free hnone other hother).1, fun hseen => ?_⟩
  rcases hunique other hother hseen with hseen | rfl
  · exact (hvisited.free hnone other hother).2 hseen
  · exact ⟨preheader, hpreheader, hends⟩

theorem Visited.split (hvisited : Visited func marked headers seen found state)
    (hnodup : headers.Nodup) (hloop : loop ∈ state.loops)
    (hbarrier : ¬HasBarrierIn state.func loop) {preheader new : BlockId} {after : Func}
    (hpreheader : getLoopPreheader state.func loop = some preheader)
    (hsplits : SplitsOff state.func preheader loop.header after new) :
    Visited func marked headers (seen ++ [loop.header]) found
      ⟨after, state.loops.map (Loop.add preheader new)⟩ := by
  have hunique : ∀ other ∈ state.loops, other.header = loop.header → other = loop := by
    rw [← hvisited.headers_eq] at hnodup
    exact fun other hother => List.inj_on_of_nodup_map hnodup hother hloop
  have hnew := hsplits.getLoopPreheader_new hpreheader (hvisited.isLoop loop hloop)
  constructor
  · exact hvisited.sameCode.trans
      (sameCode_of_splits hsplits.splits hvisited.blocks hsplits.mem_order)
  · exact hsplits.splits.hasBlocks hvisited.blocks hsplits.mem_order
  · rw [← hvisited.headers_eq, List.map_map]
    exact List.map_congr_left fun other _ => SplitsOff.add_header other
  · intro other hother
    obtain ⟨before, hbefore, rfl⟩ := List.mem_map.mp hother
    exact hsplits.isLoop (hvisited.isLoop before hbefore)
  · intro other hother
    obtain ⟨before, hbefore, rfl⟩ := List.mem_map.mp hother
    by_cases hheader : before.header = loop.header
    · rw [hunique before hbefore hheader, hnew]
      simp
    · obtain ⟨found, hfound⟩ := Option.ne_none_iff_exists'.mp (hvisited.preheaders before hbefore)
      rw [hsplits.getLoopPreheader_other (hvisited.isLoop before hbefore) hheader hfound]
      simp
  · intro other hother hmarked
    obtain ⟨before, hbefore, rfl⟩ := List.mem_map.mp hother
    rw [SplitsOff.add_header] at hmarked
    obtain ⟨block, hblock, hhas⟩ := hvisited.barriers before hbefore hmarked
    refine ⟨block, (SplitsOff.mem_add before block).mpr (.inl hblock), ?_⟩
    rwa [hsplits.hasBarrier_eq ((hvisited.isLoop before hbefore).mem_order block hblock)]
  · intro other hother first hfirst
    obtain ⟨before, hbefore, rfl⟩ := List.mem_map.mp hother
    rw [SplitsOff.add_header] at hfirst
    have hprepared := hvisited.prepared before hbefore first hfirst
    refine hsplits.prepared (hvisited.isLoop before hbefore) (fun heq => ?_) hprepared
    rw [hunique before hbefore heq] at hprepared
    exact hbarrier ⟨first, hprepared.first_mem, hprepared.first_barrier⟩
  · intro hnone other hother
    obtain ⟨before, hbefore, rfl⟩ := List.mem_map.mp hother
    obtain ⟨hclear, hends⟩ := hvisited.free hnone before hbefore
    have hisLoop := hvisited.isLoop before hbefore
    constructor
    · rintro ⟨block, hblock, hhas⟩
      rcases (SplitsOff.mem_add before block).mp hblock with hblock | ⟨-, rfl⟩
      · rw [hsplits.hasBarrier_eq (hisLoop.mem_order block hblock)] at hhas
        exact hclear ⟨block, hblock, hhas⟩
      · rw [hsplits.hasBarrier_new] at hhas
        cases hhas
    · intro hseen
      rw [SplitsOff.add_header, List.mem_append, List.mem_singleton] at hseen
      by_cases hheader : before.header = loop.header
      · rw [hunique before hbefore hheader]
        exact ⟨new, hnew, hsplits.endsWithBarrier_new⟩
      · obtain ⟨found, hfound, hno⟩ := hends (hseen.resolve_right hheader)
        refine ⟨found, hsplits.getLoopPreheader_other hisLoop hheader hfound, ?_⟩
        rwa [hsplits.endsWithBarrier_eq (getLoopPreheader_eq_some_iff.mp hfound).1]

/-- The visit of a loop. -/
theorem Visited.processLoop (hvisited : Visited func marked headers seen found state)
    (hnodup : headers.Nodup) (hloop : loop ∈ state.loops) :
    ∃ after changed, processLoop state loop = some (after, changed) ∧
      Visited func marked headers (seen ++ [loop.header])
        (fun header first => found header first ∨
          header = loop.header ∧ firstBarrier state.func loop = some first) after := by
  obtain ⟨preheader, hpreheader⟩ := Option.ne_none_iff_exists'.mp (hvisited.preheaders loop hloop)
  unfold LoopBarriers.processLoop
  cases hfind : loop.blocks.find? fun block => (state.func.body block).hasBarrier with
  | some block =>
      have hblock := List.mem_of_find?_eq_some hfind
      have hhas := List.find?_some hfind
      obtain ⟨after, changed, hadd⟩ : ∃ after changed,
          addLoopBarriers state.func loop block = some (after, changed) :=
        exists_addLoopBarriers hpreheader
      obtain ⟨hadds, hprepared⟩ := addLoopBarriers_prepared hblock hhas hadd
      refine ⟨{ state with func := after }, changed, by simp only [hadd, Option.map_some], ?_⟩
      refine (hvisited.addBarriers hnodup hloop ⟨block, hblock, hhas⟩ hadds hprepared).mono ?_
      rintro header first (hfirst | ⟨hheader, hfirst⟩)
      · exact .inl hfirst
      · exact .inr ⟨hheader, Option.some.inj (hfirst.symm.trans hfind)⟩
  | none =>
      have hbarrier : ¬HasBarrierIn state.func loop := by
        rintro ⟨block, hblock, hhas⟩
        exact List.find?_eq_none.mp hfind block hblock hhas
      have hnot : ∀ header first, (found header first ∨
          header = loop.header ∧ firstBarrier state.func loop = some first) →
            found header first := by
        rintro header first (hfirst | ⟨-, hfirst⟩)
        · exact hfirst
        · cases hfirst.symm.trans hfind
      simp only [hpreheader, Option.bind_eq_bind, Option.bind_some]
      obtain ⟨horder, -, hsuccs, -⟩ := getLoopPreheader_eq_some_iff.mp hpreheader
      split
      · exact ⟨_, true, rfl, (hvisited.split hnodup hloop hbarrier hpreheader
          (splitBlock_splitsOff hvisited.blocks horder hsuccs)).mono hnot⟩
      · rename_i hends
        exact ⟨state, false, rfl, (hvisited.keep hnodup hloop hpreheader
          (Bool.not_eq_true _ ▸ hends)).mono hnot⟩

/-- All visits succeed, and what they find is what the invariant speaks about. -/
theorem Visited.runOnLoops {start : LoopState} (hnodup : headers.Nodup) {visits : List BlockId}
    (hvisits : ∀ header ∈ visits, header ∈ headers)
    (hstart : Visited func marked headers [] (fun _ _ => False) start) :
    ∃ after changed, runOnLoops start visits = some (after, changed) ∧
      Visited func marked headers visits (FoundAt start visits) after := by
  induction visits using List.reverseRecOn with
  | nil =>
      refine ⟨start, false, rfl, hstart.mono fun header first => ?_⟩
      rintro ⟨seen, rest, -, -, hvisits, -⟩
      simp at hvisits
  | append_singleton seen header ih =>
      obtain ⟨before, changed, hrun, hbefore⟩ :=
        ih fun other hother => hvisits other (List.mem_append_left _ hother)
      have hmem := hvisits header (List.mem_append_right _ (List.mem_singleton_self header))
      rw [← hbefore.headers_eq] at hmem hnodup
      obtain ⟨loop, hloop, hheader⟩ := List.mem_map.mp hmem
      obtain ⟨found, hfound⟩ : ∃ found, before.loops.find? (fun loop => loop.header = header) =
          some found := by
        rw [← Option.isSome_iff_exists, List.find?_isSome]
        exact ⟨loop, hloop, by simpa using hheader⟩
      have hfoundMem := List.mem_of_find?_eq_some hfound
      have hfoundHeader : found.header = header := by simpa using List.find?_some hfound
      obtain ⟨after, also, hstep, hafter⟩ :=
        hbefore.processLoop (hbefore.headers_eq ▸ hnodup) hfoundMem
      rw [hfoundHeader] at hafter
      refine ⟨after, changed || also, ?_, hafter.mono fun other first => ?_⟩
      · unfold LoopBarriers.runOnLoops at hrun ⊢
        rw [List.foldlM_append, hrun]
        simp only [List.foldlM_cons, List.foldlM_nil, runOnLoop, hfound, hstep,
          Option.bind_eq_bind, Option.bind_some]
        rfl
      · rintro ⟨visited, rest, state, changed', hsplit, hrun', place, hplace, hother, hfirst⟩
        rcases List.eq_nil_or_concat rest with rfl | ⟨rest, last, rfl⟩
        · obtain ⟨rfl, hlast⟩ := List.append_inj' hsplit rfl
          obtain rfl := List.head_eq_of_cons_eq hlast
          rw [hrun] at hrun'
          cases hrun'
          have hsame : place = found :=
            List.inj_on_of_nodup_map hnodup hplace hfoundMem (hother.trans hfoundHeader.symm)
          exact .inr ⟨rfl, hsame ▸ hfirst⟩
        · rw [List.concat_eq_append, ← List.cons_append, ← List.append_assoc] at hsplit
          obtain ⟨rfl, -⟩ := List.append_inj' hsplit rfl
          exact .inl ⟨visited, rest, state, changed', rfl, hrun', place, hplace, hother, hfirst⟩

/-- Any visits of loops.  The runs pass more barriers and are the same otherwise.  A visit of a
loop that has a barrier finds the first one in some block, and the barriers around the loop are
in place afterwards.  If no loop had a barrier, no preheader ends with one. -/
theorem runOnLoops_correct {func : Func} {loops : List Loop} {visits : List BlockId}
    (hblocks : func.HasBlocks) (hloops : ∀ loop ∈ loops, IsLoop func loop)
    (hnodup : (loops.map Loop.header).Nodup)
    (hpreheaders : ∀ loop ∈ loops, getLoopPreheader func loop ≠ none)
    (hvisits : ∀ header ∈ visits, header ∈ loops.map Loop.header) :
    ∃ after changed, runOnLoops ⟨func, loops⟩ visits = some (after, changed) ∧
      SameCode func after.func ∧
      (∀ loop ∈ loops, loop.header ∈ visits → HasBarrierIn func loop →
        ∃ first, FoundAt ⟨func, loops⟩ visits loop.header first) ∧
      (∀ header first, FoundAt ⟨func, loops⟩ visits header first →
        ∃ loop ∈ after.loops, loop.header = header ∧ Prepared after.func loop first) ∧
      ((∀ loop ∈ loops, ¬HasBarrierIn func loop) →
        ∀ loop ∈ after.loops, loop.header ∈ visits → ∃ preheader,
          getLoopPreheader after.func loop = some preheader ∧
            endsWithBarrier after.func preheader = false) := by
  have hstart : Visited func (fun header => ∃ loop ∈ loops, loop.header = header ∧
      HasBarrierIn func loop) (loops.map Loop.header) [] (fun _ _ => False) ⟨func, loops⟩ := by
    refine ⟨.refl func, hblocks, rfl, hloops, hpreheaders, ?_, ?_, ?_⟩
    · rintro loop hloop ⟨other, hother, hheader, hbarrier⟩
      exact List.inj_on_of_nodup_map hnodup hother hloop hheader ▸ hbarrier
    · intro loop _ first hfirst
      exact hfirst.elim
    · intro hnone loop hloop
      refine ⟨fun hbarrier => hnone loop.header ⟨loop, hloop, rfl, hbarrier⟩, fun hseen => ?_⟩
      cases hseen
  obtain ⟨after, changed, hrun, hvisited⟩ := hstart.runOnLoops hnodup hvisits
  refine ⟨after, changed, hrun, hvisited.sameCode, ?_, ?_, ?_⟩
  · intro loop hloop hheader hbarrier
    obtain ⟨seen, rest, rfl⟩ := List.append_of_mem hheader
    obtain ⟨before, changed', hbefore, hvisitedBefore⟩ := hstart.runOnLoops hnodup
      fun other hother => hvisits other (List.mem_append_left _ hother)
    have hmem := List.mem_map_of_mem (f := Loop.header) hloop
    rw [← hvisitedBefore.headers_eq] at hmem
    obtain ⟨other, hother, hsame⟩ := List.mem_map.mp hmem
    obtain ⟨first, hfirst⟩ := Option.ne_none_iff_exists'.mp (firstBarrier_ne_none
      (hvisitedBefore.barriers other hother ⟨loop, hloop, hsame.symm, hbarrier⟩))
    exact ⟨first, seen, rest, before, changed', rfl, hbefore, other, hother, hsame, hfirst⟩
  · intro header first hfirst
    obtain ⟨seen, rest, -, -, heq, -⟩ := id hfirst
    have hmem := hvisits header (heq ▸ List.mem_append_right _ List.mem_cons_self)
    rw [← hvisited.headers_eq] at hmem
    obtain ⟨loop, hloop, rfl⟩ := List.mem_map.mp hmem
    exact ⟨loop, hloop, rfl, hvisited.prepared loop hloop first hfirst⟩
  · intro hnone loop hloop hheader
    refine (hvisited.free ?_ loop hloop).2 hheader
    rintro header ⟨other, hother, -, hbarrier⟩
    exact hnone other hother hbarrier

/-- An inner loop behind a barrier at the start of the outer loop. -/
def nestedLoops : LoopState where
  func :=
    { order := [0, 1, 2, 3, 4]
      body := fun block =>
        match block with
        | 0 => ⟨[], ⟨0, 0, [], [1]⟩⟩
        | 1 => ⟨[⟨10, .phi [(0, 0), (11, 3)]⟩, ⟨12, .barrier⟩], ⟨1, 0, [], [2]⟩⟩
        | 2 => ⟨[], ⟨2, 1, [10], [2, 3]⟩⟩
        | 3 => ⟨[⟨11, .other 1 [10]⟩], ⟨3, 1, [11], [1, 4]⟩⟩
        | block => ⟨[], ⟨block, 0, [], []⟩⟩
      freshBlock := 5
      freshValue := 13 }
  loops := [⟨2, [2]⟩, ⟨1, [1, 2, 3]⟩]

theorem isLoop_nestedLoops : ∀ loop ∈ nestedLoops.loops, IsLoop nestedLoops.func loop := by
  have hinner : IsLoop nestedLoops.func ⟨2, [2]⟩ := ⟨by decide, by decide, by decide⟩
  have houter : IsLoop nestedLoops.func ⟨1, [1, 2, 3]⟩ := ⟨by decide, by decide, by decide⟩
  exact List.forall_mem_cons.mpr ⟨hinner, List.forall_mem_singleton.mpr houter⟩

theorem runOnLoops_correct_nestedLoops :
    ∃ after changed, runOnLoops nestedLoops [2, 1] = some (after, changed) ∧
      SameCode nestedLoops.func after.func ∧
      (∀ loop ∈ nestedLoops.loops, loop.header ∈ [2, 1] → HasBarrierIn nestedLoops.func loop →
        ∃ first, FoundAt nestedLoops [2, 1] loop.header first) ∧
      (∀ header first, FoundAt nestedLoops [2, 1] header first →
        ∃ loop ∈ after.loops, loop.header = header ∧ Prepared after.func loop first) ∧
      ((∀ loop ∈ nestedLoops.loops, ¬HasBarrierIn nestedLoops.func loop) →
        ∀ loop ∈ after.loops, loop.header ∈ [2, 1] → ∃ preheader,
          getLoopPreheader after.func loop = some preheader ∧
            endsWithBarrier after.func preheader = false) :=
  runOnLoops_correct ⟨by decide, by decide, by decide, by decide⟩ isLoop_nestedLoops
    (by decide) (by decide) (by decide)

/-- The terminator of the inner preheader is split off, and the outer latch gets a barrier. -/
example :
    (runOnLoops nestedLoops [2, 1]).map (fun result =>
        (result.1.func.order, result.1.loops, endsWithBarrier result.1.func 3,
          endsWithBarrier result.1.func 5, result.2)) =
      some ([0, 1, 5, 2, 3, 4], [⟨2, [2]⟩, ⟨1, [1, 2, 3, 5]⟩], true, false, true) := by
  decide

end Runs

end Pocl.LoopBarriers
