import Pocl.CanonicalizeBarriersRuns

/-!
# The stages of the pass

Every stage keeps the function well formed, its entry and its runs.  It also
keeps its rings: cycles of blocks that hold nothing but barriers and that no
other block leads to.  The first two stages put a barrier into the entry and
into every exit.
-/

namespace Pocl

namespace CanonicalizeBarriers

/-- Blocks of nothing but barriers, each with one successor and one incoming
edge among them. -/
structure Ring (func : Func) (blocks : Set BlockId) : Prop where
  nonempty : blocks.Nonempty
  mem_order : ∀ block ∈ blocks, block ∈ func.order
  shapes_ne : ∀ block ∈ blocks, shapes func block ≠ []
  shapes_barrier : ∀ block ∈ blocks, ∀ shape ∈ shapes func block,
    shape.barrier = true
  succs : ∀ block ∈ blocks, ∃ target ∈ blocks, func.succs block = [target]
  preds : ∀ block ∈ blocks, ∃ source ∈ blocks,
    predecessors func block = [source]

def HasRing (func : Func) : Prop :=
  ∃ blocks, Ring func blocks

theorem Ring.of_agree
    {func after : Func} {blocks : Set BlockId} (hring : Ring func blocks)
    (horder : ∀ block ∈ blocks, block ∈ func.order → block ∈ after.order)
    (hshapes : ∀ block ∈ blocks, shapes after block = shapes func block)
    (hsuccs : ∀ block ∈ blocks, after.succs block = func.succs block)
    (hpreds : ∀ block ∈ blocks, predecessors after block =
      predecessors func block) :
    Ring after blocks := by
  constructor
  · exact hring.nonempty
  · intro block hblock
    exact horder block hblock (hring.mem_order block hblock)
  · intro block hblock
    rw [hshapes block hblock]
    exact hring.shapes_ne block hblock
  · intro block hblock
    rw [hshapes block hblock]
    exact hring.shapes_barrier block hblock
  · intro block hblock
    rw [hsuccs block hblock]
    exact hring.succs block hblock
  · intro block hblock
    rw [hpreds block hblock]
    exact hring.preds block hblock

theorem Ring.entry_not_mem
    {func : Func} {blocks : Set BlockId} (hring : Ring func blocks)
    (hwf : WellFormed func) : func.entry ∉ blocks := by
  intro hentry
  obtain ⟨source, _, hpred⟩ := hring.preds _ hentry
  rw [hwf.entry_pred] at hpred
  cases hpred

theorem Ring.exit_not_mem
    {func : Func} {blocks : Set BlockId} (hring : Ring func blocks)
    {block : BlockId} (hexit : func.succs block = []) : block ∉ blocks := by
  intro hblock
  obtain ⟨target, _, hsucc⟩ := hring.succs _ hblock
  rw [hexit] at hsucc
  cases hsucc

namespace Splits

variable {func after : Func} {block new : BlockId} {index : ℕ}

/-- The parts of a block on a ring are both on the ring. -/
theorem ring_forward
    (hsplits : Splits func block index after new) (hblocks : func.HasBlocks)
    (hblock : block ∈ func.order) {blocks : Set BlockId}
    (hring : Ring func blocks)
    (hparts : block ∈ blocks → 0 < index ∧ index < (shapes func block).length) :
    Ring after {other | other ∈ blocks ∨ other = new ∧ block ∈ blocks} := by
  have hnot := hsplits.new_not_mem hblocks
  have hne : ∀ other ∈ blocks, other ≠ new := fun other hother heq =>
    hnot (heq ▸ hring.mem_order other hother)
  constructor
  · obtain ⟨other, hother⟩ := hring.nonempty
    exact ⟨other, Or.inl hother⟩
  · rintro other (hother | ⟨rfl, _⟩)
    · exact (hsplits.mem_order hblock).mpr (Or.inr (hring.mem_order other hother))
    · exact (hsplits.mem_order hblock).mpr (Or.inl rfl)
  · rintro other (hother | ⟨rfl, hmem⟩)
    · by_cases heq : other = block
      · subst heq
        obtain ⟨hpos, hlt⟩ := hparts hother
        rw [hsplits.shapes_block]
        intro hempty
        rcases List.take_eq_nil_iff.mp hempty with hzero | hnil
        · exact hpos.ne' hzero
        · exact hring.shapes_ne _ hother hnil
      · rw [hsplits.shapes_other other heq (hne other hother)]
        exact hring.shapes_ne other hother
    · rw [hsplits.shapes_new]
      intro hempty
      exact absurd (List.drop_eq_nil_iff.mp hempty) (not_le.mpr (hparts hmem).2)
  · rintro other (hother | ⟨rfl, hmem⟩) shape hshape
    · by_cases heq : other = block
      · subst heq
        rw [hsplits.shapes_block] at hshape
        exact hring.shapes_barrier _ hother shape (List.mem_of_mem_take hshape)
      · rw [hsplits.shapes_other other heq (hne other hother)] at hshape
        exact hring.shapes_barrier other hother shape hshape
    · rw [hsplits.shapes_new] at hshape
      exact hring.shapes_barrier block hmem shape (List.mem_of_mem_drop hshape)
  · rintro other (hother | ⟨rfl, hmem⟩)
    · by_cases heq : other = block
      · subst heq
        exact ⟨new, Or.inr ⟨rfl, hother⟩, hsplits.succs_block⟩
      · obtain ⟨target, htarget, hsucc⟩ := hring.succs other hother
        refine ⟨target, Or.inl htarget, ?_⟩
        rw [hsplits.succs_other heq (hne other hother), hsucc]
    · obtain ⟨target, htarget, hsucc⟩ := hring.succs block hmem
      exact ⟨target, Or.inl htarget, hsplits.succs_new.trans hsucc⟩
  · rintro other (hother | ⟨rfl, hmem⟩)
    · obtain ⟨source, hsource, hpred⟩ := hring.preds other hother
      refine ⟨renamed block new source, ?_, ?_⟩
      · unfold renamed
        split
        · rename_i heq
          exact Or.inr ⟨rfl, heq ▸ hsource⟩
        · exact Or.inl hsource
      · rw [hsplits.predecessors_old hblocks hblock (hne other hother), hpred]
        rfl
    · exact ⟨block, Or.inl hmem, hsplits.predecessors_new hblocks hblock⟩

theorem ring_backward
    (hsplits : Splits func block index after new) (hblocks : func.HasBlocks)
    (hblock : block ∈ func.order) {blocks : Set BlockId}
    (hring : Ring after blocks) :
    Ring func {other | other ∈ blocks ∧ other ≠ new} := by
  have hnot := hsplits.new_not_mem hblocks
  have hblockNe : block ≠ new := fun heq => hnot (heq ▸ hblock)
  have hparts : new ∈ blocks → block ∈ blocks := by
    intro hnew
    obtain ⟨source, hsource, hpred⟩ := hring.preds new hnew
    rw [hsplits.predecessors_new hblocks hblock, List.cons.injEq] at hpred
    exact hpred.1 ▸ hsource
  have hpartsNew : block ∈ blocks → new ∈ blocks := by
    intro hmem
    obtain ⟨target, htarget, hsucc⟩ := hring.succs block hmem
    rw [hsplits.succs_block, List.cons.injEq] at hsucc
    exact hsucc.1 ▸ htarget
  have horder : ∀ other ∈ blocks, other ≠ new → other ∈ func.order := by
    intro other hother hne
    rcases (hsplits.mem_order hblock).mp (hring.mem_order other hother) with
      heq | hmem
    · exact absurd heq hne
    · exact hmem
  constructor
  · obtain ⟨other, hother⟩ := hring.nonempty
    by_cases hne : other = new
    · subst hne
      exact ⟨block, hparts hother, hblockNe⟩
    · exact ⟨other, hother, hne⟩
  · rintro other ⟨hother, hne⟩
    exact horder other hother hne
  · rintro other ⟨hother, hne⟩ hempty
    apply hring.shapes_ne other hother
    by_cases heq : other = block
    · rw [heq] at hempty ⊢
      rw [hsplits.shapes_block, hempty, List.take_nil]
    · rw [hsplits.shapes_other other heq hne, hempty]
  · rintro other ⟨hother, hne⟩ shape hshape
    by_cases heq : other = block
    · subst heq
      rw [← List.take_append_drop index (shapes func other), List.mem_append,
        ← hsplits.shapes_block, ← hsplits.shapes_new] at hshape
      rcases hshape with hfirst | hsecond
      · exact hring.shapes_barrier other hother shape hfirst
      · exact hring.shapes_barrier new (hpartsNew hother) shape hsecond
    · rw [← hsplits.shapes_other other heq hne] at hshape
      exact hring.shapes_barrier other hother shape hshape
  · rintro other ⟨hother, hne⟩
    have hotherOrder := horder other hother hne
    have hsuccs : ∃ target ∈ blocks, func.succs other = [target] := by
      by_cases heq : other = block
      · subst heq
        obtain ⟨target, htarget, hsucc⟩ := hring.succs new (hpartsNew hother)
        exact ⟨target, htarget, hsplits.succs_new.symm.trans hsucc⟩
      · obtain ⟨target, htarget, hsucc⟩ := hring.succs other hother
        exact ⟨target, htarget, (hsplits.succs_other heq hne).symm.trans hsucc⟩
    obtain ⟨target, htarget, hsucc⟩ := hsuccs
    refine ⟨target, ⟨htarget, ?_⟩, hsucc⟩
    intro htargetNew
    apply hnot
    rw [← htargetNew]
    exact hblocks.succs_mem other hotherOrder target (by simp [hsucc])
  · rintro other ⟨hother, hne⟩
    obtain ⟨source, hsource, hpred⟩ := hring.preds other hother
    rw [hsplits.predecessors_old hblocks hblock hne] at hpred
    obtain ⟨before, hbefore, hrenamed⟩ := List.map_eq_singleton_iff.mp hpred
    have hbeforeOrder : before ∈ func.order :=
      (mem_predecessors.mp (hbefore ▸ List.mem_singleton_self before)).1
    have hbeforeNe : before ≠ new := fun heq => hnot (heq ▸ hbeforeOrder)
    refine ⟨before, ⟨?_, hbeforeNe⟩, hbefore⟩
    unfold renamed at hrenamed
    split at hrenamed
    · rename_i heq
      rw [heq]
      exact hparts (hrenamed ▸ hsource)
    · exact hrenamed ▸ hsource

theorem hasRing_iff
    (hsplits : Splits func block index after new) (hblocks : func.HasBlocks)
    (hblock : block ∈ func.order)
    (hparts : ∀ blocks, Ring func blocks → block ∈ blocks →
      0 < index ∧ index < (shapes func block).length) :
    HasRing after ↔ HasRing func := by
  constructor
  · rintro ⟨blocks, hring⟩
    exact ⟨_, hsplits.ring_backward hblocks hblock hring⟩
  · rintro ⟨blocks, hring⟩
    exact ⟨_, hsplits.ring_forward hblocks hblock hring (hparts blocks hring)⟩

end Splits

/-- What the stages keep. -/
structure Stage (func after : Func) : Prop where
  wellFormed : WellFormed after
  entry_eq : after.entry = func.entry
  sameRuns : SameRuns func after
  hasRing_iff : HasRing after ↔ HasRing func

namespace Stage

theorem refl {func : Func} (hwf : WellFormed func) : Stage func func :=
  ⟨hwf, rfl, SameRuns.refl func, Iff.rfl⟩

theorem trans {first second third : Func}
    (hfirst : Stage first second) (hsecond : Stage second third) :
    Stage first third :=
  ⟨hsecond.wellFormed, hsecond.entry_eq.trans hfirst.entry_eq,
    hfirst.sameRuns.trans hsecond.sameRuns,
    hsecond.hasRing_iff.trans hfirst.hasRing_iff⟩

end Stage

theorem Splits.stage
    {func after : Func} {block new : BlockId} {index : ℕ}
    (hsplits : Splits func block index after new) (hwf : WellFormed func)
    (hblock : block ∈ func.order)
    (hparts : ∀ blocks, Ring func blocks → block ∈ blocks →
      0 < index ∧ index < (shapes func block).length) :
    Stage func after :=
  ⟨hsplits.wellFormed hwf hblock, hsplits.entry_eq hwf.blocks,
    hsplits.sameRuns hwf.blocks hblock,
    hsplits.hasRing_iff hwf.blocks hblock hparts⟩

end CanonicalizeBarriers

end Pocl
