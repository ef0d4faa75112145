import Pocl.KernelRegionsFormation
import Pocl.WorkitemLoopsRegions
import Pocl.WorkitemReplicationCopies

/-!
# What the work-item handlers get of a formed region

A region that was formed before a barrier is one that the replication pass can copy.  With the
instructions left out it is one that the loops can be put around, if no block of it goes back to
its entry and control leaves it from its exit.
-/

namespace Pocl.KernelRegions

variable {preds : BlockId → List BlockId} {func func' : Func} {b : BlockId}
  {region : ParallelRegion}

/-- A formed region with its loads of the local ids. -/
theorem Formed.validRegion (hformed : Formed preds func b func' region)
    (hblocks : func.HasBlocks) {module : ModuleValues}
    (hidLoads : ∀ dim, loadedId module func' (region.idLoad dim) = some dim) :
    WorkitemReplication.ValidRegion module func' region where
  nodup := hformed.ordered.nodup hblocks.nodup
  mem_order block hblock := by
    rw [hformed.sameShape.order]
    exact hformed.ordered.subset hblock
  entry := by
    obtain ⟨entry, -, hentry, -⟩ := hformed.entered
    exact ⟨entry, hentry⟩
  exit := by
    obtain ⟨exit, hexit, -, hlength⟩ := hformed.left
    obtain ⟨successor, hsuccs⟩ := List.length_eq_one_iff.mp hlength
    rw [← hformed.sameShape.succs] at hsuccs
    exact ⟨exit, successor, hexit, hsuccs⟩
  idLoads := hidLoads

/-- The function as the loops see it. -/
def withoutInstructions (func : Func) : WorkitemLoops.Func where
  entry := func.entry
  body block :=
    { stores := []
      code := some block
      isBarrier := (func.body block).hasBarrier
      term := .branch (if block ∈ func.order then func.succs block else []) }
  freshBlock := func.freshBlock

theorem withoutInstructions_succs {block : BlockId} (hblock : block ∈ func.order) :
    (withoutInstructions func).succs block = func.succs block :=
  if_pos hblock

theorem mem_order_of_succs {source target : BlockId}
    (htarget : target ∈ (withoutInstructions func).succs source) :
    source ∈ func.order ∧ target ∈ func.succs source := by
  change target ∈ (if source ∈ func.order then func.succs source else []) at htarget
  split at htarget
  next hsource => exact ⟨hsource, htarget⟩
  next => cases htarget

theorem withoutInstructions_wellFormed (hblocks : func.HasBlocks) :
    (withoutInstructions func).WellFormed where
  entry_lt := hblocks.bound _ hblocks.entry_mem
  succs_lt source target htarget := by
    obtain ⟨hsource, htarget⟩ := mem_order_of_succs htarget
    exact hblocks.bound _ (hblocks.succs_mem source hsource target htarget)
  succs_fresh block hle := if_neg fun hblock => Nat.not_lt.mpr hle (hblocks.bound block hblock)

/-- No loop of the region goes back to its entry, and the exit leads out of it. -/
theorem Formed.kernelRegion (hformed : Formed preds func b func' region)
    (hpreds : ListsPredecessors func preds) (hblocks : func.HasBlocks)
    (hstart : func.entry ∈ barriers func)
    (hforwards : ∀ entry, region.entryBB = some entry →
      ∀ block ∈ region.blocks, entry ∉ func.succs block)
    (hleaves : ∀ exit, region.exitBB = some exit →
      ∀ target ∈ func.succs exit, target ∉ region.blocks) :
    ∃ entry exit target,
      WorkitemLoops.KernelRegion (withoutInstructions func) region entry exit target := by
  obtain ⟨entry, -, hentry, -, -, -, hentered⟩ := hformed.entered
  obtain ⟨exit, hexit, hexitMem, hlength⟩ := hformed.left
  obtain ⟨target, hsuccs⟩ := List.length_eq_one_iff.mp hlength
  have horder : ∀ block ∈ region.blocks, block ∈ func.order := fun _ hblock =>
    hformed.ordered.subset hblock
  refine ⟨entry, exit, target, ?_⟩
  exact
    { wellFormed := withoutInstructions_wellFormed hblocks
      nodup := hformed.ordered.nodup hblocks.nodup
      entryBB := hentry
      exitBB := hexit
      lt := fun block hblock => hblocks.bound block (horder block hblock)
      kernelCode := fun block _ => ⟨rfl, _, rfl⟩
      exit_succs := (withoutInstructions_succs (horder exit hexitMem)).trans hsuccs
      target_notMem := hleaves exit hexit target (hsuccs ▸ List.mem_singleton_self target)
      forwards := fun block hblock hback =>
        hforwards entry hentry block hblock (mem_order_of_succs hback).2
      entered :=
        { entry_notMem := fun hmem => (hformed.plain _ hmem).1 hstart
          closed := fun inner hinner hne source hedge => by
            by_contra hout
            obtain ⟨hsource, hsucc⟩ := mem_order_of_succs hedge
            exact hne (hentered inner hinner source (mem_preds hpreds hsource hsucc) hout).1 } }

end Pocl.KernelRegions
