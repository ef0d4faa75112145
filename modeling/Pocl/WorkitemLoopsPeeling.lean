import Pocl.WorkitemLoopsRegions

/-!
# The loops of a peeled region

A region that shares its entry block with another one runs the first work-item itself and
goes on to loops around a copy of it, which begin behind the first work-item.  The innermost
loop alone takes the first work-item from `.pocl.local_id_x_init`, so if the local size in
this dimension is one, the copy runs the first work-item again.
-/

namespace Pocl.WorkitemLoops

open CodeSections

section Purging

variable {func func₂ func₃ : Func} {region replica' : ParallelRegion}
  {entry exit target : BlockId}

/-- The clones of the blocks of a region. -/
def clonesOf (func : Func) (region : ParallelRegion) : Set BlockId :=
  cloneOf func region '' blocksOf region

theorem KernelRegion.unchanged (hregion : KernelRegion func region entry exit target) :
    Unchanged func region exit func :=
  ⟨le_rfl, fun _ _ _ => rfl, target, hregion.target_notMem,
    by rw [← Term.eq_branch_of_succs hregion.exit_succs]⟩

theorem KernelRegion.target_lt (hregion : KernelRegion func region entry exit target) :
    target < func.freshBlock :=
  hregion.wellFormed.succs_lt exit target (by rw [hregion.exit_succs]; simp)

theorem KernelRegion.exit_lt (hregion : KernelRegion func region entry exit target) :
    exit < func.freshBlock :=
  hregion.lt exit hregion.exit_mem

theorem le_of_mem_clonesOf {block : BlockId} (hblock : block ∈ clonesOf func region) :
    func.freshBlock ≤ block := by
  obtain ⟨original, -, rfl⟩ := hblock
  exact le_cloneOf

theorem mem_replicate_blocks {block : BlockId} :
    block ∈ (replicate func region).2.blocks ↔ block ∈ clonesOf func region := by
  change block ∈ region.blocks.map (cloneOf func region) ↔ _
  rw [List.mem_map]
  rfl

theorem Chained.clone_lt (hchained : Chained func region entry exit exit target func₂)
    {block : BlockId} (hblock : block ∈ clonesOf func region) :
    block < func₂.freshBlock := by
  obtain ⟨original, horiginal, rfl⟩ := hblock
  exact hchained.fresh_eq ▸ cloneOf_lt horiginal

theorem Purged.succs_of_notMem
    (hpurged : Purged (replicate func region).2 (cloneOf func region exit)
      (replicate func region).2.blocks func₂ func₃)
    {block : BlockId}
    (hnot : block ∉ clonesOf func region ∪ newBlocks func₂ func₃) :
    func₃.succs block = func₂.succs block := by
  have hcase : block < func₂.freshBlock ∨ func₃.freshBlock ≤ block := by
    by_contra hboth
    rw [not_or, not_lt, not_le] at hboth
    exact hnot (.inr hboth)
  have hblocks : block ∉ (replicate func region).2.blocks := fun hmem =>
    hnot (.inl (mem_replicate_blocks.mp hmem))
  rw [Func.succs, hpurged.same block (.inl hblocks) hcase, Func.succs]

variable (hregion : KernelRegion func region entry exit target)
  (hchained : Chained func region entry exit exit target func₂)
include hregion hchained

theorem Chained.clone_term {block : BlockId} (hblock : block ∈ clonesOf func region) :
    ∃ succs, (func₂.body block).term = .branch succs := by
  obtain ⟨original, horiginal, rfl⟩ := hblock
  by_cases heq : original = exit
  · rw [heq, hchained.exit_body]
    exact ⟨_, rfl⟩
  · obtain ⟨succs, hterm⟩ := (hregion.kernelCode original horiginal).2
    rw [hchained.clone_body original horiginal heq, replicate_clone horiginal, hterm]
    exact ⟨_, rfl⟩

/-- Control enters the copy from the region only. -/
theorem Chained.entered :
    func₂.graph.EnteredAt (clonesOf func region) (cloneOf func region entry) where
  entry_notMem hmem := by
    have hle : func.freshBlock ≤ func₂.entry := le_of_mem_clonesOf hmem
    rw [hchained.entry_eq] at hle
    exact not_le.mpr hregion.wellFormed.entry_lt hle
  closed block hblock hne source hedge := by
    by_contra hnot
    have hsource : block ∈ func₂.succs source := hedge
    by_cases hexit : source = exit
    · rw [hexit, Func.succs, hchained.last_body] at hsource
      exact hne (List.mem_singleton.mp hsource)
    · by_cases hlt : source < func.freshBlock
      · rw [Func.succs, hchained.old source hlt hexit] at hsource
        exact not_le.mpr (hregion.wellFormed.succs_lt source block hsource)
          (le_of_mem_clonesOf hblock)
      · have hnot' : source ∉ blocksOf region ∪ WorkitemLoops.newBlocks func func₂ := by
          rw [hchained.newBlocks hregion.nodup]
          rintro (hmem | hmem)
          · exact hlt (hregion.lt source hmem)
          · exact hnot hmem
        rw [hchained.succs_of_notMem hregion.exit_mem hnot',
          hregion.wellFormed.succs_fresh source (not_lt.mp hlt)] at hsource
        cases hsource

variable (hpurged : Purged (replicate func region).2 (cloneOf func region exit)
  (replicate func region).2.blocks func₂ func₃)
include hpurged

theorem Purged.exit_body :
    func₃.body (cloneOf func region exit) = func₂.body (cloneOf func region exit) :=
  hpurged.same _ (.inr rfl) (.inl (hchained.clone_lt ⟨exit, hregion.exit_mem, rfl⟩))

theorem Purged.succs_lt {block : BlockId}
    (hblock : block ∈ clonesOf func region ∪ newBlocks func₂ func₃) :
    ∀ next ∈ func₃.succs block, next < func₃.freshBlock := by
  intro next hnext
  rcases hblock with hblock | hblock
  · by_cases heq : block = cloneOf func region exit
    · rw [heq, Func.succs, hpurged.exit_body hregion hchained, hchained.exit_body] at hnext
      rw [List.mem_singleton.mp hnext]
      exact lt_of_lt_of_le hregion.target_lt (hchained.fresh_le.trans hpurged.fresh_le)
    · obtain ⟨succs, hbody, -, hsuccs⟩ :=
        hpurged.purged block (mem_replicate_blocks.mpr hblock) heq
      rw [Func.succs, hbody] at hnext
      rcases hsuccs next hnext with ⟨hin, -⟩ | ⟨-, hlt⟩
      · exact lt_of_lt_of_le (hchained.clone_lt (mem_replicate_blocks.mp hin))
          hpurged.fresh_le
      · exact hlt
  · rw [Func.succs, hpurged.dead block hblock.1 hblock.2] at hnext
    cases hnext

theorem Purged.wellFormed : func₃.WellFormed := by
  have hfunc₂ : func₂.WellFormed := hchained.wellFormed hregion.wellFormed hregion.codeRegion
    hregion.target_lt hregion.exit_lt
  refine hfunc₂.extend hpurged.entry_eq hpurged.fresh_le ?_
    (fun block => hpurged.succs_of_notMem)
    fun block => hpurged.succs_lt hregion hchained
  rintro block (hblock | hblock)
  · exact lt_of_lt_of_le (hchained.clone_lt hblock) hpurged.fresh_le
  · exact hblock.2

/-- Where the copy left the region, it gets stuck. -/
theorem Purged.section :
    func₃.machine.Section (regionOnly func region)
      (clonesOf func region ∪ newBlocks func₂ func₃) (cloneOf func region entry)
      (cloneOf func region exit) (itemSpec (pathsOf func region entry exit)) := by
  have hcopy := hchained.copy_section hregion.unchanged hregion.codeRegion
  rw [← Set.image_id (clonesOf func region)]
  refine hcopy.image (Set.injOn_id _) ?_ (fun block hblock => ?_) ?_ ?_ ?_
  · rw [Set.image_id]
    rintro block (hblock | hblock)
    · exact .inr (le_of_mem_clonesOf hblock)
    · exact .inr (hchained.fresh_le.trans hblock.1)
  · change func₃.machine.run block = func₂.machine.run block
    by_cases heq : block = cloneOf func region exit
    · rw [heq]
      have hbody := hpurged.exit_body hregion hchained
      exact Func.run_congr (by rw [hbody]) (by rw [hbody])
    · obtain ⟨succs, hbody, -, -⟩ :=
        hpurged.purged block (mem_replicate_blocks.mpr hblock) heq
      exact Func.run_congr (by rw [hbody]) (by rw [hbody])
  · intro block hblock hne memory next' hnext
    obtain ⟨succs, hbody, -, hsuccs⟩ :=
      hpurged.purged block (mem_replicate_blocks.mpr hblock) hne
    obtain ⟨old, hterm⟩ := hchained.clone_term hregion hblock
    rcases hsuccs next' ((Func.next_iff_of_branch (by rw [id, hbody])).mp hnext) with
      ⟨hin, hmem⟩ | hnew
    · rw [Func.succs, hterm] at hmem
      exact .inl ⟨next', mem_replicate_blocks.mp hin, rfl,
        (Func.next_iff_of_branch hterm).mpr hmem⟩
    · exact .inr (.inl hnew)
  · intro block hblock memory next' hnext
    simp [Func.machine, hpurged.dead block hblock.1 hblock.2] at hnext
  · exact fun hmem => not_le.mpr
      (hchained.clone_lt ⟨exit, hregion.exit_mem, rfl⟩) hmem.1

theorem Purged.surroundable :
    Surroundable (regionOnly func region) (clonesOf func region ∪ newBlocks func₂ func₃) func₃
      (cloneOf func region entry) (cloneOf func region exit) target
      (itemSpec (pathsOf func region entry exit)) where
  wellFormed := hpurged.wellFormed hregion hchained
  nodes_lt := by
    rintro block (hblock | hblock)
    · exact lt_of_lt_of_le (hchained.clone_lt hblock) hpurged.fresh_le
    · exact hblock.2
  new_allowed block hle := .inr ((hchained.fresh_le.trans hpurged.fresh_le).trans hle)
  isSection := hpurged.section hregion hchained
  exit_succs := by
    rw [Func.succs, hpurged.exit_body hregion hchained, hchained.exit_body]
    rfl
  target_notMem := by
    rintro (hmem | hmem)
    · exact not_le.mpr hregion.target_lt (le_of_mem_clonesOf hmem)
    · exact not_le.mpr hregion.target_lt (hchained.fresh_le.trans hmem.1)
  entered := enteredAt_extend (hchained.entered hregion)
    (hchained.wellFormed hregion.wellFormed hregion.codeRegion hregion.target_lt
      hregion.exit_lt) hpurged.entry_eq (fun _ hblock => hblock.1)
    fun _ => hpurged.succs_of_notMem

/-- The blocks of the copy and those made for it. -/
def copyNodes (func : Func) (region : ParallelRegion) (func₂ func₃ : Func) : Set BlockId :=
  clonesOf func region ∪ newBlocks func₂ func₃

omit hregion hpurged in
theorem Chained.le_of_mem_copyNodes {block : BlockId}
    (hblock : block ∈ copyNodes func region func₂ func₃) : func.freshBlock ≤ block := by
  rcases hblock with hblock | hblock
  · exact le_of_mem_clonesOf hblock
  · exact hchained.fresh_le.trans hblock.1

omit hregion in
theorem Purged.kept {block : BlockId} (hlt : block < func.freshBlock) (hne : block ≠ exit) :
    func₃.body block = func.body block := by
  have hnot : block ∉ (replicate func region).2.blocks := fun hmem =>
    not_le.mpr hlt (le_of_mem_clonesOf (mem_replicate_blocks.mp hmem))
  rw [hpurged.same block (.inl hnot) (.inl (lt_of_lt_of_le hlt hchained.fresh_le)),
    hchained.old block hlt hne]

theorem Purged.exit_kept :
    func₃.body exit =
      { func.body exit with term := .branch [cloneOf func region entry] } := by
  have hnot : exit ∉ (replicate func region).2.blocks := fun hmem =>
    not_le.mpr hregion.exit_lt (le_of_mem_clonesOf (mem_replicate_blocks.mp hmem))
  rw [hpurged.same exit (.inl hnot) (.inl (lt_of_lt_of_le hregion.exit_lt hchained.fresh_le)),
    hchained.last_body]

/-- The ways to a block are still there up to the exit of the region. -/
theorem Purged.avoidsAll_or {block : BlockId} (hreach : func.graph.Reachable block) :
    func₃.graph.AvoidsAll (copyNodes func region func₂ func₃) block ∨
      func₃.graph.AvoidsAll (copyNodes func region func₂ func₃) exit := by
  have hentry : func₃.entry = func.entry := hpurged.entry_eq.trans hchained.entry_eq
  induction hreach with
  | refl =>
      have hnot : func₃.graph.entry ∉ copyNodes func region func₂ func₃ := fun hmem =>
        not_le.mpr hregion.wellFormed.entry_lt (hentry ▸ hchained.le_of_mem_copyNodes hmem)
      have havoids := FlowGraph.AvoidsAll.entry hnot
      change func₃.graph.AvoidsAll _ func₃.entry at havoids
      rw [hentry] at havoids
      exact .inl havoids
  | @tail source next _ hedge ih =>
      rcases ih with havoids | havoids
      · by_cases heq : source = exit
        · exact .inr (heq ▸ havoids)
        · have hsource := hregion.wellFormed.lt_of_mem hedge
          refine .inl (.step havoids ?_ fun hmem => ?_)
          · change next ∈ (func₃.body source).term.succs
            rw [hpurged.kept hchained hsource heq]
            exact hedge
          · exact not_le.mpr (hregion.wellFormed.succs_lt source next hedge)
              (hchained.le_of_mem_copyNodes hmem)
      · exact .inr havoids

end Purging

section Peeling

/-- The first work-item and the loops in the place of a region that was peeled. -/
structure Peeled
    (sizes : LocalSizes) (func : Func) (region : ParallelRegion) (entry exit target : BlockId)
    (func' : Func) (nodes : Set BlockId) (last : BlockId) : Prop where
  inside : ∀ block ∈ region.blocks, block ∈ nodes
  made : ∀ block ∈ nodes, block ∈ region.blocks ∨ func.freshBlock ≤ block
  last_mem : last ∈ nodes
  leaves : func'.succs last = [target]
  stays : ∀ block ∈ nodes, block ≠ last → ∀ memory next,
    func'.machine.next block memory next →
      next ∈ nodes ∨ next < func.freshBlock ∧ next ∉ region.blocks
  runs : ∀ length memory trace memory',
    func'.machine.Trail nodes last length entry memory trace memory' →
      RunsItems (pathsOf func region entry exit)
        (if 1 < sizes.x then localIds sizes else (0, 0, 0) :: localIds sizes) trace
  others : ∀ block < func.freshBlock, block ∉ region.blocks →
    func'.body block = func.body block

variable {func func₂ func₃ func₄ : Func} {region : ParallelRegion} {sizes : LocalSizes}
  {entry exit target first last : BlockId}

/-- What `insertPrologue` stores. -/
def prologueStores : List IdStore :=
  [.setFirst 1, .constant .x 0, .constant .y 0, .constant .z 0]

theorem insertPrologue_eq (hentry : region.entryBB = some entry) :
    insertPrologue func region = some (func.setBody entry
      { func.body entry with stores := prologueStores ++ (func.body entry).stores }) := by
  simp [insertPrologue, hentry, insertLocalIdInit, Func.setBody, prologueStores]

def firstItem (memory : Memory) : Memory :=
  prologueStores.foldl IdStore.apply memory

theorem firstItem_item (memory : Memory) : (firstItem memory).item = (0, 0, 0) := by
  simp [firstItem, prologueStores, IdStore.apply, Memory.item, Memory.set]

theorem firstItem_ready {sizes : LocalSizes} (hx : 1 ≤ sizes.x) (memory : Memory) :
    NestReady true sizes (firstItem memory) where
  row := by
    refine ⟨fun _ => by simp [firstItem, prologueStores, IdStore.apply, Memory.set], ?_⟩
    by_cases hlt : 1 < sizes.x
    · simp [skipOf, hlt, firstItem, prologueStores, IdStore.apply, Memory.set]
    · rw [skipOf, if_neg fun hpeeled => hlt hpeeled.2]
      exact hx
  y_eq _ := by simp [firstItem, prologueStores, IdStore.apply, Memory.set]
  z_eq _ := by simp [firstItem, prologueStores, IdStore.apply, Memory.set]

theorem localIds_head {sizes : LocalSizes} (hx : 1 ≤ sizes.x) (hy : 1 ≤ sizes.y)
    (hz : 1 ≤ sizes.z) : localIds sizes = (0, 0, 0) :: (localIds sizes).drop 1 := by
  obtain ⟨x, hx⟩ := Nat.exists_eq_add_of_le' hx
  obtain ⟨y, hy⟩ := Nat.exists_eq_add_of_le' hy
  obtain ⟨z, hz⟩ := Nat.exists_eq_add_of_le' hz
  simp [localIds, row, hx, hy, hz, List.range_succ_eq_map, List.range'_succ]

/-- The work-items that are run: if there is one of them in the first dimension, no loop takes
notice of the first one. -/
theorem firstItem_items {sizes : LocalSizes} (hx : 1 ≤ sizes.x) (hy : 1 ≤ sizes.y)
    (hz : 1 ≤ sizes.z) (memory : Memory) :
    (0, 0, 0) :: (localIds sizes).drop (skipOf true sizes.x (firstItem memory)) =
      if 1 < sizes.x then localIds sizes else (0, 0, 0) :: localIds sizes := by
  by_cases hlt : 1 < sizes.x
  · have hskip : skipOf true sizes.x (firstItem memory) = 1 := by
      simp [skipOf, hlt, firstItem, prologueStores, IdStore.apply, Memory.set]
    rw [hskip, if_pos hlt, ← localIds_head hx hy hz]
  · have hskip : skipOf true sizes.x (firstItem memory) = 0 := by simp [skipOf, hlt]
    rw [hskip, if_neg hlt, List.drop_zero]

variable (hregion : KernelRegion func region entry exit target)
  (hchained : Chained func region entry exit exit target func₂)
  (hpurged : Purged (replicate func region).2 (cloneOf func region exit)
    (replicate func region).2.blocks func₂ func₃)
  {spec : Spec}
  (hsurrounded : Surrounded (regionOnly func region) (copyNodes func region func₂ func₃) func₃
    (cloneOf func region entry) (cloneOf func region exit) target func₄ first last spec)
include hregion hchained hpurged hsurrounded

theorem Surrounded.kept {block : BlockId} (hlt : block < func.freshBlock) (hne : block ≠ exit) :
    func₄.body block = func.body block := by
  have hkept := hpurged.kept hchained hlt hne
  have hlt' : block < func₃.freshBlock :=
    lt_of_lt_of_le hlt (hchained.fresh_le.trans hpurged.fresh_le)
  have hout : block ∉ copyNodes func region func₂ func₃ := fun hmem =>
    not_le.mpr hlt (hchained.le_of_mem_copyNodes hmem)
  by_cases havoids : func₃.graph.AvoidsAll (copyNodes func region func₂ func₃) block
  · have hnot : cloneOf func region entry ∉ (func.body block).term.succs := fun hmem =>
      not_le.mpr (hregion.wellFormed.succs_lt block _ hmem) le_cloneOf
    rw [hsurrounded.around block hlt' havoids, hkept, Term.replaceUsesOfWith_of_notMem hnot]
  · rw [hsurrounded.outer block hlt' hout havoids, hkept]

/-- The region goes on to the loops. -/
theorem Surrounded.exit_goesTo (hreach : func.graph.Reachable exit) :
    func₄.body exit = { func.body exit with term := .branch [first] } := by
  have havoids := (hpurged.avoidsAll_or hregion hchained hreach).elim id id
  have hlt : exit < func₃.freshBlock :=
    lt_of_lt_of_le hregion.exit_lt (hchained.fresh_le.trans hpurged.fresh_le)
  rw [hsurrounded.around exit hlt havoids, hpurged.exit_kept hregion hchained]
  simp [Term.replaceUsesOfWith, Term.map]

theorem Surrounded.region_run {block : BlockId} (hreach : func.graph.Reachable exit)
    (hblock : block ∈ region.blocks) :
    func₄.machine.run block = func.machine.run block := by
  by_cases heq : block = exit
  · have hexit := hsurrounded.exit_goesTo hregion hchained hpurged hreach
    rw [heq]
    exact Func.run_congr (by rw [hexit]) (by rw [hexit])
  · have hkept := hsurrounded.kept hregion hchained hpurged (hregion.lt block hblock) heq
    exact Func.run_congr (by rw [hkept]) (by rw [hkept])

theorem Surrounded.region_next {block : BlockId} (hblock : block ∈ region.blocks)
    (hne : block ≠ exit) : func₄.machine.next block = func.machine.next block :=
  Func.next_congr
    (by rw [hsurrounded.kept hregion hchained hpurged (hregion.lt block hblock) hne])

/-- The region runs the first work-item. -/
theorem Surrounded.prologue_section (hreach : func.graph.Reachable exit) {func₅ : Func}
    (hfirst : func₅.body entry =
      { func₄.body entry with stores := prologueStores ++ (func₄.body entry).stores })
    (hsame : ∀ block, block ≠ entry → func₅.body block = func₄.body block) :
    func₅.machine.Section (regionOnly func region) (blocksOf region) entry exit
      (fun memory => itemSpec (pathsOf func region entry exit) (firstItem memory)) := by
  have hrun : ∀ block ∈ blocksOf region, func₄.machine.run block = func.machine.run block :=
    fun _ hblock => hsurrounded.region_run hregion hchained hpurged hreach hblock
  have hnext : ∀ block ∈ blocksOf region, block ≠ exit →
      func₄.machine.next block = func.machine.next block :=
    fun _ hblock => hsurrounded.region_next hregion hchained hpurged hblock
  refine (hregion.codeRegion.isSection.congr hrun hnext).prologue ?_ ?_ ?_ ?_
  · intro block hblock hne memory hedge
    rw [hnext block hblock hne] at hedge
    exact hregion.forwards block hblock (hregion.mem_succs hblock hedge)
  · intro memory
    simp only [Func.machine, hfirst, List.foldl_append, firstItem]
  · intro block _ hne
    exact Func.run_congr (by rw [hsame block hne]) (by rw [hsame block hne])
  · intro block _ _
    by_cases heq : block = entry
    · rw [heq]
      exact Func.next_congr (by rw [hfirst])
    · exact Func.next_congr (by rw [hsame block heq])

/-- The first work-item and the loops behind it. -/
theorem Surrounded.peeled
    (hspec : spec = loopsSpec sizes true false (itemSpec (pathsOf func region entry exit)))
    (hx : 1 ≤ sizes.x) (hy : 1 ≤ sizes.y) (hz : 1 ≤ sizes.z)
    (hreach : func.graph.Reachable exit) :
    ∃ func', insertPrologue func₄ region = some func' ∧
      Peeled sizes func region entry exit target func'
        (blocksOf region ∪ (copyNodes func region func₂ func₃ ∪ newBlocks func₃ func₄)) last := by
  refine ⟨_, insertPrologue_eq hregion.entryBB, ?_⟩
  obtain ⟨func', hfunc'⟩ : ∃ func', func' = func₄.setBody entry
      { func₄.body entry with stores := prologueStores ++ (func₄.body entry).stores } := ⟨_, rfl⟩
  have hfirst : func'.body entry =
      { func₄.body entry with stores := prologueStores ++ (func₄.body entry).stores } := by
    rw [hfunc', Func.setBody_self]
  have hsame : ∀ block, block ≠ entry → func'.body block = func₄.body block := by
    intro block hne
    rw [hfunc', Func.setBody_of_ne _ _ hne]
  rw [← hfunc']
  have hgrow : func.freshBlock ≤ func₃.freshBlock := hchained.fresh_le.trans hpurged.fresh_le
  have hloops : ∀ block ∈ copyNodes func region func₂ func₃ ∪ newBlocks func₃ func₄,
      func.freshBlock ≤ block := by
    rintro block (hblock | hblock)
    · exact hchained.le_of_mem_copyNodes hblock
    · exact hgrow.trans hblock.1
  have hloopsNe : ∀ block ∈ copyNodes func region func₂ func₃ ∪ newBlocks func₃ func₄,
      block ≠ entry := fun block hblock heq =>
    not_le.mpr (hregion.lt entry hregion.entry_mem) (heq ▸ hloops block hblock)
  have hkept : ∀ block ∈ copyNodes func region func₂ func₃ ∪ newBlocks func₃ func₄,
      func'.body block = func₄.body block := fun block hblock =>
    hsame block (hloopsNe block hblock)
  have hnest := hsurrounded.isSection.congr
    (fun block hblock => run_eq_of_body (by rw [hkept block hblock]) (by rw [hkept block hblock]))
    (fun block hblock _ => Func.next_congr (by rw [hkept block hblock]))
  have hregionSection :=
    hsurrounded.prologue_section hregion hchained hpurged hreach hfirst hsame
  have hlast := hsurrounded.isSection.exit_mem
  have hterm : (func'.body exit).term = .branch [first] := by
    have hexit := hsurrounded.exit_goesTo hregion hchained hpurged hreach
    by_cases heq : exit = entry
    · rw [heq, hfirst, ← heq, hexit]
    · rw [hsame exit heq, hexit]
  have hsection := hregionSection.append hnest
    (fun hmem => not_le.mpr (hregion.lt last hmem) (hloops last hlast))
    (fun memory next hnext => List.mem_singleton.mp ((Func.next_iff_of_branch hterm).mp hnext))
  refine ⟨fun _ hblock => .inl hblock, fun block hblock => hblock.imp_right (hloops block),
    .inr hlast, ?_, ?_, ?_, ?_⟩
  · rw [Func.succs, hkept last hlast]
    exact hsurrounded.last_succs
  · intro block hblock hne memory next hnext
    refine (hsection.closed block hblock hne memory next hnext).imp_right fun hout => ?_
    exact ⟨not_le.mp fun hge => hout (.inr hge), fun hmem => hout (.inl hmem)⟩
  · intro length memory trace memory' htrail
    obtain ⟨middle, traceFirst, traceLoops, ⟨hitem, rfl⟩, hrounds, rfl⟩ :=
      hsection.meets length memory trace memory' htrail
    rw [hspec] at hrounds
    have hruns := (itemSpec_rows true hx).loops hy hz (firstItem_ready hx memory) hrounds
    rw [firstItem_item] at hitem
    rw [← firstItem_items hx hy hz memory]
    exact hitem.append hruns
  · intro block hlt hnot
    have hneExit : block ≠ exit := fun heq => hnot (heq ▸ hregion.exit_mem)
    have hneEntry : block ≠ entry := fun heq => hnot (heq ▸ hregion.entry_mem)
    rw [hsame block hneEntry, hsurrounded.kept hregion hchained hpurged hlt hneExit]

end Peeling

theorem forkedKernel_reachable : forkedKernel.graph.Reachable 2 :=
  .tail (.single (show 1 ∈ forkedKernel.succs 0 by decide))
    (show 2 ∈ forkedKernel.succs 1 by decide)

end Pocl.WorkitemLoops
