import Pocl.RegionInsertions
import Pocl.WorkitemLoopsItems

/-!
# The loops of one region

A region of kernel code is a section that runs one path through its code.  Its copies are
sections with the same description.  The copies that are chained behind a region to unroll
the innermost loop and the copy that the loops of a peeled region go around can therefore be
surrounded by loops, like the region itself.
-/

namespace Pocl.WorkitemLoops

open CodeSections

/-- The code on a way through a region up to the end of its last block. -/
inductive CodePath (func : Func) (nodes : Set BlockId) (last : BlockId) :
    BlockId → List BlockId → Prop
  | last : last ∈ nodes → CodePath func nodes last last (func.body last).code.toList
  | step {block next : BlockId} {path : List BlockId} :
      block ∈ nodes → block ≠ last → next ∈ func.succs block →
        CodePath func nodes last next path →
          CodePath func nodes last block ((func.body block).code.toList ++ path)

def blocksOf (region : ParallelRegion) : Set BlockId :=
  {block | block ∈ region.blocks}

/-- The blocks of a region and all blocks that are made later. -/
def regionOnly (func : Func) (region : ParallelRegion) : Set BlockId :=
  {block | block ∈ region.blocks ∨ func.freshBlock ≤ block}

/-- A region of a function, with what a pass through it does. -/
structure CodeRegion
    (allowed : Set BlockId) (func : Func) (region : ParallelRegion)
    (entry exit target : BlockId) (spec : Spec) : Prop where
  wellFormed : func.WellFormed
  nodup : region.blocks.Nodup
  entryBB : region.entryBB = some entry
  exitBB : region.exitBB = some exit
  lt : ∀ block ∈ region.blocks, block < func.freshBlock
  exit_succs : func.succs exit = [target]
  target_notMem : target ∉ region.blocks
  isSection : func.machine.Section allowed (blocksOf region) entry exit spec
  new_allowed : ∀ block, func.freshBlock ≤ block → block ∈ allowed
  entered : func.graph.EnteredAt (blocksOf region) entry

/-- A region of the kernel before any loop is made around it.  As the entries of regions come
directly behind barriers, no block of the region goes back to the entry. -/
structure KernelRegion
    (func : Func) (region : ParallelRegion) (entry exit target : BlockId) : Prop where
  wellFormed : func.WellFormed
  nodup : region.blocks.Nodup
  entryBB : region.entryBB = some entry
  exitBB : region.exitBB = some exit
  lt : ∀ block ∈ region.blocks, block < func.freshBlock
  kernelCode : ∀ block ∈ region.blocks, (func.body block).stores = [] ∧
    ∃ succs, (func.body block).term = .branch succs
  exit_succs : func.succs exit = [target]
  target_notMem : target ∉ region.blocks
  forwards : ∀ block ∈ region.blocks, entry ∉ func.succs block
  entered : func.graph.EnteredAt (blocksOf region) entry

/-- The ways through a region. -/
def pathsOf (func : Func) (region : ParallelRegion) (entry exit : BlockId) :
    List BlockId → Prop :=
  CodePath func (blocksOf region) exit entry

section Paths

variable {func : Func} {region : ParallelRegion} {entry exit target : BlockId}

theorem KernelRegion.entry_mem (hregion : KernelRegion func region entry exit target) :
    entry ∈ region.blocks :=
  List.mem_of_getElem? hregion.entryBB

theorem KernelRegion.exit_mem (hregion : KernelRegion func region entry exit target) :
    exit ∈ region.blocks :=
  List.mem_of_getElem? hregion.exitBB

theorem KernelRegion.run
    (hregion : KernelRegion func region entry exit target) {block : BlockId}
    (hblock : block ∈ region.blocks) (memory : Memory) :
    func.machine.run block memory =
      ((func.body block).code.toList.map fun code => (code, memory.item), memory) := by
  simp [Func.machine, (hregion.kernelCode block hblock).1]

theorem KernelRegion.mem_succs
    (hregion : KernelRegion func region entry exit target) {block next : BlockId}
    (hblock : block ∈ region.blocks) {memory : Memory}
    (hnext : func.machine.next block memory next) : next ∈ func.succs block := by
  obtain ⟨succs, hterm⟩ := (hregion.kernelCode block hblock).2
  rw [Func.succs, hterm]
  exact (Func.next_iff_of_branch hterm).mp hnext

theorem KernelRegion.itemSpec_of_trail
    (hregion : KernelRegion func region entry exit target) {length : ℕ} {block : BlockId}
    {memory memory' : Memory} {trace : List Event}
    (htrail : func.machine.Trail (blocksOf region) exit length block memory trace memory') :
    memory' = memory ∧ ∃ path, CodePath func (blocksOf region) exit block path ∧
      trace = path.map fun code => (code, memory.item) := by
  induction htrail with
  | @last memory hlast =>
      rw [hregion.run hlast]
      exact ⟨rfl, _, .last hlast, rfl⟩
  | @step length block next memory memory' trace hblock hne hnext _ ih =>
      rw [hregion.run hblock] at hnext ih ⊢
      obtain ⟨rfl, path, hpath, rfl⟩ := ih
      refine ⟨rfl, _, .step hblock hne (hregion.mem_succs hblock hnext) hpath, ?_⟩
      rw [List.map_append]

theorem KernelRegion.codeRegion (hregion : KernelRegion func region entry exit target) :
    CodeRegion (regionOnly func region) func region entry exit target
      (itemSpec (pathsOf func region entry exit)) where
  wellFormed := hregion.wellFormed
  nodup := hregion.nodup
  entryBB := hregion.entryBB
  exitBB := hregion.exitBB
  lt := hregion.lt
  exit_succs := hregion.exit_succs
  target_notMem := hregion.target_notMem
  isSection := by
    refine ⟨fun block hblock => .inl hblock, hregion.entry_mem, hregion.exit_mem, ?_, ?_⟩
    · intro block hblock _ memory next hnext
      by_cases hmem : next ∈ region.blocks
      · exact .inl hmem
      · have hlt := hregion.wellFormed.succs_lt block next (hregion.mem_succs hblock hnext)
        exact .inr fun hallowed => hallowed.elim hmem (not_le.mpr hlt)
    · intro length memory trace memory' htrail
      obtain ⟨rfl, path, hpath, rfl⟩ := hregion.itemSpec_of_trail htrail
      exact ⟨.singleton hpath _, rfl⟩
  new_allowed _ hle := .inr hle
  entered := hregion.entered

theorem CodeRegion.surroundable
    {allowed : Set BlockId} {spec : Spec}
    (hregion : CodeRegion allowed func region entry exit target spec) :
    Surroundable allowed (blocksOf region) func entry exit target spec where
  wellFormed := hregion.wellFormed
  nodes_lt := hregion.lt
  new_allowed := hregion.new_allowed
  isSection := hregion.isSection
  exit_succs := hregion.exit_succs
  target_notMem := hregion.target_notMem
  entered := hregion.entered

end Paths

section Extensions

variable {func func' : Func} {nodes added : Set BlockId} {entry : BlockId}

/-- Changes inside a set of blocks that gets new ones. -/
theorem Func.WellFormed.extend
    (hfunc : func.WellFormed) (hentry : func'.entry = func.entry)
    (hle : func.freshBlock ≤ func'.freshBlock)
    (hlt : ∀ block ∈ nodes ∪ added, block < func'.freshBlock)
    (hkeep : ∀ block, block ∉ nodes ∪ added → func'.succs block = func.succs block)
    (hsuccs : ∀ block ∈ nodes ∪ added, ∀ next ∈ func'.succs block,
      next < func'.freshBlock) : func'.WellFormed where
  entry_lt := hentry ▸ lt_of_lt_of_le hfunc.entry_lt hle
  succs_lt block next hnext := by
    by_cases hmem : block ∈ nodes ∪ added
    · exact hsuccs block hmem next hnext
    · rw [hkeep block hmem] at hnext
      exact lt_of_lt_of_le (hfunc.succs_lt block next hnext) hle
  succs_fresh block hfresh := by
    have hnot : block ∉ nodes ∪ added := fun hmem => not_le.mpr (hlt block hmem) hfresh
    rw [hkeep block hnot]
    exact hfunc.succs_fresh block (hle.trans hfresh)

theorem enteredAt_extend
    (hentered : func.graph.EnteredAt nodes entry) (hfunc : func.WellFormed)
    (hentry : func'.entry = func.entry) (hadded : ∀ block ∈ added, func.freshBlock ≤ block)
    (hkeep : ∀ block, block ∉ nodes ∪ added → func'.succs block = func.succs block) :
    func'.graph.EnteredAt (nodes ∪ added) entry where
  entry_notMem := by
    change func'.entry ∉ nodes ∪ added
    rw [hentry]
    rintro (hmem | hmem)
    · exact hentered.entry_notMem hmem
    · exact not_le.mpr hfunc.entry_lt (hadded _ hmem)
  closed target htarget hne source hedge := by
    by_contra hnot
    have hsucc : target ∈ func.succs source := hkeep source hnot ▸ hedge
    rcases htarget with htarget | htarget
    · exact hnot (.inl (hentered.closed target htarget hne source hsucc))
    · exact not_le.mpr (hfunc.succs_lt source target hsucc) (hadded target htarget)

theorem run_eq_of_body {block block' : BlockId}
    (hstores : (func'.body block').stores = (func.body block).stores)
    (hcode : (func'.body block').code = (func.body block).code) :
    func'.machine.run block' = func.machine.run block := by
  funext memory
  simp only [Func.machine, hstores, hcode]

theorem next_of_map {block block' next' : BlockId} {f : BlockId → BlockId} {memory : Memory}
    (hterm : (func'.body block').term = (func.body block).term.map f)
    (hnext : func'.machine.next block' memory next') :
    ∃ next ∈ func.succs block, func.machine.next block memory next ∧ next' = f next := by
  cases hold : (func.body block).term with
  | unreachable => simp [Func.machine, hterm, hold, Term.map] at hnext
  | branch succs =>
      rw [hold, Term.map] at hterm
      obtain ⟨next, hmem, rfl⟩ := List.mem_map.mp ((Func.next_iff_of_branch hterm).mp hnext)
      refine ⟨next, ?_, (Func.next_iff_of_branch hold).mpr hmem, rfl⟩
      rwa [Func.succs, hold]
  | less dim size body finish =>
      rw [hold, Term.map] at hterm
      rw [Func.next_iff_of_less hterm] at hnext
      rcases hnext with ⟨hlt, rfl⟩ | ⟨hge, rfl⟩
      · refine ⟨body, ?_, (Func.next_iff_of_less hold).mpr (.inl ⟨hlt, rfl⟩), rfl⟩
        simp [Func.succs, hold, Term.succs]
      · refine ⟨finish, ?_, (Func.next_iff_of_less hold).mpr (.inr ⟨hge, rfl⟩), rfl⟩
        simp [Func.succs, hold, Term.succs]

end Extensions

section Increments

variable {allowed : Set BlockId} {func : Func} {region : ParallelRegion}
  {entry exit target : BlockId} {spec : Spec}

theorem CodeRegion.distinct
    (hregion : CodeRegion allowed func region entry exit target spec) :
    RegionInsertions.Distinct region :=
  ⟨hregion.nodup, (List.getElem?_eq_some_iff.mp hregion.entryBB).1,
    (List.getElem?_eq_some_iff.mp hregion.exitBB).1⟩

theorem CodeRegion.exit_mem
    (hregion : CodeRegion allowed func region entry exit target spec) : exit ∈ region.blocks :=
  hregion.isSection.exit_mem

theorem CodeRegion.entry_mem
    (hregion : CodeRegion allowed func region entry exit target spec) :
    entry ∈ region.blocks :=
  hregion.isSection.entry_mem

theorem incrementSpec_section
    {block : BlockId} {term : Term} (hallowed : block ∈ allowed)
    (hbody : func.body block = ⟨[.increment .x], none, false, term⟩) :
    func.machine.Section allowed {block} block block (incrementSpec .x) := by
  refine (Machine.Section.singleton hallowed).mono ?_
  rintro memory trace memory' ⟨rfl, rfl⟩
  rw [Func.run_of_body hbody]
  exact ⟨rfl, rfl⟩

/-- The block that increments the local id becomes the exit of the region. -/
theorem CodeRegion.appendIncBlock
    (hregion : CodeRegion allowed func region entry exit target spec)
    (hfront : region.entryIndex ≤ region.exitIndex) :
    ∃ func' region', appendIncBlock func exit .x = some (func', func.freshBlock) ∧
      setExitBB (addBlockAfter region func.freshBlock exit) func.freshBlock = some region' ∧
      (∀ block, block ∈ region'.blocks ↔ block ∈ region.blocks ∨ block = func.freshBlock) ∧
      func'.entry = func.entry ∧ func'.freshBlock = func.freshBlock + 1 ∧
      (∀ block < func.freshBlock, block ≠ exit → func'.body block = func.body block) ∧
      CodeRegion allowed func' region' entry func.freshBlock target
        (Machine.Sequence spec (incrementSpec .x)) := by
  have hexit := hregion.exit_mem
  have hexitLt := hregion.lt exit hexit
  have hnew : func.freshBlock ∉ region.blocks := fun hmem =>
    lt_irrefl _ (hregion.lt _ hmem)
  obtain ⟨func', happend, hentry, hfresh, hinc, hexitBody, hsame⟩ :=
    appendIncBlock_spec .x hregion.exit_succs hexitLt
  obtain ⟨region', hset, hexitBB, hentryBB⟩ :=
    RegionInsertions.setExitBB_addBlockAfter hregion.distinct hnew hregion.exitBB
  have hblocks : region'.blocks =
      region.blocks.insertIdx (region.blocks.idxOf exit + 1) func.freshBlock := by
    rw [← RegionInsertions.insertAfter_eq_insertIdx hexit]
    unfold setExitBB at hset
    split at hset
    · obtain rfl := Option.some.inj hset
      rfl
    · cases hset
  have hplace : region.blocks.idxOf exit + 1 ≤ region.blocks.length :=
    List.idxOf_lt_length_iff.mpr hexit
  have hmem : ∀ block, block ∈ region'.blocks ↔
      block ∈ region.blocks ∨ block = func.freshBlock := by
    intro block
    rw [hblocks, List.mem_insertIdx hplace, or_comm]
  have hset' : blocksOf region' = blocksOf region ∪ {func.freshBlock} :=
    Set.ext fun block => hmem block
  have hkeep : ∀ block, block ∉ blocksOf region ∪ {func.freshBlock} →
      func'.succs block = func.succs block := by
    intro block hnot
    have hne : block ≠ exit := fun heq => hnot (.inl (heq ▸ hexit))
    have hneFresh : block ≠ func.freshBlock := fun heq => hnot (.inr heq)
    rw [Func.succs, hsame block hne hneFresh, Func.succs]
  have htargetLt : target < func.freshBlock :=
    hregion.wellFormed.succs_lt exit target (by rw [hregion.exit_succs]; simp)
  have hincSuccs : func'.succs func.freshBlock = [target] := by rw [Func.succs, hinc]; rfl
  have hgrow : ∀ block, block < func.freshBlock → block < func'.freshBlock := fun block hlt =>
    hfresh ▸ Nat.lt_succ_of_lt hlt
  have hnewLt : func.freshBlock < func'.freshBlock := hfresh ▸ Nat.lt_succ_self _
  have hlt : ∀ block ∈ blocksOf region ∪ {func.freshBlock}, block < func'.freshBlock := by
    rintro block (hblock | rfl)
    · exact hgrow block (hregion.lt block hblock)
    · exact hnewLt
  have hwellFormed : func'.WellFormed := by
    refine hregion.wellFormed.extend hentry hnewLt.le hlt hkeep ?_
    intro block _ next hnext
    by_cases hinc : block = func.freshBlock
    · rw [hinc, hincSuccs, List.mem_singleton] at hnext
      exact hnext ▸ hgrow target htargetLt
    · by_cases hne : block = exit
      · rw [hne, Func.succs, hexitBody] at hnext
        exact (List.mem_singleton.mp hnext) ▸ hnewLt
      · rw [Func.succs, hsame block hne hinc] at hnext
        exact hgrow next (hregion.wellFormed.succs_lt block next hnext)
  have hfirst : func'.machine.Section allowed (blocksOf region) entry exit spec := by
    refine hregion.isSection.congr (fun block hblock => ?_) fun block hblock hne => ?_
    · by_cases hne : block = exit
      · rw [hne]
        exact Func.run_congr (by rw [hexitBody]) (by rw [hexitBody])
      · have hneFresh : block ≠ func.freshBlock := fun heq => hnew (heq ▸ hblock)
        exact Func.run_congr (by rw [hsame block hne hneFresh])
          (by rw [hsame block hne hneFresh])
    · have hneFresh : block ≠ func.freshBlock := fun heq => hnew (heq ▸ hblock)
      exact Func.next_congr (by rw [hsame block hne hneFresh])
  have hnext : ∀ memory next, func'.machine.next exit memory next → next = func.freshBlock := by
    intro memory next hedge
    exact List.mem_singleton.mp ((Func.next_iff_of_branch (by rw [hexitBody])).mp hedge)
  refine ⟨func', region', happend, hset, hmem, hentry, hfresh,
    fun block hlt hne => hsame block hne (Nat.ne_of_lt hlt), hwellFormed, ?_,
    ?_, hexitBB, ?_, hincSuccs, ?_, ?_, ?_, ?_⟩
  · rw [hblocks]
    exact (List.perm_insertIdx _ _ hplace).nodup_iff.mpr
      (List.nodup_cons.mpr ⟨hnew, hregion.nodup⟩)
  · exact (hentryBB.mpr hfront).trans hregion.entryBB
  · exact fun block hblock => hlt block ((hmem block).mp hblock)
  · intro hin
    rcases (hmem target).mp hin with hin | heq
    · exact hregion.target_notMem hin
    · exact Nat.ne_of_lt htargetLt heq
  · rw [hset']
    exact hfirst.append (incrementSpec_section (hregion.new_allowed _ le_rfl) hinc)
      (fun hin => hnew hin) hnext
  · exact fun block hle => hregion.new_allowed block (hnewLt.le.trans hle)
  · rw [hset']
    exact enteredAt_extend hregion.entered hregion.wellFormed hentry
      (fun block hblock => (Set.mem_singleton_iff.mp hblock).ge) hkeep

end Increments

section Copies

variable {allowed nodes : Set BlockId} {base func : Func} {region prev : ParallelRegion}
  {entry exit target last successor : BlockId} {spec unit : Spec}

/-- A region whose blocks are as they were, but its exit may go to another block outside. -/
structure Unchanged
    (base : Func) (region : ParallelRegion) (exit : BlockId) (func : Func) : Prop where
  fresh_le : base.freshBlock ≤ func.freshBlock
  same : ∀ block ∈ region.blocks, block ≠ exit → func.body block = base.body block
  exit_body : ∃ successor, successor ∉ region.blocks ∧
    func.body exit = { base.body exit with term := .branch [successor] }

theorem cloneOf_injOn (func : Func) (region : ParallelRegion) :
    Set.InjOn (cloneOf func region) (blocksOf region) := by
  intro block hblock other _ heq
  exact (List.idxOf_inj hblock).mp (Nat.add_left_cancel heq)

theorem cloneOf_lt {block : BlockId} (hblock : block ∈ region.blocks) :
    cloneOf func region block < (replicate func region).1.freshBlock :=
  Nat.add_lt_add_left (List.idxOf_lt_length_iff.mpr hblock) _

theorem image_cloneOf (hnodup : region.blocks.Nodup) :
    cloneOf func region '' blocksOf region =
      {block | func.freshBlock ≤ block ∧ block < (replicate func region).1.freshBlock} := by
  ext block
  constructor
  · rintro ⟨original, horiginal, rfl⟩
    exact ⟨le_cloneOf, cloneOf_lt horiginal⟩
  · rintro ⟨hle, hlt⟩
    obtain ⟨index, rfl⟩ := Nat.exists_eq_add_of_le hle
    have hindex : index < region.blocks.length := Nat.lt_of_add_lt_add_left hlt
    refine ⟨region.blocks[index], List.getElem_mem hindex, ?_⟩
    rw [cloneOf, hnodup.idxOf_getElem]

theorem Unchanged.section
    (hunchanged : Unchanged base region exit func)
    (hregion : CodeRegion allowed base region entry exit target unit) :
    func.machine.Section allowed (blocksOf region) entry exit unit := by
  obtain ⟨successor, -, hexit⟩ := hunchanged.exit_body
  refine hregion.isSection.congr (fun block hblock => ?_) fun block hblock hne => ?_
  · by_cases hne : block = exit
    · rw [hne]
      exact Func.run_congr (by rw [hexit]) (by rw [hexit])
    · rw [Func.run_congr] <;> rw [hunchanged.same block hblock hne]
  · exact Func.next_congr (by rw [hunchanged.same block hblock hne])

/-- The clones are a section like the region, in the function that only has them. -/
theorem Unchanged.replicate_section
    (hunchanged : Unchanged base region exit func)
    (hregion : CodeRegion allowed base region entry exit target unit) :
    (replicate func region).1.machine.Section allowed (cloneOf func region '' blocksOf region)
      (cloneOf func region entry) (cloneOf func region exit) unit := by
  have hsection := hunchanged.section hregion
  rw [← Set.union_empty (cloneOf func region '' blocksOf region)]
  refine hsection.image (cloneOf_injOn func region) ?_ ?_ ?_ ?_ ?_
  · rw [Set.union_empty]
    rintro _ ⟨block, -, rfl⟩
    exact hregion.new_allowed _ (hunchanged.fresh_le.trans le_cloneOf)
  · intro block hblock
    exact run_eq_of_body (by rw [replicate_clone hblock]) (by rw [replicate_clone hblock])
  · intro block hblock hne memory next' hedge
    have hterm : ((replicate func region).1.body (cloneOf func region block)).term =
        (func.body block).term.map fun target =>
          if target ∈ region.blocks then cloneOf func region target else target := by
      rw [replicate_clone hblock]
    obtain ⟨next, -, hnext, rfl⟩ := next_of_map hterm hedge
    rcases hsection.closed block hblock hne memory next hnext with hin | hout
    · exact .inl ⟨next, hin, if_pos hin, hnext⟩
    · have hnot : next ∉ region.blocks := fun hin => hout (hregion.isSection.subset hin)
      rw [if_neg hnot]
      exact .inr (.inr hout)
  · exact fun _ hnode => hnode.elim
  · exact fun hmem => hmem

/-- A copy of the region behind the block `last`, which went to `target`. -/
structure Chained
    (func : Func) (region : ParallelRegion) (entry exit last target : BlockId)
    (func' : Func) : Prop where
  entry_eq : func'.entry = func.entry
  fresh_eq : func'.freshBlock = (replicate func region).1.freshBlock
  last_body : func'.body last =
    { func.body last with term := .branch [cloneOf func region entry] }
  exit_body : func'.body (cloneOf func region exit) =
    { func.body exit with term := .branch [target] }
  clone_body : ∀ block ∈ region.blocks, block ≠ exit →
    func'.body (cloneOf func region block) = (replicate func region).1.body
      (cloneOf func region block)
  old : ∀ block < func.freshBlock, block ≠ last → func'.body block = func.body block
  rest : ∀ block, func'.freshBlock ≤ block → func'.body block = func.body block

theorem Unchanged.chained
    (hunchanged : Unchanged base region exit func)
    (hregion : CodeRegion allowed base region entry exit target unit)
    (hlast : last < func.freshBlock) (hsuccs : func.succs last = [target])
    (hprev : prev.exitBB = some last) :
    ∃ func', chainAfter (replicate func region).1 (replicate func region).2 prev =
        some func' ∧ Chained func region entry exit last target func' := by
  obtain ⟨successor, hsuccessor, hexitBody⟩ := hunchanged.exit_body
  have hexit := hregion.exit_mem
  obtain ⟨hentryRep, hcloneBody, hsameRep, hentryBB, hexitBB⟩ := @replicate_spec func region
  rw [hregion.entryBB, Option.map_some] at hentryBB
  rw [hregion.exitBB, Option.map_some] at hexitBB
  have hne : ∀ block, cloneOf func region block ≠ last := fun block heq =>
    not_le.mpr hlast (heq ▸ le_cloneOf)
  have hcloneExit : (replicate func region).1.body (cloneOf func region exit) =
      { base.body exit with term := .branch [successor] } := by
    rw [hcloneBody exit hexit, hexitBody]
    simp only [Term.map, List.map_singleton, if_neg hsuccessor]
  have hlastSuccs : (replicate func region).1.succs last = [target] := by
    rw [Func.succs, hsameRep last (.inl hlast)]
    exact hsuccs
  obtain ⟨func', hrun, hentry, hfresh, hlastBody, hexitBody', hsame⟩ :=
    chainAfter_spec hprev hlastSuccs hentryBB hexitBB
      (show (replicate func region).1.succs _ = [successor] by rw [Func.succs, hcloneExit]; rfl)
      (hne exit)
  refine ⟨func', hrun, hentry.trans hentryRep, hfresh, ?_, ?_, ?_, ?_, ?_⟩
  · rw [hlastBody, hsameRep last (.inl hlast)]
  · rw [hexitBody', hcloneExit, hexitBody]
  · intro block hblock hneExit
    exact hsame _ (hne block) fun heq =>
      hneExit (cloneOf_injOn func region hblock hexit heq)
  · intro block hlt hneLast
    have hneExit : block ≠ cloneOf func region exit := fun heq =>
      not_le.mpr hlt (heq ▸ le_cloneOf)
    rw [hsame block hneLast hneExit, hsameRep block (.inl hlt)]
  · intro block hle
    have hle' : (replicate func region).1.freshBlock ≤ block := hfresh ▸ hle
    have hneLast : block ≠ last := fun heq =>
      not_le.mpr (lt_of_lt_of_le hlast (Nat.le_add_right _ _)) (heq ▸ hle')
    have hneExit : block ≠ cloneOf func region exit := fun heq =>
      not_le.mpr (cloneOf_lt hexit) (heq ▸ hle')
    rw [hsame block hneLast hneExit, hsameRep block (.inr hle')]

section ChainedCopies

variable {func' : Func} (hchained : Chained func region entry exit last target func')
include hchained

theorem Chained.fresh_le : func.freshBlock ≤ func'.freshBlock :=
  hchained.fresh_eq ▸ Nat.le_add_right _ _

theorem Chained.newBlocks (hnodup : region.blocks.Nodup) :
    newBlocks func func' = cloneOf func region '' blocksOf region := by
  rw [image_cloneOf hnodup, WorkitemLoops.newBlocks, hchained.fresh_eq]

theorem Chained.succs_of_notMem
    {nodes : Set BlockId} (hlast : last ∈ nodes) {block : BlockId}
    (hnot : block ∉ nodes ∪ WorkitemLoops.newBlocks func func') :
    func'.succs block = func.succs block := by
  by_cases hlt : block < func.freshBlock
  · rw [Func.succs, hchained.old block hlt fun heq => hnot (.inl (heq ▸ hlast)), Func.succs]
  · have hge : func'.freshBlock ≤ block := not_lt.mp fun hlt' =>
      hnot (.inr ⟨not_lt.mp hlt, hlt'⟩)
    rw [Func.succs, hchained.rest block hge, Func.succs]

theorem Chained.succs_clone
    (hfunc : func.WellFormed) (htarget : target < func.freshBlock) {original : BlockId}
    (horiginal : original ∈ region.blocks) :
    ∀ next ∈ func'.succs (cloneOf func region original), next < func'.freshBlock := by
  intro next hnext
  by_cases heq : original = exit
  · rw [heq, Func.succs, hchained.exit_body] at hnext
    rw [List.mem_singleton.mp hnext]
    exact lt_of_lt_of_le htarget hchained.fresh_le
  · rw [Func.succs, hchained.clone_body original horiginal heq, replicate_clone horiginal,
      Term.succs_map] at hnext
    obtain ⟨old, hold, rfl⟩ := List.mem_map.mp hnext
    by_cases hin : old ∈ region.blocks
    · rw [if_pos hin, hchained.fresh_eq]
      exact cloneOf_lt hin
    · rw [if_neg hin]
      exact lt_of_lt_of_le (hfunc.succs_lt original old hold) hchained.fresh_le

theorem Chained.wellFormed
    (hfunc : func.WellFormed) (hregion : CodeRegion allowed base region entry exit target unit)
    (htarget : target < func.freshBlock) (hlast : last < func.freshBlock) :
    func'.WellFormed := by
  have hkeep : ∀ block, block ∉ {last} ∪ WorkitemLoops.newBlocks func func' →
      func'.succs block = func.succs block := fun block =>
    hchained.succs_of_notMem (Set.mem_singleton last)
  refine hfunc.extend hchained.entry_eq hchained.fresh_le ?_ hkeep ?_
  · rintro block (rfl | hblock)
    · exact lt_of_lt_of_le hlast hchained.fresh_le
    · exact hblock.2
  · rintro block (rfl | hblock) next hnext
    · rw [Func.succs, hchained.last_body] at hnext
      rw [List.mem_singleton.mp hnext, hchained.fresh_eq]
      exact cloneOf_lt hregion.entry_mem
    · rw [hchained.newBlocks hregion.nodup] at hblock
      obtain ⟨original, horiginal, rfl⟩ := hblock
      exact hchained.succs_clone hfunc htarget horiginal next hnext

/-- The clones of a chained copy are a section like the region. -/
theorem Chained.copy_section
    (hunchanged : Unchanged base region exit func)
    (hregion : CodeRegion allowed base region entry exit target unit) :
    func'.machine.Section allowed (cloneOf func region '' blocksOf region)
      (cloneOf func region entry) (cloneOf func region exit) unit := by
  refine (hunchanged.replicate_section hregion).congr ?_ ?_
  · rintro _ ⟨block, hblock, rfl⟩
    by_cases heq : block = exit
    · rw [heq]
      exact Func.run_congr (by rw [hchained.exit_body, replicate_clone hregion.exit_mem])
        (by rw [hchained.exit_body, replicate_clone hregion.exit_mem])
    · rw [Func.run_congr] <;> rw [hchained.clone_body block hblock heq]
  · rintro _ ⟨block, hblock, rfl⟩ hne
    exact Func.next_congr
      (by rw [hchained.clone_body block hblock fun heq => hne (congrArg _ heq)])

theorem Chained.unchanged
    (hunchanged : Unchanged base region exit func)
    (hregion : CodeRegion allowed base region entry exit target unit)
    (hlast : last ∈ region.blocks → last = exit) : Unchanged base region exit func' := by
  obtain ⟨successor, hsuccessor, hexitBody⟩ := hunchanged.exit_body
  have hlt : ∀ block ∈ region.blocks, block < func.freshBlock := fun block hblock =>
    lt_of_lt_of_le (hregion.lt block hblock) hunchanged.fresh_le
  refine ⟨hunchanged.fresh_le.trans hchained.fresh_le, fun block hblock hneExit => ?_, ?_⟩
  · have hneLast : block ≠ last := fun heq => hneExit (heq.trans (hlast (heq ▸ hblock)))
    rw [hchained.old block (hlt block hblock) hneLast, hunchanged.same block hblock hneExit]
  · by_cases heq : exit = last
    · refine ⟨cloneOf func region entry, fun hmem => ?_, ?_⟩
      · exact not_le.mpr (hlt _ hmem) le_cloneOf
      · rw [heq, hchained.last_body, ← heq, hexitBody]
    · refine ⟨successor, hsuccessor, ?_⟩
      rw [hchained.old exit (hlt exit hregion.exit_mem) heq, hexitBody]

/-- A section with a copy of the region behind it. -/
theorem Chained.surroundable
    (hunchanged : Unchanged base region exit func)
    (hregion : CodeRegion allowed base region entry exit target unit) {first : BlockId}
    (hchain : Surroundable allowed nodes func first last target spec) :
    Surroundable allowed (nodes ∪ WorkitemLoops.newBlocks func func') func' first
      (cloneOf func region exit) target (Machine.Sequence spec unit) := by
  have hlastMem := hchain.isSection.exit_mem
  have hlastLt := hchain.nodes_lt last hlastMem
  have hfirst : func'.machine.Section allowed nodes first last spec := by
    refine hchain.isSection.congr (fun block hblock => ?_) fun block hblock hneLast => ?_
    · by_cases heq : block = last
      · rw [heq]
        exact Func.run_congr (by rw [hchained.last_body]) (by rw [hchained.last_body])
      · rw [Func.run_congr] <;> rw [hchained.old block (hchain.nodes_lt block hblock) heq]
    · exact Func.next_congr
        (by rw [hchained.old block (hchain.nodes_lt block hblock) hneLast])
  have hcopy := hchained.copy_section hunchanged hregion
  rw [← hchained.newBlocks hregion.nodup] at hcopy
  refine ⟨hchained.wellFormed hchain.wellFormed hregion hchain.target_lt hlastLt, ?_,
    fun block hle => hchain.new_allowed block (hchained.fresh_le.trans hle), ?_, ?_, ?_, ?_⟩
  · rintro block (hblock | hblock)
    · exact lt_of_lt_of_le (hchain.nodes_lt block hblock) hchained.fresh_le
    · exact hblock.2
  · refine hfirst.append hcopy (fun hmem => not_le.mpr (hchain.nodes_lt _ hmem) le_cloneOf)
      fun memory next hedge => ?_
    exact List.mem_singleton.mp
      ((Func.next_iff_of_branch (by rw [hchained.last_body])).mp hedge)
  · rw [Func.succs, hchained.exit_body]
    rfl
  · rintro (hmem | hmem)
    · exact hchain.target_notMem hmem
    · exact not_le.mpr hchain.target_lt hmem.1
  · exact enteredAt_extend hchain.entered hchain.wellFormed hchained.entry_eq
      (fun block hblock => hblock.1) fun block => hchained.succs_of_notMem hlastMem

end ChainedCopies

theorem newBlocks_union {middle func' : Func} (hfirst : base.freshBlock ≤ middle.freshBlock)
    (hsecond : middle.freshBlock ≤ func'.freshBlock) :
    newBlocks base middle ∪ newBlocks middle func' = newBlocks base func' := by
  ext block
  constructor
  · rintro (⟨hle, hlt⟩ | ⟨hle, hlt⟩)
    · exact ⟨hle, lt_of_lt_of_le hlt hsecond⟩
    · exact ⟨hfirst.trans hle, hlt⟩
  · rintro ⟨hle, hlt⟩
    by_cases hmiddle : block < middle.freshBlock
    · exact .inl ⟨hle, hmiddle⟩
    · exact .inr ⟨not_lt.mp hmiddle, hlt⟩

/-- The copies that are chained behind a region, each with its increment. -/
theorem Unchanged.unrollRegion
    {paths : List BlockId → Prop}
    (hregion : CodeRegion allowed base region entry exit target (unrollSpec paths 0))
    (count : ℕ) :
    ∀ {done : ℕ} {func : Func} {prev : ParallelRegion} {last : BlockId},
      Unchanged base region exit func →
      Surroundable allowed (blocksOf region ∪ newBlocks base func) func entry last target
        (unrollSpec paths done) →
      (last ∈ region.blocks → last = exit) → prev.exitBB = some last →
      func.entry = base.entry →
      (∀ block < base.freshBlock, block ∉ region.blocks →
        func.body block = base.body block) →
      ∃ func' prev' last', unrollRegion region count func prev = some (func', prev') ∧
        prev'.exitBB = some last' ∧ func'.entry = base.entry ∧
        base.freshBlock ≤ func'.freshBlock ∧
        Surroundable allowed (blocksOf region ∪ newBlocks base func') func' entry last' target
          (unrollSpec paths (done + count)) ∧
        ∀ block < base.freshBlock, block ∉ region.blocks →
          func'.body block = base.body block := by
  induction count with
  | zero =>
      intro done func prev last hunchanged hchain _ hprev hentry houter
      exact ⟨func, prev, last, rfl, hprev, hentry, hunchanged.fresh_le, hchain, houter⟩
  | succ count ih =>
      intro done func prev last hunchanged hchain hlast hprev hentry houter
      obtain ⟨func', hrun, hchained⟩ := hunchanged.chained hregion
        (hchain.nodes_lt last hchain.isSection.exit_mem) hchain.exit_succs hprev
      have hexitBB : (replicate func region).2.exitBB = some (cloneOf func region exit) := by
        rw [replicate_exitBB, hregion.exitBB, Option.map_some]
      have hchain' : Surroundable allowed (blocksOf region ∪ newBlocks base func') func' entry
          (cloneOf func region exit) target (unrollSpec paths (done + 1)) := by
        have hcopied := hchained.surroundable hunchanged hregion hchain
        rw [Set.union_assoc, newBlocks_union hunchanged.fresh_le hchained.fresh_le] at hcopied
        exact hcopied
      have hlast' : cloneOf func region exit ∈ region.blocks →
          cloneOf func region exit = exit := fun hmem =>
        absurd (hunchanged.fresh_le.trans le_cloneOf) (not_le.mpr (hregion.lt _ hmem))
      have houter' : ∀ block < base.freshBlock, block ∉ region.blocks →
          func'.body block = base.body block := by
        intro block hlt hnot
        have hneLast : block ≠ last := by
          rintro rfl
          rcases hchain.isSection.exit_mem with hmem | hmem
          · exact hnot hmem
          · exact not_le.mpr hlt hmem.1
        rw [hchained.old block (lt_of_lt_of_le hlt hunchanged.fresh_le) hneLast,
          houter block hlt hnot]
      obtain ⟨func'', prev'', last'', hrun', hrest⟩ :=
        ih (hchained.unchanged hunchanged hregion hlast) hchain' hlast' hexitBB
          (hchained.entry_eq.trans hentry) houter'
      refine ⟨func'', prev'', last'', ?_, Nat.add_right_comm done 1 count ▸ hrest⟩
      simp only [WorkitemLoops.unrollRegion, hrun, Option.bind_eq_bind, Option.bind_some]
      exact hrun'

end Copies

section Loops

theorem Term.replaceUsesOfWith_idem (old new : BlockId) (term : Term) :
    (term.replaceUsesOfWith old new).replaceUsesOfWith old new =
      term.replaceUsesOfWith old new := by
  by_cases heq : new = old
  · rw [heq, Term.replaceUsesOfWith_self, Term.replaceUsesOfWith_self]
  · refine Term.replaceUsesOfWith_of_notMem fun hmem => ?_
    rcases Term.eq_or_mem_of_replaceUsesOfWith hmem with ⟨hnew, -⟩ | ⟨-, hne⟩
    · exact heq hnew.symm
    · exact hne rfl

/-- The loops in the place of a region. -/
structure Looped
    (sizes : LocalSizes) (func : Func) (region : ParallelRegion) (entry exit target : BlockId)
    (func' : Func) (nodes : Set BlockId) (first last : BlockId) : Prop where
  inside : ∀ block ∈ region.blocks, block ∈ nodes
  made : ∀ block ∈ nodes, block ∈ region.blocks ∨ func.freshBlock ≤ block
  first_mem : first ∈ nodes
  last_mem : last ∈ nodes
  leaves : func'.succs last = [target]
  stays : ∀ block ∈ nodes, block ≠ last → ∀ memory next,
    func'.machine.next block memory next →
      next ∈ nodes ∨ next < func.freshBlock ∧ next ∉ region.blocks
  runs : ∀ length memory trace memory', (sizes.x = 1 → memory.localId .x = 0) →
    (sizes.y = 1 → memory.localId .y = 0) → (sizes.z = 1 → memory.localId .z = 0) →
    func'.machine.Trail nodes last length first memory trace memory' →
      RunsItems (pathsOf func region entry exit) (localIds sizes) trace
  redirected : ∀ block < func.freshBlock, func.graph.AvoidsAll (blocksOf region) block →
    func'.body block =
      { func.body block with term := (func.body block).term.replaceUsesOfWith entry first }

variable {sizes : LocalSizes} {func around : Func} {region : ParallelRegion}
  {entry exit target last : BlockId} {nodes : Set BlockId} {spec : Spec}

/-- The ways around a region, in a function that changes the region only. -/
theorem avoidsAll_around
    (hfunc : func.WellFormed) (hentry : around.entry = func.entry)
    (houter : ∀ block < func.freshBlock, block ∉ region.blocks →
      around.body block = func.body block)
    (hnodes : ∀ block < func.freshBlock, block ∉ region.blocks → block ∉ nodes)
    {block : BlockId} (havoids : func.graph.AvoidsAll (blocksOf region) block) :
    block < func.freshBlock ∧ around.graph.AvoidsAll nodes block := by
  induction havoids with
  | entry hnot =>
      have hout : around.entry ∉ nodes := by
        rw [hentry]
        exact hnodes func.entry hfunc.entry_lt hnot
      have havoids : around.graph.AvoidsAll nodes around.entry := .entry hout
      rw [hentry] at havoids
      exact ⟨hfunc.entry_lt, havoids⟩
  | step hsource hedge hnot ih =>
      have hlt := hfunc.succs_lt _ _ hedge
      refine ⟨hlt, .step ih.2 ?_ (hnodes _ hlt hnot)⟩
      change _ ∈ (around.body _).term.succs
      rw [houter _ ih.1 hsource.notMem]
      exact hedge

/-- The loops around a region or around the copies chained behind it, when the predecessors in
`preds` are redirected at last. -/
theorem Surroundable.looped
    (unrolled : Bool) (hregion : KernelRegion func region entry exit target)
    (hbase : Surroundable (regionOnly func region) nodes around entry last target spec)
    (hrow : RowSpec (pathsOf func region entry exit) false sizes.x
      (optionalLoopSpec .x sizes.x false (!unrolled) spec))
    (hy : 1 ≤ sizes.y) (hz : 1 ≤ sizes.z) (hx : 1 ≤ sizes.x)
    (hentry : around.entry = func.entry)
    (hle : func.freshBlock ≤ around.freshBlock)
    (hinside : ∀ block ∈ region.blocks, block ∈ nodes)
    (hmade : ∀ block ∈ nodes, block ∈ region.blocks ∨ func.freshBlock ≤ block)
    (houter : ∀ block < func.freshBlock, block ∉ region.blocks →
      around.body block = func.body block)
    {preds : List BlockId}
    (hpreds : ∀ block ∈ preds, block < func.freshBlock ∧ block ∉ region.blocks)
    (dt : FlowGraph BlockId) :
    ∃ func' dt' nodes' first last',
      WorkitemLoops.createLoops sizes false unrolled (around, dt, entry, last) =
        some (func', dt', first, last') ∧
      Looped sizes func region entry exit target
        (func'.replaceUsesOfWith preds entry first) nodes' first last' := by
  obtain ⟨func', dt', first, last', hcreate, hsurrounded, -, -⟩ :=
    hbase.createLoops dt sizes false unrolled
  have hmade' : ∀ block ∈ nodes ∪ newBlocks around func',
      block ∈ region.blocks ∨ func.freshBlock ≤ block := by
    rintro block (hblock | hblock)
    · exact hmade block hblock
    · exact .inr (hle.trans hblock.1)
  have hsame : ∀ block ∈ nodes ∪ newBlocks around func',
      (func'.replaceUsesOfWith preds entry first).body block = func'.body block := by
    intro block hblock
    refine Func.replaceUsesOfWith_of_notMem _ fun hmem => ?_
    obtain ⟨hlt, hnot⟩ := hpreds block hmem
    exact (hmade' block hblock).elim hnot (not_le.mpr hlt)
  have hsection := hsurrounded.isSection.congr
    (fun block hblock => run_eq_of_body (by rw [hsame block hblock]) (by rw [hsame block hblock]))
    (fun block hblock _ => Func.next_congr (by rw [hsame block hblock]))
  refine ⟨func', dt', nodes ∪ newBlocks around func', first, last', hcreate,
    fun block hblock => .inl (hinside block hblock), hmade', hsection.entry_mem,
    hsection.exit_mem, ?_, ?_, ?_, ?_⟩
  · rw [Func.succs, hsame last' hsection.exit_mem]
    exact hsurrounded.last_succs
  · intro block hblock hne memory next hnext
    refine (hsection.closed block hblock hne memory next hnext).imp_right fun hout => ?_
    exact ⟨not_le.mp fun hge => hout (.inr hge), fun hmem => hout (.inl hmem)⟩
  · intro length memory trace memory' honeX honeY honeZ htrail
    have hskip : skipOf false sizes.x memory = 0 := rfl
    have hready : NestReady false sizes memory :=
      ⟨⟨honeX, hskip ▸ hx⟩, honeY, honeZ⟩
    have hruns := hrow.loops hy hz hready (hsection.meets length memory trace memory' htrail)
    rwa [hskip, List.drop_zero] at hruns
  · intro block hlt havoids
    have hnot := havoids.notMem
    have havoids' := (avoidsAll_around hregion.wellFormed hentry houter
      (fun block hlt hnot hmem => (hmade block hmem).elim hnot (not_le.mpr hlt)) havoids).2
    have hbody := hsurrounded.around block (lt_of_lt_of_le hlt hle) havoids'
    rw [houter block hlt hnot] at hbody
    by_cases hmem : block ∈ preds
    · rw [Func.replaceUsesOfWith_of_mem _ hmem, hbody, Term.replaceUsesOfWith_idem]
    · rw [Func.replaceUsesOfWith_of_notMem _ hmem, hbody]

theorem halveUnrollCount_suits (localSizeX rounds count : ℕ) (hle : count ≤ rounds) :
    halveUnrollCount localSizeX rounds count = 0 ∨
      halveUnrollCount localSizeX rounds count ∣ localSizeX ∧
        halveUnrollCount localSizeX rounds count ≤ localSizeX := by
  induction rounds generalizing count with
  | zero => exact .inl (Nat.le_zero.mp hle)
  | succ rounds ih =>
      rw [halveUnrollCount]
      split_ifs with hzero hsuits
      · exact .inl rfl
      · exact .inr ⟨Nat.dvd_of_mod_eq_zero hsuits.1, hsuits.2⟩
      · exact ih (count / 2) (by omega)

theorem unrollCount_suits {localSizeX : ℕ} {max : Option ℤ}
    (hlt : 1 < unrollCount localSizeX max) :
    unrollCount localSizeX max ∣ localSizeX ∧ unrollCount localSizeX max ≤ localSizeX :=
  (halveUnrollCount_suits localSizeX _ _ le_rfl).resolve_left
    (Nat.ne_of_gt (Nat.zero_lt_of_lt hlt))

theorem KernelRegion.outerPreds
    {state : State} (hregion : KernelRegion state.func region entry exit target) :
    ∀ block ∈ outerPreds state entry,
      block < state.func.freshBlock ∧ block ∉ region.blocks := by
  intro block hblock
  have hpred := (Func.mem_preds state.func).mp (List.mem_filter.mp hblock).1
  exact ⟨hpred.1, fun hmem => hregion.forwards block hmem hpred.2⟩

/-- The innermost loop goes around the region itself. -/
theorem KernelRegion.loopOnce
    {state : State} (hregion : KernelRegion state.func region entry exit target)
    (hx : 1 ≤ sizes.x) (hy : 1 ≤ sizes.y) (hz : 1 ≤ sizes.z) :
    ∃ func' dt' nodes first last,
      createLoops sizes false false (state.func, state.dt, entry, exit) =
        some (func', dt', first, last) ∧
      Looped sizes state.func region entry exit target
        (func'.replaceUsesOfWith (WorkitemLoops.outerPreds state entry) entry first)
        nodes first last :=
  hregion.codeRegion.surroundable.looped false hregion (itemSpec_rows false hx) hy hz hx rfl le_rfl
    (fun _ hblock => hblock) (fun _ hblock => .inl hblock) (fun _ _ _ => rfl)
    hregion.outerPreds state.dt

/-- The innermost loop goes around copies that are chained behind the region. -/
theorem KernelRegion.loopUnrolled
    {state : State} (hregion : KernelRegion state.func region entry exit target)
    (hfront : region.entryIndex ≤ region.exitIndex) {count : ℕ} (hx : 1 < sizes.x)
    (hdvd : count + 1 ∣ sizes.x) (hy : 1 ≤ sizes.y) (hz : 1 ≤ sizes.z) :
    ∃ func₁ region₁ func₂ prev last func' dt' nodes first last',
      appendIncBlock state.func exit .x = some (func₁, state.func.freshBlock) ∧
      setExitBB (addBlockAfter region state.func.freshBlock exit) state.func.freshBlock =
        some region₁ ∧
      unrollRegion region₁ count func₁ region₁ = some (func₂, prev) ∧
      region₁.entryBB = some entry ∧ prev.exitBB = some last ∧
      createLoops sizes false true (func₂, state.dt, entry, last) =
        some (func', dt', first, last') ∧
      Looped sizes state.func region entry exit target
        (func'.replaceUsesOfWith (WorkitemLoops.outerPreds state entry) entry first)
        nodes first last' := by
  obtain ⟨func₁, region₁, happend, hset, hmem, hentry, hfresh, hsame, hregion₁⟩ :=
    hregion.codeRegion.appendIncBlock hfront
  have hunchanged : Unchanged func₁ region₁ state.func.freshBlock func₁ := by
    refine ⟨le_rfl, fun _ _ _ => rfl, target, hregion₁.target_notMem, ?_⟩
    rw [← Term.eq_branch_of_succs hregion₁.exit_succs]
  have hnew : newBlocks func₁ func₁ = ∅ := by
    ext block
    simp [newBlocks]
  have hbase : Surroundable (regionOnly state.func region)
      (blocksOf region₁ ∪ newBlocks func₁ func₁) func₁ entry state.func.freshBlock target
      (unrollSpec (pathsOf state.func region entry exit) 0) := by
    rw [hnew, Set.union_empty]
    exact hregion₁.surroundable
  obtain ⟨func₂, prev, last, hunroll, hprev, hentry₂, hle, hchain, houter⟩ :=
    hunchanged.unrollRegion hregion₁ count hbase (fun _ => rfl) hregion₁.exitBB rfl
      fun _ _ _ => rfl
  rw [Nat.zero_add] at hchain
  have hgrow : state.func.freshBlock ≤ func₁.freshBlock := hfresh ▸ Nat.le_succ _
  have hkept : ∀ block < state.func.freshBlock, block ∉ region.blocks →
      func₂.body block = state.func.body block := by
    intro block hlt hnot
    have hnot₁ : block ∉ region₁.blocks := fun hin =>
      ((hmem block).mp hin).elim hnot (Nat.ne_of_lt hlt)
    rw [houter block (lt_of_lt_of_le hlt hgrow) hnot₁, hsame block hlt fun heq =>
      hnot (heq ▸ hregion.exit_mem)]
  have hmade : ∀ block ∈ blocksOf region₁ ∪ newBlocks func₁ func₂,
      block ∈ region.blocks ∨ state.func.freshBlock ≤ block := by
    rintro block (hblock | hblock)
    · exact ((hmem block).mp hblock).imp_right Eq.ge
    · exact .inr (hgrow.trans hblock.1)
  obtain ⟨func', dt', nodes, first, last', hcreate, hlooped⟩ :=
    hchain.looped true hregion (unrollSpec_rows hx hdvd) hy hz hx.le (hentry₂.trans hentry)
      (hgrow.trans hle) (fun block hblock => .inl ((hmem block).mpr (.inl hblock))) hmade hkept
      hregion.outerPreds state.dt
  exact ⟨func₁, region₁, func₂, prev, last, func', dt', nodes, first, last', happend, hset,
    hunroll, hregion₁.entryBB, hprev, hcreate, hlooped⟩

/-- Two regions begin at the block 1, and the one with the block 2 goes on to the barrier 3. -/
def forkedKernel : Func where
  entry := 0
  body
    | 0 => ⟨[], none, true, .branch [1]⟩
    | 1 => ⟨[], some 1, false, .branch [2, 4]⟩
    | 2 => ⟨[], some 2, false, .branch [3]⟩
    | 4 => ⟨[], some 4, false, .branch [3]⟩
    | _ => ⟨[], none, true, .branch []⟩
  freshBlock := 5

def forkedRegion : ParallelRegion :=
  ⟨[1, 2], 1, 0, fun _ => 0⟩

def forkedState : State :=
  ⟨forkedKernel, forkedKernel.graph, [forkedRegion, ⟨[1, 4], 1, 0, fun _ => 0⟩]⟩

theorem forkedKernel_wellFormed : forkedKernel.WellFormed where
  entry_lt := by decide
  succs_lt block target htarget := by
    have hcheck : ∀ block < 5, ∀ target ∈ forkedKernel.succs block, target < 5 := by decide
    rcases Nat.lt_or_ge block 5 with hlt | hge
    · exact hcheck block hlt target htarget
    · obtain ⟨rest, rfl⟩ := Nat.exists_eq_add_of_le' hge
      cases htarget
  succs_fresh block hle := by
    obtain ⟨rest, rfl⟩ := Nat.exists_eq_add_of_le' hle
    rfl

theorem forkedRegion_isRegion : KernelRegion forkedKernel forkedRegion 1 2 3 where
  wellFormed := forkedKernel_wellFormed
  nodup := by decide
  entryBB := rfl
  exitBB := rfl
  lt := by decide
  kernelCode block hblock := by
    rcases List.mem_pair.mp hblock with rfl | rfl
    · exact ⟨rfl, _, rfl⟩
    · exact ⟨rfl, _, rfl⟩
  exit_succs := rfl
  target_notMem := by decide
  forwards := by decide
  entered := by
    refine ⟨show (0 : BlockId) ∉ [1, 2] by decide, fun target htarget hne source hedge => ?_⟩
    have hcheck : ∀ source < 5, ∀ target ∈ forkedRegion.blocks, target ≠ 1 →
        target ∈ forkedKernel.succs source → source ∈ forkedRegion.blocks := by decide
    exact hcheck source (forkedKernel_wellFormed.lt_of_mem hedge) target htarget hne hedge

end Loops

end Pocl.WorkitemLoops
