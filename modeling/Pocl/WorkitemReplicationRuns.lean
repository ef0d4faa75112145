import Pocl.WorkitemReplicationCopies

/-!
# Whole runs of the work-item replication pass

All copies are made before the first one is linked, so the value map of a work-item has the
copies of all regions by then.  Linking a copy maps its operands once more.  After that it
changes only where control goes, and puts the stores of the local id into the entry.
-/

namespace Pocl

namespace WorkitemReplication

open ParallelRegion

section Items

theorem range_flatMap_range (outer inner base : ℕ) :
    (List.range outer).flatMap (fun i => (List.range inner).map fun j => base + inner * i + j) =
      (List.range (outer * inner)).map fun index => base + index := by
  induction outer with
  | zero => simp
  | succ outer ih =>
      rw [List.range_succ, List.flatMap_append, ih, Nat.succ_mul, List.range_add,
        List.map_append, List.flatMap_singleton, List.map_map]
      congr 1
      refine List.map_congr_left fun j _ => ?_
      simp only [Function.comp_apply]
      rw [Nat.mul_comm inner outer, Nat.add_assoc]

/-- The work-items are taken in the order of their indices. -/
theorem workItems_index (sizeX sizeY sizeZ : ℕ) :
    (workItems sizeX sizeY sizeZ).map (workItemIndex sizeX sizeY) =
      List.range (sizeX * sizeY * sizeZ) := by
  have hrow : ∀ z, ((List.range sizeY).flatMap fun y =>
      (List.range sizeX).map fun x => workItemIndex sizeX sizeY (x, y, z)) =
        (List.range (sizeY * sizeX)).map fun index => sizeY * sizeX * z + index := by
    intro z
    rw [← range_flatMap_range]
    rfl
  have hplanes := range_flatMap_range sizeZ (sizeY * sizeX) 0
  simp only [Nat.zero_add, List.map_id'] at hplanes
  rw [Nat.mul_comm sizeX sizeY, Nat.mul_comm _ sizeZ, ← hplanes]
  simp only [workItems, List.map_flatMap, List.map_map, Function.comp_def, hrow]

end Items

section Replicating

variable {module : ModuleValues} {func : Func} {regions : List ParallelRegion}
  {item count : ℕ} {state : State} {copies : ℕ → ℕ → Copy}

/-- Before the first copy is made. -/
def startState (func : Func) (regions : List ParallelRegion) : State :=
  ⟨func, fun _ => .empty, fun index => if index = 0 then regions else []⟩

theorem not_done_start {other index : ℕ} : ¬ Done 1 0 other index := by
  rintro ⟨hpos, hlt | ⟨-, hlt⟩⟩
  · exact Nat.not_lt.mpr hpos hlt
  · exact Nat.not_lt_zero _ hlt

theorem Replicating.start (copies : ℕ → ℕ → Copy) :
    Replicating module func regions 1 0 (startState func regions) copies where
  localized := ⟨rfl, fun _ _ => .refl _⟩
  freshBlock_le := le_rfl
  freshValue_le := le_rfl
  regions_zero := rfl
  regions_length other hother := by
    have hne : other ≠ 0 := Nat.one_le_iff_ne_zero.mp hother
    have hlt : ¬ other < 1 := Nat.not_lt.mpr hother
    simp [startState, hne, hlt]
  regions_get _ _ _ hdone := (not_done_start hdone).elim
  block_range _ _ _ hdone := (not_done_start hdone).elim
  block_injective _ _ _ _ _ _ hdone := (not_done_start hdone).elim
  value_range _ _ _ hdone := (not_done_start hdone).elim
  value_injective _ _ _ _ _ _ hdone := (not_done_start hdone).elim
  body _ _ _ hdone := (not_done_start hdone).elim
  values_some other key value hvalue := by cases hvalue
  values_defined _ _ _ hdone := (not_done_start hdone).elim
  blocks_some other key block hblock := by cases hblock

theorem definedIn_nodup (hvalid : Valid module func regions) {region : ParallelRegion}
    (hregion : region ∈ regions) : (definedIn func region.blocks).Nodup := by
  obtain ⟨hself, hpairs⟩ := List.nodup_flatMap.mp hvalid.values_nodup
  have hblocks := hvalid.regions region hregion
  refine List.nodup_flatMap.mpr ⟨fun block hblock => hself block (hblocks.mem_order block hblock),
    ?_⟩
  refine hblocks.nodup.imp_of_mem fun {first second} hfirst hsecond hne => ?_
  have hsymm : Std.Symm (Function.onFun List.Disjoint fun block => blockValues (func.body block)) :=
    ⟨fun _ _ hdisjoint => hdisjoint.symm⟩
  exact hpairs.forall (hblocks.mem_order first hfirst) (hblocks.mem_order second hsecond) hne

/-- A copy of the next region for the work-item. -/
theorem Replicating.replicateRegion
    (hstate : Replicating module func regions item count state copies)
    (hvalid : Valid module func regions) (hitem : 1 ≤ item) {region : ParallelRegion}
    (hregion : regions[count]? = some region) :
    ∃ later, Replicating module func regions item (count + 1)
      (replicateRegion module item state region) later := by
  have hmem := List.mem_of_getElem? hregion
  have hblocks := hvalid.regions region hmem
  have horder := hstate.localized.order_eq
  have hdefined := hstate.localized.definedIn_eq hblocks.mem_order
  obtain ⟨after, mapAfter, clone, copy, hrun, hreplicates⟩ :=
    @replicate_spec module state.func region (state.referenceMap item) hblocks.nodup
      (fun block hblock => lt_of_lt_of_le
        (hvalid.blocks.bound block (horder ▸ hblock)) hstate.freshBlock_le)
      (fun block hblock => horder ▸ hblocks.mem_order block hblock)
      (hdefined ▸ definedIn_nodup hvalid hmem)
  refine ⟨addCopy copies item count copy, ?_⟩
  rw [WorkitemReplication.replicateRegion, hrun]
  exact hstate.step hvalid hitem hregion hreplicates

theorem Replicating.foldl_replicateRegion
    (hvalid : Valid module func regions) (hitem : 1 ≤ item) (rest : List ParallelRegion) :
    ∀ {count : ℕ} {state : State} {copies : ℕ → ℕ → Copy},
      Replicating module func regions item count state copies → regions.drop count = rest →
        ∃ later, Replicating module func regions item (count + rest.length)
          (rest.foldl (WorkitemReplication.replicateRegion module item) state) later := by
  induction rest with
  | nil => exact fun hstate _ => ⟨_, hstate⟩
  | cons region rest ih =>
      intro count state copies hstate hrest
      have hregion : regions[count]? = some region := by
        rw [← List.head?_drop, hrest, List.head?_cons]
      obtain ⟨later, hnext⟩ := hstate.replicateRegion hvalid hitem hregion
      have hdrop : regions.drop (count + 1) = rest := by
        rw [← List.tail_drop, hrest, List.tail_cons]
      rw [List.length_cons, Nat.add_comm rest.length 1, ← Nat.add_assoc]
      exact ih hnext hdrop

theorem Done.next {other index : ℕ} (hdone : Done item count other index) :
    Done (item + 1) 0 other index := by
  obtain ⟨hpos, hlt | ⟨rfl, -⟩⟩ := hdone
  · exact ⟨hpos, .inl (Nat.lt_succ_of_lt hlt)⟩
  · exact ⟨hpos, .inl (Nat.lt_succ_self _)⟩

theorem Done.of_next {other index : ℕ} (hdone : Done (item + 1) 0 other index)
    (hindex : index < count) : Done item count other index := by
  obtain ⟨hpos, hlt | ⟨-, hlt⟩⟩ := hdone
  · rcases Nat.lt_succ_iff_lt_or_eq.mp hlt with hlt | heq
    · exact ⟨hpos, .inl hlt⟩
    · exact ⟨hpos, .inr ⟨heq, hindex⟩⟩
  · exact (Nat.not_lt_zero _ hlt).elim

theorem HasBlock.index_lt {index : ℕ} {block : BlockId}
    (hblock : HasBlock regions index block) : index < regions.length := by
  obtain ⟨region, hregion, -⟩ := hblock
  exact (List.getElem?_eq_some_iff.mp hregion).1

theorem Defines.index_lt {index : ℕ} {value : ValueId}
    (hvalue : Defines func regions index value) : index < regions.length := by
  obtain ⟨region, hregion, -⟩ := hvalue
  exact (List.getElem?_eq_some_iff.mp hregion).1

/-- A work-item with copies of all regions. -/
theorem Replicating.nextItem
    (hstate : Replicating module func regions item regions.length state copies) :
    Replicating module func regions (item + 1) 0 state copies where
  localized := hstate.localized
  freshBlock_le := hstate.freshBlock_le
  freshValue_le := hstate.freshValue_le
  regions_zero := hstate.regions_zero
  regions_length other hother := by
    rw [hstate.regions_length other hother]
    rcases Nat.lt_trichotomy other item with hlt | heq | hgt
    · rw [if_pos hlt, if_pos (Nat.lt_succ_of_lt hlt)]
    · rw [if_neg (Nat.not_lt.mpr heq.ge), if_pos heq, if_pos (Nat.lt_succ_of_le heq.le)]
    · rw [if_neg (Nat.not_lt.mpr hgt.le), if_neg (Nat.ne_of_gt hgt),
        if_neg (Nat.not_lt.mpr hgt)]
      split <;> rfl
  regions_get other index region hdone hregion :=
    hstate.regions_get other index region
      (hdone.of_next (List.getElem?_eq_some_iff.mp hregion).1) hregion
  block_range other index block hdone hblock :=
    hstate.block_range other index block (hdone.of_next hblock.index_lt) hblock
  block_injective other index block other' index' block' hdone hblock hdone' hblock' :=
    hstate.block_injective other index block other' index' block'
      (hdone.of_next hblock.index_lt) hblock (hdone'.of_next hblock'.index_lt) hblock'
  value_range other index value hdone hvalue :=
    hstate.value_range other index value (hdone.of_next hvalue.index_lt) hvalue
  value_injective other index value other' index' value' hdone hvalue hdone' hvalue' :=
    hstate.value_injective other index value other' index' value'
      (hdone.of_next hvalue.index_lt) hvalue (hdone'.of_next hvalue'.index_lt) hvalue'
  body other index block hdone hblock :=
    (hstate.body other index block (hdone.of_next hblock.index_lt) hblock).mono
      (fun _ _ hresolved => hresolved.mono rfl fun _ hsource => ⟨hsource.next, rfl⟩)
      (fun _ _ hcopied => hcopied)
  values_some other key value hvalue := by
    obtain ⟨index, hdone, hrest⟩ := hstate.values_some other key value hvalue
    exact ⟨index, hdone.next, hrest⟩
  values_defined other index key hdone hvalue :=
    hstate.values_defined other index key (hdone.of_next hvalue.index_lt) hvalue
  blocks_some other key block hblock := by
    obtain ⟨index, hdone, hrest⟩ := hstate.blocks_some other key block hblock
    exact ⟨index, hdone.next, hrest⟩

theorem Replicating.replicateRegions
    (hstate : Replicating module func regions item 0 state copies)
    (hvalid : Valid module func regions) (hitem : 1 ≤ item) :
    ∃ later, Replicating module func regions (item + 1) 0
      (replicateRegions module regions state item) later := by
  obtain ⟨later, hnext⟩ :=
    Replicating.foldl_replicateRegion hvalid hitem regions hstate List.drop_zero
  rw [Nat.zero_add] at hnext
  rw [WorkitemReplication.replicateRegions, if_neg (Nat.one_le_iff_ne_zero.mp hitem)]
  exact ⟨later, hnext.nextItem⟩

/-- The first triple loop. -/
def replicateAll
    (module : ModuleValues) (sizeX sizeY sizeZ : ℕ) (func : Func)
    (regions : List ParallelRegion) : State :=
  (workItems sizeX sizeY sizeZ).foldl
    (fun state item =>
      WorkitemReplication.replicateRegions module regions state (workItemIndex sizeX sizeY item))
    (startState func regions)

theorem replicateAll_eq (module : ModuleValues) (sizeX sizeY sizeZ : ℕ) (func : Func)
    (regions : List ParallelRegion) :
    replicateAll module sizeX sizeY sizeZ func regions =
      (List.range (sizeX * sizeY * sizeZ)).foldl
        (WorkitemReplication.replicateRegions module regions) (startState func regions) := by
  rw [← workItems_index, List.foldl_map]
  rfl

theorem exists_replicating_range (hvalid : Valid module func regions) (total : ℕ) :
    ∃ copies, Replicating module func regions (total + 1) 0
      ((List.range (total + 1)).foldl
        (WorkitemReplication.replicateRegions module regions) (startState func regions))
      copies := by
  induction total with
  | zero => exact ⟨fun _ _ => ⟨id, id⟩, .start _⟩
  | succ total ih =>
      obtain ⟨copies, hstate⟩ := ih
      rw [List.range_succ, List.foldl_append]
      exact hstate.replicateRegions hvalid (Nat.succ_pos total)

/-- Every work-item but the first has copies of all regions. -/
theorem exists_replicating (hvalid : Valid module func regions) {sizeX sizeY sizeZ : ℕ}
    (hsizes : 0 < sizeX * sizeY * sizeZ) :
    ∃ copies, Replicating module func regions (sizeX * sizeY * sizeZ) 0
      (replicateAll module sizeX sizeY sizeZ func regions) copies := by
  rw [replicateAll_eq]
  obtain ⟨total, htotal⟩ := Nat.exists_eq_add_of_le' hsizes
  rw [htotal]
  exact exists_replicating_range hvalid total

end Replicating

section Edits

variable {module : ModuleValues} {before middle after func : Func} {region : ParallelRegion}
  {touched : Set BlockId}

/-- The instructions and the operands are those of the first block, but for stores of local
ids. -/
structure Keeps (module : ModuleValues) (first second : Block) : Prop where
  term_id : second.term.id = first.term.id
  opcode : second.term.opcode = first.term.opcode
  operands : second.term.operands = first.term.operands
  instrs : first.instrs.Sublist second.instrs
  stores : ∀ instr ∈ second.instrs, instr ∈ first.instrs ∨
    ∃ id dim value, instr = storeLocalId module id dim value

theorem Keeps.refl (content : Block) : Keeps module content content :=
  ⟨rfl, rfl, rfl, .refl _, fun _ hinstr => .inl hinstr⟩

theorem Keeps.trans {first second third : Block} (hfirst : Keeps module first second)
    (hsecond : Keeps module second third) : Keeps module first third where
  term_id := hsecond.term_id.trans hfirst.term_id
  opcode := hsecond.opcode.trans hfirst.opcode
  operands := hsecond.operands.trans hfirst.operands
  instrs := hfirst.instrs.trans hsecond.instrs
  stores instr hinstr := by
    rcases hsecond.stores instr hinstr with hmem | hstore
    · exact hfirst.stores instr hmem
    · exact .inr hstore

/-- Changes of some blocks that keep their code. -/
structure Edits (module : ModuleValues) (touched : Set BlockId) (before after : Func) :
    Prop where
  fresh_le : before.freshBlock ≤ after.freshBlock
  keeps : ∀ block < before.freshBlock, Keeps module (before.body block) (after.body block)
  same : ∀ block < before.freshBlock, block ∉ touched → after.body block = before.body block

theorem Edits.refl (func : Func) : Edits module touched func func :=
  ⟨le_rfl, fun _ _ => .refl _, fun _ _ _ => rfl⟩

theorem Edits.trans (hfirst : Edits module touched before middle)
    (hsecond : Edits module touched middle after) : Edits module touched before after where
  fresh_le := hfirst.fresh_le.trans hsecond.fresh_le
  keeps block hlt :=
    (hfirst.keeps block hlt).trans (hsecond.keeps block (lt_of_lt_of_le hlt hfirst.fresh_le))
  same block hlt hnot := by
    rw [hsecond.same block (lt_of_lt_of_le hlt hfirst.fresh_le) hnot,
      hfirst.same block hlt hnot]

theorem Edits.narrow {wider : Set BlockId} (hedits : Edits module wider before after)
    (hsub : ∀ block < before.freshBlock, block ∈ wider → block ∈ touched) :
    Edits module touched before after where
  fresh_le := hedits.fresh_le
  keeps := hedits.keeps
  same block hlt hnot := hedits.same block hlt fun hmem => hnot (hsub block hlt hmem)

theorem Edits.setSuccessor {block : BlockId} (hblock : block ∈ touched) (func : Func)
    (index : ℕ) (target : BlockId) :
    Edits module touched func (func.setSuccessor block index target) where
  fresh_le := le_rfl
  keeps other _ := by
    by_cases heq : other = block
    · rw [heq, Func.setSuccessor, Func.setBody_self]
      exact ⟨rfl, rfl, rfl, .refl _, fun _ hinstr => .inl hinstr⟩
    · rw [Func.setSuccessor, Func.setBody_of_ne _ _ heq]
      exact .refl _
  same other _ hnot :=
    Func.setBody_of_ne func _ fun heq => hnot (heq ▸ hblock)

/-- A new block. -/
theorem Edits.create (func : Func) (content : Block) (order : List BlockId) (fresh : ValueId) :
    Edits module touched func
      { func.setBody func.freshBlock content with
        order := order
        freshBlock := func.freshBlock + 1
        freshValue := fresh } where
  fresh_le := Nat.le_succ _
  keeps block hlt := by
    change Keeps module _ ((func.setBody func.freshBlock content).body block)
    rw [Func.setBody_of_ne _ _ (Nat.ne_of_lt hlt)]
    exact .refl _
  same block hlt _ := Func.setBody_of_ne func content (Nat.ne_of_lt hlt)

/-- The blocks that a step adds are new ones. -/
def OnlyNew (func : Func) (old new : List BlockId) : Prop :=
  ∀ block ∈ new, block ∈ old ∨ func.freshBlock ≤ block

/-- The region has new blocks behind the old ones. -/
structure Extends (func : Func) (old region : ParallelRegion) : Prop where
  front : old.blocks <+: region.blocks
  entryIndex : region.entryIndex = old.entryIndex
  new : OnlyNew func old.blocks region.blocks

theorem Extends.refl (func : Func) (region : ParallelRegion) : Extends func region region :=
  ⟨List.prefix_rfl, rfl, fun _ hblock => .inl hblock⟩

theorem Extends.trans {later : Func} {old region region' : ParallelRegion}
    (hfirst : Extends func old region) (hle : func.freshBlock ≤ later.freshBlock)
    (hsecond : Extends later region region') : Extends func old region' where
  front := hfirst.front.trans hsecond.front
  entryIndex := hsecond.entryIndex.trans hfirst.entryIndex
  new block hblock :=
    (hsecond.new block hblock).elim (hfirst.new block) fun hge => .inr (hle.trans hge)

theorem Extends.entryBB {old region : ParallelRegion} (hextends : Extends func old region)
    {entry : BlockId} (hentry : old.entryBB = some entry) : region.entryBB = some entry := by
  unfold ParallelRegion.entryBB at hentry ⊢
  obtain ⟨new, hblocks⟩ := hextends.front
  rw [hextends.entryIndex, ← hblocks,
    List.getElem?_append_left (List.getElem?_eq_some_iff.mp hentry).1]
  exact hentry

theorem purgeSuccessor_edits {block : BlockId} {nextBlock : Option BlockId}
    {start : Func} {state state' : Func × List BlockId} {index : ℕ} (hblock : block ∈ touched)
    (hle : start.freshBlock ≤ state.1.freshBlock) (hnew : OnlyNew start [] state.2)
    (hpurge : purgeSuccessor region block nextBlock state index = some state') :
    Edits module touched state.1 state'.1 ∧ OnlyNew start [] state'.2 := by
  obtain ⟨successor, -, hpurge⟩ := Option.bind_eq_some_iff.mp hpurge
  split at hpurge
  · cases hpurge
    exact ⟨.refl _, hnew⟩
  · obtain ⟨next, -, hpurge⟩ := Option.bind_eq_some_iff.mp hpurge
    cases hpurge
    refine ⟨(Edits.create _ _ _ _).trans (.setSuccessor hblock _ _ _), fun other hother => ?_⟩
    rcases List.mem_append.mp hother with hmem | hmem
    · exact hnew other hmem
    · rw [List.mem_singleton.mp hmem]
      exact .inr hle

theorem purgeSuccessors_edits {block : BlockId} {nextBlock : Option BlockId} {start : Func}
    (hblock : block ∈ touched) (indices : List ℕ) :
    ∀ {state state' : Func × List BlockId}, start.freshBlock ≤ state.1.freshBlock →
      OnlyNew start [] state.2 →
      indices.foldlM (purgeSuccessor region block nextBlock) state = some state' →
        Edits module touched state.1 state'.1 ∧ OnlyNew start [] state'.2 := by
  induction indices with
  | nil =>
      intro state state' _ hnew hpurge
      cases hpurge
      exact ⟨.refl _, hnew⟩
  | cons index rest ih =>
      intro state state' hle hnew hpurge
      rw [List.foldlM_cons] at hpurge
      obtain ⟨middle, hstep, hpurge⟩ := Option.bind_eq_some_iff.mp hpurge
      obtain ⟨hfirst, hnew₁⟩ := purgeSuccessor_edits hblock hle hnew hstep
      obtain ⟨hsecond, hnew₂⟩ := ih (hle.trans hfirst.fresh_le) hnew₁ hpurge
      exact ⟨hfirst.trans hsecond, hnew₂⟩

theorem purgeFrom_edits {start : Func} (blocks : List BlockId)
    (hblocks : ∀ block ∈ blocks, block ∈ touched) :
    ∀ {state state' : Func × List BlockId}, start.freshBlock ≤ state.1.freshBlock →
      OnlyNew start [] state.2 → purgeFrom region blocks state = some state' →
        Edits module touched state.1 state'.1 ∧ OnlyNew start [] state'.2 := by
  induction blocks with
  | nil =>
      intro state state' _ hnew hpurge
      cases hpurge
      exact ⟨.refl _, hnew⟩
  | cons block rest ih =>
      intro state state' hle hnew hpurge
      have hrest : ∀ other ∈ rest, other ∈ touched := fun other hother =>
        hblocks other (List.mem_cons_of_mem _ hother)
      rw [purgeFrom] at hpurge
      split at hpurge
      · exact ih hrest hle hnew hpurge
      · obtain ⟨middle, hloop, hpurge⟩ := Option.bind_eq_some_iff.mp hpurge
        obtain ⟨hfirst, hnew₁⟩ :=
          purgeSuccessors_edits (hblocks block List.mem_cons_self) _ hle hnew hloop
        obtain ⟨hsecond, hnew₂⟩ := ih hrest (hle.trans hfirst.fresh_le) hnew₁ hpurge
        exact ⟨hfirst.trans hsecond, hnew₂⟩

theorem purge_edits {region' : ParallelRegion} (hblocks : ∀ block ∈ region.blocks, block ∈ touched)
    (hpurge : purge before region = some (after, region')) :
    Edits module touched before after ∧ Extends before region region' := by
  obtain ⟨⟨func, new⟩, hfrom, hresult⟩ := Option.bind_eq_some_iff.mp hpurge
  cases hresult
  obtain ⟨hedits, hnew⟩ := purgeFrom_edits region.blocks hblocks le_rfl
    (fun _ hmem => (List.not_mem_nil hmem).elim) hfrom
  refine ⟨hedits, List.prefix_append _ _, rfl, fun block hblock => ?_⟩
  rcases List.mem_append.mp hblock with hmem | hmem
  · exact .inl hmem
  · exact .inr ((hnew block hmem).resolve_left List.not_mem_nil)

theorem tailBB_mem {tail : BlockId} (htail : tailBB func region = some tail) :
    tail ∈ region.blocks := by
  obtain ⟨exit, hexit, htail⟩ := Option.bind_eq_some_iff.mp htail
  split at htail
  · exact List.mem_of_getElem? htail
  · cases htail
    exact List.mem_of_getElem? hexit

theorem chainAfter_edits {previous : ParallelRegion}
    (hblocks : ∀ block ∈ region.blocks, block ∈ touched)
    (hprevious : ∀ block ∈ previous.blocks, block ∈ touched)
    (hchain : chainAfter before region previous = some after) :
    Edits module touched before after := by
  obtain ⟨tail, htail, hchain⟩ := Option.bind_eq_some_iff.mp hchain
  split at hchain
  · rename_i successor hsuccs
    obtain ⟨entry, -, hchain⟩ := Option.bind_eq_some_iff.mp hchain
    obtain ⟨exit, hexit, hchain⟩ := Option.bind_eq_some_iff.mp hchain
    have horder : Edits module touched before
        { before with order := region.blocks.foldl (fun order block =>
            insertAfter tail block order) before.order } :=
      ⟨le_rfl, fun _ _ => .refl _, fun _ _ _ => rfl⟩
    have hset := horder.trans (.setSuccessor (hprevious tail (tailBB_mem htail)) _ 0 entry)
    dsimp only at hchain
    split at hchain
    · cases hchain
      exact hset.trans (.setSuccessor (hblocks exit (List.mem_of_getElem? hexit)) _ 0 successor)
    · cases hchain
  · cases hchain

theorem insertPrologue_edits {x y z : ℕ} (hblocks : ∀ block ∈ region.blocks, block ∈ touched)
    (hprologue : insertPrologue module before region x y z = some after) :
    Edits module touched before after := by
  obtain ⟨entry, hentry, hresult⟩ := Option.bind_eq_some_iff.mp hprologue
  cases hresult
  have hmem := hblocks entry (List.mem_of_getElem? hentry)
  refine ⟨le_rfl, fun block _ => ?_, fun block _ hnot =>
    Func.setBody_of_ne before _ fun heq => hnot (heq ▸ hmem)⟩
  by_cases heq : block = entry
  · have hsplit := List.takeWhile_append_dropWhile
      (p := fun instr : Instr => instr.kind.isPhi) (l := (before.body entry).instrs)
    rw [heq]
    change Keeps module _ ((before.setBody entry _).body entry)
    rw [Func.setBody_self]
    refine ⟨rfl, rfl, rfl, ?_, ?_⟩
    · conv_lhs => rw [← hsplit]
      exact (List.Sublist.refl _).append (List.sublist_append_right _ _)
    · intro instr hinstr
      simp only [List.mem_append, List.mem_cons, List.not_mem_nil, or_false] at hinstr
      rcases hinstr with hmem | (rfl | rfl | rfl) | hmem
      · exact .inl (List.takeWhile_subset _ hmem)
      · exact .inr ⟨_, _, _, rfl⟩
      · exact .inr ⟨_, _, _, rfl⟩
      · exact .inr ⟨_, _, _, rfl⟩
      · exact .inl (List.dropWhile_subset _ hmem)
  · change Keeps module _ ((before.setBody entry _).body block)
    rw [Func.setBody_of_ne _ _ heq]
    exact .refl _

end Edits

section Linking

variable {module : ModuleValues} {func : Func} {regions : List ParallelRegion}
  {copies : ℕ → ℕ → Copy} {base state state' : State} {total index count : ℕ}
  {item : ℕ × ℕ × ℕ}

/-- An operand of a copy after linking: a value that is defined in a region is the one of the
same work-item. -/
structure Owned (func : Func) (regions : List ParallelRegion) (copies : ℕ → Copy) (index : ℕ)
    (operand other : ValueId) : Prop where
  inside : Defines func regions index operand → other = (copies index).value operand
  across : ∀ source, Defines func regions source operand →
    ∃ source', Defines func regions source' operand ∧ other = (copies source').value operand
  outside : (∀ source, ¬ Defines func regions source operand) → other = operand

def UsesOwn (module : ModuleValues) (func : Func) (regions : List ParallelRegion)
    (copies : ℕ → Copy) (index : ℕ) (operand other : ValueId) : Prop :=
  ∃ local_, SameOperand module func operand local_ ∧ Owned func regions copies index local_ other

/-- The content of a block of a copy, with the stores of the local id and the new successors
left out. -/
def LinkedBlock (module : ModuleValues) (func : Func) (regions : List ParallelRegion)
    (copies : ℕ → Copy) (index : ℕ) (original linked : Block) : Prop :=
  ∃ content, RelatedBlock (copies index).value (UsesOwn module func regions copies index)
      (fun target other => HasBlock regions index target → other = (copies index).block target)
      original content ∧
    Keeps module content linked

def Linked (item count other index : ℕ) : Prop :=
  other < item ∨ other = item ∧ index < count

/-- The state between two links.  Copies that are not linked yet are as they were made. -/
structure Linking (module : ModuleValues) (func : Func) (regions : List ParallelRegion)
    (copies : ℕ → ℕ → Copy) (total : ℕ) (base : State) (item count : ℕ) (state : State) :
    Prop where
  fresh_le : base.func.freshBlock ≤ state.func.freshBlock
  maps : state.referenceMap = base.referenceMap
  length : ∀ other, (state.parallelRegions other).length = (base.parallelRegions other).length
  blocks : ∀ (other index : ℕ) (region : ParallelRegion),
    (state.parallelRegions other)[index]? = some region → ∃ old : ParallelRegion,
      (base.parallelRegions other)[index]? = some old ∧ Extends base.func old region
  originals : ∀ block ∈ func.order, Keeps module (base.func.body block) (state.func.body block)
  pending_region : ∀ other index : ℕ, ¬ Linked item count other index →
    (state.parallelRegions other)[index]? = (base.parallelRegions other)[index]?
  pending : ∀ other index block, Done total 0 other index → ¬ Linked item count other index →
    HasBlock regions index block →
      state.func.body ((copies other index).block block) =
        base.func.body ((copies other index).block block)
  linked : ∀ other index block, Done total 0 other index → Linked item count other index →
    HasBlock regions index block →
      LinkedBlock module func regions (copies other) index (func.body block)
        (state.func.body ((copies other index).block block))

theorem Linked.cases {item count other index : ℕ} (hlinked : Linked item (count + 1) other index) :
    Linked item count other index ∨ other = item ∧ index = count := by
  rcases hlinked with hlt | ⟨heq, hlt⟩
  · exact .inl (.inl hlt)
  · rcases Nat.lt_succ_iff_lt_or_eq.mp hlt with hlt | hindex
    · exact .inl (.inr ⟨heq, hlt⟩)
    · exact .inr ⟨heq, hindex⟩

theorem Linked.succ {item count other index : ℕ} (hlinked : Linked item count other index) :
    Linked item (count + 1) other index :=
  hlinked.imp_right fun hor => ⟨hor.1, Nat.lt_succ_of_lt hor.2⟩

theorem Linked.last {item count : ℕ} : Linked item (count + 1) item count :=
  .inr ⟨rfl, Nat.lt_succ_self _⟩

theorem Linked.not_last {item count : ℕ} : ¬ Linked item count item count := by
  rintro (hlt | ⟨-, hlt⟩)
  · exact lt_irrefl _ hlt
  · exact lt_irrefl _ hlt

theorem linkRegion_zero (hlink : linkRegion module 0 item state count = some state') :
    ∃ region, (state.parallelRegions 0)[count]? = some region ∧
      Edits module {block | block ∈ region.blocks} state.func state'.func ∧
      state'.referenceMap = state.referenceMap ∧
      state'.parallelRegions = state.parallelRegions := by
  obtain ⟨region, hregion, hlink⟩ := Option.bind_eq_some_iff.mp hlink
  rw [if_pos rfl] at hlink
  obtain ⟨after, hprologue, hresult⟩ := Option.bind_eq_some_iff.mp hlink
  cases hresult
  exact ⟨region, hregion, insertPrologue_edits (fun _ hblock => hblock) hprologue, rfl, rfl⟩

/-- The blocks that a link may change, and those it makes. -/
def linkTouches (func : Func) (region previous : ParallelRegion) : Set BlockId :=
  {block | block ∈ region.blocks ∨ block ∈ previous.blocks ∨ func.freshBlock ≤ block}

theorem linkRegion_succ (hlink : linkRegion module (index + 1) item state count = some state') :
    ∃ region previous region', (state.parallelRegions (index + 1))[count]? = some region ∧
      (state.parallelRegions index)[count]? = some previous ∧
      Edits module {block | block ∈ region.blocks ∨ block ∈ previous.blocks}
        (region.remap state.func (state.referenceMap (index + 1))) state'.func ∧
      Extends state.func region region' ∧
      state'.referenceMap = state.referenceMap ∧
      state'.parallelRegions = Function.update state.parallelRegions (index + 1)
        ((state.parallelRegions (index + 1)).set count region') := by
  obtain ⟨region, hregion, hlink⟩ := Option.bind_eq_some_iff.mp hlink
  rw [if_neg (Nat.succ_ne_zero index)] at hlink
  obtain ⟨previous, hprevious, hlink⟩ := Option.bind_eq_some_iff.mp hlink
  obtain ⟨chained, hchain, hlink⟩ := Option.bind_eq_some_iff.mp hlink
  obtain ⟨⟨purged, region'⟩, hpurge, hlink⟩ := Option.bind_eq_some_iff.mp hlink
  obtain ⟨after, hprologue, hresult⟩ := Option.bind_eq_some_iff.mp hlink
  cases hresult
  have hchained : Edits module (linkTouches state.func region previous)
      (region.remap state.func (state.referenceMap (index + 1))) chained :=
    chainAfter_edits (fun _ hblock => Or.inl hblock) (fun _ hblock => Or.inr (.inl hblock)) hchain
  have hle : state.func.freshBlock ≤ chained.freshBlock := hchained.fresh_le
  obtain ⟨hpurged, hnew⟩ : Edits module (linkTouches state.func region previous) chained purged ∧
      Extends chained region region' :=
    purge_edits (fun _ hblock => Or.inl hblock) hpurge
  have hextends : Extends state.func region region' := (Extends.refl _ _).trans hle hnew
  have hprologued : Edits module (linkTouches state.func region previous) purged after :=
    insertPrologue_edits (fun block hblock => (hextends.new block hblock).imp_right Or.inr)
      hprologue
  refine ⟨region, previous, region', hregion, hprevious,
    ((hchained.trans hpurged).trans hprologued).narrow fun block hlt hblock => ?_,
    hextends, rfl, rfl⟩
  exact hblock.imp_right fun hor => hor.resolve_right (not_le.mpr hlt)

theorem Done.any {other other' : ℕ} (hdone : Done total 0 index other) :
    Done total 0 index other' :=
  ⟨hdone.1, hdone.2.imp_right fun hor => (Nat.not_lt_zero _ hor.2).elim⟩

theorem Linking.start :
    Linking module func regions copies total base 0 0 base where
  fresh_le := le_rfl
  maps := rfl
  length _ := rfl
  blocks _ _ region hregion := ⟨region, hregion, .refl _ _⟩
  originals _ _ := .refl _
  pending_region _ _ _ := rfl
  pending _ _ _ _ _ _ := rfl
  linked other index block _ hlinked _ := by
    rcases hlinked with hlt | ⟨-, hlt⟩
    · exact (Nat.not_lt_zero _ hlt).elim
    · exact (Nat.not_lt_zero _ hlt).elim

theorem LinkedBlock.keeps {source : ℕ → Copy} {original linked later : Block}
    (hlinked : LinkedBlock module func regions source index original linked)
    (hkeeps : Keeps module linked later) :
    LinkedBlock module func regions source index original later := by
  obtain ⟨content, hrelated, hfirst⟩ := hlinked
  exact ⟨content, hrelated, hfirst.trans hkeeps⟩

section Copies

variable (hbase : Replicating module func regions total 0 base copies)
  (hvalid : Valid module func regions) {other : ℕ}
include hbase hvalid

/-- No value of the kernel that a map has is the value of a copy. -/
theorem Replicating.value_of_copied {source : ℕ} {operand : ValueId}
    (hdone : Done total 0 other source) (hdefines : Defines func regions source operand) :
    (base.referenceMap other).value ((copies other source).value operand) =
      (copies other source).value operand := by
  have hle := (hbase.value_range other source operand hdone hdefines).1
  unfold ValueToValueMap.value
  cases hentry : (base.referenceMap other).values ((copies other source).value operand) with
  | none => rfl
  | some value =>
      obtain ⟨index', -, hkey, -⟩ := hbase.values_some other _ value hentry
      exact (not_le.mpr (hvalid.values_lt _ (hkey.mem hvalid)) hle).elim

theorem Replicating.block_of_copied {source : ℕ} {target : BlockId}
    (hdone : Done total 0 other source) (hblock : HasBlock regions source target) :
    (base.referenceMap other).block ((copies other source).block target) =
      (copies other source).block target := by
  have hle := (hbase.block_range other source target hdone hblock).1
  unfold ValueToValueMap.block
  cases hentry : (base.referenceMap other).blocks ((copies other source).block target) with
  | none => rfl
  | some block =>
      obtain ⟨index', -, hkey, -⟩ := hbase.blocks_some other _ block hentry
      exact (not_le.mpr (hvalid.blocks.bound _ (hkey.mem_order hvalid)) hle).elim

/-- Mapping the operands once more resolves those that were left. -/
theorem Replicating.owned (hdone : Done total 0 other index) {operand copied : ValueId}
    (hcopied : CopiedBy func regions (copies other) (Done total 0 other) index operand copied) :
    Owned func regions (copies other) index operand ((base.referenceMap other).value copied) := by
  have hnew : ∀ source, Defines func regions source operand →
      operand ≠ (copies other source).value operand := by
    intro source hdefines heq
    have hle := (hbase.value_range other source operand hdone.any hdefines).1
    exact not_le.mpr (hvalid.values_lt _ (hdefines.mem hvalid)) (heq ▸ hle)
  rcases hcopied.2 with heq | ⟨source, hsource, hdefines, heq⟩
  · subst heq
    cases hentry : (base.referenceMap other).values copied with
    | none =>
        have hvalue : (base.referenceMap other).value copied = copied := by
          rw [ValueToValueMap.value, hentry, Option.getD_none]
        rw [hvalue]
        have hnone : ∀ source, ¬ Defines func regions source copied := fun source hdefines =>
          hbase.values_defined other source copied hdone.any hdefines hentry
        exact ⟨fun hdefines => (hnone _ hdefines).elim,
          fun source hdefines => (hnone _ hdefines).elim, fun _ => rfl⟩
    | some value =>
        obtain ⟨source, hsource, hdefines, rfl⟩ := hbase.values_some other copied value hentry
        have hvalue : (base.referenceMap other).value copied =
            (copies other source).value copied := by
          rw [ValueToValueMap.value, hentry, Option.getD_some]
        rw [hvalue]
        exact ⟨fun hinside => (hnew index hinside (hcopied.1 hinside)).elim,
          fun _ _ => ⟨source, hdefines, rfl⟩, fun hnone => (hnone source hdefines).elim⟩
  · rw [heq, hbase.value_of_copied hvalid hsource hdefines]
    exact ⟨fun hinside => heq ▸ hcopied.1 hinside, fun _ _ => ⟨source, hdefines, rfl⟩,
      fun hnone => (hnone source hdefines).elim⟩

/-- A block of a copy whose operands are mapped once more. -/
theorem Replicating.linkedBlock (hdone : Done total 0 other index) {block : BlockId}
    (hblock : HasBlock regions index block) :
    LinkedBlock module func regions (copies other) index (func.body block)
      ((base.func.body ((copies other index).block block)).mapOperands
        (base.referenceMap other).value (base.referenceMap other).block) := by
  refine ⟨_, ?_, .refl _⟩
  have hmapped : RelatedBlock id
      (fun first second => (base.referenceMap other).value first = second)
      (fun first second => (base.referenceMap other).block first = second)
      (base.func.body ((copies other index).block block))
      ((base.func.body ((copies other index).block block)).mapOperands
        (base.referenceMap other).value (base.referenceMap other).block) :=
    relatedBlock_mapOperands (fun _ => rfl) (fun _ => rfl) _
  change RelatedBlock (id ∘ (copies other index).value) _ _ _ _
  refine RelatedBlock.comp ?_ ?_ (hbase.body other index block hdone hblock) hmapped
  · rintro operand copied _ ⟨local_, hsame, hcopied⟩ rfl
    exact ⟨local_, hsame, hbase.owned hvalid hdone hcopied⟩
  · rintro target copied _ hcopied rfl hinside
    rw [hcopied.1 hinside, hbase.block_of_copied hvalid hdone hinside]

/-- The blocks of one copy are in no other region. -/
theorem Replicating.notMem_of_ne {other' index' : ℕ} {block : BlockId} {region old : ParallelRegion}
    (hdone : Done total 0 other index) (hblock : HasBlock regions index block)
    (hlt : other' < total) (hold : (base.parallelRegions other')[index']? = some old)
    (hnew : Extends base.func old region)
    (hne : ¬ (other = other' ∧ index = index')) :
    (copies other index).block block ∉ region.blocks := by
  obtain ⟨hlow, hhigh⟩ := hbase.block_range other index block hdone hblock
  intro hmem
  have hmem := (hnew.new _ hmem).resolve_right (not_le.mpr hhigh)
  rcases Nat.eq_zero_or_pos other' with rfl | hpos
  · rw [hbase.regions_zero] at hold
    have horder := (hvalid.regions old (List.mem_of_getElem? hold)).mem_order _ hmem
    exact not_le.mpr (hvalid.blocks.bound _ horder) hlow
  · have hlength := hbase.regions_length other' hpos
    rw [if_pos hlt] at hlength
    have hindex : index' < regions.length := hlength ▸ (List.getElem?_eq_some_iff.mp hold).1
    obtain ⟨original, horiginal⟩ : ∃ original, regions[index']? = some original :=
      ⟨_, List.getElem?_eq_getElem hindex⟩
    have hcopy := hbase.regions_get other' index' original ⟨hpos, .inl hlt⟩ horiginal
    rw [hold] at hcopy
    cases hcopy
    obtain ⟨source, hsource, heq⟩ := List.mem_map.mp hmem
    obtain ⟨rfl, rfl, -⟩ := hbase.block_injective other' index' source other index block
      ⟨hpos, .inl hlt⟩ ⟨original, horiginal, hsource⟩ hdone hblock heq
    exact hne ⟨rfl, rfl⟩

theorem Replicating.original_lt {block : BlockId} (hblock : block ∈ func.order) :
    block < base.func.freshBlock :=
  lt_of_lt_of_le (hvalid.blocks.bound block hblock) hbase.freshBlock_le

/-- No block of the kernel is in a region of another work-item than the first. -/
theorem Replicating.original_notMem {index' : ℕ} {block : BlockId} {region old : ParallelRegion}
    (hblock : block ∈ func.order) (hlt : other < total) (hpos : 0 < other)
    (hold : (base.parallelRegions other)[index']? = some old)
    (hnew : Extends base.func old region) : block ∉ region.blocks := by
  intro hmem
  have hmem := (hnew.new _ hmem).resolve_right (not_le.mpr (hbase.original_lt hvalid hblock))
  have hlength := hbase.regions_length other hpos
  rw [if_pos hlt] at hlength
  have hindex : index' < regions.length := hlength ▸ (List.getElem?_eq_some_iff.mp hold).1
  obtain ⟨original, horiginal⟩ : ∃ original, regions[index']? = some original :=
    ⟨_, List.getElem?_eq_getElem hindex⟩
  have hcopy := hbase.regions_get other index' original ⟨hpos, .inl hlt⟩ horiginal
  rw [hold] at hcopy
  cases hcopy
  obtain ⟨source, hsource, rfl⟩ := List.mem_map.mp hmem
  have hrange := hbase.block_range other index' source ⟨hpos, .inl hlt⟩
    ⟨original, horiginal, hsource⟩
  exact not_le.mpr (hvalid.blocks.bound _ hblock) hrange.1

theorem Linking.step_zero
    (hstate : Linking module func regions copies total base 0 count state)
    (htotal : 0 < total) (hlink : linkRegion module 0 item state count = some state') :
    Linking module func regions copies total base 0 (count + 1) state' := by
  obtain ⟨region, hregion, hedits, hmaps, hregions⟩ := linkRegion_zero hlink
  obtain ⟨old, hold, hnew⟩ := hstate.blocks 0 count region hregion
  refine ⟨hstate.fresh_le.trans hedits.fresh_le, hmaps.trans hstate.maps, ?_, ?_, ?_, ?_, ?_, ?_⟩
  · rw [hregions]
    exact hstate.length
  · rw [hregions]
    exact hstate.blocks
  · intro block hblock
    refine (hstate.originals block hblock).trans (hedits.keeps block ?_)
    exact lt_of_lt_of_le (hbase.original_lt hvalid hblock) hstate.fresh_le
  · intro other index hnot
    rw [hregions]
    exact hstate.pending_region other index fun hlinked => hnot hlinked.succ
  · intro other index block hdone hnot hblock
    have hout := hbase.notMem_of_ne hvalid hdone hblock htotal hold hnew
      fun heq => Nat.not_lt.mpr hdone.1 (heq.1 ▸ Nat.zero_lt_one)
    have hlt := (hbase.block_range other index block hdone hblock).2
    rw [hedits.same _ (lt_of_lt_of_le hlt hstate.fresh_le) hout]
    exact hstate.pending other index block hdone (fun hlinked => hnot hlinked.succ) hblock
  · intro other index block hdone hlinked _
    rcases hlinked with hlt | ⟨heq, -⟩
    · exact (Nat.not_lt_zero _ hlt).elim
    · exact (Nat.not_lt.mpr hdone.1 (heq ▸ Nat.zero_lt_one)).elim

theorem Linking.step_succ
    (hstate : Linking module func regions copies total base (index + 1) count state)
    (htotal : index + 1 < total)
    (hlink : linkRegion module (index + 1) item state count = some state') :
    Linking module func regions copies total base (index + 1) (count + 1) state' := by
  obtain ⟨region, previous, region', hregion, hprevious, hedits, hadded, hmaps, hregions⟩ :=
    linkRegion_succ hlink
  obtain ⟨old, hold, hnew⟩ := hstate.blocks (index + 1) count region hregion
  obtain ⟨oldPrevious, holdPrevious, hnewPrevious⟩ := hstate.blocks index count previous hprevious
  have hnew' : Extends base.func old region' := hnew.trans hstate.fresh_le hadded
  have hfresh : ∀ other index block, Done total 0 other index → HasBlock regions index block →
      (copies other index).block block < state.func.freshBlock := fun other index block hdone
      hblock => lt_of_lt_of_le (hbase.block_range other index block hdone hblock).2 hstate.fresh_le
  refine ⟨hstate.fresh_le.trans hedits.fresh_le, hmaps.trans hstate.maps, ?_, ?_, ?_, ?_, ?_, ?_⟩
  · intro other
    rw [hregions]
    by_cases heq : other = index + 1
    · rw [heq, Function.update_self, List.length_set, hstate.length]
    · rw [Function.update_of_ne heq, hstate.length]
  · intro other place found hfound
    rw [hregions] at hfound
    by_cases heq : other = index + 1
    · rw [heq, Function.update_self] at hfound
      by_cases hplace : count = place
      · rw [← hplace, List.getElem?_set_self (List.getElem?_eq_some_iff.mp hregion).1] at hfound
        cases hfound
        exact ⟨old, heq ▸ hplace ▸ hold, hnew'⟩
      · rw [List.getElem?_set_ne hplace] at hfound
        exact heq ▸ hstate.blocks (index + 1) place found hfound
    · rw [Function.update_of_ne heq] at hfound
      exact hstate.blocks other place found hfound
  · intro block hblock
    have hlt := hbase.original_lt hvalid hblock
    have hkeeps := hedits.keeps block (lt_of_lt_of_le hlt hstate.fresh_le)
    rw [remap, mapBlocks_of_not_mem
      (hbase.original_notMem hvalid hblock htotal (Nat.succ_pos _) hold hnew)] at hkeeps
    exact (hstate.originals block hblock).trans hkeeps
  · intro other place hnot
    rw [hregions]
    by_cases heq : other = index + 1
    · have hplace : count ≠ place := fun hsame => hnot (heq ▸ hsame ▸ Linked.last)
      rw [heq, Function.update_self, List.getElem?_set_ne hplace]
      exact hstate.pending_region _ _ fun hlinked => hnot (heq ▸ hlinked.succ)
    · rw [Function.update_of_ne heq]
      exact hstate.pending_region _ _ fun hlinked => hnot hlinked.succ
  · intro other place block hdone hnot hblock
    have hout := hbase.notMem_of_ne hvalid hdone hblock htotal hold hnew
      fun heq => hnot (heq.1 ▸ heq.2 ▸ Linked.last)
    have houtPrevious := hbase.notMem_of_ne hvalid hdone hblock (Nat.lt_of_succ_lt htotal)
      holdPrevious hnewPrevious fun heq => hnot (.inl (heq.1 ▸ Nat.lt_succ_self _))
    rw [hedits.same _ (hfresh _ _ _ hdone hblock) fun hmem => hmem.elim hout houtPrevious,
      remap, mapBlocks_of_not_mem hout]
    exact hstate.pending other place block hdone (fun hlinked => hnot hlinked.succ) hblock
  · intro other place block hdone hlinked hblock
    have hkeeps := hedits.keeps _ (hfresh _ _ _ hdone hblock)
    rcases hlinked.cases with hearlier | ⟨rfl, rfl⟩
    · have hout := hbase.notMem_of_ne hvalid hdone hblock htotal hold hnew
        fun heq => Linked.not_last (heq.1 ▸ heq.2 ▸ hearlier)
      rw [remap, mapBlocks_of_not_mem hout] at hkeeps
      exact (hstate.linked other place block hdone hearlier hblock).keeps hkeeps
    · obtain ⟨original, horiginal, hmem⟩ := hblock
      have hget := hstate.pending_region (index + 1) place Linked.not_last
      rw [hregion, hbase.regions_get (index + 1) place original hdone.any horiginal] at hget
      cases hget
      have hin : (copies (index + 1) place).block block ∈
          (copyRegion (copies (index + 1) place) original).blocks := List.mem_map_of_mem hmem
      rw [remap, mapBlocks_of_mem hin, hstate.maps,
        hstate.pending _ _ block hdone Linked.not_last ⟨original, horiginal, hmem⟩] at hkeeps
      exact (hbase.linkedBlock hvalid hdone ⟨original, horiginal, hmem⟩).keeps hkeeps

theorem Linking.step
    (hstate : Linking module func regions copies total base index count state)
    (htotal : index < total) (hlink : linkRegion module index item state count = some state') :
    Linking module func regions copies total base index (count + 1) state' := by
  cases index with
  | zero => exact hstate.step_zero hbase hvalid htotal hlink
  | succ index => exact hstate.step_succ hbase hvalid htotal hlink

theorem Linking.steps
    (hstate : Linking module func regions copies total base index 0 state)
    (htotal : index < total) :
    ∀ {count : ℕ} {state' : State},
      (List.range count).foldlM (linkRegion module index item) state = some state' →
        Linking module func regions copies total base index count state' := by
  intro count
  induction count with
  | zero =>
      intro state' hlink
      cases hlink
      exact hstate
  | succ count ih =>
      intro state' hlink
      rw [List.range_succ, List.foldlM_append] at hlink
      obtain ⟨middle, hfirst, hlink⟩ := Option.bind_eq_some_iff.mp hlink
      rw [List.foldlM_cons] at hlink
      obtain ⟨last, hstep, hlast⟩ := Option.bind_eq_some_iff.mp hlink
      cases hlast
      exact (ih hfirst).step hbase hvalid htotal hstep

omit hvalid in
theorem Linking.nextItem
    (hstate : Linking module func regions copies total base index count state)
    (hcount : count = (base.parallelRegions index).length) :
    Linking module func regions copies total base (index + 1) 0 state where
  fresh_le := hstate.fresh_le
  maps := hstate.maps
  length := hstate.length
  blocks := hstate.blocks
  originals := hstate.originals
  pending_region other place hnot :=
    hstate.pending_region other place fun hlinked => hnot (.inl (hlinked.elim Nat.lt_succ_of_lt
      fun hor => Nat.lt_succ_of_le hor.1.le))
  pending other place block hdone hnot hblock :=
    hstate.pending other place block hdone (fun hlinked => hnot (.inl (hlinked.elim
      Nat.lt_succ_of_lt fun hor => Nat.lt_succ_of_le hor.1.le))) hblock
  linked other place block hdone hlinked hblock := by
    refine hstate.linked other place block hdone ?_ hblock
    rcases hlinked with hlt | ⟨-, hlt⟩
    · rcases Nat.lt_succ_iff_lt_or_eq.mp hlt with hlt | rfl
      · exact .inl hlt
      · have hlength := hbase.regions_length other hdone.1
        rw [if_pos (hdone.2.resolve_right fun hor => Nat.not_lt_zero _ hor.2), ← hcount] at hlength
        exact .inr ⟨rfl, hlength ▸ hblock.index_lt⟩
    · exact (Nat.not_lt_zero _ hlt).elim

/-- All regions of the following work-items. -/
theorem Linking.linkRegions {sizeX sizeY : ℕ} (items : List (ℕ × ℕ × ℕ)) :
    ∀ {index : ℕ} {state state' : State},
      items.map (workItemIndex sizeX sizeY) = List.range' index items.length →
      index + items.length ≤ total →
      Linking module func regions copies total base index 0 state →
      items.foldlM (WorkitemReplication.linkRegions module sizeX sizeY) state = some state' →
        Linking module func regions copies total base (index + items.length) 0 state' := by
  induction items with
  | nil =>
      intro index state state' _ _ hstate hlink
      cases hlink
      exact hstate
  | cons item rest ih =>
      intro index state state' hindices htotal hstate hlink
      rw [List.map_cons, List.length_cons, List.range'_succ] at hindices
      obtain ⟨hitem, hrest⟩ := List.cons.inj hindices
      rw [List.length_cons] at htotal ⊢
      rw [List.foldlM_cons] at hlink
      obtain ⟨middle, hfirst, hlink⟩ := Option.bind_eq_some_iff.mp hlink
      rw [WorkitemReplication.linkRegions, hitem] at hfirst
      have hnext := (hstate.steps hbase hvalid (by omega) hfirst).nextItem hbase
        (hstate.length index)
      have hlast := ih hrest (by omega) hnext hlink
      rwa [Nat.add_assoc, Nat.add_comm 1] at hlast

end Copies

/-- The copies that are made, and the state in which all of them are linked. -/
theorem exists_linking (hvalid : Valid module func regions) {sizeX sizeY sizeZ : ℕ}
    (hsizes : 0 < sizeX * sizeY * sizeZ)
    (hlink : (workItems sizeX sizeY sizeZ).foldlM (linkRegions module sizeX sizeY)
      (replicateAll module sizeX sizeY sizeZ func regions) = some state) :
    ∃ base copies, Replicating module func regions (sizeX * sizeY * sizeZ) 0 base copies ∧
      Linking module func regions copies (sizeX * sizeY * sizeZ) base (sizeX * sizeY * sizeZ) 0
        state := by
  obtain ⟨copies, hbase⟩ := exists_replicating hvalid hsizes
  have hindices := workItems_index sizeX sizeY sizeZ
  have hlength := congrArg List.length hindices
  rw [List.length_map, List.length_range] at hlength
  rw [List.range_eq_range', ← hlength] at hindices
  have hlinked := Linking.linkRegions hbase hvalid _ hindices (by omega) .start hlink
  rw [Nat.zero_add, hlength] at hlinked
  exact ⟨_, copies, hbase, hlinked⟩

end Linking

end WorkitemReplication

end Pocl
