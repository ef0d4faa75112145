import Pocl.BarrierTailCopies

/-!
# Cloning a subgraph

The loop of `replicateBasicBlocks` is followed block by block.  At its end the
clones repeat the subgraph with references to the original blocks, the PHI
nodes outside the subgraph have entries for the clones that branch to them, and
nothing else has changed.
-/

namespace Pocl

namespace BarrierTailReplication

section Entries

variable {origins : Origins} {graph : List BlockId} {block newBlock : BlockId}

theorem leadingPhis_bound :
    ∀ {instrs originals : List Instr},
      List.Forall₂ (CopiesInstr origins) instrs originals →
        ∀ incoming ∈ leadingPhis instrs, ∀ entry ∈ incoming,
          entry.1 < origins.freshValue := by
  intro instrs originals hcopies
  induction hcopies with
  | nil => simp [leadingPhis]
  | @cons instr original rest originals hinstr _ ih =>
      intro incoming hincoming entry hentry
      unfold leadingPhis at hincoming
      cases hkind : instr.kind with
      | barrier => simp [hkind] at hincoming
      | other _ _ => simp [hkind] at hincoming
      | phi own =>
          rw [hkind] at hincoming
          rcases List.mem_cons.mp hincoming with rfl | hincoming
          · have hcopies := hinstr.kind
            rw [hkind] at hcopies
            generalize original.kind = originalKind at hcopies
            cases hcopies with
            | phi hbound _ => exact (hbound entry hentry).1
          · exact ih incoming hincoming entry hentry

/-- What the loop over the successors of a clone does to the function. -/
structure AddsEntries
    (origins : Origins) (graph : List BlockId) (newBlock : BlockId)
    (successors : List BlockId) (func : Func) (map : ValueToValueMap)
    (func' : Func) (map' : ValueToValueMap) : Prop where
  order_eq : func'.order = func.order
  freshBlock_eq : func'.freshBlock = func.freshBlock
  freshValue_eq : func'.freshValue = func.freshValue
  blocks_eq : map'.blocks = map.blocks
  mapsToCopies : MapsToCopies origins map'
  term_eq : ∀ target, (func'.body target).term = (func.body target).term
  body_eq : ∀ target, target ∈ graph ∨ target ∉ successors →
    func'.body target = func.body target
  entry_new : ∀ target ∈ successors, target ∉ graph →
    HasEntry (func'.body target).instrs newBlock
  entry_old : ∀ target source, HasEntry (func.body target).instrs source →
    HasEntry (func'.body target).instrs source
  copies : ∀ target originals,
    List.Forall₂ (CopiesInstr origins) (func.body target).instrs originals →
      List.Forall₂ (CopiesInstr origins) (func'.body target).instrs originals

theorem AddsEntries.refl
    {func : Func} {map : ValueToValueMap} (hmap : MapsToCopies origins map) :
    AddsEntries origins graph newBlock [] func map func map :=
  ⟨rfl, rfl, rfl, rfl, hmap, fun _ => rfl, fun _ _ => rfl, by simp,
    fun _ _ h => h, fun _ _ h => h⟩

theorem addIncomingTo_spec
    (graph : List BlockId) (hnew : newBlock < origins.freshBlock)
    (horigin : origins.blockOrigin newBlock = origins.blockOrigin block)
    {func : Func} {map : ValueToValueMap} {successor : BlockId}
    (hmap : MapsToCopies origins map)
    (hentry : HasEntry (func.body successor).instrs block)
    {originals : List Instr}
    (hcopies : List.Forall₂ (CopiesInstr origins)
      (func.body successor).instrs originals) :
    ∃ func' map', addIncomingTo graph block newBlock (func, map) successor =
        some (func', map') ∧
      AddsEntries origins graph newBlock [successor] func map func' map' := by
  unfold addIncomingTo
  by_cases hgraph : successor ∈ graph
  · refine ⟨func, map, if_pos hgraph, rfl, rfl, rfl, rfl, hmap, fun _ => rfl,
      fun _ _ => rfl, ?_, fun _ _ h => h, fun _ _ h => h⟩
    intro target htarget hmiss
    rw [List.mem_singleton.mp htarget] at hmiss
    exact absurd hgraph hmiss
  · obtain ⟨map', instrs', hrun, hadds⟩ :=
      addIncoming_spec hnew horigin (func.body successor).instrs hmap hentry
        (leadingPhis_bound hcopies)
    refine ⟨func.setBody successor
      { func.body successor with instrs := instrs' }, map', ?_, ?_⟩
    · rw [if_neg hgraph]
      change (addIncoming block newBlock map (func.body successor).instrs).bind
        _ = _
      rw [hrun]
      rfl
    · constructor
      · rfl
      · rfl
      · rfl
      · exact hadds.blocks_eq
      · exact hadds.mapsToCopies
      · intro target
        by_cases htarget : target = successor
        · rw [htarget, Func.setBody_self]
        · rw [Func.setBody_of_ne func _ htarget]
      · intro target htarget
        have hne : target ≠ successor := by
          rintro rfl
          rcases htarget with htarget | htarget
          · exact hgraph htarget
          · exact htarget (List.mem_singleton_self _)
        exact Func.setBody_of_ne func _ hne
      · intro target htarget _
        rw [List.mem_singleton.mp htarget, Func.setBody_self]
        exact hadds.entry_new
      · intro target source hsource
        by_cases htarget : target = successor
        · subst htarget
          rw [Func.setBody_self]
          exact hadds.entry_old source hsource
        · rwa [Func.setBody_of_ne func _ htarget]
      · intro target targetOriginals htargetCopies
        by_cases htarget : target = successor
        · subst htarget
          rw [Func.setBody_self]
          exact hadds.copies targetOriginals htargetCopies
        · rwa [Func.setBody_of_ne func _ htarget]

theorem AddsEntries.cons
    {successor : BlockId} {rest : List BlockId} {func middle func' : Func}
    {map middleMap map' : ValueToValueMap}
    (hfirst : AddsEntries origins graph newBlock [successor] func map middle
      middleMap)
    (hrest : AddsEntries origins graph newBlock rest middle middleMap func'
      map') :
    AddsEntries origins graph newBlock (successor :: rest) func map func'
      map' := by
  constructor
  · exact hrest.order_eq.trans hfirst.order_eq
  · exact hrest.freshBlock_eq.trans hfirst.freshBlock_eq
  · exact hrest.freshValue_eq.trans hfirst.freshValue_eq
  · exact hrest.blocks_eq.trans hfirst.blocks_eq
  · exact hrest.mapsToCopies
  · exact fun target => (hrest.term_eq target).trans (hfirst.term_eq target)
  · intro target htarget
    refine (hrest.body_eq target ?_).trans (hfirst.body_eq target ?_)
    · exact htarget.imp_right fun h hmem => h (List.mem_cons_of_mem _ hmem)
    · refine htarget.imp_right fun h hmem => h ?_
      rw [List.mem_singleton.mp hmem]
      exact List.mem_cons_self
  · intro target htarget hgraph
    rcases List.mem_cons.mp htarget with rfl | htarget
    · exact hrest.entry_old target newBlock
        (hfirst.entry_new target (List.mem_singleton_self _) hgraph)
    · exact hrest.entry_new target htarget hgraph
  · exact fun target source hsource =>
      hrest.entry_old target source (hfirst.entry_old target source hsource)
  · exact fun target originals hcopies =>
      hrest.copies target originals (hfirst.copies target originals hcopies)

theorem addIncomingTo_loop
    (graph : List BlockId) (hnew : newBlock < origins.freshBlock)
    (horigin : origins.blockOrigin newBlock = origins.blockOrigin block)
    (successors : List BlockId) {func : Func} {map : ValueToValueMap}
    (hmap : MapsToCopies origins map)
    (hentry : ∀ target ∈ successors, HasEntry (func.body target).instrs block)
    (hcopies : ∀ target ∈ successors, ∃ originals,
      List.Forall₂ (CopiesInstr origins) (func.body target).instrs originals) :
    ∃ func' map',
      successors.foldlM (addIncomingTo graph block newBlock) (func, map) =
          some (func', map') ∧
        AddsEntries origins graph newBlock successors func map func' map' := by
  induction successors generalizing func map with
  | nil => exact ⟨func, map, rfl, AddsEntries.refl hmap⟩
  | cons successor rest ih =>
      obtain ⟨originals, horiginals⟩ := hcopies successor List.mem_cons_self
      obtain ⟨middle, middleMap, hstep, hfirst⟩ :=
        addIncomingTo_spec graph hnew horigin hmap
          (hentry successor List.mem_cons_self) horiginals
      obtain ⟨func', map', hrun, hrest⟩ := ih hfirst.mapsToCopies
        (fun target htarget => hfirst.entry_old target block
          (hentry target (List.mem_cons_of_mem _ htarget)))
        (fun target htarget => by
          obtain ⟨originals, horiginals⟩ :=
            hcopies target (List.mem_cons_of_mem _ htarget)
          exact ⟨originals, hfirst.copies target originals horiginals⟩)
      refine ⟨func', map', ?_, hfirst.cons hrest⟩
      rw [List.foldlM_cons, hstep]
      exact hrun

end Entries

section Blocks

/-- The function with one more block that repeats `block`. -/
structure ClonesBlock
    (state : State) (map : ValueToValueMap) (block : BlockId)
    (result : State × ValueToValueMap) : Prop where
  extends_ : state.origins.Extends result.1.origins
  order_eq : result.1.func.order = state.func.order ++ [state.func.freshBlock]
  freshBlock_eq : result.1.func.freshBlock = state.func.freshBlock + 1
  origin_new :
    result.1.blockOrigin state.func.freshBlock = state.blockOrigin block
  blocks_eq :
    result.2.blocks = (map.insertBlock block state.func.freshBlock).blocks
  mapsToCopies : MapsToCopies result.1.origins result.2
  body_old : ∀ other, other ≠ state.func.freshBlock →
    result.1.func.body other = state.func.body other
  succs_new :
    result.1.func.succs state.func.freshBlock = state.func.succs block
  phis_new : leadingPhis (result.1.func.body state.func.freshBlock).instrs =
    leadingPhis (state.func.body block).instrs
  copies_new : ∀ original,
    CopiesBlock state.origins (state.func.body block) original →
      CopiesBlock result.1.origins
        (result.1.func.body state.func.freshBlock) original

theorem createBlock_extends (state : State) (block : BlockId) :
    state.origins.Extends (createBlock state block).origins := by
  constructor
  · exact Nat.le_succ _
  · exact le_refl _
  · intro other hother
    exact Function.update_of_ne (Nat.ne_of_lt hother) _ _
  · exact fun _ _ => rfl

theorem instrs_id_lt
    {origins : Origins} {instrs originals : List Instr}
    (hcopies : List.Forall₂ (CopiesInstr origins) instrs originals) :
    ∀ instr ∈ instrs, instr.id < origins.freshValue := by
  induction hcopies with
  | nil => simp
  | cons hinstr _ ih =>
      intro other hother
      rcases List.mem_cons.mp hother with rfl | hother
      · exact hinstr.id_lt
      · exact ih other hother

theorem cloneBlock_spec
    {state : State} {map : ValueToValueMap} {block : BlockId}
    {original : Block} (hblock : block < state.func.freshBlock)
    (hmap : MapsToCopies state.origins map)
    (hcopies : CopiesBlock state.origins (state.func.body block) original) :
    ClonesBlock state map block (cloneBlock state map block) := by
  have hcreate : state.origins.Extends (createBlock state block).origins :=
    createBlock_extends state block
  have horigin : (createBlock state block).blockOrigin state.func.freshBlock =
      state.blockOrigin block :=
    Function.update_self _ _ _
  have hinserted : MapsToCopies (createBlock state block).origins
      (map.insertBlock block state.func.freshBlock) := by
    apply (hmap.mono hcreate).insertBlock
    · exact hblock.trans (Nat.lt_succ_self _)
    · exact Nat.lt_succ_self _
    · exact horigin.trans (hcreate.blockOrigin_eq block hblock).symm
  have hcloned := cloneInstrs_spec (state.func.body block).instrs
    (createBlock state block) (map.insertBlock block state.func.freshBlock)
  set cloned := cloneInstrs (createBlock state block)
    (map.insertBlock block state.func.freshBlock)
    (state.func.body block).instrs with hclonedEq
  have hterm := cloneValue_extends cloned.1 cloned.2.1
    (state.func.body block).term.id
  set named := cloneValue cloned.1 cloned.2.1
    (state.func.body block).term.id with hnamedEq
  have hresult : cloneBlock state map block =
      ({ named.1 with
          func := named.1.func.setBody state.func.freshBlock
            ⟨cloned.2.2,
              { (state.func.body block).term with id := named.2.2 }⟩ },
        named.2.1) := rfl
  have hfunc : named.1.func =
      { (createBlock state block).func with
        freshValue := cloned.1.func.freshValue + 1 } := by
    rw [hnamedEq, cloneValue_func, hcloned.func_eq]
  have hextends : state.origins.Extends named.1.origins :=
    (hcreate.trans hcloned.extends_).trans hterm
  have hcopied : MapsToCopies cloned.1.origins cloned.2.1 :=
    hcloned.mapsToCopies hinserted (instrs_id_lt hcopies.instrs)
  have htermLt : (state.func.body block).term.id <
      cloned.1.func.freshValue :=
    lt_of_lt_of_le hcopies.term.id_lt
      (hcreate.trans hcloned.extends_).freshValue_le
  rw [hresult]
  constructor
  · exact hextends
  · change named.1.func.order = _
    rw [hfunc]
    rfl
  · change named.1.func.freshBlock = _
    rw [hfunc]
    rfl
  · change named.1.blockOrigin state.func.freshBlock = _
    rw [← horigin, ← hcloned.blockOrigin_eq]
    rfl
  · change named.2.1.blocks = _
    rw [← hcloned.blocks_eq]
    exact insertValue_blocks _ _ _
  · exact cloneValue_mapsToCopies hcopied htermLt
  · intro other hother
    change (named.1.func.setBody _ _).body other = _
    rw [Func.setBody_of_ne _ _ hother, hfunc]
    rfl
  · change ((named.1.func.setBody _ _).body _).term.succs = _
    rw [Func.setBody_self]
    rfl
  · change leadingPhis ((named.1.func.setBody _ _).body _).instrs = _
    rw [Func.setBody_self]
    exact leadingPhis_congr hcloned.kinds_eq
  · intro copied hcopied
    change CopiesBlock named.1.origins ((named.1.func.setBody _ _).body _)
      copied
    rw [Func.setBody_self]
    have hmono := hcopied.term.mono hextends
    constructor
    · refine List.Forall₂.imp (fun _ _ h => CopiesInstr.mono hterm h) ?_
      apply hcloned.copies
      exact hcopied.instrs.imp fun _ _ h => h.mono hcreate
    · constructor
      · exact Nat.lt_succ_self _
      · refine (cloneValue_origin _ _ _).trans ?_
        rw [← hcopied.term.id_eq]
        exact (hcreate.trans hcloned.extends_).valueOrigin_eq _
          hcopied.term.id_lt
      · exact hmono.opcode_eq
      · exact hmono.operands_lt
      · exact hmono.operands_eq
      · exact hmono.succs_lt
      · exact hmono.succs_eq

end Blocks

section Replication

/-- What holds of the function between two rounds of the search: every block
copies its origin and every PHI node knows all its predecessors. -/
structure Valid (original : Func) (state : State) : Prop where
  blocks : state.func.HasBlocks
  entry_eq : state.func.entry = original.entry
  origin_entry : state.blockOrigin original.entry = original.entry
  origin_mem : ∀ block ∈ state.func.order,
    state.blockOrigin block ∈ original.order
  copies : ∀ block ∈ state.func.order, CopiesBlock state.origins
    (state.func.body block) (original.body (state.blockOrigin block))
  entries : ∀ block ∈ state.func.order, ∀ target ∈ state.func.succs block,
    HasEntry (state.func.body target).instrs block

/-- The clones `newGraph` of the blocks `done`, numbered from `first` up to
`fresh`, as the reference map records them. -/
structure NumbersClones
    (first : BlockId) (done : List BlockId) (fresh : BlockId)
    (map : ValueToValueMap) (newGraph : List BlockId) : Prop where
  new_bound : ∀ clone ∈ newGraph, first ≤ clone ∧ clone < fresh
  new_nodup : newGraph.Nodup
  new_clone : ∀ clone ∈ newGraph, ∃ block ∈ done,
    map.blocks block = some clone
  clone_new : ∀ block ∈ done, ∃ clone ∈ newGraph,
    map.blocks block = some clone
  clone_none : ∀ block, block ∉ done → map.blocks block = none
  clone_inj : ∀ block other clone, map.blocks block = some clone →
    map.blocks other = some clone → block = other

/-- The loop of `replicateBasicBlocks` has cloned the blocks `done`. -/
structure Copying
    (original : Func) (start : State) (graph done : List BlockId)
    (now : State) (map : ValueToValueMap) (newGraph : List BlockId) :
    Prop where
  done_mem : ∀ block ∈ done, block ∈ graph
  clones : NumbersClones start.func.freshBlock done now.func.freshBlock map
    newGraph
  extends_ : start.origins.Extends now.origins
  order_eq : now.func.order = start.func.order ++ newGraph
  mapsToCopies : MapsToCopies now.origins map
  origin_mem : ∀ block ∈ now.func.order,
    now.blockOrigin block ∈ original.order
  copies : ∀ block ∈ now.func.order, CopiesBlock now.origins
    (now.func.body block) (original.body (now.blockOrigin block))
  term_old : ∀ block < start.func.freshBlock,
    (now.func.body block).term = (start.func.body block).term
  body_graph : ∀ block ∈ graph, now.func.body block = start.func.body block
  entry_old : ∀ block < start.func.freshBlock, ∀ source,
    HasEntry (start.func.body block).instrs source →
      HasEntry (now.func.body block).instrs source
  succs_clone : ∀ block clone, map.blocks block = some clone →
    now.func.succs clone = start.func.succs block
  phis_clone : ∀ block clone, map.blocks block = some clone →
    leadingPhis (now.func.body clone).instrs =
      leadingPhis (start.func.body block).instrs
  entry_clone : ∀ block clone, map.blocks block = some clone →
    ∀ target ∈ start.func.succs block, target ∉ graph →
      HasEntry (now.func.body target).instrs clone

variable {original : Func} {start now : State} {graph done : List BlockId}
  {map : ValueToValueMap} {newGraph : List BlockId}

theorem NumbersClones.nil (first : BlockId) :
    NumbersClones first [] first .empty [] := by
  constructor <;> simp [ValueToValueMap.empty]

theorem insertBlock_of_none
    {map : ValueToValueMap} {key entry : BlockId}
    (hnone : map.blocks key = none) :
    (map.insertBlock key entry).blocks =
      Function.update map.blocks key (some entry) := by
  unfold ValueToValueMap.insertBlock
  rw [hnone]

theorem NumbersClones.mem_of_some
    {first fresh : BlockId}
    (hclones : NumbersClones first done fresh map newGraph)
    {block clone : BlockId} (hsome : map.blocks block = some clone) :
    block ∈ done ∧ clone ∈ newGraph := by
  have hdone : block ∈ done := by
    by_contra hblock
    rw [hclones.clone_none block hblock] at hsome
    cases hsome
  obtain ⟨other, hother, hmap⟩ := hclones.clone_new block hdone
  rw [hmap] at hsome
  exact ⟨hdone, Option.some.inj hsome ▸ hother⟩

/-- The reference map after `block` has been cloned as `fresh`. -/
theorem NumbersClones.cases
    {first fresh : BlockId}
    (hclones : NumbersClones first done fresh map newGraph)
    {block : BlockId} (hnot : block ∉ done) {map' : ValueToValueMap}
    (hblocks : map'.blocks = (map.insertBlock block fresh).blocks)
    {key clone : BlockId} (hclone : map'.blocks key = some clone) :
    (key = block ∧ clone = fresh) ∨ map.blocks key = some clone := by
  rw [hblocks, insertBlock_of_none (hclones.clone_none block hnot),
    Function.update_apply] at hclone
  split at hclone
  · rename_i hkey
    exact Or.inl ⟨hkey, (Option.some.inj hclone).symm⟩
  · exact Or.inr hclone

theorem NumbersClones.step
    {first fresh : BlockId}
    (hclones : NumbersClones first done fresh map newGraph)
    (hle : first ≤ fresh) {block : BlockId} (hnot : block ∉ done)
    {map' : ValueToValueMap}
    (hblocks : map'.blocks = (map.insertBlock block fresh).blocks) :
    NumbersClones first (done ++ [block]) (fresh + 1) map'
      (newGraph ++ [fresh]) := by
  have hupdate : map'.blocks =
      Function.update map.blocks block (some fresh) := by
    rw [hblocks, insertBlock_of_none (hclones.clone_none block hnot)]
  have hkept : ∀ key ∈ done, map'.blocks key = map.blocks key := by
    intro key hkey
    rw [hupdate]
    apply Function.update_of_ne
    rintro rfl
    exact hnot hkey
  have hnew : map'.blocks block = some fresh := by
    rw [hupdate, Function.update_self]
  constructor
  · intro clone hclone
    rcases List.mem_append.mp hclone with hclone | hclone
    · obtain ⟨hfirst, hlt⟩ := hclones.new_bound clone hclone
      exact ⟨hfirst, hlt.trans (Nat.lt_succ_self _)⟩
    · rw [List.mem_singleton.mp hclone]
      exact ⟨hle, Nat.lt_succ_self _⟩
  · rw [List.nodup_append]
    refine ⟨hclones.new_nodup, List.nodup_singleton _, ?_⟩
    intro clone hclone other hother
    rw [List.mem_singleton.mp hother]
    exact Nat.ne_of_lt (hclones.new_bound clone hclone).2
  · intro clone hclone
    rcases List.mem_append.mp hclone with hclone | hclone
    · obtain ⟨key, hkey, hmap⟩ := hclones.new_clone clone hclone
      exact ⟨key, List.mem_append_left _ hkey, (hkept key hkey).trans hmap⟩
    · rw [List.mem_singleton.mp hclone]
      exact ⟨block, by simp, hnew⟩
  · intro key hkey
    rcases List.mem_append.mp hkey with hkey | hkey
    · obtain ⟨clone, hclone, hmap⟩ := hclones.clone_new key hkey
      exact ⟨clone, List.mem_append_left _ hclone, (hkept key hkey).trans hmap⟩
    · rw [List.mem_singleton.mp hkey]
      exact ⟨fresh, by simp, hnew⟩
  · intro key hkey
    rw [List.mem_append, List.mem_singleton, not_or] at hkey
    rw [hupdate, Function.update_of_ne hkey.2]
    exact hclones.clone_none key hkey.1
  · intro key other clone hkey hother
    rcases hclones.cases hnot hblocks hkey with ⟨rfl, rfl⟩ | hkey
    · rcases hclones.cases hnot hblocks hother with ⟨rfl, _⟩ | hother
      · rfl
      · exact absurd (hclones.new_bound _ (hclones.mem_of_some hother).2).2
          (lt_irrefl _)
    · rcases hclones.cases hnot hblocks hother with ⟨_, rfl⟩ | hother
      · exact absurd (hclones.new_bound _ (hclones.mem_of_some hkey).2).2
          (lt_irrefl _)
      · exact hclones.clone_inj key other clone hkey hother

theorem Valid.copying_nil (hvalid : Valid original start) :
    Copying original start graph [] start .empty [] where
  done_mem := by simp
  clones := NumbersClones.nil _
  extends_ := Origins.Extends.refl _
  order_eq := (List.append_nil _).symm
  mapsToCopies := MapsToCopies.empty _
  origin_mem := hvalid.origin_mem
  copies := hvalid.copies
  term_old := fun _ _ => rfl
  body_graph := fun _ _ => rfl
  entry_old := fun _ _ _ h => h
  succs_clone := by simp [ValueToValueMap.empty]
  phis_clone := by simp [ValueToValueMap.empty]
  entry_clone := by simp [ValueToValueMap.empty]

theorem Copying.order_lt
    (hvalid : Valid original start)
    (hcopying : Copying original start graph done now map newGraph)
    {block : BlockId} (hblock : block ∈ now.func.order) :
    block < now.func.freshBlock := by
  rw [hcopying.order_eq] at hblock
  rcases List.mem_append.mp hblock with hstart | hnew
  · exact (hvalid.blocks.bound block hstart).trans_le
      hcopying.extends_.freshBlock_le
  · exact (hcopying.clones.new_bound block hnew).2

theorem AddsEntries.copiesBlock
    {origins : Origins} {newBlock : BlockId} {successors : List BlockId}
    {func func' : Func} {map' : ValueToValueMap}
    (hadds : AddsEntries origins graph newBlock successors func map func' map')
    {target : BlockId} {content : Block}
    (hcopies : CopiesBlock origins (func.body target) content) :
    CopiesBlock origins (func'.body target) content where
  instrs := hadds.copies target content.instrs hcopies.instrs
  term := by
    rw [hadds.term_eq target]
    exact hcopies.term

theorem replicateBasicBlock_eq
    {block : BlockId} {func' : Func} {map' : ValueToValueMap}
    (hrun : ((cloneBlock now map block).1.func.succs
        now.func.freshBlock).foldlM
          (addIncomingTo graph block now.func.freshBlock)
          ((cloneBlock now map block).1.func, (cloneBlock now map block).2) =
      some (func', map')) :
    replicateBasicBlock graph (now, map, newGraph) block =
      some ({ (cloneBlock now map block).1 with func := func' }, map',
        newGraph ++ [now.func.freshBlock]) := by
  unfold replicateBasicBlock
  change Option.bind (List.foldlM
    (addIncomingTo graph block now.func.freshBlock)
    ((cloneBlock now map block).1.func, (cloneBlock now map block).2)
    ((cloneBlock now map block).1.func.succs now.func.freshBlock)) _ = _
  rw [hrun]
  rfl

theorem Copying.mem_order
    (hcopying : Copying original start graph done now map newGraph)
    {block : BlockId} (hblock : block ∈ start.func.order) : block ∈ now.func.order := by
  rw [hcopying.order_eq]
  exact List.mem_append_left _ hblock

section Step

variable {block : BlockId}

theorem Copying.clonesBlock
    (hvalid : Valid original start)
    (hcopying : Copying original start graph done now map newGraph)
    (hblock : block ∈ start.func.order) :
    ClonesBlock now map block (cloneBlock now map block) :=
  cloneBlock_spec (hcopying.order_lt hvalid (hcopying.mem_order hblock))
    hcopying.mapsToCopies (hcopying.copies block (hcopying.mem_order hblock))

theorem Copying.succs_cloneBlock
    (hvalid : Valid original start)
    (hcopying : Copying original start graph done now map newGraph)
    (hmem : block ∈ graph) (hblock : block ∈ start.func.order) :
    (cloneBlock now map block).1.func.succs now.func.freshBlock =
      start.func.succs block := by
  rw [(hcopying.clonesBlock hvalid hblock).succs_new]
  exact congrArg (fun content => content.term.succs) (hcopying.body_graph block hmem)

theorem Copying.ne_freshBlock
    (hcopying : Copying original start graph done now map newGraph)
    (hlt : block < start.func.freshBlock) : block ≠ now.func.freshBlock :=
  Nat.ne_of_lt (hlt.trans_le hcopying.extends_.freshBlock_le)

theorem Copying.copies_cloneBlock
    (hvalid : Valid original start)
    (hcopying : Copying original start graph done now map newGraph)
    (hblock : block ∈ start.func.order) {other : BlockId} (hother : other ∈ now.func.order) :
    CopiesBlock (cloneBlock now map block).1.origins
      ((cloneBlock now map block).1.func.body other)
      (original.body ((cloneBlock now map block).1.blockOrigin other)) := by
  have hclones := hcopying.clonesBlock hvalid hblock
  have hlt := hcopying.order_lt hvalid hother
  rw [hclones.body_old other (Nat.ne_of_lt hlt),
    show (cloneBlock now map block).1.blockOrigin other = now.blockOrigin other from
      hclones.extends_.blockOrigin_eq other hlt]
  exact (hcopying.copies other hother).mono hclones.extends_

/-- The successors of the clone get their entries. -/
theorem Copying.addIncoming
    (hvalid : Valid original start)
    (hcopying : Copying original start graph done now map newGraph)
    (hmem : block ∈ graph) (hblock : block ∈ start.func.order) :
    ∃ func' map',
      ((cloneBlock now map block).1.func.succs now.func.freshBlock).foldlM
          (addIncomingTo graph block now.func.freshBlock)
          ((cloneBlock now map block).1.func, (cloneBlock now map block).2) =
        some (func', map') ∧
      AddsEntries (cloneBlock now map block).1.origins graph now.func.freshBlock
        ((cloneBlock now map block).1.func.succs now.func.freshBlock)
        (cloneBlock now map block).1.func (cloneBlock now map block).2 func' map' := by
  have hclones := hcopying.clonesBlock hvalid hblock
  have hsuccs := hcopying.succs_cloneBlock hvalid hmem hblock
  have horigin : (cloneBlock now map block).1.blockOrigin now.func.freshBlock =
      (cloneBlock now map block).1.blockOrigin block := by
    rw [hclones.origin_new]
    exact (hclones.extends_.blockOrigin_eq block
      (hcopying.order_lt hvalid (hcopying.mem_order hblock))).symm
  have hfresh : now.func.freshBlock < (cloneBlock now map block).1.origins.freshBlock := by
    rw [show (cloneBlock now map block).1.origins.freshBlock = now.func.freshBlock + 1 from
      hclones.freshBlock_eq]
    exact Nat.lt_succ_self _
  refine addIncomingTo_loop graph hfresh horigin _ hclones.mapsToCopies ?_ ?_
  · intro target htarget
    rw [hsuccs] at htarget
    have hlt := hvalid.blocks.bound target
      (hvalid.blocks.succs_mem block hblock target htarget)
    rw [hclones.body_old target (hcopying.ne_freshBlock hlt)]
    exact hcopying.entry_old target hlt block (hvalid.entries block hblock target htarget)
  · intro target htarget
    rw [hsuccs] at htarget
    have horder := hcopying.mem_order (hvalid.blocks.succs_mem block hblock target htarget)
    exact ⟨_, (hcopying.copies_cloneBlock hvalid hblock horder).instrs⟩

/-- One more block is cloned. -/
theorem Copying.step
    (hvalid : Valid original start)
    (hgraph : ∀ block ∈ graph, block ∈ start.func.order)
    (hcopying : Copying original start graph done now map newGraph)
    (hmem : block ∈ graph) (hnot : block ∉ done) :
    ∃ next map' newGraph',
      replicateBasicBlock graph (now, map, newGraph) block =
          some (next, map', newGraph') ∧
        Copying original start graph (done ++ [block]) next map' newGraph' := by
  have hblockOrder : block ∈ start.func.order := hgraph block hmem
  have hclones := hcopying.clonesBlock hvalid hblockOrder
  have hsuccs := hcopying.succs_cloneBlock hvalid hmem hblockOrder
  obtain ⟨func', map', hrun, hadds⟩ := hcopying.addIncoming hvalid hmem hblockOrder
  have holdLt : ∀ other < start.func.freshBlock,
      other ≠ now.func.freshBlock := fun other hother => hcopying.ne_freshBlock hother
  have hcopies : ∀ other ∈ now.func.order, CopiesBlock (cloneBlock now map block).1.origins
      ((cloneBlock now map block).1.func.body other)
      (original.body ((cloneBlock now map block).1.blockOrigin other)) :=
    fun other hother => hcopying.copies_cloneBlock hvalid hblockOrder hother
  have htargetLt : ∀ target ∈ start.func.succs block,
      target < start.func.freshBlock := fun target htarget =>
    hvalid.blocks.bound target
      (hvalid.blocks.succs_mem block hblockOrder target htarget)
  set cloned := cloneBlock now map block with hcloned
  have horigins : State.origins { cloned.1 with func := func' } =
      cloned.1.origins := by
    unfold State.origins
    rw [hadds.freshBlock_eq, hadds.freshValue_eq]
  have hmapBlocks : map'.blocks =
      (map.insertBlock block now.func.freshBlock).blocks :=
    hadds.blocks_eq.trans hclones.blocks_eq
  have hnewNot : now.func.freshBlock ∉ cloned.1.func.succs
      now.func.freshBlock := by
    intro htarget
    rw [hsuccs] at htarget
    exact holdLt _ (htargetLt _ htarget) rfl
  refine ⟨{ cloned.1 with func := func' }, map',
    newGraph ++ [now.func.freshBlock], ?_, ?_⟩
  · exact replicateBasicBlock_eq hrun
  · have hcloneLt : ∀ {key clone : BlockId}, map.blocks key = some clone →
        clone ≠ now.func.freshBlock ∧
          clone ∉ cloned.1.func.succs now.func.freshBlock := by
      intro key clone hclone
      have hbound := hcopying.clones.new_bound clone
        (hcopying.clones.mem_of_some hclone).2
      refine ⟨Nat.ne_of_lt hbound.2, ?_⟩
      intro htarget
      rw [hsuccs] at htarget
      exact absurd (htargetLt clone htarget) (Nat.not_lt_of_le hbound.1)
    constructor
    · intro other hother
      rcases List.mem_append.mp hother with hother | hother
      · exact hcopying.done_mem other hother
      · exact List.mem_singleton.mp hother ▸ hmem
    · change NumbersClones _ _ func'.freshBlock _ _
      rw [hadds.freshBlock_eq, hclones.freshBlock_eq]
      exact hcopying.clones.step hcopying.extends_.freshBlock_le hnot hmapBlocks
    · rw [horigins]
      exact hcopying.extends_.trans hclones.extends_
    · change func'.order = _
      rw [hadds.order_eq, hclones.order_eq, hcopying.order_eq,
        List.append_assoc]
    · rw [horigins]
      exact hadds.mapsToCopies
    · intro other hother
      change other ∈ func'.order at hother
      change cloned.1.blockOrigin other ∈ _
      rw [hadds.order_eq, hclones.order_eq] at hother
      rcases List.mem_append.mp hother with hother | hother
      · rw [show cloned.1.blockOrigin other = now.blockOrigin other from
          hclones.extends_.blockOrigin_eq other
            (hcopying.order_lt hvalid hother)]
        exact hcopying.origin_mem other hother
      · rw [List.mem_singleton.mp hother, hclones.origin_new]
        exact hcopying.origin_mem block (hcopying.mem_order hblockOrder)
    · intro other hother
      change other ∈ func'.order at hother
      rw [horigins]
      apply hadds.copiesBlock
      rw [hadds.order_eq, hclones.order_eq] at hother
      rcases List.mem_append.mp hother with hother | hother
      · exact hcopies other hother
      · rw [List.mem_singleton.mp hother]
        change CopiesBlock _ _ (original.body (cloned.1.blockOrigin _))
        rw [hclones.origin_new]
        exact hclones.copies_new _
          (hcopying.copies block (hcopying.mem_order hblockOrder))
    · intro other hother
      refine (hadds.term_eq other).trans ?_
      rw [hclones.body_old other (holdLt other hother)]
      exact hcopying.term_old other hother
    · intro other hother
      have hlt := hvalid.blocks.bound other (hgraph other hother)
      refine (hadds.body_eq other (Or.inl hother)).trans ?_
      rw [hclones.body_old other (holdLt other hlt)]
      exact hcopying.body_graph other hother
    · intro other hother source hsource
      apply hadds.entry_old
      rw [hclones.body_old other (holdLt other hother)]
      exact hcopying.entry_old other hother source hsource
    · intro key clone hclone
      refine (congrArg Terminator.succs (hadds.term_eq clone)).trans ?_
      rcases hcopying.clones.cases hnot hmapBlocks hclone with
        ⟨rfl, rfl⟩ | hclone
      · exact hsuccs
      · rw [hclones.body_old clone (hcloneLt hclone).1]
        exact hcopying.succs_clone key clone hclone
    · intro key clone hclone
      rcases hcopying.clones.cases hnot hmapBlocks hclone with
        ⟨rfl, rfl⟩ | hclone
      · change leadingPhis (func'.body _).instrs = _
        rw [hadds.body_eq _ (Or.inr hnewNot), hclones.phis_new,
          hcopying.body_graph key hmem]
      · change leadingPhis (func'.body _).instrs = _
        rw [hadds.body_eq _ (Or.inr (hcloneLt hclone).2),
          hclones.body_old clone (hcloneLt hclone).1]
        exact hcopying.phis_clone key clone hclone
    · intro key clone hclone target htarget hgraphTarget
      rcases hcopying.clones.cases hnot hmapBlocks hclone with
        ⟨rfl, rfl⟩ | hclone
      · exact hadds.entry_new target (hsuccs ▸ htarget) hgraphTarget
      · apply hadds.entry_old
        have hkey := hgraph key
          (hcopying.done_mem key (hcopying.clones.mem_of_some hclone).1)
        have hlt := hvalid.blocks.bound target
          (hvalid.blocks.succs_mem key hkey target htarget)
        rw [hclones.body_old target (holdLt target hlt)]
        exact hcopying.entry_clone key clone hclone target htarget hgraphTarget

end Step

theorem replicateBasicBlocks_spec
    (hvalid : Valid original start) (hnodup : graph.Nodup)
    (hgraph : ∀ block ∈ graph, block ∈ start.func.order) :
    ∃ now map newGraph,
      replicateBasicBlocks start graph = some (now, map, newGraph) ∧
        Copying original start graph graph now map newGraph := by
  have hloop : ∀ rest done, done ++ rest = graph → ∀ now map newGraph,
      Copying original start graph done now map newGraph →
        ∃ next map' newGraph',
          rest.foldlM (replicateBasicBlock graph) (now, map, newGraph) =
              some (next, map', newGraph') ∧
            Copying original start graph graph next map' newGraph' := by
    intro rest
    induction rest with
    | nil =>
        intro done hdone now map newGraph hcopying
        rw [List.append_nil] at hdone
        exact ⟨now, map, newGraph, rfl, hdone ▸ hcopying⟩
    | cons block rest ih =>
        intro done hdone now map newGraph hcopying
        have hmem : block ∈ graph := by simp [← hdone]
        have hnot : block ∉ done := by
          intro hblock
          rw [← hdone, List.nodup_append] at hnodup
          exact hnodup.2.2 block hblock block List.mem_cons_self rfl
        obtain ⟨next, map', newGraph', hstep, hnext⟩ :=
          hcopying.step hvalid hgraph hmem hnot
        rw [List.foldlM_cons, hstep]
        exact ih (done ++ [block]) (by simpa using hdone) next map' newGraph'
          hnext
  exact hloop graph [] rfl start .empty [] hvalid.copying_nil

end Replication

end BarrierTailReplication

end Pocl
