import Pocl.ParallelRegions

/-!
# Clones of regions

The clone of a region is described by a renaming of the blocks and of the
values that the region defines.  The new names are fresh, and the value map
afterwards sends every name of the region to its clone.
-/

namespace Pocl

namespace ParallelRegion

/-- A renaming of blocks and of values. -/
structure Copy where
  block : BlockId → BlockId
  value : ValueId → ValueId

def blockValues (content : Block) : List ValueId :=
  content.instrs.map Instr.id ++ [content.term.id]

/-- The values that are defined in the blocks. -/
def definedIn (func : Func) (blocks : List BlockId) : List ValueId :=
  blocks.flatMap fun block => blockValues (func.body block)

/-- New identities for the instructions of a block, with the old operands. -/
def renameIds (rename : ValueId → ValueId) (content : Block) : Block where
  instrs := content.instrs.map fun instr => { instr with id := rename instr.id }
  term := { content.term with id := rename content.term.id }

structure ClonesInstrs
    (next : ValueId) (map : ValueToValueMap) (instrs clones : List Instr)
    (after : ValueToValueMap) (rename : ValueId → ValueId) : Prop where
  clones_eq : clones = instrs.map fun instr =>
    { instr with id := rename instr.id }
  blocks_eq : after.blocks = map.blocks
  values_eq : ∀ value, after.values value =
    if value ∈ instrs.map Instr.id then some (rename value)
    else map.values value
  range : ∀ value ∈ instrs.map Instr.id,
    next ≤ rename value ∧ rename value < next + instrs.length
  injective : ∀ first ∈ instrs.map Instr.id, ∀ second ∈ instrs.map Instr.id,
    rename first = rename second → first = second

theorem cloneInstrs_spec :
    ∀ {instrs : List Instr} (next : ValueId) (map : ValueToValueMap),
      (instrs.map Instr.id).Nodup →
      ∃ rename, ClonesInstrs next map instrs (cloneInstrs next map instrs).1
        (cloneInstrs next map instrs).2 rename
  | [], next, map, _ =>
      ⟨id, rfl, rfl, fun _ => rfl, fun _ hvalue => (nomatch hvalue),
        fun _ hvalue => (nomatch hvalue)⟩
  | instr :: rest, next, map, hnodup => by
      rw [List.map_cons, List.nodup_cons] at hnodup
      obtain ⟨rename, hclones⟩ :=
        cloneInstrs_spec (next + 1) (map.setValue instr.id next) hnodup.2
      have hne : ∀ value ∈ rest.map Instr.id, value ≠ instr.id :=
        fun value hvalue heq => hnodup.1 (heq ▸ hvalue)
      refine ⟨Function.update rename instr.id next, ?_, hclones.blocks_eq, ?_, ?_,
        ?_⟩
      · change { instr with id := next } :: _ = _
        rw [hclones.clones_eq, List.map_cons, Function.update_self]
        congr 1
        apply List.map_congr_left
        intro other hother
        rw [Function.update_of_ne (hne other.id (List.mem_map_of_mem hother))]
      · intro value
        change (cloneInstrs (next + 1) (map.setValue instr.id next) rest).2.values
          value = _
        rw [hclones.values_eq, List.map_cons]
        by_cases hvalue : value = instr.id
        · subst hvalue
          rw [if_neg hnodup.1, if_pos List.mem_cons_self, Function.update_self]
          exact Function.update_self _ _ _
        · rw [Function.update_of_ne hvalue]
          by_cases hrest : value ∈ rest.map Instr.id
          · rw [if_pos hrest, if_pos (List.mem_cons_of_mem _ hrest)]
          · rw [if_neg hrest, if_neg (by simp [hvalue, hrest])]
            exact Function.update_of_ne hvalue _ _
      · intro value hvalue
        rw [List.length_cons]
        rw [List.map_cons] at hvalue
        rcases List.mem_cons.mp hvalue with rfl | hvalue
        · rw [Function.update_self]
          exact ⟨le_refl _, Nat.lt_add_of_pos_right (Nat.succ_pos _)⟩
        · rw [Function.update_of_ne (hne value hvalue)]
          obtain ⟨hlow, hhigh⟩ := hclones.range value hvalue
          exact ⟨(Nat.le_succ _).trans hlow, hhigh.trans_eq (by
            rw [Nat.add_assoc, Nat.add_comm 1])⟩
      · intro first hfirst second hsecond heq
        rw [List.map_cons] at hfirst hsecond
        have hlow : ∀ value ∈ rest.map Instr.id, rename value ≠ next := by
          intro value hvalue
          exact (Nat.lt_of_succ_le (hclones.range value hvalue).1).ne'
        rcases List.mem_cons.mp hfirst with rfl | hfirst
        · rcases List.mem_cons.mp hsecond with rfl | hsecond
          · rfl
          · rw [Function.update_self, Function.update_of_ne (hne second hsecond)]
              at heq
            exact absurd heq.symm (hlow second hsecond)
        · rcases List.mem_cons.mp hsecond with rfl | hsecond
          · rw [Function.update_self, Function.update_of_ne (hne first hfirst)]
              at heq
            exact absurd heq (hlow first hfirst)
          · rw [Function.update_of_ne (hne first hfirst),
              Function.update_of_ne (hne second hsecond)] at heq
            exact hclones.injective first hfirst second hsecond heq

/-- What cloning the blocks of a region does. -/
structure Clones
    (func : Func) (map : ValueToValueMap) (blocks : List BlockId)
    (after : Func) (mapAfter : ValueToValueMap) (copy : Copy) : Prop where
  order_eq : after.order = func.order
  freshBlock_le : func.freshBlock ≤ after.freshBlock
  freshValue_le : func.freshValue ≤ after.freshValue
  block_range : ∀ block ∈ blocks,
    func.freshBlock ≤ copy.block block ∧ copy.block block < after.freshBlock
  block_injective : ∀ first ∈ blocks, ∀ second ∈ blocks,
    copy.block first = copy.block second → first = second
  value_range : ∀ value ∈ definedIn func blocks,
    func.freshValue ≤ copy.value value ∧ copy.value value < after.freshValue
  value_injective : ∀ first ∈ definedIn func blocks,
    ∀ second ∈ definedIn func blocks,
      copy.value first = copy.value second → first = second
  body_old : ∀ block < func.freshBlock, after.body block = func.body block
  body_clone : ∀ block ∈ blocks,
    after.body (copy.block block) = renameIds copy.value (func.body block)
  values_eq : ∀ value, mapAfter.values value =
    if value ∈ definedIn func blocks then some (copy.value value)
    else map.values value
  blocks_eq : ∀ block, mapAfter.blocks block =
    if block ∈ blocks then some (copy.block block) else map.blocks block

theorem Clones.nil (func : Func) (map : ValueToValueMap) :
    Clones func map [] func map ⟨id, id⟩ := by
  constructor
  · rfl
  · exact le_refl _
  · exact le_refl _
  · exact fun _ hblock => nomatch hblock
  · exact fun _ hblock => nomatch hblock
  · exact fun _ hvalue => nomatch hvalue
  · exact fun _ hvalue => nomatch hvalue
  · exact fun _ _ => rfl
  · exact fun _ hblock => nomatch hblock
  · exact fun _ => rfl
  · exact fun _ => rfl

/-- The clone of a single block. -/
theorem cloneBasicBlock_spec
    {func : Func} {block : BlockId} (map : ValueToValueMap)
    (clones : List BlockId) (hblock : block < func.freshBlock)
    (hnodup : (blockValues (func.body block)).Nodup) :
    ∃ after mapAfter copy,
      cloneBasicBlock (func, map, clones) block =
          (after, mapAfter, clones ++ [copy.block block]) ∧
        Clones func map [block] after mapAfter copy := by
  unfold blockValues at hnodup
  rw [List.nodup_append] at hnodup
  obtain ⟨rename, hinstrs⟩ :=
    cloneInstrs_spec func.freshValue map hnodup.1
  have hterm : (func.body block).term.id ∉ (func.body block).instrs.map Instr.id :=
    fun hmem => hnodup.2.2 _ hmem _ (List.mem_singleton_self _) rfl
  have hdefined : definedIn func [block] = blockValues (func.body block) := by
    unfold definedIn
    rw [List.flatMap_cons, List.flatMap_nil, List.append_nil]
  have hmem : ∀ value, value ∈ definedIn func [block] ↔
      value ∈ (func.body block).instrs.map Instr.id ∨
        value = (func.body block).term.id := by
    intro value
    rw [hdefined]
    unfold blockValues
    rw [List.mem_append, List.mem_singleton]
  have hrename : ∀ value ∈ (func.body block).instrs.map Instr.id,
      Function.update rename (func.body block).term.id
        (func.freshValue + (func.body block).instrs.length) value =
      rename value := by
    intro value hvalue
    have hne : value ≠ (func.body block).term.id := fun heq =>
      hterm (heq ▸ hvalue)
    exact Function.update_of_ne hne _ _
  refine ⟨_, _, ⟨fun _ => func.freshBlock, Function.update rename
    (func.body block).term.id
    (func.freshValue + (func.body block).instrs.length)⟩, rfl, ?_⟩
  constructor
  · rfl
  · exact Nat.le_succ _
  · exact (Nat.le_add_right _ _).trans (Nat.le_succ _)
  · intro other _
    exact ⟨le_refl _, Nat.lt_succ_self _⟩
  · intro first hfirst second hsecond _
    rw [List.mem_singleton.mp hfirst, List.mem_singleton.mp hsecond]
  · intro value hvalue
    rcases (hmem value).mp hvalue with hvalue | rfl
    · simp only [hrename value hvalue]
      obtain ⟨hlow, hhigh⟩ := hinstrs.range value hvalue
      exact ⟨hlow, hhigh.trans (Nat.lt_succ_self _)⟩
    · simp only [Function.update_self]
      exact ⟨Nat.le_add_right _ _, Nat.lt_succ_self _⟩
  · intro first hfirst second hsecond heq
    rcases (hmem first).mp hfirst with hfirst | rfl
    · simp only [hrename first hfirst] at heq
      rcases (hmem second).mp hsecond with hsecond | rfl
      · simp only [hrename second hsecond] at heq
        exact hinstrs.injective first hfirst second hsecond heq
      · simp only [Function.update_self] at heq
        exact absurd heq (hinstrs.range first hfirst).2.ne
    · simp only [Function.update_self] at heq
      rcases (hmem second).mp hsecond with hsecond | rfl
      · simp only [hrename second hsecond] at heq
        exact absurd heq.symm (hinstrs.range second hsecond).2.ne
      · rfl
  · intro other hother
    exact Func.setBody_of_ne _ _ hother.ne
  · intro other hother
    rw [List.mem_singleton.mp hother]
    refine (Func.setBody_self _ _ _).trans ?_
    unfold renameIds
    simp only [Function.update_self]
    congr 1
    rw [hinstrs.clones_eq]
    apply List.map_congr_left
    intro instr hinstr
    rw [hrename _ (List.mem_map_of_mem hinstr)]
  · intro value
    change Function.update (cloneInstrs _ _ _).2.values _ _ value = _
    by_cases hvalue : value = (func.body block).term.id
    · subst hvalue
      rw [Function.update_self, if_pos ((hmem _).mpr (Or.inr rfl))]
      simp only [Function.update_self]
    · rw [Function.update_of_ne hvalue, hinstrs.values_eq]
      by_cases hin : value ∈ (func.body block).instrs.map Instr.id
      · rw [if_pos hin, if_pos ((hmem _).mpr (Or.inl hin))]
        simp only [hrename value hin]
      · rw [if_neg hin, if_neg]
        exact fun hdef => ((hmem value).mp hdef).elim hin hvalue
  · intro other
    change Function.update (cloneInstrs _ _ _).2.blocks _ _ other = _
    by_cases hother : other = block
    · subst hother
      rw [Function.update_self, if_pos (List.mem_singleton_self _)]
    · rw [Function.update_of_ne hother, hinstrs.blocks_eq,
        if_neg (by simpa using hother)]

theorem definedIn_congr
    {func after : Func} {blocks : List BlockId}
    (hbody : ∀ block ∈ blocks, after.body block = func.body block) :
    definedIn after blocks = definedIn func blocks := by
  unfold definedIn
  apply List.flatMap_congr
  intro block hblock
  rw [hbody block hblock]

theorem renameIds_congr
    {first second : ValueId → ValueId} {content : Block}
    (hagree : ∀ value ∈ blockValues content, first value = second value) :
    renameIds first content = renameIds second content := by
  unfold blockValues at hagree
  unfold renameIds
  congr 1
  · apply List.map_congr_left
    intro instr hinstr
    rw [hagree _ (List.mem_append_left _ (List.mem_map_of_mem hinstr))]
  · rw [hagree _ (List.mem_append_right _ (List.mem_singleton_self _))]

/-- The renaming of the first block and that of the others. -/
def Copy.join (block : BlockId) (values : List ValueId) (first rest : Copy) :
    Copy where
  block other := if other = block then first.block other else rest.block other
  value other := if other ∈ values then first.value other else rest.value other

theorem injective_of_bound {α : Type} {rename : α → ℕ} (first rest : List α) (bound : ℕ)
    (hfirst : ∀ old ∈ first, rename old < bound) (hrest : ∀ old ∈ rest, bound ≤ rename old)
    (hfirstInjective : ∀ one ∈ first, ∀ two ∈ first, rename one = rename two → one = two)
    (hrestInjective : ∀ one ∈ rest, ∀ two ∈ rest, rename one = rename two → one = two) :
    ∀ one ∈ first ++ rest, ∀ two ∈ first ++ rest, rename one = rename two → one = two := by
  intro one hone two htwo heq
  rcases List.mem_append.mp hone with hone | hone
  · rcases List.mem_append.mp htwo with htwo | htwo
    · exact hfirstInjective one hone two htwo heq
    · exact absurd heq ((hfirst one hone).trans_le (hrest two htwo)).ne
  · rcases List.mem_append.mp htwo with htwo | htwo
    · exact absurd heq.symm ((hfirst two htwo).trans_le (hrest one hone)).ne
    · exact hrestInjective one hone two htwo heq

theorem Clones.cons
    {func middle after : Func} {map mapMiddle mapAfter : ValueToValueMap}
    {block : BlockId} {rest : List BlockId} {first others : Copy}
    (hfirst : Clones func map [block] middle mapMiddle first)
    (hothers : Clones middle mapMiddle rest after mapAfter others)
    (hnot : block ∉ rest) (hrest : ∀ other ∈ rest, other < func.freshBlock)
    (hnodup : (definedIn func (block :: rest)).Nodup) :
    Clones func map (block :: rest) after mapAfter
      (Copy.join block (blockValues (func.body block)) first others) := by
  have hmiddle : definedIn middle rest = definedIn func rest :=
    definedIn_congr fun other hother => hfirst.body_old other (hrest other hother)
  have hsingle : definedIn func [block] = blockValues (func.body block) := by
    unfold definedIn
    rw [List.flatMap_cons, List.flatMap_nil, List.append_nil]
  have hcons : definedIn func (block :: rest) =
      blockValues (func.body block) ++ definedIn func rest := rfl
  rw [hcons, List.nodup_append] at hnodup
  have hdisjoint : ∀ value ∈ definedIn func rest,
      value ∉ blockValues (func.body block) := fun value hvalue hmem =>
    hnodup.2.2 value hmem value hvalue rfl
  have hneRest : ∀ other ∈ rest, other ≠ block := fun other hother heq =>
    hnot (heq ▸ hother)
  have hblockFirst : (Copy.join block (blockValues (func.body block)) first
      others).block block = first.block block := if_pos rfl
  have hblockRest : ∀ other ∈ rest, (Copy.join block
      (blockValues (func.body block)) first others).block other =
        others.block other := fun other hother => if_neg (hneRest other hother)
  have hvalueFirst : ∀ value ∈ blockValues (func.body block), (Copy.join block
      (blockValues (func.body block)) first others).value value =
        first.value value := fun value hvalue => if_pos hvalue
  have hvalueRest : ∀ value ∈ definedIn func rest, (Copy.join block
      (blockValues (func.body block)) first others).value value =
        others.value value := fun value hvalue =>
    if_neg (hdisjoint value hvalue)
  have hfirstRange := hfirst.block_range block (List.mem_singleton_self _)
  have hfirstValues := hfirst.value_range
  have hothersValues := hothers.value_range
  have hfirstInjective := hfirst.value_injective
  have hothersInjective := hothers.value_injective
  rw [hsingle] at hfirstValues hfirstInjective
  rw [hmiddle] at hothersValues hothersInjective
  constructor
  · exact hothers.order_eq.trans hfirst.order_eq
  · exact hfirst.freshBlock_le.trans hothers.freshBlock_le
  · exact hfirst.freshValue_le.trans hothers.freshValue_le
  · intro other hother
    rcases List.mem_cons.mp hother with rfl | hother
    · rw [hblockFirst]
      exact ⟨hfirstRange.1, hfirstRange.2.trans_le hothers.freshBlock_le⟩
    · rw [hblockRest other hother]
      obtain ⟨hlow, hhigh⟩ := hothers.block_range other hother
      exact ⟨hfirst.freshBlock_le.trans hlow, hhigh⟩
  · refine injective_of_bound [block] rest middle.freshBlock ?_ ?_ ?_ ?_
    · intro other hother
      rw [List.mem_singleton.mp hother, hblockFirst]
      exact hfirstRange.2
    · intro other hother
      rw [hblockRest other hother]
      exact (hothers.block_range other hother).1
    · intro one hone two htwo _
      rw [List.mem_singleton.mp hone, List.mem_singleton.mp htwo]
    · intro one hone two htwo heq
      rw [hblockRest one hone, hblockRest two htwo] at heq
      exact hothers.block_injective one hone two htwo heq
  · intro value hvalue
    rw [hcons, List.mem_append] at hvalue
    rcases hvalue with hvalue | hvalue
    · rw [hvalueFirst value hvalue]
      obtain ⟨hlow, hhigh⟩ := hfirstValues value hvalue
      exact ⟨hlow, hhigh.trans_le hothers.freshValue_le⟩
    · rw [hvalueRest value hvalue]
      obtain ⟨hlow, hhigh⟩ := hothersValues value hvalue
      exact ⟨hfirst.freshValue_le.trans hlow, hhigh⟩
  · rw [hcons]
    refine injective_of_bound _ _ middle.freshValue ?_ ?_ ?_ ?_
    · intro value hvalue
      rw [hvalueFirst value hvalue]
      exact (hfirstValues value hvalue).2
    · intro value hvalue
      rw [hvalueRest value hvalue]
      exact (hothersValues value hvalue).1
    · intro one hone two htwo heq
      rw [hvalueFirst one hone, hvalueFirst two htwo] at heq
      exact hfirstInjective one hone two htwo heq
    · intro one hone two htwo heq
      rw [hvalueRest one hone, hvalueRest two htwo] at heq
      exact hothersInjective one hone two htwo heq
  · intro other hother
    rw [hothers.body_old other (hother.trans_le hfirst.freshBlock_le)]
    exact hfirst.body_old other hother
  · intro other hother
    rcases List.mem_cons.mp hother with rfl | hother
    · rw [hblockFirst, hothers.body_old _ hfirstRange.2,
        hfirst.body_clone other (List.mem_singleton_self _),
        renameIds_congr hvalueFirst]
    · rw [hblockRest other hother, hothers.body_clone other hother,
        hfirst.body_old other (hrest other hother), renameIds_congr]
      intro value hvalue
      have hdefined : value ∈ definedIn func rest :=
        List.mem_flatMap.mpr ⟨other, hother, hvalue⟩
      exact (hvalueRest value hdefined).symm
  · intro value
    rw [hothers.values_eq, hmiddle, hfirst.values_eq, hsingle, hcons]
    by_cases hin : value ∈ definedIn func rest
    · rw [if_pos hin, if_pos (List.mem_append_right _ hin), hvalueRest value hin]
    · rw [if_neg hin]
      by_cases hhere : value ∈ blockValues (func.body block)
      · rw [if_pos hhere, if_pos (List.mem_append_left _ hhere),
          hvalueFirst value hhere]
      · rw [if_neg hhere, if_neg (by simp [hin, hhere])]
  · intro other
    rw [hothers.blocks_eq, hfirst.blocks_eq]
    by_cases hin : other ∈ rest
    · rw [if_pos hin, if_pos (List.mem_cons_of_mem _ hin), hblockRest other hin]
    · rw [if_neg hin]
      by_cases hhere : other = block
      · subst hhere
        rw [if_pos (List.mem_singleton_self _), if_pos List.mem_cons_self,
          hblockFirst]
      · rw [if_neg (by simpa using hhere), if_neg (by simp [hin, hhere])]

theorem foldl_cloneBasicBlock_spec :
    ∀ {blocks : List BlockId} {func : Func} (map : ValueToValueMap)
      (clones : List BlockId), blocks.Nodup →
      (∀ block ∈ blocks, block < func.freshBlock) →
      (definedIn func blocks).Nodup →
      ∃ after mapAfter copy,
        blocks.foldl cloneBasicBlock (func, map, clones) =
            (after, mapAfter, clones ++ blocks.map copy.block) ∧
          Clones func map blocks after mapAfter copy
  | [], func, map, clones, _, _, _ =>
      ⟨func, map, ⟨id, id⟩, by rw [List.map_nil, List.append_nil]; rfl,
        Clones.nil func map⟩
  | block :: rest, func, map, clones, hnodup, hbound, hdefined => by
      rw [List.nodup_cons] at hnodup
      have hparts : (blockValues (func.body block)).Nodup ∧
          (definedIn func rest).Nodup := by
        have happend := hdefined
        unfold definedIn at happend
        rw [List.flatMap_cons, List.nodup_append] at happend
        exact ⟨happend.1, happend.2.1⟩
      have hrest : ∀ other ∈ rest, other < func.freshBlock := fun other hother =>
        hbound other (List.mem_cons_of_mem _ hother)
      obtain ⟨middle, mapMiddle, first, hstep, hfirst⟩ :=
        cloneBasicBlock_spec map clones (hbound block List.mem_cons_self) hparts.1
      have hmiddle : definedIn middle rest = definedIn func rest :=
        definedIn_congr fun other hother =>
          hfirst.body_old other (hrest other hother)
      obtain ⟨after, mapAfter, others, hloop, hothers⟩ :=
        foldl_cloneBasicBlock_spec mapMiddle (clones ++ [first.block block])
          hnodup.2
          (fun other hother => (hrest other hother).trans_le hfirst.freshBlock_le)
          (hmiddle ▸ hparts.2)
      refine ⟨after, mapAfter, _, ?_,
        hfirst.cons hothers hnodup.1 hrest hdefined⟩
      rw [List.foldl_cons, hstep, hloop, List.map_cons, List.append_assoc]
      congr 3
      rw [List.singleton_append]
      congr 1
      · exact (if_pos rfl).symm
      · apply List.map_congr_left
        intro other hother
        have hne : other ≠ block := fun heq => hnodup.1 (heq ▸ hother)
        exact (if_neg hne).symm

theorem loadedId_congr
    {module : ModuleValues} {func after : Func}
    (horder : after.order = func.order)
    (hbody : ∀ block ∈ func.order, after.body block = func.body block)
    (value : ValueId) :
    loadedId module after value = loadedId module func value := by
  have hinstrs : (after.order.flatMap fun block => (after.body block).instrs) =
      func.order.flatMap fun block => (func.body block).instrs := by
    rw [horder]
    apply List.flatMap_congr
    intro block hblock
    rw [hbody block hblock]
  unfold loadedId
  rw [hinstrs]

theorem mapBlocks_of_mem
    {func : Func} {blocks : List BlockId} {change : Block → Block}
    {block : BlockId} (hblock : block ∈ blocks) :
    (mapBlocks func blocks change).body block = change (func.body block) :=
  if_pos hblock

theorem mapBlocks_of_not_mem
    {func : Func} {blocks : List BlockId} {change : Block → Block}
    {block : BlockId} (hblock : block ∉ blocks) :
    (mapBlocks func blocks change).body block = func.body block :=
  if_neg hblock

/-- The block with the loads of the local ids localized. -/
def localized
    (module : ModuleValues) (func : Func) (region : ParallelRegion)
    (content : Block) : Block :=
  content.mapOperands (localizeOperand module func region) id

/-- What `replicate` does. -/
structure Replicates
    (module : ModuleValues) (func : Func) (region : ParallelRegion)
    (map : ValueToValueMap) (after : Func) (mapAfter : ValueToValueMap)
    (clone : ParallelRegion) (copy : Copy) : Prop where
  clone_eq : clone = { region with blocks := region.blocks.map copy.block }
  order_eq : after.order = func.order
  freshBlock_le : func.freshBlock ≤ after.freshBlock
  freshValue_le : func.freshValue ≤ after.freshValue
  block_range : ∀ block ∈ region.blocks,
    func.freshBlock ≤ copy.block block ∧ copy.block block < after.freshBlock
  block_injective : ∀ first ∈ region.blocks, ∀ second ∈ region.blocks,
    copy.block first = copy.block second → first = second
  value_range : ∀ value ∈ definedIn func region.blocks,
    func.freshValue ≤ copy.value value ∧ copy.value value < after.freshValue
  value_injective : ∀ first ∈ definedIn func region.blocks,
    ∀ second ∈ definedIn func region.blocks,
      copy.value first = copy.value second → first = second
  body_old : ∀ block < func.freshBlock, after.body block =
    if block ∈ region.blocks then localized module func region (func.body block)
    else func.body block
  body_clone : ∀ block ∈ region.blocks, after.body (copy.block block) =
    (renameIds copy.value (func.body block)).mapOperands mapAfter.value
      mapAfter.block
  values_eq : ∀ value, mapAfter.values value =
    if value ∈ definedIn func region.blocks then some (copy.value value)
    else map.values value
  blocks_eq : ∀ block, mapAfter.blocks block =
    if block ∈ region.blocks then some (copy.block block) else map.blocks block

theorem replicate_spec
    {module : ModuleValues} {func : Func} {region : ParallelRegion}
    (map : ValueToValueMap) (hnodup : region.blocks.Nodup)
    (horder : ∀ block ∈ func.order, block < func.freshBlock)
    (hblocks : ∀ block ∈ region.blocks, block ∈ func.order)
    (hdefined : (definedIn func region.blocks).Nodup) :
    ∃ after mapAfter clone copy,
      region.replicate module func map = (after, mapAfter, clone) ∧
        Replicates module func region map after mapAfter clone copy := by
  have hbound : ∀ block ∈ region.blocks, block < func.freshBlock :=
    fun block hblock => horder block (hblocks block hblock)
  obtain ⟨cloned, mapAfter, copy, hloop, hclones⟩ :=
    foldl_cloneBasicBlock_spec map [] hnodup hbound hdefined
  have hnotClone : ∀ block < func.freshBlock,
      block ∉ region.blocks.map copy.block := by
    intro block hblock hmem
    obtain ⟨other, hother, rfl⟩ := List.mem_map.mp hmem
    exact absurd (hclones.block_range other hother).1 (not_le.mpr hblock)
  have hremap : ∀ block < func.freshBlock,
      (remap cloned { region with blocks := region.blocks.map copy.block }
        mapAfter).body block = func.body block := by
    intro block hblock
    rw [remap, mapBlocks_of_not_mem (hnotClone block hblock)]
    exact hclones.body_old block hblock
  have hlocalize : ∀ value,
      localizeOperand module (remap cloned
        { region with blocks := region.blocks.map copy.block } mapAfter) region
          value = localizeOperand module func region value := by
    intro value
    have hloaded : loadedId module (remap cloned
        { region with blocks := region.blocks.map copy.block } mapAfter) value =
          loadedId module func value := by
      apply loadedId_congr
      · exact hclones.order_eq
      · exact fun block hblock => hremap block (horder block hblock)
    unfold localizeOperand
    rw [hloaded]
  refine ⟨localizeIDLoads module (remap cloned
      { region with blocks := region.blocks.map copy.block } mapAfter) region,
    mapAfter, { region with blocks := region.blocks.map copy.block }, copy, ?_, ?_⟩
  · unfold replicate
    rw [hloop, List.nil_append]
  constructor
  · rfl
  · exact hclones.order_eq
  · exact hclones.freshBlock_le
  · exact hclones.freshValue_le
  · exact hclones.block_range
  · exact hclones.block_injective
  · exact hclones.value_range
  · exact hclones.value_injective
  · intro block hblock
    unfold localizeIDLoads
    by_cases hmem : block ∈ region.blocks
    · rw [mapBlocks_of_mem hmem, if_pos hmem, hremap block hblock]
      unfold localized
      congr 1
      funext value
      exact hlocalize value
    · rw [mapBlocks_of_not_mem hmem, if_neg hmem, hremap block hblock]
  · intro block hblock
    have hnot : copy.block block ∉ region.blocks := fun hmem =>
      absurd (hclones.block_range block hblock).1 (not_le.mpr (hbound _ hmem))
    unfold localizeIDLoads
    rw [mapBlocks_of_not_mem hnot, remap,
      mapBlocks_of_mem (List.mem_map_of_mem hblock),
      hclones.body_clone block hblock]
  · exact hclones.values_eq
  · exact hclones.blocks_eq

end ParallelRegion

end Pocl
