import Pocl.BarrierTailSubgraphs

/-!
# Copies of blocks and their origins

A block copies a block of the original function when its instructions are the
original ones up to the origin of the values and blocks they mention.  For a
PHI node the origins of the incoming entries are those of the original node,
possibly repeated.  Cloning a block, adding incoming entries for a clone and
remapping references all keep a copy a copy.
-/

namespace Pocl

namespace BarrierTailReplication

/-- The identities in use and what they were cloned from. -/
structure Origins where
  freshBlock : BlockId
  freshValue : ValueId
  blockOrigin : BlockId → BlockId
  valueOrigin : ValueId → ValueId

def State.origins (state : State) : Origins :=
  ⟨state.func.freshBlock, state.func.freshValue, state.blockOrigin,
    state.valueOrigin⟩

def Origins.entry (origins : Origins) (entry : ValueId × BlockId) :
    ValueId × BlockId :=
  (origins.valueOrigin entry.1, origins.blockOrigin entry.2)

inductive CopiesKind (origins : Origins) : InstrKind → InstrKind → Prop
  | barrier : CopiesKind origins .barrier .barrier
  | phi {incoming original : List (ValueId × BlockId)} :
      (∀ entry ∈ incoming,
        entry.1 < origins.freshValue ∧ entry.2 < origins.freshBlock) →
      (∀ entry, entry ∈ incoming.map origins.entry ↔ entry ∈ original) →
        CopiesKind origins (.phi incoming) (.phi original)
  | other {opcode : ℕ} {operands original : List ValueId} :
      (∀ value ∈ operands, value < origins.freshValue) →
      operands.map origins.valueOrigin = original →
        CopiesKind origins (.other opcode operands) (.other opcode original)

structure CopiesInstr (origins : Origins) (instr original : Instr) : Prop where
  id_lt : instr.id < origins.freshValue
  id_eq : origins.valueOrigin instr.id = original.id
  kind : CopiesKind origins instr.kind original.kind

structure CopiesTerm (origins : Origins) (term original : Terminator) :
    Prop where
  id_lt : term.id < origins.freshValue
  id_eq : origins.valueOrigin term.id = original.id
  opcode_eq : term.opcode = original.opcode
  operands_lt : ∀ value ∈ term.operands, value < origins.freshValue
  operands_eq : term.operands.map origins.valueOrigin = original.operands
  succs_lt : ∀ target ∈ term.succs, target < origins.freshBlock
  succs_eq : term.succs.map origins.blockOrigin = original.succs

structure CopiesBlock (origins : Origins) (block original : Block) : Prop where
  instrs : List.Forall₂ (CopiesInstr origins) block.instrs original.instrs
  term : CopiesTerm origins block.term original.term

theorem CopiesKind.isBarrier
    {origins : Origins} {kind original : InstrKind}
    (hcopies : CopiesKind origins kind original) :
    kind.isBarrier = original.isBarrier := by
  cases hcopies <;> rfl

theorem CopiesBlock.hasBarrier
    {origins : Origins} {block original : Block}
    (hcopies : CopiesBlock origins block original) :
    block.hasBarrier = original.hasBarrier := by
  have hany : ∀ {instrs originals : List Instr},
      List.Forall₂ (CopiesInstr origins) instrs originals →
        (instrs.any fun instr => instr.kind.isBarrier) =
          originals.any fun instr => instr.kind.isBarrier := by
    intro instrs originals hinstrs
    induction hinstrs with
    | nil => rfl
    | cons hinstr _ ih =>
        rw [List.any_cons, List.any_cons, ih, hinstr.kind.isBarrier]
  exact hany hcopies.instrs

section Extension

/-- Later identities are added and known ones keep their origin. -/
structure Origins.Extends (before after : Origins) : Prop where
  freshBlock_le : before.freshBlock ≤ after.freshBlock
  freshValue_le : before.freshValue ≤ after.freshValue
  blockOrigin_eq : ∀ block < before.freshBlock,
    after.blockOrigin block = before.blockOrigin block
  valueOrigin_eq : ∀ value < before.freshValue,
    after.valueOrigin value = before.valueOrigin value

variable {before middle after : Origins}

theorem Origins.Extends.refl (origins : Origins) : origins.Extends origins :=
  ⟨le_refl _, le_refl _, fun _ _ => rfl, fun _ _ => rfl⟩

theorem Origins.Extends.trans
    (hfirst : before.Extends middle) (hnext : middle.Extends after) :
    before.Extends after := by
  constructor
  · exact hfirst.freshBlock_le.trans hnext.freshBlock_le
  · exact hfirst.freshValue_le.trans hnext.freshValue_le
  · intro block hblock
    rw [hnext.blockOrigin_eq block (hblock.trans_le hfirst.freshBlock_le),
      hfirst.blockOrigin_eq block hblock]
  · intro value hvalue
    rw [hnext.valueOrigin_eq value (hvalue.trans_le hfirst.freshValue_le),
      hfirst.valueOrigin_eq value hvalue]

theorem CopiesKind.mono
    {kind original : InstrKind} (hextends : before.Extends after)
    (hcopies : CopiesKind before kind original) :
    CopiesKind after kind original := by
  cases hcopies with
  | barrier => exact CopiesKind.barrier
  | @phi incoming _ hbound heq =>
      have hmap : incoming.map after.entry = incoming.map before.entry := by
        apply List.map_congr_left
        intro entry hentry
        unfold Origins.entry
        rw [hextends.valueOrigin_eq _ (hbound entry hentry).1,
          hextends.blockOrigin_eq _ (hbound entry hentry).2]
      refine CopiesKind.phi ?_ (by rwa [hmap])
      intro entry hentry
      exact ⟨(hbound entry hentry).1.trans_le hextends.freshValue_le,
        (hbound entry hentry).2.trans_le hextends.freshBlock_le⟩
  | @other opcode operands _ hbound heq =>
      refine CopiesKind.other ?_ ?_
      · exact fun value hvalue =>
          (hbound value hvalue).trans_le hextends.freshValue_le
      · rw [← heq]
        apply List.map_congr_left
        exact fun value hvalue =>
          hextends.valueOrigin_eq value (hbound value hvalue)

theorem CopiesInstr.mono
    {instr original : Instr} (hextends : before.Extends after)
    (hcopies : CopiesInstr before instr original) :
    CopiesInstr after instr original where
  id_lt := hcopies.id_lt.trans_le hextends.freshValue_le
  id_eq := by rw [hextends.valueOrigin_eq _ hcopies.id_lt, hcopies.id_eq]
  kind := hcopies.kind.mono hextends

theorem CopiesTerm.mono
    {term original : Terminator} (hextends : before.Extends after)
    (hcopies : CopiesTerm before term original) :
    CopiesTerm after term original where
  id_lt := hcopies.id_lt.trans_le hextends.freshValue_le
  id_eq := by rw [hextends.valueOrigin_eq _ hcopies.id_lt, hcopies.id_eq]
  opcode_eq := hcopies.opcode_eq
  operands_lt := fun value hvalue =>
    (hcopies.operands_lt value hvalue).trans_le hextends.freshValue_le
  operands_eq := by
    rw [← hcopies.operands_eq]
    exact List.map_congr_left fun value hvalue =>
      hextends.valueOrigin_eq value (hcopies.operands_lt value hvalue)
  succs_lt := fun target htarget =>
    (hcopies.succs_lt target htarget).trans_le hextends.freshBlock_le
  succs_eq := by
    rw [← hcopies.succs_eq]
    exact List.map_congr_left fun target htarget =>
      hextends.blockOrigin_eq target (hcopies.succs_lt target htarget)

theorem CopiesBlock.mono
    {block original : Block} (hextends : before.Extends after)
    (hcopies : CopiesBlock before block original) :
    CopiesBlock after block original where
  instrs := hcopies.instrs.imp fun _ _ h => h.mono hextends
  term := hcopies.term.mono hextends

end Extension

section Maps

/-- The reference map sends every value and block to one of the same origin. -/
structure MapsToCopies (origins : Origins) (map : ValueToValueMap) : Prop where
  block : ∀ key entry, map.blocks key = some entry →
    key < origins.freshBlock ∧ entry < origins.freshBlock ∧
      origins.blockOrigin entry = origins.blockOrigin key
  value : ∀ key entry, map.values key = some (some entry) →
    key < origins.freshValue ∧ entry < origins.freshValue ∧
      origins.valueOrigin entry = origins.valueOrigin key

variable {origins before after : Origins} {map : ValueToValueMap}

theorem MapsToCopies.empty (origins : Origins) :
    MapsToCopies origins .empty := by
  constructor <;> simp [ValueToValueMap.empty]

theorem MapsToCopies.mono
    (hextends : before.Extends after) (hmap : MapsToCopies before map) :
    MapsToCopies after map := by
  constructor
  · intro key entry hentry
    obtain ⟨hkey, hlt, heq⟩ := hmap.block key entry hentry
    rw [hextends.blockOrigin_eq key hkey, hextends.blockOrigin_eq entry hlt]
    exact ⟨hkey.trans_le hextends.freshBlock_le,
      hlt.trans_le hextends.freshBlock_le, heq⟩
  · intro key entry hentry
    obtain ⟨hkey, hlt, heq⟩ := hmap.value key entry hentry
    rw [hextends.valueOrigin_eq key hkey, hextends.valueOrigin_eq entry hlt]
    exact ⟨hkey.trans_le hextends.freshValue_le,
      hlt.trans_le hextends.freshValue_le, heq⟩

@[simp] theorem insertValue_blocks
    (map : ValueToValueMap) (key : ValueId) (entry : Option ValueId) :
    (map.insertValue key entry).blocks = map.blocks := by
  unfold ValueToValueMap.insertValue
  split <;> rfl

theorem insertBlock_values (map : ValueToValueMap) (key block : BlockId) :
    (map.insertBlock key block).values = map.values := by
  unfold ValueToValueMap.insertBlock
  split <;> rfl

theorem MapsToCopies.insertValue
    (hmap : MapsToCopies origins map) {key : ValueId} {entry : Option ValueId}
    (hkey : key < origins.freshValue)
    (hentry : ∀ value ∈ entry, value < origins.freshValue ∧
      origins.valueOrigin value = origins.valueOrigin key) :
    MapsToCopies origins (map.insertValue key entry) := by
  constructor
  · rw [insertValue_blocks]
    exact hmap.block
  · intro other value hvalue
    unfold ValueToValueMap.insertValue at hvalue
    split at hvalue
    · exact hmap.value other value hvalue
    · simp only [Function.update_apply] at hvalue
      split at hvalue
      · rename_i heq
        rw [Option.some.injEq] at hvalue
        rw [heq]
        exact ⟨hkey, hentry value hvalue⟩
      · exact hmap.value other value hvalue

theorem MapsToCopies.insertBlock
    (hmap : MapsToCopies origins map) {key entry : BlockId}
    (hkey : key < origins.freshBlock) (hlt : entry < origins.freshBlock)
    (heq : origins.blockOrigin entry = origins.blockOrigin key) :
    MapsToCopies origins (map.insertBlock key entry) := by
  constructor
  · intro other block hblock
    unfold ValueToValueMap.insertBlock at hblock
    split at hblock
    · exact hmap.block other block hblock
    · simp only [Function.update_apply] at hblock
      split at hblock
      · rename_i hother
        rw [Option.some.injEq] at hblock
        rw [hother, ← hblock]
        exact ⟨hkey, hlt, heq⟩
      · exact hmap.block other block hblock
  · rw [insertBlock_values]
    exact hmap.value

theorem MapsToCopies.value_spec
    (hmap : MapsToCopies origins map) {key : ValueId}
    (hkey : key < origins.freshValue) :
    map.value key < origins.freshValue ∧
      origins.valueOrigin (map.value key) = origins.valueOrigin key := by
  unfold ValueToValueMap.value
  cases hentry : (map.values key).join with
  | none => exact ⟨hkey, rfl⟩
  | some entry => exact (hmap.value key entry (Option.join_eq_some_iff.mp hentry)).2

theorem MapsToCopies.block_spec
    (hmap : MapsToCopies origins map) {key : BlockId}
    (hkey : key < origins.freshBlock) :
    map.block key < origins.freshBlock ∧
      origins.blockOrigin (map.block key) = origins.blockOrigin key := by
  unfold ValueToValueMap.block
  cases hentry : map.blocks key with
  | none => exact ⟨hkey, rfl⟩
  | some entry => exact (hmap.block key entry hentry).2

theorem MapsToCopies.map_value
    (hmap : MapsToCopies origins map) {values : List ValueId}
    (hbound : ∀ value ∈ values, value < origins.freshValue) :
    (∀ value ∈ values.map map.value, value < origins.freshValue) ∧
      (values.map map.value).map origins.valueOrigin =
        values.map origins.valueOrigin := by
  constructor
  · intro value hvalue
    obtain ⟨key, hkey, rfl⟩ := List.mem_map.mp hvalue
    exact (hmap.value_spec (hbound key hkey)).1
  · rw [List.map_map]
    exact List.map_congr_left fun key hkey =>
      (hmap.value_spec (hbound key hkey)).2

theorem CopiesKind.remap
    (hmap : MapsToCopies origins map) {kind original : InstrKind}
    (hcopies : CopiesKind origins kind original) :
    CopiesKind origins (map.remapKind kind) original := by
  cases hcopies with
  | barrier => exact CopiesKind.barrier
  | @phi incoming _ hbound heq =>
      refine CopiesKind.phi ?_ ?_
      · intro entry hentry
        obtain ⟨key, hkey, rfl⟩ := List.mem_map.mp hentry
        exact ⟨(hmap.value_spec (hbound key hkey).1).1,
          (hmap.block_spec (hbound key hkey).2).1⟩
      · have hsame :
            (incoming.map fun entry =>
              (map.value entry.1, map.block entry.2)).map origins.entry =
                incoming.map origins.entry := by
          rw [List.map_map]
          apply List.map_congr_left
          intro entry hentry
          exact Prod.ext (hmap.value_spec (hbound entry hentry).1).2
            (hmap.block_spec (hbound entry hentry).2).2
        rw [hsame]
        exact heq
  | @other opcode operands _ hbound heq =>
      have hvalues := hmap.map_value hbound
      exact CopiesKind.other hvalues.1 (hvalues.2.trans heq)

theorem CopiesBlock.remap
    (hmap : MapsToCopies origins map) {block original : Block}
    (hcopies : CopiesBlock origins block original) :
    CopiesBlock origins (map.remapBlock block) original := by
  have hvalues := hmap.map_value hcopies.term.operands_lt
  constructor
  · unfold ValueToValueMap.remapBlock
    rw [List.forall₂_map_left_iff]
    exact hcopies.instrs.imp fun _ _ hinstr =>
      ⟨hinstr.id_lt, hinstr.id_eq, hinstr.kind.remap hmap⟩
  · constructor
    · exact hcopies.term.id_lt
    · exact hcopies.term.id_eq
    · exact hcopies.term.opcode_eq
    · exact hvalues.1
    · exact hvalues.2.trans hcopies.term.operands_eq
    · intro target htarget
      obtain ⟨key, hkey, rfl⟩ := List.mem_map.mp htarget
      exact (hmap.block_spec (hcopies.term.succs_lt key hkey)).1
    · refine Eq.trans ?_ hcopies.term.succs_eq
      change (block.term.succs.map map.block).map origins.blockOrigin = _
      rw [List.map_map]
      exact List.map_congr_left fun key hkey =>
        (hmap.block_spec (hcopies.term.succs_lt key hkey)).2

end Maps

section Cloning

@[simp] theorem cloneValue_func
    (state : State) (map : ValueToValueMap) (value : ValueId) :
    (cloneValue state map value).1.func =
      { state.func with freshValue := state.func.freshValue + 1 } :=
  rfl

theorem cloneValue_extends
    (state : State) (map : ValueToValueMap) (value : ValueId) :
    state.origins.Extends (cloneValue state map value).1.origins := by
  constructor
  · exact le_refl _
  · exact Nat.le_succ _
  · exact fun _ _ => rfl
  · intro other hother
    exact Function.update_of_ne (Nat.ne_of_lt hother) _ _

theorem cloneValue_origin
    (state : State) (map : ValueToValueMap) (value : ValueId) :
    (cloneValue state map value).1.origins.valueOrigin
        (cloneValue state map value).2.2 = state.origins.valueOrigin value :=
  Function.update_self _ _ _

theorem cloneValue_mapsToCopies
    {state : State} {map : ValueToValueMap} {value : ValueId}
    (hmap : MapsToCopies state.origins map)
    (hvalue : value < state.func.freshValue) :
    MapsToCopies (cloneValue state map value).1.origins
      (cloneValue state map value).2.1 := by
  have hextends := cloneValue_extends state map value
  apply (hmap.mono hextends).insertValue
  · exact lt_of_lt_of_le hvalue hextends.freshValue_le
  · intro entry hentry
    obtain rfl := Option.some.inj hentry
    refine ⟨Nat.lt_succ_self _, ?_⟩
    rw [hextends.valueOrigin_eq value hvalue]
    exact cloneValue_origin state map value

/-- The clones of a list of instructions, under new identities. -/
structure ClonesInstrs
    (state : State) (map : ValueToValueMap) (instrs : List Instr)
    (result : State × ValueToValueMap × List Instr) : Prop where
  func_eq : result.1.func =
    { state.func with
      freshValue := state.func.freshValue + instrs.length }
  blockOrigin_eq : result.1.blockOrigin = state.blockOrigin
  extends_ : state.origins.Extends result.1.origins
  blocks_eq : result.2.1.blocks = map.blocks
  kinds_eq : result.2.2.map Instr.kind = instrs.map Instr.kind
  mapsToCopies : MapsToCopies state.origins map →
    (∀ instr ∈ instrs, instr.id < state.func.freshValue) →
      MapsToCopies result.1.origins result.2.1
  copies : ∀ originals,
    List.Forall₂ (CopiesInstr state.origins) instrs originals →
      List.Forall₂ (CopiesInstr result.1.origins) result.2.2 originals

theorem cloneInstrs_spec
    (instrs : List Instr) (state : State) (map : ValueToValueMap) :
    ClonesInstrs state map instrs (cloneInstrs state map instrs) := by
  induction instrs generalizing state map with
  | nil =>
      constructor
      · rfl
      · rfl
      · exact Origins.Extends.refl _
      · rfl
      · rfl
      · exact fun hmap _ => hmap
      · exact fun originals hcopies => hcopies
  | cons instr rest ih =>
      have hhead := cloneValue_extends state map instr.id
      have hrest := ih (cloneValue state map instr.id).1
        (cloneValue state map instr.id).2.1
      constructor
      · refine hrest.func_eq.trans ?_
        have hlength : state.func.freshValue + 1 + rest.length =
            state.func.freshValue + (instr :: rest).length :=
          Nat.add_right_comm _ _ _
        exact congrArg
          (fun fresh => { state.func with freshValue := fresh }) hlength
      · exact hrest.blockOrigin_eq
      · exact hhead.trans hrest.extends_
      · exact hrest.blocks_eq.trans (insertValue_blocks _ _ _)
      · exact congrArg (List.cons instr.kind) hrest.kinds_eq
      · intro hmap hids
        apply hrest.mapsToCopies
        · exact cloneValue_mapsToCopies hmap (hids instr List.mem_cons_self)
        · intro other hother
          exact lt_of_lt_of_le (hids other (List.mem_cons_of_mem _ hother))
            hhead.freshValue_le
      · intro originals hcopies
        cases hcopies with
        | @cons _ original _ originals hinstr hinstrs =>
            have hnew : CopiesInstr (cloneValue state map instr.id).1.origins
                { instr with id := (cloneValue state map instr.id).2.2 }
                original := by
              constructor
              · exact Nat.lt_succ_self _
              · exact (cloneValue_origin state map instr.id).trans hinstr.id_eq
              · exact hinstr.kind.mono hhead
            refine List.Forall₂.cons (hnew.mono hrest.extends_) ?_
            exact hrest.copies originals
              (hinstrs.imp fun _ _ h => h.mono hhead)

end Cloning

section Incoming

/-- Every PHI node at the start of a block has an entry for `source`. -/
def HasEntry (instrs : List Instr) (source : BlockId) : Prop :=
  ∀ incoming ∈ leadingPhis instrs, source ∈ incoming.map Prod.snd

instance (instrs : List Instr) (source : BlockId) :
    Decidable (HasEntry instrs source) :=
  inferInstanceAs (Decidable
    (∀ incoming ∈ leadingPhis instrs, source ∈ incoming.map Prod.snd))

theorem leadingPhis_congr :
    ∀ {instrs instrs' : List Instr},
      instrs'.map Instr.kind = instrs.map Instr.kind →
        leadingPhis instrs' = leadingPhis instrs
  | [], [], _ => rfl
  | [], _ :: _, h => by simp at h
  | _ :: _, [], h => by simp at h
  | instr :: rest, instr' :: rest', h => by
      rw [List.map_cons, List.map_cons, List.cons.injEq] at h
      unfold leadingPhis
      rw [h.1]
      cases instr.kind with
      | phi incoming => exact congrArg (List.cons incoming) (leadingPhis_congr h.2)
      | barrier => rfl
      | other _ _ => rfl

/-- What `addIncoming` does to the instructions of a block. -/
structure AddsIncoming
    (origins : Origins) (newBlock : BlockId) (map : ValueToValueMap)
    (instrs : List Instr) (map' : ValueToValueMap) (instrs' : List Instr) :
    Prop where
  blocks_eq : map'.blocks = map.blocks
  mapsToCopies : MapsToCopies origins map'
  entry_new : HasEntry instrs' newBlock
  entry_old : ∀ source, HasEntry instrs source → HasEntry instrs' source
  copies : ∀ originals,
    List.Forall₂ (CopiesInstr origins) instrs originals →
      List.Forall₂ (CopiesInstr origins) instrs' originals

theorem HasEntry.of_cons
    {instr : Instr} {rest : List Instr} {source : BlockId}
    {incoming : List (ValueId × BlockId)} (hkind : instr.kind = .phi incoming)
    (hentry : HasEntry (instr :: rest) source) :
    source ∈ incoming.map Prod.snd ∧ HasEntry rest source := by
  unfold HasEntry leadingPhis at hentry
  rw [hkind] at hentry
  exact ⟨hentry incoming List.mem_cons_self,
    fun other hother => hentry other (List.mem_cons_of_mem _ hother)⟩

theorem HasEntry.cons
    {id : ValueId} {rest : List Instr} {source : BlockId}
    {incoming : List (ValueId × BlockId)}
    (hmem : source ∈ incoming.map Prod.snd) (hrest : HasEntry rest source) :
    HasEntry ({ id := id, kind := .phi incoming } :: rest) source := by
  intro other hother
  rcases List.mem_cons.mp hother with rfl | hother
  · exact hmem
  · exact hrest other hother

theorem hasEntry_of_not_phi
    {instr : Instr} {rest : List Instr}
    (hkind : ∀ incoming, instr.kind ≠ .phi incoming) (source : BlockId) :
    HasEntry (instr :: rest) source := by
  intro incoming hincoming
  unfold leadingPhis at hincoming
  cases hcase : instr.kind with
  | phi other => exact absurd hcase (hkind other)
  | barrier => simp [hcase] at hincoming
  | other _ _ => simp [hcase] at hincoming

theorem addIncoming_of_not_phi
    {block newBlock : BlockId} {map : ValueToValueMap} {instr : Instr}
    {rest : List Instr} (hkind : ∀ incoming, instr.kind ≠ .phi incoming) :
    addIncoming block newBlock map (instr :: rest) =
      some (map, instr :: rest) := by
  unfold addIncoming
  cases hcase : instr.kind with
  | phi other => exact absurd hcase (hkind other)
  | barrier => rfl
  | other _ _ => rfl

/-- A new entry of the same origin as an existing one keeps a copied PHI node
a copy. -/
theorem CopiesKind.addEntry
    {origins : Origins} {incoming : List (ValueId × BlockId)}
    {original : InstrKind} {entry newEntry : ValueId × BlockId}
    (hcopies : CopiesKind origins (.phi incoming) original)
    (hmem : entry ∈ incoming)
    (hbound : newEntry.1 < origins.freshValue ∧
      newEntry.2 < origins.freshBlock)
    (heq : origins.entry newEntry = origins.entry entry) :
    CopiesKind origins (.phi (incoming ++ [newEntry])) original := by
  cases hcopies with
  | phi hbounds hentries =>
      refine CopiesKind.phi ?_ ?_
      · intro other hother
        rcases List.mem_append.mp hother with hother | hother
        · exact hbounds other hother
        · rw [List.mem_singleton.mp hother]
          exact hbound
      · intro other
        rw [← hentries other, List.map_append, List.mem_append, List.map_singleton,
          List.mem_singleton]
        constructor
        · rintro (hother | hother)
          · exact hother
          · rw [hother, heq]
            exact List.mem_map_of_mem hmem
        · exact Or.inl

theorem addIncoming_spec
    {origins : Origins} {block newBlock : BlockId}
    (hnew : newBlock < origins.freshBlock)
    (horigin : origins.blockOrigin newBlock = origins.blockOrigin block)
    (instrs : List Instr) {map : ValueToValueMap}
    (hmap : MapsToCopies origins map) (hentry : HasEntry instrs block)
    (hbound : ∀ incoming ∈ leadingPhis instrs, ∀ entry ∈ incoming,
      entry.1 < origins.freshValue) :
    ∃ map' instrs', addIncoming block newBlock map instrs =
        some (map', instrs') ∧
      AddsIncoming origins newBlock map instrs map' instrs' := by
  induction instrs generalizing map with
  | nil =>
      refine ⟨map, [], rfl, rfl, hmap, ?_, fun _ h => h, fun _ h => h⟩
      intro incoming hincoming
      simp [leadingPhis] at hincoming
  | cons instr rest ih =>
      by_cases hphi : ∀ incoming, instr.kind ≠ .phi incoming
      · exact ⟨map, instr :: rest, addIncoming_of_not_phi hphi, rfl, hmap,
          hasEntry_of_not_phi hphi newBlock, fun _ h => h, fun _ h => h⟩
      · push Not at hphi
        obtain ⟨incoming, hkind⟩ := hphi
        obtain ⟨hmem, hrest⟩ := hentry.of_cons hkind
        obtain ⟨value, hvalue, hvalueMem⟩ :=
          getIncomingValueForBlock_of_mem hmem
        have hphis : leadingPhis (instr :: rest) =
            incoming :: leadingPhis rest := by
          rw [leadingPhis, hkind]
        rw [hphis] at hbound
        have hlt : value < origins.freshValue :=
          hbound incoming List.mem_cons_self _ hvalueMem
        have hnewValue := hmap.value_spec hlt
        have hinsert : MapsToCopies origins (map.insertValue value none) :=
          hmap.insertValue hlt (by simp)
        obtain ⟨map', rest', hrun, hadds⟩ := ih hinsert hrest
          (fun other hother => hbound other (List.mem_cons_of_mem _ hother))
        refine ⟨map', { instr with
          kind := .phi (incoming ++ [(map.value value, newBlock)]) } :: rest',
          ?_, ?_⟩
        · unfold addIncoming
          rw [hkind]
          change (getIncomingValueForBlock incoming block).bind _ = _
          rw [hvalue, Option.bind_some]
          change (addIncoming block newBlock (map.insertValue value none)
            rest).bind _ = _
          rw [hrun]
          rfl
        · constructor
          · exact hadds.blocks_eq.trans (insertValue_blocks _ _ _)
          · exact hadds.mapsToCopies
          · exact HasEntry.cons (by simp) hadds.entry_new
          · intro source hsource
            obtain ⟨hsourceMem, hsourceRest⟩ := hsource.of_cons hkind
            refine HasEntry.cons ?_ (hadds.entry_old source hsourceRest)
            rw [List.map_append]
            exact List.mem_append_left _ hsourceMem
          · intro originals hcopies
            cases hcopies with
            | @cons _ original _ originals hinstr hinstrs =>
                refine List.Forall₂.cons ?_ (hadds.copies originals hinstrs)
                refine ⟨hinstr.id_lt, hinstr.id_eq, ?_⟩
                have hkindCopies := hinstr.kind
                rw [hkind] at hkindCopies
                exact hkindCopies.addEntry hvalueMem ⟨hnewValue.1, hnew⟩
                  (Prod.ext hnewValue.2 horigin)

end Incoming

end BarrierTailReplication

end Pocl
