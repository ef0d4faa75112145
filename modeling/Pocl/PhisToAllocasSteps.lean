import Pocl.PhisToAllocas

/-!
# One PHI node replaced

`WellFormed` collects what the verifier guarantees of a function in static
single assignment form, weakened so that it also holds of the functions between
two replacements, where loads stand among the remaining PHI nodes.  Replacing
one PHI node changes every block in the same way: the node becomes a load, its
uses are renamed, and the stores for the block are appended.
-/

namespace Pocl

namespace PhisToAllocas

open Ssa

/-- The values an operation reads, and the slots it names. -/
def operandsOf : Operation → List ValueId
  | .phi incoming => incoming.map Prod.fst
  | .alloca => []
  | .load slot => [slot]
  | .store value slot => [value, slot]
  | .ordinary _ operands => operands

def slotsOf : Operation → List ValueId
  | .load slot => [slot]
  | .store _ slot => [slot]
  | _ => []

def entriesOf : Operation → List (ValueId × BlockId)
  | .phi incoming => incoming
  | _ => []

/-- Only PHI nodes and loads stand before a PHI node. -/
def PhisFirst : List Instruction → Prop
  | [] => True
  | instr :: rest =>
      ((instr.operation.isPhi = false ∧ instr.operation.isLoad = false) →
        ∀ later ∈ rest, later.operation.isPhi = false) ∧ PhisFirst rest

structure WellFormed (func : Function) : Prop where
  nonempty : func.order ≠ []
  succs_mem : ∀ block ∈ func.order, ∀ target ∈ (func.body block).succs,
    target ∈ func.order
  id_lt : ∀ block ∈ func.order, ∀ instr ∈ (func.body block).instrs,
    instr.id < func.fresh
  operand_lt : ∀ block ∈ func.order, ∀ instr ∈ (func.body block).instrs,
    ∀ value ∈ operandsOf instr.operation, value < func.fresh
  branch_lt : ∀ block ∈ func.order, ∀ value ∈ (func.body block).operands,
    value < func.fresh
  phi_entry : ∀ block ∈ func.order, ∀ target ∈ (func.body block).succs,
    ∀ instr ∈ (func.body target).instrs, instr.operation.isPhi = true →
      block ∈ (entriesOf instr.operation).map Prod.snd
  phi_agree : ∀ block ∈ func.order, ∀ instr ∈ (func.body block).instrs,
    ∀ first ∈ entriesOf instr.operation,
      ∀ second ∈ entriesOf instr.operation, first.2 = second.2 →
        first.1 = second.1
  phi_once : ∀ block ∈ func.order, ∀ instr ∈ (func.body block).instrs,
    instr.operation.isPhi = true →
      ((func.body block).instrs.map Instruction.id).count instr.id = 1
  phi_block : ∀ block ∈ func.order, ∀ instr ∈ (func.body block).instrs,
    instr.operation.isPhi = true → ∀ other ∈ func.order,
      ∀ same ∈ (func.body other).instrs, same.id = instr.id → other = block
  phi_slot : ∀ block ∈ func.order, ∀ instr ∈ (func.body block).instrs,
    instr.operation.isPhi = true → ∀ other ∈ func.order,
      ∀ user ∈ (func.body other).instrs,
        instr.id ∉ slotsOf user.operation
  phis_first : ∀ block ∈ func.order, PhisFirst (func.body block).instrs
  entry_phi : ∀ instr ∈ (func.body func.entry).instrs,
    instr.operation.isPhi = false

theorem WellFormed.entry_mem {func : Function} (hwf : WellFormed func) :
    func.entry ∈ func.order := by
  unfold Function.entry
  cases horder : func.order with
  | nil => exact absurd horder hwf.nonempty
  | cons head tail => simp

section Renaming

variable {old new value : ValueId}

theorem renameUse_of_ne (hne : value ≠ old) : renameUse old new value = value :=
  if_neg hne

@[simp] theorem isPhi_renameOperation (operation : Operation) :
    (renameOperation old new operation).isPhi = operation.isPhi := by
  cases operation <;> rfl

@[simp] theorem isLoad_renameOperation (operation : Operation) :
    (renameOperation old new operation).isLoad = operation.isLoad := by
  cases operation <;> rfl

theorem operandsOf_renameOperation (operation : Operation) :
    operandsOf (renameOperation old new operation) =
      (operandsOf operation).map (renameUse old new) := by
  cases operation <;> simp [renameOperation, operandsOf]

theorem slotsOf_renameOperation (operation : Operation) :
    slotsOf (renameOperation old new operation) =
      (slotsOf operation).map (renameUse old new) := by
  cases operation <;> rfl

theorem entriesOf_renameOperation (operation : Operation) :
    entriesOf (renameOperation old new operation) =
      (entriesOf operation).map fun entry =>
        (renameUse old new entry.1, entry.2) := by
  cases operation <;> rfl

end Renaming

/-- What becomes of an instruction when `phi` is replaced. -/
def editInstr (phi load alloca : ValueId) (instr : Instruction) :
    Instruction :=
  if instr.id = phi then
    ⟨load, .load alloca⟩
  else
    { instr with operation := renameOperation phi load instr.operation }

/-- The function after the replacement of one PHI node. -/
structure Replaces
    (func : Function) (block : BlockId) (phi : ValueId)
    (incoming : List (ValueId × BlockId)) (load alloca : ValueId)
    (after : Function) : Prop where
  order_eq : after.order = func.order
  alloca_eq : alloca = func.fresh
  alloca_lt : func.fresh < load
  load_lt : load < after.fresh
  succs_eq : ∀ other, (after.body other).succs = (func.body other).succs
  opcode_eq : ∀ other, (after.body other).opcode = (func.body other).opcode
  operands_eq : ∀ other, (after.body other).operands =
    (func.body other).operands.map (renameUse phi load)
  instrs_eq : ∀ other ∈ func.order, ∃ stores,
    (after.body other).instrs =
        (if other = func.entry then [⟨alloca, .alloca⟩] else []) ++
          (func.body other).instrs.map (editInstr phi load alloca) ++
          stores ∧
      stores.map Instruction.operation =
        (incoming.filter fun entry => entry.2 = other).map
          (fun entry => .store (renameUse phi load entry.1) alloca) ∧
      ∀ store ∈ stores, func.fresh < store.id ∧ store.id < load

section Stores

theorem foldl_createStore_spec
    (alloca : ValueId) (incoming : List (ValueId × BlockId))
    (func : Function) :
    (incoming.foldl (createStore alloca) func).order = func.order ∧
      (incoming.foldl (createStore alloca) func).fresh =
        func.fresh + incoming.length ∧
      ∀ other, ∃ stores,
        (incoming.foldl (createStore alloca) func).body other =
            { func.body other with
              instrs := (func.body other).instrs ++ stores } ∧
          stores.map Instruction.operation =
            (incoming.filter fun entry => entry.2 = other).map
              (fun entry => .store entry.1 alloca) ∧
          ∀ store ∈ stores, func.fresh ≤ store.id ∧
            store.id < func.fresh + incoming.length := by
  induction incoming generalizing func with
  | nil =>
      refine ⟨rfl, rfl, fun other => ⟨[], ?_, rfl, by simp⟩⟩
      simp
  | cons entry rest ih =>
      obtain ⟨horder, hfresh, hbody⟩ := ih (createStore alloca func entry)
      rw [List.foldl_cons, List.length_cons]
      refine ⟨horder, ?_, ?_⟩
      · rw [hfresh]
        exact Nat.add_right_comm _ _ _
      · intro other
        obtain ⟨stores, hstores, hoperations, hids⟩ := hbody other
        have hrest : ∀ store ∈ stores, func.fresh ≤ store.id ∧
            store.id < func.fresh + (rest.length + 1) := by
          intro store hstore
          have hid : func.fresh + 1 ≤ store.id ∧
              store.id < func.fresh + 1 + rest.length := hids store hstore
          constructor
          · exact (Nat.le_succ _).trans hid.1
          · exact lt_of_lt_of_eq hid.2 (Nat.add_right_comm _ _ _)
        by_cases hentry : entry.2 = other
        · refine ⟨⟨func.fresh, .store entry.1 alloca⟩ :: stores, ?_, ?_, ?_⟩
          · rw [hstores]
            simp [createStore, setInstrs, hentry]
          · rw [List.filter_cons_of_pos (by simpa using hentry), List.map_cons,
              List.map_cons, hoperations]
          · intro store hstore
            rcases List.mem_cons.mp hstore with rfl | hstore
            · exact ⟨le_refl _, Nat.lt_add_of_pos_right (Nat.succ_pos _)⟩
            · exact hrest store hstore
        · refine ⟨stores, ?_, ?_, hrest⟩
          · rw [hstores]
            simp [createStore, setInstrs, Ne.symm hentry]
          · rw [List.filter_cons_of_neg (by simpa using hentry), hoperations]

end Stores

theorem incomingOf_spec
    {func : Function} {block : BlockId} {phi : ValueId}
    {incoming : List (ValueId × BlockId)}
    (hincoming : incomingOf func (block, phi) = some incoming) :
    ∃ instr ∈ (func.body block).instrs,
      instr.id = phi ∧ instr.operation = .phi incoming := by
  unfold incomingOf at hincoming
  obtain ⟨instr, hinstr, hsome⟩ := List.exists_of_findSome?_eq_some hincoming
  refine ⟨instr, hinstr, ?_⟩
  split at hsome
  · rename_i hid
    refine ⟨hid, ?_⟩
    split at hsome
    · rename_i heq
      rw [heq, Option.some.inj hsome]
    · cases hsome
  · cases hsome

theorem createAlloca_body
    {func : Function}
    (hentry : ∀ instr ∈ (func.body func.entry).instrs,
      instr.operation.isPhi = false) (other : BlockId) :
    (createAlloca func).body other =
      { func.body other with
        instrs :=
          (if other = func.entry then [⟨func.fresh, .alloca⟩] else []) ++
            (func.body other).instrs } := by
  have hsplit : ∀ instrs : List Instruction,
      (∀ instr ∈ instrs, instr.operation.isPhi = false) →
        instrs.takeWhile (fun instr => instr.operation.isPhi) = [] ∧
          instrs.dropWhile (fun instr => instr.operation.isPhi) = instrs := by
    intro instrs hinstrs
    cases instrs with
    | nil => simp
    | cons first rest => simp [hinstrs first List.mem_cons_self]
  obtain ⟨htake, hdrop⟩ := hsplit _ hentry
  unfold createAlloca setInstrs
  by_cases hother : other = func.entry
  · subst hother
    simp [htake, hdrop]
  · simp [hother]

/-- Putting the load in place and renaming the uses edits every instruction of
a block that defines `phi` at most in the given place. -/
theorem replaced_instrs
    {func : Function} {block other : BlockId} {phi alloca : ValueId}
    (halloca : alloca ≠ phi)
    (hother : other ≠ block → ∀ instr ∈ (func.body other).instrs,
      instr.id ≠ phi) :
    ((replaceAllUsesWith (createLoad alloca func block phi) phi
        func.fresh).body other).instrs =
      (func.body other).instrs.map (editInstr phi func.fresh alloca) := by
  have hedit : ∀ instr : Instruction,
      editInstr phi func.fresh alloca instr =
        { (if instr.id = phi then ⟨func.fresh, .load alloca⟩ else instr) with
          operation := renameOperation phi func.fresh
            (if instr.id = phi then ⟨func.fresh, .load alloca⟩
              else instr).operation } := by
    intro instr
    unfold editInstr
    by_cases hid : instr.id = phi
    · simp [hid, renameOperation, renameUse_of_ne halloca]
    · simp [hid]
  unfold replaceAllUsesWith createLoad setInstrs
  by_cases hblock : other = block
  · subst hblock
    simp only [Function.update_self, List.map_map]
    exact List.map_congr_left fun instr _ => (hedit instr).symm
  · simp only [Function.update_of_ne hblock]
    refine List.map_congr_left fun instr hinstr => ?_
    rw [hedit instr, if_neg (hother hblock instr hinstr)]

theorem editInstr_of_ne
    {phi load alloca : ValueId} {instr : Instruction} (hne : instr.id ≠ phi) :
    editInstr phi load alloca instr =
      { instr with operation := renameOperation phi load instr.operation } :=
  if_neg hne

theorem editInstr_stores
    {phi load alloca : ValueId} (halloca : alloca ≠ phi)
    {entries : List (ValueId × BlockId)} {stores : List Instruction}
    (hids : ∀ store ∈ stores, store.id ≠ phi)
    (hstores : stores.map Instruction.operation =
      entries.map fun entry => .store entry.1 alloca) :
    (stores.map (editInstr phi load alloca)).map Instruction.operation =
      entries.map fun entry => .store (renameUse phi load entry.1) alloca := by
  have hmap : (stores.map (editInstr phi load alloca)).map
      Instruction.operation =
        (stores.map Instruction.operation).map (renameOperation phi load) := by
    rw [List.map_map, List.map_map]
    refine List.map_congr_left fun store hstore => ?_
    rw [Function.comp_apply, editInstr_of_ne (hids store hstore)]
    rfl
  rw [hmap, hstores, List.map_map]
  refine List.map_congr_left fun entry _ => ?_
  rw [Function.comp_apply, renameOperation, renameUse_of_ne halloca]

theorem breakPHIToAllocas_replaces
    {func : Function} (hwf : WellFormed func) {block : BlockId}
    (hblock : block ∈ func.order) {phi : ValueId}
    {incoming : List (ValueId × BlockId)}
    (hincoming : incomingOf func (block, phi) = some incoming) :
    ∃ load alloca, Replaces func block phi incoming load alloca
      (breakPHIToAllocas func (block, phi)) := by
  obtain ⟨instr, hinstr, rfl, hphi⟩ := incomingOf_spec hincoming
  have hisPhi : instr.operation.isPhi = true := by
    rw [hphi]
    rfl
  have hphiLt : instr.id < func.fresh := hwf.id_lt block hblock instr hinstr
  have hstored := foldl_createStore_spec func.fresh incoming (createAlloca func)
  set stored := incoming.foldl (createStore func.fresh) (createAlloca func)
    with hstoredEq
  obtain ⟨horder, hfresh, hbody⟩ := hstored
  have hafter : breakPHIToAllocas func (block, instr.id) =
      replaceAllUsesWith (createLoad func.fresh stored block instr.id) instr.id
        stored.fresh := by
    unfold breakPHIToAllocas
    rw [hincoming]
  have hload : stored.fresh = func.fresh + 1 + incoming.length := hfresh
  have hfields : ∀ other,
      (stored.body other).succs = (func.body other).succs ∧
        (stored.body other).opcode = (func.body other).opcode ∧
        (stored.body other).operands = (func.body other).operands := by
    intro other
    obtain ⟨stores, hstores, _, _⟩ := hbody other
    rw [hstores, createAlloca_body hwf.entry_phi]
    exact ⟨rfl, rfl, rfl⟩
  have hloaded : ∀ other,
      ((createLoad func.fresh stored block instr.id).body other).succs =
          (stored.body other).succs ∧
        ((createLoad func.fresh stored block instr.id).body other).opcode =
          (stored.body other).opcode ∧
        ((createLoad func.fresh stored block instr.id).body other).operands =
          (stored.body other).operands := by
    intro other
    unfold createLoad setInstrs
    by_cases hother : other = block
    · subst hother
      simp
    · simp [hother]
  refine ⟨stored.fresh, func.fresh, ?_⟩
  rw [hafter]
  constructor
  · exact horder
  · rfl
  · rw [hload]
    exact Nat.lt_of_lt_of_le (Nat.lt_succ_self _) (Nat.le_add_right _ _)
  · exact Nat.lt_succ_self _
  · exact fun other => (hloaded other).1.trans (hfields other).1
  · exact fun other => (hloaded other).2.1.trans (hfields other).2.1
  · intro other
    change ((createLoad func.fresh stored block instr.id).body
      other).operands.map _ = _
    rw [(hloaded other).2.2, (hfields other).2.2]
  · intro other hother
    obtain ⟨stores, hstores, hoperations, hids⟩ := hbody other
    have hstoreId : ∀ store ∈ stores, func.fresh < store.id ∧
        store.id < stored.fresh := by
      intro store hstore
      rw [hload]
      exact ⟨Nat.lt_of_succ_le (hids store hstore).1, (hids store hstore).2⟩
    have hstoreNe : ∀ store ∈ stores, store.id ≠ instr.id :=
      fun store hstore =>
        Nat.ne_of_gt (hphiLt.trans (hstoreId store hstore).1)
    have hinstrs : (stored.body other).instrs =
        (if other = func.entry then [⟨func.fresh, .alloca⟩] else []) ++
          (func.body other).instrs ++ stores := by
      rw [hstores, createAlloca_body hwf.entry_phi]
    refine ⟨stores.map (editInstr instr.id stored.fresh func.fresh), ?_, ?_, ?_⟩
    · rw [replaced_instrs (Nat.ne_of_gt hphiLt), hinstrs, List.map_append,
        List.map_append]
      · congr 2
        by_cases hentry : other = func.entry
        · rw [if_pos hentry, List.map_singleton,
            editInstr_of_ne (Nat.ne_of_gt hphiLt)]
          rfl
        · rw [if_neg hentry, List.map_nil]
      · intro hne same hsame
        rw [hinstrs, List.mem_append, List.mem_append] at hsame
        rcases hsame with (hsame | hsame) | hsame
        · split at hsame
          · rw [List.mem_singleton.mp hsame]
            exact Nat.ne_of_gt hphiLt
          · cases hsame
        · exact fun heq => hne
            (hwf.phi_block block hblock instr hinstr hisPhi other hother same
              hsame heq)
        · exact hstoreNe same hsame
    · exact editInstr_stores (Nat.ne_of_gt hphiLt) hstoreNe hoperations
    · intro store hstore
      obtain ⟨old, hold, rfl⟩ := List.mem_map.mp hstore
      rw [editInstr_of_ne (hstoreNe old hold)]
      exact hstoreId old hold

section Preservation

variable {func after : Function} {block : BlockId} {phi load alloca : ValueId}
  {incoming : List (ValueId × BlockId)}

theorem phisFirst_of_no_phi :
    ∀ {instrs : List Instruction},
      (∀ instr ∈ instrs, instr.operation.isPhi = false) → PhisFirst instrs
  | [], _ => trivial
  | _ :: _, hinstrs =>
      ⟨fun _ later hlater => hinstrs later (List.mem_cons_of_mem _ hlater),
        phisFirst_of_no_phi fun instr hinstr =>
          hinstrs instr (List.mem_cons_of_mem _ hinstr)⟩

theorem PhisFirst.append
    {stores : List Instruction}
    (hstores : ∀ store ∈ stores, store.operation.isPhi = false) :
    ∀ {instrs : List Instruction}, PhisFirst instrs →
      PhisFirst (instrs ++ stores)
  | [], _ => phisFirst_of_no_phi hstores
  | _ :: _, hinstrs => by
      refine ⟨?_, hinstrs.2.append hstores⟩
      intro hother later hlater
      rcases List.mem_append.mp hlater with hlater | hlater
      · exact hinstrs.1 hother later hlater
      · exact hstores later hlater

theorem PhisFirst.map_editInstr
    {phi load alloca : ValueId} :
    ∀ {instrs : List Instruction}, PhisFirst instrs →
      PhisFirst (instrs.map (editInstr phi load alloca))
  | [], _ => trivial
  | instr :: rest, hinstrs => by
      refine ⟨?_, hinstrs.2.map_editInstr⟩
      rintro ⟨hphi, hload⟩ later hlater
      obtain ⟨old, hold, rfl⟩ := List.mem_map.mp hlater
      unfold editInstr at hphi hload ⊢
      split at hload
      · cases hload
      · rename_i hid
        rw [if_neg hid, isPhi_renameOperation] at hphi
        rw [isLoad_renameOperation] at hload
        split
        · rfl
        · rw [isPhi_renameOperation]
          exact hinstrs.1 ⟨hphi, hload⟩ old hold

theorem Replaces.mem_cases
    (hreplaces : Replaces func block phi incoming load alloca after)
    {other : BlockId} (hother : other ∈ func.order) {instr : Instruction}
    (hinstr : instr ∈ (after.body other).instrs) :
    (other = func.entry ∧ instr = ⟨alloca, .alloca⟩) ∨
      (∃ old ∈ (func.body other).instrs,
        instr = editInstr phi load alloca old) ∨
      ∃ entry ∈ incoming,
        instr.operation = .store (renameUse phi load entry.1) alloca ∧
          func.fresh < instr.id ∧ instr.id < load := by
  obtain ⟨stores, hinstrs, hoperations, hids⟩ :=
    hreplaces.instrs_eq other hother
  rw [hinstrs, List.mem_append, List.mem_append] at hinstr
  rcases hinstr with (hinstr | hinstr) | hinstr
  · split at hinstr
    · rename_i hentry
      exact Or.inl ⟨hentry, List.mem_singleton.mp hinstr⟩
    · cases hinstr
  · obtain ⟨old, hold, rfl⟩ := List.mem_map.mp hinstr
    exact Or.inr (Or.inl ⟨old, hold, rfl⟩)
  · have hoperation : instr.operation ∈ stores.map Instruction.operation :=
      List.mem_map_of_mem hinstr
    rw [hoperations] at hoperation
    obtain ⟨entry, hentry, heq⟩ := List.mem_map.mp hoperation
    exact Or.inr (Or.inr ⟨entry, (List.mem_filter.mp hentry).1, heq.symm,
      hids instr hinstr⟩)

/-- The remaining PHI nodes are the old ones with renamed entries. -/
theorem Replaces.phi_cases
    (hreplaces : Replaces func block phi incoming load alloca after)
    {other : BlockId} (hother : other ∈ func.order) {instr : Instruction}
    (hinstr : instr ∈ (after.body other).instrs)
    (hphi : instr.operation.isPhi = true) :
    ∃ old ∈ (func.body other).instrs, old.id ≠ phi ∧
      old.operation.isPhi = true ∧ instr.id = old.id ∧
      instr.operation = renameOperation phi load old.operation := by
  rcases hreplaces.mem_cases hother hinstr with
    ⟨_, rfl⟩ | ⟨old, hold, rfl⟩ | ⟨entry, _, hstore, _⟩
  · cases hphi
  · unfold editInstr at hphi ⊢
    split at hphi
    · cases hphi
    · rename_i hid
      rw [if_neg hid]
      rw [isPhi_renameOperation] at hphi
      exact ⟨old, hold, hid, hphi, rfl, rfl⟩
  · rw [hstore] at hphi
    cases hphi

/-- An instruction with an old identity is an old instruction. -/
theorem Replaces.old_of_id_lt
    (hreplaces : Replaces func block phi incoming load alloca after)
    {other : BlockId} (hother : other ∈ func.order) {instr : Instruction}
    (hinstr : instr ∈ (after.body other).instrs)
    (hlt : instr.id < func.fresh) :
    ∃ old ∈ (func.body other).instrs, old.id ≠ phi ∧ instr.id = old.id := by
  rcases hreplaces.mem_cases hother hinstr with
    ⟨_, rfl⟩ | ⟨old, hold, rfl⟩ | ⟨_, _, _, hgt, _⟩
  · rw [hreplaces.alloca_eq] at hlt
    exact absurd hlt (lt_irrefl _)
  · unfold editInstr at hlt ⊢
    split at hlt
    · exact absurd hlt (Nat.not_lt_of_gt hreplaces.alloca_lt)
    · rename_i hid
      rw [if_neg hid]
      exact ⟨old, hold, hid, rfl⟩
  · exact absurd hlt (Nat.not_lt_of_gt hgt)

theorem Replaces.renameUse_lt
    (hreplaces : Replaces func block phi incoming load alloca after)
    {value : ValueId} (hvalue : value < func.fresh) :
    renameUse phi load value < after.fresh := by
  unfold renameUse
  split
  · exact hreplaces.load_lt
  · exact hvalue.trans (hreplaces.alloca_lt.trans hreplaces.load_lt)

theorem count_map_editInstr
    {value : ValueId} (hphi : value ≠ phi) (hload : value ≠ load)
    (instrs : List Instruction) :
    ((instrs.map (editInstr phi load alloca)).map Instruction.id).count value =
      (instrs.map Instruction.id).count value := by
  induction instrs with
  | nil => rfl
  | cons instr rest ih =>
      rw [List.map_cons, List.map_cons, List.map_cons, List.count_cons,
        List.count_cons, ih]
      unfold editInstr
      split
      · rename_i hid
        simp [hid, Ne.symm hphi, Ne.symm hload]
      · rfl

theorem Replaces.count_id
    (hreplaces : Replaces func block phi incoming load alloca after)
    {other : BlockId} (hother : other ∈ func.order) {value : ValueId}
    (hlt : value < func.fresh) (hne : value ≠ phi) :
    ((after.body other).instrs.map Instruction.id).count value =
      ((func.body other).instrs.map Instruction.id).count value := by
  obtain ⟨stores, hinstrs, _, hids⟩ := hreplaces.instrs_eq other hother
  have hload : value ≠ load := Nat.ne_of_lt (hlt.trans hreplaces.alloca_lt)
  have hstores : (stores.map Instruction.id).count value = 0 := by
    rw [List.count_eq_zero]
    intro hmem
    obtain ⟨store, hstore, rfl⟩ := List.mem_map.mp hmem
    exact absurd hlt (Nat.not_lt_of_gt (hids store hstore).1)
  have hallocas : ((if other = func.entry then [⟨alloca, .alloca⟩]
      else [] : List Instruction).map Instruction.id).count value = 0 := by
    rw [List.count_eq_zero]
    split
    · rw [List.map_singleton, List.mem_singleton, hreplaces.alloca_eq]
      exact Nat.ne_of_lt hlt
    · exact List.not_mem_nil
  rw [hinstrs, List.map_append, List.map_append, List.count_append,
    List.count_append, hstores, hallocas, count_map_editInstr hne hload]
  omega

theorem Replaces.entry_eq
    (hreplaces : Replaces func block phi incoming load alloca after) :
    after.entry = func.entry := by
  unfold Function.entry
  rw [hreplaces.order_eq]

/-- The PHI node that is replaced. -/
structure IsPhiOf
    (func : Function) (block : BlockId) (phi : ValueId)
    (incoming : List (ValueId × BlockId)) : Prop where
  block_mem : block ∈ func.order
  instr_mem : ⟨phi, .phi incoming⟩ ∈ (func.body block).instrs

theorem Replaces.operand_lt
    (hwf : WellFormed func) (hphi : IsPhiOf func block phi incoming)
    (hreplaces : Replaces func block phi incoming load alloca after)
    {other : BlockId} (hother : other ∈ func.order) {instr : Instruction}
    (hinstr : instr ∈ (after.body other).instrs) {value : ValueId}
    (hvalue : value ∈ operandsOf instr.operation) : value < after.fresh := by
  have hallocaLt : alloca < after.fresh := by
    rw [hreplaces.alloca_eq]
    exact hreplaces.alloca_lt.trans hreplaces.load_lt
  rcases hreplaces.mem_cases hother hinstr with
    ⟨_, rfl⟩ | ⟨old, hold, rfl⟩ | ⟨entry, hentry, hstore, _⟩
  · cases hvalue
  · unfold editInstr at hvalue
    split at hvalue
    · rw [List.mem_singleton.mp hvalue]
      exact hallocaLt
    · rw [operandsOf_renameOperation] at hvalue
      obtain ⟨before, hbefore, rfl⟩ := List.mem_map.mp hvalue
      exact hreplaces.renameUse_lt
        (hwf.operand_lt other hother old hold before hbefore)
  · rw [hstore] at hvalue
    have hentryLt : entry.1 < func.fresh :=
      hwf.operand_lt block hphi.block_mem _ hphi.instr_mem entry.1
        (List.mem_map_of_mem hentry)
    rcases List.mem_cons.mp hvalue with rfl | hvalue
    · exact hreplaces.renameUse_lt hentryLt
    · rw [List.mem_singleton.mp hvalue]
      exact hallocaLt

theorem Replaces.phi_slot
    (hwf : WellFormed func) (hphi : IsPhiOf func block phi incoming)
    (hreplaces : Replaces func block phi incoming load alloca after)
    {other : BlockId} (hother : other ∈ func.order) {old : Instruction}
    (hold : old ∈ (func.body other).instrs)
    (hisPhi : old.operation.isPhi = true)
    {place : BlockId} (hplace : place ∈ func.order) {user : Instruction}
    (huser : user ∈ (after.body place).instrs) :
    old.id ∉ slotsOf user.operation := by
  have hne : old.id ≠ alloca := by
    rw [hreplaces.alloca_eq]
    exact Nat.ne_of_lt (hwf.id_lt other hother old hold)
  rcases hreplaces.mem_cases hplace huser with
    ⟨_, rfl⟩ | ⟨before, hbefore, rfl⟩ | ⟨entry, _, hstore, _⟩
  · exact List.not_mem_nil
  · unfold editInstr
    split
    · exact fun hmem => hne (List.mem_singleton.mp hmem)
    · rw [slotsOf_renameOperation]
      intro hmem
      obtain ⟨slot, hslot, heq⟩ := List.mem_map.mp hmem
      have hslotNe : slot ≠ phi := by
        rintro rfl
        exact hwf.phi_slot block hphi.block_mem _ hphi.instr_mem rfl place
          hplace before hbefore hslot
      rw [renameUse_of_ne hslotNe] at heq
      exact hwf.phi_slot other hother old hold hisPhi place hplace before
        hbefore (heq ▸ hslot)
  · rw [hstore]
    exact fun hmem => hne (List.mem_singleton.mp hmem)

theorem Replaces.phis_first
    (hwf : WellFormed func)
    (hreplaces : Replaces func block phi incoming load alloca after)
    (hentry : ∀ instr ∈ (after.body after.entry).instrs,
      instr.operation.isPhi = false)
    {other : BlockId} (hother : other ∈ func.order) :
    PhisFirst (after.body other).instrs := by
  by_cases heq : other = func.entry
  · rw [heq, ← hreplaces.entry_eq]
    exact phisFirst_of_no_phi hentry
  · obtain ⟨stores, hinstrs, hoperations, _⟩ :=
      hreplaces.instrs_eq other hother
    rw [hinstrs, if_neg heq, List.nil_append]
    refine ((hwf.phis_first other hother).map_editInstr).append ?_
    intro store hstore
    have hoperation : store.operation ∈ stores.map Instruction.operation :=
      List.mem_map_of_mem hstore
    rw [hoperations] at hoperation
    obtain ⟨entry, _, hentryEq⟩ := List.mem_map.mp hoperation
    rw [← hentryEq]
    rfl

theorem Replaces.wellFormed
    (hwf : WellFormed func) (hphi : IsPhiOf func block phi incoming)
    (hreplaces : Replaces func block phi incoming load alloca after) :
    WellFormed after := by
  have hfresh : func.fresh < after.fresh :=
    hreplaces.alloca_lt.trans hreplaces.load_lt
  have hentry : ∀ instr ∈ (after.body after.entry).instrs,
      instr.operation.isPhi = false := by
    intro instr hinstr
    rw [hreplaces.entry_eq] at hinstr
    by_contra hisPhi
    rw [Bool.not_eq_false] at hisPhi
    obtain ⟨old, hold, _, holdPhi, _, _⟩ :=
      hreplaces.phi_cases hwf.entry_mem hinstr hisPhi
    rw [hwf.entry_phi old hold] at holdPhi
    cases holdPhi
  constructor
  · rw [hreplaces.order_eq]
    exact hwf.nonempty
  · intro other hother target htarget
    rw [hreplaces.order_eq] at hother ⊢
    rw [hreplaces.succs_eq] at htarget
    exact hwf.succs_mem other hother target htarget
  · intro other hother instr hinstr
    rw [hreplaces.order_eq] at hother
    rcases hreplaces.mem_cases hother hinstr with
      ⟨_, rfl⟩ | ⟨old, hold, rfl⟩ | ⟨_, _, _, _, hlt⟩
    · change alloca < _
      rw [hreplaces.alloca_eq]
      exact hfresh
    · unfold editInstr
      split
      · exact hreplaces.load_lt
      · exact (hwf.id_lt other hother old hold).trans hfresh
    · exact hlt.trans hreplaces.load_lt
  · intro other hother instr hinstr value hvalue
    rw [hreplaces.order_eq] at hother
    exact hreplaces.operand_lt hwf hphi hother hinstr hvalue
  · intro other hother value hvalue
    rw [hreplaces.order_eq] at hother
    rw [hreplaces.operands_eq] at hvalue
    obtain ⟨before, hbefore, rfl⟩ := List.mem_map.mp hvalue
    exact hreplaces.renameUse_lt (hwf.branch_lt other hother before hbefore)
  · intro other hother target htarget instr hinstr hisPhi
    rw [hreplaces.order_eq] at hother
    rw [hreplaces.succs_eq] at htarget
    have htargetMem := hwf.succs_mem other hother target htarget
    obtain ⟨old, hold, _, holdPhi, _, hoperation⟩ :=
      hreplaces.phi_cases htargetMem hinstr hisPhi
    rw [hoperation, entriesOf_renameOperation, List.map_map]
    exact hwf.phi_entry other hother target htarget old hold holdPhi
  · intro other hother instr hinstr first hfirst second hsecond heq
    rw [hreplaces.order_eq] at hother
    have hisPhi : instr.operation.isPhi = true := by
      cases hoperation : instr.operation with
      | phi incoming => rfl
      | _ =>
          rw [hoperation] at hfirst
          cases hfirst
    obtain ⟨old, hold, _, _, _, hoperation⟩ :=
      hreplaces.phi_cases hother hinstr hisPhi
    rw [hoperation, entriesOf_renameOperation] at hfirst hsecond
    obtain ⟨first', hfirst', rfl⟩ := List.mem_map.mp hfirst
    obtain ⟨second', hsecond', rfl⟩ := List.mem_map.mp hsecond
    exact congrArg (renameUse phi load) (hwf.phi_agree other hother old hold
      first' hfirst' second' hsecond' heq)
  · intro other hother instr hinstr hisPhi
    rw [hreplaces.order_eq] at hother
    obtain ⟨old, hold, hne, holdPhi, hid, _⟩ :=
      hreplaces.phi_cases hother hinstr hisPhi
    rw [hid, hreplaces.count_id hother (hwf.id_lt other hother old hold) hne]
    exact hwf.phi_once other hother old hold holdPhi
  · intro other hother instr hinstr hisPhi place hplace same hsame hid
    rw [hreplaces.order_eq] at hother hplace
    obtain ⟨old, hold, _, holdPhi, holdId, _⟩ :=
      hreplaces.phi_cases hother hinstr hisPhi
    have hlt : same.id < func.fresh := by
      rw [hid, holdId]
      exact hwf.id_lt other hother old hold
    obtain ⟨before, hbefore, _, hbeforeId⟩ :=
      hreplaces.old_of_id_lt hplace hsame hlt
    exact hwf.phi_block other hother old hold holdPhi place hplace before hbefore
      (hbeforeId.symm.trans (hid.trans holdId))
  · intro other hother instr hinstr hisPhi place hplace user huser
    rw [hreplaces.order_eq] at hother hplace
    obtain ⟨old, hold, _, holdPhi, holdId, _⟩ :=
      hreplaces.phi_cases hother hinstr hisPhi
    rw [holdId]
    exact hreplaces.phi_slot hwf hphi hother hold holdPhi hplace huser
  · intro other hother
    rw [hreplaces.order_eq] at hother
    exact hreplaces.phis_first hwf hentry hother
  · exact hentry

end Preservation

end PhisToAllocas

end Pocl
