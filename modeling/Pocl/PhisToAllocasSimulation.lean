import Pocl.PhisToAllocasSteps

/-!
# The simulation of one block

One replacement is simulated block by block.  The load carries the value of the
PHI node, all other values agree, and at the end of a block the slot holds the
value that the PHI node would receive from this block.  In the block of the PHI
node itself the load is still stale until it has run; only PHI nodes and loads
stand before it, which read none of the values that differ.
-/

namespace Pocl

namespace PhisToAllocas

open Ssa

variable {Val World : Type} {machine : Machine Val World}
  {func after : Function} {block : BlockId} {phi load alloca : ValueId}
  {incoming : List (ValueId × BlockId)}

/-- The configurations agree except for the replaced PHI node. -/
structure Agrees
    (func : Function) (phi : ValueId) (config config' : Config Val World) :
    Prop where
  env_eq : ∀ value < func.fresh, value ≠ phi →
    config'.env value = config.env value
  slots_eq : ∀ slot < func.fresh, config'.slots slot = config.slots slot
  world_eq : config'.world = config.world

/-- The load has taken over the value of the PHI node. -/
structure Matches
    (func : Function) (phi load : ValueId)
    (config config' : Config Val World) : Prop
    extends Agrees func phi config config' where
  load_eq : config'.env load = config.env phi

theorem Matches.env_renameUse
    {config config' : Config Val World}
    (hmatches : Matches func phi load config config') {value : ValueId}
    (hvalue : value < func.fresh) :
    config'.env (renameUse phi load value) = config.env value := by
  unfold renameUse
  split
  · rename_i heq
    rw [heq]
    exact hmatches.load_eq
  · rename_i hne
    exact hmatches.env_eq value hvalue hne

theorem Matches.map_env
    {config config' : Config Val World}
    (hmatches : Matches func phi load config config') {values : List ValueId}
    (hvalues : ∀ value ∈ values, value < func.fresh) :
    (values.map (renameUse phi load)).map config'.env =
      values.map config.env := by
  rw [List.map_map]
  exact List.map_congr_left fun value hvalue =>
    hmatches.env_renameUse (hvalues value hvalue)

section PhiNodes

variable {env env' : ValueId → Val} {pred : Option BlockId}

theorem phiValues_of_phi
    {instr : Instruction} {rest : List Instruction}
    {entries : List (ValueId × BlockId)} (hphi : instr.operation = .phi entries) :
    phiValues env pred (instr :: rest) =
      (pred.bind (getIncomingValueForBlock entries)).bind fun value =>
        (phiValues env pred rest).bind fun values =>
          some ((instr.id, env value) :: values) := by
  rw [phiValues, hphi]
  rfl

theorem phiValues_of_not_phi
    {instr : Instruction} {rest : List Instruction}
    (hphi : instr.operation.isPhi = false) :
    phiValues env pred (instr :: rest) = phiValues env pred rest := by
  rw [phiValues]
  cases hoperation : instr.operation with
  | phi entries =>
      rw [hoperation] at hphi
      cases hphi
  | alloca => rfl
  | load slot => rfl
  | store value slot => rfl
  | ordinary opcode operands => rfl

theorem phiValues_append
    {stores : List Instruction}
    (hstores : ∀ store ∈ stores, store.operation.isPhi = false)
    (instrs : List Instruction) :
    phiValues env pred (instrs ++ stores) = phiValues env pred instrs := by
  induction instrs with
  | nil =>
      induction stores with
      | nil => rfl
      | cons store rest ih =>
          rw [List.nil_append,
            phiValues_of_not_phi (hstores store List.mem_cons_self)]
          exact ih fun other hother =>
            hstores other (List.mem_cons_of_mem _ hother)
  | cons instr rest ih =>
      rw [List.cons_append, phiValues, phiValues, ih]

theorem getIncomingValueForBlock_rename
    (entries : List (ValueId × BlockId)) (source : BlockId) :
    getIncomingValueForBlock
        (entries.map fun entry => (renameUse phi load entry.1, entry.2))
        source =
      (getIncomingValueForBlock entries source).map (renameUse phi load) := by
  unfold getIncomingValueForBlock
  rw [List.find?_map, Option.map_map, Option.map_map]
  rfl

theorem getIncomingValueForBlock_mem
    {entries : List (ValueId × BlockId)} {source : BlockId} {value : ValueId}
    (hvalue : getIncomingValueForBlock entries source = some value) :
    (value, source) ∈ entries := by
  unfold getIncomingValueForBlock at hvalue
  obtain ⟨entry, hentry, rfl⟩ := Option.map_eq_some_iff.mp hvalue
  have hsource : entry.2 = source := by
    simpa using List.find?_some hentry
  exact hsource ▸ List.mem_of_find?_eq_some hentry

/-- The remaining PHI nodes receive the same values. -/
theorem phiValues_editInstr
    (hload : ∀ value < func.fresh,
      env' (renameUse phi load value) = env value) :
    ∀ {instrs : List Instruction} {values : List (ValueId × Val)},
      (∀ instr ∈ instrs, ∀ value ∈ operandsOf instr.operation,
        value < func.fresh) →
      (∀ instr ∈ instrs, instr.id = phi → instr.operation.isPhi = true) →
      phiValues env pred instrs = some values →
        phiValues env' pred (instrs.map (editInstr phi load alloca)) =
          some (values.filter fun value => value.1 ≠ phi) := by
  intro instrs
  induction instrs with
  | nil =>
      intro values _ _ hvalues
      obtain rfl := Option.some.inj hvalues
      rfl
  | cons instr rest ih =>
      intro values hbound hunique hvalues
      have hrest : ∀ {others : List (ValueId × Val)},
          phiValues env pred rest = some others →
            phiValues env' pred (rest.map (editInstr phi load alloca)) =
              some (others.filter fun value => value.1 ≠ phi) :=
        ih (fun other hother => hbound other (List.mem_cons_of_mem _ hother))
          (fun other hother => hunique other (List.mem_cons_of_mem _ hother))
      rw [List.map_cons]
      cases hphi : instr.operation.isPhi with
      | false =>
          have hid : instr.id ≠ phi := fun heq => by
            have htrue := hunique instr List.mem_cons_self heq
            rw [hphi] at htrue
            cases htrue
          rw [phiValues_of_not_phi hphi] at hvalues
          rw [editInstr_of_ne hid, phiValues_of_not_phi (by simpa using hphi)]
          exact hrest hvalues
      | true =>
          obtain ⟨entries, hentries⟩ := Operation.exists_phi hphi
          rw [phiValues_of_phi hentries] at hvalues
          obtain ⟨value, hvalue, hsome⟩ := Option.bind_eq_some_iff.mp hvalues
          obtain ⟨others, hothers, hcons⟩ := Option.bind_eq_some_iff.mp hsome
          obtain rfl := Option.some.inj hcons
          by_cases hid : instr.id = phi
          · have hedit : editInstr phi load alloca instr =
                ⟨load, .load alloca⟩ := if_pos hid
            rw [hedit, phiValues_of_not_phi rfl, hrest hothers,
              List.filter_cons_of_neg (by simpa using hid)]
          · rw [editInstr_of_ne hid, phiValues_of_phi
              (show renameOperation phi load instr.operation = .phi _ by
                rw [hentries]; rfl), hrest hothers]
            obtain ⟨source, rfl, hsource⟩ := Option.bind_eq_some_iff.mp hvalue
            have hlt : value < func.fresh := by
              apply hbound instr List.mem_cons_self
              rw [hentries]
              exact List.mem_map_of_mem (getIncomingValueForBlock_mem hsource)
            rw [Option.bind_some, getIncomingValueForBlock_rename, hsource,
              Option.map_some, Option.bind_some, Option.bind_some,
              hload value hlt, List.filter_cons_of_pos (by simpa using hid)]

theorem assign_filter
    {values : List (ValueId × Val)} {id : ValueId} (hne : id ≠ phi)
    (henv : env' id = env id) :
    assign env' (values.filter fun value => value.1 ≠ phi) id =
      assign env values id := by
  induction values with
  | nil => exact henv
  | cons value rest ih =>
      by_cases hvalue : value.1 = phi
      · rw [List.filter_cons_of_neg (by simpa using hvalue), ih, assign,
          Function.update_of_ne (fun heq => hne (heq.trans hvalue))]
      · rw [List.filter_cons_of_pos (by simpa using hvalue), assign, assign,
          Function.update_apply, Function.update_apply, ih]

theorem assign_of_not_mem
    {values : List (ValueId × Val)} {id : ValueId}
    (hnot : ∀ value ∈ values, value.1 ≠ id) : assign env values id = env id := by
  induction values with
  | nil => rfl
  | cons value rest ih =>
      rw [assign, Function.update_of_ne
        (Ne.symm (hnot value List.mem_cons_self))]
      exact ih fun other hother => hnot other (List.mem_cons_of_mem _ hother)

theorem phiValues_id_mem :
    ∀ {instrs : List Instruction} {values : List (ValueId × Val)},
      phiValues env pred instrs = some values →
        ∀ value ∈ values, ∃ instr ∈ instrs, instr.id = value.1 := by
  intro instrs
  induction instrs with
  | nil =>
      intro values hvalues
      obtain rfl := Option.some.inj hvalues
      simp
  | cons instr rest ih =>
      intro values hvalues value hvalue
      have hrest : ∀ {others : List (ValueId × Val)},
          phiValues env pred rest = some others → value ∈ others →
            ∃ other ∈ instr :: rest, other.id = value.1 := by
        intro others hothers hmem
        obtain ⟨other, hother, hid⟩ := ih hothers value hmem
        exact ⟨other, List.mem_cons_of_mem _ hother, hid⟩
      cases hisPhi : instr.operation.isPhi with
      | false =>
          rw [phiValues_of_not_phi hisPhi] at hvalues
          exact hrest hvalues hvalue
      | true =>
          obtain ⟨entries, hentries⟩ := Operation.exists_phi hisPhi
          rw [phiValues_of_phi hentries] at hvalues
          obtain ⟨_, _, hsome⟩ := Option.bind_eq_some_iff.mp hvalues
          obtain ⟨others, hothers, hcons⟩ := Option.bind_eq_some_iff.mp hsome
          obtain rfl := Option.some.inj hcons
          rcases List.mem_cons.mp hvalue with rfl | hvalue
          · exact ⟨instr, List.mem_cons_self, rfl⟩
          · exact hrest hothers hvalue

/-- The value the replaced PHI node receives. -/
theorem assign_phi
    {instrs pre post : List Instruction} {values : List (ValueId × Val)}
    (hinstrs : instrs = pre ++ ⟨phi, .phi incoming⟩ :: post)
    (hpre : ∀ instr ∈ pre, instr.id ≠ phi)
    (hvalues : phiValues env pred instrs = some values) :
    ∃ value, pred.bind (getIncomingValueForBlock incoming) = some value ∧
      assign env values phi = env value := by
  subst hinstrs
  induction pre generalizing values with
  | nil =>
      rw [List.nil_append, phiValues_of_phi rfl] at hvalues
      obtain ⟨value, hvalue, hsome⟩ := Option.bind_eq_some_iff.mp hvalues
      obtain ⟨others, _, hcons⟩ := Option.bind_eq_some_iff.mp hsome
      obtain rfl := Option.some.inj hcons
      exact ⟨value, hvalue, Function.update_self _ _ _⟩
  | cons instr rest ih =>
      have hrest := fun other hother =>
        hpre other (List.mem_cons_of_mem instr hother)
      rw [List.cons_append] at hvalues
      cases hisPhi : instr.operation.isPhi with
      | false =>
          rw [phiValues_of_not_phi hisPhi] at hvalues
          exact ih hrest hvalues
      | true =>
          obtain ⟨entries, hentries⟩ := Operation.exists_phi hisPhi
          rw [phiValues_of_phi hentries] at hvalues
          obtain ⟨_, _, hsome⟩ := Option.bind_eq_some_iff.mp hvalues
          obtain ⟨others, hothers, hcons⟩ := Option.bind_eq_some_iff.mp hsome
          obtain rfl := Option.some.inj hcons
          obtain ⟨value, hvalue, hassign⟩ := ih hrest hothers
          refine ⟨value, hvalue, ?_⟩
          rw [assign, Function.update_of_ne
            (Ne.symm (hpre instr List.mem_cons_self))]
          exact hassign

end PhiNodes

section Instructions

theorem execInstrs_append
    (config : Config Val World) (first second : List Instruction) :
    execInstrs machine config (first ++ second) =
      ((execInstrs machine (execInstrs machine config first).1 second).1,
        (execInstrs machine config first).2 ++
          (execInstrs machine (execInstrs machine config first).1
            second).2) := by
  induction first generalizing config with
  | nil => rfl
  | cons instr rest ih =>
      simp only [List.cons_append, execInstrs, ih, List.append_assoc]

/-- An ordinary edited instruction computes the same and keeps the match; it
does not touch the new slot. -/
theorem Matches.execInstr
    {config config' : Config Val World}
    (hmatches : Matches func phi load config config')
    (halloca : alloca = func.fresh) (hload : func.fresh < load)
    {instr : Instruction} (hid : instr.id ≠ phi) (hidLt : instr.id < func.fresh)
    (hoperands : ∀ value ∈ operandsOf instr.operation, value < func.fresh)
    (hslots : phi ∉ slotsOf instr.operation) :
    Matches func phi load (Ssa.execInstr machine config instr).1
        (Ssa.execInstr machine config' (editInstr phi load alloca instr)).1 ∧
      (Ssa.execInstr machine config' (editInstr phi load alloca instr)).2 =
        (Ssa.execInstr machine config instr).2 ∧
      (Ssa.execInstr machine config'
        (editInstr phi load alloca instr)).1.slots alloca =
          config'.slots alloca := by
  have hloadNe : load ≠ instr.id := Nat.ne_of_gt (hidLt.trans hload)
  have hset : ∀ {value value' : Val}, value' = value →
      Matches func phi load (config.setValue instr.id value)
        (config'.setValue instr.id value') := by
    rintro value _ rfl
    refine ⟨⟨?_, hmatches.slots_eq, hmatches.world_eq⟩, ?_⟩
    · intro other hother hne
      simp only [Config.setValue, Function.update_apply]
      rw [hmatches.env_eq other hother hne]
    · simp only [Config.setValue]
      rw [Function.update_of_ne hloadNe, Function.update_of_ne (Ne.symm hid)]
      exact hmatches.load_eq
  rw [editInstr_of_ne hid]
  unfold Ssa.execInstr
  cases hoperation : instr.operation with
  | phi entries => exact ⟨hmatches, rfl, rfl⟩
  | alloca => exact ⟨hmatches, rfl, rfl⟩
  | load slot =>
      rw [hoperation] at hoperands hslots
      have hslot : slot ≠ phi := fun heq =>
        hslots (List.mem_singleton.mpr heq.symm)
      have hslotLt : slot < func.fresh :=
        hoperands slot List.mem_cons_self
      simp only [renameOperation, renameUse_of_ne hslot]
      exact ⟨hset (hmatches.slots_eq slot hslotLt), trivial, rfl⟩
  | store value slot =>
      rw [hoperation] at hoperands hslots
      have hslot : slot ≠ phi := fun heq =>
        hslots (List.mem_singleton.mpr heq.symm)
      have hslotLt : slot < func.fresh := hoperands slot (by simp [operandsOf])
      have hvalueLt : value < func.fresh := hoperands value List.mem_cons_self
      simp only [renameOperation, renameUse_of_ne hslot,
        hmatches.env_renameUse hvalueLt]
      refine ⟨⟨⟨hmatches.env_eq, ?_, hmatches.world_eq⟩, hmatches.load_eq⟩,
        trivial, ?_⟩
      · intro other hother
        simp only [Function.update_apply, hmatches.slots_eq other hother]
      · apply Function.update_of_ne
        rw [halloca]
        exact Nat.ne_of_gt hslotLt
  | ordinary opcode operands =>
      rw [hoperation] at hoperands
      have hmap : (operands.map (renameUse phi load)).map config'.env =
          operands.map config.env := hmatches.map_env hoperands
      simp only [renameOperation, hmap, hmatches.world_eq]
      refine ⟨⟨⟨?_, hmatches.slots_eq, rfl⟩, ?_⟩, trivial, rfl⟩
      · exact (hset rfl).env_eq
      · exact (hset rfl).load_eq

/-- The instructions neither define nor store to the replaced PHI node. -/
def Clean (func : Function) (phi : ValueId) (instrs : List Instruction) :
    Prop :=
  ∀ instr ∈ instrs, instr.id ≠ phi ∧ instr.id < func.fresh ∧
    (∀ value ∈ operandsOf instr.operation, value < func.fresh) ∧
    phi ∉ slotsOf instr.operation

theorem Clean.tail
    {instr : Instruction} {rest : List Instruction}
    (hclean : Clean func phi (instr :: rest)) : Clean func phi rest :=
  fun other hother => hclean other (List.mem_cons_of_mem _ hother)

theorem Matches.execInstrs
    (machine : Machine Val World) (halloca : alloca = func.fresh) (hload : func.fresh < load)
    {instrs : List Instruction} (hclean : Clean func phi instrs)
    {config config' : Config Val World}
    (hmatches : Matches func phi load config config') :
    Matches func phi load (Ssa.execInstrs machine config instrs).1
        (Ssa.execInstrs machine config'
          (instrs.map (editInstr phi load alloca))).1 ∧
      (Ssa.execInstrs machine config'
          (instrs.map (editInstr phi load alloca))).2 =
        (Ssa.execInstrs machine config instrs).2 := by
  induction instrs generalizing config config' with
  | nil => exact ⟨hmatches, rfl⟩
  | cons instr rest ih =>
      obtain ⟨hid, hidLt, hoperands, hslots⟩ := hclean instr List.mem_cons_self
      obtain ⟨hfirst, hvalues, _⟩ :=
        hmatches.execInstr halloca hload hid hidLt
          hoperands hslots
      obtain ⟨hrest, hvalues'⟩ := ih hclean.tail hfirst
      refine ⟨hrest, ?_⟩
      rw [List.map_cons, Ssa.execInstrs, Ssa.execInstrs, hvalues, hvalues']

/-- Before the load has run: PHI nodes and loads keep the agreement and are not
observed. -/
theorem Agrees.execInstrs
    (machine : Machine Val World) (load : ValueId) {instrs : List Instruction}
    (hclean : Clean func phi instrs)
    (hkinds : ∀ instr ∈ instrs, instr.operation.isPhi = true ∨
      instr.operation.isLoad = true)
    {config config' : Config Val World}
    (hagrees : Agrees func phi config config')
    (hpending : config'.slots alloca = config.env phi) :
    Agrees func phi (Ssa.execInstrs machine config instrs).1
        (Ssa.execInstrs machine config'
          (instrs.map (editInstr phi load alloca))).1 ∧
      (Ssa.execInstrs machine config'
          (instrs.map (editInstr phi load alloca))).2 =
        (Ssa.execInstrs machine config instrs).2 ∧
      (Ssa.execInstrs machine config'
          (instrs.map (editInstr phi load alloca))).1.slots alloca =
        (Ssa.execInstrs machine config instrs).1.env phi := by
  induction instrs generalizing config config' with
  | nil => exact ⟨hagrees, rfl, hpending⟩
  | cons instr rest ih =>
      obtain ⟨hid, _, hoperands, hslots⟩ := hclean instr List.mem_cons_self
      have hstep : Agrees func phi (Ssa.execInstr machine config instr).1
            (Ssa.execInstr machine config' (editInstr phi load alloca instr)).1 ∧
          (Ssa.execInstr machine config' (editInstr phi load alloca instr)).2 =
            (Ssa.execInstr machine config instr).2 ∧
          (Ssa.execInstr machine config'
              (editInstr phi load alloca instr)).1.slots alloca =
            (Ssa.execInstr machine config instr).1.env phi := by
        rw [editInstr_of_ne hid]
        unfold Ssa.execInstr
        cases hoperation : instr.operation with
        | phi entries => exact ⟨hagrees, rfl, hpending⟩
        | alloca => exact ⟨hagrees, rfl, hpending⟩
        | load slot =>
            rw [hoperation] at hoperands hslots
            have hslot : slot ≠ phi := fun heq =>
              hslots (List.mem_singleton.mpr heq.symm)
            simp only [renameOperation, renameUse_of_ne hslot,
              hagrees.slots_eq slot (hoperands slot List.mem_cons_self)]
            refine ⟨⟨?_, hagrees.slots_eq, hagrees.world_eq⟩, trivial, ?_⟩
            · intro other hother hne
              simp only [Config.setValue, Function.update_apply,
                hagrees.env_eq other hother hne]
            · exact hpending.trans
                (Function.update_of_ne (Ne.symm hid) _ _).symm
        | store value slot =>
            have hkind := hkinds instr List.mem_cons_self
            rw [hoperation] at hkind
            rcases hkind with hkind | hkind <;> cases hkind
        | ordinary opcode operands =>
            have hkind := hkinds instr List.mem_cons_self
            rw [hoperation] at hkind
            rcases hkind with hkind | hkind <;> cases hkind
      obtain ⟨hfirst, hvalues, hpending'⟩ := hstep
      obtain ⟨hrest, hvalues', hpending''⟩ := ih hclean.tail
        (fun other hother => hkinds other (List.mem_cons_of_mem _ hother))
        hfirst hpending'
      refine ⟨hrest, ?_, hpending''⟩
      rw [List.map_cons, Ssa.execInstrs, Ssa.execInstrs, hvalues, hvalues']

/-- The stores at the end of a block change only the new slot. -/
theorem execInstrs_stores
    {entries : List (ValueId × BlockId)} {stores : List Instruction}
    (hstores : stores.map Instruction.operation =
      entries.map fun entry => .store (renameUse phi load entry.1) alloca)
    (config : Config Val World) :
    (Ssa.execInstrs machine config stores).1.env = config.env ∧
      (Ssa.execInstrs machine config stores).1.world = config.world ∧
      (∀ slot, slot ≠ alloca →
        (Ssa.execInstrs machine config stores).1.slots slot =
          config.slots slot) ∧
      (Ssa.execInstrs machine config stores).2 = [] ∧
      ∀ value, (∀ entry ∈ entries, entry.1 = value) → entries ≠ [] →
        (Ssa.execInstrs machine config stores).1.slots alloca =
          config.env (renameUse phi load value) := by
  induction stores generalizing entries config with
  | nil =>
      refine ⟨rfl, rfl, fun _ _ => rfl, rfl, ?_⟩
      intro value _ hentries
      exact absurd (List.map_eq_nil_iff.mp hstores.symm) hentries
  | cons store rest ih =>
      cases entries with
      | nil => cases hstores
      | cons entry others =>
          rw [List.map_cons, List.map_cons, List.cons.injEq] at hstores
          have hfirst : Ssa.execInstr machine config store =
              ({ config with
                  slots := Function.update config.slots alloca
                    (config.env (renameUse phi load entry.1)) }, []) := by
            rw [Ssa.execInstr, hstores.1]
          obtain ⟨henv, hworld, hslots, hvalues, hlast⟩ := ih hstores.2
            (Ssa.execInstr machine config store).1
          rw [Ssa.execInstrs, hvalues]
          rw [hfirst] at henv hworld hslots hlast ⊢
          refine ⟨henv, hworld, ?_, rfl, ?_⟩
          · intro slot hslot
            rw [hslots slot hslot]
            exact Function.update_of_ne hslot _ _
          · intro value hsame _
            by_cases hothers : others = []
            · subst hothers
              obtain rfl : rest = [] := List.map_eq_nil_iff.mp hstores.2
              rw [← hsame entry List.mem_cons_self]
              exact Function.update_self _ _ _
            · exact hlast value
                (fun other hother => hsame other (List.mem_cons_of_mem _ hother))
                hothers

end Instructions

section Blocks

/-- The one place of the replaced PHI node. -/
theorem IsPhiOf.split
    (hwf : WellFormed func) (hphi : IsPhiOf func block phi incoming) :
    ∃ pre post, (func.body block).instrs =
        pre ++ ⟨phi, .phi incoming⟩ :: post ∧
      (∀ instr ∈ pre, instr.id ≠ phi) ∧ ∀ instr ∈ post, instr.id ≠ phi := by
  obtain ⟨pre, post, hinstrs⟩ := List.append_of_mem hphi.instr_mem
  have hcount : ((func.body block).instrs.map Instruction.id).count phi = 1 :=
    hwf.phi_once block hphi.block_mem _ hphi.instr_mem rfl
  have hids : (func.body block).instrs.map Instruction.id =
      pre.map Instruction.id ++ phi :: post.map Instruction.id := by
    rw [hinstrs, List.map_append, List.map_cons]
  rw [hids, List.count_append, List.count_cons_self] at hcount
  have hpre : (pre.map Instruction.id).count phi = 0 := by omega
  have hpost : (post.map Instruction.id).count phi = 0 := by omega
  rw [List.count_eq_zero] at hpre hpost
  exact ⟨pre, post, hinstrs,
    fun instr hinstr heq => hpre (heq ▸ List.mem_map_of_mem hinstr),
    fun instr hinstr heq => hpost (heq ▸ List.mem_map_of_mem hinstr)⟩

theorem PhisFirst.kinds_of_append
    {pre post : List Instruction} {instr : Instruction}
    (hphi : instr.operation.isPhi = true)
    (hfirst : PhisFirst (pre ++ instr :: post)) :
    ∀ other ∈ pre, other.operation.isPhi = true ∨
      other.operation.isLoad = true := by
  induction pre with
  | nil => simp
  | cons head rest ih =>
      intro other hother
      rcases List.mem_cons.mp hother with rfl | hother
      · by_contra hneither
        rw [not_or, Bool.not_eq_true, Bool.not_eq_true] at hneither
        have hfalse := hfirst.1 hneither instr (by simp)
        rw [hphi] at hfalse
        cases hfalse
      · exact ih hfirst.2 other hother

theorem WellFormed.clean
    (hwf : WellFormed func) (hphi : IsPhiOf func block phi incoming)
    {other : BlockId} (hother : other ∈ func.order)
    {instrs : List Instruction}
    (hsub : ∀ instr ∈ instrs, instr ∈ (func.body other).instrs)
    (hids : ∀ instr ∈ instrs, instr.id ≠ phi) : Clean func phi instrs :=
  fun instr hinstr =>
    ⟨hids instr hinstr, hwf.id_lt other hother instr (hsub instr hinstr),
      hwf.operand_lt other hother instr (hsub instr hinstr),
      hwf.phi_slot block hphi.block_mem _ hphi.instr_mem rfl other hother instr
        (hsub instr hinstr)⟩

theorem WellFormed.unique_phi
    (hwf : WellFormed func) (hphi : IsPhiOf func block phi incoming)
    {other : BlockId} (hother : other ∈ func.order) {instr : Instruction}
    (hinstr : instr ∈ (func.body other).instrs) (hid : instr.id = phi) :
    other = block ∧ instr = ⟨phi, .phi incoming⟩ := by
  have hblock : other = block :=
    hwf.phi_block block hphi.block_mem _ hphi.instr_mem rfl other hother instr
      hinstr hid
  subst hblock
  obtain ⟨pre, post, hinstrs, hpre, hpost⟩ := hphi.split hwf
  rw [hinstrs] at hinstr
  refine ⟨rfl, ?_⟩
  rcases List.mem_append.mp hinstr with hinstr | hinstr
  · exact absurd hid (hpre instr hinstr)
  · rcases List.mem_cons.mp hinstr with hinstr | hinstr
    · exact hinstr
    · exact absurd hid (hpost instr hinstr)

/-- What holds when a block has been left for the next one: the slot also holds
what the PHI node would receive from `pred`. -/
structure Simulates
    (func : Function) (phi load alloca : ValueId)
    (incoming : List (ValueId × BlockId)) (pred : Option BlockId)
    (config config' : Config Val World) : Prop
    extends Matches func phi load config config' where
  pending : ∀ source, pred = some source → ∀ value,
    getIncomingValueForBlock incoming source = some value →
      config'.slots alloca = config.env value

/-- The instructions of a block after its PHI nodes have been assigned. -/
theorem Simulates.execInstrs
    (hwf : WellFormed func) (hphi : IsPhiOf func block phi incoming)
    (halloca : alloca = func.fresh) (hload : func.fresh < load)
    {pred : Option BlockId} {config config' : Config Val World}
    (hsim : Simulates func phi load alloca incoming pred config config')
    {other : BlockId} (hother : other ∈ func.order)
    {values : List (ValueId × Val)}
    (hvalues : phiValues config.env pred (func.body other).instrs =
      some values)
    {start start' : Config Val World}
    (hstart : start = { config with env := assign config.env values })
    (hstart' : start' = { config' with
      env := assign config'.env (values.filter fun value => value.1 ≠ phi) }) :
    Matches func phi load
        (Ssa.execInstrs machine start (func.body other).instrs).1
        (Ssa.execInstrs machine start'
          ((func.body other).instrs.map (editInstr phi load alloca))).1 ∧
      (Ssa.execInstrs machine start'
          ((func.body other).instrs.map (editInstr phi load alloca))).2 =
        (Ssa.execInstrs machine start (func.body other).instrs).2 := by
  have hagrees : Agrees func phi start start' := by
    subst hstart hstart'
    refine ⟨?_, hsim.slots_eq, hsim.world_eq⟩
    intro value hvalue hne
    exact assign_filter hne (hsim.env_eq value hvalue hne)
  by_cases hblock : other = block
  · subst hblock
    obtain ⟨pre, post, hinstrs, hpre, hpost⟩ := hphi.split hwf
    obtain ⟨value, hvalue, hassign⟩ := assign_phi hinstrs hpre hvalues
    obtain ⟨source, hpred, hsource⟩ := Option.bind_eq_some_iff.mp hvalue
    have hpending : start'.slots alloca = start.env phi := by
      subst hstart hstart'
      exact (hsim.pending source hpred value hsource).trans hassign.symm
    have hkinds := PhisFirst.kinds_of_append rfl
      (hinstrs ▸ hwf.phis_first other hother)
    have hcleanPre : Clean func phi pre := hwf.clean hphi hother
      (fun instr hinstr => by rw [hinstrs]; exact List.mem_append_left _ hinstr)
      hpre
    have hcleanPost : Clean func phi post := hwf.clean hphi hother
      (fun instr hinstr => by
        rw [hinstrs]
        exact List.mem_append_right _ (List.mem_cons_of_mem _ hinstr)) hpost
    obtain ⟨hbefore, hvaluesPre, hslot⟩ :=
      hagrees.execInstrs machine load hcleanPre hkinds hpending
    set middle := Ssa.execInstrs machine start pre with hmiddle
    set middle' := Ssa.execInstrs machine start'
      (pre.map (editInstr phi load alloca)) with hmiddle'
    have hloaded : Matches func phi load middle.1
        (middle'.1.setValue load (middle'.1.slots alloca)) := by
      refine ⟨⟨?_, hbefore.slots_eq, hbefore.world_eq⟩, ?_⟩
      · intro value hvalueLt hne
        exact (Function.update_of_ne
          (Nat.ne_of_lt (hvalueLt.trans hload)) _ _).trans
            (hbefore.env_eq value hvalueLt hne)
      · exact (Function.update_self _ _ _).trans hslot
    obtain ⟨hafter, hvaluesPost⟩ :=
      hloaded.execInstrs machine halloca hload hcleanPost
    have hedit : editInstr phi load alloca ⟨phi, .phi incoming⟩ =
        ⟨load, .load alloca⟩ := if_pos rfl
    have hrun : Ssa.execInstrs machine start (func.body other).instrs =
        ((Ssa.execInstrs machine middle.1 post).1,
          middle.2 ++ (Ssa.execInstrs machine middle.1 post).2) := by
      rw [hinstrs, execInstrs_append]
      rfl
    have hrun' : Ssa.execInstrs machine start'
        ((func.body other).instrs.map (editInstr phi load alloca)) =
          ((Ssa.execInstrs machine
              (middle'.1.setValue load (middle'.1.slots alloca))
              (post.map (editInstr phi load alloca))).1,
            middle'.2 ++ (Ssa.execInstrs machine
              (middle'.1.setValue load (middle'.1.slots alloca))
              (post.map (editInstr phi load alloca))).2) := by
      rw [hinstrs, List.map_append, List.map_cons, hedit, execInstrs_append]
      rfl
    rw [hrun, hrun', hvaluesPre, hvaluesPost]
    exact ⟨hafter, rfl⟩
  · have hne : ∀ instr ∈ (func.body other).instrs, instr.id ≠ phi :=
      fun instr hinstr hid =>
        hblock (hwf.unique_phi hphi hother hinstr hid).1
    have hmatches : Matches func phi load start start' := by
      refine ⟨hagrees, ?_⟩
      subst hstart hstart'
      have hids := phiValues_id_mem hvalues
      have hphiEq : assign config.env values phi = config.env phi := by
        apply assign_of_not_mem
        intro value hvalue heq
        obtain ⟨instr, hinstr, hid⟩ := hids value hvalue
        exact hne instr hinstr (hid.trans heq)
      have hloadEq : assign config'.env
          (values.filter fun value => value.1 ≠ phi) load =
            config'.env load := by
        apply assign_of_not_mem
        intro value hvalue heq
        obtain ⟨instr, hinstr, hid⟩ :=
          hids value (List.mem_filter.mp hvalue).1
        have hlt := hwf.id_lt other hother instr hinstr
        rw [hid, heq] at hlt
        exact absurd hlt (Nat.not_lt_of_gt hload)
      exact hloadEq.trans (hsim.load_eq.trans hphiEq.symm)
    exact hmatches.execInstrs machine halloca hload
      (hwf.clean hphi hother (fun _ h => h) hne)

end Blocks

end PhisToAllocas

end Pocl
