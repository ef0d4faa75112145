import Pocl.PhisToAllocasSimulation

/-!
# PHI elimination preserves the run of every function

The simulation of one block carries over to runs of any length, and one
replacement after the other to the whole pass.  A well-formed function never
gets stuck at a PHI node, so the runs before and after the pass exist and are
the same for every machine, every input and every number of blocks.
-/

namespace Pocl

namespace PhisToAllocas

open Ssa

variable {Val World : Type} {machine : Machine Val World}
  {func after : Function} {block : BlockId} {phi load alloca : ValueId}
  {incoming : List (ValueId × BlockId)}

section Runs

theorem runBlock_eq
    {pred : Option BlockId} {config : Config Val World}
    {values : List (ValueId × Val)}
    (hvalues : phiValues config.env pred (func.body block).instrs =
      some values)
    {result : Config Val World × List (ValueId × Val)}
    (hresult : execInstrs machine
      { config with env := assign config.env values }
      (func.body block).instrs = result) :
    runBlock machine func pred block config =
      some (result.1, result.2,
        (machine.branch (func.body block).opcode
          ((func.body block).operands.map result.1.env) result.1.world).bind
            fun index => (func.body block).succs[index]?) := by
  unfold runBlock
  rw [hvalues, ← hresult]
  rfl

theorem runBlock_target_mem
    {pred : Option BlockId} {config next : Config Val World}
    {values : List (ValueId × Val)} {target : BlockId}
    (hrun : runBlock machine func pred block config =
      some (next, values, some target)) :
    target ∈ (func.body block).succs := by
  obtain ⟨_, _, hrest⟩ := Option.bind_eq_some_iff.mp hrun
  simp only [Option.some.injEq, Prod.mk.injEq] at hrest
  obtain ⟨index, _, hindex⟩ := Option.bind_eq_some_iff.mp hrest.2.2
  exact List.mem_of_getElem? hindex

theorem stores_not_phi
    {entries : List (ValueId × BlockId)} {stores : List Instruction}
    (hstores : stores.map Instruction.operation =
      entries.map fun entry => .store (renameUse phi load entry.1) alloca) :
    ∀ store ∈ stores, store.operation.isPhi = false := by
  intro store hstore
  have hoperation : store.operation ∈ stores.map Instruction.operation :=
    List.mem_map_of_mem hstore
  rw [hstores] at hoperation
  obtain ⟨entry, _, heq⟩ := List.mem_map.mp hoperation
  rw [← heq]
  rfl

theorem phiValues_alloca
    {env : ValueId → Val} {pred : Option BlockId} {condition : Prop}
    [Decidable condition] (instrs : List Instruction) :
    phiValues env pred
        ((if condition then [⟨alloca, .alloca⟩] else []) ++ instrs) =
      phiValues env pred instrs := by
  split
  · exact phiValues_of_not_phi rfl
  · rfl

theorem execInstrs_alloca
    {condition : Prop} [Decidable condition] (config : Config Val World)
    (instrs : List Instruction) :
    execInstrs machine config
        ((if condition then [⟨alloca, .alloca⟩] else []) ++ instrs) =
      execInstrs machine config instrs := by
  split <;> rfl

/-- One block runs in both functions with the same values and the same
successor. -/
theorem Replaces.runBlock
    (hwf : WellFormed func) (hphi : IsPhiOf func block phi incoming)
    (hreplaces : Replaces func block phi incoming load alloca after)
    {pred : Option BlockId} {config config' : Config Val World}
    (hsim : Simulates func phi load alloca incoming pred config config')
    {other : BlockId} (hother : other ∈ func.order)
    {next : Config Val World} {values : List (ValueId × Val)}
    {target : Option BlockId}
    (hrun : Ssa.runBlock machine func pred other config =
      some (next, values, target)) :
    ∃ next', Ssa.runBlock machine after pred other config' =
        some (next', values, target) ∧
      Simulates func phi load alloca incoming (some other) next next' := by
  obtain ⟨phis, hphis, hrest⟩ := Option.bind_eq_some_iff.mp hrun
  obtain ⟨rfl, rfl, htarget⟩ := by
    simpa only [Option.some.injEq, Prod.mk.injEq] using hrest
  obtain ⟨stores, hinstrs, hstores, _⟩ := hreplaces.instrs_eq other hother
  have hedited : phiValues config'.env pred
      ((func.body other).instrs.map (editInstr phi load alloca)) =
        some (phis.filter fun value => value.1 ≠ phi) :=
    phiValues_editInstr (fun value hvalue => hsim.env_renameUse hvalue)
      (fun instr hinstr => hwf.operand_lt other hother instr hinstr)
      (fun instr hinstr hid => by
        rw [(hwf.unique_phi hphi hother hinstr hid).2]
        rfl) hphis
  have hphis' : phiValues config'.env pred (after.body other).instrs =
      some (phis.filter fun value => value.1 ≠ phi) := by
    rw [hinstrs, List.append_assoc, phiValues_alloca,
      phiValues_append (stores_not_phi hstores)]
    exact hedited
  obtain ⟨hmatches, hvalues⟩ := hsim.execInstrs hwf hphi hreplaces.alloca_eq
    hreplaces.alloca_lt hother hphis rfl rfl
  set done := execInstrs machine
    { config with env := assign config.env phis } (func.body other).instrs
    with hdone
  set done' := execInstrs machine
    { config' with
      env := assign config'.env (phis.filter fun value => value.1 ≠ phi) }
    ((func.body other).instrs.map (editInstr phi load alloca)) with hdone'
  obtain ⟨henv, hworld, hslots, hnone, hlast⟩ :=
    execInstrs_stores hstores done'.1
  set final := execInstrs machine done'.1 stores with hfinal
  have hexec : execInstrs machine
      { config' with
        env := assign config'.env (phis.filter fun value => value.1 ≠ phi) }
      (after.body other).instrs = (final.1, done.2) := by
    rw [hinstrs, List.append_assoc, execInstrs_alloca, execInstrs_append,
      ← hdone', ← hfinal, hnone, List.append_nil, hvalues]
  refine ⟨final.1, ?_, ?_⟩
  · rw [runBlock_eq hphis' hexec, ← htarget, hreplaces.opcode_eq,
      hreplaces.operands_eq, hreplaces.succs_eq, henv, hworld,
      hmatches.world_eq, hmatches.map_env (hwf.branch_lt other hother)]
  · refine ⟨⟨⟨?_, ?_, ?_⟩, ?_⟩, ?_⟩
    · rw [henv]
      exact hmatches.env_eq
    · intro slot hslot
      rw [hslots slot (by rw [hreplaces.alloca_eq]; exact Nat.ne_of_lt hslot)]
      exact hmatches.slots_eq slot hslot
    · rw [hworld]
      exact hmatches.world_eq
    · rw [henv]
      exact hmatches.load_eq
    · intro source hsource value hvalue
      obtain rfl := Option.some.inj hsource
      have hmem := getIncomingValueForBlock_mem hvalue
      have hlt : value < func.fresh :=
        hwf.operand_lt block hphi.block_mem _ hphi.instr_mem value
          (List.mem_map_of_mem hmem)
      rw [← hmatches.env_renameUse hlt]
      apply hlast
      · intro entry hentry
        obtain ⟨hentryMem, hentryEq⟩ := List.mem_filter.mp hentry
        exact hwf.phi_agree block hphi.block_mem _ hphi.instr_mem entry
          hentryMem _ hmem (by simpa using hentryEq)
      · exact List.ne_nil_of_mem
          (List.mem_filter.mpr ⟨hmem, by simp⟩)

theorem Replaces.run
    (hwf : WellFormed func) (hphi : IsPhiOf func block phi incoming)
    (hreplaces : Replaces func block phi incoming load alloca after)
    (count : ℕ) {pred : Option BlockId} {config config' : Config Val World}
    (hsim : Simulates func phi load alloca incoming pred config config')
    {other : BlockId} (hother : other ∈ func.order)
    {trace : List (BlockId × List (ValueId × Val))}
    (hrun : Ssa.run machine func count pred other config = some trace) :
    Ssa.run machine after count pred other config' = some trace := by
  induction count generalizing pred config config' other trace with
  | zero => exact hrun
  | succ count ih =>
      rw [Ssa.run] at hrun ⊢
      obtain ⟨⟨next, values, target⟩, hblock, hrest⟩ :=
        Option.bind_eq_some_iff.mp hrun
      obtain ⟨next', hblock', hnext⟩ :=
        hreplaces.runBlock hwf hphi hsim hother hblock
      refine Option.bind_eq_some_iff.mpr ⟨_, hblock', ?_⟩
      cases htarget : target with
      | none =>
          rw [htarget] at hrest
          exact hrest
      | some successor =>
          rw [htarget] at hrest
          obtain ⟨tail, htail, hcons⟩ := Option.bind_eq_some_iff.mp hrest
          refine Option.bind_eq_some_iff.mpr ⟨tail, ?_, hcons⟩
          apply ih hnext _ htail
          subst htarget
          exact hwf.succs_mem other hother successor
            (runBlock_target_mem hblock)

end Runs

section Progress

theorem phiValues_exists
    {env : ValueId → Val} {pred : Option BlockId} {instrs : List Instruction}
    (hentries : ∀ instr ∈ instrs, ∀ entries,
      instr.operation = .phi entries →
        ∃ value, pred.bind (getIncomingValueForBlock entries) = some value) :
    ∃ values, phiValues env pred instrs = some values := by
  induction instrs with
  | nil => exact ⟨[], rfl⟩
  | cons instr rest ih =>
      obtain ⟨values, hvalues⟩ := ih fun other hother =>
        hentries other (List.mem_cons_of_mem _ hother)
      cases hphi : instr.operation.isPhi with
      | false => exact ⟨values, (phiValues_of_not_phi hphi).trans hvalues⟩
      | true =>
          obtain ⟨entries, hoperation⟩ := Operation.exists_phi hphi
          obtain ⟨value, hvalue⟩ :=
            hentries instr List.mem_cons_self entries hoperation
          refine ⟨(instr.id, env value) :: values, ?_⟩
          rw [phiValues_of_phi hoperation, hvalue, Option.bind_some, hvalues]
          rfl

/-- A block is entered at the start or along an edge. -/
def EnteredFrom (func : Function) (pred : Option BlockId) (block : BlockId) :
    Prop :=
  match pred with
  | none => block = func.entry
  | some source => source ∈ func.order ∧ block ∈ (func.body source).succs

theorem WellFormed.runBlock_exists
    (hwf : WellFormed func) (machine : Machine Val World) {pred : Option BlockId}
    (hentered : EnteredFrom func pred block) (config : Config Val World) :
    ∃ next values target, runBlock machine func pred block config =
      some (next, values, target) := by
  have hentries : ∀ instr ∈ (func.body block).instrs, ∀ entries,
      instr.operation = .phi entries →
        ∃ value, pred.bind (getIncomingValueForBlock entries) = some value := by
    intro instr hinstr entries hoperation
    cases pred with
    | none =>
        obtain rfl : block = func.entry := hentered
        have hfalse := hwf.entry_phi instr hinstr
        rw [hoperation] at hfalse
        cases hfalse
    | some source =>
        have hentry := hwf.phi_entry source hentered.1 block hentered.2 instr
          hinstr (by rw [hoperation]; rfl)
        rw [hoperation] at hentry
        obtain ⟨value, hvalue, _⟩ := getIncomingValueForBlock_of_mem hentry
        exact ⟨value, hvalue⟩
  obtain ⟨values, hvalues⟩ := phiValues_exists hentries
  exact ⟨_, _, _, runBlock_eq hvalues rfl⟩

theorem WellFormed.run_exists
    (hwf : WellFormed func) (machine : Machine Val World) (count : ℕ) {pred : Option BlockId}
    (hblock : block ∈ func.order) (hentered : EnteredFrom func pred block)
    (config : Config Val World) :
    ∃ trace, run machine func count pred block config = some trace := by
  induction count generalizing pred block config with
  | zero => exact ⟨[], rfl⟩
  | succ count ih =>
      obtain ⟨next, values, target, hrun⟩ :=
        hwf.runBlock_exists machine hentered config
      cases target with
      | none =>
          exact ⟨[(block, values)],
            Option.bind_eq_some_iff.mpr ⟨_, hrun, rfl⟩⟩
      | some successor =>
          have hsucc := runBlock_target_mem hrun
          obtain ⟨trace, htrace⟩ := ih
            (hwf.succs_mem block hblock successor hsucc)
            (show EnteredFrom func (some block) successor from ⟨hblock, hsucc⟩)
            next
          refine ⟨(block, values) :: trace,
            Option.bind_eq_some_iff.mpr ⟨_, hrun, ?_⟩⟩
          exact Option.bind_eq_some_iff.mpr ⟨trace, htrace, rfl⟩

end Progress

section Pass

theorem defines_iff {id : ValueId} :
    func.defines id = true ↔
      ∃ block ∈ func.order, ∃ instr ∈ (func.body block).instrs,
        instr.id = id := by
  simp [Function.defines]

theorem Replaces.mem_editInstr
    (hreplaces : Replaces func block phi incoming load alloca after)
    {other : BlockId} (hother : other ∈ func.order) {instr : Instruction}
    (hinstr : instr ∈ (func.body other).instrs) :
    editInstr phi load alloca instr ∈ (after.body other).instrs := by
  obtain ⟨stores, hinstrs, _, _⟩ := hreplaces.instrs_eq other hother
  rw [hinstrs]
  exact List.mem_append_left _
    (List.mem_append_right _ (List.mem_map_of_mem hinstr))

theorem Replaces.simulates_initial
    (hphi : IsPhiOf func block phi incoming)
    (hreplaces : Replaces func block phi incoming load alloca after)
    (input : ValueId → Val) (world : World) :
    Simulates func phi load alloca incoming none
      (initialConfig machine func input world)
      (initialConfig machine after input world) := by
  have hdefines : ∀ value < func.fresh, value ≠ phi →
      after.defines value = func.defines value := by
    intro value hvalue hne
    rw [Bool.eq_iff_iff, defines_iff, defines_iff, hreplaces.order_eq]
    constructor
    · rintro ⟨other, hother, instr, hinstr, rfl⟩
      obtain ⟨old, hold, _, hid⟩ :=
        hreplaces.old_of_id_lt hother hinstr hvalue
      exact ⟨other, hother, old, hold, hid.symm⟩
    · rintro ⟨other, hother, instr, hinstr, rfl⟩
      refine ⟨other, hother, _, hreplaces.mem_editInstr hother hinstr, ?_⟩
      rw [editInstr_of_ne hne]
  have hphiDefined : func.defines phi = true :=
    defines_iff.mpr ⟨block, hphi.block_mem, _, hphi.instr_mem, rfl⟩
  have hloadDefined : after.defines load = true := by
    refine defines_iff.mpr ⟨block, hreplaces.order_eq ▸ hphi.block_mem, _,
      hreplaces.mem_editInstr hphi.block_mem hphi.instr_mem, ?_⟩
    exact congrArg Instruction.id (if_pos rfl)
  refine ⟨⟨⟨?_, fun _ _ => rfl, rfl⟩, ?_⟩, ?_⟩
  · intro value hvalue hne
    simp only [initialConfig, hdefines value hvalue hne]
  · simp [initialConfig, hphiDefined, hloadDefined]
  · intro source hsource
    cases hsource

/-- The two functions have the same runs. -/
def SameRuns (func after : Function) : Prop :=
  ∀ (Val World : Type) (machine : Machine Val World) (input : ValueId → Val)
    (world : World) (count : ℕ), ∃ trace,
      runFunction machine func input world count = some trace ∧
        runFunction machine after input world count = some trace

theorem WellFormed.sameRuns_refl (hwf : WellFormed func) :
    SameRuns func func := by
  intro Val World machine input world count
  obtain ⟨trace, htrace⟩ := hwf.run_exists machine count
    hwf.entry_mem (show EnteredFrom func none func.entry from rfl)
    (initialConfig machine func input world)
  exact ⟨trace, htrace, htrace⟩

theorem SameRuns.trans
    {middle : Function} (hfirst : SameRuns func middle)
    (hnext : SameRuns middle after) : SameRuns func after := by
  intro Val World machine input world count
  obtain ⟨trace, hfunc, hmiddle⟩ := hfirst Val World machine input world count
  obtain ⟨trace', hmiddle', hafter⟩ :=
    hnext Val World machine input world count
  rw [hmiddle, Option.some.injEq] at hmiddle'
  subst hmiddle'
  exact ⟨trace, hfunc, hafter⟩

theorem Replaces.sameRuns
    (hwf : WellFormed func) (hphi : IsPhiOf func block phi incoming)
    (hreplaces : Replaces func block phi incoming load alloca after) :
    SameRuns func after := by
  intro Val World machine input world count
  obtain ⟨trace, htrace, _⟩ :=
    hwf.sameRuns_refl Val World machine input world count
  refine ⟨trace, htrace, ?_⟩
  unfold runFunction
  rw [hreplaces.entry_eq]
  exact hreplaces.run hwf hphi count
    (hreplaces.simulates_initial hphi input world) hwf.entry_mem htrace

theorem incomingOf_none
    {phi : BlockId × ValueId} (hnone : incomingOf func phi = none)
    {instr : Instruction} (hinstr : instr ∈ (func.body phi.1).instrs)
    (hphi : instr.operation.isPhi = true) : instr.id ≠ phi.2 := by
  intro hid
  obtain ⟨entries, hentries⟩ := Operation.exists_phi hphi
  have hfind := List.findSome?_eq_none_iff.mp hnone instr hinstr
  rw [if_pos hid, hentries] at hfind
  cases hfind

/-- The PHI nodes of the function are among the listed ones. -/
def PhisListed (func : Function) (phis : List (BlockId × ValueId)) : Prop :=
  ∀ block ∈ func.order, ∀ instr ∈ (func.body block).instrs,
    instr.operation.isPhi = true → (block, instr.id) ∈ phis

/-- One call of `breakPHIToAllocas`. -/
theorem breakPHIToAllocas_spec
    (hwf : WellFormed func) {place : BlockId × ValueId}
    (hplace : place.1 ∈ func.order) {rest : List (BlockId × ValueId)}
    (hlisted : PhisListed func (place :: rest)) :
    WellFormed (breakPHIToAllocas func place) ∧
      (breakPHIToAllocas func place).order = func.order ∧
      PhisListed (breakPHIToAllocas func place) rest ∧
      SameRuns func (breakPHIToAllocas func place) := by
  obtain ⟨block, phi⟩ := place
  cases hincoming : incomingOf func (block, phi) with
  | none =>
      have hsame : breakPHIToAllocas func (block, phi) = func := by
        unfold breakPHIToAllocas
        rw [hincoming]
      rw [hsame]
      refine ⟨hwf, rfl, ?_, hwf.sameRuns_refl⟩
      intro other hother instr hinstr hphi
      rcases List.mem_cons.mp (hlisted other hother instr hinstr hphi) with
        heq | hmem
      · obtain ⟨rfl, rfl⟩ := Prod.mk.inj heq
        exact absurd rfl (incomingOf_none hincoming hinstr hphi)
      · exact hmem
  | some incoming =>
      obtain ⟨⟨id, operation⟩, hinstr, rfl, rfl⟩ := incomingOf_spec hincoming
      have hphi : IsPhiOf func block id incoming := ⟨hplace, hinstr⟩
      obtain ⟨load, alloca, hreplaces⟩ :=
        breakPHIToAllocas_replaces hwf hplace hincoming
      refine ⟨hreplaces.wellFormed hwf hphi, hreplaces.order_eq, ?_,
        hreplaces.sameRuns hwf hphi⟩
      intro other hother instr hinstr' hisPhi
      rw [hreplaces.order_eq] at hother
      obtain ⟨old, hold, hne, holdPhi, hid, _⟩ :=
        hreplaces.phi_cases hother hinstr' hisPhi
      rw [hid]
      rcases List.mem_cons.mp (hlisted other hother old hold holdPhi) with
        heq | hmem
      · exact absurd (Prod.mk.inj heq).2 hne
      · exact hmem

theorem foldl_breakPHIToAllocas_spec
    (phis : List (BlockId × ValueId)) (hwf : WellFormed func)
    (hplaces : ∀ place ∈ phis, place.1 ∈ func.order)
    (hlisted : PhisListed func phis) :
    (phis.foldl breakPHIToAllocas func).order = func.order ∧
      PhisListed (phis.foldl breakPHIToAllocas func) [] ∧
      SameRuns func (phis.foldl breakPHIToAllocas func) := by
  induction phis generalizing func with
  | nil => exact ⟨rfl, hlisted, hwf.sameRuns_refl⟩
  | cons place rest ih =>
      obtain ⟨hwf', horder, hlisted', hruns⟩ :=
        breakPHIToAllocas_spec hwf (hplaces place List.mem_cons_self) hlisted
      obtain ⟨horder', hnone, hruns'⟩ := ih hwf'
        (fun other hother => by
          rw [horder]
          exact hplaces other (List.mem_cons_of_mem _ hother)) hlisted'
      exact ⟨horder'.trans horder, hnone, hruns.trans hruns'⟩

theorem collectPHIs_spec (func : Function) :
    (∀ place ∈ collectPHIs func, place.1 ∈ func.order) ∧
      PhisListed func (collectPHIs func) := by
  constructor
  · intro place hplace
    obtain ⟨block, hblock, hmem⟩ := List.mem_flatMap.mp hplace
    obtain ⟨instr, _, rfl⟩ := List.mem_map.mp hmem
    exact hblock
  · intro block hblock instr hinstr hphi
    refine List.mem_flatMap.mpr ⟨block, hblock, ?_⟩
    exact List.mem_map_of_mem (List.mem_filter.mpr ⟨hinstr, hphi⟩)

theorem runOnFunction_preserves_runs
    (func : Function) (hwf : WellFormed func) :
    (runOnFunction true .loops func).1.order = func.order ∧
      (∀ block ∈ func.order,
        ∀ instr ∈ ((runOnFunction true .loops func).1.body block).instrs,
          instr.operation.isPhi = false) ∧
      ∀ (Val World : Type) (machine : Machine Val World)
        (input : ValueId → Val) (world : World) (count : ℕ), ∃ trace,
          runFunction machine func input world count = some trace ∧
            runFunction machine (runOnFunction true .loops func).1 input world
              count = some trace := by
  obtain ⟨hplaces, hlisted⟩ := collectPHIs_spec func
  obtain ⟨horder, hnone, hruns⟩ :=
    foldl_breakPHIToAllocas_spec (collectPHIs func) hwf hplaces hlisted
  refine ⟨horder, ?_, hruns⟩
  intro block hblock instr hinstr
  by_contra hphi
  rw [Bool.not_eq_false] at hphi
  exact List.not_mem_nil (hnone block (horder.symm ▸ hblock) instr hinstr hphi)

/-- Two values are swapped in a loop that branches back to itself, and one of
them is used behind the loop. -/
def swapLoop : Function where
  order := [0, 1, 2]
  body := fun block =>
    match block with
    | 0 => ⟨[], 0, [], [1]⟩
    | 1 => ⟨[⟨2, .phi [(0, 0), (3, 1)]⟩, ⟨3, .phi [(1, 0), (2, 1)]⟩,
        ⟨4, .ordinary 0 [2, 3]⟩], 1, [4], [1, 2]⟩
    | _ => ⟨[⟨5, .ordinary 1 [2]⟩], 2, [5], []⟩
  fresh := 6

theorem swapLoop_wellFormed : WellFormed swapLoop := by
  constructor
  · decide
  · decide
  · decide
  · decide
  · decide
  · decide
  · decide
  · decide
  · decide
  · decide
  · intro block hblock
    simp only [swapLoop, List.mem_cons, List.not_mem_nil, or_false] at hblock
    rcases hblock with rfl | rfl | rfl <;>
      simp [swapLoop, PhisFirst, Operation.isPhi, Operation.isLoad]
  · decide

theorem swapLoop_preserves_runs :
    WellFormed swapLoop ∧
      (runOnFunction true .loops swapLoop).1.order = swapLoop.order ∧
      (∀ block ∈ swapLoop.order,
        ∀ instr ∈ ((runOnFunction true .loops swapLoop).1.body block).instrs,
          instr.operation.isPhi = false) ∧
      ∀ (Val World : Type) (machine : Machine Val World)
        (input : ValueId → Val) (world : World) (count : ℕ), ∃ trace,
          runFunction machine swapLoop input world count = some trace ∧
            runFunction machine (runOnFunction true .loops swapLoop).1 input
              world count = some trace :=
  ⟨swapLoop_wellFormed, runOnFunction_preserves_runs swapLoop
    swapLoop_wellFormed⟩

/-- The loads stand where the PHI nodes were, the stores before the terminators
of both predecessors. -/
example :
    ((runOnFunction true .loops swapLoop).1.body 1).instrs =
      [⟨9, .load 6⟩, ⟨13, .load 10⟩, ⟨4, .ordinary 0 [9, 13]⟩,
        ⟨8, .store 13 6⟩, ⟨12, .store 9 10⟩] := by
  decide +kernel

end Pass

end PhisToAllocas

end Pocl
