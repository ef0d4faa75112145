import Pocl.WorkgroupLaunchers

/-!
# Privatized launchers

A thread that runs the privatized launcher is a thread that runs the launcher as it is written
with variables of its own, behind the code that sets up the variables on the stack.  Each of the
two follows the steps of the other.
-/

namespace Pocl.WorkgroupLaunchers

variable {O V M : Type*} {mod : Module V}

section Privatization

def Place.OnStack : Place → Prop
  | .alloca _ => True
  | .global _ => False

/-- No variable of the module is accessed. -/
def Instr.OnStack : Instr O V → Prop
  | .load _ place => place.OnStack
  | .store _ place => place.OnStack
  | _ => True

def Place.Declared (mod : Module V) : Place → Prop
  | .alloca _ => False
  | .global gv => mod.getGlobalVariable gv ≠ none

/-- The variables are those of the module. -/
def Instr.Declared (mod : Module V) : Instr O V → Prop
  | .alloca _ => False
  | .load _ place => place.Declared mod
  | .store _ place => place.Declared mod
  | _ => True

structure Function.Declared (mod : Module V) (func : Function O V) : Prop where
  entry : ∀ instr ∈ func.entry.instrs, instr.Declared mod
  blocks : ∀ block ∈ func.blocks, ∀ instr ∈ block.instrs, instr.Declared mod

/-- An access to a variable of the module becomes an access to the stack. -/
def Place.privatize : Place → Place
  | .global gv => .alloca gv
  | .alloca gv => .alloca gv

def Instr.privatize : Instr O V → Instr O V
  | .load result place => .load result place.privatize
  | .store value place => .store value place.privatize
  | instr => instr

/-- The code in front of a privatized function. -/
def Instr.IsSetup : Instr O V → Prop
  | .alloca _ => True
  | .store (.const _) (.alloca _) => True
  | _ => False

theorem Instr.IsSetup.onStack {instr : Instr O V} (hsetup : instr.IsSetup) : instr.OnStack := by
  cases instr with
  | alloca gv => trivial
  | store value place =>
      cases place with
      | alloca gv => trivial
      | global gv => cases value <;> cases hsetup
  | load result place => cases hsetup
  | loadContext result field => trivial
  | operation result operation operands => trivial

theorem mem_dims : ∀ i : Fin 3, i ∈ dims := by
  decide

theorem mem_families (gv : WorkgroupVariable) : gv ∈ families.flatten := by
  cases gv <;> simp [families, mem_dims]

theorem isSetup_of_mem_allocaCode {gv : WorkgroupVariable} {instr : Instr O V}
    (hinstr : instr ∈ allocaCode mod gv) : instr.IsSetup := by
  unfold allocaCode at hinstr
  split at hinstr
  · cases hinstr
  · split at hinstr
    · simp only [List.mem_singleton] at hinstr
      subst hinstr
      trivial
    · simp only [List.mem_cons, List.not_mem_nil, or_false] at hinstr
      cases hinstr with
      | inl halloca => subst halloca; trivial
      | inr hstore => subst hstore; trivial

theorem replaceUsesOfWith_of_onStack {place : Place} (hstack : place.OnStack)
    (gv : WorkgroupVariable) : place.replaceUsesOfWith gv = place := by
  cases place with
  | alloca other => rfl
  | global other => cases hstack

theorem replaceVariable_of_onStack {instr : Instr O V} (hstack : instr.OnStack)
    (gv : WorkgroupVariable) : replaceVariable mod instr gv = instr := by
  unfold replaceVariable
  split
  · rfl
  · cases instr with
    | load result place =>
        simp only [Instr.replaceUsesOfWith, replaceUsesOfWith_of_onStack hstack]
    | store value place =>
        simp only [Instr.replaceUsesOfWith, replaceUsesOfWith_of_onStack hstack]
    | alloca other => rfl
    | loadContext result field => rfl
    | operation result operation operands => rfl

theorem foldl_replaceVariable_of_onStack {instr : Instr O V} (hstack : instr.OnStack)
    (vars : List WorkgroupVariable) : vars.foldl (replaceVariable mod) instr = instr := by
  induction vars with
  | nil => rfl
  | cons gv vars ih => rw [List.foldl_cons, replaceVariable_of_onStack hstack, ih]

theorem replaceVariable_self {instr : Place → Instr O V} {gv : WorkgroupVariable}
    (hinstr : ∀ place, (instr place).replaceUsesOfWith gv = instr (place.replaceUsesOfWith gv))
    (hgv : mod.getGlobalVariable gv ≠ none) :
    replaceVariable mod (instr (.global gv)) gv = instr (.alloca gv) := by
  cases hvar : mod.getGlobalVariable gv with
  | none => exact absurd hvar hgv
  | some var => simp [replaceVariable, hvar, hinstr, Place.replaceUsesOfWith]

theorem replaceVariable_other {instr : Place → Instr O V} {gv other : WorkgroupVariable}
    (hinstr : ∀ place,
      (instr place).replaceUsesOfWith other = instr (place.replaceUsesOfWith other))
    (hne : gv ≠ other) :
    replaceVariable mod (instr (.global gv)) other = instr (.global gv) := by
  unfold replaceVariable
  split
  · rfl
  · simp [hinstr, Place.replaceUsesOfWith, hne]

/-- All variables are replaced, also the one that an instruction accesses. -/
theorem foldl_replaceVariable_access (instr : Place → Instr O V) {gv : WorkgroupVariable}
    (hinstr : ∀ v place, (instr place).replaceUsesOfWith v = instr (place.replaceUsesOfWith v))
    (hstack : (instr (.alloca gv)).OnStack) (hgv : mod.getGlobalVariable gv ≠ none)
    {vars : List WorkgroupVariable} (hmem : gv ∈ vars) :
    vars.foldl (replaceVariable mod) (instr (.global gv)) = instr (.alloca gv) := by
  induction vars with
  | nil => cases hmem
  | cons other vars ih =>
      rw [List.foldl_cons]
      by_cases heq : gv = other
      · subst heq
        rw [replaceVariable_self (hinstr gv) hgv, foldl_replaceVariable_of_onStack hstack]
      · rw [replaceVariable_other (hinstr other) heq]
        exact ih (List.mem_of_ne_of_mem heq hmem)

theorem foldl_replaceVariable {instr : Instr O V} (hdeclared : instr.Declared mod) :
    families.flatten.foldl (replaceVariable mod) instr = instr.privatize := by
  cases instr with
  | alloca gv => cases hdeclared
  | load result place =>
      cases place with
      | alloca gv => cases hdeclared
      | global gv =>
          exact foldl_replaceVariable_access (.load result) (fun _ _ => rfl) trivial hdeclared
            (mem_families gv)
  | store value place =>
      cases place with
      | alloca gv => cases hdeclared
      | global gv =>
          exact foldl_replaceVariable_access (.store value) (fun _ _ => rfl) trivial hdeclared
            (mem_families gv)
  | loadContext result field =>
      apply foldl_replaceVariable_of_onStack
      trivial
  | operation result operation operands =>
      apply foldl_replaceVariable_of_onStack
      trivial

theorem Function.prepend_prepend (func : Function O V) (first second : List (Instr O V)) :
    (func.prepend second).prepend first = func.prepend (first ++ second) := by
  simp only [Function.prepend, List.append_assoc]

theorem Builder.insert_prepend (func : Function O V) (setup code : List (Instr O V)) :
    (⟨func.prepend setup, setup.length⟩ : Builder O V).insert code =
      ⟨func.prepend (setup ++ code), (setup ++ code).length⟩ := by
  simp [Builder.insert, Function.prepend]

theorem foldl_insert (func : Function O V) (vars : List WorkgroupVariable)
    (setup : List (Instr O V)) :
    vars.foldl (fun builder v => builder.insert (allocaCode mod v))
        (⟨func.prepend setup, setup.length⟩ : Builder O V) =
      ⟨func.prepend (setup ++ vars.flatMap (allocaCode mod)),
        (setup ++ vars.flatMap (allocaCode mod)).length⟩ := by
  induction vars generalizing setup with
  | nil => rw [List.foldl_nil, List.flatMap_nil, List.append_nil]
  | cons gv vars ih =>
      rw [List.foldl_cons, Builder.insert_prepend, ih, List.flatMap_cons, List.append_assoc]

theorem Function.mapInstrs_prepend (f : Instr O V → Instr O V) (func : Function O V)
    (setup : List (Instr O V)) (hsetup : ∀ instr ∈ setup, f instr = instr) :
    (func.prepend setup).mapInstrs f = (func.mapInstrs f).prepend setup := by
  have hmap : setup.map f = setup := (List.map_congr_left hsetup).trans (List.map_id _)
  simp [Function.prepend, Function.mapInstrs, Block.mapInstrs, hmap]

theorem Function.mapInstrs_mapInstrs (f g : Instr O V → Instr O V) (func : Function O V) :
    (func.mapInstrs f).mapInstrs g = func.mapInstrs (g ∘ f) := by
  simp [Function.mapInstrs, Block.mapInstrs]

theorem Function.mapInstrs_congr {f g : Instr O V → Instr O V} {func : Function O V}
    (hdeclared : func.Declared mod) (heq : ∀ instr, instr.Declared mod → f instr = g instr) :
    func.mapInstrs f = func.mapInstrs g := by
  have hentry : func.entry.mapInstrs f = func.entry.mapInstrs g := by
    simp only [Block.mapInstrs, Block.mk.injEq, and_true]
    exact List.map_congr_left fun instr hinstr => heq instr (hdeclared.entry instr hinstr)
  have hblocks : func.blocks.map (·.mapInstrs f) = func.blocks.map (·.mapInstrs g) := by
    apply List.map_congr_left
    intro block hblock
    simp only [Block.mapInstrs, Block.mk.injEq, and_true]
    exact List.map_congr_left fun instr hinstr =>
      heq instr (hdeclared.blocks block hblock instr hinstr)
  simp only [Function.mapInstrs, hentry, hblocks]

theorem foldl_privatizeVariables (func : Function O V) (lists : List (List WorkgroupVariable))
    (setup : List (Instr O V)) (hsetup : ∀ instr ∈ setup, instr.IsSetup) :
    (lists.foldl (privatizeVariables mod) ⟨func.prepend setup, setup.length⟩).func =
      (func.mapInstrs (lists.flatten.foldl (replaceVariable mod))).prepend
        (setup ++ lists.flatten.flatMap (allocaCode mod)) := by
  induction lists generalizing func setup with
  | nil => simp [Function.mapInstrs, Block.mapInstrs]
  | cons vars lists ih =>
      have hall : ∀ instr ∈ setup ++ vars.flatMap (allocaCode mod), instr.IsSetup := by
        intro instr hinstr
        simp only [List.mem_append, List.mem_flatMap] at hinstr
        obtain hinstr | ⟨gv, -, hinstr⟩ := hinstr
        · exact hsetup instr hinstr
        · exact isSetup_of_mem_allocaCode hinstr
      rw [List.foldl_cons, privatizeVariables, foldl_insert]
      dsimp only
      rw [Function.mapInstrs_prepend _ _ _ fun instr hinstr =>
          foldl_replaceVariable_of_onStack (hall instr hinstr).onStack vars,
        ih _ _ hall, Function.mapInstrs_mapInstrs]
      simp only [List.flatten_cons, List.flatMap_append, List.append_assoc, List.foldl_append]
      rfl

/-- The variables are set up in front, and all accesses go to the stack. -/
theorem privatizeContext_eq {func : Function O V} (hdeclared : func.Declared mod) :
    privatizeContext mod func =
      (func.mapInstrs Instr.privatize).prepend (families.flatten.flatMap (allocaCode mod)) := by
  have hfold : (families.foldl (privatizeVariables mod) ⟨func.prepend [], 0⟩).func = _ :=
    foldl_privatizeVariables func families [] (by simp)
  rw [List.nil_append] at hfold
  rw [← Function.mapInstrs_congr hdeclared fun _ => foldl_replaceVariable, ← hfold]
  rfl

end Privatization

section Simulation

/-- The variables on the stack behind the code that sets them up. -/
def setUp (undef : V) : List (Instr O V) → (WorkgroupVariable → V) → WorkgroupVariable → V
  | .alloca gv :: rest, locals => setUp undef rest (Function.update locals gv undef)
  | .store (.const value) (.alloca gv) :: rest, locals =>
      setUp undef rest (Function.update locals gv value)
  | _ :: rest, locals => setUp undef rest locals
  | [], locals => locals

theorem setUp_append (undef : V) {first : List (Instr O V)}
    (hsetup : ∀ instr ∈ first, instr.IsSetup) (second : List (Instr O V))
    (locals : WorkgroupVariable → V) :
    setUp undef (first ++ second) locals = setUp undef second (setUp undef first locals) := by
  induction first generalizing locals with
  | nil => rfl
  | cons instr first ih =>
      have hrest : ∀ instr ∈ first, instr.IsSetup :=
        fun other hother => hsetup other (List.mem_cons_of_mem _ hother)
      have hinstr : instr.IsSetup := hsetup instr List.mem_cons_self
      cases instr with
      | alloca gv => exact ih hrest _
      | store value place =>
          cases place with
          | alloca gv =>
              cases value with
              | const value => exact ih hrest _
              | register r => cases hinstr
              | argument n => cases hinstr
          | global gv => cases value <;> cases hinstr
      | load result place => cases hinstr
      | loadContext result field => cases hinstr
      | operation result operation operands => cases hinstr

variable (machine : Machine O V M)

theorem setUp_allocaCode (gv : WorkgroupVariable) (locals : WorkgroupVariable → V) :
    setUp machine.undef (allocaCode mod gv : List (Instr O V)) locals =
      if mod.getGlobalVariable gv ≠ none then
        Function.update locals gv (mod.initial machine gv)
      else
        locals := by
  unfold allocaCode Module.initial
  cases hvar : mod.getGlobalVariable gv with
  | none => rfl
  | some var =>
      cases hinit : var.initializer with
      | none => simp [setUp, hinit]
      | some value => simp [setUp, hinit]

theorem setUp_flatMap_allocaCode (vars : List WorkgroupVariable)
    (locals : WorkgroupVariable → V) (gv : WorkgroupVariable) :
    setUp machine.undef (vars.flatMap (allocaCode mod) : List (Instr O V)) locals gv =
      if gv ∈ vars ∧ mod.getGlobalVariable gv ≠ none then mod.initial machine gv
      else locals gv := by
  induction vars generalizing locals with
  | nil => simp [setUp]
  | cons other vars ih =>
      rw [List.flatMap_cons, setUp_append machine.undef fun _ => isSetup_of_mem_allocaCode, ih,
        setUp_allocaCode]
      by_cases heq : gv = other
      · subst heq
        by_cases hvar : mod.getGlobalVariable gv = none <;> simp [hvar]
      · by_cases hvar : mod.getGlobalVariable other = none <;> simp [hvar, heq]

theorem setUp_families :
    setUp machine.undef (families.flatten.flatMap (allocaCode mod) : List (Instr O V))
      (fun _ => machine.undef) = mod.initial machine := by
  funext gv
  rw [setUp_flatMap_allocaCode]
  by_cases hvar : mod.getGlobalVariable gv = none
  · simp [hvar, Module.initial]
  · rw [if_pos ⟨mem_families gv, hvar⟩]

/-- A thread with the accesses on the stack, behind some code that sets up the variables. -/
def Thread.onStack (own : Thread O V) (setup : List (Instr O V))
    (locals : WorkgroupVariable → V) : Thread O V :=
  { own with
    instrs := setup ++ own.instrs.map Instr.privatize
    locals := locals }

/-- The first thread runs the privatized function, the second one has variables of its own. -/
structure Privatized (mod : Module V) (undef : V) (thread own : Thread O V) : Prop where
  onStack : ∃ setup locals, thread = own.onStack setup locals ∧
    (∀ instr ∈ setup, instr.IsSetup) ∧ setUp undef setup locals = own.locals
  declared : ∀ instr ∈ own.instrs, instr.Declared mod

theorem execute_isSetup (thread : Thread O V) (shared : SharedState V M) {instr : Instr O V}
    (hinstr : instr.IsSetup) (rest : List (Instr O V)) :
    ∃ locals,
      execute machine .shared thread shared instr = ({ thread with locals := locals }, shared) ∧
      setUp machine.undef (instr :: rest) thread.locals = setUp machine.undef rest locals := by
  cases instr with
  | alloca gv => exact ⟨_, rfl, rfl⟩
  | store value place =>
      cases place with
      | alloca gv =>
          cases value with
          | const value => exact ⟨_, rfl, rfl⟩
          | register r => cases hinstr
          | argument n => cases hinstr
      | global gv => cases value <;> cases hinstr
  | load result place => cases hinstr
  | loadContext result field => cases hinstr
  | operation result operation operands => cases hinstr

theorem Thread.value_onStack (own : Thread O V) (setup : List (Instr O V))
    (locals : WorkgroupVariable → V) (operand : Operand V) :
    (own.onStack setup locals).value operand = own.value operand := by
  cases operand <;> rfl

theorem execute_instrs (storage : Storage) (thread : Thread O V) (shared : SharedState V M)
    (instr : Instr O V) :
    (execute machine storage thread shared instr).1.instrs = thread.instrs := by
  cases instr with
  | store value place => cases place <;> cases storage <;> rfl
  | alloca gv => rfl
  | load result place => rfl
  | loadContext result field => rfl
  | operation result operation operands => rfl

theorem execute_privatize (own : Thread O V) (shared : SharedState V M) {instr : Instr O V}
    (hdeclared : instr.Declared mod) :
    execute machine .shared (own.onStack [] own.locals) shared instr.privatize =
      ((execute machine .workgroup own shared instr).1.onStack []
          (execute machine .workgroup own shared instr).1.locals,
        (execute machine .workgroup own shared instr).2) := by
  cases instr with
  | alloca gv => cases hdeclared
  | load result place =>
      cases place with
      | alloca gv => cases hdeclared
      | global gv => rfl
  | store value place =>
      cases place with
      | alloca gv => cases hdeclared
      | global gv =>
          simp only [Instr.privatize, Place.privatize, execute, store, Thread.value_onStack]
          rfl
  | loadContext result field => rfl
  | operation result operation operands =>
      have hvalues : operands.map (own.onStack [] own.locals).value = operands.map own.value :=
        List.map_congr_left fun operand _ => own.value_onStack [] own.locals operand
      simp only [Instr.privatize, execute, hvalues]
      rfl

theorem launch_privatized {func : Function O V} (hdeclared : func.Declared mod)
    (own : Thread O V) (setup : List (Instr O V)) (locals : WorkgroupVariable → V)
    (context : Context V) (groups : List (Context V)) :
    Privatized mod machine.undef
      (launch machine (compiled machine mod func) (own.onStack setup locals) context groups)
      (launch machine (perWorkgroup machine mod func) own context groups) := by
  constructor
  · refine ⟨families.flatten.flatMap (allocaCode mod), fun _ => machine.undef, ?_, ?_, ?_⟩
    · simp [launch, compiled, perWorkgroup, privatizeContext_eq hdeclared, Thread.onStack,
        Function.prepend, Function.mapInstrs, Block.mapInstrs]
    · intro instr hinstr
      obtain ⟨gv, -, hmem⟩ := List.mem_flatMap.mp hinstr
      exact isSetup_of_mem_allocaCode hmem
    · exact setUp_families machine
  · exact hdeclared.entry

theorem enter_privatized {func : Function O V} (hdeclared : func.Declared mod)
    (own : Thread O V) (target : ℕ) :
    match func.blocks[target]?.map own.enter with
    | none => (compiled machine mod func).func.blocks[target]?.map
        (own.onStack [] own.locals).enter = none
    | some after' => ∃ after, (compiled machine mod func).func.blocks[target]?.map
        (own.onStack [] own.locals).enter = some after ∧
          Privatized mod machine.undef after after' := by
  simp only [compiled, privatizeContext_eq hdeclared, Function.prepend, Function.mapInstrs,
    List.getElem?_map]
  cases hblock : func.blocks[target]? with
  | none => rfl
  | some block =>
      refine ⟨_, rfl, ⟨[], own.locals, rfl, by simp, rfl⟩, ?_⟩
      exact hdeclared.blocks block (List.mem_of_getElem? hblock)

theorem terminate_privatized {func : Function O V} (hdeclared : func.Declared mod)
    (own : Thread O V) :
    match terminate machine (perWorkgroup machine mod func) own with
    | none => terminate machine (compiled machine mod func) (own.onStack [] own.locals) = none
    | some after' => ∃ after,
        terminate machine (compiled machine mod func) (own.onStack [] own.locals) = some after ∧
          Privatized mod machine.undef after after' := by
  unfold terminate
  cases hterm : own.terminator with
  | br target =>
      simp only [Thread.onStack, hterm]
      exact enter_privatized machine hdeclared own target
  | condBr condition ifTrue ifFalse =>
      have hvalue := own.value_onStack [] own.locals condition
      simp only [Thread.onStack, hterm] at hvalue ⊢
      rw [hvalue]
      exact enter_privatized machine hdeclared own _
  | ret =>
      simp only [Thread.onStack, hterm]
      cases hgroups : own.groups with
      | nil => rfl
      | cons context groups =>
          exact ⟨_, rfl, launch_privatized machine hdeclared own [] own.locals context groups⟩

theorem next_onStack {func : Function O V} {own : Thread O V} (hdeclared : func.Declared mod)
    (hown : ∀ instr ∈ own.instrs, instr.Declared mod) (shared : SharedState V M) :
    match next machine (perWorkgroup machine mod func) own shared with
    | none => next machine (compiled machine mod func) (own.onStack [] own.locals) shared = none
    | some (after', shared') => ∃ after,
        next machine (compiled machine mod func) (own.onStack [] own.locals) shared =
            some (after, shared') ∧
          Privatized mod machine.undef after after' := by
  unfold next
  cases hinstrs : own.instrs with
  | nil =>
      have hterminate := terminate_privatized machine hdeclared own
      simp only [Thread.onStack, hinstrs, List.map_nil, List.append_nil] at hterminate ⊢
      cases hafter : terminate machine (perWorkgroup machine mod func) own with
      | none =>
          rw [hafter] at hterminate
          simp [hterminate]
      | some after' =>
          rw [hafter] at hterminate
          obtain ⟨after, hterm, hprivatized⟩ := hterminate
          exact ⟨after, by simp [hterm], hprivatized⟩
  | cons instr rest =>
      have hinstr : instr.Declared mod := hown instr (by simp [hinstrs])
      let remaining : Thread O V := { own with instrs := rest }
      let after' := (execute machine .workgroup remaining shared instr).1
      have hexecute := execute_privatize machine remaining shared hinstr
      refine ⟨after'.onStack [] after'.locals, ?_, ⟨[], after'.locals, rfl, by simp, rfl⟩, ?_⟩
      · simp only [Thread.onStack, hinstrs, List.map_cons, List.nil_append]
        exact congrArg some hexecute
      · intro other hother
        have hafter : after'.instrs = rest :=
          execute_instrs machine .workgroup remaining shared instr
        have hmem : other ∈ rest := hafter ▸ hother
        exact hown other (by simpa [hinstrs] using Or.inr hmem)

/-- The code that sets up the variables runs to its end. -/
theorem steps_setup {func : Function O V} (own : Thread O V) (shared : SharedState V M)
    {setup : List (Instr O V)} (hsetup : ∀ instr ∈ setup, instr.IsSetup)
    {locals : WorkgroupVariable → V} (hlocals : setUp machine.undef setup locals = own.locals) :
    ThreadPool.Steps (next machine (compiled machine mod func)) (own.onStack setup locals) shared
      (own.onStack [] own.locals) shared := by
  induction setup generalizing locals with
  | nil =>
      rw [← hlocals]
      exact .refl _ _
  | cons instr setup ih =>
      obtain ⟨locals', hexecute, hafter⟩ := execute_isSetup machine
        (own.onStack setup locals) shared (hsetup instr List.mem_cons_self) setup
      have hnext : next machine (compiled machine mod func)
          (own.onStack (instr :: setup) locals) shared =
            some (own.onStack setup locals', shared) := congrArg some hexecute
      apply ThreadPool.Steps.head hnext
      apply ih
      · exact fun other hother => hsetup other (List.mem_cons_of_mem _ hother)
      · rw [← hafter]
        exact hlocals

theorem compiled_follows {func : Function O V} (hdeclared : func.Declared mod) :
    ThreadPool.Follows (next machine (compiled machine mod func))
      (next machine (perWorkgroup machine mod func)) (Privatized mod machine.undef)
      (fun shared shared' => shared = shared') := by
  intro thread shared own shared' after afterShared hprivatized hshared hnext
  subst hshared
  obtain ⟨⟨setup, locals, rfl, hsetup, hlocals⟩, hown⟩ := hprivatized
  cases setup with
  | nil =>
      have hstep := next_onStack machine hdeclared hown shared
      have hflat : own.onStack [] locals = own.onStack [] own.locals := by
        rw [← hlocals]
        rfl
      rw [hflat] at hnext
      cases hafter : next machine (perWorkgroup machine mod func) own shared with
      | none =>
          rw [hafter, hnext] at hstep
          cases hstep
      | some result =>
          rw [hafter] at hstep
          obtain ⟨privatized, hsome, hrelated⟩ := hstep
          rw [hnext] at hsome
          cases hsome
          exact ⟨result.1, result.2, .head hafter (.refl _ _), hrelated, rfl⟩
  | cons instr setup =>
      obtain ⟨locals', hexecute, hrest⟩ := execute_isSetup machine
        (own.onStack setup locals) shared (hsetup instr List.mem_cons_self) setup
      have hsome : some (own.onStack setup locals', shared) = some (after, afterShared) :=
        (congrArg some hexecute).symm.trans hnext
      cases hsome
      refine ⟨own, shared, .refl _ _, ⟨⟨setup, locals', rfl, ?_, ?_⟩, hown⟩, rfl⟩
      · exact fun other hother => hsetup other (List.mem_cons_of_mem _ hother)
      · rw [← hrest]
        exact hlocals

theorem follows_compiled {func : Function O V} (hdeclared : func.Declared mod) :
    ThreadPool.Follows (next machine (perWorkgroup machine mod func))
      (next machine (compiled machine mod func))
      (fun own thread => Privatized mod machine.undef thread own)
      (fun shared shared' => shared = shared') := by
  intro own shared thread shared' after' afterShared hprivatized hshared hnext
  subst hshared
  obtain ⟨⟨setup, locals, rfl, hsetup, hlocals⟩, hown⟩ := hprivatized
  have hstep := next_onStack machine hdeclared hown shared
  rw [hnext] at hstep
  obtain ⟨after, hsome, hrelated⟩ := hstep
  exact ⟨after, afterShared, (steps_setup machine own shared hsetup hlocals).tail hsome, hrelated,
    rfl⟩

end Simulation

end Pocl.WorkgroupLaunchers
