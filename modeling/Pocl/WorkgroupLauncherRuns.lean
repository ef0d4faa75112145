import Pocl.WorkgroupLauncherPrivatization

/-!
# Work-groups in several threads

A thread with variables of its own does not write the variables of the module, and in the kernel
these variables have the values of the context of the group, whatever the other threads do.  By the
simulation this holds of the privatized launchers.
-/

namespace Pocl.WorkgroupLaunchers

variable {O V M : Type*} {mod : Module V}

section LaunchValues

/-- Local ids are the only variables of the context that the code stores to. -/
def Instr.KeepsContext : Instr O V → Prop
  | .alloca _ => False
  | .store _ (.alloca _) => False
  | .store _ (.global gv) => ∃ i, gv = .localId i
  | _ => True

structure Function.KeepsContext (func : Function O V) : Prop where
  entry : ∀ instr ∈ func.entry.instrs, instr.KeepsContext
  blocks : ∀ block ∈ func.blocks, ∀ instr ∈ block.instrs, instr.KeepsContext

/-- The code in front of the kernel. -/
def Instr.IsLaunch : Instr O V → Prop
  | .loadContext _ _ => True
  | .store _ (.global _) => True
  | _ => False

/-- The effect of the code in front of the kernel. -/
def advance (thread : Thread O V) : Instr O V → Thread O V
  | .loadContext result field => thread.setRegister result (thread.context field)
  | .store value (.global gv) => thread.setVariable gv (thread.value value)
  | _ => thread

theorem foldl_advance_instrs (thread : Thread O V) (instrs pending : List (Instr O V)) :
    pending.foldl advance { thread with instrs := instrs } =
      { pending.foldl advance thread with instrs := instrs } := by
  induction pending generalizing thread with
  | nil => rfl
  | cons instr pending ih =>
      rw [List.foldl_cons, List.foldl_cons, ← ih]
      cases instr with
      | store value place => cases place <;> cases value <;> rfl
      | alloca gv => rfl
      | load result place => rfl
      | loadContext result field => rfl
      | operation result operation operands => rfl

/-- Code for one variable: it gets a value of the context, if the module has it. -/
structure SetsVariable (mod : Module V) (context : Context V) (code : List (Instr O V))
    (gv : WorkgroupVariable) (value : V) : Prop where
  isLaunch : ∀ instr ∈ code, instr.IsLaunch
  declared : ∀ instr ∈ code, instr.Declared mod
  keeps : ∀ thread : Thread O V, thread.context = context →
    (code.foldl advance thread).context = context
  locals : ∀ thread : Thread O V, thread.context = context → (code.foldl advance thread).locals =
    if mod.getGlobalVariable gv ≠ none then Function.update thread.locals gv value
    else thread.locals

theorem copyField_setsVariable (context : Context V) (target : WorkgroupVariable × Field) :
    SetsVariable mod context (copyField mod target : List (Instr O V)) target.1
      (context target.2) := by
  cases hvar : mod.getGlobalVariable target.1 with
  | none => constructor <;> simp [copyField, hvar]
  | some var =>
      constructor
      · simp [copyField, hvar, Instr.IsLaunch]
      · simp [copyField, hvar, Instr.Declared, Place.Declared]
      · intro thread hcontext
        simpa [copyField, hvar, advance, Thread.setRegister, Thread.setVariable] using hcontext
      · intro thread hcontext
        simp [copyField, hvar, advance, Thread.setRegister, Thread.setVariable, Thread.value,
          hcontext]

theorem storeLocalSize_setsVariable (context : Context V) (sizes : Fin 3 → V) (i : Fin 3) :
    SetsVariable mod context (storeLocalSize mod sizes i : List (Instr O V)) (.localSize i)
      (sizes i) := by
  cases hvar : mod.getGlobalVariable (.localSize i) with
  | none => constructor <;> simp [storeLocalSize, hvar]
  | some var =>
      constructor
      · simp [storeLocalSize, hvar, Instr.IsLaunch]
      · simp [storeLocalSize, hvar, Instr.Declared, Place.Declared]
      · intro thread hcontext
        simpa [storeLocalSize, hvar, advance, Thread.setVariable] using hcontext
      · intro thread _
        simp [storeLocalSize, hvar, advance, Thread.setVariable, Thread.value]

/-- The code in front of the kernel, one piece for each variable. -/
def launchPieces (mod : Module V) (sizes : Fin 3 → V) (context : Context V) :
    List (WorkgroupVariable × V × List (Instr O V)) :=
  launcherCopies.map (fun target => (target.1, context target.2, copyField mod target)) ++
    dims.map fun i => (.localSize i, sizes i, storeLocalSize mod sizes i)

theorem setsVariable_of_mem_launchPieces {sizes : Fin 3 → V} {context : Context V}
    {piece : WorkgroupVariable × V × List (Instr O V)}
    (hpiece : piece ∈ launchPieces mod sizes context) :
    SetsVariable mod context piece.2.2 piece.1 piece.2.1 := by
  simp only [launchPieces, List.mem_append, List.mem_map] at hpiece
  obtain ⟨target, -, rfl⟩ | ⟨i, -, rfl⟩ := hpiece
  · exact copyField_setsVariable context target
  · exact storeLocalSize_setsVariable context sizes i

theorem launchValue_of_mem_launchPieces {sizes : Fin 3 → V} {context : Context V}
    {piece : WorkgroupVariable × V × List (Instr O V)}
    (hpiece : piece ∈ launchPieces mod sizes context) :
    launchValue sizes context piece.1 = some piece.2.1 := by
  simp only [launchPieces, launcherCopies, List.mem_append, List.mem_map, List.mem_cons] at hpiece
  obtain ⟨target, rfl | (⟨i, -, rfl⟩ | ⟨i, -, rfl⟩) | ⟨i, -, rfl⟩, rfl⟩ | ⟨i, -, rfl⟩ := hpiece
  all_goals rfl

theorem mem_launchPieces {sizes : Fin 3 → V} {context : Context V} {gv : WorkgroupVariable}
    {value : V} (hvalue : launchValue sizes context gv = some value) :
    gv ∈ (launchPieces mod sizes context : List (_ × _ × List (Instr O V))).map Prod.fst := by
  cases gv with
  | localId i => cases hvalue
  | localSize i => simp [launchPieces, mem_dims]
  | workDim => simp [launchPieces, launcherCopies]
  | numGroups i => simp [launchPieces, launcherCopies, mem_dims]
  | groupId i => simp [launchPieces, launcherCopies, mem_dims]
  | globalOffset i => simp [launchPieces, launcherCopies, mem_dims]

/-- A variable has its value behind the pieces, if it is one of theirs or had the value before. -/
theorem locals_foldl_pieces {sizes : Fin 3 → V} {context : Context V}
    {pieces : List (WorkgroupVariable × V × List (Instr O V))}
    (hsets : ∀ piece ∈ pieces, SetsVariable mod context piece.2.2 piece.1 piece.2.1)
    (hvalues : ∀ piece ∈ pieces, launchValue sizes context piece.1 = some piece.2.1)
    {thread : Thread O V} (hcontext : thread.context = context) {gv : WorkgroupVariable}
    {value : V} (hvalue : launchValue sizes context gv = some value)
    (hgv : mod.getGlobalVariable gv ≠ none)
    (hmem : gv ∈ pieces.map Prod.fst ∨ thread.locals gv = value) :
    ((pieces.flatMap fun piece => piece.2.2).foldl advance thread).locals gv = value := by
  induction pieces generalizing thread with
  | nil =>
      cases hmem with
      | inl hmem => cases hmem
      | inr hlocals => exact hlocals
  | cons piece pieces ih =>
      have hpiece := hsets piece List.mem_cons_self
      rw [List.flatMap_cons, List.foldl_append]
      apply ih (fun other hother => hsets other (List.mem_cons_of_mem _ hother))
        (fun other hother => hvalues other (List.mem_cons_of_mem _ hother))
        (hpiece.keeps thread hcontext)
      rw [hpiece.locals thread hcontext]
      by_cases heq : gv = piece.1
      · have hsame : some value = some piece.2.1 := by
          rw [← hvalue, heq, hvalues piece List.mem_cons_self]
        right
        simp only [← heq, if_pos hgv, Function.update_self]
        exact (Option.some.inj hsame).symm
      · simp only [List.map_cons, List.mem_cons, heq, false_or] at hmem
        apply hmem.imp_right
        intro hlocals
        split
        · rw [Function.update_of_ne heq]
          exact hlocals
        · exact hlocals

theorem launcher_eq_prepend (sizes : Fin 3 → V) (context : Context V) (kernel : Function O V) :
    launcher mod sizes kernel =
      kernel.prepend ((launchPieces mod sizes context).flatMap fun piece => piece.2.2) := by
  simp only [launcher, createLauncher, addLocalSizeInitCode, Function.prepend_prepend, launchPieces,
    List.flatMap_append, List.flatMap_map]

theorem launcher_declared {kernel : Function O V} (hkernel : kernel.Declared mod)
    (sizes : Fin 3 → V) (context : Context V) : (launcher mod sizes kernel).Declared mod := by
  rw [launcher_eq_prepend sizes context]
  constructor
  · intro instr hinstr
    simp only [Function.prepend, List.mem_append, List.mem_flatMap] at hinstr
    obtain ⟨piece, hpiece, hinstr⟩ | hinstr := hinstr
    · exact (setsVariable_of_mem_launchPieces hpiece).declared instr hinstr
    · exact hkernel.entry instr hinstr
  · exact hkernel.blocks

variable (machine : Machine O V M)

/-- The rest of the code in front of the kernel, and code that keeps the context.  Behind the
former the variables have their values. -/
structure Launched (mod : Module V) (sizes : Fin 3 → V) (thread : Thread O V)
    (pending code : List (Instr O V)) : Prop where
  instrs : thread.instrs = pending ++ code
  isLaunch : ∀ instr ∈ pending, instr.IsLaunch
  keepsContext : ∀ instr ∈ code, instr.KeepsContext
  values : ∀ gv value, mod.getGlobalVariable gv ≠ none →
    launchValue sizes thread.context gv = some value →
    (pending.foldl advance thread).locals gv = value

theorem launch_launched (sizes : Fin 3 → V) {kernel : Function O V}
    (hkernel : kernel.KeepsContext) (thread : Thread O V) (context : Context V)
    (groups : List (Context V)) :
    Launched mod sizes
      (launch machine (perWorkgroup machine mod (launcher mod sizes kernel)) thread context groups)
      ((launchPieces mod sizes context).flatMap fun piece => piece.2.2) kernel.entry.instrs := by
  constructor
  · simp only [launch, perWorkgroup, launcher_eq_prepend sizes context, Function.prepend]
  · intro instr hinstr
    obtain ⟨piece, hpiece, hinstr⟩ := List.mem_flatMap.mp hinstr
    exact (setsVariable_of_mem_launchPieces hpiece).isLaunch instr hinstr
  · exact hkernel.entry
  · intro gv value hgv hvalue
    apply locals_foldl_pieces (fun _ => setsVariable_of_mem_launchPieces)
      (fun _ => launchValue_of_mem_launchPieces) rfl hvalue hgv
    exact Or.inl (mem_launchPieces hvalue)

theorem execute_isLaunch (thread : Thread O V) (shared : SharedState V M) {instr : Instr O V}
    (hinstr : instr.IsLaunch) :
    execute machine .workgroup thread shared instr = (advance thread instr, shared) := by
  cases instr with
  | store value place =>
      cases place with
      | alloca gv => cases hinstr
      | global gv => cases value <;> rfl
  | alloca gv => cases hinstr
  | load result place => cases hinstr
  | loadContext result field => rfl
  | operation result operation operands => cases hinstr

theorem context_advance (thread : Thread O V) (instr : Instr O V) :
    (advance thread instr).context = thread.context := by
  cases instr with
  | store value place => cases place <;> cases value <;> rfl
  | alloca gv => rfl
  | load result place => rfl
  | loadContext result field => rfl
  | operation result operation operands => rfl

theorem execute_keepsContext (thread : Thread O V) (shared : SharedState V M) {instr : Instr O V}
    (hinstr : instr.KeepsContext) (sizes : Fin 3 → V) :
    (execute machine .workgroup thread shared instr).1.context = thread.context ∧
      ∀ gv, launchValue sizes thread.context gv ≠ none →
        (execute machine .workgroup thread shared instr).1.locals gv = thread.locals gv := by
  cases instr with
  | store value place =>
      cases place with
      | alloca gv => cases hinstr
      | global gv =>
          obtain ⟨i, rfl⟩ := hinstr
          refine ⟨rfl, ?_⟩
          intro gv hgv
          apply Function.update_of_ne
          intro heq
          subst heq
          exact hgv rfl
  | alloca gv => cases hinstr
  | load result place => exact ⟨rfl, fun _ _ => rfl⟩
  | loadContext result field => exact ⟨rfl, fun _ _ => rfl⟩
  | operation result operation operands => exact ⟨rfl, fun _ _ => rfl⟩

theorem Launched.advance {sizes : Fin 3 → V} {thread : Thread O V} {instr : Instr O V}
    {pending code : List (Instr O V)}
    (hlaunched : Launched mod sizes thread (instr :: pending) code) :
    Launched mod sizes (advance { thread with instrs := pending ++ code } instr) pending code := by
  have hcontext := context_advance { thread with instrs := pending ++ code } instr
  constructor
  · have hinstrs := foldl_advance_instrs thread (pending ++ code) [instr]
    rw [List.foldl_cons, List.foldl_nil] at hinstrs
    rw [hinstrs]
  · exact fun other hother => hlaunched.isLaunch other (List.mem_cons_of_mem _ hother)
  · exact hlaunched.keepsContext
  · intro gv value hgv hvalue
    rw [hcontext] at hvalue
    have hbefore := hlaunched.values gv value hgv hvalue
    rw [← List.foldl_cons, foldl_advance_instrs]
    exact hbefore

theorem Launched.execute {sizes : Fin 3 → V} {thread : Thread O V} {instr : Instr O V}
    {code : List (Instr O V)} (hlaunched : Launched mod sizes thread [] (instr :: code))
    (shared : SharedState V M) :
    Launched mod sizes
      (execute machine .workgroup { thread with instrs := code } shared instr).1 [] code := by
  have hinstr := hlaunched.keepsContext instr List.mem_cons_self
  have hkeeps := execute_keepsContext machine { thread with instrs := code } shared hinstr
    sizes
  constructor
  · exact execute_instrs machine .workgroup { thread with instrs := code } shared instr
  · simp
  · exact fun other hother => hlaunched.keepsContext other (List.mem_cons_of_mem _ hother)
  · intro gv value hgv hvalue
    rw [hkeeps.1] at hvalue
    rw [List.foldl_nil, hkeeps.2 gv (by simp [hvalue])]
    exact hlaunched.values gv value hgv hvalue

theorem Launched.enter {sizes : Fin 3 → V} {thread : Thread O V}
    (hlaunched : Launched mod sizes thread [] []) {block : Block O V}
    (hblock : ∀ instr ∈ block.instrs, instr.KeepsContext) :
    Launched mod sizes (thread.enter block) [] block.instrs where
  instrs := rfl
  isLaunch := hlaunched.isLaunch
  keepsContext := hblock
  values := hlaunched.values

/-- In front of its first group, or in a launcher. -/
def LaunchInvariant (mod : Module V) (sizes : Fin 3 → V) (thread : Thread O V) : Prop :=
  (thread.instrs = [] ∧ thread.terminator = .ret) ∨
    ∃ pending code, Launched mod sizes thread pending code

theorem terminate_launched {sizes : Fin 3 → V} {kernel : Function O V}
    (hkernel : kernel.KeepsContext) {thread after : Thread O V} (hinstrs : thread.instrs = [])
    (hinv : LaunchInvariant mod sizes thread)
    (hterm : terminate machine (perWorkgroup machine mod (launcher mod sizes kernel)) thread =
      some after) :
    LaunchInvariant mod sizes after := by
  have henter : thread.terminator ≠ .ret → ∀ target : ℕ,
      (launcher mod sizes kernel).blocks[target]?.map thread.enter = some after →
        LaunchInvariant mod sizes after := by
    intro hret target henter
    obtain ⟨block, hblock, rfl⟩ := Option.map_eq_some_iff.mp henter
    have hmem : block ∈ kernel.blocks := List.mem_of_getElem? hblock
    obtain ⟨-, hreturn⟩ | ⟨pending, code, hlaunched⟩ := hinv
    · exact absurd hreturn hret
    · have hempty := hlaunched.instrs
      rw [hinstrs, eq_comm, List.append_eq_nil_iff] at hempty
      obtain ⟨rfl, rfl⟩ := hempty
      exact Or.inr ⟨[], block.instrs, hlaunched.enter (hkernel.blocks block hmem)⟩
  unfold terminate at hterm
  cases hterminator : thread.terminator with
  | br target =>
      rw [hterminator] at hterm
      exact henter (by simp [hterminator]) _ hterm
  | condBr condition ifTrue ifFalse =>
      rw [hterminator] at hterm
      exact henter (by simp [hterminator]) _ hterm
  | ret =>
      rw [hterminator] at hterm
      cases hgroups : thread.groups with
      | nil =>
          rw [hgroups] at hterm
          cases hterm
      | cons context groups =>
          rw [hgroups] at hterm
          cases hterm
          exact Or.inr ⟨_, _, launch_launched machine sizes hkernel thread context groups⟩

theorem execute_globals (thread : Thread O V) (shared : SharedState V M) (instr : Instr O V) :
    (execute machine .workgroup thread shared instr).2.globals = shared.globals := by
  cases instr with
  | store value place => cases place <;> rfl
  | alloca gv => rfl
  | load result place => rfl
  | loadContext result field => rfl
  | operation result operation operands => rfl

theorem next_launched {sizes : Fin 3 → V} {kernel : Function O V} (hkernel : kernel.KeepsContext)
    {thread after : Thread O V} {shared shared' : SharedState V M}
    (hinv : LaunchInvariant mod sizes thread)
    (hnext : next machine (perWorkgroup machine mod (launcher mod sizes kernel)) thread shared =
      some (after, shared')) :
    LaunchInvariant mod sizes after ∧ shared'.globals = shared.globals := by
  unfold next at hnext
  cases hinstrs : thread.instrs with
  | nil =>
      rw [hinstrs] at hnext
      obtain ⟨last, hterm, hlast⟩ := Option.map_eq_some_iff.mp hnext
      cases hlast
      exact ⟨terminate_launched machine hkernel hinstrs hinv hterm, rfl⟩
  | cons instr rest =>
      rw [hinstrs] at hnext
      have hexecute : execute machine .workgroup { thread with instrs := rest } shared instr =
          (after, shared') := Option.some.inj hnext
      have hglobals := execute_globals machine { thread with instrs := rest } shared instr
      rw [hexecute] at hglobals
      refine ⟨?_, hglobals⟩
      obtain ⟨hempty, -⟩ | ⟨pending, code, hlaunched⟩ := hinv
      · rw [hempty] at hinstrs
        cases hinstrs
      have hsplit := hlaunched.instrs
      rw [hinstrs] at hsplit
      right
      cases pending with
      | nil =>
          subst hsplit
          have hafter := hlaunched.execute machine shared
          rw [hexecute] at hafter
          exact ⟨[], rest, hafter⟩
      | cons first pending =>
          obtain ⟨rfl, rfl⟩ := List.cons.inj hsplit
          have hfirst := hlaunched.isLaunch instr List.mem_cons_self
          rw [execute_isLaunch machine _ shared hfirst] at hexecute
          cases hexecute
          exact ⟨pending, code, hlaunched.advance⟩

/-- A load is in the kernel, so the variables have their values. -/
theorem LaunchInvariant.value_of_load {sizes : Fin 3 → V} {thread : Thread O V}
    (hinv : LaunchInvariant mod sizes thread) {result : Register} {place : Place}
    {rest : List (Instr O V)} (hinstrs : thread.instrs = .load result place :: rest)
    {gv : WorkgroupVariable} {value : V} (hgv : mod.getGlobalVariable gv ≠ none)
    (hvalue : launchValue sizes thread.context gv = some value) : thread.locals gv = value := by
  obtain ⟨hempty, -⟩ | ⟨pending, code, hlaunched⟩ := hinv
  · rw [hempty] at hinstrs
    cases hinstrs
  · cases pending with
    | nil => exact hlaunched.values gv value hgv hvalue
    | cons first pending =>
        have hsplit := hlaunched.instrs
        rw [hinstrs] at hsplit
        have hfirst := hlaunched.isLaunch first List.mem_cons_self
        rw [← (List.cons.inj hsplit).1] at hfirst
        cases hfirst

end LaunchValues

section Pool

variable {ι : Type*} [DecidableEq ι] (machine : Machine O V M)

/-- Threads of the device, each with the contexts of the groups that it runs. -/
def workgroups (arguments : ι → ℕ → V) (groups : ι → List (Context V))
    (shared : SharedState V M) : ThreadPool ι (Thread O V) (SharedState V M) where
  threads := fun i => idle machine (arguments i) (groups i)
  shared := shared

omit [DecidableEq ι] in
theorem workgroups_related {mod : Module V} (arguments : ι → ℕ → V)
    (groups : ι → List (Context V)) (shared : SharedState V M) (i : ι) :
    Privatized mod machine.undef
      ((workgroups machine arguments groups shared).threads i : Thread O V)
      ((workgroups machine arguments groups shared).threads i) where
  onStack := ⟨[], fun _ => machine.undef, rfl, by simp, rfl⟩
  declared := by simp [workgroups, idle]

/-- A load of a privatized thread is a load of a variable that the module has. -/
theorem Privatized.load_inv {mod : Module V} {undef : V} {thread own : Thread O V}
    (hprivatized : Privatized mod undef thread own) {result : Register} {gv : WorkgroupVariable}
    {rest : List (Instr O V)} (hinstrs : thread.instrs = .load result (.alloca gv) :: rest) :
    thread.context = own.context ∧ thread.locals = own.locals ∧
      mod.getGlobalVariable gv ≠ none ∧
      ∃ ownRest, own.instrs = .load result (.global gv) :: ownRest := by
  obtain ⟨⟨setup, locals, rfl, hsetup, hlocals⟩, hown⟩ := hprivatized
  cases setup with
  | cons first setup =>
      have hfirst := hsetup first List.mem_cons_self
      rw [(List.cons.inj hinstrs).1] at hfirst
      cases hfirst
  | nil =>
      refine ⟨rfl, hlocals, ?_⟩
      cases hinstr : own.instrs with
      | nil => simp [Thread.onStack, hinstr] at hinstrs
      | cons instr ownRest =>
          simp only [Thread.onStack, hinstr, List.nil_append, List.map_cons, List.cons.injEq]
            at hinstrs
          have hdeclared := hown instr (by simp [hinstr])
          cases instr with
          | load other place =>
              cases place with
              | alloca other => cases hdeclared
              | global other =>
                  cases hinstrs.1
                  exact ⟨hdeclared, ownRest, rfl⟩
          | alloca other => cases hinstrs.1
          | store value place => cases hinstrs.1
          | loadContext result field => cases hinstrs.1
          | operation result operation operands => cases hinstrs.1

/-- What the threads do with variables of their own. -/
theorem perWorkgroup_keeps {sizes : Fin 3 → V} {kernel : Function O V}
    (hkernel : kernel.KeepsContext) (arguments : ι → ℕ → V) (groups : ι → List (Context V))
    (shared : SharedState V M) (schedule : List ι) :
    let reached := ThreadPool.run
      (next machine (perWorkgroup machine mod (launcher mod sizes kernel)))
      (workgroups machine arguments groups shared) schedule
    (∀ i, LaunchInvariant mod sizes (reached.threads i)) ∧
      reached.shared.globals = shared.globals := by
  have hstep : ∀ (thread : Thread O V) (before : SharedState V M) (after : Thread O V)
      (afterShared : SharedState V M), LaunchInvariant mod sizes thread →
      before.globals = shared.globals →
      next machine (perWorkgroup machine mod (launcher mod sizes kernel)) thread before =
        some (after, afterShared) →
      LaunchInvariant mod sizes after ∧ afterShared.globals = shared.globals := by
    intro thread before after afterShared hthread hbefore hnext
    have hafter := next_launched machine hkernel hthread hnext
    exact ⟨hafter.1, hafter.2.trans hbefore⟩
  exact ThreadPool.run_keeps hstep schedule (fun i => Or.inl ⟨rfl, rfl⟩) rfl

/-- Threads that run the compiled launchers and threads that have variables of their own reach
the same memory, step for step.  No thread writes the variables of the module, and what the kernel
loads from a variable is the value for its group. -/
theorem launchers_isolated (sizes : Fin 3 → V) {kernel : Function O V}
    (hdeclared : kernel.Declared mod) (hkernel : kernel.KeepsContext) (arguments : ι → ℕ → V)
    (groups : ι → List (Context V)) (shared : SharedState V M) :
    let func := launcher mod sizes kernel
    let start := workgroups machine arguments groups shared
    (∀ schedule,
      let reached := ThreadPool.run (next machine (compiled machine mod func)) start schedule
      (∃ schedule', ThreadPool.Related (Privatized mod machine.undef) (· = ·) reached
        (ThreadPool.run (next machine (perWorkgroup machine mod func)) start schedule')) ∧
      reached.shared.globals = shared.globals ∧
      ∀ i result gv rest value, (reached.threads i).instrs = .load result (.alloca gv) :: rest →
        launchValue sizes (reached.threads i).context gv = some value →
          (reached.threads i).locals gv = value) ∧
    ∀ schedule', ∃ schedule, ThreadPool.Related (Privatized mod machine.undef) (· = ·)
      (ThreadPool.run (next machine (compiled machine mod func)) start schedule)
      (ThreadPool.run (next machine (perWorkgroup machine mod func)) start schedule') := by
  intro func start
  have hfunc : func.Declared mod := launcher_declared hdeclared sizes fun _ => machine.undef
  have hrelated : ∀ i, Privatized mod machine.undef (start.threads i) (start.threads i) :=
    workgroups_related machine arguments groups shared
  constructor
  · intro schedule reached
    obtain ⟨schedule', hrun⟩ := ThreadPool.run_follows (compiled_follows machine hfunc) schedule
      (ThreadPool.Related.mk hrelated rfl)
    obtain ⟨hlaunched, hglobals⟩ :=
      perWorkgroup_keeps machine hkernel arguments groups shared schedule'
    refine ⟨⟨schedule', hrun⟩, ?_, ?_⟩
    · exact (congrArg SharedState.globals hrun.shared).trans hglobals
    · intro i result gv rest value hinstrs hvalue
      obtain ⟨hcontext, hlocals, hgv, ownRest, hown⟩ := (hrun.threads i).load_inv hinstrs
      rw [hcontext] at hvalue
      rw [hlocals]
      exact (hlaunched i).value_of_load hown hgv hvalue
  · intro schedule'
    obtain ⟨schedule, hrun⟩ := ThreadPool.run_follows (follows_compiled machine hfunc) schedule'
      (ThreadPool.Related.mk hrelated rfl)
    exact ⟨schedule, hrun.threads, hrun.shared.symm⟩

/-- A kernel that reads its group id, in two threads with two groups each. -/
theorem launchers_isolated_groupIds :
    let mod : Module ℕ := ⟨fun gv => if gv = .groupId 0 then some ⟨none⟩ else none⟩
    let machine : Machine Unit ℕ (List ℕ) :=
      ⟨0, fun _ operands memory => (0, memory ++ operands), (· ≠ 0)⟩
    let instrs : List (Instr Unit ℕ) :=
      [.load (.kernel 0) (.global (.groupId 0)), .operation (.kernel 1) () [.register (.kernel 0)]]
    let groups (thread : Bool) : List (Context ℕ) :=
      if thread then [fun _ => 0, fun _ => 1] else [fun _ => 2, fun _ => 3]
    ∀ schedule,
      let reached := ThreadPool.run
        (next machine (compiled machine mod (launcher mod (fun _ => 1) ⟨⟨instrs, .ret⟩, []⟩)))
        (workgroups machine (fun _ _ => 0) groups ⟨fun _ => 7, []⟩) schedule
      reached.shared.globals = (fun _ => 7) ∧
        ∀ i result rest,
          (reached.threads i).instrs = .load result (.alloca (.groupId 0)) :: rest →
          (reached.threads i).locals (.groupId 0) = (reached.threads i).context (.groupId 0) := by
  intro mod machine instrs groups schedule reached
  have hdeclared : (⟨⟨instrs, .ret⟩, []⟩ : Function Unit ℕ).Declared mod := by
    constructor
    · simp [instrs, mod, Instr.Declared, Place.Declared]
    · simp
  have hkernel : (⟨⟨instrs, .ret⟩, []⟩ : Function Unit ℕ).KeepsContext := by
    constructor
    · simp [instrs, Instr.KeepsContext]
    · simp
  have hisolated := (launchers_isolated machine (fun _ => 1) hdeclared hkernel (fun _ _ => 0)
    groups ⟨fun _ => 7, []⟩).1 schedule
  refine ⟨hisolated.2.1, ?_⟩
  intro i result rest hinstrs
  exact hisolated.2.2 i result (.groupId 0) rest _ hinstrs rfl

end Pool

end Pocl.WorkgroupLaunchers
