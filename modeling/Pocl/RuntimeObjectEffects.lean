import Pocl.KernelLists

/-!
# What the calls do to the objects

The results of the functions of the runtime, as equations.  The loops over the
kernels of a program come to their ends because the lists are finite.
-/

namespace Pocl

namespace RuntimeObjects

open State

section Counters

variable {α : Type} {table : Table (Object α)} {id : ℕ} {object : Object α}

theorem retainObject_eq (hget : table.get id = some object) :
    retainObject table id = some (table.modify id (Object.count 1)) := by
  unfold retainObject
  rw [hget]
  rfl

theorem retainObject_eq_some {after : Table (Object α)}
    (hretain : retainObject table id = some after) :
    (∃ object, table.get id = some object) ∧
      after = table.modify id (Object.count 1) := by
  unfold retainObject at hretain
  cases hget : table.get id with
  | none =>
      rw [hget] at hretain
      cases hretain
  | some object =>
      rw [hget] at hretain
      cases hretain
      exact ⟨⟨object, rfl⟩, rfl⟩

theorem releaseObject_eq (hget : table.get id = some object) :
    releaseObject table id =
      some (table.modify id (Object.count (-1)), object.refcount - 1) := by
  unfold releaseObject
  rw [hget]
  rfl

/-- Each device but the first has retained the object. -/
theorem forDevices_append {succeeds : ℕ → Bool} {first second : List ℕ}
    {object result : Object α}
    (hdevices : forDevices succeeds (first ++ second) object = some result) :
    ∃ middle, forDevices succeeds first object = some middle ∧
      forDevices succeeds second middle = some result := by
  induction first generalizing object with
  | nil => exact ⟨object, rfl, hdevices⟩
  | cons index rest ih =>
      rw [List.cons_append, forDevices] at hdevices
      by_cases hsucceeds : succeeds index = true
      · rw [if_pos hsucceeds] at hdevices
        obtain ⟨middle, hmiddle, hresult⟩ := ih hdevices
        refine ⟨middle, ?_, hresult⟩
        rw [forDevices, if_pos hsucceeds]
        exact hmiddle
      · rw [if_neg hsucceeds] at hdevices
        cases hdevices

theorem forDevices_range {succeeds : ℕ → Bool} {count : ℕ}
    {object result : Object α}
    (hdevices : forDevices succeeds (List.range count) object = some result) :
    result = object.count ((count - 1 : ℕ) : ℤ) := by
  induction count generalizing result with
  | zero =>
      cases hdevices
      simp [Object.count]
  | succ count ih =>
      rw [List.range_succ] at hdevices
      obtain ⟨middle, hmiddle, hlast⟩ := forDevices_append hdevices
      have hobject := ih hmiddle
      unfold forDevices at hlast
      by_cases hsucceeds : succeeds count = true
      · rw [if_pos hsucceeds] at hlast
        cases hlast
        by_cases hpos : 0 < count
        · rw [if_pos hpos, hobject]
          unfold Object.count
          have hcast : ((count - 1 : ℕ) : ℤ) + 1 = ((count + 1 - 1 : ℕ) : ℤ) := by
            omega
          rw [add_assoc, hcast]
        · rw [if_neg hpos, hobject]
          have hzero : count = 0 := Nat.eq_zero_of_not_pos hpos
          subst hzero
          rfl
      · rw [if_neg hsucceeds] at hlast
        cases hlast

/-- The loop comes to its end if the work succeeds for each device. -/
theorem forDevices_succeeds {succeeds : ℕ → Bool} {indices : List ℕ}
    {object result : Object α}
    (hdevices : forDevices succeeds indices object = some result) :
    ∀ index ∈ indices, succeeds index = true := by
  induction indices generalizing object with
  | nil => exact fun index hmem => absurd hmem List.not_mem_nil
  | cons first rest ih =>
      rw [forDevices] at hdevices
      by_cases hsucceeds : succeeds first = true
      · rw [if_pos hsucceeds] at hdevices
        intro index hmem
        rcases List.mem_cons.mp hmem with rfl | hmem
        · exact hsucceeds
        · exact ih hdevices index hmem
      · rw [if_neg hsucceeds] at hdevices
        cases hdevices

end Counters

/-- The pointers to the first kernels of the programs. -/
def headsOf (programs : Table (Object ProgramFields)) :
    ProgramId → Option (Option KernelId) :=
  programs.view fun object => object.fields.kernels

def fieldsOf (kernels : Table (Object KernelFields)) :
    KernelId → Option KernelFields :=
  kernels.view Object.fields

section Lists

variable {state : State}

theorem fetchNext_eq (kernels : Table (Object KernelFields)) :
    fetchNext kernels = nextField (fieldsOf kernels) := by
  funext kernel
  unfold fetchNext nextField fieldsOf Table.view
  rw [Option.map_map]
  rfl

theorem length_le_next {head : Option KernelId} {kernels : List KernelId}
    (hlist : IsSList (fetchNext state.kernels) head kernels) :
    kernels.length ≤ state.kernels.next := by
  have hsubset : kernels ⊆ List.range state.kernels.next := by
    intro kernel hmem
    obtain ⟨next, hnext⟩ := hlist.live hmem
    obtain ⟨object, hget, _⟩ := Option.map_eq_some_iff.mp hnext
    exact List.mem_range.mpr (state.kernels.lt_next hget)
  have hlength := (hlist.nodup.subperm hsubset).length_le
  rwa [List.length_range] at hlength

/-- The kernel with no program. -/
def detach (object : Object KernelFields) : Object KernelFields :=
  { object with fields := { object.fields with program := none } }

def detachAll (kernels : List KernelId) (table : Table (Object KernelFields)) :
    Table (Object KernelFields) :=
  kernels.foldl (fun table kernel => table.modify kernel detach) table

theorem fetchNext_detach {table : Table (Object KernelFields)} (kernel : KernelId) :
    fetchNext (table.modify kernel detach) = fetchNext table :=
  Table.view_modify_same kernel fun _ => rfl

theorem detachKernels_eq {table : Table (Object KernelFields)}
    {head : Option KernelId} {kernels : List KernelId}
    (hlist : IsSList (fetchNext table) head kernels) {fuel : ℕ}
    (hfuel : kernels.length < fuel) :
    detachKernels fuel head table = some (detachAll kernels table) := by
  induction kernels generalizing head fuel table with
  | nil =>
      obtain ⟨fuel, rfl⟩ := Nat.exists_eq_succ_of_ne_zero (Nat.ne_of_gt hfuel)
      cases hlist
      rfl
  | cons kernel rest ih =>
      obtain ⟨fuel, rfl⟩ :=
        Nat.exists_eq_succ_of_ne_zero (Nat.ne_of_gt (Nat.zero_lt_of_lt hfuel))
      rw [List.length_cons] at hfuel
      cases hlist with
      | @cons _ next _ hfetch hrest =>
          unfold detachKernels
          rw [hfetch]
          rw [← fetchNext_detach kernel] at hrest
          exact ih hrest (Nat.lt_of_succ_lt_succ hfuel)

theorem detachAll_get {table : Table (Object KernelFields)} {kernels : List KernelId}
    (kernel : KernelId) :
    (detachAll kernels table).get kernel =
      (table.get kernel).map fun object =>
        if kernel ∈ kernels then detach object else object := by
  induction kernels generalizing table with
  | nil => simp [detachAll]
  | cons first rest ih =>
      change (detachAll rest (table.modify first detach)).get kernel = _
      rw [ih]
      by_cases heq : kernel = first
      · subst kernel
        rw [table.modify_get_map, Option.map_map]
        congr 1
        funext object
        simp [detach]
      · rw [table.modify_get_of_ne detach heq]
        simp [heq]

theorem releaseProgram_eq {program : ProgramId} {object : Object ProgramFields}
    {kernels : List KernelId} (hget : state.programs.get program = some object)
    (hlist : IsSList (fetchNext state.kernels) object.fields.kernels kernels) :
    state.releaseProgram program =
      if object.refcount - 1 = 0 then
        (releaseObject state.contexts object.fields.context).map fun contexts =>
          { state with
            contexts := contexts.1
            programs := (state.programs.modify program (Object.count (-1))).free program
            kernels := detachAll kernels state.kernels }
      else
        some
          { state with
            programs := state.programs.modify program (Object.count (-1)) } := by
  unfold State.releaseProgram
  rw [releaseObject_eq hget]
  by_cases hzero : object.refcount - 1 = 0
  · have hmodified := state.programs.modify_get_self (Object.count (-1)) hget
    have hdetach := detachKernels_eq hlist (Nat.lt_succ_of_le (length_le_next hlist))
    simp only [Option.bind_eq_bind, Option.bind_some, hzero, if_true, hmodified]
    have hfields : (Object.count (-1) object).fields = object.fields := rfl
    rw [hfields, hdetach]
    cases releaseObject state.contexts object.fields.context with
    | none => rfl
    | some contexts => rfl
  · simp only [Option.bind_eq_bind, Option.bind_some, hzero, if_false]

/-- The state when the kernel has lost its last reference and is not on the list
of its program any more. -/
def unlinked (kernel : KernelId) (program : ProgramId) (before : List KernelId)
    (next : Option KernelId) (state : State) : State :=
  State.setLink program (linkBehind .head before) next
    { state with kernels := state.kernels.modify kernel (Object.count (-1)) }

theorem fetchNext_count {table : Table (Object KernelFields)} (kernel : KernelId)
    (change : ℤ) :
    fetchNext (table.modify kernel (Object.count change)) = fetchNext table :=
  Table.view_modify_same kernel fun _ => rfl

section Kernel

variable {kernel : KernelId} {object : Object KernelFields}

theorem releaseKernel_of_ne
    (hget : state.kernels.get kernel = some object) (hcount : object.refcount - 1 ≠ 0) :
    state.releaseKernel kernel =
      some { state with kernels := state.kernels.modify kernel (Object.count (-1)) } := by
  unfold State.releaseKernel
  rw [releaseObject_eq hget]
  simp only [Option.bind_eq_bind, Option.bind_some, hcount, if_false]

theorem releaseKernel_of_detached
    (hget : state.kernels.get kernel = some object) (hcount : object.refcount - 1 = 0)
    (hprogram : object.fields.program = none) :
    state.releaseKernel kernel =
      some
        { state with
          kernels := (state.kernels.modify kernel (Object.count (-1))).free kernel } := by
  have hmodified := state.kernels.modify_get_self (Object.count (-1)) hget
  have hfields : (Object.count (-1) object).fields.program = none := hprogram
  unfold State.releaseKernel
  rw [releaseObject_eq hget]
  simp only [Option.bind_eq_bind, Option.bind_some, hcount, if_true, hmodified, hfields]

theorem releaseKernel_of_linked
    (hget : state.kernels.get kernel = some object) (hcount : object.refcount - 1 = 0)
    {program : ProgramId} (hprogram : object.fields.program = some program)
    {programObject : Object ProgramFields}
    (hprogramGet : state.programs.get program = some programObject)
    {before after : List KernelId}
    (hlist : IsSList (fetchNext state.kernels) programObject.fields.kernels
      (before ++ kernel :: after)) :
    state.releaseKernel kernel =
      ((unlinked kernel program before object.fields.next state).releaseProgram
        program).map fun state =>
          { state with kernels := state.kernels.free kernel } := by
  have hmodified := state.kernels.modify_get_self (Object.count (-1)) hget
  have hfields : (Object.count (-1) object).fields = object.fields := rfl
  have hbefore : kernel ∉ before := fun hmem =>
    (List.nodup_append.mp hlist.nodup).2.2 kernel hmem kernel (by simp) rfl
  have hlength : before.length < state.kernels.next + 1 := by
    have hle := length_le_next hlist
    rw [List.length_append, List.length_cons] at hle
    omega
  have hfind : findLink (fetchNext (state.kernels.modify kernel (Object.count (-1))))
      kernel (state.kernels.next + 1) .head programObject.fields.kernels =
        some (some (linkBehind .head before)) := by
    rw [fetchNext_count]
    exact hlist.findLink_eq hbefore hlength .head
  unfold State.releaseKernel
  rw [releaseObject_eq hget]
  simp only [Option.bind_eq_bind, Option.bind_some, hcount, if_true, hmodified, hfields,
    hprogram, hprogramGet, Table.modify_next, hfind]
  unfold unlinked
  cases State.releaseProgram program _ with
  | none => rfl
  | some after => rfl

end Kernel

end Lists

end RuntimeObjects

end Pocl
