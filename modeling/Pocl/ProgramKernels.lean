import Pocl.RuntimeObjectEffects

/-!
# Programs and their kernels

Every call keeps the lists of kernels as they have to be, whatever the client
does.  When the client gives back only references that it has, each kernel keeps
its program, and the calls are defined.
-/

namespace Pocl

namespace RuntimeObjects

open State

/-- The fields of the kernels, less one that is about to be freed. -/
def visible (hidden : Option KernelId) (kernels : Table (Object KernelFields))
    (kernel : KernelId) : Option KernelFields :=
  if hidden = some kernel then none else fieldsOf kernels kernel

def Listed (hidden : Option KernelId) (state : State) : Prop :=
  KernelLists (headsOf state.programs) (visible hidden state.kernels)

section Lists

variable {state after : State} {hidden : Option KernelId}

theorem visible_none (kernels : Table (Object KernelFields)) :
    visible none kernels = fieldsOf kernels := by
  funext kernel
  unfold visible
  rw [if_neg nofun]

theorem visible_some (kernels : Table (Object KernelFields)) (kernel : KernelId) :
    visible (some kernel) kernels = Function.update (fieldsOf kernels) kernel none := by
  funext other
  unfold visible
  by_cases heq : other = kernel
  · subst other
    rw [if_pos rfl, Function.update_self]
  · rw [if_neg fun hsome => heq (Option.some.inj hsome).symm, Function.update_of_ne heq]

theorem visible_eq {kernels : Table (Object KernelFields)} {kernel : KernelId}
    {program : ProgramId} (howned : Owned (visible hidden kernels) kernel program) :
    visible hidden kernels kernel = fieldsOf kernels kernel := by
  obtain ⟨next, hnext⟩ := howned
  unfold visible at hnext ⊢
  by_cases heq : hidden = some kernel
  · rw [if_pos heq] at hnext
    cases hnext
  · rw [if_neg heq]

theorem Listed.exists_list
    (hlisted : Listed hidden state) {program : ProgramId}
    {object : Object ProgramFields} (hget : state.programs.get program = some object) :
    ∃ kernels, IsSList (fetchNext state.kernels) object.fields.kernels kernels ∧
      ∀ kernel, kernel ∈ kernels ↔
        Owned (visible hidden state.kernels) kernel program := by
  obtain ⟨kernels, hlist, hmem⟩ := hlisted.list program _ (Table.view_eq hget)
  refine ⟨kernels, ?_, hmem⟩
  rw [fetchNext_eq]
  refine hlist.congr fun kernel hkernel => ?_
  unfold nextField
  rw [visible_eq ((hmem kernel).mp hkernel)]

theorem visible_detachAll {kernels : List KernelId} {program : ProgramId}
    (hmem : ∀ kernel, kernel ∈ kernels ↔
      Owned (visible hidden state.kernels) kernel program) :
    visible hidden (detachAll kernels state.kernels) =
      KernelLists.detached (visible hidden state.kernels) program := by
  funext kernel
  have hkernel := hmem kernel
  unfold KernelLists.detached
  unfold Owned at hkernel
  unfold visible at hkernel ⊢
  by_cases heq : hidden = some kernel
  · rw [if_pos heq, if_pos heq]
    rfl
  · rw [if_neg heq] at hkernel
    rw [if_neg heq, if_neg heq]
    unfold fieldsOf Table.view at hkernel ⊢
    rw [detachAll_get, Option.map_map, Option.map_map]
    cases hget : state.kernels.get kernel with
    | none => rfl
    | some object =>
        rw [hget, Option.map_some] at hkernel
        rw [Option.map_some, Option.map_some]
        obtain ⟨refcount, owner, next⟩ := object
        have howner : kernel ∈ kernels ↔ owner = some program := by
          rw [hkernel]
          simp
        by_cases hprogram : owner = some program
        · simp [detach, howner, hprogram]
        · simp [howner, hprogram]

theorem Listed.releaseProgram
    (hlisted : Listed hidden state) {program : ProgramId}
    (hrelease : state.releaseProgram program = some after) : Listed hidden after := by
  cases hget : state.programs.get program with
  | none =>
      unfold State.releaseProgram releaseObject at hrelease
      rw [hget] at hrelease
      cases hrelease
  | some object =>
      obtain ⟨kernels, hlist, hmem⟩ := hlisted.exists_list hget
      have hheads : headsOf (state.programs.modify program (Object.count (-1))) =
          headsOf state.programs := Table.view_modify_same program fun _ => rfl
      rw [releaseProgram_eq hget hlist] at hrelease
      by_cases hzero : object.refcount - 1 = 0
      · rw [if_pos hzero, Option.map_eq_some_iff] at hrelease
        obtain ⟨contexts, _, rfl⟩ := hrelease
        have hdrop := KernelLists.dropProgram hlisted program
        rw [← visible_detachAll hmem, ← hheads] at hdrop
        have hfree : headsOf
            ((state.programs.modify program (Object.count (-1))).free program) =
              Function.update (headsOf
                (state.programs.modify program (Object.count (-1)))) program none :=
          Table.view_free program
        unfold Listed
        rw [hfree]
        exact hdrop
      · rw [if_neg hzero, Option.some.injEq] at hrelease
        subst hrelease
        unfold Listed
        rw [hheads]
        exact hlisted

section Kernel

variable {kernel : KernelId} {object : Object KernelFields}

theorem fieldsOf_count (kernels : Table (Object KernelFields)) (kernel : KernelId)
    (change : ℤ) :
    fieldsOf (kernels.modify kernel (Object.count change)) = fieldsOf kernels :=
  Table.view_modify_same kernel fun _ => rfl

theorem fieldsOf_free (kernels : Table (Object KernelFields)) (kernel : KernelId) :
    fieldsOf (kernels.free kernel) = Function.update (fieldsOf kernels) kernel none :=
  Table.view_free kernel

/-- The kernel is on the list of its program. -/
theorem Listed.exists_split
    (hlisted : Listed none state) (hget : state.kernels.get kernel = some object)
    {program : ProgramId} (hprogram : object.fields.program = some program) :
    ∃ programObject before after,
      state.programs.get program = some programObject ∧
      IsSList (fetchNext state.kernels) programObject.fields.kernels
        (before ++ kernel :: after) ∧
      ∀ other, other ∈ before ++ kernel :: after ↔
        Owned (fieldsOf state.kernels) other program := by
  have howned : Owned (visible none state.kernels) kernel program := by
    refine ⟨object.fields.next, ?_⟩
    rw [visible_none]
    unfold fieldsOf
    rw [Table.view_eq hget, ← hprogram]
  obtain ⟨head, hhead⟩ := hlisted.live kernel program howned
  obtain ⟨programObject, hprogramGet, _⟩ := Option.map_eq_some_iff.mp hhead
  obtain ⟨kernels, hlist, hmem⟩ := hlisted.exists_list hprogramGet
  obtain ⟨before, after, rfl⟩ := List.append_of_mem ((hmem kernel).mpr howned)
  rw [visible_none] at hmem
  exact ⟨programObject, before, after, hprogramGet, hlist, hmem⟩

theorem Listed.unlinked
    (hlisted : Listed none state) (hget : state.kernels.get kernel = some object)
    {program : ProgramId} (hprogram : object.fields.program = some program)
    {programObject : Object ProgramFields}
    (hprogramGet : state.programs.get program = some programObject)
    {before after : List KernelId}
    (hlist : IsSList (fetchNext state.kernels) programObject.fields.kernels
      (before ++ kernel :: after))
    (hmem : ∀ other, other ∈ before ++ kernel :: after ↔
      Owned (fieldsOf state.kernels) other program) :
    Listed (some kernel) (unlinked kernel program before object.fields.next state) := by
  have hfields : fieldsOf state.kernels kernel =
      some ⟨some program, object.fields.next⟩ := by
    unfold fieldsOf
    rw [Table.view_eq hget, ← hprogram]
  unfold Listed at hlisted ⊢
  rw [visible_none] at hlisted
  rw [visible_some]
  rcases List.eq_nil_or_concat before with rfl | ⟨before, last, rfl⟩
  · have hhead : headsOf state.programs program = some (some kernel) := by
      unfold headsOf
      rw [Table.view_eq hprogramGet, hlist.head_eq]
    have hunlink := KernelLists.unlinkHead hlisted hfields hhead
    change KernelLists (headsOf (state.programs.modify program _)) (Function.update
      (fieldsOf (state.kernels.modify kernel (Object.count (-1)))) kernel none)
    rw [fieldsOf_count]
    unfold headsOf at hunlink ⊢
    rw [Table.view_modify _ hprogramGet]
    exact hunlink
  · rw [List.concat_eq_append] at hlist hmem ⊢
    rw [List.append_assoc] at hlist
    have hhead : headsOf state.programs program =
        some programObject.fields.kernels := Table.view_eq hprogramGet
    obtain ⟨old, hlast⟩ := (hmem last).mp (by simp)
    rw [fetchNext_eq] at hlist
    have hunlink := KernelLists.unlinkNext hlisted hfields hhead hlast hlist
    have hlink : linkBehind Link.head (before ++ [last]) = .next last := by
      unfold linkBehind
      rw [List.getLast?_concat]
      rfl
    have hcounted : fieldsOf (state.kernels.modify kernel (Object.count (-1))) last =
        some ⟨some program, old⟩ := by
      rw [fieldsOf_count]
      exact hlast
    obtain ⟨countedObject, hcountedGet, hcountedFields⟩ :=
      Option.map_eq_some_iff.mp hcounted
    unfold RuntimeObjects.unlinked
    rw [hlink]
    change KernelLists (headsOf state.programs) (Function.update (Table.view
      ((state.kernels.modify kernel (Object.count (-1))).modify last _) Object.fields)
        kernel none)
    rw [Table.view_modify _ hcountedGet, hcountedFields]
    change KernelLists (headsOf state.programs) (Function.update (Function.update
      (fieldsOf (state.kernels.modify kernel (Object.count (-1)))) last _) kernel none)
    rw [fieldsOf_count]
    exact hunlink

theorem Listed.releaseKernel
    (hlisted : Listed none state) (hrelease : state.releaseKernel kernel = some after) :
    Listed none after := by
  cases hget : state.kernels.get kernel with
  | none =>
      unfold State.releaseKernel releaseObject at hrelease
      rw [hget] at hrelease
      cases hrelease
  | some object =>
      by_cases hcount : object.refcount - 1 = 0
      · cases hprogram : object.fields.program with
        | none =>
            rw [releaseKernel_of_detached hget hcount hprogram, Option.some.injEq] at hrelease
            subst hrelease
            unfold Listed at hlisted ⊢
            rw [visible_none] at hlisted ⊢
            have hfields : fieldsOf state.kernels kernel =
                some ⟨none, object.fields.next⟩ := by
              unfold fieldsOf
              rw [Table.view_eq hget, ← hprogram]
            have hdrop := KernelLists.dropDetached hlisted hfields
            rw [fieldsOf_free, fieldsOf_count]
            exact hdrop
        | some program =>
            obtain ⟨programObject, before, behind, hprogramGet, hlist, hmem⟩ :=
              hlisted.exists_split hget hprogram
            rw [releaseKernel_of_linked hget hcount hprogram hprogramGet hlist,
              Option.map_eq_some_iff] at hrelease
            obtain ⟨released, hprogramRelease, rfl⟩ := hrelease
            have hunlinked := hlisted.unlinked hget hprogram hprogramGet hlist hmem
            have hreleased := hunlinked.releaseProgram hprogramRelease
            unfold Listed at hreleased ⊢
            rw [visible_some] at hreleased
            rw [visible_none]
            rw [fieldsOf_free]
            exact hreleased
      · rw [releaseKernel_of_ne hget hcount, Option.some.injEq] at hrelease
        subst hrelease
        unfold Listed at hlisted ⊢
        rw [visible_none] at hlisted ⊢
        rw [fieldsOf_count]
        exact hlisted

end Kernel

theorem Listed.createProgram
    (hlisted : Listed none state) {context : ContextId} {numDevices : ℕ}
    {id : Option ProgramId}
    (hcreate : state.createProgram context numDevices = some (after, id)) :
    Listed none after := by
  obtain ⟨contexts, _, hcreate⟩ := Option.bind_eq_some_iff.mp hcreate
  cases hcreate
  unfold Listed
  have hheads : headsOf (state.programs.alloc (initObject ⟨context, numDevices, none⟩)) =
      Function.update (headsOf state.programs) state.programs.next (some none) :=
    Table.view_alloc _
  rw [hheads]
  exact KernelLists.addProgram hlisted Table.view_next

theorem headsOf_retain
    {programs counted : Table (Object ProgramFields)} {program : ProgramId}
    (hretain : retainObject programs program = some counted) :
    headsOf counted = headsOf programs := by
  obtain ⟨_, rfl⟩ := retainObject_eq_some hretain
  exact Table.view_modify_same program fun _ => rfl

theorem Listed.createKernel
    (hlisted : Listed none state) {program : ProgramId} {valid : Bool}
    {compiles : ℕ → Bool} {id : Option KernelId}
    (hcreate : state.createKernel program valid compiles = some (after, id)) :
    Listed none after := by
  obtain ⟨object, hget, hcreate⟩ := Option.bind_eq_some_iff.mp hcreate
  by_cases hvalid : object.fields.numDevices = 0 ∨ valid = false
  · rw [if_pos hvalid] at hcreate
    cases hcreate
    exact hlisted
  · rw [if_neg hvalid] at hcreate
    split at hcreate
    · cases hcreate
      exact hlisted
    · rename_i kernel hdevices
      obtain ⟨programs, hretain, hcreate⟩ := Option.bind_eq_some_iff.mp hcreate
      cases hcreate
      unfold Listed at hlisted ⊢
      rw [visible_none] at hlisted ⊢
      have hhead : headsOf state.programs program = some object.fields.kernels :=
        Table.view_eq hget
      have hadd := KernelLists.addKernel hlisted hhead Table.view_next
      have hfields : fieldsOf (state.kernels.alloc kernel) =
          Function.update (fieldsOf state.kernels) state.kernels.next
            (some ⟨some program, object.fields.kernels⟩) := by
        rw [forDevices_range hdevices]
        exact Table.view_alloc _
      rw [headsOf_retain hretain, hfields]
      unfold headsOf at hadd ⊢
      rw [Table.view_modify _ hget]
      exact hadd

theorem Listed.of_eq
    (hlisted : Listed none state) (hprograms : headsOf after.programs =
      headsOf state.programs)
    (hkernels : fieldsOf after.kernels = fieldsOf state.kernels) :
    Listed none after := by
  unfold Listed at hlisted ⊢
  rw [visible_none] at hlisted ⊢
  rw [hprograms, hkernels]
  exact hlisted

/-- Programs and kernels are as they were. -/
def SamePrograms (state after : State) : Prop :=
  after.programs = state.programs ∧ after.kernels = state.kernels

theorem Listed.of_samePrograms (hlisted : Listed none state)
    (hsame : SamePrograms state after) : Listed none after :=
  hlisted.of_eq (congrArg headsOf hsame.1) (congrArg fieldsOf hsame.2)

theorem createContext_samePrograms {numDevices : ℕ} {valid : Bool} {id : Option ContextId}
    (hcreate : state.createContext numDevices valid = some (after, id)) :
    SamePrograms state after := by
  unfold State.createContext at hcreate
  split at hcreate <;> cases hcreate <;> exact ⟨rfl, rfl⟩

theorem createBuffer_samePrograms {context : ContextId} {valid : Bool} {allocates : ℕ → Bool}
    {id : Option MemId} (hcreate : state.createBuffer context valid allocates = some (after, id)) :
    SamePrograms state after := by
  obtain ⟨object, _, hcreate⟩ := Option.bind_eq_some_iff.mp hcreate
  split at hcreate
  · cases hcreate
    exact ⟨rfl, rfl⟩
  · split at hcreate
    · cases hcreate
      exact ⟨rfl, rfl⟩
    · obtain ⟨contexts, _, hcreate⟩ := Option.bind_eq_some_iff.mp hcreate
      cases hcreate
      exact ⟨rfl, rfl⟩

theorem createSubBuffer_samePrograms {buffer : MemId} {valid : Bool} {id : Option MemId}
    (hcreate : state.createSubBuffer buffer valid = some (after, id)) :
    SamePrograms state after := by
  obtain ⟨object, _, hcreate⟩ := Option.bind_eq_some_iff.mp hcreate
  split at hcreate
  · cases hcreate
    exact ⟨rfl, rfl⟩
  · obtain ⟨mems, _, hcreate⟩ := Option.bind_eq_some_iff.mp hcreate
    obtain ⟨contexts, _, hcreate⟩ := Option.bind_eq_some_iff.mp hcreate
    cases hcreate
    exact ⟨rfl, rfl⟩

theorem retainContext_samePrograms {context : ContextId}
    (hretain : state.retainContext context = some after) : SamePrograms state after := by
  obtain ⟨contexts, _, hafter⟩ := Option.bind_eq_some_iff.mp hretain
  cases hafter
  exact ⟨rfl, rfl⟩

theorem retainMemObject_samePrograms {mem : MemId}
    (hretain : state.retainMemObject mem = some after) : SamePrograms state after := by
  obtain ⟨mems, _, hafter⟩ := Option.bind_eq_some_iff.mp hretain
  cases hafter
  exact ⟨rfl, rfl⟩

theorem releaseContext_samePrograms {context : ContextId}
    (hrelease : state.releaseContext context = some after) : SamePrograms state after := by
  obtain ⟨⟨contexts, refcount⟩, _, hafter⟩ := Option.bind_eq_some_iff.mp hrelease
  by_cases hzero : refcount = 0
  · simp only [hzero, if_true] at hafter
    cases hafter
    exact ⟨rfl, rfl⟩
  · simp only [hzero, if_false] at hafter
    cases hafter
    exact ⟨rfl, rfl⟩

theorem releaseMemObject_samePrograms {mem : MemId}
    (hrelease : state.releaseMemObject mem = some after) : SamePrograms state after := by
  obtain ⟨⟨mems, refcount⟩, _, hafter⟩ := Option.bind_eq_some_iff.mp hrelease
  by_cases hzero : refcount = 0
  · simp only [hzero, if_true] at hafter
    obtain ⟨object, _, hafter⟩ := Option.bind_eq_some_iff.mp hafter
    obtain ⟨mems, _, hafter⟩ := Option.bind_eq_some_iff.mp hafter
    obtain ⟨⟨contexts, _⟩, _, hafter⟩ := Option.bind_eq_some_iff.mp hafter
    cases hafter
    exact ⟨rfl, rfl⟩
  · simp only [hzero, if_false] at hafter
    cases hafter
    exact ⟨rfl, rfl⟩

theorem Listed.createProgramWithSource {context : ContextId} {valid : Bool}
    {id : Option ProgramId} (hlisted : Listed none state)
    (hcreate : state.createProgramWithSource context valid = some (after, id)) :
    Listed none after := by
  obtain ⟨object, _, hcreate⟩ := Option.bind_eq_some_iff.mp hcreate
  by_cases hvalid : valid = false
  · rw [if_pos hvalid] at hcreate
    cases hcreate
    exact hlisted
  · rw [if_neg hvalid] at hcreate
    exact hlisted.createProgram hcreate

theorem Listed.createProgramWithBinary {context : ContextId} {numDevices : ℕ} {valid : Bool}
    {id : Option ProgramId} (hlisted : Listed none state)
    (hcreate : state.createProgramWithBinary context numDevices valid = some (after, id)) :
    Listed none after := by
  unfold State.createProgramWithBinary at hcreate
  split at hcreate
  · cases hcreate
    exact hlisted
  · exact hlisted.createProgram hcreate

theorem Listed.retainProgram {program : ProgramId} (hlisted : Listed none state)
    (hretain : state.retainProgram program = some after) : Listed none after := by
  obtain ⟨programs, hprograms, hafter⟩ := Option.bind_eq_some_iff.mp hretain
  cases hafter
  exact hlisted.of_eq (headsOf_retain hprograms) rfl

theorem Listed.retainKernel {kernel : KernelId} (hlisted : Listed none state)
    (hretain : state.retainKernel kernel = some after) : Listed none after := by
  obtain ⟨kernels, hkernels, hafter⟩ := Option.bind_eq_some_iff.mp hretain
  cases hafter
  obtain ⟨_, rfl⟩ := retainObject_eq_some hkernels
  exact hlisted.of_eq rfl (fieldsOf_count _ kernel 1)

/-- Whatever is called, the lists stay as they have to be. -/
theorem Listed.step
    {session next : Session} {call : Call} (hlisted : Listed none session.state)
    (hstep : session.step call = some next) : Listed none next.state := by
  cases call with
  | createContext numDevices valid =>
      obtain ⟨⟨after, id⟩, hcreate, hnext⟩ := Option.bind_eq_some_iff.mp hstep
      cases hnext
      exact hlisted.of_samePrograms (createContext_samePrograms hcreate)
  | createBuffer context valid allocates =>
      obtain ⟨⟨after, id⟩, hcreate, hnext⟩ := Option.bind_eq_some_iff.mp hstep
      cases hnext
      exact hlisted.of_samePrograms (createBuffer_samePrograms hcreate)
  | createSubBuffer buffer valid =>
      obtain ⟨⟨after, id⟩, hcreate, hnext⟩ := Option.bind_eq_some_iff.mp hstep
      cases hnext
      exact hlisted.of_samePrograms (createSubBuffer_samePrograms hcreate)
  | createProgramWithSource context valid =>
      obtain ⟨⟨after, id⟩, hcreate, hnext⟩ := Option.bind_eq_some_iff.mp hstep
      cases hnext
      exact hlisted.createProgramWithSource hcreate
  | createProgramWithBinary context numDevices valid =>
      obtain ⟨⟨after, id⟩, hcreate, hnext⟩ := Option.bind_eq_some_iff.mp hstep
      cases hnext
      exact hlisted.createProgramWithBinary hcreate
  | createKernel program valid compiles =>
      obtain ⟨⟨after, id⟩, hcreate, hnext⟩ := Option.bind_eq_some_iff.mp hstep
      cases hnext
      exact hlisted.createKernel hcreate
  | retainContext context =>
      obtain ⟨after, hretain, hnext⟩ := Option.bind_eq_some_iff.mp hstep
      cases hnext
      exact hlisted.of_samePrograms (retainContext_samePrograms hretain)
  | retainMemObject mem =>
      obtain ⟨after, hretain, hnext⟩ := Option.bind_eq_some_iff.mp hstep
      cases hnext
      exact hlisted.of_samePrograms (retainMemObject_samePrograms hretain)
  | retainProgram program =>
      obtain ⟨after, hretain, hnext⟩ := Option.bind_eq_some_iff.mp hstep
      cases hnext
      exact hlisted.retainProgram hretain
  | retainKernel kernel =>
      obtain ⟨after, hretain, hnext⟩ := Option.bind_eq_some_iff.mp hstep
      cases hnext
      exact hlisted.retainKernel hretain
  | releaseContext context =>
      obtain ⟨after, hrelease, hnext⟩ := Option.bind_eq_some_iff.mp hstep
      cases hnext
      exact hlisted.of_samePrograms (releaseContext_samePrograms hrelease)
  | releaseMemObject mem =>
      obtain ⟨after, hrelease, hnext⟩ := Option.bind_eq_some_iff.mp hstep
      cases hnext
      exact hlisted.of_samePrograms (releaseMemObject_samePrograms hrelease)
  | releaseProgram program =>
      obtain ⟨after, hrelease, hnext⟩ := Option.bind_eq_some_iff.mp hstep
      cases hnext
      exact hlisted.releaseProgram hrelease
  | releaseKernel kernel =>
      obtain ⟨after, hrelease, hnext⟩ := Option.bind_eq_some_iff.mp hstep
      cases hnext
      exact hlisted.releaseKernel hrelease

theorem Listed.reaches
    {allowed : Session → Call → Prop} {session : Session}
    (hreach : Session.Reaches allowed session) : Listed none session.state := by
  induction hreach with
  | start =>
      unfold Listed
      rw [visible_none]
      exact KernelLists.empty
  | step _ _ hstep ih => exact ih.step hstep

end Lists

end RuntimeObjects

end Pocl
