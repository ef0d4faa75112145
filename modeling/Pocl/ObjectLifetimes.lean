import Pocl.ObjectAccounts

/-!
# The lifetimes of the objects

The accounts are right along every run of a client that gives back only what it
has, so that no object is freed while there is a reference on it.  An object is
also freed with its last reference as long as every context has one device and
the last reference on a parent or on a context is not an internal one.
-/

namespace Pocl

namespace RuntimeObjects

open State

variable {strict : Prop} {session : Session}

section Programs

variable {program : ProgramId}

theorem programRefs_pos_of_held (hheld : 0 < session.held.programs program) :
    0 < session.programRefs program := by
  unfold Session.programRefs
  omega

theorem programRefs_pos_of_kernel
    (hacc : Accounted strict session) {kernel : KernelId} {object : Object KernelFields}
    (hget : session.state.kernels.get kernel = some object)
    (hprogram : object.fields.program = some program) :
    0 < session.programRefs program := by
  have hheld := hacc.held_programs program
  have hpos : 0 < ((session.state.kernels.holders (kernelOf program)).card : ℤ) :=
    Table.card_holders_pos hget (by simp [kernelOf, hprogram])
  unfold Session.programRefs
  omega

/-- A new program in a context. -/
theorem Accounted.addProgram
    (hacc : Accounted strict session) {context : ContextId} (numDevices : ℕ) {call : Call}
    (hheld : 0 < session.held.contexts context)
    (hstep : ∀ state id, session.state.createProgram context numDevices = some (state, id) →
      session.step call = some ⟨state,
        { session.held with programs := Session.holdNew session.held.programs id }⟩) :
    Keeps strict session call := by
  obtain ⟨object, hget⟩ := hacc.contexts.live (contextRefs_pos_of_held hheld)
  have hcreate : session.state.createProgram context numDevices =
      some ({ session.state with
        contexts := session.state.contexts.modify context (Object.count 1)
        programs := session.state.programs.alloc
          (initObject ⟨context, numDevices, none⟩) }, some session.state.programs.next) := by
    unfold State.createProgram
    rw [retainObject_eq hget]
    rfl
  have hstep := hstep _ _ hcreate
  refine ⟨_, hstep, ?_⟩
  refine { hacc with
    listed := hacc.listed.step hstep, held_programs := ?_, contexts := ?_, programs := ?_ }
  · refine hold_nonneg hacc.held_programs ?_
    have hprogram := hacc.held_programs session.state.programs.next
    omega
  · refine (hacc.contexts.retain hget).congr fun other => ?_
    rw [hold_apply]
    unfold Session.contextRefs
    simp only [Table.card_holders_alloc, programIn, initObject, decide_eq_true_eq,
      @eq_comm _ context other]
    ring
  · have halloc : Counts strict
        (session.state.programs.alloc (initObject ⟨context, numDevices, none⟩))
        (Session.hold session.programRefs session.state.programs.next 1) :=
      hacc.programs.alloc (le_refl _) fun _ => rfl
    refine halloc.congr fun other => ?_
    rw [hold_apply]
    unfold Session.programRefs
    simp only [Session.holdNew, hold_apply]
    ring

theorem Accounted.createProgramWithSource
    (hacc : Accounted strict session) {context : ContextId} (valid : Bool)
    (hheld : 0 < session.held.contexts context) :
    Keeps strict session (.createProgramWithSource context valid) := by
  obtain ⟨object, hget⟩ := hacc.contexts.live (contextRefs_pos_of_held hheld)
  by_cases hvalid : valid = false
  · refine ⟨session, ?_, hacc⟩
    change Option.bind (session.state.createProgramWithSource context valid) _ = _
    unfold State.createProgramWithSource
    simp only [Option.bind_eq_bind, hget, Option.bind_some, hvalid, if_true]
    rfl
  · refine hacc.addProgram object.fields.numDevices hheld
      fun state id hcreate => ?_
    change Option.bind (session.state.createProgramWithSource context valid) _ = _
    unfold State.createProgramWithSource
    simp only [Option.bind_eq_bind, hget, Option.bind_some, hvalid]
    rw [hcreate]
    rfl

theorem Accounted.createProgramWithBinary
    (hacc : Accounted strict session) {context : ContextId} (numDevices : ℕ)
    (valid : Bool) (hheld : 0 < session.held.contexts context) :
    Keeps strict session (.createProgramWithBinary context numDevices valid) := by
  by_cases hvalid : numDevices = 0 ∨ valid = false
  · refine ⟨session, ?_, hacc⟩
    change Option.bind (session.state.createProgramWithBinary context numDevices valid) _ = _
    unfold State.createProgramWithBinary
    rw [if_pos hvalid]
    rfl
  · refine hacc.addProgram numDevices hheld fun state id hcreate => ?_
    change Option.bind (session.state.createProgramWithBinary context numDevices valid) _ = _
    unfold State.createProgramWithBinary
    rw [if_neg hvalid, hcreate]
    rfl

theorem Accounted.retainProgram
    (hacc : Accounted strict session) (hheld : 0 < session.held.programs program) :
    Keeps strict session (.retainProgram program) := by
  obtain ⟨object, hget⟩ := hacc.programs.live (programRefs_pos_of_held hheld)
  have hstep : session.step (.retainProgram program) =
      some ⟨{ session.state with
          programs := session.state.programs.modify program (Object.count 1) },
        { session.held with
          programs := Session.hold session.held.programs program 1 }⟩ := by
    change Option.bind (session.state.retainProgram program) _ = _
    unfold State.retainProgram
    rw [retainObject_eq hget]
    rfl
  refine ⟨_, hstep, ?_⟩
  refine { hacc with
    listed := hacc.listed.step hstep, held_programs := ?_, contexts := ?_, programs := ?_ }
  · exact hold_nonneg hacc.held_programs (by omega)
  · refine hacc.contexts.congr fun other => ?_
    unfold Session.contextRefs
    simp only [holders_programIn_count]
  · refine (hacc.programs.retain hget).congr fun other => ?_
    rw [hold_apply]
    unfold Session.programRefs
    simp only [hold_apply]
    ring

theorem list_eq_nil
    {table : Table (Object KernelFields)} {kernels : List KernelId}
    (hmem : ∀ kernel, kernel ∈ kernels → Owned (fieldsOf table) kernel program)
    (hcard : (table.holders (kernelOf program)).card = 0) : kernels = [] := by
  rw [List.eq_nil_iff_forall_not_mem]
  intro kernel hkernel
  obtain ⟨next, hnext⟩ := hmem kernel hkernel
  obtain ⟨object, hget, hfields⟩ := Option.map_eq_some_iff.mp hnext
  have hpos : 0 < ((table.holders (kernelOf program)).card : ℤ) :=
    Table.card_holders_pos hget (by simp [kernelOf, hfields])
  omega

theorem step_releaseProgram {after : State}
    (hrelease : session.state.releaseProgram program = some after) :
    session.step (.releaseProgram program) = some ⟨after,
      { session.held with
        programs := Session.hold session.held.programs program (-1) }⟩ := by
  change Option.bind (session.state.releaseProgram program) _ = _
  rw [hrelease]
  rfl

theorem Accounted.releaseProgram
    (hacc : Accounted strict session) (hheld : 0 < session.held.programs program)
    (hstrict : strict → ∀ object, session.state.programs.get program = some object →
      object.refcount = 1 →
        ∀ context, session.state.contexts.get object.fields.context = some context →
          context.refcount ≠ 1) :
    Keeps strict session (.releaseProgram program) := by
  have hrefs := programRefs_pos_of_held hheld
  obtain ⟨object, hget⟩ := hacc.programs.live hrefs
  obtain ⟨kernels, hlist, hmem⟩ := hacc.listed.exists_list hget
  rw [visible_none] at hmem
  have hrelease := releaseProgram_eq hget hlist
  have hcongr : ∀ other, Session.hold session.held.programs program (-1) other +
      ((session.state.kernels.holders (kernelOf other)).card : ℤ) =
        Session.hold session.programRefs program (-1) other := by
    intro other
    rw [hold_apply, hold_apply]
    unfold Session.programRefs
    ring
  by_cases hcount : object.refcount - 1 = 0
  · have hone : object.refcount = 1 := by omega
    have hle := hacc.programs.le_count program object hget
    have hnil : kernels = [] := by
      refine list_eq_nil (fun kernel => (hmem kernel).mp) ?_
      unfold Session.programRefs at hle
      omega
    have hcontextRefs := contextRefs_pos_of_program hacc hget
    obtain ⟨context, hcontext⟩ := hacc.contexts.live hcontextRefs
    have hcontexts := hacc.contexts.drop hcontext hcontextRefs fun hs =>
      hstrict hs object hget hone context hcontext
    have hcounted := session.state.programs.modify_get_self (Object.count (-1)) hget
    rw [if_pos hcount, releaseObject_eq hcontext, hnil, Option.map_some] at hrelease
    have hstep := step_releaseProgram hrelease
    refine ⟨_, hstep, ?_⟩
    refine { hacc with
      listed := hacc.listed.step hstep, held_programs := ?_, contexts := ?_,
      programs := ?_ }
    · exact hold_nonneg hacc.held_programs (by omega)
    · refine hcontexts.congr fun other => ?_
      rw [hold_apply]
      unfold Session.contextRefs
      simp only [Table.card_holders_free hcounted, holders_programIn_count, programIn,
        Object.count, decide_eq_true_eq, @eq_comm _ object.fields.context other]
      split
      · ring
      · ring
    · exact (hacc.programs.free hget hrefs hone).congr hcongr
  · rw [if_neg hcount] at hrelease
    have hstep := step_releaseProgram hrelease
    refine ⟨_, hstep, ?_⟩
    refine { hacc with
      listed := hacc.listed.step hstep, held_programs := ?_, contexts := ?_,
      programs := ?_ }
    · exact hold_nonneg hacc.held_programs (by omega)
    · refine hacc.contexts.congr fun other => ?_
      unfold Session.contextRefs
      simp only [holders_programIn_count]
    · exact (hacc.programs.drop hget hrefs fun _ => by omega).congr hcongr

end Programs

section Kernels

variable {kernel : KernelId}

theorem Accounted.createKernel
    (hacc : Accounted strict session) {program : ProgramId} (valid : Bool)
    (compiles : ℕ → Bool) (hheld : 0 < session.held.programs program)
    (hdevices : strict → ∀ object, session.state.programs.get program = some object →
      valid = true → (∀ index < object.fields.numDevices, compiles index = true) →
        object.fields.numDevices ≤ 1) :
    Keeps strict session (.createKernel program valid compiles) := by
  obtain ⟨object, hget⟩ := hacc.programs.live (programRefs_pos_of_held hheld)
  by_cases hvalid : object.fields.numDevices = 0 ∨ valid = false
  · refine ⟨session, ?_, hacc⟩
    change Option.bind (session.state.createKernel program valid compiles) _ = _
    unfold State.createKernel
    simp only [Option.bind_eq_bind, hget, Option.bind_some]
    rw [if_pos hvalid]
    rfl
  · cases hloop : forDevices compiles (List.range object.fields.numDevices)
        (initObject (KernelFields.mk (some program) object.fields.kernels)) with
    | none =>
        refine ⟨session, ?_, hacc⟩
        change Option.bind (session.state.createKernel program valid compiles) _ = _
        unfold State.createKernel
        simp only [Option.bind_eq_bind, hget, Option.bind_some]
        rw [if_neg hvalid, hloop]
        rfl
    | some created =>
        have hcreated := forDevices_range hloop
        let setHead := fun object : Object ProgramFields =>
          { object with fields :=
            { object.fields with kernels := some session.state.kernels.next } }
        have hhead := session.state.programs.modify_get_self setHead hget
        have hstep : session.step (.createKernel program valid compiles) =
            some ⟨{ session.state with
                programs := (session.state.programs.modify program setHead).modify program
                  (Object.count 1)
                kernels := session.state.kernels.alloc created },
              { session.held with
                kernels := Session.hold session.held.kernels
                  session.state.kernels.next 1 }⟩ := by
          change Option.bind (session.state.createKernel program valid compiles) _ = _
          unfold State.createKernel
          simp only [Option.bind_eq_bind, hget, Option.bind_some]
          rw [if_neg hvalid, hloop]
          simp only
          rw [retainObject_eq hhead]
          rfl
        refine ⟨_, hstep, ?_⟩
        refine { hacc with
          listed := hacc.listed.step hstep, contexts := ?_, programs := ?_, kernels := ?_,
          attached := ?_ }
        · refine hacc.contexts.congr fun other => ?_
          have hsame : (session.state.programs.modify program setHead).holders
              (programIn other) = session.state.programs.holders (programIn other) :=
            Table.holders_modify fun _ => rfl
          unfold Session.contextRefs
          simp only [holders_programIn_count, hsame]
        · have hset : Counts strict (session.state.programs.modify program setHead)
              session.programRefs :=
            hacc.programs.congr_table (Table.view_modify_same program fun _ => rfl)
          refine (hset.retain hhead).congr fun other => ?_
          rw [hold_apply]
          unfold Session.programRefs
          simp only [Table.card_holders_alloc, hcreated, kernelOf, Object.count, initObject,
            decide_eq_true_eq, Option.some.injEq, @eq_comm _ program other]
          ring
        · refine hacc.kernels.alloc ?_ fun hstrict => ?_
          · rw [hcreated]
            simp [Object.count, initObject]
          · have hall : ∀ index < object.fields.numDevices, compiles index = true :=
              fun index hlt => forDevices_succeeds hloop index (List.mem_range.mpr hlt)
            have hle := hdevices hstrict object hget
              (Bool.eq_true_of_not_eq_false fun heq => hvalid (Or.inr heq)) hall
            have hzero : object.fields.numDevices - 1 = 0 := by omega
            rw [hcreated, hzero]
            rfl
        · intro other fields hfields
          unfold fieldsOf at hfields
          rw [Table.view_alloc] at hfields
          by_cases heq : other = session.state.kernels.next
          · subst other
            rw [Function.update_self, Option.some.injEq, hcreated] at hfields
            rw [← hfields]
            exact Option.some_ne_none program
          · rw [Function.update_of_ne heq] at hfields
            exact hacc.attached other fields hfields

theorem Accounted.retainKernel
    (hacc : Accounted strict session) (hheld : 0 < session.held.kernels kernel) :
    Keeps strict session (.retainKernel kernel) := by
  obtain ⟨object, hget⟩ := hacc.kernels.live hheld
  have hstep : session.step (.retainKernel kernel) =
      some ⟨{ session.state with
          kernels := session.state.kernels.modify kernel (Object.count 1) },
        { session.held with
          kernels := Session.hold session.held.kernels kernel 1 }⟩ := by
    change Option.bind (session.state.retainKernel kernel) _ = _
    unfold State.retainKernel
    rw [retainObject_eq hget]
    rfl
  refine ⟨_, hstep, ?_⟩
  refine { hacc with
    listed := hacc.listed.step hstep, programs := ?_, kernels := ?_, attached := ?_ }
  · refine hacc.programs.congr fun other => ?_
    unfold Session.programRefs
    simp only [holders_kernelOf_count]
  · exact hacc.kernels.retain hget
  · unfold Attached
    rw [fieldsOf_count]
    exact hacc.attached

/-- Taking a kernel from a list changes only pointers of the list. -/
theorem exists_unlinked (state : State) (kernel : KernelId) (program : ProgramId)
    (before : List KernelId) (next : Option KernelId) :
    ∃ setHead last setNext,
      (∀ object : Object ProgramFields, (setHead object).refcount = object.refcount ∧
        (setHead object).fields.context = object.fields.context) ∧
      (∀ object : Object KernelFields, (setNext object).refcount = object.refcount ∧
        (setNext object).fields.program = object.fields.program) ∧
      unlinked kernel program before next state =
        { state with
          programs := state.programs.modify program setHead
          kernels := (state.kernels.modify kernel (Object.count (-1))).modify last
            setNext } := by
  unfold unlinked
  cases linkBehind Link.head before with
  | head =>
      refine ⟨fun object => { object with fields :=
        { object.fields with kernels := next } }, kernel, fun object => object,
        fun _ => ⟨rfl, rfl⟩, fun _ => ⟨rfl, rfl⟩, ?_⟩
      rw [Table.modify_id]
      rfl
  | next last =>
      refine ⟨fun object => object, last, fun object => { object with fields :=
        { object.fields with next := next } }, fun _ => ⟨rfl, rfl⟩,
        fun _ => ⟨rfl, rfl⟩, ?_⟩
      rw [Table.modify_id]
      rfl

theorem step_releaseKernel {after : State}
    (hrelease : session.state.releaseKernel kernel = some after) :
    session.step (.releaseKernel kernel) = some ⟨after,
      { session.held with
        kernels := Session.hold session.held.kernels kernel (-1) }⟩ := by
  change Option.bind (session.state.releaseKernel kernel) _ = _
  rw [hrelease]
  rfl

/-- The kernels of the programs when one of them is freed. -/
theorem card_kernelOf_free
    {table : Table (Object KernelFields)} {object : Object KernelFields}
    (hget : table.get kernel = some object) {program : ProgramId}
    (hprogram : object.fields.program = some program) (last : KernelId)
    {setNext : Object KernelFields → Object KernelFields}
    (hsetNext : ∀ object, (setNext object).refcount = object.refcount ∧
      (setNext object).fields.program = object.fields.program) (other : ProgramId) :
    (((((table.modify kernel (Object.count (-1))).modify last setNext).free kernel).holders
      (kernelOf other)).card : ℤ) =
        (table.holders (kernelOf other)).card + if other = program then -1 else 0 := by
  have hlast : ∃ found, ((table.modify kernel (Object.count (-1))).modify
      last setNext).get kernel = some found ∧ found.fields.program = some program := by
    have hcounted := table.modify_get_self (Object.count (-1)) hget
    by_cases heq : kernel = last
    · subst heq
      refine ⟨_, Table.modify_get_self _ setNext hcounted, ?_⟩
      rw [(hsetNext _).2]
      exact hprogram
    · refine ⟨_, (Table.modify_get_of_ne _ setNext heq).trans hcounted, hprogram⟩
  obtain ⟨found, hfound, hfoundProgram⟩ := hlast
  have hsame : ((table.modify kernel (Object.count (-1))).modify last setNext).holders
      (kernelOf other) = table.holders (kernelOf other) := by
    rw [Table.holders_modify, holders_kernelOf_count]
    intro object
    unfold kernelOf
    rw [(hsetNext object).2]
  simp only [Table.card_holders_free hfound, hsame, kernelOf, hfoundProgram,
    decide_eq_true_eq, Option.some.injEq, @eq_comm _ program other]
  split
  · ring
  · ring

/-- What is left when a kernel is freed. -/
theorem Accounted.freeKernel
    (hacc : Accounted strict session) (hheld : 0 < session.held.kernels kernel)
    {object : Object KernelFields}
    (hget : session.state.kernels.get kernel = some object) (hone : object.refcount = 1)
    {program : ProgramId} (hprogram : object.fields.program = some program)
    {last : KernelId} {setNext : Object KernelFields → Object KernelFields}
    (hsetNext : ∀ object, (setNext object).refcount = object.refcount ∧
      (setNext object).fields.program = object.fields.program)
    {contexts : Table (Object ContextFields)} {programs : Table (Object ProgramFields)}
    {kernels : Table (Object KernelFields)}
    (hkernels : kernels =
      ((session.state.kernels.modify kernel (Object.count (-1))).modify last setNext).free
        kernel)
    (hstep : session.step (.releaseKernel kernel) = some
      ⟨{ session.state with
          contexts := contexts, programs := programs, kernels := kernels },
        { session.held with
          kernels := Session.hold session.held.kernels kernel (-1) }⟩)
    (hcontexts : Counts strict contexts fun other => session.held.contexts other +
      (session.state.mems.holders (memIn other)).card +
        (programs.holders (programIn other)).card)
    (hprograms : Counts strict programs (Session.hold session.programRefs program (-1))) :
    Keeps strict session (.releaseKernel kernel) := by
  refine ⟨_, hstep, ?_⟩
  refine { hacc with
    listed := hacc.listed.step hstep, contexts := hcontexts, programs := ?_, kernels := ?_,
    attached := ?_ }
  · refine hprograms.congr fun other => ?_
    rw [hold_apply]
    unfold Session.programRefs
    rw [hkernels, card_kernelOf_free hget hprogram last hsetNext]
    ring
  · refine (hacc.kernels.free hget hheld hone).congr_table ?_
    rw [hkernels, Table.view_free, Table.view_free,
      Table.view_modify_same last fun object => (hsetNext object).1]
  · intro other fields hfields
    obtain ⟨otherObject, hother, rfl⟩ := Option.map_eq_some_iff.mp hfields
    rw [hkernels, Table.free_get_eq_some] at hother
    have hold : ∃ old, session.state.kernels.get other = some old ∧
        otherObject.fields.program = old.fields.program := by
      rw [Table.modify_get_eq_some] at hother
      rcases hother with ⟨hne, ⟨rfl, old, hold, rfl⟩ | ⟨_, hold⟩⟩
      · rw [Table.modify_get_of_ne _ _ hne] at hold
        exact ⟨old, hold, (hsetNext old).2⟩
      · rw [Table.modify_get_of_ne _ _ hne] at hold
        exact ⟨otherObject, hold, rfl⟩
    obtain ⟨old, hold, heq⟩ := hold
    rw [heq]
    exact hacc.attached other old.fields (Table.view_eq hold)

theorem Accounted.releaseKernel
    (hacc : Accounted strict session) (hheld : 0 < session.held.kernels kernel)
    (hstrict : strict → ∀ object, session.state.kernels.get kernel = some object →
      object.refcount = 1 → ∀ program programObject,
        object.fields.program = some program →
        session.state.programs.get program = some programObject →
        programObject.refcount = 1 → ∀ context,
          session.state.contexts.get programObject.fields.context = some context →
            context.refcount ≠ 1) :
    Keeps strict session (.releaseKernel kernel) := by
  obtain ⟨object, hget⟩ := hacc.kernels.live hheld
  by_cases hcount : object.refcount - 1 = 0
  · have hone : object.refcount = 1 := by omega
    obtain ⟨program, hprogram⟩ :=
      Option.ne_none_iff_exists'.mp (hacc.attached kernel object.fields (Table.view_eq hget))
    obtain ⟨programObject, before, behind, hprogramGet, hlist, hmem⟩ :=
      hacc.listed.exists_split hget hprogram
    have hrelease := releaseKernel_of_linked hget hcount hprogram hprogramGet hlist
    have hlisted := hacc.listed.unlinked hget hprogram hprogramGet hlist hmem
    obtain ⟨setHead, last, setNext, hsetHead, hsetNext, hunlinked⟩ :=
      exists_unlinked session.state kernel program before object.fields.next
    rw [hunlinked] at hrelease hlisted
    have hhead := session.state.programs.modify_get_self setHead hprogramGet
    obtain ⟨kernels, hkernels, hkernelsMem⟩ := hlisted.exists_list hhead
    have hprogramRelease := releaseProgram_eq hhead hkernels
    have hprograms : Counts strict (session.state.programs.modify program setHead)
        session.programRefs :=
      hacc.programs.congr_table
        (Table.view_modify_same program fun object => (hsetHead object).1)
    have hprogramRefs := programRefs_pos_of_kernel hacc hget hprogram
    have hsame : ∀ other, (session.state.programs.modify program setHead).holders
        (programIn other) = session.state.programs.holders (programIn other) := by
      intro other
      refine Table.holders_modify fun object => ?_
      unfold programIn
      rw [(hsetHead object).2]
    by_cases hprogramCount : (setHead programObject).refcount - 1 = 0
    · have hprogramOne : (setHead programObject).refcount = 1 := by omega
      have hle := hprograms.le_count program _ hhead
      have hheldProgram := hacc.held_programs program
      have hcard := card_kernelOf_free hget hprogram last hsetNext program
      have howned : ∀ other ∈ kernels, Owned (fieldsOf
          (((session.state.kernels.modify kernel (Object.count (-1))).modify last
            setNext).free kernel)) other program := by
        intro other hother
        rw [fieldsOf_free, ← visible_some]
        exact (hkernelsMem other).mp hother
      have hnil : kernels = [] := by
        refine list_eq_nil howned ?_
        rw [if_pos rfl] at hcard
        unfold Session.programRefs at hle
        omega
      have hcontextRefs := contextRefs_pos_of_program hacc hprogramGet
      rw [← (hsetHead programObject).2] at hcontextRefs
      obtain ⟨context, hcontext⟩ := hacc.contexts.live hcontextRefs
      have hcontexts := hacc.contexts.drop hcontext hcontextRefs fun hs => by
        rw [(hsetHead programObject).2] at hcontext
        rw [(hsetHead programObject).1] at hprogramOne
        exact hstrict hs object hget hone program programObject hprogram hprogramGet
          hprogramOne context hcontext
      have hcounted := Table.modify_get_self _ (Object.count (-1)) hhead
      rw [if_pos hprogramCount, hnil] at hprogramRelease
      simp only at hprogramRelease
      rw [releaseObject_eq hcontext, Option.map_some] at hprogramRelease
      rw [hprogramRelease, Option.map_some] at hrelease
      refine hacc.freeKernel hheld hget hone hprogram hsetNext rfl
        (step_releaseKernel hrelease) ?_ ?_
      · refine hcontexts.congr fun other => ?_
        rw [hold_apply]
        unfold Session.contextRefs
        simp only [Table.card_holders_free hcounted, holders_programIn_count, hsame,
          programIn, Object.count, decide_eq_true_eq,
          @eq_comm _ (setHead programObject).fields.context other]
        split
        · ring
        · ring
      · exact hprograms.free hhead hprogramRefs hprogramOne
    · rw [if_neg hprogramCount] at hprogramRelease
      rw [hprogramRelease, Option.map_some] at hrelease
      refine hacc.freeKernel hheld hget hone hprogram hsetNext rfl
        (step_releaseKernel hrelease) ?_ ?_
      · refine hacc.contexts.congr fun other => ?_
        unfold Session.contextRefs
        rw [holders_programIn_count, hsame]
      · exact hprograms.drop hhead hprogramRefs fun _ => by omega
  · refine ⟨_, step_releaseKernel (releaseKernel_of_ne hget hcount), ?_⟩
    have hstep := step_releaseKernel (releaseKernel_of_ne hget hcount)
    refine { hacc with
      listed := hacc.listed.step hstep, programs := ?_, kernels := ?_, attached := ?_ }
    · refine hacc.programs.congr fun other => ?_
      unfold Session.programRefs
      simp only [holders_kernelOf_count]
    · exact hacc.kernels.drop hget hheld fun _ => by omega
    · unfold Attached
      rw [fieldsOf_count]
      exact hacc.attached

end Kernels

/-- The call does not lead to an internal reference being the last one on a
parent or a context, and makes no object for several devices. -/
def Session.Timely (session : Session) : Call → Prop
  | .createBuffer context valid allocates => ∀ object,
      session.state.contexts.get context = some object → valid = true →
        (∀ index < object.fields.numDevices, allocates index = true) →
          object.fields.numDevices ≤ 1
  | .createKernel program valid compiles => ∀ object,
      session.state.programs.get program = some object → valid = true →
        (∀ index < object.fields.numDevices, compiles index = true) →
          object.fields.numDevices ≤ 1
  | .releaseMemObject mem => ∀ object,
      session.state.mems.get mem = some object → object.refcount = 1 →
        (∀ context, session.state.contexts.get object.fields.context = some context →
          context.refcount ≠ 1) ∧
        ∀ parent parentObject, object.fields.parent = some parent →
          session.state.mems.get parent = some parentObject → parentObject.refcount ≠ 1
  | .releaseProgram program => ∀ object,
      session.state.programs.get program = some object → object.refcount = 1 →
        ∀ context, session.state.contexts.get object.fields.context = some context →
          context.refcount ≠ 1
  | .releaseKernel kernel => ∀ object,
      session.state.kernels.get kernel = some object → object.refcount = 1 →
        ∀ program programObject, object.fields.program = some program →
          session.state.programs.get program = some programObject →
          programObject.refcount = 1 → ∀ context,
            session.state.contexts.get programObject.fields.context = some context →
              context.refcount ≠ 1
  | _ => True

/-- Every call that the client may make returns. -/
theorem Accounted.keeps
    (hacc : Accounted strict session) {call : Call} (hholds : session.Holds call)
    (htimely : strict → session.Timely call) : Keeps strict session call := by
  cases call with
  | createContext numDevices valid => exact hacc.createContext numDevices valid
  | createBuffer context valid allocates =>
      exact hacc.createBuffer valid allocates hholds htimely
  | createSubBuffer buffer valid => exact hacc.createSubBuffer valid hholds
  | createProgramWithSource context valid =>
      exact hacc.createProgramWithSource valid hholds
  | createProgramWithBinary context numDevices valid =>
      exact hacc.createProgramWithBinary numDevices valid hholds
  | createKernel program valid compiles =>
      exact hacc.createKernel valid compiles hholds htimely
  | retainContext context => exact hacc.retainContext hholds
  | retainMemObject mem => exact hacc.retainMemObject hholds
  | retainProgram program => exact hacc.retainProgram hholds
  | retainKernel kernel => exact hacc.retainKernel hholds
  | releaseContext context => exact hacc.releaseContext hholds
  | releaseMemObject mem => exact hacc.releaseMemObject hholds htimely
  | releaseProgram program => exact hacc.releaseProgram hholds htimely
  | releaseKernel kernel => exact hacc.releaseKernel hholds htimely

theorem Accounted.reaches
    {allowed : Session → Call → Prop}
    (hallowed : ∀ session call, allowed session call →
      session.Holds call ∧ (strict → session.Timely call))
    (hreach : Session.Reaches allowed session) : Accounted strict session := by
  induction hreach with
  | start => exact Accounted.start
  | step _ hcall hstep ih =>
      obtain ⟨hholds, htimely⟩ := hallowed _ _ hcall
      obtain ⟨next, hnext, hacc⟩ := ih.keeps hholds htimely
      rw [hstep, Option.some.injEq] at hnext
      rw [hnext]
      exact hacc

/-- The object that a call creates has one reference. -/
def Session.CreatesOne (session next : Session) : Call → Prop
  | .createContext _ _ => ∀ object,
      next.state.contexts.get session.state.contexts.next = some object →
        object.refcount = 1
  | .createBuffer _ _ _ | .createSubBuffer _ _ => ∀ object,
      next.state.mems.get session.state.mems.next = some object → object.refcount = 1
  | .createProgramWithSource _ _ | .createProgramWithBinary _ _ _ => ∀ object,
      next.state.programs.get session.state.programs.next = some object →
        object.refcount = 1
  | .createKernel _ _ _ => ∀ object,
      next.state.kernels.get session.state.kernels.next = some object →
        object.refcount = 1
  | _ => True

section Creating

variable {α : Type} {table : Table (Object α)}

theorem count_of_alloc {new object : Object α} (hnew : new.refcount = 1)
    (hget : (table.alloc new).get table.next = some object) : object.refcount = 1 := by
  rw [Table.alloc_get_self, Option.some.injEq] at hget
  rw [← hget]
  exact hnew

theorem not_get_next {object : Object α} : table.get table.next ≠ some object := by
  rw [Table.get_next]
  exact nofun

theorem count_of_forDevices {succeeds : ℕ → Bool} {numDevices : ℕ} {fields : α}
    {result : Object α}
    (hdevices : (∀ index < numDevices, succeeds index = true) → numDevices ≤ 1)
    (hloop : forDevices succeeds (List.range numDevices) (initObject fields) =
      some result) : result.refcount = 1 := by
  have hle := hdevices fun index hlt =>
    forDevices_succeeds hloop index (List.mem_range.mpr hlt)
  have hzero : numDevices - 1 = 0 := by omega
  rw [forDevices_range hloop, hzero]
  rfl

end Creating

theorem createProgram_createsOne {state after : State} {context : ContextId}
    {numDevices : ℕ} {id : Option ProgramId}
    (hcreate : state.createProgram context numDevices = some (after, id))
    {object : Object ProgramFields}
    (hget : after.programs.get state.programs.next = some object) :
    object.refcount = 1 := by
  obtain ⟨contexts, _, hcreate⟩ := Option.bind_eq_some_iff.mp hcreate
  cases hcreate
  exact count_of_alloc rfl hget

theorem step_createsOne
    {next : Session} {call : Call} (htimely : session.Timely call)
    (hstep : session.step call = some next) : session.CreatesOne next call := by
  cases call with
  | createContext numDevices valid =>
      intro object hget
      obtain ⟨⟨after, id⟩, hcreate, hnext⟩ := Option.bind_eq_some_iff.mp hstep
      cases hnext
      unfold State.createContext at hcreate
      split at hcreate
      · cases hcreate
        exact absurd hget not_get_next
      · cases hcreate
        exact count_of_alloc rfl hget
  | createBuffer context valid allocates =>
      intro object hget
      obtain ⟨⟨after, id⟩, hcreate, hnext⟩ := Option.bind_eq_some_iff.mp hstep
      cases hnext
      obtain ⟨contextObject, hcontext, hcreate⟩ := Option.bind_eq_some_iff.mp hcreate
      by_cases hvalid : valid = false
      · rw [if_pos hvalid] at hcreate
        cases hcreate
        exact absurd hget not_get_next
      · rw [if_neg hvalid] at hcreate
        split at hcreate
        · cases hcreate
          exact absurd hget not_get_next
        · rename_i buffer hloop
          obtain ⟨contexts, _, hcreate⟩ := Option.bind_eq_some_iff.mp hcreate
          cases hcreate
          have hdevices := htimely _ hcontext (Bool.eq_true_of_not_eq_false hvalid)
          exact count_of_alloc (count_of_forDevices hdevices hloop) hget
  | createSubBuffer buffer valid =>
      intro object hget
      obtain ⟨⟨after, id⟩, hcreate, hnext⟩ := Option.bind_eq_some_iff.mp hstep
      cases hnext
      obtain ⟨parent, hparent, hcreate⟩ := Option.bind_eq_some_iff.mp hcreate
      by_cases hvalid : parent.fields.parent ≠ none ∨ valid = false
      · rw [if_pos hvalid] at hcreate
        cases hcreate
        exact absurd hget not_get_next
      · rw [if_neg hvalid] at hcreate
        obtain ⟨mems, hmems, hcreate⟩ := Option.bind_eq_some_iff.mp hcreate
        obtain ⟨contexts, _, hcreate⟩ := Option.bind_eq_some_iff.mp hcreate
        cases hcreate
        obtain ⟨_, rfl⟩ := retainObject_eq_some hmems
        have hne : session.state.mems.next ≠ buffer :=
          ne_of_gt (session.state.mems.lt_next hparent)
        have hnew := hget
        simp only [Table.modify_get_of_ne _ (Object.count 1) hne] at hnew
        exact count_of_alloc rfl hnew
  | createProgramWithSource context valid =>
      intro object hget
      obtain ⟨⟨after, id⟩, hcreate, hnext⟩ := Option.bind_eq_some_iff.mp hstep
      cases hnext
      obtain ⟨contextObject, _, hcreate⟩ := Option.bind_eq_some_iff.mp hcreate
      by_cases hvalid : valid = false
      · rw [if_pos hvalid] at hcreate
        cases hcreate
        exact absurd hget not_get_next
      · rw [if_neg hvalid] at hcreate
        exact createProgram_createsOne hcreate hget
  | createProgramWithBinary context numDevices valid =>
      intro object hget
      obtain ⟨⟨after, id⟩, hcreate, hnext⟩ := Option.bind_eq_some_iff.mp hstep
      cases hnext
      unfold State.createProgramWithBinary at hcreate
      split at hcreate
      · cases hcreate
        exact absurd hget not_get_next
      · exact createProgram_createsOne hcreate hget
  | createKernel program valid compiles =>
      intro object hget
      obtain ⟨⟨after, id⟩, hcreate, hnext⟩ := Option.bind_eq_some_iff.mp hstep
      cases hnext
      obtain ⟨programObject, hprogram, hcreate⟩ := Option.bind_eq_some_iff.mp hcreate
      by_cases hvalid : programObject.fields.numDevices = 0 ∨ valid = false
      · rw [if_pos hvalid] at hcreate
        cases hcreate
        exact absurd hget not_get_next
      · rw [if_neg hvalid] at hcreate
        split at hcreate
        · cases hcreate
          exact absurd hget not_get_next
        · rename_i kernel hloop
          obtain ⟨programs, _, hcreate⟩ := Option.bind_eq_some_iff.mp hcreate
          cases hcreate
          have hdevices := htimely _ hprogram
            (Bool.eq_true_of_not_eq_false fun heq => hvalid (Or.inr heq))
          exact count_of_alloc (count_of_forDevices hdevices hloop) hget
  | retainContext | retainMemObject | retainProgram | retainKernel | releaseContext
  | releaseMemObject | releaseProgram | releaseKernel => trivial

/-- Every program that has not been freed has a list with each kernel that refers
to it once and no other kernel, and no kernel refers to a freed program. -/
structure KernelsLinked (state : State) : Prop where
  list : ∀ program object, state.programs.get program = some object →
    ∃ kernels : List KernelId,
      IsSList (fetchNext state.kernels) object.fields.kernels kernels ∧
      kernels.Nodup ∧
      ∀ kernel, kernel ∈ kernels ↔ ∃ kernelObject,
        state.kernels.get kernel = some kernelObject ∧
          kernelObject.fields.program = some program
  live : ∀ kernel object program, state.kernels.get kernel = some object →
    object.fields.program = some program →
      ∃ programObject, state.programs.get program = some programObject

theorem owned_fieldsOf {kernels : Table (Object KernelFields)} {kernel : KernelId}
    {program : ProgramId} :
    Owned (fieldsOf kernels) kernel program ↔ ∃ object,
      kernels.get kernel = some object ∧ object.fields.program = some program := by
  constructor
  · rintro ⟨next, hnext⟩
    obtain ⟨object, hget, hfields⟩ := Option.map_eq_some_iff.mp hnext
    exact ⟨object, hget, by rw [hfields]⟩
  · rintro ⟨object, hget, hprogram⟩
    refine ⟨object.fields.next, ?_⟩
    unfold fieldsOf
    rw [Table.view_eq hget, ← hprogram]

theorem Listed.kernelsLinked {state : State} (hlisted : Listed none state) :
    KernelsLinked state := by
  constructor
  · intro program object hget
    obtain ⟨kernels, hlist, hmem⟩ := hlisted.exists_list hget
    refine ⟨kernels, hlist, hlist.nodup, fun kernel => ?_⟩
    rw [hmem kernel, visible_none, owned_fieldsOf]
  · intro kernel object program hget hprogram
    have howned : Owned (visible none state.kernels) kernel program := by
      rw [visible_none, owned_fieldsOf]
      exact ⟨object, hget, hprogram⟩
    obtain ⟨head, hhead⟩ := hlisted.live kernel program howned
    obtain ⟨programObject, hprogramGet, _⟩ := Option.map_eq_some_iff.mp hhead
    exact ⟨programObject, hprogramGet⟩

/-- Whatever is called, the lists are right; and if the client gives back only
references that it has, every kernel has a program, which has not been freed, and
the next call is defined. -/
theorem reaches_kernelsLinked
    {allowed : Session → Call → Prop} (hreach : Session.Reaches allowed session) :
    KernelsLinked session.state ∧
      ((∀ session call, allowed session call → session.Holds call) →
        (∀ kernel object, session.state.kernels.get kernel = some object →
          ∃ program programObject, object.fields.program = some program ∧
            session.state.programs.get program = some programObject) ∧
        ∀ call, session.Holds call → ∃ next, session.step call = some next) := by
  refine ⟨(Listed.reaches hreach).kernelsLinked, fun hallowed => ?_⟩
  have hacc : Accounted False session :=
    Accounted.reaches (fun session call hcall => ⟨hallowed session call hcall, nofun⟩)
      hreach
  refine ⟨fun kernel object hget => ?_, fun call hcall => ?_⟩
  · obtain ⟨program, hprogram⟩ := Option.ne_none_iff_exists'.mp
      (hacc.attached kernel object.fields (Table.view_eq hget))
    obtain ⟨programObject, hprogramGet⟩ :=
      hacc.listed.kernelsLinked.live kernel object program hget hprogram
    exact ⟨program, programObject, hprogram, hprogramGet⟩
  · obtain ⟨next, hnext, _⟩ := hacc.keeps hcall nofun
    exact ⟨next, hnext⟩

/-- Of two kernels the older one, which is last on the list, is released; the
program has been released before. -/
theorem releasedFirst_kernelsLinked :
    ∃ session, Session.start.runHeld
        [.createContext 1 true, .createProgramWithSource 0 true,
          .createKernel 0 true fun _ => true, .createKernel 0 true fun _ => true,
          .releaseProgram 0, .releaseKernel 0] = some session ∧
      session.state.kernels.view Object.refcount 0 = none ∧
      session.state.kernels.view Object.refcount 1 = some 1 ∧
      KernelsLinked session.state := by
  have hrun : ∃ session, Session.start.runHeld
        [.createContext 1 true, .createProgramWithSource 0 true,
          .createKernel 0 true fun _ => true, .createKernel 0 true fun _ => true,
          .releaseProgram 0, .releaseKernel 0] = some session ∧
      session.state.kernels.view Object.refcount 0 = none ∧
      session.state.kernels.view Object.refcount 1 = some 1 := ⟨_, rfl, rfl, rfl⟩
  obtain ⟨session, hsession, hfirst, hsecond⟩ := hrun
  exact ⟨session, hsession, hfirst, hsecond,
    (reaches_kernelsLinked (Session.Reaches.start.runHeld hsession)).1⟩

/-- An object of a table is there exactly while there is a reference on it, and
its counter is the number of its references. -/
def Exact {α : Type} (table : Table (Object α)) (refs : ℕ → ℤ) : Prop :=
  ∀ id, ((∃ object, table.get id = some object) ↔ 0 < refs id) ∧
    ∀ object, table.get id = some object → object.refcount = refs id

structure ExactLifetimes (session : Session) : Prop where
  contexts : Exact session.state.contexts session.contextRefs
  mems : Exact session.state.mems session.memRefs
  programs : Exact session.state.programs session.programRefs
  kernels : Exact session.state.kernels session.held.kernels

theorem Counts.isExact {α : Type} {table : Table (Object α)} {refs : ℕ → ℤ}
    (hcounts : Counts True table refs) : Exact table refs := by
  intro id
  refine ⟨⟨?_, hcounts.live⟩, fun object hget => ?_⟩
  · rintro ⟨object, hget⟩
    exact (hcounts.exact trivial id object hget).2
  · exact (hcounts.exact trivial id object hget).1

/-- In a run of timely calls the objects live exactly as long as there are
references on them. -/
theorem reaches_exactLifetimes
    (hreach : Session.Reaches
      (fun session call => session.Holds call ∧ session.Timely call) session) :
    ExactLifetimes session ∧
      ∀ call, session.Holds call → session.Timely call →
        ∃ next, session.step call = some next ∧ session.CreatesOne next call := by
  have hacc : Accounted True session :=
    Accounted.reaches (fun _ _ hcall => ⟨hcall.1, fun _ => hcall.2⟩) hreach
  refine ⟨⟨hacc.contexts.isExact, hacc.mems.isExact, hacc.programs.isExact,
    hacc.kernels.isExact⟩, fun call hholds htimely => ?_⟩
  obtain ⟨next, hnext, _⟩ := hacc.keeps hholds fun _ => htimely
  exact ⟨next, hnext, step_createsOne htimely hnext⟩

/-- A buffer that is released while its context is held. -/
theorem releasedBuffer_exactLifetimes :
    ∃ session, Session.Reaches
        (fun session call => session.Holds call ∧ session.Timely call) session ∧
      session.state.mems.view Object.refcount 0 = none ∧
      ExactLifetimes session := by
  have hrun : ∃ session, Session.Reaches
        (fun session call => session.Holds call ∧ session.Timely call) session ∧
      session.state.mems.view Object.refcount 0 = none := by
    refine ⟨_, .step (.step (.step .start ⟨?_, ?_⟩
      (show Session.start.step (.createContext 1 true) = some _ from rfl)) ⟨?_, ?_⟩
      (show Session.step _ (.createBuffer 0 true fun _ => true) = some _ from rfl))
      ⟨?_, ?_⟩ (show Session.step _ (.releaseMemObject 0) = some _ from rfl), rfl⟩
    · trivial
    · trivial
    · decide
    · intro object hget _ _
      cases hget
      exact le_refl 1
    · decide
    · intro object hget _
      cases hget
      refine ⟨fun context hget => ?_, nofun⟩
      cases hget
      decide
  obtain ⟨session, hreach, hfreed⟩ := hrun
  exact ⟨session, hreach, hfreed, (reaches_exactLifetimes hreach).1⟩

/-- The last sub-buffer is released after its parent: the counter of the parent
is zero, and it has not been freed. -/
theorem orphanedParent_not_exactLifetimes :
    ¬∀ session, Session.Reaches Session.Holds session → ExactLifetimes session := by
  intro hall
  have hrun : ∃ session, Session.start.runHeld
      [.createContext 1 true, .createBuffer 0 true fun _ => true, .createSubBuffer 0 true,
        .releaseMemObject 0, .releaseMemObject 1] = some session ∧
      session.state.mems.view Object.refcount 0 = some 0 ∧ session.memRefs 0 = 0 :=
    ⟨_, rfl, rfl, by decide +kernel⟩
  obtain ⟨session, hsession, hcount, hrefs⟩ := hrun
  have hexact := hall session (Session.Reaches.start.runHeld hsession)
  obtain ⟨object, hget, _⟩ := Option.map_eq_some_iff.mp hcount
  have hpos := (hexact.mems 0).1.mp ⟨object, hget⟩
  omega

end RuntimeObjects

end Pocl
