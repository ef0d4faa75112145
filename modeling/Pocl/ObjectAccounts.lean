import Pocl.ProgramKernels
import Pocl.ReferenceCounts

/-!
# The references between the objects

A context has the references of the client, of its memory objects and of its
programs; a memory object those of the client and of its sub-buffers; a program
those of the client and of its kernels.  While the client gives back only what it
has, each counter covers these references, and every call is defined.
-/

namespace Pocl

namespace RuntimeObjects

open State

def memIn (context : ContextId) (object : Object MemFields) : Bool :=
  decide (object.fields.context = context)

def programIn (context : ContextId) (object : Object ProgramFields) : Bool :=
  decide (object.fields.context = context)

def subBufferOf (mem : MemId) (object : Object MemFields) : Bool :=
  decide (object.fields.parent = some mem)

def kernelOf (program : ProgramId) (object : Object KernelFields) : Bool :=
  decide (object.fields.program = some program)

namespace Session

def contextRefs (session : Session) (context : ContextId) : ℤ :=
  session.held.contexts context + (session.state.mems.holders (memIn context)).card +
    (session.state.programs.holders (programIn context)).card

def memRefs (session : Session) (mem : MemId) : ℤ :=
  session.held.mems mem + (session.state.mems.holders (subBufferOf mem)).card

def programRefs (session : Session) (program : ProgramId) : ℤ :=
  session.held.programs program +
    (session.state.kernels.holders (kernelOf program)).card

end Session

/-- A sub-buffer has no sub-buffers. -/
def ParentsOnTop (mems : Table (Object MemFields)) : Prop :=
  ∀ mem fields parent parentFields, mems.view Object.fields mem = some fields →
    fields.parent = some parent → mems.view Object.fields parent = some parentFields →
      parentFields.parent = none

/-- Every kernel has a program. -/
def Attached (kernels : Table (Object KernelFields)) : Prop :=
  ∀ kernel fields, fieldsOf kernels kernel = some fields → fields.program ≠ none

structure Accounted (strict : Prop) (session : Session) : Prop where
  listed : Listed none session.state
  held_contexts : ∀ context, 0 ≤ session.held.contexts context
  held_mems : ∀ mem, 0 ≤ session.held.mems mem
  held_programs : ∀ program, 0 ≤ session.held.programs program
  contexts : Counts strict session.state.contexts session.contextRefs
  mems : Counts strict session.state.mems session.memRefs
  programs : Counts strict session.state.programs session.programRefs
  kernels : Counts strict session.state.kernels session.held.kernels
  parents : ParentsOnTop session.state.mems
  attached : Attached session.state.kernels

section Counted

variable (id : ℕ) (change : ℤ)

@[simp] theorem holders_memIn_count
    (mems : Table (Object MemFields)) (context : ContextId) :
    (mems.modify id (Object.count change)).holders (memIn context) =
      mems.holders (memIn context) :=
  Table.holders_modify fun _ => rfl

@[simp] theorem holders_subBufferOf_count
    (mems : Table (Object MemFields)) (mem : MemId) :
    (mems.modify id (Object.count change)).holders (subBufferOf mem) =
      mems.holders (subBufferOf mem) :=
  Table.holders_modify fun _ => rfl

@[simp] theorem holders_programIn_count
    (programs : Table (Object ProgramFields)) (context : ContextId) :
    (programs.modify id (Object.count change)).holders (programIn context) =
      programs.holders (programIn context) :=
  Table.holders_modify fun _ => rfl

@[simp] theorem holders_kernelOf_count
    (kernels : Table (Object KernelFields)) (program : ProgramId) :
    (kernels.modify id (Object.count change)).holders (kernelOf program) =
      kernels.holders (kernelOf program) :=
  Table.holders_modify fun _ => rfl

theorem ParentsOnTop.count {mems : Table (Object MemFields)}
    (hparents : ParentsOnTop mems) :
    ParentsOnTop (mems.modify id (Object.count change)) := by
  have hview : (mems.modify id (Object.count change)).view Object.fields =
      mems.view Object.fields := Table.view_modify_same id fun _ => rfl
  unfold ParentsOnTop
  rw [hview]
  exact hparents

theorem ParentsOnTop.free {mems : Table (Object MemFields)}
    (hparents : ParentsOnTop mems) : ParentsOnTop (mems.free id) := by
  intro mem fields parent parentFields hmem hparent hparentFields
  rw [Table.view_free] at hmem hparentFields
  have hne : mem ≠ id := by
    rintro rfl
    rw [Function.update_self] at hmem
    cases hmem
  have hparentNe : parent ≠ id := by
    rintro rfl
    rw [Function.update_self] at hparentFields
    cases hparentFields
  rw [Function.update_of_ne hne] at hmem
  rw [Function.update_of_ne hparentNe] at hparentFields
  exact hparents mem fields parent parentFields hmem hparent hparentFields

/-- A new object whose parent, if it has one, is no sub-buffer. -/
theorem ParentsOnTop.alloc {mems : Table (Object MemFields)}
    (hparents : ParentsOnTop mems) {object : Object MemFields}
    (hcount : ∀ mem fields, mems.view Object.fields mem = some fields →
      fields.parent ≠ some mems.next)
    (hobject : ∀ parent, object.fields.parent = some parent →
      ∃ parentObject, mems.get parent = some parentObject ∧
        parentObject.fields.parent = none) :
    ParentsOnTop (mems.alloc object) := by
  intro mem fields parent parentFields hmem hparent hparentFields
  rw [Table.view_alloc] at hmem hparentFields
  by_cases hnew : mem = mems.next
  · subst mem
    rw [Function.update_self, Option.some.injEq] at hmem
    subst hmem
    obtain ⟨parentObject, hget, htop⟩ := hobject parent hparent
    have hne : parent ≠ mems.next := ne_of_lt (mems.lt_next hget)
    rw [Function.update_of_ne hne, Table.view_eq hget, Option.some.injEq] at hparentFields
    rw [← hparentFields]
    exact htop
  · rw [Function.update_of_ne hnew] at hmem
    have hne : parent ≠ mems.next := by
      rintro rfl
      exact hcount mem fields hmem hparent
    rw [Function.update_of_ne hne] at hparentFields
    exact hparents mem fields parent parentFields hmem hparent hparentFields

end Counted

section Steps

variable {strict : Prop} {session : Session}

/-- The call returns, and the accounts are right afterwards. -/
def Keeps (strict : Prop) (session : Session) (call : Call) : Prop :=
  ∃ next, session.step call = some next ∧ Accounted strict next

theorem hold_nonneg {held : ℕ → ℤ} {id : ℕ} {change : ℤ}
    (hheld : ∀ other, 0 ≤ held other) (hchange : 0 ≤ held id + change) :
    ∀ other, 0 ≤ Session.hold held id change other := by
  intro other
  unfold Session.hold
  by_cases heq : other = id
  · subst other
    rw [Function.update_self]
    exact hchange
  · rw [Function.update_of_ne heq]
    exact hheld other

theorem Accounted.start : Accounted strict Session.start := by
  refine ⟨?_, fun _ => le_refl _, fun _ => le_refl _, fun _ => le_refl _, ?_, ?_, ?_, ?_,
    ?_, ?_⟩
  · unfold Listed
    rw [visible_none]
    exact KernelLists.empty
  · exact Counts.empty
  · exact Counts.empty
  · exact Counts.empty
  · exact Counts.empty
  · intro mem fields parent parentFields hget
    cases hget
  · intro kernel fields hget
    cases hget

section Contexts

variable {context : ContextId}

theorem contextRefs_pos_of_held (hheld : 0 < session.held.contexts context) :
    0 < session.contextRefs context := by
  unfold Session.contextRefs
  omega

theorem contextRefs_pos_of_mem
    (hacc : Accounted strict session) {mem : MemId} {object : Object MemFields}
    (hget : session.state.mems.get mem = some object) :
    0 < session.contextRefs object.fields.context := by
  have hheld := hacc.held_contexts object.fields.context
  have hpos : 0 < ((session.state.mems.holders (memIn object.fields.context)).card : ℤ) :=
    Table.card_holders_pos hget (by simp [memIn])
  unfold Session.contextRefs
  omega

theorem contextRefs_pos_of_program
    (hacc : Accounted strict session) {program : ProgramId}
    {object : Object ProgramFields}
    (hget : session.state.programs.get program = some object) :
    0 < session.contextRefs object.fields.context := by
  have hheld := hacc.held_contexts object.fields.context
  have hpos : 0 <
      ((session.state.programs.holders (programIn object.fields.context)).card : ℤ) :=
    Table.card_holders_pos hget (by simp [programIn])
  unfold Session.contextRefs
  omega

theorem Accounted.createContext
    (hacc : Accounted strict session) (numDevices : ℕ) (valid : Bool) :
    Keeps strict session (.createContext numDevices valid) := by
  by_cases hvalid : numDevices = 0 ∨ valid = false
  · refine ⟨session, ?_, hacc⟩
    change Option.bind (session.state.createContext numDevices valid) _ = _
    unfold State.createContext
    rw [if_pos hvalid]
    rfl
  · refine ⟨⟨{ session.state with
        contexts := session.state.contexts.alloc (initObject ⟨numDevices⟩) },
      { session.held with
        contexts := Session.hold session.held.contexts
          session.state.contexts.next 1 }⟩, ?_, ?_⟩
    · change Option.bind (session.state.createContext numDevices valid) _ = _
      unfold State.createContext
      rw [if_neg hvalid]
      rfl
    · refine { hacc with held_contexts := ?_, contexts := ?_ }
      · refine hold_nonneg hacc.held_contexts ?_
        have hheld := hacc.held_contexts session.state.contexts.next
        omega
      · have halloc : Counts strict
            (session.state.contexts.alloc (initObject ⟨numDevices⟩)) _ :=
          hacc.contexts.alloc (le_refl _) fun _ => rfl
        refine halloc.congr fun other => ?_
        rw [hold_apply]
        unfold Session.contextRefs
        simp only [hold_apply]
        ring

theorem Accounted.retainContext
    (hacc : Accounted strict session) (hheld : 0 < session.held.contexts context) :
    Keeps strict session (.retainContext context) := by
  obtain ⟨object, hget⟩ := hacc.contexts.live (contextRefs_pos_of_held hheld)
  refine ⟨⟨{ session.state with
      contexts := session.state.contexts.modify context (Object.count 1) },
    { session.held with contexts := Session.hold session.held.contexts context 1 }⟩,
    ?_, ?_⟩
  · change Option.bind (session.state.retainContext context) _ = _
    unfold State.retainContext
    rw [retainObject_eq hget]
    rfl
  · refine { hacc with held_contexts := ?_, contexts := ?_ }
    · exact hold_nonneg hacc.held_contexts (by omega)
    · refine (hacc.contexts.retain hget).congr fun other => ?_
      rw [hold_apply]
      unfold Session.contextRefs
      simp only [hold_apply]
      ring

theorem Accounted.releaseContext
    (hacc : Accounted strict session) (hheld : 0 < session.held.contexts context) :
    Keeps strict session (.releaseContext context) := by
  have hrefs := contextRefs_pos_of_held hheld
  obtain ⟨object, hget⟩ := hacc.contexts.live hrefs
  -- What is left of the references does not depend on whether the context is freed.
  have hkeeps : ∀ contexts, Counts strict contexts
      (Session.hold session.contextRefs context (-1)) →
      Accounted strict ⟨{ session.state with contexts := contexts },
        { session.held with
          contexts := Session.hold session.held.contexts context (-1) }⟩ := by
    intro contexts hcounts
    refine { hacc with held_contexts := ?_, contexts := ?_ }
    · exact hold_nonneg hacc.held_contexts (by omega)
    · refine hcounts.congr fun other => ?_
      rw [hold_apply]
      unfold Session.contextRefs
      simp only [hold_apply]
      ring
  by_cases hzero : object.refcount - 1 = 0
  · refine ⟨_, ?_, hkeeps _ (hacc.contexts.free hget hrefs (by omega))⟩
    change Option.bind (session.state.releaseContext context) _ = _
    unfold State.releaseContext
    rw [releaseObject_eq hget]
    simp only [Option.bind_eq_bind, Option.bind_some, hzero, if_true]
  · refine ⟨_, ?_, hkeeps _ (hacc.contexts.drop hget hrefs fun _ => by omega)⟩
    change Option.bind (session.state.releaseContext context) _ = _
    unfold State.releaseContext
    rw [releaseObject_eq hget]
    simp only [Option.bind_eq_bind, Option.bind_some, hzero, if_false]

end Contexts

section MemObjects

variable {mem : MemId}

theorem memRefs_pos_of_held (hheld : 0 < session.held.mems mem) :
    0 < session.memRefs mem := by
  unfold Session.memRefs
  omega

theorem memRefs_pos_of_subBuffer
    (hacc : Accounted strict session) {sub : MemId} {object : Object MemFields}
    (hget : session.state.mems.get sub = some object)
    (hparent : object.fields.parent = some mem) : 0 < session.memRefs mem := by
  have hheld := hacc.held_mems mem
  have hpos : 0 < ((session.state.mems.holders (subBufferOf mem)).card : ℤ) :=
    Table.card_holders_pos hget (by simp [subBufferOf, hparent])
  unfold Session.memRefs
  omega

theorem Accounted.parent_ne_next
    (hacc : Accounted strict session) (sub : MemId) (fields : MemFields)
    (hsub : session.state.mems.view Object.fields sub = some fields) :
    fields.parent ≠ some session.state.mems.next := by
  intro hparent
  obtain ⟨object, hget, rfl⟩ := Option.map_eq_some_iff.mp hsub
  obtain ⟨parentObject, hparentGet⟩ :=
    hacc.mems.live (memRefs_pos_of_subBuffer hacc hget hparent)
  rw [Table.get_next] at hparentGet
  cases hparentGet

theorem Accounted.createBuffer
    (hacc : Accounted strict session) {context : ContextId} (valid : Bool)
    (allocates : ℕ → Bool) (hheld : 0 < session.held.contexts context)
    (hdevices : strict → ∀ object, session.state.contexts.get context = some object →
      valid = true → (∀ index < object.fields.numDevices, allocates index = true) →
        object.fields.numDevices ≤ 1) :
    Keeps strict session (.createBuffer context valid allocates) := by
  obtain ⟨object, hget⟩ := hacc.contexts.live (contextRefs_pos_of_held hheld)
  by_cases hvalid : valid = false
  · refine ⟨session, ?_, hacc⟩
    change Option.bind (session.state.createBuffer context valid allocates) _ = _
    unfold State.createBuffer
    simp only [Option.bind_eq_bind, hget, Option.bind_some, hvalid, if_true]
    rfl
  · cases hloop : forDevices allocates (List.range object.fields.numDevices)
        (initObject (MemFields.mk none context)) with
    | none =>
        refine ⟨session, ?_, hacc⟩
        change Option.bind (session.state.createBuffer context valid allocates) _ = _
        unfold State.createBuffer
        simp only [Option.bind_eq_bind, hget, Option.bind_some, hvalid, hloop]
        rfl
    | some buffer =>
        have hbuffer := forDevices_range hloop
        refine ⟨⟨{ session.state with
            contexts := session.state.contexts.modify context (Object.count 1)
            mems := session.state.mems.alloc buffer },
          { session.held with
            mems := Session.hold session.held.mems session.state.mems.next 1 }⟩, ?_, ?_⟩
        · change Option.bind (session.state.createBuffer context valid allocates) _ = _
          unfold State.createBuffer
          simp only [Option.bind_eq_bind, hget, Option.bind_some, hvalid, hloop,
            retainObject_eq hget]
          rfl
        · refine { hacc with
            held_mems := ?_, contexts := ?_, mems := ?_, parents := ?_ }
          · refine hold_nonneg hacc.held_mems ?_
            have hmem := hacc.held_mems session.state.mems.next
            omega
          · refine (hacc.contexts.retain hget).congr fun other => ?_
            rw [hold_apply]
            unfold Session.contextRefs
            simp only [Table.card_holders_alloc, hbuffer, memIn, Object.count, initObject,
              decide_eq_true_eq, @eq_comm _ context other]
            ring
          · have halloc : Counts strict (session.state.mems.alloc buffer)
                (Session.hold session.memRefs session.state.mems.next 1) := by
              refine hacc.mems.alloc ?_ fun hstrict => ?_
              · rw [hbuffer]
                simp [Object.count, initObject]
              · have hall : ∀ index < object.fields.numDevices, allocates index = true :=
                  fun index hlt => forDevices_succeeds hloop index (List.mem_range.mpr hlt)
                have hle := hdevices hstrict object hget
                  (Bool.eq_true_of_not_eq_false hvalid) hall
                have hzero : object.fields.numDevices - 1 = 0 := by omega
                rw [hbuffer, hzero]
                rfl
            refine halloc.congr fun other => ?_
            rw [hold_apply]
            unfold Session.memRefs
            simp only [hold_apply, Table.card_holders_alloc, hbuffer, subBufferOf,
              Object.count, initObject]
            simp only [reduceCtorEq, decide_false, Bool.false_eq_true, if_false]
            ring
          · refine hacc.parents.alloc hacc.parent_ne_next fun parent hparent => ?_
            rw [hbuffer] at hparent
            cases hparent

theorem Accounted.retainMemObject
    (hacc : Accounted strict session) (hheld : 0 < session.held.mems mem) :
    Keeps strict session (.retainMemObject mem) := by
  obtain ⟨object, hget⟩ := hacc.mems.live (memRefs_pos_of_held hheld)
  refine ⟨⟨{ session.state with
      mems := session.state.mems.modify mem (Object.count 1) },
    { session.held with mems := Session.hold session.held.mems mem 1 }⟩, ?_, ?_⟩
  · change Option.bind (session.state.retainMemObject mem) _ = _
    unfold State.retainMemObject
    rw [retainObject_eq hget]
    rfl
  · refine { hacc with held_mems := ?_, contexts := ?_, mems := ?_, parents := ?_ }
    · exact hold_nonneg hacc.held_mems (by omega)
    · refine hacc.contexts.congr fun other => ?_
      unfold Session.contextRefs
      simp only [holders_memIn_count]
    · refine (hacc.mems.retain hget).congr fun other => ?_
      rw [hold_apply]
      unfold Session.memRefs
      simp only [hold_apply, holders_subBufferOf_count]
      ring
    · exact hacc.parents.count mem 1

theorem Accounted.createSubBuffer
    (hacc : Accounted strict session) {buffer : MemId} (valid : Bool)
    (hheld : 0 < session.held.mems buffer) :
    Keeps strict session (.createSubBuffer buffer valid) := by
  obtain ⟨object, hget⟩ := hacc.mems.live (memRefs_pos_of_held hheld)
  by_cases hvalid : object.fields.parent ≠ none ∨ valid = false
  · refine ⟨session, ?_, hacc⟩
    change Option.bind (session.state.createSubBuffer buffer valid) _ = _
    unfold State.createSubBuffer
    simp only [Option.bind_eq_bind, hget, Option.bind_some]
    rw [if_pos hvalid]
    rfl
  · have htop : object.fields.parent = none := by
      by_contra hne
      exact hvalid (Or.inl hne)
    obtain ⟨contextObject, hcontext⟩ :=
      hacc.contexts.live (contextRefs_pos_of_mem hacc hget)
    let sub := initObject (MemFields.mk (some buffer) object.fields.context)
    have hbuffer : (session.state.mems.alloc sub).get buffer = some object :=
      Table.alloc_get_of_some _ sub hget
    refine ⟨⟨{ session.state with
        contexts := session.state.contexts.modify object.fields.context (Object.count 1)
        mems := (session.state.mems.alloc sub).modify buffer (Object.count 1) },
      { session.held with
        mems := Session.hold session.held.mems session.state.mems.next 1 }⟩, ?_, ?_⟩
    · change Option.bind (session.state.createSubBuffer buffer valid) _ = _
      unfold State.createSubBuffer
      simp only [Option.bind_eq_bind, hget, Option.bind_some]
      rw [if_neg hvalid, retainObject_eq hbuffer, Option.bind_some,
        retainObject_eq hcontext]
      rfl
    · refine { hacc with held_mems := ?_, contexts := ?_, mems := ?_, parents := ?_ }
      · refine hold_nonneg hacc.held_mems ?_
        have hmem := hacc.held_mems session.state.mems.next
        omega
      · refine (hacc.contexts.retain hcontext).congr fun other => ?_
        rw [hold_apply]
        unfold Session.contextRefs
        simp only [holders_memIn_count, Table.card_holders_alloc, sub, memIn, initObject,
          decide_eq_true_eq, @eq_comm _ object.fields.context other]
        ring
      · have halloc : Counts strict (session.state.mems.alloc sub)
            (Session.hold session.memRefs session.state.mems.next 1) :=
          hacc.mems.alloc (le_refl _) fun _ => rfl
        refine (halloc.retain hbuffer).congr fun other => ?_
        rw [hold_apply, hold_apply]
        unfold Session.memRefs
        simp only [hold_apply, holders_subBufferOf_count, Table.card_holders_alloc, sub,
          subBufferOf, initObject, decide_eq_true_eq, Option.some.injEq,
          @eq_comm _ buffer other]
        ring
      · refine ParentsOnTop.count _ _ ?_
        refine hacc.parents.alloc hacc.parent_ne_next fun parent hparent => ?_
        cases hparent
        exact ⟨object, hget, htop⟩

/-- The references on the objects when one that is not freed has lost one. -/
theorem Accounted.releaseMemObject_of_ne
    (hacc : Accounted strict session) (hheld : 0 < session.held.mems mem)
    {object : Object MemFields} (hget : session.state.mems.get mem = some object)
    (hcount : object.refcount - 1 ≠ 0) :
    Keeps strict session (.releaseMemObject mem) := by
  refine ⟨⟨{ session.state with
      mems := session.state.mems.modify mem (Object.count (-1)) },
    { session.held with mems := Session.hold session.held.mems mem (-1) }⟩, ?_, ?_⟩
  · change Option.bind (session.state.releaseMemObject mem) _ = _
    unfold State.releaseMemObject
    rw [releaseObject_eq hget]
    simp only [Option.bind_eq_bind, Option.bind_some, hcount, if_false]
  · refine { hacc with held_mems := ?_, contexts := ?_, mems := ?_, parents := ?_ }
    · exact hold_nonneg hacc.held_mems (by omega)
    · refine hacc.contexts.congr fun other => ?_
      unfold Session.contextRefs
      simp only [holders_memIn_count]
    · refine (hacc.mems.drop hget (memRefs_pos_of_held hheld) fun _ => ?_).congr
        fun other => ?_
      · omega
      · rw [hold_apply]
        unfold Session.memRefs
        simp only [hold_apply, holders_subBufferOf_count]
        ring
    · exact hacc.parents.count mem (-1)

/-- What is left when an object is freed. -/
theorem Accounted.freeMemObject
    (hacc : Accounted strict session) (hheld : 0 < session.held.mems mem)
    {object : Object MemFields} {mems : Table (Object MemFields)}
    {contexts : Table (Object ContextFields)}
    (hlast : mems.get mem = some ⟨0, object.fields⟩)
    (hcontexts : Counts strict contexts
      (Session.hold session.contextRefs object.fields.context (-1)))
    (hview : mems.view Object.fields = session.state.mems.view Object.fields)
    (hmems : Counts strict (mems.free mem) fun other =>
      session.memRefs other + (if other = mem then -1 else 0) +
        if object.fields.parent = some other then -1 else 0) :
    Accounted strict
      ⟨{ session.state with contexts := contexts, mems := mems.free mem },
        { session.held with mems := Session.hold session.held.mems mem (-1) }⟩ := by
  have hholders : ∀ holds : MemFields → Bool,
      mems.holders (fun object => holds object.fields) =
        session.state.mems.holders fun object => holds object.fields := by
    intro holds
    ext id
    rw [Table.mem_holders, Table.mem_holders]
    have hid := congrFun hview id
    unfold Table.view at hid
    constructor
    · rintro ⟨found, hfound, hholds⟩
      rw [hfound, Option.map_some, eq_comm, Option.map_eq_some_iff] at hid
      obtain ⟨old, hold, heq⟩ := hid
      exact ⟨old, hold, heq ▸ hholds⟩
    · rintro ⟨found, hfound, hholds⟩
      rw [hfound, Option.map_some, Option.map_eq_some_iff] at hid
      obtain ⟨new, hnew, heq⟩ := hid
      exact ⟨new, hnew, heq ▸ hholds⟩
  refine { hacc with held_mems := ?_, contexts := ?_, mems := ?_, parents := ?_ }
  · exact hold_nonneg hacc.held_mems (by omega)
  · refine hcontexts.congr fun other => ?_
    have hsame : mems.holders (memIn other) = session.state.mems.holders (memIn other) :=
      hholders fun fields => decide (fields.context = other)
    rw [hold_apply]
    unfold Session.contextRefs
    simp only [Table.card_holders_free hlast, hsame, memIn, decide_eq_true_eq,
      @eq_comm _ object.fields.context other]
    split
    · ring
    · ring
  · refine hmems.congr fun other => ?_
    have hsame : mems.holders (subBufferOf other) =
        session.state.mems.holders (subBufferOf other) :=
      hholders fun fields => decide (fields.parent = some other)
    unfold Session.memRefs
    simp only [hold_apply, Table.card_holders_free hlast, hsame, subBufferOf,
      decide_eq_true_eq]
    by_cases hparent : object.fields.parent = some other
    · rw [if_pos hparent, if_pos hparent]
      ring
    · rw [if_neg hparent, if_neg hparent]
      ring
  · refine ParentsOnTop.free mem ?_
    unfold ParentsOnTop
    rw [hview]
    exact hacc.parents

theorem Accounted.releaseMemObject
    (hacc : Accounted strict session) (hheld : 0 < session.held.mems mem)
    (hstrict : strict → ∀ object, session.state.mems.get mem = some object →
      object.refcount = 1 →
        (∀ context, session.state.contexts.get object.fields.context = some context →
          context.refcount ≠ 1) ∧
        ∀ parent parentObject, object.fields.parent = some parent →
          session.state.mems.get parent = some parentObject →
            parentObject.refcount ≠ 1) :
    Keeps strict session (.releaseMemObject mem) := by
  have hrefs := memRefs_pos_of_held hheld
  obtain ⟨object, hget⟩ := hacc.mems.live hrefs
  by_cases hcount : object.refcount - 1 = 0
  · have hone : object.refcount = 1 := by omega
    have hcontextRefs := contextRefs_pos_of_mem hacc hget
    obtain ⟨context, hcontext⟩ := hacc.contexts.live hcontextRefs
    have hcontexts := hacc.contexts.drop hcontext hcontextRefs fun hs =>
      (hstrict hs object hget hone).1 context hcontext
    have hcounted := session.state.mems.modify_get_self (Object.count (-1)) hget
    have hzero : Object.count (-1) object = ⟨0, object.fields⟩ := by
      unfold Object.count
      rw [hone]
      rfl
    rw [hzero] at hcounted
    have hview : (session.state.mems.modify mem (Object.count (-1))).view Object.fields =
        session.state.mems.view Object.fields := Table.view_modify_same mem fun _ => rfl
    cases hparent : object.fields.parent with
    | none =>
        have hmems := hacc.mems.free hget hrefs hone
        refine ⟨_, ?_, hacc.freeMemObject hheld hcounted hcontexts hview
          (hmems.congr fun other => ?_)⟩
        · change Option.bind (session.state.releaseMemObject mem) _ = _
          unfold State.releaseMemObject
          rw [releaseObject_eq hget]
          simp only [Option.bind_eq_bind, Option.bind_some, hcount, if_true, hcounted,
            releaseParent, hparent, hcontext, releaseObject_eq hcontext]
        · simp only [hold_apply, hparent, reduceCtorEq, if_false, add_zero]
    | some parent =>
        have hparentRefs := memRefs_pos_of_subBuffer hacc hget hparent
        obtain ⟨parentObject, hparentGet⟩ := hacc.mems.live hparentRefs
        have hne : parent ≠ mem := by
          rintro rfl
          have htop := hacc.parents parent object.fields parent object.fields
            (Table.view_eq hget) hparent (Table.view_eq hget)
          rw [hparent] at htop
          cases htop
        have hparentCounted :
            (session.state.mems.modify mem (Object.count (-1))).get parent =
              some parentObject := by
          rw [Table.modify_get_of_ne _ _ hne, hparentGet]
        have hdrop := hacc.mems.drop hparentGet hparentRefs fun hs =>
          (hstrict hs object hget hone).2 parent parentObject hparent hparentGet
        have hmemGet :
            (session.state.mems.modify parent (Object.count (-1))).get mem =
              some object := by
          rw [Table.modify_get_of_ne _ _ hne.symm, hget]
        have hrefsAfter : 0 < Session.hold session.memRefs parent (-1) mem := by
          rw [hold_apply, if_neg hne.symm, add_zero]
          exact hrefs
        have hmems := hdrop.free hmemGet hrefsAfter hone
        rw [Table.modify_modify_of_ne _ hne] at hmems
        have hlast : ((session.state.mems.modify mem (Object.count (-1))).modify parent
            (Object.count (-1))).get mem = some ⟨0, object.fields⟩ := by
          rw [Table.modify_get_of_ne _ _ hne.symm, hcounted]
        have hviewBoth : ((session.state.mems.modify mem (Object.count (-1))).modify parent
            (Object.count (-1))).view Object.fields =
              session.state.mems.view Object.fields := by
          rw [← hview]
          exact Table.view_modify_same parent fun _ => rfl
        refine ⟨_, ?_, hacc.freeMemObject hheld hlast hcontexts hviewBoth
          (hmems.congr fun other => ?_)⟩
        · change Option.bind (session.state.releaseMemObject mem) _ = _
          unfold State.releaseMemObject
          rw [releaseObject_eq hget]
          simp only [Option.bind_eq_bind, Option.bind_some, hcount, if_true, hcounted,
            releaseParent, hparent, releaseObject_eq hparentCounted,
            releaseObject_eq hcontext]
        · rw [hold_apply, hold_apply, hparent]
          simp only [Option.some.injEq, @eq_comm _ parent other]
          ring
  · exact hacc.releaseMemObject_of_ne hheld hget hcount

end MemObjects

end Steps

end RuntimeObjects

end Pocl
