import Pocl.MapRecords
import Pocl.BufferReferences

/-!
# The books of maps

A memory object counts its maps, keeps a record of each and gets a reference for
it.  The record and the reference are made by `clEnqueueMapBuffer`, the count is
raised when the command is executed, and `clEnqueueUnmapMemObject` takes all three
back.
-/

namespace Pocl

namespace CommandQueue

open State

/-- A map call gets as far as its retain, and then it fails. -/
def mapLeaks (buffer : MemObject) (args : BufferMap) : Prop :=
  buffer.sameContext = true ∧ ¬buffer.size < args.offset + args.size ∧
    mapForbidden buffer.flags args = false ∧
    ((args.event = true ∧ args.alloc.event = false) ∨ args.alloc.mapping = false ∨
      mapHostPtr buffer args = 0 ∨ (args.blocking = false ∧ args.alloc.node = false))

instance (buffer : MemObject) (args : BufferMap) : Decidable (mapLeaks buffer args) :=
  inferInstanceAs (Decidable (_ ∧ _ ∧ _ ∧ _))

/-- Maps, unmaps, sub-buffers and flushes. -/
def MapsBuffers : Call → Prop
  | .mapBuffer _ | .unmapMemObject _ | .createSubBuffer _ | .finish => True
  | _ => False

/-- Maps that do not fail behind their retain and that the count has room for,
unmaps of executed maps, sub-buffers whose record was zero, and flushes. -/
def BooksMaps (session : Session) : Call → Prop
  | .mapBuffer args =>
      ∀ buffer, session.state.mem args.buffer = some buffer →
        ¬mapLeaks buffer args ∧ buffer.mappings.length + 1 < 2 ^ 32
  | .unmapMemObject args =>
      ∀ mapping,
        (session.state.mappingsOf args.mem).find?
          (fun mapping => mapping.hostPtr = args.mappedPtr) = some mapping →
        ∀ node ∈ session.state.root, node.command ≠ .map args.mem mapping
  | .createSubBuffer args => args.uninitialised = 0
  | .finish => True
  | _ => False

/-- The count of maps is the number of maps that have been executed and not
unmapped, there is a record for each successful map that has not been unmapped, and
each record holds a reference beside those of the client and of the sub-buffers.  A
map that fails changes no object. -/
structure MapsBooked (env : Env) (session : Session) : Prop where
  mapCount_eq : ∀ mem object, session.state.mem mem = some object →
    object.mapCount.toNat = (session.state.mapsThat .executed mem).card
  mappings_length : ∀ mem object, session.state.mem mem = some object →
    object.mappings.length = (session.state.mapsThat .mapped mem).card
  refcount_eq : ∀ mem object, session.state.mem mem = some object →
    object.refcount = session.user.mem mem + (session.state.subBuffers mem).card +
      object.mappings.length
  failed : ∀ args code next, BooksMaps session (.mapBuffer args) →
    session.step env (.mapBuffer args) = some (code, next) → code ≠ .success →
      next.state.mem = session.state.mem

variable {env : Env} {state : State} {session : Session} {nodes : List Node}
  {refs : MemId → ℤ} {next : MemId}

section Calls

theorem queryMap_sameMaps (env : Env) (args : BufferMap) (buffer : MemObject) (call : ℕ)
    (state : State) : SameMaps state (state.queryMap env args buffer call) := by
  unfold State.queryMap
  split_ifs
  · exact ⟨rfl, rfl, rfl, rfl, rfl⟩
  · exact ⟨rfl, rfl, rfl, rfl, rfl⟩

theorem invokeUnmap_sameMaps (env : Env) (object : MemObject) (mapping : Mapping)
    (call : ℕ) (state : State) :
    SameMaps state (state.invokeUnmap env object mapping call) := by
  unfold State.invokeUnmap
  split_ifs
  · exact ⟨rfl, rfl, rfl, rfl, rfl⟩
  · exact ⟨rfl, rfl, rfl, rfl, rfl⟩

/-- The command of a map that has a record is queued or executed. -/
theorem Booked.enqueueMapping
    {args : BufferMap} {call : ℕ} {event : Option EventId} {mapping : Mapping}
    (hbooked : Booked refs next
      (state.root ++ [⟨call, event, .map args.buffer mapping⟩])
      (some (args.buffer, mapping.id)) state)
    (halloc : args.blocking = false → args.alloc.node = true) :
    Meets True (state.enqueueMapping env args call event mapping) fun result =>
      Booked refs next result.2.root none result.2 ∧ result.1 = .success := by
  unfold State.enqueueMapping
  refine Meets.cond (fun hqueued => ?_) fun _ => ?_
  · refine Meets.cond (fun hfails => ?_) fun _ => .ret ⟨?_, rfl⟩
    · have hblocking : args.blocking = false := by simpa using hqueued
      rw [halloc hblocking] at hfails
      cases hfails
    · exact hbooked.logMapped.setRoot _
  · refine hbooked.finish.seq fun flushed ⟨hflushed, hempty⟩ => ?_
    -- A blocking map does what its command would do behind the others.
    have hrun : Meets True
        ((flushed.start event >>= fun started =>
          started.mapMemCmd env call args.buffer mapping >>= fun mapped =>
            mapped.setStatus event .complete) >>= fun completed =>
              pure (ClCode.success, completed.logMapped args.buffer mapping))
        fun result => Booked refs next result.2.root none result.2 ∧
          result.1 = .success := by
      refine (hflushed.executeMap rfl).seq fun completed ⟨hcompleted, hroot⟩ =>
        .ret ⟨?_, rfl⟩
      change Booked refs next completed.root none _
      rw [hroot, hempty]
      exact hcompleted.logMapped
    simp only [bind_assoc] at hrun
    exact hrun

theorem Booked.enqueueMapBuffer
    {args : BufferMap} (hbooked : Booked refs next state.root none state)
    (hcall : ∀ buffer, state.mem args.buffer = some buffer →
      ¬mapLeaks buffer args ∧ buffer.mappings.length + 1 < 2 ^ 32) :
    Meets True (state.enqueueMapBuffer env args) fun result =>
      Booked refs next result.2.root none result.2 ∧
        (result.1 ≠ .success → result.2.mem = state.mem) := by
  have hcounted : Booked refs next state.root none state.countCall :=
    hbooked.congr ⟨rfl, rfl, rfl, rfl, rfl⟩
  refine Meets.seq (.of_forall fun _ h => h) fun _ _ => ?_
  refine Meets.seq (.of_forall fun _ h => h) fun buffer hbuffer => ?_
  obtain ⟨hwhole, hlength⟩ := hcall buffer hbuffer
  refine Meets.cond (fun _ => .ret ⟨hcounted, fun _ => rfl⟩) fun hcontext => ?_
  refine Meets.cond (fun _ => .ret ⟨hcounted, fun _ => rfl⟩) fun hsize => ?_
  refine Meets.cond (fun _ => .ret ⟨hcounted, fun _ => rfl⟩) fun hforbidden => ?_
  -- The call has passed its checks, so that it does not fail any more.
  have hsuccess : ¬((args.event = true ∧ args.alloc.event = false) ∨
      args.alloc.mapping = false ∨ mapHostPtr buffer args = 0 ∨
      (args.blocking = false ∧ args.alloc.node = false)) := by
    intro hfails
    exact hwhole ⟨by simpa using hcontext, hsize, by simpa using hforbidden, hfails⟩
  simp only [not_or, not_and, Bool.not_eq_false] at hsuccess
  obtain ⟨hevent, hmapping, hpointer, hnode⟩ := hsuccess
  refine hcounted.retainMem.seq
    fun held ⟨hheld, hheldRoot, hheldNext, hheldMappings⟩ => ?_
  refine Meets.cond (fun hfails => ?_) fun _ => ?_
  · rw [Bool.and_eq_true, Bool.not_eq_true'] at hfails
    rw [hevent hfails.1] at hfails
    cases hfails.2
  refine Meets.seq (.of_forall fun _ h => requestEvent_sameMaps h)
    fun ⟨event, requested⟩ hrequested => ?_
  refine Meets.cond (fun hfails => ?_) fun _ => ?_
  · rw [hmapping] at hfails
    cases hfails
  refine Meets.cond (fun hfails => absurd hfails hpointer) fun _ => ?_
  have hqueried := queryMap_sameMaps env args buffer state.calls requested
  have hqueriedBooked := (hheld.congr hrequested).congr hqueried
  have hrecords : (requested.queryMap env args buffer state.calls).mappingsOf
      args.buffer = buffer.mappings := by
    rw [hqueried.mappingsOf_eq, hrequested.mappingsOf_eq, hheldMappings]
    exact mappingsOf_eq hbuffer
  have hroot : (requested.queryMap env args buffer state.calls).root = state.root := by
    rw [hqueried.root_eq, hrequested.root_eq, hheldRoot]
    rfl
  have hcommand : ∀ mapping, (Node.mk state.calls event (.map args.buffer mapping)).command =
      .map args.buffer mapping := fun _ => rfl
  refine (hqueriedBooked.addMapping hbooked.refs_nonneg rfl
    (by rw [hrecords]; exact hlength) (hcommand _)).seq
      fun recorded ⟨hrecorded, hrecordedRoot⟩ => ?_
  rw [← hroot, ← hrecordedRoot] at hrecorded
  refine (hrecorded.enqueueMapping hnode).mono fun result ⟨hresult, hcode⟩ =>
    ⟨hresult, fun hnot => absurd hcode hnot⟩

theorem Booked.enqueueUnmapMemObject
    {args : Unmap} (hbooked : Booked refs next state.root none state)
    (hcall : ∀ mapping,
      (state.mappingsOf args.mem).find?
        (fun mapping => mapping.hostPtr = args.mappedPtr) = some mapping →
      ∀ node ∈ state.root, node.command ≠ .map args.mem mapping) :
    Meets True (state.enqueueUnmapMemObject env args) fun result =>
      Booked refs next result.2.root none result.2 := by
  have hcounted : Booked refs next state.root none state.countCall :=
    hbooked.congr ⟨rfl, rfl, rfl, rfl, rfl⟩
  refine Meets.seq (.of_forall fun _ h => h) fun _ _ => ?_
  refine Meets.seq (.of_forall fun _ h => h) fun object hobject => ?_
  refine Meets.cond (fun _ => .ret hcounted) fun _ => ?_
  have hrecords : state.mappingsOf args.mem = object.mappings := mappingsOf_eq hobject
  rw [hrecords] at hcall
  cases hfind : object.mappings.find?
      (fun mapping => mapping.hostPtr = args.mappedPtr) with
  | none => exact .ret hcounted
  | some mapping =>
      refine Meets.cond (fun _ => .ret hcounted) fun _ => ?_
      refine Meets.seq (.of_forall fun _ h => requestEvent_sameMaps h)
        fun ⟨event, requested⟩ hrequested => ?_
      refine Meets.seq (.of_forall fun _ h => (start_statusOnly h).sameMaps)
        fun started hstarted => ?_
      have hinvoked := invokeUnmap_sameMaps env object mapping state.calls started
      refine Meets.seq (.of_forall fun _ h => (setStatus_statusOnly h).sameMaps)
        fun completed hcompleted => ?_
      have hcompletedBooked :=
        (((hcounted.congr hrequested).congr hstarted).congr hinvoked).congr hcompleted
      have hfound : completed.mem args.mem = some object := by
        rw [hcompleted.mem_eq, hinvoked.mem_eq, hstarted.mem_eq, hrequested.mem_eq]
        exact hobject
      have hroot : completed.root = state.root := by
        rw [hcompleted.root_eq, hinvoked.root_eq, hstarted.root_eq, hrequested.root_eq]
        rfl
      refine (hcompletedBooked.removeMapping hfound (List.mem_of_find?_eq_some hfind)
        (hcall mapping hfind)).seq fun removed ⟨hremoved, hremovedRoot⟩ => ?_
      refine (hremoved.releaseMem hbooked.refs_nonneg).seq
        fun released ⟨hreleased, hreleasedRoot⟩ => .ret ?_
      change Booked refs next released.root none released
      rw [hreleasedRoot, hremovedRoot, hroot]
      exact hreleased

/-- A new sub-buffer has no maps, and the client has a reference on it. -/
theorem Booked.createSubBuffer
    {args : SubBuffer} (hbooked : Booked refs next state.root none state)
    (hcall : args.uninitialised = 0) :
    Meets True (state.createSubBuffer args) fun result =>
      Booked refs next result.2.root none result.2 ∨
        Booked (Function.update refs next 1) (next + 1) result.2.root none result.2 := by
  refine Meets.seq (.of_forall fun _ h => h) fun object hobject => ?_
  refine Meets.cond (fun _ => .ret (.inl hbooked)) fun _ => ?_
  obtain ⟨parents, hcounted⟩ := hbooked.counted
  have hnext := hbooked.nextMem_eq
  have hlt := hcounted.mem_lt args.buffer (by rw [hobject]; rfl)
  have hnone : state.mem next = none := by
    cases hfound : state.mem next with
    | none => rfl
    | some found =>
        have hbelow := hcounted.mem_lt next (by rw [hfound]; rfl)
        rw [hnext] at hbelow
        exact absurd hbelow (lt_irrefl _)
  have hempty : state.mappingsOf next = [] := by
    simp [State.mappingsOf, hnone]
  have hadded : (state.addMem (subBuffer args object)).mem args.buffer = some object := by
    simp [addMem, setMem, ne_of_lt hlt, hobject]
  refine .of_eq_some (Option.bind_eq_some_iff.mpr
    ⟨_, retainMem_eq_some.mpr ⟨object, hadded, rfl⟩, rfl⟩) (.inr ?_)
  have hnew : Counted _ _ _ ((state.addMem (subBuffer args object)).setMem args.buffer
      (some { object with refcount := object.refcount + 1 })) :=
    hcounted.addSubBuffer hobject rfl rfl rfl
  have hmappings : ((state.addMem (subBuffer args object)).setMem args.buffer
      (some { object with refcount := object.refcount + 1 })).mappingsOf =
        state.mappingsOf := by
    have hsame : ((state.addMem (subBuffer args object)).setMem args.buffer
        (some { object with refcount := object.refcount + 1 })).mappingsOf =
          (state.addMem (subBuffer args object)).mappingsOf :=
      mappingsOf_setMem_same hadded rfl
    rw [hsame]
    change (state.setMem state.nextMem _).mappingsOf = _
    rw [mappingsOf_setMem, hnext]
    change Function.update state.mappingsOf next [] = _
    rw [← hempty, Function.update_eq_self]
  rw [hnext, ← hempty, Function.update_eq_self] at hnew
  refine ⟨hbooked.maps.congr hmappings (fun mem found hfound => ?_) rfl rfl,
    ⟨Function.update parents next (some args.buffer), ?_⟩, fun mem => ?_,
    congrArg (· + 1) hnext⟩
  · by_cases heq : mem = next
    · subst mem
      have hcard : (state.mapsThat .executed next).card = 0 := by
        have hle := card_le_length (hbooked.maps.executed next)
        rw [hempty] at hle
        exact Nat.le_zero.mp hle
      have hne : next ≠ args.buffer := by
        rw [← hnext]
        exact ne_of_gt hlt
      simp only [State.setMem, addMem, hnext, Function.update_of_ne hne,
        Function.update_self, Option.some.injEq] at hfound
      subst found
      rw [hcard]
      change args.uninitialised.toNat = 0
      rw [hcall]
      rfl
    · by_cases hthis : mem = args.buffer
      · subst mem
        simp only [State.setMem, Function.update_self, Option.some.injEq] at hfound
        subst found
        exact hbooked.maps.mapCount_eq args.buffer object hobject
      · simp only [State.setMem, addMem, hnext, Function.update_of_ne heq,
          Function.update_of_ne hthis] at hfound
        exact hbooked.maps.mapCount_eq mem found hfound
  · rw [hmappings]
    refine hnew.congr_refs fun mem => ?_
    by_cases heq : mem = next
    · subst mem
      simp [hempty]
    · simp [heq]
  · by_cases heq : mem = next
    · subst mem
      simp
    · simpa [heq] using hbooked.refs_nonneg mem

end Calls

section Runs

/-- The books of a session. -/
def Session.Booked (session : Session) : Prop :=
  CommandQueue.Booked session.user.mem session.state.nextMem session.state.root none
    session.state

/-- A call that makes no memory object. -/
theorem Booked.credited
    {call : Call} {result : ClCode × State}
    (hbook : (session.user.book call).mem = session.user.mem)
    (hbooked : CommandQueue.Booked session.user.mem session.state.nextMem result.2.root
      none result.2) :
    (Session.mk result.2
      ((session.user.book call).credit session.state result.2)).Booked := by
  have hnext := hbooked.nextMem_eq
  have huser : ((session.user.book call).credit session.state result.2).mem =
      session.user.mem := by
    simp [Ledger.credit, hnext, hbook]
  unfold Session.Booked
  change CommandQueue.Booked ((session.user.book call).credit session.state result.2).mem
    result.2.nextMem result.2.root none result.2
  rw [huser, hnext]
  exact hbooked

theorem Session.Booked.step
    {call : Call} (hbooked : session.Booked) (hcall : BooksMaps session call) :
    Meets True (session.step env call) fun result => result.2.Booked := by
  have hperform : Meets True (session.state.perform env call) (fun result =>
      (Session.mk result.2
        ((session.user.book call).credit session.state result.2)).Booked) := by
    cases call with
    | mapBuffer args =>
        exact (CommandQueue.Booked.enqueueMapBuffer hbooked hcall).mono
          fun _ hresult => hresult.1.credited rfl
    | unmapMemObject args =>
        exact (CommandQueue.Booked.enqueueUnmapMemObject hbooked hcall).mono
          fun _ hresult => hresult.credited rfl
    | createSubBuffer args =>
        refine (CommandQueue.Booked.createSubBuffer hbooked hcall).mono
          fun result hresult => ?_
        rcases hresult with hsame | hadded
        · exact hsame.credited rfl
        · have hnext := hadded.nextMem_eq
          have huser : ((session.user.book (.createSubBuffer args)).credit session.state
              result.2).mem = Function.update session.user.mem session.state.nextMem 1 := by
            simp [Ledger.credit, Ledger.book, hnext]
          unfold Session.Booked
          change CommandQueue.Booked ((session.user.book (.createSubBuffer args)).credit
            session.state result.2).mem result.2.nextMem result.2.root none result.2
          rw [huser, hnext]
          exact hadded
    | finish =>
        have hroot : CommandQueue.Booked session.user.mem session.state.nextMem
            (session.state.root ++ []) none session.state := by
          rw [List.append_nil]
          exact hbooked
        refine .map (hroot.finish.mono fun after hfinished => ?_)
        obtain ⟨hafter, hempty⟩ := hfinished
        have hresult : CommandQueue.Booked session.user.mem session.state.nextMem
            (succeed after).2.root none (succeed after).2 := by
          change CommandQueue.Booked _ _ after.root none after
          rw [hempty]
          exact hafter
        exact hresult.credited rfl
    | _ => exact False.elim hcall
  exact hperform.seq fun _ hafter => hafter

/-- A client before its first map. -/
structure Session.Unmapped (session : Session) : Prop where
  fresh : session.Fresh
  mapCount_eq : ∀ mem object, session.state.mem mem = some object →
    object.mapCount = 0
  mapLog_eq : session.state.mapLog = []

theorem Session.Unmapped.booked (hunmapped : session.Unmapped) : session.Booked := by
  have hfresh := hunmapped.fresh
  have hmappings : session.state.mappingsOf = fun _ => [] := by
    funext mem
    cases hobject : session.state.mem mem with
    | none => simp [State.mappingsOf, hobject]
    | some object =>
        rw [mappingsOf_eq hobject]
        exact (hfresh.mem_plain mem object hobject).2.1
  have hthat : ∀ kind, session.state.mapsThat kind = fun _ => ∅ := by
    intro kind
    funext mem
    ext id
    simp [mem_mapsThat, hunmapped.mapLog_eq]
  unfold Session.Booked
  rw [hfresh.root_eq]
  refine ⟨⟨by simp, List.Pairwise.nil, ?_, ?_, ?_, ?_, ?_, ?_, ?_, ?_, ?_⟩, ⟨fun _ => none, ?_⟩,
    hfresh.mem_nonneg, rfl⟩
  · simp [hthat]
  · simp [hmappings]
  · simp [hthat, hmappings]
  · intro mem object hobject
    rw [hthat, hunmapped.mapCount_eq mem object hobject]
    rfl
  · simp [hmappings]
  · simp [hmappings]
  · simp [hunmapped.mapLog_eq]
  · simp [hmappings]
  · simp [hmappings]
  · have hcounted := hfresh.pending.counted
    rw [hfresh.root_eq] at hcounted
    rw [hmappings]
    exact hcounted.congr_refs fun mem => by simp [holds, Session.books]

/-- In every run of maps, unmaps and flushes whose maps do not fail behind their
retain and are unmapped behind their execution, the books of the maps are right. -/
theorem reaches_mapsBooked
    {first session : Session} (hunmapped : first.Unmapped)
    (hreaches : Reaches env BooksMaps first session) : MapsBooked env session := by
  have hbooked : session.Booked :=
    Reaches.invariant Session.Booked hunmapped.booked
      (fun _ _ _ _ hsession hcall hstep =>
        Meets.iff_forall.mp (hsession.step hcall) _ hstep) hreaches
  have hmaps := hbooked.maps
  obtain ⟨parents, hcounted⟩ := hbooked.counted
  refine ⟨hmaps.mapCount_eq, fun mem object hobject => ?_, fun mem object hobject => ?_,
    fun args code next hcall hstep hcode => ?_⟩
  · have hids : session.state.mapsThat .mapped mem =
        (object.mappings.map Mapping.id).toFinset := by
      ext id
      have hmapped := hmaps.mapped mem id
      rw [mappingsOf_eq hobject] at hmapped
      rw [List.mem_toFinset, List.mem_map, ← hmapped]
      simp
    have hnodup := hmaps.ids_nodup mem
    rw [mappingsOf_eq hobject] at hnodup
    rw [hids, List.toFinset_card_of_nodup hnodup, List.length_map]
  · have hcount := hcounted.refcount_eq mem object hobject
    rw [mappingsOf_eq hobject] at hcount
    omega
  · obtain ⟨⟨result, after⟩, hperform, hnext⟩ := Option.bind_eq_some_iff.mp hstep
    cases hnext
    exact (Meets.iff_forall.mp (CommandQueue.Booked.enqueueMapBuffer hbooked hcall) _
      hperform).2 hcode

end Runs

section Example

/-- The second half of the first buffer. -/
def secondHalf : SubBuffer := ⟨0, 32, 32, true, 0⟩

theorem opening_unmapped : (Session.opening [.plain] []).Unmapped where
  fresh := Session.opening_fresh (by simp [MemObject.plain]) (by simp)
  mapCount_eq := fun mem object hobject => by
    have hmember := List.mem_of_getElem? hobject
    rw [List.mem_singleton] at hmember
    subst object
    rfl
  mapLog_eq := rfl

/-- The calls that keep the books and that the runs below make. -/
def keepsBooks (session : Session) : Call → Bool
  | .mapBuffer args =>
      match session.state.mem args.buffer with
      | none => false
      | some buffer => ¬mapLeaks buffer args ∧ buffer.mappings.length + 1 < 2 ^ 32
  | .createSubBuffer args => args.uninitialised = 0
  | .finish => true
  | _ => false

theorem booksMaps_of_keepsBooks
    (session : Session) (call : Call) (hkeeps : keepsBooks session call = true) :
    BooksMaps session call := by
  cases call with
  | mapBuffer args =>
      intro buffer hbuffer
      simp only [keepsBooks, hbuffer] at hkeeps
      exact of_decide_eq_true hkeeps
  | createSubBuffer args =>
      have hzero : args.uninitialised = 0 := of_decide_eq_true hkeeps
      exact hzero
  | finish => trivial
  | _ => cases hkeeps

/-- A buffer and a sub-buffer are mapped, and only one of the maps is executed. -/
theorem mappedHalf_mapsBooked :
    ∃ session, Reaches singleCpu BooksMaps (.opening [.plain] []) session ∧
      (session.state.mapsThat .executed 1).card = 1 ∧ session.state.root.length = 1 ∧
      MapsBooked singleCpu session := by
  obtain ⟨session, hreaches, htest⟩ := Reaches.exists_of_runIf singleCpu BooksMaps
    keepsBooks booksMaps_of_keepsBooks (.opening [.plain] [])
    [.createSubBuffer secondHalf, .mapBuffer { firstMap false with buffer := 1 }, .finish,
      .mapBuffer (firstMap false)]
    (fun session => (session.state.mapsThat .executed 1).card = 1 ∧
      session.state.root.length = 1)
    (by decide +kernel)
  obtain ⟨hcard, hroot⟩ := of_decide_eq_true htest
  exact ⟨session, hreaches, hcard, hroot, reaches_mapsBooked opening_unmapped hreaches⟩

/-- A map is unmapped while its command is in the queue. -/
theorem unmappedEarly_not_mapsBooked :
    ∃ session, Reaches singleCpu (fun _ call => MapsBuffers call) (.opening [.plain] [])
        session ∧ ¬MapsBooked singleCpu session := by
  obtain ⟨session, hreaches, htest⟩ := Reaches.exists_of_runIf singleCpu
    (fun _ call => MapsBuffers call)
    (fun _ call =>
      match call with
      | .mapBuffer _ | .unmapMemObject _ => true
      | _ => false)
    (fun session call hpermitted => by
      cases call with
      | mapBuffer args => trivial
      | unmapMemObject args => trivial
      | _ => cases hpermitted)
    (.opening [.plain] [])
    [.mapBuffer (firstMap false), .unmapMemObject ⟨0, 65536, false, .all⟩]
    (fun session => ((session.state.mem 0).map fun object => object.mapCount) =
      some (2 ^ 32 - 1) ∧ (session.state.mapsThat .executed 0).card = 0)
    (by decide +kernel)
  obtain ⟨hcount, hcard⟩ := of_decide_eq_true htest
  refine ⟨session, hreaches, fun hbooked => ?_⟩
  obtain ⟨object, hobject, hmapCount⟩ := Option.map_eq_some_iff.mp hcount
  have hwrong := hbooked.mapCount_eq 0 object hobject
  rw [hmapCount, hcard] at hwrong
  exact absurd hwrong (by decide)

end Example

end CommandQueue

end Pocl
