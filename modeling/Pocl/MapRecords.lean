import Pocl.MemReferences

/-!
# The records of maps

A map that has been enqueued is in the queue or has been executed, and it has a
record until it is unmapped.  The functions that execute, record and remove a map
keep this, together with the references on the objects.
-/

namespace Pocl

namespace CommandQueue

open State

/-- The number of the mapping. -/
def MapEvent.id : MapEvent → ℕ
  | .mapped _ mapping | .executed _ mapping | .unmapped _ mapping => mapping

/-- The maps of an object to which the given thing has happened and which have not
been unmapped. -/
def State.mapsThat (state : State) (kind : MemId → ℕ → MapEvent) (mem : MemId) :
    Finset ℕ :=
  (Finset.range state.nextMapping).filter fun id =>
    kind mem id ∈ state.mapLog ∧ MapEvent.unmapped mem id ∉ state.mapLog

/-- The maps between two statements of a call: the commands that are still to be
executed, and the map whose call has not yet returned. -/
structure MapInvariant (nodes : List Node) (unlogged : Option (MemId × ℕ))
    (state : State) : Prop where
  node_map : ∀ node ∈ nodes, ∃ buffer mapping, node.command = .map buffer mapping ∧
    mapping ∈ state.mappingsOf buffer ∧ mapping.id ∉ state.mapsThat .executed buffer
  distinct : nodes.Pairwise fun first second => ∀ buffer mapping other,
    first.command = .map buffer mapping → second.command = .map buffer other →
      mapping.id ≠ other.id
  executed : ∀ mem, ∀ id ∈ state.mapsThat .executed mem,
    ∃ mapping ∈ state.mappingsOf mem, mapping.id = id
  complete : ∀ mem, ∀ mapping ∈ state.mappingsOf mem,
    mapping.id ∈ state.mapsThat .executed mem ∨
      ∃ node ∈ nodes, node.command = .map mem mapping
  mapped : ∀ mem id, (id ∈ state.mapsThat .mapped mem ∨ unlogged = some (mem, id)) ↔
    ∃ mapping ∈ state.mappingsOf mem, mapping.id = id
  mapCount_eq : ∀ mem object, state.mem mem = some object →
    object.mapCount.toNat = (state.mapsThat .executed mem).card
  ids_nodup : ∀ mem, ((state.mappingsOf mem).map Mapping.id).Nodup
  ids_lt : ∀ mem, ∀ mapping ∈ state.mappingsOf mem, mapping.id < state.nextMapping
  log_lt : ∀ event ∈ state.mapLog, event.id < state.nextMapping
  not_unmapped : ∀ mem, ∀ mapping ∈ state.mappingsOf mem,
    MapEvent.unmapped mem mapping.id ∉ state.mapLog
  length_lt : ∀ mem, (state.mappingsOf mem).length < 2 ^ 32

/-- The maps with the references on the objects. -/
structure Booked (refs : MemId → ℤ) (next : MemId) (nodes : List Node)
    (unlogged : Option (MemId × ℕ)) (state : State) : Prop where
  maps : MapInvariant nodes unlogged state
  counted : ∃ parents, Counted
    (fun mem => refs mem + (state.mappingsOf mem).length) parents state.mappingsOf state
  refs_nonneg : ∀ mem, 0 ≤ refs mem
  nextMem_eq : state.nextMem = next

/-- Nothing that the books speak about has changed. -/
structure SameMaps (before after : State) : Prop where
  mem_eq : after.mem = before.mem
  nextMem_eq : after.nextMem = before.nextMem
  root_eq : after.root = before.root
  mapLog_eq : after.mapLog = before.mapLog
  nextMapping_eq : after.nextMapping = before.nextMapping

variable {env : Env} {state after : State} {nodes : List Node} {node : Node}
  {unlogged : Option (MemId × ℕ)} {refs : MemId → ℤ} {next : MemId}

section Frames

theorem mem_mapsThat {kind : MemId → ℕ → MapEvent} {mem : MemId} {id : ℕ} :
    id ∈ state.mapsThat kind mem ↔ id < state.nextMapping ∧
      kind mem id ∈ state.mapLog ∧ MapEvent.unmapped mem id ∉ state.mapLog := by
  unfold State.mapsThat
  rw [Finset.mem_filter, Finset.mem_range]

theorem SameMaps.mappingsOf_eq (hsame : SameMaps state after) :
    after.mappingsOf = state.mappingsOf := by
  funext mem
  unfold State.mappingsOf
  rw [hsame.mem_eq]

theorem mappingsOf_eq {mem : MemId} {object : MemObject}
    (hobject : state.mem mem = some object) :
    state.mappingsOf mem = object.mappings := by
  simp [State.mappingsOf, hobject]

theorem mappingsOf_of_update
    {mem : MemId} {new : MemObject} (hmem : after.mem = Function.update state.mem mem (some new)) :
    after.mappingsOf = Function.update state.mappingsOf mem new.mappings := by
  funext other
  by_cases heq : other = mem
  · subst other
    simp [State.mappingsOf, hmem]
  · simp [State.mappingsOf, hmem, heq]

theorem forall_mappingsOf_update
    (property : List Mapping → Prop) {mem : MemId} {mappings : List Mapping}
    (hmappings : after.mappingsOf = Function.update state.mappingsOf mem mappings)
    (hself : property mappings) (hother : ∀ other, property (state.mappingsOf other)) :
    ∀ other, property (after.mappingsOf other) := by
  intro other
  rw [hmappings]
  by_cases heq : other = mem
  · rwa [heq, Function.update_self]
  · rw [Function.update_of_ne heq]
    exact hother other

theorem mappingsOf_setMem (mem : MemId) (new : MemObject) :
    (state.setMem mem (some new)).mappingsOf =
      Function.update state.mappingsOf mem new.mappings :=
  mappingsOf_of_update rfl

/-- The counts are right if that of the new object is. -/
theorem MapInvariant.mapCount_of_update
    {mem : MemId} {new : MemObject} (hmaps : MapInvariant nodes unlogged state)
    (hmem : after.mem = Function.update state.mem mem (some new))
    (hself : new.mapCount.toNat = (after.mapsThat .executed mem).card)
    (hother : ∀ other, other ≠ mem →
      after.mapsThat .executed other = state.mapsThat .executed other) :
    ∀ other object, after.mem other = some object →
      object.mapCount.toNat = (after.mapsThat .executed other).card := by
  intro other object hobject
  rw [hmem] at hobject
  by_cases heq : other = mem
  · subst other
    rw [Function.update_self, Option.some.injEq] at hobject
    rw [← hobject, hself]
  · rw [Function.update_of_ne heq] at hobject
    rw [hother other heq]
    exact hmaps.mapCount_eq other object hobject

theorem mappingsOf_setMem_same
    {mem : MemId} {object new : MemObject} (hobject : state.mem mem = some object)
    (hmappings : new.mappings = object.mappings) :
    (state.setMem mem (some new)).mappingsOf = state.mappingsOf := by
  rw [mappingsOf_setMem, hmappings, ← mappingsOf_eq hobject, Function.update_eq_self]

theorem mapsThat_congr
    (hlog : after.mapLog = state.mapLog) (hnext : after.nextMapping = state.nextMapping)
    (kind : MemId → ℕ → MapEvent) : after.mapsThat kind = state.mapsThat kind := by
  funext mem
  unfold State.mapsThat
  rw [hlog, hnext]

/-- The records, the counts and the log are the same. -/
theorem MapInvariant.congr
    (hmaps : MapInvariant nodes unlogged state)
    (hmappings : after.mappingsOf = state.mappingsOf)
    (hcounts : ∀ mem object, after.mem mem = some object →
      object.mapCount.toNat = (state.mapsThat .executed mem).card)
    (hlog : after.mapLog = state.mapLog) (hnext : after.nextMapping = state.nextMapping) :
    MapInvariant nodes unlogged after := by
  have hthat := mapsThat_congr hlog hnext
  refine ⟨?_, hmaps.distinct, ?_, ?_, ?_, ?_, ?_, ?_, ?_, ?_, ?_⟩
  · rw [hmappings, hthat]
    exact hmaps.node_map
  · rw [hmappings, hthat]
    exact hmaps.executed
  · rw [hmappings, hthat]
    exact hmaps.complete
  · rw [hmappings, hthat]
    exact hmaps.mapped
  · rw [hthat]
    exact hcounts
  · rw [hmappings]
    exact hmaps.ids_nodup
  · rw [hmappings, hnext]
    exact hmaps.ids_lt
  · rw [hlog, hnext]
    exact hmaps.log_lt
  · rw [hmappings, hlog]
    exact hmaps.not_unmapped
  · rw [hmappings]
    exact hmaps.length_lt

theorem Booked.congr
    (hbooked : Booked refs next nodes unlogged state) (hsame : SameMaps state after) :
    Booked refs next nodes unlogged after := by
  obtain ⟨parents, hcounted⟩ := hbooked.counted
  refine ⟨hbooked.maps.congr hsame.mappingsOf_eq ?_ hsame.mapLog_eq
    hsame.nextMapping_eq, ⟨parents, ?_⟩, hbooked.refs_nonneg,
    hsame.nextMem_eq.trans hbooked.nextMem_eq⟩
  · rw [hsame.mem_eq]
    exact hbooked.maps.mapCount_eq
  · rw [hsame.mappingsOf_eq]
    exact hcounted.congr_mem hsame.mem_eq hsame.nextMem_eq

theorem Booked.setRoot
    (hbooked : Booked refs next nodes unlogged state) (root : List Node) :
    Booked refs next nodes unlogged { state with root := root } := by
  obtain ⟨parents, hcounted⟩ := hbooked.counted
  exact ⟨hbooked.maps.congr rfl hbooked.maps.mapCount_eq rfl rfl,
    ⟨parents, hcounted.congr_mem rfl rfl⟩, hbooked.refs_nonneg, hbooked.nextMem_eq⟩

theorem StatusOnly.sameMaps
    {before : State} (hstatus : StatusOnly before after) : SameMaps before after := by
  rw [hstatus.frame]
  exact ⟨rfl, rfl, rfl, rfl, rfl⟩

theorem requestEvent_sameMaps
    {requested holdsQueue : Bool} {result : Option EventId × State}
    (hrequest : state.requestEvent requested holdsQueue = some result) :
    SameMaps state result.2 := by
  cases eventRequest_of_requestEvent hrequest with
  | none => exact ⟨rfl, rfl, rfl, rfl, rfl⟩
  | new => exact ⟨rfl, rfl, rfl, rfl, rfl⟩

theorem Booked.keep
    {program : Option State} (hbooked : Booked refs next nodes unlogged state)
    (hsame : ∀ after, program = some after → SameMaps state after) :
    Meets True program fun after =>
      Booked refs next nodes unlogged after ∧ after.root = state.root :=
  .of_forall fun after hafter =>
    ⟨hbooked.congr (hsame after hafter), (hsame after hafter).root_eq⟩

end Frames

section Execute

theorem mem_mapsThat_append
    {event : MapEvent} (hlog : after.mapLog = state.mapLog ++ [event])
    (hnext : after.nextMapping = state.nextMapping)
    (hevent : ∀ mem id, event ≠ .unmapped mem id) {kind : MemId → ℕ → MapEvent}
    {mem : MemId} {id : ℕ} :
    id ∈ after.mapsThat kind mem ↔ id ∈ state.mapsThat kind mem ∨
      (id < state.nextMapping ∧ kind mem id = event ∧
        MapEvent.unmapped mem id ∉ state.mapLog) := by
  have hne : MapEvent.unmapped mem id ≠ event := (hevent mem id).symm
  rw [mem_mapsThat, mem_mapsThat, hlog, hnext]
  simp only [List.mem_append, List.mem_singleton, hne, or_false]
  tauto

theorem card_le_length
    {ids : Finset ℕ} {mappings : List Mapping}
    (hids : ∀ id ∈ ids, ∃ mapping ∈ mappings, mapping.id = id) :
    ids.card ≤ mappings.length := by
  have hsubset : ids ⊆ (mappings.map Mapping.id).toFinset := by
    intro id hid
    rw [List.mem_toFinset, List.mem_map]
    exact hids id hid
  calc
    ids.card ≤ (mappings.map Mapping.id).toFinset.card := Finset.card_le_card hsubset
    _ ≤ (mappings.map Mapping.id).length := List.toFinset_card_le _
    _ = mappings.length := List.length_map _

/-- The command of a map is executed. -/
theorem MapInvariant.execute
    {buffer : MemId} {mapping : Mapping} {object : MemObject}
    (hmaps : MapInvariant (node :: nodes) unlogged state)
    (hcommand : node.command = .map buffer mapping)
    (hobject : state.mem buffer = some object)
    (hmem : after.mem = Function.update state.mem buffer
      (some { object with mapCount := object.mapCount + 1 }))
    (hlog : after.mapLog = state.mapLog ++ [.executed buffer mapping.id])
    (hnext : after.nextMapping = state.nextMapping) :
    MapInvariant nodes unlogged after := by
  obtain ⟨found, record, hfound, hmapping, hnew⟩ :=
    hmaps.node_map node List.mem_cons_self
  rw [hcommand] at hfound
  cases hfound
  have hmappings : after.mappingsOf = state.mappingsOf := by
    rw [mappingsOf_of_update hmem, ← mappingsOf_eq hobject, Function.update_eq_self]
  have hlt := hmaps.ids_lt buffer mapping hmapping
  have hnot := hmaps.not_unmapped buffer mapping hmapping
  have hexecuted : ∀ mem id, id ∈ after.mapsThat .executed mem ↔
      id ∈ state.mapsThat .executed mem ∨ (mem = buffer ∧ id = mapping.id) := by
    intro mem id
    rw [mem_mapsThat_append hlog hnext nofun, MapEvent.executed.injEq]
    constructor
    · rintro (hold | ⟨_, heq, _⟩)
      · exact .inl hold
      · exact .inr heq
    · rintro (hold | ⟨rfl, rfl⟩)
      · exact .inl hold
      · exact .inr ⟨hlt, ⟨rfl, rfl⟩, hnot⟩
  have hmapped : ∀ mem id, id ∈ after.mapsThat .mapped mem ↔
      id ∈ state.mapsThat .mapped mem := by
    intro mem id
    rw [mem_mapsThat_append hlog hnext nofun]
    simp
  have hinsert : after.mapsThat .executed buffer =
      insert mapping.id (state.mapsThat .executed buffer) := by
    ext id
    rw [hexecuted, Finset.mem_insert]
    simp [or_comm]
  have hother : ∀ mem, mem ≠ buffer →
      after.mapsThat .executed mem = state.mapsThat .executed mem := by
    intro mem heq
    ext id
    simp [hexecuted, heq]
  have hrecorded : ∀ mem, ∀ id ∈ after.mapsThat .executed mem,
      ∃ record ∈ state.mappingsOf mem, record.id = id := by
    intro mem id hid
    rcases (hexecuted mem id).mp hid with hold | ⟨rfl, rfl⟩
    · exact hmaps.executed mem id hold
    · exact ⟨mapping, hmapping, rfl⟩
  obtain ⟨hfirst, hdistinct⟩ := List.pairwise_cons.mp hmaps.distinct
  refine ⟨fun other hmember => ?_, hdistinct, ?_, fun mem record hrecord => ?_, ?_,
    hmaps.mapCount_of_update hmem ?_ hother, ?_, ?_, fun event hevent => ?_,
    fun mem record hrecord => ?_, ?_⟩
  · obtain ⟨target, record, hlater, hrecord, hpending⟩ :=
      hmaps.node_map other (List.mem_cons_of_mem _ hmember)
    refine ⟨target, record, hlater, hmappings ▸ hrecord, fun hdone => ?_⟩
    rcases (hexecuted target record.id).mp hdone with hold | ⟨rfl, heq⟩
    · exact hpending hold
    · exact hfirst other hmember target mapping record hcommand hlater heq.symm
  · rw [hmappings]
    exact hrecorded
  · rw [hmappings] at hrecord
    rw [hexecuted]
    rcases hmaps.complete mem record hrecord with hdone | ⟨other, hmember, hother⟩
    · exact .inl (.inl hdone)
    · rcases List.mem_cons.mp hmember with rfl | hlater
      · rw [hcommand] at hother
        cases hother
        exact .inl (.inr ⟨rfl, rfl⟩)
      · exact .inr ⟨other, hlater, hother⟩
  · intro mem id
    rw [hmapped, hmappings]
    exact hmaps.mapped mem id
  · have hcount := hmaps.mapCount_eq buffer object hobject
    have hroom := (card_le_length (hrecorded buffer)).trans_lt (hmaps.length_lt buffer)
    rw [hinsert, Finset.card_insert_of_notMem hnew] at hroom ⊢
    rw [BitVec.toNat_add, hcount]
    exact Nat.mod_eq_of_lt hroom
  · rw [hmappings]
    exact hmaps.ids_nodup
  · rw [hmappings, hnext]
    exact hmaps.ids_lt
  · rw [hlog, List.mem_append, List.mem_singleton] at hevent
    rw [hnext]
    rcases hevent with hold | rfl
    · exact hmaps.log_lt event hold
    · exact hlt
  · rw [hmappings] at hrecord
    rw [hlog, List.mem_append, List.mem_singleton]
    rintro (hold | heq)
    · exact hmaps.not_unmapped mem record hrecord hold
    · cases heq
  · rw [hmappings]
    exact hmaps.length_lt

theorem Booked.mapMemCmd
    {call : ℕ} {buffer : MemId} {mapping : Mapping}
    (hbooked : Booked refs next (node :: nodes) unlogged state)
    (hcommand : node.command = .map buffer mapping) :
    Meets True (state.mapMemCmd env call buffer mapping) fun after =>
      Booked refs next nodes unlogged after ∧ after.root = state.root := by
  refine .of_forall fun after hafter => ?_
  obtain ⟨object, hobject, rfl⟩ := mapMemCmd_eq_some.mp hafter
  obtain ⟨parents, hcounted⟩ := hbooked.counted
  refine ⟨⟨hbooked.maps.execute hcommand hobject rfl rfl rfl, ⟨parents, ?_⟩,
    hbooked.refs_nonneg, hbooked.nextMem_eq⟩, rfl⟩
  have hset : Counted (fun mem => refs mem + (state.mappingsOf mem).length) parents
      state.mappingsOf (state.setMem buffer
        (some { object with mapCount := object.mapCount + 1 })) :=
    hcounted.setSame hobject rfl rfl rfl
  have hmappings : (state.setMem buffer
      (some { object with mapCount := object.mapCount + 1 })).mappingsOf =
        state.mappingsOf := mappingsOf_setMem_same hobject rfl
  rw [← hmappings] at hset
  exact hset.congr_mem rfl rfl

theorem Booked.executeMap
    {call : ℕ} {event : Option EventId} {buffer : MemId} {mapping : Mapping}
    (hbooked : Booked refs next (node :: nodes) unlogged state)
    (hcommand : node.command = .map buffer mapping) :
    Meets True
      (state.start event >>= fun started =>
        started.mapMemCmd env call buffer mapping >>= fun mapped =>
          mapped.setStatus event .complete)
      fun after => Booked refs next nodes unlogged after ∧ after.root = state.root := by
  refine (hbooked.keep fun _ h => (start_statusOnly h).sameMaps).seq
    fun started ⟨hstarted, hstartedRoot⟩ => ?_
  refine (hstarted.mapMemCmd hcommand).seq fun mapped ⟨hmapped, hmappedRoot⟩ => ?_
  refine (hmapped.keep fun _ h => (setStatus_statusOnly h).sameMaps).mono
    fun after ⟨hafter, hafterRoot⟩ => ⟨hafter, ?_⟩
  rw [hafterRoot, hmappedRoot, hstartedRoot]

theorem Booked.execute (hbooked : Booked refs next (node :: nodes) unlogged state) :
    Meets True (State.execute env state node) (Booked refs next nodes unlogged) := by
  obtain ⟨buffer, mapping, hcommand, _⟩ := hbooked.maps.node_map node List.mem_cons_self
  unfold State.execute
  rw [hcommand]
  exact (hbooked.executeMap hcommand).mono fun _ hafter => hafter.1

theorem Booked.finish (hbooked : Booked refs next (state.root ++ nodes) unlogged state) :
    Meets True (state.finish env) fun after =>
      Booked refs next nodes unlogged after ∧ after.root = [] := by
  refine Meets.seq (.of_forall fun _ h => h) fun _ _ => ?_
  have hloop : Meets True (state.root.foldlM (State.execute env) state)
      (Booked refs next nodes unlogged) :=
    Meets.foldlM (fun rest => Booked refs next (rest ++ nodes) unlogged)
      (fun _ _ _ hnext => hnext.execute) hbooked
  exact hloop.seq fun flushed hflushed => ⟨hflushed.setRoot [], rfl⟩

end Execute

section Records

theorem Booked.retainMem
    {mem : MemId} (hbooked : Booked refs next nodes unlogged state) :
    Meets True (state.retainMem mem) fun after =>
      Booked (fun other => refs other + ([mem].count other : ℕ)) next nodes unlogged after ∧
        after.root = state.root ∧ after.nextMapping = state.nextMapping ∧
        after.mappingsOf = state.mappingsOf := by
  refine .of_forall fun after hafter => ?_
  obtain ⟨parents, hcounted⟩ := hbooked.counted
  obtain ⟨hretained, -, -⟩ :=
    Meets.iff_forall.mp (hcounted.retainMem fun h => (h trivial).elim) after hafter
  obtain ⟨object, hobject, rfl⟩ := retainMem_eq_some.mp hafter
  have hmappings : (state.setMem mem
      (some { object with refcount := object.refcount + 1 })).mappingsOf =
        state.mappingsOf := mappingsOf_setMem_same hobject rfl
  refine ⟨⟨hbooked.maps.congr hmappings (hbooked.maps.mapCount_of_update rfl
      (hbooked.maps.mapCount_eq mem object hobject) fun _ _ => rfl) rfl rfl,
    ⟨parents, ?_⟩, fun other => ?_, hbooked.nextMem_eq⟩, rfl, rfl, hmappings⟩
  · rw [hmappings]
    exact hretained.congr_refs fun other => by ring
  · exact Int.add_nonneg (hbooked.refs_nonneg other) (Int.natCast_nonneg _)

theorem mapsThat_succ
    {kind : MemId → ℕ → MapEvent} (hkind : ∀ mem id, (kind mem id).id = id)
    (hlog : after.mapLog = state.mapLog) (hnext : after.nextMapping = state.nextMapping + 1)
    (hlt : ∀ event ∈ state.mapLog, event.id < state.nextMapping) :
    after.mapsThat kind = state.mapsThat kind := by
  funext mem
  ext id
  rw [mem_mapsThat, mem_mapsThat, hlog, hnext]
  constructor
  · rintro ⟨_, hkindLog, hnot⟩
    have hid := hlt _ hkindLog
    rw [hkind] at hid
    exact ⟨hid, hkindLog, hnot⟩
  · rintro ⟨hid, hrest⟩
    exact ⟨Nat.lt_succ_of_lt hid, hrest⟩

/-- The record of a new map, whose command comes behind the others. -/
theorem MapInvariant.addMapping
    {buffer : MemId} {mapping : Mapping} {object : MemObject}
    (hmaps : MapInvariant nodes none state) (hobject : state.mem buffer = some object)
    (hid : mapping.id = state.nextMapping)
    (hlength : object.mappings.length + 1 < 2 ^ 32)
    (hcommand : node.command = .map buffer mapping)
    (hmem : after.mem = Function.update state.mem buffer
      (some { object with mappings := object.mappings ++ [mapping] }))
    (hlog : after.mapLog = state.mapLog) (hnext : after.nextMapping = mapping.id + 1) :
    MapInvariant (nodes ++ [node]) (some (buffer, mapping.id)) after := by
  have hthat : ∀ {kind : MemId → ℕ → MapEvent}, (∀ mem id, (kind mem id).id = id) →
      after.mapsThat kind = state.mapsThat kind := fun hkind =>
    mapsThat_succ hkind hlog (by rw [hnext, hid]) hmaps.log_lt
  have hexecuted : after.mapsThat .executed = state.mapsThat .executed :=
    hthat fun _ _ => rfl
  have hmapped : after.mapsThat .mapped = state.mapsThat .mapped := hthat fun _ _ => rfl
  have hmappings : after.mappingsOf = Function.update state.mappingsOf buffer
      (state.mappingsOf buffer ++ [mapping]) := by
    rw [mappingsOf_of_update hmem, mappingsOf_eq hobject]
  have hrecords : ∀ mem record, record ∈ after.mappingsOf mem ↔
      record ∈ state.mappingsOf mem ∨ (mem = buffer ∧ record = mapping) := by
    intro mem record
    rw [hmappings]
    by_cases heq : mem = buffer
    · subst mem
      simp
    · simp [heq]
  have hfresh : ∀ mem, ∀ record ∈ state.mappingsOf mem, record.id ≠ mapping.id := by
    intro mem record hrecord
    rw [hid]
    exact ne_of_lt (hmaps.ids_lt mem record hrecord)
  have hnotExecuted : mapping.id ∉ state.mapsThat .executed buffer := by
    intro hdone
    rw [mem_mapsThat, hid] at hdone
    exact absurd hdone.1 (lt_irrefl _)
  refine ⟨fun other hmember => ?_, ?_, ?_, fun mem record hrecord => ?_, fun mem id => ?_,
    hmaps.mapCount_of_update hmem ?_ fun mem _ => congrFun hexecuted mem, ?_,
    fun mem record hrecord => ?_, fun event hevent => ?_, fun mem record hrecord => ?_, ?_⟩
  · rw [hexecuted]
    rcases List.mem_append.mp hmember with hold | hnew
    · obtain ⟨target, record, hold, hrecord, hpending⟩ := hmaps.node_map other hold
      exact ⟨target, record, hold, (hrecords _ _).mpr (.inl hrecord), hpending⟩
    · rw [List.mem_singleton.mp hnew]
      exact ⟨buffer, mapping, hcommand, (hrecords _ _).mpr (.inr ⟨rfl, rfl⟩),
        hnotExecuted⟩
  · rw [List.pairwise_append]
    refine ⟨hmaps.distinct, List.pairwise_singleton _ _, fun other hmember last hlast => ?_⟩
    rw [List.mem_singleton.mp hlast]
    intro target record new hold hnew
    obtain ⟨found, kept, hfound, hkept, _⟩ := hmaps.node_map other hmember
    rw [hold] at hfound
    cases hfound
    rw [hcommand] at hnew
    cases hnew
    exact hfresh _ record hkept
  · rw [hexecuted]
    intro mem id hdone
    obtain ⟨record, hrecord, heq⟩ := hmaps.executed mem id hdone
    exact ⟨record, (hrecords _ _).mpr (.inl hrecord), heq⟩
  · rw [hexecuted]
    rcases (hrecords mem record).mp hrecord with hold | ⟨rfl, rfl⟩
    · rcases hmaps.complete mem record hold with hdone | ⟨other, hmember, hcommand⟩
      · exact .inl hdone
      · exact .inr ⟨other, List.mem_append_left _ hmember, hcommand⟩
    · exact .inr ⟨node, List.mem_append_right _ (List.mem_singleton_self _), hcommand⟩
  · have hold := hmaps.mapped mem id
    simp only [reduceCtorEq, or_false] at hold
    rw [hmapped, hold, Option.some.injEq, Prod.mk.injEq]
    constructor
    · rintro (⟨record, hrecord, heq⟩ | ⟨rfl, rfl⟩)
      · exact ⟨record, (hrecords _ _).mpr (.inl hrecord), heq⟩
      · exact ⟨mapping, (hrecords _ _).mpr (.inr ⟨rfl, rfl⟩), rfl⟩
    · rintro ⟨record, hrecord, heq⟩
      rcases (hrecords mem record).mp hrecord with hold | ⟨rfl, rfl⟩
      · exact .inl ⟨record, hold, heq⟩
      · exact .inr ⟨rfl, heq⟩
  · rw [hexecuted]
    exact hmaps.mapCount_eq buffer object hobject
  · refine forall_mappingsOf_update (fun records => (records.map Mapping.id).Nodup)
      hmappings ?_ hmaps.ids_nodup
    rw [List.map_append, List.nodup_append]
    refine ⟨hmaps.ids_nodup buffer, List.nodup_singleton _, ?_⟩
    intro id hid' other hother' heq
    obtain ⟨record, hrecord, rfl⟩ := List.mem_map.mp hid'
    rw [List.map_singleton, List.mem_singleton] at hother'
    exact hfresh buffer record hrecord (heq.trans hother')
  · rw [hnext]
    rcases (hrecords mem record).mp hrecord with hold | ⟨_, rfl⟩
    · have hlt := hmaps.ids_lt mem record hold
      omega
    · exact Nat.lt_succ_self _
  · rw [hlog] at hevent
    have hlt := hmaps.log_lt event hevent
    omega
  · rw [hlog]
    rcases (hrecords mem record).mp hrecord with hold | ⟨rfl, rfl⟩
    · exact hmaps.not_unmapped mem record hold
    · intro hunmapped
      have hlt := hmaps.log_lt _ hunmapped
      change record.id < _ at hlt
      omega
  · refine forall_mappingsOf_update (fun records => records.length < 2 ^ 32)
      hmappings ?_ hmaps.length_lt
    rw [mappingsOf_eq hobject, List.length_append, List.length_singleton]
    exact hlength

/-- The reference of a map passes to its record. -/
theorem Booked.addMapping
    {buffer : MemId} {mapping : Mapping}
    (hbooked : Booked (fun mem => refs mem + ([buffer].count mem : ℕ)) next nodes none state)
    (hrefs : ∀ mem, 0 ≤ refs mem) (hid : mapping.id = state.nextMapping)
    (hlength : (state.mappingsOf buffer).length + 1 < 2 ^ 32)
    (hcommand : node.command = .map buffer mapping) :
    Meets True (state.addMapping buffer mapping) fun after =>
      Booked refs next (nodes ++ [node]) (some (buffer, mapping.id)) after ∧
        after.root = state.root := by
  refine .of_forall fun after hafter => ?_
  obtain ⟨object, hobject, rfl⟩ := addMapping_eq_some.mp hafter
  obtain ⟨parents, hcounted⟩ := hbooked.counted
  have hrecords : state.mappingsOf buffer = object.mappings := mappingsOf_eq hobject
  rw [hrecords] at hlength
  have hset := hcounted.setMem hobject (hcounted.refs_nonneg buffer)
    (show ({ object with mappings := object.mappings ++ [mapping] } : MemObject).parent =
      object.parent from rfl)
    (hcounted.refcount_eq buffer object hobject)
  rw [Function.update_eq_self] at hset
  have hmappings : (state.setMem buffer
      (some { object with mappings := object.mappings ++ [mapping] })).mappingsOf =
        Function.update state.mappingsOf buffer (object.mappings ++ [mapping]) :=
    mappingsOf_setMem _ _
  rw [← hmappings] at hset
  refine ⟨⟨hbooked.maps.addMapping hobject hid hlength hcommand rfl rfl rfl,
    ⟨parents, Counted.congr_mem (hset.congr_refs fun mem => ?_) rfl rfl⟩, hrefs,
    hbooked.nextMem_eq⟩, rfl⟩
  change refs mem + ((State.setMem _ _ _).mappingsOf mem).length = _
  rw [hmappings]
  by_cases heq : mem = buffer
  · subst mem
    simp only [Function.update_self, List.length_append, List.length_singleton,
      List.count_singleton_self, hrecords]
    push_cast
    ring
  · simp [heq, Ne.symm heq]

/-- The call of a map returns. -/
theorem Booked.logMapped
    {buffer : MemId} {mapping : Mapping}
    (hbooked : Booked refs next nodes (some (buffer, mapping.id)) state) :
    Booked refs next nodes none (state.logMapped buffer mapping) := by
  have hmaps := hbooked.maps
  obtain ⟨record, hrecord, hid⟩ := (hmaps.mapped buffer mapping.id).mp (.inr rfl)
  have hlt := hmaps.ids_lt buffer record hrecord
  have hnot := hmaps.not_unmapped buffer record hrecord
  rw [hid] at hlt hnot
  have hlog : (state.logMapped buffer mapping).mapLog =
      state.mapLog ++ [.mapped buffer mapping.id] := rfl
  have hexecuted : (state.logMapped buffer mapping).mapsThat .executed =
      state.mapsThat .executed := by
    funext mem
    ext id
    rw [mem_mapsThat_append hlog rfl nofun]
    simp
  have hmapped : ∀ mem id, id ∈ (state.logMapped buffer mapping).mapsThat .mapped mem ↔
      id ∈ state.mapsThat .mapped mem ∨ some (buffer, mapping.id) = some (mem, id) := by
    intro mem id
    rw [mem_mapsThat_append hlog rfl nofun, MapEvent.mapped.injEq, Option.some.injEq,
      Prod.mk.injEq]
    constructor
    · rintro (hold | ⟨_, ⟨rfl, rfl⟩, _⟩)
      · exact .inl hold
      · exact .inr ⟨rfl, rfl⟩
    · rintro (hold | ⟨rfl, rfl⟩)
      · exact .inl hold
      · exact .inr ⟨hlt, ⟨rfl, rfl⟩, hnot⟩
  obtain ⟨parents, hcounted⟩ := hbooked.counted
  refine ⟨⟨?_, hmaps.distinct, ?_, ?_, fun mem id => ?_, ?_, hmaps.ids_nodup, hmaps.ids_lt,
    fun event hevent => ?_, fun mem record hrecord => ?_, hmaps.length_lt⟩,
    ⟨parents, hcounted.congr_mem rfl rfl⟩, hbooked.refs_nonneg, hbooked.nextMem_eq⟩
  · rw [hexecuted]
    exact hmaps.node_map
  · rw [hexecuted]
    exact hmaps.executed
  · rw [hexecuted]
    exact hmaps.complete
  · rw [hmapped]
    simp only [reduceCtorEq, or_false]
    exact hmaps.mapped mem id
  · rw [hexecuted]
    exact hmaps.mapCount_eq
  · change event ∈ state.mapLog ++ [_] at hevent
    rw [List.mem_append, List.mem_singleton] at hevent
    rcases hevent with hold | rfl
    · exact hmaps.log_lt event hold
    · exact hlt
  · change MapEvent.unmapped mem record.id ∉ state.mapLog ++ [_]
    rw [List.mem_append, List.mem_singleton]
    rintro (hold | heq)
    · exact hmaps.not_unmapped mem record hrecord hold
    · cases heq

end Records

section Unmaps

theorem mem_mapsThat_unmapped
    {mem : MemId} {id : ℕ} (hlog : after.mapLog = state.mapLog ++ [.unmapped mem id])
    (hnext : after.nextMapping = state.nextMapping) {kind : MemId → ℕ → MapEvent}
    (hkind : ∀ other number, kind other number ≠ .unmapped mem id) {other : MemId}
    {number : ℕ} :
    number ∈ after.mapsThat kind other ↔
      number ∈ state.mapsThat kind other ∧ ¬(other = mem ∧ number = id) := by
  rw [mem_mapsThat, mem_mapsThat, hlog, hnext]
  simp only [List.mem_append, List.mem_singleton, hkind, or_false, MapEvent.unmapped.injEq]
  tauto

/-- The records have different numbers, so that those that stay have others. -/
theorem mem_erase_iff
    {mappings : List Mapping} {mapping record : Mapping}
    (hnodup : (mappings.map Mapping.id).Nodup) (hmapping : mapping ∈ mappings) :
    record ∈ mappings.erase mapping ↔
      record ∈ mappings ∧ record.id ≠ mapping.id := by
  rw [(hnodup.of_map _).mem_erase_iff]
  constructor
  · rintro ⟨hne, hrecord⟩
    exact ⟨hrecord, fun heq => hne (List.inj_on_of_nodup_map hnodup hrecord hmapping heq)⟩
  · rintro ⟨hrecord, hne⟩
    exact ⟨fun heq => hne (congrArg Mapping.id heq), hrecord⟩

/-- The record of a map goes that has been executed. -/
theorem MapInvariant.removeMapping
    {mem : MemId} {mapping : Mapping} {object : MemObject}
    (hmaps : MapInvariant nodes none state) (hobject : state.mem mem = some object)
    (hmapping : mapping ∈ object.mappings)
    (hidle : ∀ node ∈ nodes, node.command ≠ .map mem mapping)
    (hmem : after.mem = Function.update state.mem mem
      (some { object with
        mappings := object.mappings.erase mapping
        mapCount := object.mapCount - 1 }))
    (hlog : after.mapLog = state.mapLog ++ [.unmapped mem mapping.id])
    (hnext : after.nextMapping = state.nextMapping) : MapInvariant nodes none after := by
  have hold : state.mappingsOf mem = object.mappings := mappingsOf_eq hobject
  have hnodup := hmaps.ids_nodup mem
  rw [hold] at hnodup
  have hmappings : after.mappingsOf =
      Function.update state.mappingsOf mem (object.mappings.erase mapping) :=
    mappingsOf_of_update hmem
  have hrecords : ∀ other record, record ∈ after.mappingsOf other ↔
      record ∈ state.mappingsOf other ∧ ¬(other = mem ∧ record.id = mapping.id) := by
    intro other record
    rw [hmappings]
    by_cases heq : other = mem
    · subst other
      rw [hold]
      simp [mem_erase_iff hnodup hmapping]
    · simp [heq]
  have hexecuted : ∀ {other : MemId} {id : ℕ}, id ∈ after.mapsThat .executed other ↔
      id ∈ state.mapsThat .executed other ∧ ¬(other = mem ∧ id = mapping.id) :=
    mem_mapsThat_unmapped hlog hnext (fun _ _ h => by cases h)
  have hmapped : ∀ {other : MemId} {id : ℕ}, id ∈ after.mapsThat .mapped other ↔
      id ∈ state.mapsThat .mapped other ∧ ¬(other = mem ∧ id = mapping.id) :=
    mem_mapsThat_unmapped hlog hnext (fun _ _ h => by cases h)
  have hdone : mapping.id ∈ state.mapsThat .executed mem := by
    rcases hmaps.complete mem mapping (hold ▸ hmapping) with hdone | ⟨node, hnode, hmap⟩
    · exact hdone
    · exact absurd hmap (hidle node hnode)
  refine ⟨fun node hnode => ?_, hmaps.distinct, fun other id hid => ?_,
    fun other record hrecord => ?_, fun other id => ?_,
    hmaps.mapCount_of_update hmem ?_ fun other heq => ?_, ?_,
    fun other record hrecord => ?_, fun event hevent => ?_,
    fun other record hrecord => ?_, ?_⟩
  · obtain ⟨buffer, record, hcommand, hrecord, hpending⟩ := hmaps.node_map node hnode
    refine ⟨buffer, record, hcommand, (hrecords _ _).mpr ⟨hrecord, ?_⟩,
      fun hin => hpending (hexecuted.mp hin).1⟩
    rintro ⟨rfl, heq⟩
    rw [hold] at hrecord
    rw [List.inj_on_of_nodup_map hnodup hrecord hmapping heq] at hcommand
    exact hidle node hnode hcommand
  · obtain ⟨hbefore, hother⟩ := hexecuted.mp hid
    obtain ⟨record, hrecord, rfl⟩ := hmaps.executed other id hbefore
    exact ⟨record, (hrecords _ _).mpr ⟨hrecord, hother⟩, rfl⟩
  · obtain ⟨hbefore, hother⟩ := (hrecords other record).mp hrecord
    rcases hmaps.complete other record hbefore with hin | hpending
    · exact .inl (hexecuted.mpr ⟨hin, hother⟩)
    · exact .inr hpending
  · have hbefore := hmaps.mapped other id
    simp only [reduceCtorEq, or_false] at hbefore ⊢
    rw [hmapped, hbefore]
    constructor
    · rintro ⟨⟨record, hrecord, rfl⟩, hother⟩
      exact ⟨record, (hrecords _ _).mpr ⟨hrecord, hother⟩, rfl⟩
    · rintro ⟨record, hrecord, rfl⟩
      obtain ⟨hrecord, hother⟩ := (hrecords other record).mp hrecord
      exact ⟨⟨record, hrecord, rfl⟩, hother⟩
  · have herase : after.mapsThat .executed mem =
        (state.mapsThat .executed mem).erase mapping.id := by
      ext id
      rw [hexecuted, Finset.mem_erase]
      tauto
    have hcount := hmaps.mapCount_eq mem object hobject
    have hcard := Finset.card_erase_add_one hdone
    rw [herase]
    change (object.mapCount - 1#32).toNat = _
    bv_omega
  · ext id
    simp [hexecuted, heq]
  · exact forall_mappingsOf_update (fun records => (records.map Mapping.id).Nodup)
      hmappings (hnodup.sublist (List.erase_sublist.map _)) hmaps.ids_nodup
  · rw [hnext]
    exact hmaps.ids_lt other record ((hrecords other record).mp hrecord).1
  · rw [hlog, List.mem_append, List.mem_singleton] at hevent
    rw [hnext]
    rcases hevent with hbefore | rfl
    · exact hmaps.log_lt event hbefore
    · exact hmaps.ids_lt mem mapping (hold ▸ hmapping)
  · obtain ⟨hbefore, hother⟩ := (hrecords other record).mp hrecord
    rw [hlog, List.mem_append, List.mem_singleton, MapEvent.unmapped.injEq]
    rintro (hunmapped | hequal)
    · exact hmaps.not_unmapped other record hbefore hunmapped
    · exact hother hequal
  · refine forall_mappingsOf_update (fun records => records.length < 2 ^ 32)
      hmappings ?_ hmaps.length_lt
    have hlength := hmaps.length_lt mem
    rw [hold] at hlength
    exact List.length_erase_le.trans_lt hlength

/-- A release frees only an object without records, and it changes no count of
maps. -/
theorem releaseMem_records
    {mem : MemId} (hrelease : state.releaseMem mem = some after)
    (hlast : ∀ object, state.mem mem = some object → object.refcount - 1 = 0 →
      object.mappings = []) :
    after.mappingsOf = state.mappingsOf ∧
      ∀ other found, after.mem other = some found →
        ∃ old, state.mem other = some old ∧ found.mapCount = old.mapCount := by
  obtain ⟨object, hobject, ⟨hzero, _, rfl⟩ |
    ⟨parent, parentObject, hzero, _, hparent, rfl⟩ | ⟨_, rfl⟩⟩ :=
      releaseMem_eq_some.mp hrelease
  · have hempty := hlast object hobject hzero
    refine ⟨funext fun other => ?_, fun other found hfound => ?_⟩
    · by_cases heq : other = mem
      · subst other
        simp [State.mappingsOf, State.setMem, hobject, hempty]
      · simp [State.mappingsOf, State.setMem, heq]
    · by_cases heq : other = mem
      · subst other
        simp [State.setMem] at hfound
      · simp only [State.setMem, Function.update_of_ne heq] at hfound
        exact ⟨found, hfound, rfl⟩
  · have hempty := hlast object hobject hzero
    refine ⟨funext fun other => ?_, fun other found hfound => ?_⟩
    · by_cases heq : other = mem
      · subst other
        simp [State.mappingsOf, State.setMem, hobject, hempty]
      · by_cases hthis : other = parent
        · subst other
          simp [State.mappingsOf, State.setMem, heq, hparent]
        · simp [State.mappingsOf, State.setMem, heq, hthis]
    · by_cases heq : other = mem
      · subst other
        simp [State.setMem] at hfound
      · by_cases hthis : other = parent
        · subst other
          simp only [State.setMem, Function.update_of_ne heq, Function.update_self,
            Option.some.injEq] at hfound
          subst found
          exact ⟨parentObject, hparent, rfl⟩
        · simp only [State.setMem, Function.update_of_ne heq,
            Function.update_of_ne hthis] at hfound
          exact ⟨found, hfound, rfl⟩
  · refine ⟨mappingsOf_setMem_same hobject rfl, fun other found hfound => ?_⟩
    by_cases heq : other = mem
    · subst other
      simp only [State.setMem, Function.update_self, Option.some.injEq] at hfound
      subst found
      exact ⟨object, hobject, rfl⟩
    · simp only [State.setMem, Function.update_of_ne heq] at hfound
      exact ⟨found, hfound, rfl⟩

/-- A reference that no record holds is given back. -/
theorem Booked.releaseMem
    {mem : MemId}
    (hbooked : Booked (fun other => refs other + ([mem].count other : ℕ)) next nodes unlogged
      state)
    (hrefs : ∀ other, 0 ≤ refs other) :
    Meets True (state.releaseMem mem) fun after =>
      Booked refs next nodes unlogged after ∧ after.root = state.root := by
  refine .of_forall fun after hafter => ?_
  obtain ⟨parents, hcounted⟩ := hbooked.counted
  have hone : 1 ≤ refs mem + ([mem].count mem : ℕ) + (state.mappingsOf mem).length := by
    have hnonneg := hrefs mem
    rw [List.count_singleton_self]
    omega
  obtain ⟨hreleased, honly⟩ :=
    Meets.iff_forall.mp (hcounted.releaseMem hone) after hafter
  obtain ⟨hmappings, hcounts⟩ := releaseMem_records hafter (by
    intro object hobject hzero
    have hcount := hcounted.refcount_eq mem object hobject
    have hnonneg := hrefs mem
    rw [List.count_singleton_self] at hcount
    rw [mappingsOf_eq hobject] at hcount
    exact List.length_eq_zero_iff.mp (by omega))
  refine ⟨⟨hbooked.maps.congr hmappings (fun other found hfound => ?_) (by rw [honly])
    (by rw [honly]), ⟨parents, ?_⟩, hrefs, ?_⟩, by rw [honly]⟩
  · obtain ⟨old, hold, hcount⟩ := hcounts other found hfound
    rw [hcount]
    exact hbooked.maps.mapCount_eq other old hold
  · rw [hmappings]
    exact hreleased.congr_refs fun other => by ring
  · rw [honly]
    exact hbooked.nextMem_eq

/-- The record of a map goes, and then its reference. -/
theorem Booked.removeMapping
    {mem : MemId} {mapping : Mapping} {object : MemObject}
    (hbooked : Booked refs next nodes none state) (hobject : state.mem mem = some object)
    (hmapping : mapping ∈ object.mappings)
    (hidle : ∀ node ∈ nodes, node.command ≠ .map mem mapping) :
    Meets True (state.removeMapping mem mapping) fun after =>
      Booked (fun other => refs other + ([mem].count other : ℕ)) next nodes none after ∧
        after.root = state.root := by
  refine .of_forall fun after hafter => ?_
  obtain ⟨found, hfound, rfl⟩ := removeMapping_eq_some.mp hafter
  rw [hobject] at hfound
  cases hfound
  obtain ⟨parents, hcounted⟩ := hbooked.counted
  have hset := hcounted.setMem hobject (hcounted.refs_nonneg mem)
    (show ({ object with
        mappings := object.mappings.erase mapping
        mapCount := object.mapCount - 1 } : MemObject).parent = object.parent from rfl)
    (hcounted.refcount_eq mem object hobject)
  rw [Function.update_eq_self] at hset
  have hmappings : (state.setMem mem
      (some { object with
        mappings := object.mappings.erase mapping
        mapCount := object.mapCount - 1 })).mappingsOf =
          Function.update state.mappingsOf mem (object.mappings.erase mapping) :=
    mappingsOf_setMem _ _
  rw [← hmappings] at hset
  refine ⟨⟨hbooked.maps.removeMapping hobject hmapping hidle rfl rfl rfl,
    ⟨parents, Counted.congr_mem (hset.congr_refs fun other => ?_) rfl rfl⟩,
    fun other => Int.add_nonneg (hbooked.refs_nonneg other) (Int.natCast_nonneg _),
    hbooked.nextMem_eq⟩, rfl⟩
  change refs other + _ + ((State.setMem _ _ _).mappingsOf other).length = _
  rw [hmappings]
  by_cases heq : other = mem
  · subst other
    have hlength := List.length_erase_add_one hmapping
    rw [Function.update_self, List.count_singleton_self, mappingsOf_eq hobject]
    omega
  · simp [heq, Ne.symm heq]

end Unmaps

end CommandQueue

end Pocl
