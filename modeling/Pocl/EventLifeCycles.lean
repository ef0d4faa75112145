import Mathlib.Data.List.Destutter
import Mathlib.Data.List.Nodup
import Pocl.EventUpdates

/-!
# The life cycles of events

An event that waits for its command has been written once.  The updates for a command
complete its event, unless the command is a marker, or a kernel whose driver completes
the event, too, while assertions are enabled.  The events of a queue are thus complete after
`clFinish` if all calls before are of the right kind.
-/

namespace Pocl.EventUpdates

variable {platform : Platform} {queue call moment : ℕ} {event : Event} {state : State}

/-- The event has gone through all states in order, only for the call that has created
it, and has its timestamps. -/
structure LifeCycle (platform : Platform) (event : Event) : Prop where
  own : ∀ write ∈ event.writes, write.call = event.creator
  statuses : (event.writes.map StatusWrite.status).destutter (· ≠ ·) =
    [.queued, .submitted, .running, .complete]
  times : (platform.queues event.queue).profiling = true →
    ∃ queued submit start finish,
      event.timeQueue = some queued ∧ event.timeSubmit = some submit ∧
        event.timeStart = some start ∧ event.timeEnd = some finish ∧
        queued ≤ submit ∧ submit ≤ start ∧ start ≤ finish

/-- The event has been created for a call on the queue, and nothing else. -/
structure Waiting (platform : Platform) (queue call moment : ℕ) (event : Event) : Prop where
  onQueue : event.queue = queue
  creator : event.creator = call
  writes : event.writes = [⟨call, .queued⟩]
  time : (platform.queues queue).profiling = true →
    ∃ before < moment,
      event.timeQueue = some ((platform.queues queue).device.timer before)

theorem Waiting.mono {later : ℕ} (hwaiting : Waiting platform queue call moment event)
    (hlater : moment ≤ later) : Waiting platform queue call later event := by
  refine ⟨hwaiting.onQueue, hwaiting.creator, hwaiting.writes, fun hprofiling => ?_⟩
  obtain ⟨before, hbefore, htime⟩ := hwaiting.time hprofiling
  exact ⟨before, hbefore.trans_le hlater, htime⟩

section Updates

/-- The values an update writes to the status. -/
def Update.statuses (assertions profiling : Bool) : Update → List Status
  | .stage status =>
      (if assertions then status.asserted.toList else []) ++ [status]
  | .run status => [status]
  | .profiledRun status => if profiling then [status] else []

def Event.updates (platform : Platform) (queue call : ℕ) :
    ℕ → Event → List Update → Event
  | _, event, [] => event
  | moment, event, update :: updates =>
      Event.updates platform queue call (moment + 1)
        (event.update platform queue call moment update) updates

@[simp] theorem Event.setTime_queue (time : ℕ) (status : Status) :
    (event.setTime time status).queue = event.queue := by
  cases status <;> rfl

@[simp] theorem Event.setTime_creator (time : ℕ) (status : Status) :
    (event.setTime time status).creator = event.creator := by
  cases status <;> rfl

@[simp] theorem Event.setTime_writes (time : ℕ) (status : Status) :
    (event.setTime time status).writes = event.writes := by
  cases status <;> rfl

theorem Event.assertStatus_eq (status : Status) :
    event.assertStatus platform call status =
      { event with
        writes := event.writes ++
          (if platform.assertions then status.asserted.toList else []).map
            (StatusWrite.mk call) } := by
  unfold Event.assertStatus
  cases platform.assertions <;> cases status.asserted <;> simp [Event.write]

theorem Event.update_frame (platform : Platform) (queue call moment : ℕ) (event : Event)
    (update : Update) :
    (event.update platform queue call moment update).queue = event.queue ∧
      (event.update platform queue call moment update).creator = event.creator ∧
      (event.update platform queue call moment update).writes =
        event.writes ++
          (update.statuses platform.assertions
            (platform.queues event.queue).profiling).map (StatusWrite.mk call) := by
  cases update with
  | stage status =>
      simp only [Event.update, Event.assertStatus_eq, Event.write, Update.statuses]
      cases (platform.queues queue).profiling <;> simp
  | run status =>
      simp only [Event.update, Event.write, Update.statuses]
      by_cases hprofiling : (platform.queues event.queue).profiling = true <;>
        simp [hprofiling]
  | profiledRun status =>
      simp only [Event.update, Event.write, Update.statuses]
      by_cases hprofiling : (platform.queues event.queue).profiling = true <;>
        simp [hprofiling]

theorem Event.updates_frame (platform : Platform) (queue call : ℕ) (updates : List Update)
    (moment : ℕ) (event : Event) :
    (event.updates platform queue call moment updates).queue = event.queue ∧
      (event.updates platform queue call moment updates).creator = event.creator ∧
      (event.updates platform queue call moment updates).writes =
        event.writes ++
          (updates.flatMap (Update.statuses platform.assertions
            (platform.queues event.queue).profiling)).map (StatusWrite.mk call) := by
  induction updates generalizing moment event with
  | nil => simp [Event.updates]
  | cons update updates ih =>
      obtain ⟨hqueue, hcreator, hwrites⟩ :=
        ih (moment + 1) (event.update platform queue call moment update)
      obtain ⟨hqueue', hcreator', hwrites'⟩ :=
        event.update_frame platform queue call moment update
      refine ⟨hqueue.trans hqueue', hcreator.trans hcreator', ?_⟩
      rw [Event.updates, hwrites, hwrites', hqueue', List.flatMap_cons, List.map_append,
        List.append_assoc]

/-- The updates complete an event that waits. -/
def Completes (platform : Platform) (queue : ℕ) (updates : List Update) : Prop :=
  ∀ (call moment : ℕ) (event : Event), Waiting platform queue call moment event →
    LifeCycle platform (event.updates platform queue call moment updates)

/-- The last updates of the timestamps come in order. -/
def Timed (platform : Platform) (queue : ℕ) (updates : List Update) : Prop :=
  ∀ (call moment : ℕ) (event : Event), event.queue = queue →
    (platform.queues queue).profiling = true →
    ∃ submit start finish, moment ≤ submit ∧ submit ≤ start ∧ start ≤ finish ∧
      (event.updates platform queue call moment updates).timeQueue = event.timeQueue ∧
      (event.updates platform queue call moment updates).timeSubmit =
        some ((platform.queues queue).device.timer submit) ∧
      (event.updates platform queue call moment updates).timeStart =
        some ((platform.queues queue).device.timer start) ∧
      (event.updates platform queue call moment updates).timeEnd =
        some ((platform.queues queue).device.timer finish)

theorem completes_of_timed {updates : List Update}
    (hstatuses : (Status.queued ::
        updates.flatMap (Update.statuses platform.assertions
          (platform.queues queue).profiling)).destutter (· ≠ ·) =
      [.queued, .submitted, .running, .complete])
    (htimed : Timed platform queue updates) : Completes platform queue updates := by
  intro call moment event hwaiting
  obtain ⟨hqueue, hcreator, hwrites⟩ :=
    event.updates_frame platform queue call updates moment
  rw [hwaiting.writes, hwaiting.onQueue] at hwrites
  refine ⟨?_, ?_, ?_⟩
  · rw [hwrites, hcreator, hwaiting.creator]
    intro write hwrite
    obtain hfirst | hlater := List.mem_append.mp hwrite
    · rw [List.mem_singleton.mp hfirst]
    · obtain ⟨status, _, rfl⟩ := List.mem_map.mp hlater
      rfl
  · rw [hwrites]
    simpa [List.map_map, Function.comp_def] using hstatuses
  · intro hprofiling
    rw [hqueue, hwaiting.onQueue] at hprofiling
    obtain ⟨before, hbefore, hqueued⟩ := hwaiting.time hprofiling
    obtain ⟨submit, start, finish, hsubmit, hstart, hfinish, htimes⟩ :=
      htimed call moment event hwaiting.onQueue hprofiling
    have hmonotone := (platform.queues queue).device.timer_monotone
    exact ⟨_, _, _, _, htimes.1.trans hqueued, htimes.2.1, htimes.2.2.1, htimes.2.2.2,
      hmonotone (hbefore.le.trans hsubmit), hmonotone hstart, hmonotone hfinish⟩

theorem stages_timed (platform : Platform) (queue : ℕ) : Timed platform queue stages := by
  intro call moment event hqueue hprofiling
  refine ⟨moment, moment + 1, moment + 2, le_rfl, by omega, by omega, ?_⟩
  simp [stages, Event.updates, Event.update, Event.assertStatus_eq, Event.write,
    Event.setTime, hprofiling]

theorem stages_complete (platform : Platform) (queue : ℕ) :
    Completes platform queue stages := by
  refine completes_of_timed ?_ (stages_timed platform queue)
  cases platform.assertions <;> cases (platform.queues queue).profiling <;> decide

/-- Whether the driver updates the events of launches, too. -/
def CommandQueue.UpdatesEvents (queue : CommandQueue) : Prop :=
  queue.device.driver = .pthread ∨
    queue.device.driver = .ttasim ∧ queue.profiling = true

/-- The node is not a marker, nor a kernel whose driver updates its event while
assertions are enabled. -/
def Node.Proper (platform : Platform) (queue : ℕ) (node : Node) : Prop :=
  match node.type with
  | .marker => False
  | .ndRangeKernel => (platform.queues queue).UpdatesEvents → platform.assertions = false
  | _ => True

theorem profiledRun_complete
    (hassertions : (platform.queues queue).profiling = true →
      platform.assertions = false) :
    Completes platform queue
      [.stage .submitted, .stage .running, .profiledRun .running,
        .profiledRun .complete, .stage .complete] := by
  refine completes_of_timed ?_ ?_
  · cases hprofiling : (platform.queues queue).profiling with
    | true =>
        rw [hassertions hprofiling]
        decide
    | false => cases platform.assertions <;> decide
  · intro call moment event hqueue hprofiling
    refine ⟨moment, moment + 2, moment + 4, le_rfl, by omega, by omega, ?_⟩
    simp [Event.updates, Event.update, Event.assertStatus_eq, Event.write,
      Event.setTime, hprofiling, hqueue]

theorem run_complete (hassertions : platform.assertions = false) :
    Completes platform queue
      [.stage .submitted, .stage .running, .run .running, .run .complete,
        .stage .complete] := by
  refine completes_of_timed ?_ ?_
  · rw [hassertions]
    cases (platform.queues queue).profiling <;> decide
  · intro call moment event hqueue hprofiling
    refine ⟨moment, moment + 2, moment + 4, le_rfl, by omega, by omega, ?_⟩
    simp [Event.updates, Event.update, Event.assertStatus_eq, Event.write,
      Event.setTime, hprofiling, hqueue]

theorem Node.Proper.completes {node : Node} (hnode : node.Proper platform queue) :
    Completes platform queue (node.updates platform queue) := by
  unfold Node.Proper at hnode
  unfold Node.updates
  cases htype : node.type with
  | readBuffer => exact stages_complete platform queue
  | writeBuffer => exact stages_complete platform queue
  | copyBuffer => exact stages_complete platform queue
  | mapBuffer => exact stages_complete platform queue
  | marker =>
      rw [htype] at hnode
      exact hnode.elim
  | ndRangeKernel =>
      rw [htype] at hnode
      unfold Device.run
      cases hdriver : (platform.queues queue).device.driver with
      | pthread => exact run_complete (hnode (.inl hdriver))
      | basic => exact stages_complete platform queue
      | ttasim =>
          exact profiledRun_complete fun hprofiling => hnode (.inr ⟨hdriver, hprofiling⟩)
      | cellspu => exact stages_complete platform queue
      | hsa => exact stages_complete platform queue

end Updates

section States

variable {e : ℕ} {updates : List Update}

theorem State.updates_none (updates : List Update) :
    state.updates platform queue call none updates = state := by
  induction updates with
  | nil => rfl
  | cons update updates ih => exact ih

theorem State.updates_cons (event : Option ℕ) (update : Update) (updates : List Update) :
    state.updates platform queue call event (update :: updates) =
      (state.update platform queue call event update).updates platform queue call event
        updates :=
  rfl

theorem State.update_nodes (event : Option ℕ) (update : Update) :
    (state.update platform queue call event update).nodes = state.nodes := by
  cases event <;> rfl

theorem State.update_calls (event : Option ℕ) (update : Update) :
    (state.update platform queue call event update).calls = state.calls := by
  cases event <;> rfl

@[simp] theorem State.updates_nodes (event : Option ℕ) (updates : List Update) :
    (state.updates platform queue call event updates).nodes = state.nodes := by
  induction updates generalizing state with
  | nil => rfl
  | cons update updates ih => rw [State.updates_cons, ih, State.update_nodes]

@[simp] theorem State.updates_calls (event : Option ℕ) (updates : List Update) :
    (state.updates platform queue call event updates).calls = state.calls := by
  induction updates generalizing state with
  | nil => rfl
  | cons update updates ih => rw [State.updates_cons, ih, State.update_calls]

theorem State.moment_le_updates (event : Option ℕ) (updates : List Update) :
    state.moment ≤ (state.updates platform queue call event updates).moment := by
  induction updates generalizing state with
  | nil => exact le_rfl
  | cons update updates ih =>
      rw [State.updates_cons]
      refine le_trans ?_ ih
      cases event with
      | none => exact le_rfl
      | some e => exact Nat.le_succ _

theorem State.updates_getElem?_of_ne {other : ℕ} {event : Option ℕ}
    (hother : event ≠ some other) :
    (state.updates platform queue call event updates).events[other]? =
      state.events[other]? := by
  induction updates generalizing state with
  | nil => rfl
  | cons update updates ih =>
      rw [State.updates_cons, ih]
      cases event with
      | none => rfl
      | some e =>
          have hne : e ≠ other := fun heq => hother (congrArg some heq)
          simp [State.update, hne]

theorem State.updates_getElem? (hevent : state.events[e]? = some event) :
    (state.updates platform queue call (some e) updates).events[e]? =
      some (event.updates platform queue call state.moment updates) := by
  induction updates generalizing state event with
  | nil => exact hevent
  | cons update updates ih =>
      rw [State.updates_cons]
      exact ih (by simp [State.update, hevent])

/-- The event of a node waits for it. -/
def NodeWaits (platform : Platform) (queue : ℕ) (state : State) (node : Node) : Prop :=
  ∀ e, node.event = some e → node.Proper platform queue ∧
    ∃ event, state.events[e]? = some event ∧
      Waiting platform queue node.call state.moment event

/-- The event of a node is complete. -/
def NodeDone (platform : Platform) (state : State) (node : Node) : Prop :=
  ∀ e, node.event = some e →
    ∃ event, state.events[e]? = some event ∧ LifeCycle platform event

theorem NodeWaits.mono {next : State} {node : Node}
    (hwaits : NodeWaits platform queue state node)
    (hevents : ∀ e, node.event = some e → next.events[e]? = state.events[e]?)
    (hmoment : state.moment ≤ next.moment) : NodeWaits platform queue next node := by
  intro e he
  obtain ⟨hproper, event, hevent, hwaiting⟩ := hwaits e he
  exact ⟨hproper, event, (hevents e he).trans hevent, hwaiting.mono hmoment⟩

theorem NodeWaits.execute {node : Node} (hwaits : NodeWaits platform queue state node) :
    NodeDone platform (state.execute platform queue node) node := by
  intro e he
  obtain ⟨hproper, event, hevent, hwaiting⟩ := hwaits e he
  refine ⟨_, ?_, hproper.completes node.call state.moment event hwaiting⟩
  unfold State.execute
  rw [he]
  exact State.updates_getElem? hevent

theorem State.foldl_execute_frame (platform : Platform) (queue : ℕ) (nodes : List Node)
    (state : State) :
    (nodes.foldl (State.execute platform queue) state).nodes = state.nodes ∧
      (nodes.foldl (State.execute platform queue) state).calls = state.calls ∧
      state.moment ≤ (nodes.foldl (State.execute platform queue) state).moment ∧
      ∀ e, e ∉ nodes.filterMap Node.event →
        (nodes.foldl (State.execute platform queue) state).events[e]? =
          state.events[e]? := by
  induction nodes generalizing state with
  | nil => exact ⟨rfl, rfl, le_rfl, fun _ _ => rfl⟩
  | cons node nodes ih =>
      obtain ⟨hnodes, hcalls, hmoment, hevents⟩ := ih (state.execute platform queue node)
      refine ⟨hnodes.trans (State.updates_nodes _ _), hcalls.trans (State.updates_calls _ _),
        (State.moment_le_updates _ _).trans hmoment, fun e he => ?_⟩
      rw [List.mem_filterMap, List.exists_mem_cons_iff] at he
      push Not at he
      have hrest : e ∉ nodes.filterMap Node.event := by
        rw [List.mem_filterMap]
        rintro ⟨other, hother, hevent⟩
        exact he.2 other hother hevent
      exact (hevents e hrest).trans (State.updates_getElem?_of_ne he.1)

theorem foldl_execute_done (nodes : List Node) (state : State)
    (hwaits : ∀ node ∈ nodes, NodeWaits platform queue state node)
    (hdistinct : (nodes.filterMap Node.event).Nodup) :
    ∀ node ∈ nodes,
      NodeDone platform (nodes.foldl (State.execute platform queue) state) node := by
  induction nodes generalizing state with
  | nil => exact fun _ hnode => absurd hnode List.not_mem_nil
  | cons first nodes ih =>
      -- The other nodes are not concerned by the event of the first one.
      have hseparate : ∀ e, first.event = some e → e ∉ nodes.filterMap Node.event := by
        intro e he
        rw [List.filterMap_cons_some he, List.nodup_cons] at hdistinct
        exact hdistinct.1
      have hrest : (nodes.filterMap Node.event).Nodup :=
        hdistinct.sublist ((List.sublist_cons_self first nodes).filterMap _)
      have hwaits' : ∀ node ∈ nodes,
          NodeWaits platform queue (state.execute platform queue first) node := by
        intro node hnode
        refine (hwaits node (List.mem_cons_of_mem _ hnode)).mono ?_
          (State.moment_le_updates _ _)
        intro e he
        refine State.updates_getElem?_of_ne fun hfirst => ?_
        exact hseparate e hfirst (List.mem_filterMap.mpr ⟨node, hnode, he⟩)
      intro node hnode
      obtain rfl | hlater := List.mem_cons.mp hnode
      · intro e he
        obtain ⟨event, hevent, hcycle⟩ := (hwaits node List.mem_cons_self).execute e he
        have hframe := (State.foldl_execute_frame platform queue
          nodes (state.execute platform queue node)).2.2.2 e (hseparate e he)
        exact ⟨event, hframe.trans hevent, hcycle⟩
      · exact ih _ hwaits' hrest node hlater

end States

section Tracking

variable {own : Option ℕ}

/-- Every event is complete, or waits for a command in its queue, or is the one of the
call in progress. -/
structure Tracked (platform : Platform) (own : Option ℕ) (state : State) : Prop where
  waits : ∀ queue, ∀ node ∈ state.nodes queue, NodeWaits platform queue state node
  distinct : ∀ queue, ((state.nodes queue).filterMap Node.event).Nodup
  tracked : ∀ e event, state.events[e]? = some event →
    LifeCycle platform event ∨ own = some e ∨ e ∈ (state.nodes event.queue).filterMap Node.event
  separate : ∀ e, own = some e → ∀ queue, e ∉ (state.nodes queue).filterMap Node.event

/-- The event of the call in progress waits. -/
def OwnWaits (platform : Platform) (queue : ℕ) (own : Option ℕ) (state : State) : Prop :=
  ∀ e, own = some e → ∃ event, state.events[e]? = some event ∧
    Waiting platform queue state.calls state.moment event

theorem initial_tracked (platform : Platform) : Tracked platform none State.initial where
  waits _ _ hnode := absurd hnode List.not_mem_nil
  distinct _ := List.nodup_nil
  tracked _ _ hevent := nomatch hevent
  separate _ he := nomatch he

theorem clFinish_frame (platform : Platform) (queue : ℕ) (state : State) :
    (clFinish platform queue state).calls = state.calls ∧
      state.moment ≤ (clFinish platform queue state).moment ∧
      ∀ e, e ∉ (state.nodes queue).filterMap Node.event →
        (clFinish platform queue state).events[e]? = state.events[e]? := by
  obtain ⟨_, hcalls, hmoment, hevents⟩ :=
    State.foldl_execute_frame platform queue
      (state.nodes queue) state
  exact ⟨hcalls, hmoment, hevents⟩

theorem clFinish_nodes (platform : Platform) (queue : ℕ) (state : State) :
    (clFinish platform queue state).nodes = Function.update state.nodes queue [] := by
  obtain ⟨hnodes, _⟩ := State.foldl_execute_frame platform queue
    (state.nodes queue) state
  simp only [clFinish, hnodes]

theorem Tracked.clFinish_done (htracked : Tracked platform own state) {e : ℕ}
    (he : e ∈ (state.nodes queue).filterMap Node.event) :
    ∃ event, (clFinish platform queue state).events[e]? = some event ∧
      LifeCycle platform event := by
  obtain ⟨node, hnode, hevent⟩ := List.mem_filterMap.mp he
  exact foldl_execute_done (state.nodes queue) state (htracked.waits queue)
    (htracked.distinct queue) node hnode e hevent

theorem NodeWaits.queue_eq {other e : ℕ} {first second : Node}
    (hfirst : NodeWaits platform queue state first)
    (hsecond : NodeWaits platform other state second)
    (hevent : first.event = some e) (hevent' : second.event = some e) : queue = other := by
  obtain ⟨_, event, hget, hwaiting⟩ := hfirst e hevent
  obtain ⟨_, event', hget', hwaiting'⟩ := hsecond e hevent'
  rw [hget, Option.some.injEq] at hget'
  rw [← hwaiting.onQueue, hget', hwaiting'.onQueue]

theorem Tracked.not_mem_of_ne (htracked : Tracked platform own state) {other e : ℕ}
    (hother : other ≠ queue) (he : e ∈ (state.nodes other).filterMap Node.event) :
    e ∉ (state.nodes queue).filterMap Node.event := by
  intro hmem
  obtain ⟨first, hfirst, hevent⟩ := List.mem_filterMap.mp he
  obtain ⟨second, hsecond, hevent'⟩ := List.mem_filterMap.mp hmem
  exact hother ((htracked.waits other first hfirst).queue_eq
    (htracked.waits queue second hsecond) hevent hevent')

theorem Tracked.clFinish (htracked : Tracked platform own state) (queue : ℕ) :
    Tracked platform own (clFinish platform queue state) := by
  obtain ⟨hcalls, hmoment, hevents⟩ := clFinish_frame platform queue state
  have hnodes : ∀ other, other ≠ queue →
      (EventUpdates.clFinish platform queue state).nodes other = state.nodes other := by
    intro other hother
    rw [clFinish_nodes, Function.update_of_ne hother]
  have hself : (EventUpdates.clFinish platform queue state).nodes queue = [] := by
    rw [clFinish_nodes, Function.update_self]
  refine ⟨?_, ?_, ?_, ?_⟩
  · intro other node hnode
    by_cases hother : other = queue
    · rw [hother, hself] at hnode
      exact absurd hnode List.not_mem_nil
    · rw [hnodes other hother] at hnode
      refine (htracked.waits other node hnode).mono ?_ hmoment
      intro e he
      exact hevents e (htracked.not_mem_of_ne hother (List.mem_filterMap.mpr ⟨node, hnode, he⟩))
  · intro other
    by_cases hother : other = queue
    · rw [hother, hself]
      exact List.nodup_nil
    · rw [hnodes other hother]
      exact htracked.distinct other
  · intro e event hevent
    by_cases he : e ∈ (state.nodes queue).filterMap Node.event
    · obtain ⟨done, hdone, hcycle⟩ := htracked.clFinish_done he
      rw [hevent, Option.some.injEq] at hdone
      exact Or.inl (hdone ▸ hcycle)
    · rw [hevents e he] at hevent
      obtain hcycle | hown | hmem := htracked.tracked e event hevent
      · exact Or.inl hcycle
      · exact Or.inr (Or.inl hown)
      · have hother : event.queue ≠ queue := fun heq => he (heq ▸ hmem)
        rw [hnodes _ hother]
        exact Or.inr (Or.inr hmem)
  · intro e he other
    by_cases hother : other = queue
    · rw [hother, hself]
      exact List.not_mem_nil
    · rw [hnodes other hother]
      exact htracked.separate e he other

theorem OwnWaits.clFinish (hwaits : OwnWaits platform queue own state)
    (htracked : Tracked platform own state) (other : ℕ) :
    OwnWaits platform queue own (clFinish platform other state) := by
  intro e he
  obtain ⟨hcalls, hmoment, hevents⟩ := clFinish_frame platform other state
  obtain ⟨event, hevent, hwaiting⟩ := hwaits e he
  refine ⟨event, (hevents e (htracked.separate e he other)).trans hevent, ?_⟩
  rw [hcalls]
  exact hwaiting.mono hmoment

/-- The call completes its own event. -/
theorem Tracked.complete (htracked : Tracked platform own state)
    (hwaits : OwnWaits platform queue own state) {updates : List Update}
    (hcompletes : Completes platform queue updates) :
    Tracked platform none (state.updates platform queue state.calls own updates) := by
  have hframe : ∀ e, own ≠ some e →
      (state.updates platform queue state.calls own updates).events[e]? =
        state.events[e]? :=
    fun e he => State.updates_getElem?_of_ne he
  refine ⟨?_, ?_, ?_, fun _ he => nomatch he⟩
  · intro other node hnode
    rw [State.updates_nodes] at hnode
    refine (htracked.waits other node hnode).mono ?_ (State.moment_le_updates _ _)
    intro e he
    refine hframe e fun hown => ?_
    exact htracked.separate e hown other (List.mem_filterMap.mpr ⟨node, hnode, he⟩)
  · intro other
    rw [State.updates_nodes]
    exact htracked.distinct other
  · intro e event hevent
    rw [State.updates_nodes]
    by_cases hown : own = some e
    · obtain ⟨before, hbefore, hwaiting⟩ := hwaits e hown
      rw [hown, State.updates_getElem? hbefore, Option.some.injEq] at hevent
      rw [← hevent]
      exact Or.inl (hcompletes _ _ _ hwaiting)
    · rw [hframe e hown] at hevent
      obtain hcycle | hself | hmem := htracked.tracked e event hevent
      · exact Or.inl hcycle
      · exact absurd hself hown
      · exact Or.inr (Or.inr hmem)

/-- The call appends a command with its own event. -/
theorem Tracked.append (htracked : Tracked platform own state)
    (hwaits : OwnWaits platform queue own state) {type : CommandType}
    (hproper : ∀ e, own = some e →
      Node.Proper platform queue ⟨type, state.calls, own⟩) :
    Tracked platform none (state.append queue ⟨type, state.calls, own⟩) := by
  have hnodes : ∀ other, other ≠ queue →
      (state.append queue ⟨type, state.calls, own⟩).nodes other = state.nodes other :=
    fun other hother => Function.update_of_ne hother _ _
  have hself : (state.append queue ⟨type, state.calls, own⟩).nodes queue =
      state.nodes queue ++ [⟨type, state.calls, own⟩] :=
    Function.update_self ..
  have hmem : ∀ other e, e ∈ (state.nodes other).filterMap Node.event →
      e ∈ ((state.append queue ⟨type, state.calls, own⟩).nodes other).filterMap
        Node.event := by
    intro other e he
    by_cases hother : other = queue
    · rw [hother, hself, List.filterMap_append, List.mem_append]
      exact Or.inl (hother ▸ he)
    · rw [hnodes other hother]
      exact he
  refine ⟨?_, ?_, ?_, fun _ he => nomatch he⟩
  · intro other node hnode
    by_cases hother : other = queue
    · subst hother
      rw [hself, List.mem_append, List.mem_singleton] at hnode
      obtain hold | rfl := hnode
      · exact htracked.waits other node hold
      · exact fun e he => ⟨hproper e he, hwaits e he⟩
    · rw [hnodes other hother] at hnode
      exact htracked.waits other node hnode
  · intro other
    by_cases hother : other = queue
    · rw [hother, hself, List.filterMap_append]
      cases hown : own with
      | none => simpa using htracked.distinct queue
      | some e =>
          refine List.Nodup.append (htracked.distinct queue) (List.nodup_singleton e) ?_
          intro e' hold hnew
          rw [List.mem_singleton.mp hnew] at hold
          exact htracked.separate e hown queue hold
    · rw [hnodes other hother]
      exact htracked.distinct other
  · intro e event hevent
    obtain hcycle | hown | hold := htracked.tracked e event hevent
    · exact Or.inl hcycle
    · refine Or.inr (Or.inr ?_)
      obtain ⟨event', hevent', hwaiting⟩ := hwaits e hown
      rw [show state.events[e]? = some event from hevent, Option.some.injEq] at hevent'
      rw [hevent', hwaiting.onQueue, hself, List.filterMap_append, List.mem_append]
      exact Or.inr (by simp [hown])
    · exact Or.inr (Or.inr (hmem _ e hold))

end Tracking

section Calls

variable {request : EventRequest}

theorem createEvent_none (hevent : request.event = none) :
    state.createEvent platform queue request = some (state, none) := by
  simp [State.createEvent, hevent]

theorem createEvent_failed (hevent : request.event ≠ none)
    (hallocated : request.allocated = false) :
    state.createEvent platform queue request = none := by
  obtain ⟨_, hold⟩ := Option.ne_none_iff_exists'.mp hevent
  simp [State.createEvent, hold, hallocated]

/-- The event that a call on the queue creates. -/
def newEvent (platform : Platform) (queue : ℕ) (state : State) : Event :=
  Event.update platform queue state.calls state.moment
    ⟨queue, state.calls, [], none, none, none, none⟩ (.stage .queued)

theorem newEvent_waiting (platform : Platform) (queue : ℕ) (state : State) :
    Waiting platform queue state.calls (state.moment + 1) (newEvent platform queue state) := by
  obtain ⟨hqueue, hcreator, hwrites⟩ := Event.update_frame platform queue state.calls
    state.moment ⟨queue, state.calls, [], none, none, none, none⟩ (.stage .queued)
  refine ⟨hqueue, hcreator, hwrites.trans ?_, fun hprofiling => ?_⟩
  · cases platform.assertions <;> rfl
  · exact ⟨state.moment, Nat.lt_succ_self _, by
      simp [newEvent, Event.update, hprofiling, Event.setTime]⟩

theorem createEvent_some (hevent : request.event ≠ none)
    (hallocated : request.allocated = true) :
    state.createEvent platform queue request =
      some ({ state with
        events := state.events ++ [newEvent platform queue state]
        moment := state.moment + 1 }, some state.events.length) := by
  obtain ⟨_, hold⟩ := Option.ne_none_iff_exists'.mp hevent
  simp [State.createEvent, hold, hallocated, State.updates, State.update, newEvent,
    List.modify_eq_take_drop]

/-- A new event waits. -/
theorem Tracked.createEvent (htracked : Tracked platform none state) (queue : ℕ) :
    Tracked platform (some state.events.length)
      { state with
        events := state.events ++ [newEvent platform queue state]
        moment := state.moment + 1 } := by
  have hlt : ∀ other e, e ∈ (state.nodes other).filterMap Node.event →
      e < state.events.length := by
    intro other e he
    obtain ⟨node, hnode, hevent⟩ := List.mem_filterMap.mp he
    obtain ⟨_, event, hget, _⟩ := htracked.waits other node hnode e hevent
    exact (List.getElem?_eq_some_iff.mp hget).1
  refine ⟨?_, htracked.distinct, ?_, ?_⟩
  · intro other node hnode
    refine (htracked.waits other node hnode).mono (fun e he => ?_) (Nat.le_succ _)
    exact List.getElem?_append_left
      (hlt other e (List.mem_filterMap.mpr ⟨node, hnode, he⟩))
  · intro e event hget
    by_cases he : e < state.events.length
    · rw [List.getElem?_append_left he] at hget
      obtain hcycle | hown | hmem := htracked.tracked e event hget
      · exact Or.inl hcycle
      · cases hown
      · exact Or.inr (Or.inr hmem)
    · have hlength := (List.getElem?_eq_some_iff.mp hget).1
      rw [List.length_append, List.length_singleton] at hlength
      exact Or.inr (Or.inl (congrArg some (by omega)))
  · intro e he other hmem
    have hbound := hlt other e hmem
    rw [Option.some.injEq] at he
    omega

/-- What a function does with an event that waits, or with none, leaves all events
tracked. -/
theorem Tracked.enqueueWith (htracked : Tracked platform none state)
    {body : State → Option ℕ → State}
    (hnone : request.event = none → ∀ state, Tracked platform none state →
      Tracked platform none (body state none))
    (hsome : request.event ≠ none → request.allocated = true → ∀ state e,
      Tracked platform (some e) state → OwnWaits platform queue (some e) state →
      Tracked platform none (body state (some e))) :
    Tracked platform none (enqueueWith platform queue request body state) := by
  unfold EventUpdates.enqueueWith
  by_cases hevent : request.event = none
  · rw [createEvent_none hevent]
    exact hnone hevent state htracked
  · cases hallocated : request.allocated with
    | false =>
        rw [createEvent_failed hevent hallocated]
        exact htracked
    | true =>
        rw [createEvent_some hevent hallocated]
        refine hsome hevent hallocated _ _ (htracked.createEvent queue) fun e he => ?_
        rw [← Option.some.inj he]
        exact ⟨_, by simp, newEvent_waiting platform queue state⟩

end Calls

end Pocl.EventUpdates
