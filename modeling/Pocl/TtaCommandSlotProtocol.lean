import Pocl.TtaCommandSlot

/-!
# Safety and progress of the slot protocol

At any time one of the two agents has something to do and the other one polls.
The phases of a command follow one another: there is room, the words are copied,
the command is ready, running, finishing, finished, and its chunks are freed.

Every action in the log is judged by the actions before it.  The invariant says
in which phase the state is and what the log has recorded by then; it gives the
safety of every schedule and the end of every fair one.
-/

namespace Pocl

namespace TtaSlot

section Words

theorem mem_slotWords (word : SlotWord) : word ∈ slotWords := by
  cases word with
  | status => simp [slotWords]
  | kernel => simp [slotWords]
  | arg i => simp [slotWords]
  | dynamicLocalArgSize i => simp [slotWords]
  | workDim => simp [slotWords]
  | numGroups i => simp [slotWords]
  | globalOffset i => simp [slotWords]

end Words

/-- What the device has to launch for a command: exactly the words that the host
has given for it. -/
def Command.launch (argCount : Word → Fin (maxKernelArgs + 1)) (cmd : Command) :
    Launch where
  kernel := cmd.words .kernel
  args := ((List.finRange maxKernelArgs).take (argCount (cmd.words .kernel))).map
    fun i => cmd.words (.arg i)
  lastGidX := cmd.words (.numGroups 0) - 1
  numGroupsY := if 2 ≤ cmd.words .workDim then cmd.words (.numGroups 1) else 1
  numGroupsZ := if cmd.words .workDim = 3 then cmd.words (.numGroups 2) else 1
  workDim := cmd.words .workDim
  numGroups := fun i => cmd.words (.numGroups i)
  globalOffset := fun i => cmd.words (.globalOffset i)

section Reading

variable {α β : Type} {slot : SlotWord → Word}

@[simp] theorem Reads.run_bind (program : Reads α) (next : α → Reads β) :
    (program >>= next).run slot = (next (program.run slot)).run slot := by
  change (program.bind next).run slot = _
  induction program with
  | done result => rfl
  | read word after ih => exact ih (slot word)

@[simp] theorem Reads.run_pure (result : α) :
    (pure result : Reads α).run slot = result := rfl

@[simp] theorem Reads.run_word (word : SlotWord) :
    (Reads.word word).run slot = slot word := rfl

theorem run_readArgs (indices : List (Fin maxKernelArgs)) :
    (readArgs indices).run slot = indices.map fun i => slot (.arg i) := by
  induction indices with
  | nil => rfl
  | cons i rest ih => simp only [readArgs, Reads.run_bind, Reads.run_word, ih,
      Reads.run_pure, List.map_cons]

theorem run_wgLaunch
    (argCount : Word → Fin (maxKernelArgs + 1)) (cmd : Command)
    (hslot : ∀ word, word ≠ .status → slot word = cmd.words word) :
    (wgLaunch argCount).run slot = cmd.launch argCount := by
  have hkernel := hslot .kernel (by decide)
  have hdim := hslot .workDim (by decide)
  have hgroups (i : Fin 3) : slot (.numGroups i) = cmd.words (.numGroups i) :=
    hslot _ (by simp)
  have hoffset (i : Fin 3) : slot (.globalOffset i) = cmd.words (.globalOffset i) :=
    hslot _ (by simp)
  have hargs (i : Fin maxKernelArgs) : slot (.arg i) = cmd.words (.arg i) :=
    hslot _ (by simp)
  have hgroupsVec : ![cmd.words (.numGroups 0), cmd.words (.numGroups 1),
      cmd.words (.numGroups 2)] = fun i => cmd.words (.numGroups i) := by
    funext i
    fin_cases i <;> rfl
  have hoffsetVec : ![cmd.words (.globalOffset 0), cmd.words (.globalOffset 1),
      cmd.words (.globalOffset 2)] = fun i => cmd.words (.globalOffset i) := by
    funext i
    fin_cases i <;> rfl
  simp only [wgLaunch, Reads.run_bind, Reads.run_word, run_readArgs, Reads.run_pure,
    apply_ite (Reads.run slot), hkernel, hdim, hgroups, hoffset, hargs, hgroupsVec,
    hoffsetVec, Command.launch]
  split_ifs <;> rfl

end Reading

section History

/-- The launches of a log, the first one first. -/
def launches : List Action → List Launch
  | [] => []
  | .launched launch :: earlier => launches earlier ++ [launch]
  | _ :: earlier => launches earlier

/-- Whether a command has been published and not been finished. -/
def inFlight : List Action → Bool
  | [] => false
  | .hostWrite word value :: earlier =>
      if word = .status ∧ value = kstReady then true else inFlight earlier
  | .deviceWrite word value :: earlier =>
      if word = .status ∧ value = kstFinished then false else inFlight earlier
  | _ :: earlier => inFlight earlier

def finishedCount : List Action → ℕ
  | [] => 0
  | .deviceWrite word value :: earlier =>
      if word = .status ∧ value = kstFinished then
        finishedCount earlier + 1
      else
        finishedCount earlier
  | _ :: earlier => finishedCount earlier

/-- The writes of the host since the device finished the command before. -/
def recentWrites : List Action → List (SlotWord × Word)
  | [] => []
  | .hostWrite word value :: earlier => (word, value) :: recentWrites earlier
  | .deviceWrite word value :: earlier =>
      if word = .status ∧ value = kstFinished then [] else recentWrites earlier
  | _ :: earlier => recentWrites earlier

variable (argCount : Word → Fin (maxKernelArgs + 1)) (commands : List Command)

/-- What may happen behind the given actions: the host writes nothing while a
command is in flight; the device begins a command only when all its words have
been written; it launches the next command that has not been launched, with its
words; and the chunks of a command are freed only when it is finished. -/
def Action.SafeAfter (earlier : List Action) : Action → Prop
  | .hostWrite _ _ => inFlight earlier = false
  | .deviceWrite word value =>
      word = .status ∧
        (value = kstRunning →
          ∃ cmd, commands[(launches earlier).length]? = some cmd ∧
            ∀ word, (word, cmd.devCmd word) ∈ recentWrites earlier)
  | .launched launch =>
      ∃ cmd, commands[(launches earlier).length]? = some cmd ∧
        launch = cmd.launch argCount
  | .freed command _ => command < finishedCount earlier

def SafeLog : List Action → Prop
  | [] => True
  | action :: earlier =>
      action.SafeAfter argCount commands earlier ∧ SafeLog earlier

end History

section Phases

variable (argCount : Word → Fin (maxKernelArgs + 1)) (commands : List Command)

/-- Where the two agents are and what the log has recorded. -/
structure At (state : State) (host : HostPc) (device : DevicePc) (status : Word)
    (launched finished : ℕ) (flying : Bool) : Prop where
  host_eq : state.host = host
  device_eq : state.device = device
  status_eq : state.slot .status = status
  safe : SafeLog argCount commands state.log
  launches_eq : launches state.log =
    (commands.take launched).map (Command.launch argCount)
  finished_eq : finishedCount state.log = finished
  inFlight_eq : inFlight state.log = flying

/-- The words other than those that are left are in the slot. -/
def Copied (cmd : Command) (left : List SlotWord) (state : State) : Prop :=
  ∀ word, word ∉ left →
    (word ≠ .status → state.slot word = cmd.words word) ∧
      (word, cmd.devCmd word) ∈ recentWrites state.log

inductive Phase (state : State) : Prop
  | room
      (hat : At argCount commands state .waitRoom .poll kstFree state.current
        state.current false) : Phase state
  | copying (cmd : Command) (left : List SlotWord)
      (hcmd : commands[state.current]? = some cmd)
      (hat : At argCount commands state (.copy left) .poll kstFree state.current
        state.current false)
      (hcopied : Copied cmd left state) : Phase state
  | ready (cmd : Command) (device : DevicePc)
      (hcmd : commands[state.current]? = some cmd)
      (hat : At argCount commands state .waitFinished device kstReady state.current
        state.current true)
      (hdevice : device = .poll ∨ device = .claim)
      (hcopied : Copied cmd [] state) : Phase state
  | running (cmd : Command) (program : Reads Launch)
      (hcmd : commands[state.current]? = some cmd)
      (hat : At argCount commands state .waitFinished (.execute program) kstRunning
        state.current state.current true)
      (hprogram : program.run state.slot = cmd.launch argCount) : Phase state
  | finishing (cmd : Command)
      (hcmd : commands[state.current]? = some cmd)
      (hat : At argCount commands state .waitFinished .finish kstRunning
        (state.current + 1) state.current true) : Phase state
  | finished (cmd : Command) (host : HostPc)
      (hcmd : commands[state.current]? = some cmd)
      (hat : At argCount commands state host .poll kstFinished (state.current + 1)
        (state.current + 1) false)
      (hhost : host = .waitFinished ∨ host = .release) : Phase state
  | freeing (cmd : Command) (left : List ℕ)
      (hcmd : commands[state.current]? = some cmd)
      (hat : At argCount commands state (.freeChunks left) .poll kstFree
        (state.current + 1) (state.current + 1) false) : Phase state

variable {argCount commands}

theorem phase_initial {slot : SlotWord → Word} (hfree : slot .status = kstFree) :
    Phase argCount commands (.initial slot) :=
  .room
    { host_eq := rfl
      device_eq := rfl
      status_eq := hfree
      safe := trivial
      launches_eq := rfl
      finished_eq := rfl
      inFlight_eq := rfl }

variable {state : State}

theorem deviceStep_of_poll
    (hdevice : state.device = .poll) (hstatus : state.slot .status ≠ kstReady) :
    state.deviceStep argCount = state := by
  rw [State.deviceStep, hdevice]
  exact if_neg hstatus

theorem hostStep_of_waitFinished
    {cmd : Command} (hcmd : commands[state.current]? = some cmd)
    (hhost : state.host = .waitFinished)
    (hstatus : state.slot .status ≠ kstFinished) :
    state.hostStep commands = state := by
  rw [State.hostStep, hcmd, hhost]
  exact if_neg hstatus

section Writes

variable {host : HostPc} {device : DevicePc} {status : Word}
  {launched finished : ℕ} {flying : Bool}

theorem At.hostWrite
    (hat : At argCount commands state host device status launched finished false)
    (host' : HostPc) {word : SlotWord} {value status' : Word} {flying' : Bool}
    (hstatus : Function.update state.slot word value .status = status')
    (hflying : (if word = .status ∧ value = kstReady then true else false) =
      flying') :
    At argCount commands { state.hostWrite word value with host := host' } host'
      device status' launched finished flying' where
  host_eq := rfl
  device_eq := hat.device_eq
  status_eq := hstatus
  safe := ⟨hat.inFlight_eq, hat.safe⟩
  launches_eq := hat.launches_eq
  finished_eq := hat.finished_eq
  inFlight_eq := by
    simp only [State.hostWrite, inFlight, hat.inFlight_eq]
    exact hflying

theorem recentWrites_hostWrite
    (state : State) (host' : HostPc) (word : SlotWord) (value : Word) :
    recentWrites { state.hostWrite word value with host := host' }.log =
      (word, value) :: recentWrites state.log := rfl

theorem launches_take_succ
    {cmd : Command} (hcmd : commands[state.current]? = some cmd) :
    (commands.take (state.current + 1)).map (Command.launch argCount) =
      (commands.take state.current).map (Command.launch argCount) ++
        [cmd.launch argCount] := by
  rw [List.take_add_one, hcmd, List.map_append]
  rfl

theorem At.length_launches
    {cmd : Command} (hcmd : commands[state.current]? = some cmd)
    (hat : At argCount commands state host device status state.current finished
      flying) :
    (launches state.log).length = state.current := by
  obtain ⟨hlt, -⟩ := List.getElem?_eq_some_iff.mp hcmd
  rw [hat.launches_eq, List.length_map, List.length_take]
  omega

end Writes

section Steps

variable {cmd : Command}

theorem room_next
    (hcmd : commands[state.current]? = some cmd)
    (hat : At argCount commands state .waitRoom .poll kstFree state.current
      state.current false) :
    state.hostStep commands = { state with host := .copy slotWords } ∧
      Phase argCount commands { state with host := .copy slotWords } := by
  constructor
  · rw [State.hostStep, hcmd, hat.host_eq]
    exact if_pos hat.status_eq
  · exact .copying cmd slotWords hcmd { hat with host_eq := rfl }
      fun word hword => absurd (mem_slotWords word) hword

theorem copy_next
    {word : SlotWord} {left : List SlotWord}
    (hcmd : commands[state.current]? = some cmd)
    (hat : At argCount commands state (.copy (word :: left)) .poll kstFree
      state.current state.current false)
    (hcopied : Copied cmd (word :: left) state) :
    state.hostStep commands =
        { state.hostWrite word (cmd.devCmd word) with host := .copy left } ∧
      Phase argCount commands
        { state.hostWrite word (cmd.devCmd word) with host := .copy left } := by
  refine ⟨by rw [State.hostStep, hcmd, hat.host_eq], ?_⟩
  refine .copying cmd left hcmd (hat.hostWrite (.copy left) ?_ ?_) ?_
  · by_cases hword : word = .status
    · subst word
      exact Function.update_self _ _ _
    · rw [Function.update_of_ne (Ne.symm hword)]
      exact hat.status_eq
  · refine if_neg ?_
    rintro ⟨rfl, hready⟩
    exact absurd hready (by simp [Command.devCmd, kstFree, kstReady])
  · intro other hother
    rw [recentWrites_hostWrite]
    by_cases heq : other = word
    · subst other
      refine ⟨fun hne => ?_, List.mem_cons_self⟩
      simp [State.hostWrite, Command.devCmd, hne]
    · obtain ⟨hslot, hwritten⟩ := hcopied other (by simp [heq, hother])
      refine ⟨fun hne => ?_, List.mem_cons_of_mem _ hwritten⟩
      rw [← hslot hne]
      exact Function.update_of_ne heq _ _

theorem publish_next
    (hcmd : commands[state.current]? = some cmd)
    (hat : At argCount commands state (.copy []) .poll kstFree state.current
      state.current false)
    (hcopied : Copied cmd [] state) :
    state.hostStep commands =
        { state.hostWrite .status kstReady with host := .waitFinished } ∧
      Phase argCount commands
        { state.hostWrite .status kstReady with host := .waitFinished } := by
  refine ⟨by rw [State.hostStep, hcmd, hat.host_eq], ?_⟩
  refine .ready cmd .poll hcmd (hat.hostWrite .waitFinished ?_ ?_) (.inl rfl) ?_
  · exact Function.update_self _ _ _
  · exact if_pos ⟨rfl, rfl⟩
  · intro word hword
    obtain ⟨hslot, hwritten⟩ := hcopied word hword
    refine ⟨fun hne => ?_, List.mem_cons_of_mem _ hwritten⟩
    rw [← hslot hne]
    exact Function.update_of_ne hne _ _

theorem poll_next
    (hcmd : commands[state.current]? = some cmd)
    (hat : At argCount commands state .waitFinished .poll kstReady state.current
      state.current true)
    (hcopied : Copied cmd [] state) :
    state.deviceStep argCount = { state with device := .claim } ∧
      Phase argCount commands { state with device := .claim } := by
  constructor
  · rw [State.deviceStep, hat.device_eq]
    exact if_pos hat.status_eq
  · exact .ready cmd .claim hcmd { hat with device_eq := rfl } (.inr rfl) hcopied

theorem claim_next
    (hcmd : commands[state.current]? = some cmd)
    (hat : At argCount commands state .waitFinished .claim kstReady state.current
      state.current true)
    (hcopied : Copied cmd [] state) :
    state.deviceStep argCount =
        { state.deviceWrite .status kstRunning with
          device := .execute (wgLaunch argCount) } ∧
      Phase argCount commands
        { state.deviceWrite .status kstRunning with
          device := .execute (wgLaunch argCount) } := by
  constructor
  · rw [State.deviceStep, hat.device_eq]
  · refine .running cmd (wgLaunch argCount) hcmd
      { host_eq := hat.host_eq
        device_eq := rfl
        status_eq := by simp [State.deviceWrite]
        safe := ⟨⟨rfl, fun _ => ⟨cmd, ?_, fun word => ?_⟩⟩, hat.safe⟩
        launches_eq := hat.launches_eq
        finished_eq := hat.finished_eq
        inFlight_eq := hat.inFlight_eq } ?_
    · rw [hat.length_launches hcmd]
      exact hcmd
    · exact (hcopied word List.not_mem_nil).2
    · refine run_wgLaunch argCount cmd fun word hne => ?_
      rw [← (hcopied word List.not_mem_nil).1 hne]
      exact Function.update_of_ne hne _ _

theorem read_next
    {word : SlotWord} {next : Word → Reads Launch}
    (hcmd : commands[state.current]? = some cmd)
    (hat : At argCount commands state .waitFinished (.execute (.read word next))
      kstRunning state.current state.current true)
    (hprogram : (Reads.read word next).run state.slot = cmd.launch argCount) :
    state.deviceStep argCount =
        { state with device := .execute (next (state.slot word)) } ∧
      Phase argCount commands
        { state with device := .execute (next (state.slot word)) } := by
  constructor
  · rw [State.deviceStep, hat.device_eq]
  · exact .running cmd (next (state.slot word)) hcmd { hat with device_eq := rfl }
      hprogram

theorem launch_next
    {launch : Launch}
    (hcmd : commands[state.current]? = some cmd)
    (hat : At argCount commands state .waitFinished (.execute (.done launch))
      kstRunning state.current state.current true)
    (hprogram : launch = cmd.launch argCount) :
    state.deviceStep argCount =
        { state with device := .finish, log := .launched launch :: state.log } ∧
      Phase argCount commands
        { state with device := .finish, log := .launched launch :: state.log } := by
  constructor
  · rw [State.deviceStep, hat.device_eq]
  · refine .finishing cmd hcmd
      { host_eq := hat.host_eq
        device_eq := rfl
        status_eq := hat.status_eq
        safe := ⟨⟨cmd, ?_, hprogram⟩, hat.safe⟩
        launches_eq := ?_
        finished_eq := hat.finished_eq
        inFlight_eq := hat.inFlight_eq }
    · rw [hat.length_launches hcmd]
      exact hcmd
    · rw [launches_take_succ hcmd, ← hat.launches_eq, ← hprogram]
      rfl

theorem finish_next
    (hcmd : commands[state.current]? = some cmd)
    (hat : At argCount commands state .waitFinished .finish kstRunning
      (state.current + 1) state.current true) :
    state.deviceStep argCount =
        { state.deviceWrite .status kstFinished with device := .poll } ∧
      Phase argCount commands
        { state.deviceWrite .status kstFinished with device := .poll } := by
  constructor
  · rw [State.deviceStep, hat.device_eq]
  · exact .finished cmd .waitFinished hcmd
      { host_eq := hat.host_eq
        device_eq := rfl
        status_eq := by simp [State.deviceWrite]
        safe := ⟨⟨rfl, fun heq => absurd heq (by decide)⟩, hat.safe⟩
        launches_eq := hat.launches_eq
        finished_eq := by simp [State.deviceWrite, finishedCount, hat.finished_eq]
        inFlight_eq := rfl } (.inl rfl)

theorem waitFinished_next
    (hcmd : commands[state.current]? = some cmd)
    (hat : At argCount commands state .waitFinished .poll kstFinished
      (state.current + 1) (state.current + 1) false) :
    state.hostStep commands = { state with host := .release } ∧
      Phase argCount commands { state with host := .release } := by
  constructor
  · rw [State.hostStep, hcmd, hat.host_eq]
    exact if_pos hat.status_eq
  · exact .finished cmd .release hcmd { hat with host_eq := rfl } (.inr rfl)

theorem release_next
    (hcmd : commands[state.current]? = some cmd)
    (hat : At argCount commands state .release .poll kstFinished
      (state.current + 1) (state.current + 1) false) :
    state.hostStep commands =
        { state.hostWrite .status kstFree with
          host := .freeChunks cmd.tempChunks } ∧
      Phase argCount commands
        { state.hostWrite .status kstFree with
          host := .freeChunks cmd.tempChunks } := by
  constructor
  · rw [State.hostStep, hcmd, hat.host_eq]
  · exact .freeing cmd cmd.tempChunks hcmd
      (hat.hostWrite _ (Function.update_self _ _ _) (if_neg (by decide)))

theorem free_next
    {chunk : ℕ} {left : List ℕ}
    (hcmd : commands[state.current]? = some cmd)
    (hat : At argCount commands state (.freeChunks (chunk :: left)) .poll kstFree
      (state.current + 1) (state.current + 1) false) :
    state.hostStep commands =
        { state with
          host := .freeChunks left
          log := .freed state.current chunk :: state.log } ∧
      Phase argCount commands
        { state with
          host := .freeChunks left
          log := .freed state.current chunk :: state.log } := by
  constructor
  · rw [State.hostStep, hcmd, hat.host_eq]
  · refine .freeing cmd left hcmd
      { host_eq := rfl
        device_eq := hat.device_eq
        status_eq := hat.status_eq
        safe := ⟨?_, hat.safe⟩
        launches_eq := hat.launches_eq
        finished_eq := hat.finished_eq
        inFlight_eq := hat.inFlight_eq }
    rw [Action.SafeAfter, hat.finished_eq]
    exact Nat.lt_succ_self state.current

theorem freed_next
    (hcmd : commands[state.current]? = some cmd)
    (hat : At argCount commands state (.freeChunks []) .poll kstFree
      (state.current + 1) (state.current + 1) false) :
    state.hostStep commands =
        { state with host := .waitRoom, current := state.current + 1 } ∧
      Phase argCount commands
        { state with host := .waitRoom, current := state.current + 1 } := by
  constructor
  · rw [State.hostStep, hcmd, hat.host_eq]
  · exact .room { hat with host_eq := rfl }

end Steps

/-- The number of reads of a program on a slot that nobody writes. -/
def Reads.depth {α : Type} (slot : SlotWord → Word) : Reads α → ℕ
  | done _ => 0
  | read word next => (next (slot word)).depth slot + 1

variable (commands) in
/-- The commands that are left, the phase of the current one and the steps that
are left in that phase. -/
def rank (state : State) : ℕ ×ₗ ℕ ×ₗ ℕ :=
  let inner : ℕ × ℕ :=
    match state.host with
    | .waitRoom => (6, 0)
    | .copy left => (5, left.length)
    | .waitFinished =>
        match state.device with
        | .poll => if state.slot .status = kstReady then (4, 1) else (1, 1)
        | .claim => (4, 0)
        | .execute program => (3, program.depth state.slot)
        | .finish => (2, 0)
    | .release => (1, 0)
    | .freeChunks left => (0, left.length)
  toLex (commands.length - state.current, toLex inner)

/-- One agent comes closer to the end, and the other one polls. -/
structure Advances (argCount : Word → Fin (maxKernelArgs + 1))
    (commands : List Command) (state : State) (agent : Agent) : Prop where
  waits : ∀ other, other ≠ agent → step argCount commands other state = state
  phase : Phase argCount commands (step argCount commands agent state)
  rank_lt : rank commands (step argCount commands agent state) <
    rank commands state

theorem rank_lt_of_inner
    {after : State} (hcurrent : after.current = state.current)
    (hinner : (ofLex (rank commands after)).2 < (ofLex (rank commands state)).2) :
    rank commands after < rank commands state := by
  rw [Prod.Lex.lt_iff]
  refine .inr ⟨?_, hinner⟩
  simp only [rank, ofLex_toLex, hcurrent]

theorem advances_host
    {after : State} (hdevice : state.device = .poll)
    (hstatus : state.slot .status ≠ kstReady)
    (hnext : state.hostStep commands = after ∧ Phase argCount commands after)
    (hrank : rank commands after < rank commands state) :
    Advances argCount commands state .host where
  waits := by
    intro other hne
    cases other with
    | host => exact absurd rfl hne
    | device => exact deviceStep_of_poll hdevice hstatus
  phase := by
    rw [step, hnext.1]
    exact hnext.2
  rank_lt := by
    rw [step, hnext.1]
    exact hrank

theorem advances_device
    {cmd : Command} {after : State}
    (hcmd : commands[state.current]? = some cmd)
    (hhost : state.host = .waitFinished)
    (hstatus : state.slot .status ≠ kstFinished)
    (hnext : state.deviceStep argCount = after ∧ Phase argCount commands after)
    (hrank : rank commands after < rank commands state) :
    Advances argCount commands state .device where
  waits := by
    intro other hne
    cases other with
    | host => exact hostStep_of_waitFinished hcmd hhost hstatus
    | device => exact absurd rfl hne
  phase := by
    rw [step, hnext.1]
    exact hnext.2
  rank_lt := by
    rw [step, hnext.1]
    exact hrank

theorem Phase.exists_advances
    {cmd : Command} (hphase : Phase argCount commands state)
    (hcmd : commands[state.current]? = some cmd) :
    ∃ agent, Advances argCount commands state agent := by
  cases hphase with
  | room hat =>
      refine ⟨.host, advances_host hat.device_eq ?_ (room_next hcmd hat) ?_⟩
      · rw [hat.status_eq]
        decide
      · refine rank_lt_of_inner rfl ?_
        rw [Prod.Lex.lt_iff]
        simp [rank, hat.host_eq]
  | copying cmd left hcmd hat hcopied =>
      have hwaits : state.slot .status ≠ kstReady := by
        rw [hat.status_eq]
        decide
      cases left with
      | nil =>
          refine ⟨.host, advances_host hat.device_eq hwaits
            (publish_next hcmd hat hcopied) (rank_lt_of_inner rfl ?_)⟩
          rw [Prod.Lex.lt_iff]
          simp [rank, State.hostWrite, hat.host_eq, hat.device_eq]
      | cons word left =>
          refine ⟨.host, advances_host hat.device_eq hwaits
            (copy_next hcmd hat hcopied) (rank_lt_of_inner rfl ?_)⟩
          rw [Prod.Lex.lt_iff]
          simp [rank, State.hostWrite, hat.host_eq]
  | ready cmd device hcmd hat hdevice hcopied =>
      have hwaits : state.slot .status ≠ kstFinished := by
        rw [hat.status_eq]
        decide
      rcases hdevice with rfl | rfl
      · refine ⟨.device, advances_device hcmd hat.host_eq hwaits
          (poll_next hcmd hat hcopied) (rank_lt_of_inner rfl ?_)⟩
        rw [Prod.Lex.lt_iff]
        simp [rank, hat.host_eq, hat.device_eq, hat.status_eq]
      · refine ⟨.device, advances_device hcmd hat.host_eq hwaits
          (claim_next hcmd hat hcopied) (rank_lt_of_inner rfl ?_)⟩
        rw [Prod.Lex.lt_iff]
        simp [rank, State.deviceWrite, hat.host_eq, hat.device_eq]
  | running cmd program hcmd hat hprogram =>
      have hwaits : state.slot .status ≠ kstFinished := by
        rw [hat.status_eq]
        decide
      cases program with
      | done launch =>
          refine ⟨.device, advances_device hcmd hat.host_eq hwaits
            (launch_next hcmd hat hprogram) (rank_lt_of_inner rfl ?_)⟩
          rw [Prod.Lex.lt_iff]
          simp [rank, hat.host_eq, hat.device_eq]
      | read word next =>
          refine ⟨.device, advances_device hcmd hat.host_eq hwaits
            (read_next hcmd hat hprogram) (rank_lt_of_inner rfl ?_)⟩
          rw [Prod.Lex.lt_iff]
          simp [rank, Reads.depth, hat.host_eq, hat.device_eq]
  | finishing cmd hcmd hat =>
      refine ⟨.device, advances_device hcmd hat.host_eq ?_ (finish_next hcmd hat)
        (rank_lt_of_inner rfl ?_)⟩
      · rw [hat.status_eq]
        decide
      · rw [Prod.Lex.lt_iff]
        simp [rank, State.deviceWrite, hat.host_eq, hat.device_eq, kstFinished,
          kstReady]
  | finished cmd host hcmd hat hhost =>
      have hwaits : state.slot .status ≠ kstReady := by
        rw [hat.status_eq]
        decide
      rcases hhost with rfl | rfl
      · refine ⟨.host, advances_host hat.device_eq hwaits
          (waitFinished_next hcmd hat) (rank_lt_of_inner rfl ?_)⟩
        rw [Prod.Lex.lt_iff]
        simp [rank, hat.host_eq, hat.device_eq, hwaits]
      · refine ⟨.host, advances_host hat.device_eq hwaits
          (release_next hcmd hat) (rank_lt_of_inner rfl ?_)⟩
        rw [Prod.Lex.lt_iff]
        simp [rank, State.hostWrite, hat.host_eq]
  | freeing cmd left hcmd hat =>
      have hwaits : state.slot .status ≠ kstReady := by
        rw [hat.status_eq]
        decide
      cases left with
      | nil =>
          refine ⟨.host, advances_host hat.device_eq hwaits (freed_next hcmd hat) ?_⟩
          obtain ⟨hlt, -⟩ := List.getElem?_eq_some_iff.mp hcmd
          rw [Prod.Lex.lt_iff]
          refine .inl ?_
          simp only [rank, ofLex_toLex]
          omega
      | cons chunk left =>
          refine ⟨.host, advances_host hat.device_eq hwaits (free_next hcmd hat)
            (rank_lt_of_inner rfl ?_)⟩
          rw [Prod.Lex.lt_iff]
          simp [rank, hat.host_eq]

theorem Phase.at_of_none
    (hphase : Phase argCount commands state)
    (hnone : commands[state.current]? = none) :
    At argCount commands state .waitRoom .poll kstFree state.current state.current
      false := by
  cases hphase with
  | room hat => exact hat
  | copying cmd left hcmd hat hcopied => exact absurd hcmd (by simp [hnone])
  | ready cmd device hcmd hat hdevice hcopied => exact absurd hcmd (by simp [hnone])
  | running cmd program hcmd hat hprogram => exact absurd hcmd (by simp [hnone])
  | finishing cmd hcmd hat => exact absurd hcmd (by simp [hnone])
  | finished cmd host hcmd hat hhost => exact absurd hcmd (by simp [hnone])
  | freeing cmd left hcmd hat => exact absurd hcmd (by simp [hnone])

theorem Phase.step_eq_self
    (hphase : Phase argCount commands state)
    (hnone : commands[state.current]? = none) (agent : Agent) :
    step argCount commands agent state = state := by
  have hat := hphase.at_of_none hnone
  cases agent with
  | host => rw [step, State.hostStep, hnone]
  | device =>
      refine deviceStep_of_poll hat.device_eq ?_
      rw [hat.status_eq]
      decide

theorem Phase.step
    (hphase : Phase argCount commands state) (agent : Agent) :
    Phase argCount commands (step argCount commands agent state) := by
  cases hcmd : commands[state.current]? with
  | none =>
      rw [hphase.step_eq_self hcmd]
      exact hphase
  | some cmd =>
      obtain ⟨active, hadvances⟩ := hphase.exists_advances hcmd
      by_cases hagent : agent = active
      · rw [hagent]
        exact hadvances.phase
      · rw [hadvances.waits agent hagent]
        exact hphase

theorem Phase.runSchedule
    (hphase : Phase argCount commands state) (schedule : List Agent) :
    Phase argCount commands (runSchedule argCount commands schedule state) := by
  induction schedule generalizing state with
  | nil => exact hphase
  | cons agent schedule ih => exact ih (hphase.step agent)

theorem Phase.log_spec (hphase : Phase argCount commands state) :
    SafeLog argCount commands state.log ∧
      ∃ launched, launches state.log =
        (commands.take launched).map (Command.launch argCount) := by
  cases hphase with
  | room hat => exact ⟨hat.safe, _, hat.launches_eq⟩
  | copying cmd left hcmd hat hcopied => exact ⟨hat.safe, _, hat.launches_eq⟩
  | ready cmd device hcmd hat hdevice hcopied => exact ⟨hat.safe, _, hat.launches_eq⟩
  | running cmd program hcmd hat hprogram => exact ⟨hat.safe, _, hat.launches_eq⟩
  | finishing cmd hcmd hat => exact ⟨hat.safe, _, hat.launches_eq⟩
  | finished cmd host hcmd hat hhost => exact ⟨hat.safe, _, hat.launches_eq⟩
  | freeing cmd left hcmd hat => exact ⟨hat.safe, _, hat.launches_eq⟩

theorem Phase.launches_of_none
    (hphase : Phase argCount commands state)
    (hnone : commands[state.current]? = none) :
    launches state.log = commands.map (Command.launch argCount) := by
  rw [(hphase.at_of_none hnone).launches_eq,
    List.take_of_length_le (List.getElem?_eq_none_iff.mp hnone)]

end Phases

section Fairness

variable (argCount : Word → Fin (maxKernelArgs + 1)) (commands : List Command)

/-- Both agents get a turn again and again. -/
def Fair (schedule : ℕ → Agent) : Prop :=
  ∀ agent n, ∃ m, n ≤ m ∧ schedule m = agent

/-- The states of an infinite run. -/
def stateAt (schedule : ℕ → Agent) (state : State) : ℕ → State
  | 0 => state
  | n + 1 => step argCount commands (schedule n) (stateAt schedule state n)

variable {argCount commands} {schedule : ℕ → Agent} {state : State}

theorem phase_stateAt (hphase : Phase argCount commands state) (n : ℕ) :
    Phase argCount commands (stateAt argCount commands schedule state n) := by
  induction n with
  | zero => exact hphase
  | succ n ih => exact ih.step (schedule n)

/-- While only the agent that polls has a turn, nothing changes. -/
theorem stateAt_eq_of_waits
    {agent : Agent} {n : ℕ}
    (hwaits : ∀ other, other ≠ agent →
      step argCount commands other (stateAt argCount commands schedule state n) =
        stateAt argCount commands schedule state n) (count : ℕ) :
    (∀ k, n ≤ k → k < n + count → schedule k ≠ agent) →
      stateAt argCount commands schedule state (n + count) =
        stateAt argCount commands schedule state n := by
  induction count with
  | zero =>
      intro _
      rfl
  | succ count ih =>
      intro hother
      have hsame := ih fun k hge hlt => hother k hge (by omega)
      rw [← Nat.add_assoc, stateAt, hsame]
      exact hwaits _ (hother (n + count) (by omega) (by omega))

theorem exists_done
    (hfair : Fair schedule) (hphase : Phase argCount commands state) :
    ∃ n, commands[(stateAt argCount commands schedule state n).current]? = none := by
  suffices hrank : ∀ (r : ℕ ×ₗ ℕ ×ₗ ℕ) (n : ℕ),
      rank commands (stateAt argCount commands schedule state n) = r →
        ∃ m, commands[(stateAt argCount commands schedule state m).current]? =
          none from hrank _ 0 rfl
  intro r
  -- The rank falls whenever the agent that does not poll has its turn.
  induction r using WellFoundedLT.induction with
  | ind r ih =>
      intro n hn
      cases hcmd : commands[(stateAt argCount commands schedule state n).current]? with
      | none => exact ⟨n, hcmd⟩
      | some cmd =>
          obtain ⟨agent, hadvances⟩ :=
            (phase_stateAt hphase n).exists_advances hcmd
          have hturn := hfair agent n
          obtain ⟨hge, hagent⟩ := Nat.find_spec hturn
          obtain ⟨count, hcount⟩ := Nat.exists_eq_add_of_le hge
          have hsame := stateAt_eq_of_waits hadvances.waits count
            fun k hk hlt heq => Nat.find_min hturn (hcount ▸ hlt) ⟨hk, heq⟩
          have hnext : stateAt argCount commands schedule state
              (Nat.find hturn + 1) = step argCount commands agent
                (stateAt argCount commands schedule state n) := by
            rw [stateAt, hagent, hcount, hsame]
          exact ih _ (hn ▸ hadvances.rank_lt) _ (congrArg (rank commands) hnext)

theorem stateAt_of_done
    (hphase : Phase argCount commands state) {n : ℕ}
    (hdone : commands[(stateAt argCount commands schedule state n).current]? = none)
    (count : ℕ) :
    stateAt argCount commands schedule state (n + count) =
      stateAt argCount commands schedule state n := by
  induction count with
  | zero => rfl
  | succ count ih =>
      rw [← Nat.add_assoc, stateAt, ih]
      exact (phase_stateAt hphase n).step_eq_self hdone _

end Fairness

/-- The slot starts free.  Then in every schedule every action is safe behind
those before it and the launches are the first commands in their order, and in
every fair schedule each command is launched once. -/
theorem slot_protocol
    (argCount : Word → Fin (maxKernelArgs + 1)) (commands : List Command)
    (slot : SlotWord → Word) (hfree : slot .status = kstFree) :
    (∀ schedule : List Agent,
      SafeLog argCount commands
          (runSchedule argCount commands schedule (.initial slot)).log ∧
        launches (runSchedule argCount commands schedule (.initial slot)).log <+:
          commands.map (Command.launch argCount)) ∧
      ∀ schedule : ℕ → Agent, Fair schedule →
        ∃ n, ∀ m, n ≤ m →
          launches (stateAt argCount commands schedule (.initial slot) m).log =
            commands.map (Command.launch argCount) := by
  have hinitial : Phase argCount commands (.initial slot) := phase_initial hfree
  refine ⟨fun schedule => ?_, fun schedule hfair => ?_⟩
  · obtain ⟨hsafe, launched, hlaunches⟩ := (hinitial.runSchedule schedule).log_spec
    refine ⟨hsafe, ?_⟩
    refine ⟨(commands.drop launched).map (Command.launch argCount), ?_⟩
    rw [hlaunches, ← List.map_append, List.take_append_drop]
  · obtain ⟨n, hdone⟩ := exists_done hfair hinitial
    refine ⟨n, fun m hm => ?_⟩
    obtain ⟨count, rfl⟩ := Nat.exists_eq_add_of_le hm
    rw [stateAt_of_done hinitial hdone count]
    exact (phase_stateAt hinitial n).launches_of_none hdone

/-- A command whose words are all the same, with two chunks. -/
def uniformCommand (value : Word) : Command where
  words := fun _ => value
  tempChunks := [0, 1]

/-- The slot protocol for three commands whose kernels have two arguments. -/
theorem threeCommands_slot_protocol :
    (∀ schedule : List Agent,
      SafeLog (fun _ => 2) [uniformCommand 1, uniformCommand 2, uniformCommand 3]
          (runSchedule (fun _ => 2)
            [uniformCommand 1, uniformCommand 2, uniformCommand 3] schedule
            (.initial fun _ => kstFree)).log ∧
        launches (runSchedule (fun _ => 2)
            [uniformCommand 1, uniformCommand 2, uniformCommand 3] schedule
            (.initial fun _ => kstFree)).log <+:
          [uniformCommand 1, uniformCommand 2, uniformCommand 3].map
            (Command.launch fun _ => 2)) ∧
      ∀ schedule : ℕ → Agent, Fair schedule →
        ∃ n, ∀ m, n ≤ m →
          launches (stateAt (fun _ => 2)
              [uniformCommand 1, uniformCommand 2, uniformCommand 3] schedule
              (.initial fun _ => kstFree) m).log =
            [uniformCommand 1, uniformCommand 2, uniformCommand 3].map
              (Command.launch fun _ => 2) :=
  slot_protocol (fun _ => 2)
    [uniformCommand 1, uniformCommand 2, uniformCommand 3] (fun _ => kstFree) rfl

end TtaSlot

end Pocl
